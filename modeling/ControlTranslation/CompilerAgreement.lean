import ControlTranslation.SharedCompilation

/-!
# The two compilers

The port is to give the rule the original gives.  It does on every pattern whose lines
are read alike and one of whose directives both refuse, at whatever piece they come to
first, or all of whose directives are read alike: the variables and actions, the
operators and their regexes, with wildcard values that the original emits as they are
and without generalization.  Elsewhere it does not: the example is a counted repetition.
-/

namespace GoCompiler

open PyText GoText ModSecurity

/-- The two compile a pattern alike: both decline it, or both propose a rule of the
same text under the same label. -/
structure SameCompilation (t : CharTables) (g : GoText.Tables) (pattern : Pattern) : Prop where
  accepted : (compileAkamaiCustomRule g pattern).isSome =
    (ModSecurity.compileAkamaiCustomRule t pattern none).isSome
  text : ∀ port original, compileAkamaiCustomRule g pattern = some port →
    ModSecurity.compileAkamaiCustomRule t pattern none = some original →
      portText port.candidateContent = originalText original.candidateContent
  label : ∀ port original, compileAkamaiCustomRule g pattern = some port →
    ModSecurity.compileAkamaiCustomRule t pattern none = some original →
      port.translationLabel = original.translationLabel

/-- Whether a directive is refused by both, or its rule declined by both; `several` is
whether there are others. -/
def refusedByBoth (t : CharTables) (g : GoText.Tables) (several : Bool) (d : Str) : Bool :=
  directiveRefused d ||
    directiveAlike t g d && (ModSecurity.parseSecrule t d).toOption.all (declinedByBoth t g several)

/-- Whether parsed rules are declined by both, or compiled and written alike: a rule that
is emitted is to be exact. -/
def rulesAlike (t : CharTables) (g : GoText.Tables) (vulnerabilityId : Str)
    (rules : List SecRule) : Bool :=
  (1 < rules.length && !anyChained rules) ||
    (rules.all (ruleAlike t g) &&
      match ModSecurity.compileRules t rules with
      | .error _ => true
      | .ok compiled => !compiled.lossy && vulnerabilityId.all fun c => !isSeparator c)

/-- Whether the directives of a pattern are declined by both, or read alike. -/
def compiledAlike (t : CharTables) (g : GoText.Tables) (pattern : Pattern) : Bool :=
  let directives := ModSecurity.splitDirectives t pattern.patternSummary
  directives.isEmpty || maxRules < directives.length ||
    directives.any (refusedByBoth t g (1 < directives.length)) ||
    (directives.all (directiveAlike t g) &&
      match directives.mapM (ModSecurity.parseSecrule t) with
      | .error _ => true
      | .ok rules => rulesAlike t g pattern.vulnerabilityId rules)

/-- Whether a pattern is read alike by the two compilers. -/
def readAlike (t : CharTables) (g : GoText.Tables) (pattern : Pattern) : Bool :=
  linesAlike pattern.patternSummary && directivesAlike t pattern.patternSummary &&
    compiledAlike t g pattern

variable {t : CharTables} {g : GoText.Tables} {text : Str}

/-- What is known of a directive of a text whose lines are alike. -/
structure AlikeDirective (t : CharTables) (d : Str) : Prop where
  keyword : ModSecurity.isSecRuleLine t d = true
  short : (lstrip d).head? ≠ some 'ſ'
  chars : ∀ c ∈ d, ordinary c = true

/-- A text both read alike is made of directives both read alike. -/
theorem alikeDirective (hlines : linesAlike text = true)
    (hdirectives : directivesAlike t text = true) :
    ∀ d ∈ ModSecurity.splitDirectives t text, AlikeDirective t d := by
  intro d hd
  obtain ⟨hjoined, hkeyword⟩ := List.mem_filter.mp hd
  have hboth := List.all_eq_true.mp hdirectives d hjoined
  simp only [Bool.and_eq_true, Bool.or_eq_true, Bool.not_eq_true', decide_eq_true_eq] at hboth
  refine ⟨hkeyword, hboth.2.resolve_left ?_, directive_ordinary hlines hd⟩
  rw [hkeyword]
  exact Bool.noConfusion

theorem AlikeDirective.spaced {d : Str} (h : AlikeDirective t d) : Spaced d := by
  intro c hc
  have hordinary := h.chars c hc
  simp only [ordinary, Bool.and_eq_true, Bool.not_eq_true'] at hordinary
  exact hordinary.1

theorem AlikeDirective.clean {d : Str} (h : AlikeDirective t d) : Clean d := by
  intro c hc
  have hordinary := h.chars c hc
  simp only [ordinary, Bool.and_eq_true, Bool.not_eq_true'] at hordinary
  exact hordinary.2

theorem AlikeDirective.parsed {d : Str} (h : AlikeDirective t d)
    (halike : directiveAlike t g d = true) : parseSecRule g d = ModSecurity.parseSecrule t d :=
  parseSecRule_eq h.keyword h.short h.spaced halike

/-- What is known of a rule parsed from one that is alike. -/
structure AlikeRule (rule : SecRule) : Prop where
  spaced : Spaced rule.argument
  clean : Clean rule.argument
  bytes : byteLength rule.argument ≤ maxArgumentLength
  selector : ∀ v ∈ rule.vars, ∀ selector, v.selector = some selector → Clean selector
  message : ∀ message, rule.message = some message → Clean message

/-- The rule it parses to is one both compile alike. -/
theorem AlikeDirective.rule {d : Str} {rule : SecRule} (h : AlikeDirective t d)
    (halike : directiveAlike t g d = true) (hparsed : ModSecurity.parseSecrule t d = .ok rule) :
    AlikeRule rule := by
  obtain ⟨hwithin, hbytes⟩ := parseSecrule_within hparsed halike
  exact ⟨fun c hc => h.spaced c (hwithin.argument c hc),
    fun c hc => h.clean c (hwithin.argument c hc), hbytes,
    fun v hv selector hselector c hc => h.clean c (hwithin.selector v hv selector hselector c hc),
    fun message hmessage c hc => h.clean c (hwithin.message message hmessage c hc)⟩

/-- Steps that agree up to their errors agree over a list. -/
theorem mapM_toOption {α β : Type} {f h : α → Attempt β} : ∀ {l : List α},
    (∀ a ∈ l, (f a).toOption = (h a).toOption) → (l.mapM f).toOption = (l.mapM h).toOption := by
  intro l
  induction l with
  | nil => exact fun _ => rfl
  | cons a rest ih =>
      intro heq
      have hfirst := heq a List.mem_cons_self
      have hrest := ih fun b hb => heq b (List.mem_cons_of_mem _ hb)
      rw [List.mapM_cons, List.mapM_cons]
      cases hf : f a with
      | error e =>
          cases hh : h a with
          | error e' => rfl
          | ok b => simp [hf, hh, Except.toOption] at hfirst
      | ok b =>
          cases hh : h a with
          | error e' => simp [hf, hh, Except.toOption] at hfirst
          | ok b' =>
              obtain rfl : b = b' := by simpa [hf, hh, Except.toOption] using hfirst
              cases hfs : rest.mapM f with
              | error e =>
                  cases hhs : rest.mapM h with
                  | error e' => rfl
                  | ok bs => simp [hfs, hhs, Except.toOption] at hrest
              | ok bs =>
                  cases hhs : rest.mapM h with
                  | error e' => simp [hfs, hhs, Except.toOption] at hrest
                  | ok bs' =>
                      obtain rfl : bs = bs' := by simpa [hfs, hhs, Except.toOption] using hrest
                      rfl

/-- Rules both compile alike give the same conditions. -/
theorem compileRules_eq {rules : List SecRule} (h : ∀ rule ∈ rules, AlikeRule rule)
    (halike : ∀ rule ∈ rules, ruleAlike t g rule = true) :
    (compileRules g rules).toOption = (ModSecurity.compileRules t rules).toOption := by
  have hparts : (rules.mapM (compileRule g (1 < rules.length))).toOption =
      (rules.mapM (ModSecurity.compileRule t (1 < rules.length))).toOption :=
    mapM_toOption fun rule hrule => compileRule_eq (halike rule hrule) (h rule hrule).spaced
      (h rule hrule).clean (h rule hrule).bytes
  unfold compileRules ModSecurity.compileRules
  cases hgo : rules.mapM (compileRule g (1 < rules.length)) with
  | error e =>
      cases hpy : rules.mapM (ModSecurity.compileRule t (1 < rules.length)) with
      | error e' => rfl
      | ok parts => simp [hgo, hpy, Except.toOption] at hparts
  | ok parts =>
      cases hpy : rules.mapM (ModSecurity.compileRule t (1 < rules.length)) with
      | error e' => simp [hgo, hpy, Except.toOption] at hparts
      | ok parts' =>
          obtain rfl : parts = parts' := by simpa [hgo, hpy, Except.toOption] using hparts
          rfl

/-- The conditions of the compiled rules are clean. -/
theorem compileRules_clean {rules : List SecRule} {compiled : Compiled}
    (h : ∀ rule ∈ rules, AlikeRule rule) (halike : ∀ rule ∈ rules, ruleAlike t g rule = true)
    (hcompiled : ModSecurity.compileRules t rules = .ok compiled) :
    ∀ c ∈ compiled.conditions, CleanCondition c := by
  unfold ModSecurity.compileRules at hcompiled
  cases hparts : rules.mapM (ModSecurity.compileRule t (1 < rules.length)) with
  | error e => simp [hparts] at hcompiled
  | ok parts =>
      simp only [hparts] at hcompiled
      obtain rfl := Except.ok.inj hcompiled
      have hpart : ∀ part ∈ parts, ∀ c ∈ part.conditions, CleanCondition c := by
        intro part hpart
        obtain ⟨rule, hrule, hcompiled⟩ := mapM_ok_right hparts hpart
        exact compileRule_clean (halike rule hrule) (h rule hrule).clean (h rule hrule).selector
          hcompiled
      have hrun : ∀ (parts : List Compiled) (first : Compiled),
          (∀ c ∈ first.conditions, CleanCondition c) →
          (∀ part ∈ parts, ∀ c ∈ part.conditions, CleanCondition c) →
          ∀ c ∈ (parts.foldl Compiled.append first).conditions, CleanCondition c := by
        intro parts
        induction parts with
        | nil => exact fun _ hfirst _ => hfirst
        | cons part rest ih =>
            intro first hfirst hparts
            refine ih _ (fun c hc => ?_) fun p hp => hparts p (List.mem_cons_of_mem _ hp)
            rcases List.mem_append.mp hc with hc | hc
            · exact hfirst c hc
            · exact hparts part List.mem_cons_self c hc
      exact hrun parts _ (fun c hc => absurd hc List.not_mem_nil) hpart

/-- A rule over clean conditions is clean. -/
theorem ruleBody_clean {pattern : Pattern} {rules : List SecRule} {conditions : List Condition}
    (hid : Clean pattern.vulnerabilityId) (hrules : ∀ rule ∈ rules, AlikeRule rule)
    (hconditions : ∀ c ∈ conditions, CleanCondition c) :
    CleanRule (ruleBody pattern rules conditions) where
  name := by
    have hfirst : Clean "JANUS-".toList := by decide
    have hdash : Clean ['-'] := by decide
    exact ((hfirst.append hid).append hdash).append (clean_slug _)
  description := by
    simp only [ruleBody]
    cases hmessage : rules.findSome? (·.message) with
    | some message =>
        obtain ⟨rule, hrule, hfound⟩ := List.exists_of_findSome?_eq_some hmessage
        exact (hrules rule hrule).message message hfound
    | none =>
        have hfirst : Clean "Compiled from the proven ModSecurity rule for ".toList := by decide
        have hsecond : Clean "; matches ".toList := by decide
        have hcomma : Clean ", ".toList := by decide
        have hend : Clean ['.'] := by decide
        refine (((hfirst.append hid).append hsecond).append (clean_join hcomma ?_)).append hend
        intro label hlabel
        rw [mem_unique] at hlabel
        obtain ⟨c, -, rfl⟩ := List.mem_map.mp hlabel
        exact clean_label c
  conditions := hconditions
  tag := by
    intro tag htag
    simp only [ruleBody, mem_unique] at htag
    rcases List.mem_append.mp htag with hfixed | hsource
    · simp only [List.mem_cons, List.not_mem_nil, or_false] at hfixed
      rcases hfixed with rfl | rfl | rfl | rfl
      · decide
      · exact hid
      · decide
      · decide
    · exact clean_tag (List.mem_filter.mp ((mem_unique tag _).mp hsource)).2

/-- Two declined patterns are compiled alike. -/
theorem SameCompilation.of_declined {pattern : Pattern}
    (hport : compileAkamaiCustomRule g pattern = none)
    (horiginal : ModSecurity.compileAkamaiCustomRule t pattern none = none) :
    SameCompilation t g pattern where
  accepted := by rw [hport, horiginal]
  text port original h := by rw [hport] at h; cases h
  label port original h := by rw [hport] at h; cases h

/-- Two proposals of one text and one label are compiled alike. -/
theorem SameCompilation.of_proposed {pattern : Pattern} {port original : Proposal}
    (hport : compileAkamaiCustomRule g pattern = some port)
    (horiginal : ModSecurity.compileAkamaiCustomRule t pattern none = some original)
    (htext : portText port.candidateContent = originalText original.candidateContent)
    (hlabel : port.translationLabel = original.translationLabel) :
    SameCompilation t g pattern where
  accepted := by rw [hport, horiginal]; rfl
  text port' original' h h' := by
    rw [hport] at h
    rw [horiginal] at h'
    rw [← Option.some.inj h, ← Option.some.inj h']
    exact htext
  label port' original' h h' := by
    rw [hport] at h
    rw [horiginal] at h'
    rw [← Option.some.inj h, ← Option.some.inj h']
    exact hlabel

/-- The port proposes nothing but narrower and equivalent rules. -/
theorem port_label {pattern : Pattern} {port : Proposal}
    (h : compileAkamaiCustomRule g pattern = some port) : port.translationLabel ≠ .broader := by
  unfold compileAkamaiCustomRule at h
  cases hcompile : compile g pattern with
  | error e =>
      rw [hcompile] at h
      cases h
  | ok proposal =>
      rw [hcompile] at h
      obtain rfl : proposal = port := Option.some.inj h
      simp only [compile] at hcompile
      split_ifs at hcompile
      split at hcompile
      · cases hcompile
      · split_ifs at hcompile
        split at hcompile
        · cases hcompile
        · split_ifs at hcompile
          rw [← Except.ok.inj hcompile]
          simp only [propose, labelOf]
          split_ifs <;> exact TranslationLabel.noConfusion

/-- A generalized rule is never compiled alike: the port has no label for it. -/
theorem generalized_apart {pattern : Pattern} {original : Proposal}
    (horiginal : ModSecurity.compileAkamaiCustomRule t pattern none = some original)
    (hbroader : original.translationLabel = .broader) : ¬SameCompilation t g pattern := by
  intro hsame
  have haccepted := hsame.accepted
  rw [horiginal] at haccepted
  obtain ⟨port, hport⟩ := Option.isSome_iff_exists.mp haccepted
  have hlabel := hsame.label port original hport horiginal
  exact port_label hport (hlabel.trans hbroader)

/-- Without directives, or with a declined one or too many, both decline. -/
theorem declined_directives {pattern : Pattern}
    (hsplit : splitDirectives pattern.patternSummary =
      ModSecurity.splitDirectives t pattern.patternSummary)
    (h : ModSecurity.splitDirectives t pattern.patternSummary = [] ∨
      maxRules < (ModSecurity.splitDirectives t pattern.patternSummary).length ∨
      ((∃ e, (ModSecurity.splitDirectives t pattern.patternSummary).mapM (parseSecRule g) =
        .error e) ∧ ∃ e, (ModSecurity.splitDirectives t pattern.patternSummary).mapM
          (ModSecurity.parseSecrule t) = .error e)) : SameCompilation t g pattern := by
  refine SameCompilation.of_declined ?_ ?_
  · unfold compileAkamaiCustomRule compile
    rw [hsplit]
    dsimp only
    split_ifs with hnone hmany
    · rfl
    · rfl
    · obtain ⟨⟨e, he⟩, -⟩ := (h.resolve_left hnone).resolve_left hmany
      rw [he]
      rfl
  · unfold ModSecurity.compileAkamaiCustomRule ModSecurity.compile
    dsimp only
    split_ifs with hnone hmany
    · rfl
    · rfl
    · obtain ⟨-, e, he⟩ := (h.resolve_left hnone).resolve_left hmany
      rw [he]

/-- What one directive of a pattern is declined for: it is not parsed, or its rule is not
compiled. -/
def Declines (parse : Str → Attempt SecRule) (compileOne : SecRule → Attempt Compiled)
    (d : Str) : Prop :=
  (∃ e, parse d = .error e) ∨ ∃ rule, parse d = .ok rule ∧ ∃ e, compileOne rule = .error e

/-- A directive both refuse makes both refuse the text. -/
theorem Declines.rules {parse : Str → Attempt SecRule}
    (compileOne : Bool → SecRule → Attempt Compiled) {directives : List Str} {d : Str}
    {rules : List SecRule} (hd : d ∈ directives)
    (h : Declines parse (compileOne (1 < directives.length)) d)
    (hrules : directives.mapM parse = .ok rules) :
    ∃ e, rules.mapM (compileOne (1 < rules.length)) = .error e := by
  obtain ⟨rule, hrule, hparsed⟩ := mapM_ok_left hrules hd
  rw [← (mapM_ok hrules).length_eq]
  refine mapM_error hrule ?_
  rcases h with ⟨e, he⟩ | ⟨rule', hparsed', hcompile⟩
  · rw [he] at hparsed
    cases hparsed
  · rw [Except.ok.inj (hparsed.symm.trans hparsed')]
    exact hcompile

/-- A pattern is declined by the port where it declines one directive, -/
theorem port_declined {pattern : Pattern} {d : Str}
    (hd : d ∈ splitDirectives pattern.patternSummary)
    (h : Declines (parseSecRule g)
      (compileRule g (1 < (splitDirectives pattern.patternSummary).length)) d) :
    compileAkamaiCustomRule g pattern = none := by
  unfold compileAkamaiCustomRule compile
  dsimp only
  split_ifs
  · rfl
  · rfl
  · cases hrules : (splitDirectives pattern.patternSummary).mapM (parseSecRule g) with
    | error e => rfl
    | ok rules =>
        obtain ⟨e, he⟩ := Declines.rules (compileRule g) hd h hrules
        dsimp only
        split_ifs
        · rfl
        · rw [compileRules, he]
          rfl

/-- and by the original where the original does. -/
theorem original_declined {pattern : Pattern} {d : Str}
    (hd : d ∈ ModSecurity.splitDirectives t pattern.patternSummary)
    (h : Declines (ModSecurity.parseSecrule t) (ModSecurity.compileRule t
      (1 < (ModSecurity.splitDirectives t pattern.patternSummary).length)) d) :
    ModSecurity.compileAkamaiCustomRule t pattern none = none := by
  unfold ModSecurity.compileAkamaiCustomRule ModSecurity.compile
  dsimp only
  split_ifs
  · rfl
  · rfl
  · cases hrules : (ModSecurity.splitDirectives t pattern.patternSummary).mapM
        (ModSecurity.parseSecrule t) with
    | error e => rfl
    | ok rules =>
        obtain ⟨e, he⟩ := Declines.rules (ModSecurity.compileRule t) hd h hrules
        dsimp only
        split_ifs
        · rfl
        · rw [ModSecurity.compileRules, he]

/-- A refused directive is declined by both. -/
theorem AlikeDirective.refused {d : Str} {several : Bool} (h : AlikeDirective t d)
    (hrefused : refusedByBoth t g several d = true) :
    Declines (parseSecRule g) (compileRule g several) d ∧
      Declines (ModSecurity.parseSecrule t) (ModSecurity.compileRule t several) d := by
  rw [refusedByBoth, Bool.or_eq_true, Bool.and_eq_true] at hrefused
  rcases hrefused with hpiece | ⟨halike, hrule⟩
  · exact ⟨Or.inl (parseSecRule_refused h.keyword h.short h.spaced hpiece),
      Or.inl (parseSecrule_refused hpiece)⟩
  · have hsame := h.parsed halike
    cases hparsed : ModSecurity.parseSecrule t d with
    | error e => exact ⟨Or.inl ⟨e, hsame.trans hparsed⟩, Or.inl ⟨e, hparsed⟩⟩
    | ok rule =>
        have hdeclined : declinedByBoth t g several rule = true := by
          simpa [hparsed, Except.toOption] using hrule
        have hpieces := h.rule halike hparsed
        exact ⟨Or.inr ⟨rule, hsame.trans hparsed,
            declined_port hpieces.spaced hpieces.bytes hdeclined⟩,
          Or.inr ⟨rule, hparsed, declined_original hdeclined⟩⟩

/-- The directives of a pattern, parsed to the same rules by both. -/
structure ParsedAlike (t : CharTables) (g : GoText.Tables) (pattern : Pattern)
    (rules : List SecRule) : Prop where
  split : splitDirectives pattern.patternSummary =
    ModSecurity.splitDirectives t pattern.patternSummary
  nonempty : ModSecurity.splitDirectives t pattern.patternSummary ≠ []
  bounded : ¬maxRules < (ModSecurity.splitDirectives t pattern.patternSummary).length
  port : (ModSecurity.splitDirectives t pattern.patternSummary).mapM (parseSecRule g) = .ok rules
  original : (ModSecurity.splitDirectives t pattern.patternSummary).mapM
    (ModSecurity.parseSecrule t) = .ok rules

/-- What the port does with the rules. -/
theorem ParsedAlike.compile_port {pattern : Pattern} {rules : List SecRule}
    (h : ParsedAlike t g pattern rules) : compile g pattern =
      if 1 < rules.length ∧ anyChained rules = false then
        .error "independent SecRule directives do not compose into one custom rule"
      else
        match compileRules g rules with
        | .error e => .error e
        | .ok compiled =>
            if compiled.conditions = [] then .error "no conditions were produced"
            else .ok (propose pattern rules compiled) := by
  unfold compile
  rewrite [h.split, if_neg h.nonempty, if_neg h.bounded, h.port]
  rfl

/-- What the original does with them, without requirements. -/
theorem ParsedAlike.compile_original {pattern : Pattern} {rules : List SecRule}
    (h : ParsedAlike t g pattern rules) : ModSecurity.compile t pattern none =
      if 1 < rules.length ∧ anyChained rules = false then
        .error "independent SecRule directives do not compose into one custom rule"
      else
        match ModSecurity.compileRules t rules with
        | .error e => .error e
        | .ok compiled =>
            if compiled.conditions = [] then .error "no conditions were produced"
            else if compiled.lossy ∧ compiled.narrowed then
              .error ("translation both broadens regex constructs and narrows " ++
                "encoding coverage")
            else
              .ok (some (ModSecurity.propose pattern rules compiled compiled.conditions [])) := by
  unfold ModSecurity.compile
  rewrite [if_neg h.nonempty, if_neg h.bounded, h.original]
  rfl

/-- Rules that neither compiles are declined by both. -/
theorem ParsedAlike.declined {pattern : Pattern} {rules : List SecRule}
    (h : ParsedAlike t g pattern rules)
    (hrules : (1 < rules.length ∧ anyChained rules = false) ∨
      ((∃ e, compileRules g rules = .error e) ∧
        ∃ e, ModSecurity.compileRules t rules = .error e)) : SameCompilation t g pattern := by
  refine SameCompilation.of_declined ?_ ?_
  · unfold compileAkamaiCustomRule
    rw [h.compile_port]
    split_ifs with hloose
    · rfl
    · obtain ⟨⟨e, he⟩, -⟩ := hrules.resolve_left hloose
      rw [he]
      rfl
  · unfold ModSecurity.compileAkamaiCustomRule
    rw [h.compile_original]
    split_ifs with hloose
    · rfl
    · obtain ⟨-, e, he⟩ := hrules.resolve_left hloose
      rw [he]

/-- Rules that are alike one by one are compiled alike together. -/
theorem ParsedAlike.agree {pattern : Pattern} {rules : List SecRule}
    (h : ParsedAlike t g pattern rules) (hrule : ∀ rule ∈ rules, AlikeRule rule)
    (halike : ∀ rule ∈ rules, ruleAlike t g rule = true)
    (hemitted : ∀ compiled, ModSecurity.compileRules t rules = .ok compiled →
      compiled.lossy = false ∧ Clean pattern.vulnerabilityId) : SameCompilation t g pattern := by
  have hcompile := compileRules_eq hrule halike
  cases hcompiled : ModSecurity.compileRules t rules with
  | error e =>
      cases hgo : compileRules g rules with
      | error e' => exact h.declined (Or.inr ⟨⟨e', hgo⟩, e, hcompiled⟩)
      | ok compiled => simp [hgo, hcompiled, Except.toOption] at hcompile
  | ok compiled =>
      have hgo : compileRules g rules = .ok compiled := by
        cases hgo : compileRules g rules with
        | error e' => simp [hgo, hcompiled, Except.toOption] at hcompile
        | ok compiled' =>
            obtain rfl : compiled' = compiled := by
              simpa [hgo, hcompiled, Except.toOption] using hcompile
            rfl
      have hclean := compileRules_clean hrule halike hcompiled
      obtain ⟨hexact, hid⟩ := hemitted compiled hcompiled
      by_cases hloose : 1 < rules.length ∧ anyChained rules = false
      · exact h.declined (Or.inl hloose)
      have hport := h.compile_port
      have horiginal := h.compile_original
      simp only [if_neg hloose, hgo] at hport
      simp only [if_neg hloose, hcompiled, hexact, Bool.false_eq_true, false_and, if_false]
        at horiginal
      by_cases hempty : compiled.conditions = []
      · rw [if_pos hempty] at hport horiginal
        refine SameCompilation.of_declined ?_ ?_
        · rw [compileAkamaiCustomRule, hport]
          rfl
        · rw [ModSecurity.compileAkamaiCustomRule, horiginal]
      · rw [if_neg hempty] at hport horiginal
        have hp : compileAkamaiCustomRule g pattern = some (propose pattern rules compiled) := by
          rw [compileAkamaiCustomRule, hport]
          rfl
        have ho : ModSecurity.compileAkamaiCustomRule t pattern none =
            some (ModSecurity.propose pattern rules compiled compiled.conditions []) := by
          rw [ModSecurity.compileAkamaiCustomRule, horiginal]
        refine SameCompilation.of_proposed hp ho (portText_eq (ruleBody_clean hid hrule hclean)) ?_
        simp [propose, ModSecurity.propose, labelOf, ModSecurity.labelOf, hexact]

/-- **The two compilers** give the same rule under the same label, or both none, for a
pattern they read alike. -/
theorem compilers_agree {t : CharTables} {g : GoText.Tables} {pattern : Pattern}
    (halike : readAlike t g pattern = true) : SameCompilation t g pattern := by
  simp only [readAlike, Bool.and_eq_true] at halike
  obtain ⟨⟨hlines, hdirectives⟩, hcompiled⟩ := halike
  have hsplit := splitDirectives_eq hlines hdirectives
  have hdirective := alikeDirective hlines hdirectives
  simp only [compiledAlike, Bool.or_eq_true, List.isEmpty_iff, decide_eq_true_eq,
    Bool.and_eq_true] at hcompiled
  rcases hcompiled with ((hnone | hmany) | hrefused) | ⟨hall, hrules⟩
  · exact declined_directives hsplit (Or.inl hnone)
  · exact declined_directives hsplit (Or.inr (Or.inl hmany))
  · obtain ⟨d, hd, hboth⟩ := List.any_eq_true.mp hrefused
    obtain ⟨hport, horiginal⟩ := (hdirective d hd).refused hboth
    refine SameCompilation.of_declined ?_ (original_declined hd horiginal)
    rw [← hsplit] at hd hport
    exact port_declined hd hport
  · have halike : ∀ d ∈ ModSecurity.splitDirectives t pattern.patternSummary,
        directiveAlike t g d = true := List.all_eq_true.mp hall
    have hparsed : (ModSecurity.splitDirectives t pattern.patternSummary).mapM (parseSecRule g) =
        (ModSecurity.splitDirectives t pattern.patternSummary).mapM (ModSecurity.parseSecrule t) :=
      mapM_congr fun d hd => (hdirective d hd).parsed (halike d hd)
    cases horiginal : (ModSecurity.splitDirectives t pattern.patternSummary).mapM
        (ModSecurity.parseSecrule t) with
    | error e =>
        rw [horiginal] at hparsed
        exact declined_directives hsplit (Or.inr (Or.inr ⟨⟨e, hparsed⟩, e, horiginal⟩))
    | ok rules =>
        rw [horiginal] at hparsed hrules
        by_cases hnone : ModSecurity.splitDirectives t pattern.patternSummary = []
        · exact declined_directives hsplit (Or.inl hnone)
        by_cases hmany : maxRules < (ModSecurity.splitDirectives t pattern.patternSummary).length
        · exact declined_directives hsplit (Or.inr (Or.inl hmany))
        have hboth : ParsedAlike t g pattern rules := ⟨hsplit, hnone, hmany, hparsed, horiginal⟩
        have hrule : ∀ rule ∈ rules, AlikeRule rule := by
          intro rule hrule
          obtain ⟨d, hd, hfound⟩ := mapM_ok_right horiginal hrule
          exact (hdirective d hd).rule (halike d hd) hfound
        simp only [rulesAlike, Bool.or_eq_true, Bool.and_eq_true, decide_eq_true_eq,
          Bool.not_eq_true'] at hrules
        rcases hrules with hloose | ⟨hrules, hcompiled⟩
        · exact hboth.declined (Or.inl hloose)
        · refine hboth.agree hrule (List.all_eq_true.mp hrules) fun compiled hok => ?_
          rw [hok] at hcompiled
          simp only [Bool.and_eq_true, Bool.not_eq_true'] at hcompiled
          exact ⟨hcompiled.1, fun c hc => by simpa using List.all_eq_true.mp hcompiled.2 c hc⟩

/-- Upper case makes no separator out of another character. -/
theorem separator_of_toUpper :
    ∀ c : Char, isSeparator c.toUpper = true → isSeparator c = true := by
  intro c h
  have hupper := Glob.toNat_toUpper c
  simp only [isSeparator, Bool.or_eq_true, beq_iff_eq, ← Char.toNat_inj] at h ⊢
  have hline : ('\u2028' : Char).toNat = 8232 := by decide
  have hparagraph : ('\u2029' : Char).toNat = 8233 := by decide
  split_ifs at hupper <;> omega

/-- The tables that know ASCII and nothing else; concrete runs use these. -/
def asciiTables : GoText.Tables where
  isLetter := Char.isAlpha
  isDigit := Char.isDigit
  toUpper := Char.toUpper
  toLower := Char.toLower
  isLetter_ascii := agrees_ascii _
  isDigit_ascii := agrees_ascii _
  toUpper_ascii := agrees_ascii _
  toLower_ascii := agrees_ascii _
  toUpper_separator := separator_of_toUpper

/-- Exactly two letters, counted. -/
def countedPattern : Pattern :=
  ⟨"SecRule ARGS:x \"@rx ^a\x7b2\x7d$\"".toList, "CVE-1".toList⟩

/-- The original compiles a counted repetition and the port declines it. -/
theorem compilers_agree_counted :
    ¬SameCompilation PyText.asciiTables asciiTables countedPattern := by
  intro hsame
  have haccepted := hsame.accepted
  have hport : (compileAkamaiCustomRule asciiTables countedPattern).isSome = false := by
    decide +kernel
  have horiginal : (ModSecurity.compileAkamaiCustomRule PyText.asciiTables countedPattern
      none).isSome = true := by
    decide +kernel
  rw [hport, horiginal] at haccepted
  cases haccepted

/-- A ladder of brackets in a query argument, written over two lines. -/
def ladderPattern : Pattern :=
  ⟨("SecRule ARGS_GET:q \\\r\n" ++
      "  \"@rx ^x(?:\\[|%5B|%255B).*y\" \"id:1,t:none,msg:'nested keys'\"").toList,
    "CVE-2".toList⟩

/-- Both compile a ladder of encodings to the same rule. -/
theorem compilers_agree_ladder :
    SameCompilation PyText.asciiTables asciiTables ladderPattern ∧
      (compileAkamaiCustomRule asciiTables ladderPattern).isSome = true :=
  ⟨compilers_agree (by decide +kernel), by decide +kernel⟩

end GoCompiler
