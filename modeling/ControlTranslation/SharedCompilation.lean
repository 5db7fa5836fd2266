import ControlTranslation.SharedRules

/-!
# One rule from both compilers

Rule by rule and condition by condition the two compilers give the same object when
the directives are parsed alike, their regexes are read alike and their values are
emitted as they are.  The one encoder's own escapes are not needed then: what a rule
is made of has no separators.
-/

namespace GoCompiler

open PyText GoText ModSecurity

/-- Whether the operator of a rule gives the same values; only the original reads the
structured grammar where a regex has too many. -/
def operatorValuesAlike (t : CharTables) (g : GoText.Tables) (rule : SecRule) : Bool :=
  rule.operator ≠ "rx".toList ||
    regexAlike t g rule.argument && ((translate t rule.argument).toOption.isSome ||
      (compactStructuredJndiRegex rule.argument).toOption.isNone)

/-- Whether the values of a variable's condition are emitted as they are. -/
def valuesKept (t : CharTables) (g : GoText.Tables) (m : Match) (v : Variable) : Bool :=
  match component v.collection with
  | none => true
  | some c =>
      if m.wildcard then
        c.literalOnly ||
          removeSubsumedLiteralWildcards (generalizeWildcardTransportForms m.values) = m.values
      else
        v.collection ≠ "REQUEST_METHOD".toList ||
          m.values.all fun value => upper g value = t.upper value

/-- Whether a rule becomes the same conditions in both. -/
def ruleAlike (t : CharTables) (g : GoText.Tables) (rule : SecRule) : Bool :=
  operatorValuesAlike t g rule &&
    match ModSecurity.operatorMatch t rule with
    | .error _ => true
    | .ok m => rule.vars.all (valuesKept t g m)

/-- A text without the characters that only one encoder escapes. -/
def Clean (s : Str) : Prop := ∀ c ∈ s, isSeparator c = false

/-- What the matches of both programs have in common. -/
structure CommonMatch (m : Match) : Prop where
  limitations : m.limitations = []
  explicit : m.transportFormsExplicit = false
  bounded : m.wildcard = true → m.values.length ≤ maxValues
  clean : ∀ value ∈ m.values, Clean value

theorem splitAddresses_eq {argument : Str} (h : Spaced argument) :
    splitAddresses argument = ModSecurity.splitAddresses argument := by
  have hsplit : argument.splitOnP (fun c => c == ',' || GoText.isSpace c) =
      argument.splitOnP (fun c => c == ',' || PyText.isSpace c) :=
    splitOnP_congr fun c hc => by rw [h.isSpace_eq hc]
  have hstrip : ∀ piece ∈ argument.splitOnP (fun c => c == ',' || PyText.isSpace c),
      strip piece = piece := by
    intro piece hpiece
    have hnone : ∀ c ∈ piece, PyText.isSpace c = false := by
      intro c hc
      have hout := splitOnP_outside hpiece hc
      exact (Bool.or_eq_false_iff.mp hout).2
    have hright := rstrip_append hnone []
    have hleft : lstrip piece = piece := by
      cases piece with
      | nil => rfl
      | cons c rest =>
          unfold lstrip
          rw [List.dropWhile_cons, hnone c List.mem_cons_self, if_neg Bool.false_ne_true]
    rw [strip, hleft]
    simpa [rstrip] using hright
  unfold splitAddresses ModSecurity.splitAddresses
  rw [hsplit]
  have hfilter : (argument.splitOnP fun c => c == ',' || PyText.isSpace c).filter
        (fun item => strip item ≠ []) =
      (argument.splitOnP fun c => c == ',' || PyText.isSpace c).filter (· ≠ []) :=
    List.filter_congr fun piece hpiece => by rw [hstrip piece hpiece]
  rw [hfilter]
  exact (List.map_id _).symm.trans (List.map_congr_left fun piece hpiece =>
    (hstrip piece (List.mem_of_mem_filter hpiece)).symm)

/-- Both make the same match of a pattern both read alike. -/
theorem regexMatch_eq {t : CharTables} {g : GoText.Tables} {argument : Str}
    (halike : regexAlike t g argument = true)
    (hjndi : (translate t argument).toOption.isSome = true ∨
      (compactStructuredJndiRegex argument).toOption = none)
    (hbytes : byteLength argument ≤ maxRegexLength) :
    (regexMatch g argument).toOption = (ModSecurity.regexMatch t argument).toOption := by
  have heq := translateRegex_eq halike hbytes
  unfold regexMatch ModSecurity.regexMatch
  cases hgo : translateRegex g argument with
  | error e =>
      cases hpy : translate t argument with
      | error e' =>
          simp only [hpy, Except.toOption, Option.isSome_none, Bool.false_eq_true,
            false_or] at hjndi
          simp only
          split_ifs
          · rfl
          · exact hjndi.symm
      | ok r => simp [hgo, hpy, Except.toOption] at heq
  | ok r =>
      cases hpy : translate t argument with
      | error e' => simp [hgo, hpy, Except.toOption] at heq
      | ok r' =>
          obtain rfl : r = r' := by simpa [hgo, hpy, Except.toOption] using heq
          rfl

/-- **Operators.**  The operator of an alike rule gives the same match in both. -/
theorem operatorMatch_eq {t : CharTables} {g : GoText.Tables} {rule : SecRule}
    (halike : operatorValuesAlike t g rule = true) (hspaced : Spaced rule.argument)
    (hbytes : byteLength rule.argument ≤ maxArgumentLength) :
    (operatorMatch g rule).toOption = (ModSecurity.operatorMatch t rule).toOption := by
  unfold operatorMatch ModSecurity.operatorMatch
  by_cases hrx : rule.operator = "rx".toList
  · simp only [operatorValuesAlike, hrx, ne_eq, not_true_eq_false, decide_false, Bool.false_or,
      Bool.and_eq_true, Bool.or_eq_true, Option.isNone_iff_eq_none] at halike
    rw [if_pos hrx, if_pos hrx]
    exact regexMatch_eq halike.1 halike.2 hbytes
  · rw [if_neg hrx, if_neg hrx]
    simp only [fields_eq hspaced, phraseMatch, ModSecurity.phraseMatch, splitAddresses_eq hspaced]

theorem Clean.append {s s' : Str} (h : Clean s) (h' : Clean s') : Clean (s ++ s') := by
  intro c hc
  rcases List.mem_append.mp hc with hc | hc
  · exact h c hc
  · exact h' c hc

/-- A match of a clean literal has nothing the two escape differently. -/
theorem literalMatch_common {before after argument : Str} {wildcard : Bool} {m : Match}
    (hbefore : Clean before) (hafter : Clean after) (hargument : Clean argument)
    (h : literalMatch before after wildcard argument = .ok m) : CommonMatch m := by
  unfold literalMatch at h
  split_ifs at h
  obtain rfl := Except.ok.inj h
  refine ⟨rfl, rfl, fun _ => (by decide : 1 ≤ maxValues), ?_⟩
  intro value hvalue
  rw [List.mem_singleton.mp hvalue]
  exact (hbefore.append hargument).append hafter

theorem memberMatch_common {emptyText : String} {members : List Str} {m : Match}
    (hmembers : ∀ member ∈ members, Clean member)
    (h : memberMatch emptyText members = .ok m) : CommonMatch m := by
  unfold memberMatch at h
  split_ifs at h
  obtain rfl := Except.ok.inj h
  exact ⟨rfl, rfl, fun hwild => absurd hwild Bool.false_ne_true, hmembers⟩

theorem phraseMatch_common {argument : Str} {m : Match} (hargument : Clean argument)
    (h : ModSecurity.phraseMatch argument = .ok m) : CommonMatch m := by
  simp only [ModSecurity.phraseMatch] at h
  split_ifs at h with hempty hmany
  obtain rfl := Except.ok.inj h
  refine ⟨rfl, rfl, fun _ => ?_, ?_⟩
  · rw [List.length_map]
    exact Nat.le_of_not_lt hmany
  · intro value hvalue c hc
    obtain ⟨item, hitem, rfl⟩ := List.mem_map.mp hvalue
    rw [mem_unique] at hitem
    rcases List.mem_cons.mp hc with rfl | hc
    · decide
    · rcases List.mem_append.mp hc with hc | hc
      · exact hargument c (splitOnP_subset (List.mem_of_mem_filter hitem) hc)
      · rw [List.mem_singleton.mp hc]
        decide

/-- **Matches.**  What an alike rule's operator gives is bounded and clean. -/
theorem operatorMatch_common {t : CharTables} {g : GoText.Tables} {rule : SecRule} {m : Match}
    (halike : operatorValuesAlike t g rule = true) (hclean : Clean rule.argument)
    (h : ModSecurity.operatorMatch t rule = .ok m) : CommonMatch m := by
  have hstar : Clean ['*'] := by
    intro c hc
    rw [List.mem_singleton.mp hc]
    decide
  have hnil : Clean [] := fun c hc => absurd hc List.not_mem_nil
  unfold ModSecurity.operatorMatch at h
  split_ifs at h with hrx hcontains hbegins hends heq hwithin hpm hip
  · simp only [operatorValuesAlike, hrx, ne_eq, not_true_eq_false, decide_false, Bool.false_or,
      Bool.and_eq_true] at halike
    unfold ModSecurity.regexMatch at h
    cases htranslate : translate t rule.argument with
    | error e =>
        simp only [htranslate] at h
        split_ifs at h
        simp [h, htranslate, Except.toOption] at halike
    | ok r =>
        simp only [htranslate] at h
        obtain rfl := Except.ok.inj h
        exact ⟨rfl, rfl, fun _ => length_values_le htranslate, values_alike halike.1 htranslate⟩
  · exact literalMatch_common hstar hstar hclean h
  · exact literalMatch_common hnil hstar hclean h
  · exact literalMatch_common hstar hnil hclean h
  · exact literalMatch_common hnil hnil hclean h
  · refine memberMatch_common (fun member hmember c hc => ?_) h
    rw [mem_unique] at hmember
    exact hclean c (splitOnP_subset (List.mem_of_mem_filter hmember) hc)
  · exact phraseMatch_common hclean h
  · refine memberMatch_common (fun member hmember c hc => ?_) h
    rw [mem_unique] at hmember
    obtain ⟨piece, hpiece, rfl⟩ := List.mem_map.mp hmember
    exact hclean c (splitOnP_subset (List.mem_of_mem_filter hpiece) (strip_subset hc))

theorem encodingVariants_eq (values : List Str) :
    encodingVariants values = ModSecurity.encodingVariants values := by
  unfold encodingVariants ModSecurity.encodingVariants
  refine congrArg unique (List.flatMap_congr fun value _ => ?_)
  rw [quoteAll_eq, quotePlusAll_eq, quoteAll_eq]

theorem literalOnly_of_method {c : Component}
    (h : component "REQUEST_METHOD".toList = some c) : c.literalOnly = true := by
  have hfound : component "REQUEST_METHOD".toList = some ⟨.requestMethodMatch,
      "request method".toList, none, false, true, none⟩ := by decide
  rw [hfound] at h
  rw [← Option.some.inj h]

/-- Kept wildcard values are emitted as they are. -/
theorem conditionValues_kept {t : CharTables} {c : Component} {v : Variable} {m : Match}
    (hmethod : v.collection ≠ "REQUEST_METHOD".toList) (hwild : m.wildcard = true)
    (hkept : removeSubsumedLiteralWildcards (generalizeWildcardTransportForms m.values) =
      m.values) : ModSecurity.conditionValues t c v m = m.values := by
  have hencoded : ¬(c.encodable = true ∧ m.wildcard = false) := by
    rw [hwild]
    exact fun h => absurd h.2 Bool.noConfusion
  have hvalues : componentValues t c v m = m.values := by
    unfold componentValues
    rw [if_neg hmethod, if_neg hencoded]
  unfold ModSecurity.conditionValues
  rw [if_pos hwild, hvalues, hkept]

/-- The values of a condition, and the bound on them that only the original checks. -/
theorem conditionValues_eq {t : CharTables} {g : GoText.Tables} {c : Component} {v : Variable}
    {m : Match} (hm : CommonMatch m) (hcomponent : component v.collection = some c)
    (hliteral : ¬(c.literalOnly = true ∧ m.wildcard = true)) (hkept : valuesKept t g m v = true) :
    conditionValues g c v m = ModSecurity.conditionValues t c v m ∧
      ¬(m.wildcard = true ∧ maxValues < (ModSecurity.conditionValues t c v m).length) := by
  simp only [valuesKept, hcomponent] at hkept
  cases hwild : m.wildcard with
  | true =>
      have hnot : c.literalOnly = false := by
        by_contra honly
        exact hliteral ⟨Bool.of_not_eq_false honly, hwild⟩
      have hmethod : v.collection ≠ "REQUEST_METHOD".toList := by
        intro hmethod
        rw [hmethod] at hcomponent
        rw [literalOnly_of_method hcomponent] at hnot
        cases hnot
      have hkept' : removeSubsumedLiteralWildcards
          (generalizeWildcardTransportForms m.values) = m.values := by
        rw [hwild, if_pos rfl, hnot, Bool.false_or] at hkept
        exact of_decide_eq_true hkept
      have hencoded : ¬(c.encodable = true ∧ m.wildcard = false) := by
        rw [hwild]
        exact fun h => absurd h.2 Bool.noConfusion
      rw [conditionValues_kept hmethod hwild hkept']
      refine ⟨?_, ?_⟩
      · unfold conditionValues
        rw [if_neg hmethod, if_neg hencoded]
      · have hbounded := hm.bounded hwild
        omega
  | false =>
      refine ⟨?_, fun h => absurd h.1 Bool.false_ne_true⟩
      unfold conditionValues ModSecurity.conditionValues componentValues
      rw [hwild, if_neg Bool.false_ne_true, encodingVariants_eq]
      by_cases hmethod : v.collection = "REQUEST_METHOD".toList
      · have hupper : ∀ value ∈ m.values, upper g value = t.upper value := by
          rw [hwild, if_neg Bool.false_ne_true] at hkept
          simp only [Bool.or_eq_true, decide_eq_true_eq, List.all_eq_true] at hkept
          exact hkept.resolve_left (not_not.mpr hmethod)
        rw [if_pos hmethod, if_pos hmethod, List.map_congr_left hupper]
      · rw [if_neg hmethod, if_neg hmethod]

/-- **Conditions.**  A variable with kept values has the same condition in both. -/
theorem buildCondition_eq {t : CharTables} {g : GoText.Tables} {v : Variable} {rule : SecRule}
    {m : Match} {caseSensitive : Bool} (hm : CommonMatch m) (hkept : valuesKept t g m v = true) :
    buildCondition g v rule m caseSensitive =
      ModSecurity.buildCondition t v rule m caseSensitive := by
  unfold buildCondition ModSecurity.buildCondition
  cases hcomponent : component v.collection with
  | none => rfl
  | some c =>
      simp only
      by_cases hliteral : c.literalOnly = true ∧ m.wildcard = true
      · rw [if_pos hliteral, if_pos hliteral]
      · obtain ⟨hvalues, hbounded⟩ := conditionValues_eq hm hcomponent hliteral hkept
        rw [if_neg hliteral, if_neg hliteral]
        rewrite [hvalues, if_neg hbounded]
        rfl

/-- **Directives.**  An alike rule is compiled to the same conditions by both. -/
theorem compileRule_eq {t : CharTables} {g : GoText.Tables} {several : Bool} {rule : SecRule}
    (halike : ruleAlike t g rule = true) (hspaced : Spaced rule.argument)
    (hclean : Clean rule.argument) (hbytes : byteLength rule.argument ≤ maxArgumentLength) :
    (compileRule g several rule).toOption = (ModSecurity.compileRule t several rule).toOption := by
  rw [ruleAlike, Bool.and_eq_true] at halike
  obtain ⟨hoperator, hvalues⟩ := halike
  have hmatch := operatorMatch_eq hoperator hspaced hbytes
  unfold compileRule ModSecurity.compileRule
  cases hpy : ModSecurity.operatorMatch t rule with
  | error e =>
      cases hgo : operatorMatch g rule with
      | error e' => rfl
      | ok m => simp [hgo, hpy, Except.toOption] at hmatch
  | ok m =>
      obtain hgo : operatorMatch g rule = .ok m := by
        cases hgo : operatorMatch g rule with
        | error e => simp [hgo, hpy, Except.toOption] at hmatch
        | ok m' =>
            obtain rfl : m' = m := by simpa [hgo, hpy, Except.toOption] using hmatch
            rfl
      have hm := operatorMatch_common hoperator hclean hpy
      simp only [hpy, List.all_eq_true] at hvalues
      have hbuilt : (rule.vars.mapM fun v => buildCondition g v rule m (caseSensitiveOf rule m)) =
          rule.vars.mapM fun v =>
            ModSecurity.buildCondition t v rule m (caseSensitiveOf rule m) :=
        mapM_congr fun v hv => buildCondition_eq hm (hvalues v hv)
      simp only [hgo]
      rewrite [hbuilt, hm.limitations]
      rfl

instance (s : Str) : Decidable (Clean s) :=
  decidable_of_iff (s.all fun c => !isSeparator c) (by simp [Clean])

theorem clean_nil : Clean [] := fun _ hc => absurd hc List.not_mem_nil

theorem clean_array {items : List JsonValue} (h : ∀ item ∈ items, Clean (textOf item)) :
    Clean (textOf (.array items)) := by
  induction items with
  | nil => exact clean_nil
  | cons item rest ih =>
      have hrest := ih fun i hi => h i (List.mem_cons_of_mem _ hi)
      exact (h item List.mem_cons_self).append hrest

theorem clean_object {members : Members}
    (h : ∀ member ∈ members, Clean member.1 ∧ Clean (textOf member.2)) :
    Clean (textOf (.object members)) := by
  induction members with
  | nil => exact clean_nil
  | cons member rest ih =>
      obtain ⟨name, value⟩ := member
      have hrest := ih fun m hm => h m (List.mem_cons_of_mem _ hm)
      obtain ⟨hname, hvalue⟩ := h (name, value) List.mem_cons_self
      exact hname.append (hvalue.append hrest)

/-- What a condition is made of. -/
structure CleanCondition (c : Condition) : Prop where
  selector : ∀ key selector, c.selector = some (key, selector) → Clean selector
  value : ∀ value ∈ c.value, Clean value

theorem clean_type (type : ConditionType) : Clean type.name := by
  cases type <;> decide

theorem clean_selectorName (key : SelectorKey) : Clean (selectorName key) := by
  cases key <;> decide

theorem clean_operationName (operation : Operation) : Clean (operationName operation) := by
  cases operation <;> decide

theorem conditionJson_clean {c : Condition} (h : CleanCondition c) :
    Clean (textOf (conditionJson c)) := by
  refine clean_object fun member hmember => ?_
  simp only [List.mem_append, List.mem_cons, List.not_mem_nil, or_false, Option.mem_toList,
    Option.map_eq_some_iff] at hmember
  rcases hmember with ((((rfl | rfl) | ⟨s, hs, rfl⟩) | ⟨b, -, rfl⟩) | ⟨b, -, rfl⟩) | rfl
  · exact ⟨(by decide : Clean "type".toList), clean_type c.type⟩
  · exact ⟨(by decide : Clean "positiveMatch".toList), clean_nil⟩
  · exact ⟨clean_selectorName s.1, h.selector s.1 s.2 hs⟩
  · exact ⟨(by decide : Clean "valueCase".toList), clean_nil⟩
  · exact ⟨(by decide : Clean "valueWildcard".toList), clean_nil⟩
  · refine ⟨(by decide : Clean "value".toList), clean_array fun item hitem => ?_⟩
    obtain ⟨value, hvalue, rfl⟩ := List.mem_map.mp hitem
    exact h.value value hvalue

/-- What a rule is made of. -/
structure CleanRule (rule : RuleBody) : Prop where
  name : Clean rule.name
  description : Clean rule.description
  conditions : ∀ c ∈ rule.conditions, CleanCondition c
  tag : ∀ tag ∈ rule.tag, Clean tag

/-- **Serialization.**  Both encoders write the same text for a clean rule. -/
theorem portText_eq {rule : RuleBody} (h : CleanRule rule) : portText rule = originalText rule := by
  refine marshal_eq (clean_object fun member hmember => ?_)
  simp only [List.mem_cons, List.not_mem_nil, or_false] at hmember
  rcases hmember with rfl | rfl | rfl | rfl | rfl
  · exact ⟨(by decide : Clean "name".toList), h.name⟩
  · exact ⟨(by decide : Clean "description".toList), h.description⟩
  · exact ⟨(by decide : Clean "operation".toList), clean_operationName rule.operation⟩
  · refine ⟨(by decide : Clean "conditions".toList), clean_array fun item hitem => ?_⟩
    obtain ⟨c, hc, rfl⟩ := List.mem_map.mp hitem
    exact conditionJson_clean (h.conditions c hc)
  · refine ⟨(by decide : Clean "tag".toList), clean_array fun item hitem => ?_⟩
    obtain ⟨tag, htag, rfl⟩ := List.mem_map.mp hitem
    exact h.tag tag htag

theorem clean_of_forall {s : Str} {p : Char → Bool} (h : ∀ c ∈ s, p c = true)
    (hline : p '\u2028' = false) (hparagraph : p '\u2029' = false) : Clean s := by
  intro c hc
  by_contra hseparator
  have hcases := Bool.of_not_eq_false hseparator
  simp only [isSeparator, Bool.or_eq_true, beq_iff_eq] at hcases
  rcases hcases with rfl | rfl
  · rw [h _ hc] at hline
    cases hline
  · rw [h _ hc] at hparagraph
    cases hparagraph

theorem mem_dashRuns {c : Char} : ∀ {text : Str} {afterDash : Bool},
    c ∈ dashRuns afterDash text → (c.isAlphanum || c == '-') = true := by
  intro text
  induction text with
  | nil => exact fun hc => absurd hc List.not_mem_nil
  | cons d rest ih =>
      intro afterDash hc
      unfold dashRuns at hc
      split_ifs at hc with halnum
      · rcases List.mem_cons.mp hc with rfl | hc
        · rw [halnum]
          rfl
        · exact ih hc
      · exact ih hc
      · rcases List.mem_cons.mp hc with rfl | hc
        · decide
        · exact ih hc

theorem clean_slug (text : Str) : Clean (slug text) := by
  unfold slug
  dsimp only
  split_ifs
  · decide
  · exact clean_of_forall (fun c hc => mem_dashRuns (stripChars_subset hc)) (by decide) (by decide)

theorem clean_tag {tag : Str} (h : isSafeTag tag = true) : Clean tag := by
  simp only [isSafeTag, Bool.and_eq_true, List.all_eq_true] at h
  exact clean_of_forall h.2 (by decide) (by decide)

theorem clean_label (c : Condition) : Clean (conditionLabel c) := by
  have hlabels : (components.all fun entry => decide (Clean entry.2.label)) = true := by decide
  unfold conditionLabel
  cases hfound : components.find? fun entry => entry.2.conditionType = c.type with
  | none => exact clean_type c.type
  | some entry =>
      exact of_decide_eq_true
        (List.all_eq_true.mp hlabels entry (List.mem_of_find?_eq_some hfound))

/-- Clean parts joined by a clean separator are clean. -/
theorem clean_join {separator : Str} {parts : List Str} (hseparator : Clean separator)
    (hparts : ∀ part ∈ parts, Clean part) : Clean (join separator parts) := by
  unfold join
  induction parts with
  | nil => exact clean_nil
  | cons part rest ih =>
      have hrest := ih fun p hp => hparts p (List.mem_cons_of_mem _ hp)
      cases rest with
      | nil =>
          rw [List.intercalate_singleton]
          exact hparts part List.mem_cons_self
      | cons next rest =>
          rw [List.intercalate_cons_cons]
          exact ((hparts part List.mem_cons_self).append hseparator).append hrest

theorem clean_quoteChar (c : Char) : Clean (quoteChar c) := by
  have hhex : ∀ n < 16, isSeparator (hexUpper n) = false := by decide
  unfold quoteChar
  split_ifs with hunreserved
  · refine @clean_of_forall _ isUnreserved (fun d hd => ?_) (by decide) (by decide)
    rw [List.mem_singleton.mp hd]
    exact hunreserved
  · intro d hd
    obtain ⟨b, hb, hmem⟩ := List.mem_flatMap.mp hd
    have hbyte : b < 256 := by
      obtain ⟨byte, -, rfl⟩ := List.mem_map.mp hb
      exact byte.toNat_lt
    simp only [List.mem_cons, List.not_mem_nil, or_false] at hmem
    rcases hmem with rfl | rfl | rfl
    · decide
    · exact hhex _ (by omega)
    · exact hhex _ (by omega)

theorem clean_quote (value : Str) : Clean (quote value) := by
  intro d hd
  obtain ⟨c, -, hmem⟩ := List.mem_flatMap.mp hd
  exact clean_quoteChar c d hmem

theorem clean_quotePlus (value : Str) : Clean (quotePlus value) := by
  intro d hd
  obtain ⟨c, -, hmem⟩ := List.mem_flatMap.mp hd
  split_ifs at hmem
  · rw [List.mem_singleton.mp hmem]
    decide
  · exact clean_quoteChar c d hmem

theorem clean_upper (g : GoText.Tables) {value : Str} (h : Clean value) :
    Clean (upper g value) := by
  intro d hd
  obtain ⟨c, hc, rfl⟩ := List.mem_map.mp hd
  by_contra hseparator
  have hsource := g.toUpper_separator c (Bool.of_not_eq_false hseparator)
  rw [h c hc] at hsource
  cases hsource

/-- The values of a condition are clean where those of its match are. -/
theorem clean_conditionValues {g : GoText.Tables} {c : Component} {v : Variable} {m : Match}
    (hm : CommonMatch m) : ∀ value ∈ conditionValues g c v m, Clean value := by
  intro value hvalue
  unfold conditionValues at hvalue
  split_ifs at hvalue
  · rw [mem_unique] at hvalue
    obtain ⟨source, hsource, rfl⟩ := List.mem_map.mp hvalue
    exact clean_upper g (hm.clean source hsource)
  · rw [encodingVariants_eq, ModSecurity.encodingVariants, mem_unique] at hvalue
    obtain ⟨source, hsource, hmem⟩ := List.mem_flatMap.mp hvalue
    simp only [List.mem_cons, List.not_mem_nil, or_false] at hmem
    rcases hmem with rfl | rfl | rfl | rfl
    · exact hm.clean _ hsource
    · exact clean_quote _
    · exact clean_quotePlus _
    · exact clean_quote _
  · exact hm.clean value hvalue

/-- A condition of an alike rule is clean. -/
theorem buildCondition_clean {t : CharTables} {g : GoText.Tables} {v : Variable} {rule : SecRule}
    {m : Match} {caseSensitive : Bool} {cc : CompiledCondition} (hm : CommonMatch m)
    (hselector : ∀ selector, v.selector = some selector → Clean selector)
    (hkept : valuesKept t g m v = true)
    (h : ModSecurity.buildCondition t v rule m caseSensitive = .ok cc) :
    CleanCondition cc.condition := by
  rw [← buildCondition_eq hm hkept] at h
  unfold buildCondition at h
  cases hcomponent : component v.collection with
  | none => simp [hcomponent] at h
  | some c =>
      simp only [hcomponent] at h
      by_cases hliteral : c.literalOnly = true ∧ m.wildcard = true
      · rw [if_pos hliteral] at h
        cases h
      by_cases haddress : v.collection = "REMOTE_ADDR".toList ∧ rule.operator ≠ "ipMatch".toList
      · rw [if_neg hliteral, if_pos haddress] at h
        cases h
      rw [if_neg hliteral, if_neg haddress] at h
      obtain rfl := Except.ok.inj h
      refine ⟨fun key selector hfound => ?_, clean_conditionValues hm⟩
      dsimp only at hfound
      split at hfound
      · rename_i selector' _ hv
        obtain ⟨-, rfl⟩ := Prod.mk.inj (Option.some.inj hfound)
        exact hselector _ hv
      · cases hfound

/-- The conditions of an alike rule are clean. -/
theorem compileRule_clean {t : CharTables} {g : GoText.Tables} {several : Bool} {rule : SecRule}
    {part : Compiled} (halike : ruleAlike t g rule = true) (hclean : Clean rule.argument)
    (hselector : ∀ v ∈ rule.vars, ∀ selector, v.selector = some selector → Clean selector)
    (h : ModSecurity.compileRule t several rule = .ok part) :
    ∀ c ∈ part.conditions, CleanCondition c := by
  obtain ⟨m, built, hcompiled⟩ := compileRule_ok h
  rw [ruleAlike, Bool.and_eq_true, hcompiled.matched] at halike
  have hm := operatorMatch_common halike.1 hclean hcompiled.matched
  have hvalues := List.all_eq_true.mp halike.2
  intro c hc
  rw [hcompiled.emitted] at hc
  obtain ⟨cc, hcc, rfl⟩ := List.mem_map.mp hc
  have hconditions := hcompiled.conditions
  clear hcompiled hc
  generalize rule.vars = vars at hconditions hselector hvalues
  induction hconditions with
  | nil => exact absurd hcc List.not_mem_nil
  | @cons v first vars built hfirst _ ih =>
      rcases List.mem_cons.mp hcc with rfl | hcc
      · exact buildCondition_clean hm (hselector v List.mem_cons_self)
          (hvalues v List.mem_cons_self) hfirst
      · exact ih hcc (fun v hv => hselector v (List.mem_cons_of_mem _ hv))
          fun v hv => hvalues v (List.mem_cons_of_mem _ hv)

/-- Whether both have no condition for a variable of a rule. -/
def unmapped (rule : SecRule) (v : Variable) : Bool :=
  (component v.collection).isNone ||
    (v.collection = "REMOTE_ADDR".toList && rule.operator ≠ "ipMatch".toList)

/-- Whether a variable's condition takes literal values only. -/
def literalOnly (v : Variable) : Bool := (component v.collection).any (·.literalOnly)

/-- Whether a rule is declined by a check that both make on it. -/
def declinedByBoth (t : CharTables) (g : GoText.Tables) (several : Bool) (rule : SecRule) : Bool :=
  (several && 1 < rule.vars.length) || rule.vars.any (unmapped rule) ||
    !(rule.transformations.all toleratedTransformations.contains) ||
    (operatorValuesAlike t g rule &&
      match ModSecurity.operatorMatch t rule with
      | .error _ => true
      | .ok m => m.wildcard && rule.vars.any literalOnly)

/-- The port refuses a variable with no counterpart. -/
theorem unmapped_port {g : GoText.Tables} {v : Variable} {rule : SecRule} {m : Match}
    {caseSensitive : Bool} (h : unmapped rule v = true) :
    ∃ e, buildCondition g v rule m caseSensitive = .error e := by
  unfold buildCondition
  cases hcomponent : component v.collection with
  | none => exact ⟨_, rfl⟩
  | some c =>
      simp only [unmapped, hcomponent, Option.isNone_some, Bool.false_or, Bool.and_eq_true,
        decide_eq_true_eq] at h
      simp only [if_pos h]
      split_ifs
      · exact ⟨_, rfl⟩
      · exact ⟨_, rfl⟩

theorem unmapped_original {t : CharTables} {v : Variable} {rule : SecRule} {m : Match}
    {caseSensitive : Bool} (h : unmapped rule v = true) :
    ∃ e, ModSecurity.buildCondition t v rule m caseSensitive = .error e := by
  unfold ModSecurity.buildCondition
  cases hcomponent : component v.collection with
  | none => exact ⟨_, rfl⟩
  | some c =>
      simp only [unmapped, hcomponent, Option.isNone_some, Bool.false_or, Bool.and_eq_true,
        decide_eq_true_eq] at h
      simp only [if_pos h]
      split_ifs
      · exact ⟨_, rfl⟩
      · exact ⟨_, rfl⟩

/-- The port refuses wildcards where only literals are taken. -/
theorem literalOnly_port {g : GoText.Tables} {v : Variable} {rule : SecRule} {m : Match}
    {caseSensitive : Bool} (h : literalOnly v = true) (hwild : m.wildcard = true) :
    ∃ e, buildCondition g v rule m caseSensitive = .error e := by
  unfold buildCondition
  cases hcomponent : component v.collection with
  | none => exact ⟨_, rfl⟩
  | some c =>
      rw [literalOnly, hcomponent, Option.any_some] at h
      exact ⟨_, if_pos ⟨h, hwild⟩⟩

theorem literalOnly_original {t : CharTables} {v : Variable} {rule : SecRule} {m : Match}
    {caseSensitive : Bool} (h : literalOnly v = true) (hwild : m.wildcard = true) :
    ∃ e, ModSecurity.buildCondition t v rule m caseSensitive = .error e := by
  unfold ModSecurity.buildCondition
  cases hcomponent : component v.collection with
  | none => exact ⟨_, rfl⟩
  | some c =>
      rw [literalOnly, hcomponent, Option.any_some] at h
      exact ⟨_, if_pos ⟨h, hwild⟩⟩

/-- The checks of `declinedByBoth`, where a match was found. -/
theorem declined_cases {t : CharTables} {g : GoText.Tables} {several : Bool} {rule : SecRule}
    {m : Match}
    (hmatch : operatorValuesAlike t g rule = true → ModSecurity.operatorMatch t rule = .ok m)
    (h : declinedByBoth t g several rule = true) :
    (several = true ∧ 1 < rule.vars.length) ∨
      (∃ v ∈ rule.vars, unmapped rule v = true ∨ (literalOnly v = true ∧ m.wildcard = true)) ∨
      rule.transformations.all toleratedTransformations.contains = false := by
  simp only [declinedByBoth, Bool.or_eq_true, Bool.and_eq_true, decide_eq_true_eq,
    Bool.not_eq_true', List.any_eq_true] at h
  rcases h with ((hseveral | ⟨v, hv, hunmapped⟩) | htransformation) | ⟨halike, hrest⟩
  · exact Or.inl hseveral
  · exact Or.inr (Or.inl ⟨v, hv, Or.inl hunmapped⟩)
  · exact Or.inr (Or.inr htransformation)
  · rw [hmatch halike] at hrest
    simp only [Bool.and_eq_true, List.any_eq_true] at hrest
    obtain ⟨hwild, v, hv, hliteral⟩ := hrest
    exact Or.inr (Or.inl ⟨v, hv, Or.inr ⟨hliteral, hwild⟩⟩)

/-- The checks of `declinedByBoth`, as the original makes them. -/
theorem declined_original {t : CharTables} {g : GoText.Tables} {several : Bool} {rule : SecRule}
    (h : declinedByBoth t g several rule = true) :
    ∃ e, ModSecurity.compileRule t several rule = .error e := by
  unfold ModSecurity.compileRule
  cases hmatch : ModSecurity.operatorMatch t rule with
  | error e => exact ⟨e, rfl⟩
  | ok m =>
      by_cases hseveral : several = true ∧ 1 < rule.vars.length
      · exact ⟨_, if_pos hseveral⟩
      · simp only [if_neg hseveral]
        rcases (declined_cases (fun _ => hmatch) h).resolve_left hseveral with
          ⟨v, hv, hnone⟩ | htransformation
        · obtain ⟨e, he⟩ := mapM_error (f := fun v => ModSecurity.buildCondition t v rule m
            (caseSensitiveOf rule m)) hv
            (hnone.elim unmapped_original fun h => literalOnly_original h.1 h.2)
          exact ⟨e, by rw [he]⟩
        · cases rule.vars.mapM fun v => ModSecurity.buildCondition t v rule m
              (caseSensitiveOf rule m) with
          | error e => exact ⟨e, rfl⟩
          | ok built => exact ⟨_, if_neg (by rw [htransformation]; exact Bool.false_ne_true)⟩

/-- The same checks in the port. -/
theorem declined_port {t : CharTables} {g : GoText.Tables} {several : Bool} {rule : SecRule}
    (hspaced : Spaced rule.argument) (hbytes : byteLength rule.argument ≤ maxArgumentLength)
    (h : declinedByBoth t g several rule = true) :
    ∃ e, compileRule g several rule = .error e := by
  unfold compileRule
  cases hmatch : operatorMatch g rule with
  | error e => exact ⟨e, rfl⟩
  | ok m =>
      have hsame : operatorValuesAlike t g rule = true →
          ModSecurity.operatorMatch t rule = .ok m := by
        intro halike
        have heq := operatorMatch_eq halike hspaced hbytes
        rw [hmatch] at heq
        cases horiginal : ModSecurity.operatorMatch t rule with
        | error e =>
            rw [horiginal] at heq
            cases heq
        | ok m' =>
            rw [horiginal] at heq
            rw [Option.some.inj heq]
      by_cases hseveral : several = true ∧ 1 < rule.vars.length
      · exact ⟨_, if_pos hseveral⟩
      · simp only [if_neg hseveral]
        rcases (declined_cases hsame h).resolve_left hseveral with
          ⟨v, hv, hnone⟩ | htransformation
        · obtain ⟨e, he⟩ := mapM_error (f := fun v => buildCondition g v rule m
            (caseSensitiveOf rule m)) hv
            (hnone.elim unmapped_port fun h => literalOnly_port h.1 h.2)
          exact ⟨e, by rw [he]⟩
        · cases rule.vars.mapM fun v => buildCondition g v rule m (caseSensitiveOf rule m) with
          | error e => exact ⟨e, rfl⟩
          | ok built => exact ⟨_, if_neg (by rw [htransformation]; exact Bool.false_ne_true)⟩

end GoCompiler
