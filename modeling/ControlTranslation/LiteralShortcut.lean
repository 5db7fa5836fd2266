import ControlTranslation.LabelSoundness

/-!
# The anchored-literal shortcut

Before the service asks for anything cleverer it looks for one line of the
proven text: a directive on a named argument whose regex is an anchored
literal.  The line is found by a regex of its own, and the rule written from it
takes priority over the compiled one.  The two readings of the same text are
compared here on every POST request.  They part in two ways: the shortcut reads
one line where the compiler reads every directive, and the shortcut always
folds letter case where the compiler folds it only for `t:lowercase`.
-/

namespace ModSecurity

open PyText Glob

/-- A character of the name `[A-Za-z0-9_.-]+`. -/
def isArgumentNameChar (c : Char) : Bool := c.isAlphanum || c == '_' || c == '.' || c == '-'

/-- A character of the literal `[^"\\\r\n]+`. -/
def isAnchoredChar (c : Char) : Bool := c != '"' && c != '\\' && c != '\r' && c != '\n'

/-- The text after a fixed beginning. -/
def readText (beginning text : Str) : Option Str :=
  if beginning.isPrefixOf text then some (text.drop beginning.length) else none

/-- The text after a nonempty run of white space, `\s+`. -/
def readSpaces (text : Str) : Option Str :=
  if text.head?.any isSpace then some (lstrip text) else none

/-- The text after a nonempty run of some characters, with the run. -/
def readRun (accepted : Char → Bool) (text : Str) : Option (Str × Str) :=
  if text.takeWhile accepted = [] then none
  else some (text.takeWhile accepted, text.dropWhile accepted)

/-- `_ANCHORED_LITERAL_ARGS_RULE` at one line start: the name and the literal.
The literal stops before the dollar in front of the first quote. -/
def anchoredHere (text : Str) : Option (Str × Str) := do
  let keyword ← readText "SecRule".toList (lstrip text)
  let target ← readSpaces keyword
  let selector ← readText "ARGS:".toList target
  let (parameter, named) ← readRun isArgumentNameChar selector
  let operator ← readSpaces named
  let argument ← readText "\"@rx ^".toList operator
  let (run, quoted) ← readRun isAnchoredChar argument
  let closed ← readText "\"".toList quoted
  let actions ← readSpaces closed
  let _ ← readText "\"".toList actions
  if run.getLast? = some '$' ∧ run.dropLast ≠ [] then some (parameter, run.dropLast) else none

/-- The line starts after the first. -/
def anchoredBelow : Str → Option (Str × Str)
  | [] => none
  | c :: rest =>
      if c = '\n' then
        match anchoredHere rest with
        | some groups => some groups
        | none => anchoredBelow rest
      else anchoredBelow rest

/-- `_ANCHORED_LITERAL_ARGS_RULE.search`. -/
def searchAnchoredLiteral (text : Str) : Option (Str × Str) :=
  match anchoredHere text with
  | some groups => some groups
  | none => anchoredBelow text

/-- A character `_REGEX_META` finds. -/
def isRegexMeta (c : Char) : Bool := ".\\^$*+?\x7b\x7d[]()|".toList.contains c

/-- The literal without one enclosing group. -/
def unwrapGroup (literal : Str) : Str :=
  if "(?:".toList.isPrefixOf literal ∧ literal.getLast? = some ')' then
    (literal.drop 3).dropLast
  else literal

/-- The literal and its transport encodings. -/
def literalForms (literal : Str) : List Str :=
  [literal, quote literal, quotePlus literal, quote (quote literal)]

/-- The condition on the method of the request. -/
def methodCondition : Condition :=
  { type := .requestMethodMatch, positiveMatch := true, selector := none, valueCase := none,
    valueWildcard := none, value := ["POST".toList] }

/-- The condition on the parameter, with the forms of the literal. -/
def literalCondition (parameter literal : Str) : Condition :=
  { type := .argsPostMatch, positiveMatch := true, selector := some (.parameter, parameter),
    valueCase := some false, valueWildcard := some false, value := unique (literalForms literal) }

/-- The rule the shortcut emits. -/
def literalRule (pattern : Pattern) (parameter literal : Str) : RuleBody :=
  { name := "JANUS-".toList ++ pattern.vulnerabilityId ++ ['-'] ++ parameter ++ "-SQLi".toList
    description := "Blocks the evidenced ".toList ++ parameter ++
      (" SQL injection value and common " ++ "form-encoding variants.").toList
    operation := .and
    conditions := [methodCondition, literalCondition parameter literal]
    tag := ["JANUS".toList, pattern.vulnerabilityId, "SQLi".toList, "virtual-patch".toList] }

/-- `_hardened_akamai_literal_proposal`. -/
def hardenedAkamaiLiteralProposal (pattern : Pattern) : Option Proposal :=
  match searchAnchoredLiteral pattern.patternSummary with
  | none => none
  | some (parameter, captured) =>
      if (unwrapGroup captured).any isRegexMeta then none
      else
        some {
          candidateContent := literalRule pattern parameter (unwrapGroup captured)
          translationLabel := .equivalent
          justification :=
            ("Converted the anchored literal ModSecurity named-argument match " ++
              "into explicit Akamai POST-argument values, including common form " ++
              "and double-encoding representations.").toList
          translationAssumptions :=
            [("The target Akamai policy supports parameter selection on " ++
                "argsPostMatch.").toList,
              ("The custom-rule action is assigned separately; recommended action: " ++
                "deny.").toList]
          limitations :=
            ["The candidate has not been executed in an Akamai tenant.".toList,
              ("Coverage is limited to the evidenced literal and generated transport " ++
                "encodings.").toList,
              ("No authoritative endpoint path was available, so the rule is not " ++
                "path-scoped.").toList] }

/-- What a request presents to every component: the values found there. -/
abbrev Request := ConditionType → Option (SelectorKey × Str) → List Str

/-- The verdict of a condition: some value matches, or none does. -/
def Condition.holds (c : Condition) (request : Request) : Bool :=
  (request c.type c.selector).any
    (matchesAny (!c.valueCase.getD true) (c.valueWildcard.getD false) c.value) ==
    c.positiveMatch

/-- The verdict of a rule. -/
def RuleBody.blocks (rule : RuleBody) (request : Request) : Bool :=
  rule.operation.eval (rule.conditions.map fun c => c.holds request)

/-- The request is a POST. -/
def IsPost (request : Request) : Prop := request .requestMethodMatch none = ["POST".toList]

/-- Two proposals block the same POST requests. -/
def Agree (a b : Proposal) : Prop :=
  ∀ request, IsPost request →
    a.candidateContent.blocks request = b.candidateContent.blocks request

/-- The directive of a text that has one. -/
def soleRule (t : CharTables) (text : Str) : Option SecRule :=
  match (splitDirectives t text).mapM (parseSecrule t) with
  | .ok [rule] => some rule
  | _ => none

/-- Whether a directive is the recognised line. -/
def readsLiteral (parameter captured : Str) (rule : SecRule) : Bool :=
  rule.vars = [⟨"ARGS".toList, some parameter⟩] && !rule.negated &&
    rule.operator = "rx".toList && rule.argument = '^' :: captured ++ ['$']

/-- Whether the recognised line is the one directive the compiler reads. -/
def readsOnlyLine (t : CharTables) (text : Str) : Bool :=
  match searchAnchoredLiteral text, soleRule t text with
  | some (parameter, captured), some rule => readsLiteral parameter captured rule
  | _, _ => false

/-- Whether a text reads the same in either letter case. -/
def caseless (s : Str) : Bool := s.all fun c => c.toLower == c && c.toUpper == c

/-- Whether folding letter case adds nothing: the directive folds it as well, or
no form of the literal has a letter. -/
def foldsAlike (t : CharTables) (text : Str) : Bool :=
  match searchAnchoredLiteral text, soleRule t text with
  | some (_, captured), some rule =>
      namesLowercase rule || (literalForms (unwrapGroup captured)).all caseless
  | _, _ => false

/-- A character the regex parser takes for itself. -/
theorem parseAtom_plain {t : CharTables} {group : Scan → Attempt (List Parts × Scan)} {c : Char}
    (hc : isRegexMeta c = false) (rest : Str) (lossy narrowed : Bool) :
    parseAtom t group ⟨c :: rest, lossy, narrowed⟩ =
      .ok ([[.lit c]], true, ⟨rest, lossy, narrowed⟩) := by
  have hmeta : ∀ d ∈ ".\\^$*+?\x7b\x7d[]()|".toList, c ≠ d := by
    rintro d hd rfl
    rw [isRegexMeta, List.contains_iff_mem.mpr hd] at hc
    cases hc
  simp only [parseAtom]
  rw [if_neg (hmeta '(' (by decide)), if_neg (hmeta '[' (by decide)),
    if_neg (hmeta '\\' (by decide)), if_neg (hmeta '.' (by decide)), if_neg, if_neg]
  · rintro (h | h)
    · exact hmeta _ (by decide) h
    · exact hmeta _ (by decide) h
  · rintro (h | h)
    · exact hmeta _ (by decide) h
    · exact hmeta _ (by decide) h

/-- Where a run of plain characters stops: at the end or at a closing bracket. -/
def StopsRun (tail : Str) : Prop := tail = [] ∨ ∃ more, tail = ')' :: more

/-- What follows a plain character is no quantifier. -/
theorem parseTerm_plain {t : CharTables} {group : Scan → Attempt (List Parts × Scan)}
    {c : Char} {rest tail : Str} (hc : isRegexMeta c = false)
    (hrest : rest.all (fun c => !isRegexMeta c) = true) (htail : StopsRun tail)
    (lossy narrowed : Bool) :
    parseTerm t (parseAtom t group) ⟨c :: (rest ++ tail), lossy, narrowed⟩ =
      .ok ([[.lit c]], ⟨rest ++ tail, lossy, narrowed⟩) := by
  have hnext : ∀ d more, rest ++ tail = d :: more → isRegexMeta d = false ∨ d = ')' := by
    intro d more heq
    cases rest with
    | nil =>
        rcases htail with rfl | ⟨after, rfl⟩
        · cases heq
        · exact Or.inr (List.cons.inj heq).1.symm
    | cons e rest =>
        obtain ⟨rfl, -⟩ := List.cons.inj heq
        left
        simpa using (List.all_eq_true.mp hrest) e List.mem_cons_self
  unfold parseTerm
  rw [parseAtom_plain hc]
  cases hshape : rest ++ tail with
  | nil => rfl
  | cons d more =>
      have hd := hnext d more hshape
      have hquantifier : ∀ q ∈ "\x7b*+?".toList, d ≠ q := by
        rintro q hq rfl
        rcases hd with hplain | rfl
        · have hall : "\x7b*+?".toList.all isRegexMeta = true := by decide
          rw [List.all_eq_true.mp hall d hq] at hplain
          cases hplain
        · revert hq
          decide
      simp only
      rw [if_neg (hquantifier _ (by decide)), if_neg]
      rintro (h | h | h)
      · exact hquantifier _ (by decide) h
      · exact hquantifier _ (by decide) h
      · exact hquantifier _ (by decide) h

/-- A run of plain characters is one alternative. -/
theorem concatLoop_plain {t : CharTables} {group : Scan → Attempt (List Parts × Scan)}
    {tail : Str} (htail : StopsRun tail) (lossy narrowed : Bool) :
    ∀ (run : Str) (budget : Nat) (before : Parts), run.all (fun c => !isRegexMeta c) = true →
      run.length < budget →
      concatLoop (parseTerm t (parseAtom t group)) budget [before] ⟨run ++ tail, lossy, narrowed⟩ =
        .ok ([before ++ run.map .lit], ⟨tail, lossy, narrowed⟩) := by
  intro run
  induction run with
  | nil =>
      intro budget before _ hbudget
      obtain ⟨budget, rfl⟩ : ∃ n, budget = n + 1 := ⟨budget - 1, by simp at hbudget; omega⟩
      rcases htail with rfl | ⟨more, rfl⟩
      · simp [concatLoop]
      · simp [concatLoop]
  | cons c run ih =>
      intro budget before hrun hbudget
      obtain ⟨budget, rfl⟩ : ∃ n, budget = n + 1 := ⟨budget - 1, by simp at hbudget; omega⟩
      obtain ⟨hc, hrest⟩ : isRegexMeta c = false ∧ run.all (fun c => !isRegexMeta c) = true := by
        simpa using hrun
      have hstop : ¬(c = '|' ∨ c = ')') := by
        rintro (rfl | rfl) <;> exact absurd hc (by decide)
      rw [List.cons_append, concatLoop]
      simp only [if_neg hstop, parseTerm_plain hc hrest htail]
      rw [if_neg (by simp [cross, maxValues])]
      have hcross : cross [before] [[.lit c]] = [before ++ [.lit c]] := by simp [cross]
      rw [hcross, ih budget _ hrest (by simpa using hbudget)]
      simp

/-- A run of plain characters is read as itself. -/
theorem parseAlternation_plain {t : CharTables} {tail run : Str} (htail : StopsRun tail)
    (hrun : run.all (fun c => !isRegexMeta c) = true) (levels : Nat) (lossy narrowed : Bool) :
    parseAlternation t (levels + 1) ⟨run ++ tail, lossy, narrowed⟩ =
      .ok ([run.map .lit], ⟨tail, lossy, narrowed⟩) := by
  have hconcat := @concatLoop_plain t (parseAlternation t levels) tail htail lossy narrowed run
    ((run ++ tail).length + 1) [] hrun (by rw [List.length_append]; omega)
  simp only [parseAlternation, parseConcat, hconcat, List.nil_append]
  rcases htail with rfl | ⟨more, rfl⟩
  · simp [alternationLoop]
  · simp [alternationLoop]

/-- The two texts that unwrap to a literal without special characters. -/
theorem captured_cases {captured : Str} (h : (unwrapGroup captured).any isRegexMeta = false) :
    captured = unwrapGroup captured ∨
      captured = '(' :: '?' :: ':' :: (unwrapGroup captured ++ [')']) := by
  unfold unwrapGroup at h ⊢
  split at h
  · rename_i hwrapped
    right
    rw [if_pos hwrapped]
    obtain ⟨hopen, hclose⟩ := hwrapped
    obtain ⟨body, rfl⟩ := List.isPrefixOf_iff_prefix.mp hopen
    have hbody : body ≠ [] := by
      rintro rfl
      revert hclose
      decide
    have hlast : body.getLast? = some ')' := by
      rw [List.getLast?_append_of_ne_nil _ hbody] at hclose
      exact hclose
    have hsplit : body = body.dropLast ++ [')'] :=
      (List.dropLast_append_getLast? _ (by rw [hlast]; rfl)).symm
    have hdrop : ("(?:".toList ++ body).drop 3 = body := rfl
    rw [hdrop, ← hsplit]
    rfl
  · rename_i hplain
    exact Or.inl (if_neg hplain).symm

/-- A concatenation of one term that reads everything. -/
theorem parseConcat_all {term : Scan → Attempt (List Parts × Scan)} {c : Char} {rest : Str}
    {alternatives : List Parts} {lossy narrowed : Bool}
    (hterm : term ⟨c :: rest, lossy, narrowed⟩ = .ok (alternatives, ⟨[], lossy, narrowed⟩))
    (hc : ¬(c = '|' ∨ c = ')')) (hfew : alternatives.length ≤ maxValues) :
    parseConcat term ⟨c :: rest, lossy, narrowed⟩ =
      .ok (alternatives, ⟨[], lossy, narrowed⟩) := by
  have hcross : cross [[]] alternatives = alternatives := by simp [cross]
  simp only [parseConcat, List.length_cons, concatLoop, if_neg hc, hterm, hcross,
    if_neg (Nat.not_lt.mpr hfew)]

/-- A closed group around plain characters is the plain characters. -/
theorem parseAlternation_group {t : CharTables} {literal : Str}
    (h : literal.all (fun c => !isRegexMeta c) = true) (levels : Nat) (lossy narrowed : Bool) :
    parseAlternation t (levels + 2) ⟨'(' :: '?' :: ':' :: (literal ++ [')']), lossy, narrowed⟩ =
      .ok ([literal.map .lit], ⟨[], lossy, narrowed⟩) := by
  have hinner := parseAlternation_plain (t := t) (Or.inr ⟨[], rfl⟩ : StopsRun [')']) h levels
    lossy narrowed
  have hatom : parseAtom t (parseAlternation t (levels + 1))
      ⟨'(' :: '?' :: ':' :: (literal ++ [')']), lossy, narrowed⟩ =
        .ok ([literal.map .lit], [literal.map Part.lit].all (fun parts => parts.length = 1),
          ⟨[], lossy, narrowed⟩) := by
    simp only [parseAtom, if_true, List.head?_cons, List.tail_cons, ne_eq, not_true_eq_false,
      and_false, if_false, List.drop_succ_cons, List.drop_zero, hinner]
    rfl
  have hterm : parseTerm t (parseAtom t (parseAlternation t (levels + 1)))
      ⟨'(' :: '?' :: ':' :: (literal ++ [')']), lossy, narrowed⟩ =
        .ok ([literal.map .lit], ⟨[], lossy, narrowed⟩) := by
    simp only [parseTerm, hatom]
  have hconcat := parseConcat_all hterm (by decide) (by simp [maxValues])
  rw [parseAlternation]
  simp only [hconcat]
  rfl

/-- The translator reads the literal, with or without its group. -/
theorem parse_captured {t : CharTables} {captured : Str}
    (h : (unwrapGroup captured).any isRegexMeta = false) :
    parseAlternation t 9 ⟨captured, false, false⟩ =
      .ok ([(unwrapGroup captured).map .lit], ⟨[], false, false⟩) := by
  have hplain : (unwrapGroup captured).all (fun c => !isRegexMeta c) = true := by
    rw [List.all_eq_not_any_not]
    simpa using h
  rcases captured_cases h with hsame | hgroup
  · have hrun := parseAlternation_plain (t := t) (Or.inl rfl : StopsRun []) hplain 8 false false
    rw [List.append_nil] at hrun
    rw [← hsame] at hrun ⊢
    exact hrun
  · have hrun := parseAlternation_group (t := t) hplain 7 false false
    rwa [← hgroup] at hrun

theorem renderAfter_map_lit (literal : Str) : ∀ previous : Option Str,
    renderAfter 0 0 previous (literal.map .lit) = (literal, false) := by
  induction literal with
  | nil => exact fun _ => rfl
  | cons c rest ih =>
      intro previous
      simp [renderAfter, ih]

theorem ladders_literal (literal : Str) : ladders [literal.map .lit] = [] := by
  simp only [ladders, List.flatMap_cons, List.flatMap_nil, List.append_nil]
  induction literal with
  | nil => rfl
  | cons c rest ih => simp

/-- The captured text ends in no backslash, so the dollar after it is an anchor. -/
theorem innerText_captured {captured : Str}
    (h : (unwrapGroup captured).any isRegexMeta = false) :
    startAnchored ('^' :: captured ++ ['$']) = true ∧
      endAnchored ('^' :: captured ++ ['$']) = true ∧
      innerText ('^' :: captured ++ ['$']) = captured := by
  have hstart : startAnchored ('^' :: captured ++ ['$']) = true := rfl
  have hbody : bodyText ('^' :: captured ++ ['$']) = captured ++ ['$'] := by
    rw [bodyText, if_pos hstart]
    rfl
  have hbackslash : captured.getLast? ≠ some '\\' := by
    intro hlast
    rcases captured_cases h with hsame | hgroup
    · have hmem := List.mem_of_getLast? hlast
      rw [hsame] at hmem
      have hall : ∀ c ∈ unwrapGroup captured, isRegexMeta c = false := by simpa using h
      exact absurd (hall _ hmem) (by decide)
    · rw [hgroup, ← List.cons_append, ← List.cons_append, ← List.cons_append,
        List.getLast?_concat] at hlast
      exact absurd hlast (by decide)
  have hend : endAnchored ('^' :: captured ++ ['$']) = true := by
    rw [endAnchored, hbody, Bool.and_eq_true]
    constructor
    · exact List.isSuffixOf_iff_suffix.mpr ⟨captured, rfl⟩
    · rw [Bool.not_eq_true']
      apply Bool.eq_false_iff.mpr
      intro hsuffix
      obtain ⟨before, heq⟩ := List.isSuffixOf_iff_suffix.mp hsuffix
      have hcut : before ++ ['\\'] = captured := by
        have hdrop := congrArg List.dropLast heq
        have hleft : (before ++ "\\$".toList).dropLast = before ++ ['\\'] := by
          have hlist : before ++ "\\$".toList = (before ++ ['\\']) ++ ['$'] := by
            rw [List.append_assoc]
            rfl
          rw [hlist, List.dropLast_concat]
        rwa [hleft, List.dropLast_concat] at hdrop
      apply hbackslash
      rw [← hcut, List.getLast?_concat]
  refine ⟨hstart, hend, ?_⟩
  rw [innerText, if_pos hend, hbody, List.dropLast_concat]

/-- An anchored literal translates to itself. -/
theorem translate_captured {t : CharTables} {captured : Str} {r : RegexResult}
    (h : (unwrapGroup captured).any isRegexMeta = false)
    (ht : translate t ('^' :: captured ++ ['$']) = .ok r) :
    r = ⟨[unwrapGroup captured], false, false, false, false⟩ := by
  obtain ⟨hstart, hend, hinner⟩ := innerText_captured h
  have hflags : readInlineFlags ('^' :: captured ++ ['$']) =
      .ok (false, '^' :: captured ++ ['$']) := by
    rw [readInlineFlags, if_neg]
    rintro ⟨htake, -⟩
    cases captured <;> cases htake
  have hdepth : ladderDepth [(unwrapGroup captured).map Part.lit] = some 1 := by
    rw [ladderDepth, ladders_literal]
  have hrender : renderAll [(unwrapGroup captured).map Part.lit] 1 =
      [(unwrapGroup captured, false)] := by
    simp [renderAll, ladderVariants, ladders_literal, List.range_succ, render,
      renderAfter_map_lit]
  have hvalues : emittedValues ('^' :: captured ++ ['$']) [(unwrapGroup captured, false)] =
      [unwrapGroup captured] := by
    rw [emittedValues, List.map_singleton, hstart, hend]
    simp [frame, unique, List.eraseDups_cons]
  simp only [translate, hflags, hinner, parse_captured h, hdepth, hrender, hvalues, hstart, hend,
    ne_eq, not_true_eq_false, if_false] at ht
  split at ht
  · cases ht
  · split at ht
    · cases ht
    · split at ht
      · cases ht
      · split at ht
        · cases ht
        · simpa using ht.symm

/-- The match of an anchored literal: its one value, compared as it is. -/
theorem regexMatch_captured {t : CharTables} {captured : Str} {m : Match}
    (h : (unwrapGroup captured).any isRegexMeta = false)
    (hm : regexMatch t ('^' :: captured ++ ['$']) = .ok m) :
    m.values = [unwrapGroup captured] ∧ m.wildcard = false ∧ m.caseInsensitive = false := by
  unfold regexMatch at hm
  cases ht : translate t ('^' :: captured ++ ['$']) with
  | ok r =>
      rw [ht] at hm
      obtain rfl := translate_captured h ht
      cases hm
      exact ⟨rfl, rfl, rfl⟩
  | error e =>
      -- The compaction only takes one enclosing group.
      rw [ht] at hm
      have hgroup : topLevelGroupBranches ('^' :: captured ++ ['$']) =
          .error "structured JNDI regex must be one bounded noncapturing group" := by
        have hopen : "(?:".toList.isPrefixOf ('^' :: captured ++ ['$']) = false := rfl
        unfold topLevelGroupBranches
        exact if_pos (Or.inr (Or.inl hopen))
      simp only [compactStructuredJndiRegex, hgroup] at hm
      split at hm <;> cases hm

/-- Comparing literally is comparing. -/
theorem matchesValue_exact {v s : Str} : matchesValue false false v s = true ↔ v = s := by
  change accepts (sameChar false) (v.map .lit) s = true ↔ v = s
  induction v generalizing s with
  | nil => cases s <;> simp [accepts]
  | cons c v ih =>
      cases s with
      | nil => simp [accepts]
      | cons d s => simp [accepts, ih, sameChar]

/-- Comparing with case folded is comparing the folded texts. -/
theorem matchesValue_folded {v s : Str} :
    matchesValue true false v s = true ↔ v.map Char.toLower = s.map Char.toLower := by
  change accepts (sameChar true) (v.map .lit) s = true ↔ _
  induction v generalizing s with
  | nil => cases s <;> simp [accepts]
  | cons c v ih =>
      cases s with
      | nil => simp [accepts]
      | cons d s => simp [accepts, ih, sameChar]

/-- A text without letters is the only one it folds together with. -/
theorem eq_of_caseless {v s : Str} (hv : caseless v = true)
    (h : v.map Char.toLower = s.map Char.toLower) : v = s := by
  induction v generalizing s with
  | nil => simpa using h.symm
  | cons c v ih =>
      cases s with
      | nil => cases h
      | cons d s =>
          obtain ⟨hhead, htail⟩ := List.cons.inj h
          obtain ⟨⟨hlower, hupper⟩, hrest⟩ :
              (c.toLower = c ∧ c.toUpper = c) ∧ caseless v = true := by
            simpa [caseless] using hv
          have hd := eq_of_toLower_eq hhead.symm
          rw [hlower, hupper, or_self, or_self] at hd
          rw [hd, ih hrest htail]

/-- A text with a letter has another one it folds together with. -/
theorem exists_folded_ne {v : Str} (hv : caseless v = false) :
    ∃ s : Str, s ≠ v ∧ v.map Char.toLower = s.map Char.toLower := by
  by_cases hlower : v.map Char.toLower = v
  · refine ⟨v.map Char.toUpper, ?_, ?_⟩
    · intro hupper
      have hall : caseless v = true := by
        apply List.all_eq_true.mpr
        intro c hc
        have hl := List.map_inj_left.mp (hlower.trans (List.map_id v).symm) c hc
        have hu := List.map_inj_left.mp (hupper.trans (List.map_id v).symm) c hc
        simp only [id_eq] at hl hu
        simp [hl, hu]
      rw [hall] at hv
      cases hv
    · rw [List.map_map]
      apply List.map_congr_left
      intro c _
      exact (toLower_toUpper c).symm
  · refine ⟨v.map Char.toLower, hlower, ?_⟩
    rw [List.map_map]
    apply List.map_congr_left
    intro c _
    exact (toLower_toLower c).symm

/-- Percent-encoding keeps a character or makes at least three of it. -/
theorem length_quoteChar (c : Char) :
    quoteChar c = [c] ∨ 3 ≤ (quoteChar c).length := by
  unfold quoteChar
  split
  · exact Or.inl rfl
  · right
    have hsome : utf8 c ≠ [] := by
      intro hnone
      have hlength := congrArg List.length hnone
      rw [utf8, List.length_map, String.length_utf8EncodeChar] at hlength
      exact absurd hlength (Nat.ne_of_gt c.utf8Size_pos)
    obtain ⟨b, bytes, hbytes⟩ := List.exists_cons_of_ne_nil hsome
    rw [hbytes, List.flatMap_cons, List.length_append]
    simp only [List.length_cons, List.length_nil]
    omega

/-- Quoting only makes longer, and what it does not it leaves alone. -/
theorem length_le_quote (s : Str) :
    s.length ≤ (quote s).length ∧ ((quote s).length = s.length → quote s = s) := by
  induction s with
  | nil => simp [quote]
  | cons c s ih =>
      obtain ⟨hle, heq⟩ := ih
      have hcons : quote (c :: s) = quoteChar c ++ quote s := rfl
      rw [hcons, List.length_append, List.length_cons]
      rcases length_quoteChar c with hone | hthree
      · rw [hone]
        refine ⟨by simp; omega, fun h => ?_⟩
        rw [List.singleton_append, heq (by simp at h; omega)]
      · exact ⟨by omega, fun h => by omega⟩

theorem length_quotePlus_le (s : Str) :
    (quotePlus s).length ≤ (quote s).length ∧
      ((quotePlus s).length = (quote s).length → quotePlus s = quote s) := by
  induction s with
  | nil => simp [quote, quotePlus]
  | cons c s ih =>
      obtain ⟨hle, heq⟩ := ih
      have hquote : quote (c :: s) = quoteChar c ++ quote s := rfl
      have hplus : quotePlus (c :: s) = (if c = ' ' then ['+'] else quoteChar c) ++ quotePlus s :=
        rfl
      rw [hquote, hplus, List.length_append, List.length_append]
      by_cases hspace : c = ' '
      · subst hspace
        have hthree : (quoteChar ' ').length = 3 := by decide
        rw [hthree, if_pos rfl]
        exact ⟨by simp; omega, fun h => by simp at h; omega⟩
      · rw [if_neg hspace]
        refine ⟨by omega, fun h => ?_⟩
        rw [heq (by omega)]

/-- The twice-encoded form is the only one of its length. -/
theorem eq_of_length_form {literal v : Str} (hv : v ∈ literalForms literal)
    (hlength : v.length = (quote (quote literal)).length) : v = quote (quote literal) := by
  obtain ⟨hle, heq⟩ := length_le_quote literal
  obtain ⟨hle', heq'⟩ := length_le_quote (quote literal)
  obtain ⟨hplus, hpluseq⟩ := length_quotePlus_le literal
  simp only [literalForms, List.mem_cons, List.not_mem_nil, or_false] at hv
  rcases hv with rfl | rfl | rfl | rfl
  · rw [heq' (by omega), heq (by omega)]
  · rw [heq' (by omega)]
  · rw [heq' (by omega), hpluseq (by omega)]
  · rfl

/-- A character that is no letter and no digit has no letter case. -/
theorem caseless_of_not_alphanum {c : Char} (h : c.isAlphanum = false) :
    c.toLower = c ∧ c.toUpper = c := by
  have hsplit : c.isAlphanum = ((c.isUpper || c.isLower) || c.isDigit) := rfl
  have hupper : c.isUpper = decide (65 ≤ c.toNat ∧ c.toNat ≤ 90) := by
    have hdef : c.isUpper = decide (c.val ≥ 'A'.val ∧ c.val ≤ 'Z'.val) := rfl
    rw [hdef]
    simp [UInt32.le_iff_toNat_le]
  have hlower : c.isLower = decide (97 ≤ c.toNat ∧ c.toNat ≤ 122) := by
    have hdef : c.isLower = (decide (c.val ≥ 97) && decide (c.val ≤ 122)) := rfl
    rw [hdef]
    simp [UInt32.le_iff_toNat_le]
  rw [hsplit, hupper, hlower] at h
  simp only [Bool.or_eq_false_iff, decide_eq_false_iff_not] at h
  constructor
  · rw [← Char.toNat_inj, toNat_toLower, if_neg h.1.1]
  · rw [← Char.toNat_inj, toNat_toUpper, if_neg h.1.2]

/-- Encoding keeps every letter. -/
theorem caseless_of_quote {s : Str} (h : caseless (quote s) = true) : caseless s = true := by
  apply List.all_eq_true.mpr
  intro c hc
  by_cases hkept : isUnreserved c = true
  · have hmem : c ∈ quote s := by
      apply List.mem_flatMap.mpr
      exact ⟨c, hc, by rw [quoteChar, if_pos hkept]; exact List.mem_singleton_self c⟩
    exact List.all_eq_true.mp h c hmem
  · have hletter : c.isAlphanum = false := by
      rw [isUnreserved, Bool.or_eq_true, not_or] at hkept
      exact Bool.eq_false_iff.mpr hkept.1
    obtain ⟨hlower, hupper⟩ := caseless_of_not_alphanum hletter
    simp [hlower, hupper]

/-- A text that quotes without case quotes so with pluses. -/
theorem caseless_quotePlus {s : Str} (h : caseless (quote s) = true) :
    caseless (quotePlus s) = true := by
  apply List.all_eq_true.mpr
  intro d hd
  obtain ⟨c, hc, hdc⟩ := List.mem_flatMap.mp hd
  by_cases hspace : c = ' '
  · rw [if_pos hspace, List.mem_singleton] at hdc
    subst hdc
    decide
  · rw [if_neg hspace] at hdc
    exact List.all_eq_true.mp h d (List.mem_flatMap.mpr ⟨c, hc, hdc⟩)

/-- If the twice-encoded form has no letter, no form has. -/
theorem caseless_forms {literal : Str} (h : caseless (quote (quote literal)) = true) :
    (literalForms literal).all caseless = true := by
  have hquote := caseless_of_quote h
  simp only [literalForms, List.all_cons, List.all_nil, Bool.and_true, Bool.and_eq_true]
  exact ⟨caseless_of_quote hquote, hquote, caseless_quotePlus hquote, h⟩

/-- **Letter case over the forms.**  Folding letter case adds no subject exactly
when no form has a letter. -/
theorem folds_alike_iff (literal : Str) :
    (∀ s : Str, matchesAny true false (literalForms literal) s =
      matchesAny false false (literalForms literal) s) ↔
      (literalForms literal).all caseless = true := by
  constructor
  · intro h
    apply caseless_forms
    by_contra hletter
    obtain ⟨s, hne, hfold⟩ := exists_folded_ne (Bool.eq_false_iff.mpr hletter)
    have hmem : quote (quote literal) ∈ literalForms literal := by simp [literalForms]
    have hfolded : matchesAny true false (literalForms literal) s = true :=
      matchesAny_iff.mpr ⟨_, hmem, matchesValue_folded.mpr hfold⟩
    rw [h s] at hfolded
    obtain ⟨v, hv, hexact⟩ := matchesAny_iff.mp hfolded
    obtain rfl := matchesValue_exact.mp hexact
    have hlength : v.length = (quote (quote literal)).length := by
      have := congrArg List.length hfold
      rw [List.length_map, List.length_map] at this
      exact this.symm
    exact hne (eq_of_length_form hv hlength)
  · intro hall s
    rw [Bool.eq_iff_iff, matchesAny_iff, matchesAny_iff]
    constructor
    · rintro ⟨v, hv, hmatch⟩
      have hcase := List.all_eq_true.mp hall v hv
      refine ⟨v, hv, matchesValue_exact.mpr ?_⟩
      exact eq_of_caseless hcase (matchesValue_folded.mp hmatch)
    · rintro ⟨v, hv, hmatch⟩
      obtain rfl := matchesValue_exact.mp hmatch
      exact ⟨v, hv, matchesValue_folded.mpr rfl⟩

/-- The component of a named argument. -/
def argsComponent : Component :=
  ⟨.argsPostMatch, "POST argument".toList, some .parameter, true, false, some argsCoverageNote⟩

theorem component_args : component "ARGS".toList = some argsComponent := rfl

/-- The condition the recognised line compiles to. -/
def compiledCondition (parameter literal : Str) (rule : SecRule) : Condition :=
  { literalCondition parameter literal with valueCase := some (!namesLowercase rule) }

/-- The compiled rule of a text whose one directive is the recognised line. -/
theorem compile_readsLiteral {t : CharTables} {pattern : Pattern} {proposal : Proposal}
    {directive parameter captured : Str} {rule : SecRule}
    (hmeta : (unwrapGroup captured).any isRegexMeta = false)
    (hdirective : splitDirectives t pattern.patternSummary = [directive])
    (hparsed : parseSecrule t directive = .ok rule)
    (hreads : readsLiteral parameter captured rule = true)
    (h : compile t pattern none = .ok (some proposal)) :
    proposal.candidateContent.operation = .and ∧
      proposal.candidateContent.conditions =
        [compiledCondition parameter (unwrapGroup captured) rule] := by
  obtain ⟨⟨⟨hvars, hnegated⟩, hoperator⟩, hargument⟩ :
      ((rule.vars = [⟨"ARGS".toList, some parameter⟩] ∧ rule.negated = false) ∧
        rule.operator = "rx".toList) ∧ rule.argument = '^' :: captured ++ ['$'] := by
    simpa only [readsLiteral, Bool.and_eq_true, decide_eq_true_eq, Bool.not_eq_true'] using hreads
  obtain ⟨m, hmatch⟩ : ∃ m, operatorMatch t rule = .ok m := by
    obtain ⟨rules, compiled, conditions, notes, hc⟩ := compile_ok h
    obtain ⟨rule', hrule', hone⟩ := mapM_ok_left hc.parsed (hdirective ▸ List.mem_singleton_self _)
    obtain rfl : rule = rule' := Except.ok.inj (hparsed.symm.trans hone)
    have hloop := hc.loop
    simp only [compileRules] at hloop
    split at hloop
    · cases hloop
    · rename_i parts hparts
      obtain ⟨part, -, hpart⟩ := mapM_ok_left hparts hrule'
      obtain ⟨m, built, hcompiled⟩ := compileRule_ok hpart
      exact ⟨m, hcompiled.matched⟩
  obtain ⟨cc, hcc, hop, honly, -⟩ := compile_single_built hdirective hparsed hvars hmatch h
  refine ⟨hop, ?_⟩
  rw [operatorMatch, if_pos hoperator, hargument] at hmatch
  obtain ⟨hvalues, hwild, hfold⟩ := regexMatch_captured hmeta hmatch
  have hselector : cc.condition.selector = some (.parameter, parameter) := by
    simp only [buildCondition, component_args] at hcc
    split at hcc
    · cases hcc
    · split at hcc
      · cases hcc
      · split at hcc
        · cases hcc
        · cases hcc
          rfl
  obtain ⟨c, hb⟩ := buildCondition_ok hcc
  obtain rfl : argsComponent = c := Option.some.inj (component_args.symm.trans hb.known)
  have htype : conditionTypeOf argsComponent ⟨"ARGS".toList, some parameter⟩ = .argsPostMatch :=
    rfl
  have hmethod : "ARGS".toList ≠ "REQUEST_METHOD".toList := by decide
  have hcondition : cc.condition = compiledCondition parameter (unwrapGroup captured) rule := by
    have hvalue : cc.condition.value = unique (literalForms (unwrapGroup captured)) := by
      rw [hb.value, conditionValues, if_neg (by simp [hwild]), componentValues,
        if_neg hmethod, if_pos ⟨rfl, hwild⟩, hvalues]
      simp [encodingVariants, literalForms]
    have hcase := hb.valueCase
    have hwildcard := hb.valueWildcard
    rw [htype, if_pos (by decide)] at hcase hwildcard
    rw [caseSensitiveOf_eq, hfold, Bool.false_or] at hcase
    rw [hwild] at hwildcard
    have hpositive := hb.positiveMatch
    rw [hnegated] at hpositive
    have hkind := hb.type.trans htype
    cases hcond : cc.condition with
    | mk type positive selector case wildcard value =>
        rw [hcond] at hselector hvalue hcase hwildcard hpositive hkind
        simp only at hselector hvalue hcase hwildcard hpositive hkind
        subst hselector hvalue hcase hwildcard hpositive hkind
        rfl
  rw [honly, hcondition]

/-- On a POST request the shortcut asks for the argument alone. -/
theorem literalRule_blocks {pattern : Pattern} {parameter literal : Str} {request : Request}
    (hpost : IsPost request) :
    (literalRule pattern parameter literal).blocks request =
      (literalCondition parameter literal).holds request := by
  have hmethod : methodCondition.holds request = true := by
    change ((request .requestMethodMatch none).any _ == true) = true
    rw [hpost]
    decide
  have hblocks : (literalRule pattern parameter literal).blocks request =
      (methodCondition.holds request && ((literalCondition parameter literal).holds request &&
        true)) := rfl
  rw [hblocks, hmethod, Bool.true_and, Bool.and_true]

/-- Repeated values change no verdict. -/
theorem matchesAny_unique {ci wildcard : Bool} {values : List Str} {s : Str} :
    matchesAny ci wildcard (unique values) s = matchesAny ci wildcard values s := by
  rw [Bool.eq_iff_iff, matchesAny_iff, matchesAny_iff]
  simp only [mem_unique]

/-- A request that presents one value of one argument. -/
def oneArgument (parameter s : Str) : Request := fun type selector =>
  if type = .requestMethodMatch then ["POST".toList]
  else if type = .argsPostMatch ∧ selector = some (.parameter, parameter) then [s]
  else []

/-- Two conditions on one argument hold of the same requests exactly when they
match the same values. -/
theorem holds_alike_iff (parameter literal : Str) (rule : SecRule) :
    (∀ request, IsPost request →
      (literalCondition parameter literal).holds request =
        (compiledCondition parameter literal rule).holds request) ↔
      ∀ s : Str, matchesAny true false (literalForms literal) s =
        matchesAny (namesLowercase rule) false (literalForms literal) s := by
  have hliteral : ∀ request : Request, (literalCondition parameter literal).holds request =
      (request .argsPostMatch (some (.parameter, parameter))).any
        (matchesAny true false (literalForms literal)) := by
    intro request
    simp only [Condition.holds, literalCondition, Option.getD_some, Bool.not_false, beq_true]
    exact List.any_congr rfl fun s => matchesAny_unique
  have hcompiled : ∀ request : Request,
      (compiledCondition parameter literal rule).holds request =
      (request .argsPostMatch (some (.parameter, parameter))).any
        (matchesAny (namesLowercase rule) false (literalForms literal)) := by
    intro request
    simp only [Condition.holds, compiledCondition, literalCondition, Option.getD_some,
      Bool.not_not, beq_true]
    exact List.any_congr rfl fun s => matchesAny_unique
  simp only [hliteral, hcompiled]
  constructor
  · intro h s
    have hone := h (oneArgument parameter s) rfl
    have hvalues : oneArgument parameter s .argsPostMatch (some (.parameter, parameter)) = [s] := by
      simp [oneArgument]
    rw [hvalues] at hone
    simpa using hone
  · intro h request _
    exact List.any_congr rfl h

/-- What an anchored-literal proposal was written from. -/
theorem hardenedAkamaiLiteralProposal_ok {pattern : Pattern} {literal : Proposal}
    (h : hardenedAkamaiLiteralProposal pattern = some literal) :
    ∃ parameter captured,
      searchAnchoredLiteral pattern.patternSummary = some (parameter, captured) ∧
      (unwrapGroup captured).any isRegexMeta = false ∧
      literal.candidateContent = literalRule pattern parameter (unwrapGroup captured) := by
  unfold hardenedAkamaiLiteralProposal at h
  cases hsearch : searchAnchoredLiteral pattern.patternSummary with
  | none =>
      rw [hsearch] at h
      cases h
  | some groups =>
      obtain ⟨parameter, captured⟩ := groups
      simp only [hsearch] at h
      split at h
      · cases h
      · rename_i hplain
        obtain rfl := Option.some.inj h
        exact ⟨parameter, captured, rfl, Bool.eq_false_iff.mpr hplain, rfl⟩

/-- The one directive of a text and its text. -/
theorem soleRule_ok {t : CharTables} {text : Str} {rule : SecRule}
    (h : soleRule t text = some rule) :
    ∃ directive, splitDirectives t text = [directive] ∧ parseSecrule t directive = .ok rule := by
  unfold soleRule at h
  split at h
  · rename_i rule' hmapped
    obtain rfl := Option.some.inj h
    obtain ⟨directive, rest, hone, hnil, hlist⟩ :=
      List.forall₂_cons_right_iff.mp (mapM_ok hmapped)
    rw [List.forall₂_nil_right_iff.mp hnil] at hlist
    exact ⟨directive, hlist, hone⟩
  · cases h

/-- **The shortcut.**  On a text whose one directive is the recognised line, the
anchored-literal rule and the compiled rule block the same POST requests
exactly when folding letter case adds nothing. -/
theorem shortcut_agrees_iff {t : CharTables} {pattern : Pattern} {literal compiled : Proposal}
    (hliteral : hardenedAkamaiLiteralProposal pattern = some literal)
    (hcompiled : compileAkamaiCustomRule t pattern none = some compiled)
    (hreads : readsOnlyLine t pattern.patternSummary = true) :
    Agree literal compiled ↔ foldsAlike t pattern.patternSummary = true := by
  have hcompile : compile t pattern none = .ok (some compiled) := by
    unfold compileAkamaiCustomRule at hcompiled
    split at hcompiled
    · rename_i proposal hok
      rw [hok, hcompiled]
    · cases hcompiled
  obtain ⟨parameter, captured, hsearch, hmeta, hcontent⟩ :=
    hardenedAkamaiLiteralProposal_ok hliteral
  cases hsole : soleRule t pattern.patternSummary with
  | none =>
      rw [readsOnlyLine, hsearch, hsole] at hreads
      cases hreads
  | some rule =>
      rw [readsOnlyLine, hsearch, hsole] at hreads
      have hfolds : foldsAlike t pattern.patternSummary =
          (namesLowercase rule || (literalForms (unwrapGroup captured)).all caseless) := by
        rw [foldsAlike, hsearch, hsole]
      obtain ⟨directive, hdirective, hparsed⟩ := soleRule_ok hsole
      obtain ⟨hop, hconditions⟩ :=
        compile_readsLiteral hmeta hdirective hparsed hreads hcompile
      have hblocks : ∀ request, compiled.candidateContent.blocks request =
          (compiledCondition parameter (unwrapGroup captured) rule).holds request := by
        intro request
        simp [RuleBody.blocks, hop, hconditions, Operation.eval]
      have hagree : Agree literal compiled ↔ ∀ request, IsPost request →
          (literalCondition parameter (unwrapGroup captured)).holds request =
            (compiledCondition parameter (unwrapGroup captured) rule).holds request := by
        apply forall_congr'
        intro request
        apply imp_congr_right
        intro hpost
        rw [hblocks, hcontent, literalRule_blocks hpost]
      rw [hagree, holds_alike_iff, hfolds]
      cases namesLowercase rule with
      | true => exact iff_of_true (fun _ => rfl) (Bool.true_or _)
      | false =>
          rw [Bool.false_or]
          exact folds_alike_iff (unwrapGroup captured)

/-- An anchored literal chained to a header comparison. -/
def chainedLiteral : Pattern :=
  { patternSummary := join ['\n']
      ["SecRule ARGS:q \"@rx ^1$\" \"id:1,chain\"".toList,
        headerDirective ['A'] "streq a".toList "id:2".toList]
    vulnerabilityId := "CVE-1".toList }

/-- The shortcut drops the chained directive and blocks a request that the
compiled rule lets through. -/
theorem shortcut_ignores_chain :
    ¬ ∀ (t : CharTables) (pattern : Pattern) (literal compiled : Proposal),
      hardenedAkamaiLiteralProposal pattern = some literal →
      compileAkamaiCustomRule t pattern none = some compiled → Agree literal compiled := by
  intro h
  obtain ⟨literal, hliteral, hblocked⟩ : ∃ literal,
      hardenedAkamaiLiteralProposal chainedLiteral = some literal ∧
        literal.candidateContent.blocks (oneArgument ['q'] ['1']) = true :=
    Option.map_eq_some_iff.mp (by decide +kernel)
  obtain ⟨compiled, hcompiled, hpassed⟩ : ∃ compiled,
      compileAkamaiCustomRule asciiTables chainedLiteral none = some compiled ∧
        compiled.candidateContent.blocks (oneArgument ['q'] ['1']) = false :=
    Option.map_eq_some_iff.mp (by decide +kernel)
  have hbad := h asciiTables chainedLiteral literal compiled hliteral hcompiled
    (oneArgument ['q'] ['1']) rfl
  rw [hblocked, hpassed] at hbad
  cases hbad

/-- An anchored number. -/
def anchoredNumber : Pattern :=
  { patternSummary := "SecRule ARGS:q \"@rx ^1$\" \"id:1\"".toList
    vulnerabilityId := "CVE-1".toList }

/-- The shortcut and the compiler agree on an anchored number. -/
theorem shortcut_agrees_anchored_number :
    ∃ literal compiled, hardenedAkamaiLiteralProposal anchoredNumber = some literal ∧
      compileAkamaiCustomRule asciiTables anchoredNumber none = some compiled ∧
      Agree literal compiled := by
  obtain ⟨literal, hliteral⟩ : ∃ literal,
      hardenedAkamaiLiteralProposal anchoredNumber = some literal :=
    Option.isSome_iff_exists.mp (by decide +kernel)
  obtain ⟨compiled, hcompiled⟩ : ∃ compiled,
      compileAkamaiCustomRule asciiTables anchoredNumber none = some compiled :=
    Option.isSome_iff_exists.mp (by decide +kernel)
  have hreads : readsOnlyLine asciiTables anchoredNumber.patternSummary = true := by
    decide +kernel
  exact ⟨literal, compiled, hliteral, hcompiled,
    (shortcut_agrees_iff hliteral hcompiled hreads).mpr (by decide +kernel)⟩

end ModSecurity
