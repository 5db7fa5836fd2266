import ControlTranslation.LabelSoundness

/-!
# Folding payloads into a compiled rule

The proof loop hands the compiler payloads that the next rule has to block.
Values of one condition are alternatives, so the compiler adds the payloads to
the first condition over the component the counterexample mutated.  That
condition was built from an arbitrary directive: it may be negated, and then an
added value is one more value the condition lets through.  The promise of the
folding therefore depends on the polarity of that directive, and on nothing
else: letter case and wildcards never keep a payload from matching itself.
-/

namespace ModSecurity

open PyText Glob

/-- A text matches itself read as a pattern. -/
theorem accepts_ofText_self (ci : Bool) : ∀ s : Str, accepts (sameChar ci) (ofText s) s = true := by
  intro s
  induction s with
  | nil => rfl
  | cons c rest ih =>
      by_cases hrun : c = '*'
      · have hall : ofText (c :: rest) = .many :: ofText rest := by simp [ofText, hrun]
        rw [hall]
        apply acceptsAfterRun_iff.mpr
        exact ⟨[c], rest, rfl, ih⟩
      · by_cases hone : c = '?'
        · have hall : ofText (c :: rest) = .one :: ofText rest := by simp [ofText, hone]
          rw [hall]
          exact ih
        · have hall : ofText (c :: rest) = .lit c :: ofText rest := by simp [ofText, hrun, hone]
          rw [hall]
          simp [accepts, ih]

theorem accepts_literal_self (ci : Bool) (s : Str) :
    accepts (sameChar ci) (s.map .lit) s = true := by
  induction s with
  | nil => rfl
  | cons c rest ih => simp [accepts, ih]

/-- Whatever the letter case and the wildcard mode, a value matches itself. -/
theorem matchesValue_self (ci wildcard : Bool) (s : Str) :
    matchesValue ci wildcard s s = true := by
  cases wildcard with
  | true => exact accepts_ofText_self ci s
  | false => exact accepts_literal_self ci s

/-- A condition with more values. -/
def Condition.withValues (c : Condition) (more : List Str) : Condition :=
  { c with value := unique (c.value ++ more) }

/-- Added values match beside those that were there. -/
theorem matchesAny_withValues {ci wildcard : Bool} {values more : List Str} {s : Str} :
    matchesAny ci wildcard (unique (values ++ more)) s = true ↔
      matchesAny ci wildcard values s = true ∨ matchesAny ci wildcard more s = true := by
  simp only [matchesAny_iff, mem_unique, List.mem_append]
  grind

/-- What the folding promises of one condition: the payloads are blocked, and
nothing that was blocked passes. -/
structure KeepsBlocking (payloads : List Str) (before after : Condition) : Prop where
  blocked : ∀ p ∈ payloads, after.matches p = true
  kept : ∀ s : Str, before.matches s = true → after.matches s = true

/-- The promise is kept exactly by a condition that matches positively. -/
theorem keeps_withValues {c : Condition} {payloads : List Str} (hne : payloads ≠ []) :
    KeepsBlocking payloads c (c.withValues payloads) ↔ c.positiveMatch = true := by
  constructor
  · intro h
    obtain ⟨p, hp⟩ := List.exists_mem_of_ne_nil _ hne
    have hblocked := h.blocked p hp
    have hlisted : matchesAny (!c.valueCase.getD true) (c.valueWildcard.getD false)
        (unique (c.value ++ payloads)) p = true :=
      matchesAny_withValues.mpr (Or.inr (matchesAny_iff.mpr ⟨p, hp, matchesValue_self _ _ p⟩))
    simp only [Condition.matches, Condition.withValues, hlisted, beq_iff_eq] at hblocked
    exact hblocked.symm
  · intro hpositive
    have hmatches : ∀ s : Str, (c.withValues payloads).matches s =
        matchesAny (!c.valueCase.getD true) (c.valueWildcard.getD false)
          (unique (c.value ++ payloads)) s := by
      intro s
      simp [Condition.matches, Condition.withValues, hpositive]
    refine ⟨fun p hp => ?_, fun s hs => ?_⟩
    · rw [hmatches]
      exact matchesAny_withValues.mpr
        (Or.inr (matchesAny_iff.mpr ⟨p, hp, matchesValue_self _ _ p⟩))
    · rw [hmatches]
      apply matchesAny_withValues.mpr
      left
      simpa [Condition.matches, hpositive] using hs

/-- The place of the first condition of a required type. -/
def foldIndex (types : List ConditionType) (conditions : List Condition) : Option Nat :=
  conditions.findIdx? fun c => types.contains c.type

/-- Folding changes one condition: the first of a required type. -/
theorem foldPayloads_ok {types : List ConditionType} {payloads : List Str}
    {conditions folded : List Condition}
    (h : foldPayloads types payloads conditions = .ok folded) :
    ∃ i c, foldIndex types conditions = some i ∧ conditions[i]? = some c ∧
      folded[i]? = some (c.withValues payloads) := by
  induction conditions generalizing folded with
  | nil => cases h
  | cons c rest ih =>
      simp only [foldPayloads] at h
      by_cases htype : c.type ∈ types
      · rw [if_pos htype] at h
        split at h
        · cases h
        · cases h
          refine ⟨0, c, ?_, rfl, rfl⟩
          simp [foldIndex, List.findIdx?_cons, htype]
      · rw [if_neg htype] at h
        cases hrest : foldPayloads types payloads rest with
        | error e =>
            rw [hrest] at h
            cases h
        | ok folded' =>
            rw [hrest] at h
            cases h
            obtain ⟨i, d, hi, hd, hd'⟩ := ih hrest
            refine ⟨i + 1, d, ?_, by simpa using hd, by simpa using hd'⟩
            have hskip : types.contains c.type = false := by simpa using htype
            rw [foldIndex] at hi ⊢
            rw [List.findIdx?_cons, hskip, hi]
            rfl

/-- What is folded also compiles without requirements, to the conditions the
folding starts from. -/
theorem compile_without {t : CharTables} {pattern : Pattern} {r : Option Requirements}
    {proposal : Proposal} {rules : List SecRule} {compiled : Compiled}
    {conditions : List Condition} {notes : List Str}
    (h : Compilation t pattern r proposal rules compiled conditions notes) :
    compile t pattern none =
      .ok (some (propose pattern rules compiled compiled.conditions [])) := by
  have hlinked : ¬(1 < rules.length ∧ anyChained rules = false) := by
    rintro ⟨hseveral, hloose⟩
    rw [h.linked hseveral] at hloose
    cases hloose
  unfold compile
  simp only [if_neg h.nonempty, if_neg (Nat.not_lt.mpr h.bounded), h.parsed, if_neg hlinked,
    h.loop, if_neg h.produced, applyOptional, if_neg h.oneFlag]

/-- Whether a variable is compiled to a condition of one of the types. -/
def compilesTo (types : List ConditionType) (v : Variable) : Bool :=
  ((component v.collection).map fun c => types.contains (conditionTypeOf c v)).getD false

/-- The first directive over the component the counterexample mutated. -/
def foldTarget (t : CharTables) (pattern : Pattern) (r : Requirements) : Option SecRule :=
  match (splitDirectives t pattern.patternSummary).mapM (parseSecrule t) with
  | .error _ => none
  | .ok rules =>
      ((inspected rules).find? fun entry => compilesTo (requiredConditionTypes t r) entry.2).map
        (·.1)

/-- Whether that directive is negated. -/
def targetNegated (t : CharTables) (pattern : Pattern) (r : Requirements) : Bool :=
  (foldTarget t pattern r).any (·.negated)

/-- A condition was built from a variable of a directive. -/
structure BuiltFrom (entry : SecRule × Variable) (c : Condition) : Prop where
  type : ∀ types, compilesTo types entry.2 = types.contains c.type
  positiveMatch : c.positiveMatch = !entry.1.negated

/-- Every variable of every directive has its condition, in order. -/
theorem compileRules_built {t : CharTables} {rules : List SecRule} {compiled : Compiled}
    (h : compileRules t rules = .ok compiled) :
    List.Forall₂ BuiltFrom (inspected rules) compiled.conditions := by
  apply (compileRules_from h).imp
  rintro entry _ ⟨m, cc, -, hcc, rfl⟩
  obtain ⟨c, hb⟩ := buildCondition_ok hcc
  refine ⟨fun types => ?_, hb.positiveMatch⟩
  simp [compilesTo, hb.known, hb.type]

/-- The first condition of a required type comes from the first variable
compiled to one. -/
theorem builtFrom_first {types : List ConditionType} {entries : List (SecRule × Variable)}
    {conditions : List Condition} (h : List.Forall₂ BuiltFrom entries conditions) {i : Nat}
    {c : Condition} (hi : foldIndex types conditions = some i) (hc : conditions[i]? = some c) :
    ∃ entry, (entries.find? fun entry => compilesTo types entry.2) = some entry ∧
      BuiltFrom entry c := by
  induction h generalizing i with
  | nil => simp at hc
  | @cons entry d entries conditions hbuilt _ ih =>
      rw [foldIndex, List.findIdx?_cons] at hi
      rw [List.find?_cons, hbuilt.type]
      cases htype : types.contains d.type with
      | true =>
          rw [htype, if_pos rfl] at hi
          obtain rfl := Option.some.inj hi
          obtain rfl : d = c := by simpa using hc
          exact ⟨entry, rfl, hbuilt⟩
      | false =>
          rw [htype] at hi
          obtain ⟨j, hj, rfl⟩ : ∃ j, foldIndex types conditions = some j ∧ j + 1 = i := by
            simpa [foldIndex] using hi
          exact ih hj (by simpa using hc)

/-- The payloads are blocked by the condition they were folded into, and it
blocks what it blocked before. -/
def PayloadsBlocked (t : CharTables) (pattern : Pattern) (r : Requirements)
    (proposal : Proposal) : Prop :=
  ∃ base i before after,
    compile t pattern none = .ok (some base) ∧
    foldIndex (requiredConditionTypes t r) base.candidateContent.conditions = some i ∧
    base.candidateContent.conditions[i]? = some before ∧
    proposal.candidateContent.conditions[i]? = some after ∧
    KeepsBlocking r.requiredPayloads before after

/-- **Required payloads.**  Folding keeps its promise exactly when the directive
whose condition receives the payloads is not negated. -/
theorem payloads_blocked_iff {t : CharTables} {pattern : Pattern} {r : Requirements}
    {proposal : Proposal} (h : compile t pattern (some r) = .ok (some proposal))
    (hpayloads : r.requiredPayloads ≠ []) :
    PayloadsBlocked t pattern r proposal ↔ targetNegated t pattern r = false := by
  obtain ⟨rules, compiled, conditions, notes, hc⟩ := compile_ok h
  have hbase := compile_without hc
  obtain ⟨folded, hfold, hfinal⟩ : ∃ folded,
      foldPayloads (requiredConditionTypes t r) r.requiredPayloads compiled.conditions =
        .ok folded ∧ conditions = folded ++ pathScope folded r := by
    have happlied := hc.applied
    simp only [applyOptional, applyRequirements, if_neg hpayloads] at happlied
    split at happlied
    · cases happlied
    · rename_i folded hfold
      cases happlied
      exact ⟨folded, hfold, rfl⟩
  obtain ⟨i, c, hi, hbefore, hafter⟩ := foldPayloads_ok hfold
  have hemitted : proposal.candidateContent.conditions[i]? =
      some (c.withValues r.requiredPayloads) := by
    have hlt : i < folded.length := (List.getElem?_eq_some_iff.mp hafter).1
    rw [hc.proposed, ← hafter, hfinal]
    exact List.getElem?_append_left hlt
  obtain ⟨entry, hentry, hbuilt⟩ := builtFrom_first (compileRules_built hc.loop) hi hbefore
  have htarget : targetNegated t pattern r = entry.1.negated := by
    simp [targetNegated, foldTarget, hc.parsed, hentry]
  have hpromise := keeps_withValues (c := c) hpayloads
  rw [hbuilt.positiveMatch, Bool.not_eq_true'] at hpromise
  rw [htarget, ← hpromise]
  constructor
  · rintro ⟨base, j, before, after, hcompile, hj, hbefore', hafter', hkeeps⟩
    obtain rfl := Option.some.inj (Except.ok.inj (hbase.symm.trans hcompile))
    obtain rfl := Option.some.inj (hi.symm.trans hj)
    obtain rfl := Option.some.inj (hbefore.symm.trans hbefore')
    obtain rfl := Option.some.inj (hemitted.symm.trans hafter')
    exact hkeeps
  · intro hkeeps
    exact ⟨_, i, c, _, hbase, hi, hbefore, hemitted, hkeeps⟩

/-- A header that must be `a`. -/
def onlyA : Pattern :=
  { patternSummary := "SecRule REQUEST_HEADERS:A \"!@streq a\" \"id:1\"".toList
    vulnerabilityId := "CVE-1".toList }

/-- A header that must not be `a`. -/
def neverA : Pattern :=
  { patternSummary := headerDirective ['A'] "streq a".toList "id:1".toList
    vulnerabilityId := "CVE-1".toList }

/-- A bypass through the header value `b`. -/
def bypassB : Requirements :=
  { originalPayload := none, bypassPayload := some ['b'], postWafCanonicalForms := [],
    effectivePath := none, mutationLocation := ["header".toList] }

/-- Folded into a negated directive, the payload is one more value let through. -/
theorem payloads_pass_when_negated :
    ¬ ∀ (t : CharTables) (pattern : Pattern) (r : Requirements) (proposal : Proposal),
      compile t pattern (some r) = .ok (some proposal) → r.requiredPayloads ≠ [] →
      PayloadsBlocked t pattern r proposal := by
  intro h
  obtain ⟨proposal, hcompile, -, hconditions⟩ :
      ∃ proposal, compile asciiTables onlyA (some bypassB) = .ok (some proposal) ∧
        proposal.candidateContent.operation = .and ∧
        proposal.candidateContent.conditions =
          [{ type := .requestHeaderValueMatch, positiveMatch := false,
             selector := some (.header, ['A']), valueCase := some true,
             valueWildcard := some false, value := [['a'], ['b']] }] :=
    exists_proposal (by decide +kernel)
  obtain ⟨base, i, before, after, -, -, -, hafter, hkeeps⟩ :=
    h asciiTables onlyA bypassB proposal hcompile (by decide)
  rw [hconditions] at hafter
  obtain rfl := List.mem_singleton.mp (List.mem_of_getElem? hafter)
  exact absurd (hkeeps.blocked ['b'] (by decide)) (by decide)

/-- The payload added to the pattern of the example is blocked. -/
theorem payloads_blocked_neverA :
    ∃ proposal, compile asciiTables neverA (some bypassB) = .ok (some proposal) ∧
      PayloadsBlocked asciiTables neverA bypassB proposal := by
  obtain ⟨proposal, hcompile, -, -⟩ :
      ∃ proposal, compile asciiTables neverA (some bypassB) = .ok (some proposal) ∧
        proposal.candidateContent.operation = .and ∧
        proposal.candidateContent.conditions =
          [{ headerCondition ['A'] ['a'] with value := [['a'], ['b']] }] :=
    exists_proposal (by decide +kernel)
  exact ⟨proposal, hcompile, (payloads_blocked_iff hcompile (by decide)).mpr (by decide +kernel)⟩

end ModSecurity
