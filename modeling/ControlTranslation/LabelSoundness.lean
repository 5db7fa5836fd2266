import ControlTranslation.RuleComposition

/-!
# What a fidelity label promises

A single regex directive over a header, a cookie or an XML body becomes one
condition and one label.  The label is read off the translator's flags, which
speak of the emitted values; the condition is evaluated with its polarity, its
letter case and the values left after rewriting.  This file states the promise
of each label against the source condition, its transformations and negation
included, and shows for which directives the steps after the translator keep it.
-/

namespace ModSecurity

open PyText Glob

/-- The transformations in force: `none` clears the ones before it. -/
def effective (transformations : List Str) : List Str :=
  transformations.foldl
    (fun kept name => if name = "none".toList then [] else kept ++ [name]) []

/-- The value an operator sees; `other` is what the transformations apart from
lower-casing do. -/
def transform (other : Str → Str → Str) (names : List Str) (s : Str) : Str :=
  names.foldl (fun s name =>
    if name = "lowercase".toList then s.map Char.toLower else other name s) s

/-- The verdict of the source condition, for a regex that finds a match in the
subjects `found`. -/
def sourceMatches (other : Str → Str → Str) (found : Language Char) (rule : SecRule)
    (s : Str) : Prop :=
  transform other (effective rule.transformations) s ∈ found ↔ rule.negated = false

/-- The verdict of an emitted condition. -/
def Condition.matches (c : Condition) (s : Str) : Bool :=
  matchesAny (!c.valueCase.getD true) (c.valueWildcard.getD false) c.value s ==
    c.positiveMatch

/-- The subjects the emitted values match, before rewriting. -/
def Match.language (m : Match) : Language Char :=
  {s | matchesAny m.caseInsensitive m.wildcard m.values s = true}

/-- The flags of a match are honest about its values. -/
structure Honest (m : Match) (found : Language Char) : Prop where
  equal : m.lossy = false → m.narrowed = false → found = m.language
  broad : m.lossy = true → found ≤ m.language
  narrow : m.narrowed = true → m.language ≤ found

/-- The promise of a label. -/
def LabelSound : TranslationLabel → Prop → Prop → Prop
  | .exact, source, candidate => candidate ↔ source
  | .equivalent, source, candidate => candidate ↔ source
  | .broader, source, candidate => source → candidate
  | .narrower, source, candidate => candidate → source

/-- Whether no transformation but lower-casing is in force. -/
def onlyLowercase (rule : SecRule) : Bool :=
  (effective rule.transformations).all (· = "lowercase".toList)

/-- Whether the directive names lower-casing at all. -/
def namesLowercase (rule : SecRule) : Bool := rule.transformations.contains "lowercase".toList

/-- Whether no subject of the emitted values is lost. -/
def coversSource (rule : SecRule) (m : Match) : Bool :=
  onlyLowercase rule &&
    (!m.wildcard || dropsCovered (generalizeWildcardTransportForms m.values))

/-- Whether folding letter case changes no value: none is upper case, and none
has letters where lower-casing was cleared. -/
def caseKept (rule : SecRule) (m : Match) : Bool :=
  m.caseInsensitive || !namesLowercase rule ||
    m.values.all fun value => value.all fun c =>
      c.toLower == c && (effective rule.transformations ≠ [] || c.toUpper == c)

/-- Whether no subject is gained. -/
def withinSource (rule : SecRule) (m : Match) : Bool :=
  onlyLowercase rule && caseKept rule m &&
    (!m.wildcard || !hasEvidence m.values || (derivedForms m.values).all m.values.contains)

/-- Whether polarity and rewriting keep the promise of the label. -/
def keepsLabel (rule : SecRule) (m : Match) : Bool :=
  match labelOf m.lossy m.narrowed with
  | .broader => !rule.negated && coversSource rule m
  | .narrower => !rule.negated && withinSource rule m
  | _ => coversSource rule m && withinSource rule m

/-- The letter case of the final condition. -/
theorem caseSensitiveOf_eq (rule : SecRule) (m : Match) :
    caseSensitiveOf rule m = !(m.caseInsensitive || namesLowercase rule) := rfl

/-- A transformation in force is named by the directive. -/
theorem mem_of_mem_effective {transformations : List Str} {name : Str}
    (h : name ∈ effective transformations) : name ∈ transformations := by
  have hfold : ∀ (names kept : List Str),
      name ∈ names.foldl
        (fun kept name => if name = "none".toList then [] else kept ++ [name]) kept →
      name ∈ kept ∨ name ∈ names := by
    intro names
    induction names with
    | nil =>
        intro kept hmem
        exact Or.inl hmem
    | cons first rest ih =>
        intro kept hmem
        rw [List.foldl_cons] at hmem
        rcases ih _ hmem with hkept | hrest
        · by_cases hnone : first = "none".toList
          · rw [if_pos hnone] at hkept
            cases hkept
          · rw [if_neg hnone, List.mem_append, List.mem_singleton] at hkept
            rcases hkept with hkept | rfl
            · exact Or.inl hkept
            · exact Or.inr List.mem_cons_self
        · exact Or.inr (List.mem_cons_of_mem _ hrest)
  rcases hfold transformations [] h with hnil | hmem
  · cases hnil
  · exact hmem

/-- Under lower-casing alone the operator sees the subject in lower case. -/
theorem transform_lowercase {other : Str → Str → Str} {names : List Str}
    (h : names.all (· = "lowercase".toList) = true) (hne : names ≠ []) (s : Str) :
    transform other names s = s.map Char.toLower := by
  induction names generalizing s with
  | nil => exact absurd rfl hne
  | cons name rest ih =>
      obtain ⟨hname, hrest⟩ : name = "lowercase".toList ∧
          rest.all (· = "lowercase".toList) = true := by
        simpa only [List.all_cons, Bool.and_eq_true, decide_eq_true_eq] using h
      have hstep : transform other (name :: rest) s =
          transform other rest (s.map Char.toLower) := by
        rw [transform, List.foldl_cons, if_pos hname]
        rfl
      rw [hstep]
      by_cases hrest' : rest = []
      · rw [hrest']
        rfl
      · rw [ih hrest hrest', List.map_map]
        exact List.map_congr_left fun c _ => toLower_toLower c

/-- Lower-casing in force is named. -/
theorem namesLowercase_of_effective {rule : SecRule} (honly : onlyLowercase rule = true)
    (h : effective rule.transformations ≠ []) : namesLowercase rule = true := by
  obtain ⟨name, hname⟩ := List.exists_mem_of_ne_nil _ h
  have hlower : name = "lowercase".toList :=
    of_decide_eq_true (List.all_eq_true.mp honly name hname)
  exact List.contains_iff_mem.mpr (hlower ▸ mem_of_mem_effective hname)

theorem sameChar_true {a b : Char} : sameChar true a b = true ↔ a.toLower = b.toLower := by
  simp [sameChar]

/-- Folding more compares more characters equal. -/
theorem sameChar_or {ci more : Bool} {a b : Char} (h : sameChar ci a b = true) :
    sameChar (ci || more) a b = true := by
  cases ci with
  | true => exact h
  | false =>
      rw [sameChar_false] at h
      rw [h]
      exact sameChar_refl _ b

/-- What matches a lower-cased character matches it when case is folded. -/
theorem sameChar_of_toLower {ci : Bool} {a b : Char} (h : sameChar ci a b.toLower = true) :
    sameChar true a b = true := by
  have hfold : sameChar (ci || true) a b.toLower = true := sameChar_or h
  rw [Bool.or_true, sameChar_true, toLower_toLower] at hfold
  exact sameChar_true.mpr hfold

/-- Related subjects match the same values, when every comparison carries over. -/
theorem matchesAny_rel {ci ci' wildcard : Bool} {values : List Str} {R : Char → Char → Prop}
    (hlit : ∀ value ∈ values, ∀ c ∈ value, ∀ x y, R y x → sameChar ci c x = true →
      sameChar ci' c y = true)
    {s s' : Str} (h : List.Forall₂ R s' s) (hs : matchesAny ci wildcard values s = true) :
    matchesAny ci' wildcard values s' = true := by
  obtain ⟨value, hvalue, hmatch⟩ := matchesAny_iff.mp hs
  refine matchesAny_iff.mpr ⟨value, hvalue, ?_⟩
  have hmem := (accepts_iff _).mp hmatch
  refine (accepts_iff _).mpr (lang_rel _ ?_ h hmem)
  intro a ha
  apply hlit value hvalue a
  cases wildcard with
  | true =>
      obtain ⟨c, hc, heq⟩ := List.mem_map.mp ha
      by_cases hrun : c = '*'
      · simp [hrun] at heq
      · by_cases hone : c = '?'
        · simp [hone] at heq
        · have hca : c = a := by simpa [hrun, hone] using heq
          exact hca ▸ hc
  | false => simpa using ha

/-- The values of the final condition. -/
def finalValues (m : Match) : List Str :=
  if m.wildcard then
    removeSubsumedLiteralWildcards (generalizeWildcardTransportForms m.values)
  else m.values

/-- **No subject is lost.** -/
theorem matchesAny_of_source {other : Str → Str → Str} {rule : SecRule} {m : Match} {s : Str}
    (h : coversSource rule m = true)
    (hs : transform other (effective rule.transformations) s ∈ m.language) :
    matchesAny (m.caseInsensitive || namesLowercase rule) m.wildcard (finalValues m) s =
      true := by
  obtain ⟨honly, hdrops⟩ : onlyLowercase rule = true ∧ (!m.wildcard ||
      dropsCovered (generalizeWildcardTransportForms m.values)) = true := by
    simpa only [coversSource, Bool.and_eq_true] using h
  have hs' : matchesAny m.caseInsensitive m.wildcard m.values
      (transform other (effective rule.transformations) s) = true := hs
  have hvalues :
      matchesAny (m.caseInsensitive || namesLowercase rule) m.wildcard m.values s = true := by
    by_cases hnone : effective rule.transformations = []
    · rw [hnone] at hs'
      refine matchesAny_rel ?_ (List.forall₂_same.mpr fun x _ => (rfl : x = x)) hs'
      intro value _ c _ x y hyx hx
      obtain rfl : y = x := hyx
      exact sameChar_or hx
    · have hnamed := namesLowercase_of_effective honly hnone
      rw [transform_lowercase honly hnone] at hs'
      have hrel : List.Forall₂ (fun y x => y.toLower = x) s (s.map Char.toLower) :=
        List.forall₂_map_right_iff.mpr (List.forall₂_same.mpr fun x _ => rfl)
      refine matchesAny_rel ?_ hrel hs'
      intro value _ c _ x y hyx hx
      obtain rfl : y.toLower = x := hyx
      rw [hnamed, Bool.or_true]
      exact sameChar_of_toLower hx
  unfold finalValues
  by_cases hwild : m.wildcard = true
  · rw [if_pos hwild]
    rw [hwild] at hvalues ⊢
    have hcovered : dropsCovered (generalizeWildcardTransportForms m.values) = true := by
      simpa [hwild] using hdrops
    rw [matchesAny_remove hcovered]
    exact matchesAny_mono (fun value => mem_generalize) hvalues
  · rw [if_neg hwild]
    exact hvalues

/-- **No subject is gained.** -/
theorem source_of_matchesAny {other : Str → Str → Str} {rule : SecRule} {m : Match} {s : Str}
    (h : withinSource rule m = true)
    (hs : matchesAny (m.caseInsensitive || namesLowercase rule) m.wildcard (finalValues m) s =
      true) :
    transform other (effective rule.transformations) s ∈ m.language := by
  obtain ⟨⟨honly, hcase⟩, hderived⟩ : (onlyLowercase rule = true ∧ caseKept rule m = true) ∧
      (!m.wildcard || !hasEvidence m.values ||
        (derivedForms m.values).all m.values.contains) = true := by
    simpa only [withinSource, Bool.and_eq_true] using h
  have hold : ∀ value ∈ finalValues m, value ∈ m.values := by
    intro value hvalue
    unfold finalValues at hvalue
    split at hvalue
    · rename_i hwild
      rcases mem_of_mem_generalize (mem_of_mem_remove hvalue) with hmem | ⟨hevidence, hmem⟩
      · exact hmem
      · have hall : (derivedForms m.values).all m.values.contains = true := by
          simpa only [hwild, hevidence, Bool.not_true, Bool.false_or] using hderived
        exact List.contains_iff_mem.mp (List.all_eq_true.mp hall value hmem)
    · exact hvalue
  have hvalues := matchesAny_mono hold hs
  -- Where the condition folds letter case and the regex does not, no value tells.
  have hkept : m.caseInsensitive = false → namesLowercase rule = true →
      ∀ value ∈ m.values, ∀ c ∈ value, c.toLower = c ∧
        (effective rule.transformations = [] → c.toUpper = c) := by
    intro hci hnamed value hvalue c hc
    have hall : (m.values.all fun value => value.all fun c =>
        c.toLower == c && (effective rule.transformations ≠ [] || c.toUpper == c)) = true := by
      simpa only [caseKept, hci, hnamed, Bool.not_true, Bool.false_or] using hcase
    have hchar := List.all_eq_true.mp (List.all_eq_true.mp hall value hvalue) c hc
    simp only [Bool.and_eq_true, Bool.or_eq_true, decide_eq_true_eq, beq_iff_eq] at hchar
    exact ⟨hchar.1, fun hnil => hchar.2.resolve_left (not_not.mpr hnil)⟩
  change matchesAny m.caseInsensitive m.wildcard m.values _ = true
  by_cases hnone : effective rule.transformations = []
  · rw [hnone]
    refine matchesAny_rel ?_ (List.forall₂_same.mpr fun x _ => (rfl : x = x)) hvalues
    intro value hvalue c hc x y hyx hx
    obtain rfl : y = x := hyx
    by_cases hci : m.caseInsensitive = true
    · rw [hci, Bool.true_or] at hx
      rw [hci]
      exact hx
    · rw [Bool.not_eq_true] at hci
      rw [hci, Bool.false_or] at hx
      rw [hci]
      by_cases hnamed : namesLowercase rule = true
      · obtain ⟨hlower, hupper⟩ := hkept hci hnamed value hvalue c hc
        rw [hnamed, sameChar_true] at hx
        have hy := eq_of_toLower_eq hx.symm
        rw [hlower, hupper hnone, or_self, or_self] at hy
        exact sameChar_false.mpr hy.symm
      · rw [Bool.not_eq_true] at hnamed
        rw [hnamed] at hx
        exact hx
  · have hnamed := namesLowercase_of_effective honly hnone
    rw [transform_lowercase honly hnone]
    have hrel : List.Forall₂ (fun y x => y = x.toLower) (s.map Char.toLower) s :=
      List.forall₂_map_left_iff.mpr (List.forall₂_same.mpr fun x _ => rfl)
    refine matchesAny_rel ?_ hrel hvalues
    intro value hvalue c hc x y hyx hx
    obtain rfl : y = x.toLower := hyx
    rw [hnamed, Bool.or_true, sameChar_true] at hx
    by_cases hci : m.caseInsensitive = true
    · rw [hci, sameChar_true, toLower_toLower]
      exact hx
    · rw [Bool.not_eq_true] at hci
      rw [hci, sameChar_false, ← hx]
      exact (hkept hci hnamed value hvalue c hc).1.symm

/-- A component that is looked up is a row of the table. -/
theorem component_mem {collection : Str} {c : Component} (h : component collection = some c) :
    (collection, c) ∈ components := by
  unfold component at h
  cases hfind : components.find? fun entry => entry.1 = collection with
  | none => simp [hfind] at h
  | some entry =>
      have hname : entry.1 = collection := by
        have := List.find?_some hfind
        exact of_decide_eq_true this
      have hrow : entry.2 = c := by simpa [hfind] using h
      have hentry : (collection, c) = entry := by rw [← hname, ← hrow]
      rw [hentry]
      exact List.mem_of_find?_eq_some hfind

/-- Only the components of literal values lack the value flags or rewrite a
method name. -/
theorem hasValueFlags_of_component {v : Variable} {c : Component}
    (h : component v.collection = some c) (hliteral : c.literalOnly = false) :
    (conditionTypeOf c v).hasValueFlags = true ∧ v.collection ≠ "REQUEST_METHOD".toList := by
  have htable : (components.all fun entry => entry.2.literalOnly ||
      (entry.2.conditionType.hasValueFlags && entry.1 ≠ "REQUEST_METHOD".toList)) = true := by
    decide +kernel
  have hrow := List.all_eq_true.mp htable _ (component_mem h)
  rw [hliteral, Bool.false_or, Bool.and_eq_true] at hrow
  refine ⟨?_, of_decide_eq_true hrow.2⟩
  unfold conditionTypeOf
  split
  · rfl
  · exact hrow.1

/-- The one condition and the label of a single directive. -/
structure SingleCondition (rule : SecRule) (m : Match) (proposal : Proposal)
    (condition : Condition) : Prop where
  only : proposal.candidateContent.conditions = [condition]
  label : proposal.translationLabel = labelOf m.lossy m.narrowed
  positiveMatch : condition.positiveMatch = !rule.negated
  valueCase : condition.valueCase = some (caseSensitiveOf rule m)
  valueWildcard : condition.valueWildcard = some m.wildcard
  value : condition.value = finalValues m

/-- One directive of one variable compiles to the condition built from it. -/
theorem compile_single_built {t : CharTables} {pattern : Pattern} {proposal : Proposal}
    {directive : Str} {rule : SecRule} {v : Variable} {m : Match}
    (hdirective : splitDirectives t pattern.patternSummary = [directive])
    (hparsed : parseSecrule t directive = .ok rule) (hvars : rule.vars = [v])
    (hmatch : operatorMatch t rule = .ok m)
    (h : compile t pattern none = .ok (some proposal)) :
    ∃ cc, buildCondition t v rule m (caseSensitiveOf rule m) = .ok cc ∧
      proposal.candidateContent.operation = .and ∧
      proposal.candidateContent.conditions = [cc.condition] ∧
      proposal.translationLabel = labelOf m.lossy m.narrowed := by
  obtain ⟨rules, compiled, conditions, notes, hc⟩ := compile_ok h
  have hrules : rules = [rule] := by
    have hmapped := hc.parsed
    rw [hdirective, List.mapM_cons, hparsed] at hmapped
    simpa [bind, Except.bind, pure, Except.pure, eq_comm] using hmapped
  subst hrules
  have happlied : (compiled.conditions, ([] : List Str)) = (conditions, notes) :=
    Except.ok.inj hc.applied
  obtain ⟨rfl, rfl⟩ := Prod.mk.inj happlied
  obtain ⟨part, hpart, hcompiled⟩ : ∃ part, compileRule t false rule = .ok part ∧
      compiled = Compiled.append ⟨[], [], [], false, false⟩ part := by
    have hloop := hc.loop
    simp only [compileRules] at hloop
    split at hloop
    · cases hloop
    · rename_i parts hparts
      cases hloop
      obtain ⟨part, rest, hfirst, hnil, rfl⟩ :=
        List.forall₂_cons_left_iff.mp (mapM_ok hparts)
      rw [List.forall₂_nil_left_iff.mp hnil]
      exact ⟨part, hfirst, rfl⟩
  obtain ⟨m', built, hrule⟩ := compileRule_ok hpart
  obtain rfl : m = m' := Except.ok.inj (hmatch.symm.trans hrule.matched)
  obtain ⟨cc, hcc, rfl⟩ : ∃ cc, buildCondition t v rule m (caseSensitiveOf rule m) = .ok cc ∧
      built = [cc] := by
    have hbuilt := hrule.conditions
    rw [hvars] at hbuilt
    obtain ⟨cc, rest, hcc, hnil, rfl⟩ := List.forall₂_cons_left_iff.mp hbuilt
    rw [List.forall₂_nil_left_iff.mp hnil]
    exact ⟨cc, hcc, rfl⟩
  obtain ⟨c, hb⟩ := buildCondition_ok hcc
  have hconditions : compiled.conditions = [cc.condition] := by
    rw [hcompiled]
    simp [Compiled.append, hrule.emitted]
  have hlabel : labelOf compiled.lossy compiled.narrowed = labelOf m.lossy m.narrowed := by
    rw [hcompiled]
    simp [Compiled.append, hrule.lossy, hrule.narrowed, hb.lossy, hb.narrowed]
  refine ⟨cc, hcc, ?_, ?_, ?_⟩
  · rw [hc.proposed]
    change operationOf compiled.conditions (anyChained [rule]) = .and
    rw [hconditions]
    rfl
  · rw [hc.proposed]
    exact hconditions
  · rw [hc.proposed]
    exact hlabel

/-- What one directive on one variable compiles to. -/
theorem compile_single {t : CharTables} {pattern : Pattern} {proposal : Proposal}
    {directive : Str} {rule : SecRule} {v : Variable} {c : Component} {m : Match}
    (hdirective : splitDirectives t pattern.patternSummary = [directive])
    (hparsed : parseSecrule t directive = .ok rule) (hvars : rule.vars = [v])
    (hcomponent : component v.collection = some c) (hplain : c.encodable = false)
    (hliteral : c.literalOnly = false) (hmatch : operatorMatch t rule = .ok m)
    (h : compile t pattern none = .ok (some proposal)) :
    ∃ condition, SingleCondition rule m proposal condition := by
  obtain ⟨cc, hcc, -, honly, hlabel⟩ :=
    compile_single_built hdirective hparsed hvars hmatch h
  obtain ⟨c', hb⟩ := buildCondition_ok hcc
  obtain rfl : c = c' := Option.some.inj (hcomponent.symm.trans hb.known)
  obtain ⟨hflags, hmethod⟩ := hasValueFlags_of_component hcomponent hliteral
  have hvalues : conditionValues t c v m = finalValues m := by
    have hold : componentValues t c v m = m.values := by
      rw [componentValues, if_neg hmethod, if_neg]
      simp [hplain]
    rw [conditionValues, hold]
    rfl
  refine ⟨cc.condition, honly, hlabel, hb.positiveMatch, ?_, ?_, ?_⟩
  · rw [hb.valueCase, if_pos hflags]
  · rw [hb.valueWildcard, if_pos hflags]
  · rw [hb.value, hvalues]

/-- The verdict of the emitted condition, in terms of the final values. -/
theorem matches_iff {rule : SecRule} {m : Match} {proposal : Proposal} {condition : Condition}
    (h : SingleCondition rule m proposal condition) (s : Str) :
    condition.matches s = true ↔
      (matchesAny (m.caseInsensitive || namesLowercase rule) m.wildcard (finalValues m) s =
        true ↔ rule.negated = false) := by
  rw [Condition.matches, h.valueCase, h.valueWildcard, h.value, h.positiveMatch,
    caseSensitiveOf_eq, Option.getD_some, Option.getD_some, Bool.not_not, beq_iff_eq]
  generalize matchesAny _ _ _ _ = verdict
  cases verdict <;> cases rule.negated <;> simp

/-- **Labels.**  On a single directive over a header, a cookie or an XML body,
whatever its operator, the label's promise holds for every subject when
polarity and rewriting keep it. -/
theorem compile_label_sound {t : CharTables} {pattern : Pattern} {proposal : Proposal}
    {directive : Str} {rule : SecRule} {v : Variable} {c : Component} {m : Match}
    {found : Language Char} (other : Str → Str → Str)
    (hdirective : splitDirectives t pattern.patternSummary = [directive])
    (hparsed : parseSecrule t directive = .ok rule) (hvars : rule.vars = [v])
    (hcomponent : component v.collection = some c) (hplain : c.encodable = false)
    (hliteral : c.literalOnly = false) (hmatch : operatorMatch t rule = .ok m)
    (hhonest : Honest m found)
    (h : compile t pattern none = .ok (some proposal)) (hkeeps : keepsLabel rule m = true) :
    ∀ condition ∈ proposal.candidateContent.conditions, ∀ s : Str,
      LabelSound proposal.translationLabel (sourceMatches other found rule s)
        (condition.matches s = true) := by
  obtain ⟨condition', hsingle⟩ :=
    compile_single hdirective hparsed hvars hcomponent hplain hliteral hmatch h
  intro condition hcondition s
  rw [hsingle.only, List.mem_singleton] at hcondition
  subst hcondition
  have hcovers : coversSource rule m = true →
      transform other (effective rule.transformations) s ∈ m.language → _ :=
    fun hc => matchesAny_of_source hc
  have hwithin : withinSource rule m = true → _ →
      transform other (effective rule.transformations) s ∈ m.language :=
    fun hw => source_of_matchesAny hw
  rw [hsingle.label, matches_iff hsingle]
  unfold keepsLabel at hkeeps
  by_cases hlossy : m.lossy = true
  · -- Broader: a rule that is not negated loses no subject.
    rw [labelOf, if_pos hlossy] at hkeeps ⊢
    obtain ⟨hnegated, hcov⟩ : (!rule.negated) = true ∧ coversSource rule m = true := by
      simpa only [Bool.and_eq_true] using hkeeps
    rw [Bool.not_eq_true'] at hnegated
    intro hsource
    rw [sourceMatches, hnegated] at hsource
    rw [hnegated]
    have hfound := hsource.mpr rfl
    exact iff_of_true (hcovers hcov (hhonest.broad hlossy hfound)) rfl
  · by_cases hnarrowed : m.narrowed = true
    · -- Narrower: a rule that is not negated gains none.
      rw [labelOf, if_neg hlossy, if_pos hnarrowed] at hkeeps ⊢
      obtain ⟨hnegated, hwith⟩ : (!rule.negated) = true ∧ withinSource rule m = true := by
        simpa only [Bool.and_eq_true] using hkeeps
      rw [Bool.not_eq_true'] at hnegated
      intro hcandidate
      rw [hnegated] at hcandidate
      rw [sourceMatches, hnegated]
      have hfinal := hcandidate.mpr rfl
      exact iff_of_true (hhonest.narrow hnarrowed (hwithin hwith hfinal)) rfl
    · -- Equivalent: the values match the same subjects, whatever the polarity.
      rw [labelOf, if_neg hlossy, if_neg hnarrowed] at hkeeps ⊢
      obtain ⟨hcov, hwith⟩ : coversSource rule m = true ∧ withinSource rule m = true := by
        simpa only [Bool.and_eq_true] using hkeeps
      have hequal := hhonest.equal (by simpa using hlossy) (by simpa using hnarrowed)
      have hsame : transform other (effective rule.transformations) s ∈ found ↔
          matchesAny (m.caseInsensitive || namesLowercase rule) m.wildcard (finalValues m) s =
            true := by
        rw [hequal]
        exact ⟨hcovers hcov, hwithin hwith⟩
      change (_ ↔ _) ↔ sourceMatches other found rule s
      rw [sourceMatches, hsame]

/-- A header that must be made of digits. -/
def digitsOnly : Pattern :=
  { patternSummary := "SecRule ".toList ++ "REQUEST_HEADERS:A ".toList ++
      "\"!@rx ^\\d+$\" \"id:1\"".toList
    vulnerabilityId := "CVE-1".toList }

/-- Its one directive. -/
def digitsRule : SecRule :=
  { vars := [⟨"REQUEST_HEADERS".toList, some ['A']⟩], negated := true,
    operator := "rx".toList, argument := "^\\d+$".toList, transformations := [],
    message := none, tags := [], chained := false }

/-- The translator widens the digits to any characters. -/
def digitsMatch : Match :=
  { values := ["?*".toList], wildcard := true, caseInsensitive := false, lossy := true }

/-- What `^\d+$` finds. -/
def digitsFound : Language Char := {s | s ≠ [] ∧ s.all Char.isDigit = true}

/-- The component of one named request header. -/
def headerComponent : Component :=
  ⟨.requestHeaderValueMatch, "request header".toList, some .header, false, false, none⟩

/-- The match of the example says honestly what it lost. -/
theorem digits_honest : Honest digitsMatch digitsFound where
  equal h := by cases h
  narrow h := by cases h
  broad := by
    intro _ s hs
    obtain ⟨hne, -⟩ : s ≠ [] ∧ s.all Char.isDigit = true := hs
    cases s with
    | nil => exact absurd rfl hne
    | cons x w =>
        have hrun : acceptsAfterRun (accepts (sameChar false) []) w = true :=
          acceptsAfterRun_iff.mpr ⟨w, [], List.append_nil w, rfl⟩
        exact matchesAny_iff.mpr ⟨"?*".toList, List.mem_singleton_self _, hrun⟩

/-- A negated directive whose regex was widened blocks less, and is labelled
`broader` all the same. -/
theorem compile_label_unsound_when_negated :
    ¬ ∀ (t : CharTables) (pattern : Pattern) (proposal : Proposal) (directive : Str)
        (rule : SecRule) (v : Variable) (c : Component) (m : Match) (found : Language Char)
        (other : Str → Str → Str),
      splitDirectives t pattern.patternSummary = [directive] →
      parseSecrule t directive = .ok rule → rule.vars = [v] →
      rule.operator = "rx".toList → component v.collection = some c →
      c.encodable = false → c.literalOnly = false → operatorMatch t rule = .ok m →
      Honest m found → compile t pattern none = .ok (some proposal) →
      ∀ condition ∈ proposal.candidateContent.conditions, ∀ s : Str,
        LabelSound proposal.translationLabel (sourceMatches other found rule s)
          (condition.matches s = true) := by
  intro h
  have hdirective : splitDirectives asciiTables digitsOnly.patternSummary =
      [digitsOnly.patternSummary] := by decide +kernel
  have hparsed : parseSecrule asciiTables digitsOnly.patternSummary = .ok digitsRule := by
    decide +kernel
  have hcomponent : component "REQUEST_HEADERS".toList = some headerComponent := rfl
  have hmatch : operatorMatch asciiTables digitsRule = .ok digitsMatch := by decide +kernel
  obtain ⟨proposal, hcompile, -, -⟩ :
      ∃ proposal, compile asciiTables digitsOnly none = .ok (some proposal) ∧
        proposal.candidateContent.operation = .and ∧
        proposal.candidateContent.conditions =
          [{ type := .requestHeaderValueMatch, positiveMatch := false,
             selector := some (.header, ['A']), valueCase := some true,
             valueWildcard := some true, value := ["?*".toList] }] :=
    exists_proposal (by decide +kernel)
  obtain ⟨condition, hsingle⟩ :=
    compile_single hdirective hparsed rfl hcomponent rfl rfl hmatch hcompile
  have hbad := h asciiTables digitsOnly proposal _ digitsRule _ _ _ digitsFound
    (fun _ s => s) hdirective hparsed rfl rfl hcomponent rfl rfl hmatch digits_honest hcompile
    condition (by rw [hsingle.only]; exact List.mem_singleton_self _) "abc".toList
  have hsource : sourceMatches (fun _ s => s) digitsFound digitsRule "abc".toList := by
    have habc : ¬("abc".toList ∈ digitsFound) := fun hmem => absurd hmem.2 (by decide)
    exact iff_of_false habc (by decide)
  rw [hsingle.label] at hbad
  have hmatches := (matches_iff hsingle _).mp (hbad hsource)
  exact absurd (hmatches.mp (by decide +kernel)) (by decide)

/-- A header compared in lower case. -/
def lowerCased : Pattern :=
  { patternSummary := headerDirective ['A'] "rx evil".toList "t:none,t:lowercase".toList
    vulnerabilityId := "CVE-1".toList }

/-- Its one directive. -/
def lowerCasedRule : SecRule :=
  { vars := [⟨"REQUEST_HEADERS".toList, some ['A']⟩], negated := false,
    operator := "rx".toList, argument := "evil".toList,
    transformations := ["none".toList, "lowercase".toList], message := none, tags := [],
    chained := false }

/-- The label of a pattern compared in lower case is sound. -/
theorem compile_label_sound_lower_cased :
    ∃ proposal, compile asciiTables lowerCased none = .ok (some proposal) ∧
      ∀ condition ∈ proposal.candidateContent.conditions,
        LabelSound proposal.translationLabel
          (sourceMatches (fun _ s => s)
            {s | matchesAny false true ["*evil*".toList] s = true}
            lowerCasedRule "an EVIL one".toList)
          (condition.matches "an EVIL one".toList = true) := by
  have hdirective : splitDirectives asciiTables lowerCased.patternSummary =
      [lowerCased.patternSummary] := by decide +kernel
  have hcomponent : component "REQUEST_HEADERS".toList = some headerComponent := rfl
  obtain ⟨proposal, hcompile, -, -⟩ :
      ∃ proposal, compile asciiTables lowerCased none = .ok (some proposal) ∧
        proposal.candidateContent.operation = .and ∧
        proposal.candidateContent.conditions =
          [{ type := .requestHeaderValueMatch, positiveMatch := true,
             selector := some (.header, ['A']), valueCase := some false,
             valueWildcard := some true, value := ["*evil*".toList] }] :=
    exists_proposal (by decide +kernel)
  have hparsed : parseSecrule asciiTables lowerCased.patternSummary = .ok lowerCasedRule := by
    decide +kernel
  have hmatch : operatorMatch asciiTables lowerCasedRule = .ok
      { values := ["*evil*".toList], wildcard := true, caseInsensitive := false,
        lossy := false } := by decide +kernel
  refine ⟨proposal, hcompile, fun condition hcondition => ?_⟩
  exact compile_label_sound (fun _ s => s) hdirective hparsed rfl hcomponent rfl rfl hmatch
    ⟨fun _ _ => rfl, fun hl => (by cases hl), fun hn => (by cases hn)⟩ hcompile
    (by decide +kernel) condition hcondition _

end ModSecurity
