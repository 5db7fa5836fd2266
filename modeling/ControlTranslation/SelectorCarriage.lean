import ControlTranslation.RuleComposition

/-!
# Which named elements a compiled rule still names

A variable of a directive may name one element of its collection, as
`ARGS:id` does.  The table of components gives a collection the field its
condition names elements with, and gives some collections none; for those the
compiler drops the name and inspects the whole component.  This file follows the
names from the parsed variables into the conditions of the final rule.
-/

namespace ModSecurity

open PyText

/-- The field a collection names its elements with. -/
def selectorKeyOf (collection : Str) : Option SelectorKey :=
  (component collection).bind (·.selectorKey)

/-- The collections whose conditions can name an element. -/
def selectorCollections : List Str :=
  ["ARGS", "ARGS_POST", "REQUEST_HEADERS", "REQUEST_COOKIES"].map String.toList

/-- The collections whose elements have a selector. -/
theorem selectorKeyOf_ne_none_iff {collection : Str} :
    selectorKeyOf collection ≠ none ↔ collection ∈ selectorCollections := by
  constructor
  · intro h
    have htable : ∀ entry ∈ components,
        entry.2.selectorKey ≠ none → entry.1 ∈ selectorCollections := by decide +kernel
    cases hfind : components.find? fun entry => entry.1 = collection with
    | none => simp [selectorKeyOf, component, hfind] at h
    | some entry =>
        have hname : entry.1 = collection := by simpa using List.find?_some hfind
        rw [← hname]
        apply htable entry (List.mem_of_find?_eq_some hfind)
        simpa [selectorKeyOf, component, hfind] using h
  · intro h
    have htable : ∀ collection ∈ selectorCollections, selectorKeyOf collection ≠ none := by
      decide +kernel
    exact htable collection h

/-- The field and the name that reach the condition of a variable. -/
def emittedSelector (v : Variable) : Option (SelectorKey × Str) :=
  match selectorKeyOf v.collection, v.selector with
  | some key, some name => some (key, name)
  | _, _ => none

/-- A condition has the selector of its variable. -/
theorem buildCondition_selector {t : CharTables} {v : Variable} {rule : SecRule} {m : Match}
    {caseSensitive : Bool} {cc : CompiledCondition}
    (h : buildCondition t v rule m caseSensitive = .ok cc) :
    cc.condition.selector = emittedSelector v := by
  simp only [buildCondition] at h
  split at h
  · cases h
  · rename_i c hknown
    have hkey : selectorKeyOf v.collection = c.selectorKey := by
      simp [selectorKeyOf, hknown]
    split at h
    · cases h
    · split at h
      · cases h
      · split at h
        · cases h
        · cases h
          cases hfield : c.selectorKey <;> cases hname : v.selector <;>
            simp [emittedSelector, hkey, hfield, hname]

/-- The loop over the directives keeps what every variable leaves, in order. -/
theorem compileRules_selectors {t : CharTables} {rules : List SecRule} {compiled : Compiled}
    (h : compileRules t rules = .ok compiled) :
    compiled.conditions.map (·.selector) =
      (rules.flatMap (·.vars)).map emittedSelector := by
  have hrule : ∀ {several : Bool} {rule : SecRule} {part : Compiled},
      compileRule t several rule = .ok part →
      part.conditions.map (·.selector) = rule.vars.map emittedSelector := by
    intro several rule part hpart
    obtain ⟨m, built, hcompiled⟩ := compileRule_ok hpart
    have hbuilt : ∀ {vars : List Variable} {built : List CompiledCondition},
        List.Forall₂
          (fun v c => buildCondition t v rule m (caseSensitiveOf rule m) = .ok c) vars built →
        (built.map (·.condition)).map (·.selector) = vars.map emittedSelector := by
      intro vars built hall
      induction hall with
      | nil => rfl
      | cons hfirst _ ih => simp only [List.map_cons, buildCondition_selector hfirst, ih]
    rw [hcompiled.emitted]
    exact hbuilt hcompiled.conditions
  have hall : ∀ {several : Bool} {rules : List SecRule} {parts : List Compiled},
      List.Forall₂ (fun rule part => compileRule t several rule = .ok part) rules parts →
      (parts.flatMap (·.conditions)).map (·.selector) =
        (rules.flatMap (·.vars)).map emittedSelector := by
    intro several rules parts hparts
    induction hparts with
    | nil => rfl
    | cons hpart _ ih => simp only [List.flatMap_cons, List.map_append, hrule hpart, ih]
  simp only [compileRules] at h
  split at h
  · cases h
  · rename_i parts hparts
    cases h
    rw [conditions_foldl, List.nil_append]
    exact hall (mapM_ok hparts)

/-- Folding payloads adds values and keeps every name. -/
theorem foldPayloads_selectors {types : List ConditionType} {payloads : List Str}
    {conditions folded : List Condition}
    (h : foldPayloads types payloads conditions = .ok folded) :
    folded.map (·.selector) = conditions.map (·.selector) := by
  induction conditions generalizing folded with
  | nil => cases h
  | cons c rest ih =>
      simp only [foldPayloads] at h
      split at h
      · split at h
        · cases h
        · cases h
          rfl
      · cases hrest : foldPayloads types payloads rest with
        | error e =>
            rw [hrest] at h
            cases h
        | ok folded' =>
            rw [hrest] at h
            cases h
            simpa using ih hrest

/-- The requirements keep every name and may append conditions. -/
theorem applyOptional_selectors {t : CharTables} {conditions final : List Condition}
    {requirements : Option Requirements} {notes : List Str}
    (h : applyOptional t conditions requirements = .ok (final, notes)) :
    ∃ scope, final.map (·.selector) = conditions.map (·.selector) ++ scope := by
  cases requirements with
  | none =>
      cases h
      exact ⟨[], by simp⟩
  | some r =>
      simp only [applyOptional, applyRequirements] at h
      by_cases hpayloads : r.requiredPayloads = []
      · simp only [hpayloads, if_true] at h
        cases h
        exact ⟨_, List.map_append⟩
      · simp only [if_neg hpayloads] at h
        split at h
        · cases h
        · rename_i folded hfold
          cases h
          refine ⟨(pathScope folded r).map (·.selector), ?_⟩
          rw [List.map_append, foldPayloads_selectors hfold]

/-- The names in a compiled rule are those its variables leave, in order. -/
theorem compile_selectors {t : CharTables} {pattern : Pattern}
    {requirements : Option Requirements} {proposal : Proposal} {rules : List SecRule}
    (hparsed : (splitDirectives t pattern.patternSummary).mapM (parseSecrule t) = .ok rules)
    (h : compile t pattern requirements = .ok (some proposal)) :
    ∃ scope, proposal.candidateContent.conditions.map (·.selector) =
      (rules.flatMap (·.vars)).map emittedSelector ++ scope := by
  obtain ⟨rules', compiled, conditions, notes, hcompilation⟩ := compile_ok h
  obtain rfl : rules' = rules :=
    Except.ok.inj (hcompilation.parsed.symm.trans hparsed)
  obtain ⟨scope, hscope⟩ := applyOptional_selectors hcompilation.applied
  rw [hcompilation.proposed, ← compileRules_selectors hcompilation.loop]
  exact ⟨scope, hscope⟩

/-- The condition carries the name of its variable, in the field of the
variable's collection. -/
def CarriesSelector (v : Variable) (c : Condition) : Prop :=
  ∀ name, v.selector = some name →
    ∃ key, selectorKeyOf v.collection = some key ∧ c.selector = some (key, name)

/-- No name is dropped, and variables that differ in it stay apart. -/
structure KeepsSelectors (vars : List Variable) (conditions : List Condition) : Prop where
  carried : ∀ (i : Nat) (v : Variable), vars[i]? = some v →
    ∃ c, conditions[i]? = some c ∧ CarriesSelector v c
  apart : ∀ (i j : Nat) (v w : Variable), vars[i]? = some v → vars[j]? = some w →
    v.collection = w.collection → v.selector ≠ w.selector → conditions[i]? ≠ conditions[j]?

/-- The variable names no element, or one that its condition can name. -/
def Nameable (v : Variable) : Prop := v.selector = none ∨ v.collection ∈ selectorCollections

theorem emittedSelector_eq_some {v : Variable} {name : Str} (hnameable : Nameable v)
    (hname : v.selector = some name) :
    ∃ key, selectorKeyOf v.collection = some key ∧ emittedSelector v = some (key, name) := by
  have hcollection : v.collection ∈ selectorCollections := by
    rcases hnameable with hnone | hcollection
    · rw [hname] at hnone
      cases hnone
    · exact hcollection
  obtain ⟨key, hkey⟩ := Option.ne_none_iff_exists'.mp
    (selectorKeyOf_ne_none_iff.mpr hcollection)
  exact ⟨key, hkey, by simp only [emittedSelector, hkey, hname]⟩

/-- Nameable variables of one collection leave different names when theirs differ. -/
theorem emittedSelector_ne {v w : Variable} (hv : Nameable v) (hw : Nameable w)
    (hselector : v.selector ≠ w.selector) : emittedSelector v ≠ emittedSelector w := by
  cases hvs : v.selector with
  | none =>
      cases hws : w.selector with
      | none => exact absurd (hvs.trans hws.symm) hselector
      | some name =>
          obtain ⟨key, -, hemitted⟩ := emittedSelector_eq_some hw hws
          rw [hemitted]
          simp [emittedSelector, hvs]
  | some name =>
      obtain ⟨key, -, hemitted⟩ := emittedSelector_eq_some hv hvs
      rw [hemitted]
      cases hws : w.selector with
      | none => simp [emittedSelector, hws]
      | some other =>
          obtain ⟨key', -, hemitted'⟩ := emittedSelector_eq_some hw hws
          rw [hemitted']
          intro hsame
          apply hselector
          rw [hvs, hws, (Prod.mk.inj (Option.some.inj hsame)).2]

/-- Conditions whose names begin with what the variables leave keep the names
exactly when every variable is nameable. -/
theorem keepsSelectors_iff {vars : List Variable} {conditions : List Condition}
    {scope : List (Option (SelectorKey × Str))}
    (h : conditions.map (·.selector) = vars.map emittedSelector ++ scope) :
    KeepsSelectors vars conditions ↔ ∀ v ∈ vars, Nameable v := by
  have hat : ∀ {i : Nat} {v : Variable}, vars[i]? = some v →
      ∃ c, conditions[i]? = some c ∧ c.selector = emittedSelector v := by
    intro i v hv
    have hi : (conditions.map (·.selector))[i]? = some (emittedSelector v) := by
      have hbound : i < (vars.map emittedSelector).length := by
        simpa using (List.getElem?_eq_some_iff.mp hv).1
      rw [h, List.getElem?_append_left hbound, List.getElem?_map, hv]
      rfl
    rw [List.getElem?_map, Option.map_eq_some_iff] at hi
    exact hi
  constructor
  · intro hkeeps v hv
    obtain ⟨i, hi⟩ := List.getElem?_of_mem hv
    cases hname : v.selector with
    | none => exact Or.inl hname
    | some name =>
        obtain ⟨c, -, hcarries⟩ := hkeeps.carried i v hi
        obtain ⟨key, hkey, -⟩ := hcarries name hname
        exact Or.inr (selectorKeyOf_ne_none_iff.mp (by simp [hkey]))
  · intro hnameable
    refine ⟨?_, ?_⟩
    · intro i v hv
      obtain ⟨c, hc, hselector⟩ := hat hv
      refine ⟨c, hc, ?_⟩
      intro name hname
      obtain ⟨key, hkey, hemitted⟩ :=
        emittedSelector_eq_some (hnameable v (List.mem_of_getElem? hv)) hname
      exact ⟨key, hkey, hselector.trans hemitted⟩
    · intro i j v w hv hw _ hselector hsame
      obtain ⟨c, hc, hcv⟩ := hat hv
      obtain ⟨d, hd, hdw⟩ := hat hw
      obtain rfl : c = d := Option.some.inj (hc.symm.trans (hsame.trans hd))
      exact emittedSelector_ne (hnameable v (List.mem_of_getElem? hv))
        (hnameable w (List.mem_of_getElem? hw)) hselector (hcv.symm.trans hdw)

/-- **Selectors.**  A compiled rule keeps the names its variables give, and
keeps apart variables that differ in them, exactly when every variable that
names an element is in a collection whose conditions can name one.  A name on
any other collection is dropped in silence, where the compiler should have
declined. -/
theorem compile_keeps_selectors_iff {t : CharTables} {pattern : Pattern}
    {requirements : Option Requirements} {proposal : Proposal} {rules : List SecRule}
    (hparsed : (splitDirectives t pattern.patternSummary).mapM (parseSecrule t) = .ok rules)
    (h : compile t pattern requirements = .ok (some proposal)) :
    KeepsSelectors (rules.flatMap (·.vars)) proposal.candidateContent.conditions ↔
      ∀ rule ∈ rules, ∀ v ∈ rule.vars,
        v.selector = none ∨ v.collection ∈ selectorCollections := by
  obtain ⟨scope, hscope⟩ := compile_selectors hparsed h
  rw [keepsSelectors_iff hscope]
  constructor
  · intro hnameable rule hrule v hv
    exact hnameable v (List.mem_flatMap.mpr ⟨rule, hrule, hv⟩)
  · intro hnameable v hv
    obtain ⟨rule, hrule, hmem⟩ := List.mem_flatMap.mp hv
    exact hnameable rule hrule v hmem

/-- The compiled conditions of a pattern, read off by running the compiler. -/
theorem exists_conditions {t : CharTables} {pattern : Pattern} {r : Option Requirements}
    {conditions : List Condition}
    (h : ((compile t pattern r).toOption.join.map fun p => p.candidateContent.conditions) =
      some conditions) :
    ∃ proposal, compile t pattern r = .ok (some proposal) ∧
      proposal.candidateContent.conditions = conditions := by
  cases hcompile : compile t pattern r with
  | error e => simp [hcompile, Except.toOption] at h
  | ok result =>
      cases result with
      | none => simp [hcompile, Except.toOption] at h
      | some proposal => exact ⟨proposal, rfl, by simpa [hcompile, Except.toOption] using h⟩

/-- One comparison over the elements `id` and `page` of a collection. -/
def twoElements (collection : Str) : Pattern :=
  { patternSummary := "SecRule ".toList ++ collection ++ ":id|".toList ++ collection ++
      ":page \"@streq x\" \"id:1,deny\"".toList
    vulnerabilityId := "CVE-1".toList }

/-- A directive that reads two elements of one collection. -/
def twoElementRules (collection : Str) : List SecRule :=
  [{ vars := [⟨collection, some "id".toList⟩, ⟨collection, some "page".toList⟩]
     negated := false, operator := "streq".toList, argument := ['x'], transformations := []
     message := none, tags := [], chained := false }]

/-- The condition on one element, or on the whole component. -/
def elementCondition (type : ConditionType) (selector : Option (SelectorKey × Str)) :
    Condition :=
  { type := type, positiveMatch := true, selector := selector, valueCase := some true,
    valueWildcard := some false, value := [['x']] }

/-- Two query parameters compile to the whole query string, twice. -/
theorem compile_drops_query_selectors :
    ¬ ∀ (t : CharTables) (pattern : Pattern) (requirements : Option Requirements)
        (proposal : Proposal) (rules : List SecRule),
      (splitDirectives t pattern.patternSummary).mapM (parseSecrule t) = .ok rules →
      compile t pattern requirements = .ok (some proposal) →
      KeepsSelectors (rules.flatMap (·.vars)) proposal.candidateContent.conditions := by
  intro h
  obtain ⟨proposal, hcompile, hconditions⟩ :
      ∃ proposal, compile asciiTables (twoElements "ARGS_GET".toList) none =
          .ok (some proposal) ∧
        proposal.candidateContent.conditions =
          [elementCondition .uriQueryMatch none, elementCondition .uriQueryMatch none] :=
    exists_conditions (by decide +kernel)
  have hkeeps := h asciiTables (twoElements "ARGS_GET".toList) none proposal
    (twoElementRules "ARGS_GET".toList) (by decide +kernel) hcompile
  rw [hconditions] at hkeeps
  exact hkeeps.apart 0 1 ⟨"ARGS_GET".toList, some "id".toList⟩
    ⟨"ARGS_GET".toList, some "page".toList⟩ rfl rfl rfl (by decide) rfl

/-- Two body parameters keep their names. -/
theorem compile_keeps_selectors_body :
    ∃ proposal, compile asciiTables (twoElements "ARGS_POST".toList) none =
        .ok (some proposal) ∧
      KeepsSelectors ((twoElementRules "ARGS_POST".toList).flatMap (·.vars))
        proposal.candidateContent.conditions := by
  obtain ⟨proposal, hcompile, -⟩ :
      ∃ proposal, compile asciiTables (twoElements "ARGS_POST".toList) none =
          .ok (some proposal) ∧
        proposal.candidateContent.conditions =
          [elementCondition .argsPostMatch (some (.parameter, "id".toList)),
            elementCondition .argsPostMatch (some (.parameter, "page".toList))] :=
    exists_conditions (by decide +kernel)
  refine ⟨proposal, hcompile, ?_⟩
  apply (compile_keeps_selectors_iff (by decide +kernel) hcompile).mpr
  decide +kernel

end ModSecurity
