import ControlTranslation.PlanMeaning

/-!
# What the emitted rules ask

A plan is read from the document it emits.  A rule of the document asks all of its
conditions or any of them, as its operation says.  A condition asks that one of
its values be matched at the place that its type and its own selector name or,
where its match is not positive, that none be.  The documents of carried rules
ask the atoms of the rules.
-/

namespace SharedContracts

open PyText JsonValue Alternatives

/-- What one value of a condition asks of a request: that an atom match, or that a place hold
the very text. -/
inductive Ask
  | atom (atom : Atom)
  | exactly (carrier : Carrier) (selector value : Str)

/-- The place that a condition document inspects. -/
def placeOf (condition : Members) : Option (Carrier × Str) :=
  let type := field condition "type"
  let own (key : String) := (field condition key).asText
  if isText type "uriQueryMatch" then some (.query, (own "parameter").getD ['*'])
  else if isText type "requestHeaderMatch" then some (.header, ['*'])
  else if isText type "requestHeaderValueMatch" then (own "header").map fun name => (.header, name)
  else if isText type "cookieMatch" then some (.cookie, (own "cookieName").getD ['*'])
  else if isText type "pathMatch" then some (.path, [])
  else if isText type "requestMethodMatch" then some (.method, [])
  else if isText type "argsPostMatch" then some (.body, (own "parameter").getD [])
  else if isText type "argsPostJSONMatch" then some (.body, (own "parameter").getD ['*'])
  else none

/-- What a value asks under an operator at a place. -/
def askUnder (operator : JsonValue) (sensitive : Bool) (transformations : List Str)
    (place : Carrier × Str) (value : Str) : Option Ask :=
  if isText operator "regex" then
    some (.atom ⟨place.1, place.2, value, if sensitive then [] else [['i']], transformations⟩)
  else if isText operator "exact" && sensitive && transformations.isEmpty then
    some (.exactly place.1 place.2 value)
  else none

/-- What a value of a condition document asks; a wildcard is no pattern and no text. -/
def askOf (condition : Members) (value : JsonValue) : Option Ask := do
  let place ← placeOf condition
  let value ← value.asText
  let transformations ← (arrayItems (field condition "transformations")).mapM asText
  match field condition "valueWildcard", field condition "valueCase" with
  | .bool false, .bool sensitive =>
      askUnder (field condition "matchOperator") sensitive transformations place value
  | _, _ => none

/-- What a condition document asks. -/
def ConditionAsks (holds : Ask → Prop) (condition : JsonValue) : Prop :=
  ∃ members, condition = .object members ∧
    ((field members "positiveMatch" = .bool true ∧
        ∃ value ∈ arrayItems (field members "value"), ∃ ask,
          askOf members value = some ask ∧ holds ask) ∨
      (field members "positiveMatch" = .bool false ∧
        ∀ value ∈ arrayItems (field members "value"), ∃ ask,
          askOf members value = some ask ∧ ¬ holds ask))

/-- What a rule document asks. -/
def RuleAsks (holds : Ask → Prop) (rule : JsonValue) : Prop :=
  ∃ members, rule = .object members ∧
    ((field members "operation" = .text "AND".toList ∧
        ∀ condition ∈ arrayItems (field members "conditions"), ConditionAsks holds condition) ∨
      (field members "operation" = .text "OR".toList ∧
        ∃ condition ∈ arrayItems (field members "conditions"), ConditionAsks holds condition))

/-- The rules that a rule set lists. -/
def listedRules : JsonValue → List JsonValue
  | .object members => arrayItems (field members "rules")
  | _ => []

/-- The rules of a rule set that name a source artifact. -/
def listedFrom (sourceId : Str) (ruleSet : JsonValue) : List JsonValue :=
  (listedRules ruleSet).filter fun rule => identityOf "sourceArtifactId" rule = some sourceId

/-- Atoms hold as `truth` says, and a place holds no text of its own. -/
def ofAtoms (truth : Atom → Prop) : Ask → Prop
  | .atom atom => truth atom
  | .exactly _ _ _ => False

/-- A condition document asks for one thing. -/
structure AsksFor (condition : JsonValue) (ask : Ask) : Prop where
  asks : ∃ members value, condition = .object members ∧
    field members "positiveMatch" = .bool true ∧ field members "value" = .array [value] ∧
    askOf members value = some ask

/-- A condition that asks for one thing holds when that thing does. -/
theorem AsksFor.iff {condition : JsonValue} {ask : Ask} (h : AsksFor condition ask)
    (holds : Ask → Prop) : ConditionAsks holds condition ↔ holds ask := by
  obtain ⟨members, value, rfl, hpositive, hvalue, hask⟩ := h.asks
  constructor
  · rintro ⟨own, heq, ⟨-, found, hfound, other, hread, hholds⟩ | ⟨hnegative, -⟩⟩
    · obtain rfl := JsonValue.object.inj heq
      rw [hvalue] at hfound
      obtain rfl := List.mem_singleton.mp hfound
      rw [hask] at hread
      rw [Option.some.inj hread]
      exact hholds
    · obtain rfl := JsonValue.object.inj heq
      rw [hpositive] at hnegative
      cases hnegative
  · intro hholds
    refine ⟨members, rfl, Or.inl ⟨hpositive, value, ?_, _, hask, hholds⟩⟩
    rw [hvalue]
    exact List.mem_singleton_self _

theorem isText_toList (a b : String) : isText (.text a.toList) b = decide (a = b) := by
  rw [Bool.eq_iff_iff, isText_iff, JsonValue.text.injEq, String.toList_inj, decide_eq_true_iff]

/-- The members that a condition on a component is written with. -/
structure WrittenAs (members : Members) (condition : ComponentCondition) : Prop where
  type : field members "type" = .text condition.type.toList
  positiveMatch : field members "positiveMatch" = .bool true
  valueCase : field members "valueCase" = .bool condition.valueCase
  valueWildcard : field members "valueWildcard" = .bool false
  value : field members "value" = .array [.text condition.value]
  matchOperator : field members "matchOperator" = .text "regex".toList
  sourceComponentId : field members "sourceComponentId" = .text condition.sourceComponentId
  transformations : field members "transformations" =
    .array (condition.transformations.map .text)
  header : (field members "header").asText = condition.header
  parameter : (field members "parameter").asText = condition.parameter
  cookieName : (field members "cookieName").asText = condition.cookieName

/-- A component condition is written as its members say. -/
theorem writtenAs_json (condition : ComponentCondition) :
    ∃ members, condition.json = .object members ∧ WrittenAs members condition := by
  obtain ⟨type, valueCase, value, ruleId, componentId, carrier, selector, kind, transformations,
    selectorType, header, parameter, cookieName⟩ := condition
  refine ⟨_, rfl, rfl, rfl, rfl, rfl, rfl, rfl, rfl, rfl, ?_, ?_, ?_⟩ <;>
    cases selectorType.isNull <;> cases header <;> cases parameter <;> cases cookieName <;> rfl

theorem placeOf_of_writtenAs {members : Members} {condition : ComponentCondition}
    (h : WrittenAs members condition) : placeOf members = targetSelector condition := by
  symm
  unfold placeOf targetSelector
  simp only [h.type, h.header, h.parameter, h.cookieName, isText_toList, decide_eq_true_eq]
  split
  case h_9 => simp_all
  all_goals
    rename_i htype
    simp [htype]

theorem mapM_text (texts : List Str) : (texts.map JsonValue.text).mapM asText = some texts := by
  induction texts with
  | nil => rfl
  | cons first rest ih =>
      rw [List.map_cons, List.mapM_cons, ih]
      rfl

/-- The document of a condition asks for the atom that the condition has. -/
theorem asksFor_component {condition : ComponentCondition} {atom : Atom}
    (h : targetAtom condition = some atom) : AsksFor condition.json (.atom atom) := by
  obtain ⟨members, hjson, hwritten⟩ := writtenAs_json condition
  obtain ⟨⟨carrier, selector⟩, hplace, rfl⟩ := Option.map_eq_some_iff.mp h
  refine ⟨members, _, hjson, hwritten.positiveMatch, hwritten.value, ?_⟩
  rw [askOf, placeOf_of_writtenAs hwritten, hplace, hwritten.transformations,
    hwritten.valueWildcard, hwritten.valueCase, hwritten.matchOperator]
  simp only [Option.bind_eq_bind, Option.bind_some, arrayItems, asArray, Option.getD_some,
    mapM_text]
  rfl

/-- What a condition on the route is written with. -/
structure RouteWrittenAs (members : Members) (condition : RouteCondition) : Prop where
  type : field members "type" = .text condition.type.toList
  positiveMatch : field members "positiveMatch" = .bool true
  valueCase : field members "valueCase" = .bool true
  valueWildcard : field members "valueWildcard" = .bool false
  value : field members "value" = .array [.text condition.value]
  matchOperator : field members "matchOperator" = .text "exact".toList
  transformations : field members "transformations" = .null
  sourceComponentId : field members "sourceComponentId" = .null

/-- A route condition is written as its members say. -/
theorem routeWrittenAs_json (condition : RouteCondition) :
    ∃ members, condition.json = .object members ∧ RouteWrittenAs members condition := by
  obtain ⟨type, value, route, components⟩ := condition
  refine ⟨_, rfl, rfl, rfl, rfl, rfl, rfl, rfl, ?_, ?_⟩ <;> cases components <;> rfl

/-- The document of a condition on the route asks for its very value at its place. -/
theorem asksFor_route {condition : RouteCondition} {carrier : Carrier}
    (hplace : (condition.type = "pathMatch" ∧ carrier = .path) ∨
      (condition.type = "requestMethodMatch" ∧ carrier = .method)) :
    AsksFor condition.json (.exactly carrier [] condition.value) := by
  obtain ⟨members, hjson, hwritten⟩ := routeWrittenAs_json condition
  have hat : placeOf members = some (carrier, []) := by
    rcases hplace with ⟨htype, rfl⟩ | ⟨htype, rfl⟩ <;>
    · rw [placeOf, hwritten.type, htype]
      rfl
  refine ⟨members, _, hjson, hwritten.positiveMatch, hwritten.value, ?_⟩
  rw [askOf, hat, hwritten.transformations, hwritten.valueWildcard, hwritten.valueCase,
    hwritten.matchOperator]
  rfl

/-- A rule document asks all of its conditions. -/
theorem ruleAsks_json (rule : Rule) (holds : Ask → Prop) :
    RuleAsks holds rule.json ↔
      ∀ condition ∈ rule.conditions, ConditionAsks holds condition.json := by
  have hconditions : ∀ {members : Members}, rule.json = .object members →
      field members "operation" = .text "AND".toList ∧
        arrayItems (field members "conditions") = rule.conditions.map Condition.json := by
    intro members hmembers
    obtain rfl := JsonValue.object.inj hmembers
    exact ⟨rfl, rfl⟩
  constructor
  · rintro ⟨members, hmembers, ⟨-, hall⟩ | ⟨hany, -⟩⟩
    · rw [(hconditions hmembers).2, List.forall_mem_map] at hall
      exact hall
    · rw [(hconditions hmembers).1] at hany
      cases hany
  · intro hall
    refine ⟨_, rfl, Or.inl ⟨rfl, ?_⟩⟩
    rw [(hconditions rfl).2, List.forall_mem_map]
    exact hall

/-- The emitted document lists the rules it was made from. -/
theorem listedRules_ruleSetJson (rules : List Rule) :
    listedRules (ruleSetJson rules) = rules.map Rule.json := rfl

/-- The rules listed under a source are the documents of those translated from it. -/
theorem listedFrom_ruleSetJson (sourceId : Str) (rules : List Rule) :
    listedFrom sourceId (ruleSetJson rules) = (rulesFrom sourceId rules).map Rule.json := by
  rw [listedFrom, listedRules_ruleSetJson, rulesFrom, List.filter_map]
  congr 2
  funext rule
  exact decide_eq_decide.mpr Option.some_inj

/-- A rule document asks, all together, for the atoms of an alternative, one condition for each
component. -/
structure SameAtoms (document : Members) (alternative : List JsonValue) (rule : JsonValue) :
    Prop where
  asks : ∃ members, rule = .object members ∧ field members "operation" = .text "AND".toList ∧
    List.Forall₂ (fun id condition => ∃ atom, AsksFor condition (.atom atom) ∧
        ∀ other, HasAtom document id other ↔ other = atom)
      alternative (arrayItems (field members "conditions"))

/-- What asks for the atoms of an alternative holds with the alternative. -/
theorem SameAtoms.iff {document : Members} {alternative : List JsonValue} {rule : JsonValue}
    (h : SameAtoms document alternative rule) (truth : Atom → Prop) :
    (∀ id ∈ alternative, ComponentHolds truth document id) ↔ RuleAsks (ofAtoms truth) rule := by
  obtain ⟨members, rfl, hand, hatoms⟩ := h.asks
  have hsame : (∀ id ∈ alternative, ComponentHolds truth document id) ↔
      ∀ condition ∈ arrayItems (field members "conditions"),
        ConditionAsks (ofAtoms truth) condition := by
    apply all_iff_of_forall₂
    refine hatoms.imp fun id condition hatom => ?_
    obtain ⟨atom, hasks, hunique⟩ := hatom
    rw [hasks.iff]
    constructor
    · rintro ⟨other, hother, htruth⟩
      rw [(hunique other).mp hother] at htruth
      exact htruth
    · intro htruth
      exact ⟨atom, (hunique atom).mpr rfl, htruth⟩
  rw [hsame]
  constructor
  · intro hall
    exact ⟨members, rfl, Or.inl ⟨hand, hall⟩⟩
  · rintro ⟨own, heq, ⟨-, hall⟩ | ⟨hor, -⟩⟩
    · obtain rfl := JsonValue.object.inj heq
      exact hall
    · obtain rfl := JsonValue.object.inj heq
      rw [hand] at hor
      exact absurd (JsonValue.text.inj hor) (by decide)

/-- The rule documents of an endpoint-independent document are its coverage alternatives. -/
theorem sameAtoms_of_independentRules {s : Services} {document semantics : Members}
    {semantic : Table Members} {table : Table ComponentCondition} {sourceId : Str}
    (hcarried : CarriedDocument s sourceId document semantics semantic table)
    {translated : List (Str × Rule)}
    (h : independentRules s document sourceId table 0 []
      (arrayItems (field document "coverage_alternatives")) = .ok translated) :
    List.Forall₂ (SameAtoms document) (coverage document)
      ((translated.map (·.2)).map Rule.json) := by
  rw [coverage, List.map_map, List.forall₂_map_left_iff, List.forall₂_map_right_iff]
  refine (independentRules_eq_ok h).imp fun alternative entry hentry => ?_
  obtain ⟨-, inspected, hconditions, hlookups⟩ := hentry
  refine ⟨_, rfl, rfl, ?_⟩
  have hwritten : entry.2.conditions.map Condition.json =
      inspected.map ComponentCondition.json := by
    rw [hconditions, List.map_map]
    rfl
  rw [show arrayItems (field _ "conditions") = entry.2.conditions.map Condition.json from rfl,
    hwritten, List.forall₂_map_right_iff]
  refine hlookups.imp fun id condition hid => ?_
  obtain ⟨name, rfl, hlookup⟩ := hid
  obtain ⟨atom, htarget, hunique⟩ := hasAtom_iff hcarried.nodup hcarried.carries hlookup
  exact ⟨atom, asksFor_component htarget, hunique⟩

end SharedContracts
