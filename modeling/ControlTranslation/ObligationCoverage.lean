import ControlTranslation.CoverageGraph
import ControlTranslation.RouteNarrowing

/-!
# Whether mapped obligations are enforced

An obligation requires the components its coverage reference leads to, and its
mapping names source artifacts.  The rules translated from those artifacts have
conditions on the components that the alternatives of the artifacts list, less
those a route-bound rule carries in its path.  Nothing compares the two: an
obligation may be mapped to an artifact that lists none of its components, or that
has no rules at all.
-/

namespace SharedContracts

open PyText JsonValue Alternatives

/-- The conditions that an emitted rule lists. -/
def listedConditions : JsonValue → List JsonValue
  | .object members => arrayItems (field members "conditions")
  | _ => []

/-- The artifacts a mapping names. -/
def namedArtifacts (mapping : Members) : List Str :=
  identities (field mapping "artifact_refs") "id"

/-- An obligation with this mapping requires a component. -/
structure Requires (verified : VerifiedSharedContractV2) (mapping : Members) (id : Str) : Prop where
  mapped : .object mapping ∈ arrayItems (field (candidateOf verified) "obligation_mappings")
  required : ∃ obligation ids,
    .object obligation ∈ arrayItems (field verified.semantics "obligations") ∧
    field obligation "obligation_id" = field mapping "obligation_id" ∧
    coverageComponentIds (field obligation "coverage_ref") verified.semantics = .ok ids ∧ id ∈ ids

/-- An emitted rule under an artifact that the mapping names has a condition on the
component. -/
def Enforced (ruleSet : JsonValue) (mapping : Members) (id : Str) : Prop :=
  ∃ rule ∈ listedRules ruleSet,
    (∃ artifact ∈ namedArtifacts mapping, identityOf "sourceArtifactId" rule = some artifact) ∧
    ∃ condition ∈ listedConditions rule, identityOf "sourceComponentId" condition = some id

/-- A component is carried in the path. -/
def InPath (semantics : Members) (id : Str) : Prop :=
  ∃ component, Listed (field semantics "components") "component_id" id component ∧
    isPathComponent component = true

/-- A rule document lists a component in an alternative that becomes a rule with a condition
on it: a coverage alternative or, where the document is bound to routes and the component is
not carried in the path, a route-bound one. -/
def Asks (semantics document : Members) (id : Str) : Prop :=
  (EndpointIndependent document ∧ ∃ ids ∈ coverage document, .text id ∈ ids) ∨
    (RouteBound document ∧ ¬ InPath semantics id ∧ ∃ bound,
      .object bound ∈ arrayItems (field document "route_bound_alternatives") ∧
      .text id ∈ arrayItems (field bound "component_ids"))

/-- A rule document that the mapping names asks for the component. -/
def AskedByMapping (s : Services) (verified : VerifiedSharedContractV2) (mapping : Members)
    (id : Str) : Prop :=
  ∃ artifact ∈ namedArtifacts mapping, ∃ document, IsDocument s verified artifact document ∧
    hasField document "rules" = true ∧ Asks verified.semantics document id

/-- The component a condition is about; a condition on the route is about none. -/
def Condition.about : Condition → Option Str
  | .component condition => some condition.sourceComponentId
  | .route _ => none

/-- What the document of a condition says it is about. -/
theorem about_json (condition : Condition) :
    identityOf "sourceComponentId" condition.json = condition.about := by
  cases condition with
  | component condition =>
      obtain ⟨members, hjson, hwritten⟩ := writtenAs_json condition
      rw [Condition.json, hjson]
      exact congrArg asText hwritten.sourceComponentId
  | route condition =>
      obtain ⟨members, hjson, hwritten⟩ := routeWrittenAs_json condition
      rw [Condition.json, hjson]
      exact congrArg asText hwritten.sourceComponentId

section Documents

variable {s : Services} {sourceId profileId : Str} {document semantics : Members}
  {semantic : Table Members} {table : Table ComponentCondition}

/-- A condition is found under the component it is about. -/
theorem sourceComponentId_of_lookup
    (hcarried : CarriedDocument s sourceId document semantics semantic table) {name : Str}
    {condition : ComponentCondition} (h : lookup table name = some condition) :
    condition.sourceComponentId = name := by
  obtain ⟨_, -, members, -, hcarries⟩ := exists_left_of_forall₂ hcarried.carries (mem_of_lookup h)
  exact hcarries.component

/-- The conditions of an endpoint-independent document are on the components its coverage
alternatives list. -/
theorem component_of_independentRules
    (hcarried : CarriedDocument s sourceId document semantics semantic table)
    {translated : List (Str × Rule)}
    (h : independentRules s document sourceId table 0 []
      (arrayItems (field document "coverage_alternatives")) = .ok translated) (id : Str) :
    (∃ rule ∈ translated.map (·.2), ∃ condition ∈ rule.conditions, condition.about = some id) ↔
      ∃ ids ∈ coverage document, .text id ∈ ids := by
  have hentries := independentRules_eq_ok h
  constructor
  · rintro ⟨rule, hrule, condition, hcondition, hid⟩
    obtain ⟨entry, hentry, rfl⟩ := List.mem_map.mp hrule
    obtain ⟨alternative, halternative, -, inspected, hconditions, hlookups⟩ :=
      exists_left_of_forall₂ hentries hentry
    rw [hconditions] at hcondition
    obtain ⟨own, hown, rfl⟩ := List.mem_map.mp hcondition
    obtain ⟨item, hitem, name, rfl, hlookup⟩ := exists_left_of_forall₂ hlookups hown
    obtain rfl := Option.some.inj hid
    rw [sourceComponentId_of_lookup hcarried hlookup]
    exact ⟨arrayItems alternative, List.mem_map_of_mem halternative, hitem⟩
  · rintro ⟨ids, hids, hid⟩
    obtain ⟨alternative, halternative, rfl⟩ := List.mem_map.mp hids
    obtain ⟨entry, hentry, -, inspected, hconditions, hlookups⟩ :=
      exists_right_of_forall₂ hentries halternative
    obtain ⟨own, hown, name, hname, hlookup⟩ := exists_right_of_forall₂ hlookups hid
    obtain rfl := JsonValue.text.inj hname
    refine ⟨entry.2, List.mem_map_of_mem hentry, .component own, ?_, ?_⟩
    · rw [hconditions]
      exact List.mem_map_of_mem hown
    · rw [Condition.about, sourceComponentId_of_lookup hcarried hlookup]

/-- Where a component of an alternative is carried. -/
theorem inPath_iff (hcarried : CarriedDocument s sourceId document semantics semantic table)
    {id : Str} {component : Members} (hlookup : lookup semantic id = some component) :
    InPath semantics id ↔ isPathComponent component = true := by
  constructor
  · rintro ⟨other, hlisted, hpath⟩
    obtain rfl := Option.some.inj (hlookup.symm.trans (hcarried.components.lookup_iff.mpr hlisted))
    exact hpath
  · intro hpath
    exact ⟨component, hcarried.components.lookup_iff.mp hlookup, hpath⟩

/-- The conditions of a rule of an alternative are on the components of the alternative that
are not carried in the path. -/
theorem component_of_boundRule {inputs : Table Members}
    (hcarried : CarriedDocument s sourceId document semantics semantic table)
    {alternative : RouteAlternative}
    (hbound : ∀ id ∈ alternative.componentIds, ∃ component condition,
      lookup semantic id = some component ∧ lookup table id = some condition)
    {payload : Option Str} {rule : Rule}
    (hrule : BoundRuleOf sourceId profileId ⟨semantic, inputs, table⟩ alternative payload rule)
    (id : Str) :
    (∃ condition ∈ rule.conditions, condition.about = some id) ↔
      ¬ InPath semantics id ∧ id ∈ alternative.componentIds := by
  obtain ⟨path, method, -, -, hconditions⟩ := hrule.conditions
  rw [hconditions]
  constructor
  · rintro ⟨condition, hcondition, hid⟩
    rcases List.mem_append.mp hcondition with hroute | hcomponent
    · rcases List.mem_cons.mp hroute with rfl | hmethod
      · cases hid
      · obtain rfl := List.mem_singleton.mp hmethod
        cases hid
    · obtain ⟨own, hown, rfl⟩ := List.mem_map.mp hcomponent
      obtain ⟨name, hname, component, hcomponent, hplain, hlookup⟩ :=
        (mem_carriedConditions hbound).mp hown
      obtain rfl := Option.some.inj hid
      rw [sourceComponentId_of_lookup hcarried hlookup, inPath_iff hcarried hcomponent, hplain]
      exact ⟨Bool.false_ne_true, hname⟩
  · rintro ⟨hplain, hid⟩
    obtain ⟨component, condition, hcomponent, hlookup⟩ := hbound id hid
    rw [inPath_iff hcarried hcomponent, Bool.not_eq_true] at hplain
    have hcarriedBy : condition ∈ carriedConditions ⟨semantic, inputs, table⟩ alternative false :=
      (mem_carriedConditions hbound).mpr ⟨id, hid, component, hcomponent, hplain, hlookup⟩
    refine ⟨.component condition, List.mem_append_right _ (List.mem_map_of_mem hcarriedBy), ?_⟩
    rw [Condition.about, sourceComponentId_of_lookup hcarried hlookup]

/-- The conditions of a route-bound document are on the components that its route-bound
alternatives list and the path does not carry. -/
theorem component_of_entries {inputs : Table Members}
    {entries : List (RouteAlternative × List Rule)}
    (hcarried : CarriedDocument s sourceId document semantics semantic table)
    (hentries : BoundEntries s sourceId profileId document semantics ⟨semantic, inputs, table⟩
      entries) (id : Str) :
    (∃ rule ∈ entries.flatMap (·.2), ∃ condition ∈ rule.conditions, condition.about = some id) ↔
      ¬ InPath semantics id ∧
        ∃ bound, .object bound ∈ arrayItems (field document "route_bound_alternatives") ∧
          .text id ∈ arrayItems (field bound "component_ids") := by
  constructor
  · rintro ⟨rule, hrule, hcondition⟩
    obtain ⟨entry, hentry, hmem⟩ := List.mem_flatMap.mp hrule
    obtain ⟨bound, hbound, hof⟩ := exists_bound hcarried hentries hentry
    obtain ⟨payloads, -, hrules⟩ := hof.rules
    obtain ⟨variant, -, hruleOf⟩ := exists_left_of_forall₂ hrules hmem
    obtain ⟨hplain, hid⟩ := (component_of_boundRule hcarried hof.found hruleOf id).mp hcondition
    refine ⟨hplain, bound, hbound, ?_⟩
    rw [hof.ids]
    exact List.mem_map_of_mem hid
  · rintro ⟨hplain, bound, hbound, hid⟩
    obtain ⟨entry, hentry, hof⟩ := exists_entry hcarried hentries hbound
    rw [hof.ids] at hid
    obtain ⟨name, hname, heq⟩ := List.mem_map.mp hid
    obtain rfl := JsonValue.text.inj heq
    obtain ⟨payloads, -, hrules⟩ := hof.rules
    obtain ⟨variant, rest, hvariants⟩ := List.exists_cons_of_ne_nil (variantsOf_ne_nil payloads)
    obtain ⟨rule, hrule, hruleOf⟩ := exists_right_of_forall₂ hrules
      (show variant ∈ variantsOf payloads by rw [hvariants]; exact List.mem_cons_self)
    exact ⟨rule, List.mem_flatMap.mpr ⟨entry, hentry, hrule⟩,
      (component_of_boundRule hcarried hof.found hruleOf name).mpr ⟨hplain, hname⟩⟩

end Documents

/-- The rules from one artifact have conditions on the components its document asks for. -/
theorem component_of_rulesFrom {s : Services} {verified : VerifiedSharedContractV2}
    {rules : List Rule} (h : Emitted s verified (sourceIds verified) rules) {artifact : Str}
    (hartifact : artifact ∈ sourceIds verified) (id : Str) :
    (∃ rule ∈ rulesFrom artifact rules, ∃ condition ∈ rule.conditions,
        condition.about = some id) ↔
      ∃ document, IsDocument s verified artifact document ∧ hasField document "rules" = true ∧
        Asks verified.semantics document id := by
  obtain ⟨contribution, hsource, hfrom⟩ := h.source artifact hartifact
  obtain ⟨own, hcontributes⟩ := translateSource_eq_ok hsource
  have honly : (∃ document, IsDocument s verified artifact document ∧
      hasField document "rules" = true ∧ Asks verified.semantics document id) ↔
      hasField own "rules" = true ∧ Asks verified.semantics own id := by
    constructor
    · rintro ⟨document, hdocument, hasks⟩
      obtain rfl := hdocument.unique hcontributes.decodes
      exact hasks
    · intro hasks
      exact ⟨own, hcontributes.decodes, hasks⟩
  rw [honly, hfrom]
  rcases hcontributes.cases with ⟨hrules, -, translated, htranslated, hlist⟩ | ⟨hnone, hempty, -⟩
  · rw [hlist, hrules]
    obtain ⟨semantic, table, hcarried, -, ⟨hplacement, hindependent⟩ | ⟨hplacement, hbound⟩⟩ :=
      translateRuleDocument_eq_ok htranslated
    · rw [component_of_independentRules hcarried hindependent]
      constructor
      · intro hlisted
        exact ⟨rfl, Or.inl ⟨hplacement, hlisted⟩⟩
      · rintro ⟨-, ⟨-, hlisted⟩ | ⟨hbound, -⟩⟩
        · exact hlisted
        · exact absurd hbound (not_routeBound_of_independent hplacement)
    · obtain ⟨inputs, entries, hentries, hall⟩ := routeBoundRules_eq_ok hbound
      rw [hall, component_of_entries hcarried hentries]
      constructor
      · intro hlisted
        exact ⟨rfl, Or.inr ⟨hplacement, hlisted⟩⟩
      · rintro ⟨-, ⟨hindependent, -⟩ | ⟨-, hlisted⟩⟩
        · exact absurd hplacement (not_routeBound_of_independent hindependent)
        · exact hlisted
  · rw [hempty, hnone]
    simp

/-- The references of a mapping are to artifacts of the candidate. -/
theorem namedArtifacts_subset {s : Services} {verified : VerifiedSharedContractV2}
    {plan : WafTranslationPlan} {rules : List Rule} {targetId : Str}
    (h : Built s verified plan rules targetId) {mapping : Members}
    (hmapping : .object mapping ∈ arrayItems (field (candidateOf verified) "obligation_mappings")) :
    ∀ artifact ∈ namedArtifacts mapping, artifact ∈ sourceIds verified := by
  obtain ⟨sources, items, hsources, hitems, hmaps⟩ := h.mappings
  have hobjects : ∀ item ∈ items, ∃ members, item = .object members := by
    intro item hitem
    obtain ⟨_, -, hmapsTo⟩ := exists_right_of_forall₂ hmaps hitem
    obtain ⟨members, _, hobject, -⟩ := hmapsTo.source
    exact ⟨members, hobject⟩
  rw [← iterate_eq_arrayItems hitems hobjects] at hmapping
  obtain ⟨_, -, hmapsTo⟩ := exists_right_of_forall₂ hmaps hmapping
  obtain ⟨members, named, hobject, -, hnamed⟩ := hmapsTo.source
  obtain rfl := JsonValue.object.inj hobject
  obtain ⟨refs, hrefs, -, -, hknown, htyped⟩ := refIds_eq_ok hnamed
  intro artifact hartifact
  rw [namedArtifacts, identities, hrefs] at hartifact
  obtain ⟨ref, href, hid⟩ := List.mem_filterMap.mp hartifact
  obtain ⟨identity, hidentity, htypedRef⟩ := exists_right_of_forall₂ htyped href
  obtain ⟨refMembers, rfl, hrefId, -⟩ := htypedRef.id
  rw [identityOf, asObject, Option.bind_some, hrefId] at hid
  obtain rfl := Option.some.inj hid
  rw [← hsources]
  exact hknown _ hidentity

/-- A component is enforced for a mapping exactly where a document it names asks for it. -/
theorem enforced_iff {s : Services} {verified : VerifiedSharedContractV2}
    {plan : WafTranslationPlan} {rules : List Rule} {targetId : Str}
    (h : Built s verified plan rules targetId) {mapping : Members}
    (hmapping : .object mapping ∈ arrayItems (field (candidateOf verified) "obligation_mappings"))
    (id : Str) :
    Enforced (ruleSetJson rules) mapping id ↔ AskedByMapping s verified mapping id := by
  have hknown := namedArtifacts_subset h hmapping
  constructor
  · rintro ⟨_, hlisted, ⟨artifact, hartifact, hof⟩, _, hcondition, habout⟩
    obtain ⟨rule, hrule, rfl⟩ := List.mem_map.mp hlisted
    obtain ⟨condition, hmem, rfl⟩ := List.mem_map.mp hcondition
    obtain rfl : rule.sourceArtifactId = artifact := Option.some.inj hof
    rw [about_json] at habout
    refine ⟨rule.sourceArtifactId, hartifact, ?_⟩
    apply (component_of_rulesFrom h.emitted (hknown _ hartifact) id).mp
    exact ⟨rule, List.mem_filter.mpr ⟨hrule, by simp⟩, condition, hmem, habout⟩
  · rintro ⟨artifact, hartifact, hasked⟩
    obtain ⟨rule, hrule, condition, hcondition, habout⟩ :=
      (component_of_rulesFrom h.emitted (hknown _ hartifact) id).mpr hasked
    obtain ⟨hin, hfrom⟩ := List.mem_filter.mp hrule
    have hsame : rule.sourceArtifactId = artifact := by simpa using hfrom
    refine ⟨rule.json, List.mem_map_of_mem hin, ⟨artifact, hartifact, congrArg some hsame⟩,
      condition.json, List.mem_map_of_mem hcondition, ?_⟩
    rw [about_json]
    exact habout

/-- The rules of a plan, and when they enforce what every mapped obligation requires. -/
theorem enforced_iff_of_plan {s : Services} {verified : VerifiedSharedContractV2}
    {targetTechnology : Str} {plan : WafTranslationPlan}
    (hplan : buildWafTranslationPlan s verified targetTechnology = .ok plan) :
    ∃ rules, plannedRules s verified = .ok rules ∧
      canonicalText s (ruleSetJson rules) = .ok plan.primaryCandidateContent ∧
      ((∀ mapping id, Requires verified mapping id →
          Enforced (ruleSetJson rules) mapping id) ↔
        ∀ mapping id, Requires verified mapping id → AskedByMapping s verified mapping id) := by
  obtain ⟨rules, targetId, hbuilt⟩ := buildWafTranslationPlan_eq_ok hplan
  refine ⟨rules, hbuilt.planned, hbuilt.content, ?_⟩
  constructor
  · intro h mapping id hrequires
    exact (enforced_iff hbuilt hrequires.mapped id).mp (h mapping id hrequires)
  · intro h mapping id hrequires
    exact (enforced_iff hbuilt hrequires.mapped id).mpr (h mapping id hrequires)

/-- **Mapped obligations are enforced exactly where the named documents ask for them.**  A plan
is returned whichever artifacts the mappings name, and whether or not the path of a rule
stands for what it requires. -/
theorem obligations_enforced_iff {s : Services} {verified : VerifiedSharedContractV2}
    {targetTechnology : Str} {plan : WafTranslationPlan}
    (hplan : buildWafTranslationPlan s verified targetTechnology = .ok plan) :
    ∃ rules, plannedRules s verified = .ok rules ∧
      canonicalText s (ruleSetJson rules) = .ok plan.primaryCandidateContent ∧
      ((∀ mapping id, Requires verified mapping id →
          Enforced (ruleSetJson rules) mapping id) ↔
        ∀ mapping id, Requires verified mapping id → AskedByMapping s verified mapping id) :=
  enforced_iff_of_plan hplan

/-- A mapping of the one obligation to the carriers' artifact. -/
def queryMapping : Members := record
  [("obligation_id", word "obligation:1"),
    ("artifact_refs", .array [typedRef "artifact" "bundle:1" "artifact:carriers"]),
    ("directive_refs", .array [typedRef "directive" "bundle:1" "directive:1"])]

/-- The mapping of the sample requires its component. -/
theorem requires_query : Requires queryJoin queryMapping "component:query".toList := by
  refine ⟨List.mem_cons_self, _, _, List.mem_cons_self, rfl, rfl, List.mem_cons_self⟩

/-- The artifact of bindings has no rules. -/
theorem bindings_without_rules {document : Members}
    (h : IsDocument queryServices queryJoin "artifact:carriers".toList document) :
    hasField document "rules" = false := by
  obtain ⟨raw, hraw, hdocument⟩ := h
  have hstored : (((lookup queryJoin.artifactContents "artifact:carriers".toList).map fun raw =>
      (strictJsonBytes queryServices raw
        ("DG artifact ".toList ++ "artifact:carriers".toList)).map fun found =>
          hasField found "rules").all fun found => found.toOption = some false) = true := by
    decide +kernel
  rw [hraw, Option.map_some, Option.all_some, hdocument] at hstored
  exact Option.some.inj (of_decide_eq_true hstored)

/-- The plan of the sample enforces what it requires. -/
theorem obligations_enforced_iff_query :
    ∃ plan rules, buildWafTranslationPlan queryServices queryJoin "akamai-waf".toList = .ok plan ∧
      plannedRules queryServices queryJoin = .ok rules ∧
      ((∀ mapping id, Requires queryJoin mapping id →
          Enforced (ruleSetJson rules) mapping id) ↔
        ∀ mapping id, Requires queryJoin mapping id →
          AskedByMapping queryServices queryJoin mapping id) := by
  obtain ⟨plan, hplan⟩ := ok_of_isOk queryPlan_isOk
  obtain ⟨rules, hrules, -, hiff⟩ := obligations_enforced_iff hplan
  exact ⟨plan, rules, hplan, hrules, hiff⟩

/-- An obligation may be mapped to an artifact that has no rules. -/
theorem mapped_to_no_rules :
    ¬ ∀ (s : Services) (verified : VerifiedSharedContractV2) (targetTechnology : Str)
      (plan : WafTranslationPlan) (rules : List Rule),
      buildWafTranslationPlan s verified targetTechnology = .ok plan →
      plannedRules s verified = .ok rules →
      ∀ mapping id, Requires verified mapping id →
        Enforced (ruleSetJson rules) mapping id := by
  intro h
  obtain ⟨plan, hplan⟩ := ok_of_isOk queryPlan_isOk
  obtain ⟨rules, hrules, -, hiff⟩ := enforced_iff_of_plan hplan
  have hasked := hiff.mp (h _ _ _ plan rules hplan hrules) queryMapping _ requires_query
  obtain ⟨artifact, hartifact, document, hdocument, hfield, -⟩ := hasked
  obtain rfl : artifact = "artifact:carriers".toList := List.mem_singleton.mp hartifact
  rw [bindings_without_rules hdocument] at hfield
  cases hfield

end SharedContracts
