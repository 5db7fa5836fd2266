import ControlTranslation.EmittedRules
import ControlTranslation.GoJson

/-!
# What a plan preserves

A plan is built from every source artifact or not at all.  The rules that an
endpoint-independent document contributes are its coverage alternatives; every
rule of every document is carried over; every carrier binding is one that a rule
carries; every obligation and every directive is mapped to the artifact that
lists the rules.
-/

namespace SharedContracts

open PyText JsonValue Alternatives

/-- The candidate of the bundle. -/
def candidateOf (verified : VerifiedSharedContractV2) : Members :=
  (field verified.bundle "primary_candidate").asObject.getD []

/-- The artifacts of the candidate. -/
def sourceIds (verified : VerifiedSharedContractV2) : List Str :=
  identities (field (candidateOf verified) "artifacts") "artifact_id"

/-- The directives of the candidate. -/
def directiveIds (verified : VerifiedSharedContractV2) : List Str :=
  identities (field (candidateOf verified) "directives") "directive_id"

/-- The obligations of the semantics. -/
def obligationIds (verified : VerifiedSharedContractV2) : List Str :=
  identities (field verified.semantics "obligations") "obligation_id"

/-- The document of a source artifact. -/
def IsDocument (s : Services) (verified : VerifiedSharedContractV2) (sourceId : Str)
    (document : Members) : Prop :=
  ∃ raw, lookup verified.artifactContents sourceId = some raw ∧
    strictJsonBytes s raw ("DG artifact ".toList ++ sourceId) = .ok document

/-- Every variant of a bound alternative names its source. -/
theorem sourceArtifactId_of_boundVariants {s : Services} {document : Members}
    {sourceId profileId : Str} {known : Components} {alternative : RouteAlternative}
    {several : Bool} {payloads : List (Option Str)} :
    ∀ {position variant : Nat} {translated : List (Str × Rule)},
      boundVariants s document sourceId profileId known alternative several position variant
        payloads = .ok translated →
      ∀ entry ∈ translated, entry.2.sourceArtifactId = sourceId := by
  induction payloads with
  | nil =>
      intro position variant translated h entry hentry
      obtain rfl := Except.ok.inj h
      cases hentry
  | cons payload rest ih =>
      intro position variant translated h entry hentry
      simp only [boundVariants, boundRule, bind_eq_ok] at h
      obtain ⟨rule, ⟨conditions, -, hrule⟩, others, hothers, h⟩ := h
      obtain rfl := pure_eq_ok.mp h
      rcases List.mem_cons.mp hentry with rfl | hentry
      · rw [← pure_eq_ok.mp hrule]
        rfl
      · exact ih hothers entry hentry

/-- Every rule of a bound document names its source. -/
theorem sourceArtifactId_of_boundRules {s : Services} {document : Members}
    {sourceId profileId : Str} {known : Components} {coverageKeys : List Str}
    {alternatives : List JsonValue} :
    ∀ {before after : BoundRules},
      boundRules s document sourceId profileId known coverageKeys before alternatives = .ok after →
      (∀ entry ∈ before.translated, entry.2.sourceArtifactId = sourceId) →
      ∀ entry ∈ after.translated, entry.2.sourceArtifactId = sourceId := by
  induction alternatives with
  | nil =>
      intro before after h hbefore
      obtain rfl := Except.ok.inj h
      exact hbefore
  | cons bound rest ih =>
      intro before after h hbefore
      simp only [boundRules, bind_eq_ok] at h
      obtain ⟨⟨alternative, key⟩, -, payloads, -, rules, hrules, h⟩ := h
      refine ih h fun entry hentry => ?_
      rcases List.mem_append.mp hentry with hentry | hentry
      · exact hbefore entry hentry
      · exact sourceArtifactId_of_boundVariants hrules entry hentry

/-- What one source artifact contributes. -/
structure Contributes (s : Services) (verified : VerifiedSharedContractV2) (sourceId : Str)
    (contribution : Contribution) (document : Members) : Prop where
  decodes : IsDocument s verified sourceId document
  tagged : ∀ rule ∈ contribution.rules, rule.sourceArtifactId = sourceId
  cases : (hasField document "rules" = true ∧ contribution.bindingCarriers = [] ∧
      ∃ translated, translateRuleDocument s document sourceId verified.semantics
        verified.profileId = .ok (translated, contribution.ruleCarriers) ∧
        contribution.rules = translated.map (·.2)) ∨
    (hasField document "rules" = false ∧ contribution.rules = [] ∧
      contribution.ruleCarriers = [] ∧
      ∃ configuration, translateCarrierDocument s document sourceId (some verified.semantics) =
        .ok (configuration, contribution.bindingCarriers))

/-- What a source contributes is read off its document. -/
theorem translateSource_eq_ok {s : Services} {verified : VerifiedSharedContractV2} {sourceId : Str}
    {contribution : Contribution} (h : translateSource s verified sourceId = .ok contribution) :
    ∃ document, Contributes s verified sourceId contribution document := by
  unfold translateSource at h
  split at h
  · cases h
  · rename_i raw hraw
    obtain ⟨document, hdocument, h⟩ := bind_eq_ok.mp h
    have hdecodes : IsDocument s verified sourceId document := ⟨raw, hraw, hdocument⟩
    split at h
    · rename_i hrules
      obtain ⟨⟨translated, carriers⟩, htranslated, h⟩ := bind_eq_ok.mp h
      obtain rfl := pure_eq_ok.mp h
      refine ⟨document, hdecodes, ?_, Or.inl ⟨hrules, rfl, translated, htranslated, rfl⟩⟩
      obtain ⟨semantic, table, -, -, ⟨-, hindependent⟩ | ⟨-, hbound⟩⟩ :=
        translateRuleDocument_eq_ok htranslated
      · exact sourceArtifactId_of_independentRules hindependent
      · simp only [routeBoundRules, bind_eq_ok] at hbound
        obtain ⟨_, -, inputs, -, coverageKeys, -, gathered, hgathered, _, -, hbound⟩ := hbound
        obtain rfl := pure_eq_ok.mp hbound
        intro rule hrule
        obtain ⟨entry, hentry, rfl⟩ := List.mem_map.mp hrule
        exact sourceArtifactId_of_boundRules hgathered
          (fun _ hnil => absurd hnil List.not_mem_nil) entry hentry
    · rename_i hrules
      split at h
      · obtain ⟨⟨configuration, carriers⟩, hcarriers, h⟩ := bind_eq_ok.mp h
        obtain rfl := pure_eq_ok.mp h
        exact ⟨document, hdecodes, fun _ hnil => absurd hnil List.not_mem_nil,
          Or.inr ⟨Bool.eq_false_iff.mpr hrules, rfl, rfl, configuration, hcarriers⟩⟩
      · cases h

/-- Lists tagged with distinct names are what a filter by the name finds. -/
theorem filter_flatMap_of_forall₂ {α β : Type} {parts : α → List β} {tag : β → Str}
    {r : Str → α → Prop} (htag : ∀ name piece, r name piece → ∀ b ∈ parts piece, tag b = name)
    {names : List Str} {pieces : List α} (h : List.Forall₂ r names pieces)
    (hnodup : names.Nodup) :
    List.Forall₂ (fun name piece => r name piece ∧
      (pieces.flatMap parts).filter (fun b => tag b = name) = parts piece) names pieces := by
  induction h with
  | nil => exact .nil
  | @cons name piece names pieces hfirst hrest ih =>
      obtain ⟨hnew, hnodup⟩ := List.nodup_cons.mp hnodup
      have hown : (parts piece).filter (fun b => tag b = name) = parts piece := by
        rw [List.filter_eq_self]
        intro b hb
        simpa using htag name piece hfirst b hb
      have hothers : (pieces.flatMap parts).filter (fun b => tag b = name) = [] := by
        rw [List.filter_eq_nil_iff]
        intro b hb hname
        obtain ⟨other, hother, hbo⟩ := List.mem_flatMap.mp hb
        obtain ⟨n, hn, hr⟩ := exists_left_of_forall₂ hrest hother
        have heq : n = name := (htag n other hr b hbo).symm.trans (by simpa using hname)
        exact hnew (heq ▸ hn)
      have hnone : ∀ n ∈ names, (parts piece).filter (fun b => tag b = n) = [] := by
        intro n hn
        rw [List.filter_eq_nil_iff]
        intro b hb hname
        have heq : n = name :=
          (by simpa using hname : tag b = n).symm.trans (htag name piece hfirst b hb)
        exact hnew (heq ▸ hn)
      refine .cons ⟨hfirst, ?_⟩ ?_
      · rw [List.flatMap_cons, List.filter_append, hown, hothers, List.append_nil]
      · refine ((List.forall₂_and_left names pieces).mpr ⟨hnone, ih hnodup⟩).imp ?_
        rintro n other ⟨hn, hr, hfound⟩
        exact ⟨hr, by rw [List.flatMap_cons, List.filter_append, hn, hfound, List.nil_append]⟩

/-- The order of the sources is one of all of them. -/
theorem orderedSources_perm {s : Services} {sources : Table Members} {ordered : List Str}
    (h : orderedSources s sources = .ok ordered) : ordered.Perm (keys sources) := by
  simp only [orderedSources, bind_eq_ok, mapM_eq_ok] at h
  obtain ⟨places, hplaces, h⟩ := h
  obtain rfl := pure_eq_ok.mp h
  have hnames : places.map (·.2) = keys sources := by
    clear h
    induction hplaces with
    | nil => rfl
    | cons hplace _ ih =>
        obtain ⟨place, -, hplace⟩ := hplace
        obtain rfl := pure_eq_ok.mp hplace
        rw [List.map_cons, ih]
        rfl
  rw [← hnames]
  exact (List.perm_insertionSort _ places).map _

/-- What the rules of a plan are: those of every source, each under the identity of its
source, with carrier bindings that are those of the rules. -/
structure Emitted (s : Services) (verified : VerifiedSharedContractV2) (ids : List Str)
    (rules : List Rule) : Prop where
  source : ∀ id ∈ ids, ∃ contribution, translateSource s verified id = .ok contribution ∧
    rulesFrom id rules = contribution.rules
  origin : ∀ rule ∈ rules, rule.sourceArtifactId ∈ ids
  carriers : ∀ id ∈ ids, ∀ contribution, translateSource s verified id = .ok contribution →
    ∀ key ∈ contribution.bindingCarriers, ∃ other ∈ ids, ∃ found,
      translateSource s verified other = .ok found ∧ key ∈ found.ruleCarriers

/-- What is emitted is emitted source by source. -/
theorem emittedRules_eq_ok {s : Services} {verified : VerifiedSharedContractV2}
    {sources : Table Members} {rules : List Rule} (hnodup : (keys sources).Nodup)
    (h : emittedRules s verified sources = .ok rules) :
    Emitted s verified (keys sources) rules := by
  simp only [emittedRules, bind_eq_ok, raiseIf_eq_ok, mapM_eq_ok] at h
  obtain ⟨ordered, hordered, contributions, hcontributions, _, hchecks, _, -, h⟩ := h
  obtain rfl := pure_eq_ok.mp h
  have hperm := orderedSources_perm hordered
  have htagged : ∀ id contribution, translateSource s verified id = .ok contribution →
      ∀ rule ∈ contribution.rules, rule.sourceArtifactId = id := by
    intro id contribution hsource
    obtain ⟨document, hcontributes⟩ := translateSource_eq_ok hsource
    exact hcontributes.tagged
  have hfiltered :=
    filter_flatMap_of_forall₂ htagged hcontributions (hperm.nodup_iff.mpr hnodup)
  simp only [List.forall_mem_cons, Option.some.injEq, Bool.not_eq_false', Bool.and_eq_true,
    List.all_eq_true, List.contains_iff_mem] at hchecks
  obtain ⟨-, ⟨hbindings, -⟩, -⟩ := hchecks
  constructor
  · intro id hid
    obtain ⟨contribution, -, hsource, hrules⟩ :=
      exists_right_of_forall₂ hfiltered (hperm.mem_iff.mpr hid)
    exact ⟨contribution, hsource, hrules⟩
  · intro rule hrule
    obtain ⟨contribution, hmem, hrule⟩ := List.mem_flatMap.mp hrule
    obtain ⟨id, hid, hsource⟩ := exists_left_of_forall₂ hcontributions hmem
    rw [htagged id contribution hsource rule hrule]
    exact hperm.mem_iff.mp hid
  · intro id hid contribution hsource key hkey
    obtain ⟨own, hown, hsame⟩ := exists_right_of_forall₂ hcontributions (hperm.mem_iff.mpr hid)
    obtain rfl := Except.ok.inj (hsource.symm.trans hsame)
    have hlisted := hbindings key (List.mem_flatMap.mpr ⟨_, hown, hkey⟩)
    obtain ⟨found, hfound, hkey⟩ := List.mem_flatMap.mp hlisted
    obtain ⟨other, hother, htranslated⟩ := exists_left_of_forall₂ hcontributions hfound
    exact ⟨other, hperm.mem_iff.mp hother, found, htranslated, hkey⟩

theorem requiredText_eq_ok {members : Members} {key : String} {found : Str}
    (h : requiredText members key = .ok found) : field members key = .text found := by
  obtain ⟨value, hvalue, h⟩ := bind_eq_ok.mp h
  rw [(need_eq_ok.mp hvalue).2]
  split at h
  · rename_i found' hfound
    obtain rfl := Except.ok.inj h
    exact (asNonemptyText_eq_some hfound).1
  · cases h

/-- A mapping of one obligation to the target. -/
structure MapsTo (s : Services) (scope : JsonValue) (sources : Table Members) (targetId : Str)
    (item : JsonValue) (mapping : TranslationMapping) : Prop where
  target : mapping.targetArtifactIds = [targetId]
  source : ∃ members named, item = .object members ∧
    field members "obligation_id" = .text mapping.obligationId ∧
    refIds s (field members "artifact_refs") "artifact" scope (keys sources)
      "obligation-artifacts-invalid" false = .ok named

/-- A translated mapping maps the same obligation to the target. -/
theorem translateMapping_eq_ok {s : Services} {scope : JsonValue}
    {sources directives : Table Members}
    {targetId : Str} {item : JsonValue} {mapping : TranslationMapping}
    (h : translateMapping s scope sources directives targetId item = .ok mapping) :
    MapsTo s scope sources targetId item mapping := by
  simp only [translateMapping, bind_eq_ok] at h
  obtain ⟨members, hmembers, refs, hrefs, named, hnamed, _, -, _, -, _, -, id, hid, h⟩ := h
  obtain rfl := pure_eq_ok.mp h
  rw [← (need_eq_ok.mp hrefs).2] at hnamed
  refine ⟨?_, members, named, dictionary_eq_ok.mp hmembers, requiredText_eq_ok hid, hnamed⟩
  obtain ⟨items, -, hne, -⟩ := refIds_eq_ok hnamed
  obtain ⟨first, rest, rfl⟩ := List.exists_cons_of_ne_nil (hne rfl)
  apply unique_eq_singleton
  · exact List.mem_map_of_mem List.mem_cons_self
  · intro b hb
    obtain ⟨_, -, rfl⟩ := List.mem_map.mp hb
    rfl

/-- A directive bound to the target as its source has it. -/
structure DirectsTo (targetId : Str) (item : Members) (directive : TargetTranslationDirective) :
    Prop where
  target : directive.targetArtifactId = targetId
  source : field item "directive_id" = .text directive.sourceDirectiveId
  kind : field item "kind" = .text directive.kind
  value : field item "value" = .text directive.value
  required : field item "required" = .bool directive.required

/-- A translated directive directs to the target. -/
theorem translateDirective_eq_ok {sources : Table Members} {targetId : Str} {item : Members}
    {directive : TargetTranslationDirective}
    (h : translateDirective sources targetId item = .ok directive) :
    DirectsTo targetId item directive := by
  simp only [translateDirective, bind_eq_ok] at h
  obtain ⟨_, -, id, hid, _, -, required, hrequired, h⟩ := h
  split at h
  · obtain ⟨kind, hkind, value, hvalue, h⟩ := by simpa only [bind_eq_ok] using h
    obtain rfl := pure_eq_ok.mp h
    exact ⟨rfl, requiredText_eq_ok hid, requiredText_eq_ok hkind, requiredText_eq_ok hvalue,
      (need_eq_ok.mp hrequired).2⟩
  · cases h

/-- The rules of the plan of a join, which every plan lists in its content. -/
def plannedRules (s : Services) (verified : VerifiedSharedContractV2) : Checked (List Rule) := do
  let candidate ← needDictionary verified.bundle "primary_candidate"
  let sources ← index (← need candidate "artifacts") "artifact_id" "candidate-artifacts-invalid"
  emittedRules s verified sources

/-- What a plan is built from. -/
structure Built (s : Services) (verified : VerifiedSharedContractV2) (plan : WafTranslationPlan)
    (rules : List Rule) (targetId : Str) : Prop where
  planned : plannedRules s verified = .ok rules
  emitted : Emitted s verified (sourceIds verified) rules
  content : canonicalText s (ruleSetJson rules) = .ok plan.primaryCandidateContent
  target : sharedWafPrimaryArtifactId (digestText s plan.primaryCandidateContent) = .ok targetId
  directives : ∃ table, Indexed (field (candidateOf verified) "directives") "directive_id" table ∧
    List.Forall₂ (DirectsTo targetId) (table.map (·.2)) plan.translatedDirectives
  mappings : ∃ sources items, keys sources = sourceIds verified ∧
    iterate (field (candidateOf verified) "obligation_mappings") = .ok items ∧
    List.Forall₂ (MapsTo s (field verified.bundle "bundle_id") sources targetId) items
      plan.translationMappings
  obligations : ∀ id, id ∈ obligationIds verified ↔
    id ∈ plan.translationMappings.map (·.obligationId)

/-- What a set of identities lists. -/
theorem valuesUnder_eq_ok {key : String} {items : JsonValue} {values : List JsonValue}
    (h : valuesUnder key items = .ok values) (id : Str) :
    id ∈ identities items key ↔ .text id ∈ values := by
  simp only [valuesUnder, bind_eq_ok, mapM_eq_ok] at h
  obtain ⟨listed, hlisted, hvalues⟩ := h
  have hobjects : ∀ item ∈ listed, ∃ members, item = .object members := by
    intro item hitem
    obtain ⟨_, -, members, hmembers, -⟩ := exists_right_of_forall₂ hvalues hitem
    exact ⟨members, dictionary_eq_ok.mp hmembers⟩
  rw [identities, ← iterate_eq_arrayItems hlisted hobjects]
  clear hlisted hobjects
  induction hvalues with
  | nil => simp
  | @cons item value listed values hitem _ ih =>
      obtain ⟨members, hmembers, v, hv, hhashed⟩ := hitem
      obtain rfl := eq_of_hashed hhashed
      have hid : identityOf key item = value.asText := by
        rw [identityOf, dictionary_eq_ok.mp hmembers, ← (need_eq_ok.mp hv).2]
        rfl
      rw [List.mem_cons, List.filterMap_cons, hid]
      cases value with
      | text t => simp [asText, ih]
      | _ => simp [asText, ih]

theorem buildWafTranslationPlan_eq_ok {s : Services} {verified : VerifiedSharedContractV2}
    {targetTechnology : Str} {plan : WafTranslationPlan}
    (h : buildWafTranslationPlan s verified targetTechnology = .ok plan) :
    ∃ rules targetId, Built s verified plan rules targetId := by
  simp only [buildWafTranslationPlan, bind_eq_ok, mapM_eq_ok] at h
  obtain ⟨_, -, candidate, hcandidate, artifacts, hartifacts, sources, hsources, rules, hrules,
    content, hcontent, targetId, htargetId, limitations, -, directiveItems, hdirectiveItems,
    directives, hdirectives, translated, htranslated, scope, hscope, mappingItems, hmappingItems,
    items, hitems, mappings, hmappings, obligationItems, hobligationItems, required, hrequired,
    _, hcovered, components, -, descriptions, -, bundleId, -, candidateId, -, summary, -, h⟩ := h
  obtain rfl := pure_eq_ok.mp h
  have hof : candidateOf verified = candidate := by
    rw [candidateOf, needDictionary_eq_ok hcandidate]
    rfl
  have hindexed := index_eq_ok hsources
  rw [← (need_eq_ok.mp hartifacts).2, ← hof] at hindexed
  have hkeys : keys sources = sourceIds verified := (identities_of_indexed hindexed).symm
  rw [raiseIf_eq_ok] at hcovered
  simp only [List.forall_mem_cons, Option.some.injEq, Bool.not_eq_false', Bool.and_eq_true,
    List.all_eq_true, List.any_eq_true, beq_iff_eq] at hcovered
  obtain ⟨⟨hmapped, hrequiredMapped⟩, -⟩ := hcovered
  refine ⟨rules, targetId, ?_, ?_, hcontent, htargetId, ?_, ?_, ?_⟩
  · simp only [plannedRules, bind_eq_ok]
    exact ⟨candidate, hcandidate, artifacts, hartifacts, sources, hsources, hrules⟩
  · rw [← hkeys]
    exact emittedRules_eq_ok hindexed.nodup hrules
  · refine ⟨directives, ?_, htranslated.imp fun item directive => translateDirective_eq_ok⟩
    have hindex := index_eq_ok hdirectives
    rw [← (need_eq_ok.mp hdirectiveItems).2, ← hof] at hindex
    exact hindex
  · refine ⟨sources, items, hkeys, ?_, ?_⟩
    · rw [hof, (need_eq_ok.mp hmappingItems).2]
      exact hitems
    · rw [(need_eq_ok.mp hscope).2]
      exact hmappings.imp fun item mapping => translateMapping_eq_ok
  · intro id
    rw [obligationIds, (need_eq_ok.mp hobligationItems).2, valuesUnder_eq_ok hrequired]
    constructor
    · intro hid
      have htext := hrequiredMapped _ hid
      simpa [asText] using htext
    · intro hid
      obtain ⟨value, hvalue, htext⟩ := hmapped id hid
      rw [← asText_eq_some.mp htext]
      exact hvalue

/-- The key of a binding. -/
structure BindsAs (binding : JsonValue) (key : CarrierKey) : Prop where
  members : ∃ members, binding = .object members ∧
    field members "carrier" = .text key.1.name.toList ∧ field members "name" = .text key.2.1 ∧
    field members "component_id" = .text key.2.2

/-- Carried bindings are added to those before them. -/
theorem carryBindings_eq_ok {s : Services} {sourceId : Str} {semantic : Option (Table Members)}
    {bindings : List JsonValue} :
    ∀ {before after : List CarrierKey},
      carryBindings s sourceId semantic before bindings = .ok after →
      ∃ more, after = before ++ more ∧ List.Forall₂ BindsAs bindings more := by
  induction bindings with
  | nil =>
      intro before after h
      obtain rfl := Except.ok.inj h
      exact ⟨[], (List.append_nil _).symm, .nil⟩
  | cons binding rest ih =>
      intro before after h
      cases binding with
      | object members =>
          simp only [carryBindings, bind_eq_ok] at h
          obtain ⟨component, -, expected, -, _, -, h⟩ := h
          split at h
          · rename_i carrier name componentId hcarrier hname hcomponent
            obtain ⟨_, -, h⟩ := bind_eq_ok.mp h
            obtain ⟨more, rfl, hforall⟩ := ih h
            refine ⟨(carrier, name, componentId) :: more, by simp, .cons ?_ hforall⟩
            exact ⟨members, rfl, Carrier.text_of_named hcarrier, asText_eq_some.mp hname,
              asText_eq_some.mp hcomponent⟩
          · cases h
      | _ => cases h

/-- Every binding of an accepted carrier document is among its keys. -/
theorem translateCarrierDocument_eq_ok {s : Services} {document : Members} {sourceId : Str}
    {semantics : Option Members} {configuration : JsonValue} {carried : List CarrierKey}
    (h : translateCarrierDocument s document sourceId semantics = .ok (configuration, carried)) :
    List.Forall₂ BindsAs (arrayItems (field document "carrier_bindings")) carried := by
  simp only [translateCarrierDocument, bind_eq_ok] at h
  obtain ⟨bindings, hbindings, semantic, -, keys, hkeys, h⟩ := h
  obtain ⟨-, rfl⟩ := Prod.mk.inj (pure_eq_ok.mp h)
  obtain ⟨more, rfl, hforall⟩ := carryBindings_eq_ok hkeys
  rw [(nonemptyArray_eq_ok hbindings).1]
  exact hforall

/-- A rule of a document is carried over: its semantic component makes it a condition, and
the document of the condition asks what the rule asks. -/
def RuleCarried (s : Services) (verified : VerifiedSharedContractV2) (sourceId : Str)
    (rule : JsonValue) : Prop :=
  ∃ members component seen condition key atom, rule = .object members ∧
    .object component ∈ arrayItems (field verified.semantics "components") ∧
    field component "component_id" = field members "component_id" ∧
    componentCondition s members component sourceId seen = .ok (condition, key) ∧
    sourceAtom members = some atom ∧ AsksFor condition.json (.atom atom)

/-- A carrier binding is that of a rule in a document of the join. -/
def BindingCarried (s : Services) (verified : VerifiedSharedContractV2) (binding : JsonValue) :
    Prop :=
  ∃ members, binding = .object members ∧ ∃ id ∈ sourceIds verified, ∃ document rule atom,
    IsDocument s verified id document ∧
      .object rule ∈ arrayItems (field document "rules") ∧ sourceAtom rule = some atom ∧
      field rule "component_id" = field members "component_id" ∧
      field members "carrier" = .text atom.carrier.name.toList ∧
      field members "name" = .text atom.selector

/-- A document is translated whole: every rule is carried over, or, where it has no rules,
every carrier binding is that of a rule. -/
def TranslatedWhole (s : Services) (verified : VerifiedSharedContractV2) (sourceId : Str)
    (document : Members) : Prop :=
  (hasField document "rules" = true ∧
      ∀ rule ∈ arrayItems (field document "rules"), RuleCarried s verified sourceId rule) ∨
    (hasField document "rules" = false ∧
      ∀ binding ∈ arrayItems (field document "carrier_bindings"),
        BindingCarried s verified binding)

/-- The rule documents of an endpoint-independent document mean what its coverage alternatives
mean, and are those alternatives, atom by atom. -/
structure PreservesMeaning (document : Members) (rules : List JsonValue) : Prop where
  alternatives : List.Forall₂ (SameAtoms document) (coverage document) rules
  meaning : ∀ truth : Atom → Prop,
    (∃ rule ∈ rules, RuleAsks (ofAtoms truth) rule) ↔ CoverageHolds truth document

/-- What a plan keeps of its join, in the rule set that its content writes. -/
structure Preserves (s : Services) (verified : VerifiedSharedContractV2)
    (plan : WafTranslationPlan) (ruleSet : JsonValue) (targetId : Str) : Prop where
  planned : (plannedRules s verified).map ruleSetJson = .ok ruleSet
  content : canonicalText s ruleSet = .ok plan.primaryCandidateContent
  target : sharedWafPrimaryArtifactId (digestText s plan.primaryCandidateContent) = .ok targetId
  origin : ∀ rule ∈ listedRules ruleSet, ∃ id ∈ sourceIds verified,
    identityOf "sourceArtifactId" rule = some id
  meaning : ∀ id ∈ sourceIds verified, ∀ document, IsDocument s verified id document →
    hasField document "rules" = true → EndpointIndependent document →
    PreservesMeaning document (listedFrom id ruleSet)
  whole : ∀ id ∈ sourceIds verified, ∃ document, IsDocument s verified id document ∧
    TranslatedWhole s verified id document
  obligations : ∀ id ∈ obligationIds verified, ⟨id, [targetId]⟩ ∈ plan.translationMappings
  directives : ∀ id ∈ directiveIds verified, ∃ directive ∈ plan.translatedDirectives,
    directive.sourceDirectiveId = id ∧ directive.targetArtifactId = targetId

theorem IsDocument.unique {s : Services} {verified : VerifiedSharedContractV2} {id : Str}
    {document other : Members} (h : IsDocument s verified id document)
    (hother : IsDocument s verified id other) : document = other := by
  obtain ⟨raw, hraw, hdocument⟩ := h
  obtain ⟨raw', hraw', hother⟩ := hother
  obtain rfl := Option.some.inj (hraw.symm.trans hraw')
  exact Except.ok.inj (hdocument.symm.trans hother)

/-- Emitted rules keep the meaning of every source. -/
theorem preservesMeaning_of_emitted {s : Services} {verified : VerifiedSharedContractV2}
    {rules : List Rule} (h : Emitted s verified (sourceIds verified) rules) {id : Str}
    (hid : id ∈ sourceIds verified) {document : Members}
    (hdocument : IsDocument s verified id document)
    (hrules : hasField document "rules" = true) (hplacement : EndpointIndependent document) :
    PreservesMeaning document (listedFrom id (ruleSetJson rules)) := by
  obtain ⟨contribution, hsource, hfrom⟩ := h.source id hid
  obtain ⟨own, hcontributes⟩ := translateSource_eq_ok hsource
  obtain rfl := hcontributes.decodes.unique hdocument
  rcases hcontributes.cases with ⟨-, -, translated, htranslated, hlist⟩ | ⟨hnone, -⟩
  · obtain ⟨semantic, table, hcarried, -, ⟨-, hindependent⟩ | ⟨hbound, -⟩⟩ :=
      translateRuleDocument_eq_ok htranslated
    · have hsame := sameAtoms_of_independentRules hcarried hindependent
      rw [← hlist, ← hfrom, ← listedFrom_ruleSetJson] at hsame
      refine ⟨hsame, fun truth => Iff.symm ?_⟩
      exact any_iff_of_forall₂ (hsame.imp fun alternative rule h => h.iff truth)
    · exact absurd hbound (not_routeBound_of_independent hplacement)
  · rw [hrules] at hnone
    cases hnone

theorem translatedWhole_of_emitted {s : Services} {verified : VerifiedSharedContractV2}
    {rules : List Rule} (h : Emitted s verified (sourceIds verified) rules) {id : Str}
    (hid : id ∈ sourceIds verified) :
    ∃ document, IsDocument s verified id document ∧ TranslatedWhole s verified id document := by
  obtain ⟨contribution, hsource, -⟩ := h.source id hid
  obtain ⟨document, hcontributes⟩ := translateSource_eq_ok hsource
  refine ⟨document, hcontributes.decodes, ?_⟩
  rcases hcontributes.cases with ⟨hrules, -, translated, htranslated, -⟩ |
    ⟨hnone, -, -, configuration, hcarriers⟩
  · refine Or.inl ⟨hrules, fun rule hrule => ?_⟩
    obtain ⟨semantic, table, hcarried, -⟩ := translateRuleDocument_eq_ok htranslated
    obtain ⟨entry, -, members, rfl, hentry⟩ :=
      exists_right_of_forall₂ hcarried.carries hrule
    obtain ⟨component, seen, key, hlookup, hcondition⟩ := hentry.translated
    have hover := (componentCondition_eq_ok hcondition).1
    obtain ⟨atom, hatom, htarget, -⟩ := hover.atom
    refine ⟨members, component, seen, entry.2, key, atom, rfl, ?_, ?_, hcondition, hatom,
      asksFor_component htarget⟩
    · rw [hcarried.components.items]
      exact List.mem_map.mpr ⟨_, mem_of_lookup hlookup, rfl⟩
    · rw [(hcarried.components.field_of_lookup hlookup).1, hover.componentId, hentry.component]
  · refine Or.inr ⟨hnone, fun binding hbinding => ?_⟩
    obtain ⟨key, hkey, members, rfl, hcarrier, hname, hcomponent⟩ :=
      exists_right_of_forall₂ (translateCarrierDocument_eq_ok hcarriers) hbinding
    obtain ⟨other, hother, found, hfound, hkey⟩ := h.carriers id hid contribution hsource key hkey
    obtain ⟨carrying, hcarrying⟩ := translateSource_eq_ok hfound
    refine ⟨members, rfl, other, hother, carrying, ?_⟩
    rcases hcarrying.cases with ⟨-, -, translated, htranslated, -⟩ | ⟨-, -, hempty, -⟩
    · obtain ⟨semantic, table, hcarried, hkeys, -⟩ := translateRuleDocument_eq_ok htranslated
      rw [hkeys] at hkey
      obtain ⟨entry, hentry, rfl⟩ := List.mem_map.mp hkey
      obtain ⟨rule, hrule, rmembers, rfl, hrmembers⟩ :=
        exists_left_of_forall₂ hcarried.carries hentry
      obtain ⟨component, -, hover⟩ := hrmembers.over
      obtain ⟨atom, hatom, -, hatomCarrier, hatomSelector⟩ := hover.atom
      refine ⟨rmembers, atom, hcarrying.decodes, hrule, hatom, ?_, ?_, ?_⟩
      · rw [hover.componentId, hcomponent]
        rfl
      · rw [hatomCarrier, hcarrier]
        rfl
      · rw [hatomSelector, hname]
        rfl
    · rw [hempty] at hkey
      cases hkey

/-- **Endpoint-independent plans preserve meaning.**  The rules that the emitted rule set lists
for a document are true under exactly the assignments that make its coverage alternatives
true; no source is translated in part; obligations and directives are mapped to the emitted
artifact. -/
theorem plan_preserves_meaning {s : Services} {verified : VerifiedSharedContractV2}
    {targetTechnology : Str} {plan : WafTranslationPlan}
    (hplan : buildWafTranslationPlan s verified targetTechnology = .ok plan) :
    ∃ ruleSet targetId, Preserves s verified plan ruleSet targetId := by
  obtain ⟨rules, targetId, hbuilt⟩ := buildWafTranslationPlan_eq_ok hplan
  refine ⟨ruleSetJson rules, targetId, ?_, hbuilt.content, hbuilt.target, ?_, ?_, ?_, ?_, ?_⟩
  · rw [hbuilt.planned]
    rfl
  · intro rule hrule
    obtain ⟨own, hown, rfl⟩ := List.mem_map.mp hrule
    exact ⟨own.sourceArtifactId, hbuilt.emitted.origin own hown, rfl⟩
  · intro id hid document hdocument hrules hplacement
    exact preservesMeaning_of_emitted hbuilt.emitted hid hdocument hrules hplacement
  · intro id hid
    exact translatedWhole_of_emitted hbuilt.emitted hid
  · intro id hid
    obtain ⟨mapping, hmapping, rfl⟩ := List.mem_map.mp ((hbuilt.obligations id).mp hid)
    obtain ⟨sources, items, -, -, hforall⟩ := hbuilt.mappings
    obtain ⟨item, -, hmaps⟩ := exists_left_of_forall₂ hforall hmapping
    rw [← hmaps.target]
    exact hmapping
  · intro id hid
    obtain ⟨table, hindexed, hforall⟩ := hbuilt.directives
    rw [directiveIds, identities_of_indexed hindexed] at hid
    obtain ⟨entry, hentry, rfl⟩ := List.mem_map.mp hid
    obtain ⟨directive, hdirective, hdirects⟩ :=
      exists_right_of_forall₂ hforall (List.mem_map_of_mem hentry)
    have hsame := (hindexed.identity entry hentry).1
    exact ⟨directive, hdirective, JsonValue.text.inj (hdirects.source.symm.trans hsame),
      hdirects.target⟩

/-- The compact text of a document, with its members in order. -/
def sortedText (value : JsonValue) : Option Str :=
  let written := GoJson.goNestedValue .leaf value
  if finite written then some (dumps written) else none

/-- A text of the sample. -/
def word (s : String) : JsonValue := .text s.toList

/-- An object of the sample. -/
def record (members : List (String × JsonValue)) : Members :=
  members.map fun member => (member.1.toList, member.2)

/-- A reference to a thing of one kind within its scope. -/
def typedRef (kind scope id : String) : JsonValue :=
  .object (record [("kind", word kind), ("scope", word scope), ("id", word id)])

/-- Readers and writers that know some documents and rules; the digest is that of the one
text that is signed. -/
def sampleServices (documents : List Members) (rules : List Rule) (digest : String) :
    Services where
  strictLoads := fun raw =>
    match documents.find? fun d => (sortedText (.object d)).any fun t => encodeText t = raw with
    | some document => .value (.object document)
    | none => .invalid
  loads := fun text =>
    match rules.find? fun rule => sortedText rule.json = some text with
    | some rule => .ok (GoJson.goNestedValue .leaf rule.json)
    | none => .error []
  rfc8785 := sortedText
  sha256 := fun _ => digest.toList
  number := fun literal => if literal = ['0'] then 0 else 1
  repr := fun _ => []
  casefold := asciiTables.lower
  tables := asciiTables

/-- An artifact of the sample with its place in the order. -/
def sampleArtifact (id order : String) : JsonValue :=
  .object (record [("artifact_id", word id), ("order", .number order.toList)])

/-- A bundle of a rule document and its bindings, whose one obligation is mapped to an
artifact. -/
def sampleBundle (mapped : String) : Members := record
  [("bundle_id", word "bundle:1"),
    ("primary_candidate", .object (record
      [("candidate_id", word "candidate:1"),
        ("artifacts", .array [sampleArtifact "artifact:main" "0",
          sampleArtifact "artifact:carriers" "1"]),
        ("directives", .array [.object (record
          [("directive_id", word "directive:1"), ("kind", word "placement"),
            ("artifact_ref", typedRef "artifact" "bundle:1" "artifact:main"),
            ("value", word "Evaluate first."), ("required", .bool true)])]),
        ("obligation_mappings", .array [.object (record
          [("obligation_id", word "obligation:1"),
            ("artifact_refs", .array [typedRef "artifact" "bundle:1" mapped]),
            ("directive_refs", .array [typedRef "directive" "bundle:1" "directive:1"])])]),
        ("limitations", .array [])]))]

/-- The join with the given semantics and the two documents the bundle carries. -/
def sampleJoin (semantics main carriers : Members) (mapped : String) :
    VerifiedSharedContractV2 where
  semantics := semantics
  bundle := sampleBundle mapped
  artifactContents := [("artifact:main".toList, encodeText ((sortedText (.object main)).getD [])),
    ("artifact:carriers".toList, encodeText ((sortedText (.object carriers)).getD []))]
  verification := ⟨true, true, true, true, true, true, 1, 1, 1, 1, 0⟩
  accounting := ⟨1, 1, 0, 1, 1, 0, 0, 2, 2, 0⟩
  vulnerabilityId := "unknown".toList
  profileId := ctProfileId.toList

/-- The document read back from the first artifact is the one stored there. -/
theorem document_of_sampleJoin {semantics main carriers : Members} {mapped digest : String}
    {others : List Members} {rules : List Rule} {document : Members}
    (hwritten : (sortedText (.object main)).isSome = true)
    (h : IsDocument (sampleServices (main :: others) rules digest)
      (sampleJoin semantics main carriers mapped) "artifact:main".toList document) :
    document = main := by
  obtain ⟨raw, hraw, hdocument⟩ := h
  obtain ⟨written, hsorted⟩ := Option.isSome_iff_exists.mp hwritten
  have hstored : lookup (sampleJoin semantics main carriers mapped).artifactContents
      "artifact:main".toList = some (encodeText ((sortedText (.object main)).getD [])) := by
    rw [sampleJoin, lookup, List.find?_cons_of_pos (by exact decide_eq_true rfl)]
    rfl
  obtain rfl := Option.some.inj (hstored.symm.trans hraw)
  have hloaded : (sampleServices (main :: others) rules digest).strictLoads
      (encodeText ((sortedText (.object main)).getD [])) = .value (.object main) := by
    rw [hsorted]
    simp [sampleServices, hsorted]
  simp only [strictJsonBytes, bind_eq_ok, hloaded] at hdocument
  obtain ⟨_, -, hdocument⟩ := hdocument
  exact (Except.ok.inj hdocument).symm

/-- Semantics of one query parameter that must be checked. -/
def querySemantics : Members := record
  [("components", .array [.object (record
      [("component_id", word "component:query"), ("description", word "A query parameter."),
        ("location", .object (record [("kind", word "http-query"), ("name", word "id")]))])]),
    ("coverage", .object (record [("groups", .array [])])),
    ("obligations", .array [.object (record
      [("obligation_id", word "obligation:1"),
        ("coverage_ref", typedRef "component" "semantics:1" "component:query")])])]

/-- A rule set that checks it. -/
def queryRules : Members := record
  [("rule_set_id", word "rules:1"), ("action", word "block"),
    ("coverage_alternatives", .array [.array [word "component:query"]]),
    ("rules", .array [.object (record
      [("rule_id", word "rule:query"), ("component_id", word "component:query"),
        ("carrier", word "query"), ("name", word "id"), ("pattern", word "^attack$"),
        ("flags", .array [word "i"]), ("transformations", .array [])])])]

/-- The bindings of its carriers. -/
def queryBindings : Members := record
  [("rule_set_id", word "rules:1"),
    ("carrier_bindings", .array [.object (record
      [("carrier", word "query"), ("name", word "id"),
        ("component_id", word "component:query")])]),
    ("claim_rule", word "Coverage is limited to the named carriers.")]

/-- The rule emitted for it. -/
def queryRule : Rule where
  name := "janus-rules:1-0".toList
  description := "One endpoint-independent Boolean alternative from a verified DG WAF rule set."
  conditions := [.component
    { type := "uriQueryMatch"
      valueCase := false
      value := "^attack$".toList
      sourceRuleId := "rule:query".toList
      sourceComponentId := "component:query".toList
      sourceCarrier := .query
      sourceSelector := "id".toList
      sourceLocationKind := word "http-query"
      transformations := []
      sourceSelectorType := .null
      header := none
      parameter := some "id".toList
      cookieName := none }]
  sourceArtifactId := "artifact:main".toList
  sourceRuleSetId := word "rules:1"
  sourceAlternativeId := "endpoint-independent:0".toList
  sourceAction := word "block"
  fastLoopNegativeMaterials := .array []

/-- Services that answer what planning it asks. -/
def queryServices : Services :=
  sampleServices [queryRules, queryBindings] [queryRule]
    "cb608197eb35896e8e5dd4e786bb4426dda4e16c3e6fc955cbcd867f1e4ab48f"

/-- The obligation is mapped to the artifact of bindings, which has no rules. -/
def queryJoin : VerifiedSharedContractV2 :=
  sampleJoin querySemantics queryRules queryBindings "artifact:carriers"

theorem ok_of_isOk {α : Type} {x : Checked α} (h : x.isOk = true) : ∃ a, x = .ok a := by
  cases x with
  | ok a => exact ⟨a, rfl⟩
  | error e => cases h

theorem queryPlan_isOk :
    (buildWafTranslationPlan queryServices queryJoin "akamai-waf".toList).isOk = true := by
  decide +kernel

/-- The plan of the sample keeps its meaning. -/
theorem plan_preserves_meaning_query :
    ∃ plan ruleSet targetId,
      buildWafTranslationPlan queryServices queryJoin "akamai-waf".toList = .ok plan ∧
        Preserves queryServices queryJoin plan ruleSet targetId := by
  obtain ⟨plan, hplan⟩ := ok_of_isOk queryPlan_isOk
  obtain ⟨ruleSet, targetId, hpreserves⟩ := plan_preserves_meaning hplan
  exact ⟨plan, ruleSet, targetId, hplan, hpreserves⟩

end SharedContracts
