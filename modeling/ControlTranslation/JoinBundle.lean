import ControlTranslation.JoinSemantics
import ControlTranslation.TranslationPlan

/-!
# The candidate bundle and its mitigation check

The Defense Generation result carries a candidate bundle: artifacts that are
applied together, and a mapping for every obligation of the semantics.  The
Mitigation Check result reports a case for every input an obligation requires,
and every one of them blocked.
-/

namespace SharedContracts

open PyText JsonValue Alternatives

/-- The schema a candidate bundle is checked against. -/
def bundleSchemaId : String :=
  "https://schemas.janus.internal/contracts/candidate-bundle/candidate-bundle-1.0.schema.json"

/-- The bundle and its candidate, with their own digests checked. -/
def checkedCandidate (s : JoinServices) (bundle : Members) : Checked Members := do
  validateSchema s bundleSchemaId (.object bundle)
  let candidate ← needDictionary bundle "primary_candidate"
  raiseIf [!isText (field candidate "selected_control_class") "waf"]
    "candidate-control-class-invalid" "WAF-first requires a WAF candidate".toList
  let own ← digestWithout s.toServices candidate ["candidate_digest"]
  raiseIf [!hasText (field candidate "candidate_digest") own] "candidate-digest-mismatch"
    "candidate digest differs".toList
  let preimage := setMember (without bundle ["bundle_digest"]) "primary_candidate".toList
    (.object (without candidate ["candidate_digest"]))
  let whole ← digest s.toServices (.object preimage)
  raiseIf [!hasText (field bundle "bundle_digest") whole] "bundle-digest-mismatch"
    "bundle digest differs".toList
  return candidate

/-- The Check Generation result that some bytes carry. -/
def boundCg (decoded : Members) : JsonValue :=
  match fieldOr decoded "run_result" (.object decoded) with
  | .object run => .object (without run ["_verified_characterization_revision_id"])
  | other => other

/-- The bytes of a document: those it came in, or its canonical ones. -/
def exactBytes (s : Services) (value : JsonValue) : Option Bytes → Checked Bytes
  | some raw => .ok raw
  | none => do return encodeText (← canonicalText s value)

/-- The bundle binds these semantics, in exactly these bytes. -/
def checkSemanticsBinding (s : JoinServices) (bundle semantics cg : Members)
    (cgRaw : Option Bytes) : Checked Unit := do
  let binding ← needDictionary bundle "semantics_binding"
  raiseIf (["contract_id", "semantics_id", "semantics_revision", "semantics_digest"].map
      fun key => some (!equal s.toServices (field binding key) (field semantics key)))
    "bound-semantics-mismatch" "DG semantics binding differs".toList
  let locator ← needDictionary binding "locator"
  let exactCg ← exactBytes s.toServices (.object cg) (cgRaw.filter fun raw => !raw.isEmpty)
  let decoded ← strictJsonBytes s.toServices exactCg "bound CG result".toList
  raiseIf [!equal s.toServices (boundCg decoded) (.object cg)] "bound-cg-locator-mismatch"
    "DG bound CG bytes decode differently".toList
  raiseIf [!hasText (field locator "digest") (digestBytes s.toServices exactCg),
      !equal s.toServices (field locator "byte_length") (natNumber exactCg.length)]
    "bound-cg-locator-mismatch" "DG does not bind the exact CG final result".toList

/-- The bytes of one candidate artifact. -/
def resolveArtifactContent (s : JoinServices) (artifacts : Table Members)
    (exactContents : Option (Table Bytes)) (content : Str × JsonValue) :
    Checked (Str × Bytes) := do
  let (id, value) := content
  let raw ← exactBytes s.toServices value (exactContents.bind fun exact => lookup exact id)
  let decoded ← strictJsonBytes s.toServices raw ("candidate artifact ".toList ++ id)
  raiseIf [!equal s.toServices (.object decoded) value] "candidate-artifact-integrity-failed"
    ("candidate artifact decodes differently: ".toList ++ id)
  let artifact ← needEntry artifacts id
  let locator ← needDictionary artifact "content"
  raiseIf [!hasText (field locator "digest") (digestBytes s.toServices raw),
      !equal s.toServices (field locator "byte_length") (natNumber raw.length),
      !isTrue (field locator "immutable")] "candidate-artifact-integrity-failed"
    ("candidate artifact differs: ".toList ++ id)
  return (id, raw)

/-- `_resolve_artifact_contents`. -/
def resolveArtifactContents (s : JoinServices) (dg : Members) (artifacts : Table Members)
    (exactContents : Option (Table Bytes)) : Checked (Table Bytes) :=
  match field dg "candidate_artifact_contents" with
  | .object contents => do
      raiseIf [!sameSet (contents.map (·.1)) (keys artifacts)]
        "candidate-artifact-partition-incomplete" "candidate artifact content set differs".toList
      contents.mapM (resolveArtifactContent s artifacts exactContents)
  | _ =>
      refuse "candidate-artifacts-absent" "DG result has no candidate_artifact_contents".toList

/-- The application unit applies, removes and reads back every artifact at once. -/
def checkApplicationUnit (s : Services) (bundle : Members) (bundleId : JsonValue)
    (artifacts : Table Members) : Checked Unit := do
  let unit ← needDictionary bundle "application_unit"
  let ids ← refIds s (← need unit "artifact_refs") "artifact" bundleId (keys artifacts)
    "application-unit-invalid" false
  raiseIf [!sameSet ids (keys artifacts), !isText (field unit "apply") "all-or-nothing",
      !isText (field unit "rollback") "all-or-nothing",
      !isText (field unit "remove") "all-or-nothing",
      !isText (field unit "readback") "verify-every-artifact-or-rollback"]
    "application-unit-incomplete" "DG complete application unit differs".toList

/-- An artifact is a member of its atomic group and depends on known artifacts. -/
def checkAtomicGroup (s : Services) (bundleId : JsonValue) (artifacts groups : Table Members)
    (entry : Str × Members) : Checked Unit := do
  let groupRef ← need entry.2 "application_group_ref"
  let groupIds ← refIds s (.array [groupRef]) "atomic-group" bundleId (keys groups)
    "artifact-atomic-group-invalid" false
  let _ ← refIds s (← need entry.2 "depends_on") "artifact" bundleId (keys artifacts)
    "artifact-dependency-invalid" true
  let group ← needEntry groups (groupIds.headD [])
  let members ← refIds s (← need group "artifact_refs") "artifact" bundleId (keys artifacts)
    "atomic-group-artifacts-invalid" false
  raiseIf [!members.contains entry.1] "artifact-atomic-group-invalid"
    "artifact is absent from its atomic group".toList

/-- What the mappings of a bundle are checked against. -/
structure BundleScope where
  bundleId : JsonValue
  semanticsId : JsonValue
  artifacts : Table Members
  directives : Table Members
  members : Table Members
  obligations : Table Members

/-- The mapping of an obligation covers exactly what the obligation covers. -/
def checkMapping (s : Services) (semantics : Members) (scope : BundleScope)
    (entry : Str × Members) : Checked Unit := do
  let (id, mapping) := entry
  let obligation ← needEntry scope.obligations id
  let code := "obligation-semantics-mismatch"
  let refusal := "DG semantics mapping differs: ".toList ++ id
  raiseIf [!isText (field mapping "coverage") "exact"] code refusal
  let coverageRef ← need obligation "coverage_ref"
  raiseIf [!equal s (field mapping "semantics_refs") (.array [coverageRef])] code refusal
  let mapped ← refIds s (← need mapping "source_member_refs") "source-member" scope.semanticsId
    (keys scope.members) "obligation-members-invalid" false
  let covered ← coverageMembers s coverageRef semantics
  raiseIf [!sameSet mapped covered] "obligation-source-ancestry-mismatch"
    ("DG source-member mapping differs: ".toList ++ id)
  let _ ← refIds s (← need mapping "artifact_refs") "artifact" scope.bundleId
    (keys scope.artifacts) "obligation-artifacts-invalid" false
  let _ ← refIds s (← need mapping "directive_refs") "directive" scope.bundleId
    (keys scope.directives) "obligation-directives-invalid" false

/-- The places of the artifacts are `0, 1, …`. -/
def inOrder (s : Services) (artifacts : Table Members) : Bool :=
  equal s (.array (artifacts.map fun entry => field entry.2 "order"))
    (.array ((List.range artifacts.length).map natNumber))

/-- What the bundle and its candidate say of themselves. -/
def attestationOf (bundle candidate : Members) : Checked Members := do
  let own ← ["bundle_id", "bundle_revision", "bundle_digest"].mapM fun key => do
    return (key.toList, ← need bundle key)
  let inner ← ["candidate_id", "candidate_revision", "candidate_digest"].mapM fun key => do
    return (key.toList, ← need candidate key)
  return own ++ inner

/-- `_validate_bundle`: the attestation of the candidate and the bytes of its artifacts. -/
def validateBundle (s : JoinServices) (bundle semantics cg : Members) (cgRaw : Option Bytes)
    (dg : Members) (artifactRaw : Option (Table Bytes)) : Checked (Members × Table Bytes) := do
  let candidate ← checkedCandidate s bundle
  checkSemanticsBinding s bundle semantics cg cgRaw
  let artifacts ←
    index (← need candidate "artifacts") "artifact_id" "candidate-artifacts-invalid"
  let directives ←
    index (← need candidate "directives") "directive_id" "candidate-directives-invalid"
  raiseIf [!inOrder s.toServices artifacts] "candidate-artifact-order-invalid"
    "candidate artifact order is not contiguous".toList
  let contents ← resolveArtifactContents s dg artifacts artifactRaw
  let bundleId ← need bundle "bundle_id"
  checkApplicationUnit s.toServices bundle bundleId artifacts
  let groups ← index (← need bundle "atomic_groups") "atomic_group_id" "atomic-groups-invalid"
  artifacts.forM (checkAtomicGroup s.toServices bundleId artifacts groups)
  let obligations ←
    index (← need semantics "obligations") "obligation_id" "obligations-invalid"
  let mappings ←
    index (← need candidate "obligation_mappings") "obligation_id" "candidate-mappings-invalid"
  raiseIf [!sameSet (keys mappings) (keys obligations)] "obligation-id-incomplete"
    "DG mapping IDs differ from required CG IDs".toList
  let source ← needDictionary semantics "source_binding"
  let members ← index (← need source "members") "member_id" "source-members-invalid"
  let semanticsId ← need semantics "semantics_id"
  mappings.forM (checkMapping s.toServices semantics
    ⟨bundleId, semanticsId, artifacts, directives, members, obligations⟩)
  let attestation ← attestationOf bundle candidate
  return (attestation, contents)

/-- `[item[key] for item in items]`, where all are texts. -/
def textsUnder (key : String) (items : JsonValue) : Checked (List Str) := do
  (← iterate items).mapM fun item => do needText (← dictionary item) key

/-- The source members that some items refer to. -/
def referredMembers (items : JsonValue) : Checked (List Str) := do
  let listed ← (← iterate items).mapM fun item => do
    idsOf (← need (← dictionary item) "source_member_refs")
  return listed.flatten

/-- `_accounting`. -/
def accountingOf (semantics : Members) (requiredWork disposedWork : Nat) :
    Checked CoverageAccounting := do
  let source ← needDictionary semantics "source_binding"
  let members ← textsUnder "member_id" (← need source "members")
  let represented ← referredMembers (← need semantics "test_inputs")
  let unsupported ← referredMembers (← need semantics "unsupported_dimensions")
  raiseIf [!partitions represented unsupported members] "source-member-partition-incomplete"
    "source member partition differs".toList
  raiseIf [decide (requiredWork < disposedWork)] "coverage-accounting-invalid"
    "disposed work exceeds required work".toList
  let obligations ← iterate (← need semantics "obligations")
  return {
    requiredObligationCount := obligations.length
    accountedObligationCount := obligations.length
    unaccountedRequiredObligationCount := 0
    sourceMemberCount := (unique members).length
    representedSourceMemberCount := (unique represented).length
    unsupportedSourceMemberCount := (unique unsupported).length
    unaccountedSourceMemberCount := 0
    requiredWorkItemCount := requiredWork
    disposedWorkItemCount := disposedWork
    unaccountedRequiredWorkItemCount := requiredWork - disposedWork }

/-- `accounting.model_dump(mode="json")`. -/
def CoverageAccounting.json (a : CoverageAccounting) : JsonValue :=
  .object
    ([("required_obligation_count", a.requiredObligationCount),
      ("accounted_obligation_count", a.accountedObligationCount),
      ("unaccounted_required_obligation_count", a.unaccountedRequiredObligationCount),
      ("source_member_count", a.sourceMemberCount),
      ("represented_source_member_count", a.representedSourceMemberCount),
      ("unsupported_source_member_count", a.unsupportedSourceMemberCount),
      ("unaccounted_source_member_count", a.unaccountedSourceMemberCount),
      ("required_work_item_count", a.requiredWorkItemCount),
      ("disposed_work_item_count", a.disposedWorkItemCount),
      ("unaccounted_required_work_item_count", a.unaccountedRequiredWorkItemCount)].map
      fun count => (count.1.toList, natNumber count.2))

/-- A mapping covers what its obligation covers, by artifacts of the candidate. -/
structure MapsObligation (s : Services) (semantics bundle candidate mapping obligation : Members) :
    Prop where
  coverage : field mapping "coverage" = .text "exact".toList
  members : ∀ member, RefersTo s "source-member" (field semantics "semantics_id")
      (field mapping "source_member_refs") member ↔
    CoversMember s semantics (field obligation "coverage_ref") member
  artifacts : ∃ artifact, RefersTo s "artifact" (field bundle "bundle_id")
    (field mapping "artifact_refs") artifact
  known : ∀ artifact, RefersTo s "artifact" (field bundle "bundle_id")
    (field mapping "artifact_refs") artifact →
      artifact ∈ identities (field candidate "artifacts") "artifact_id"

/-- The bytes of an artifact are those its locator names. -/
structure ContentOf (s : Services) (candidate contents : Members) (id : Str) (raw : Bytes) :
    Prop where
  value : ∃ decoded value,
    strictJsonBytes s raw ("candidate artifact ".toList ++ id) = .ok decoded ∧
    (id, value) ∈ contents ∧ equal s (.object decoded) value = true
  locator : ∃ artifact locator, .object artifact ∈ arrayItems (field candidate "artifacts") ∧
    field artifact "artifact_id" = .text id ∧ field artifact "content" = .object locator ∧
    field locator "digest" = .text (digestBytes s raw) ∧
    equal s (field locator "byte_length") (natNumber raw.length) = true

/-- Some items and the obligations carry the same identities, each once. -/
structure OneForEach (items obligations : JsonValue) : Prop where
  identities : (identities items "obligation_id").Perm (identities obligations "obligation_id")
  nodup : (SharedContracts.identities items "obligation_id").Nodup
  length : (arrayItems items).length = (arrayItems obligations).length
  found : ∀ obligation, .object obligation ∈ arrayItems obligations →
    ∃ item, .object item ∈ arrayItems items ∧
      field item "obligation_id" = field obligation "obligation_id"

/-- What an accepted bundle says of the semantics it was made for. -/
structure AcceptedBundle (s : Services) (bundle semantics dg candidate : Members)
    (contents : Table Bytes) : Prop where
  primary : field bundle "primary_candidate" = .object candidate
  /-- There is one mapping for every obligation, and for nothing else. -/
  mapped : OneForEach (field candidate "obligation_mappings") (field semantics "obligations")
  mappings : ∀ mapping obligation, .object mapping ∈
      arrayItems (field candidate "obligation_mappings") →
    .object obligation ∈ arrayItems (field semantics "obligations") →
    field mapping "obligation_id" = field obligation "obligation_id" →
      MapsObligation s semantics bundle candidate mapping obligation
  /-- The application unit is all of the artifacts, in one piece. -/
  unit : ∃ unit, field bundle "application_unit" = .object unit ∧
    field unit "apply" = .text "all-or-nothing".toList ∧
    field unit "rollback" = .text "all-or-nothing".toList ∧
    ∀ id, RefersTo s "artifact" (field bundle "bundle_id") (field unit "artifact_refs") id ↔
      id ∈ identities (field candidate "artifacts") "artifact_id"
  contents : (∀ id, id ∈ keys contents ↔
      id ∈ identities (field candidate "artifacts") "artifact_id") ∧
    ∃ embedded, field dg "candidate_artifact_contents" = .object embedded ∧
      ∀ content ∈ contents, ContentOf s candidate embedded content.1 content.2

variable {s : JoinServices}

/-- Indexes with the same keys list one item for each other. -/
theorem oneForEach_of_indexed {items obligations : JsonValue} {table required : Table Members}
    (htable : Indexed items "obligation_id" table)
    (hrequired : Indexed obligations "obligation_id" required)
    (h : sameSet (keys table) (keys required) = true) : OneForEach items obligations := by
  have hperm : (keys table).Perm (keys required) :=
    (List.perm_ext_iff_of_nodup htable.nodup hrequired.nodup).mpr (sameSet_iff.mp h)
  refine {
    identities := ?_
    nodup := ?_
    length := ?_
    found := fun obligation hobligation => ?_ }
  · rwa [identities_of_indexed htable, identities_of_indexed hrequired]
  · rw [identities_of_indexed htable]
    exact htable.nodup
  · have hlength := hperm.length_eq
    rw [htable.items, hrequired.items]
    simpa [keys, arrayItems, asArray] using hlength
  · obtain ⟨entry, hentry, rfl⟩ := hrequired.entry_of_mem hobligation
    obtain ⟨other, hother, hkey⟩ := List.mem_map.mp
      (hperm.symm.subset (List.mem_map_of_mem hentry : entry.1 ∈ keys required))
    refine ⟨other.2, htable.mem_of_entry hother, ?_⟩
    rw [(htable.identity other hother).1, (hrequired.identity entry hentry).1, hkey]

/-- An item that carries an identity is the one found under it. -/
theorem Indexed.lookup_of_field {items : JsonValue} {key : String} {table : Table Members}
    (h : Indexed items key table) {item : Members} (hitem : .object item ∈ arrayItems items)
    {id : Str} (hid : field item key = .text id) : lookup table id = some item := by
  obtain ⟨entry, hentry, rfl⟩ := h.entry_of_mem hitem
  have hsame := (h.identity entry hentry).1
  obtain rfl := JsonValue.text.inj (hsame.symm.trans hid)
  exact h.lookup_identity hentry

theorem needEntry_eq_ok {table : Table Members} {key : Str} {item : Members} :
    needEntry table key = .ok item ↔ lookup table key = some item := by
  unfold needEntry
  split
  · rename_i found h
    simp [h]
  · rename_i h
    simp [h]

/-- The loop over the mappings checks each against its obligation. -/
theorem checkMapping_eq_ok {semantics bundle candidate mapping obligation : Members}
    {artifacts directives members obligations : Table Members} {id : Str}
    (hartifacts : Indexed (field candidate "artifacts") "artifact_id" artifacts)
    (hobligation : lookup obligations id = some obligation)
    (h : checkMapping s.toServices semantics ⟨field bundle "bundle_id",
      field semantics "semantics_id", artifacts, directives, members, obligations⟩ (id, mapping) =
        .ok ()) :
    MapsObligation s.toServices semantics bundle candidate mapping obligation := by
  simp only [checkMapping, bind_eq_ok, raiseIf_eq_ok, List.forall_mem_cons, pure_eq_ok,
    needEntry_eq_ok, Option.some.injEq, Bool.not_eq_false'] at h
  obtain ⟨found, hfound, -, ⟨hcoverage, -⟩, ref, href, -, -, memberRefs, hmemberRefs, mapped,
    hmapped, covered, hcovered, -, ⟨hsame, -⟩, artifactRefs, hartifactRefs, named, hnamed, -⟩ := h
  obtain rfl := Option.some.inj (hfound.symm.trans hobligation)
  obtain rfl : field found "coverage_ref" = ref := (need_eq_ok.mp href).2
  obtain rfl : field mapping "source_member_refs" = memberRefs := (need_eq_ok.mp hmemberRefs).2
  obtain rfl : field mapping "artifact_refs" = artifactRefs := (need_eq_ok.mp hartifactRefs).2
  obtain ⟨-, -, hnonempty, -, hknown, -⟩ := refIds_eq_ok hnamed
  have hrefers := mem_refIds_iff hnamed
  refine {
    coverage := isText_iff.mp hcoverage
    members := fun member => ?_
    artifacts := ?_
    known := fun artifact hartifact => ?_ }
  · rw [← mem_refIds_iff hmapped, sameSet_iff.mp hsame, mem_coverageMembers_iff hcovered]
  · obtain ⟨artifact, hartifact⟩ := List.exists_mem_of_ne_nil named (hnonempty rfl)
    exact ⟨artifact, (hrefers artifact).mp hartifact⟩
  · rw [identities_of_indexed hartifacts]
    exact hknown artifact ((hrefers artifact).mpr hartifact)

theorem hasText_iff {value : JsonValue} {t : Str} : hasText value t = true ↔ value = .text t := by
  rw [hasText, beq_iff_eq, asText_eq_some]

/-- What the loop over the contents found of one artifact. -/
theorem resolveArtifactContent_eq_ok {candidate : Members} {artifacts : Table Members}
    {exact : Option (Table Bytes)} {content : Str × JsonValue} {found : Str × Bytes}
    (hartifacts : Indexed (field candidate "artifacts") "artifact_id" artifacts)
    (h : resolveArtifactContent s artifacts exact content = .ok found) :
    found.1 = content.1 ∧ ∀ contents : Members, content ∈ contents →
      ContentOf s.toServices candidate contents found.1 found.2 := by
  obtain ⟨id, value⟩ := content
  simp only [resolveArtifactContent, bind_eq_ok, raiseIf_eq_ok, List.forall_mem_cons, pure_eq_ok,
    needEntry_eq_ok, Option.some.injEq, Bool.not_eq_false'] at h
  obtain ⟨raw, -, decoded, hdecoded, -, ⟨hvalue, -⟩, artifact, hartifact, locator, hlocator, -,
    ⟨hdigest, hlength, -, -⟩, rfl⟩ := h
  refine ⟨rfl, fun contents hcontent => ⟨⟨decoded, value, hdecoded, hcontent, hvalue⟩, ?_⟩⟩
  exact ⟨artifact, locator, hartifacts.mem_of_entry (mem_of_lookup hartifact),
    (hartifacts.field_of_lookup hartifact).1, needDictionary_eq_ok hlocator,
    hasText_iff.mp hdigest, hlength⟩

/-- Every artifact of the candidate has its content. -/
theorem resolveArtifactContents_eq_ok {dg candidate : Members} {artifacts : Table Members}
    {exact : Option (Table Bytes)} {contents : Table Bytes}
    (hartifacts : Indexed (field candidate "artifacts") "artifact_id" artifacts)
    (h : resolveArtifactContents s dg artifacts exact = .ok contents) :
    (∀ id, id ∈ keys contents ↔ id ∈ identities (field candidate "artifacts") "artifact_id") ∧
      ∃ embedded, field dg "candidate_artifact_contents" = .object embedded ∧
        ∀ content ∈ contents, ContentOf s.toServices candidate embedded content.1 content.2 := by
  rw [resolveArtifactContents] at h
  split at h
  · rename_i embedded hembedded
    simp only [bind_eq_ok, raiseIf_eq_ok, List.forall_mem_cons, Option.some.injEq,
      Bool.not_eq_false'] at h
    obtain ⟨-, ⟨hsame, -⟩, hcontents⟩ := h
    have hforall := mapM_eq_ok.mp hcontents
    refine ⟨fun id => ?_, embedded, hembedded, fun content hcontent => ?_⟩
    · rw [identities_of_indexed hartifacts, ← sameSet_iff.mp hsame]
      have hkeys : keys contents = embedded.map (·.1) := by
        clear hsame hembedded hcontents
        induction hforall with
        | nil => rfl
        | cons hfirst _ ih =>
            rw [keys, List.map_cons, List.map_cons,
              (resolveArtifactContent_eq_ok hartifacts hfirst).1]
            exact congrArg _ ih
      rw [hkeys]
    · obtain ⟨value, hvalue, hresolved⟩ := exists_left_of_forall₂ hforall hcontent
      exact (resolveArtifactContent_eq_ok hartifacts hresolved).2 embedded hvalue
  · exact absurd h refuse_ne_ok.mp

/-- **An accepted bundle** maps every obligation of the semantics exactly, to the source
members that the obligation covers, and comes with the bytes of all its artifacts. -/
theorem acceptedBundle_of_validateBundle {bundle semantics cg dg attestation : Members}
    {cgRaw : Option Bytes} {artifactRaw : Option (Table Bytes)} {contents : Table Bytes}
    (h : validateBundle s bundle semantics cg cgRaw dg artifactRaw = .ok (attestation, contents)) :
    ∃ candidate, AcceptedBundle s.toServices bundle semantics dg candidate contents ∧
      attestationOf bundle candidate = .ok attestation := by
  simp only [validateBundle, bind_eq_ok, raiseIf_eq_ok, pure_eq_ok, forM_eq_ok,
    List.forall_mem_cons, Option.some.injEq, Bool.not_eq_false'] at h
  obtain ⟨candidate, hcandidate, -, -, artifactItems, hartifactItems, artifacts, hartifacts, _, -,
    directives, -, -, -, found, hfound, bundleId, hbundleId, ⟨⟩, hunit, _, -, groups, -, -, -,
    obligationItems, hobligationItems, obligations, hobligations, mappingItems, hmappingItems,
    mappings, hmappings, -, ⟨hsame, -⟩, _, -, _, -, members, -, semanticsId, hsemanticsId, -,
    hmapped, own, hown, hpair⟩ := h
  obtain ⟨rfl, rfl⟩ := Prod.mk.inj hpair
  obtain rfl : field bundle "bundle_id" = bundleId := (need_eq_ok.mp hbundleId).2
  obtain rfl : field semantics "semantics_id" = semanticsId := (need_eq_ok.mp hsemanticsId).2
  have hartifactIndex := index_need hartifactItems hartifacts
  have hobligationIndex := index_need hobligationItems hobligations
  have hmappingIndex := index_need hmappingItems hmappings
  simp only [checkedCandidate, bind_eq_ok, pure_eq_ok] at hcandidate
  obtain ⟨-, -, primary, hprimary, -, -, -, -, -, -, -, -, -, -, rfl⟩ := hcandidate
  simp only [checkApplicationUnit, bind_eq_ok, raiseIf_eq_ok, List.forall_mem_cons,
    Option.some.injEq, Bool.not_eq_false'] at hunit
  obtain ⟨unit, hunitField, refs, hrefs, ids, hids, hall, happly, hrollback, -⟩ := hunit
  refine ⟨primary, {
    primary := needDictionary_eq_ok hprimary
    mapped := oneForEach_of_indexed hmappingIndex hobligationIndex hsame
    mappings := fun mapping obligation hmapping hobligation hid => ?_
    unit := ?_
    contents := resolveArtifactContents_eq_ok hartifactIndex hfound }, hown⟩
  · obtain ⟨entry, hentry, rfl⟩ := hmappingIndex.entry_of_mem hmapping
    have hentryId := (hmappingIndex.identity entry hentry).1
    exact checkMapping_eq_ok hartifactIndex
      (hobligationIndex.lookup_of_field hobligation (hid.symm.trans hentryId))
      (hmapped entry hentry)
  · obtain rfl : field unit "artifact_refs" = refs := (need_eq_ok.mp hrefs).2
    refine ⟨unit, needDictionary_eq_ok hunitField, isText_iff.mp happly, isText_iff.mp hrollback,
      fun id => ?_⟩
    rw [identities_of_indexed hartifactIndex, ← sameSet_iff.mp hall]
    exact (mem_refIds_iff hids id).symm

end SharedContracts
