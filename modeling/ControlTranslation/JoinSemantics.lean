import ControlTranslation.CoverageGraph
import ControlTranslation.JsonPointer

/-!
# The semantics of a join

The Check Generation result carries the semantics that the other results are
about.  Its members, artifacts and test inputs are those of the result around it,
each with the same lineage; every source member is either represented by a test
input or declared unsupported, and never both.
-/

namespace SharedContracts

open PyText JsonValue Alternatives

/-- The schema of attack match semantics. -/
def amsSchemaId : String :=
  "https://schemas.janus.internal/contracts/attack-match-semantics/" ++
    "attack-match-semantics-2.0.schema.json"

/-- The digest the result gives of itself, where it gives one. -/
def checkCgDigest (s : Services) (cg : Members) : Checked Unit :=
  if hasField cg "content_digest" || hasField cg "digest_profile" then do
    let code := "cg-content-digest-mismatch"
    let refusal := "CG final content digest differs".toList
    raiseIf [!isText (field cg "digest_profile") "rfc8785-sha256-exclude-content_digest-v1"]
      code refusal
    let content ← digestWithout s cg ["content_digest"]
    raiseIf [!hasText (field cg "content_digest") content] code refusal
  else .ok ()

/-- The semantics a result embeds, with their digest checked. -/
def embeddedSemantics (s : JoinServices) (cg : Members) : Checked Members := do
  raiseIf [!isText (field cg "contract_id") "check-generation@2.1",
      !(field cg "result_id").truthy] "cg-identity-invalid"
    "expected final check-generation@2.1 result".toList
  checkCgDigest s.toServices cg
  match field cg "attack_match_semantics" with
  | .object semantics => do
      validateSchema s amsSchemaId (.object semantics)
      let own ← digestWithout s.toServices semantics ["semantics_digest"]
      raiseIf [!hasText (field semantics "semantics_digest") own] "semantics-digest-mismatch"
        "embedded semantics digest differs".toList
      return semantics
  | _ => refuse "semantics-absent" "CG semantics are absent".toList

/-- The members of the result that the semantics were projected from. -/
def sourceProjection (cg : Members) : Checked Members :=
  ["artifacts", "input_membership", "member_results", "test_inputs"].mapM fun key => do
    return (key.toList, ← need cg key)

/-- `semantics["source_binding"]["check_generation"]`, checked against the result. -/
def checkedBinding (s : Services) (cg semantics : Members) : Checked Members := do
  let source ← needDictionary semantics "source_binding"
  let binding ← needDictionary source "check_generation"
  let projection ← sourceProjection cg
  let code := "source-projection-mismatch"
  let refusal := "CG source projection or identity differs".toList
  raiseIf (["contract_id", "result_id", "revision"].map fun key =>
    some (!equal s (field binding key) (field cg key))) code refusal
  let projected ← digest s (.object projection)
  raiseIf [!hasText (field binding "source_projection_digest") projected] code refusal
  return binding

/-- What the semantics and the result around them list. -/
structure CgIndexes where
  members : Table Members
  outerMembers : Table Members
  artifacts : Table Members
  outerArtifacts : Table Members
  inputs : Table Members
  outerInputs : Table Members
  obligations : Table Members
  membership : Table Members

/-- The members and artifacts of the semantics and of its outer record, each by id. -/
def cgIndexes (cg semantics : Members) : Checked CgIndexes := do
  let source ← needDictionary semantics "source_binding"
  let members ← index (← need source "members") "member_id" "source-members-invalid"
  let outerMembers ← index (← need cg "member_results") "member_id" "cg-members-invalid"
  let artifacts ← index (← need source "artifacts") "artifact_id" "source-artifacts-invalid"
  let outerArtifacts ← index (← need cg "artifacts") "artifact_id" "cg-artifacts-invalid"
  let inputs ← index (← need semantics "test_inputs") "input_id" "semantics-inputs-invalid"
  let outerInputs ← index (← need cg "test_inputs") "input_id" "cg-inputs-invalid"
  let obligations ←
    index (← need semantics "obligations") "obligation_id" "obligations-invalid"
  let declared ← dictionary (fieldOr cg "input_membership" (.object []))
  let membership ← index (field declared "members") "member_id" "cg-input-membership-invalid"
  return ⟨members, outerMembers, artifacts, outerArtifacts, inputs, outerInputs, obligations,
    membership⟩

/-- The identities of the semantics are those of the result, and so are their counts. -/
def checkIdentities (s : Services) (binding : Members) (known : CgIndexes) : Checked Unit := do
  raiseIf [!sameSet (keys known.members) (keys known.outerMembers),
      !sameSet (keys known.members) (keys known.membership),
      !sameSet (keys known.artifacts) (keys known.outerArtifacts),
      !(keys known.inputs).all (keys known.outerInputs).contains] "cg-completeness-mismatch"
    "CG embedded and outer identity sets differ".toList
  raiseIf [!equal s (field binding "member_count") (natNumber known.members.length),
      !equal s (field binding "artifact_count") (natNumber known.artifacts.length)]
    "cg-count-mismatch" "CG source binding counts differ".toList

/-- `table[key]`. -/
def needEntry (table : Table Members) (key : Str) : Checked Members :=
  match lookup table key with
  | some item => .ok item
  | none => .error .crash

/-- `_shared_terminal_state_from_cg`. -/
def sharedTerminalState (value : JsonValue) : JsonValue :=
  if isText value "no-checkable-artifact" then .text "no-checkable-signal".toList else value

/-- A source member is that of the result. -/
def checkMember (s : Services) (semanticsId : JsonValue) (known : CgIndexes)
    (entry : Str × Members) : Checked Unit := do
  let (id, member) := entry
  let outer ← needEntry known.outerMembers id
  let declared ← needEntry known.membership id
  let same := fun (other : Members) (key : String) => equal s (field member key) (field other key)
  raiseIf [!same outer "signal_id", !same outer "affected_artifact_id",
      !equal s (field member "terminal_state")
        (sharedTerminalState (field outer "terminal_state")),
      !same declared "signal_id", !same declared "affected_artifact_id"]
    "cg-member-identity-mismatch" ("CG member differs: ".toList ++ id)
  let refs ← refIds s (field member "artifact_refs") "source-artifact" semanticsId
    (keys known.artifacts) "source-member-artifacts-invalid" true
  raiseIf [(isSetOf refs (fieldOr outer "artifact_refs" (.array []))).map (!·),
      (inTexts ["verified".toList, "signal-produced".toList]
        (field member "terminal_state")).map fun produced => refs.isEmpty == produced]
    "cg-member-cardinality-invalid" ("CG member artifact cardinality differs: ".toList ++ id)

/-- The content an artifact of the result names, if it has one. -/
def expectedContent (outer : Members) : JsonValue :=
  match field outer "check_artifact", field outer "mitigation_checkable_signal" with
  | .object artifact, _ => field artifact "candidate"
  | _, .object signal => field signal "stimulus"
  | _, _ => .null

/-- Whether the content of an artifact is that of the result. -/
def contentMatches (s : JoinServices) (cg content outer : Members) : Checked Bool :=
  if (field content "uri").asText.any fun uri =>
      "janus-result-internal:".toList.isPrefixOf uri then do
    let resolved ← JsonPointer.resolveResultInternalContent s cg content
    let expected := expectedContent outer
    if expected.isNull then return false
    else
      let canonical ← canonicalText s.toServices expected
      return resolved == encodeText canonical
  else return equal s.toServices (field outer "content_hash") (field content "digest")

/-- `set(left.get(key, [])) == set(right.get(key, []))`, where the left lists texts. -/
def sameListed (left right : Members) (key : String) : Option Bool :=
  match (fieldOr left key (.array [])).asArray.bind fun items => items.mapM asText with
  | some texts => isSetOf texts (fieldOr right key (.array []))
  | none => none

/-- A source artifact is that of the result. -/
def checkArtifact (s : JoinServices) (cg : Members) (semanticsId : JsonValue) (known : CgIndexes)
    (entry : Str × Members) : Checked Unit := do
  let (id, artifact) := entry
  let outer ← needEntry known.outerArtifacts id
  let memberIds ← refIds s.toServices (← need artifact "member_refs") "source-member" semanticsId
    (keys known.members) "source-artifact-members-invalid" false
  match field artifact "content" with
  | .object content => do
      let sameContent ← contentMatches s cg content outer
      raiseIf [(isSetOf memberIds (fieldOr outer "member_ids" (.array []))).map (!·),
          !equal s.toServices (field artifact "artifact_kind") (field outer "artifact_kind"),
          (sameListed artifact outer "signal_ids").map (!·),
          (sameListed artifact outer "affected_artifact_ids").map (!·), !sameContent]
        "cg-artifact-lineage-mismatch" ("CG artifact differs: ".toList ++ id)
  | _ =>
      refuse "cg-artifact-lineage-mismatch" ("CG artifact content is absent: ".toList ++ id)

/-- The source members a test input represents. -/
def checkInput (s : Services) (semanticsId : JsonValue) (known : CgIndexes)
    (entry : Str × Members) : Checked (List Str) := do
  let (id, item) := entry
  let memberIds ← refIds s (← need item "source_member_refs") "source-member" semanticsId
    (keys known.members) "input-members-invalid" false
  let outer ← needEntry known.outerInputs id
  let artifactRef ← need item "source_artifact_ref"
  let artifactIds ← refIds s (.array [artifactRef]) "source-artifact" semanticsId
    (keys known.artifacts) "input-artifact-invalid" false
  raiseIf [(isSetOf memberIds (fieldOr outer "member_ids" (.array []))).map (!·),
      !artifactIds.all (hasText (field outer "artifact_id"))] "cg-input-lineage-mismatch"
    ("CG test input differs: ".toList ++ id)
  return memberIds

/-- The source members and the test inputs that an unsupported dimension lists. -/
def checkUnsupported (s : Services) (semanticsId : JsonValue) (known : CgIndexes)
    (dimension : JsonValue) : Checked (List Str × List Str) := do
  let item ← dictionary dimension
  let memberIds ← refIds s (← need item "source_member_refs") "source-member" semanticsId
    (keys known.members) "unsupported-members-invalid" true
  let inputIds ← refIds s (fieldOr item "source_input_refs" (.array [])) "test-input" semanticsId
    (keys known.outerInputs) "unsupported-inputs-invalid" true
  return (memberIds, inputIds)

/-- Whether two sets are disjoint and together are a third. -/
def partitions (left right whole : List Str) : Bool :=
  !left.any right.contains && sameSet (left ++ right) whole

/-- An obligation refers to what the semantics list. -/
def checkObligation (s : Services) (semantics : Members) (semanticsId : JsonValue)
    (known : CgIndexes) (entry : Str × Members) : Checked Unit := do
  let _ ← coverageMembers s (← need entry.2 "coverage_ref") semantics
  let _ ← refIds s (← need entry.2 "required_input_refs") "test-input" semanticsId
    (keys known.inputs) "obligation-inputs-invalid" false

/-- `_validate_cg`: the semantics of a Check Generation result. -/
def validateCg (s : JoinServices) (cg : Members) : Checked Members := do
  let semantics ← embeddedSemantics s cg
  let binding ← checkedBinding s.toServices cg semantics
  let known ← cgIndexes cg semantics
  checkIdentities s.toServices binding known
  let semanticsId ← need semantics "semantics_id"
  known.members.forM (checkMember s.toServices semanticsId known)
  known.artifacts.forM (checkArtifact s cg semanticsId known)
  let represented ← known.inputs.mapM (checkInput s.toServices semanticsId known)
  let unsupported ← (← iterate (← need semantics "unsupported_dimensions")).mapM
    (checkUnsupported s.toServices semanticsId known)
  raiseIf [!partitions represented.flatten (unsupported.flatMap (·.1)) (keys known.members)]
    "source-member-partition-incomplete"
    "represented and unsupported source members are not a complete disjoint partition".toList
  raiseIf [!partitions (keys known.inputs) (unsupported.flatMap (·.2)) (keys known.outerInputs)]
    "cg-input-partition-incomplete"
    "represented and unsupported CG inputs are not a complete disjoint partition".toList
  raiseIf [known.obligations.any fun entry => !isTrue (field entry.2 "required")]
    "optional-obligation" "all shared-contract obligations must be required".toList
  known.obligations.forM (checkObligation s.toServices semantics semanticsId known)
  return semantics

/-- Two lists partition a third when they are disjoint and make it up. -/
theorem partitions_iff {left right whole : List Str} :
    partitions left right whole = true ↔
      (∀ t ∈ left, t ∉ right) ∧ ∀ t, t ∈ whole ↔ t ∈ left ∨ t ∈ right := by
  rw [partitions, Bool.and_eq_true, sameSet_iff]
  constructor
  · rintro ⟨hdisjoint, hwhole⟩
    refine ⟨fun t hleft hright => ?_, fun t => ?_⟩
    · have hany : left.any right.contains = true :=
        List.any_eq_true.mpr ⟨t, hleft, List.contains_iff_mem.mpr hright⟩
      rw [hany] at hdisjoint
      cases hdisjoint
    · rw [← hwhole, List.mem_append]
  · rintro ⟨hdisjoint, hwhole⟩
    refine ⟨?_, fun t => ?_⟩
    · rw [Bool.not_eq_true', List.any_eq_false]
      intro t hleft
      rw [List.contains_iff_mem]
      exact hdisjoint t hleft
    · rw [hwhole, List.mem_append]

/-- A typed reference to an identity is among some references. -/
def RefersTo (s : Services) (kind : String) (scope refs : JsonValue) (identity : Str) : Prop :=
  ∃ ref ∈ arrayItems refs, TypedRef s kind scope ref identity

theorem TypedRef.unique {s : Services} {kind : String} {scope ref : JsonValue} {a b : Str}
    (ha : TypedRef s kind scope ref a) (hb : TypedRef s kind scope ref b) : a = b := by
  obtain ⟨members, rfl, hid, -⟩ := ha.id
  obtain ⟨members', hsame, hid', -⟩ := hb.id
  cases hsame
  exact JsonValue.text.inj (hid.symm.trans hid')

/-- What `_ref_ids` answers is what is referred to. -/
theorem mem_refIds_iff {s : Services} {refs : JsonValue} {kind : String} {scope : JsonValue}
    {known : List Str} {code : String} {allowEmpty : Bool} {identities : List Str}
    (h : refIds s refs kind scope known code allowEmpty = .ok identities) (identity : Str) :
    identity ∈ identities ↔ RefersTo s kind scope refs identity := by
  obtain ⟨items, rfl, -, -, -, hforall⟩ := refIds_eq_ok h
  constructor
  · intro hmem
    obtain ⟨ref, hmem, href⟩ := exists_left_of_forall₂ hforall hmem
    exact ⟨ref, hmem, href⟩
  · rintro ⟨ref, hmem, href⟩
    obtain ⟨other, hother, htyped⟩ := exists_right_of_forall₂ hforall hmem
    rwa [href.unique htyped]

/-- A source member is represented by a test input. -/
def Represented (s : Services) (semantics : Members) (member : Str) : Prop :=
  ∃ input, .object input ∈ arrayItems (field semantics "test_inputs") ∧
    RefersTo s "source-member" (field semantics "semantics_id")
      (field input "source_member_refs") member

/-- A source member is declared unsupported. -/
def DeclaredUnsupported (s : Services) (semantics : Members) (member : Str) : Prop :=
  ∃ dimension, .object dimension ∈ arrayItems (field semantics "unsupported_dimensions") ∧
    RefersTo s "source-member" (field semantics "semantics_id")
      (field dimension "source_member_refs") member

/-- A test input of the result is declared unsupported. -/
def InputUnsupported (s : Services) (semantics : Members) (input : Str) : Prop :=
  ∃ dimension, .object dimension ∈ arrayItems (field semantics "unsupported_dimensions") ∧
    RefersTo s "test-input" (field semantics "semantics_id")
      (fieldOr dimension "source_input_refs" (.array [])) input

/-- Two properties split a list of identities. -/
def Splits (left right : Str → Prop) (whole : List Str) : Prop :=
  (∀ id, ¬ (left id ∧ right id)) ∧ ∀ id, id ∈ whole ↔ left id ∨ right id

/-- What accepted semantics say of a Check Generation result. -/
structure AcceptedSemantics (s : JoinServices) (cg semantics : Members) : Prop where
  embedded : field cg "attack_match_semantics" = .object semantics
  digest : ∃ own, digestWithout s.toServices semantics ["semantics_digest"] = .ok own ∧
    field semantics "semantics_digest" = .text own
  /-- The members, artifacts and inputs are those of the result. -/
  members : ∃ source, field semantics "source_binding" = .object source ∧
    (∀ id, id ∈ identities (field source "members") "member_id" ↔
      id ∈ identities (field cg "member_results") "member_id") ∧
    (∀ id, id ∈ identities (field source "artifacts") "artifact_id" ↔
      id ∈ identities (field cg "artifacts") "artifact_id") ∧
    Splits (Represented s.toServices semantics) (DeclaredUnsupported s.toServices semantics)
      (identities (field source "members") "member_id")
  inputs : Splits (· ∈ identities (field semantics "test_inputs") "input_id")
    (InputUnsupported s.toServices semantics) (identities (field cg "test_inputs") "input_id")
  /-- Every obligation is required and refers to what the semantics list. -/
  obligations : ∀ obligation, .object obligation ∈ arrayItems (field semantics "obligations") →
    field obligation "required" = .bool true ∧
    (∃ found,
      coverageMembers s.toServices (field obligation "coverage_ref") semantics = .ok found) ∧
    (∃ input, RefersTo s.toServices "test-input" (field semantics "semantics_id")
      (field obligation "required_input_refs") input) ∧
    ∀ input, RefersTo s.toServices "test-input" (field semantics "semantics_id")
      (field obligation "required_input_refs") input →
        input ∈ identities (field semantics "test_inputs") "input_id"

variable {s : JoinServices} {cg semantics binding : Members} {known : CgIndexes}

theorem embeddedSemantics_eq_ok (h : embeddedSemantics s cg = .ok semantics) :
    field cg "attack_match_semantics" = .object semantics ∧
      ∃ own, digestWithout s.toServices semantics ["semantics_digest"] = .ok own ∧
        field semantics "semantics_digest" = .text own := by
  simp only [embeddedSemantics, bind_eq_ok] at h
  obtain ⟨-, -, -, -, h⟩ := h
  split at h
  · rename_i found hfound
    simp only [bind_eq_ok, raiseIf_eq_ok, pure_eq_ok, List.forall_mem_cons] at h
    obtain ⟨-, -, own, hown, -, ⟨hdigest, -⟩, rfl⟩ := h
    exact ⟨hfound, own, hown, by simpa [hasText, asText_eq_some] using hdigest⟩
  · exact absurd h refuse_ne_ok.mp

/-- Tables with one set of keys index the same identities. -/
theorem sameSet_keys {items items' : JsonValue} {key key' : String} {table table' : Table Members}
    (htable : Indexed items key table) (htable' : Indexed items' key' table')
    (h : sameSet (keys table) (keys table') = true) (id : Str) :
    id ∈ identities items key ↔ id ∈ identities items' key' := by
  rw [identities_of_indexed htable, identities_of_indexed htable']
  exact sameSet_iff.mp h id

/-- A loop of checks goes through when every check does. -/
theorem forM_eq_ok {α : Type} {f : α → Checked Unit} {items : List α} {u : Unit} :
    items.forM f = .ok u ↔ ∀ item ∈ items, f item = .ok () := by
  induction items with
  | nil => simp [pure, Except.pure]
  | cons item rest ih =>
      have hcons : (item :: rest).forM f = (f item >>= fun _ => rest.forM f) := rfl
      rw [hcons, bind_eq_ok, List.forall_mem_cons]
      constructor
      · rintro ⟨⟨⟩, hitem, hrest⟩
        exact ⟨hitem, ih.mp hrest⟩
      · rintro ⟨hitem, hrest⟩
        exact ⟨(), hitem, ih.mpr hrest⟩

/-- A loop that visits dictionaries visits the items of an array. -/
theorem listed_of_mapM {α : Type} {items : JsonValue} {listed : List JsonValue}
    {f : JsonValue → Checked α} {found : List α} (hlisted : iterate items = .ok listed)
    (hfound : listed.mapM f = .ok found)
    (hobject : ∀ item a, f item = .ok a → ∃ members, item = .object members) :
    listed = arrayItems items := by
  apply iterate_eq_arrayItems hlisted
  intro item hitem
  obtain ⟨a, -, ha⟩ := exists_right_of_forall₂ (mapM_eq_ok.mp hfound) hitem
  exact hobject item a ha

/-- The collections behind the indexes. -/
structure CgIndexed (cg semantics source : Members) (known : CgIndexes) : Prop where
  binding : field semantics "source_binding" = .object source
  members : Indexed (field source "members") "member_id" known.members
  outerMembers : Indexed (field cg "member_results") "member_id" known.outerMembers
  artifacts : Indexed (field source "artifacts") "artifact_id" known.artifacts
  outerArtifacts : Indexed (field cg "artifacts") "artifact_id" known.outerArtifacts
  inputs : Indexed (field semantics "test_inputs") "input_id" known.inputs
  outerInputs : Indexed (field cg "test_inputs") "input_id" known.outerInputs
  obligations : Indexed (field semantics "obligations") "obligation_id" known.obligations

/-- A table made from a member indexes that member. -/
theorem index_need {members : Members} {key identity code : String} {items : JsonValue}
    {table : Table Members} (hitems : need members key = .ok items)
    (htable : index items identity code = .ok table) :
    Indexed (field members key) identity table := by
  rw [(need_eq_ok.mp hitems).2]
  exact index_eq_ok htable

theorem cgIndexes_eq_ok (h : cgIndexes cg semantics = .ok known) :
    ∃ source, CgIndexed cg semantics source known := by
  simp only [cgIndexes, bind_eq_ok, pure_eq_ok] at h
  obtain ⟨source, hsource, _, hm, members, hmembers, _, hom, outerMembers, houterMembers, _, ha,
    artifacts, hartifacts, _, hoa, outerArtifacts, houterArtifacts, _, hi, inputs, hinputs, _, hoi,
    outerInputs, houterInputs, _, ho, obligations, hobligations, _, -, membership, -, rfl⟩ := h
  exact ⟨source, {
    binding := needDictionary_eq_ok hsource
    members := index_need hm hmembers
    outerMembers := index_need hom houterMembers
    artifacts := index_need ha hartifacts
    outerArtifacts := index_need hoa houterArtifacts
    inputs := index_need hi hinputs
    outerInputs := index_need hoi houterInputs
    obligations := index_need ho hobligations }⟩

/-- An item of an indexed collection is an entry of the index. -/
theorem Indexed.entry_of_mem {items : JsonValue} {key : String} {table : Table Members}
    (h : Indexed items key table) {item : Members} (hitem : .object item ∈ arrayItems items) :
    ∃ entry ∈ table, entry.2 = item := by
  rw [h.items] at hitem
  obtain ⟨entry, hentry, hsame⟩ := List.mem_map.mp hitem
  exact ⟨entry, hentry, JsonValue.object.inj hsame⟩

theorem Indexed.mem_of_entry {items : JsonValue} {key : String} {table : Table Members}
    (h : Indexed items key table) {entry : Str × Members} (hentry : entry ∈ table) :
    .object entry.2 ∈ arrayItems items := by
  rw [h.items]
  exact List.mem_map.mpr ⟨entry, hentry, rfl⟩

/-- The loop over the test inputs gathers the source members they represent. -/
theorem mem_represented_iff (hinputs : Indexed (field semantics "test_inputs") "input_id"
      known.inputs) {represented : List (List Str)}
    (h : known.inputs.mapM (checkInput s.toServices (field semantics "semantics_id") known) =
      .ok represented) (member : Str) :
    member ∈ represented.flatten ↔ Represented s.toServices semantics member := by
  have hforall := mapM_eq_ok.mp h
  have hrefs : ∀ entry ids, checkInput s.toServices (field semantics "semantics_id") known entry =
      .ok ids → (member ∈ ids ↔ RefersTo s.toServices "source-member"
        (field semantics "semantics_id") (field entry.2 "source_member_refs") member) := by
    intro entry ids hentry
    simp only [checkInput, bind_eq_ok, pure_eq_ok] at hentry
    obtain ⟨refs, hneed, ids', hids, -, -, -, -, -, -, -, -, rfl⟩ := hentry
    rw [← (need_eq_ok.mp hneed).2] at hids
    exact mem_refIds_iff hids member
  rw [List.mem_flatten]
  constructor
  · rintro ⟨ids, hids, hmember⟩
    obtain ⟨entry, hentry, hcheck⟩ := exists_left_of_forall₂ hforall hids
    exact ⟨entry.2, hinputs.mem_of_entry hentry, (hrefs entry ids hcheck).mp hmember⟩
  · rintro ⟨input, hinput, hrefers⟩
    obtain ⟨entry, hentry, rfl⟩ := hinputs.entry_of_mem hinput
    obtain ⟨ids, hids, hcheck⟩ := exists_right_of_forall₂ hforall hentry
    exact ⟨ids, hids, (hrefs entry ids hcheck).mpr hrefers⟩

/-- The loop over the unsupported dimensions gathers what they list. -/
theorem mem_unsupported_iff {listed : List JsonValue} {unsupported : List (List Str × List Str)}
    (hlisted : iterate (field semantics "unsupported_dimensions") = .ok listed)
    (h : listed.mapM (checkUnsupported s.toServices (field semantics "semantics_id") known) =
      .ok unsupported) (id : Str) :
    (id ∈ unsupported.flatMap (·.1) ↔ DeclaredUnsupported s.toServices semantics id) ∧
      (id ∈ unsupported.flatMap (·.2) ↔ InputUnsupported s.toServices semantics id) := by
  have hcheck : ∀ item found, checkUnsupported s.toServices (field semantics "semantics_id") known
      item = .ok found → ∃ dimension, item = .object dimension ∧
        (id ∈ found.1 ↔ RefersTo s.toServices "source-member" (field semantics "semantics_id")
          (field dimension "source_member_refs") id) ∧
        (id ∈ found.2 ↔ RefersTo s.toServices "test-input" (field semantics "semantics_id")
          (fieldOr dimension "source_input_refs" (.array [])) id) := by
    intro item found hitem
    simp only [checkUnsupported, bind_eq_ok, pure_eq_ok] at hitem
    obtain ⟨dimension, hdimension, refs, hneed, members, hmembers, inputs, hinputs, rfl⟩ := hitem
    rw [← (need_eq_ok.mp hneed).2] at hmembers
    exact ⟨dimension, dictionary_eq_ok.mp hdimension, mem_refIds_iff hmembers id,
      mem_refIds_iff hinputs id⟩
  have hall := listed_of_mapM hlisted h fun item found hitem => by
    obtain ⟨dimension, hdimension, -⟩ := hcheck item found hitem
    exact ⟨dimension, hdimension⟩
  have hforall := mapM_eq_ok.mp h
  rw [hall] at hforall
  constructor
  · rw [List.mem_flatMap]
    constructor
    · rintro ⟨found, hfound, hmem⟩
      obtain ⟨item, hitem, hok⟩ := exists_left_of_forall₂ hforall hfound
      obtain ⟨dimension, rfl, hmembers, -⟩ := hcheck item found hok
      exact ⟨dimension, hitem, hmembers.mp hmem⟩
    · rintro ⟨dimension, hitem, hrefers⟩
      obtain ⟨found, hfound, hok⟩ := exists_right_of_forall₂ hforall hitem
      obtain ⟨dimension', hsame, hmembers, -⟩ := hcheck _ found hok
      cases hsame
      exact ⟨found, hfound, hmembers.mpr hrefers⟩
  · rw [List.mem_flatMap]
    constructor
    · rintro ⟨found, hfound, hmem⟩
      obtain ⟨item, hitem, hok⟩ := exists_left_of_forall₂ hforall hfound
      obtain ⟨dimension, rfl, -, hinputs⟩ := hcheck item found hok
      exact ⟨dimension, hitem, hinputs.mp hmem⟩
    · rintro ⟨dimension, hitem, hrefers⟩
      obtain ⟨found, hfound, hok⟩ := exists_right_of_forall₂ hforall hitem
      obtain ⟨dimension', hsame, -, hinputs⟩ := hcheck _ found hok
      cases hsame
      exact ⟨found, hfound, hinputs.mpr hrefers⟩

/-- A partition of lists is a partition of what they list. -/
theorem splits_of_partitions {left right whole : List Str} {p q : Str → Prop}
    (h : partitions left right whole = true) (hleft : ∀ id, id ∈ left ↔ p id)
    (hright : ∀ id, id ∈ right ↔ q id) : Splits p q whole := by
  obtain ⟨hdisjoint, hwhole⟩ := partitions_iff.mp h
  constructor
  · rintro id ⟨hp, hq⟩
    exact hdisjoint id ((hleft id).mpr hp) ((hright id).mpr hq)
  · intro id
    rw [hwhole id, hleft id, hright id]

/-- **Accepted semantics** are those of the result around them: the same members
and artifacts, a complete disjoint partition of the members and of the inputs, and
obligations that refer to what is listed. -/
theorem acceptedSemantics_of_validateCg (h : validateCg s cg = .ok semantics) :
    AcceptedSemantics s cg semantics := by
  simp only [validateCg, bind_eq_ok, raiseIf_eq_ok, pure_eq_ok, forM_eq_ok,
    List.forall_mem_cons] at h
  obtain ⟨_, hembedded, binding, -, known, hknown, ⟨⟩, hidentities, semanticsId, hid, -, -, -, -,
    represented, hrepresented, dimensions, hdimensions, listed, hlisted, unsupported, hunsupported,
    -, ⟨hmembers, -⟩, -, ⟨hinputs, -⟩, -, ⟨hrequired, -⟩, -, hobligations, hsame⟩ := h
  obtain rfl := hsame.symm
  obtain ⟨source, hindexed⟩ := cgIndexes_eq_ok hknown
  obtain ⟨hfield, hdigest⟩ := embeddedSemantics_eq_ok hembedded
  obtain rfl : field semantics "semantics_id" = semanticsId := (need_eq_ok.mp hid).2
  obtain rfl : field semantics "unsupported_dimensions" = dimensions :=
    (need_eq_ok.mp hdimensions).2
  simp only [checkIdentities, bind_eq_ok, raiseIf_eq_ok, List.forall_mem_cons, Option.some.injEq,
    Bool.not_eq_false'] at hidentities
  obtain ⟨-, ⟨hsameMembers, -, hsameArtifacts, -⟩, -⟩ := hidentities
  have hrepresents := mem_represented_iff hindexed.inputs hrepresented
  have hunsupports := mem_unsupported_iff hlisted hunsupported
  have hmemberKeys := identities_of_indexed hindexed.members
  have hinputKeys := identities_of_indexed hindexed.inputs
  have houterKeys := identities_of_indexed hindexed.outerInputs
  refine {
    embedded := hfield
    digest := hdigest
    members := ⟨source, hindexed.binding, sameSet_keys hindexed.members hindexed.outerMembers
      hsameMembers, sameSet_keys hindexed.artifacts hindexed.outerArtifacts hsameArtifacts, ?_⟩
    inputs := ?_
    obligations := ?_ }
  · rw [hmemberKeys]
    exact splits_of_partitions (by simpa using hmembers) hrepresents fun id => (hunsupports id).1
  · rw [houterKeys]
    refine splits_of_partitions (by simpa using hinputs) (fun id => ?_)
      fun id => (hunsupports id).2
    rw [hinputKeys]
  · intro obligation hobligation
    obtain ⟨entry, hentry, rfl⟩ := hindexed.obligations.entry_of_mem hobligation
    have hchecked := hobligations entry hentry
    simp only [checkObligation, bind_eq_ok, pure_eq_ok] at hchecked
    obtain ⟨ref, href, members, hcovered, refs, hrefs, inputs, hinputRefs, -⟩ := hchecked
    obtain rfl : field entry.2 "coverage_ref" = ref := (need_eq_ok.mp href).2
    obtain rfl : field entry.2 "required_input_refs" = refs := (need_eq_ok.mp hrefs).2
    have hmem := mem_refIds_iff hinputRefs
    obtain ⟨-, -, hnonempty, -, hknownInputs, -⟩ := refIds_eq_ok hinputRefs
    refine ⟨?_, ⟨members, hcovered⟩, ?_, fun input hinput => ?_⟩
    · have htrue : isTrue (field entry.2 "required") = true := by
        have hnone := List.any_eq_false.mp (Option.some.inj hrequired) entry hentry
        simpa using hnone
      cases hvalue : field entry.2 "required" with
      | bool b =>
          rw [hvalue] at htrue
          rw [show b = true from htrue]
      | _ =>
          rw [hvalue] at htrue
          cases htrue
    · obtain ⟨input, hinput⟩ := List.exists_mem_of_ne_nil inputs (hnonempty rfl)
      exact ⟨input, (hmem input).mp hinput⟩
    · rw [hinputKeys]
      exact hknownInputs input ((hmem input).mpr hinput)

end SharedContracts
