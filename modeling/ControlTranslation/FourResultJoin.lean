import ControlTranslation.AcceptedCampaigns

/-!
# The join of four results

The results of Check Generation, Defense Generation, Mitigation Check and Bypass
Validation are verified together before a plan is built from them.  What the join
attests of the obligations is what the four results say of each of them.
-/

namespace SharedContracts

open PyText JsonValue Alternatives

/-- The digest of the packaged legacy mitigation profile. -/
def legacyMcProfileDigest : String :=
  "sha256:e28f9574b07194222a317dfc4f03293beafb6e3613b87452a4191652fd6b6b1a"

/-- The digest of the packaged current mitigation profile. -/
def mcProfileDigest : String :=
  "sha256:01f6033b5b09db48056adc8a0d47083f4020cf18d71913c69e283f644ec41a94"

/-- Who has to have resolved the templates of the two checks. -/
structure JoinProfiles where
  mitigation : Resolver
  bypass : Resolver

/-- `_expected_profiles`. -/
def expectedProfiles (ctProfile : Str) : Checked JoinProfiles :=
  if ctProfile = legacyProfileId.toList then
    .ok {
      mitigation := ⟨mcResolverId, legacyProfileId.toList, legacyMcProfileDigest.toList⟩
      bypass := ⟨bvResolverId, bypass2, legacyBvMetadata.profileDigest.toList⟩ }
  else if ctProfile = ctProfileId.toList then
    .ok {
      mitigation := ⟨mcResolverId, ctProfileId.toList, mcProfileDigest.toList⟩
      bypass := ⟨bvResolverId, bypass3, bvMetadata.profileDigest.toList⟩ }
  else refuse "ct-profile-invalid" "unapproved Control Translation profile".toList

/-- The Defense Generation result produced a candidate from the Check Generation result. -/
def checkDgIdentity (s : JoinServices) (dg : Members) (locators : Capability → Locator) :
    Checked Unit := do
  raiseIf [!isText (field dg "capability") "defense-generation",
      !isText (field dg "contract_id") "defense-generation-result@1.0",
      !isText (field dg "terminal_state") "candidate-produced",
      !isText (field dg "status") "completed"] "dg-identity-invalid"
    "DG identity or state differs".toList
  let refs ← iterate (fieldOr dg "upstream_result_refs" (.array []))
  let bindings := refs.filter fun ref =>
    ref.asObject.any fun members => isText (field members "capability") "check-generation"
  let bound := match bindings with
    | [binding] => sameLocatorDocument s binding (locators .checkGeneration)
    | _ => false
  raiseIf [!bound] "dg-cg-lineage-mismatch" "DG does not bind exact CG locator".toList

/-- The vulnerability that a document is about, where it says so. -/
def vulnerabilityOf (document : Members) : Option Str :=
  (field document "subject").asObject.bind fun subject =>
    (field subject "vulnerability_id").asNonemptyText

/-- The one vulnerability of some documents. -/
def vulnerability (documents : List Members) : Checked Str :=
  match unique (documents.filterMap vulnerabilityOf) with
  | [] => .ok "unknown".toList
  | [id] => .ok id
  | _ => refuse "vulnerability-lineage-mismatch" "upstream vulnerability lineage differs".toList

/-- What the join attests of some obligations; the contract does not admit a count of
none. -/
def attest (count : Nat) : Checked PreTranslationVerification :=
  if count = 0 then .error .crash
  else .ok {
    allRequiredObligationsHaveDgMapping := true
    allRequiredObligationsHaveMcDisposition := true
    allRequiredObligationsHaveRequiredBvDisposition := true
    candidateAttestationVerified := true
    sourceMemberPartitionComplete := true
    lineageVerified := true
    requiredObligationCount := count
    dgMappingCount := count
    mcDispositionCount := count
    bvCampaignCount := count
    unaccountedRequiredObligationCount := 0 }

/-- The four documents of a join. -/
structure JoinDocuments where
  cg : Members
  dg : Members
  mc : Members
  bv : Members

/-- The documents of the four records.  The source visits a set, whose order decides
only which refusal is raised first. -/
def joinDocuments (s : JoinServices) (records : Capability → UpstreamRecord)
    (locators : Capability → Locator) : Checked JoinDocuments := do
  let verified := fun capability =>
    verifyLocator s (records capability) (locators capability) capability
  let cg ← verified .checkGeneration
  let dg ← verified .defenseGeneration
  let mc ← verified .mitigationCheck
  let bv ← verified .bypassValidation
  return ⟨cg, dg, mc, bv⟩

/-- `verify_four_result_join`. -/
def verifyFourResultJoin (s : JoinServices) (records : Capability → UpstreamRecord)
    (locators : Capability → Locator) (ctProfile : Str) : Checked VerifiedSharedContractV2 := do
  let documents ← joinDocuments s records locators
  raiseIf [(unique (Capability.all.map fun c => (locators c).correlationId)).length != 1]
    "correlation-lineage-mismatch" "upstream correlation lineage differs".toList
  let semantics ← validateCg s documents.cg
  checkDgIdentity s documents.dg locators
  match field documents.dg "candidate_bundle" with
  | .object bundle => do
      let (attestation, contents) ← validateBundle s bundle semantics documents.cg
        (records .checkGeneration).payloadRawResult documents.dg
        (records .defenseGeneration).artifactRawResults
      let subject ← vulnerability [documents.cg, documents.dg, documents.mc, documents.bv]
      let profiles ← expectedProfiles ctProfile
      validateMc s documents.mc semantics bundle locators profiles.mitigation
      let accounting ← validateBv s documents.bv semantics bundle attestation locators
        profiles.bypass
      let obligations ← iterate (← need semantics "obligations")
      let verification ← attest obligations.length
      return {
        semantics := semantics
        bundle := bundle
        artifactContents := contents
        verification := verification
        accounting := accounting
        vulnerabilityId := subject
        profileId := ctProfile }
  | _ => refuse "candidate-bundle-absent" "DG candidate_bundle is absent".toList

/-- An obligation of the semantics is discharged by all of the results. -/
structure Discharged (s : JoinServices) (documents : JoinDocuments) (profileId : Str)
    (semantics bundle candidate : Members) (obligation : Members) : Prop where
  required : field obligation "required" = .bool true
  /-- The candidate maps it to what it covers. -/
  mapping : ∃ mapping, .object mapping ∈ arrayItems (field candidate "obligation_mappings") ∧
    field mapping "obligation_id" = field obligation "obligation_id" ∧
    MapsObligation s.toServices semantics bundle candidate mapping obligation
  /-- All of its inputs were blocked. -/
  mitigation : ∃ result, .object result ∈ arrayItems (field documents.mc "obligation_results") ∧
    field result "obligation_id" = field obligation "obligation_id" ∧
    BlocksInputs s.toServices result obligation
  /-- No bypass was found, by a campaign against the same mapping. -/
  bypass : ∃ campaign, .object campaign ∈ arrayItems (field documents.bv "campaign_results") ∧
    field campaign "obligation_id" = field obligation "obligation_id" ∧
    AcceptedCampaign s profileId semantics bundle campaign obligation

/-- What a verified join says of the results it was made from. -/
structure VerifiedJoin (s : JoinServices) (documents : JoinDocuments)
    (verified : VerifiedSharedContractV2) (profiles : JoinProfiles) : Prop where
  semantics : AcceptedSemantics s documents.cg verified.semantics
  bundle : ∃ candidate,
    field documents.dg "candidate_bundle" = .object verified.bundle ∧
    AcceptedBundle s.toServices verified.bundle verified.semantics documents.dg candidate
      verified.artifactContents ∧
    ∀ obligation, .object obligation ∈ arrayItems (field verified.semantics "obligations") →
      Discharged s documents profiles.bypass.profileId verified.semantics verified.bundle
        candidate obligation
  mitigation : AcceptedMitigation s.toServices documents.mc verified.semantics
  bypass : AcceptedBypass s profiles.bypass.profileId documents.bv verified.semantics
    verified.bundle verified.accounting
  /-- The counts that are attested are those of the results. -/
  counts : ∃ candidate, field verified.bundle "primary_candidate" = .object candidate ∧
    attest (arrayItems (field verified.semantics "obligations")).length =
      .ok verified.verification ∧
    (arrayItems (field candidate "obligation_mappings")).length =
      (arrayItems (field verified.semantics "obligations")).length ∧
    (arrayItems (field documents.mc "obligation_results")).length =
      (arrayItems (field verified.semantics "obligations")).length ∧
    (arrayItems (field documents.bv "campaign_results")).length =
      (arrayItems (field verified.semantics "obligations")).length

variable {s : JoinServices}

/-- What the join was made of. -/
structure JoinParts (s : JoinServices) (records : Capability → UpstreamRecord)
    (locators : Capability → Locator) (verified : VerifiedSharedContractV2)
    (documents : JoinDocuments) (profiles : JoinProfiles) : Prop where
  read : joinDocuments s records locators = .ok documents
  expected : expectedProfiles verified.profileId = .ok profiles
  semantics : validateCg s documents.cg = .ok verified.semantics
  candidate : field documents.dg "candidate_bundle" = .object verified.bundle
  bundle : ∃ attestation, validateBundle s verified.bundle verified.semantics documents.cg
      (records .checkGeneration).payloadRawResult documents.dg
      (records .defenseGeneration).artifactRawResults =
        .ok (attestation, verified.artifactContents) ∧
    validateBv s documents.bv verified.semantics verified.bundle attestation locators
      profiles.bypass = .ok verified.accounting
  mitigation : validateMc s documents.mc verified.semantics verified.bundle locators
    profiles.mitigation = .ok ()
  correlation : (unique (Capability.all.map fun c => (locators c).correlationId)).length = 1
  lineage : checkDgIdentity s documents.dg locators = .ok ()
  subject : vulnerability [documents.cg, documents.dg, documents.mc, documents.bv] =
    .ok verified.vulnerabilityId
  verification : attest (arrayItems (field verified.semantics "obligations")).length =
    .ok verified.verification

/-- A mitigation check that was accepted went through the obligations. -/
theorem indexed_of_validateMc {mc semantics bundle : Members} {locators : Capability → Locator}
    {resolver : Resolver} (h : validateMc s mc semantics bundle locators resolver = .ok ()) :
    ∃ obligations, Indexed (field semantics "obligations") "obligation_id" obligations := by
  simp only [validateMc, bind_eq_ok] at h
  obtain ⟨-, -, -, -, items, hitems, obligations, hobligations, -⟩ := h
  exact ⟨obligations, index_need hitems hobligations⟩

/-- A verified join passed the checks of all its parts. -/
theorem verifyFourResultJoin_eq_ok {records : Capability → UpstreamRecord}
    {locators : Capability → Locator} {ctProfile : Str} {verified : VerifiedSharedContractV2}
    (h : verifyFourResultJoin s records locators ctProfile = .ok verified) :
    verified.profileId = ctProfile ∧ ∃ documents profiles,
      JoinParts s records locators verified documents profiles := by
  simp only [verifyFourResultJoin, bind_eq_ok] at h
  obtain ⟨documents, hdocuments, _, hcorrelation, semantics, hsemantics, ⟨⟩, hdg, h⟩ := h
  split at h
  · rename_i bundle hbundle
    simp only [bind_eq_ok, pure_eq_ok] at h
    obtain ⟨⟨attestation, contents⟩, hcontents, subject, hsubject, profiles, hprofiles, ⟨⟩, hmc,
      accounting, hbv, items, hitems, listed, hlisted, verification, hverification, rfl⟩ := h
    refine ⟨rfl, documents, profiles, {
      read := hdocuments
      expected := hprofiles
      semantics := hsemantics
      candidate := hbundle
      bundle := ⟨attestation, hcontents, hbv⟩
      mitigation := hmc
      correlation := by simpa using raiseIf_eq_ok.mp hcorrelation _ List.mem_cons_self
      lineage := hdg
      subject := hsubject
      verification := ?_ }⟩
    obtain rfl : field semantics "obligations" = items := (need_eq_ok.mp hitems).2
    obtain ⟨obligations, hobligations⟩ := indexed_of_validateMc hmc
    rw [hobligations.items] at hlisted ⊢
    rwa [← Except.ok.inj hlisted] at hverification
  · exact absurd h refuse_ne_ok.mp

/-- Its parts discharge every obligation. -/
theorem JoinParts.verifiedJoin {records : Capability → UpstreamRecord}
    {locators : Capability → Locator} {verified : VerifiedSharedContractV2}
    {documents : JoinDocuments} {profiles : JoinProfiles}
    (hparts : JoinParts s records locators verified documents profiles) :
    VerifiedJoin s documents verified profiles := by
  obtain ⟨attestation, hbundle, hbv⟩ := hparts.bundle
  obtain ⟨candidate, haccepted, -⟩ := acceptedBundle_of_validateBundle hbundle
  have hsemantics := acceptedSemantics_of_validateCg hparts.semantics
  have hmitigation := acceptedMitigation_of_validateMc hparts.mitigation
  have hbypass := acceptedBypass_of_validateBv hbv
  refine {
    semantics := hsemantics
    bundle := ⟨candidate, hparts.candidate, haccepted, fun obligation hobligation => ?_⟩
    mitigation := hmitigation
    bypass := hbypass
    counts := ⟨candidate, haccepted.primary, hparts.verification, haccepted.mapped.length,
      hmitigation.reported.length, hbypass.reported.length⟩ }
  obtain ⟨mapping, hmapping, hmappingId⟩ := haccepted.mapped.found obligation hobligation
  obtain ⟨result, hresult, hresultId⟩ := hmitigation.reported.found obligation hobligation
  obtain ⟨campaign, hcampaign, hcampaignId⟩ := hbypass.reported.found obligation hobligation
  exact {
    required := (hsemantics.obligations obligation hobligation).1
    mapping := ⟨mapping, hmapping, hmappingId,
      haccepted.mappings mapping obligation hmapping hobligation hmappingId⟩
    mitigation := ⟨result, hresult, hresultId,
      hmitigation.blocked result obligation hresult hobligation hresultId⟩
    bypass := ⟨campaign, hcampaign, hcampaignId,
      hbypass.campaigns campaign obligation hcampaign hobligation hcampaignId⟩ }

/-- **A verified join discharges every obligation.**  Each has its mapping, its blocked
inputs and its campaign without a bypass; and what the join attests is the count of each. -/
theorem verified_join_discharges {records : Capability → UpstreamRecord}
    {locators : Capability → Locator} {ctProfile : Str} {verified : VerifiedSharedContractV2}
    (h : verifyFourResultJoin s records locators ctProfile = .ok verified) :
    ∃ documents profiles, joinDocuments s records locators = .ok documents ∧
      expectedProfiles ctProfile = .ok profiles ∧ VerifiedJoin s documents verified profiles := by
  obtain ⟨rfl, documents, profiles, hparts⟩ := verifyFourResultJoin_eq_ok h
  exact ⟨documents, profiles, hparts.read, hparts.expected, hparts.verifiedJoin⟩

end SharedContracts
