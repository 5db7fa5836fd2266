import ControlTranslation.FourResultJoin

/-!
# What binds the four results

Each result is the one its locator identifies, in the bytes that were authenticated;
each names the results it was made from by their whole locators; the bundle names the
bytes of the semantics it was made for and the campaigns name the bundle they were run
against.  With what each result says of the obligations, this is everything the join
attests: it is all there, or nothing is returned.
-/

namespace SharedContracts

open PyText JsonValue Alternatives

/-- A record is the one its locator identifies, and its payload is what was read of it. -/
structure Located (s : JoinServices) (record : UpstreamRecord) (locator : Locator)
    (capability : Capability) (payload : Members) : Prop where
  result : record.resultId = locator.resultId
  state : record.terminalState = locator.terminalState
  correlation : record.correlationId = some locator.correlationId
  key : field locator.resultRef "key" = .text locator.resultId
  /-- The authenticated bytes have the digest and the length that the locator names. -/
  bytes : ∃ raw, record.authenticatedContent = some raw ∧
    digestBytes s.toServices raw = locator.contentSha256 ∧ raw.length = locator.sizeBytes
  payload : ∃ document,
    recordDocument s record (capability.name ++ " result").toList = .ok document ∧
      payloadOf s document locator capability = .ok payload

/-- The bundle binds the semantics, and the exact bytes of the result that carries them. -/
structure BindsSemantics (s : JoinServices) (bundle semantics cg : Members)
    (cgRaw : Option Bytes) : Prop where
  binding : ∃ binding locator raw, field bundle "semantics_binding" = .object binding ∧
    (∀ key ∈ ["contract_id", "semantics_id", "semantics_revision", "semantics_digest"],
      equal s.toServices (field binding key) (field semantics key) = true) ∧
    field binding "locator" = .object locator ∧
    exactBytes s.toServices (.object cg) (cgRaw.filter fun raw => !raw.isEmpty) = .ok raw ∧
    (∃ decoded, strictJsonBytes s.toServices raw "bound CG result".toList = .ok decoded ∧
      equal s.toServices (boundCg decoded) (.object cg) = true) ∧
    field locator "digest" = .text (digestBytes s.toServices raw) ∧
    equal s.toServices (field locator "byte_length") (natNumber raw.length) = true

/-- The Defense Generation result, and the Check Generation result it was made from. -/
structure DefenseLineage (s : JoinServices) (dg : Members) (locators : Capability → Locator) :
    Prop where
  capability : field dg "capability" = .text "defense-generation".toList
  contract : field dg "contract_id" = .text "defense-generation-result@1.0".toList
  state : field dg "terminal_state" = .text "candidate-produced".toList
  status : field dg "status" = .text "completed".toList
  /-- It refers to one such result, by its whole locator. -/
  source : ∃ refs binding, iterate (fieldOr dg "upstream_result_refs" (.array [])) = .ok refs ∧
    (refs.filter fun ref => ref.asObject.any fun members =>
      isText (field members "capability") "check-generation") = [binding] ∧
    sameLocatorDocument s binding (locators .checkGeneration) = true

/-- The Mitigation Check result, and the two results it was made from. -/
structure MitigationLineage (s : JoinServices) (mc : Members) (locators : Capability → Locator)
    (profileId : Str) : Prop where
  capability : field mc "capability" = .text "mitigation-check".toList
  contract : field mc "contract_id" = .text "mitigation-check@1.0".toList
  state : field mc "terminal_state" = .text "blocked".toList
  profile : field mc "profile_id" = .text profileId
  provenance : ∃ provenance, field mc "input_provenance" = .object provenance ∧
    sameLocatorDocument s (field provenance "check_result") (locators .checkGeneration) = true ∧
    sameLocatorDocument s (field provenance "defense_result") (locators .defenseGeneration) = true

/-- The Bypass Validation result, the three results it was made from and the candidate it was
run against. -/
structure BypassLineage (s : JoinServices) (bv bundle : Members) (locators : Capability → Locator)
    (profileId : Str) : Prop where
  contract : field bv "contract_id" = .text "bypass-validation@2.0".toList
  state : field bv "terminal_state" = .text "no-bypass-found".toList
  profile : field bv "profile_id" = .text profileId
  provenance : ∃ bindings check defense mitigation,
    field bv "input_bindings" = .object bindings ∧
    field bindings "shared_contract_locators" = .array [check, defense, mitigation] ∧
    sameLocatorDocument s check (locators .checkGeneration) = true ∧
    sameLocatorDocument s defense (locators .defenseGeneration) = true ∧
    sameLocatorDocument s mitigation (locators .mitigationCheck) = true
  attestation : ∃ candidate attestation, field bundle "primary_candidate" = .object candidate ∧
    attestationOf bundle candidate = .ok attestation ∧
    equal s.toServices (field bv "candidate_attestation") (.object attestation) = true

/-- What a join that is returned says of the records it was made from. -/
structure GatedJoin (s : JoinServices) (records : Capability → UpstreamRecord)
    (locators : Capability → Locator) (documents : JoinDocuments)
    (verified : VerifiedSharedContractV2) (profiles : JoinProfiles) : Prop
    extends VerifiedJoin s documents verified profiles where
  located : Located s (records .checkGeneration) (locators .checkGeneration) .checkGeneration
      documents.cg ∧
    Located s (records .defenseGeneration) (locators .defenseGeneration) .defenseGeneration
      documents.dg ∧
    Located s (records .mitigationCheck) (locators .mitigationCheck) .mitigationCheck
      documents.mc ∧
    Located s (records .bypassValidation) (locators .bypassValidation) .bypassValidation
      documents.bv
  /-- The four results are of one correlation. -/
  correlation : ∀ c c', (locators c).correlationId = (locators c').correlationId
  /-- The schema catalog has nothing against the semantics or the bundle. -/
  schemas : s.schemaError amsSchemaId (.object verified.semantics) = none ∧
    s.schemaError bundleSchemaId (.object verified.bundle) = none
  source : field documents.cg "contract_id" = .text "check-generation@2.1".toList
  bound : BindsSemantics s verified.bundle verified.semantics documents.cg
    (records .checkGeneration).payloadRawResult
  defense : DefenseLineage s documents.dg locators
  checks : MitigationLineage s documents.mc locators profiles.mitigation.profileId
  campaigns : BypassLineage s documents.bv verified.bundle locators profiles.bypass.profileId
  /-- Every result that says which vulnerability it is about is about this one. -/
  vulnerability : ∀ document ∈ [documents.cg, documents.dg, documents.mc, documents.bv], ∀ id,
    vulnerabilityOf document = some id → id = verified.vulnerabilityId

variable {s : JoinServices}

/-- A verified record is the one its locator identifies. -/
theorem located_of_verifyLocator {record : UpstreamRecord} {locator : Locator}
    {capability : Capability} {payload : Members}
    (h : verifyLocator s record locator capability = .ok payload) :
    Located s record locator capability payload := by
  simp only [verifyLocator, bind_eq_ok, raiseIf_eq_ok, pure_eq_ok] at h
  obtain ⟨document, hdocument, _, hidentity, found, hpayload, _, hbytes, rfl⟩ := h
  simp only [List.forall_mem_cons, Option.some.injEq, bne_eq_false_iff_eq, Bool.not_eq_false',
    hasText, beq_iff_eq, asText_eq_some] at hidentity hbytes
  obtain ⟨hresult, hstate, hcorrelation, hkey, -⟩ := hidentity
  refine ⟨hresult, hstate, hcorrelation, hkey, ?_, document, hdocument, hpayload⟩
  have hauthentic := hbytes.1
  unfold unauthenticated at hauthentic
  cases hraw : record.authenticatedContent with
  | none =>
      rw [hraw] at hauthentic
      cases hauthentic
  | some raw =>
      simp only [hraw, Bool.or_eq_false_iff, bne_eq_false_iff_eq] at hauthentic
      exact ⟨raw, rfl, hauthentic.1.2, hauthentic.2⟩

/-- Every joined document is the one its locator names. -/
theorem located_of_joinDocuments {records : Capability → UpstreamRecord}
    {locators : Capability → Locator} {documents : JoinDocuments}
    (h : joinDocuments s records locators = .ok documents) :
    Located s (records .checkGeneration) (locators .checkGeneration) .checkGeneration
        documents.cg ∧
      Located s (records .defenseGeneration) (locators .defenseGeneration) .defenseGeneration
        documents.dg ∧
      Located s (records .mitigationCheck) (locators .mitigationCheck) .mitigationCheck
        documents.mc ∧
      Located s (records .bypassValidation) (locators .bypassValidation) .bypassValidation
        documents.bv := by
  simp only [joinDocuments, bind_eq_ok, pure_eq_ok] at h
  obtain ⟨cg, hcg, dg, hdg, mc, hmc, bv, hbv, rfl⟩ := h
  exact ⟨located_of_verifyLocator hcg, located_of_verifyLocator hdg,
    located_of_verifyLocator hmc, located_of_verifyLocator hbv⟩

theorem validateSchema_eq_ok {schema : String} {document : JsonValue}
    (h : validateSchema s schema document = .ok ()) : s.schemaError schema document = none := by
  unfold validateSchema at h
  cases hreason : s.schemaError schema document with
  | none => rfl
  | some reason =>
      rw [hreason] at h
      exact absurd h refuse_ne_ok.mp

theorem schema_of_embeddedSemantics {cg semantics : Members}
    (h : embeddedSemantics s cg = .ok semantics) :
    field cg "contract_id" = .text "check-generation@2.1".toList ∧
      s.schemaError amsSchemaId (.object semantics) = none := by
  simp only [embeddedSemantics, bind_eq_ok, raiseIf_eq_ok, List.forall_mem_cons,
    Option.some.injEq, Bool.not_eq_false'] at h
  obtain ⟨_, ⟨hcontract, -⟩, _, -, h⟩ := h
  refine ⟨isText_iff.mp hcontract, ?_⟩
  split at h
  · simp only [bind_eq_ok, pure_eq_ok] at h
    obtain ⟨⟨⟩, hschema, own, -, _, -, rfl⟩ := h
    exact validateSchema_eq_ok hschema
  · exact absurd h refuse_ne_ok.mp

/-- Semantics accepted from a check result are those embedded in it. -/
theorem embedded_of_validateCg {cg semantics : Members} (h : validateCg s cg = .ok semantics) :
    embeddedSemantics s cg = .ok semantics := by
  simp only [validateCg, bind_eq_ok, pure_eq_ok] at h
  obtain ⟨found, hfound, _, -, _, -, _, -, _, -, _, -, _, -, _, -, _, -, _, -, _, -, _, -, _, -, _,
    -, _, -, rfl⟩ := h
  exact hfound

theorem schema_of_checkedCandidate {bundle candidate : Members}
    (h : checkedCandidate s bundle = .ok candidate) :
    s.schemaError bundleSchemaId (.object bundle) = none := by
  simp only [checkedCandidate, bind_eq_ok] at h
  obtain ⟨⟨⟩, hschema, -⟩ := h
  exact validateSchema_eq_ok hschema

/-- A checked bundle binds the very bytes of the check result. -/
theorem bindsSemantics_of_check {bundle semantics cg : Members} {cgRaw : Option Bytes}
    (h : checkSemanticsBinding s bundle semantics cg cgRaw = .ok ()) :
    BindsSemantics s bundle semantics cg cgRaw := by
  simp only [checkSemanticsBinding, bind_eq_ok] at h
  obtain ⟨binding, hbinding, _, hsame, locator, hlocator, raw, hraw, decoded, hdecoded, _, hcg,
    hbytes⟩ := h
  have hkeys : ∀ key ∈ ["contract_id", "semantics_id", "semantics_revision", "semantics_digest"],
      equal s.toServices (field binding key) (field semantics key) = true := by
    intro key hkey
    simpa using raiseIf_eq_ok.mp hsame _ (List.mem_map_of_mem hkey)
  simp only [raiseIf_eq_ok, List.forall_mem_cons, Option.some.injEq, Bool.not_eq_false']
    at hcg hbytes
  obtain ⟨hdigest, hlength, -⟩ := hbytes
  exact ⟨binding, locator, raw, needDictionary_eq_ok hbinding, hkeys,
    needDictionary_eq_ok hlocator, hraw, ⟨decoded, hdecoded, hcg.1⟩,
    by simpa [hasText, asText_eq_some] using hdigest, hlength⟩

/-- What the identity check of a defense result gives. -/
theorem defenseLineage_of_check {dg : Members} {locators : Capability → Locator}
    (h : checkDgIdentity s dg locators = .ok ()) : DefenseLineage s dg locators := by
  simp only [checkDgIdentity, bind_eq_ok, raiseIf_eq_ok, List.forall_mem_cons,
    Option.some.injEq, Bool.not_eq_false'] at h
  obtain ⟨_, ⟨hcapability, hcontract, hstate, hstatus, -⟩, refs, hrefs, hbound, -⟩ := h
  refine ⟨isText_iff.mp hcapability, isText_iff.mp hcontract, isText_iff.mp hstate,
    isText_iff.mp hstatus, refs, ?_⟩
  split at hbound
  · rename_i binding hfound
    exact ⟨binding, hrefs, hfound, hbound⟩
  · cases hbound

/-- What the identity check of a mitigation result gives. -/
theorem mitigationLineage_of_check {mc : Members} {locators : Capability → Locator}
    {profileId : Str} (h : checkMcIdentity s mc locators profileId = .ok ()) :
    MitigationLineage s mc locators profileId := by
  simp only [checkMcIdentity, bind_eq_ok, raiseIf_eq_ok, List.forall_mem_cons,
    Option.some.injEq, Bool.not_eq_false'] at h
  obtain ⟨_, ⟨hcapability, hcontract, hstate, -, hprofile, -⟩, _, -, h⟩ := h
  refine ⟨isText_iff.mp hcapability, isText_iff.mp hcontract, isText_iff.mp hstate,
    by simpa [hasText, asText_eq_some] using hprofile, ?_⟩
  split at h
  · rename_i provenance hprovenance
    simp only [bind_eq_ok, raiseIf_eq_ok, List.forall_mem_cons, Option.some.injEq,
      Bool.not_eq_false'] at h
    obtain ⟨_, -, _, ⟨hcheck, -⟩, hdefense, -⟩ := h
    exact ⟨provenance, hprovenance, hcheck, hdefense⟩
  · exact absurd h refuse_ne_ok.mp

/-- What the identity check of a bypass result gives. -/
theorem bypassLineage_of_check {bv bundle candidate attestation : Members}
    {locators : Capability → Locator} {profileId : Str}
    (hcandidate : field bundle "primary_candidate" = .object candidate)
    (hattestation : attestationOf bundle candidate = .ok attestation)
    (h : checkBvIdentity s bv attestation locators profileId = .ok ()) :
    BypassLineage s bv bundle locators profileId := by
  simp only [checkBvIdentity, bind_eq_ok, raiseIf_eq_ok, List.forall_mem_cons,
    Option.some.injEq, Bool.not_eq_false'] at h
  obtain ⟨_, ⟨hcontract, hprofile, hstate, -⟩, _, ⟨hsame, -⟩, h⟩ := h
  refine ⟨isText_iff.mp hcontract, isText_iff.mp hstate,
    by simpa [hasText, asText_eq_some] using hprofile, ?_, candidate, attestation, hcandidate,
    hattestation, hsame⟩
  split at h
  · rename_i bindings hbindings
    simp only [raiseIf_eq_ok, List.forall_mem_cons, Option.some.injEq, Bool.not_eq_false'] at h
    have hbound := h.1
    split at hbound
    · rename_i check defense mitigation hlocators
      simp only [Bool.and_eq_true] at hbound
      exact ⟨bindings, check, defense, mitigation, hbindings, hlocators, hbound.1.1,
        hbound.1.2, hbound.2⟩
    · cases hbound
  · exact absurd h refuse_ne_ok.mp

/-- Locators with one correlation id among them agree on it. -/
theorem correlation_of_unique {locators : Capability → Locator}
    (h : (unique (Capability.all.map fun c => (locators c).correlationId)).length = 1) :
    ∀ c c', (locators c).correlationId = (locators c').correlationId := by
  obtain ⟨only, honly⟩ := List.length_eq_one_iff.mp h
  have hmem : ∀ c, (locators c).correlationId = only := by
    intro c
    have hc : (locators c).correlationId ∈
        unique (Capability.all.map fun c => (locators c).correlationId) :=
      (mem_unique _ _).mpr (List.mem_map.mpr ⟨c, by cases c <;> decide, rfl⟩)
    rw [honly] at hc
    exact List.mem_singleton.mp hc
  intro c c'
  rw [hmem c, hmem c']

/-- Documents of one vulnerability say no other. -/
theorem eq_of_vulnerability {documents : List Members} {id : Str}
    (h : vulnerability documents = .ok id) : ∀ document ∈ documents, ∀ other,
      vulnerabilityOf document = some other → other = id := by
  intro document hdocument other hother
  have hmem : other ∈ unique (documents.filterMap vulnerabilityOf) :=
    (mem_unique _ _).mpr (List.mem_filterMap.mpr ⟨document, hdocument, hother⟩)
  unfold vulnerability at h
  split at h
  · rename_i hnone
    rw [hnone] at hmem
    cases hmem
  · rename_i only honly
    rw [honly] at hmem
    rw [List.mem_singleton.mp hmem]
    exact Except.ok.inj h
  · exact absurd h refuse_ne_ok.mp

/-- **The join fails closed.**  Whatever the four records are, the join raises a refusal, or
what it returns is bound to the four of them and discharged by all of them. -/
theorem join_fails_closed (records : Capability → UpstreamRecord)
    (locators : Capability → Locator) (ctProfile : Str) :
    (∃ failure, verifyFourResultJoin s records locators ctProfile = .error failure) ∨
    ∃ verified documents profiles,
      verifyFourResultJoin s records locators ctProfile = .ok verified ∧
      joinDocuments s records locators = .ok documents ∧
      expectedProfiles ctProfile = .ok profiles ∧
      GatedJoin s records locators documents verified profiles := by
  rcases hrun : verifyFourResultJoin s records locators ctProfile with failure | verified
  · exact .inl ⟨failure, rfl⟩
  · obtain ⟨rfl, documents, profiles, hparts⟩ := verifyFourResultJoin_eq_ok hrun
    refine .inr ⟨verified, documents, profiles, rfl, hparts.read, hparts.expected, ?_⟩
    obtain ⟨attestation, hbundle, hbv⟩ := hparts.bundle
    obtain ⟨candidate, haccepted, hattestation⟩ := acceptedBundle_of_validateBundle hbundle
    obtain ⟨hsource, hsemantics⟩ := schema_of_embeddedSemantics
      (embedded_of_validateCg hparts.semantics)
    have hmc := hparts.mitigation
    simp only [validateBundle, bind_eq_ok] at hbundle
    simp only [validateMc, bind_eq_ok] at hmc
    simp only [validateBv, bind_eq_ok] at hbv
    obtain ⟨primary, hprimary, ⟨⟩, hbinding, -⟩ := hbundle
    obtain ⟨⟨⟩, hmcIdentity, -⟩ := hmc
    obtain ⟨⟨⟩, hbvIdentity, -⟩ := hbv
    exact {
      toVerifiedJoin := hparts.verifiedJoin
      located := located_of_joinDocuments hparts.read
      correlation := correlation_of_unique hparts.correlation
      schemas := ⟨hsemantics, schema_of_checkedCandidate hprimary⟩
      source := hsource
      bound := bindsSemantics_of_check hbinding
      defense := defenseLineage_of_check hparts.lineage
      checks := mitigationLineage_of_check hmcIdentity
      campaigns := bypassLineage_of_check haccepted.primary hattestation hbvIdentity
      vulnerability := eq_of_vulnerability hparts.subject }

end SharedContracts
