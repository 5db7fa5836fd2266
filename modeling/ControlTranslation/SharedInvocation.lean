import ControlTranslation.CapabilityRouting
import ControlTranslation.FourResultJoin
import ControlTranslation.PlanPreservation

/-!
# Answering a request of the shared contract

A request of the shared contract names four results.  They are fetched and joined, a
plan is built from the join, and the plan's one proposal goes through the same gates
as any other.  The answer is then rewritten to be the plan's: its content, its label,
its artifacts, directives and mappings.  The finished result is held against its own
contract before it leaves.
-/

namespace CapabilityRouting

open PyText JsonValue SharedContracts
open TranslationEngine (Reply Doer Success)

/-- `SharedContractV2InvokeRequest`: four inputs, one of each capability, in any order. -/
structure SharedRequest where
  profileId : Str
  requestId : Str
  correlationId : Str
  targetContext : Option TargetContext
  inputs : List SharedContracts.Locator
  capabilities : (inputs.map (·.capability)).Perm Capability.all

theorem SharedRequest.isSome_find (request : SharedRequest) (c : Capability) :
    (request.inputs.find? fun input => input.capability = c).isSome = true := by
  have hmem : c ∈ request.inputs.map (·.capability) :=
    request.capabilities.mem_iff.mpr (by cases c <;> decide)
  obtain ⟨input, hinput, hcapability⟩ := List.mem_map.mp hmem
  exact List.find?_isSome.mpr ⟨input, hinput, decide_eq_true hcapability⟩

/-- The input of a capability. -/
def SharedRequest.locators (request : SharedRequest) (c : Capability) : SharedContracts.Locator :=
  (request.inputs.find? fun input => input.capability = c).get (request.isSome_find c)

/-- The four results a request names, in the order they are listed. -/
def SharedRequest.proofIds (request : SharedRequest) : List Str :=
  request.inputs.map (·.resultId)

/-- What a completed result of a capability is under: its contract, its state, and the schema
and the table of its records. -/
def approvedCompletion : Capability → String × String × String × String
  | .checkGeneration => ("check-generation@2.1", "completed", "check_generation",
      "check_generation_results")
  | .defenseGeneration => ("defense-generation-result@1.0", "candidate-produced",
      "defense_generation", "defense_generation_results")
  | .mitigationCheck => ("mitigation-check@1.0", "blocked", "mitigation-check", "mitigation_check")
  | .bypassValidation => ("bypass-validation@2.0", "no-bypass-found", "bypass_validation",
      "bypass_validation_results")

/-- A reference to a record of the approved table, or of the other system. -/
def isApprovedTable (resultRef : Members) (schema table : String) : Bool :=
  !isText (field resultRef "system") "databricks" ||
    (isText (field resultRef "catalog") "36889_janus_dev" &&
      isText (field resultRef "schema") schema && isText (field resultRef "table") table)

/-- `validate_authenticated_locator`: what the contract has against an input. -/
def validateAuthenticatedLocator (input : SharedContracts.Locator) : Option Str :=
  let (contract, state, schema, table) := approvedCompletion input.capability
  let name := input.capability.name.toList
  if input.contractId ≠ contract.toList ∨ input.terminalState ≠ state.toList then
    some ("unsupported ".toList ++ name ++ " v2 completion".toList)
  else if !(name ++ "-result:".toList).isPrefixOf input.resultId then
    some (name ++ " result_id has an invalid identity".toList)
  else if !hasText (field input.resultRef "key") input.resultId then
    some "result_ref.key must equal result_id".toList
  else if !isApprovedTable input.resultRef schema table then
    some (name ++ " result_ref does not identify the approved table".toList)
  else if input.evidenceRefs.any List.isEmpty then
    some "evidence references cannot be empty".toList
  else if ¬ input.evidenceRefs.Nodup then some "evidence references must be unique".toList
  else none

/-- A request, or what its contract has against it: `validate_exact_join`, behind the
contract of every input. -/
def validateExactJoin (profileId requestId correlationId : Str)
    (targetContext : Option TargetContext) (inputs : List SharedContracts.Locator) :
    Except Str SharedRequest :=
  match inputs.findSome? validateAuthenticatedLocator with
  | some message => .error message
  | none =>
      if capabilities : (inputs.map (·.capability)).Perm Capability.all then
        if inputs.any fun input => input.correlationId ≠ correlationId then
          .error "upstream correlation_id does not match command".toList
        else .ok { profileId, requestId, correlationId, targetContext, inputs, capabilities }
      else .error "v2 requires exactly one CG, DG, MC, and BV locator".toList

/-- A completed result of a capability. -/
def completedInput (c : Capability) : SharedContracts.Locator :=
  let (contract, state, schema, table) := approvedCompletion c
  let resultId := (c.name ++ "-result:r").toList
  { capability := c
    contractId := contract.toList
    runId := ['r']
    resultId := resultId
    terminalState := state.toList
    requestId := ['q']
    correlationId := ['c']
    resultRef := [("system".toList, .text "databricks".toList),
      ("catalog".toList, .text "36889_janus_dev".toList), ("schema".toList, .text schema.toList),
      ("table".toList, .text table.toList), ("key".toList, .text resultId)]
    evidenceRefs := []
    contentSha256 := []
    sizeBytes := 1
    createdAt := [] }

/-- The four of them in another order are admitted. -/
example : (validateExactJoin [] [] ['c'] none (Capability.all.reverse.map completedInput)).isOk =
    true := by decide +kernel

/-- How one fetch of a result ends. -/
inductive Fetched
  | found (record : SharedContracts.UpstreamRecord)
  | absent
  /-- `UpstreamResolutionError`. -/
  | unresolved (detail : Str)
  | contract (code : String) (detail : Str)
  | cancelled
  /-- Any other exception. -/
  | raised

/-- Where a request of the shared contract looks at the cancellation signal. -/
inductive JoinPlace
  | start
  | beforeFetch (c : Capability)
  | afterFetch
  | afterJoin

/-- What such a request relies on outside itself. -/
structure SharedProviders extends Providers where
  join : JoinServices
  resolver : Option (Capability → SharedContracts.Locator → Fetched)
  joinSignal : JoinPlace → Bool

/-- One record. -/
def fetchedRecord (c : Capability) : Fetched → Answer SharedContracts.UpstreamRecord
  | .found record => .ok record
  | .absent =>
      .error (.contract "upstream-result-absent" (c.name ++ " result was not found").toList)
  | .unresolved detail => .error (.contract "upstream-resolution-failed" detail)
  | .contract code detail => .error (.contract code detail)
  | .cancelled => .error .cancelled
  | .raised => .error .raised

/-- Fetch the result of one capability, unless the call was cancelled before. -/
def fetchRecord (p : SharedProviders) (fetch : Capability → SharedContracts.Locator → Fetched)
    (request : SharedRequest) (c : Capability) : Answer SharedContracts.UpstreamRecord := do
  checkCancelled (p.joinSignal (.beforeFetch c))
  fetchedRecord c (fetch c (request.locators c))

/-- The records by capability. -/
def recordsOf (cg dg mc bv : SharedContracts.UpstreamRecord) :
    Capability → SharedContracts.UpstreamRecord
  | .checkGeneration => cg
  | .defenseGeneration => dg
  | .mitigationCheck => mc
  | .bypassValidation => bv

/-- A check of the shared contract, as the call it stops. -/
def checkedAnswer {α : Type} : Checked α → Answer α
  | .ok a => .ok a
  | .error (.contract code detail) => .error (.contract code detail)
  | .error .crash => .error .raised

/-- `resolve_and_verify_four_result_join`. -/
def resolveAndVerify (p : SharedProviders)
    (fetch : Capability → SharedContracts.Locator → Fetched) (request : SharedRequest) :
    Answer VerifiedSharedContractV2 := do
  let cg ← fetchRecord p fetch request .checkGeneration
  let dg ← fetchRecord p fetch request .defenseGeneration
  let mc ← fetchRecord p fetch request .mitigationCheck
  let bv ← fetchRecord p fetch request .bypassValidation
  checkCancelled (p.joinSignal .afterFetch)
  checkedAnswer (verifyFourResultJoin p.join (recordsOf cg dg mc bv) request.locators
    request.profileId)

/-- `TargetTranslationArtifact`. -/
structure TargetTranslationArtifact where
  artifactId : Str
  sourceArtifactId : Str
  role : Str
  kind : Str
  order : Nat
  artifactType : Str
  content : Str
  contentHash : Str

/-- A result with the members the shared contract adds. -/
structure SharedResult where
  result : ControlTranslationResult
  sharedContractVersion : Option String
  profileId : Option Str
  preTranslationVerification : Option PreTranslationVerification
  accounting : Option CoverageAccounting
  targetArtifacts : List TargetTranslationArtifact
  translatedDirectives : List TargetTranslationDirective
  translationMappings : List TranslationMapping

/-- `if not check: raise ValueError(message)`. -/
def demand (check : Bool) (message : String) : Answer Unit :=
  if check then .ok () else .error (.invalid message)

theorem demand_eq_ok {check : Bool} {message : String} {u : Unit} :
    demand check message = .ok u ↔ check = true := by
  cases check <;> simp [demand]

/-- Whether a result lists any output. -/
def SharedResult.listsOutput (r : SharedResult) : Bool :=
  !r.targetArtifacts.isEmpty || !r.translatedDirectives.isEmpty || !r.translationMappings.isEmpty

/-- The error of an output that does not hang together. -/
def incompleteOutput : String :=
  "v2 translated output is incomplete or references absent artifacts"

/-- Whether what a translated result lists is complete and refers to what it lists. -/
def completeOutput (r : SharedResult) (count : Nat) (primaryId : Str) : Bool :=
  let children : List Str := r.targetArtifacts.map (·.artifactId)
  let artifactIds := children ++ [primaryId]
  let obligationIds : List Str := r.translationMappings.map (·.obligationId)
  decide children.Nodup && obligationIds.length == count && decide obligationIds.Nodup &&
    r.translationMappings.all (fun mapping => mapping.targetArtifactIds.all artifactIds.contains) &&
    r.translatedDirectives.all fun directive => artifactIds.contains directive.targetArtifactId

/-- The check of a translated result. -/
def validateTranslated (r : SharedResult) (count : Nat) : Answer Unit :=
  match r.result.primaryCandidate with
  | none => .error (.invalid incompleteOutput)
  | some candidate =>
      match sharedWafPrimaryArtifactId candidate.contentHash with
      | .error _ => .error (.invalid "shared WAF primary artifact hash is invalid")
      | .ok primaryId => demand (completeOutput r count primaryId) incompleteOutput

/-- `validate_v2_completeness`. -/
def validateV2Completeness (r : SharedResult) : Answer Unit :=
  match r.sharedContractVersion with
  | none =>
      demand (!(r.profileId.isSome || r.preTranslationVerification.isSome || r.accounting.isSome ||
        r.listsOutput)) "v2 result fields require shared_contract_version"
  | some _ =>
      match r.profileId, r.preTranslationVerification, r.accounting with
      | some _, some verification, some accounting => do
          demand (r.result.contractId == "control-translation@2.0")
            "v2 result requires contract, profile, verification, and accounting"
          let count := verification.requiredObligationCount
          demand (accounting.requiredObligationCount == count &&
              accounting.accountedObligationCount == count &&
              accounting.unaccountedRequiredObligationCount == 0)
            "v2 verification and accounting counts differ"
          if r.result.terminalState = .translated then validateTranslated r count
          else demand (!r.listsOutput) "non-translated v2 result cannot contain partial output"
      | _, _, _ =>
          .error (.invalid "v2 result requires contract, profile, verification, and accounting")

/-- The answer to a request of the shared contract.  The inference says that code made the
proposal, from the four results. -/
structure SharedEnvelope where
  runId : Str
  resultId : Str
  status : ResultStatus
  terminalState : TerminalState
  requestId : Str
  correlationId : Str
  profileId : Str
  upstreamInputs : Capability → SharedContracts.Locator
  structuredResult : SharedResult
  prose : Str
  provenance : List Str
  inference : Inference
  inferenceUpstreamIds : List Str

/-- The source a result of this path names. -/
def deterministicSource : Str := "deterministic-shared-contract-v2".toList

/-- `_mark_shared_v2_deterministic`. -/
def markDeterministic (inference : Inference) : Inference :=
  { inference with
    provider := "deterministic-code".toList
    model := none
    llmInvoked := false
    proposalSource := deterministicSource }

/-- `_bind_shared_v2_context`, which holds the result against its contract. -/
def bindSharedContext (request : SharedRequest) (result : ResultEnvelope)
    (structured : SharedResult) : Answer SharedEnvelope := do
  validateV2Completeness structured
  return {
    runId := result.runId
    resultId := result.resultId
    status := result.status
    terminalState := result.terminalState
    requestId := request.requestId
    correlationId := result.correlationId
    profileId := request.profileId
    upstreamInputs := request.locators
    structuredResult := structured
    prose := result.prose
    provenance := request.proofIds
    inference := markDeterministic result.inference
    inferenceUpstreamIds := request.proofIds }

/-- What every result of the shared contract has. -/
def sharedResult (request : SharedRequest) (verified : VerifiedSharedContractV2)
    (result : ControlTranslationResult) : SharedResult where
  result := { result with contractId := "control-translation@2.0" }
  sharedContractVersion := some "2.0"
  profileId := some request.profileId
  preTranslationVerification := some verified.verification
  accounting := some verified.accounting
  targetArtifacts := []
  translatedDirectives := []
  translationMappings := []

/-- The request behind a join. -/
def joinRequest (target : Target) (pattern : ProofLoop.ProvenPattern) :
    ControlTranslationRequest where
  provenPattern := some pattern
  targetContext := some ⟨some target.technology, some target.policyContextId⟩
  translationPolicy := ⟨"control-translation-policy:mvp1".toList, true, true, true⟩
  currentPolicySnapshotId := none

/-- The pattern of a join, before its plan is known. -/
def joinPattern (trim : Str → Str) (request : SharedRequest)
    (verified : VerifiedSharedContractV2) : Answer ProofLoop.ProvenPattern := do
  let semanticsId ← checkedAnswer (needText verified.semantics "semantics_id")
  let candidate ← checkedAnswer (needDictionary verified.bundle "primary_candidate")
  let intent ← checkedAnswer (needText candidate "intent")
  match ProofLoop.validatePattern trim {
      provenPatternId := semanticsId
      vulnerabilityId := verified.vulnerabilityId
      selectedControlClass := "waf".toList
      discriminatorId := semanticsId
      discriminatorDescription := "verified complete WAF carrier semantics".toList
      patternSummary := intent
      proofRecordIds := request.proofIds
      jsonBodyFieldFeature := none } with
  | .ok pattern => return pattern
  | .error _ => .error .raised

/-- The target of a request of the shared contract. -/
def joinTarget (trim : Str → Str) (settings : Settings) (request : SharedRequest) : Target :=
  effectiveTarget trim settings ⟨none, request.targetContext, ⟨[], true, true, true⟩, none⟩

/-- The call of a join. -/
def joinCall (request : SharedRequest) (target : Target) (pattern : ProofLoop.ProvenPattern) :
    Call where
  request := joinRequest target pattern
  correlationId := some request.correlationId
  qualification := none
  translationRequirements := none
  requestContext := none

/-- The pattern under the descriptions of its plan. -/
def plannedPattern (pattern : ProofLoop.ProvenPattern) (plan : WafTranslationPlan) :
    ProofLoop.ProvenPattern :=
  { pattern with
    discriminatorDescription := plan.discriminatorDescription
    patternSummary := plan.patternSummary }

/-- The proposal of a plan, whose limitations have to be texts. -/
def planProposal (plan : WafTranslationPlan) : Answer TranslationEngine.Proposal :=
  match plan.proposal.limitations.mapM asText with
  | some limitations => .ok {
      candidateContent := .text plan.proposal.candidateContent
      translationLabel := plan.proposal.translationLabel.toList
      justification := plan.proposal.justification.toList
      translationAssumptions := plan.proposal.translationAssumptions
      limitations := limitations }
  | none => .error .raised

/-- `_FixedTranslationDoer`. -/
def fixedDoer (proposal : TranslationEngine.Proposal) : Doer where
  propose := .returned proposal
  deterministicProposalSource := some deterministicSource
  repair := none

/-- The plan's proposal in place of a doer's. -/
def SharedProviders.planned (p : SharedProviders) (proposal : TranslationEngine.Proposal) :
    Providers :=
  { p.toProviders with doer := fun _ => fixedDoer proposal }

/-- The justification of an exact result. -/
def exactJustification : Str :=
  ("Every authenticated route-bound Boolean alternative is emitted as an AND rule; " ++
    "the atomic rule set combines alternatives with OR.").toList

/-- What the result says of itself in prose. -/
def sharedProse : Str :=
  ("Translated the complete verified route-bound WAF grammar into an atomic Akamai " ++
    "custom-rule set.").toList

/-- The candidate rewritten to be the plan's. -/
def planCandidate (s : SharedContracts.Services) (verified : VerifiedSharedContractV2)
    (plan : WafTranslationPlan) (candidate : Success) : Success :=
  let hex := s.sha256 (encodeText plan.primaryCandidateContent)
  { candidate with
    candidateId := "control-candidate:".toList ++ verified.vulnerabilityId ++
      ":akamai-waf:".toList ++ hex.take 16
    artifactType := "akamai-waf-rule-set".toList
    contentRef := plan.primaryCandidateContent
    contentHash := "sha256:".toList ++ hex
    translation := "exact".toList
    justification := exactJustification }

/-- A translated result rewritten to be the plan's. -/
def planResult (s : SharedContracts.Services) (verified : VerifiedSharedContractV2)
    (plan : WafTranslationPlan) (candidate : Success) (r : SharedResult) : SharedResult :=
  { r with
    result := { r.result with
      primaryCandidate := some (planCandidate s verified plan candidate)
      proseSummary := sharedProse }
    targetArtifacts := []
    translatedDirectives := plan.translatedDirectives
    translationMappings := plan.translationMappings }

/-- The finished result behind an answer of the gates. -/
def finishedResult (s : SharedContracts.Services) (request : SharedRequest)
    (verified : VerifiedSharedContractV2) (plan : WafTranslationPlan) (result : ResultEnvelope) :
    Answer SharedResult :=
  let shared := sharedResult request verified result.structuredResult
  if result.terminalState = .translated then
    match result.structuredResult.primaryCandidate with
    | some candidate => .ok (planResult s verified plan candidate shared)
    | none => .error (.contract "cannot-express"
        "translated shared-v2 result has no primary candidate".toList)
  else .ok shared

/-- A plan goes through the gates. -/
def invokePlan (p : SharedProviders) (settings : Settings) (minted : Minted)
    (request : SharedRequest) (verified : VerifiedSharedContractV2) (target : Target)
    (pattern : ProofLoop.ProvenPattern) (plan : WafTranslationPlan) : Answer SharedEnvelope := do
  let proposal ← planProposal plan
  let result ← invoke (p.planned proposal) settings minted
    (joinCall request target (plannedPattern pattern plan))
  let structured ← finishedResult p.join.toServices request verified plan result
  validateV2Completeness structured
  bindSharedContext request result structured

/-- A join that no plan expresses. -/
def inexpressible (p : SharedProviders) (settings : Settings) (minted : Minted)
    (request : SharedRequest) (verified : VerifiedSharedContractV2) (target : Target)
    (pattern : ProofLoop.ProvenPattern) (detail : Str) : Answer SharedEnvelope :=
  let c := joinCall request target pattern
  let result := buildResult c minted pattern (effectiveTarget p.trim settings c.request)
    (gated .cannotExpress .unsupportedFeature detail)
  bindSharedContext request
    (envelope settings minted (some request.correlationId) false deterministicSource result)
    (sharedResult request verified result)

/-- The answer to a verified join. -/
def answerJoin (p : SharedProviders) (settings : Settings) (minted : Minted)
    (request : SharedRequest) (verified : VerifiedSharedContractV2) : Answer SharedEnvelope := do
  let target := joinTarget p.trim settings request
  let pattern ← joinPattern p.trim request verified
  match buildWafTranslationPlan p.join.toServices verified target.technology with
  | .ok plan => invokePlan p settings minted request verified target pattern plan
  | .error (.contract code detail) =>
      if code = cannotExpress then
        inexpressible p settings minted request verified target pattern detail
      else .error (.contract code detail)
  | .error .crash => .error .raised

/-- `invoke_shared_contract_v2`. -/
def invokeSharedContract (p : SharedProviders) (settings : Settings) (minted : Minted)
    (request : SharedRequest) : Answer SharedEnvelope := do
  checkCancelled (p.joinSignal .start)
  match p.resolver with
  | none =>
      .error (.contract "upstream-resolution-failed"
        "v2 upstream results cannot be fetched with the current configuration".toList)
  | some fetch => do
      let verified ← resolveAndVerify p fetch request
      checkCancelled (p.joinSignal .afterJoin)
      answerJoin p settings minted request verified

end CapabilityRouting
