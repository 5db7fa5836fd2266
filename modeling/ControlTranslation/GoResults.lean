import ControlTranslation.GoContracts
import ControlTranslation.GoJson

/-!
# Results of the Go service

What an invocation returns and the two texts that are made of it: the structured result
as the encoder writes it, which the completion of a run describes, and the canonical
bytes of the whole envelope, which the row in the results table describes.
-/

namespace GoContracts

open PyText JsonValue

/-- Why an invocation ended as it did. -/
structure OutcomeReason where
  code : Str
  detail : Str

/-- How the candidate implements the discriminator of the pattern. -/
structure ImplementsDiscriminator where
  sourceDiscriminatorId : Str
  translation : Str
  justification : Str
  evidenceRefs : Option (List Str)

/-- Where in a policy the candidate belongs. -/
structure Placement where
  policySection : Option Str
  orderingConstraints : Option (List Str)
  conflictNotes : Option (List Str)

/-- What is expected of the candidate on legitimate traffic. -/
structure CollateralImpactPrior where
  verdict : Str
  confidence : Str
  basis : Str
  measured : Bool

/-- The candidate itself, by reference and hash. -/
structure CandidateArtifact where
  artifactType : Str
  contentRef : Str
  contentHash : Str
  emittedAs : Str

/-- The syntax the candidate is written in and how far it was validated. -/
structure CandidateSyntaxProfile where
  id : Str
  family : Str
  validationLevel : Str
  deploymentReady : Bool

/-- The action recommended to whoever deploys the candidate. -/
structure RecommendedPolicyBinding where
  action : Str
  attachment : Str
  embeddedInArtifact : Bool
  requiresOperatorReview : Bool

/-- The metadata of a candidate. -/
structure CandidateMetadata where
  syntaxProfile : CandidateSyntaxProfile
  recommendedPolicyBinding : RecommendedPolicyBinding

/-- The candidate a result puts first. -/
structure PrimaryCandidate where
  candidateId : Str
  targetControlClass : Str
  targetTechnology : Str
  targetPolicyContextId : Str
  candidateArtifact : CandidateArtifact
  implementsDiscriminator : ImplementsDiscriminator
  placement : Placement
  inheritedCollateralImpactPrior : CollateralImpactPrior
  translationAssumptions : Option (List Str)
  limitations : Option (List Str)
  provenance : Option (List Str)
  candidateMetadata : Option CandidateMetadata

/-- A claim and the references that bear it. -/
structure EvidenceBinding where
  claim : Str
  evidenceRefs : List Str

/-- What the result is about. -/
structure Subject where
  vulnerabilityId : Str
  provenPatternId : Str
  selectedControlClass : Str

/-- What the result was made from. -/
structure InputBindings where
  targetTechnology : Str
  targetPolicyContextId : Str
  configuredPoCDefaultsUsed : Bool
  currentPolicySnapshotId : Option Str
  translationPolicyId : Str
  proofRecordIds : List Str

/-- How far the proof loop got with the pattern. -/
structure ProofLoopQualification where
  route : Str
  bypassCleared : Bool
  loopExhausted : Bool
  completedIterations : Int
  maxIterations : Int
  bypassValidationTerminalState : Str
  bypassValidationResultRef : DatabricksResultReference

/-- A known sample that gets past the pattern. -/
structure BypassCounterexample where
  counterexampleId : Str
  sampleRef : Str
  variantFamily : Str
  observedBehavior : Str
  evidenceRefs : Option (List Str)

/-- `ControlTranslationResult`; an instant is the text it is rendered as. -/
structure ControlTranslationResult where
  contractId : Str
  resultId : Str
  producedAt : Str
  subject : Subject
  inputBindings : InputBindings
  terminalState : Str
  outcomeReason : OutcomeReason
  proofLoopQualification : Option ProofLoopQualification
  bypassCounterexample : Option BypassCounterexample
  primaryCandidate : Option PrimaryCandidate
  evidenceBindings : List EvidenceBinding
  proseSummary : Str

/-- Where a result can be fetched. -/
structure ResultReference where
  system : Str
  kind : Str
  resultId : Str
  href : Str

/-- `ResultEnvelope`; an ordered object is its members. -/
structure ResultEnvelope where
  capability : Str
  contractId : Str
  runId : Str
  resultId : Str
  status : Str
  terminalState : Str
  requestId : Option Str
  correlationId : Str
  resultRef : ResultReference
  upstreamResultRefs : Option UpstreamResultReferences
  structuredResult : ControlTranslationResult
  prose : Str
  referenceBundle : Members
  provenance : List Str
  confidence : Members
  warnings : List Str
  trace : List Str
  inference : Members

/-- The reason as JSON. -/
def OutcomeReason.encode (o : OutcomeReason) : JsonValue :=
  .object [field "code" (.text o.code), field "detail" (.text o.detail)]

/-- The implementation note as JSON. -/
def ImplementsDiscriminator.encode (i : ImplementsDiscriminator) : JsonValue :=
  .object
    [field "source_discriminator_id" (.text i.sourceDiscriminatorId),
     field "translation" (.text i.translation), field "justification" (.text i.justification),
     field "evidence_refs" (pointer texts i.evidenceRefs)]

/-- The placement as JSON. -/
def Placement.encode (p : Placement) : JsonValue :=
  .object
    [field "policy_section" (pointer .text p.policySection),
     field "ordering_constraints" (pointer texts p.orderingConstraints),
     field "conflict_notes" (pointer texts p.conflictNotes)]

/-- The prior as JSON. -/
def CollateralImpactPrior.encode (c : CollateralImpactPrior) : JsonValue :=
  .object
    [field "verdict" (.text c.verdict), field "confidence" (.text c.confidence),
     field "basis" (.text c.basis), field "measured" (.bool c.measured)]

/-- The artifact as JSON. -/
def CandidateArtifact.encode (c : CandidateArtifact) : JsonValue :=
  .object
    [field "artifact_type" (.text c.artifactType), field "content_ref" (.text c.contentRef),
     field "content_hash" (.text c.contentHash), field "emitted_as" (.text c.emittedAs)]

/-- The syntax profile as JSON. -/
def CandidateSyntaxProfile.encode (c : CandidateSyntaxProfile) : JsonValue :=
  .object
    [field "id" (.text c.id), field "family" (.text c.family),
     field "validation_level" (.text c.validationLevel),
     field "deployment_ready" (.bool c.deploymentReady)]

/-- The recommended binding as JSON. -/
def RecommendedPolicyBinding.encode (r : RecommendedPolicyBinding) : JsonValue :=
  .object
    [field "action" (.text r.action), field "attachment" (.text r.attachment),
     field "embedded_in_artifact" (.bool r.embeddedInArtifact),
     field "requires_operator_review" (.bool r.requiresOperatorReview)]

/-- The metadata as JSON. -/
def CandidateMetadata.encode (c : CandidateMetadata) : JsonValue :=
  .object
    [field "syntax_profile" c.syntaxProfile.encode,
     field "recommended_policy_binding" c.recommendedPolicyBinding.encode]

/-- The candidate as JSON. -/
def PrimaryCandidate.encode (p : PrimaryCandidate) : JsonValue :=
  .object
    [field "candidate_id" (.text p.candidateId),
     field "target_control_class" (.text p.targetControlClass),
     field "target_technology" (.text p.targetTechnology),
     field "target_policy_context_id" (.text p.targetPolicyContextId),
     field "candidate_artifact" p.candidateArtifact.encode,
     field "implements_discriminator" p.implementsDiscriminator.encode,
     field "placement" p.placement.encode,
     field "inherited_collateral_impact_prior" p.inheritedCollateralImpactPrior.encode,
     field "translation_assumptions" (pointer texts p.translationAssumptions),
     field "limitations" (pointer texts p.limitations),
     field "provenance" (pointer texts p.provenance),
     field "candidate_metadata" (pointer CandidateMetadata.encode p.candidateMetadata)]

/-- The evidence binding as JSON. -/
def EvidenceBinding.encode (e : EvidenceBinding) : JsonValue :=
  .object [field "claim" (.text e.claim), field "evidence_refs" (texts e.evidenceRefs)]

/-- The subject as JSON. -/
def Subject.encode (s : Subject) : JsonValue :=
  .object
    [field "vulnerability_id" (.text s.vulnerabilityId),
     field "proven_pattern_id" (.text s.provenPatternId),
     field "selected_control_class" (.text s.selectedControlClass)]

/-- The bindings as JSON. -/
def InputBindings.encode (i : InputBindings) : JsonValue :=
  .object
    [field "target_technology" (.text i.targetTechnology),
     field "target_policy_context_id" (.text i.targetPolicyContextId),
     field "configured_poc_defaults_used" (.bool i.configuredPoCDefaultsUsed),
     field "current_policy_snapshot_id" (pointer .text i.currentPolicySnapshotId),
     field "translation_policy_id" (.text i.translationPolicyId),
     field "proof_record_ids" (texts i.proofRecordIds)]

/-- The qualification as JSON. -/
def ProofLoopQualification.encode (q : ProofLoopQualification) : JsonValue :=
  .object
    [field "route" (.text q.route), field "bypass_cleared" (.bool q.bypassCleared),
     field "loop_exhausted" (.bool q.loopExhausted),
     field "completed_iterations" (.number (intText q.completedIterations)),
     field "max_iterations" (.number (intText q.maxIterations)),
     field "bypass_validation_terminal_state" (.text q.bypassValidationTerminalState),
     field "bypass_validation_result_ref" q.bypassValidationResultRef.encode]

/-- The counterexample as JSON. -/
def BypassCounterexample.encode (b : BypassCounterexample) : JsonValue :=
  .object
    [field "counterexample_id" (.text b.counterexampleId),
     field "sample_ref" (.text b.sampleRef), field "variant_family" (.text b.variantFamily),
     field "observed_behavior" (.text b.observedBehavior),
     field "evidence_refs" (pointer texts b.evidenceRefs)]

/-- The whole result as JSON, its fields in the order of the struct. -/
def ControlTranslationResult.encode (r : ControlTranslationResult) : JsonValue :=
  .object
    [field "contract_id" (.text r.contractId), field "result_id" (.text r.resultId),
     field "produced_at" (.text r.producedAt), field "subject" r.subject.encode,
     field "input_bindings" r.inputBindings.encode,
     field "terminal_state" (.text r.terminalState),
     field "outcome_reason" r.outcomeReason.encode,
     field "proof_loop_qualification"
       (pointer ProofLoopQualification.encode r.proofLoopQualification),
     field "bypass_counterexample" (pointer BypassCounterexample.encode r.bypassCounterexample),
     field "primary_candidate" (pointer PrimaryCandidate.encode r.primaryCandidate),
     field "evidence_bindings" (.array (r.evidenceBindings.map EvidenceBinding.encode)),
     field "prose_summary" (.text r.proseSummary)]

/-- The reference as JSON; its kind is written under `type`. -/
def ResultReference.encode (r : ResultReference) : JsonValue :=
  .object
    [field "system" (.text r.system), field "type" (.text r.kind),
     field "result_id" (.text r.resultId), field "href" (.text r.href)]

/-- The members of an encoded envelope. -/
def ResultEnvelope.members (e : ResultEnvelope) : Members :=
  [field "capability" (.text e.capability), field "contract_id" (.text e.contractId),
   field "run_id" (.text e.runId), field "result_id" (.text e.resultId),
   field "status" (.text e.status), field "terminal_state" (.text e.terminalState),
   field "request_id" (pointer .text e.requestId),
   field "correlation_id" (.text e.correlationId), field "result_ref" e.resultRef.encode,
   field "upstream_result_refs" (pointer UpstreamResultReferences.encode e.upstreamResultRefs),
   field "structured_result" e.structuredResult.encode, field "prose" (.text e.prose),
   field "reference_bundle" (.object e.referenceBundle),
   field "provenance" (texts e.provenance), field "confidence" (.object e.confidence),
   field "warnings" (texts e.warnings), field "trace" (texts e.trace),
   field "inference" (.object e.inference)]

/-- `json.Marshal(result.StructuredResult)`. -/
def structuredBytes (e : ResultEnvelope) : Str := marshal e.structuredResult.encode

section

variable (float : Str → Str)

mutual

/-- A value decoded without a type and encoded again: numbers are floats, and the keys
of a map are sorted. -/
def document : JsonValue → JsonValue
  | .number literal => .number (float literal)
  | .array items => .array (documentItems items)
  | .object members => .object (GoJson.sortMembers (documentMembers members))
  | value => value

/-- `document` over the items of an array. -/
def documentItems : List JsonValue → List JsonValue
  | [] => []
  | item :: rest => document item :: documentItems rest

/-- `document` over the members of an object. -/
def documentMembers : List (Str × JsonValue) → List (Str × JsonValue)
  | [] => []
  | (name, value) :: rest => (name, document value) :: documentMembers rest

end

/-- `canonicalResultBytes`. -/
def canonicalResultBytes (e : ResultEnvelope) : Str :=
  print GoText.encodeChar (document float (.object (e.members.filter fun m =>
    !(m.1 == "content_sha256".toList || m.1 == "size_bytes".toList))))

end

end GoContracts
