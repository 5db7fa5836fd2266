import ControlTranslation.GoText

/-!
# Contracts of the Go service

The request a caller sends, as the decoder leaves it, with the checks made of it; and
the result an invocation returns, with the JSON it encodes to.  A pointer is an
optional value, and the fields stand in the order the structs declare them, which is
the order the encoder writes them in.

An accepted pattern has two proof records at least, so a slice that is missing and one
that is empty need not be told apart.  The checks that range over a map may meet its
fields in any order; here they meet them as they are written.
-/

namespace GoContracts

open PyText JsonValue

/-- `json.Marshal`. -/
def marshal (value : JsonValue) : Str := print goEscapeChar value

/-- An `int`. -/
def intText : Int → Str
  | .ofNat n => Nat.toDigits 10 n
  | .negSucc n => '-' :: Nat.toDigits 10 (n + 1)

/-- A pointer: `null` where there is none. -/
def pointer {α : Type} (encode : α → JsonValue) : Option α → JsonValue
  | some value => encode value
  | none => .null

/-- A list of texts as JSON. -/
def texts (values : List Str) : JsonValue := .array (values.map .text)

/-- A field under its tag. -/
def field (tag : String) (value : JsonValue) : Str × JsonValue := (tag.toList, value)

/-- The pattern a request asks to have translated. -/
structure ProvenMitigationPattern where
  provenPatternId : Str
  vulnerabilityId : Str
  selectedControlClass : Str
  discriminatorId : Str
  discriminatorDescription : Str
  patternSummary : Str
  proofRecordIds : List Str
  deriving DecidableEq, Repr

/-- The pattern as `json.Marshal` writes it, in the order of the struct. -/
def ProvenMitigationPattern.encode (p : ProvenMitigationPattern) : JsonValue :=
  .object
    [field "proven_pattern_id" (.text p.provenPatternId),
     field "vulnerability_id" (.text p.vulnerabilityId),
     field "selected_control_class" (.text p.selectedControlClass),
     field "discriminator_id" (.text p.discriminatorId),
     field "discriminator_description" (.text p.discriminatorDescription),
     field "pattern_summary" (.text p.patternSummary),
     field "proof_record_ids" (texts p.proofRecordIds)]

/-- The target technology and the policy it belongs to. -/
structure TargetContext where
  targetTechnology : Str
  targetPolicyContextId : Str
  deriving DecidableEq, Repr

/-- The target as JSON. -/
def TargetContext.encode (t : TargetContext) : JsonValue :=
  .object
    [field "target_technology" (.text t.targetTechnology),
     field "target_policy_context_id" (.text t.targetPolicyContextId)]

/-- Which departures from the pattern the caller allows. -/
structure TranslationPolicy where
  translationPolicyId : Str
  allowNarrowerTranslation : Bool
  allowEquivalentTranslation : Bool
  deriving DecidableEq, Repr

/-- The policy as JSON. -/
def TranslationPolicy.encode (t : TranslationPolicy) : JsonValue :=
  .object
    [field "translation_policy_id" (.text t.translationPolicyId),
     field "allow_narrower_translation" (.bool t.allowNarrowerTranslation),
     field "allow_equivalent_translation" (.bool t.allowEquivalentTranslation)]

/-- `DefaultTranslationPolicy`. -/
def defaultTranslationPolicy : TranslationPolicy :=
  ⟨"control-translation-policy:mvp1".toList, true, true⟩

/-- The input of an invocation, its pattern and target both optional. -/
structure ControlTranslationRequest where
  provenPattern : Option ProvenMitigationPattern
  targetContext : Option TargetContext
  translationPolicy : TranslationPolicy
  currentPolicySnapshotId : Str
  deriving DecidableEq, Repr

/-- The input as JSON; an absent pointer is `null`. -/
def ControlTranslationRequest.encode (r : ControlTranslationRequest) : JsonValue :=
  .object
    [field "proven_pattern" (pointer ProvenMitigationPattern.encode r.provenPattern),
     field "target_context" (pointer TargetContext.encode r.targetContext),
     field "translation_policy" r.translationPolicy.encode,
     field "current_policy_snapshot_id" (.text r.currentPolicySnapshotId)]

/-- Where an upstream result is stored. -/
structure DatabricksResultReference where
  system : Str
  catalog : Str
  schemaName : Str
  table : Str
  key : Str
  deriving DecidableEq, Repr

/-- The reference as JSON. -/
def DatabricksResultReference.encode (d : DatabricksResultReference) : JsonValue :=
  .object
    [field "system" (.text d.system), field "catalog" (.text d.catalog),
     field "schema" (.text d.schemaName), field "table" (.text d.table),
     field "key" (.text d.key)]

/-- The three upstream results of a translation. -/
structure UpstreamResultReferences where
  defenseGeneration : DatabricksResultReference
  mitigationCheck : DatabricksResultReference
  bypassValidation : DatabricksResultReference
  deriving DecidableEq, Repr

/-- The three references as JSON. -/
def UpstreamResultReferences.encode (u : UpstreamResultReferences) : JsonValue :=
  .object
    [field "defense_generation" u.defenseGeneration.encode,
     field "mitigation_check" u.mitigationCheck.encode,
     field "bypass_validation" u.bypassValidation.encode]

/-- How the proof loop ended, as far as routing needs it. -/
structure ProofLoopRoutingMetadata where
  loopExhausted : Bool
  completedIterations : Int
  maxIterations : Int
  bypassValidationTerminalState : Str
  bypassValidationResultRef : DatabricksResultReference
  deriving DecidableEq, Repr

/-- The routing metadata as JSON. -/
def ProofLoopRoutingMetadata.encode (m : ProofLoopRoutingMetadata) : JsonValue :=
  .object
    [field "loop_exhausted" (.bool m.loopExhausted),
     field "completed_iterations" (.number (intText m.completedIterations)),
     field "max_iterations" (.number (intText m.maxIterations)),
     field "bypass_validation_terminal_state" (.text m.bypassValidationTerminalState),
     field "bypass_validation_result_ref" m.bypassValidationResultRef.encode]

/-- What the invocation is about. -/
structure InvocationSubject where
  vulnerabilityId : Str
  candidateId : Str
  deriving DecidableEq, Repr

/-- The subject as JSON. -/
def InvocationSubject.encode (s : InvocationSubject) : JsonValue :=
  .object
    [field "vulnerability_id" (.text s.vulnerabilityId),
     field "candidate_id" (.text s.candidateId)]

/-- One upstream completion as orchestration announces it. -/
structure OrchestrationUpstreamInput where
  capability : Str
  contractId : Str
  runId : Str
  resultId : Str
  terminalState : Str
  status : Str
  correlationId : Str
  resultRef : DatabricksResultReference
  evidenceRefs : List Str
  deriving DecidableEq, Repr

/-- The completion as JSON. -/
def OrchestrationUpstreamInput.encode (o : OrchestrationUpstreamInput) : JsonValue :=
  .object
    [field "capability" (.text o.capability), field "contract_id" (.text o.contractId),
     field "run_id" (.text o.runId), field "result_id" (.text o.resultId),
     field "terminal_state" (.text o.terminalState), field "status" (.text o.status),
     field "correlation_id" (.text o.correlationId), field "result_ref" o.resultRef.encode,
     field "evidence_refs" (texts o.evidenceRefs)]

/-- The route orchestration chose and the states it chose it from. -/
structure OrchestrationRoutingContext where
  route : Str
  mitigationCheckTerminalState : Str
  mitigationCheckMatch : Bool
  bypassValidationTerminalState : Str
  loopExhausted : Bool
  completedIterations : Int
  maxIterations : Int
  deriving DecidableEq, Repr

/-- The routing context as JSON. -/
def OrchestrationRoutingContext.encode (r : OrchestrationRoutingContext) : JsonValue :=
  .object
    [field "route" (.text r.route),
     field "mitigation_check_terminal_state" (.text r.mitigationCheckTerminalState),
     field "mitigation_check_match" (.bool r.mitigationCheckMatch),
     field "bypass_validation_terminal_state" (.text r.bypassValidationTerminalState),
     field "loop_exhausted" (.bool r.loopExhausted),
     field "completed_iterations" (.number (intText r.completedIterations)),
     field "max_iterations" (.number (intText r.maxIterations))]

/-- Who asked, and from where. -/
structure Provenance where
  caller : Str
  source : Str
  deriving DecidableEq, Repr

/-- The provenance as JSON. -/
def Provenance.encode (p : Provenance) : JsonValue :=
  .object [field "caller" (.text p.caller), field "source" (.text p.source)]

/-- The whole body of an invocation, in its plain and its orchestrated form. -/
structure InvokeRequestEnvelope where
  contractId : Option Str
  input : ControlTranslationRequest
  subject : Option InvocationSubject
  upstreamInputs : Option (List OrchestrationUpstreamInput)
  routingContext : Option OrchestrationRoutingContext
  upstreamResultRefs : Option UpstreamResultReferences
  routingMetadata : Option ProofLoopRoutingMetadata
  requestId : Option Str
  correlationId : Option Str
  idempotencyKey : Option Str
  subjectRecordRevisionId : Option Str
  provenanceInfo : Option Provenance
  deriving DecidableEq, Repr

/-- The whole body as JSON. -/
def InvokeRequestEnvelope.encode (e : InvokeRequestEnvelope) : JsonValue :=
  .object
    [field "contract_id" (pointer .text e.contractId),
     field "input" e.input.encode,
     field "subject" (pointer InvocationSubject.encode e.subject),
     field "upstream_inputs" (pointer (fun inputs =>
       .array (inputs.map OrchestrationUpstreamInput.encode)) e.upstreamInputs),
     field "routing_context" (pointer OrchestrationRoutingContext.encode e.routingContext),
     field "upstream_result_refs" (pointer UpstreamResultReferences.encode e.upstreamResultRefs),
     field "routing_metadata" (pointer ProofLoopRoutingMetadata.encode e.routingMetadata),
     field "request_id" (pointer .text e.requestId),
     field "correlation_id" (pointer .text e.correlationId),
     field "idempotency_key" (pointer .text e.idempotencyKey),
     field "subject_record_revision_id" (pointer .text e.subjectRecordRevisionId),
     field "provenance" (pointer Provenance.encode e.provenanceInfo)]

/-- A refused field and why. -/
structure ValidationError where
  field : String
  reason : String
  deriving DecidableEq, Repr

/-- A validation, which stops at its first refusal. -/
abbrev Checked (α : Type) := Except ValidationError α

/-- `invalid`. -/
def invalid {α : Type} (field reason : String) : Checked α := throw ⟨field, reason⟩

/-- Refuse unless a condition holds. -/
def demand (condition : Bool) (field reason : String) : Checked Unit :=
  if condition then pure () else invalid field reason

/-- Empty after the spaces at both ends are cut. -/
def blank (s : Str) : Bool := (GoText.trimSpace s).isEmpty

/-- One rune of `strings.EqualFold` against a lower-case ASCII letter: two letters have
a third form. -/
def foldsTo (c letter : Char) : Bool :=
  c == letter || c == letter.toUpper || (c == 'ſ' && letter == 's') ||
    (c == '\u212A' && letter == 'k')

/-- `strings.EqualFold` against a lower-case ASCII word. -/
def equalFold : Str → Str → Bool
  | [], [] => true
  | c :: rest, letter :: letters => foldsTo c letter && equalFold rest letters
  | _, _ => false

/-- Every field of the pattern is given, and the two records of its proof are named. -/
def ProvenMitigationPattern.validate (p : ProvenMitigationPattern) : Checked Unit := do
  let required := fun (name : String) (value : Str) =>
    demand (!blank value) ("proven_pattern." ++ name) "is required"
  required "proven_pattern_id" p.provenPatternId
  required "vulnerability_id" p.vulnerabilityId
  required "selected_control_class" p.selectedControlClass
  required "discriminator_id" p.discriminatorId
  required "discriminator_description" p.discriminatorDescription
  required "pattern_summary" p.patternSummary
  let records := "proven_pattern.proof_record_ids"
  demand (2 ≤ p.proofRecordIds.length) records "requires at least 2 items"
  demand p.proofRecordIds.Nodup records "proof_record_ids must be unique"
  demand (p.proofRecordIds.any ("mitigation-check-result:".toList.isPrefixOf ·)) records
    "a mitigation-check result reference is required"
  demand (p.proofRecordIds.any ("bypass-validation-result:".toList.isPrefixOf ·)) records
    "a bypass-validation result reference is required"

/-- A pattern, when there is one, is a valid one. -/
def ControlTranslationRequest.validate (r : ControlTranslationRequest) : Checked Unit :=
  match r.provenPattern with
  | some pattern => pattern.validate
  | none => pure ()

/-- The reference is to Databricks and names all four parts of its place. -/
def DatabricksResultReference.validate (d : DatabricksResultReference) (name : String) :
    Checked Unit := do
  demand (equalFold (GoText.trimSpace d.system) "databricks".toList) name
    "upstream result references must use Databricks"
  demand (!([d.catalog, d.schemaName, d.table, d.key].any blank)) name
    "Databricks result-reference fields cannot be empty"

/-- All three references are valid. -/
def UpstreamResultReferences.validate (u : UpstreamResultReferences) : Checked Unit := do
  u.defenseGeneration.validate "upstream_result_refs.defense_generation"
  u.mitigationCheck.validate "upstream_result_refs.mitigation_check"
  u.bypassValidation.validate "upstream_result_refs.bypass_validation"

/-- The counts are in range and exhaustion fits the state of bypass validation. -/
def ProofLoopRoutingMetadata.validate (m : ProofLoopRoutingMetadata) : Checked Unit := do
  demand (1 ≤ m.completedIterations) "routing_metadata.completed_iterations" "must be at least 1"
  demand (1 ≤ m.maxIterations) "routing_metadata.max_iterations" "must be at least 1"
  demand (m.completedIterations ≤ m.maxIterations) "routing_metadata"
    "completed_iterations cannot exceed max_iterations"
  if m.bypassValidationTerminalState = "no-bypass-found".toList then
    demand (!m.loopExhausted) "routing_metadata"
      "loop_exhausted must be false when no bypass was found"
  else if m.bypassValidationTerminalState = "bypass-found".toList then do
    demand m.loopExhausted "routing_metadata"
      "bypass-found is accepted only when the candidate loop is exhausted"
    demand (m.maxIterations == 10) "routing_metadata"
      "the PoC exhaustion route requires max_iterations to be 10"
    demand (m.completedIterations == m.maxIterations) "routing_metadata"
      "an exhausted candidate loop must complete max_iterations"
  else do
    invalid "routing_metadata.bypass_validation_terminal_state"
      "must be 'no-bypass-found' or 'bypass-found'"
  m.bypassValidationResultRef.validate "routing_metadata.bypass_validation_result_ref"

/-- `acceptedCompletionContracts`. -/
def acceptedCompletionContracts (capability : Str) : Option (List String) :=
  if capability = "defense-generation".toList then
    some ["defense-generation@1.0", "defense-generation-result@1.0"]
  else if capability = "mitigation-check".toList then some ["mitigation-check@1.0"]
  else if capability = "bypass-validation".toList then
    some ["capability-completion@1.0", "bypass-validation@1.0"]
  else none

/-- `expectedCompletionStates`. -/
def expectedCompletionStates (capability : Str) : List String :=
  if capability = "defense-generation".toList then ["candidate-produced"]
  else if capability = "mitigation-check".toList then ["blocked"]
  else if capability = "bypass-validation".toList then ["no-bypass-found", "bypass-found"]
  else []

/-- The loop over evidence references, past those in `seen`. -/
def checkEvidenceRefs (seen : List Str) : List Str → Checked Unit
  | [] => pure ()
  | ref :: rest => do
      demand (!ref.isEmpty) "upstream_inputs.evidence_refs" "evidence references cannot be empty"
      demand (!seen.contains ref) "upstream_inputs.evidence_refs"
        "evidence references must be unique"
      checkEvidenceRefs (ref :: seen) rest

/-- A completion is completed, under a contract and in a state of its capability, with its
ids and the reference to its own result. -/
def OrchestrationUpstreamInput.validate (o : OrchestrationUpstreamInput) : Checked Unit := do
  match acceptedCompletionContracts o.capability with
  | none => invalid "upstream_inputs.capability" "unsupported capability"
  | some accepted =>
      demand (o.status == "completed".toList) "upstream_inputs.status" "must be 'completed'"
      demand (accepted.contains (String.ofList o.contractId)) "upstream_inputs.contract_id"
        ("unsupported " ++ String.ofList o.capability ++ " completion contract")
      demand ((expectedCompletionStates o.capability).contains (String.ofList o.terminalState))
        "upstream_inputs.terminal_state"
        ("invalid " ++ String.ofList o.capability ++ " terminal state")
      demand (!blank o.runId) "upstream_inputs.run_id" "is required"
      demand (!blank o.resultId) "upstream_inputs.result_id" "is required"
      demand (!blank o.correlationId) "upstream_inputs.correlation_id" "is required"
      o.resultRef.validate "upstream_inputs.result_ref"
      demand (o.resultRef.key == o.resultId) "upstream_inputs.result_ref"
        "result_ref.key must equal result_id"
      checkEvidenceRefs [] o.evidenceRefs

/-- The route is one that the states it was chosen from allow. -/
def OrchestrationRoutingContext.validate (r : OrchestrationRoutingContext) : Checked Unit := do
  demand (r.mitigationCheckTerminalState == "blocked".toList)
    "routing_context.mitigation_check_terminal_state" "must be 'blocked'"
  demand r.mitigationCheckMatch "routing_context.mitigation_check_match" "must be true"
  demand (1 ≤ r.completedIterations && 1 ≤ r.maxIterations) "routing_context"
    "iteration counts must be at least 1"
  if r.route = "validated".toList then
    demand (!r.loopExhausted && r.bypassValidationTerminalState == "no-bypass-found".toList)
      "routing_context" "validated route requires no-bypass-found"
  else if r.route = "loop-exhausted".toList then
    demand (r.loopExhausted && r.bypassValidationTerminalState == "bypass-found".toList &&
        r.completedIterations == r.maxIterations && r.maxIterations == 10)
      "routing_context" "loop-exhausted route requires bypass-found at 10 of 10 iterations"
  else invalid "routing_context.route" "must be 'validated' or 'loop-exhausted'"

/-! ## The referenced form

An orchestration envelope names its rows in `upstream_inputs`; the checks move them to
the references and the routing metadata that an invocation reads.
-/

/-- The completion of a capability; a later one replaces an earlier one. -/
def completionOf (capability : String) (inputs : List OrchestrationUpstreamInput) :
    Option OrchestrationUpstreamInput :=
  inputs.reverse.find? fun item => item.capability == capability.toList

/-- What an orchestration envelope holds once every part is there. -/
structure Orchestration where
  requestId : Str
  correlationId : Str
  subject : InvocationSubject
  upstreamInputs : List OrchestrationUpstreamInput
  routingContext : OrchestrationRoutingContext

/-- The orchestrated form of a body, when all its parts are there. -/
def InvokeRequestEnvelope.orchestration (e : InvokeRequestEnvelope) : Option Orchestration := do
  let _ ← e.contractId
  let requestId ← e.requestId
  let correlationId ← e.correlationId
  let subject ← e.subject
  let upstreamInputs ← e.upstreamInputs
  let routingContext ← e.routingContext
  let _ ← e.provenanceInfo
  some ⟨requestId, correlationId, subject, upstreamInputs, routingContext⟩

/-- `normalizeOrchestration`. -/
def InvokeRequestEnvelope.normalizeOrchestration (e : InvokeRequestEnvelope) :
    Checked InvokeRequestEnvelope :=
  if e.contractId.isNone && e.upstreamInputs.isNone && e.routingContext.isNone then pure e
  else
    match e.orchestration with
    | none => invalid "" ("orchestration requests require contract_id, request_id, " ++
        "correlation_id, subject, upstream_inputs, routing_context, and provenance")
    | some o => do
        demand (!blank o.subject.vulnerabilityId && !blank o.subject.candidateId) "subject"
          "vulnerability_id and candidate_id are required"
        demand (o.upstreamInputs.length == 3) "upstream_inputs"
          "orchestration requests require exactly three upstream inputs"
        o.upstreamInputs.forM (·.validate)
        match completionOf "defense-generation" o.upstreamInputs,
            completionOf "mitigation-check" o.upstreamInputs,
            completionOf "bypass-validation" o.upstreamInputs with
        | some defense, some mitigation, some bypass => do
            demand (o.upstreamInputs.all (·.correlationId == o.correlationId)) "upstream_inputs"
              "upstream correlation_id does not match command"
            o.routingContext.validate
            demand (bypass.terminalState == o.routingContext.bypassValidationTerminalState)
              "routing_context" "routing bypass state does not match upstream completion"
            let refs : UpstreamResultReferences :=
              ⟨defense.resultRef, mitigation.resultRef, bypass.resultRef⟩
            let routing : ProofLoopRoutingMetadata :=
              { loopExhausted := o.routingContext.loopExhausted
                completedIterations := o.routingContext.completedIterations
                maxIterations := o.routingContext.maxIterations
                bypassValidationTerminalState := o.routingContext.bypassValidationTerminalState
                bypassValidationResultRef := bypass.resultRef }
            demand (e.upstreamResultRefs.all (· == refs)) "upstream_result_refs"
              "normalized upstream references do not match orchestration inputs"
            demand (e.routingMetadata.all (· == routing)) "routing_metadata"
              "normalized routing metadata does not match routing_context"
            demand (e.idempotencyKey.all (· == o.requestId)) "idempotency_key"
              "orchestration idempotency_key must equal request_id"
            pure { e with
              upstreamResultRefs := some refs
              routingMetadata := some routing
              idempotencyKey := some o.requestId }
        | _, _, _ => invalid "upstream_inputs" "orchestration upstream capabilities must be unique"

/-- The references and the routing of a referenced envelope. -/
def InvokeRequestEnvelope.validateReferences (e : InvokeRequestEnvelope) : Checked Unit :=
  match e.upstreamResultRefs, e.routingMetadata with
  | none, none => pure ()
  | none, some _ =>
      invalid "routing_metadata" "routing_metadata requires authoritative upstream_result_refs"
  | some _, none => invalid "routing_metadata"
      "routing_metadata is required for referenced proof-loop invocation"
  | some refs, some routing => do
      refs.validate
      routing.validate
      demand (routing.bypassValidationResultRef == refs.bypassValidation) "routing_metadata"
        "routing bypass reference must match upstream_result_refs.bypass_validation"

/-- `Validate`: the envelope in the referenced form. -/
def InvokeRequestEnvelope.validate (e : InvokeRequestEnvelope) :
    Checked InvokeRequestEnvelope := do
  e.input.validate
  let supplied := fun (name : String) (value : Option Str) =>
    demand (!value.any blank) name "must not be empty when supplied"
  supplied "correlation_id" e.correlationId
  supplied "idempotency_key" e.idempotencyKey
  supplied "subject_record_revision_id" e.subjectRecordRevisionId
  demand (e.contractId.all (· == "control-translation@1.0".toList)) "contract_id"
    "must be 'control-translation@1.0'"
  let normalized ← e.normalizeOrchestration
  normalized.validateReferences
  pure normalized

end GoContracts
