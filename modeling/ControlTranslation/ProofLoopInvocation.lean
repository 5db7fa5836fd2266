import ControlTranslation.CapabilityRouting
import ControlTranslation.Lineage
import ControlTranslation.ResultReader

/-!
# Answering an orchestrated request

An orchestrated request names the results of a proof loop instead of a pattern.  The
loop is resolved first; a loop that cannot be resolved is answered without a
candidate, and a loop that ended on a bypass is translated all the same.  What that
candidate is worth has to be readable from the answer alone: the qualification, the
counterexample, the evidence and a limitation in the candidate itself say that it is
not cleared.
-/

namespace CapabilityRouting

open PyText JsonValue ProofLoop Failures
open TranslationEngine (Success)

/-- The loop an orchestrated request names, as its contract admits it. -/
structure Orchestrated where
  references : References
  routing : RoutingMetadata
  upstreamInputs : Option (List Locator)
  exhausted : routing.loopExhausted = true ↔
    routing.bypassValidationTerminalState = .bypassFound
  iterations : routing.completedIterations ≤ routing.maxIterations
  complete : routing.loopExhausted = true →
    routing.maxIterations = 10 ∧ routing.completedIterations = routing.maxIterations
  bypassReference : routing.bypassValidationResultRef = references.bypassValidation

/-- The loop that a request names, or what its contract has against it: `validate_route` of
the routing and `validate_reference_routing` of the request. -/
def validateReferenceRouting (references : References) (routing : RoutingMetadata)
    (upstreamInputs : Option (List Locator)) : Except String Orchestrated :=
  if iterations : routing.completedIterations ≤ routing.maxIterations then
    if exhausted : (routing.loopExhausted = true ↔
        routing.bypassValidationTerminalState = .bypassFound) then
      if complete : routing.loopExhausted = true →
          routing.maxIterations = 10 ∧ routing.completedIterations = routing.maxIterations then
        if bypassReference : routing.bypassValidationResultRef = references.bypassValidation then
          .ok { references, routing, upstreamInputs, exhausted, iterations, complete,
                bypassReference }
        else .error "routing bypass reference must match upstream_result_refs.bypass_validation"
      else if routing.maxIterations ≠ 10 then
        .error "the PoC exhaustion route requires max_iterations to be 10"
      else .error "an exhausted candidate loop must complete max_iterations"
    else if routing.loopExhausted then
      .error "loop_exhausted must be false when no bypass was found"
    else .error "bypass-found is accepted only when the candidate loop is exhausted"
  else .error "completed_iterations cannot exceed max_iterations"

/-- A reference to a record of a table. -/
def recordReference (key : String) : Reference :=
  ⟨"databricks".toList, some "catalog".toList, some "schema".toList, some "table".toList,
    key.toList⟩

/-- A loop that used all its iterations is admitted, with the bypass it ended on. -/
example : (validateReferenceRouting
    ⟨recordReference "dg", recordReference "mc", recordReference "bv"⟩
    ⟨true, 10, 10, .bypassFound, recordReference "bv"⟩ none).isOk = true := by decide

/-- `InvokeRequestEnvelope`, as far as the invocation reads it. -/
structure InvokeRequestEnvelope where
  input : ControlTranslationRequest
  orchestrated : Option Orchestrated
  /-- The vulnerability and the candidate the orchestration is about. -/
  subject : Option (Str × Str)
  requestId : Option Str
  correlationId : Option Str
  subjectRecordRevisionId : Option Str

/-- The call of the resolver. -/
def resolveRequest (request : InvokeRequestEnvelope) (loop : Orchestrated) : ResolveRequest where
  references := loop.references
  correlationId := request.correlationId
  subjectRecordRevisionId := request.subjectRecordRevisionId
  routingMetadata := loop.routing
  expectedVulnerabilityId := request.subject.map (·.1)
  expectedCandidateId := request.subject.map (·.2)
  immutableLocators := loop.upstreamInputs.filter fun inputs => inputs.all ResultReader.isStrict

/-- `given or other`. -/
def orElse (given other : Option Str) : Option Str := (given.filter (· ≠ [])).or other

/-- The request with what the loop was resolved to. -/
def resolvedInput (trim : Str → Str) (input : ControlTranslationRequest)
    (resolved : ResolvedProofLoop) : ControlTranslationRequest :=
  let caller := input.targetContext.getD ⟨none, none⟩
  { input with
    provenPattern := some resolved.pattern
    targetContext := some {
      targetTechnology := (orElse caller.targetTechnology resolved.targetTechnology).map trim
      targetPolicyContextId :=
        (orElse caller.targetPolicyContextId resolved.targetPolicyContextId).map trim } }

/-- The call a resolved loop makes. -/
def resolvedCall (trim : Str → Str) (request : InvokeRequestEnvelope)
    (resolved : ResolvedProofLoop) : Call where
  request := resolvedInput trim request.input resolved
  correlationId := request.correlationId
  qualification := some resolved.qualification
  translationRequirements := resolved.translationRequirements
  requestContext := resolved.requestContext

/-- The call of a request that carries its pattern. -/
def directCall (request : InvokeRequestEnvelope) : Call where
  request := request.input
  correlationId := request.correlationId
  qualification := none
  translationRequirements := none
  requestContext := none

/-- `_bind_request_context`. -/
def bindRequestContext (request : InvokeRequestEnvelope) (result : ResultEnvelope) :
    ResultEnvelope :=
  { result with
    requestId := request.requestId
    upstreamResultRefs := request.orchestrated.map (·.references)
    referenceBundle := request.orchestrated.map (·.references) }

/-- The result of a loop that cannot be resolved. -/
def unresolvedResult (settings : Settings) (minted : Minted) (input : ControlTranslationRequest)
    (detail : Str) : ControlTranslationResult :=
  let caller := input.targetContext.getD ⟨none, none⟩
  let technology := orDefault caller.targetTechnology settings.defaultTargetTechnology
  { contractId := "control-translation@1.0"
    resultId := "control-translation-result:unknown:".toList ++ technology ++ [':'] ++ minted.result
    vulnerabilityId := "unknown".toList
    provenPatternId := "unresolved".toList
    selectedControlClass := "unknown".toList
    targetTechnology := technology
    targetPolicyContextId :=
      orDefault caller.targetPolicyContextId settings.defaultTargetPolicyContextId
    configuredPocDefaultsUsed := input.targetContext.isNone
    currentPolicySnapshotId := none
    translationPolicyId := "control-translation-policy:mvp1".toList
    proofRecordIds := []
    terminalState := .insufficientContext
    reasonCode := .insufficientPatternContext
    detail := detail
    proofLoopQualification := none
    bypassCounterexample := none
    primaryCandidate := none
    evidenceBindings := []
    proseSummary := detail }

/-- `_insufficient_context_envelope`. -/
def insufficientContextEnvelope (settings : Settings) (minted : Minted)
    (request : InvokeRequestEnvelope) (detail : Str) : ResultEnvelope :=
  envelope settings minted request.correlationId false "none".toList
    (unresolvedResult settings minted request.input detail)

/-- The counterexample and the evidence of a loop that ended on a bypass. -/
def attachBypass (resolved : ResolvedProofLoop) (result : ResultEnvelope) : ResultEnvelope :=
  match resolved.qualification.route with
  | .validated => result
  | .pocExhaustion =>
      { result with structuredResult := { result.structuredResult with
          bypassCounterexample := resolved.bypassCounterexample
          evidenceBindings := result.structuredResult.evidenceBindings ++
            if resolved.bypassEvidenceRefs = [] then []
            else [⟨"limitation", resolved.bypassEvidenceRefs⟩] } }

/-- The detail of references that the configuration cannot fetch. -/
def unfetchableDetail : Str :=
  "Referenced upstream results cannot be fetched with the current configuration.".toList

/-- The answer to a loop, with the resolver of its records, if there is one. -/
def invokeLoop (p : Providers) (settings : Settings) (minted : Minted)
    (resolver : Option Environment) (request : InvokeRequestEnvelope) (loop : Orchestrated) :
    Answer ResultEnvelope :=
  match resolver with
  | none => .ok (insufficientContextEnvelope settings minted request unfetchableDetail)
  | some env =>
      match resolveProofLoop env (resolveRequest request loop) with
      | .error (.resolution message) =>
          .ok (insufficientContextEnvelope settings minted request message.toList)
      | .error .cancelled => .error .cancelled
      | .error (.other _) => .error .raised
      | .ok resolved => do
          let result ← invoke p settings minted (resolvedCall p.trim request resolved)
          checkCancelled (p.signal .afterInvoke)
          return attachBypass resolved result

/-- The answer to a request that carries its pattern. -/
def invokeDirect (p : Providers) (settings : Settings) (minted : Minted)
    (request : InvokeRequestEnvelope) : Answer ResultEnvelope := do
  let result ← invoke p settings minted (directCall request)
  checkCancelled (p.signal .afterInvoke)
  return result

/-- The answer before it is bound to its request. -/
def invokeUnbound (p : Providers) (settings : Settings) (minted : Minted)
    (resolver : Option Environment) (request : InvokeRequestEnvelope) : Answer ResultEnvelope :=
  match request.orchestrated with
  | some loop => invokeLoop p settings minted resolver request loop
  | none => invokeDirect p settings minted request

/-- `invoke_envelope`. -/
def invokeEnvelope (p : Providers) (settings : Settings) (minted : Minted)
    (resolver : Option Environment) (request : InvokeRequestEnvelope) : Answer ResultEnvelope := do
  checkCancelled (p.signal .beforeInvoke)
  let result ← invokeUnbound p settings minted resolver request
  return bindRequestContext request result

/-- A candidate that the gates let through for some call: the adapter of its target
accepted the content under the policy that was read, and so did the engine's gates. -/
def Candidate (p : Providers) (settings : Settings) (c : Call) (pattern : ProvenPattern)
    (candidate : Success) : Prop :=
  let target := effectiveTarget p.trim settings c.request
  ∃ technology snapshot emitted, Vetted p c pattern target candidate technology snapshot emitted ∧
    ∃ proposal source fromDoer, TranslationEngine.Passed (engineServices p pattern c)
      (engineRequest p c pattern target technology snapshot) proposal source fromDoer emitted

/-- What an answer says of the loop it was resolved from. -/
structure Resolved (p : Providers) (settings : Settings) (request : InvokeRequestEnvelope)
    (loop : Orchestrated) (resolved : ResolvedProofLoop) (result : ControlTranslationResult) :
    Prop where
  qualification : result.proofLoopQualification = some resolved.qualification
  cleared : resolved.qualification.bypassCleared = true ↔
    loop.routing.bypassValidationTerminalState = .noBypassFound
  candidate : ∀ candidate, result.primaryCandidate = some candidate →
    Candidate p settings (resolvedCall p.trim request resolved) resolved.pattern candidate
  /-- A loop that ended on a bypass says so in every place. -/
  bypassed : loop.routing.bypassValidationTerminalState = .bypassFound →
    result.bypassCounterexample = resolved.bypassCounterexample ∧
    (resolved.bypassEvidenceRefs ≠ [] →
      ⟨"limitation", resolved.bypassEvidenceRefs⟩ ∈ result.evidenceBindings) ∧
    resolved.qualification.completedIterations = 10 ∧
    ∀ candidate, result.primaryCandidate = some candidate →
      unclearedLimitation resolved.qualification ∈ candidate.limitations
  unbypassed : loop.routing.bypassValidationTerminalState = .noBypassFound →
    result.bypassCounterexample = none

/-- There is no resolver, or it cannot resolve the loop, and this is said of it. -/
def Unresolvable (resolver : Option Environment) (r : ResolveRequest) (detail : Str) : Prop :=
  (resolver = none ∧ detail = unfetchableDetail) ∨
  ∃ env message, resolver = some env ∧
    resolveProofLoop env r = .error (.resolution message) ∧ detail = message.toList

/-- The call that a request makes. -/
inductive Makes (p : Providers) (resolver : Option Environment) (request : InvokeRequestEnvelope) :
    Call → Prop
  | resolved (loop : Orchestrated) (hloop : request.orchestrated = some loop) (env : Environment)
      (hresolver : resolver = some env) (resolved : ResolvedProofLoop)
      (hresolved : resolveProofLoop env (resolveRequest request loop) = .ok resolved) :
      Makes p resolver request (resolvedCall p.trim request resolved)
  | direct (hloop : request.orchestrated = none) : Makes p resolver request (directCall request)

/-- Why a request is not answered.  A loop that cannot be resolved is no reason. -/
inductive Stopped (p : Providers) (settings : Settings) (resolver : Option Environment)
    (request : InvokeRequestEnvelope) : Stop → Prop
  | before (hsignal : p.signal .beforeInvoke = true) :
      Stopped p settings resolver request .cancelled
  | resolving (loop : Orchestrated) (hloop : request.orchestrated = some loop) (env : Environment)
      (hresolver : resolver = some env)
      (hresolve : resolveProofLoop env (resolveRequest request loop) = .error .cancelled) :
      Stopped p settings resolver request .cancelled
  | unread (loop : Orchestrated) (hloop : request.orchestrated = some loop) (env : Environment)
      (hresolver : resolver = some env) (kind : String)
      (hresolve : resolveProofLoop env (resolveRequest request loop) = .error (.other kind)) :
      Stopped p settings resolver request .raised
  | called (c : Call) (hcall : Makes p resolver request c) (stop : Stop)
      (hstop : Interrupted p settings c stop) : Stopped p settings resolver request stop

/-- Where an answer comes from: a loop that could not be resolved, a resolved loop, or the
pattern of the request. -/
inductive Source (p : Providers) (settings : Settings) (resolver : Option Environment)
    (request : InvokeRequestEnvelope) (result : ControlTranslationResult) : Prop
  | unresolved (loop : Orchestrated) (hloop : request.orchestrated = some loop)
      (hresolver : Unresolvable resolver (resolveRequest request loop) result.detail)
      (hstate : result.terminalState = .insufficientContext)
      (hqualification : result.proofLoopQualification = none)
      (hcandidate : result.primaryCandidate = none)
  | resolved (loop : Orchestrated) (hloop : request.orchestrated = some loop) (env : Environment)
      (hresolver : resolver = some env) (resolved : ResolvedProofLoop)
      (hresolved : resolveProofLoop env (resolveRequest request loop) = .ok resolved)
      (hanswer : Resolved p settings request loop resolved result)
  | direct (hloop : request.orchestrated = none) (pattern : ProvenPattern)
      (hpattern : request.input.provenPattern = some pattern)
      (hqualification : result.proofLoopQualification = none)
      (hcandidate : ∀ candidate, result.primaryCandidate = some candidate →
        Candidate p settings (directCall request) pattern candidate)

/-- What an envelope says of its result, and the result of its candidate, agrees. -/
structure Consistent (found : ResultEnvelope) : Prop where
  status : found.status = terminalStateToStatus found.structuredResult.terminalState
  terminalState : found.terminalState = found.structuredResult.terminalState
  reason : found.structuredResult.reasonCode ∈
    validReasonCodesForState found.structuredResult.terminalState
  carries : found.structuredResult.primaryCandidate.isSome = true ↔
    found.structuredResult.terminalState = .translated ∨
      found.structuredResult.reasonCode = .policyConflict
  conflicts : ∀ candidate, found.structuredResult.primaryCandidate = some candidate →
    (found.structuredResult.terminalState = .translated ↔ candidate.conflictNotes = [])

/-- What holds of every answer. -/
structure Answers (p : Providers) (settings : Settings) (resolver : Option Environment)
    (request : InvokeRequestEnvelope) (found : ResultEnvelope) : Prop
    extends Consistent found where
  requestId : found.requestId = request.requestId
  correlation : ∀ id, request.correlationId = some id → id ≠ [] → found.correlationId = id
  references : found.upstreamResultRefs = request.orchestrated.map (·.references)
  /-- The bundle lists the references, and nothing where the request has none. -/
  referenceBundle : found.referenceBundle = request.orchestrated.map (·.references)
  source : Source p settings resolver request found.structuredResult

variable {p : Providers} {settings : Settings} {minted : Minted}

/-- What a resolved loop says of its clearance is what its routing says. -/
theorem qualification_of_resolved {env : Environment} {r : ResolveRequest}
    {resolved : ResolvedProofLoop} (h : resolveProofLoop env r = .ok resolved) :
    resolved.qualification.completedIterations = r.routingMetadata.completedIterations ∧
    (match r.routingMetadata.bypassValidationTerminalState with
      | .noBypassFound => resolved.qualification.bypassCleared = true ∧
          resolved.qualification.route = .validated
      | .bypassFound => resolved.qualification.bypassCleared = false ∧
          resolved.qualification.route = .pocExhaustion) := by
  simp only [resolveProofLoop, ProofLoop.bind_eq_ok] at h
  obtain ⟨-, -, -, -, records, -, -, -, -, -, -, -, ⟨vulnerabilityId, candidateId⟩, -, h⟩ := h
  simp only [assemble, ProofLoop.bind_eq_ok, ProofLoop.pure_eq_ok] at h
  obtain ⟨-, -, -, -, -, -, -, -, -, -, -, -, -, -, rfl⟩ := h
  refine ⟨rfl, ?_⟩
  cases r.routingMetadata.bypassValidationTerminalState with
  | noBypassFound => simp
  | bypassFound => simp

/-- What a call answers says all of this already, its source apart. -/
structure Sound (p : Providers) (settings : Settings) (c : Call) (pattern : ProvenPattern)
    (found : ResultEnvelope) : Prop extends Consistent found where
  correlation : ∀ id, c.correlationId = some id → id ≠ [] → found.correlationId = id
  qualification : found.structuredResult.proofLoopQualification = c.qualification
  counterexample : found.structuredResult.bypassCounterexample = none
  candidate : ∀ candidate, found.structuredResult.primaryCandidate = some candidate →
    Candidate p settings c pattern candidate

/-- A result of an invocation is sound for the pattern it was given. -/
theorem sound_of_invoke {c : Call} {found : ResultEnvelope}
    (h : invoke p settings minted c = .ok found) :
    ∃ pattern, c.request.provenPattern = some pattern ∧ Sound p settings c pattern found := by
  obtain ⟨pattern, disposition, hpattern, hdisposed, rfl⟩ := invoke_eq_ok h
  exact ⟨pattern, hpattern, {
    status := rfl
    terminalState := rfl
    reason := hdisposed.reason
    carries := hdisposed.carries
    conflicts := fun candidate hcandidate => (hdisposed.vetted candidate hcandidate).1
    correlation := fun id hid hne => by
      change orDefault c.correlationId minted.correlation = id
      simp [orDefault, hid, hne, Option.filter]
    qualification := rfl
    counterexample := rfl
    candidate := fun candidate hcandidate => by
      obtain ⟨-, technology, snapshot, emitted, hvetted⟩ := hdisposed.vetted candidate hcandidate
      exact ⟨technology, snapshot, emitted, hvetted, hvetted.passed⟩ }⟩

/-- What a bypass left changes nothing else of an answer. -/
theorem attachBypass_keeps (resolved : ResolvedProofLoop) {result : ResultEnvelope}
    (h : Consistent result) :
    Consistent (attachBypass resolved result) ∧
    (attachBypass resolved result).correlationId = result.correlationId ∧
    (attachBypass resolved result).structuredResult.primaryCandidate =
      result.structuredResult.primaryCandidate ∧
    (attachBypass resolved result).structuredResult.proofLoopQualification =
      result.structuredResult.proofLoopQualification := by
  unfold attachBypass
  split
  · exact ⟨h, rfl, rfl, rfl⟩
  · exact ⟨⟨h.status, h.terminalState, h.reason, h.carries, h.conflicts⟩, rfl, rfl, rfl⟩

/-- A candidate of a loop without clearance says so. -/
theorem limitation_of_candidate {c : Call} {pattern : ProvenPattern} {candidate : Success}
    {qualification : Qualification} (h : Candidate p settings c pattern candidate)
    (hqualification : c.qualification = some qualification)
    (huncleared : qualification.bypassCleared = false) :
    unclearedLimitation qualification ∈ candidate.limitations := by
  obtain ⟨technology, snapshot, emitted, hvetted, -⟩ := h
  rw [hvetted.qualified, hqualification]
  simp [qualified, huncleared]

/-- What the answer to a resolved loop says. -/
theorem resolved_of_sound {request : InvokeRequestEnvelope} {loop : Orchestrated}
    {env : Environment} {resolved : ResolvedProofLoop} {result : ResultEnvelope}
    (hresolved : resolveProofLoop env (resolveRequest request loop) = .ok resolved)
    (h : Sound p settings (resolvedCall p.trim request resolved) resolved.pattern result) :
    Resolved p settings request loop resolved (attachBypass resolved result).structuredResult := by
  obtain ⟨-, -, hcandidate, hqualification⟩ := attachBypass_keeps resolved h.toConsistent
  obtain ⟨hiterations, hroute⟩ := qualification_of_resolved hresolved
  have hstate : (resolveRequest request loop).routingMetadata = loop.routing := rfl
  rw [hstate] at hiterations hroute
  have hfound : ∀ candidate,
      (attachBypass resolved result).structuredResult.primaryCandidate = some candidate →
      Candidate p settings (resolvedCall p.trim request resolved) resolved.pattern candidate := by
    intro candidate h'
    exact h.candidate candidate (hcandidate ▸ h')
  cases hbypass : loop.routing.bypassValidationTerminalState with
  | noBypassFound =>
      rw [hbypass] at hroute
      refine ⟨hqualification.trans h.qualification, by simp [hroute.1, hbypass], hfound, ?_, ?_⟩
      · intro habsurd
        rw [hbypass] at habsurd
        cases habsurd
      · intro
        simpa [attachBypass, hroute.2] using h.counterexample
  | bypassFound =>
      rw [hbypass] at hroute
      have hten := loop.complete (loop.exhausted.mpr hbypass)
      refine ⟨hqualification.trans h.qualification, by simp [hroute.1, hbypass], hfound, ?_, ?_⟩
      · intro
        refine ⟨by simp [attachBypass, hroute.2], fun hrefs => ?_, by omega, ?_⟩
        · simp [attachBypass, hroute.2, hrefs]
        · intro candidate h'
          exact limitation_of_candidate (hfound candidate h') rfl hroute.1
      · intro habsurd
        rw [hbypass] at habsurd
        cases habsurd

/-- An answer is bound to its request. -/
theorem answers_of_bound {resolver : Option Environment} {request : InvokeRequestEnvelope}
    {result : ResultEnvelope} (h : Consistent result)
    (hcorrelation : ∀ id, request.correlationId = some id → id ≠ [] → result.correlationId = id)
    (hsource : Source p settings resolver request result.structuredResult) :
    Answers p settings resolver request (bindRequestContext request result) where
  status := h.status
  terminalState := h.terminalState
  reason := h.reason
  carries := h.carries
  conflicts := h.conflicts
  requestId := rfl
  correlation := hcorrelation
  references := rfl
  referenceBundle := rfl
  source := hsource

/-- What is said of a loop that was not resolved. -/
theorem answers_of_unresolved {resolver : Option Environment} {request : InvokeRequestEnvelope}
    {loop : Orchestrated} {detail : Str} (hloop : request.orchestrated = some loop)
    (hresolver : Unresolvable resolver (resolveRequest request loop) detail) :
    Answers p settings resolver request
      (bindRequestContext request
        (insufficientContextEnvelope settings minted request detail)) := by
  refine answers_of_bound ⟨rfl, rfl, ?_, ?_, ?_⟩ (fun id hid hne => ?_)
    (.unresolved loop hloop hresolver rfl rfl rfl)
  · change OutcomeReasonCode.insufficientPatternContext ∈
      validReasonCodesForState .insufficientContext
    simp [validReasonCodesForState]
  · simp [insufficientContextEnvelope, envelope, unresolvedResult]
  · intro candidate h
    cases h
  · change orDefault request.correlationId minted.correlation = id
    simp [orDefault, hid, hne, Option.filter]

/-- A loop that cannot be resolved is answered with insufficient context. -/
theorem invokeLoop_of_unresolvable {resolver : Option Environment}
    {request : InvokeRequestEnvelope} {loop : Orchestrated} {detail : Str}
    (h : Unresolvable resolver (resolveRequest request loop) detail) :
    invokeLoop p settings minted resolver request loop =
      .ok (insufficientContextEnvelope settings minted request detail) := by
  obtain ⟨rfl, rfl⟩ | ⟨env, message, rfl, hresolve, rfl⟩ := h
  · rfl
  · simp only [invokeLoop, hresolve]

/-- What a request answers, it answers for its call or for a loop that it could not resolve;
what stops it is behind one of the two. -/
theorem ends_invokeCall {resolver : Option Environment} {request : InvokeRequestEnvelope}
    {c : Call} (hcall : Makes p resolver request c) :
    Ends (fun stop => ¬ Stopped p settings resolver request stop)
      (fun found => ∃ pattern, c.request.provenPattern = some pattern ∧
        Sound p settings c pattern found)
      (invoke p settings minted c >>= fun found =>
        checkCancelled (p.signal .afterInvoke) >>= fun _ => .ok found) := by
  have hinvoke : Ends (fun stop => ¬ Stopped p settings resolver request stop)
      (fun found => invoke p settings minted c = .ok found) (invoke p settings minted c) := by
    obtain ⟨stop, hrun, hstop⟩ | ⟨found, hrun, -⟩ := (ends_invoke p settings minted c).cases
    · rw [hrun]
      exact ends_error.mpr (not_not.mpr (.called c hcall stop (not_not.mp hstop)))
    · rw [hrun]
      exact ends_ok.mpr rfl
  exact hinvoke.bind fun found hfound => (ends_checkCancelled fun h =>
    not_not.mpr (.called c hcall _ (.signalled .afterInvoke h))).bind fun _ _ =>
      ends_ok.mpr (sound_of_invoke hfound)

/-- A loop is answered, or one of the reasons stops it. -/
theorem ends_invokeLoop (resolver : Option Environment) (request : InvokeRequestEnvelope)
    (loop : Orchestrated) (hloop : request.orchestrated = some loop) :
    Ends (fun stop => ¬ Stopped p settings resolver request stop)
      (fun found => Answers p settings resolver request (bindRequestContext request found))
      (invokeLoop p settings minted resolver request loop) := by
  cases resolver with
  | none => exact ends_ok.mpr (answers_of_unresolved hloop (.inl ⟨rfl, rfl⟩))
  | some env =>
      cases hresolve : resolveProofLoop env (resolveRequest request loop) with
      | error e =>
          simp only [invokeLoop, hresolve]
          cases e with
          | resolution message =>
              exact ends_ok.mpr (answers_of_unresolved hloop
                (.inr ⟨env, message, rfl, hresolve, rfl⟩))
          | cancelled =>
              exact ends_error.mpr (not_not.mpr (.resolving loop hloop env rfl hresolve))
          | other kind =>
              exact ends_error.mpr (not_not.mpr (.unread loop hloop env rfl kind hresolve))
      | ok resolved =>
          have hrun : invokeLoop p settings minted (some env) request loop =
              (invoke p settings minted (resolvedCall p.trim request resolved) >>= fun result =>
                checkCancelled (p.signal .afterInvoke) >>= fun _ => .ok result) >>= fun result =>
                .ok (attachBypass resolved result) := by
            simp only [invokeLoop, hresolve, bind_assoc]
            rfl
          rw [hrun]
          refine (ends_invokeCall (.resolved loop hloop env rfl resolved hresolve)).bind ?_
          rintro found ⟨pattern, hpattern, hsound⟩
          obtain rfl : resolved.pattern = pattern := Option.some.inj hpattern
          obtain ⟨hconsistent, hcorrelation, -⟩ :=
            attachBypass_keeps resolved hsound.toConsistent
          refine ends_ok.mpr (answers_of_bound hconsistent (fun id hid hne => ?_)
            (.resolved loop hloop env rfl resolved hresolve (resolved_of_sound hresolve hsound)))
          rw [hcorrelation]
          exact hsound.correlation id hid hne

/-- A request that carries its pattern is answered, or one of the reasons stops it. -/
theorem ends_invokeDirect (resolver : Option Environment) (request : InvokeRequestEnvelope)
    (hloop : request.orchestrated = none) :
    Ends (fun stop => ¬ Stopped p settings resolver request stop)
      (fun found => Answers p settings resolver request (bindRequestContext request found))
      (invokeDirect p settings minted request) := by
  refine (ends_invokeCall (.direct hloop)).imp ?_
  rintro found ⟨pattern, hpattern, hsound⟩
  exact answers_of_bound hsound.toConsistent hsound.correlation
    (.direct hloop pattern hpattern hsound.qualification hsound.candidate)

/-- **What every answer says.**  Whatever the resolver, the policy reader, the adapters and
the doer do, a request is answered unless one of them, a signal or the lack of a pattern
stops it; an answer carries a candidate only where the gates let it through, with what its
proof loop is worth; and a loop that cannot be resolved is answered without context. -/
theorem invocation_answers (p : Providers) (settings : Settings) (minted : Minted)
    (resolver : Option Environment) (request : InvokeRequestEnvelope) :
    ((∃ stop, invokeEnvelope p settings minted resolver request = .error stop ∧
        Stopped p settings resolver request stop) ∨
      ∃ found, invokeEnvelope p settings minted resolver request = .ok found ∧
        Answers p settings resolver request found) ∧
    ∀ loop detail, request.orchestrated = some loop →
      Unresolvable resolver (resolveRequest request loop) detail →
      p.signal .beforeInvoke = false →
      ∃ found, invokeEnvelope p settings minted resolver request = .ok found ∧
        found.structuredResult.terminalState = .insufficientContext ∧
        found.structuredResult.reasonCode = .insufficientPatternContext ∧
        found.structuredResult.detail = detail := by
  constructor
  · have hends : Ends (fun stop => ¬ Stopped p settings resolver request stop)
        (Answers p settings resolver request)
        (invokeEnvelope p settings minted resolver request) := by
      refine (ends_checkCancelled fun h => not_not.mpr (.before h)).bind fun _ _ =>
        Ends.bind (P := fun found => Answers p settings resolver request
          (bindRequestContext request found)) ?_ fun found hfound => ends_ok.mpr hfound
      unfold invokeUnbound
      split
      · rename_i loop hloop
        exact ends_invokeLoop resolver request loop hloop
      · rename_i hloop
        exact ends_invokeDirect resolver request hloop
    exact hends.cases.imp (fun ⟨stop, hrun, hstop⟩ => ⟨stop, hrun, not_not.mp hstop⟩) id
  · intro loop detail hloop hresolver hsignal
    refine ⟨bindRequestContext request (insufficientContextEnvelope settings minted request
      detail), ?_, rfl, rfl, rfl⟩
    simp only [invokeEnvelope, invokeUnbound, hsignal, hloop,
      invokeLoop_of_unresolvable hresolver]
    rfl

end CapabilityRouting
