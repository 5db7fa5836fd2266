import ControlTranslation.EngineGates
import ControlTranslation.Failures
import ControlTranslation.GoCompiler
import ControlTranslation.LiteralShortcut
import ControlTranslation.ProofLoop

/-!
# Routing a request

A call of the capability goes through its gates in a fixed order: the target has to
be one this deployment carries, the control class has to be the target's, the current
policy has to be readable and the one the caller expects.  Only then is the engine
asked for a translation, and what the engine answers decides the rest.  Every gate
ends the call in a terminal state of its own; a candidate leaves it in two of them.

The policy reader, the adapters, the doer and the cancellation signal are whatever
they are.  Identifiers are minted outside, so a call is given those it will use.
-/

namespace CapabilityRouting

open PyText JsonValue ProofLoop Failures
open TranslationEngine (Reply Adapter Doer Success Checkpoint Outcome DeterministicPaths)

/-- How an invocation ends. -/
inductive TerminalState
  | translated
  | cannotExpress
  | insufficientContext
  | scopeDeclined
  | malfunction
  deriving DecidableEq

/-- Why it ended so. -/
inductive OutcomeReasonCode
  | translated
  | unsupportedTargetTechnology
  | unsupportedFeature
  | policyConflict
  | insufficientPolicyContext
  | insufficientPatternContext
  | invalidInput
  | loopExhaustedWithBypass
  | bypassFoundRequiresRegeneration
  | providerFailure
  | resultAssemblyFailure
  deriving DecidableEq

/-- The coarse status a caller reads off the terminal state. -/
inductive ResultStatus
  | succeeded
  | declined
  | malfunction
  deriving DecidableEq

/-- `VALID_REASON_CODES_FOR_STATE`. -/
def validReasonCodesForState : TerminalState → List OutcomeReasonCode
  | .translated => [.translated]
  | .cannotExpress => [.unsupportedTargetTechnology, .unsupportedFeature]
  | .insufficientContext => [.insufficientPolicyContext, .insufficientPatternContext]
  | .scopeDeclined =>
      [.invalidInput, .policyConflict, .loopExhaustedWithBypass, .bypassFoundRequiresRegeneration]
  | .malfunction => [.providerFailure, .resultAssemblyFailure]

/-- `TERMINAL_STATE_TO_STATUS`. -/
def terminalStateToStatus : TerminalState → ResultStatus
  | .translated => .succeeded
  | .cannotExpress => .declined
  | .insufficientContext => .declined
  | .scopeDeclined => .declined
  | .malfunction => .malfunction

/-- The target a request names, each part of it optional. -/
structure TargetContext where
  targetTechnology : Option Str
  targetPolicyContextId : Option Str

/-- Which departures from the pattern a caller will take. -/
structure TranslationPolicy where
  translationPolicyId : Str
  allowNarrowerTranslation : Bool
  allowEquivalentTranslation : Bool
  allowBroaderTranslation : Bool

/-- A request that carries its pattern with it. -/
structure ControlTranslationRequest where
  provenPattern : Option ProvenPattern
  targetContext : Option TargetContext
  translationPolicy : TranslationPolicy
  currentPolicySnapshotId : Option Str

/-- The defaults of the deployment and whether a model is to be called. -/
structure Settings where
  defaultTargetTechnology : Str
  defaultTargetPolicyContextId : Str
  isLive : Bool
  modelProvider : Str
  modelName : Str
  credentialsConfigured : Bool

/-- The policy as it stood when it was read. -/
structure PolicySnapshot where
  snapshotId : Str
  existingRuleIds : List Str
  existingRuleSummaries : List Str

/-- The targets that have an adapter. -/
inductive Technology
  | akamaiWaf
  | firewallGeneric
  | edrS1
  deriving DecidableEq

/-- The name a technology goes by in a request. -/
def Technology.name : Technology → String
  | .akamaiWaf => "akamai-waf"
  | .firewallGeneric => "firewall-generic"
  | .edrS1 => "edr-s1"

/-- `_TARGET_CONTROL_CLASSES`. -/
def Technology.controlClass : Technology → String
  | .akamaiWaf => "waf"
  | .firewallGeneric => "firewall"
  | .edrS1 => "edr"

/-- The keys of `ADAPTER_REGISTRY`, in order. -/
def adapterRegistry : List Technology := [.akamaiWaf, .firewallGeneric, .edrS1]

/-- `get_adapter`. -/
def getAdapter (targetTechnology : Str) : Option Technology :=
  adapterRegistry.find? fun technology => technology.name.toList = targetTechnology

/-- Where the capability looks at the cancellation signal, apart from the engine. -/
inductive Place
  | start
  | beforeSnapshot
  | afterSnapshot
  | afterTranslate
  | beforeInvoke
  | afterInvoke
  deriving DecidableEq

/-- What the capability relies on outside itself. -/
structure Providers where
  tables : CharTables
  casing : FnMatch.Casing tables
  repr : JsonValue → Str
  loads : Str → TranslationEngine.Loaded
  dumps : JsonValue → TranslationEngine.Dumped
  digest : Str → Option Str
  /-- The trimming a strict contract applies to every text. -/
  trim : Str → Str
  /-- What the gates of the engine read of the requirements. -/
  gateRequirements : TranslationRequirements → SemanticGates.GateRequirements
  /-- `_akamai_json_body_field_proposal`, where the pattern has a field. -/
  jsonBodyFieldProposal : ProvenPattern → JsonBodyFieldFeature →
    Option TranslationEngine.Proposal
  /-- `_hardened_akamai_form_body_proposal`, where there is a request. -/
  formBodyProposal : ProvenPattern → RequestContext → Option TranslationEngine.Proposal
  readSnapshot : Str → Str → Reply (Option PolicySnapshot)
  /-- What an adapter answers about a pattern under a snapshot. -/
  adapter : Technology → ProvenPattern → PolicySnapshot → Adapter
  doer : TranslationEngine.Request → Doer
  signal : Place → Bool
  engineSignal : Checkpoint → Bool

/-- The rest of a call. -/
structure Call where
  request : ControlTranslationRequest
  correlationId : Option Str
  qualification : Option Qualification
  translationRequirements : Option TranslationRequirements
  requestContext : Option RequestContext

/-- The identifiers a call mints. -/
structure Minted where
  result : Str
  run : Str
  correlation : Str

/-- Why a call answers nothing. -/
inductive Stop
  | cancelled
  /-- `SharedContractV2Error`. -/
  | contract (code : String) (detail : Str)
  /-- The finished result does not pass its own contract. -/
  | invalid (message : String)
  /-- Any other exception. -/
  | raised
  deriving DecidableEq

/-- A step of the invocation: its value, or the stop that ends it. -/
abbrev Answer := Except Stop

/-- `check_cancelled`. -/
def checkCancelled (signal : Bool) : Answer Unit := if signal then .error .cancelled else .ok ()

/-- What a provider answers. -/
def answered {α : Type} : Reply α → Answer α
  | .returned answer => .ok answer
  | .raised _ => .error .raised
  | .cancelled => .error .cancelled

theorem bind_eq_ok {α β : Type} {x : Answer α} {f : α → Answer β} {b : β} :
    (x >>= f) = .ok b ↔ ∃ a, x = .ok a ∧ f a = .ok b := by
  cases x with
  | error e => simp [bind, Except.bind]
  | ok a => simp [bind, Except.bind]

theorem pure_eq_ok {α : Type} {a b : α} : (pure a : Answer α) = .ok b ↔ a = b := by
  simp [pure, Except.pure]

theorem answered_eq_ok {α : Type} {reply : Reply α} {a : α} :
    answered reply = .ok a ↔ reply = .returned a := by
  cases reply <;> simp [answered]

/-- The engine's word for how a feature's value is matched. -/
def engineValueMatch : ValueMatch → SemanticGates.ValueMatch
  | .exact => .exact
  | .containsToken => .containsToken
  | .fieldPresent => .fieldPresent

/-- The proven field as the engine reads it; the contract admits no empty path. -/
def engineFeature (feature : JsonBodyFieldFeature) : Option SemanticGates.JsonBodyFieldFeature :=
  if h : feature.fieldPath ≠ [] then
    some ⟨"POST".toList, "application/json".toList, feature.fieldPath, feature.value,
      engineValueMatch feature.valueMatch, h⟩
  else none

/-- The pattern as the engine reads it. -/
def enginePattern (pattern : ProvenPattern) : TranslationEngine.ProvenPattern where
  vulnerabilityId := pattern.vulnerabilityId
  selectedControlClass := pattern.selectedControlClass
  discriminatorId := pattern.discriminatorId
  discriminatorDescription := pattern.discriminatorDescription
  patternSummary := pattern.patternSummary
  proofRecordIds := pattern.proofRecordIds
  jsonBodyFieldFeature := pattern.jsonBodyFieldFeature.bind engineFeature

/-- The pattern as the compiler reads it. -/
def compilerPattern (pattern : ProvenPattern) : ModSecurity.Pattern where
  patternSummary := pattern.patternSummary
  vulnerabilityId := pattern.vulnerabilityId

/-- A label as it is written in a result. -/
def labelName : ModSecurity.TranslationLabel → Str
  | .exact => "exact".toList
  | .equivalent => "equivalent".toList
  | .narrower => "narrower".toList
  | .broader => "broader".toList

/-- A proposal of the compiler, with its rule as a dictionary. -/
def compiledProposal (proposal : ModSecurity.Proposal) : TranslationEngine.Proposal where
  candidateContent := .document (GoCompiler.ruleJson proposal.candidateContent)
  translationLabel := labelName proposal.translationLabel
  justification := proposal.justification
  translationAssumptions := proposal.translationAssumptions
  limitations := proposal.limitations

/-- The proposals that code has for a pattern. -/
def deterministicPaths (p : Providers) (pattern : ProvenPattern)
    (requirements : Option TranslationRequirements) (context : Option RequestContext) :
    DeterministicPaths where
  compiled := (ModSecurity.compileAkamaiCustomRule p.tables (compilerPattern pattern)
    (requirements.map fun found => (p.gateRequirements found).requirements)).map compiledProposal
  jsonBodyField := pattern.jsonBodyFieldFeature.bind (p.jsonBodyFieldProposal pattern)
  anchoredLiteral :=
    (ModSecurity.hardenedAkamaiLiteralProposal (compilerPattern pattern)).map compiledProposal
  formBody := context.bind (p.formBodyProposal pattern)

/-- What the engine works with in a call. -/
def engineServices (p : Providers) (pattern : ProvenPattern) (c : Call) :
    TranslationEngine.Services where
  t := p.tables
  casing := p.casing
  repr := p.repr
  loads := p.loads
  dumps := p.dumps
  digest := p.digest
  paths := deterministicPaths p pattern c.translationRequirements c.requestContext

/-- `given or default`. -/
def orDefault (given : Option Str) (default : Str) : Str := (given.filter (· ≠ [])).getD default

/-- The target of a call, after the defaults of the deployment. -/
structure Target where
  technology : Str
  policyContextId : Str
  configuredDefaultsUsed : Bool

/-- `_with_effective_target_context`. -/
def effectiveTarget (trim : Str → Str) (settings : Settings)
    (request : ControlTranslationRequest) : Target :=
  let caller := request.targetContext.getD ⟨none, none⟩
  { technology := trim (orDefault caller.targetTechnology settings.defaultTargetTechnology)
    policyContextId :=
      trim (orDefault caller.targetPolicyContextId settings.defaultTargetPolicyContextId)
    configuredDefaultsUsed :=
      caller.targetTechnology.isNone || caller.targetPolicyContextId.isNone }

/-- The request the engine gets. -/
def engineRequest (p : Providers) (c : Call) (pattern : ProvenPattern) (target : Target)
    (technology : Technology) (snapshot : PolicySnapshot) : TranslationEngine.Request where
  pattern := enginePattern pattern
  targetTechnology := target.technology
  targetPolicyContextId := target.policyContextId
  adapter := p.adapter technology pattern snapshot
  translationRequirements := c.translationRequirements.map p.gateRequirements
  allowNarrowerTranslation := c.request.translationPolicy.allowNarrowerTranslation
  allowEquivalentTranslation := c.request.translationPolicy.allowEquivalentTranslation
  allowBroaderTranslation := c.request.translationPolicy.allowBroaderTranslation
  signal := p.engineSignal

/-- The engine's answer in a call. -/
def engineOutcome (p : Providers) (c : Call) (pattern : ProvenPattern) (target : Target)
    (technology : Technology) (snapshot : PolicySnapshot) : Outcome :=
  let request := engineRequest p c pattern target technology snapshot
  (TranslationEngine.translate (engineServices p pattern c) request (p.doer request)).outcome

/-- How a request is disposed of. -/
structure Disposition where
  terminalState : TerminalState
  reasonCode : OutcomeReasonCode
  detail : Str
  primaryCandidate : Option Success
  /-- What the prose says, where that is not the detail. -/
  proseSummary : Option Str
  llmInvoked : Bool
  proposalSource : Str

/-- A disposition without a candidate, before the engine was asked. -/
def gated (state : TerminalState) (code : OutcomeReasonCode) (detail : Str) : Disposition :=
  ⟨state, code, detail, none, none, false, "none".toList⟩

/-- `_unsupported_target_detail`. -/
def unsupportedTargetDetail (targetTechnology : Str) : Str :=
  "Target technology '".toList ++ targetTechnology ++
    "' is outside configured coverage. This deployment translates only to ".toList ++
    join ", ".toList (adapterRegistry.map fun technology => technology.name.toList) ++ ['.']

/-- The detail of a pattern whose control class the target does not serve. -/
def incompatibleClassDetail (pattern : ProvenPattern) (target : Target)
    (technology : Technology) : Str :=
  "Selected control class '".toList ++ pattern.selectedControlClass ++
    "' is not compatible with target technology '".toList ++ target.technology ++
    "' (expected '".toList ++ technology.controlClass.toList ++ "').".toList

/-- The detail of a target whose policy cannot be read. -/
def missingSnapshotDetail (target : Target) : Str :=
  "No current policy snapshot available for ".toList ++ target.technology ++ ['/'] ++
    target.policyContextId ++ "; cannot safely translate without reading current policy.".toList

/-- The detail of a policy that is not the one the request was made against. -/
def otherSnapshotDetail (requested resolved : Str) : Str :=
  "Requested policy snapshot '".toList ++ requested ++
    "' does not match resolved snapshot '".toList ++ resolved ++ "'.".toList

/-- Whether the loop behind a request ended without a bypass clearance. -/
def uncleared (qualification : Option Qualification) : Bool :=
  qualification.any fun found => !found.bypassCleared

/-- What a candidate without bypass clearance says of itself. -/
def unclearedLimitation (qualification : Qualification) : Str :=
  "PoC candidate loop exhausted after ".toList ++
    AkamaiAdapter.natText qualification.completedIterations ++
    (" iterations; the latest Bypass Validation state was bypass-found. " ++
      "This candidate is not bypass-cleared.").toList

/-- The candidate of a call, with the limitation its loop asks for. -/
def qualified (qualification : Option Qualification) (candidate : Success) : Success :=
  match qualification with
  | some found =>
      if found.bypassCleared then candidate
      else { candidate with limitations := candidate.limitations ++ [unclearedLimitation found] }
  | none => candidate

/-- The detail of a result, which says when the pattern is not cleared. -/
def translatedDetail (qualification : Option Qualification) : Str :=
  if uncleared qualification then
    ("Translation succeeded via the PoC exhaustion route; the latest " ++
      "candidate remains bypass-found and is not bypass-cleared.").toList
  else "Translation succeeded.".toList

/-- What the result says of itself in prose. -/
def translatedProse (qualification : Option Qualification) (pattern : ProvenPattern)
    (target : Target) (candidate : Success) : Str :=
  "Translated ".toList ++
    (if uncleared qualification then "loop-exhausted candidate pattern" else
      "proven pattern").toList ++ [' '] ++ pattern.provenPatternId ++ " into a ".toList ++
    candidate.artifactType ++ " candidate (".toList ++ candidate.translation ++
    " translation) for ".toList ++ target.technology ++ ['.']

/-- What becomes of a candidate of the engine. -/
def disposeCandidate (c : Call) (pattern : ProvenPattern) (target : Target)
    (candidate : Success) : Disposition :=
  if candidate.conflictNotes ≠ [] then
    { terminalState := .scopeDeclined
      reasonCode := .policyConflict
      detail := "Candidate conflicts with existing policy: ".toList ++
        join "; ".toList candidate.conflictNotes
      primaryCandidate := some candidate
      proseSummary := none
      llmInvoked := candidate.llmInvoked
      proposalSource := candidate.proposalSource }
  else
    { terminalState := .translated
      reasonCode := .translated
      detail := translatedDetail c.qualification
      primaryCandidate := some candidate
      proseSummary := some (translatedProse c.qualification pattern target candidate)
      llmInvoked := candidate.llmInvoked
      proposalSource := candidate.proposalSource }

/-- What becomes of a failure of the engine. -/
def disposeFailure (failure : TranslationEngine.Failure) : Disposition :=
  if failure.reason = "provider-failure".toList then
    ⟨.malfunction, .providerFailure, failure.detail, none, none, failure.llmInvoked,
      failure.proposalSource⟩
  else
    ⟨.cannotExpress, .unsupportedFeature, failure.detail, none, none, failure.llmInvoked,
      failure.proposalSource⟩

/-- What becomes of the engine's answer. -/
def disposeOutcome (c : Call) (pattern : ProvenPattern) (target : Target) :
    Outcome → Answer Disposition
  | .success candidate =>
      .ok (disposeCandidate c pattern target (qualified c.qualification candidate))
  | .failure failure => .ok (disposeFailure failure)
  | .cancelled => .error .cancelled
  | .raised => .error .raised

/-- The gates behind the current policy. -/
def disposeUnder (p : Providers) (c : Call) (pattern : ProvenPattern) (target : Target)
    (technology : Technology) (snapshot : PolicySnapshot) : Answer Disposition :=
  match c.request.currentPolicySnapshotId.filter (· ≠ snapshot.snapshotId) with
  | some requested =>
      .ok (gated .scopeDeclined .invalidInput (otherSnapshotDetail requested snapshot.snapshotId))
  | none => do
      let disposition ← disposeOutcome c pattern target
        (engineOutcome p c pattern target technology snapshot)
      checkCancelled (p.signal .afterTranslate)
      return disposition

/-- The gates of a request with a pattern. -/
def dispose (p : Providers) (c : Call) (pattern : ProvenPattern) (target : Target) :
    Answer Disposition :=
  match getAdapter target.technology with
  | none =>
      .ok (gated .scopeDeclined .invalidInput (unsupportedTargetDetail target.technology))
  | some technology =>
      if p.tables.lower pattern.selectedControlClass ≠ technology.controlClass.toList then
        .ok (gated .scopeDeclined .invalidInput
          (incompatibleClassDetail pattern target technology))
      else do
        checkCancelled (p.signal .beforeSnapshot)
        let snapshot ← answered (p.readSnapshot target.technology target.policyContextId)
        checkCancelled (p.signal .afterSnapshot)
        match snapshot with
        | none =>
            return gated .insufficientContext .insufficientPolicyContext
              (missingSnapshotDetail target)
        | some snapshot => disposeUnder p c pattern target technology snapshot

/-- A claim of the result and the records that bear it. -/
structure EvidenceBinding where
  claim : String
  evidenceRefs : List Str

/-- `ControlTranslationResult`. -/
structure ControlTranslationResult where
  contractId : String
  resultId : Str
  vulnerabilityId : Str
  provenPatternId : Str
  selectedControlClass : Str
  targetTechnology : Str
  targetPolicyContextId : Str
  configuredPocDefaultsUsed : Bool
  currentPolicySnapshotId : Option Str
  translationPolicyId : Str
  proofRecordIds : List Str
  terminalState : TerminalState
  reasonCode : OutcomeReasonCode
  detail : Str
  proofLoopQualification : Option Qualification
  bypassCounterexample : Option BypassCounterexample
  primaryCandidate : Option Success
  evidenceBindings : List EvidenceBinding
  proseSummary : Str

/-- The evidence a result binds to its candidate. -/
def candidateEvidence (pattern : ProvenPattern) (target : Target) : List EvidenceBinding :=
  [⟨"discriminator-preserved", pattern.proofRecordIds⟩,
    ⟨"target-feature-supported", [target.technology]⟩]

/-- `_build_result`. -/
def buildResult (c : Call) (minted : Minted) (pattern : ProvenPattern) (target : Target)
    (disposition : Disposition) : ControlTranslationResult where
  contractId := "control-translation@1.0"
  resultId := "control-translation-result:".toList ++ pattern.vulnerabilityId ++ [':'] ++
    target.technology ++ [':'] ++ minted.result
  vulnerabilityId := pattern.vulnerabilityId
  provenPatternId := pattern.provenPatternId
  selectedControlClass := pattern.selectedControlClass
  targetTechnology := target.technology
  targetPolicyContextId := target.policyContextId
  configuredPocDefaultsUsed := target.configuredDefaultsUsed
  currentPolicySnapshotId := c.request.currentPolicySnapshotId
  translationPolicyId := c.request.translationPolicy.translationPolicyId
  proofRecordIds := pattern.proofRecordIds
  terminalState := disposition.terminalState
  reasonCode := disposition.reasonCode
  detail := disposition.detail
  proofLoopQualification := c.qualification
  bypassCounterexample := none
  primaryCandidate := disposition.primaryCandidate
  evidenceBindings :=
    if disposition.primaryCandidate.isSome then candidateEvidence pattern target else []
  proseSummary := (disposition.proseSummary.filter (· ≠ [])).getD disposition.detail

/-- Who made the proposal behind a result. -/
structure Inference where
  live : Bool
  provider : Str
  model : Option Str
  llmInvoked : Bool
  proposalSource : Str
  credentialsConfigured : Bool

/-- `ResultEnvelope` around a result. -/
structure ResultEnvelope where
  runId : Str
  resultId : Str
  status : ResultStatus
  terminalState : TerminalState
  requestId : Option Str
  correlationId : Str
  upstreamResultRefs : Option References
  /-- The references the bundle lists, by role. -/
  referenceBundle : Option References
  structuredResult : ControlTranslationResult
  prose : Str
  provenance : List Str
  inference : Inference

/-- `_envelope`. -/
def envelope (settings : Settings) (minted : Minted) (correlationId : Option Str)
    (llmInvoked : Bool) (proposalSource : Str) (result : ControlTranslationResult) :
    ResultEnvelope where
  runId := minted.run
  resultId := result.resultId
  status := terminalStateToStatus result.terminalState
  terminalState := result.terminalState
  requestId := none
  correlationId := orDefault correlationId minted.correlation
  upstreamResultRefs := none
  referenceBundle := none
  structuredResult := result
  prose := result.proseSummary
  provenance := result.proofRecordIds
  inference := {
    live := settings.isLive
    provider := settings.modelProvider
    model := some settings.modelName
    llmInvoked := llmInvoked && settings.isLive
    proposalSource := proposalSource
    credentialsConfigured := settings.credentialsConfigured }

/-- `invoke`.  A request without a pattern is answered by a helper that does not take
the argument it is called with. -/
def invoke (p : Providers) (settings : Settings) (minted : Minted) (c : Call) :
    Answer ResultEnvelope := do
  checkCancelled (p.signal .start)
  match c.request.provenPattern with
  | none => .error .raised
  | some pattern => do
      let target := effectiveTarget p.trim settings c.request
      let disposition ← dispose p c pattern target
      return envelope settings minted c.correlationId disposition.llmInvoked
        disposition.proposalSource (buildResult c minted pattern target disposition)

variable {p : Providers} {settings : Settings} {minted : Minted} {c : Call}
  {pattern : ProvenPattern} {target : Target}

/-- A candidate came out of the engine, behind the gates: the target is carried, the
class is its own, and the policy is the one that was read and the one expected. -/
structure Vetted (p : Providers) (c : Call) (pattern : ProvenPattern) (target : Target)
    (candidate : Success) (technology : Technology) (snapshot : PolicySnapshot)
    (emitted : Success) : Prop where
  carried : getAdapter target.technology = some technology
  controlClass : p.tables.lower pattern.selectedControlClass = technology.controlClass.toList
  policy : p.readSnapshot target.technology target.policyContextId = .returned (some snapshot)
  expected : ∀ id, c.request.currentPolicySnapshotId = some id → id = snapshot.snapshotId
  outcome : engineOutcome p c pattern target technology snapshot = .success emitted
  qualified : candidate = qualified c.qualification emitted

/-- What a disposition says of its candidate. -/
structure Disposed (p : Providers) (c : Call) (pattern : ProvenPattern) (target : Target)
    (disposition : Disposition) : Prop where
  reason : disposition.reasonCode ∈ validReasonCodesForState disposition.terminalState
  carries : disposition.primaryCandidate.isSome = true ↔
    disposition.terminalState = .translated ∨ disposition.reasonCode = .policyConflict
  vetted : ∀ candidate, disposition.primaryCandidate = some candidate →
    (disposition.terminalState = .translated ↔ candidate.conflictNotes = []) ∧
    ∃ technology snapshot emitted, Vetted p c pattern target candidate technology snapshot emitted

/-- A gate in front of the engine leaves no candidate. -/
theorem disposed_of_gated {state : TerminalState} {code : OutcomeReasonCode} {detail : Str}
    (hvalid : code ∈ validReasonCodesForState state) (hstate : state ≠ .translated)
    (hcode : code ≠ .policyConflict) : Disposed p c pattern target (gated state code detail) where
  reason := hvalid
  carries := by simp [gated, hstate, hcode]
  vetted := by
    intro candidate h
    cases h

/-- A failure of the engine is disposed of under its own reason. -/
theorem disposed_of_failure (failure : TranslationEngine.Failure) :
    Disposed p c pattern target (disposeFailure failure) where
  reason := by
    unfold disposeFailure
    split <;> simp [validReasonCodesForState]
  carries := by
    unfold disposeFailure
    split <;> simp
  vetted := by
    intro candidate h
    unfold disposeFailure at h
    split at h <;> cases h

/-- A vetted candidate is disposed of as a result or by its policy. -/
theorem disposed_of_candidate {technology : Technology} {snapshot : PolicySnapshot}
    {candidate emitted : Success}
    (h : Vetted p c pattern target candidate technology snapshot emitted) :
    Disposed p c pattern target (disposeCandidate c pattern target candidate) := by
  unfold disposeCandidate
  split
  · rename_i hconflicts
    refine ⟨by simp [validReasonCodesForState], by simp, fun found hfound => ?_⟩
    cases hfound
    exact ⟨by simp [hconflicts], technology, snapshot, emitted, h⟩
  · rename_i hnone
    refine ⟨by simp [validReasonCodesForState], by simp, fun found hfound => ?_⟩
    cases hfound
    exact ⟨by simpa using hnone, technology, snapshot, emitted, h⟩

/-- Behind the current policy only the engine is asked. -/
theorem disposed_of_disposeUnder {technology : Technology} {snapshot : PolicySnapshot}
    {disposition : Disposition} (hcarried : getAdapter target.technology = some technology)
    (hclass : p.tables.lower pattern.selectedControlClass = technology.controlClass.toList)
    (hpolicy : p.readSnapshot target.technology target.policyContextId = .returned (some snapshot))
    (h : disposeUnder p c pattern target technology snapshot = .ok disposition) :
    Disposed p c pattern target disposition := by
  unfold disposeUnder at h
  split at h
  · cases h
    exact disposed_of_gated (by simp [validReasonCodesForState]) (by simp) (by simp)
  · rename_i hexpected
    obtain ⟨found, hfound, h⟩ := bind_eq_ok.mp h
    obtain ⟨-, -, h⟩ := bind_eq_ok.mp h
    obtain rfl := pure_eq_ok.mp h
    cases houtcome : engineOutcome p c pattern target technology snapshot with
    | success emitted =>
        rw [houtcome] at hfound
        obtain rfl := Except.ok.inj hfound
        have hvetted : Vetted p c pattern target (qualified c.qualification emitted) technology
            snapshot emitted := by
          refine ⟨hcarried, hclass, hpolicy, fun id hid => ?_, houtcome, rfl⟩
          rw [hid] at hexpected
          simpa [Option.filter] using hexpected
        exact disposed_of_candidate hvetted
    | failure failure =>
        rw [houtcome] at hfound
        obtain rfl := Except.ok.inj hfound
        exact disposed_of_failure failure
    | cancelled =>
        rw [houtcome] at hfound
        cases hfound
    | raised =>
        rw [houtcome] at hfound
        cases hfound

/-- Whatever the providers do, a request that is disposed of is disposed of well. -/
theorem disposed_of_dispose {disposition : Disposition}
    (h : dispose p c pattern target = .ok disposition) :
    Disposed p c pattern target disposition := by
  unfold dispose at h
  split at h
  · cases h
    exact disposed_of_gated (by simp [validReasonCodesForState]) (by simp) (by simp)
  · rename_i technology hcarried
    split_ifs at h with hclass
    · cases h
      exact disposed_of_gated (by simp [validReasonCodesForState]) (by simp) (by simp)
    · obtain ⟨-, -, h⟩ := bind_eq_ok.mp h
      obtain ⟨snapshot, hsnapshot, h⟩ := bind_eq_ok.mp h
      obtain ⟨-, -, h⟩ := bind_eq_ok.mp h
      cases snapshot with
      | none =>
          obtain rfl := pure_eq_ok.mp h
          exact disposed_of_gated (by simp [validReasonCodesForState]) (by simp) (by simp)
      | some snapshot =>
          exact disposed_of_disposeUnder hcarried (not_not.mp hclass)
            (answered_eq_ok.mp hsnapshot) h

/-- The adapter of a vetted candidate accepted its content and listed its conflicts, and
the content is hashed as it is. -/
theorem Vetted.passed {candidate emitted : Success} {technology : Technology}
    {snapshot : PolicySnapshot}
    (h : Vetted p c pattern target candidate technology snapshot emitted) :
    ∃ proposal source fromDoer, TranslationEngine.Passed (engineServices p pattern c)
      (engineRequest p c pattern target technology snapshot) proposal source fromDoer emitted := by
  obtain ⟨-, source, fromDoer, proposal, -, -, hpassed⟩ :=
    TranslationEngine.translate_success h.outcome
  exact ⟨proposal, source, fromDoer, hpassed⟩

/-- What a call answers, it answers from the disposition of its pattern. -/
theorem invoke_eq_ok {found : ResultEnvelope} (h : invoke p settings minted c = .ok found) :
    ∃ pattern disposition, c.request.provenPattern = some pattern ∧
      Disposed p c pattern (effectiveTarget p.trim settings c.request) disposition ∧
      found = envelope settings minted c.correlationId disposition.llmInvoked
        disposition.proposalSource
        (buildResult c minted pattern (effectiveTarget p.trim settings c.request) disposition) := by
  unfold invoke at h
  obtain ⟨-, -, h⟩ := bind_eq_ok.mp h
  cases hpattern : c.request.provenPattern with
  | none =>
      rw [hpattern] at h
      cases h
  | some pattern =>
      rw [hpattern] at h
      obtain ⟨disposition, hdisposition, h⟩ := bind_eq_ok.mp h
      exact ⟨pattern, disposition, rfl, disposed_of_dispose hdisposition, (pure_eq_ok.mp h).symm⟩

/-- What stops a call: a signal, the policy reader, the engine, or that it has no pattern. -/
inductive Interrupted (p : Providers) (settings : Settings) (c : Call) : Stop → Prop
  | signalled (place : Place) (hsignal : p.signal place = true) :
      Interrupted p settings c .cancelled
  | withoutPattern (hpattern : c.request.provenPattern = none) : Interrupted p settings c .raised
  | reading (stop : Stop)
      (hread : answered (p.readSnapshot (effectiveTarget p.trim settings c.request).technology
        (effectiveTarget p.trim settings c.request).policyContextId) = .error stop) :
      Interrupted p settings c stop
  | cancelled (pattern : ProvenPattern) (hpattern : c.request.provenPattern = some pattern)
      (technology : Technology) (snapshot : PolicySnapshot)
      (houtcome : engineOutcome p c pattern (effectiveTarget p.trim settings c.request) technology
        snapshot = .cancelled) : Interrupted p settings c .cancelled
  | raised (pattern : ProvenPattern) (hpattern : c.request.provenPattern = some pattern)
      (technology : Technology) (snapshot : PolicySnapshot)
      (houtcome : engineOutcome p c pattern (effectiveTarget p.trim settings c.request) technology
        snapshot = .raised) : Interrupted p settings c .raised

/-- A look for cancellation ends the call only when it finds one. -/
theorem ends_checkCancelled {kind : Stop → Prop} {signal : Bool}
    (h : signal = true → ¬ kind .cancelled) :
    Ends kind (fun _ => True) (checkCancelled signal) := by
  cases signal with
  | false => exact ends_ok.mpr trivial
  | true => exact ends_error.mpr (h rfl)

/-- A provider ends the call only by not answering. -/
theorem ends_answered {α : Type} {kind : Stop → Prop} {reply : Reply α}
    (h : ∀ stop, answered reply = .error stop → ¬ kind stop) :
    Ends kind (fun a => reply = .returned a) (answered reply) := by
  cases reply with
  | returned a => exact ends_ok.mpr rfl
  | raised detail => exact ends_error.mpr (h _ rfl)
  | cancelled => exact ends_error.mpr (h _ rfl)

/-- A request with a pattern is disposed of, or something behind a gate stops it. -/
theorem ends_dispose (hpattern : c.request.provenPattern = some pattern) :
    Ends (fun stop => ¬ Interrupted p settings c stop) (fun _ => True)
      (dispose p c pattern (effectiveTarget p.trim settings c.request)) := by
  have hsignal : ∀ place, Ends (fun stop => ¬ Interrupted p settings c stop) (fun _ => True)
      (checkCancelled (p.signal place)) := fun place =>
    ends_checkCancelled fun h => not_not.mpr (.signalled place h)
  unfold dispose
  split
  · exact ends_ok.mpr trivial
  · rename_i technology _
    split_ifs
    · exact ends_ok.mpr trivial
    · refine (hsignal .beforeSnapshot).bind fun _ _ =>
        (ends_answered fun stop h => not_not.mpr (.reading stop h)).bind fun snapshot _ =>
        (hsignal .afterSnapshot).bind fun _ _ => ?_
      cases snapshot with
      | none => exact ends_ok.mpr trivial
      | some snapshot =>
          change Ends _ _ (disposeUnder p c pattern _ technology snapshot)
          unfold disposeUnder
          split
          · exact ends_ok.mpr trivial
          · refine Ends.bind (P := fun _ => True) ?_ fun disposition _ =>
              (hsignal .afterTranslate).bind fun _ _ => ends_ok.mpr trivial
            cases houtcome : engineOutcome p c pattern (effectiveTarget p.trim settings c.request)
              technology snapshot with
            | success emitted => exact ends_ok.mpr trivial
            | failure failure => exact ends_ok.mpr trivial
            | cancelled =>
                exact ends_error.mpr
                  (not_not.mpr (.cancelled pattern hpattern technology snapshot houtcome))
            | raised =>
                exact ends_error.mpr
                  (not_not.mpr (.raised pattern hpattern technology snapshot houtcome))

/-- A call answers, or something outside it stops it, or it has no pattern. -/
theorem ends_invoke (p : Providers) (settings : Settings) (minted : Minted) (c : Call) :
    Ends (fun stop => ¬ Interrupted p settings c stop)
      (fun found => invoke p settings minted c = .ok found) (invoke p settings minted c) := by
  have hends : Ends (fun stop => ¬ Interrupted p settings c stop) (fun _ => True)
      (invoke p settings minted c) := by
    refine (ends_checkCancelled fun h => not_not.mpr (.signalled .start h)).bind fun _ _ => ?_
    cases hpattern : c.request.provenPattern with
    | none => exact ends_error.mpr (not_not.mpr (.withoutPattern hpattern))
    | some pattern => exact (ends_dispose hpattern).bind fun _ _ => ends_ok.mpr trivial
  exact ⟨hends.safe, fun found h => h⟩

end CapabilityRouting
