import Mathlib.Data.List.Sort
import ControlTranslation.JsonValue

/-!
# Resolving a proof loop

A translation starts from three records of the fast proof loop: the Defense
Generation result, the Mitigation Check that blocked the attack, and the Bypass
Validation.  The resolver fetches them by reference, checks what they are and
that they belong to one lineage, and assembles the proven pattern.

The resolver of the records, the strict contract's trimming of texts and the
derivation of the request-field feature are the fields of `Environment`; nothing
is assumed of them.  A failure the service answers is a `resolution` error,
anything else escapes.  Cancellation between the steps is not modelled.
-/

namespace ProofLoop

open PyText JsonValue

/-- The three results a proof loop ends with. -/
inductive Role
  | defenseGeneration
  | mitigationCheck
  | bypassValidation
  deriving DecidableEq, Repr

/-- The role as an error names it. -/
def Role.label : Role → String
  | .defenseGeneration => "Defense Generation"
  | .mitigationCheck => "Mitigation Check"
  | .bypassValidation => "Bypass Validation"

/-- `role.lower().replace(" ", "-")`. -/
def Role.capability : Role → Str
  | .defenseGeneration => "defense-generation".toList
  | .mitigationCheck => "mitigation-check".toList
  | .bypassValidation => "bypass-validation".toList

/-- How resolving can fail. -/
inductive ResolveError
  /-- `UpstreamResolutionError`. -/
  | resolution (message : String)
  | cancelled
  /-- Any other exception, by its kind. -/
  | other (kind : String)
  deriving DecidableEq, Repr

/-- A step of resolving. -/
abbrev Resolution (α : Type) := Except ResolveError α

/-- Fail with a resolution error unless a check passes. -/
def require (check : Bool) (message : String) : Resolution Unit :=
  if check then .ok () else .error (.resolution message)

theorem bind_eq_ok {α β : Type} {x : Resolution α} {f : α → Resolution β} {b : β} :
    (x >>= f) = .ok b ↔ ∃ a, x = .ok a ∧ f a = .ok b := by
  cases x with
  | error e => simp [bind, Except.bind]
  | ok a => simp [bind, Except.bind]

theorem ok_bind {α β : Type} (a : α) (f : α → Resolution β) : (Except.ok a >>= f) = f a := rfl

theorem require_eq_ok {check : Bool} {message : String} {u : Unit} :
    require check message = .ok u ↔ check = true := by
  cases check <;> simp [require]

theorem pure_eq_ok {α : Type} {a b : α} : (pure a : Resolution α) = .ok b ↔ a = b := by
  simp [pure, Except.pure]

/-- A result reference; resolution reads the key. -/
structure Reference where
  system : Str
  catalog : Option Str
  schemaName : Option Str
  table : Option Str
  key : Str
  deriving DecidableEq, Repr

/-- Where the three results are stored. -/
structure References where
  defenseGeneration : Reference
  mitigationCheck : Reference
  bypassValidation : Reference
  deriving DecidableEq, Repr

/-- An immutable completion supplied by the orchestration. -/
structure Locator where
  capability : Str
  runId : Str
  resultId : Str
  terminalState : Str
  status : Str
  requestId : Option Str
  correlationId : Str
  contentSha256 : Option Str
  sizeBytes : Option Nat
  /-- The instant in microseconds. -/
  createdAt : Option Int
  deriving DecidableEq, Repr

/-- The two states bypass validation may end in. -/
inductive BypassState
  | noBypassFound
  | bypassFound
  deriving DecidableEq, Repr

/-- The state as it is written. -/
def BypassState.text : BypassState → Str
  | .noBypassFound => "no-bypass-found".toList
  | .bypassFound => "bypass-found".toList

/-- How the loop ended, as the caller says. -/
structure RoutingMetadata where
  loopExhausted : Bool
  completedIterations : Nat
  maxIterations : Nat
  bypassValidationTerminalState : BypassState
  bypassValidationResultRef : Reference
  deriving DecidableEq, Repr

/-- A fetched result with what its row says of it. -/
structure UpstreamRecord where
  resultId : Str
  terminalState : Str
  correlationId : Option Str
  subjectRecordRevisionId : Option Str
  request : Members
  result : Members

/-- A text or `None`. -/
def optionalText : Option Str → JsonValue
  | some s => .text s
  | none => .null

/-- The document a record is searched as. -/
def UpstreamRecord.document (record : UpstreamRecord) : JsonValue :=
  .object [("result_id".toList, .text record.resultId),
    ("terminal_state".toList, .text record.terminalState),
    ("correlation_id".toList, optionalText record.correlationId),
    ("subject_record_revision_id".toList, optionalText record.subjectRecordRevisionId),
    ("request".toList, .object record.request),
    ("result".toList, .object record.result)]

/-- The three fetched results. -/
structure Records where
  defense : UpstreamRecord
  mitigation : UpstreamRecord
  bypass : UpstreamRecord

/-- The record of a role. -/
def Records.of (records : Records) : Role → UpstreamRecord
  | .defenseGeneration => records.defense
  | .mitigationCheck => records.mitigation
  | .bypassValidation => records.bypass

/-- The request a mitigation was checked against. -/
structure RequestContext where
  method : Str
  path : Str
  headers : List (Str × Str)
  body : Str
  deriving DecidableEq, Repr

/-- How the value of a feature is matched. -/
inductive ValueMatch
  | exact
  | containsToken
  | fieldPresent
  deriving DecidableEq, Repr

/-- A field of a JSON body that the pattern depends on. -/
structure JsonBodyFieldFeature where
  fieldPath : List Str
  value : Str
  valueMatch : ValueMatch
  deriving DecidableEq, Repr

/-- The pattern the loop has proved, as translation takes it. -/
structure ProvenPattern where
  provenPatternId : Str
  vulnerabilityId : Str
  selectedControlClass : Str
  discriminatorId : Str
  discriminatorDescription : Str
  patternSummary : Str
  proofRecordIds : List Str
  jsonBodyFieldFeature : Option JsonBodyFieldFeature
  deriving DecidableEq, Repr

/-- The route a loop takes to translation. -/
inductive Route
  | validated
  | pocExhaustion
  deriving DecidableEq, Repr

/-- How far the loop got, as the result repeats it. -/
structure Qualification where
  route : Route
  bypassCleared : Bool
  loopExhausted : Bool
  completedIterations : Nat
  maxIterations : Nat
  bypassValidationTerminalState : BypassState
  bypassValidationResultRef : Reference
  deriving DecidableEq, Repr

/-- A known sample that gets past the pattern. -/
structure BypassCounterexample where
  counterexampleId : Str
  sampleRef : Str
  variantFamily : Str
  observedBehavior : Str
  evidenceRefs : List Str
  deriving DecidableEq, Repr

/-- What the next translation is asked to meet. -/
structure TranslationRequirements where
  originalPayload : Option Str
  bypassPayload : Option Str
  bypassVariantOrEncoding : Option Str
  constraintForNextCandidate : Option Str
  postWafCanonicalForms : List Str
  effectiveRequest : Option Members
  mutationLocation : Option Members

/-- Everything resolving a loop gives. -/
structure ResolvedProofLoop where
  pattern : ProvenPattern
  references : References
  qualification : Qualification
  targetTechnology : Option Str
  targetPolicyContextId : Option Str
  bypassCounterexample : Option BypassCounterexample
  bypassEvidenceRefs : List Str
  translationRequirements : Option TranslationRequirements
  requestContext : Option RequestContext

/-- What resolution relies on outside itself. -/
structure Environment where
  /-- The resolver's answer to the one fetch of a role. -/
  fetch : Role → Reference → Option Locator → Resolution (Option UpstreamRecord)
  /-- The trimming a strict contract applies to every text. -/
  trim : Str → Str
  /-- `_json_body_field_feature`. -/
  feature : Option RequestContext → Str → Str → Resolution (Option JsonBodyFieldFeature)

/-- The capability and the contracts of a role. -/
def acceptedContracts : Role → List Str
  | .defenseGeneration =>
      ["defense-generation@1.0".toList, "defense-generation-result@1.0".toList]
  | .mitigationCheck => ["mitigation-check@1.0".toList]
  | .bypassValidation => ["bypass-validation@1.0".toList]

/-- Membership of a value in a set of texts; a list or an object has no hash. -/
def inTextSet (texts : List Str) : JsonValue → Resolution Bool
  | .text s => .ok (texts.contains s)
  | .array _ => .error (.other "unhashable type")
  | .object _ => .error (.other "unhashable type")
  | _ => .ok false

/-- `_validate_record_identity`. -/
def validateRecordIdentity (role : Role) (record : UpstreamRecord) : Resolution Unit := do
  let capability := get record.result "capability".toList
  require (capability.isNull || capability.asText == some role.capability)
    (role.label ++ " capability identity is invalid")
  let contractId := get record.result "contract_id".toList
  if contractId.isNull then pure ()
  else
    let accepted ← inTextSet (acceptedContracts role) contractId
    require accepted (role.label ++ " result contract is unsupported")

/-- The locator of a role; a later one replaces an earlier one. -/
def locatorOf (locators : Option (List Locator)) (role : Role) : Option Locator :=
  (locators.getD []).reverse.find? fun locator => locator.capability = role.capability

/-- What a failed fetch is reported as. -/
def fetchFailure (role : Role) : ResolveError → ResolveError
  | .other _ => .resolution (role.label ++ " result could not be fetched")
  | e => e

/-- The checks on a fetched record. -/
def checkRecord (role : Role) (reference : Reference) (requiredState : Str)
    (record : UpstreamRecord) : Resolution Unit := do
  require (record.resultId == reference.key)
    (role.label ++ " result ID does not match its reference")
  require (record.terminalState == requiredState)
    (role.label ++ " terminal state must be '" ++ String.ofList requiredState ++ "'")
  validateRecordIdentity role record

/-- Fetch one record and check it. -/
def fetchRecord (env : Environment) (locators : Option (List Locator)) (role : Role)
    (reference : Reference) (requiredState : Str) : Resolution UpstreamRecord := do
  let locator := locatorOf locators role
  require (locators.isNone || locator.isSome) (role.label ++ " immutable locator is missing")
  match env.fetch role reference locator with
  | .error e => .error (fetchFailure role e)
  | .ok none => .error (.resolution (role.label ++ " result reference was not found"))
  | .ok (some record) =>
      checkRecord role reference requiredState record
      pure record

/-- Fetch the three records, in order. -/
def fetchRecords (env : Environment) (locators : Option (List Locator))
    (references : References) (bypassState : BypassState) : Resolution Records := do
  let defense ← fetchRecord env locators .defenseGeneration references.defenseGeneration
    "candidate-produced".toList
  let mitigation ← fetchRecord env locators .mitigationCheck references.mitigationCheck
    "blocked".toList
  let bypass ← fetchRecord env locators .bypassValidation references.bypassValidation
    bypassState.text
  pure ⟨defense, mitigation, bypass⟩

/-- The lineage checks every record goes through. -/
def checkLineage (correlationId : Str) (subject : Option Str) (hasSubject : Bool)
    (role : Role) (record : UpstreamRecord) : Resolution Unit := do
  let recordCorrelation := oneValue record.document "correlation_id".toList
  let recordSubject := oneValue record.document "subject_record_revision_id".toList
  require (recordCorrelation.all (· = correlationId))
    (role.label ++ " correlation lineage could not be validated")
  require (recordCorrelation.isSome || hasSubject)
    (role.label ++ " correlation lineage could not be validated")
  require (subject.all fun s => s = [] || recordSubject.all (· = s))
    (role.label ++ " subject lineage could not be validated")
  require (recordSubject.isSome || hasSubject)
    (role.label ++ " subject lineage could not be validated")

/-- The members of an object under a key, or none. -/
def nested (members : Members) (key : String) : Members :=
  ((get members key.toList).asObject).getD []

/-- `_role_vulnerability_id`. -/
def roleVulnerabilityId (role : Role) (record : UpstreamRecord) : Option Str :=
  let primary := (get (nested record.result "primary_candidate")
    "vulnerability_id".toList).asNonemptyText
  let requested := (get record.request "vulnerability_id".toList).asNonemptyText
  let found := oneValue record.document "vulnerability_id".toList
  match role with
  | .defenseGeneration => (primary.or requested).or found
  | .mitigationCheck => found
  | .bypassValidation =>
      (get (nested record.result "subject") "vulnerability_id".toList).asText.filter
        fun value => "CVE-".toList.isPrefixOf value

/-- `_role_candidate_id`. -/
def roleCandidateId (role : Role) (record : UpstreamRecord) : Option Str :=
  let subject := nested record.result "subject"
  match role with
  | .defenseGeneration =>
      (get (nested record.result "primary_candidate") "candidate_id".toList).asNonemptyText
  | .mitigationCheck => oneValue record.document "candidate_id".toList
  | .bypassValidation =>
      -- Older results hold the source candidate under `vulnerability_id`.
      (get subject "source_candidate_id".toList).asNonemptyText.or
        ((get subject "vulnerability_id".toList).asText.filter
          fun value => "candidate:".toList.isPrefixOf value)

/-- One record against the orchestration subject. -/
def checkSubject (vulnerabilityId candidateId : Str) (role : Role)
    (record : UpstreamRecord) : Resolution Unit := do
  require ((roleVulnerabilityId role record).all (· = vulnerabilityId))
    (role.label ++ " vulnerability lineage does not match orchestration subject")
  require ((roleCandidateId role record).all (· = candidateId))
    (role.label ++ " candidate lineage does not match orchestration subject")

/-- The lineage an orchestration subject binds. -/
def orchestrationLineage (vulnerabilityId candidateId : Str) (records : Records) :
    Resolution (Str × Str) := do
  checkSubject vulnerabilityId candidateId .defenseGeneration records.defense
  checkSubject vulnerabilityId candidateId .mitigationCheck records.mitigation
  checkSubject vulnerabilityId candidateId .bypassValidation records.bypass
  require (roleVulnerabilityId .defenseGeneration records.defense).isSome
    "Defense Generation vulnerability_id is missing"
  require (roleCandidateId .defenseGeneration records.defense).isSome
    "Defense Generation candidate_id is missing"
  pure (vulnerabilityId, candidateId)

/-- `_required_one_value`. -/
def requiredOneValue (key : String) (role : Role) (record : UpstreamRecord) :
    Resolution Str :=
  match oneValue record.document key.toList with
  | some value => .ok value
  | none => .error (.resolution (role.label ++ " " ++ key ++ " is missing or ambiguous"))

/-- The one value under a key in each of the three records. -/
def requiredValues (key : String) (records : Records) : Resolution (Str × Str × Str) := do
  let defense ← requiredOneValue key .defenseGeneration records.defense
  let mitigation ← requiredOneValue key .mitigationCheck records.mitigation
  let bypass ← requiredOneValue key .bypassValidation records.bypass
  pure (defense, mitigation, bypass)

/-- The lineage the records agree on without an orchestration subject. -/
def directLineage (records : Records) : Resolution (Str × Str) := do
  let (v₁, v₂, v₃) ← requiredValues "vulnerability_id" records
  let (c₁, c₂, c₃) ← requiredValues "candidate_id" records
  require (v₁ == v₂ && v₁ == v₃) "upstream vulnerability lineage does not match"
  require (c₁ == c₂ && c₁ == c₃) "upstream candidate lineage does not match"
  pure (v₁, c₁)

/-- `_required_string`. -/
def requiredString (value : JsonValue) (message : String) : Resolution Str :=
  match value.asText.filter fun s => strip s ≠ [] with
  | some s => .ok s
  | none => .error (.resolution message)

/-- `_required_mapping`. -/
def requiredMapping (value : JsonValue) (message : String) : Resolution Members :=
  match value.asObject with
  | some members => .ok members
  | none => .error (.resolution message)

/-- A header table: every value is a text. -/
def headerTable : Members → Option (List (Str × Str))
  | [] => some []
  | (name, .text value) :: rest => (headerTable rest).map ((name, value) :: ·)
  | _ :: _ => none

/-- `_mitigation_request_context`. -/
def mitigationRequestContext (result : Members) : Option RequestContext := do
  let testBasis ← (get result "test_basis".toList).asObject
  let request ← (get testBasis "request".toList).asObject
  let method ← (get request "method".toList).asNonemptyText
  let path ← (get request "path".toList).asNonemptyText
  let body ← (get request "body".toList).asNonemptyText
  let headers ← ((get request "headers".toList).orElse (.object [])).asObject
  let table ← headerTable headers
  pure ⟨method, path, table, body⟩

/-- The strict contract of a proven pattern: texts are trimmed, and the proof
records are distinct and name both results. -/
def validatePattern (trim : Str → Str) (pattern : ProvenPattern) : Resolution ProvenPattern :=
  let ids := pattern.proofRecordIds.map trim
  if ids.length < 2 ∨ ids ≠ unique ids ∨
      ids.any ("mitigation-check-result:".toList.isPrefixOf ·) = false ∨
      ids.any ("bypass-validation-result:".toList.isPrefixOf ·) = false then
    .error (.other "ValidationError")
  else
    .ok ⟨trim pattern.provenPatternId, trim pattern.vulnerabilityId,
      trim pattern.selectedControlClass, trim pattern.discriminatorId,
      trim pattern.discriminatorDescription, trim pattern.patternSummary, ids,
      pattern.jsonBodyFieldFeature⟩

/-- A list of texts. -/
def textItems (items : List JsonValue) : Option (List Str) := items.mapM asText

/-- `BypassCounterexample.model_validate`. -/
def validateCounterexample (value : JsonValue) : Option BypassCounterexample := do
  let members ← value.asObject
  let counterexampleId ← (get members "counterexample_id".toList).asText
  let sampleRef ← (get members "sample_ref".toList).asText
  let variantFamily ← (get members "variant_family".toList).asText
  let observedBehavior ← (get members "observed_behavior".toList).asText
  if members.any (·.1 = "evidence_refs".toList) then
    let items ← (get members "evidence_refs".toList).asArray
    let evidenceRefs ← textItems items
    pure ⟨counterexampleId, sampleRef, variantFamily, observedBehavior, evidenceRefs⟩
  else pure ⟨counterexampleId, sampleRef, variantFamily, observedBehavior, []⟩

/-- The counterexample of a bypass result. -/
def readCounterexample (raw : JsonValue) : Resolution (Option BypassCounterexample) :=
  if raw.isNull then .ok none
  else
    match validateCounterexample raw with
    | some counterexample => .ok (some counterexample)
    | none =>
        .error (.resolution "Bypass Validation counterexample contract is malformed")

/-- The non-empty texts of a value, when it is a list. -/
def nonemptyTexts (value : JsonValue) : List Str :=
  ((value.asArray).getD []).filterMap asNonemptyText

/-- The evidence of a bypass result, sorted and without repetitions. -/
def evidenceRefs (counterexample : Option BypassCounterexample) (feedback : JsonValue) :
    List Str :=
  let own := match counterexample with
    | some c => c.evidenceRefs ++ [c.sampleRef]
    | none => []
  let more := nonemptyTexts (get ((feedback.asObject).getD []) "evidence_refs".toList)
  (unique (own ++ more)).insertionSort fun s t => textLe s t = true

/-- `_preferred_nonempty_string`. -/
def preferredNonemptyString (values : List JsonValue) : Option Str :=
  values.findSome? fun value => value.asText.filter fun s => strip s ≠ []

/-- `_translation_requirements`. -/
def translationRequirements (rawCounterexample feedback : JsonValue) :
    Option TranslationRequirements :=
  let counterexample := (rawCounterexample.asObject).getD []
  let record := (feedback.asObject).getD []
  let own (key : String) := get record key.toList
  let found (key : String) := get counterexample key.toList
  let observation := ((found "waf_observation").asObject).getD []
  let requirements : TranslationRequirements :=
    { originalPayload := preferredNonemptyString [own "original_payload",
        found "original_payload"]
      bypassPayload := preferredNonemptyString [own "bypass_payload", found "payload",
        own "counterexample_body", found "counterexample_body"]
      bypassVariantOrEncoding := preferredNonemptyString [own "bypass_variant_or_encoding",
        found "bypass_variant_or_encoding", found "variant_family"]
      constraintForNextCandidate := preferredNonemptyString
        [own "constraint_for_next_candidate", own "do_not_repeat"]
      postWafCanonicalForms := nonemptyTexts (get observation "canonical_forms".toList)
      effectiveRequest := (found "effective_request").asObject
      mutationLocation := (found "mutation_location").asObject }
  if requirements.originalPayload.isSome || requirements.bypassPayload.isSome ||
      !requirements.postWafCanonicalForms.isEmpty ||
      requirements.bypassVariantOrEncoding.isSome ||
      requirements.constraintForNextCandidate.isSome ||
      requirements.effectiveRequest.any (!·.isEmpty) ||
      requirements.mutationLocation.any (!·.isEmpty) then some requirements
  else none

/-- `_preferred_string`: at the top, in the primary candidate, in the target. -/
def preferredString (documents : List Members) (key : String) : Option Str :=
  documents.findSome? fun document =>
    ((get document key.toList).asNonemptyText.or
      (get (nested document "primary_candidate") key.toList).asNonemptyText).or
        (get (nested document "target_context") key.toList).asNonemptyText

/-- Whether a text is given and not empty. -/
def given (s : Option Str) : Bool := s.any (· ≠ [])

/-- The call of `resolve_proof_loop`. -/
structure ResolveRequest where
  references : References
  correlationId : Option Str
  subjectRecordRevisionId : Option Str
  routingMetadata : RoutingMetadata
  expectedVulnerabilityId : Option Str
  expectedCandidateId : Option Str
  immutableLocators : Option (List Locator)

/-- Whether the orchestration names the subject. -/
def ResolveRequest.hasSubject (r : ResolveRequest) : Bool :=
  given r.expectedVulnerabilityId && given r.expectedCandidateId

/-- The vulnerability and candidate of the records. -/
def lineageOf (r : ResolveRequest) (records : Records) : Resolution (Str × Str) :=
  if r.hasSubject then
    orchestrationLineage (r.expectedVulnerabilityId.getD []) (r.expectedCandidateId.getD [])
      records
  else directLineage records

/-- Assemble the resolved loop from checked records. -/
def assemble (env : Environment) (r : ResolveRequest) (records : Records)
    (vulnerabilityId candidateId : Str) : Resolution ResolvedProofLoop := do
  let defense := records.defense
  let primary ← requiredMapping (get defense.result "primary_candidate".toList)
    "Defense Generation primary_candidate is missing"
  let discriminator ← requiredString
    ((get primary "discriminator".toList).orElse (get defense.request "discriminator".toList))
    "Defense Generation discriminator context is missing"
  let controlClass ← requiredString
    ((get primary "selected_control_class".toList).orElse
      (get defense.request "selected_control_class".toList))
    "Defense Generation selected control class is missing"
  let artifactContent ← requiredString (get primary "artifact_content".toList)
    "Defense Generation candidate artifact content is missing"
  let context := mitigationRequestContext records.mitigation.result
  let feature ← env.feature context discriminator artifactContent
  let state := r.routingMetadata.bypassValidationTerminalState
  let cleared := state = .noBypassFound
  let pattern ← validatePattern env.trim
    { provenPatternId := (if cleared then "proven-pattern:".toList
        else "loop-exhausted-pattern:".toList) ++ candidateId
      vulnerabilityId := vulnerabilityId
      selectedControlClass := controlClass
      discriminatorId := "discriminator:".toList ++ candidateId
      discriminatorDescription := discriminator
      patternSummary := artifactContent
      proofRecordIds := [records.mitigation.resultId, records.bypass.resultId]
      jsonBodyFieldFeature := feature }
  let rawCounterexample := get records.bypass.result "bypass_counterexample".toList
  let counterexample ← readCounterexample rawCounterexample
  let feedback := get records.bypass.result "feedback".toList
  pure {
    pattern := pattern
    references := r.references
    qualification :=
      { route := if cleared then .validated else .pocExhaustion
        bypassCleared := cleared
        loopExhausted := r.routingMetadata.loopExhausted
        completedIterations := r.routingMetadata.completedIterations
        maxIterations := r.routingMetadata.maxIterations
        bypassValidationTerminalState := state
        bypassValidationResultRef := r.routingMetadata.bypassValidationResultRef }
    targetTechnology := preferredString [defense.result, defense.request] "target_technology"
    targetPolicyContextId := preferredString [defense.result, defense.request]
      "target_policy_context_id"
    bypassCounterexample := counterexample
    bypassEvidenceRefs := evidenceRefs counterexample feedback
    translationRequirements := translationRequirements rawCounterexample feedback
    requestContext := context }

/-- `resolve_proof_loop`. -/
def resolveProofLoop (env : Environment) (r : ResolveRequest) :
    Resolution ResolvedProofLoop := do
  require (given r.correlationId) "correlation_id is required for lineage validation"
  require (given r.subjectRecordRevisionId || r.hasSubject)
    ("subject_record_revision_id or an orchestration subject binding is required " ++
      "for lineage validation")
  let records ← fetchRecords env r.immutableLocators r.references
    r.routingMetadata.bypassValidationTerminalState
  let correlationId := r.correlationId.getD []
  checkLineage correlationId r.subjectRecordRevisionId r.hasSubject .defenseGeneration
    records.defense
  checkLineage correlationId r.subjectRecordRevisionId r.hasSubject .mitigationCheck
    records.mitigation
  checkLineage correlationId r.subjectRecordRevisionId r.hasSubject .bypassValidation
    records.bypass
  let (vulnerabilityId, candidateId) ← lineageOf r records
  assemble env r records vulnerabilityId candidateId

end ProofLoop
