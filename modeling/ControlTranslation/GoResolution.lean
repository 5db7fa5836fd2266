import ControlTranslation.GoResults
import ControlTranslation.ProofLoop

/-!
# The Go service resolves a proof loop

The port reads the same three records and makes the checks again in another language:
a text that is missing is empty, a check of a type is an assertion that yields an empty
value, and every failure is an error with a message.  The records, their documents and
the search of a document are those of the Python program; a map has no order, and its
members stand in the order the Python program writes them.

The resolver is asked once for each role, so its answers are a function of the role.
-/

namespace GoProofLoop

open PyText JsonValue GoContracts
open ProofLoop (Role UpstreamRecord Records)

/-- The answer of a resolver. -/
inductive Fetched
  | record (record : UpstreamRecord)
  | absent
  /-- An error that wraps `ErrResolution`. -/
  | unresolved (message : String)
  | failed

/-- `error`, by its message. -/
abbrev Resolution (α : Type) := Except String α

/-- Return a `resolutionError` unless a check passes. -/
def check (passed : Bool) (message : String) : Resolution Unit :=
  if passed then .ok () else .error message

theorem bind_eq_ok {α β : Type} {x : Resolution α} {f : α → Resolution β} {b : β} :
    (x >>= f) = .ok b ↔ ∃ a, x = .ok a ∧ f a = .ok b := by
  cases x with
  | error e => simp [bind, Except.bind]
  | ok a => simp [bind, Except.bind]

theorem pure_eq_ok {α : Type} {a b : α} : (pure a : Resolution α) = .ok b ↔ a = b := by
  simp [pure, Except.pure]

theorem check_eq_ok {passed : Bool} {message : String} {u : Unit} :
    check passed message = .ok u ↔ passed = true := by
  cases passed <;> simp [check]

/-- `ResolveInput`. -/
structure ResolveInput where
  references : UpstreamResultReferences
  correlationId : Str
  subjectRecordRevisionId : Str
  routingMetadata : ProofLoopRoutingMetadata
  expectedVulnerabilityId : Str
  expectedCandidateId : Str

/-- `hasOrchestrationSubject`. -/
def ResolveInput.hasSubject (i : ResolveInput) : Bool :=
  i.expectedVulnerabilityId != [] && i.expectedCandidateId != []

/-- `ResolvedProofLoop`. -/
structure ResolvedProofLoop where
  pattern : ProvenMitigationPattern
  references : UpstreamResultReferences
  qualification : ProofLoopQualification
  targetTechnology : Str
  targetPolicyContextId : Str
  bypassCounterexample : Option BypassCounterexample
  bypassEvidenceRefs : List Str

/-- `firstString`: the first value that is a text and not empty. -/
def firstString (values : List JsonValue) : Str := (values.findSome? asNonemptyText).getD []

/-- `validateRecordIdentity`. -/
def validateRecordIdentity (role : Role) (record : UpstreamRecord) : Resolution Unit := do
  let capability := get record.result "capability".toList
  check (capability.isNull || capability.asText == some role.capability)
    (role.label ++ " capability identity is invalid")
  let contractId := get record.result "contract_id".toList
  check (contractId.isNull ||
      (ProofLoop.acceptedContracts role).contains (contractId.asText.getD []))
    (role.label ++ " result contract is unsupported")

/-- One turn of the loop over the references. -/
def fetchRecord (fetch : Role → Fetched) (role : Role) (reference : DatabricksResultReference)
    (required : Str) : Resolution UpstreamRecord :=
  match fetch role with
  | .unresolved message => .error message
  | .failed => .error (role.label ++ " result could not be fetched")
  | .absent => .error (role.label ++ " result reference was not found")
  | .record record => do
      check (record.resultId == reference.key)
        (role.label ++ " result ID does not match its reference")
      check (record.terminalState == required)
        (role.label ++ " terminal state must be '" ++ String.ofList required ++ "'")
      validateRecordIdentity role record
      pure record

/-- The loop over the references. -/
def fetchRecords (fetch : Role → Fetched) (i : ResolveInput) : Resolution Records := do
  let defense ← fetchRecord fetch .defenseGeneration i.references.defenseGeneration
    "candidate-produced".toList
  let mitigation ← fetchRecord fetch .mitigationCheck i.references.mitigationCheck
    "blocked".toList
  let bypass ← fetchRecord fetch .bypassValidation i.references.bypassValidation
    i.routingMetadata.bypassValidationTerminalState
  pure ⟨defense, mitigation, bypass⟩

/-- One turn of the loop over the lineage of the records. -/
def checkLineage (i : ResolveInput) (role : Role) (record : UpstreamRecord) :
    Resolution Unit := do
  let recordCorrelation := oneValue record.document "correlation_id".toList
  let recordSubject := oneValue record.document "subject_record_revision_id".toList
  check (!(recordCorrelation.any (· != i.correlationId)))
    (role.label ++ " correlation lineage could not be validated")
  check (!(recordCorrelation.isNone && !i.hasSubject))
    (role.label ++ " correlation lineage could not be validated")
  check (!(i.subjectRecordRevisionId != [] &&
      recordSubject.any (· != i.subjectRecordRevisionId)))
    (role.label ++ " subject lineage could not be validated")
  check (!(recordSubject.isNone && !i.hasSubject))
    (role.label ++ " subject lineage could not be validated")

/-- `roleVulnerabilityID`. -/
def roleVulnerabilityId (role : Role) (record : UpstreamRecord) : Str :=
  match role with
  | .defenseGeneration =>
      let requested := firstString [get record.request "vulnerability_id".toList]
      match (get record.result "primary_candidate".toList).asObject with
      | some primary =>
          let value := firstString [get primary "vulnerability_id".toList]
          if value != [] then value else requested
      | none => requested
  | .bypassValidation =>
      match (get record.result "subject".toList).asObject with
      | some subject =>
          let value := firstString [get subject "vulnerability_id".toList]
          if "CVE-".toList.isPrefixOf value then value else []
      | none => []
  | .mitigationCheck => (oneValue record.document "vulnerability_id".toList).getD []

/-- `roleCandidateID`. -/
def roleCandidateId (role : Role) (record : UpstreamRecord) : Str :=
  match role with
  | .defenseGeneration =>
      match (get record.result "primary_candidate".toList).asObject with
      | some primary => firstString [get primary "candidate_id".toList]
      | none => []
  | .bypassValidation =>
      match (get record.result "subject".toList).asObject with
      | none => []
      | some subject =>
          let source := firstString [get subject "source_candidate_id".toList]
          let legacy := firstString [get subject "vulnerability_id".toList]
          if source != [] then source
          else if "candidate:".toList.isPrefixOf legacy then legacy
          else []
  | .mitigationCheck => (oneValue record.document "candidate_id".toList).getD []

/-- One turn of the loop over the records of an orchestration subject. -/
def checkSubject (i : ResolveInput) (role : Role) (record : UpstreamRecord) :
    Resolution Unit := do
  let vulnerability := roleVulnerabilityId role record
  check (!(vulnerability != [] && vulnerability != i.expectedVulnerabilityId))
    (role.label ++ " vulnerability lineage does not match orchestration subject")
  let candidate := roleCandidateId role record
  check (!(candidate != [] && candidate != i.expectedCandidateId))
    (role.label ++ " candidate lineage does not match orchestration subject")

/-- The lineage an orchestration subject binds. -/
def orchestrationLineage (i : ResolveInput) (records : Records) : Resolution (Str × Str) := do
  checkSubject i .defenseGeneration records.defense
  checkSubject i .mitigationCheck records.mitigation
  checkSubject i .bypassValidation records.bypass
  check (roleVulnerabilityId .defenseGeneration records.defense != [])
    "Defense Generation vulnerability_id is missing"
  check (roleCandidateId .defenseGeneration records.defense != [])
    "Defense Generation candidate_id is missing"
  pure (i.expectedVulnerabilityId, i.expectedCandidateId)

/-- One turn of the loop over the records without a subject: the vulnerability first, then
the candidate of the same record. -/
def recordLineage (role : Role) (record : UpstreamRecord) : Resolution (Str × Str) :=
  match oneValue record.document "vulnerability_id".toList with
  | none => .error (role.label ++ " vulnerability_id is missing or ambiguous")
  | some vulnerability =>
      match oneValue record.document "candidate_id".toList with
      | none => .error (role.label ++ " candidate_id is missing or ambiguous")
      | some candidate => .ok (vulnerability, candidate)

/-- The lineage the records agree on. -/
def directLineage (records : Records) : Resolution (Str × Str) := do
  let (v₁, c₁) ← recordLineage .defenseGeneration records.defense
  let (v₂, c₂) ← recordLineage .mitigationCheck records.mitigation
  let (v₃, c₃) ← recordLineage .bypassValidation records.bypass
  check ((unique [v₁, v₂, v₃]).length == 1) "upstream vulnerability lineage does not match"
  check ((unique [c₁, c₂, c₃]).length == 1) "upstream candidate lineage does not match"
  pure (v₁, c₁)

/-- The vulnerability and candidate of the records. -/
def lineageOf (i : ResolveInput) (records : Records) : Resolution (Str × Str) :=
  if i.hasSubject then orchestrationLineage i records else directLineage records

/-- `ValidationError.Error`. -/
def errorText (e : ValidationError) : String :=
  if e.field = "" then e.reason else e.field ++ ": " ++ e.reason

/-- The evidence a counterexample names: a value that is no list names none. -/
def counterexampleRefs (value : JsonValue) : Option (List Str) :=
  match value.asArray with
  | some items => items.mapM asText
  | none => some []

/-- `parseCounterexample`: the message of a failure is never read. -/
def parseCounterexample (raw : JsonValue) : Option BypassCounterexample := do
  let typed ← raw.asObject
  let counterexampleId ← (get typed "counterexample_id".toList).asNonemptyText
  let sampleRef ← (get typed "sample_ref".toList).asNonemptyText
  let variantFamily ← (get typed "variant_family".toList).asNonemptyText
  let observedBehavior ← (get typed "observed_behavior".toList).asNonemptyText
  let refs ← counterexampleRefs (get typed "evidence_refs".toList)
  pure ⟨counterexampleId, sampleRef, variantFamily, observedBehavior, some refs⟩

/-- The counterexample of a bypass result. -/
def readCounterexample (raw : JsonValue) : Resolution (Option BypassCounterexample) :=
  if raw.isNull then .ok none
  else
    match parseCounterexample raw with
    | some counterexample => .ok (some counterexample)
    | none => .error "Bypass Validation counterexample contract is malformed"

/-- `strings.Compare`: texts in the order of their bytes. -/
def bytesLe : List Nat → List Nat → Bool
  | [], _ => true
  | _ :: _, [] => false
  | a :: s, b :: t => a < b || (a == b && bytesLe s t)

/-- `sortedKeys`. -/
def sortedKeys (keys : List Str) : List Str :=
  (unique keys).insertionSort fun s t => bytesLe (s.flatMap utf8) (t.flatMap utf8) = true

/-- The keys of `evidenceSet`. -/
def evidenceSet (counterexample : Option BypassCounterexample) (feedback : JsonValue) :
    List Str :=
  let own := match counterexample with
    | some c => c.evidenceRefs.getD [] ++ [c.sampleRef]
    | none => []
  let refs := get ((feedback.asObject).getD []) "evidence_refs".toList
  own ++ ((refs.asArray).getD []).filterMap asNonemptyText

/-- `preferredString`. -/
def preferredString (key : String) (documents : List Members) : Str :=
  (documents.findSome? fun document =>
    let primary := (get document "primary_candidate".toList).asObject.getD []
    let target := (get document "target_context".toList).asObject.getD []
    [get document key.toList, get primary key.toList, get target key.toList].findSome?
      asNonemptyText).getD []

/-- `bypassCleared`. -/
def ResolveInput.cleared (i : ResolveInput) : Bool :=
  i.routingMetadata.bypassValidationTerminalState == "no-bypass-found".toList

/-- The texts a pattern is made of. -/
structure Texts where
  discriminator : Str
  selectedControlClass : Str
  artifactContent : Str

/-- The texts of a defense record with its primary candidate. -/
def textsOf (defense : UpstreamRecord) (primary : Members) : Texts where
  discriminator := firstString
    [get primary "discriminator".toList, get defense.request "discriminator".toList]
  selectedControlClass := firstString [get primary "selected_control_class".toList,
    get defense.request "selected_control_class".toList]
  artifactContent := firstString [get primary "artifact_content".toList]

/-- The texts of a defense record, none of them empty. -/
def readTexts (defense : UpstreamRecord) : Resolution Texts :=
  match (get defense.result "primary_candidate".toList).asObject with
  | none => .error "Defense Generation primary_candidate is missing"
  | some primary => do
      let texts := textsOf defense primary
      check (texts.discriminator != []) "Defense Generation discriminator context is missing"
      check (texts.selectedControlClass != [])
        "Defense Generation selected control class is missing"
      check (texts.artifactContent != [])
        "Defense Generation candidate artifact content is missing"
      pure texts

/-- The pattern of a lineage. -/
def patternOf (i : ResolveInput) (records : Records) (texts : Texts)
    (vulnerabilityId candidateId : Str) : ProvenMitigationPattern where
  provenPatternId := (if i.cleared then "proven-pattern:".toList
    else "loop-exhausted-pattern:".toList) ++ candidateId
  vulnerabilityId := vulnerabilityId
  selectedControlClass := texts.selectedControlClass
  discriminatorId := "discriminator:".toList ++ candidateId
  discriminatorDescription := texts.discriminator
  patternSummary := texts.artifactContent
  proofRecordIds := [records.mitigation.resultId, records.bypass.resultId]

/-- `pattern.Validate`, with its error wrapped. -/
def validated (pattern : ProvenMitigationPattern) : Resolution ProvenMitigationPattern :=
  match pattern.validate with
  | .error e => .error (errorText e)
  | .ok () => .ok pattern

/-- What is returned. -/
def loopOf (i : ResolveInput) (records : Records) (pattern : ProvenMitigationPattern)
    (counterexample : Option BypassCounterexample) : ResolvedProofLoop where
  pattern := pattern
  references := i.references
  qualification :=
    { route := (if i.cleared then "validated" else "poc-exhaustion").toList
      bypassCleared := i.cleared
      loopExhausted := i.routingMetadata.loopExhausted
      completedIterations := i.routingMetadata.completedIterations
      maxIterations := i.routingMetadata.maxIterations
      bypassValidationTerminalState := i.routingMetadata.bypassValidationTerminalState
      bypassValidationResultRef := i.routingMetadata.bypassValidationResultRef }
  targetTechnology := preferredString "target_technology"
    [records.defense.result, records.defense.request]
  targetPolicyContextId := preferredString "target_policy_context_id"
    [records.defense.result, records.defense.request]
  bypassCounterexample := counterexample
  bypassEvidenceRefs := sortedKeys
    (evidenceSet counterexample (get records.bypass.result "feedback".toList))

/-- `ResolveProofLoop`, once the records and their lineage are known. -/
def assemble (i : ResolveInput) (records : Records) (vulnerabilityId candidateId : Str) :
    Resolution ResolvedProofLoop := do
  let texts ← readTexts records.defense
  let pattern ← validated (patternOf i records texts vulnerabilityId candidateId)
  let counterexample ← readCounterexample
    (get records.bypass.result "bypass_counterexample".toList)
  pure (loopOf i records pattern counterexample)

/-- `ResolveProofLoop`. -/
def resolveProofLoop (fetch : Role → Fetched) (i : ResolveInput) :
    Resolution ResolvedProofLoop := do
  check (i.correlationId != []) "correlation_id is required for lineage validation"
  check (!(i.subjectRecordRevisionId == [] && !i.hasSubject))
    ("subject_record_revision_id or an orchestration subject binding " ++
      "is required for lineage validation")
  let records ← fetchRecords fetch i
  checkLineage i .defenseGeneration records.defense
  checkLineage i .mitigationCheck records.mitigation
  checkLineage i .bypassValidation records.bypass
  let (vulnerabilityId, candidateId) ← lineageOf i records
  assemble i records vulnerabilityId candidateId

end GoProofLoop
