import ControlTranslation.GoJson

/-!
# Reading a producer's result strictly

A stored Defense Generation or Mitigation Check result is accepted under an
immutable locator when it names the row it was read from, carries its own digest
and size, and both agree with the bytes its producer signed.  A result is signed
in one of two forms: a result with the newer marker field is signed whole, as
canonical JSON without its digest and size; an older one is signed as its
producer's struct, field by field.

The digest, the canonical encoder and the reader of ISO timestamps are fields of
`Producer`.  The Bypass Validation and Check Generation shapes have their own
digests and are not modelled.
-/

namespace ResultReader

open PyText JsonValue ProofLoop GoJson

/-- `_RESULT_REF_SCHEMA`. -/
def resultRefSchema : List GoField :=
  [plain "system", omitted "catalog" .string, omitted "schema" .string, plain "table",
    plain "key"]

/-- `_DEFENSE_OUTCOME_REASON_SCHEMA`. -/
def defenseOutcomeReasonSchema : List GoField :=
  [plain "code", plain "detail", omitted "unresolved_payload" .string,
    omitted "encoding_kind" .string, omitted "uncovered_required_form" .string,
    omitted "rejection_reason" .string, omitted "repeated_functional_fingerprint" .string]

/-- `_DEFENSE_COLLATERAL_PRIOR_SCHEMA`. -/
def defenseCollateralPriorSchema : List GoField :=
  [plain "verdict", plain "confidence", plain "basis", plain "gaps", plain "measured"]

/-- `_DEFENSE_CANDIDATE_SCHEMA`. -/
def defenseCandidateSchema : List GoField :=
  [plain "candidate_id", plain "selected_control_class", plain "candidate_kind",
    plain "mitigation_intent", plain "discriminator", plain "expected_block_behavior",
    plain "expected_allow_behavior", plain "artifact_type", plain "artifact_content",
    plain "artifact_hash",
    goField "collateral_impact_prior" (.struct defenseCollateralPriorSchema) none,
    plain "assumptions", plain "limitations", plain "evidence_refs"]

/-- `_DEFENSE_PROOF_HANDOFF_SCHEMA`. -/
def defenseProofHandoffSchema : List GoField :=
  [plain "capability", plain "contract_id", plain "substrate",
    goField "candidate_ref" (.struct resultRefSchema) none, omitted "evidence_refs" .slice]

/-- `_DEFENSE_ATTEMPT_SCHEMA`. -/
def defenseAttemptSchema : List GoField :=
  [plain "candidate_id", plain "outcome", plain "feedback_refs",
    plain "do_not_repeat_constraints"]

/-- `_DEFENSE_UPSTREAM_REF_SCHEMA`. -/
def defenseUpstreamRefSchema : List GoField :=
  [plain "capability", plain "contract_id", omitted "request_id" .string,
    omitted "correlation_id" .string, omitted "run_id" .string, plain "result_id",
    omitted "terminal_state" .string, omitted "status" .string,
    goField "result_ref" (.struct resultRefSchema) none, omitted "evidence_refs" .slice,
    omitted "content_sha256" .string, omitted "size_bytes" .number,
    omitted "created_at" .time]

/-- `_DEFENSE_RESULT_SCHEMA`. -/
def defenseResultSchema : List GoField :=
  [plain "capability", plain "contract_id", plain "request_id", plain "correlation_id",
    plain "run_id", plain "result_id", plain "status", plain "terminal_state",
    goField "result_ref" (.struct resultRefSchema) (some .pointer), plain "evidence_refs",
    goField "outcome_reason" (.struct defenseOutcomeReasonSchema) none,
    goField "primary_candidate" (.struct defenseCandidateSchema) (some .pointer),
    omitted "candidate_bundle" .raw, omitted "candidate_artifact_contents" .raw,
    goField "proof_handoffs" (.struct defenseProofHandoffSchema) (some .slice),
    goField "attempt_history" (.struct defenseAttemptSchema) none, plain "prose_summary",
    plain "request_digest",
    goField "upstream_result_refs" (.struct defenseUpstreamRefSchema) none,
    omitted "content_sha256" .string, omitted "size_bytes" .number, plain "created_at"]

/-- `_MITIGATION_LOCATOR_SCHEMA`. -/
def mitigationLocatorSchema : List GoField :=
  [plain "capability", plain "contract_id", plain "request_id", plain "correlation_id",
    plain "run_id", plain "result_id", plain "status", plain "terminal_state",
    goField "result_ref" (.struct resultRefSchema) none, plain "content_sha256",
    plain "size_bytes", plain "created_at"]

/-- `_MITIGATION_PROVENANCE_SCHEMA`. -/
def mitigationProvenanceSchema : List GoField :=
  [plain "route_policy", goField "defense_result" (.struct mitigationLocatorSchema) none,
    goField "check_result" (.struct mitigationLocatorSchema) none,
    plain "selected_test_basis_id", plain "verification"]

/-- `_MITIGATION_EXPECTED_SCHEMA`. -/
def mitigationExpectedSchema : List GoField :=
  [plain "classification", plain "blocked", plain "status_code"]

/-- `_MITIGATION_ACTUAL_SCHEMA`. -/
def mitigationActualSchema : List GoField :=
  [plain "blocked", plain "status_code", plain "reached_app",
    omitted "matched_rule_id" .string, plain "detail"]

/-- `_MITIGATION_SUBSTRATE_SCHEMA`. -/
def mitigationSubstrateSchema : List GoField :=
  [plain "image", omitted "runner" .string, omitted "container_id" .string,
    omitted "host_port" .number, omitted "fqdn" .string, plain "ready"]

/-- `_MITIGATION_CANDIDATE_SCHEMA`. -/
def mitigationCandidateSchema : List GoField :=
  [plain "kind", plain "engine", plain "rule_id", plain "rule", plain "action"]

/-- `_MITIGATION_REQUEST_SCHEMA`. -/
def mitigationRequestSchema : List GoField :=
  [plain "method", plain "path", plain "headers", plain "body"]

/-- `_MITIGATION_TEST_BASIS_SCHEMA`. -/
def mitigationTestBasisSchema : List GoField :=
  [plain "kind", plain "proof_basis",
    goField "request" (.struct mitigationRequestSchema) none,
    goField "expected" (.struct mitigationExpectedSchema) none]

/-- `_MITIGATION_RESULT_SCHEMA`. -/
def mitigationResultSchema : List GoField :=
  [plain "capability", plain "contract_id", plain "request_id", plain "run_id",
    plain "result_id", plain "terminal_state", plain "status",
    omitted "correlation_id" .string,
    goField "result_ref" (.struct resultRefSchema) (some .pointer), plain "evidence_refs",
    plain "request_sha256", omitted "upstream_inputs" .raw,
    goField "input_provenance" (.struct mitigationProvenanceSchema) (some .pointer),
    omitted "profile_id" .string, omitted "obligation_results" .raw,
    omitted "accounting" .raw, omitted "application_unit" .raw, plain "match",
    goField "expected" (.struct mitigationExpectedSchema) none,
    goField "actual" (.struct mitigationActualSchema) none,
    goField "substrate" (.struct mitigationSubstrateSchema) none,
    goField "candidate" (.struct mitigationCandidateSchema) (some .pointer),
    goField "test_basis" (.struct mitigationTestBasisSchema) (some .pointer), plain "steps",
    plain "prose_summary", omitted "limitations" .slice, omitted "content_sha256" .string,
    omitted "size_bytes" .number, plain "created_at"]

/-- The two shapes a producer's result is read under. -/
inductive Shape
  | defense
  | mitigation
  deriving DecidableEq, Repr

/-- The shape as an error names it. -/
def Shape.role : Shape → String
  | .defense => "Defense Generation"
  | .mitigation => "Mitigation Check"

/-- The capability whose results have the shape. -/
def Shape.capability : Shape → Str
  | .defense => "defense-generation".toList
  | .mitigation => "mitigation-check".toList

/-- The contracts a result of the shape may be under. -/
def Shape.contracts : Shape → List Str
  | .defense => ["defense-generation@1.0".toList, "defense-generation-result@1.0".toList]
  | .mitigation => ["mitigation-check@1.0".toList]

/-- The field whose presence says the whole result is signed. -/
def Shape.marker : Shape → Str
  | .defense => "candidate_bundle".toList
  | .mitigation => "profile_id".toList

/-- The fields the shape is read with. -/
def Shape.schema : Shape → List GoField
  | .defense => defenseResultSchema
  | .mitigation => mitigationResultSchema

/-- What reading relies on outside itself. -/
structure Producer where
  /-- The hexadecimal SHA-256 of some bytes. -/
  sha256 : ByteArray → Str
  /-- `rfc8785.dumps`, as text; a value outside its domain is refused. -/
  rfc8785 : JsonValue → Option Str
  /-- `datetime.fromisoformat`, in microseconds; a naive time is in UTC. -/
  fromisoformat : Str → Option Int

/-- The result without its own digest and size. -/
def withoutIntegrity (result : Members) : Members :=
  result.filter fun member =>
    !(member.1 == "content_sha256".toList || member.1 == "size_bytes".toList)

/-- The result with its digest and size blanked. -/
def blankIntegrity (result : Members) : Members :=
  setMember (setMember result "content_sha256".toList (.text []))
    "size_bytes".toList (.number ['0'])

/-- Whether a result is signed whole. -/
def signedWhole (shape : Shape) (result : Members) : Bool := (get result shape.marker).truthy

/-- `_producer_integrity_bytes`, before it is encoded. -/
def producerIntegrityBytes (producer : Producer) (shape : Shape) (result : Members) :
    Resolution Str :=
  if signedWhole shape result then
    match producer.rfc8785 (.object (withoutIntegrity result)) with
    | some payload => .ok payload
    | none => .error (.other "CanonicalizationError")
  else goOrderedJson (blankIntegrity result) shape.schema

/-- `encode("utf-8")`. -/
def utf8 (text : Str) : ByteArray := ⟨(text.flatMap String.utf8EncodeChar).toArray⟩

/-- The digest of a text. -/
def digestOf (producer : Producer) (payload : Str) : Str :=
  "sha256:".toList ++ producer.sha256 (utf8 payload)

/-- `_producer_integrity`. -/
def producerIntegrity (producer : Producer) (shape : Shape) (result : Members) :
    Resolution (Str × Nat) := do
  let payload ← producerIntegrityBytes producer shape result
  pure (digestOf producer payload, (utf8 payload).size)

/-- The stored row of a result. -/
structure Row where
  runId : Str
  resultId : Str
  /-- The terminal-state column; a mitigation row has none. -/
  terminalState : Str
  /-- The production time of a defense row, as an instant or as text. -/
  producedAt : Option (Int ⊕ Str)
  deriving DecidableEq

/-- `is_strict_locator`. -/
def isStrict (locator : Locator) : Bool :=
  locator.requestId.isSome && locator.contentSha256.isSome && locator.sizeBytes.isSome &&
    locator.createdAt.isSome

/-- A reference as it is written: what is absent is left out. -/
def referenceTexts (reference : Reference) : List (Str × Str) :=
  [("system".toList, some reference.system), ("catalog".toList, reference.catalog),
    ("schema".toList, reference.schemaName), ("table".toList, reference.table),
    ("key".toList, some reference.key)].filterMap fun entry => entry.2.map (entry.1, ·)

/-- What a field is compared with. -/
inductive Expected
  | text (s : Str)
  | resultRef (reference : Reference)

/-- `value == expected`. -/
def Expected.holds (value : JsonValue) : Expected → Bool
  | .text s => value.asText == some s
  | .resultRef reference =>
      match value with
      | .object members =>
          members.length == (referenceTexts reference).length &&
            (referenceTexts reference).all fun entry =>
              (get members entry.1).asText == some entry.2
      | _ => false

/-- Compare the fields of a result, in order; a missing field is passed over
unless all are required. -/
def checkFields (all : Bool) (role problem : String) (result : Members) :
    List (String × Expected) → Resolution Unit
  | [] => .ok ()
  | (name, expected) :: rest => do
      require (!(all || hasKey result name.toList) || expected.holds (get result name.toList))
        (role ++ " result " ++ name ++ problem)
      checkFields all role problem result rest

/-- The terminal state a row answers for a result.  A value that is no text is
not equal to its own spelling, whichever that is. -/
def rowTerminalState (shape : Shape) (row : Row) (result : Members) : Str :=
  match shape with
  | .defense => row.terminalState
  | .mitigation => ((get result "terminal_state".toList).asText).getD []

/-- The identities a row fixes. -/
def identities (shape : Shape) (reference : Reference) (row : Row) (result : Members) :
    List (String × Expected) :=
  [("run_id", .text row.runId), ("result_id", .text row.resultId),
    ("terminal_state", .text (rowTerminalState shape row result)),
    ("result_ref", .resultRef reference), ("status", .text "completed".toList)]

/-- The values a locator fixes. -/
def locatorValues (reference : Reference) (locator : Locator) : List (String × Expected) :=
  [("run_id", .text locator.runId), ("result_id", .text locator.resultId),
    ("terminal_state", .text locator.terminalState), ("result_ref", .resultRef reference),
    ("request_id", .text (locator.requestId.getD [])),
    ("correlation_id", .text locator.correlationId), ("status", .text locator.status)]

/-- A number or a truth value equal to a size. -/
def equalsSize (size : Nat) : JsonValue → Bool
  | .number literal =>
      literal == Nat.toDigits 10 size || literal == Nat.toDigits 10 size ++ ['.', '0']
  | .bool b => size == b.toNat
  | _ => false

/-- `_parse_datetime` on a member of a result. -/
def parseCreatedAt (producer : Producer) (role : String) : JsonValue → Resolution Int
  | .text s =>
      match producer.fromisoformat s with
      | some instant => .ok instant
      | none => .error (.resolution (role ++ " created_at is invalid"))
  | _ => .error (.resolution (role ++ " created_at is missing"))

/-- `_parse_datetime` on a column. -/
def parseProducedAt (producer : Producer) (role : String) : Int ⊕ Str → Resolution Int
  | .inl instant => .ok instant
  | .inr s => parseCreatedAt producer role (.text s)

/-- Who the result says it is. -/
def verifyIdentity (shape : Shape) (reference : Reference) (strict : Bool) (row : Row)
    (result : Members) : Resolution Unit := do
  require (row.resultId == reference.key)
    (shape.role ++ " row result_id does not match its reference")
  require ((get result "capability".toList).asText == some shape.capability)
    (shape.role ++ " capability identity is invalid")
  let supported ← inTextSet shape.contracts (get result "contract_id".toList)
  require supported (shape.role ++ " result contract is unsupported")
  checkFields strict shape.role " does not match the immutable row" result
    (identities shape reference row result)

/-- The digest and size, which the result has to declare itself. -/
def verifyDeclared (producer : Producer) (shape : Shape) (result : Members) :
    Resolution (Str × Nat) := do
  let integrity ← producerIntegrity producer shape result
  require ((get result "content_sha256".toList).asText == some integrity.1 &&
      equalsSize integrity.2 (get result "size_bytes".toList))
    (shape.role ++ " canonical digest or size is invalid")
  pure integrity

/-- The row's own time, when it has one. -/
def verifyProducedAt (producer : Producer) (role : String) (createdAt : Int) :
    Option (Int ⊕ Str) → Resolution Unit
  | none => .ok ()
  | some column => do
      let producedAt ← parseProducedAt producer role column
      require (producedAt == createdAt)
        (role ++ " row created_at differs from the canonical result")

/-- The result against a strict locator. -/
def verifyLocator (producer : Producer) (shape : Shape) (reference : Reference)
    (locator : Locator) (row : Row) (result : Members) (integrity : Str × Nat) :
    Resolution Unit := do
  checkFields true shape.role " differs from the immutable locator" result
    (locatorValues reference locator)
  require (some integrity.1 == locator.contentSha256 && some integrity.2 == locator.sizeBytes)
    (shape.role ++ " canonical digest or size differs from the immutable locator")
  let createdAt ← parseCreatedAt producer shape.role
    ((get result "created_at".toList).orElse (get result "produced_at".toList))
  require locator.createdAt.isSome (shape.role ++ " immutable locator created_at is missing")
  require (some createdAt == locator.createdAt)
    (shape.role ++ " created_at differs from the immutable locator")
  verifyProducedAt producer shape.role createdAt row.producedAt

/-- `_verify_immutable_result`. -/
def verifyImmutableResult (producer : Producer) (shape : Shape) (reference : Reference)
    (locator : Option Locator) (row : Row) (result : Members) : Resolution Unit := do
  let strict := locator.any isStrict
  verifyIdentity shape reference strict row result
  if strict || !(get result "content_sha256".toList).isNull ||
      !(get result "size_bytes".toList).isNull then
    let integrity ← verifyDeclared producer shape result
    (locator.filter isStrict).elim (.ok ()) fun strictLocator =>
      verifyLocator producer shape reference strictLocator row result integrity
  else pure ()

/-- A stored result: the row and the document it decodes to. -/
structure StoredResult where
  row : Row
  document : Document

/-- Accepted under a strict locator. -/
def Accepted (producer : Producer) (shape : Shape) (reference : Reference)
    (locator : Locator) (stored : StoredResult) : Prop :=
  isStrict locator = true ∧
    verifyImmutableResult producer shape reference (some locator) stored.row
      stored.document.members = .ok ()

end ResultReader
