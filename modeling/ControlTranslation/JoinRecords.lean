import ControlTranslation.SharedContracts

/-!
# The records of a join

Four upstream results come with a locator each: who produced the result, under
which identities, and the digest and size of the bytes that were authenticated.
A record is checked against its locator before anything in it is read.
-/

namespace SharedContracts

open PyText JsonValue

/-- What the checks of a join use besides. -/
structure JoinServices extends Services where
  /-- What the offline schema catalog has against a document first, if anything. -/
  schemaError : String → JsonValue → Option Str
  /-- `datetime.fromisoformat`, in UTC. -/
  instant : Str → Option ℤ
  /-- `urllib.parse.unquote`. -/
  unquote : Str → Str
  /-- `str.isdigit` on one code point. -/
  isDigit : Char → Bool
  /-- The bytes of an embedded profile. -/
  profileFile : String → Bytes

/-- `catalog.validate`. -/
def validateSchema (s : JoinServices) (schema : String) (document : JsonValue) : Checked Unit :=
  match s.schemaError schema document with
  | none => .ok ()
  | some reason => refuse "schema-invalid" reason

/-- `value == text`. -/
def hasText (value : JsonValue) (t : Str) : Bool := value.asText == some t

/-- The literal of a count. -/
def natNumber (n : Nat) : JsonValue := .number (AkamaiAdapter.natText n)

/-- `document.get(key, default)`. -/
def fieldOr (members : Members) (key : String) (default : JsonValue) : JsonValue :=
  if hasField members key then field members key else default

/-- `value is True`. -/
def isTrue : JsonValue → Bool
  | .bool b => b
  | _ => false

/-- `value is False`. -/
def isFalse : JsonValue → Bool
  | .bool b => !b
  | _ => false

/-- Whether two lists of texts have the same members. -/
def sameSet (a b : List Str) : Bool := a.all b.contains && b.all a.contains

/-- `set(texts) == set(value)`; a set does not hold lists and dictionaries. -/
def isSetOf (texts : List Str) (value : JsonValue) : Option Bool :=
  match iterate value with
  | .ok items =>
      (anyOf (items.map fun item => (inTexts texts item).map (!·))).map fun outside =>
        !outside && texts.all fun t => items.any fun item => hasText item t
  | .error _ => none

/-- Two lists are one set when they have the same members. -/
theorem sameSet_iff {a b : List Str} : sameSet a b = true ↔ ∀ t, t ∈ a ↔ t ∈ b := by
  simp only [sameSet, Bool.and_eq_true, List.all_eq_true, List.contains_iff_mem]
  constructor
  · rintro ⟨hab, hba⟩ t
    exact ⟨hab t, hba t⟩
  · intro h
    exact ⟨fun t => (h t).mp, fun t => (h t).mpr⟩

/-- The parties of the join. -/
inductive Capability
  | checkGeneration | defenseGeneration | mitigationCheck | bypassValidation
  deriving DecidableEq

namespace Capability

/-- The four capabilities whose results are joined. -/
def all : List Capability :=
  [checkGeneration, defenseGeneration, mitigationCheck, bypassValidation]

/-- The name a capability goes by in a record. -/
def name : Capability → String
  | checkGeneration => "check-generation"
  | defenseGeneration => "defense-generation"
  | mitigationCheck => "mitigation-check"
  | bypassValidation => "bypass-validation"

end Capability

/-- `SharedContractV2UpstreamInput`; the creation time is as it is written. -/
structure Locator where
  capability : Capability
  contractId : Str
  runId : Str
  resultId : Str
  terminalState : Str
  requestId : Str
  correlationId : Str
  resultRef : Members
  evidenceRefs : List Str
  contentSha256 : Str
  sizeBytes : Nat
  createdAt : Str

/-- `locator.model_dump(mode="json", by_alias=True)`. -/
def Locator.document (locator : Locator) : Members :=
  [("capability".toList, .text locator.capability.name.toList),
    ("contract_id".toList, .text locator.contractId), ("run_id".toList, .text locator.runId),
    ("result_id".toList, .text locator.resultId),
    ("terminal_state".toList, .text locator.terminalState),
    ("status".toList, .text "completed".toList), ("request_id".toList, .text locator.requestId),
    ("correlation_id".toList, .text locator.correlationId),
    ("result_ref".toList, .object locator.resultRef),
    ("evidence_refs".toList, .array (locator.evidenceRefs.map .text)),
    ("content_sha256".toList, .text locator.contentSha256),
    ("size_bytes".toList, natNumber locator.sizeBytes),
    ("created_at".toList, .text locator.createdAt)]

/-- The members of a locator that have to be repeated as they are. -/
def exactFields : List String :=
  ["capability", "contract_id", "request_id", "correlation_id", "run_id", "result_id",
    "terminal_state", "status", "result_ref", "content_sha256", "size_bytes"]

/-- `_same_timestamp`. -/
def sameTimestamp (s : JoinServices) (left right : JsonValue) : Bool :=
  match left.asText.bind s.instant, right.asText.bind s.instant with
  | some a, some b => a == b
  | _, _ => false

/-- `_same_locator_document`. -/
def sameLocatorDocument (s : JoinServices) (actual : JsonValue) (locator : Locator) : Bool :=
  match actual with
  | .object members =>
      exactFields.all (fun key =>
          equal s.toServices (field members key) (field locator.document key)) &&
        equal s.toServices (fieldOr members "evidence_refs" (.array []))
          (field locator.document "evidence_refs") &&
        sameTimestamp s (field members "created_at") (field locator.document "created_at")
  | _ => false

/-- `UpstreamRecord`, as far as the join reads it. -/
structure UpstreamRecord where
  resultId : Str
  terminalState : Str
  correlationId : Option Str
  result : Members
  rawResult : Option Bytes
  payloadRawResult : Option Bytes
  artifactRawResults : Option (Table Bytes)
  authenticatedContent : Option Bytes
  authenticatedContentSha256 : Option Str
  authenticatedContentSize : Option Nat

/-- `"sha256:" + sha256(raw).hexdigest()`. -/
def digestBytes (s : Services) (raw : Bytes) : Str := "sha256:".toList ++ s.sha256 raw

/-- `_record_document`. -/
def recordDocument (s : JoinServices) (record : UpstreamRecord) (context : Str) :
    Checked Members :=
  match record.rawResult with
  | some raw => do
      let document ← strictJsonBytes s.toServices raw context
      raiseIf [!equal s.toServices (.object document) (.object record.result)]
        "decoded-result-mismatch"
        (context ++ " decoded object differs from authenticated bytes".toList)
      return document
  | none => do
      let canonical ← canonicalText s.toServices (.object record.result)
      strictJsonBytes s.toServices (encodeText canonical) context

/-- Whether a Check Generation result is wrapped by the orchestration. -/
def isCanonicalTemporal (document : Members) : Bool :=
  isText (field document "capability") "check-generation" &&
    isText (field document "contract_id") "check-generation-result@1.0"

/-- The run of a Check Generation result and its temporal context. -/
def unwrapRun (document : Members) : Checked (Members × Members) :=
  if isCanonicalTemporal document then
    match field document "run_result" with
    | .object run =>
        .ok (run, [("request_id".toList, field document "request_id"),
          ("correlation_id".toList, field document "correlation_id"),
          ("upstream_result_refs".toList, field document "upstream_result_refs"),
          ("inherited_evidence_refs".toList,
            (field document "evidence_refs").orElse (.array [])),
          ("new_evidence_refs".toList, .array []),
          ("result_created_at".toList, field document "created_at")])
    | _ => refuse "cg-wrapper-invalid" "CG canonical result is incomplete".toList
  else do
    raiseIf [!isText (field document "contract_type") "check-generation-persisted-result",
        !isText (field document "contract_version") "1.0"]
      "cg-wrapper-identity-invalid" "expected authenticated Check Generation result".toList
    match field document "temporal_context", field document "run_result" with
    | .object context, .object run => .ok (run, context)
    | _, _ => refuse "cg-wrapper-invalid" "CG wrapper is incomplete".toList

/-- The run of a Check Generation result, checked against its locator. -/
def cgPayload (document : Members) (locator : Locator) : Checked Members := do
  let (run, context) ← unwrapRun document
  raiseIf [!hasText (field document "result_id") locator.resultId] "cg-wrapper-identity-invalid"
    "CG wrapper result identity differs".toList
  raiseIf [!hasText (field context "correlation_id") locator.correlationId,
      !hasText (field context "request_id") locator.requestId] "cg-wrapper-identity-invalid"
    "CG temporal identity differs".toList
  raiseIf [!hasText (field run "run_id") locator.runId] "locator-identity-mismatch"
    "check-generation payload identity differs".toList
  let upstreams := (fieldOr context "upstream_result_refs" (.array [])).asArray
  raiseIf [(fieldOr context "inherited_evidence_refs" (.array [])).asArray.isNone,
      (fieldOr context "new_evidence_refs" (.array [])).asArray.isNone,
      !(upstreams.any fun refs => refs.length == 1)] "cg-wrapper-invalid"
    "CG temporal context is incomplete".toList
  raiseIf [!(upstreams.any fun refs => refs.all fun ref => ref.asObject.isSome)]
    "cg-wrapper-invalid" "CG upstream lineage is invalid".toList
  let advertised := field document
    (if isCanonicalTemporal document then "content_sha256" else "temporal_result_content_sha256")
  raiseIf [!hasText advertised locator.contentSha256] "outer-locator-integrity-failed"
    "CG wrapper digest differs".toList
  return run

/-- The members under which a result names itself. -/
def identityFields (locator : Locator) : Capability → List (String × Str)
  | .checkGeneration => [("run_id", locator.runId)]
  | .bypassValidation => [("run_id", locator.runId), ("result_id", locator.resultId)]
  | _ => [("run_id", locator.runId), ("result_id", locator.resultId),
      ("correlation_id", locator.correlationId)]

/-- The payload of any other result, checked against its locator. -/
def plainPayload (s : JoinServices) (document : Members) (locator : Locator)
    (capability : Capability) : Checked Members := do
  raiseIf ((identityFields locator capability).map fun expected =>
      some (!hasText (field document expected.1) expected.2)) "locator-identity-mismatch"
    (capability.name ++ " payload identity differs").toList
  raiseIf [capability != .bypassValidation &&
      (!hasText (field document "content_sha256") locator.contentSha256 ||
        !equal s.toServices (field document "size_bytes") (natNumber locator.sizeBytes))]
    "outer-locator-integrity-failed" (capability.name ++ " advertised integrity differs").toList
  return document

/-- The payload of a result. -/
def payloadOf (s : JoinServices) (document : Members) (locator : Locator) :
    Capability → Checked Members
  | .checkGeneration => cgPayload document locator
  | capability => plainPayload s document locator capability

/-- Whether the authenticated bytes of a record are not those the locator names. -/
def unauthenticated (s : JoinServices) (record : UpstreamRecord) (locator : Locator) : Bool :=
  match record.authenticatedContent with
  | none => true
  | some raw =>
      record.authenticatedContentSha256 != some (digestBytes s.toServices raw) ||
        record.authenticatedContentSize != some raw.length ||
        digestBytes s.toServices raw != locator.contentSha256 || raw.length != locator.sizeBytes

/-- `_verify_locator`: the payload of a record. -/
def verifyLocator (s : JoinServices) (record : UpstreamRecord) (locator : Locator)
    (capability : Capability) : Checked Members := do
  let document ← recordDocument s record (capability.name ++ " result").toList
  raiseIf [record.resultId != locator.resultId, record.terminalState != locator.terminalState,
      record.correlationId != some locator.correlationId,
      !hasText (field locator.resultRef "key") locator.resultId] "locator-identity-mismatch"
    (capability.name ++ " result identity differs").toList
  let payload ← payloadOf s document locator capability
  raiseIf [unauthenticated s record locator] "outer-locator-integrity-failed"
    (capability.name ++
      " producer-authenticated bytes differ from the immutable locator").toList
  return payload

end SharedContracts
