import ControlTranslation.JsonLoads

/-!
# A result and its digest

The asynchronous result carries the digest and the length of its own canonical
bytes, which leave these two members out.  The document is staged as JSON text,
read back, and written to the warehouse, which computes the digest once more and
compares what it stored with what it was given.

A row is merged on the result identifier: nothing is written under an identifier
that is taken, so whatever is saved between, the first row stays, and a later save of
the identifier succeeds exactly where the eight comparisons with that row hold.
-/

namespace ResultIntegrity

open PyText JsonValue PyJson

/-- A sequence of bytes. -/
abbrev Bytes := List UInt8

/-- `str.encode("utf-8")`. -/
def encode (text : Str) : Bytes := text.flatMap String.utf8EncodeChar

/-- The members that describe the document itself. -/
def isIntegrity (name : Str) : Bool :=
  name == "content_sha256".toList || name == "size_bytes".toList

/-- The members that the integrity metadata covers. -/
def content (result : Members) : JsonValue := .object (result.filter fun m => !isIntegrity m.1)

/-- The text of `canonical_result_bytes`; nothing where a number cannot be written. -/
def canonicalResultText (result : Members) : Option Str :=
  if numbered (content result) then some (dumps (sorted (content result))) else none

/-- `canonical_result_bytes`. -/
def canonicalResultBytes (result : Members) : Option Bytes :=
  (canonicalResultText result).map encode

/-- An integer as JSON. -/
def number : Int → JsonValue
  | .ofNat n => .number (Nat.toDigits 10 n)
  | .negSucc n => .number ('-' :: Nat.toDigits 10 (n + 1))

/-- A fixed text as JSON. -/
def word (s : String) : JsonValue := .text s.toList

section

variable (sha256 : Bytes → Str)

/-- A payload with its digest and length. -/
def described (payload : Members) : Option Members := do
  let content ← canonicalResultBytes payload
  pure (setMember (setMember payload "content_sha256".toList
    (.text ("sha256:".toList ++ sha256 content))) "size_bytes".toList (number content.length))

/-- How an invocation ends. -/
inductive TerminalState
  | translated
  | cannotExpress
  | insufficientContext
  | scopeDeclined
  | malfunction
  deriving DecidableEq, Repr

/-- The artifact of a candidate, by reference and hash. -/
structure CandidateArtifact where
  artifactType : Str
  contentRef : Str
  contentHash : Str
  emittedAs : Str

/-- The candidate a result puts first. -/
structure PrimaryCandidate where
  candidateId : Str
  targetControlClass : Str
  targetTechnology : Str
  targetPolicyContextId : Str
  candidateArtifact : CandidateArtifact
  candidateMetadata : Option JsonValue

/-- An artifact emitted for the target, with the source artifact it comes from. -/
structure TargetArtifact where
  artifactId : Str
  sourceArtifactId : Str
  role : Str
  kind : Str
  order : Int
  artifactType : Str
  content : Str
  contentHash : Str

/-- What the document takes of `ControlTranslationResult`; models that are dumped whole
are their dumps. -/
structure StructuredResult where
  terminalState : TerminalState
  provenPatternId : Str
  primaryCandidate : Option PrimaryCandidate
  targetArtifacts : List TargetArtifact
  evidenceBindings : List (List Str)
  proseSummary : Str
  outcomeReason : JsonValue
  producedAt : Str
  sharedContractVersion : Option Str
  profileId : Option Str
  preTranslationVerification : Option JsonValue
  accounting : Option JsonValue
  translationMappings : List JsonValue
  translatedDirectives : List JsonValue

/-- A result with the run it belongs to. -/
structure ResultEnvelope where
  runId : Str
  resultId : Str
  provenance : List Str
  inference : Members
  structuredResult : StructuredResult

/-- What the document takes of the request; the routing facts are an envelope's. -/
structure Request where
  requestId : Option Str
  correlationId : Option Str
  upstreamInputs : Option (List JsonValue)
  upstreamResultRefs : Option JsonValue
  loopExhausted : Option Bool
  completedIterations : Option Int
  maxIterations : Option Int

/-- Where results are stored. -/
structure Settings where
  databricksCatalog : Str
  databricksSchema : Str
  databricksResultsTable : Str

/-- The plane a result is written to. -/
inductive ResultReference
  | databricks (catalog schemaName table key : Str)
  | workflowLab (contractId namespaceName key : Str)

/-- A value, or `null`. -/
def orNull : Option JsonValue → JsonValue
  | some value => value
  | none => .null

/-- An object from a table of its members. -/
def record (members : List (String × JsonValue)) : Members :=
  members.map fun m => (m.1.toList, m.2)

/-- `model_dump(mode="json", by_alias=True)` of a reference. -/
def ResultReference.dump : ResultReference → JsonValue
  | .databricks catalog schemaName table key => .object (record [("system", word "databricks"),
      ("catalog", .text catalog), ("schema", .text schemaName), ("table", .text table),
      ("key", .text key)])
  | .workflowLab contractId namespaceName key => .object (record [("system", word "workflow-lab"),
      ("contract_id", .text contractId), ("namespace", .text namespaceName), ("key", .text key)])

/-- `sorted` of a set of texts. -/
def sortedTexts (values : List Str) : List JsonValue :=
  ((unique values).insertionSort fun s t => textLe s t = true).map .text

/-- `shared_waf_primary_artifact_id`; nothing where the hash is not one. -/
def sharedWafPrimaryArtifactId (contentHash : Str) : Option Str :=
  let digest := if "sha256:".toList.isPrefixOf contentHash then contentHash.drop 7 else contentHash
  if digest.length = 64 ∧ digest.all "0123456789abcdef".toList.contains then
    some ("akamai-rule-set-".toList ++ digest)
  else none

section Building

/-- `_artifact_media_type`. -/
def artifactMediaType (content : Str) : JsonValue :=
  match loads content with
  | some (.object _) | some (.array _) => word "application/json"
  | _ => word "text/plain;charset=utf-8"

/-- `_canonical_artifact_ref`. -/
def canonicalArtifactRef (settings : Settings) (resultId artifactId : Str)
    (reference : Option ResultReference) : JsonValue :=
  match reference with
  | some (.workflowLab _ _ _) => .text ("workflow-lab-result://immutable-results/".toList ++
      quote resultId ++ "#/artifacts/".toList ++ quote artifactId ++ "/content".toList)
  | _ => .text ("databricks://".toList ++ settings.databricksCatalog ++ ['/'] ++
      settings.databricksSchema ++ ['/'] ++ settings.databricksResultsTable ++
      "/result_json?result_id=".toList ++ quote resultId ++ "#/artifacts/".toList ++
      quote artifactId ++ "/content".toList)

/-- The entry of the aggregate artifact of a shared-contract result. -/
def aggregateEntry (provenPatternId : Str) (candidate : PrimaryCandidate) : JsonValue :=
  let artifact := candidate.candidateArtifact
  .object (record [("source_artifact_id", .text provenPatternId), ("role", word "primary"),
    ("kind", word "policy-fragment"), ("order", number 0),
    ("artifact_type", .text artifact.artifactType),
    ("media_type", artifactMediaType artifact.contentRef),
    ("content", .text artifact.contentRef), ("content_hash", .text artifact.contentHash),
    ("emitted_as", .text artifact.emittedAs),
    ("candidate_metadata", orNull candidate.candidateMetadata)])

/-- The entry of a target artifact. -/
def targetEntry (shift : Int) (item : TargetArtifact) : JsonValue :=
  .object (record [("source_artifact_id", .text item.sourceArtifactId),
    ("source_role", .text item.role), ("role", word "supporting"), ("kind", .text item.kind),
    ("order", number (item.order + shift)), ("artifact_type", .text item.artifactType),
    ("media_type", artifactMediaType item.content), ("content", .text item.content),
    ("content_hash", .text item.contentHash),
    ("emitted_as", word "control-specific-mitigation-candidate")])

/-- The entry of the one artifact of another result. -/
def primaryEntry (candidate : PrimaryCandidate) : JsonValue :=
  let artifact := candidate.candidateArtifact
  .object (record [("artifact_type", .text artifact.artifactType),
    ("media_type", artifactMediaType artifact.contentRef),
    ("content", .text artifact.contentRef), ("content_hash", .text artifact.contentHash),
    ("emitted_as", .text artifact.emittedAs),
    ("candidate_metadata", orNull candidate.candidateMetadata)])

/-- `primary_candidate`; the artifact identifier is given for shared-contract results. -/
def candidateEntry (candidate : PrimaryCandidate) (artifactId : Option Str)
    (contentRef : JsonValue) : JsonValue :=
  let identified := match artifactId with
    | some id => [("artifact_id", JsonValue.text id)]
    | none => []
  .object (record ([("candidate_id", .text candidate.candidateId),
    ("target_control_class", .text candidate.targetControlClass),
    ("target_technology", .text candidate.targetTechnology),
    ("target_policy_context_id", .text candidate.targetPolicyContextId)] ++ identified ++
    [("artifact_type", .text candidate.candidateArtifact.artifactType),
    ("content_ref", contentRef), ("content_hash", .text candidate.candidateArtifact.contentHash),
    ("candidate_metadata", orNull candidate.candidateMetadata)]))

/-- `primary_candidate` and `artifacts`; nothing where a hash names no artifact. -/
def candidateAndArtifacts (result : ResultEnvelope) (settings : Settings)
    (reference : Option ResultReference) : Option (JsonValue × Members) :=
  let structured := result.structuredResult
  if structured.sharedContractVersion.isSome then do
    let aggregate ← match structured.primaryCandidate with
      | none => some none
      | some candidate => (sharedWafPrimaryArtifactId
          candidate.candidateArtifact.contentHash).map fun id => some (id, candidate)
    let first : Members := match aggregate with
      | some (id, candidate) => [(id, aggregateEntry structured.provenPatternId candidate)]
      | none => []
    let shift : Int := if aggregate.isSome then 1 else 0
    let artifacts := structured.targetArtifacts.foldl
      (fun all item => setMember all item.artifactId (targetEntry shift item)) first
    let candidate := match aggregate with
      | some (id, candidate) => candidateEntry candidate (some id)
          (canonicalArtifactRef settings result.resultId id reference)
      | none => .null
    pure (candidate, artifacts)
  else
    match structured.primaryCandidate with
    | none => some (.null, [])
    | some candidate => some (candidateEntry candidate none
        (canonicalArtifactRef settings result.resultId "primary".toList reference),
        [("primary".toList, primaryEntry candidate)])

/-- The terminal state as the published result coarsens it. -/
def terminalStateText : TerminalState → JsonValue
  | .translated => word "translated"
  | .malfunction => word "malfunction"
  | _ => word "not-translatable"

/-- The members every result has. -/
def commonMembers (result : ResultEnvelope) (request : Request) (settings : Settings)
    (reference : Option ResultReference) (candidate : JsonValue) (artifacts : Members) : Members :=
  let structured := result.structuredResult
  record [("capability", word "control-translation"),
    ("contract_id", if structured.sharedContractVersion.isSome then
      word "control-translation-result@2.0" else word "control-translation-result@1.0"),
    ("request_id", orNull (request.requestId.map .text)),
    ("correlation_id", orNull (request.correlationId.map .text)),
    ("run_id", .text result.runId), ("result_id", .text result.resultId),
    ("status", word "completed"), ("terminal_state", terminalStateText structured.terminalState),
    ("result_ref", (reference.getD (.databricks settings.databricksCatalog
      settings.databricksSchema settings.databricksResultsTable result.resultId)).dump),
    ("evidence_refs", .array (sortedTexts
      (structured.evidenceBindings.flatten ++ result.provenance))),
    ("prose", .text structured.proseSummary), ("outcome_reason", structured.outcomeReason),
    ("primary_candidate", candidate), ("artifacts", .object artifacts),
    ("inference", .object result.inference),
    ("provenance", .object (record [
      ("upstream_inputs", orNull (request.upstreamInputs.map .array)),
      ("upstream_result_refs", orNull request.upstreamResultRefs),
      ("loop_exhausted", orNull (request.loopExhausted.map .bool)),
      ("completed_iterations", orNull (request.completedIterations.map number)),
      ("max_iterations", orNull (request.maxIterations.map number))])),
    ("created_at", .text structured.producedAt)]

/-- The members of a shared-contract result; it asserts its verification and accounting. -/
def sharedMembers (structured : StructuredResult) : Option Members :=
  match structured.sharedContractVersion with
  | none => some []
  | some version => do
      let verification ← structured.preTranslationVerification
      let accounting ← structured.accounting
      pure (record [("shared_contract_version", .text version),
        ("profile_id", orNull (structured.profileId.map .text)),
        ("pre_translation_verification", verification), ("accounting", accounting),
        ("translation_mappings", .array structured.translationMappings),
        ("translated_directives", .array structured.translatedDirectives)])

/-- `build_lifecycle_result`; nothing where it raises. -/
def buildLifecycleResult (result : ResultEnvelope) (request : Request) (settings : Settings)
    (reference : Option ResultReference) : Option Members := do
  let (candidate, artifacts) ← candidateAndArtifacts result settings reference
  let shared ← sharedMembers result.structuredResult
  described sha256 (commonMembers result request settings reference candidate artifacts ++ shared)

end Building

end

/-- A row of the results table, its documents as `TO_JSON` answers them. -/
structure StoredRow where
  resultId : Str
  runId : Str
  contractId : Str
  status : Str
  terminalState : Str
  resultSha256 : Str
  resultSizeBytes : Nat
  resultJson : Str
  completionJson : Str

/-- What the store and the model library do with documents: the text that `TO_JSON` gives for
one stored with `PARSE_JSON`, whether two numbers are equal, and how an envelope is
written, validated and compared. -/
structure Services where
  stored : Str → Str
  sameNumber : Str → Str → Bool
  dump : ResultEnvelope → Str
  validate : Str → Option ResultEnvelope
  same : ResultEnvelope → ResultEnvelope → Bool

/-- The store keeps JSON values up to the order of keys, and a number and an envelope equal
themselves. -/
structure Services.Faithful (services : Services) : Prop where
  stored : ∀ text v, loads text = some v →
    ∃ w, loads (services.stored text) = some w ∧ Reordered v w
  sameNumber : ∀ a, services.sameNumber a a = true
  same : ∀ result, services.same result result = true

/-- An envelope is read back from its dump, in whatever order the keys come. -/
def Services.ReadsBack (services : Services) (result : ResultEnvelope) : Prop :=
  ∃ v, loads (services.dump result) = some v ∧ ∀ text w, loads text = some w →
    Reordered v w → services.validate text = some result

/-- `_canonical_row_state`. -/
def canonicalRowState (result : Members) : Except String (Str × Str × Str) :=
  match (get result "contract_id".toList).asText.filter fun id =>
      id == "control-translation-result@1.0".toList ||
        id == "control-translation-result@2.0".toList with
  | none => .error "Canonical result contract_id is invalid."
  | some contractId =>
      match (get result "status".toList).asText.filter (· == "completed".toList) with
      | none => .error "Canonical result status must be completed."
      | some status =>
          match (get result "terminal_state".toList).asText.filter fun state =>
              state == "translated".toList || state == "not-translatable".toList ||
                state == "malfunction".toList with
          | none => .error "Canonical result terminal_state is invalid."
          | some state => .ok (contractId, status, state)

/-- `SELECT … WHERE result_id = ? LIMIT 1`. -/
def lookup (rows : List StoredRow) (resultId : Str) : Option StoredRow :=
  rows.find? fun row => row.resultId = resultId

/-- `MERGE … ON result_id … WHEN NOT MATCHED THEN INSERT`. -/
def merge (rows : List StoredRow) (row : StoredRow) : List StoredRow :=
  if rows.any fun other => other.resultId = row.resultId then rows else rows ++ [row]

section

variable (sha256 : Bytes → Str) (services : Services)

/-- The row a save inserts; `written` is the text of the document. -/
def rowOf (result : ResultEnvelope) (written : Str) (state : Str × Str × Str) : StoredRow where
  resultId := result.resultId
  runId := result.runId
  contractId := state.1
  status := state.2.1
  terminalState := state.2.2
  resultSha256 := sha256 (encode written)
  resultSizeBytes := (encode written).length
  resultJson := services.stored written
  completionJson := services.stored (services.dump result)

/-- `_parse_json_object`. -/
def parseJsonObject (value : Str) (message : String) : Except String JsonValue :=
  match (loads value).filter fun v => v.asObject.isSome with
  | none => .error message
  | some v => .ok v

/-- `_validate_result`. -/
def validateResult (value : Str) (message : String) : Except String ResultEnvelope :=
  match services.validate value with
  | none => .error message
  | some result => .ok result

/-- The error of a stored row that is not the one to be written. -/
def conflict : String := "Immutable Databricks result identity conflicts with stored content."

/-- The scalar columns a save compares. -/
def sameColumns (row persisted : StoredRow) : Bool :=
  persisted.runId == row.runId && persisted.contractId == row.contractId &&
    persisted.status == row.status && persisted.terminalState == row.terminalState &&
    persisted.resultSha256 == row.resultSha256 &&
    persisted.resultSizeBytes == row.resultSizeBytes

/-- The comparison of the stored row with what was to be written. -/
def readBack (result : ResultEnvelope) (written : Str) (row persisted : StoredRow) :
    Except String Unit :=
  if sameColumns row persisted = false then .error conflict
  else
    match parseJsonObject persisted.resultJson
        "Stored Databricks canonical result failed validation." with
    | .error message => .error message
    | .ok stored =>
        match parseJsonObject written "Canonical result failed validation." with
        | .error message => .error message
        | .ok document =>
            if equal services.sameNumber stored document = false then .error conflict
            else
              match validateResult services persisted.completionJson
                  "Stored Databricks completion failed contract validation." with
              | .error message => .error message
              | .ok completion =>
                  if services.same completion result then .ok () else .error conflict

/-- `save_completed_run` with a canonical result. -/
def saveCompletedRun (rows : List StoredRow) (result : ResultEnvelope) (canonical : Members) :
    Except String Unit × List StoredRow :=
  match canonicalResultText canonical with
  | none => (.error "ValueError", rows)
  | some written =>
      match canonicalRowState canonical with
      | .error message => (.error message, rows)
      | .ok state =>
          let row := rowOf sha256 services result written state
          let merged := merge rows row
          match lookup merged result.resultId with
          | none => (.error conflict, merged)
          | some persisted => (readBack services result written row persisted, merged)

/-- Any saves, one after the other. -/
def saveAll (rows : List StoredRow) (saves : List (ResultEnvelope × Members)) :
    List StoredRow :=
  saves.foldl (fun rows save => (saveCompletedRun sha256 services rows save.1 save.2).2) rows

end

theorem filter_setMember (members : Members) {key : Str} (hkey : isIntegrity key = true)
    (value : JsonValue) :
    (setMember members key value).filter (fun m => !isIntegrity m.1) =
      members.filter fun m => !isIntegrity m.1 := by
  unfold setMember
  split_ifs with h
  · clear h
    induction members with
    | nil => rfl
    | cons m rest ih =>
        by_cases hname : m.1 = key
        · simp [hname, hkey, ih]
        · by_cases hm : isIntegrity m.1 = true
          · simp [hname, hm, ih]
          · simp [hname, hm, ih]
  · simp [hkey]

/-- The integrity metadata covers every member but two. -/
theorem content_eq (result : Members) : content result = .object (result.filter fun m =>
    m.1 ≠ "content_sha256".toList ∧ m.1 ≠ "size_bytes".toList) := by
  refine congrArg JsonValue.object (List.filter_congr fun m _ => ?_)
  unfold isIntegrity
  generalize "content_sha256".toList = digest
  generalize "size_bytes".toList = size
  rw [Bool.eq_iff_iff]
  simp only [Bool.not_or, Bool.and_eq_true, Bool.not_eq_true', beq_eq_false_iff_ne,
    decide_eq_true_eq]

/-- Setting an integrity member leaves the content alone. -/
theorem content_setMember (members : Members) {key : Str} (hkey : isIntegrity key = true)
    (value : JsonValue) : content (setMember members key value) = content members := by
  rw [content, filter_setMember members hkey]
  rfl

section

variable {sha256 : Bytes → Str} {services : Services} {payload result canonical : Members}

theorem canonicalResultBytes_eq_some {bytes : Bytes}
    (h : canonicalResultBytes result = some bytes) :
    numbered (content result) = true ∧
      canonicalResultText result = some (dumps (sorted (content result))) ∧
      bytes = encode (dumps (sorted (content result))) := by
  obtain ⟨written, hwritten, rfl⟩ := Option.map_eq_some_iff.mp h
  unfold canonicalResultText at hwritten ⊢
  split_ifs at hwritten ⊢ with hnumbered
  exact ⟨hnumbered, rfl, congrArg encode (Option.some.inj hwritten).symm⟩

/-- A described payload has the canonical bytes its digest and length are of. -/
theorem described_eq_some (h : described sha256 payload = some result) :
    ∃ bytes, canonicalResultBytes result = some bytes ∧
      get result "content_sha256".toList = .text ("sha256:".toList ++ sha256 bytes) ∧
      get result "size_bytes".toList = number bytes.length := by
  have hdigest : isIntegrity "content_sha256".toList = true := by decide
  have hsize : isIntegrity "size_bytes".toList = true := by decide
  have hne : "content_sha256".toList ≠ "size_bytes".toList := by decide
  obtain ⟨bytes, hbytes, hresult⟩ := Option.bind_eq_some_iff.mp h
  obtain rfl := Option.some.inj hresult
  refine ⟨bytes, ?_, ?_, ?_⟩
  · rw [canonicalResultBytes, canonicalResultText, content_setMember _ hsize,
      content_setMember _ hdigest]
    exact hbytes
  · rw [get_setMember_of_ne hne, get_setMember, if_pos rfl]
  · rw [get_setMember, if_pos rfl]

/-- A length is a number that JSON has. -/
theorem numbered_number (n : Nat) : numbered (number n) = true :=
  beq_iff_eq.mpr (scanNumber_toDigits n)

/-- A document with a described payload can be written. -/
theorem numbered_described (h : described sha256 payload = some result) :
    numbered (.object result) = true := by
  obtain ⟨bytes, hbytes, hresult⟩ := Option.bind_eq_some_iff.mp h
  obtain rfl := Option.some.inj hresult
  obtain ⟨hnumbered, -, -⟩ := canonicalResultBytes_eq_some hbytes
  refine numberedMembers_iff.mpr fun m hm => ?_
  rcases mem_setMember_iff.mp hm with rfl | ⟨hm, hsize⟩
  · exact numbered_number bytes.length
  · rcases mem_setMember_iff.mp hm with rfl | ⟨hm, hdigest⟩
    · rfl
    · refine numberedMembers_iff.mp hnumbered m (List.mem_filter.mpr ⟨hm, ?_⟩)
      simp only [isIntegrity, Bool.not_or, Bool.and_eq_true, Bool.not_eq_true', beq_eq_false_iff_ne]
      exact ⟨hdigest, hsize⟩

end

/-- The scalar columns a result names, whatever else it holds. -/
theorem get_commonMembers (result : ResultEnvelope) (request : Request) (settings : Settings)
    (reference : Option ResultReference) (candidate : JsonValue) (artifacts shared : Members) :
    let members := commonMembers result request settings reference candidate artifacts ++ shared
    (get members "contract_id".toList = word "control-translation-result@2.0" ∨
        get members "contract_id".toList = word "control-translation-result@1.0") ∧
      get members "status".toList = word "completed" ∧
      get members "terminal_state".toList =
        terminalStateText result.structuredResult.terminalState := by
  simp only [commonMembers, record, List.map_cons, List.cons_append, get_cons]
  refine ⟨?_, rfl, rfl⟩
  cases result.structuredResult.sharedContractVersion with
  | none => exact .inr rfl
  | some version => exact .inl rfl

/-- **Row state.**  A built result has the scalar columns the warehouse asks for. -/
theorem canonicalRowState_build {sha256 : Bytes → Str} {result : ResultEnvelope}
    {request : Request} {settings : Settings}
    {reference : Option ResultReference} {canonical : Members}
    (h : buildLifecycleResult sha256 result request settings reference = some canonical) :
    ∃ state, canonicalRowState canonical = .ok state := by
  obtain ⟨⟨candidate, artifacts⟩, -, h⟩ := Option.bind_eq_some_iff.mp h
  obtain ⟨shared, -, h⟩ := Option.bind_eq_some_iff.mp h
  obtain ⟨bytes, -, h⟩ := Option.bind_eq_some_iff.mp h
  obtain rfl := Option.some.inj h
  have hget : ∀ key : Str, key ≠ "content_sha256".toList → key ≠ "size_bytes".toList →
      ∀ members value value', JsonValue.get (setMember (setMember members
        "content_sha256".toList value) "size_bytes".toList value') key =
          JsonValue.get members key := by
    intro key hdigest hsize members value value'
    rw [get_setMember_of_ne hsize, get_setMember_of_ne hdigest]
  obtain ⟨hcontract, hstatus, hstate⟩ :=
    get_commonMembers result request settings reference candidate artifacts shared
  unfold canonicalRowState
  rw [hget _ (by decide) (by decide), hget _ (by decide) (by decide),
    hget _ (by decide) (by decide), hstatus, hstate]
  rcases hcontract with hcontract | hcontract
  · rw [hcontract]
    cases result.structuredResult.terminalState with
    | translated => exact ⟨_, rfl⟩
    | cannotExpress => exact ⟨_, rfl⟩
    | insufficientContext => exact ⟨_, rfl⟩
    | scopeDeclined => exact ⟨_, rfl⟩
    | malfunction => exact ⟨_, rfl⟩
  · rw [hcontract]
    cases result.structuredResult.terminalState with
    | translated => exact ⟨_, rfl⟩
    | cannotExpress => exact ⟨_, rfl⟩
    | insufficientContext => exact ⟨_, rfl⟩
    | scopeDeclined => exact ⟨_, rfl⟩
    | malfunction => exact ⟨_, rfl⟩

/-- A merged row is found, or the one that was there before. -/
theorem lookup_merge {rows : List StoredRow} {row : StoredRow} :
    lookup (merge rows row) row.resultId =
      some ((lookup rows row.resultId).getD row) := by
  unfold merge lookup
  split_ifs with htaken
  · obtain ⟨other, hother, hid⟩ := List.any_eq_true.mp htaken
    cases hfind : rows.find? fun row' => row'.resultId = row.resultId with
    | some found => rfl
    | none =>
        have hnone := List.find?_eq_none.mp hfind other hother
        exact absurd hid (by simpa using hnone)
  · have hnone : (rows.find? fun row' => row'.resultId = row.resultId) = none := by
      rw [List.find?_eq_none]
      simpa using htaken
    rw [List.find?_append, hnone]
    simp

/-- A row that is stored stays, whatever is merged. -/
theorem lookup_merge_of_some {rows : List StoredRow} {id : Str} {stored : StoredRow}
    (h : lookup rows id = some stored) (row : StoredRow) :
    lookup (merge rows row) id = some stored := by
  unfold merge lookup at *
  split_ifs
  · exact h
  · rw [List.find?_append, h]
    rfl

theorem encode_injective : Function.Injective encode := by
  intro a b h
  have hbytes : (String.ofList a).toByteArray = (String.ofList b).toByteArray := by
    rw [String.toByteArray_ofList, String.toByteArray_ofList]
    exact congrArg List.toByteArray h
  exact String.ofList_inj.mp (String.toByteArray_inj.mp hbytes)

section

variable {sha256 : Bytes → Str} {services : Services}

/-- What a save does to the table. -/
theorem saveCompletedRun_rows (sha256 : Bytes → Str) (services : Services)
    (rows : List StoredRow) (result : ResultEnvelope) (canonical : Members) :
    (saveCompletedRun sha256 services rows result canonical).2 = rows ∨
      ∃ row : StoredRow, (saveCompletedRun sha256 services rows result canonical).2 =
        merge rows row := by
  unfold saveCompletedRun
  cases canonicalResultText canonical with
  | none => exact .inl rfl
  | some written =>
      dsimp only
      cases canonicalRowState canonical with
      | error message => exact .inl rfl
      | ok state =>
          refine .inr ⟨rowOf sha256 services result written state, ?_⟩
          dsimp only
          split
          · rfl
          · rfl

/-- **Later saves.**  No run of saves moves a row that is stored. -/
theorem lookup_saveAll (sha256 : Bytes → Str) (services : Services) {id : Str}
    {stored : StoredRow} (saves : List (ResultEnvelope × Members)) : ∀ rows : List StoredRow,
      lookup rows id = some stored →
        lookup (saveAll sha256 services rows saves) id = some stored := by
  induction saves with
  | nil => exact fun _ h => h
  | cons save rest ih =>
      intro rows h
      refine ih _ ?_
      rcases saveCompletedRun_rows sha256 services rows save.1 save.2 with
        hrows | ⟨row, hrows⟩
      · dsimp only
        rw [hrows]
        exact h
      · dsimp only
        rw [hrows]
        exact lookup_merge_of_some h row

/-- A save under an identifier that is taken changes nothing. -/
theorem merge_of_taken {rows : List StoredRow} {row stored : StoredRow}
    (h : lookup rows row.resultId = some stored) : merge rows row = rows := by
  unfold merge
  have hid : decide (stored.resultId = row.resultId) = true := by
    unfold lookup at h
    simpa using List.find?_some h
  exact if_pos (List.any_eq_true.mpr ⟨stored, List.mem_of_find?_eq_some h, hid⟩)

theorem parseJsonObject_eq_ok {value : Str} {message : String} {v : JsonValue} :
    parseJsonObject value message = .ok v ↔ loads value = some v ∧ v.asObject.isSome = true := by
  unfold parseJsonObject
  cases hread : loads value with
  | none => simp
  | some w =>
      cases hobject : w.asObject.isSome with
      | true =>
          simp only [Option.filter_some, hobject, if_true, Except.ok.injEq, Option.some.injEq]
          exact ⟨fun h => ⟨h, h ▸ hobject⟩, fun h => h.1⟩
      | false =>
          simp only [Option.filter_some, hobject, Bool.false_eq_true, if_false, reduceCtorEq,
            Option.some.injEq, false_iff, not_and]
          rintro rfl
          rw [hobject]
          exact Bool.false_ne_true

/-- **The read-back** succeeds where all its comparisons do. -/
theorem readBack_eq_ok {result : ResultEnvelope} {written : Str} {row persisted : StoredRow} :
    readBack services result written row persisted = .ok () ↔
      sameColumns row persisted = true ∧ ∃ stored document completion,
        parseJsonObject persisted.resultJson
            "Stored Databricks canonical result failed validation." = .ok stored ∧
          parseJsonObject written "Canonical result failed validation." = .ok document ∧
          equal services.sameNumber stored document = true ∧
          services.validate persisted.completionJson = some completion ∧
          services.same completion result = true := by
  unfold readBack validateResult
  cases sameColumns row persisted with
  | false => simp
  | true =>
      cases parseJsonObject persisted.resultJson
          "Stored Databricks canonical result failed validation." with
      | error message => simp
      | ok stored =>
          cases parseJsonObject written "Canonical result failed validation." with
          | error message => simp
          | ok document =>
              cases hequal : equal services.sameNumber stored document with
              | false => simp [hequal]
              | true =>
                  cases services.validate persisted.completionJson with
                  | none => simp [hequal]
                  | some completion =>
                      cases hsame : services.same completion result with
                      | false => simp [hequal, hsame]
                      | true => simp [hequal, hsame]

/-- The eight comparisons of a save with the result that is stored under its identifier: the
run, the three columns the document names, its digest and its length, the document and the
envelope. -/
structure Agrees (sha256 : Bytes → Str) (services : Services) (result : ResultEnvelope)
    (canonical : Members) (result' : ResultEnvelope) (canonical' : Members) : Prop where
  run : result'.runId = result.runId
  columns : canonicalRowState canonical' = canonicalRowState canonical
  digest : (canonicalResultBytes canonical').map sha256 =
    (canonicalResultBytes canonical).map sha256
  size : (canonicalResultBytes canonical').map List.length =
    (canonicalResultBytes canonical).map List.length
  document : equal services.sameNumber (content canonical) (content canonical') = true
  completion : services.same result result' = true

theorem Agrees.refl (hservices : services.Faithful) {result : ResultEnvelope}
    {canonical : Members} (hdistinct : distinctMembers canonical = true) :
    Agrees sha256 services result canonical result canonical where
  run := rfl
  columns := rfl
  digest := rfl
  size := rfl
  document := equal_self hservices.sameNumber _ (distinctMembers_filter hdistinct _)
  completion := hservices.same result

/-- The text of a document is read back with its keys sorted. -/
theorem loads_written {canonical : Members} {written : Str}
    (hwritten : canonicalResultText canonical = some written)
    (hdistinct : distinctMembers canonical = true) :
    loads written = some (sorted (content canonical)) := by
  unfold canonicalResultText at hwritten
  split_ifs at hwritten with hnumbered
  rw [← Option.some.inj hwritten]
  exact loads_dumps (numbered_sorted _ hnumbered)
    (distinct_sorted _ (distinctMembers_filter hdistinct _))

/-- A stored row as a save of another result reads it. -/
theorem readBack_rowOf (hservices : services.Faithful) {result result' : ResultEnvelope}
    {canonical canonical' : Members} {written written' : Str} {state state' : Str × Str × Str}
    (hwritten : canonicalResultText canonical = some written)
    (hwritten' : canonicalResultText canonical' = some written')
    (hstate : canonicalRowState canonical = .ok state)
    (hstate' : canonicalRowState canonical' = .ok state')
    (hdistinct : distinctMembers canonical = true)
    (hdistinct' : distinctMembers canonical' = true) (hresult : services.ReadsBack result) :
    readBack services result' written' (rowOf sha256 services result' written' state')
        (rowOf sha256 services result written state) = .ok () ↔
      Agrees sha256 services result canonical result' canonical' := by
  have hread := loads_written hwritten hdistinct
  have hread' := loads_written hwritten' hdistinct'
  obtain ⟨w, hstored, hreordered⟩ := hservices.stored written _ hread
  obtain ⟨v, hdump, hvalidate⟩ := hresult
  obtain ⟨u, hcompletion, hkeys⟩ := hservices.stored (services.dump result) v hdump
  have hobject : w.asObject.isSome = true := by
    rw [content, sorted] at hreordered
    cases hreordered with
    | refl => rfl
    | object => rfl
  have hequal : equal services.sameNumber w (sorted (content canonical')) =
      equal services.sameNumber (content canonical) (content canonical') := by
    rw [← equal_left hreordered, ← equal_left (reordered_sorted (content canonical)),
      ← equal_right _ (reordered_sorted (content canonical'))
        (distinct_sorted _ (distinctMembers_filter hdistinct' _))]
  rw [readBack_eq_ok]
  constructor
  · rintro ⟨hcolumns, stored, document, completion, hloaded, hloaded', hsame, hvalid, henvelope⟩
    obtain rfl := Option.some.inj ((parseJsonObject_eq_ok.mp hloaded).1.symm.trans hstored)
    obtain rfl := Option.some.inj ((parseJsonObject_eq_ok.mp hloaded').1.symm.trans hread')
    obtain rfl := Option.some.inj (hvalid.symm.trans (hvalidate _ u hcompletion hkeys))
    simp only [sameColumns, rowOf, Bool.and_eq_true, beq_iff_eq] at hcolumns
    obtain ⟨⟨⟨⟨⟨hrun, hcontract⟩, hstatus⟩, hterminal⟩, hdigest⟩, hsize⟩ := hcolumns
    have hcolumns : state = state' := Prod.ext hcontract (Prod.ext hstatus hterminal)
    refine ⟨hrun.symm, ?_, ?_, ?_, hequal ▸ hsame, henvelope⟩
    · rw [hstate, hstate', hcolumns]
    · rw [canonicalResultBytes, canonicalResultBytes, hwritten, hwritten']
      exact congrArg some hdigest.symm
    · rw [canonicalResultBytes, canonicalResultBytes, hwritten, hwritten']
      exact congrArg some hsize.symm
  · rintro ⟨hrun, hcolumns, hdigest, hsize, hsame, henvelope⟩
    rw [canonicalResultBytes, canonicalResultBytes, hwritten, hwritten'] at hdigest hsize
    rw [hstate, hstate'] at hcolumns
    obtain rfl := Except.ok.inj hcolumns
    refine ⟨?_, w, _, result, parseJsonObject_eq_ok.mpr ⟨hstored, hobject⟩,
      parseJsonObject_eq_ok.mpr ⟨hread', rfl⟩, hequal.trans hsame,
      hvalidate _ u hcompletion hkeys, henvelope⟩
    simp only [sameColumns, rowOf, hrun, beq_self_eq_true, Bool.true_and, Bool.and_eq_true,
      beq_iff_eq]
    exact ⟨(Option.some.inj hdigest).symm, (Option.some.inj hsize).symm⟩

/-- **Saves under a taken identifier** leave the table as it is, and succeed exactly where
they agree with the result that is stored. -/
theorem saveCompletedRun_taken (hservices : services.Faithful) {rows : List StoredRow}
    {result result' : ResultEnvelope} {canonical canonical' : Members} {written : Str}
    {state : Str × Str × Str} (hwritten : canonicalResultText canonical = some written)
    (hstate : canonicalRowState canonical = .ok state)
    (hdistinct : distinctMembers canonical = true)
    (hdistinct' : distinctMembers canonical' = true) (hresult : services.ReadsBack result)
    (hid : result'.resultId = result.resultId)
    (hstored : lookup rows result.resultId = some (rowOf sha256 services result written state)) :
    (saveCompletedRun sha256 services rows result' canonical').2 = rows ∧
      ((saveCompletedRun sha256 services rows result' canonical').1 = .ok () ↔
        Agrees sha256 services result canonical result' canonical') := by
  unfold saveCompletedRun
  cases hwritten' : canonicalResultText canonical' with
  | none =>
      refine ⟨rfl, nofun, fun h => ?_⟩
      have hdigest := h.digest
      rw [canonicalResultBytes, canonicalResultBytes, hwritten, hwritten'] at hdigest
      cases hdigest
  | some written' =>
      cases hstate' : canonicalRowState canonical' with
      | error message =>
          refine ⟨rfl, nofun, fun h => ?_⟩
          have hcolumns := h.columns
          rw [hstate, hstate'] at hcolumns
          cases hcolumns
      | ok state' =>
          have hmerge : merge rows (rowOf sha256 services result' written' state') = rows := by
            refine @merge_of_taken _ _ (rowOf sha256 services result written state) ?_
            rw [← hstored, ← hid]
            rfl
          rw [← hid] at hstored
          simp only [hmerge, hstored]
          exact ⟨trivial, readBack_rowOf hservices hwritten hwritten' hstate hstate' hdistinct
            hdistinct' hresult⟩

/-- A save is refused and leaves the table as it is. -/
def Refused (sha256 : Bytes → Str) (services : Services) (rows : List StoredRow)
    (result : ResultEnvelope) (canonical : Members) : Prop :=
  ∃ message, saveCompletedRun sha256 services rows result canonical = (.error message, rows)

/-- A save that changes nothing and does not succeed is refused. -/
theorem refused_of_ne {rows : List StoredRow} {result : ResultEnvelope} {canonical : Members}
    (hrows : (saveCompletedRun sha256 services rows result canonical).2 = rows)
    (hne : (saveCompletedRun sha256 services rows result canonical).1 ≠ .ok ()) :
    Refused sha256 services rows result canonical := by
  cases houtcome : (saveCompletedRun sha256 services rows result canonical).1 with
  | ok _ => exact absurd houtcome hne
  | error message => exact ⟨message, Prod.ext houtcome hrows⟩

/-- Where no two texts share a digest, a result that agrees has the same document. -/
theorem Agrees.sorted_eq (hsha : Function.Injective sha256) {result result' : ResultEnvelope}
    {canonical canonical' : Members} {bytes : Bytes}
    (h : Agrees sha256 services result canonical result' canonical')
    (hbytes : canonicalResultBytes canonical = some bytes)
    (hdistinct : distinctMembers canonical = true)
    (hdistinct' : distinctMembers canonical' = true) :
    sorted (content canonical') = sorted (content canonical) := by
  have hdigest := h.digest
  rw [hbytes] at hdigest
  obtain ⟨bytes', hbytes', hsame⟩ := Option.map_eq_some_iff.mp hdigest
  obtain ⟨hnumbered, -, rfl⟩ := canonicalResultBytes_eq_some hbytes
  obtain ⟨hnumbered', -, rfl⟩ := canonicalResultBytes_eq_some hbytes'
  exact dumps_inj (numbered_sorted _ hnumbered')
    (distinct_sorted _ (distinctMembers_filter hdistinct' _)) (numbered_sorted _ hnumbered)
    (distinct_sorted _ (distinctMembers_filter hdistinct _)) (encode_injective (hsha hsame))

/-- **Integrity.**  A result that is built carries the digest and the length of its canonical
bytes, which are its compact text in the order of keys without these two members; it is
staged and loaded as it was; under a free identifier the warehouse stores it with that
digest and length.  Whatever is saved after it, a save under its identifier leaves the
table alone: it succeeds where it agrees in all that is compared, as the result itself
does, and is refused where it does not.  Where no two texts share a digest, every other
document is refused. -/
theorem result_integrity (hservices : services.Faithful) {result : ResultEnvelope}
    {request : Request} {settings : Settings} {reference : Option ResultReference}
    {canonical : Members}
    (hbuilt : buildLifecycleResult sha256 result request settings reference = some canonical)
    (hdistinct : distinctMembers canonical = true) (hresult : services.ReadsBack result) :
    ∃ bytes, canonicalResultBytes canonical = some bytes ∧
      bytes = encode (dumps (sorted (.object (canonical.filter fun m =>
        m.1 ≠ "content_sha256".toList ∧ m.1 ≠ "size_bytes".toList)))) ∧
      get canonical "content_sha256".toList = .text ("sha256:".toList ++ sha256 bytes) ∧
      get canonical "size_bytes".toList = number bytes.length ∧
      loads (dumps (.object canonical)) = some (.object canonical) ∧
      ∀ rows, lookup rows result.resultId = none →
        ∃ row, row.resultId = result.resultId ∧ row.resultSha256 = sha256 bytes ∧
          row.resultSizeBytes = bytes.length ∧
          saveCompletedRun sha256 services rows result canonical = (.ok (), rows ++ [row]) ∧
          ∀ later, ∃ table, table = saveAll sha256 services (rows ++ [row]) later ∧
            saveCompletedRun sha256 services table result canonical = (.ok (), table) ∧
            ∀ result' canonical', result'.resultId = result.resultId →
              distinctMembers canonical' = true →
                (Agrees sha256 services result canonical result' canonical' →
                  saveCompletedRun sha256 services table result' canonical' = (.ok (), table)) ∧
                (¬Agrees sha256 services result canonical result' canonical' →
                  Refused sha256 services table result' canonical') ∧
                (Function.Injective sha256 →
                  sorted (content canonical') ≠ sorted (content canonical) →
                    Refused sha256 services table result' canonical') := by
  obtain ⟨state, hstate⟩ := canonicalRowState_build hbuilt
  obtain ⟨⟨candidate, artifacts⟩, -, hrest⟩ := Option.bind_eq_some_iff.mp hbuilt
  obtain ⟨shared, -, hdescribed⟩ := Option.bind_eq_some_iff.mp hrest
  obtain ⟨bytes, hbytes, hdigest, hsize⟩ := described_eq_some hdescribed
  obtain ⟨-, hwritten, hcontent⟩ := canonicalResultBytes_eq_some hbytes
  refine ⟨bytes, hbytes, by rw [← content_eq]; exact hcontent, hdigest, hsize,
    loads_dumps (numbered_described hdescribed) hdistinct, ?_⟩
  intro rows hfree
  set row := rowOf sha256 services result (dumps (sorted (content canonical))) state with hrow
  have hmerge : merge rows row = rows ++ [row] := by
    refine if_neg ?_
    rw [List.any_eq_true]
    rintro ⟨other, hother, hsame⟩
    have hnone := List.find?_eq_none.mp hfree other hother
    exact hnone hsame
  have hlookup : lookup (rows ++ [row]) result.resultId = some row := by
    have hfound := @lookup_merge rows row
    rw [hmerge, show row.resultId = result.resultId from rfl, hfree] at hfound
    exact hfound
  have hown : readBack services result _ row row = .ok () :=
    (readBack_rowOf hservices hwritten hwritten hstate hstate hdistinct hdistinct hresult).mpr
      (Agrees.refl hservices hdistinct)
  refine ⟨row, rfl, ?_, ?_, ?_, ?_⟩
  · rw [hcontent]
    rfl
  · rw [hcontent]
    rfl
  · unfold saveCompletedRun
    rw [hwritten]
    dsimp only
    rw [hstate]
    dsimp only
    rw [← hrow, hmerge, hlookup]
    exact Prod.ext hown rfl
  · intro later
    refine ⟨_, rfl, ?_⟩
    have hstored := lookup_saveAll sha256 services later _ hlookup
    refine ⟨?_, fun result' canonical' hid hdistinct' => ?_⟩
    · obtain ⟨hrows, houtcome⟩ := saveCompletedRun_taken hservices hwritten hstate hdistinct
        hdistinct hresult rfl hstored
      exact Prod.ext (houtcome.mpr (Agrees.refl hservices hdistinct)) hrows
    · obtain ⟨hrows, houtcome⟩ := saveCompletedRun_taken hservices hwritten hstate hdistinct
        hdistinct' hresult hid hstored
      refine ⟨fun hagrees => Prod.ext (houtcome.mpr hagrees) hrows,
        fun hdiffers => refused_of_ne hrows fun hok => hdiffers (houtcome.mp hok),
        fun hsha hne => refused_of_ne hrows fun hok => hne ?_⟩
      exact (houtcome.mp hok).sorted_eq hsha hbytes hdistinct hdistinct'

end

/-- Bytes as the characters of one octet each. -/
def octets (bytes : Bytes) : Str := bytes.map fun b => Char.ofNat b.toNat

/-- A result without candidate or evidence. -/
def declined (prose : String) : ResultEnvelope where
  runId := ['r']
  resultId := "control-translation-result:r".toList
  provenance := []
  inference := []
  structuredResult := {
    terminalState := .scopeDeclined
    provenPatternId := ['p']
    primaryCandidate := none
    targetArtifacts := []
    evidenceBindings := []
    proseSummary := prose.toList
    outcomeReason := .object [("code".toList, word "scope-declined")]
    producedAt := "2024-01-01T00:00:00+00:00".toList
    sharedContractVersion := none
    profileId := none
    preTranslationVerification := none
    accounting := none
    translationMappings := []
    translatedDirectives := [] }

/-- A request that names nothing but itself. -/
def plainRequest : Request := ⟨some ['r'], some ['c'], none, none, none, none, none⟩

/-- A place to store results in. -/
def plainSettings : Settings := ⟨['c'], ['s'], ['t']⟩

/-- The document of such a result. -/
def declinedDocument (prose : String) : Members :=
  (buildLifecycleResult octets (declined prose) plainRequest plainSettings none).getD []

/-- A dump of a result, its identifiers and its prose only. -/
def plainDump (result : ResultEnvelope) : JsonValue :=
  .object (record [("run_id", .text result.runId), ("result_id", .text result.resultId),
    ("prose", .text result.structuredResult.proseSummary)])

/-- A store that gives texts back as they are, and a library that knows one result. -/
def plainServices : Services where
  stored value := value
  sameNumber a b := a == b
  dump result := dumps (plainDump result)
  validate value := (loads value).bind fun v =>
    if dumps (sorted v) == dumps (sorted (plainDump (declined "d"))) then some (declined "d")
    else none
  same a b := a.structuredResult.proseSummary == b.structuredResult.proseSummary

/-- The services of the example read back what they write. -/
theorem plainServices_faithful : plainServices.Faithful where
  stored _ v h := ⟨v, h, .refl v⟩
  sameNumber _ := beq_self_eq_true _
  same _ := beq_self_eq_true _

theorem declined_readsBack : plainServices.ReadsBack (declined "d") := by
  refine ⟨plainDump (declined "d"), loads_dumps (by decide) (by decide), ?_⟩
  intro value w hvalue hreordered
  have hsame := hreordered.sorted_eq (hreordered.distinct_right (by decide))
  rw [show plainServices.validate value = (loads value).bind _ from rfl, hvalue,
    Option.bind_some, hsame]
  exact if_pos (beq_self_eq_true _)

theorem declined_built {prose : String} (h : (buildLifecycleResult octets (declined prose)
    plainRequest plainSettings none).isSome = true) : buildLifecycleResult octets (declined prose)
      plainRequest plainSettings none = some (declinedDocument prose) := by
  obtain ⟨canonical, hbuilt⟩ := Option.isSome_iff_exists.mp h
  rw [declinedDocument, hbuilt]
  rfl

/-- Saved once, saved again, and refused with another content. -/
theorem result_integrity_declined : ∃ row : StoredRow,
    saveCompletedRun octets plainServices [] (declined "d") (declinedDocument "d") =
        (.ok (), [row]) ∧
      saveCompletedRun octets plainServices [row] (declined "d") (declinedDocument "d") =
        (.ok (), [row]) ∧
      Refused octets plainServices [row] (declined "e") (declinedDocument "e") := by
  obtain ⟨bytes, -, -, -, -, -, hsaves⟩ := @result_integrity octets plainServices
    plainServices_faithful _ _ _ _ _ (declined_built (by decide +kernel))
    (show distinctMembers (declinedDocument "d") = true by decide +kernel) declined_readsBack
  obtain ⟨row, -, -, -, hfirst, hlater⟩ := hsaves [] rfl
  obtain ⟨table, rfl, hagain, hothers⟩ := hlater []
  obtain ⟨-, hrefused, -⟩ := hothers (declined "e") (declinedDocument "e") rfl
    (by decide +kernel)
  refine ⟨row, hfirst, hagain, hrefused fun hagrees => ?_⟩
  have hdocument := hagrees.document
  have hdiffers : equal plainServices.sameNumber (content (declinedDocument "d"))
      (content (declinedDocument "e")) = false := by decide +kernel
  rw [hdiffers] at hdocument
  cases hdocument

end ResultIntegrity
