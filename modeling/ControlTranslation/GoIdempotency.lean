import ControlTranslation.GoResults
import ControlTranslation.GoOutcomes

/-!
# Idempotency of the Go service

A key is presented with a request, and both endpoints recognise a repetition by a digest
of the request: the lifecycle endpoint compares it with the digest of the row under the
key, and the synchronous one with the digest of the request stored under the key as its
request identifier.  The digest covers the input alone.  An invocation also reads the
subject, the references, the routing and the identifiers, and returns some of them, so
two requests that differ there are one request to both endpoints.
-/

namespace GoIdempotency

open PyText JsonValue GoContracts
open GoLifecycle (Row Submission queuedRow createLifecycleRun World Event Settings Keyed)

/-- What `CanonicalRequestHash` covers. -/
def hashedInput (e : InvokeRequestEnvelope) : JsonValue :=
  .object [GoContracts.field "input" e.input.encode]

section

variable (sha256 : Str → Str)

/-- `CanonicalRequestHash`. -/
def canonicalRequestHash (e : InvokeRequestEnvelope) : Str := sha256 (marshal (hashedInput e))

/-- `NormalizedRequestDigest`. -/
def normalizedRequestDigest (e : InvokeRequestEnvelope) : Str :=
  canonicalRequestHash sha256 { e with idempotencyKey := none }

end

/-- Texts are read back off the list that is written of them. -/
theorem texts_injective {xs ys : List Str} (h : texts xs = texts ys) : xs = ys := by
  unfold texts at h
  rw [JsonValue.array.injEq] at h
  exact List.map_injective_iff.mpr (fun x y hxy => JsonValue.text.inj hxy) h

/-- A pointer to what never encodes to `null`. -/
theorem pointer_injective {α : Type} {encode : α → JsonValue} (hinj : Function.Injective encode)
    (hnull : ∀ a, encode a ≠ .null) : Function.Injective (pointer encode) := by
  intro x y h
  cases x with
  | none =>
      cases y with
      | none => rfl
      | some b => exact absurd h.symm (hnull b)
  | some a =>
      cases y with
      | none => exact absurd h (hnull a)
      | some b => rw [hinj h]

/-- A pattern is read back off what is written of it. -/
theorem ProvenMitigationPattern.encode_injective :
    Function.Injective ProvenMitigationPattern.encode := by
  rintro ⟨⟩ ⟨⟩ h
  simp only [ProvenMitigationPattern.encode, GoContracts.field, JsonValue.object.injEq,
    List.cons.injEq, Prod.mk.injEq, true_and, and_true, JsonValue.text.injEq] at h
  obtain ⟨rfl, rfl, rfl, rfl, rfl, rfl, hrecords⟩ := h
  rw [texts_injective hrecords]

theorem TargetContext.encode_injective : Function.Injective TargetContext.encode := by
  rintro ⟨⟩ ⟨⟩ h
  simp only [TargetContext.encode, GoContracts.field, JsonValue.object.injEq, List.cons.injEq,
    Prod.mk.injEq, true_and, and_true, JsonValue.text.injEq] at h
  obtain ⟨rfl, rfl⟩ := h
  rfl

theorem TranslationPolicy.encode_injective : Function.Injective TranslationPolicy.encode := by
  rintro ⟨⟩ ⟨⟩ h
  simp only [TranslationPolicy.encode, GoContracts.field, JsonValue.object.injEq, List.cons.injEq,
    Prod.mk.injEq, true_and, and_true, JsonValue.text.injEq, JsonValue.bool.injEq] at h
  obtain ⟨rfl, rfl, rfl⟩ := h
  rfl

theorem ControlTranslationRequest.encode_injective :
    Function.Injective ControlTranslationRequest.encode := by
  rintro ⟨⟩ ⟨⟩ h
  simp only [ControlTranslationRequest.encode, GoContracts.field, JsonValue.object.injEq,
    List.cons.injEq, Prod.mk.injEq, true_and, and_true, JsonValue.text.injEq] at h
  obtain ⟨hpattern, hcontext, hpolicy, rfl⟩ := h
  rw [pointer_injective ProvenMitigationPattern.encode_injective (fun _ => nofun) hpattern,
    pointer_injective TargetContext.encode_injective (fun _ => nofun) hcontext,
    TranslationPolicy.encode_injective hpolicy]

theorem finite_texts (values : List Str) : finite (texts values) = true := by
  unfold texts finite
  induction values with
  | nil => rfl
  | cons value rest ih =>
      have hvalue : finite (.text value) = true := rfl
      rw [List.map_cons, finiteItems, ih, hvalue, Bool.and_self]

/-- An input has no numbers. -/
theorem finite_hashedInput (e : InvokeRequestEnvelope) : finite (hashedInput e) = true := by
  have hpattern : finite (pointer ProvenMitigationPattern.encode e.input.provenPattern) = true := by
    cases e.input.provenPattern with
    | none => rfl
    | some p =>
        simp only [pointer, ProvenMitigationPattern.encode, GoContracts.field, finite,
          finiteMembers, finite_texts, Bool.and_self]
  have hcontext : finite (pointer TargetContext.encode e.input.targetContext) = true := by
    cases e.input.targetContext <;> rfl
  simp only [hashedInput, ControlTranslationRequest.encode, TranslationPolicy.encode,
    GoContracts.field, finite, finiteMembers, hpattern, hcontext, Bool.and_self]

/-- **What a digest determines.**  Two requests have one digest exactly when they have one
input. -/
theorem canonicalRequestHash_eq_iff {sha256 : Str → Str} (hsha : Function.Injective sha256)
    {e e' : InvokeRequestEnvelope} :
    canonicalRequestHash sha256 e = canonicalRequestHash sha256 e' ↔ e.input = e'.input := by
  constructor
  · intro h
    have hvalue := eq_of_print_eq readable_goEscapeChar readable_goEscapeChar
      (finite_hashedInput e) (finite_hashedInput e') (hsha h)
    simp only [hashedInput, GoContracts.field, JsonValue.object.injEq, List.cons.injEq,
      Prod.mk.injEq, true_and, and_true] at hvalue
    exact ControlTranslationRequest.encode_injective hvalue
  · intro h
    simp only [canonicalRequestHash, hashedInput, h]

/-- Two requests have one digest exactly when they have one input. -/
theorem normalizedRequestDigest_eq_iff {sha256 : Str → Str} (hsha : Function.Injective sha256)
    {e e' : InvokeRequestEnvelope} :
    normalizedRequestDigest sha256 e = normalizedRequestDigest sha256 e' ↔ e.input = e'.input :=
  canonicalRequestHash_eq_iff hsha

/-- A refusal by the checks of a request. -/
structure Refusal where
  status : Nat
  code : String
  deriving DecidableEq, Repr

/-- `decodeEnvelope`: the envelope a body decodes to, if it does, with its checks. -/
def decodeEnvelope (body : Option InvokeRequestEnvelope) : Option InvokeRequestEnvelope :=
  body.bind fun e => e.validate.toOption

/-- A submission: its headers, empty where they are missing, and its body. -/
structure SubmitRequest where
  idempotencyKey : Str
  correlationId : Str
  callbackUrl : Str
  callbackWorkflowId : Str
  callbackSignal : Str
  body : Option InvokeRequestEnvelope
  deriving DecidableEq

/-- The three headers that name a callback. -/
def SubmitRequest.callbackHeaders (r : SubmitRequest) : List Str :=
  [r.callbackUrl, r.callbackWorkflowId, r.callbackSignal]

/-- What passes the checks of `submitRun`: the envelope, its request identifier, which is
its key too, and its correlation identifier. -/
structure Admitted where
  envelope : InvokeRequestEnvelope
  key : Str
  correlationId : Str
  deriving DecidableEq

/-- The checks of `submitRun`. -/
def SubmitRequest.admission (r : SubmitRequest) : Except Refusal Admitted :=
  let key := GoText.trimSpace r.idempotencyKey
  let correlationId := GoText.trimSpace r.correlationId
  if key.isEmpty || correlationId.isEmpty then .error ⟨400, "missing_required_header"⟩
  else if r.callbackHeaders.any (!·.isEmpty) && r.callbackHeaders.any (·.isEmpty) then
    .error ⟨400, "invalid_callback_headers"⟩
  else
    match decodeEnvelope r.body with
    | none => .error ⟨422, "invalid_request"⟩
    | some e =>
        if e.requestId ≠ some key then .error ⟨400, "request_id_mismatch"⟩
        else if e.correlationId ≠ some correlationId then
          .error ⟨400, "correlation_id_mismatch"⟩
        else if e.idempotencyKey.getD key ≠ key then .error ⟨400, "idempotency_key_mismatch"⟩
        else .ok ⟨{ e with idempotencyKey := some key }, key, correlationId⟩

/-- What `CreateLifecycleRun` returns. -/
inductive Creation
  | conflict
  | created (run : Row)
  | repeated (run : Row)

/-- `CreateLifecycleRun`.  A fresh identifier that is taken is reported as a conflict. -/
def creation (s : Submission) (now : Int) (runs : List Row) : Creation :=
  match runs.find? fun r => r.idempotencyKey == s.idempotencyKey with
  | some existing =>
      if existing.requestDigest ≠ s.requestDigest then .conflict else .repeated existing
  | none => if runs.any fun r => r.runId == s.runId then .conflict else .created (queuedRow s now)

/-- What the lifecycle endpoint answers. -/
inductive SubmitAnswer
  | refused (refusal : Refusal)
  | conflict
  | accepted (run : Row)
  | repeated (run : Row)

section

variable (sha256 : Str → Str)

/-- What `submitRun` stores for an admitted request. -/
def submissionOf (a : Admitted) (runId : Str) : Submission :=
  { runId := runId
    requestId := a.key
    correlationId := a.correlationId
    idempotencyKey := a.key
    requestDigest := normalizedRequestDigest sha256 a.envelope
    requestJson := marshal a.envelope.encode }

/-- `submitRun`, with the run identifier drawn for it: the answer and the queue after it. -/
def submitRun (r : SubmitRequest) (runId : Str) (now : Int) (runs : List Row) :
    SubmitAnswer × List Row :=
  match r.admission with
  | .error refusal => (.refused refusal, runs)
  | .ok a =>
      let s := submissionOf sha256 a runId
      (match creation s now runs with
        | .conflict => .conflict
        | .created run => .accepted run
        | .repeated run => .repeated run,
      createLifecycleRun s now runs)

end

/-- What `InvokeEnvelope` reads of an envelope. -/
structure Invocation where
  input : ControlTranslationRequest
  subject : Option InvocationSubject
  upstreamResultRefs : Option UpstreamResultReferences
  routingMetadata : Option ProofLoopRoutingMetadata
  requestId : Option Str
  correlationId : Option Str
  subjectRecordRevisionId : Option Str
  deriving DecidableEq

/-- The invocation a plain body asks for. -/
def invocationOf (e : InvokeRequestEnvelope) : Invocation :=
  { input := e.input
    subject := e.subject
    upstreamResultRefs := e.upstreamResultRefs
    routingMetadata := e.routingMetadata
    requestId := e.requestId
    correlationId := e.correlationId
    subjectRecordRevisionId := e.subjectRecordRevisionId }

/-- A row of the results table: the request and the envelope that its JSON columns decode
to.  Decoding what was encoded gives both back. -/
structure StoredRow where
  request : InvokeRequestEnvelope
  result : ResultEnvelope

/-- The column `request_id`. -/
def StoredRow.requestId (row : StoredRow) : Str := row.request.requestId.getD []

/-- The rows filed under a key. -/
def filed (key : Str) (rows : List StoredRow) : List StoredRow :=
  rows.filter fun row => row.requestId == key

/-- What the warehouse does with a lookup; `LIMIT 1` without an order may take any row. -/
inductive Reply
  | failed
  | answered (choice : Nat)

/-- The row `GetByIdempotencyKey` reads. -/
def getByIdempotencyKey (key : Str) (choice : Nat) (rows : List StoredRow) : Option StoredRow :=
  (filed key rows)[choice % (filed key rows).length]?

/-- What the synchronous endpoint answers. -/
inductive InvokeAnswer
  | refused
  | conflict
  | stored (result : ResultEnvelope)
  | executed (result : ResultEnvelope)
  | unavailable

/-- How a `MERGE` ends. -/
inductive SaveOutcome
  | answered
  | unanswered
  | refused

/-- What the outside contributes to one call: the identifiers drawn, the translation, and
what the warehouse does. -/
structure Surroundings where
  requestId : Str
  correlationId : Str
  invokeEnvelope : Invocation → ResultEnvelope
  lookup : Reply
  save : SaveOutcome

/-- The envelope with the identifiers it lacks. -/
def identified (s : Surroundings) (e : InvokeRequestEnvelope) : InvokeRequestEnvelope :=
  { e with
    requestId := some (e.requestId.getD s.requestId)
    correlationId := some (e.correlationId.getD s.correlationId) }

/-- The `MERGE` of `SaveCompletedRun`. -/
def merge (row : StoredRow) (rows : List StoredRow) : List StoredRow :=
  if rows.any fun other => other.result.resultId == row.result.resultId then rows
  else rows ++ [row]

section

variable (sha256 : Str → Str) (float : Str → Str)

/-- What the verification after a `MERGE` compares. -/
def identity (result : ResultEnvelope) : Str × Str × Nat :=
  let content := canonicalResultBytes float result
  (result.runId, sha256 content, GoText.byteLength content)

/-- Whether the row that is read back is the one that was sent. -/
def verified (row : StoredRow) (rows : List StoredRow) : Bool :=
  match rows.find? fun other => other.result.resultId == row.result.resultId with
  | some other => identity sha256 float other.result == identity sha256 float row.result
  | none => false

/-- The part of `invoke` after the lookup has found nothing. -/
def execute (s : Surroundings) (e : InvokeRequestEnvelope) (rows : List StoredRow) :
    InvokeAnswer × List StoredRow :=
  let row : StoredRow := ⟨e, s.invokeEnvelope (invocationOf e)⟩
  match s.save with
  | .refused => (.unavailable, rows)
  | .unanswered => (.unavailable, merge row rows)
  | .answered =>
      (if verified sha256 float row (merge row rows) then .executed row.result else .unavailable,
        merge row rows)

/-- `invoke`: the answer and the results table after it. -/
def invoke (s : Surroundings) (body : Option InvokeRequestEnvelope) (rows : List StoredRow) :
    InvokeAnswer × List StoredRow :=
  match decodeEnvelope body with
  | none => (.refused, rows)
  | some decoded =>
      let e := identified s decoded
      match e.idempotencyKey with
      | none => execute sha256 float s e rows
      | some key =>
          match s.lookup with
          | .failed => (.unavailable, rows)
          | .answered choice =>
              match getByIdempotencyKey key choice rows with
              | none => execute sha256 float s e rows
              | some existing =>
                  if canonicalRequestHash sha256 existing.request ≠
                      canonicalRequestHash sha256 e then (.conflict, rows)
                  else (.stored existing.result, rows)

end

/-- Keys have one row each. -/
def OneKey (runs : List Row) : Prop := (runs.map (·.idempotencyKey)).Nodup

/-- What no statement changes. -/
def identifiers (r : Row) : Str × Str × Str := (r.runId, r.idempotencyKey, r.requestDigest)

theorem identifiers_kept {settings : Settings} {permits : GoLifecycle.Permits} {r r' : Row}
    (h : GoLifecycle.RowStep settings permits r r') :
    identifiers r' = identifiers r := by
  cases h <;> rfl

theorem oneKey_create (s : Submission) (now : Int) {runs : List Row} (h : OneKey runs) :
    OneKey (createLifecycleRun s now runs) := by
  unfold createLifecycleRun
  split_ifs with htaken
  · exact h
  · unfold OneKey
    rw [List.map_append, List.map_singleton, List.nodup_append]
    refine ⟨h, List.nodup_singleton _, fun a ha b hb => ?_⟩
    obtain ⟨r, hr, rfl⟩ := List.mem_map.mp ha
    rw [List.mem_singleton.mp hb]
    intro heq
    exact htaken (List.any_eq_true.mpr ⟨r, hr, by simp [heq, queuedRow]⟩)

section

variable {sha256 : Str → Str} {settings : Settings}

/-- Keys stay apart. -/
theorem oneKey_step {w : World} (hkeys : Keyed w.runs) (h : OneKey w.runs) (event : Event) :
    OneKey (w.step sha256 settings event).runs := by
  by_cases hsubmit : ∃ submission now, event = .submit submission now
  · obtain ⟨submission, now, rfl⟩ := hsubmit
    exact oneKey_create submission now h
  · have hmoved := @GoLifecycle.step_moved sha256 settings .all (fun _ => False) w hkeys event
      (fun submission now h => hsubmit ⟨submission, now, h⟩)
      (GoLifecycle.permitted_all settings w event)
    have hids : (w.step sha256 settings event).runs.map (·.idempotencyKey) =
        w.runs.map (·.idempotencyKey) :=
      hmoved.map_key fun _ _ hstep => congrArg (·.2.1) (identifiers_kept hstep)
    unfold OneKey
    rwa [hids]

/-- In every run a key is filed once. -/
theorem oneKey_run (events : List Event) {w : World} (hkeys : Keyed w.runs) (h : OneKey w.runs) :
    OneKey (w.run sha256 settings events).runs :=
  (GoLifecycle.run_invariant (I := fun w => Keyed w.runs ∧ OneKey w.runs)
    (fun _ event hw => ⟨GoLifecycle.step_keyed sha256 settings hw.1 event,
      oneKey_step hw.1 hw.2 event⟩) events ⟨hkeys, h⟩).2

/-- A row keeps its identifier, its key and its digest for good. -/
theorem row_kept (events : List Event) {w : World} (hkeys : Keyed w.runs) {r : Row}
    (hr : r ∈ w.runs) :
    ∃ r' ∈ (w.run sha256 settings events).runs, identifiers r' = identifiers r := by
  have hpermitted : GoLifecycle.Always sha256 settings
      (fun w event => event.permitted settings .all w) events w :=
    GoLifecycle.always_iff.mpr fun before event _ _ =>
      GoLifecycle.permitted_all settings (w.run sha256 settings before) event
  have hevolved := GoLifecycle.run_evolved hkeys hpermitted
  obtain ⟨r', hr', hsteps⟩ := hevolved.forth hr
  exact ⟨r', hr', Table.key_of_steps (fun _ _ hstep => identifiers_kept hstep) hsteps⟩

/-- Where a key has a row, the row decides. -/
theorem creation_of_mem {s : Submission} {now : Int} {runs : List Row} (h : OneKey runs) {r : Row}
    (hr : r ∈ runs) (hkey : r.idempotencyKey = s.idempotencyKey) :
    creation s now runs = if r.requestDigest ≠ s.requestDigest then .conflict else .repeated r := by
  have hfind : (runs.find? fun r => r.idempotencyKey == s.idempotencyKey) = some r := by
    cases hfound : runs.find? fun r => r.idempotencyKey == s.idempotencyKey with
    | none =>
        have hno := List.find?_eq_none.mp hfound r hr
        exact absurd (beq_iff_eq.mpr hkey) hno
    | some found =>
        have hfoundKey := List.find?_some hfound
        rw [Table.eq_of_key h (List.mem_of_find?_eq_some hfound) hr
          ((eq_of_beq hfoundKey).trans hkey.symm)]
  unfold creation
  rw [hfind]

/-- An accepted submission is a new row. -/
theorem submitRun_accepted {r : SubmitRequest} {a : Admitted} (hadmitted : r.admission = .ok a)
    {runId : Str} {now : Int} {runs : List Row} {run : Row}
    (h : (submitRun sha256 r runId now runs).1 = .accepted run) :
    run = queuedRow (submissionOf sha256 a runId) now ∧
      (submitRun sha256 r runId now runs).2 = runs ++ [run] := by
  unfold submitRun at h ⊢
  simp only [hadmitted] at h ⊢
  unfold creation at h
  split at h
  · rename_i hconflict
    cases h
  · rename_i run' hcreated
    cases h
    split at hcreated
    · split at hcreated <;> cases hcreated
    · rename_i hfresh
      split at hcreated
      · cases hcreated
      · rename_i hid
        cases hcreated
        refine ⟨rfl, ?_⟩
        unfold createLifecycleRun
        rw [if_neg]
        intro hany
        obtain ⟨r', hr', htaken⟩ := List.any_eq_true.mp hany
        rcases Bool.or_eq_true_iff.mp htaken with hkey | hrun
        · exact List.find?_eq_none.mp hfresh r' hr' hkey
        · exact hid (List.any_eq_true.mpr ⟨r', hr', hrun⟩)
  · cases h

/-- What a second submission under a key is answered, whatever happened since the first:
a conflict where the inputs differ, and otherwise the run of the first. -/
theorem submitRun_second (hsha : Function.Injective sha256) {w : World} (hkeys : Keyed w.runs)
    (hone : OneKey w.runs) {first second : SubmitRequest} {a b : Admitted}
    (hfirst : first.admission = .ok a) (hsecond : second.admission = .ok b)
    (hkey : b.key = a.key) {runId : Str} {now : Int} {run : Row}
    (haccepted : (submitRun sha256 first runId now w.runs).1 = .accepted run)
    (events : List Event) (runId' : Str) (now' : Int) :
    let w' := { w with runs := (submitRun sha256 first runId now w.runs).2 }.run sha256 settings
      events
    if b.envelope.input = a.envelope.input then
      ∃ row, row.runId = run.runId ∧
        (submitRun sha256 second runId' now' w'.runs).1 = .repeated row
    else (submitRun sha256 second runId' now' w'.runs).1 = .conflict := by
  intro w'
  obtain ⟨hrun, hruns⟩ := submitRun_accepted hfirst haccepted
  have hstored : (submitRun sha256 first runId now w.runs).2 =
      createLifecycleRun (submissionOf sha256 a runId) now w.runs := by
    unfold submitRun
    simp only [hfirst]
  have hkeys' : Keyed (submitRun sha256 first runId now w.runs).2 := by
    rw [hstored]
    exact GoLifecycle.keyed_create _ now hkeys
  have hone' : OneKey (submitRun sha256 first runId now w.runs).2 := by
    rw [hstored]
    exact oneKey_create _ now hone
  have hmem : run ∈ (submitRun sha256 first runId now w.runs).2 := by
    rw [hruns]
    exact List.mem_append_right _ (List.mem_singleton.mpr rfl)
  have hkept : ∃ row ∈ w'.runs, identifiers row = identifiers run := row_kept events hkeys' hmem
  have honeKey : OneKey w'.runs := oneKey_run events hkeys' hone'
  obtain ⟨row, hrow, hids⟩ := hkept
  simp only [identifiers, Prod.mk.injEq] at hids
  obtain ⟨hid, hrowKey, hdigest⟩ := hids
  have hrowKey' : row.idempotencyKey = (submissionOf sha256 b runId').idempotencyKey := by
    rw [hrowKey, hrun]
    exact hkey.symm
  have hcreation : creation (submissionOf sha256 b runId') now' w'.runs =
      if row.requestDigest ≠ (submissionOf sha256 b runId').requestDigest then .conflict
      else .repeated row := creation_of_mem honeKey hrow hrowKey'
  have hdigests : row.requestDigest = (submissionOf sha256 b runId').requestDigest ↔
      b.envelope.input = a.envelope.input := by
    rw [hdigest, hrun]
    exact (normalizedRequestDigest_eq_iff hsha).trans eq_comm
  have hanswer : (submitRun sha256 second runId' now' w'.runs).1 =
      match creation (submissionOf sha256 b runId') now' w'.runs with
        | .conflict => .conflict
        | .created run => .accepted run
        | .repeated run => .repeated run := by
    unfold submitRun
    simp only [hsecond]
  split_ifs with hinput
  · refine ⟨row, hid, ?_⟩
    rw [hanswer, hcreation, if_neg (not_not.mpr (hdigests.mpr hinput))]
  · rw [hanswer, hcreation, if_pos fun heq => hinput (hdigests.mp heq)]

/-- A call that translates is never answered with a conflict. -/
theorem execute_ne_conflict (float : Str → Str) (s : Surroundings) (e : InvokeRequestEnvelope)
    (rows : List StoredRow) : (execute sha256 float s e rows).1 ≠ .conflict := by
  unfold execute
  cases s.save with
  | answered =>
      dsimp only
      split_ifs <;> exact nofun
  | unanswered => exact nofun
  | refused => exact nofun

/-- What a call under a key is answered, once the lookup has an answer. -/
theorem invoke_keyed (hsha : Function.Injective sha256) (float : Str → Str) {s : Surroundings}
    {body : Option InvokeRequestEnvelope} {decoded : InvokeRequestEnvelope}
    (hdecoded : decodeEnvelope body = some decoded) {key : Str}
    (hkey : decoded.idempotencyKey = some key) {choice : Nat}
    (hlookup : s.lookup = .answered choice) (rows : List StoredRow) :
    (invoke sha256 float s body rows).1 =
      match getByIdempotencyKey key choice rows with
      | none => (execute sha256 float s (identified s decoded) rows).1
      | some row =>
          if decoded.input = row.request.input then .stored row.result else .conflict := by
  have hkey' : (identified s decoded).idempotencyKey = some key := hkey
  unfold invoke
  simp only [hdecoded, hkey', hlookup]
  cases getByIdempotencyKey key choice rows with
  | none => rfl
  | some row =>
      have hinput : (identified s decoded).input = decoded.input := rfl
      have hhash := @canonicalRequestHash_eq_iff sha256 hsha row.request (identified s decoded)
      rw [hinput] at hhash
      by_cases hsame : decoded.input = row.request.input
      · simp only [ne_eq, hhash.mpr hsame.symm, not_true, if_false, if_pos hsame]
      · simp only [ne_eq, mt hhash.mp fun heq => hsame heq.symm, not_false_eq_true, if_true,
          if_neg hsame]

/-- An answer given by cases is the conflict in one of them and the result in the other. -/
theorem answer_of_ite {same : Prop} [Decidable same] {answer : InvokeAnswer}
    {result : ResultEnvelope} (h : answer = if same then .stored result else .conflict) :
    (answer = .conflict ↔ ¬same) ∧ (same → answer = .stored result) := by
  by_cases hsame : same
  · rw [if_pos hsame] at h
    rw [h]
    exact ⟨⟨nofun, fun hne => absurd hsame hne⟩, fun _ => rfl⟩
  · rw [if_neg hsame] at h
    exact ⟨⟨fun _ => hsame, fun _ => h⟩, fun hholds => absurd hholds hsame⟩

/-- A call of the synchronous endpoint. -/
abbrev Call := Surroundings × Option InvokeRequestEnvelope

/-- The results table after some calls. -/
def calls (sha256 float : Str → Str) (made : List Call) (rows : List StoredRow) :
    List StoredRow :=
  made.foldl (fun rows call => (invoke sha256 float call.1 call.2 rows).2) rows

/-- A call files nothing new under a key that has a row: it looks the key up, or its request
has another identifier. -/
def Call.Spares (key : Str) (call : Call) : Prop :=
  ∀ decoded, decodeEnvelope call.2 = some decoded →
    decoded.idempotencyKey = some key ∨ (identified call.1 decoded).requestId ≠ some key

/-- A row under another key leaves those under this one alone. -/
theorem filed_merge {key : Str} {row : StoredRow} (h : row.request.requestId ≠ some key)
    (hsome : row.request.requestId.isSome = true) (rows : List StoredRow) :
    filed key (merge row rows) = filed key rows := by
  have hother : (row.requestId == key) = false := by
    obtain ⟨id, hid⟩ := Option.isSome_iff_exists.mp hsome
    rw [hid, ne_eq, Option.some.injEq] at h
    simp [StoredRow.requestId, hid, h]
  unfold merge filed
  split_ifs
  · rfl
  · rw [List.filter_append, List.filter_cons_of_neg (by simp [hother]), List.filter_nil,
      List.append_nil]

/-- What a call that translates does to the rows under a key. -/
theorem filed_execute {key : Str} (float : Str → Str) (s : Surroundings)
    {e : InvokeRequestEnvelope} (h : e.requestId ≠ some key) (hsome : e.requestId.isSome = true)
    (rows : List StoredRow) : filed key (execute sha256 float s e rows).2 = filed key rows := by
  unfold execute
  cases s.save with
  | refused => rfl
  | unanswered => exact filed_merge h hsome rows
  | answered => exact filed_merge h hsome rows

theorem getByIdempotencyKey_filed {key : Str} {rows : List StoredRow} {row : StoredRow}
    (h : filed key rows = [row]) (choice : Nat) :
    getByIdempotencyKey key choice rows = some row := by
  simp [getByIdempotencyKey, h, Nat.mod_one]

/-- Where a look finds nothing, nothing is filed. -/
theorem filed_of_missed {key : Str} {choice : Nat} {rows : List StoredRow}
    (h : getByIdempotencyKey key choice rows = none) : filed key rows = [] := by
  by_contra hne
  have hpos : 0 < (filed key rows).length := List.length_pos_iff.mpr hne
  have hle := List.getElem?_eq_none_iff.mp h
  exact absurd (Nat.mod_lt choice hpos) (Nat.not_lt.mpr hle)

/-- The one row under a key stays the only one, call after call. -/
theorem filed_invoke {key : Str} {row : StoredRow} (float : Str → Str) {call : Call}
    (hspares : call.Spares key) {rows : List StoredRow} (h : filed key rows = [row]) :
    filed key (invoke sha256 float call.1 call.2 rows).2 = [row] := by
  unfold invoke
  cases hdecoded : decodeEnvelope call.2 with
  | none => exact h
  | some decoded =>
      have hsome : (identified call.1 decoded).requestId.isSome = true := rfl
      dsimp only
      cases hkey : (identified call.1 decoded).idempotencyKey with
      | none =>
          refine (filed_execute float call.1 ?_ hsome rows).trans h
          refine (hspares decoded hdecoded).resolve_left fun hsame => ?_
          cases hkey.symm.trans hsame
      | some key' =>
          dsimp only
          cases call.1.lookup with
          | failed => exact h
          | answered choice =>
              dsimp only
              cases hread : getByIdempotencyKey key' choice rows with
              | some existing =>
                  dsimp only
                  split_ifs
                  · exact h
                  · exact h
              | none =>
                  refine (filed_execute float call.1 ?_ hsome rows).trans h
                  refine (hspares decoded hdecoded).resolve_left fun hsame => ?_
                  obtain rfl : key' = key := Option.some.inj (hkey.symm.trans hsame)
                  rw [getByIdempotencyKey_filed h] at hread
                  cases hread

theorem filed_calls {key : Str} {row : StoredRow} (float : Str → Str) {made : List Call}
    (hspares : ∀ call ∈ made, call.Spares key) {rows : List StoredRow}
    (h : filed key rows = [row]) : filed key (calls sha256 float made rows) = [row] := by
  induction made generalizing rows with
  | nil => exact h
  | cons call made ih =>
      exact ih (fun other hother => hspares other (List.mem_cons_of_mem _ hother))
        (filed_invoke float (hspares call List.mem_cons_self) h)

/-- A call that was answered with a new result, under its own key, is the one row there. -/
theorem filed_executed (float : Str → Str) {s : Surroundings} {body : Option InvokeRequestEnvelope}
    {decoded : InvokeRequestEnvelope} (hdecoded : decodeEnvelope body = some decoded) {key : Str}
    (hkey : decoded.idempotencyKey = some key) (hid : decoded.requestId = some key)
    {rows : List StoredRow} {result : ResultEnvelope}
    (hanswer : (invoke sha256 float s body rows).1 = .executed result)
    (hfresh : ∀ row ∈ rows, row.result.resultId ≠ result.resultId) :
    filed key (invoke sha256 float s body rows).2 = [⟨identified s decoded, result⟩] := by
  have hkey' : (identified s decoded).idempotencyKey = some key := hkey
  have hid' : (identified s decoded).requestId = some key := by simp [identified, hid]
  unfold invoke at hanswer ⊢
  simp only [hdecoded, hkey'] at hanswer ⊢
  cases hlookup : s.lookup with
  | failed =>
      rw [hlookup] at hanswer
      cases hanswer
  | answered choice =>
      simp only [hlookup] at hanswer ⊢
      cases hread : getByIdempotencyKey key choice rows with
      | some existing =>
          simp only [hread] at hanswer
          split_ifs at hanswer
      | none =>
          simp only [hread] at hanswer ⊢
          have hnone := filed_of_missed hread
          unfold execute at hanswer ⊢
          cases hsave : s.save with
          | refused =>
              rw [hsave] at hanswer
              cases hanswer
          | unanswered =>
              rw [hsave] at hanswer
              cases hanswer
          | answered =>
              simp only [hsave] at hanswer ⊢
              split_ifs at hanswer
              obtain rfl := InvokeAnswer.executed.inj hanswer
              have hnew : (rows.any fun other => other.result.resultId ==
                  (s.invokeEnvelope (invocationOf (identified s decoded))).resultId) = false := by
                rw [List.any_eq_false]
                intro other hother
                simpa using hfresh other hother
              have hown : (⟨identified s decoded, s.invokeEnvelope
                  (invocationOf (identified s decoded))⟩ : StoredRow).requestId = key := by
                simp [StoredRow.requestId, hid']
              unfold merge
              rw [hnew, if_neg Bool.false_ne_true]
              unfold filed at hnone ⊢
              rw [List.filter_append, hnone, List.filter_cons_of_pos (by simp [hown])]
              rfl

/-- **Requests under one key.**  On the lifecycle endpoint a second submission under a
key, at any later time, is answered with a conflict exactly when its input is not the
first's, and otherwise with the first's run.  On the synchronous endpoint a call is
answered with a conflict exactly when the row read under its key was stored for another
input, and with the result of that row when it was stored for the same input; so after a
first call under the key, and any calls that file nothing under it, a second is answered
with a conflict exactly when its input is not the first's, and otherwise with its result. -/
theorem second_request_answered (hsha : Function.Injective sha256) :
    (∀ (before between : List Event) (first second : SubmitRequest) (a b : Admitted)
      (runId runId' : Str) (now now' : Int) (run : Row),
      first.admission = .ok a → second.admission = .ok b → b.key = a.key →
      (submitRun sha256 first runId now (World.empty.run sha256 settings before).runs).1 =
        .accepted run →
      let w := { World.empty.run sha256 settings before with
        runs := (submitRun sha256 first runId now
          (World.empty.run sha256 settings before).runs).2 }.run sha256 settings between
      let answer := (submitRun sha256 second runId' now' w.runs).1
      (answer = .conflict ↔ b.envelope.input ≠ a.envelope.input) ∧
        (b.envelope.input = a.envelope.input →
          ∃ row, row.runId = run.runId ∧ answer = .repeated row)) ∧
    (∀ (float : Str → Str) (s : Surroundings) (body : Option InvokeRequestEnvelope)
      (decoded : InvokeRequestEnvelope) (key : Str) (choice : Nat) (rows : List StoredRow),
      decodeEnvelope body = some decoded → decoded.idempotencyKey = some key →
      s.lookup = .answered choice →
      ((invoke sha256 float s body rows).1 = .conflict ↔
        ∃ row, getByIdempotencyKey key choice rows = some row ∧
          decoded.input ≠ row.request.input) ∧
        ∀ row, getByIdempotencyKey key choice rows = some row →
          decoded.input = row.request.input →
            (invoke sha256 float s body rows).1 = .stored row.result) ∧
    ∀ (float : Str → Str) (s s' : Surroundings) (body body' : Option InvokeRequestEnvelope)
      (a b : InvokeRequestEnvelope) (key : Str) (choice : Nat) (rows : List StoredRow)
      (result : ResultEnvelope) (between : List Call),
      decodeEnvelope body = some a → a.idempotencyKey = some key → a.requestId = some key →
      decodeEnvelope body' = some b → b.idempotencyKey = some key →
      (∀ row ∈ rows, row.result.resultId ≠ result.resultId) →
      (invoke sha256 float s body rows).1 = .executed result →
      (∀ call ∈ between, call.Spares key) → s'.lookup = .answered choice →
      let answer := (invoke sha256 float s' body'
        (calls sha256 float between (invoke sha256 float s body rows).2)).1
      (answer = .conflict ↔ b.input ≠ a.input) ∧
        (b.input = a.input → answer = .stored result) := by
  refine ⟨?_, ?_, ?_⟩
  · intro before between first second a b runId runId' now now' run hfirst hsecond hkey haccepted
      w answer
    have hkeys : Keyed (World.empty.run sha256 settings before).runs :=
      GoLifecycle.keyed_run before GoLifecycle.keyed_empty
    have hone : OneKey (World.empty.run sha256 settings before).runs :=
      oneKey_run before GoLifecycle.keyed_empty List.nodup_nil
    have hanswer := @submitRun_second sha256 settings hsha _ hkeys hone _ _ _ _ hfirst hsecond
      hkey _ _ _ haccepted between runId' now'
    by_cases hinput : b.envelope.input = a.envelope.input
    · simp only [if_pos hinput] at hanswer
      obtain ⟨row, hid, hrepeated⟩ := hanswer
      refine ⟨⟨fun hconflict => ?_, fun hne => absurd hinput hne⟩, fun _ => ⟨row, hid, hrepeated⟩⟩
      have hboth : SubmitAnswer.repeated row = .conflict := hrepeated.symm.trans hconflict
      cases hboth
    · simp only [if_neg hinput] at hanswer
      exact ⟨⟨fun _ => hinput, fun _ => hanswer⟩, fun heq => absurd heq hinput⟩
  · intro float s body decoded key choice rows hdecoded hkey hlookup
    have hanswer := invoke_keyed hsha float hdecoded hkey hlookup rows
    cases hrow : getByIdempotencyKey key choice rows with
    | none =>
        rw [hrow] at hanswer
        refine ⟨⟨fun hconflict => ?_, ?_⟩, fun _ hread => by cases hread⟩
        · exact absurd (hanswer.symm.trans hconflict)
            (execute_ne_conflict float s (identified s decoded) rows)
        · rintro ⟨_, hread, _⟩
          cases hread
    | some row =>
        rw [hrow] at hanswer
        obtain ⟨hconflict, hstored⟩ := answer_of_ite hanswer
        refine ⟨hconflict.trans ⟨fun hne => ⟨row, rfl, hne⟩, ?_⟩, ?_⟩
        · rintro ⟨_, hread, hne⟩
          cases hread
          exact hne
        · rintro _ hread heq
          cases hread
          exact hstored heq
  · intro float s s' body body' a b key choice rows result between hfirst hkey hid hsecond hkey'
      hfresh hexecuted hspares hlookup answer
    have hfiled : filed key (calls sha256 float between (invoke sha256 float s body rows).2) =
        [⟨identified s a, result⟩] :=
      filed_calls float hspares (filed_executed float hfirst hkey hid hexecuted hfresh)
    have hanswer : answer = if b.input = a.input then .stored result else .conflict := by
      have hinvoked := invoke_keyed hsha float hsecond hkey' hlookup
        (calls sha256 float between (invoke sha256 float s body rows).2)
      rw [getByIdempotencyKey_filed hfiled] at hinvoked
      exact hinvoked
    exact answer_of_ite hanswer

end

/-- An invocation of referenced results, one of which is under this key. -/
def referenced (key : Char) : InvokeRequestEnvelope :=
  { contractId := none
    input := ⟨none, none, defaultTranslationPolicy, []⟩
    subject := none
    upstreamInputs := none
    routingContext := none
    upstreamResultRefs := some ⟨⟨"databricks".toList, ['c'], ['s'], ['t'], [key]⟩,
      ⟨"databricks".toList, ['c'], ['s'], ['t'], ['m']⟩,
      ⟨"databricks".toList, ['c'], ['s'], ['t'], ['b']⟩⟩
    routingMetadata := some ⟨false, 1, 1, "no-bypass-found".toList,
      ⟨"databricks".toList, ['c'], ['s'], ['t'], ['b']⟩⟩
    requestId := some ['k']
    correlationId := some ['c']
    idempotencyKey := some ['k']
    subjectRecordRevisionId := none
    provenanceInfo := none }

/-- Its submission. -/
def submitted (key : Char) : SubmitRequest := ⟨['k'], ['c'], [], [], [], some (referenced key)⟩

theorem decode_referenced {key : Char} (h : key = 'x' ∨ key = 'y') :
    decodeEnvelope (some (referenced key)) = some (referenced key) := by
  rcases h with rfl | rfl <;> rfl

theorem admit_submitted {key : Char} (h : key = 'x' ∨ key = 'y') :
    (submitted key).admission = .ok ⟨referenced key, ['k'], ['c']⟩ := by
  rcases h with rfl | rfl <;> rfl

/-- A service that returns the references it was given. -/
def echoing : Surroundings :=
  { requestId := ['q']
    correlationId := ['c']
    invokeEnvelope := fun invocation =>
      { capability := ['c'], contractId := ['c'], runId := ['r'], resultId := ['i'], status := ['s']
        terminalState := ['e'], requestId := none, correlationId := ['c']
        resultRef := ⟨['s'], ['t'], ['r'], ['h']⟩
        upstreamResultRefs := invocation.upstreamResultRefs
        structuredResult :=
          { contractId := ['c'], resultId := ['i'], producedAt := ['t'], subject := ⟨[], [], []⟩
            inputBindings := ⟨[], [], false, none, [], []⟩, terminalState := ['e']
            outcomeReason := ⟨[], []⟩, proofLoopQualification := none
            bypassCounterexample := none, primaryCandidate := none, evidenceBindings := []
            proseSummary := [] }
        prose := [], referenceBundle := [], provenance := [], confidence := [], warnings := []
        trace := [], inference := [] }
    lookup := .answered 0
    save := .answered }

/-- The first call is answered with a new result. -/
theorem executed_referenced : (invoke id id echoing (some (referenced 'x')) []).1 =
    .executed (echoing.invokeEnvelope (invocationOf (referenced 'x'))) := by
  have hverified : ∀ row : StoredRow, verified id id row (merge row []) = true := by
    intro row
    simp [verified, merge]
  have hanswer := invoke_keyed Function.injective_id id (s := echoing)
    (decode_referenced (.inl rfl)) rfl rfl []
  have hmissed : getByIdempotencyKey ['k'] 0 [] = none := rfl
  have hsame : identified echoing (referenced 'x') = referenced 'x' := rfl
  have hsave : echoing.save = .answered := rfl
  rw [hanswer, hmissed, hsame]
  simp only [execute, hsave, hverified, if_true]

/-- A call that draws another identifier and looks nothing up. -/
def unkeyedCall : Call := (echoing, some { referenced 'y' with
  requestId := some ['z'], idempotencyKey := none })

/-- One key, one input, and other upstream results, on both routes. -/
theorem second_request_answered_referenced :
    (∃ row, row.runId = ['1'] ∧
      (submitRun id (submitted 'y') ['2'] 1 (submitRun id (submitted 'x') ['1'] 0 []).2).1 =
        .repeated row) ∧
    (invoke id id echoing (some (referenced 'y'))
      [⟨referenced 'x', echoing.invokeEnvelope (invocationOf (referenced 'x'))⟩]).1 =
        .stored (echoing.invokeEnvelope (invocationOf (referenced 'x'))) ∧
    (invoke id id echoing (some (referenced 'y'))
      (calls id id [unkeyedCall] (invoke id id echoing (some (referenced 'x')) []).2)).1 =
        .stored (echoing.invokeEnvelope (invocationOf (referenced 'x'))) := by
  obtain ⟨hsubmitted, hread, hcalled⟩ := @second_request_answered id .defaults
    Function.injective_id
  refine ⟨?_, ?_, ?_⟩
  · have hlifecycle := hsubmitted [] [] (submitted 'x') (submitted 'y') _ _ ['1'] ['2'] 0 1 _
      (admit_submitted (.inl rfl)) (admit_submitted (.inr rfl)) rfl rfl
    exact hlifecycle.2 rfl
  · have hinvoked := hread id echoing (some (referenced 'y')) _ ['k'] 0
      [⟨referenced 'x', echoing.invokeEnvelope (invocationOf (referenced 'x'))⟩]
      (decode_referenced (.inr rfl)) rfl rfl
    exact hinvoked.2 _ rfl rfl
  · have hspares : ∀ call ∈ [unkeyedCall], call.Spares ['k'] := by
      intro call hcall decoded hdecoded
      rw [List.mem_singleton.mp hcall] at hdecoded ⊢
      obtain rfl := Option.some.inj hdecoded
      exact .inr (by decide)
    exact (hcalled id echoing echoing (some (referenced 'x')) (some (referenced 'y')) _ _ ['k'] 0
      [] _ [unkeyedCall] (decode_referenced (.inl rfl)) rfl rfl (decode_referenced (.inr rfl)) rfl
      (List.forall_mem_nil _) executed_referenced hspares rfl).2 rfl

/-- Two envelopes that name different results are one request to both endpoints: the
second gets the run of the first, and the result that was made for it. -/
theorem second_request_answered_other_references :
    invocationOf (referenced 'y') ≠ invocationOf (referenced 'x') ∧
    (submitRun id (submitted 'y') ['2'] 1 (submitRun id (submitted 'x') ['1'] 0 []).2).1 ≠
      .conflict ∧
    (invoke id id echoing (some (referenced 'y'))
      (invoke id id echoing (some (referenced 'x')) []).2).1 =
        .stored (echoing.invokeEnvelope (invocationOf (referenced 'x'))) ∧
    echoing.invokeEnvelope (invocationOf (referenced 'y')) ≠
      echoing.invokeEnvelope (invocationOf (referenced 'x')) := by
  have hreferences : (referenced 'y').upstreamResultRefs ≠ (referenced 'x').upstreamResultRefs := by
    decide
  refine ⟨fun heq => hreferences (congrArg Invocation.upstreamResultRefs heq), ?_, ?_,
    fun heq => hreferences (congrArg ResultEnvelope.upstreamResultRefs heq)⟩
  · have hanswer := @submitRun_second id .defaults Function.injective_id World.empty
      GoLifecycle.keyed_empty List.nodup_nil _ _ _ _ (admit_submitted (.inl rfl))
      (admit_submitted (.inr rfl)) rfl ['1'] 0 _ rfl [] ['2'] 1
    obtain ⟨row, -, hrepeated⟩ := hanswer
    intro hconflict
    have hboth : SubmitAnswer.repeated row = .conflict := hrepeated.symm.trans hconflict
    cases hboth
  · have hanswer := invoke_keyed Function.injective_id id (s := echoing)
      (decode_referenced (.inr rfl)) rfl rfl (invoke id id echoing (some (referenced 'x')) []).2
    exact hanswer

end GoIdempotency
