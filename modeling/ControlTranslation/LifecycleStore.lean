import ControlTranslation.PyText
import ControlTranslation.Table
import Mathlib.Data.List.Sort

/-!
# The lifecycle store

The table of asynchronous runs and the outbox of terminal callbacks.  Every
method of the repository is one transaction, so it is a function from stores to
an answer and a store; the clock is an argument.  A transaction that raises
leaves the store as it was.

Each `UPDATE` is an `Update` of its own, with the condition and the assignments
of the statement.  Instants are microseconds: the ISO texts the columns hold are
ordered as the instants are.  JSON columns hold their documents as they were
written.
-/

namespace Lifecycle

open PyText Table

/-- Where a run stands. -/
inductive Status
  | queued
  | running
  | completed
  | failed
  | canceled
  deriving DecidableEq, Repr

/-- `status IN ('completed', 'failed', 'canceled')`. -/
def Status.isTerminal : Status → Bool
  | .queued => false
  | .running => false
  | _ => true

/-- How far the publication of a result has got. -/
inductive PublicationState
  | none
  | prepared
  | publicationPending
  | published
  deriving DecidableEq, Repr

/-- Why a run failed, and whether a new attempt may help. -/
structure RunFailure where
  code : String
  detail : String
  retryable : Bool
  deriving DecidableEq, Repr

/-- Where the completion of a run is to be announced. -/
structure CallbackMetadata where
  callbackUrl : Str
  callbackWorkflowId : Str
  callbackSignal : Str
  deriving DecidableEq, Repr

/-- The `prepared_*` columns: exact output staged before any external write. -/
structure Prepared where
  resultEnvelopeJson : Str
  resultJson : Str
  completionJson : Str
  requestHash : Str
  startedAt : Int
  resultId : Str
  terminalState : Str
  deriving DecidableEq, Repr

/-- A row of `capability_run_lifecycle`. -/
structure Row where
  runId : Str
  requestId : Str
  correlationId : Str
  idempotencyKey : Str
  requestDigest : Str
  requestJson : Str
  status : Status
  terminalState : Option Str
  resultId : Option Str
  resultJson : Option Str
  completionJson : Option Str
  failureJson : Option RunFailure
  progressPhase : String
  progressPercent : Option Nat
  progressMessage : String
  cancelRequested : Bool
  workerId : Option Str
  leaseExpiresAt : Option Int
  lastHeartbeatAt : Option Int
  attemptNumber : Nat
  createdAt : Int
  acceptedAt : Int
  startedAt : Option Int
  updatedAt : Int
  completedAt : Option Int
  publicationState : PublicationState
  prepared : Option Prepared
  callbackUrl : Option Str
  callbackWorkflowId : Option Str
  callbackSignal : Option Str
  deriving DecidableEq, Repr

/-- Where the delivery of a completion event stands. -/
inductive DeliveryStatus
  | pending
  | retry
  | delivered
  | configurationFailed
  deriving DecidableEq, Repr

/-- A row of `callback_deliveries`. -/
structure Delivery where
  eventId : Str
  runId : Str
  callbackUrl : Str
  callbackWorkflowId : Str
  callbackSignal : Str
  capability : Str
  requestId : Str
  correlationId : Str
  terminalStatus : Status
  deliveryStatus : DeliveryStatus
  attempts : Int
  nextAttemptAt : Int
  deliveredAt : Option Int
  configurationFailedAt : Option Int
  lastStatusCode : Option Int
  lastErrorCategory : Option String
  createdAt : Int
  updatedAt : Int
  deriving DecidableEq, Repr

/-- The two tables of the store. -/
structure Store where
  runs : List Row
  deliveries : List Delivery
  deriving DecidableEq, Repr

/-- The store after the migrations. -/
def Store.empty : Store := ⟨[], []⟩

/-- What a call of the store raises. -/
inductive StoreError
  /-- `IdempotencyConflictError`. -/
  | idempotencyConflict (message : String)
  /-- `PersistenceError`. -/
  | persistence (message : String)
  deriving DecidableEq, Repr

/-- `lease_expires_at < now`; a null lease is not. -/
def Row.expired (r : Row) (now : Int) : Bool := r.leaseExpiresAt.any (· < now)

/-- `lease_expires_at >= now`. -/
def Row.leased (r : Row) (now : Int) : Bool := r.leaseExpiresAt.any (now ≤ ·)

/-- `publication_state = 'publication-pending'`. -/
def Row.isPending (r : Row) : Bool := r.publicationState == .publicationPending

/-- `run_id = ? AND status = 'running' AND worker_id = ? AND attempt_number = ?`. -/
def Row.ownedBy (r : Row) (runId workerId : Str) (attemptNumber : Nat) : Bool :=
  r.runId == runId && r.status == .running && r.workerId == some workerId &&
    r.attemptNumber == attemptNumber

/-- The callback columns together. -/
def Row.callback (r : Row) : Option Str × Option Str × Option Str :=
  (r.callbackUrl, r.callbackWorkflowId, r.callbackSignal)

/-- The key of a run's one terminal event. -/
def eventId (runId : Str) : Str :=
  "control-translation:".toList ++ runId ++ ":terminal:v1".toList

/-- The outbox row of a terminal run with a callback. -/
def outboxRecord (now : Int) (r : Row) : Option Delivery :=
  if r.status.isTerminal then
    match r.callbackUrl, r.callbackWorkflowId, r.callbackSignal with
    | some url, some workflow, some signal =>
        some {
          eventId := eventId r.runId
          runId := r.runId
          callbackUrl := url
          callbackWorkflowId := workflow
          callbackSignal := signal
          capability := "control-translation".toList
          requestId := r.requestId
          correlationId := r.correlationId
          terminalStatus := r.status
          deliveryStatus := .pending
          attempts := 0
          nextAttemptAt := now
          deliveredAt := none
          configurationFailedAt := none
          lastStatusCode := none
          lastErrorCategory := none
          createdAt := now
          updatedAt := now }
    | _, _, _ => none
  else none

/-- `INSERT OR IGNORE`: the event and the run are unique. -/
def insertOrIgnore (deliveries : List Delivery) (d : Delivery) : List Delivery :=
  if deliveries.any fun other => other.eventId == d.eventId || other.runId == d.runId then
    deliveries
  else deliveries ++ [d]

/-- `_create_callback_outbox_records`, for one run or for all. -/
def createCallbackOutboxRecords (now : Int) (runId : Option Str) (store : Store) : Store :=
  let selected := store.runs.filter fun r => runId.all (· == r.runId)
  ⟨store.runs, (selected.filterMap (outboxRecord now)).foldl insertOrIgnore store.deliveries⟩

/-- What creation reads of a request. -/
structure Request where
  requestId : Option Str
  correlationId : Option Str
  requestJson : Str
  deriving DecidableEq, Repr

/-- Attach a callback to a run. -/
def attachCallback (runId : Str) (callback : CallbackMetadata) (now : Int) : Update Row :=
  { applies := fun r => r.runId == runId
    assign := fun r => { r with
      callbackUrl := some callback.callbackUrl
      callbackWorkflowId := some callback.callbackWorkflowId
      callbackSignal := some callback.callbackSignal
      updatedAt := now } }

/-- The row an insertion stores. -/
def queuedRow (runId requestId correlationId idempotencyKey requestDigest requestJson : Str)
    (callback : Option CallbackMetadata) (now : Int) : Row :=
  { runId := runId
    requestId := requestId
    correlationId := correlationId
    idempotencyKey := idempotencyKey
    requestDigest := requestDigest
    requestJson := requestJson
    status := .queued
    terminalState := none
    resultId := none
    resultJson := none
    completionJson := none
    failureJson := none
    progressPhase := "queued"
    progressPercent := none
    progressMessage := "Translation is queued."
    cancelRequested := false
    workerId := none
    leaseExpiresAt := none
    lastHeartbeatAt := none
    attemptNumber := 0
    createdAt := now
    acceptedAt := now
    startedAt := none
    updatedAt := now
    completedAt := none
    publicationState := .none
    prepared := none
    callbackUrl := callback.map (·.callbackUrl)
    callbackWorkflowId := callback.map (·.callbackWorkflowId)
    callbackSignal := callback.map (·.callbackSignal) }

/-- The callback of a repeated creation. -/
def repeatCallback (row : Row) (callback : Option CallbackMetadata) (now : Int) (store : Store) :
    Except StoreError Store :=
  match callback with
  | none => .ok store
  | some callback =>
      if row.callback = (none, none, none) then
        .ok (createCallbackOutboxRecords now (some row.runId)
          ⟨(attachCallback row.runId callback now).run store.runs, store.deliveries⟩)
      else if row.callback = (some callback.callbackUrl, some callback.callbackWorkflowId,
          some callback.callbackSignal) then .ok store
      else .error (.idempotencyConflict
        "Idempotency key is already bound to different callback metadata.")

/-- The arguments of a creation; `uuid` is the identifier drawn when none is
given. -/
structure Creation where
  request : Request
  idempotencyKey : Str
  requestDigest : Str
  runId : Option Str
  uuid : Str
  callback : Option CallbackMetadata
  deriving DecidableEq, Repr

/-- `run_id or str(uuid4())`. -/
def Creation.effectiveRunId (c : Creation) : Str := (c.runId.filter (· ≠ [])).getD c.uuid

/-- The insertion of a new run: its request and correlation are not null and its
identifier is new. -/
def insertRun (c : Creation) (now : Int) (store : Store) : Except StoreError (Str × Store) :=
  match c.request.requestId, c.request.correlationId with
  | some requestId, some correlationId =>
      if store.runs.any (·.runId == c.effectiveRunId) then
        .error (.persistence "Unable to create durable lifecycle run.")
      else
        .ok (c.effectiveRunId, ⟨store.runs ++ [queuedRow c.effectiveRunId requestId
          correlationId c.idempotencyKey c.requestDigest c.request.requestJson c.callback now],
          store.deliveries⟩)
  | _, _ => .error (.persistence "Unable to create durable lifecycle run.")

/-- The run a submission stands for, and whether it was made just now. -/
structure CreatedLifecycleRun where
  runId : Str
  created : Bool
  deriving DecidableEq, Repr

/-- `create_lifecycle_run`. -/
def createLifecycleRun (c : Creation) (now : Int) (store : Store) :
    Except StoreError (CreatedLifecycleRun × Store) :=
  match store.runs.find? fun r => r.idempotencyKey == c.idempotencyKey with
  | some row =>
      if row.requestDigest ≠ c.requestDigest then
        .error (.idempotencyConflict "Idempotency key is already bound to different input.")
      else (repeatCallback row c.callback now store).map fun after => (⟨row.runId, false⟩, after)
  | none => (insertRun c now store).map fun inserted => (⟨inserted.1, true⟩, inserted.2)

/-- `get_lifecycle_run`. -/
def getLifecycleRun (runId : Str) (store : Store) : Option Row :=
  store.runs.find? fun r => r.runId == runId

/-- A run whose publication could not be reconciled fails. -/
def exhaustPublication (now : Int) (maxAttempts : Nat) : Update Row :=
  { applies := fun r => r.status == .running && r.isPending && r.expired now &&
      decide (maxAttempts ≤ r.attemptNumber)
    assign := fun r => { r with
      status := .failed
      terminalState := some "malfunction".toList
      failureJson := some ⟨"publication_attempts_exhausted",
        "Result publication could not be reconciled within the bounded attempt limit.", false⟩
      progressPhase := "failed"
      progressMessage := "Publication attempts exhausted."
      completedAt := some now
      updatedAt := now
      workerId := none
      leaseExpiresAt := none
      publicationState := .prepared } }

/-- A cancellation whose worker died completes. -/
def cancelExpired (now : Int) : Update Row :=
  { applies := fun r => r.status == .running && r.cancelRequested &&
      (r.publicationState == .none || r.publicationState == .prepared) && r.expired now
    assign := fun r => { r with
      status := .canceled
      terminalState := some "canceled".toList
      progressPhase := "canceled"
      progressMessage := "Cancellation completed after worker lease expiry."
      completedAt := some now
      updatedAt := now
      workerId := none
      leaseExpiresAt := none } }

/-- A run whose last attempt died fails. -/
def exhaustAttempts (now : Int) (maxAttempts : Nat) : Update Row :=
  { applies := fun r => r.status == .running && !r.cancelRequested && !r.isPending &&
      r.expired now && decide (maxAttempts ≤ r.attemptNumber)
    assign := fun r => { r with
      status := .failed
      terminalState := some "malfunction".toList
      failureJson := some ⟨"worker_attempts_exhausted",
        "Worker lease expired and the bounded attempt limit was reached.", false⟩
      progressPhase := "failed"
      progressMessage := "Worker attempts exhausted."
      completedAt := some now
      updatedAt := now
      workerId := none
      leaseExpiresAt := none } }

/-- The three sweeps of a claim. -/
def sweep (now : Int) (maxAttempts : Nat) (runs : List Row) : List Row :=
  (exhaustAttempts now maxAttempts).run
    ((cancelExpired now).run ((exhaustPublication now maxAttempts).run runs))

/-- Whether a run can be claimed. -/
def Row.claimable (r : Row) (now : Int) (maxAttempts : Nat) : Bool :=
  (r.isPending && r.status == .running && r.expired now &&
      decide (r.attemptNumber < maxAttempts)) ||
    (!r.cancelRequested && decide (r.attemptNumber < maxAttempts) &&
      (r.status == .queued || r.status == .running && r.expired now))

/-- `ORDER BY created_at, run_id`. -/
def Row.before (r r' : Row) : Bool :=
  r.createdAt < r'.createdAt || (r.createdAt == r'.createdAt && textLe r.runId r'.runId)

/-- The run a claim takes: the oldest it can. -/
def candidate (now : Int) (maxAttempts : Nat) (runs : List Row) : Option Row :=
  ((runs.filter (·.claimable now maxAttempts)).insertionSort
    fun r r' => r.before r' = true).head?

/-- The guarded update of a claim. -/
def claimRow (workerId : Str) (lease now : Int) (row : Row) : Update Row :=
  { applies := fun r => r.runId == row.runId && (!r.cancelRequested || r.isPending) &&
      (r.status == .queued || r.expired now)
    assign := fun r => { r with
      status := .running
      workerId := some workerId
      leaseExpiresAt := some lease
      lastHeartbeatAt := some now
      attemptNumber := r.attemptNumber + 1
      startedAt := some (row.startedAt.getD now)
      updatedAt := now
      progressPhase := "translating"
      progressMessage := "Translation is running." } }

/-- The end of a lease of some seconds. -/
def leaseEnd (now leaseSeconds : Int) : Int := now + leaseSeconds * 1000000

/-- Take a run, or roll everything back. -/
def takeRun (workerId : Str) (leaseSeconds now : Int) (row : Row) (store swept : Store) :
    Option Row × Store :=
  let claim := claimRow workerId (leaseEnd now leaseSeconds) now row
  if claim.affected swept.runs = 1 then
    let claimed := ⟨claim.run swept.runs, swept.deliveries⟩
    (getLifecycleRun row.runId claimed, claimed)
  else (none, store)

/-- The store after the sweeps, with the callbacks they make due. -/
def sweptStore (now : Int) (maxAttempts : Nat) (store : Store) : Store :=
  createCallbackOutboxRecords now none ⟨sweep now maxAttempts store.runs, store.deliveries⟩

/-- `claim_lifecycle_run`. -/
def claimLifecycleRun (workerId : Str) (leaseSeconds : Int) (maxAttempts : Nat) (now : Int)
    (store : Store) : Option Row × Store :=
  match candidate now maxAttempts (sweptStore now maxAttempts store).runs with
  | none => (none, sweptStore now maxAttempts store)
  | some row =>
      takeRun workerId leaseSeconds now row store (sweptStore now maxAttempts store)

/-- The owner of a run renews its lease. -/
def heartbeat (runId workerId : Str) (attemptNumber : Nat) (lease now : Int) : Update Row :=
  { applies := fun r => r.ownedBy runId workerId attemptNumber
    assign := fun r => { r with
      leaseExpiresAt := some lease
      lastHeartbeatAt := some now
      updatedAt := now } }

/-- `heartbeat_lifecycle_run`. -/
def heartbeatLifecycleRun (runId workerId : Str) (attemptNumber : Nat)
    (leaseSeconds now : Int) (store : Store) : Bool × Store :=
  let update := heartbeat runId workerId attemptNumber (leaseEnd now leaseSeconds) now
  (update.affected store.runs == 1, ⟨update.run store.runs, store.deliveries⟩)

/-- The owner stores its output, once, while its lease runs. -/
def prepare (runId workerId : Str) (attemptNumber : Nat) (output : Prepared) (now : Int) :
    Update Row :=
  { applies := fun r => r.ownedBy runId workerId attemptNumber && !r.cancelRequested &&
      r.publicationState == .none && r.leased now
    assign := fun r => { r with
      publicationState := .prepared
      prepared := some output
      progressPhase := "publishing"
      progressMessage := "Result is prepared for durable publication."
      updatedAt := now } }

/-- `prepare_lifecycle_publication`. -/
def prepareLifecyclePublication (runId workerId : Str) (attemptNumber : Nat)
    (output : Prepared) (now : Int) (store : Store) : Bool × Store :=
  let update := prepare runId workerId attemptNumber output now
  (update.affected store.runs == 1, ⟨update.run store.runs, store.deliveries⟩)

/-- The owner goes from a prepared output to its publication. -/
def beginUpdate (runId workerId : Str) (attemptNumber : Nat) (now : Int) : Update Row :=
  { applies := fun r => r.ownedBy runId workerId attemptNumber && !r.cancelRequested &&
      r.publicationState == .prepared && r.leased now
    assign := fun r => { r with
      publicationState := .publicationPending
      updatedAt := now
      progressMessage := "Result publication is pending verification." } }

/-- `begin_lifecycle_publication`. -/
def beginLifecyclePublication (runId workerId : Str) (attemptNumber : Nat) (now : Int)
    (store : Store) : Bool × Store :=
  let update := beginUpdate runId workerId attemptNumber now
  if update.affected store.runs = 0 then
    ((store.runs.find? fun r => r.ownedBy runId workerId attemptNumber && r.leased now).any
      (·.isPending), store)
  else (true, ⟨update.run store.runs, store.deliveries⟩)

/-- A cancellation that completes with its worker. -/
def cancelCompleting (runId workerId : Str) (attemptNumber : Nat) (now : Int) : Update Row :=
  { applies := fun r => r.ownedBy runId workerId attemptNumber && r.cancelRequested &&
      !r.isPending
    assign := fun r => { r with
      status := .canceled
      terminalState := some "canceled".toList
      progressPhase := "canceled"
      progressMessage := "Cancellation completed."
      completedAt := some now
      updatedAt := now
      workerId := none
      leaseExpiresAt := none } }

/-- The output a completion stores. -/
structure Output where
  resultJson : Str
  completionJson : Str
  resultId : Str
  terminalState : Str
  deriving DecidableEq, Repr

/-- The owner completes the run with its output. -/
def complete (runId workerId : Str) (attemptNumber : Nat) (output : Output) (now : Int) :
    Update Row :=
  { applies := fun r => r.ownedBy runId workerId attemptNumber && r.resultJson.isNone &&
      (!r.cancelRequested || r.isPending) && r.leased now
    assign := fun r => { r with
      status := .completed
      terminalState := some output.terminalState
      resultId := some output.resultId
      resultJson := some output.resultJson
      completionJson := some output.completionJson
      progressPhase := "completed"
      progressPercent := some 100
      progressMessage := "Translation completed."
      completedAt := some now
      updatedAt := now
      workerId := none
      leaseExpiresAt := none
      publicationState := if r.isPending then .published else r.publicationState } }

/-- Whether an update that sets `result_id` breaks its uniqueness. -/
def resultIdTaken (update : Update Row) (resultId : Str) (runs : List Row) : Bool :=
  runs.any update.applies && runs.any fun r => !update.applies r && r.resultId == some resultId

/-- `complete_lifecycle_run`. -/
def completeLifecycleRun (runId workerId : Str) (attemptNumber : Nat) (output : Output)
    (now : Int) (store : Store) : Except StoreError (Bool × Store) :=
  let cancel := cancelCompleting runId workerId attemptNumber now
  let runs := cancel.run store.runs
  if cancel.affected store.runs = 1 then
    .ok (false, createCallbackOutboxRecords now (some runId) ⟨runs, store.deliveries⟩)
  else
    let update := complete runId workerId attemptNumber output now
    if resultIdTaken update output.resultId runs then
      .error (.persistence "Unable to complete durable lifecycle run.")
    else if update.affected runs = 1 then
      .ok (true, createCallbackOutboxRecords now (some runId)
        ⟨update.run runs, store.deliveries⟩)
    else .ok (false, ⟨update.run runs, store.deliveries⟩)

/-- Whether a failure of the run is a cancellation. -/
def Row.failsCanceled (r : Row) : Bool := !r.isPending && r.cancelRequested

/-- The owner gives the run up; one asked to cancel is canceled, unless its publication is pending.
-/
def failUpdate (runId workerId : Str) (attemptNumber : Nat) (failure : RunFailure)
    (result : Option Str) (now : Int) : Update Row :=
  { applies := fun r => r.ownedBy runId workerId attemptNumber && (!r.isPending || r.leased now)
    assign := fun r => { r with
      status := if r.isPending then .failed else if r.cancelRequested then .canceled else .failed
      terminalState := some (if r.isPending then "malfunction".toList
        else if r.cancelRequested then "canceled".toList else "malfunction".toList)
      failureJson := if r.failsCanceled then none else some failure
      resultJson := if r.failsCanceled then none else result
      completionJson := if r.isPending then none else r.completionJson
      progressPhase := if r.failsCanceled then "canceled" else "failed"
      progressMessage := if r.failsCanceled then "Cancellation completed." else failure.detail
      completedAt := some now
      updatedAt := now
      workerId := none
      leaseExpiresAt := none
      publicationState := if r.isPending then .prepared else r.publicationState } }

/-- `fail_lifecycle_run`. -/
def failLifecycleRun (runId workerId : Str) (attemptNumber : Nat) (failure : RunFailure)
    (result : Option Str) (now : Int) (store : Store) : Bool × Store :=
  let update := failUpdate runId workerId attemptNumber failure result now
  let runs := update.run store.runs
  if update.affected store.runs = 1 then
    (true, createCallbackOutboxRecords now (some runId) ⟨runs, store.deliveries⟩)
  else (false, ⟨runs, store.deliveries⟩)

/-- A queued run is canceled at once. -/
def cancelQueued (runId : Str) (now : Int) : Update Row :=
  { applies := fun r => r.runId == runId
    assign := fun r => { r with
      status := .canceled
      terminalState := some "canceled".toList
      cancelRequested := true
      progressPhase := "canceled"
      progressMessage := "Run canceled before execution."
      completedAt := some now
      updatedAt := now } }

/-- A running run is canceled under its worker. -/
def cancelRunning (runId : Str) (now : Int) : Update Row :=
  { applies := fun r => r.runId == runId
    assign := fun r => { r with
      status := .canceled
      terminalState := some "canceled".toList
      cancelRequested := true
      progressPhase := "canceled"
      progressMessage := "Cancellation completed."
      completedAt := some now
      updatedAt := now
      workerId := none
      leaseExpiresAt := none } }

/-- A cancellation after the cutoff is only noted. -/
def cancelPending (runId : Str) (now : Int) : Update Row :=
  { applies := fun r => r.runId == runId && r.status == .running && r.isPending
    assign := fun r => { r with
      cancelRequested := true
      progressMessage :=
        "Cancellation arrived after publication began; canonical completion is pending."
      updatedAt := now } }

/-- The update a cancellation of a row makes. -/
def cancelUpdate (row : Row) (now : Int) (runs : List Row) : List Row :=
  if row.status = .queued then (cancelQueued row.runId now).run runs
  else if row.status = .running then
    if row.publicationState = .none ∨ row.publicationState = .prepared then
      (cancelRunning row.runId now).run runs
    else (cancelPending row.runId now).run runs
  else runs

/-- `cancel_lifecycle_run`. -/
def cancelLifecycleRun (runId : Str) (now : Int) (store : Store) : Option Row × Store :=
  match getLifecycleRun runId store with
  | none => (none, store)
  | some row =>
      let after := createCallbackOutboxRecords now (some runId)
        ⟨cancelUpdate row now store.runs, store.deliveries⟩
      (getLifecycleRun runId after, after)

/-- A delivery that is due can still change. -/
def Delivery.isOpen (d : Delivery) : Bool :=
  d.deliveryStatus == .pending || d.deliveryStatus == .retry

/-- An open delivery is closed as delivered. -/
def markDelivered (event : Str) (deliveredAt : Int) (statusCode : Int) : Update Delivery :=
  { applies := fun d => d.eventId == event && d.isOpen
    assign := fun d => { d with
      deliveryStatus := .delivered
      attempts := d.attempts + 1
      deliveredAt := some deliveredAt
      lastStatusCode := some statusCode
      lastErrorCategory := none
      updatedAt := deliveredAt } }

/-- An open delivery is put off. -/
def reschedule (event : Str) (attempts nextAttemptAt : Int) (statusCode : Option Int)
    (errorCategory : String) (now : Int) : Update Delivery :=
  { applies := fun d => d.eventId == event && d.isOpen
    assign := fun d => { d with
      deliveryStatus := .retry
      attempts := attempts
      nextAttemptAt := nextAttemptAt
      lastStatusCode := statusCode
      lastErrorCategory := some errorCategory
      updatedAt := now } }

/-- An open delivery is closed for good, its callback being misconfigured. -/
def markConfigurationFailed (event : Str) (attempts failedAt : Int) (statusCode : Option Int)
    (errorCategory : String) : Update Delivery :=
  { applies := fun d => d.eventId == event && d.isOpen
    assign := fun d => { d with
      deliveryStatus := .configurationFailed
      attempts := attempts
      configurationFailedAt := some failedAt
      lastStatusCode := statusCode
      lastErrorCategory := some errorCategory
      updatedAt := failedAt } }

/-- A call of the store, with its arguments and the clock it reads. -/
inductive Operation
  | create (creation : Creation) (now : Int)
  | claim (workerId : Str) (leaseSeconds : Int) (maxAttempts : Nat) (now : Int)
  | heartbeat (runId workerId : Str) (attemptNumber : Nat) (leaseSeconds now : Int)
  | prepare (runId workerId : Str) (attemptNumber : Nat) (output : Prepared) (now : Int)
  | beginPublication (runId workerId : Str) (attemptNumber : Nat) (now : Int)
  | complete (runId workerId : Str) (attemptNumber : Nat) (output : Output) (now : Int)
  | fail (runId workerId : Str) (attemptNumber : Nat) (failure : RunFailure)
      (result : Option Str) (now : Int)
  | cancel (runId : Str) (now : Int)
  | callbackDelivered (event : Str) (deliveredAt statusCode : Int)
  | callbackRescheduled (event : Str) (attempts nextAttemptAt : Int)
      (statusCode : Option Int) (errorCategory : String) (now : Int)
  | callbackConfigurationFailed (event : Str) (attempts failedAt : Int)
      (statusCode : Option Int) (errorCategory : String)

/-- The store after a call; a call that raises changes nothing. -/
def after : Operation → Store → Store
  | .create creation now, store =>
      match createLifecycleRun creation now store with
      | .ok (_, store') => store'
      | .error _ => store
  | .claim workerId leaseSeconds maxAttempts now, store =>
      (claimLifecycleRun workerId leaseSeconds maxAttempts now store).2
  | .heartbeat runId workerId attemptNumber leaseSeconds now, store =>
      (heartbeatLifecycleRun runId workerId attemptNumber leaseSeconds now store).2
  | .prepare runId workerId attemptNumber output now, store =>
      (prepareLifecyclePublication runId workerId attemptNumber output now store).2
  | .beginPublication runId workerId attemptNumber now, store =>
      (beginLifecyclePublication runId workerId attemptNumber now store).2
  | .complete runId workerId attemptNumber output now, store =>
      match completeLifecycleRun runId workerId attemptNumber output now store with
      | .ok (_, store') => store'
      | .error _ => store
  | .fail runId workerId attemptNumber failure result now, store =>
      (failLifecycleRun runId workerId attemptNumber failure result now store).2
  | .cancel runId now, store => (cancelLifecycleRun runId now store).2
  | .callbackDelivered event deliveredAt statusCode, store =>
      ⟨store.runs, (markDelivered event deliveredAt statusCode).run store.deliveries⟩
  | .callbackRescheduled event attempts nextAttemptAt statusCode errorCategory now, store =>
      ⟨store.runs, (reschedule event attempts nextAttemptAt statusCode errorCategory now).run
        store.deliveries⟩
  | .callbackConfigurationFailed event attempts failedAt statusCode errorCategory, store =>
      ⟨store.runs, (markConfigurationFailed event attempts failedAt statusCode
        errorCategory).run store.deliveries⟩

/-- The store after some calls, in order. -/
def run (operations : List Operation) (store : Store) : Store :=
  operations.foldl (fun store operation => after operation store) store

end Lifecycle
