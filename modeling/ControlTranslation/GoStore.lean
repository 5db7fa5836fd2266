import ControlTranslation.LifecycleStore

/-!
# The lifecycle store of the Go service

The queue of the port: one table, one statement for each change and no
transaction around them.  A worker's claim is an update followed by a separate
read.  The instants of the texts are microseconds, as the layout has six digits;
rows created in the same microsecond are claimed in the order of their insertion.
-/

namespace GoLifecycle

open PyText Table
open Lifecycle (Status RunFailure)

/-- The settings of the worker, as `workerErrors` accepts them. -/
structure Settings where
  leaseSeconds : Int
  maxAttempts : Nat
  lease_ok : 2 ≤ leaseSeconds
  attempts_ok : 1 ≤ maxAttempts

/-- `CanonicalCompletion`, but for its constant fields and the reference. -/
structure Completion where
  requestId : Str
  correlationId : Str
  runId : Str
  resultId : Str
  terminalState : Str
  evidenceRefs : List Str
  contentSha256 : Str
  sizeBytes : Nat
  createdAt : Int
  deriving DecidableEq, Repr

/-- A row of `capability_run_lifecycle`. -/
structure Row where
  runId : Str
  requestId : Str
  correlationId : Str
  idempotencyKey : Str
  requestDigest : Str
  requestJson : Str
  status : Status
  terminalState : Option Str
  resultId : Option Str
  completion : Option Completion
  failure : Option RunFailure
  progressPhase : String
  progressPercent : Option Nat
  progressMessage : String
  cancelRequested : Bool
  workerId : Option Str
  leaseExpiresAt : Option Int
  lastHeartbeatAt : Option Int
  attemptNumber : Nat
  createdAt : Int
  acceptedAt : Int
  startedAt : Option Int
  updatedAt : Int
  completedAt : Option Int
  deriving DecidableEq, Repr

/-- `lease_expires_at < now`; a null lease is not. -/
def Row.expired (r : Row) (now : Int) : Bool := r.leaseExpiresAt.any (· < now)

/-- `GetLifecycleRun`. -/
def getLifecycleRun (runId : Str) (runs : List Row) : Option Row :=
  runs.find? fun r => r.runId == runId

/-- What a submission inserts. -/
structure Submission where
  runId : Str
  requestId : Str
  correlationId : Str
  idempotencyKey : Str
  requestDigest : Str
  requestJson : Str
  deriving DecidableEq, Repr

/-- The row a submission is stored as. -/
def queuedRow (s : Submission) (now : Int) : Row :=
  { runId := s.runId
    requestId := s.requestId
    correlationId := s.correlationId
    idempotencyKey := s.idempotencyKey
    requestDigest := s.requestDigest
    requestJson := s.requestJson
    status := .queued
    terminalState := none
    resultId := none
    completion := none
    failure := none
    progressPhase := "queued"
    progressPercent := some 0
    progressMessage := "Run accepted and queued for durable processing."
    cancelRequested := false
    workerId := none
    leaseExpiresAt := none
    lastHeartbeatAt := none
    attemptNumber := 0
    createdAt := now
    acceptedAt := now
    startedAt := none
    updatedAt := now
    completedAt := none }

/-- `CreateLifecycleRun`: the table after it.  A repeated key, like an identifier
that is taken, inserts nothing. -/
def createLifecycleRun (s : Submission) (now : Int) (runs : List Row) : List Row :=
  if runs.any fun r => r.idempotencyKey == s.idempotencyKey || r.runId == s.runId then runs
  else runs ++ [queuedRow s now]

/-- Whether a run can be claimed. -/
def Row.claimable (r : Row) (now : Int) (maxAttempts : Nat) : Bool :=
  (r.status == .queued || r.status == .running && r.expired now) &&
    decide (r.attemptNumber < maxAttempts)

/-- The run a claim takes: the oldest it can. -/
def candidate (now : Int) (maxAttempts : Nat) (runs : List Row) : Option Row :=
  ((runs.filter (·.claimable now maxAttempts)).insertionSort
    fun r r' => r.createdAt ≤ r'.createdAt).head?

/-- The update of a claim. -/
def claimRow (workerId runId : Str) (leaseSeconds now : Int) : Update Row :=
  { applies := fun r => r.runId == runId
    assign := fun r => { r with
      status := .running
      workerId := some workerId
      leaseExpiresAt := some (now + leaseSeconds * 1000000)
      lastHeartbeatAt := some now
      attemptNumber := r.attemptNumber + 1
      startedAt := some (r.startedAt.getD now)
      updatedAt := now
      progressPhase := "running"
      progressMessage := "Translation in progress." } }

/-- The update of `ClaimNextQueuedRun`: whether it affected a row, and the
table. -/
def claimNextQueuedRun (settings : Settings) (workerId : Str) (now : Int) (runs : List Row) :
    Bool × List Row :=
  match candidate now settings.maxAttempts runs with
  | none => (false, runs)
  | some row => (true, (claimRow workerId row.runId settings.leaseSeconds now).run runs)

/-- The read of `ClaimNextQueuedRun`: the run this worker updated last. -/
def claimedRun (workerId : Str) (runs : List Row) : Option Row :=
  ((runs.filter fun r => r.workerId == some workerId && r.status == .running).insertionSort
    fun r r' => r'.updatedAt ≤ r.updatedAt).head?

/-- `Heartbeat`. -/
def heartbeat (runId workerId : Str) (leaseSeconds now : Int) : Update Row :=
  { applies := fun r => r.runId == runId && r.workerId == some workerId && r.status == .running
    assign := fun r => { r with
      leaseExpiresAt := some (now + leaseSeconds * 1000000)
      lastHeartbeatAt := some now
      updatedAt := now } }

/-- `CompleteLifecycleRun`. -/
def complete (runId workerId terminalState resultId : Str) (completion : Completion) (now : Int) :
    Update Row :=
  { applies := fun r => r.runId == runId && r.workerId == some workerId
    assign := fun r => { r with
      status := .completed
      terminalState := some terminalState
      resultId := some resultId
      completion := some completion
      progressPhase := "completed"
      progressPercent := some 100
      progressMessage := "Translation completed."
      workerId := none
      leaseExpiresAt := none
      updatedAt := now
      completedAt := some now } }

/-- The table after `CompleteLifecycleRun`; a result that another run references
is refused. -/
def completeLifecycleRun (runId workerId terminalState resultId : Str) (completion : Completion)
    (now : Int) (runs : List Row) : List Row :=
  let update := complete runId workerId terminalState resultId completion now
  if runs.any update.applies && runs.any fun r =>
      !update.applies r && r.resultId == some resultId then runs
  else update.run runs

/-- `FailLifecycleRun`: it is guarded by nothing but the run. -/
def fail (runId : Str) (failure : RunFailure) (requeue : Bool) (now : Int) : Update Row :=
  { applies := fun r => r.runId == runId
    assign := fun r => { r with
      status := if requeue then .queued else .failed
      failure := some failure
      progressPhase := if requeue then "queued" else "failed"
      progressMessage := failure.detail
      workerId := none
      leaseExpiresAt := none
      updatedAt := now
      completedAt := if requeue then none else some now } }

/-- The update of `RequestCancellation`. -/
def cancel (runId : Str) (now : Int) : Update Row :=
  { applies := fun r => r.runId == runId && (r.status == .queued || r.status == .running)
    assign := fun r => { r with
      cancelRequested := true
      status := .canceled
      progressPhase := "canceled"
      progressMessage := "Run canceled before completion."
      workerId := none
      leaseExpiresAt := none
      updatedAt := now
      completedAt := some now } }

end GoLifecycle
