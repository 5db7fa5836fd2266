import ControlTranslation.GoStore

/-!
# Workers of the Go service

`processOne` claims a run, translates it, looks whether it was canceled, writes
the result to the results table and settles the run.  The table and the queue
are two stores, and every call is committed on its own, so a world is a queue,
workers each somewhere in `processOne`, and a results table; any worker may take
its next step at any time, die, or lose the answer of a call.
-/

namespace GoLifecycle

open PyText Table
open Lifecycle (Status RunFailure)

/-- An identifier of `uuid.NewString`. -/
structure Uuid where
  text : Str
  length_eq : text.length = 36
  deriving DecidableEq

/-- What an invocation draws and computes. -/
structure Invocation where
  vulnerabilityId : Str
  targetTechnology : Str
  resultUuid : Uuid
  runUuid : Uuid
  terminalState : Str
  evidenceRefs : List Str
  structured : Str
  content : Str

/-- `ResultEnvelope`, with the canonical bytes of the structured result and of the
whole. -/
structure Envelope where
  resultId : Str
  runId : Str
  terminalState : Str
  evidenceRefs : List Str
  structured : Str
  content : Str
  deriving DecidableEq, Repr

/-- `InvokeEnvelope`: every invocation draws its own identifiers. -/
def invokeEnvelope (i : Invocation) : Envelope :=
  { resultId := "control-translation-result:".toList ++ i.vulnerabilityId ++ ":".toList ++
      i.targetTechnology ++ ":".toList ++ i.resultUuid.text
    runId := i.runUuid.text
    terminalState := i.terminalState
    evidenceRefs := i.evidenceRefs
    structured := i.structured
    content := i.content }

/-- A row of the results table; `lifecycleRun` is the run whose attempt wrote it. -/
structure ResultRow where
  resultId : Str
  runId : Str
  terminalState : Str
  resultSha256 : Str
  resultSizeBytes : Nat
  createdAt : Int
  lifecycleRun : Str
  deriving DecidableEq, Repr

/-- What a worker keeps of the run it claimed. -/
structure Claimed where
  runId : Str
  requestId : Str
  correlationId : Str
  attempt : Nat
  createdAt : Int
  deriving DecidableEq, Repr

/-- What a claim hands to the worker. -/
def Claimed.ofRow (r : Row) : Claimed :=
  ⟨r.runId, r.requestId, r.correlationId, r.attemptNumber, r.createdAt⟩

section

variable (sha256 : Str → Str)

/-- The row `SaveCompletedRun` writes. -/
def resultRow (run : Claimed) (result : Envelope) : ResultRow :=
  { resultId := result.resultId
    runId := result.runId
    terminalState := result.terminalState
    resultSha256 := sha256 result.content
    resultSizeBytes := result.content.length
    createdAt := run.createdAt
    lifecycleRun := run.runId }

/-- The `MERGE`: a result that is already there is kept. -/
def merge (row : ResultRow) (results : List ResultRow) : List ResultRow :=
  if results.any (·.resultId == row.resultId) then results else results ++ [row]

/-- The verification after the `MERGE`. -/
def verified (row : ResultRow) (results : List ResultRow) : Bool :=
  match results.find? (·.resultId == row.resultId) with
  | some stored => stored.runId == row.runId && stored.resultSha256 == row.resultSha256 &&
      stored.resultSizeBytes == row.resultSizeBytes
  | none => false

/-- `canonicalCompletion`. -/
def canonicalCompletion (run : Claimed) (result : Envelope) (now : Int) : Completion :=
  { requestId := run.requestId
    correlationId := run.correlationId
    runId := run.runId
    resultId := result.resultId
    terminalState := result.terminalState
    evidenceRefs := result.evidenceRefs
    contentSha256 := "sha256:".toList ++ sha256 result.structured
    sizeBytes := result.structured.length
    createdAt := now }

end

/-- Where a worker is in `processOne`. -/
inductive Phase
  | idle
  /-- Its claim affected a row; it has not read the run yet. -/
  | claimed
  | translating (run : Claimed)
  | translated (run : Claimed) (result : Envelope)
  /-- It saw no cancellation. -/
  | checked (run : Claimed) (result : Envelope)
  /-- `SaveCompletedRun` answered without an error. -/
  | published (run : Claimed) (result : Envelope)
  /-- `SaveCompletedRun` answered with an error. -/
  | unpublished (run : Claimed)
  | dead
  deriving DecidableEq

/-- A worker and how far it is with the run in its hands. -/
structure Worker where
  workerId : Str
  phase : Phase
  deriving DecidableEq

/-- The queue, the workers, the results table and the identifiers drawn so far. -/
structure World where
  runs : List Row
  workers : List Worker
  results : List ResultRow
  drawn : List Uuid

/-- No runs, no results, no workers. -/
def World.empty : World := ⟨[], [], [], []⟩

/-- How `SaveCompletedRun` ends: it is answered, its answer is lost after the write,
or the write never happens. -/
inductive SaveOutcome
  | answered
  | unanswered
  | refused
  deriving DecidableEq

/-- What can happen: a request of the API, or one step of one worker. -/
inductive Event
  | submit (submission : Submission) (now : Int)
  | cancel (runId : Str) (now : Int)
  | heartbeat (runId workerId : Str) (now : Int)
  | start (workerId : Str)
  | claim (index : Nat) (now : Int)
  | read (index : Nat)
  | invoke (index : Nat) (invocation : Invocation)
  /-- The look for a cancellation; a read that fails finds none. -/
  | check (index : Nat) (readable : Bool)
  | save (index : Nat) (outcome : SaveOutcome)
  | complete (index : Nat) (now : Int)
  | report (index : Nat) (now : Int)
  /-- A call of the queue fails and the worker polls again. -/
  | giveUp (index : Nat)
  | crash (index : Nat)

/-- The failure a worker reports when the results table is unavailable. -/
def unavailable (retryable : Bool) : RunFailure :=
  ⟨"storage_unavailable", "Durable result storage is unavailable.", retryable⟩

/-- A failure is retryable while attempts are left. -/
def Settings.retryable (settings : Settings) (run : Claimed) : Bool :=
  decide (run.attempt < settings.maxAttempts)

/-- Move one worker on. -/
def World.move (w : World) (index : Nat) (worker : Worker) (phase : Phase) : World :=
  { w with workers := w.workers.set index { worker with phase := phase } }

/-- The step of one worker, if there is one. -/
def World.withWorker (w : World) (index : Nat) (step : Worker → World) : World :=
  match w.workers[index]? with
  | some worker => step worker
  | none => w

section

variable (sha256 : Str → Str) (settings : Settings)

/-- A claim's update. -/
def World.claimStep (w : World) (index : Nat) (worker : Worker) (now : Int) : World :=
  let answer := claimNextQueuedRun settings worker.workerId now w.runs
  { w.move index worker (if answer.1 then .claimed else .idle) with runs := answer.2 }

/-- A claim's read. -/
def World.readStep (w : World) (index : Nat) (worker : Worker) : World :=
  match claimedRun worker.workerId w.runs with
  | some row => w.move index worker (.translating (.ofRow row))
  | none => w.move index worker .idle

/-- An invocation; `uuid.NewString` returns nothing twice. -/
def World.invokeStep (w : World) (index : Nat) (worker : Worker) (run : Claimed)
    (invocation : Invocation) : World :=
  if w.drawn.contains invocation.resultUuid then w
  else
    { w.move index worker (.translated run (invokeEnvelope invocation)) with
      drawn := invocation.resultUuid :: w.drawn }

/-- The look for a cancellation. -/
def World.checkStep (w : World) (index : Nat) (worker : Worker) (run : Claimed)
    (result : Envelope) (readable : Bool) : World :=
  if readable && (getLifecycleRun run.runId w.runs).any (·.cancelRequested) then
    w.move index worker .idle
  else w.move index worker (.checked run result)

/-- `SaveCompletedRun`. -/
def World.saveStep (w : World) (index : Nat) (worker : Worker) (run : Claimed)
    (result : Envelope) : SaveOutcome → World
  | .answered =>
      let results := merge (resultRow sha256 run result) w.results
      { w.move index worker (if verified (resultRow sha256 run result) results then
          .published run result else .unpublished run) with results := results }
  | .unanswered =>
      { w.move index worker (.unpublished run) with
        results := merge (resultRow sha256 run result) w.results }
  | .refused => w.move index worker (.unpublished run)

/-- `CompleteLifecycleRun` by a worker. -/
def World.completeStep (w : World) (index : Nat) (worker : Worker) (run : Claimed)
    (result : Envelope) (now : Int) : World :=
  { w.move index worker .idle with
    runs := completeLifecycleRun run.runId worker.workerId result.terminalState result.resultId
      (canonicalCompletion sha256 run result now) now w.runs }

/-- `FailLifecycleRun` by a worker. -/
def World.reportStep (w : World) (index : Nat) (worker : Worker) (run : Claimed) (now : Int) :
    World :=
  { w.move index worker .idle with
    runs := (fail run.runId (unavailable (settings.retryable run)) (settings.retryable run)
      now).run w.runs }

/-- One event; a step that the worker is not at does nothing. -/
def World.step (w : World) : Event → World
  | .submit submission now => { w with runs := createLifecycleRun submission now w.runs }
  | .cancel runId now => { w with runs := (GoLifecycle.cancel runId now).run w.runs }
  | .heartbeat runId workerId now =>
      { w with runs := (GoLifecycle.heartbeat runId workerId settings.leaseSeconds now).run w.runs }
  | .start workerId =>
      if w.workers.any (·.workerId == workerId) then w
      else { w with workers := w.workers ++ [⟨workerId, .idle⟩] }
  | .claim index now => w.withWorker index fun worker =>
      match worker.phase with
      | .idle => w.claimStep settings index worker now
      | _ => w
  | .read index => w.withWorker index fun worker =>
      match worker.phase with
      | .claimed => w.readStep index worker
      | _ => w
  | .invoke index invocation => w.withWorker index fun worker =>
      match worker.phase with
      | .translating run => w.invokeStep index worker run invocation
      | _ => w
  | .check index readable => w.withWorker index fun worker =>
      match worker.phase with
      | .translated run result => w.checkStep index worker run result readable
      | _ => w
  | .save index outcome => w.withWorker index fun worker =>
      match worker.phase with
      | .checked run result => w.saveStep sha256 index worker run result outcome
      | _ => w
  | .complete index now => w.withWorker index fun worker =>
      match worker.phase with
      | .published run result => w.completeStep sha256 index worker run result now
      | _ => w
  | .report index now => w.withWorker index fun worker =>
      match worker.phase with
      | .unpublished run => w.reportStep settings index worker run now
      | _ => w
  | .giveUp index => w.withWorker index fun worker =>
      match worker.phase with
      | .dead => w
      | _ => w.move index worker .idle
  | .crash index => w.withWorker index fun worker => w.move index worker .dead

/-- The world after some events, in order. -/
def World.run (events : List Event) (w : World) : World :=
  events.foldl (fun w event => w.step sha256 settings event) w

/-- A condition on every step of a run, in the state before it. -/
def Always (condition : World → Event → Prop) : List Event → World → Prop
  | [], _ => True
  | event :: rest, w => condition w event ∧ Always condition rest (w.step sha256 settings event)

end

end GoLifecycle
