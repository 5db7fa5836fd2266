import ControlTranslation.GoWorkers

/-!
# What an event does to the queue

As for the lifecycle store: `RowStep` lists what a statement can do to a row, and
every event moves the rows of the queue by such steps and adds at most a queued
one.  Who claims, and what a completion, a failure report or a cancellation meets,
is a parameter, since the statements themselves hardly look.
-/

namespace GoLifecycle

open PyText Table Relation
open Lifecycle (Status RunFailure)

/-- The workers that claim, the results that runs are completed with, the rows that
failure reports meet and the runs that are canceled. -/
structure Permits where
  claim : Str → Prop
  complete : Str → Str → Prop
  fail : Row → Bool → Prop
  cancel : Str → Prop

/-- Everything may happen. -/
def Permits.all : Permits := ⟨fun _ => True, fun _ _ => True, fun _ _ => True, fun _ => True⟩

/-- One statement's effect on a row. -/
inductive RowStep (settings : Settings) (permits : Permits) (r : Row) : Row → Prop
  | claim (workerId : Str) (now : Int) (h : r.claimable now settings.maxAttempts = true)
      (hpermit : permits.claim workerId) :
      RowStep settings permits r
        ((claimRow workerId r.runId settings.leaseSeconds now).assign r)
  | heartbeat (workerId : Str) (now : Int)
      (h : (heartbeat r.runId workerId settings.leaseSeconds now).applies r = true) :
      RowStep settings permits r
        ((heartbeat r.runId workerId settings.leaseSeconds now).assign r)
  | complete (workerId terminalState resultId : Str) (completion : Completion) (now : Int)
      (h : (complete r.runId workerId terminalState resultId completion now).applies r = true)
      (hpermit : permits.complete r.runId resultId) :
      RowStep settings permits r
        ((complete r.runId workerId terminalState resultId completion now).assign r)
  | fail (failure : RunFailure) (requeue : Bool) (now : Int) (hpermit : permits.fail r requeue) :
      RowStep settings permits r ((fail r.runId failure requeue now).assign r)
  | cancel (now : Int) (h : (cancel r.runId now).applies r = true)
      (hpermit : permits.cancel r.runId) :
      RowStep settings permits r ((cancel r.runId now).assign r)

/-- A row as it is inserted. -/
def Inserted (r : Row) : Prop := ∃ submission now, r = queuedRow submission now

theorem runId_eq {settings : Settings} {permits : Permits} {r r' : Row}
    (h : RowStep settings permits r r') :
    r'.runId = r.runId := by
  cases h <;> rfl

/-- Runs have one row each. -/
def Keyed (runs : List Row) : Prop := (runs.map (·.runId)).Nodup

theorem getLifecycleRun_eq_some {runs : List Row} {runId : Str} {row : Row}
    (h : getLifecycleRun runId runs = some row) : row ∈ runs ∧ row.runId = runId := by
  unfold getLifecycleRun at h
  have hid := List.find?_some h
  exact ⟨List.mem_of_find?_eq_some h, eq_of_beq hid⟩

theorem getLifecycleRun_of_mem {runs : List Row} (hkeys : Keyed runs) {r : Row} (hr : r ∈ runs) :
    getLifecycleRun r.runId runs = some r := by
  cases h : getLifecycleRun r.runId runs with
  | none =>
      unfold getLifecycleRun at h
      have hno := List.find?_eq_none.mp h r hr
      exact absurd BEq.rfl hno
  | some row =>
      obtain ⟨hrow, hid⟩ := getLifecycleRun_eq_some h
      rw [eq_of_key hkeys hrow hr hid]

theorem candidate_spec {now : Int} {maxAttempts : Nat} {runs : List Row} {row : Row}
    (h : candidate now maxAttempts runs = some row) :
    row ∈ runs ∧ row.claimable now maxAttempts = true := by
  unfold candidate at h
  have hmem := List.mem_of_mem_head? h
  rw [List.mem_insertionSort, List.mem_filter] at hmem
  exact hmem

/-- The claimed run is running under the worker. -/
theorem claimedRun_spec {workerId : Str} {runs : List Row} {row : Row}
    (h : claimedRun workerId runs = some row) :
    row ∈ runs ∧ row.workerId = some workerId ∧ row.status = .running := by
  unfold claimedRun at h
  have hmem := List.mem_of_mem_head? h
  rw [List.mem_insertionSort, List.mem_filter] at hmem
  simpa using hmem

section

variable {settings : Settings} {permits : Permits} {new : Row → Prop} {runs : List Row}

theorem evolved_claim {workerId : Str} (hpermit : permits.claim workerId) (now : Int)
    (hkeys : Keyed runs) :
    Evolved (RowStep settings permits) new runs
      (claimNextQueuedRun settings workerId now runs).2 := by
  unfold claimNextQueuedRun
  cases hcandidate : candidate now settings.maxAttempts runs with
  | none => exact Evolved.refl _ _ _
  | some row =>
      obtain ⟨hrow, hclaim⟩ := candidate_spec hcandidate
      refine Evolved.of_update fun r hr happlies => ?_
      obtain rfl := eq_of_key hkeys hr hrow (eq_of_beq happlies)
      exact .claim workerId now hclaim hpermit

theorem evolved_heartbeat (runId workerId : Str) (now : Int) :
    Evolved (RowStep settings permits) new runs
      ((heartbeat runId workerId settings.leaseSeconds now).run runs) := by
  refine Evolved.of_update fun r _ happlies => ?_
  have hid : r.runId = runId := by
    simp only [heartbeat, Bool.and_eq_true, beq_iff_eq] at happlies
    exact happlies.1.1
  subst hid
  exact .heartbeat workerId now happlies

theorem evolved_complete {runId resultId : Str} (hpermit : permits.complete runId resultId)
    (workerId terminalState : Str) (completion : Completion) (now : Int) :
    Evolved (RowStep settings permits) new runs
      (completeLifecycleRun runId workerId terminalState resultId completion now runs) := by
  unfold completeLifecycleRun
  dsimp only
  split_ifs
  · exact Evolved.refl _ _ _
  · refine Evolved.of_update fun r _ happlies => ?_
    have hid : r.runId = runId := by
      simp only [complete, Bool.and_eq_true, beq_iff_eq] at happlies
      exact happlies.1
    subst hid
    exact .complete workerId terminalState resultId completion now happlies hpermit

theorem evolved_fail {runId : Str} {requeue : Bool}
    (hpermit : ∀ r ∈ runs, r.runId = runId → permits.fail r requeue) (failure : RunFailure)
    (now : Int) :
    Evolved (RowStep settings permits) new runs ((fail runId failure requeue now).run runs) := by
  refine Evolved.of_update fun r hr happlies => ?_
  have hid : r.runId = runId := eq_of_beq happlies
  have hallowed := hpermit r hr hid
  subst hid
  exact .fail failure requeue now hallowed

theorem evolved_cancel {runId : Str}
    (hpermit : ∀ r ∈ runs, (cancel runId 0).applies r = true → permits.cancel runId) (now : Int) :
    Evolved (RowStep settings permits) new runs ((cancel runId now).run runs) := by
  refine Evolved.of_update fun r hr happlies => ?_
  have hallowed := hpermit r hr happlies
  have hid : r.runId = runId := by
    simp only [cancel, Bool.and_eq_true, beq_iff_eq] at happlies
    exact happlies.1
  subst hid
  exact .cancel now happlies hallowed

theorem evolved_create (submission : Submission) (now : Int) :
    Evolved (RowStep settings permits) Inserted runs (createLifecycleRun submission now runs) := by
  unfold createLifecycleRun
  split_ifs
  · exact Evolved.refl _ _ _
  · exact .of_insert ⟨submission, now, rfl⟩

/-- A submission keeps the identifiers apart. -/
theorem keyed_create (submission : Submission) (now : Int) (hkeys : Keyed runs) :
    Keyed (createLifecycleRun submission now runs) := by
  unfold createLifecycleRun
  split_ifs with htaken
  · exact hkeys
  · unfold Keyed
    rw [List.map_append, List.map_singleton, List.nodup_append]
    refine ⟨hkeys, List.nodup_singleton _, fun a ha b hb => ?_⟩
    obtain ⟨r, hr, rfl⟩ := List.mem_map.mp ha
    rw [List.mem_singleton.mp hb]
    intro heq
    exact htaken (List.any_eq_true.mpr ⟨r, hr, by simp [heq, queuedRow]⟩)

end

/-- A worker's step is one of the steps of the worker at that place. -/
theorem withWorker_cases (w : World) (index : Nat) (step : Worker → World) :
    w.withWorker index step = w ∨
      ∃ worker, w.workers[index]? = some worker ∧ w.withWorker index step = step worker := by
  unfold World.withWorker
  cases w.workers[index]? with
  | none => exact .inl rfl
  | some worker => exact .inr ⟨worker, rfl, rfl⟩

section

variable (sha256 : Str → Str) (settings : Settings)

/-- What the events of a run may do. -/
def Event.permitted (permits : Permits) (w : World) : Event → Prop
  | .cancel runId _ =>
      (∃ r ∈ w.runs, (GoLifecycle.cancel runId 0).applies r = true) → permits.cancel runId
  | .claim index _ => ∀ worker, w.workers[index]? = some worker → worker.phase = .idle →
      permits.claim worker.workerId
  | .complete index _ => ∀ worker run result, w.workers[index]? = some worker →
      worker.phase = .published run result → permits.complete run.runId result.resultId
  | .report index _ => ∀ worker run, w.workers[index]? = some worker →
      worker.phase = .unpublished run → ∀ r ∈ w.runs, r.runId = run.runId →
        permits.fail r (settings.retryable run)
  | _ => True

/-- Every event but a submission only moves the rows of the queue. -/
theorem step_moved {permits : Permits} {new : Row → Prop} {w : World} (hkeys : Keyed w.runs)
    {event : Event} (hsubmit : ∀ submission now, event ≠ .submit submission now)
    (hpermit : event.permitted settings permits w) :
    Evolved (RowStep settings permits) new w.runs (w.step sha256 settings event).runs := by
  have hself := Evolved.refl (RowStep settings permits) new w.runs
  have hworker : ∀ (index : Nat) (step : Worker → World),
      (∀ worker, w.workers[index]? = some worker →
        Evolved (RowStep settings permits) new w.runs (step worker).runs) →
      Evolved (RowStep settings permits) new w.runs (w.withWorker index step).runs := by
    intro index step hstep
    rcases withWorker_cases w index step with h | ⟨worker, hget, h⟩
    · rwa [h]
    · rw [h]
      exact hstep worker hget
  cases event with
  | submit submission now => exact absurd rfl (hsubmit submission now)
  | cancel runId now => exact evolved_cancel (fun r hr happlies => hpermit ⟨r, hr, happlies⟩) now
  | heartbeat runId workerId now => exact evolved_heartbeat runId workerId now
  | start workerId =>
      dsimp only [World.step]
      split_ifs <;> exact hself
  | claim index now =>
      refine hworker index _ fun worker hget => ?_
      split
      · exact evolved_claim (hpermit worker hget ‹_›) now hkeys
      · exact hself
  | read index =>
      refine hworker index _ fun worker _ => ?_
      split
      · unfold World.readStep
        split <;> exact hself
      · exact hself
  | invoke index invocation =>
      refine hworker index _ fun worker _ => ?_
      split
      · unfold World.invokeStep
        split_ifs <;> exact hself
      · exact hself
  | check index readable =>
      refine hworker index _ fun worker _ => ?_
      split
      · unfold World.checkStep
        split_ifs <;> exact hself
      · exact hself
  | save index outcome =>
      refine hworker index _ fun worker _ => ?_
      split
      · cases outcome <;> exact hself
      · exact hself
  | complete index now =>
      refine hworker index _ fun worker hget => ?_
      split
      · rename_i run result hphase
        exact evolved_complete (hpermit worker run result hget hphase) _ _ _ now
      · exact hself
  | report index now =>
      refine hworker index _ fun worker hget => ?_
      split
      · rename_i run hphase
        exact evolved_fail (hpermit worker run hget hphase) _ now
      · exact hself
  | giveUp index =>
      refine hworker index _ fun worker _ => ?_
      split <;> exact hself
  | crash index => exact hworker index _ fun worker _ => hself

/-- Every event moves the rows of the queue by steps. -/
theorem step_evolved {permits : Permits} {w : World} (hkeys : Keyed w.runs) {event : Event}
    (hpermit : event.permitted settings permits w) :
    Evolved (RowStep settings permits) Inserted w.runs (w.step sha256 settings event).runs := by
  by_cases hsubmit : ∃ submission now, event = .submit submission now
  · obtain ⟨submission, now, rfl⟩ := hsubmit
    exact evolved_create submission now
  · exact step_moved sha256 settings hkeys (fun submission now h => hsubmit ⟨submission, now, h⟩)
      hpermit

theorem permitted_all (w : World) (event : Event) : event.permitted settings .all w := by
  cases event with
  | cancel => exact fun _ => trivial
  | claim => exact fun _ _ _ => trivial
  | complete => exact fun _ _ _ _ _ => trivial
  | report => exact fun _ _ _ _ _ _ _ => trivial
  | _ => trivial

/-- Identifiers stay apart. -/
theorem step_keyed {w : World} (hkeys : Keyed w.runs) (event : Event) :
    Keyed (w.step sha256 settings event).runs := by
  by_cases hsubmit : ∃ submission now, event = .submit submission now
  · obtain ⟨submission, now, rfl⟩ := hsubmit
    exact keyed_create submission now hkeys
  · have hmoved := @step_moved sha256 settings .all (fun _ => False) w hkeys event
      (fun submission now h => hsubmit ⟨submission, now, h⟩) (permitted_all settings w event)
    have hids : (w.step sha256 settings event).runs.map (·.runId) = w.runs.map (·.runId) :=
      hmoved.map_key fun _ _ hstep => runId_eq hstep
    unfold Keyed
    rwa [hids]

variable {sha256 settings}

theorem run_append (events later : List Event) (w : World) :
    w.run sha256 settings (events ++ later) =
      (w.run sha256 settings events).run sha256 settings later :=
  List.foldl_append

/-- What every step keeps, a run keeps. -/
theorem run_invariant {I : World → Prop}
    (hstep : ∀ w event, I w → I (w.step sha256 settings event))
    (events : List Event) {w : World} (hw : I w) : I (w.run sha256 settings events) := by
  induction events generalizing w with
  | nil => exact hw
  | cons event rest ih => exact ih (hstep w event hw)

/-- What every step keeps under the condition, a run of such steps keeps. -/
theorem Always.invariant {condition : World → Event → Prop} {I : World → Prop}
    (hstep : ∀ w event, condition w event → I w → I (w.step sha256 settings event))
    {events : List Event} {w : World} (h : Always sha256 settings condition events w) (hw : I w) :
    I (w.run sha256 settings events) := by
  induction events generalizing w with
  | nil => exact hw
  | cons event rest ih => exact ih h.2 (hstep w event h.1 hw)

theorem always_append {condition : World → Event → Prop} {events later : List Event} {w : World} :
    Always sha256 settings condition (events ++ later) w ↔
      Always sha256 settings condition events w ∧
        Always sha256 settings condition later (w.run sha256 settings events) := by
  induction events generalizing w with
  | nil => exact ⟨fun h => ⟨trivial, h⟩, fun h => h.2⟩
  | cons event rest ih => exact (and_congr_right fun _ => ih).trans and_assoc.symm

/-- A condition on every step, step by step. -/
theorem always_iff {condition : World → Event → Prop} {events : List Event} {w : World} :
    Always sha256 settings condition events w ↔
      ∀ before event rest, events = before ++ event :: rest →
        condition (w.run sha256 settings before) event := by
  constructor
  · rintro h before event rest rfl
    exact (always_append.mp h).2.1
  · intro h
    induction events generalizing w with
    | nil => exact trivial
    | cons event rest ih =>
        refine ⟨h [] event rest rfl, ih fun before event' rest' heq => ?_⟩
        exact h (event :: before) event' rest' (congrArg (event :: ·) heq)

theorem keyed_empty : Keyed World.empty.runs := List.nodup_nil

/-- In every run the ids of the rows differ. -/
theorem keyed_run (events : List Event) {w : World} (hkeys : Keyed w.runs) :
    Keyed (w.run sha256 settings events).runs :=
  run_invariant (I := fun w => Keyed w.runs)
    (fun _ event hw => step_keyed sha256 settings hw event) events hkeys

/-- A run of permitted events moves the rows of the queue by steps. -/
theorem run_evolved {permits : Permits} {events : List Event} {w : World} (hkeys : Keyed w.runs)
    (h : Always sha256 settings (fun w event => event.permitted settings permits w) events w) :
    Evolved (RowStep settings permits) Inserted w.runs (w.run sha256 settings events).runs := by
  induction events generalizing w with
  | nil => exact Evolved.refl _ _ _
  | cons event rest ih =>
      exact (step_evolved sha256 settings hkeys h.1).trans
        (ih (step_keyed sha256 settings hkeys event) h.2)

end

end GoLifecycle
