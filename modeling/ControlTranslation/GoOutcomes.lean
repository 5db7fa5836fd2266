import ControlTranslation.GoSteps

/-!
# How runs end in the Go service

Two statements of the queue decide how a run ends.  A failure report is guarded
by nothing but the run, so a worker that reports late overwrites whatever ended
the run in the meantime: outcomes are final exactly in the runs where no report
does that.  And the attempt limit only stops claims, so a run whose last
permitted attempt died is left running: a claim leaves no such run exactly when
every last attempt was heard of within its lease.
-/

namespace GoLifecycle

open PyText Table Relation
open Lifecycle (Status RunFailure)

/-- What is final once a run ended. -/
def Row.outcome (r : Row) : Status × Option Str × Option Str × Option Completion :=
  (r.status, r.terminalState, r.resultId, r.completion)

/-- The runs that ended in a world have the same outcome in another. -/
def OutcomesKept (w w' : World) : Prop :=
  ∀ runId r, getLifecycleRun runId w.runs = some r → r.status.isTerminal = true →
    ∃ r', getLifecycleRun runId w'.runs = some r' ∧ r'.outcome = r.outcome

/-- A failure report meets no run that ended, but for one that failed and fails
again. -/
def Permits.unfinished : Permits :=
  { Permits.all with
    fail := fun r requeue => r.status.isTerminal = true → r.status = .failed ∧ requeue = false }

/-- A run that ended has no worker. -/
def Row.Released (r : Row) : Prop := r.status.isTerminal = true → r.workerId = none

section

variable {settings : Settings}

theorem released_step {permits : Permits} {r r' : Row} (hstep : RowStep settings permits r r')
    (h : r.Released) : r'.Released := by
  intro hterminal
  cases hstep with
  | claim => exact absurd hterminal Bool.false_ne_true
  | heartbeat => exact h hterminal
  | complete => rfl
  | fail => rfl
  | cancel => rfl

theorem released_inserted {r : Row} (h : Inserted r) : r.Released := by
  obtain ⟨submission, now, rfl⟩ := h
  exact fun _ => rfl

/-- Nothing but a report changes the outcome of a run that ended. -/
theorem outcome_step {r r' : Row} (hstep : RowStep settings .unfinished r r')
    (hreleased : r.Released) (hterminal : r.status.isTerminal = true) :
    r'.outcome = r.outcome := by
  cases hstep with
  | claim workerId now h =>
      have hlive : r.status = .queued ∨ r.status = .running := by
        simp only [Row.claimable, Bool.and_eq_true, Bool.or_eq_true, beq_iff_eq] at h
        exact h.1.imp_right And.left
      rcases hlive with hstatus | hstatus <;> rw [hstatus] at hterminal <;> cases hterminal
  | heartbeat => rfl
  | complete workerId terminalState resultId completion now h =>
      have hworker : r.workerId = some workerId := by
        simp only [complete, Bool.and_eq_true, beq_iff_eq] at h
        exact h.2
      rw [hreleased hterminal] at hworker
      cases hworker
  | fail failure requeue now hpermit =>
      obtain ⟨hfailed, rfl⟩ := hpermit hterminal
      simp [Row.outcome, fail, hfailed]
  | cancel now h =>
      have hlive : r.status = .queued ∨ r.status = .running := by
        simpa [cancel] using h
      rcases hlive with hstatus | hstatus <;> rw [hstatus] at hterminal <;> cases hterminal

/-- An outcome is kept through every run of steps. -/
theorem outcome_steps {r r' : Row} (hsteps : ReflTransGen (RowStep settings .unfinished) r r')
    (hreleased : r.Released) (hterminal : r.status.isTerminal = true) :
    r'.outcome = r.outcome := by
  have hboth : r'.outcome = r.outcome ∧ r'.Released := by
    induction hsteps with
    | refl => exact ⟨rfl, hreleased⟩
    | @tail r₁ r₂ _ hlast ih =>
        have hstatus : r₁.status = r.status := congrArg Prod.fst ih.1
        have hended : r₁.status.isTerminal = true := by rwa [hstatus]
        exact ⟨(outcome_step hlast ih.2 hended).trans ih.1, released_step hlast ih.2⟩
  exact hboth.1

variable {sha256 : Str → Str}

/-- In every run all terminal rows are released. -/
theorem released_run (events : List Event) {w : World} (hkeys : Keyed w.runs)
    (hw : ∀ r ∈ w.runs, r.Released) : ∀ r ∈ (w.run sha256 settings events).runs, r.Released := by
  have hall : Always sha256 settings (fun w event => event.permitted settings .all w) events w :=
    always_iff.mpr fun before event _ _ => permitted_all settings _ event
  exact (run_evolved hkeys hall).invariant (fun _ _ hr hstep => released_step hstep hr)
    (fun _ h => released_inserted h) hw

/-- Runs of such events keep outcomes. -/
theorem outcomesKept_of_always {events : List Event} {w : World} (hkeys : Keyed w.runs)
    (hw : ∀ r ∈ w.runs, r.Released)
    (h : Always sha256 settings (fun w event => event.permitted settings .unfinished w) events w) :
    OutcomesKept w (w.run sha256 settings events) := by
  intro runId r hget hterminal
  obtain ⟨hr, rfl⟩ := getLifecycleRun_eq_some hget
  obtain ⟨r', hr', hsteps⟩ := (run_evolved hkeys h).forth hr
  have hid : r'.runId = r.runId := key_of_steps (fun _ _ hstep => runId_eq hstep) hsteps
  refine ⟨r', ?_, outcome_steps hsteps (hw r hr) hterminal⟩
  rw [← hid]
  exact getLifecycleRun_of_mem (keyed_run events hkeys) hr'

/-- A report that meets a run that ended changes its status, unless both are
failures. -/
theorem permitted_of_outcomesKept {w : World} (hkeys : Keyed w.runs) {event : Event}
    (h : OutcomesKept w (w.step sha256 settings event)) :
    event.permitted settings .unfinished w := by
  cases event with
  | cancel => exact fun _ => trivial
  | claim => exact fun _ _ _ => trivial
  | complete => exact fun _ _ _ _ _ => trivial
  | report index now =>
      intro worker run hget hphase r hr hid hterminal
      obtain ⟨r', hget', houtcome⟩ := h r.runId r (getLifecycleRun_of_mem hkeys hr) hterminal
      obtain ⟨hr', hid'⟩ := getLifecycleRun_eq_some hget'
      have hruns : (w.step sha256 settings (.report index now)).runs =
          (fail run.runId (unavailable (settings.retryable run)) (settings.retryable run)
            now).run w.runs := by
        simp only [World.step, World.withWorker, hget, hphase]
        rfl
      have hreported := Update.assign_mem_run hr (u := fail run.runId
        (unavailable (settings.retryable run)) (settings.retryable run) now) (beq_iff_eq.mpr hid)
      rw [← hruns] at hreported
      have hsame := eq_of_key (step_keyed sha256 settings hkeys (.report index now)) hr' hreported
        hid'
      have hstatus : r'.status = r.status := congrArg Prod.fst houtcome
      rw [hsame] at hstatus
      cases hretry : settings.retryable run with
      | false =>
          rw [hretry] at hstatus
          exact ⟨hstatus.symm, rfl⟩
      | true =>
          rw [hretry] at hstatus
          rw [← hstatus] at hterminal
          cases hterminal
  | _ => trivial

/-- **Outcomes are final** in a run exactly when no failure report of it meets a
run that ended. -/
theorem finished_runs_kept (events : List Event) :
    (∀ before later rest, events = before ++ (later ++ rest) →
        OutcomesKept (World.empty.run sha256 settings before)
          (World.empty.run sha256 settings (before ++ later))) ↔
      Always sha256 settings (fun w event => event.permitted settings .unfinished w) events
        World.empty := by
  constructor
  · intro hkept
    refine always_iff.mpr fun before event rest heq => ?_
    have hstep := hkept before [event] rest heq
    rw [run_append] at hstep
    exact permitted_of_outcomesKept (keyed_run before keyed_empty) hstep
  · rintro h before later rest rfl
    have hreleased := @released_run settings sha256 before _ keyed_empty fun _ hr =>
      absurd hr List.not_mem_nil
    rw [run_append]
    exact outcomesKept_of_always (keyed_run before keyed_empty) hreleased
      (always_append.mp (always_append.mp h).2).1

end

/-- The defaults of the configuration. -/
def Settings.defaults : Settings := ⟨30, 3, by decide, by decide⟩

/-- A submission for the runs below. -/
def plainSubmission : Submission :=
  { runId := ['r'], requestId := ['q'], correlationId := ['c'], idempotencyKey := ['k'],
    requestDigest := ['d'], requestJson := ['j'] }

/-- An invocation that draws the identifiers of this character. -/
def plainInvocation (c : Char) : Invocation :=
  { vulnerabilityId := ['v'], targetTechnology := ['t']
    resultUuid := ⟨List.replicate 36 c, rfl⟩, runUuid := ⟨List.replicate 36 c, rfl⟩
    terminalState := ['e'], evidenceRefs := [], structured := ['s'], content := [c] }

/-- A run that is submitted and translated by a worker, which saw no cancellation. -/
def plainAttempt : List Event :=
  [.submit plainSubmission 0, .start ['w'], .claim 0 1, .read 0, .invoke 0 (plainInvocation '0'),
    .check 0 true]

/-- The run is canceled, its result is refused, and the worker's report puts the
canceled run back into the queue. -/
theorem finished_runs_kept_late_report :
    ¬ OutcomesKept
        (World.empty.run id .defaults (plainAttempt ++ [.cancel ['r'] 2]))
        (World.empty.run id .defaults
          (plainAttempt ++ [.cancel ['r'] 2] ++ [.save 0 .refused, .report 0 3])) := by
  intro h
  obtain ⟨r, hget, hstatus⟩ : ∃ r, getLifecycleRun ['r'] (World.empty.run id .defaults
      (plainAttempt ++ [.cancel ['r'] 2])).runs = some r ∧ r.status = .canceled :=
    ⟨_, rfl, rfl⟩
  obtain ⟨r', hget', hstatus'⟩ : ∃ r', getLifecycleRun ['r'] (World.empty.run id .defaults
      (plainAttempt ++ [.cancel ['r'] 2] ++ [.save 0 .refused, .report 0 3])).runs = some r' ∧
      r'.status = .queued := ⟨_, rfl, rfl⟩
  obtain ⟨r'', hget'', houtcome⟩ := h ['r'] r hget (by rw [hstatus]; rfl)
  obtain rfl := Option.some.inj (hget'.symm.trans hget'')
  have hsame : r'.status = r.status := congrArg Prod.fst houtcome
  rw [hstatus, hstatus'] at hsame
  cases hsame

/-- A run whose last permitted attempt let its lease expire. -/
def Row.Stranded (now : Int) (maxAttempts : Nat) (r : Row) : Prop :=
  r.status = .running ∧ r.expired now = true ∧ maxAttempts ≤ r.attemptNumber

/-- The attempts of a run are permitted ones, and a lease runs from the last beat. -/
structure LeaseInv (settings : Settings) (r : Row) : Prop where
  attempts : r.attemptNumber ≤ settings.maxAttempts
  lease : r.status = .running → ∃ beat, r.lastHeartbeatAt = some beat ∧
    r.leaseExpiresAt = some (beat + settings.leaseSeconds * 1000000)

section

variable {settings : Settings} {sha256 : Str → Str}

theorem leaseInv_step {permits : Permits} {r r' : Row} (hstep : RowStep settings permits r r')
    (h : LeaseInv settings r) : LeaseInv settings r' := by
  cases hstep with
  | claim workerId now hclaim =>
      have hleft : r.attemptNumber < settings.maxAttempts := by
        simp only [Row.claimable, Bool.and_eq_true, decide_eq_true_eq] at hclaim
        exact hclaim.2
      exact ⟨hleft, fun _ => ⟨now, rfl, rfl⟩⟩
  | heartbeat workerId now => exact ⟨h.attempts, fun _ => ⟨now, rfl, rfl⟩⟩
  | complete => exact ⟨h.attempts, fun hrunning => by cases hrunning⟩
  | fail failure requeue =>
      exact ⟨h.attempts, fun hrunning => by cases requeue <;> cases hrunning⟩
  | cancel => exact ⟨h.attempts, fun hrunning => by cases hrunning⟩

/-- Every run keeps it. -/
theorem leaseInv_run (events : List Event) :
    ∀ r ∈ (World.empty.run sha256 settings events).runs, LeaseInv settings r := by
  have hall : Always sha256 settings (fun w event => event.permitted settings .all w) events
      World.empty := always_iff.mpr fun before event _ _ => permitted_all settings _ event
  refine (run_evolved keyed_empty hall).invariant (fun _ _ hr hstep => leaseInv_step hstep hr)
    ?_ fun _ hr => absurd hr List.not_mem_nil
  rintro r ⟨submission, now, rfl⟩
  exact ⟨Nat.zero_le _, fun hrunning => by cases hrunning⟩

/-- A claim is either nothing or the update of a run that has attempts left. -/
theorem claim_step_cases (w : World) (index : Nat) (now : Int) :
    (w.step sha256 settings (.claim index now)).runs = w.runs ∨
      ∃ workerId row, row ∈ w.runs ∧ row.claimable now settings.maxAttempts = true ∧
        (w.step sha256 settings (.claim index now)).runs =
          (claimRow workerId row.runId settings.leaseSeconds now).run w.runs := by
  cases hget : w.workers[index]? with
  | none =>
      refine .inl ?_
      simp only [World.step, World.withWorker, hget]
  | some worker =>
      cases hphase : worker.phase with
      | idle =>
          have hruns : (w.step sha256 settings (.claim index now)).runs =
              (claimNextQueuedRun settings worker.workerId now w.runs).2 := by
            simp only [World.step, World.withWorker, hget, hphase]
            rfl
          rw [hruns]
          unfold claimNextQueuedRun
          cases hcandidate : candidate now settings.maxAttempts w.runs with
          | none => exact .inl rfl
          | some row =>
              obtain ⟨hrow, hclaim⟩ := candidate_spec hcandidate
              exact .inr ⟨worker.workerId, row, hrow, hclaim, rfl⟩
      | _ =>
          refine .inl ?_
          simp only [World.step, World.withWorker, hget, hphase]

/-- A claim leaves a stranded run as it is. -/
theorem stranded_kept {w : World} (hkeys : Keyed w.runs) (index : Nat) {now : Int} {r : Row}
    (hr : r ∈ w.runs) (h : r.Stranded now settings.maxAttempts) :
    r ∈ (w.step sha256 settings (.claim index now)).runs := by
  rcases @claim_step_cases settings sha256 w index now with
    hruns | ⟨workerId, row, hrow, hclaim, hruns⟩
  · rwa [hruns]
  · rw [hruns]
    refine Update.mem_run_self hr ?_
    by_contra happlies
    have hid : r.runId = row.runId := eq_of_beq (Bool.of_not_eq_false happlies)
    obtain rfl := eq_of_key hkeys hr hrow hid
    simp only [Row.claimable, Bool.and_eq_true, decide_eq_true_eq] at hclaim
    exact absurd hclaim.2 (Nat.not_lt.mpr h.2.2)

/-- A claim strands nothing. -/
theorem stranded_before {w : World} (index : Nat) {now : Int} {r : Row}
    (hr : r ∈ (w.step sha256 settings (.claim index now)).runs)
    (h : r.Stranded now settings.maxAttempts) : r ∈ w.runs := by
  rcases @claim_step_cases settings sha256 w index now with
    hruns | ⟨workerId, row, hrow, hclaim, hruns⟩
  · rwa [hruns] at hr
  · rw [hruns] at hr
    rcases Update.mem_run hr with hold | ⟨r₀, _, _, rfl⟩
    · exact hold
    · have hexpired := h.2.1
      have hlease := settings.lease_ok
      simp only [Row.expired, claimRow, Option.any_some, decide_eq_true_eq] at hexpired
      omega

/-- **Exhausted attempts.**  A claim leaves no run that is running past its lease
without an attempt left, and ends every such run, exactly when there is none: when
every run on its last attempt was heard of within a lease. -/
theorem exhausted_attempts_end (events : List Event) (index : Nat) (now : Int) :
    let w := World.empty.run sha256 settings events
    let w' := w.step sha256 settings (.claim index now)
    ((∀ r' ∈ w'.runs, ¬ r'.Stranded now settings.maxAttempts) ∧
        ∀ r ∈ w.runs, r.Stranded now settings.maxAttempts →
          ∃ r' ∈ w'.runs, r'.runId = r.runId ∧ r'.status.isTerminal = true) ↔
      ∀ r ∈ w.runs, r.status = .running → r.attemptNumber = settings.maxAttempts →
        ∃ beat, r.lastHeartbeatAt = some beat ∧
          now ≤ beat + settings.leaseSeconds * 1000000 := by
  intro w w'
  have hinv : ∀ r ∈ w.runs, LeaseInv settings r := leaseInv_run events
  have hkeys : Keyed w.runs := keyed_run events keyed_empty
  constructor
  · rintro ⟨hnone, -⟩ r hr hrunning hlast
    obtain ⟨beat, hbeat, hlease⟩ := (hinv r hr).lease hrunning
    refine ⟨beat, hbeat, ?_⟩
    by_contra hlate
    have hexpired : r.expired now = true := by
      simp only [Row.expired, hlease, Option.any_some, decide_eq_true_eq]
      omega
    have hstranded : r.Stranded now settings.maxAttempts := ⟨hrunning, hexpired, hlast.ge⟩
    exact hnone r (stranded_kept hkeys index hr hstranded) hstranded
  · intro halive
    have hnone : ∀ r ∈ w.runs, ¬ r.Stranded now settings.maxAttempts := by
      rintro r hr ⟨hrunning, hexpired, hexhausted⟩
      have hlast := le_antisymm (hinv r hr).attempts hexhausted
      obtain ⟨beat, hbeat, hwithin⟩ := halive r hr hrunning hlast
      obtain ⟨beat', hbeat', hlease⟩ := (hinv r hr).lease hrunning
      rw [hbeat] at hbeat'
      obtain rfl := Option.some.inj hbeat'
      simp only [Row.expired, hlease, Option.any_some, decide_eq_true_eq] at hexpired
      omega
    refine ⟨fun r' hr' hstranded => ?_, fun r hr hstranded => absurd hstranded (hnone r hr)⟩
    exact hnone r' (stranded_before index hr' hstranded) hstranded

end

/-- Every permitted attempt dies without a word; the next claim leaves the run
running. -/
theorem exhausted_attempts_end_crashes :
    ∃ r ∈ ((World.empty.run id .defaults
        [.submit plainSubmission 0, .start ['u'], .claim 0 1, .crash 0, .start ['v'],
          .claim 1 31000000, .crash 1, .start ['w'], .claim 2 62000000, .crash 2,
          .start ['x']]).step id .defaults (.claim 3 93000000)).runs,
      r.Stranded 93000000 Settings.defaults.maxAttempts :=
  ⟨_, List.mem_cons_self, rfl, rfl, le_rfl⟩

end GoLifecycle
