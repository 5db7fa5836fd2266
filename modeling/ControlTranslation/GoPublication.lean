import ControlTranslation.GoEffects
import ControlTranslation.GoOutcomes

/-!
# What the Go service publishes

Nothing takes a row of the results table back when its run is canceled or started
again, and no two attempts merge into one row.  So a canceled run has no row exactly
when no cancellation fell between the look and the write or after the write, and a
run has one row exactly when one of its attempts writes.  What a completed run
references is a row of its own in any case.
-/

namespace GoLifecycle

open PyText Table Relation
open Lifecycle (Status RunFailure)

section

variable {sha256 : Str → Str} {settings : Settings}

/-- A run whose cancellation was acknowledged has nothing in the results table. -/
def CanceledUnpublished (w : World) : Prop :=
  ∀ r ∈ w.runs, r.status = .canceled ∨ r.cancelRequested = true →
    ∀ row ∈ w.results, row.lifecycleRun ≠ r.runId

/-- Cancellations that find no result of their run. -/
def Permits.cancelUnpublished (results : List ResultRow) : Permits :=
  { Permits.all with cancel := fun runId => ∀ row ∈ results, row.lifecycleRun ≠ runId }

/-- A save that writes finds its run not canceled, and a cancellation that cancels
finds no result of its run. -/
def Event.heedsCancellation (settings : Settings) (w : World) (event : Event) : Prop :=
  event.writes (fun _ run => ∀ r ∈ w.runs, r.runId = run.runId → r.cancelRequested = false) w ∧
    event.permitted settings (.cancelUnpublished w.results) w

/-- Only a cancellation cancels, and it is recorded. -/
structure CancelInv (results : List ResultRow) (r : Row) : Prop where
  recorded : r.status = .canceled → r.cancelRequested = true
  unpublished : r.cancelRequested = true → ∀ row ∈ results, row.lifecycleRun ≠ r.runId

/-- A step keeps the invariant of canceled rows. -/
theorem cancelInv_step {results : List ResultRow} {r r' : Row}
    (hstep : RowStep settings (.cancelUnpublished results) r r') (h : CancelInv results r) :
    CancelInv results r' := by
  cases hstep with
  | claim => exact ⟨fun hstatus => (by cases hstatus), h.unpublished⟩
  | heartbeat => exact ⟨h.recorded, h.unpublished⟩
  | complete => exact ⟨fun hstatus => (by cases hstatus), h.unpublished⟩
  | fail failure requeue =>
      exact ⟨fun hstatus => (by cases requeue <;> cases hstatus), h.unpublished⟩
  | cancel now _ hpermit => exact ⟨fun _ => rfl, fun _ => hpermit⟩

/-- A step that heeds cancellations keeps canceled runs unpublished. -/
theorem cancelInv_world {w : World} (hkeys : Keyed w.runs) {event : Event}
    (hcondition : event.heedsCancellation settings w) (h : ∀ r ∈ w.runs, CancelInv w.results r) :
    ∀ r ∈ (w.step sha256 settings event).runs,
      CancelInv (w.step sha256 settings event).results r := by
  have hrows : ∀ r ∈ (w.step sha256 settings event).runs, CancelInv w.results r := by
    refine (step_evolved sha256 settings hkeys hcondition.2).invariant
      (fun _ _ hr hstep => cancelInv_step hstep hr) ?_ h
    rintro r ⟨submission, now, rfl⟩
    exact ⟨fun hstatus => (by cases hstatus), fun hflag => (by cases hflag)⟩
  have heffect := @step_effect sha256 settings _ _ _ w event (reads_any w event)
    (looks_any w event) hcondition.1
  rcases heffect.results_cases with hsame | ⟨worker, run, result, hpermit, hruns, hmerge⟩
  · rwa [hsame]
  · intro r hr
    refine ⟨(hrows r hr).recorded, fun hflag row hrow => ?_⟩
    rw [hmerge] at hrow
    rcases mem_merge hrow with hrow | rfl
    · exact (hrows r hr).unpublished hflag row hrow
    · intro hid
      rw [hruns] at hr
      rw [hpermit r hr hid.symm] at hflag
      cases hflag

/-- A step after which no canceled run is published heeded cancellations. -/
theorem heeds_of_canceledUnpublished {w : World} (hidentified : Identified w) {event : Event}
    (h : CanceledUnpublished (w.step sha256 settings event)) :
    event.heedsCancellation settings w := by
  constructor
  · cases event with
    | save index outcome =>
        intro hwrites worker run result hget hphase r hr hid
        obtain ⟨hruns, hresults⟩ := @save_step sha256 settings w _ _ _ _ hget hphase _ hwrites
        rw [hidentified.merge_eq hget hphase] at hresults
        by_contra hflag
        refine h r (by rwa [hruns]) (.inr (Bool.of_not_eq_false hflag))
          (resultRow sha256 run result) ?_ hid.symm
        rw [hresults]
        exact List.mem_append_right _ List.mem_cons_self
    | _ => trivial
  · cases event with
    | cancel runId now =>
        rintro ⟨r, hr, happlies⟩ row hrow
        have hid : r.runId = runId := by
          simp only [cancel, Bool.and_eq_true, beq_iff_eq] at happlies
          exact happlies.1
        have hassigned : (cancel runId now).assign r ∈
            (w.step sha256 settings (.cancel runId now)).runs := Update.assign_mem_run hr happlies
        rw [← hid]
        exact h _ hassigned (.inr rfl) row hrow
    | claim => exact fun _ _ _ => trivial
    | complete => exact fun _ _ _ _ _ => trivial
    | report => exact fun _ _ _ _ _ _ _ => trivial
    | _ => trivial

/-- No canceled run is published at any time of a run exactly when no save of it writes
after a cancellation and no cancellation of it cancels after a save. -/
theorem canceledUnpublished_iff (events : List Event) :
    (∀ before rest, events = before ++ rest →
        CanceledUnpublished (World.empty.run sha256 settings before)) ↔
      Always sha256 settings (fun w event => event.heedsCancellation settings w) events
        World.empty := by
  constructor
  · intro h
    refine always_iff.mpr fun before event rest heq => ?_
    have hafter := h (before ++ [event]) rest (by rw [heq, List.append_assoc]; rfl)
    rw [run_append] at hafter
    exact heeds_of_canceledUnpublished (identified_run before) hafter
  · rintro h before rest rfl
    have hinv := (always_append.mp h).1.invariant
      (I := fun w => Keyed w.runs ∧ ∀ r ∈ w.runs, CancelInv w.results r)
      (fun w event hcondition hw => ⟨step_keyed sha256 settings hw.1 event,
        cancelInv_world hw.1 hcondition hw.2⟩)
      ⟨keyed_empty, fun _ hr => absurd hr List.not_mem_nil⟩
    intro r hr hcanceled
    refine (hinv.2 r hr).unpublished ?_
    exact hcanceled.elim (hinv.2 r hr).recorded id

/-- An attempt at a run has looked for a cancellation and has not written. -/
def World.pastCheck (w : World) (runId : Str) : Prop :=
  ∃ (i : Nat) (worker : Worker) (run : Claimed) (result : Envelope),
    w.workers[i]? = some worker ∧ worker.phase = .checked run result ∧ run.runId = runId

/-- Cancellations of runs that no attempt is past its look at, and that have no row. -/
def Permits.cancelEarly (w : World) : Permits :=
  { Permits.all with
    cancel := fun runId => ¬ w.pastCheck runId ∧ ∀ row ∈ w.results, row.lifecycleRun ≠ runId }

/-- A look for a cancellation can read the run, and a cancellation that takes effect comes
before the look of an attempt or after the attempt ended without a row. -/
def Event.cancelsEarly (settings : Settings) (w : World) (event : Event) : Prop :=
  (∀ index readable, event = .check index readable → readable = true) ∧
    event.permitted settings (.cancelEarly w) w

/-- What an attempt that is past its look found: its run is not canceled. -/
def Checked (w : World) : Prop :=
  ∀ runId, w.pastCheck runId → ∀ r ∈ w.runs, r.runId = runId → r.cancelRequested = false

/-- Where nothing cancels the run, it stays not canceled. -/
theorem cancelRequested_step {permits : Permits} {runId : Str} (hnone : ¬ permits.cancel runId)
    {r r' : Row} (hstep : RowStep settings permits r r')
    (h : r.runId = runId → r.cancelRequested = false) :
    r'.runId = runId → r'.cancelRequested = false := by
  intro hid
  rw [runId_eq hstep] at hid
  cases hstep with
  | cancel now _ hpermit => exact absurd (hid ▸ hpermit) hnone
  | _ => exact h hid

/-- Who is past the look after an event was so before, or has just looked. -/
theorem Effect.pastCheck {reads : Row → Prop} {looks : Claimed → Prop}
    {writes : Worker → Claimed → Prop} {w w' : World}
    (h : Effect sha256 reads looks writes w w') {runId : Str} (hpast : w'.pastCheck runId) :
    w.pastCheck runId ∨
      (w'.runs = w.runs ∧ ∃ run : Claimed, run.runId = runId ∧ looks run) := by
  obtain ⟨i, worker', run, result, hget', hphase', hid⟩ := hpast
  have hmove : ∀ {index : Nat} {worker : Worker} {phase : Phase},
      (∀ run result, phase ≠ .checked run result) →
      (w.move index worker phase).workers[i]? = some worker' → w.pastCheck runId := by
    intro index worker phase hother hmoved
    rcases getElem?_move hmoved with ⟨rfl, rfl⟩ | ⟨-, hold⟩
    · exact absurd hphase' (hother run result)
    · exact ⟨i, worker', run, result, hold, hphase', hid⟩
  cases h with
  | queue => exact .inl ⟨i, worker', run, result, hget', hphase', hid⟩
  | start workerId =>
      rcases Nat.lt_or_ge i w.workers.length with hlt | hge
      · rw [List.getElem?_append_left hlt] at hget'
        exact .inl ⟨i, worker', run, result, hget', hphase', hid⟩
      · rw [List.getElem?_append_right hge] at hget'
        obtain rfl := List.mem_singleton.mp (List.mem_of_getElem? hget')
        cases hphase'
  | rest index worker phase runs hget hquiet =>
      refine .inl (hmove (fun run result heq => ?_) hget')
      rw [heq] at hquiet
      cases hquiet
  | read => exact .inl (hmove (fun _ _ heq => by cases heq) hget')
  | invoke => exact .inl (hmove (fun _ _ heq => by cases heq) hget')
  | check index worker own envelope hget hphase hpermit =>
      rcases getElem?_move hget' with ⟨rfl, rfl⟩ | ⟨-, hold⟩
      · cases hphase'
        exact .inr ⟨rfl, run, hid, hpermit⟩
      · exact .inl ⟨i, worker', run, result, hold, hphase', hid⟩
  | save index worker own envelope phase hget hphase hnext =>
      refine .inl (hmove (fun _ _ heq => ?_) hget')
      rw [heq] at hnext
      rcases hnext with hnext | hnext <;> cases hnext

/-- A step on the schedule keeps what attempts found. -/
theorem checked_world {w : World} (hkeys : Keyed w.runs) {event : Event}
    (hcondition : event.cancelsEarly settings w) (h : Checked w) :
    Checked (w.step sha256 settings event) := by
  have hlooks : event.looks (fun run =>
      ∀ r ∈ w.runs, r.runId = run.runId → r.cancelRequested = false) w := by
    cases event with
    | check index readable =>
        intro worker run result _ _ hnone r hr hid
        rw [hcondition.1 index readable rfl, Bool.true_and, ← hid,
          getLifecycleRun_of_mem hkeys hr] at hnone
        exact hnone
    | _ => trivial
  have heffect := @step_effect sha256 settings _ _ _ w event (reads_any w event) hlooks
    (writes_any w event)
  intro runId hpast
  rcases heffect.pastCheck hpast with hold | ⟨hruns, run, rfl, hfound⟩
  · have hnone : ¬ (Permits.cancelEarly w).cancel runId := fun hearly => hearly.1 hold
    refine (step_evolved sha256 settings hkeys hcondition.2).invariant
      (fun _ _ hr hstep => cancelRequested_step hnone hstep hr) ?_ (h runId hold)
    rintro r ⟨submission, now, rfl⟩ -
    rfl
  · rw [hruns]
    exact hfound

/-- On the schedule, what is written was not canceled. -/
theorem heedsCancellation_of_cancelsEarly {w : World} {event : Event} (h : Checked w)
    (hcondition : event.cancelsEarly settings w) : event.heedsCancellation settings w := by
  constructor
  · cases event with
    | save index outcome =>
        intro _ worker run result hget hphase
        exact h run.runId ⟨index, worker, run, result, hget, hphase, rfl⟩
    | _ => trivial
  · cases event with
    | cancel runId now => exact fun happlies => (hcondition.2 happlies).2
    | claim => exact fun _ _ _ => trivial
    | complete => exact fun _ _ _ _ _ => trivial
    | report => exact fun _ _ _ _ _ _ _ => trivial
    | _ => trivial

/-- **Cancellation and publication.**  Where cancellations take effect only while no attempt
is between its look and its write and the run has no row, and every look can read its run,
no canceled run is published at any time. -/
theorem canceled_publishes_nothing {events : List Event}
    (h : Always sha256 settings (fun w event => event.cancelsEarly settings w) events
      World.empty) :
    ∀ before rest, events = before ++ rest →
      CanceledUnpublished (World.empty.run sha256 settings before) := by
  refine (canceledUnpublished_iff events).mpr (always_iff.mpr fun before event rest heq => ?_)
  have hchecked := (always_append.mp (heq ▸ h)).1.invariant
    (I := fun w => Keyed w.runs ∧ Checked w)
    (fun w event hcondition hw => ⟨step_keyed sha256 settings hw.1 event,
      checked_world hw.1 hcondition hw.2⟩)
    ⟨keyed_empty, fun _ _ _ hr => absurd hr List.not_mem_nil⟩
  exact heedsCancellation_of_cancelsEarly hchecked.2 (always_iff.mp h before event rest heq)

end

/-- Steps other than cancellations and looks that fail are on the schedule. -/
theorem cancelsEarly_other {settings : Settings} {w : World} {event : Event}
    (hcancel : ∀ runId now, event ≠ .cancel runId now)
    (hcheck : ∀ index, event ≠ .check index false) : event.cancelsEarly settings w := by
  constructor
  · rintro index readable rfl
    exact Bool.of_not_eq_false fun hunreadable => hcheck index (hunreadable ▸ rfl)
  · cases event with
    | cancel runId now => exact absurd rfl (hcancel runId now)
    | claim => exact fun _ _ _ => trivial
    | complete => exact fun _ _ _ _ _ => trivial
    | report => exact fun _ _ _ _ _ _ _ => trivial
    | _ => trivial

/-- A run is canceled while it is translated; the worker sees it and takes another run, whose
result it publishes. -/
def earlyCancel : List Event :=
  [.submit plainSubmission 0, .submit { plainSubmission with
      runId := ['s'], requestId := ['p'], idempotencyKey := ['l'] } 0,
    .start ['w'], .claim 0 1, .read 0, .invoke 0 (plainInvocation '0'), .cancel ['r'] 2,
    .check 0 true, .claim 0 3, .read 0, .invoke 0 (plainInvocation '1'), .check 0 true,
    .save 0 .answered, .complete 0 4]

/-- The run of the example cancels before any attempt has looked. -/
theorem cancelsEarly_earlyCancel :
    Always id .defaults (fun w event => event.cancelsEarly .defaults w) earlyCancel
      World.empty := by
  have hother : ∀ {w : World} {event : Event}, (∀ runId now, event ≠ .cancel runId now) →
      (∀ index, event ≠ .check index false) → event.cancelsEarly .defaults w :=
    cancelsEarly_other
  refine ⟨hother nofun nofun, hother nofun nofun, hother nofun nofun, hother nofun nofun,
    hother nofun nofun, hother nofun nofun, ⟨nofun, fun _ => ⟨?_, nofun⟩⟩, hother nofun nofun,
    hother nofun nofun, hother nofun nofun, hother nofun nofun, hother nofun nofun,
    hother nofun nofun, hother nofun nofun, trivial⟩
  -- the one worker is translating
  rintro ⟨i, worker, run, result, hget, hphase, -⟩
  obtain rfl := List.mem_singleton.mp (List.mem_of_getElem? hget)
  cases hphase

/-- A run canceled early, while another is published. -/
theorem canceled_publishes_nothing_early_cancel :
    CanceledUnpublished (World.empty.run id .defaults earlyCancel) ∧
      (∃ r ∈ (World.empty.run id .defaults earlyCancel).runs, r.status = .canceled) ∧
      ∃ row, row ∈ (World.empty.run id .defaults earlyCancel).results := by
  refine ⟨canceled_publishes_nothing cancelsEarly_earlyCancel earlyCancel [] ?_,
    ⟨_, List.mem_cons_self, rfl⟩, ⟨_, List.mem_cons_self⟩⟩
  rw [List.append_nil]

/-- The run is canceled after the look and written all the same. -/
theorem canceled_publishes_nothing_late_cancel :
    ¬ CanceledUnpublished (World.empty.run id .defaults
      (plainAttempt ++ [.cancel ['r'] 2, .save 0 .answered])) := by
  intro h
  obtain ⟨r, hr, hid, hstatus⟩ : ∃ r ∈ (World.empty.run id .defaults
      (plainAttempt ++ [.cancel ['r'] 2, .save 0 .answered])).runs,
      r.runId = ['r'] ∧ r.status = .canceled := ⟨_, List.mem_cons_self, rfl, rfl⟩
  obtain ⟨row, hrow, hrun⟩ : ∃ row ∈ (World.empty.run id .defaults
      (plainAttempt ++ [.cancel ['r'] 2, .save 0 .answered])).results,
      row.lifecycleRun = ['r'] := ⟨_, List.mem_cons_self, rfl⟩
  exact h r hr (.inl hstatus) row hrow (hrun.trans hid.symm)

/-- The rows of the results table that attempts of a run wrote. -/
def World.resultsOf (w : World) (runId : Str) : List ResultRow :=
  w.results.filter (·.lifecycleRun == runId)

/-- A run has at most one row, and a completed run references the one it has. -/
def OnePublished (w : World) : Prop :=
  (∀ runId, (w.resultsOf runId).length ≤ 1) ∧
    ∀ r ∈ w.runs, r.status = .completed →
      ∃ row, w.resultsOf r.runId = [row] ∧ r.resultId = some row.resultId

/-- A save that writes is the first of its run. -/
def Event.writesFirst (w : World) (event : Event) : Prop :=
  event.writes (fun _ run => ∀ row ∈ w.results, row.lifecycleRun ≠ run.runId) w

/-- An attempt starts on a run without a result, and writes while the run is its own. -/
def Event.fenced (w : World) (event : Event) : Prop :=
  event.reads (fun row => ∀ result ∈ w.results, result.lifecycleRun ≠ row.runId) w ∧
    event.writes (fun worker run => ∃ r ∈ w.runs, r.runId = run.runId ∧
      r.workerId = some worker.workerId) w

section

variable {sha256 : Str → Str} {settings : Settings}

/-- Completions that reference a row of their run. -/
def Permits.completeStored (results : List ResultRow) : Permits :=
  { Permits.all with complete := fun runId resultId =>
      ∃ row ∈ results, row.resultId = resultId ∧ row.lifecycleRun = runId }

/-- A completed run references a row of its own. -/
def Referenced (results : List ResultRow) (r : Row) : Prop :=
  r.status = .completed →
    ∃ row ∈ results, r.resultId = some row.resultId ∧ row.lifecycleRun = r.runId

/-- A step keeps the reference of a completed run. -/
theorem referenced_step {results : List ResultRow} {r r' : Row}
    (hstep : RowStep settings (.completeStored results) r r') (h : Referenced results r) :
    Referenced results r' := by
  intro hcompleted
  cases hstep with
  | claim => cases hcompleted
  | heartbeat => exact h hcompleted
  | complete _ _ _ _ _ _ hpermit =>
      obtain ⟨row, hrow, hid, hrun⟩ := hpermit
      exact ⟨row, hrow, congrArg some hid.symm, hrun⟩
  | fail failure requeue => cases requeue <;> cases hcompleted
  | cancel => cases hcompleted

theorem permitted_completeStored {w : World} (h : Identified w) (event : Event) :
    event.permitted settings (.completeStored w.results) w := by
  cases event with
  | complete index now =>
      intro worker run result hget hphase
      exact h.published worker (List.mem_of_getElem? hget) run result hphase
  | cancel => exact fun _ => trivial
  | claim => exact fun _ _ _ => trivial
  | report => exact fun _ _ _ _ _ _ _ => trivial
  | _ => trivial

/-- What a completed run references was written for it. -/
theorem referenced_run (events : List Event) :
    ∀ r ∈ (World.empty.run sha256 settings events).runs,
      Referenced (World.empty.run sha256 settings events).results r := by
  have hinv := @run_invariant sha256 settings
    (fun w => Keyed w.runs ∧ Identified w ∧ ∀ r ∈ w.runs, Referenced w.results r) ?_ events
    World.empty ⟨keyed_empty, identified_empty, fun _ hr => absurd hr List.not_mem_nil⟩
  · exact hinv.2.2
  · rintro w event ⟨hkeys, hidentified, hrows⟩
    have heffect := @step_effect_any sha256 settings w event
    refine ⟨step_keyed sha256 settings hkeys event, heffect.identified hidentified, ?_⟩
    have hmoved : ∀ r ∈ (w.step sha256 settings event).runs, Referenced w.results r := by
      refine (step_evolved sha256 settings hkeys
        (permitted_completeStored hidentified event)).invariant
        (fun _ _ hr hstep => referenced_step hstep hr) ?_ hrows
      rintro r ⟨submission, now, rfl⟩ hcompleted
      cases hcompleted
    intro r hr hcompleted
    obtain ⟨row, hrow, hmatch⟩ := hmoved r hr hcompleted
    exact ⟨row, heffect.mem_results hrow, hmatch⟩

/-- A first save leaves a run with at most one result. -/
theorem resultsOf_merge_le {w w' : World} {run : Claimed} {result : Envelope}
    (hresults : w'.results = merge (resultRow sha256 run result) w.results)
    (hfirst : ∀ row ∈ w.results, row.lifecycleRun ≠ run.runId) {runId : Str}
    (h : (w.resultsOf runId).length ≤ 1) : (w'.resultsOf runId).length ≤ 1 := by
  unfold World.resultsOf at h ⊢
  rw [hresults]
  unfold merge
  split_ifs
  · exact h
  · rw [List.filter_append, List.length_append]
    by_cases hrun : run.runId = runId
    · have hnone : w.results.filter (·.lifecycleRun == runId) = [] := by
        refine List.filter_eq_nil_iff.mpr fun row hrow heq => ?_
        exact hfirst row hrow ((eq_of_beq heq).trans hrun.symm)
      rw [hnone]
      exact (Nat.zero_add _).le.trans (List.length_filter_le _ _)
    · have hother : [resultRow sha256 run result].filter (·.lifecycleRun == runId) = [] :=
        List.filter_eq_nil_iff.mpr fun row hrow heq => by
          obtain rfl := List.mem_singleton.mp hrow
          exact hrun (eq_of_beq heq)
      rw [hother]
      exact h

/-- Where every write is a first one, runs have at most one row. -/
theorem resultsOf_le_one {events : List Event}
    (h : Always sha256 settings Event.writesFirst events World.empty) (runId : Str) :
    ((World.empty.run sha256 settings events).resultsOf runId).length ≤ 1 := by
  refine h.invariant (I := fun w => (w.resultsOf runId).length ≤ 1) ?_ (Nat.zero_le _)
  intro w event hfirst hw
  have heffect := @step_effect sha256 settings _ _ _ w event (reads_any w event)
    (looks_any w event) hfirst
  rcases heffect.results_cases with hsame | ⟨worker, run, result, hpermit, -, hmerge⟩
  · unfold World.resultsOf at hw ⊢
    rwa [hsame]
  · exact resultsOf_merge_le hmerge hpermit hw

/-- A run with at most one result publishes one. -/
theorem onePublished_of_le_one (events : List Event)
    (h : ∀ runId, ((World.empty.run sha256 settings events).resultsOf runId).length ≤ 1) :
    OnePublished (World.empty.run sha256 settings events) := by
  refine ⟨h, fun r hr hcompleted => ?_⟩
  obtain ⟨row, hrow, hid, hrun⟩ := referenced_run events r hr hcompleted
  have hmem : row ∈ (World.empty.run sha256 settings events).resultsOf r.runId :=
    List.mem_filter.mpr ⟨hrow, beq_iff_eq.mpr hrun⟩
  have hone : ((World.empty.run sha256 settings events).resultsOf r.runId).length = 1 :=
    le_antisymm (h r.runId) (List.length_pos_of_mem hmem)
  obtain ⟨other, hother⟩ := List.length_eq_one_iff.mp hone
  rw [hother] at hmem
  obtain rfl := List.mem_singleton.mp hmem
  exact ⟨row, hother, hid⟩

/-- A second write is a second row. -/
theorem writesFirst_of_onePublished {w : World} (hidentified : Identified w) {event : Event}
    (h : OnePublished (w.step sha256 settings event)) : event.writesFirst w := by
  cases event with
  | save index outcome =>
      intro hwrites worker run result hget hphase row hrow hid
      have hresults := (@save_step sha256 settings w _ _ _ _ hget hphase _ hwrites).2
      rw [hidentified.merge_eq hget hphase] at hresults
      have hone := h.1 run.runId
      unfold World.resultsOf at hone
      rw [hresults, List.filter_append, List.length_append] at hone
      have hfirst : 0 < (w.results.filter (·.lifecycleRun == run.runId)).length :=
        List.length_pos_of_mem (List.mem_filter.mpr ⟨hrow, beq_iff_eq.mpr hid⟩)
      have hwritten : (resultRow sha256 run result).lifecycleRun == run.runId := BEq.rfl
      have hsecond : ([resultRow sha256 run result].filter
          (·.lifecycleRun == run.runId)).length = 1 := by
        rw [List.filter_singleton, hwritten]
        rfl
      omega
  | _ => trivial

/-- The run of an attempt that has not written. -/
def Phase.attempt : Phase → Option Claimed
  | .translating run | .translated run _ | .checked run _ => some run
  | _ => none

/-- Workers have identifiers of their own, and an attempt that has its run has not
been overtaken. -/
structure Fenced (w : World) : Prop where
  keyed : Keyed w.runs
  ids : ∀ (i j : Nat) (worker worker' : Worker), w.workers[i]? = some worker →
    w.workers[j]? = some worker' → worker.workerId = worker'.workerId → i = j
  unpublished : ∀ (i : Nat) (worker : Worker) (run : Claimed), w.workers[i]? = some worker →
    worker.phase.attempt = some run →
    (∃ r ∈ w.runs, r.runId = run.runId ∧ r.workerId = some worker.workerId) →
      ∀ row ∈ w.results, row.lifecycleRun ≠ run.runId

theorem fenced_empty : Fenced World.empty where
  keyed := keyed_empty
  ids _ _ _ _ hget := by cases hget
  unpublished _ _ _ hget := by cases hget

/-- Claims of workers that are idle. -/
def Permits.claimIdle (w : World) : Permits :=
  { Permits.all with claim := fun workerId =>
      ∃ (i : Nat) (worker : Worker), w.workers[i]? = some worker ∧
        worker.workerId = workerId ∧ worker.phase = .idle }

theorem permitted_claimIdle (w : World) (event : Event) :
    event.permitted settings (.claimIdle w) w := by
  cases event with
  | claim index now => exact fun worker hget hidle => ⟨index, worker, hget, rfl, hidle⟩
  | complete => exact fun _ _ _ _ _ => trivial
  | cancel => exact fun _ => trivial
  | report => exact fun _ _ _ _ _ _ _ => trivial
  | _ => trivial

/-- A worker gets a run by a claim only. -/
theorem held_step {permits : Permits} {workerId : Str} (hclaims : ¬ permits.claim workerId)
    {r r' : Row} (hstep : RowStep settings permits r r') (h : r'.workerId = some workerId) :
    r.workerId = some workerId := by
  cases hstep with
  | claim worker now _ hpermit =>
      cases h
      exact absurd hpermit hclaims
  | heartbeat => exact h
  | complete => cases h
  | fail => cases h
  | cancel => cases h

/-- A row some other worker holds was held before the step. -/
theorem held_before {permits : Permits} {workerId : Str} (hclaims : ¬ permits.claim workerId)
    {runs runs' : List Row} (hevolved : Evolved (RowStep settings permits) Inserted runs runs')
    {r' : Row} (hr' : r' ∈ runs') (h : r'.workerId = some workerId) :
    ∃ r ∈ runs, r.runId = r'.runId ∧ r.workerId = some workerId := by
  have hback : ∀ {r₀ r₁ : Row}, ReflTransGen (RowStep settings permits) r₀ r₁ →
      r₁.workerId = some workerId → r₀.workerId = some workerId := by
    intro r₀ r₁ hsteps h₁
    induction hsteps with
    | refl => exact h₁
    | tail _ hlast ih => exact ih (held_step hclaims hlast h₁)
  rcases hevolved.back hr' with ⟨r, hr, hsteps⟩ | ⟨r, ⟨submission, now, rfl⟩, hsteps⟩
  · exact ⟨r, hr, (key_of_steps (fun _ _ hstep => runId_eq hstep) hsteps).symm, hback hsteps h⟩
  · cases hback hsteps h

/-- Who is at an index after an event: a worker that was there, or one that starts. -/
theorem Effect.ids {reads : Row → Prop} {looks : Claimed → Prop}
    {writes : Worker → Claimed → Prop} {w w' : World}
    (h : Effect sha256 reads looks writes w w') {i : Nat} {worker' : Worker}
    (hget : w'.workers[i]? = some worker') :
    (∃ worker, w.workers[i]? = some worker ∧ worker.workerId = worker'.workerId) ∨
      (i = w.workers.length ∧ worker'.phase = .idle ∧
        ∀ worker ∈ w.workers, worker.workerId ≠ worker'.workerId) := by
  have hmove : ∀ (index : Nat) (worker : Worker) (phase : Phase),
      w.workers[index]? = some worker → (w.move index worker phase).workers[i]? = some worker' →
      ∃ worker, w.workers[i]? = some worker ∧ worker.workerId = worker'.workerId := by
    intro index worker phase hindex hmoved
    rcases getElem?_move hmoved with ⟨rfl, rfl⟩ | ⟨-, hold⟩
    · exact ⟨worker, hindex, rfl⟩
    · exact ⟨worker', hold, rfl⟩
  cases h with
  | queue => exact .inl ⟨worker', hget, rfl⟩
  | start workerId hnew =>
      rcases Nat.lt_trichotomy i w.workers.length with hlt | rfl | hgt
      · rw [List.getElem?_append_left hlt] at hget
        exact .inl ⟨worker', hget, rfl⟩
      · rw [List.getElem?_concat_length] at hget
        obtain rfl := Option.some.inj hget
        exact .inr ⟨rfl, rfl, hnew⟩
      · rw [List.getElem?_eq_none (by rw [List.length_append]; exact hgt)] at hget
        cases hget
  | rest index worker phase _ hindex => exact .inl (hmove index worker phase hindex hget)
  | read index worker _ hindex => exact .inl (hmove index worker _ hindex hget)
  | invoke index worker _ _ hindex => exact .inl (hmove index worker _ hindex hget)
  | check index worker _ _ hindex => exact .inl (hmove index worker _ hindex hget)
  | save index worker _ _ phase hindex => exact .inl (hmove index worker phase hindex hget)

theorem Fenced.ids_step {reads : Row → Prop} {looks : Claimed → Prop}
    {writes : Worker → Claimed → Prop} {w w' : World}
    (h : Fenced w) (heffect : Effect sha256 reads looks writes w w') (i j : Nat)
    (worker worker' : Worker)
    (hi : w'.workers[i]? = some worker) (hj : w'.workers[j]? = some worker')
    (heq : worker.workerId = worker'.workerId) : i = j := by
  rcases heffect.ids hi with ⟨oldi, hgeti, hidi⟩ | ⟨rfl, -, hnewi⟩
  · rcases heffect.ids hj with ⟨oldj, hgetj, hidj⟩ | ⟨rfl, -, hnewj⟩
    · exact h.ids i j oldi oldj hgeti hgetj (by rw [hidi, hidj, heq])
    · exact absurd (hidi.trans heq) (hnewj oldi (List.mem_of_getElem? hgeti))
  · rcases heffect.ids hj with ⟨oldj, hgetj, hidj⟩ | ⟨rfl, -, -⟩
    · exact absurd (hidj.trans heq.symm) (hnewi oldj (List.mem_of_getElem? hgetj))
    · rfl

/-- Where an attempt after an event comes from. -/
theorem Effect.attempt {reads : Row → Prop} {looks : Claimed → Prop}
    {writes : Worker → Claimed → Prop} {w w' : World}
    (h : Effect sha256 reads looks writes w w') {i : Nat} {worker' : Worker} {run : Claimed}
    (hget : w'.workers[i]? = some worker') (hattempt : worker'.phase.attempt = some run) :
    (∃ worker, w.workers[i]? = some worker ∧ worker.workerId = worker'.workerId ∧
        worker.phase.attempt = some run) ∨
      ∃ row, reads row ∧ run = .ofRow row ∧ w'.results = w.results := by
  cases h with
  | queue => exact .inl ⟨worker', hget, rfl, hattempt⟩
  | start workerId =>
      rcases Nat.lt_or_ge i w.workers.length with hlt | hge
      · rw [List.getElem?_append_left hlt] at hget
        exact .inl ⟨worker', hget, rfl, hattempt⟩
      · rw [List.getElem?_append_right hge] at hget
        obtain rfl := List.mem_singleton.mp (List.mem_of_getElem? hget)
        cases hattempt
  | rest index worker phase _ hindex hquiet =>
      rcases getElem?_move hget with ⟨rfl, rfl⟩ | ⟨-, hold⟩
      · have hnone : phase.attempt = none := by
          cases phase <;> first | rfl | cases hquiet
        rw [hnone] at hattempt
        cases hattempt
      · exact .inl ⟨worker', hold, rfl, hattempt⟩
  | read index worker row _ _ _ hpermit =>
      rcases getElem?_move hget with ⟨rfl, rfl⟩ | ⟨-, hold⟩
      · exact .inr ⟨row, hpermit, (Option.some.inj hattempt).symm, rfl⟩
      · exact .inl ⟨worker', hold, rfl, hattempt⟩
  | invoke index worker run' _ hindex hphase =>
      rcases getElem?_move hget with ⟨rfl, rfl⟩ | ⟨-, hold⟩
      · exact .inl ⟨worker, hindex, rfl, by rw [hphase]; exact hattempt⟩
      · exact .inl ⟨worker', hold, rfl, hattempt⟩
  | check index worker run' _ hindex hphase =>
      rcases getElem?_move hget with ⟨rfl, rfl⟩ | ⟨-, hold⟩
      · exact .inl ⟨worker, hindex, rfl, by rw [hphase]; exact hattempt⟩
      · exact .inl ⟨worker', hold, rfl, hattempt⟩
  | save index worker run' _ phase hindex hphase hnext =>
      rcases getElem?_move hget with ⟨rfl, rfl⟩ | ⟨-, hold⟩
      · rcases hnext with rfl | rfl <;> cases hattempt
      · exact .inl ⟨worker', hold, rfl, hattempt⟩

/-- A worker that wrote is at no attempt any more. -/
theorem Effect.writer {reads : Row → Prop} {looks : Claimed → Prop}
    {writes : Worker → Claimed → Prop} {w w' : World}
    (h : Effect sha256 reads looks writes w w') :
    w'.results = w.results ∨ ∃ (index : Nat) (worker : Worker) (run : Claimed)
      (result : Envelope) (phase : Phase), w.workers[index]? = some worker ∧ writes worker run ∧
        w'.runs = w.runs ∧ w'.workers = (w.move index worker phase).workers ∧
        phase.attempt = none ∧ w'.results = merge (resultRow sha256 run result) w.results := by
  cases h with
  | save index worker run result phase hget _ hnext hpermit =>
      refine .inr ⟨index, worker, run, result, phase, hget, hpermit, rfl, rfl, ?_, rfl⟩
      rcases hnext with rfl | rfl <;> rfl
  | _ => exact .inl rfl

/-- **One step.**  Fenced attempts stay apart. -/
theorem Fenced.step {w : World} (h : Fenced w) {event : Event} (hfenced : event.fenced w) :
    Fenced (w.step sha256 settings event) := by
  have heffect := @step_effect sha256 settings _ _ _ w event hfenced.1 (looks_any w event)
    hfenced.2
  have hevolved := step_evolved sha256 settings h.keyed (permitted_claimIdle w event)
  refine ⟨step_keyed sha256 settings h.keyed event, h.ids_step heffect, ?_⟩
  rintro i worker' run hget hattempt ⟨r', hr', hid', hheld'⟩
  rcases heffect.attempt hget hattempt with
    ⟨worker, hold, hsame, hbefore⟩ | ⟨row, hpermit, rfl, hresults⟩
  · -- The attempt was there: it had its run before, and nobody else wrote for it.
    have hnotidle : ¬ (Permits.claimIdle w).claim worker'.workerId := by
      rintro ⟨j, idle, hgetj, hidj, hidle⟩
      obtain rfl := h.ids i j worker idle hold hgetj (hsame.trans hidj.symm)
      obtain rfl := Option.some.inj (hold.symm.trans hgetj)
      rw [hidle] at hbefore
      cases hbefore
    obtain ⟨r, hr, hid, hheld⟩ := held_before hnotidle hevolved hr' hheld'
    have hnone := h.unpublished i worker run hold hbefore
      ⟨r, hr, hid.trans hid', by rw [hheld, hsame]⟩
    rcases heffect.writer with hresults |
      ⟨index, writer, other, result, phase, hwriter, hpermit, hruns, hworkers, hafter, hresults⟩
    · rwa [hresults]
    · rw [hresults]
      intro row hrow
      rcases mem_merge hrow with hrow | rfl
      · exact hnone row hrow
      · intro heq
        have hother : other.runId = run.runId := heq
        obtain ⟨r₁, hr₁, hid₁, hheld₁⟩ := hpermit
        have hkey : r.runId = r₁.runId := by rw [hid, hid', hid₁, hother]
        obtain rfl := eq_of_key h.keyed hr hr₁ hkey
        have hwho : writer.workerId = worker.workerId := by
          rw [hheld] at hheld₁
          exact (Option.some.inj hheld₁).symm.trans hsame.symm
        obtain rfl := h.ids index i writer worker hwriter hold hwho
        rw [hworkers] at hget
        rcases getElem?_move hget with ⟨-, rfl⟩ | ⟨hne, -⟩
        · rw [hafter] at hattempt
          cases hattempt
        · exact hne rfl
  · rw [hresults]
    exact hpermit

/-- A fenced write is the first of its run. -/
theorem Fenced.writesFirst {w : World} (h : Fenced w) {event : Event} (hfenced : event.fenced w) :
    event.writesFirst w := by
  cases event with
  | save index outcome =>
      intro hwrites worker run result hget hphase
      exact h.unpublished index worker run hget (by rw [hphase]; rfl)
        (hfenced.2 hwrites worker run result hget hphase)
  | _ => trivial

/-- Under fencing every save is the first of its run. -/
theorem writesFirst_of_fenced {events : List Event}
    (h : Always sha256 settings Event.fenced events World.empty) :
    Always sha256 settings Event.writesFirst events World.empty := by
  refine always_iff.mpr fun before event rest heq => ?_
  rw [heq] at h
  obtain ⟨hbefore, hrest⟩ := always_append.mp h
  have hfenced : Fenced (World.empty.run sha256 settings before) :=
    hbefore.invariant (fun _ _ hcondition hw => hw.step hcondition) fenced_empty
  exact hfenced.writesFirst hrest.1

/-- **One published result.**  At every time of a run a lifecycle run has at most one
row, which it references if it is completed, exactly when no attempt writes after
another of the same run did; so it is when no attempt starts on a run that has a
result, and none writes after it lost its run. -/
theorem one_published_row (events : List Event) :
    ((∀ before rest, events = before ++ rest →
        OnePublished (World.empty.run sha256 settings before)) ↔
      Always sha256 settings Event.writesFirst events World.empty) ∧
    (Always sha256 settings Event.fenced events World.empty →
      ∀ before rest, events = before ++ rest →
        OnePublished (World.empty.run sha256 settings before)) := by
  have hfirst : Always sha256 settings Event.writesFirst events World.empty →
      ∀ before rest, events = before ++ rest →
        OnePublished (World.empty.run sha256 settings before) := by
    rintro h before rest rfl
    exact onePublished_of_le_one before fun runId =>
      resultsOf_le_one (always_append.mp h).1 runId
  refine ⟨⟨fun h => ?_, hfirst⟩, fun h => hfirst (writesFirst_of_fenced h)⟩
  refine always_iff.mpr fun before event rest heq => ?_
  have hafter := h (before ++ [event]) rest (by rw [heq, List.append_assoc]; rfl)
  rw [run_append] at hafter
  exact writesFirst_of_onePublished (identified_run before) hafter

end

/-- A worker writes the result and dies before it completes the run; the next attempt
writes a second one. -/
theorem one_published_row_crash :
    ¬ OnePublished (World.empty.run id .defaults
      (plainAttempt ++ [.save 0 .answered, .crash 0, .start ['x'], .claim 1 31000000, .read 1,
        .invoke 1 (plainInvocation '1'), .check 1 true, .save 1 .answered,
        .complete 1 31000001])) := by
  intro h
  have htwo : ((World.empty.run id .defaults
      (plainAttempt ++ [.save 0 .answered, .crash 0, .start ['x'], .claim 1 31000000, .read 1,
        .invoke 1 (plainInvocation '1'), .check 1 true, .save 1 .answered,
        .complete 1 31000001])).resultsOf ['r']).length = 2 := rfl
  exact absurd (h.1 ['r']) (by rw [htwo]; decide)

end GoLifecycle
