import ControlTranslation.LifecycleInvariant

/-!
# The publication cutoff

The result of a run is written to another store, outside any transaction.  A
worker may start that write once `begin_lifecycle_publication` has answered it,
at any later time and whatever happened to the run in between; it may also never
do so.  Past the cutoff a run is `Committed`: publication-pending, completed or
failed.  No operation leaves that set, and a canceled run is outside it, so a
canceled run is never written and a run past the cutoff is never canceled.
-/

namespace Lifecycle

open PyText Table Relation

/-- A run past the cutoff. -/
def Row.Committed (r : Row) : Prop :=
  r.status = .running ∧ r.publicationState = .publicationPending ∨
    r.status = .completed ∨ r.status = .failed

theorem Row.Committed.not_canceled {r : Row} (h : r.Committed) : r.status ≠ .canceled := by
  rcases h with ⟨h, -⟩ | h | h <;> simp [h]

/-- A pending run is past the cutoff. -/
theorem committed_of_pending {r : Row} (hinv : RowInv r)
    (h : r.publicationState = .publicationPending) : r.Committed :=
  .inl ⟨hinv.pending h, h⟩

/-- No step leads back over the cutoff. -/
theorem committed_step {permits : Permits} {r r' : Row} (hstep : RowStep permits r r')
    (h : r.Committed) : r'.Committed := by
  rcases h with ⟨hrunning, hpending⟩ | hfinished
  · have hstate : r.isPending = true := isPending_iff.mpr hpending
    cases hstep with
    | attach callback now h => exact .inl ⟨hrunning, hpending⟩
    | exhaustPublication now maxAttempts h => exact .inr (.inr rfl)
    | cancelExpired now h => simp [cancelExpired, hpending] at h
    | exhaustAttempts now maxAttempts h => exact .inr (.inr rfl)
    | claim workerId lease now maxAttempts hlimit h => exact .inl ⟨rfl, hpending⟩
    | heartbeat workerId attemptNumber lease now h => exact .inl ⟨hrunning, hpending⟩
    | prepare workerId attemptNumber output now hpermit h => simp [prepare, hpending] at h
    | beginPublication workerId attemptNumber now h => exact .inl ⟨hrunning, rfl⟩
    | cancelCompleting workerId attemptNumber now h => simp [cancelCompleting, hstate] at h
    | complete workerId attemptNumber output now hpermit h => exact .inr (.inl rfl)
    | fail workerId attemptNumber failure result now h =>
        refine .inr (.inr ?_)
        exact if_pos hstate
    | cancelQueued now h => exact absurd (hrunning.symm.trans h) (by decide)
    | cancelRunning now h hnot => simp [hpending] at hnot
    | cancelPending now h => exact .inl ⟨hrunning, hpending⟩
  · have hterminal : r.status.isTerminal = true := by
      rcases hfinished with h | h <;> rw [h] <;> rfl
    obtain ⟨callback, now, -, rfl⟩ := attach_of_terminal hstep hterminal
    exact .inr hfinished

/-- A committed run stays committed. -/
theorem committed_steps {permits : Permits} {r r' : Row}
    (hsteps : ReflTransGen (RowStep permits) r r') (h : r.Committed) : r'.Committed := by
  induction hsteps with
  | refl => exact h
  | tail _ hlast ih => exact committed_step hlast ih

/-- A cutoff that was granted is in the store. -/
theorem pending_of_begin {runId workerId : Str} {attemptNumber : Nat} {now : Int} {store : Store}
    (h : (beginLifecyclePublication runId workerId attemptNumber now store).1 = true) :
    ∃ r ∈ (beginLifecyclePublication runId workerId attemptNumber now store).2.runs,
      r.runId = runId ∧ r.publicationState = .publicationPending := by
  unfold beginLifecyclePublication at h ⊢
  dsimp only at h ⊢
  by_cases hnone : (beginUpdate runId workerId attemptNumber now).affected store.runs = 0
  · rw [if_pos hnone] at h ⊢
    cases hfind : store.runs.find? fun r => r.ownedBy runId workerId attemptNumber && r.leased now
      with
    | none =>
        rw [hfind] at h
        cases h
    | some r =>
        rw [hfind] at h
        have hown := List.find?_some hfind
        simp only [Bool.and_eq_true] at hown
        exact ⟨r, List.mem_of_find?_eq_some hfind, ownedBy_runId hown.1, isPending_iff.mp h⟩
  · rw [if_neg hnone]
    obtain ⟨r, hr, happlies⟩ := Update.exists_of_affected hnone
    have hid : r.runId = runId := ownedBy_runId (beginUpdate_owned happlies)
    exact ⟨(beginUpdate runId workerId attemptNumber now).assign r,
      List.mem_map.mpr ⟨r, hr, by simp only [Update.on, happlies, if_true]⟩, hid, rfl⟩

/-- What happens: a call of the store, or a worker that was granted the cutoff
starts its write. -/
inductive Event
  | call (operation : Operation)
  | save (runId workerId : Str) (attemptNumber : Nat)

/-- The store, the cutoffs that were granted, and the runs whose write was
started. -/
structure World where
  store : Store
  granted : List (Str × Str × Nat)
  started : List Str

/-- No runs, nothing published, no workers. -/
def World.empty : World := ⟨Store.empty, [], []⟩

/-- The cutoff a call is granted. -/
def grant : Operation → Store → Option (Str × Str × Nat)
  | .beginPublication runId workerId attemptNumber now, store =>
      if (beginLifecyclePublication runId workerId attemptNumber now store).1 then
        some (runId, workerId, attemptNumber)
      else none
  | _, _ => none

/-- One event.  Only a worker that was granted the cutoff writes. -/
def World.step (w : World) : Event → World
  | .call operation =>
      { w with
        store := after operation w.store
        granted := w.granted ++ (grant operation w.store).toList }
  | .save runId workerId attemptNumber =>
      if w.granted.contains (runId, workerId, attemptNumber) then
        { w with started := w.started ++ [runId] }
      else w

/-- The world after some events, in order. -/
def World.run (events : List Event) (w : World) : World := events.foldl World.step w

theorem World.run_append (events later : List Event) (w : World) :
    World.run (events ++ later) w = World.run later (World.run events w) :=
  List.foldl_append

/-- Every cutoff granted, and every write started, is of a committed run. -/
structure World.Inv (w : World) : Prop where
  keyed : Keyed w.store.runs
  rows : ∀ r ∈ w.store.runs, RowInv r
  granted : ∀ token ∈ w.granted, ∃ r ∈ w.store.runs, r.runId = token.1 ∧ r.Committed
  started : ∀ runId ∈ w.started, ∃ r ∈ w.store.runs, r.runId = runId ∧ r.Committed

theorem World.inv_empty : World.empty.Inv where
  keyed := keyed_empty
  rows := fun _ hr => absurd hr List.not_mem_nil
  granted := fun _ h => absurd h List.not_mem_nil
  started := fun _ h => absurd h List.not_mem_nil

/-- What an operation does to the rows of a world. -/
theorem World.Inv.evolved {w : World} (h : w.Inv) (operation : Operation) :
    Evolved (RowStep .all) Inserted w.store.runs (after operation w.store).runs :=
  after_evolved (within_all operation) h.keyed

/-- A committed run stays one. -/
theorem committed_after {w : World} (h : w.Inv) (operation : Operation) {runId : Str}
    (hcommitted : ∃ r ∈ w.store.runs, r.runId = runId ∧ r.Committed) :
    ∃ r ∈ (after operation w.store).runs, r.runId = runId ∧ r.Committed := by
  obtain ⟨r, hr, rfl, hr'⟩ := hcommitted
  obtain ⟨r', hr'mem, hsteps⟩ := (h.evolved operation).forth hr
  exact ⟨r', hr'mem, key_of_steps (fun _ _ hstep => hstep.runId_eq) hsteps,
    committed_steps hsteps hr'⟩

/-- A cutoff is granted to a committed run. -/
theorem committed_of_grant {w : World} (h : w.Inv) {operation : Operation} {token : Str × Str × Nat}
    (hgrant : token ∈ (grant operation w.store).toList) :
    ∃ r ∈ (after operation w.store).runs, r.runId = token.1 ∧ r.Committed := by
  have hrows := after_rowInv operation h.keyed h.rows
  cases operation with
  | beginPublication runId workerId attemptNumber now =>
      dsimp only [grant] at hgrant
      split_ifs at hgrant with hbegin
      · obtain rfl := List.mem_singleton.mp hgrant
        obtain ⟨r, hr, hid, hpending⟩ := pending_of_begin hbegin
        exact ⟨r, hr, hid, committed_of_pending (hrows r hr) hpending⟩
      · cases hgrant
  | _ => cases hgrant

/-- A step keeps the invariant. -/
theorem World.inv_step {w : World} (h : w.Inv) (event : Event) : (w.step event).Inv := by
  cases event with
  | call operation =>
      refine ⟨after_keyed operation h.keyed, after_rowInv operation h.keyed h.rows,
        fun token htoken => ?_,
        fun runId hrunId => committed_after h operation (h.started runId hrunId)⟩
      rcases List.mem_append.mp htoken with htoken | htoken
      · exact committed_after h operation (h.granted token htoken)
      · exact committed_of_grant h htoken
  | save runId workerId attemptNumber =>
      unfold World.step
      dsimp only
      split_ifs with hgranted
      · refine ⟨h.keyed, h.rows, h.granted, fun other hother => ?_⟩
        rcases List.mem_append.mp hother with hother | hother
        · exact h.started other hother
        · obtain rfl := List.mem_singleton.mp hother
          exact h.granted _ (List.contains_iff_mem.mp hgranted)
      · exact h

/-- Every run keeps it. -/
theorem World.inv_run (events : List Event) {w : World} (h : w.Inv) : (World.run events w).Inv := by
  induction events generalizing w with
  | nil => exact h
  | cons event rest ih => exact ih (World.inv_step h event)

/-- The rows of a world only take steps. -/
theorem World.evolved_run (events : List Event) {w : World} (h : w.Inv) :
    Evolved (RowStep .all) Inserted w.store.runs (World.run events w).store.runs := by
  induction events generalizing w with
  | nil => exact Evolved.refl _ _ _
  | cons event rest ih =>
      refine Evolved.trans ?_ (ih (World.inv_step h event))
      cases event with
      | call operation => exact h.evolved operation
      | save runId workerId attemptNumber =>
          unfold World.step
          dsimp only
          split_ifs
          · exact Evolved.refl _ _ _
          · exact Evolved.refl _ _ _

/-- **Cancellation and publication exclude each other.**  A canceled run has no
write started and never will have; a run that is past the cutoff is never
canceled. -/
theorem cancel_publish_exclusion (events later : List Event) {r : Row}
    (hr : r ∈ (World.run events World.empty).store.runs) :
    (r.status = .canceled → r.runId ∉ (World.run (events ++ later) World.empty).started) ∧
    (r.publicationState = .publicationPending →
      ∀ r' ∈ (World.run (events ++ later) World.empty).store.runs, r'.runId = r.runId →
        r'.status ≠ .canceled) := by
  have hinv := World.inv_run events World.inv_empty
  have hinv' := World.inv_run later hinv
  have hevolved := World.evolved_run later hinv
  rw [World.run_append]
  constructor
  · intro hcanceled hstarted
    -- A write is of a committed run, and the canceled row has not changed its status.
    obtain ⟨r', hr', hid, hcommitted⟩ := hinv'.started r.runId hstarted
    have hsteps := hevolved.of_key (fun _ _ hstep => hstep.runId_eq) hinv'.keyed.runId hr hr' hid
    have hsame := steps_of_terminal hsteps (by rw [hcanceled]; rfl)
    exact hcommitted.not_canceled (by rw [hsame]; exact hcanceled)
  · intro hpending r' hr' hid
    have hsteps := hevolved.of_key (fun _ _ hstep => hstep.runId_eq) hinv'.keyed.runId hr hr' hid
    exact (committed_steps hsteps (committed_of_pending (hinv.rows r hr) hpending)).not_canceled

/-- A cancellation after the cutoff does not cancel. -/
theorem cancel_publish_exclusion_late_cancel :
    ∃ r ∈ (World.run [.call (.create plainCreation 0), .call (.claim ['w'] 60 3 1),
        .call (.prepare ['r'] ['w'] 1 ⟨[], [], [], [], 1, [], []⟩ 2),
        .call (.beginPublication ['r'] ['w'] 1 3)] World.empty).store.runs,
      r.publicationState = .publicationPending ∧
      ∀ r' ∈ (World.run ([.call (.create plainCreation 0), .call (.claim ['w'] 60 3 1),
          .call (.prepare ['r'] ['w'] 1 ⟨[], [], [], [], 1, [], []⟩ 2),
          .call (.beginPublication ['r'] ['w'] 1 3)] ++
          [.call (.cancel ['r'] 4), .save ['r'] ['w'] 1]) World.empty).store.runs,
        r'.runId = r.runId → r'.status ≠ .canceled := by
  obtain ⟨r, hr, hpending⟩ : ∃ r ∈ (World.run [.call (.create plainCreation 0),
      .call (.claim ['w'] 60 3 1), .call (.prepare ['r'] ['w'] 1 ⟨[], [], [], [], 1, [], []⟩ 2),
      .call (.beginPublication ['r'] ['w'] 1 3)] World.empty).store.runs,
      r.publicationState = .publicationPending := ⟨_, List.mem_cons_self, rfl⟩
  exact ⟨r, hr, hpending, (cancel_publish_exclusion _ _ hr).2 hpending⟩

end Lifecycle
