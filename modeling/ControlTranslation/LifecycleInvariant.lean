import ControlTranslation.LifecycleSteps

/-!
# The invariant of a lifecycle row

`RowInv` ties the lease, worker, cancellation and publication columns to the
status.  Inserted rows satisfy it and every step keeps it, so it holds of every
row of every reachable store.  From it follow that a finished run never changes
but for its callback, that a claim leaves no run it could have taken, and that a
stale attempt changes nothing.
-/

namespace Lifecycle

open PyText Table Relation

/-- What the columns of a row say about one another. -/
structure RowInv (r : Row) : Prop where
  worker : r.status = .running ↔ r.workerId.isSome = true
  lease : r.status = .running ↔ r.leaseExpiresAt.isSome = true
  canceling : r.status = .running → r.cancelRequested = true →
    r.publicationState = .publicationPending
  queued : r.status = .queued →
    r.attemptNumber = 0 ∧ r.cancelRequested = false ∧ r.publicationState = .none
  published : r.publicationState = .published → r.status = .completed
  pending : r.publicationState = .publicationPending → r.status = .running
  staged : r.publicationState = .none ↔ r.prepared = none
  unfinished : r.status.isTerminal = false → r.resultJson = none

theorem isPending_iff {r : Row} :
    r.isPending = true ↔ r.publicationState = .publicationPending := beq_iff_eq

theorem not_isPending_iff {r : Row} :
    (!r.isPending) = true ↔ r.publicationState ≠ .publicationPending := by
  simp [Row.isPending]

/-- A failure ends the run. -/
theorem isTerminal_failUpdate {runId workerId : Str} {attemptNumber : Nat} {failure : RunFailure}
    {result : Option Str} {now : Int} (r : Row) :
    ((failUpdate runId workerId attemptNumber failure result now).assign r).status.isTerminal =
      true := by
  unfold failUpdate
  dsimp only
  split_ifs <;> rfl

/-- A running row is owned by its worker, for the attempt it was claimed in. -/
theorem ownedBy_iff {r : Row} {runId workerId : Str} {attemptNumber : Nat} :
    r.ownedBy runId workerId attemptNumber = true ↔
      r.runId = runId ∧ r.status = .running ∧ r.workerId = some workerId ∧
        r.attemptNumber = attemptNumber := by
  simp only [Row.ownedBy, Bool.and_eq_true, beq_iff_eq, and_assoc]

theorem rowInv_of_inserted {r : Row} (h : Inserted r) : RowInv r := by
  obtain ⟨_, _, _, _, _, _, _, _, rfl⟩ := h
  constructor <;> simp [queuedRow]

/-- A finished row has no worker, and its publication is settled. -/
theorem RowInv.of_terminal {r : Row} (hterminal : r.status.isTerminal = true)
    (hworker : r.workerId = none) (hlease : r.leaseExpiresAt = none)
    (hpending : r.publicationState ≠ .publicationPending)
    (hpublished : r.publicationState = .published → r.status = .completed)
    (hstaged : r.publicationState = .none ↔ r.prepared = none) : RowInv r := by
  have hrunning : r.status ≠ .running := by
    intro h
    rw [h] at hterminal
    cases hterminal
  have hqueued : r.status ≠ .queued := by
    intro h
    rw [h] at hterminal
    cases hterminal
  exact {
    worker := by simp [hrunning, hworker]
    lease := by simp [hrunning, hlease]
    canceling := fun h => absurd h hrunning
    queued := fun h => absurd h hqueued
    published := hpublished
    pending := fun h => absurd h hpending
    staged := hstaged
    unfinished := fun h => absurd hterminal (by simp [h]) }

/-- A running row has a worker and a lease, and no result. -/
theorem RowInv.of_running {r : Row} (hrunning : r.status = .running)
    (hworker : r.workerId.isSome = true) (hlease : r.leaseExpiresAt.isSome = true)
    (hcanceling : r.cancelRequested = true → r.publicationState = .publicationPending)
    (hpublished : r.publicationState ≠ .published)
    (hstaged : r.publicationState = .none ↔ r.prepared = none)
    (hresult : r.resultJson = none) : RowInv r where
  worker := by simp [hrunning, hworker]
  lease := by simp [hrunning, hlease]
  canceling := fun _ => hcanceling
  queued := fun h => absurd (hrunning.symm.trans h) (by decide)
  published := fun h => absurd h hpublished
  pending := fun _ => hrunning
  staged := hstaged
  unfinished := fun _ => hresult

section

variable {r : Row} (hinv : RowInv r)

include hinv

theorem RowInv.not_published (h : r.status = .running) : r.publicationState ≠ .published :=
  fun hstate => absurd (h.symm.trans (hinv.published hstate)) (by decide)

theorem RowInv.no_result (h : r.status = .running) : r.resultJson = none :=
  hinv.unfinished (by rw [h]; rfl)

/-- Only a running row has a worker and a lease. -/
theorem RowInv.idle (h : r.status ≠ .running) : r.workerId = none ∧ r.leaseExpiresAt = none := by
  constructor
  · rw [← Option.not_isSome_iff_eq_none]
    exact fun hsome => h (hinv.worker.mpr hsome)
  · rw [← Option.not_isSome_iff_eq_none]
    exact fun hsome => h (hinv.lease.mpr hsome)

/-- A row that can be claimed is queued or running, and its cancellation waits. -/
theorem RowInv.of_claimable {now : Int} {maxAttempts : Nat}
    (h : r.claimable now maxAttempts = true) :
    (r.cancelRequested = true → r.publicationState = .publicationPending) ∧
      r.publicationState ≠ .published ∧ r.resultJson = none := by
  simp only [Row.claimable, Bool.or_eq_true, Bool.and_eq_true, beq_iff_eq, isPending_iff,
    Bool.not_eq_true'] at h
  rcases h with ⟨⟨⟨hpending, hrunning⟩, -⟩, -⟩ | ⟨⟨hcancel, -⟩, hqueued | ⟨hrunning, -⟩⟩
  · exact ⟨fun _ => hpending, hinv.not_published hrunning, hinv.no_result hrunning⟩
  · refine ⟨fun hrequested => absurd (hrequested.symm.trans hcancel) (by decide), ?_, ?_⟩
    · rw [(hinv.queued hqueued).2.2]
      decide
    · exact hinv.unfinished (by rw [hqueued]; rfl)
  · exact ⟨hinv.canceling hrunning, hinv.not_published hrunning, hinv.no_result hrunning⟩

theorem RowInv.staged_of_ne (h : r.publicationState ≠ .none) {state : PublicationState}
    (hstate : state ≠ .none) : state = .none ↔ r.prepared = none :=
  ⟨fun heq => absurd heq hstate, fun heq => absurd (hinv.staged.mpr heq) h⟩

end

/-- Every step keeps the invariant. -/
theorem rowInv_step {permits : Permits} {r r' : Row} (h : RowStep permits r r')
    (hinv : RowInv r) : RowInv r' := by
  cases h with
  | attach callback now h =>
      exact ⟨hinv.worker, hinv.lease, hinv.canceling, hinv.queued, hinv.published, hinv.pending,
        hinv.staged, hinv.unfinished⟩
  | exhaustPublication now maxAttempts h =>
      simp only [exhaustPublication, Bool.and_eq_true, isPending_iff] at h
      have hstate : r.publicationState ≠ .none := by simp [h.1.1.2]
      exact .of_terminal rfl rfl rfl (by simp [exhaustPublication])
        (by simp [exhaustPublication]) (hinv.staged_of_ne hstate (by simp [exhaustPublication]))
  | cancelExpired now h =>
      simp only [cancelExpired, Bool.and_eq_true, Bool.or_eq_true, beq_iff_eq] at h
      obtain ⟨⟨⟨hrunning, -⟩, hstate⟩, -⟩ := h
      refine .of_terminal rfl rfl rfl (fun hpending => ?_) (fun hpublished => ?_) hinv.staged
      · rcases hstate with hstate | hstate <;> cases hstate.symm.trans hpending
      · exact absurd hpublished (hinv.not_published hrunning)
  | exhaustAttempts now maxAttempts h =>
      simp only [exhaustAttempts, Bool.and_eq_true, beq_iff_eq, not_isPending_iff] at h
      obtain ⟨⟨⟨⟨hrunning, -⟩, hpending⟩, -⟩, -⟩ := h
      exact .of_terminal rfl rfl rfl hpending
        (fun hpublished => absurd hpublished (hinv.not_published hrunning)) hinv.staged
  | claim workerId lease now maxAttempts hlimit h =>
      obtain ⟨hcanceling, hpublished, hresult⟩ := hinv.of_claimable h
      exact .of_running rfl rfl rfl hcanceling hpublished hinv.staged hresult
  | heartbeat workerId attemptNumber lease now h =>
      obtain ⟨-, hrunning, hworker, -⟩ := ownedBy_iff.mp h
      exact .of_running hrunning (by rw [heartbeat, hworker]; rfl) rfl
        (hinv.canceling hrunning) (hinv.not_published hrunning) hinv.staged
        (hinv.no_result hrunning)
  | prepare workerId attemptNumber output now hpermit h =>
      simp only [prepare, Bool.and_eq_true, Bool.not_eq_true', ownedBy_iff] at h
      obtain ⟨⟨⟨⟨-, hrunning, -, -⟩, hcancel⟩, -⟩, -⟩ := h
      refine .of_running hrunning (hinv.worker.mp hrunning) (hinv.lease.mp hrunning) ?_ ?_ ?_
        (hinv.no_result hrunning)
      · exact fun hrequested => absurd (hrequested.symm.trans hcancel) (by decide)
      · simp [prepare]
      · simp [prepare]
  | beginPublication workerId attemptNumber now h =>
      simp only [beginUpdate, Bool.and_eq_true, Bool.not_eq_true', ownedBy_iff, beq_iff_eq] at h
      obtain ⟨⟨⟨⟨-, hrunning, -, -⟩, -⟩, hstate⟩, -⟩ := h
      refine .of_running hrunning (hinv.worker.mp hrunning) (hinv.lease.mp hrunning)
        (fun _ => rfl) (by simp [beginUpdate]) ?_ (hinv.no_result hrunning)
      exact hinv.staged_of_ne (by simp [hstate]) (by simp [beginUpdate])
  | cancelCompleting workerId attemptNumber now h =>
      simp only [cancelCompleting, Bool.and_eq_true, ownedBy_iff, not_isPending_iff] at h
      obtain ⟨⟨⟨-, hrunning, -, -⟩, -⟩, hpending⟩ := h
      exact .of_terminal rfl rfl rfl hpending
        (fun hpublished => absurd hpublished (hinv.not_published hrunning)) hinv.staged
  | complete workerId attemptNumber output now hpermit h =>
      refine .of_terminal rfl rfl rfl ?_ (fun _ => rfl) ?_
      · by_cases hstate : r.publicationState = .publicationPending <;>
          simp [complete, Row.isPending, hstate]
      · by_cases hstate : r.publicationState = .publicationPending
        · exact hinv.staged_of_ne (by simp [hstate]) (by simp [complete, Row.isPending, hstate])
        · simpa [complete, Row.isPending, hstate] using hinv.staged
  | fail workerId attemptNumber failure result now h =>
      have hrunning := (ownedBy_iff.mp (failUpdate_owned h)).2.1
      have hnot := hinv.not_published hrunning
      have hstate : ((failUpdate r.runId workerId attemptNumber failure result now).assign
        r).publicationState = if r.isPending then .prepared else r.publicationState := rfl
      by_cases hpending : r.publicationState = .publicationPending
      · rw [if_pos (isPending_iff.mpr hpending)] at hstate
        refine .of_terminal (isTerminal_failUpdate r) rfl rfl ?_ ?_ ?_
        · simp only [hstate, ne_eq, reduceCtorEq, not_false_eq_true]
        · simp only [hstate, reduceCtorEq, false_implies]
        · rw [hstate]
          exact hinv.staged_of_ne (by simp [hpending]) (by decide)
      · rw [if_neg (mt isPending_iff.mp hpending)] at hstate
        refine .of_terminal (isTerminal_failUpdate r) rfl rfl ?_ ?_ ?_
        · rwa [hstate]
        · rw [hstate]
          exact fun hpublished => absurd hpublished hnot
        · rw [hstate]
          exact hinv.staged
  | cancelQueued now h =>
      obtain ⟨hworker, hlease⟩ := hinv.idle (by simp [h])
      have hstate := (hinv.queued h).2.2
      exact .of_terminal rfl hworker hlease (by simp [cancelQueued, hstate])
        (by simp [cancelQueued, hstate]) hinv.staged
  | cancelRunning now h hstate =>
      refine .of_terminal rfl rfl rfl (fun hpending => ?_) (fun hpublished => ?_) hinv.staged
      · rcases hstate with hstate | hstate <;> cases hstate.symm.trans hpending
      · exact absurd hpublished (hinv.not_published h)
  | cancelPending now h =>
      simp only [cancelPending, Bool.and_eq_true, beq_iff_eq, isPending_iff] at h
      obtain ⟨⟨-, hrunning⟩, hpending⟩ := h
      exact .of_running hrunning (hinv.worker.mp hrunning) (hinv.lease.mp hrunning)
        (fun _ => hpending) (hinv.not_published hrunning) hinv.staged (hinv.no_result hrunning)

/-- An operation keeps the invariant of the rows. -/
theorem after_rowInv (operation : Operation) {store : Store} (hkeys : Keyed store.runs)
    (hrows : ∀ r ∈ store.runs, RowInv r) : ∀ r ∈ (after operation store).runs, RowInv r :=
  (after_evolved (within_all operation) hkeys).invariant
    (fun _ _ hinv hstep => rowInv_step hstep hinv) (fun _ => rowInv_of_inserted) hrows

/-- Every reachable row satisfies the invariant. -/
theorem run_rowInv (operations : List Operation) :
    ∀ r ∈ (run operations Store.empty).runs, RowInv r :=
  (run_evolved (fun operation _ => within_all operation) keyed_empty).invariant
    (fun _ _ hinv hstep => rowInv_step hstep hinv) (fun _ => rowInv_of_inserted)
    fun _ hr => absurd hr List.not_mem_nil

/-- The only step of a finished row attaches a callback. -/
theorem attach_of_terminal {permits : Permits} {r r' : Row} (h : RowStep permits r r')
    (hterminal : r.status.isTerminal = true) :
    ∃ callback now, r.callback = (none, none, none) ∧
      r' = (attachCallback r.runId callback now).assign r := by
  have hrunning : r.status ≠ .running := by
    intro hstatus
    rw [hstatus] at hterminal
    cases hterminal
  have hqueued : r.status ≠ .queued := by
    intro hstatus
    rw [hstatus] at hterminal
    cases hterminal
  have howned : ∀ {runId workerId attemptNumber},
      r.ownedBy runId workerId attemptNumber ≠ true :=
    fun h => hrunning (ownedBy_iff.mp h).2.1
  cases h with
  | attach callback now h => exact ⟨callback, now, h, rfl⟩
  | exhaustPublication now maxAttempts h =>
      simp [exhaustPublication, hrunning] at h
  | cancelExpired now h => simp [cancelExpired, hrunning] at h
  | exhaustAttempts now maxAttempts h => simp [exhaustAttempts, hrunning] at h
  | claim workerId lease now maxAttempts hlimit h => simp [Row.claimable, hrunning, hqueued] at h
  | heartbeat workerId attemptNumber lease now h => exact absurd h howned
  | prepare workerId attemptNumber output now hpermit h => exact absurd (prepare_owned h) howned
  | beginPublication workerId attemptNumber now h => exact absurd (beginUpdate_owned h) howned
  | cancelCompleting workerId attemptNumber now h => exact absurd (cancelCompleting_owned h) howned
  | complete workerId attemptNumber output now hpermit h => exact absurd (complete_owned h) howned
  | fail workerId attemptNumber failure result now h => exact absurd (failUpdate_owned h) howned
  | cancelQueued now h => exact absurd h hqueued
  | cancelRunning now h hstate => exact absurd h hrunning
  | cancelPending now h => simp [cancelPending, hrunning] at h

/-- A row but for its callback and the time of its last change. -/
def Row.sameBut (r r' : Row) : Prop :=
  r' = { r with
    callbackUrl := r'.callbackUrl
    callbackWorkflowId := r'.callbackWorkflowId
    callbackSignal := r'.callbackSignal
    updatedAt := r'.updatedAt }

/-- A finished row stays what it is, but for its callback. -/
theorem steps_of_terminal {permits : Permits} {r r' : Row}
    (h : ReflTransGen (RowStep permits) r r') (hterminal : r.status.isTerminal = true) :
    r.sameBut r' := by
  induction h with
  | refl => rfl
  | tail _ hlast hsame =>
      unfold Row.sameBut at hsame
      obtain ⟨callback, now, -, rfl⟩ := attach_of_terminal hlast (by rw [hsame]; exact hterminal)
      unfold Row.sameBut
      rw [hsame]
      rfl

/-- **Finished runs are final.**  Once a run is completed, failed or canceled, no
later run of operations changes anything of it but its callback columns and the
time of its last change. -/
theorem terminal_absorbing (before later : List Operation) {runId : Str} {r : Row}
    (hr : getLifecycleRun runId (run before Store.empty) = some r)
    (hterminal : r.status.isTerminal = true) :
    ∃ r', getLifecycleRun runId (run (before ++ later) Store.empty) = some r' ∧ r' = { r with
      callbackUrl := r'.callbackUrl
      callbackWorkflowId := r'.callbackWorkflowId
      callbackSignal := r'.callbackSignal
      updatedAt := r'.updatedAt } := by
  obtain ⟨hmem, rfl⟩ := getLifecycleRun_eq_some hr
  have hkeys := run_keyed before keyed_empty
  obtain ⟨r', hr', hsteps⟩ :=
    (run_evolved (fun operation _ => within_all operation) hkeys).forth hmem
  have hid : r'.runId = r.runId := key_of_steps (fun _ _ hstep => hstep.runId_eq) hsteps
  rw [run_append]
  refine ⟨r', ?_, steps_of_terminal hsteps hterminal⟩
  rw [← hid]
  exact getLifecycleRun_of_mem (run_keyed later hkeys) hr'

/-- A run that can be created in an example. -/
def plainCreation : Creation :=
  { request := ⟨some ['q'], some ['c'], ['j']⟩
    idempotencyKey := ['k']
    requestDigest := ['d']
    runId := some ['r']
    uuid := ['u']
    callback := none }

/-- A canceled run that is claimed and failed stays canceled. -/
theorem terminal_absorbing_canceled :
    ∃ r', getLifecycleRun ['r'] (run ([.create plainCreation 0, .cancel ['r'] 1] ++
        [.claim ['w'] 60 3 2, .fail ['r'] ['w'] 1 ⟨"code", "detail", false⟩ none 3]) Store.empty) =
      some r' ∧ r'.status = .canceled := by
  obtain ⟨r, hr, hcanceled⟩ : ∃ r, getLifecycleRun ['r']
      (run [.create plainCreation 0, .cancel ['r'] 1] Store.empty) = some r ∧
        r.status = .canceled := ⟨_, rfl, rfl⟩
  obtain ⟨r', hr', heq⟩ := terminal_absorbing [.create plainCreation 0, .cancel ['r'] 1]
    [.claim ['w'] 60 3 2, .fail ['r'] ['w'] 1 ⟨"code", "detail", false⟩ none 3] hr
    (by rw [hcanceled]; rfl)
  exact ⟨r', hr', by rw [heq]; exact hcanceled⟩

/-- A running row of the swept table was there before and no sweep applies to it. -/
theorem running_of_mem_sweep {now : Int} {maxAttempts : Nat} {runs : List Row} {r : Row}
    (hr : r ∈ sweep now maxAttempts runs) (hrunning : r.status = .running) :
    r ∈ runs ∧ (exhaustPublication now maxAttempts).applies r = false ∧
      (exhaustAttempts now maxAttempts).applies r = false := by
  -- A sweep that applies to a row ends it.
  have hkept : ∀ {u : Update Row} {rows : List Row},
      (∀ r, (u.assign r).status ≠ .running) → r ∈ u.run rows → r ∈ rows ∧ u.applies r = false := by
    intro u rows hends hmem
    obtain ⟨r₀, hr₀, heq⟩ := List.mem_map.mp hmem
    unfold Update.on at heq
    split_ifs at heq with happlies
    · exact absurd (heq ▸ hrunning) (hends r₀)
    · subst heq
      exact ⟨hr₀, by simpa using happlies⟩
  obtain ⟨h₃, hattempts⟩ := hkept (fun _ => by simp [exhaustAttempts]) hr
  obtain ⟨h₂, -⟩ := hkept (fun _ => by simp [cancelExpired]) h₃
  obtain ⟨h₁, hpublication⟩ := hkept (fun _ => by simp [exhaustPublication]) h₂
  exact ⟨h₁, hpublication, hattempts⟩

/-- The sweeps and the claim leave no run behind: what is queued, or running with
an expired lease, can be claimed. -/
theorem claimable_of_swept {now : Int} {maxAttempts : Nat} (hpos : 1 ≤ maxAttempts)
    {runs : List Row} {r : Row} (hr : r ∈ sweep now maxAttempts runs) (hinv : RowInv r)
    (hwaits : r.status = .queued ∨ r.status = .running ∧ r.expired now = true) :
    r.claimable now maxAttempts = true := by
  rcases hwaits with hqueued | ⟨hrunning, hexpired⟩
  · obtain ⟨hattempt, hcancel, hstate⟩ := hinv.queued hqueued
    have hlt : r.attemptNumber < maxAttempts := by omega
    simp [Row.claimable, hqueued, hcancel, hlt]
  · obtain ⟨-, hpublication, hattempts⟩ := running_of_mem_sweep hr hrunning
    by_cases hpending : r.isPending = true
    · have hlt : r.attemptNumber < maxAttempts := by
        simpa [exhaustPublication, hrunning, hpending, hexpired] using hpublication
      simp [Row.claimable, hrunning, hpending, hexpired, hlt]
    · have hcancel : r.cancelRequested = false := by
        rw [← Bool.not_eq_true]
        exact fun hrequested => hpending (isPending_iff.mpr (hinv.canceling hrunning hrequested))
      have hlt : r.attemptNumber < maxAttempts := by
        simpa [exhaustAttempts, hrunning, hpending, hexpired, hcancel] using hattempts
      simp [Row.claimable, hrunning, hexpired, hcancel, hlt]

/-- The guarded update of a claim applies to the run that was selected. -/
theorem claimRow_applies {workerId : Str} {lease now : Int} {maxAttempts : Nat} {row : Row}
    (h : row.claimable now maxAttempts = true) :
    (claimRow workerId lease now row).applies row = true := by
  simp only [Row.claimable, Bool.or_eq_true, Bool.and_eq_true] at h
  rcases h with ⟨⟨⟨hpending, -⟩, hexpired⟩, -⟩ | ⟨⟨hcancel, -⟩, hqueued | ⟨-, hexpired⟩⟩
  · simp [claimRow, hpending, hexpired]
  · simp [claimRow, hcancel, hqueued]
  · simp [claimRow, hcancel, hexpired]

/-- **No claim is rolled back.**  The guarded update affects exactly the run that
was selected. -/
theorem claimRow_affected {workerId : Str} {lease now : Int} {maxAttempts : Nat}
    {runs : List Row} (hkeys : Keyed runs) {row : Row}
    (h : candidate now maxAttempts runs = some row) :
    (claimRow workerId lease now row).affected runs = 1 := by
  obtain ⟨hrow, hclaim⟩ := candidate_spec h
  have hle : (claimRow workerId lease now row).affected runs ≤ 1 := by
    refine Update.affected_le_one hkeys.runId (k := row.runId) fun r happlies => ?_
    simp only [claimRow, Bool.and_eq_true, beq_iff_eq] at happlies
    exact happlies.1.1
  have hne : (claimRow workerId lease now row).affected runs ≠ 0 := by
    intro hzero
    have hfalse := Update.affected_eq_zero.mp hzero row hrow
    rw [claimRow_applies hclaim] at hfalse
    cases hfalse
  omega

/-- **A claim.**  It sweeps; then it takes the oldest run it can, or there is
none. -/
theorem claim_spec (workerId : Str) (leaseSeconds : Int) (maxAttempts : Nat) (now : Int)
    {store : Store} (hkeys : Keyed store.runs) :
    let swept := sweptStore now maxAttempts store
    (candidate now maxAttempts swept.runs = none ∧
      claimLifecycleRun workerId leaseSeconds maxAttempts now store = (none, swept)) ∨
    ∃ row ∈ swept.runs, row.claimable now maxAttempts = true ∧
      claimLifecycleRun workerId leaseSeconds maxAttempts now store =
        (some ((claimRow workerId (leaseEnd now leaseSeconds) now row).assign row),
          ⟨(claimRow workerId (leaseEnd now leaseSeconds) now row).run swept.runs,
            swept.deliveries⟩) := by
  intro swept
  have hkeys' : Keyed swept.runs := keyed_sweep now maxAttempts hkeys
  rcases claim_cases workerId leaseSeconds maxAttempts now store with hnone |
    ⟨row, hcandidate, h⟩
  · exact .inl hnone
  · obtain ⟨hrow, hclaim⟩ := candidate_spec hcandidate
    refine .inr ⟨row, hrow, hclaim, ?_⟩
    let claim := claimRow workerId (leaseEnd now leaseSeconds) now row
    have happlies : claim.applies row = true := claimRow_applies hclaim
    have haffected : claim.affected swept.runs = 1 := claimRow_affected hkeys' hcandidate
    have hmoved : Evolved (RowStep .all) (fun _ => False) swept.runs
        (claim.run swept.runs) := by
      refine evolved_of_runId hkeys' hrow (fun r hr => ?_) fun _ => ?_
      · simp only [claim, claimRow, Bool.and_eq_true, beq_iff_eq] at hr
        exact hr.1.1
      · exact .claim workerId (leaseEnd now leaseSeconds) now maxAttempts trivial hclaim
    have hmem : claim.assign row ∈ claim.run swept.runs :=
      List.mem_map.mpr ⟨row, hrow, by simp [Update.on, happlies]⟩
    have hget : getLifecycleRun row.runId ⟨claim.run swept.runs, swept.deliveries⟩ =
        some (claim.assign row) :=
      @getLifecycleRun_of_mem ⟨claim.run swept.runs, swept.deliveries⟩
        (hkeys'.of_evolved hmoved) _ hmem
    rw [h]
    unfold takeRun
    exact (if_pos haffected).trans (congrArg (·, _) hget)

/-- The swept table of a reachable store satisfies the invariant. -/
theorem sweep_rowInv (now : Int) (maxAttempts : Nat) {runs : List Row}
    (hinv : ∀ r ∈ runs, RowInv r) : ∀ r ∈ sweep now maxAttempts runs, RowInv r :=
  (@evolved_sweep .all (fun _ => False) now maxAttempts runs).invariant
    (fun _ _ hrow hstep => rowInv_step hstep hrow) (fun _ hnew => hnew.elim) hinv

/-- **No run is stuck.**  In every reachable store a run is running exactly while
it has a worker and a lease, a running run that is to be canceled is past the
cutoff, a queued one is untouched and a published one completed; so a claim that
answers nothing leaves no queued run and none whose lease is over, and a claim
that selects a run updates exactly that one. -/
theorem no_stuck_run (operations : List Operation) :
    (∀ r ∈ (run operations Store.empty).runs,
      (r.status = .running ↔ r.workerId ≠ none ∧ r.leaseExpiresAt ≠ none) ∧
      (r.status ≠ .running → r.workerId = none ∧ r.leaseExpiresAt = none) ∧
      (r.status = .running → r.cancelRequested = true →
        r.publicationState = .publicationPending) ∧
      (r.status = .queued →
        r.attemptNumber = 0 ∧ r.cancelRequested = false ∧ r.publicationState = .none) ∧
      (r.publicationState = .published → r.status = .completed)) ∧
    ∀ (maxAttempts : Nat), 1 ≤ maxAttempts → ∀ (workerId : Str) (leaseSeconds t : Int),
      ((claimLifecycleRun workerId leaseSeconds maxAttempts t
          (run operations Store.empty)).1 = none →
        ∀ r ∈ (claimLifecycleRun workerId leaseSeconds maxAttempts t
          (run operations Store.empty)).2.runs,
        r.status ≠ .queued ∧ ¬(r.status = .running ∧ r.expired t = true)) ∧
      ∀ row, candidate t maxAttempts (sweptStore t maxAttempts (run operations Store.empty)).runs =
          some row →
        (claimRow workerId (leaseEnd t leaseSeconds) t row).affected
          (sweptStore t maxAttempts (run operations Store.empty)).runs = 1 := by
  have hkeys := run_keyed operations keyed_empty
  have hinv := run_rowInv operations
  constructor
  · intro r hr
    have hrow := hinv r hr
    refine ⟨⟨fun h => ⟨?_, ?_⟩, fun h => ?_⟩, hrow.idle, hrow.canceling, hrow.queued,
      hrow.published⟩
    · exact Option.isSome_iff_ne_none.mp (hrow.worker.mp h)
    · exact Option.isSome_iff_ne_none.mp (hrow.lease.mp h)
    · exact hrow.worker.mpr (Option.isSome_iff_ne_none.mpr h.1)
  · intro maxAttempts hpos workerId leaseSeconds t
    constructor
    · intro hnone r hr
      rcases claim_spec workerId leaseSeconds maxAttempts t hkeys with ⟨hcandidate, h⟩ |
        ⟨row, -, -, h⟩
      · rw [h] at hr
        have hfree := candidate_eq_none hcandidate r hr
        have hrow : RowInv r := sweep_rowInv t maxAttempts hinv r hr
        have hnot : ¬(r.status = .queued ∨ r.status = .running ∧ r.expired t = true) := by
          intro hwaits
          rw [claimable_of_swept hpos hr hrow hwaits] at hfree
          cases hfree
        exact not_or.mp hnot
      · rw [h] at hnone
        cases hnone
    · exact fun row hcandidate => claimRow_affected (keyed_sweep t maxAttempts hkeys) hcandidate

/-- While the only run is leased to `w`, a second worker's claim answers none, and indeed
nothing is left to claim. -/
theorem no_stuck_run_leased :
    (claimLifecycleRun ['x'] 60 1 10
        (run [.create plainCreation 0, .claim ['w'] 60 1 5] Store.empty)).1 = none ∧
      ((claimLifecycleRun ['x'] 60 1 10
        (run [.create plainCreation 0, .claim ['w'] 60 1 5] Store.empty)).2.runs.map
          (·.status)) = [.running] ∧
      ∀ r ∈ (claimLifecycleRun ['x'] 60 1 10
          (run [.create plainCreation 0, .claim ['w'] 60 1 5] Store.empty)).2.runs,
        r.status ≠ .queued ∧ ¬(r.status = .running ∧ r.expired 10 = true) := by
  have hnone : (claimLifecycleRun ['x'] 60 1 10
      (run [.create plainCreation 0, .claim ['w'] 60 1 5] Store.empty)).1 = none := by
    decide +kernel
  have hrunning : (claimLifecycleRun ['x'] 60 1 10
      (run [.create plainCreation 0, .claim ['w'] 60 1 5] Store.empty)).2.runs.map (·.status) =
        [.running] := by decide +kernel
  have hstuck := (no_stuck_run [.create plainCreation 0, .claim ['w'] 60 1 5]).2 1
    (Nat.le_refl 1) ['x'] 60 10
  exact ⟨hnone, hrunning, hstuck.1 hnone⟩

/-- The attempt number of a run; none was handed out before it is created. -/
def attemptOf (runId : Str) (store : Store) : Nat :=
  ((getLifecycleRun runId store).map (·.attemptNumber)).getD 0

/-- The answer of a claim. -/
def claimed : Operation → Store → Option Row
  | .claim workerId leaseSeconds maxAttempts now, store =>
      (claimLifecycleRun workerId leaseSeconds maxAttempts now store).1
  | _, _ => none

/-- The attempt numbers that claims hand out for a run, in order. -/
def attempts (runId : Str) : List Operation → Store → List Nat
  | [], _ => []
  | operation :: rest, store =>
      (((claimed operation store).filter (·.runId == runId)).map (·.attemptNumber)).toList ++
        attempts runId rest (after operation store)

/-- Everything but claims. -/
def Permits.claimless : Permits := ⟨fun _ => False, True, True⟩

/-- Claims with one attempt limit. -/
def Permits.limitedTo (maxAttempts : Nat) : Permits := ⟨(· = maxAttempts), True, True⟩

/-- Only a claim's own step changes an attempt number. -/
theorem attemptNumber_eq {r r' : Row} (h : RowStep .claimless r r') :
    r'.attemptNumber = r.attemptNumber := by
  cases h with
  | claim workerId lease now maxAttempts hlimit h => exact hlimit.elim
  | _ => rfl

/-- A claim's step counts one attempt, up to the limit. -/
theorem attemptNumber_step {permits : Permits} {r r' : Row} (h : RowStep permits r r') :
    r'.attemptNumber = r.attemptNumber ∨
      r'.attemptNumber = r.attemptNumber + 1 ∧
        ∃ maxAttempts, permits.limit maxAttempts ∧ r.attemptNumber < maxAttempts := by
  cases h with
  | claim workerId lease now maxAttempts hlimit h =>
      refine .inr ⟨rfl, maxAttempts, hlimit, ?_⟩
      simp only [Row.claimable, Bool.or_eq_true, Bool.and_eq_true, decide_eq_true_eq] at h
      rcases h with ⟨-, hlt⟩ | ⟨⟨-, hlt⟩, -⟩
      · exact hlt
      · exact hlt
  | _ => exact .inl rfl

/-- Attempts are only counted up. -/
theorem attemptNumber_le_of_steps {permits : Permits} {r r' : Row}
    (h : ReflTransGen (RowStep permits) r r') : r.attemptNumber ≤ r'.attemptNumber := by
  induction h with
  | refl => exact Nat.le_refl _
  | tail _ hlast ih =>
      rcases attemptNumber_step hlast with heq | ⟨heq, -⟩
      · omega
      · omega

/-- The run, the worker and the attempt a worker's call is made for. -/
def Operation.call : Operation → Option (Str × Str × Nat)
  | .heartbeat runId workerId attemptNumber _ _ => some (runId, workerId, attemptNumber)
  | .prepare runId workerId attemptNumber _ _ => some (runId, workerId, attemptNumber)
  | .beginPublication runId workerId attemptNumber _ => some (runId, workerId, attemptNumber)
  | .complete runId workerId attemptNumber _ _ => some (runId, workerId, attemptNumber)
  | .fail runId workerId attemptNumber _ _ _ => some (runId, workerId, attemptNumber)
  | _ => none

/-- An update of an attempt that no row is in affects nothing. -/
theorem unowned_update {runId workerId : Str} {attemptNumber : Nat} {runs : List Row}
    (hfree : ∀ r ∈ runs, r.ownedBy runId workerId attemptNumber ≠ true) (u : Update Row)
    (hown : ∀ r, u.applies r = true → r.ownedBy runId workerId attemptNumber = true) :
    u.affected runs = 0 ∧ u.run runs = runs := by
  have hno : ∀ r ∈ runs, u.applies r = false := fun r hr => by
    rw [← Bool.not_eq_true]
    exact fun happlies => hfree r hr (hown r happlies)
  exact ⟨Update.affected_eq_zero.mpr hno, Update.run_eq_self hno⟩

/-- **Fencing.**  A worker's call for an attempt that no row is in changes
nothing. -/
theorem after_of_unowned {operation : Operation} {runId workerId : Str} {attemptNumber : Nat}
    (hcall : operation.call = some (runId, workerId, attemptNumber)) {store : Store}
    (hfree : ∀ r ∈ store.runs, r.ownedBy runId workerId attemptNumber ≠ true) :
    after operation store = store := by
  have hidle := unowned_update hfree
  cases operation with
  | heartbeat _ _ _ leaseSeconds now =>
      cases hcall
      have hrun := (hidle (heartbeat runId workerId attemptNumber (leaseEnd now leaseSeconds) now)
        fun _ h => h).2
      simp only [after, heartbeatLifecycleRun, hrun]
  | prepare _ _ _ output now =>
      cases hcall
      have hrun :=
        (hidle (prepare runId workerId attemptNumber output now) fun _ => prepare_owned).2
      simp only [after, prepareLifecyclePublication, hrun]
  | beginPublication _ _ _ now =>
      cases hcall
      have hnone := (hidle (beginUpdate runId workerId attemptNumber now)
        fun _ => beginUpdate_owned).1
      simp only [after, beginLifecyclePublication, hnone, if_true]
  | complete _ _ _ output now =>
      cases hcall
      obtain ⟨hcancel, hsame⟩ := hidle (cancelCompleting runId workerId attemptNumber now)
        fun _ => cancelCompleting_owned
      obtain ⟨hnone, hrun⟩ := hidle (complete runId workerId attemptNumber output now)
        fun _ => complete_owned
      simp only [after, completeLifecycleRun, hcancel, hsame, hnone, hrun, Nat.zero_ne_one,
        if_false]
      split_ifs <;> rfl
  | fail _ _ _ failure result now =>
      cases hcall
      obtain ⟨hnone, hrun⟩ := hidle (failUpdate runId workerId attemptNumber failure result now)
        fun _ => failUpdate_owned
      simp only [after, failLifecycleRun, hnone, hrun, Nat.zero_ne_one, if_false]
  | _ => cases hcall

/-- Without claims a run keeps its attempt number. -/
theorem attemptOf_of_evolved {runs runs' : List Row} {deliveries deliveries' : List Delivery}
    (hkeys : Keyed runs) (hkeys' : Keyed runs')
    (h : Evolved (RowStep .claimless) Inserted runs runs') (runId : Str) :
    attemptOf runId ⟨runs', deliveries'⟩ = attemptOf runId ⟨runs, deliveries⟩ := by
  have hsteps : ∀ {r r'}, ReflTransGen (RowStep .claimless) r r' →
      r'.attemptNumber = r.attemptNumber ∧ r'.runId = r.runId := by
    intro r r' hmove
    constructor
    · exact key_of_steps (fun _ _ hstep => attemptNumber_eq hstep) hmove
    · exact key_of_steps (fun _ _ hstep => hstep.runId_eq) hmove
  unfold attemptOf
  cases hfind : getLifecycleRun runId ⟨runs, deliveries⟩ with
  | some r =>
      obtain ⟨hr, rfl⟩ := getLifecycleRun_eq_some hfind
      obtain ⟨r', hr', hmove⟩ := h.forth hr
      obtain ⟨hattempt, hid⟩ := hsteps hmove
      have hfind' := @getLifecycleRun_of_mem ⟨runs', deliveries'⟩ hkeys' _ hr'
      rw [hid] at hfind'
      rw [hfind', Option.map_some, Option.map_some, hattempt]
  | none =>
      cases hfind' : getLifecycleRun runId ⟨runs', deliveries'⟩ with
      | none => rfl
      | some r' =>
          obtain ⟨hr', rfl⟩ := getLifecycleRun_eq_some hfind'
          rcases h.back hr' with ⟨r, hr, hmove⟩ | ⟨r₀, ⟨_, _, _, _, _, _, _, _, rfl⟩, hmove⟩
          · have hfound := @getLifecycleRun_of_mem ⟨runs, deliveries⟩ hkeys _ hr
            rw [← (hsteps hmove).2, hfind] at hfound
            cases hfound
          · rw [Option.map_some, Option.getD_some, (hsteps hmove).1]
            rfl

/-- The attempt of a stored run is read off its row. -/
theorem attemptOf_of_mem {store : Store} (hkeys : Keyed store.runs) {r : Row}
    (hr : r ∈ store.runs) : attemptOf r.runId store = r.attemptNumber := by
  rw [attemptOf, getLifecycleRun_of_mem hkeys hr, Option.map_some, Option.getD_some]

/-- An update of one run leaves the others. -/
theorem getLifecycleRun_update {u : Update Row} {id runId : Str}
    (hid : ∀ r, u.applies r = true → r.runId = id) (hassign : ∀ r, (u.assign r).runId = r.runId)
    (hne : id ≠ runId) (runs : List Row) (deliveries : List Delivery) :
    getLifecycleRun runId ⟨u.run runs, deliveries⟩ = getLifecycleRun runId ⟨runs, deliveries⟩ := by
  unfold getLifecycleRun Update.run
  induction runs with
  | nil => rfl
  | cons r rest ih =>
      have hsame : (u.on r).runId = r.runId := by
        unfold Update.on
        split_ifs
        · exact hassign r
        · rfl
      by_cases hr : r.runId = runId
      · have hkeep : u.on r = r := by
          unfold Update.on
          exact if_neg fun happlies => hne ((hid r happlies).symm.trans hr)
        simp [hkeep, hr]
      · simp only [List.map_cons, List.find?_cons, hsame, beq_eq_false_iff_ne.mpr hr]
        exact ih

/-- A claim that answers the run hands out its next attempt, below the limit;
otherwise the attempt of the run stays. -/
theorem attemptOf_claim (workerId : Str) (leaseSeconds : Int) (maxAttempts : Nat) (now : Int)
    {store : Store} (hkeys : Keyed store.runs) (runId : Str) :
    let answer := claimLifecycleRun workerId leaseSeconds maxAttempts now store
    (∃ row, answer.1 = some row ∧ row.runId = runId ∧
      row.attemptNumber = attemptOf runId store + 1 ∧
      attemptOf runId answer.2 = row.attemptNumber ∧ row.attemptNumber ≤ maxAttempts) ∨
    (answer.1.filter (·.runId == runId) = none ∧ attemptOf runId answer.2 = attemptOf runId store)
    := by
  intro answer
  have hkeys' : Keyed (sweptStore now maxAttempts store).runs := keyed_sweep now maxAttempts hkeys
  have hlater : Keyed answer.2.runs :=
    after_keyed (.claim workerId leaseSeconds maxAttempts now) hkeys
  have hswept : attemptOf runId (sweptStore now maxAttempts store) = attemptOf runId store :=
    attemptOf_of_evolved hkeys hkeys' (evolved_sweep now maxAttempts store.runs) runId
  rcases claim_spec workerId leaseSeconds maxAttempts now hkeys with ⟨-, h⟩ |
    ⟨row, hrow, hclaimable, h⟩
  · refine .inr ⟨?_, ?_⟩
    · simp only [answer, h, Option.filter_none]
    · simp only [answer, h, hswept]
  · let claim := claimRow workerId (leaseEnd now leaseSeconds) now row
    have hanswer : answer = (some (claim.assign row),
        ⟨claim.run (sweptStore now maxAttempts store).runs,
          (sweptStore now maxAttempts store).deliveries⟩) := h
    have hrunId : (claim.assign row).runId = row.runId := rfl
    rw [hanswer] at hlater ⊢
    by_cases hid : row.runId = runId
    · subst hid
      have hmem : claim.assign row ∈ claim.run (sweptStore now maxAttempts store).runs :=
        List.mem_map.mpr ⟨row, hrow, by simp [claim, Update.on, claimRow_applies hclaimable]⟩
      have hbefore := attemptOf_of_mem hkeys' hrow
      have hafter := @attemptOf_of_mem _ hlater _ hmem
      have hlt : row.attemptNumber < maxAttempts := by
        simp only [Row.claimable, Bool.or_eq_true, Bool.and_eq_true,
          decide_eq_true_eq] at hclaimable
        rcases hclaimable with ⟨-, hlt⟩ | ⟨⟨-, hlt⟩, -⟩
        · exact hlt
        · exact hlt
      refine .inl ⟨claim.assign row, rfl, rfl, ?_, hafter, hlt⟩
      rw [← hswept, hbefore]
      rfl
    · refine .inr ⟨?_, ?_⟩
      · simp [Option.filter, hrunId, hid]
      · have hone : ∀ r, claim.applies r = true → r.runId = row.runId := fun r happlies => by
          simp only [claim, claimRow, Bool.and_eq_true, beq_iff_eq] at happlies
          exact happlies.1.1
        have hkeep := getLifecycleRun_update hone (fun _ => rfl) hid
          (sweptStore now maxAttempts store).runs (sweptStore now maxAttempts store).deliveries
        rw [← hswept]
        unfold attemptOf
        rw [hkeep]

/-- **One operation.**  A claim that answers the run hands out its next attempt,
within its limit; anything else leaves the attempt of the run. -/
theorem attemptOf_after (operation : Operation) {permits : Permits}
    (hlimit : operation.within permits) {store : Store} (hkeys : Keyed store.runs) (runId : Str) :
    (∃ row, claimed operation store = some row ∧ row.runId = runId ∧
      row.attemptNumber = attemptOf runId store + 1 ∧
      attemptOf runId (after operation store) = row.attemptNumber ∧
      ∃ maxAttempts, permits.limit maxAttempts ∧ row.attemptNumber ≤ maxAttempts) ∨
    ((claimed operation store).filter (·.runId == runId) = none ∧
      attemptOf runId (after operation store) = attemptOf runId store) := by
  have hother : operation.within .claimless → claimed operation store = none →
      (claimed operation store).filter (·.runId == runId) = none ∧
        attemptOf runId (after operation store) = attemptOf runId store := by
    intro hnone hclaimed
    refine ⟨by rw [hclaimed]; rfl, ?_⟩
    exact attemptOf_of_evolved hkeys (after_keyed operation hkeys) (after_evolved hnone hkeys) runId
  cases operation with
  | claim workerId leaseSeconds maxAttempts now =>
      rcases attemptOf_claim workerId leaseSeconds maxAttempts now hkeys runId with
        ⟨row, hanswer, hid, hnext, hafter, hle⟩ | hkeep
      · exact .inl ⟨row, hanswer, hid, hnext, hafter, maxAttempts, hlimit, hle⟩
      · exact .inr hkeep
  | _ => exact .inr (hother trivial rfl)

/-- The attempts handed out for a run continue its attempt number one by one. -/
theorem attempts_eq_range' {permits : Permits} (runId : Str) {operations : List Operation}
    (hpermits : ∀ operation ∈ operations, operation.within permits) {store : Store}
    (hkeys : Keyed store.runs) :
    (∃ k, attempts runId operations store = List.range' (attemptOf runId store + 1) k) ∧
      ∀ n ∈ attempts runId operations store,
        ∃ maxAttempts, permits.limit maxAttempts ∧ n ≤ maxAttempts := by
  induction operations generalizing store with
  | nil => exact ⟨⟨0, rfl⟩, fun n hn => absurd hn List.not_mem_nil⟩
  | cons operation rest ih =>
      obtain ⟨⟨k, hk⟩, hle⟩ :=
        ih (fun other hother => hpermits other (List.mem_cons_of_mem _ hother))
        (after_keyed operation hkeys)
      rcases attemptOf_after operation (hpermits operation List.mem_cons_self) hkeys runId with
        ⟨row, hclaimed, hid, hnext, hafter, hwithin⟩ | ⟨hnone, hkeep⟩
      · have hcons : attempts runId (operation :: rest) store =
            row.attemptNumber :: attempts runId rest (after operation store) := by
          simp [attempts, hclaimed, Option.filter, hid]
        rw [hcons]
        constructor
        · exact ⟨k + 1, by rw [hk, hafter, hnext, List.range'_succ]⟩
        · rintro n (_ | ⟨_, hn⟩)
          · exact hwithin
          · exact hle n hn
      · have hsame : attempts runId (operation :: rest) store =
            attempts runId rest (after operation store) := by
          simp [attempts, hnone]
        rw [hsame]
        exact ⟨⟨k, by rw [hk, hkeep]⟩, hle⟩

/-- The run a claim answers is in the store it leaves. -/
theorem mem_of_claimed {workerId : Str} {leaseSeconds : Int} {maxAttempts : Nat} {now : Int}
    {store : Store} (hkeys : Keyed store.runs) {row : Row}
    (h : (claimLifecycleRun workerId leaseSeconds maxAttempts now store).1 = some row) :
    row ∈ (claimLifecycleRun workerId leaseSeconds maxAttempts now store).2.runs := by
  rcases claim_spec workerId leaseSeconds maxAttempts now hkeys with ⟨-, heq⟩ |
    ⟨selected, hrow, hclaimable, heq⟩
  · rw [heq] at h
    cases h
  · rw [heq] at h ⊢
    obtain rfl := Option.some.inj h
    exact List.mem_map.mpr
      ⟨selected, hrow, by simp only [Update.on, claimRow_applies hclaimable, if_true]⟩

/-- **Attempt fencing.**  Once a claim has handed out an attempt, no later call made
for an earlier one changes anything; the attempts handed out for a run are
1, 2, 3 and so on, and none exceeds a limit that all claims share. -/
theorem attempt_fencing (operations : List Operation) :
    (∀ (workerId : Str) (leaseSeconds : Int) (maxAttempts : Nat) (now : Int) (row : Row),
      (claimLifecycleRun workerId leaseSeconds maxAttempts now
        (run operations Store.empty)).1 = some row →
      ∀ (later : List Operation) (call : Operation) (stale : Str) (attemptNumber : Nat),
        call.call = some (row.runId, stale, attemptNumber) → attemptNumber < row.attemptNumber →
        run (operations ++ .claim workerId leaseSeconds maxAttempts now :: later ++ [call])
            Store.empty =
          run (operations ++ .claim workerId leaseSeconds maxAttempts now :: later) Store.empty) ∧
    (∀ runId, ∃ k, attempts runId operations Store.empty = List.range' 1 k) ∧
    ∀ maxAttempts, 1 ≤ maxAttempts →
      (∀ operation ∈ operations, operation.within (.limitedTo maxAttempts)) →
      ∀ runId, ∀ n ∈ attempts runId operations Store.empty, n ≤ maxAttempts := by
  have hkeys := run_keyed operations keyed_empty
  refine ⟨?_, fun runId => ?_, ?_⟩
  · intro workerId leaseSeconds maxAttempts now row hanswer later call stale attemptNumber hcall hlt
    have hmem := mem_of_claimed hkeys hanswer
    have hkeys' := after_keyed (.claim workerId leaseSeconds maxAttempts now) hkeys
    rw [run_append _ [call], run_append operations]
    refine after_of_unowned hcall fun r hr hown => ?_
    -- The row of the run has kept the attempt the claim handed out, or a later one.
    obtain ⟨hid, -, -, hattempt⟩ := ownedBy_iff.mp hown
    have hsteps := run_follows (fun operation _ => within_all operation) hkeys' hmem hr hid
    have hle := attemptNumber_le_of_steps hsteps
    omega
  · exact (attempts_eq_range' runId (fun operation _ => within_all operation) keyed_empty).1
  · intro maxAttempts _ hpermits runId n hn
    obtain ⟨_, rfl, hle⟩ := (attempts_eq_range' runId hpermits keyed_empty).2 n hn
    exact hle

/-- The heartbeat of an attempt whose run was claimed again does nothing. -/
theorem attempt_fencing_reclaimed :
    run ([.create plainCreation 0, .claim ['w'] 60 3 1] ++
        .claim ['w'] 60 3 60000002 :: [] ++ [.heartbeat ['r'] ['w'] 1 60 60000003]) Store.empty =
      run ([.create plainCreation 0, .claim ['w'] 60 3 1] ++ .claim ['w'] 60 3 60000002 :: [])
        Store.empty :=
  (attempt_fencing [.create plainCreation 0, .claim ['w'] 60 3 1]).1 ['w'] 60 3 60000002 _ rfl []
    (.heartbeat ['r'] ['w'] 1 60 60000003) ['w'] 1 rfl (by decide)

end Lifecycle
