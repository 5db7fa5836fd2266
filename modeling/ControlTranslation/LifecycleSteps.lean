import ControlTranslation.LifecycleStore

/-!
# What a lifecycle operation does to a row

`RowStep` lists, once, everything an operation can do to a row and under which
condition.  An operation moves every row by such steps and adds at most one
queued row: `after_evolved`.  Whatever holds of new rows and survives a step is
then an invariant of the store, and a row is followed through a run of
operations by its identifier.
-/

namespace Lifecycle

open PyText Table Relation

/-- What a group of operations may do: the attempt limits of its claims, and
whether it stages output and completes runs. -/
structure Permits where
  limit : Nat → Prop
  prepare : Prop
  complete : Prop

/-- Everything is permitted. -/
def Permits.all : Permits := ⟨fun _ => True, True, True⟩

/-- One statement's effect on a row it applies to. -/
inductive RowStep (permits : Permits) (r : Row) : Row → Prop
  | attach (callback : CallbackMetadata) (now : Int) (h : r.callback = (none, none, none)) :
      RowStep permits r ((attachCallback r.runId callback now).assign r)
  | exhaustPublication (now : Int) (maxAttempts : Nat)
      (h : (exhaustPublication now maxAttempts).applies r = true) :
      RowStep permits r ((exhaustPublication now maxAttempts).assign r)
  | cancelExpired (now : Int) (h : (cancelExpired now).applies r = true) :
      RowStep permits r ((cancelExpired now).assign r)
  | exhaustAttempts (now : Int) (maxAttempts : Nat)
      (h : (exhaustAttempts now maxAttempts).applies r = true) :
      RowStep permits r ((exhaustAttempts now maxAttempts).assign r)
  | claim (workerId : Str) (lease now : Int) (maxAttempts : Nat)
      (hlimit : permits.limit maxAttempts)
      (h : r.claimable now maxAttempts = true) :
      RowStep permits r ((claimRow workerId lease now r).assign r)
  | heartbeat (workerId : Str) (attemptNumber : Nat) (lease now : Int)
      (h : (heartbeat r.runId workerId attemptNumber lease now).applies r = true) :
      RowStep permits r ((heartbeat r.runId workerId attemptNumber lease now).assign r)
  | prepare (workerId : Str) (attemptNumber : Nat) (output : Prepared) (now : Int)
      (hpermit : permits.prepare)
      (h : (prepare r.runId workerId attemptNumber output now).applies r = true) :
      RowStep permits r ((prepare r.runId workerId attemptNumber output now).assign r)
  | beginPublication (workerId : Str) (attemptNumber : Nat) (now : Int)
      (h : (beginUpdate r.runId workerId attemptNumber now).applies r = true) :
      RowStep permits r ((beginUpdate r.runId workerId attemptNumber now).assign r)
  | cancelCompleting (workerId : Str) (attemptNumber : Nat) (now : Int)
      (h : (cancelCompleting r.runId workerId attemptNumber now).applies r = true) :
      RowStep permits r ((cancelCompleting r.runId workerId attemptNumber now).assign r)
  | complete (workerId : Str) (attemptNumber : Nat) (output : Output) (now : Int)
      (hpermit : permits.complete)
      (h : (complete r.runId workerId attemptNumber output now).applies r = true) :
      RowStep permits r ((complete r.runId workerId attemptNumber output now).assign r)
  | fail (workerId : Str) (attemptNumber : Nat) (failure : RunFailure) (result : Option Str)
      (now : Int) (h : (failUpdate r.runId workerId attemptNumber failure result now).applies r =
        true) :
      RowStep permits r ((failUpdate r.runId workerId attemptNumber failure result now).assign r)
  | cancelQueued (now : Int) (h : r.status = .queued) :
      RowStep permits r ((cancelQueued r.runId now).assign r)
  | cancelRunning (now : Int) (h : r.status = .running)
      (hstate : r.publicationState = .none ∨ r.publicationState = .prepared) :
      RowStep permits r ((cancelRunning r.runId now).assign r)
  | cancelPending (now : Int) (h : (cancelPending r.runId now).applies r = true) :
      RowStep permits r ((cancelPending r.runId now).assign r)

/-- A row as it is inserted. -/
def Inserted (r : Row) : Prop :=
  ∃ (runId requestId correlationId idempotencyKey requestDigest requestJson : Str)
    (callback : Option CallbackMetadata) (now : Int),
    r = queuedRow runId requestId correlationId idempotencyKey requestDigest requestJson callback
      now

section

variable {permits : Permits} {r r' : Row}

theorem RowStep.runId_eq (h : RowStep permits r r') : r'.runId = r.runId := by
  cases h <;> rfl

theorem RowStep.idempotencyKey_eq (h : RowStep permits r r') :
    r'.idempotencyKey = r.idempotencyKey := by
  cases h <;> rfl

theorem RowStep.requestDigest_eq (h : RowStep permits r r') :
    r'.requestDigest = r.requestDigest := by
  cases h <;> rfl

end

/-- The primary key and the unique idempotency key. -/
structure Keyed (runs : List Row) : Prop where
  runId : (runs.map (·.runId)).Nodup
  idempotencyKey : (runs.map (·.idempotencyKey)).Nodup

theorem ownedBy_runId {r : Row} {runId workerId : Str} {attemptNumber : Nat}
    (h : r.ownedBy runId workerId attemptNumber = true) : r.runId = runId := by
  simp only [Row.ownedBy, Bool.and_eq_true, beq_iff_eq] at h
  exact h.1.1.1

/-- Rows that only move keep their keys. -/
theorem Keyed.of_evolved {permits : Permits} {runs runs' : List Row} (hkeys : Keyed runs)
    (h : Evolved (RowStep permits) (fun _ => False) runs runs') : Keyed runs' := by
  have hids : runs'.map (·.runId) = runs.map (·.runId) :=
    h.map_key fun _ _ hstep => hstep.runId_eq
  have hnames : runs'.map (·.idempotencyKey) = runs.map (·.idempotencyKey) :=
    h.map_key fun _ _ hstep => hstep.idempotencyKey_eq
  exact ⟨hids ▸ hkeys.runId, hnames ▸ hkeys.idempotencyKey⟩

/-- A row under new keys keeps them unique. -/
theorem Keyed.insert {runs : List Row} (hkeys : Keyed runs) {row : Row}
    (h : ∀ r ∈ runs, r.runId ≠ row.runId ∧ r.idempotencyKey ≠ row.idempotencyKey) :
    Keyed (runs ++ [row]) := by
  constructor
  · rw [List.map_append, List.map_singleton, List.nodup_append]
    refine ⟨hkeys.runId, List.nodup_singleton _, fun a ha b hb => ?_⟩
    obtain ⟨r, hr, rfl⟩ := List.mem_map.mp ha
    rw [List.mem_singleton.mp hb]
    exact (h r hr).1
  · rw [List.map_append, List.map_singleton, List.nodup_append]
    refine ⟨hkeys.idempotencyKey, List.nodup_singleton _, fun a ha b hb => ?_⟩
    obtain ⟨r, hr, rfl⟩ := List.mem_map.mp ha
    rw [List.mem_singleton.mp hb]
    exact (h r hr).2

theorem getLifecycleRun_eq_some {store : Store} {runId : Str} {row : Row}
    (h : getLifecycleRun runId store = some row) : row ∈ store.runs ∧ row.runId = runId := by
  unfold getLifecycleRun at h
  have hid := List.find?_some h
  exact ⟨List.mem_of_find?_eq_some h, eq_of_beq hid⟩

/-- The identifier of a row finds it. -/
theorem getLifecycleRun_of_mem {store : Store} (hkeys : Keyed store.runs) {row : Row}
    (hrow : row ∈ store.runs) : getLifecycleRun row.runId store = some row := by
  cases hfind : getLifecycleRun row.runId store with
  | none =>
      exact absurd (beq_self_eq_true row.runId) (List.find?_eq_none.mp hfind row hrow)
  | some found =>
      obtain ⟨hfound, hid⟩ := getLifecycleRun_eq_some hfind
      rw [eq_of_key hkeys.runId hfound hrow hid]

@[simp]
theorem createCallbackOutboxRecords_runs (now : Int) (runId : Option Str) (store : Store) :
    (createCallbackOutboxRecords now runId store).runs = store.runs := rfl

section

variable {permits : Permits} {new : Row → Prop}

/-- An update by identifier moves its one row. -/
theorem evolved_of_runId {runs : List Row} (hkeys : Keyed runs) {row : Row} (hrow : row ∈ runs)
    {u : Update Row} (hid : ∀ r, u.applies r = true → r.runId = row.runId)
    (hstep : u.applies row = true → RowStep permits row (u.assign row)) :
    Evolved (RowStep permits) new runs (u.run runs) := by
  refine Evolved.of_update fun r hr happlies => ?_
  obtain rfl := eq_of_key hkeys.runId hr hrow (hid r happlies)
  exact hstep happlies

/-- A creation changes nothing, attaches a callback or inserts a run under two
new keys. -/
theorem create_cases (creation : Creation) (now : Int) (store : Store) :
    after (.create creation now) store = store ∨
    (∃ row ∈ store.runs, ∃ callback : CallbackMetadata, row.callback = (none, none, none) ∧
      after (.create creation now) store = createCallbackOutboxRecords now (some row.runId)
        ⟨(attachCallback row.runId callback now).run store.runs, store.deliveries⟩) ∨
    ∃ row, Inserted row ∧
      (∀ r ∈ store.runs, r.runId ≠ row.runId ∧ r.idempotencyKey ≠ row.idempotencyKey) ∧
      after (.create creation now) store = ⟨store.runs ++ [row], store.deliveries⟩ := by
  unfold after
  cases hfind : store.runs.find? fun r => r.idempotencyKey == creation.idempotencyKey with
  | some row =>
      by_cases hdigest : row.requestDigest ≠ creation.requestDigest
      · simp only [createLifecycleRun, hfind, if_pos hdigest, true_or]
      simp only [createLifecycleRun, hfind, if_neg hdigest, repeatCallback]
      cases creation.callback with
      | none => exact .inl rfl
      | some callback =>
          by_cases hnone : row.callback = (none, none, none)
          · simp only [if_pos hnone]
            exact .inr (.inl ⟨row, List.mem_of_find?_eq_some hfind, callback, hnone, rfl⟩)
          · simp only [if_neg hnone]
            split_ifs
            · exact .inl rfl
            · exact .inl rfl
  | none =>
      simp only [createLifecycleRun, hfind, insertRun]
      cases creation.request.requestId with
      | none => exact .inl rfl
      | some requestId =>
          cases creation.request.correlationId with
          | none => exact .inl rfl
          | some correlationId =>
              by_cases htaken : store.runs.any (·.runId == creation.effectiveRunId) = true
              · simp only [if_pos htaken]
                exact .inl rfl
              · simp only [if_neg htaken]
                refine .inr (.inr ⟨_, ⟨_, _, _, _, _, _, _, _, rfl⟩, fun r hr => ⟨fun heq => ?_,
                  fun heq => ?_⟩, rfl⟩)
                · exact htaken (List.any_eq_true.mpr ⟨r, hr, beq_iff_eq.mpr heq⟩)
                · exact List.find?_eq_none.mp hfind r hr (beq_iff_eq.mpr heq)

theorem evolved_create (creation : Creation) (now : Int) {store : Store}
    (hkeys : Keyed store.runs) :
    Evolved (RowStep permits) Inserted store.runs
      (after (.create creation now) store).runs := by
  rcases create_cases creation now store with h | ⟨row, hrow, callback, hnone, h⟩ |
    ⟨row, hnew, -, h⟩
  · rw [h]
    exact Evolved.refl _ _ _
  · rw [h]
    refine evolved_of_runId hkeys hrow (fun r happlies => ?_) fun _ => ?_
    · exact eq_of_beq happlies
    · exact .attach callback now hnone
  · rw [h]
    exact .of_insert hnew

/-- The sweeps of a claim. -/
theorem evolved_sweep (now : Int) (maxAttempts : Nat) (runs : List Row) :
    Evolved (RowStep permits) new runs (sweep now maxAttempts runs) := by
  refine .trans (.of_update fun r _ h => .exhaustPublication now maxAttempts h) ?_
  refine .trans (.of_update fun r _ h => .cancelExpired now h) ?_
  exact .of_update fun r _ h => .exhaustAttempts now maxAttempts h

theorem keyed_sweep (now : Int) (maxAttempts : Nat) {runs : List Row} (h : Keyed runs) :
    Keyed (sweep now maxAttempts runs) :=
  h.of_evolved (@evolved_sweep .all _ now maxAttempts runs)

/-- The run a claim takes can be claimed. -/
theorem candidate_spec {now : Int} {maxAttempts : Nat} {runs : List Row} {row : Row}
    (h : candidate now maxAttempts runs = some row) :
    row ∈ runs ∧ row.claimable now maxAttempts = true := by
  unfold candidate at h
  have hmem := List.mem_of_mem_head? h
  rw [List.mem_insertionSort, List.mem_filter] at hmem
  exact hmem

/-- Nothing can be claimed when no run is taken. -/
theorem candidate_eq_none {now : Int} {maxAttempts : Nat} {runs : List Row}
    (h : candidate now maxAttempts runs = none) :
    ∀ r ∈ runs, r.claimable now maxAttempts = false := by
  unfold candidate at h
  rw [List.head?_eq_none_iff] at h
  intro r hr
  by_contra hclaim
  have hmem : r ∈ (runs.filter (·.claimable now maxAttempts)).insertionSort
      fun r r' => r.before r' = true := by
    rw [List.mem_insertionSort, List.mem_filter]
    exact ⟨hr, by simpa using hclaim⟩
  rw [h] at hmem
  cases hmem

/-- A claim sweeps, and takes a run if it can; a claim that is rolled back changes
nothing. -/
theorem claim_cases (workerId : Str) (leaseSeconds : Int) (maxAttempts : Nat) (now : Int)
    (store : Store) :
    (candidate now maxAttempts (sweptStore now maxAttempts store).runs = none ∧
      claimLifecycleRun workerId leaseSeconds maxAttempts now store =
        (none, sweptStore now maxAttempts store)) ∨
    ∃ row, candidate now maxAttempts (sweptStore now maxAttempts store).runs = some row ∧
      claimLifecycleRun workerId leaseSeconds maxAttempts now store =
        takeRun workerId leaseSeconds now row store (sweptStore now maxAttempts store) := by
  unfold claimLifecycleRun
  cases candidate now maxAttempts (sweptStore now maxAttempts store).runs with
  | none => exact .inl ⟨rfl, rfl⟩
  | some row => exact .inr ⟨row, rfl, rfl⟩

/-- Taking a run moves it by the step of a claim. -/
theorem evolved_takeRun (workerId : Str) (leaseSeconds : Int) {maxAttempts : Nat} (now : Int)
    (hlimit : permits.limit maxAttempts) {store swept : Store} (hkeys : Keyed swept.runs)
    {row : Row}
    (hcandidate : candidate now maxAttempts swept.runs = some row)
    (hswept : Evolved (RowStep permits) new store.runs swept.runs) :
    Evolved (RowStep permits) new store.runs
      (takeRun workerId leaseSeconds now row store swept).2.runs := by
  obtain ⟨hrow, hclaim⟩ := candidate_spec hcandidate
  unfold takeRun
  dsimp only
  split_ifs
  · refine hswept.trans (evolved_of_runId hkeys hrow (fun r happlies => ?_) fun _ => ?_)
    · simp only [claimRow, Bool.and_eq_true, beq_iff_eq] at happlies
      exact happlies.1.1
    · exact .claim workerId (leaseEnd now leaseSeconds) now maxAttempts hlimit hclaim
  · exact Evolved.refl _ _ _

theorem evolved_claim (workerId : Str) (leaseSeconds : Int) {maxAttempts : Nat} (now : Int)
    (hlimit : permits.limit maxAttempts) {store : Store} (hkeys : Keyed store.runs) :
    Evolved (RowStep permits) new store.runs
      (claimLifecycleRun workerId leaseSeconds maxAttempts now store).2.runs := by
  have hsweep := @evolved_sweep permits new now maxAttempts store.runs
  rcases claim_cases workerId leaseSeconds maxAttempts now store with ⟨-, h⟩ |
    ⟨row, hcandidate, h⟩
  · rw [h]
    exact hsweep
  · rw [h]
    exact evolved_takeRun workerId leaseSeconds now hlimit (keyed_sweep now maxAttempts hkeys)
      hcandidate hsweep

theorem evolved_cancelUpdate {runs : List Row} (hkeys : Keyed runs) {row : Row}
    (hrow : row ∈ runs) (now : Int) :
    Evolved (RowStep permits) new runs (cancelUpdate row now runs) := by
  unfold cancelUpdate
  split_ifs with hqueued hrunning hstate
  · refine evolved_of_runId hkeys hrow (fun r happlies => eq_of_beq happlies) fun _ => ?_
    exact .cancelQueued now hqueued
  · refine evolved_of_runId hkeys hrow (fun r happlies => eq_of_beq happlies) fun _ => ?_
    exact .cancelRunning now hrunning hstate
  · refine evolved_of_runId hkeys hrow (fun r happlies => ?_) fun happlies => ?_
    · simp only [cancelPending, Bool.and_eq_true, beq_iff_eq] at happlies
      exact happlies.1.1
    · exact .cancelPending now happlies
  · exact Evolved.refl _ _ _

theorem evolved_cancel (runId : Str) (now : Int) {store : Store} (hkeys : Keyed store.runs) :
    Evolved (RowStep permits) new store.runs (cancelLifecycleRun runId now store).2.runs := by
  unfold cancelLifecycleRun
  cases hfind : getLifecycleRun runId store with
  | none => exact Evolved.refl _ _ _
  | some row => exact evolved_cancelUpdate hkeys (getLifecycleRun_eq_some hfind).1 now

/-- A worker's update moves the rows it owns. -/
theorem evolved_of_owned {runId workerId : Str} {attemptNumber : Nat} {u : Update Row}
    (hown : ∀ r, u.applies r = true → r.ownedBy runId workerId attemptNumber = true)
    (hstep : ∀ r, r.runId = runId → u.applies r = true → RowStep permits r (u.assign r))
    (runs : List Row) : Evolved (RowStep permits) new runs (u.run runs) :=
  .of_update fun r _ happlies => hstep r (ownedBy_runId (hown r happlies)) happlies

theorem prepare_owned {runId workerId : Str} {attemptNumber : Nat} {output : Prepared}
    {now : Int} {r : Row}
    (h : (prepare runId workerId attemptNumber output now).applies r = true) :
    r.ownedBy runId workerId attemptNumber = true := by
  simp only [prepare, Bool.and_eq_true] at h
  exact h.1.1.1

theorem beginUpdate_owned {runId workerId : Str} {attemptNumber : Nat} {now : Int} {r : Row}
    (h : (beginUpdate runId workerId attemptNumber now).applies r = true) :
    r.ownedBy runId workerId attemptNumber = true := by
  simp only [beginUpdate, Bool.and_eq_true] at h
  exact h.1.1.1

theorem cancelCompleting_owned {runId workerId : Str} {attemptNumber : Nat} {now : Int} {r : Row}
    (h : (cancelCompleting runId workerId attemptNumber now).applies r = true) :
    r.ownedBy runId workerId attemptNumber = true := by
  simp only [cancelCompleting, Bool.and_eq_true] at h
  exact h.1.1

theorem complete_owned {runId workerId : Str} {attemptNumber : Nat} {output : Output} {now : Int}
    {r : Row} (h : (complete runId workerId attemptNumber output now).applies r = true) :
    r.ownedBy runId workerId attemptNumber = true := by
  simp only [complete, Bool.and_eq_true] at h
  exact h.1.1.1

theorem failUpdate_owned {runId workerId : Str} {attemptNumber : Nat} {failure : RunFailure}
    {result : Option Str} {now : Int} {r : Row}
    (h : (failUpdate runId workerId attemptNumber failure result now).applies r = true) :
    r.ownedBy runId workerId attemptNumber = true := by
  simp only [failUpdate, Bool.and_eq_true] at h
  exact h.1

/-- An update of one run that does not affect one row changes nothing. -/
theorem idle_of_affected {runs : List Row} (hkeys : Keyed runs) {u : Update Row} {runId : Str}
    (hid : ∀ r, u.applies r = true → r.runId = runId) (h : u.affected runs ≠ 1) :
    u.affected runs = 0 ∧ u.run runs = runs := by
  have hle := Update.affected_le_one hkeys.runId hid
  have hzero : u.affected runs = 0 := by omega
  exact ⟨hzero, Update.run_eq_self (Update.affected_eq_zero.mp hzero)⟩

/-- A completion changes nothing, completes a cancellation or completes the run. -/
theorem complete_cases (runId workerId : Str) (attemptNumber : Nat) (output : Output) (now : Int)
    {store : Store} (hkeys : Keyed store.runs) :
    after (.complete runId workerId attemptNumber output now) store = store ∨
    after (.complete runId workerId attemptNumber output now) store =
      createCallbackOutboxRecords now (some runId)
        ⟨(cancelCompleting runId workerId attemptNumber now).run store.runs, store.deliveries⟩ ∨
    after (.complete runId workerId attemptNumber output now) store =
      createCallbackOutboxRecords now (some runId)
        ⟨(complete runId workerId attemptNumber output now).run store.runs, store.deliveries⟩ := by
  unfold after completeLifecycleRun
  dsimp only
  by_cases hcancel : (cancelCompleting runId workerId attemptNumber now).affected store.runs = 1
  · rw [if_pos hcancel]
    exact .inr (.inl rfl)
  · obtain ⟨-, hsame⟩ := idle_of_affected hkeys
      (fun r happlies => ownedBy_runId (cancelCompleting_owned happlies)) hcancel
    rw [if_neg hcancel, hsame]
    by_cases htaken : resultIdTaken (complete runId workerId attemptNumber output now)
        output.resultId store.runs = true
    · rw [if_pos htaken]
      exact .inl rfl
    rw [if_neg htaken]
    by_cases hone : (complete runId workerId attemptNumber output now).affected store.runs = 1
    · rw [if_pos hone]
      exact .inr (.inr rfl)
    · obtain ⟨-, hidle⟩ := idle_of_affected hkeys
        (fun r happlies => ownedBy_runId (complete_owned happlies)) hone
      rw [if_neg hone, hidle]
      exact .inl rfl

theorem evolved_complete (runId workerId : Str) (attemptNumber : Nat) (output : Output)
    (now : Int) (hpermit : permits.complete) {store : Store} (hkeys : Keyed store.runs) :
    Evolved (RowStep permits) new store.runs
      (after (.complete runId workerId attemptNumber output now) store).runs := by
  rcases complete_cases runId workerId attemptNumber output now hkeys with h | h | h
  · rw [h]
    exact Evolved.refl _ _ _
  · rw [h]
    refine evolved_of_owned (fun r => cancelCompleting_owned) (fun r hid happlies => ?_) _
    subst hid
    exact .cancelCompleting workerId attemptNumber now happlies
  · rw [h]
    refine evolved_of_owned (fun r => complete_owned) (fun r hid happlies => ?_) _
    subst hid
    exact .complete workerId attemptNumber output now hpermit happlies

/-- A failure changes nothing or ends the run. -/
theorem fail_cases (runId workerId : Str) (attemptNumber : Nat) (failure : RunFailure)
    (result : Option Str) (now : Int) {store : Store} (hkeys : Keyed store.runs) :
    (failLifecycleRun runId workerId attemptNumber failure result now store).2 = store ∨
    (failLifecycleRun runId workerId attemptNumber failure result now store).2 =
      createCallbackOutboxRecords now (some runId)
        ⟨(failUpdate runId workerId attemptNumber failure result now).run store.runs,
          store.deliveries⟩ := by
  unfold failLifecycleRun
  dsimp only
  by_cases hone : (failUpdate runId workerId attemptNumber failure result now).affected
      store.runs = 1
  · rw [if_pos hone]
    exact .inr rfl
  · obtain ⟨-, hidle⟩ := idle_of_affected hkeys
      (fun r happlies => ownedBy_runId (failUpdate_owned happlies)) hone
    rw [if_neg hone, hidle]
    exact .inl rfl

theorem evolved_fail (runId workerId : Str) (attemptNumber : Nat) (failure : RunFailure)
    (result : Option Str) (now : Int) {store : Store} (hkeys : Keyed store.runs) :
    Evolved (RowStep permits) new store.runs
      (failLifecycleRun runId workerId attemptNumber failure result now store).2.runs := by
  rcases fail_cases runId workerId attemptNumber failure result now hkeys with h | h
  · rw [h]
    exact Evolved.refl _ _ _
  · rw [h]
    refine evolved_of_owned (fun r => failUpdate_owned) (fun r hid happlies => ?_) _
    subst hid
    exact .fail workerId attemptNumber failure result now happlies

theorem evolved_begin (runId workerId : Str) (attemptNumber : Nat) (now : Int) (store : Store) :
    Evolved (RowStep permits) new store.runs
      (beginLifecyclePublication runId workerId attemptNumber now store).2.runs := by
  unfold beginLifecyclePublication
  dsimp only
  split_ifs
  · exact Evolved.refl _ _ _
  · refine evolved_of_owned (fun r => beginUpdate_owned) (fun r hid happlies => ?_) store.runs
    subst hid
    exact .beginPublication workerId attemptNumber now happlies

end

/-- An operation is permitted. -/
def Operation.within (permits : Permits) : Operation → Prop
  | .claim _ _ maxAttempts _ => permits.limit maxAttempts
  | .prepare .. => permits.prepare
  | .complete .. => permits.complete
  | _ => True

theorem within_all (operation : Operation) : operation.within .all := by
  cases operation <;> trivial

/-- Whether an operation is a creation. -/
def Operation.isCreate : Operation → Bool
  | .create _ _ => true
  | _ => false

section

variable {permits : Permits}

/-- Every operation but a creation only moves rows. -/
theorem after_evolved_of_not_create {new : Row → Prop} {operation : Operation}
    (hcreate : operation.isCreate = false) (hlimit : operation.within permits) {store : Store}
    (hkeys : Keyed store.runs) :
    Evolved (RowStep permits) new store.runs (after operation store).runs := by
  cases operation with
  | create => cases hcreate
  | claim workerId leaseSeconds maxAttempts now =>
      exact evolved_claim workerId leaseSeconds now hlimit hkeys
  | heartbeat runId workerId attemptNumber leaseSeconds now =>
      refine evolved_of_owned (fun r h => h) (fun r hid happlies => ?_) store.runs
      subst hid
      exact .heartbeat workerId attemptNumber (leaseEnd now leaseSeconds) now happlies
  | prepare runId workerId attemptNumber output now =>
      refine evolved_of_owned (fun r => prepare_owned) (fun r hid happlies => ?_) store.runs
      subst hid
      exact .prepare workerId attemptNumber output now hlimit happlies
  | beginPublication runId workerId attemptNumber now =>
      exact evolved_begin runId workerId attemptNumber now store
  | complete runId workerId attemptNumber output now =>
      exact evolved_complete runId workerId attemptNumber output now hlimit hkeys
  | fail runId workerId attemptNumber failure result now =>
      exact evolved_fail runId workerId attemptNumber failure result now hkeys
  | cancel runId now => exact evolved_cancel runId now hkeys
  | callbackDelivered => exact Evolved.refl _ _ _
  | callbackRescheduled => exact Evolved.refl _ _ _
  | callbackConfigurationFailed => exact Evolved.refl _ _ _

/-- **What an operation does to the runs.**  Every row moves by steps, and at most
a queued row is added. -/
theorem after_evolved {operation : Operation} (hlimit : operation.within permits) {store : Store}
    (hkeys : Keyed store.runs) :
    Evolved (RowStep permits) Inserted store.runs (after operation store).runs := by
  cases hcreate : operation.isCreate with
  | false => exact after_evolved_of_not_create hcreate hlimit hkeys
  | true =>
      cases operation with
      | create creation now => exact evolved_create creation now hkeys
      | _ => cases hcreate

/-- The keys stay unique. -/
theorem after_keyed (operation : Operation) {store : Store} (hkeys : Keyed store.runs) :
    Keyed (after operation store).runs := by
  cases hcreate : operation.isCreate with
  | false =>
      exact hkeys.of_evolved (after_evolved_of_not_create hcreate (within_all operation) hkeys)
  | true =>
      cases operation with
      | create creation now =>
          rcases create_cases creation now store with h | ⟨row, hrow, callback, hnone, h⟩ |
            ⟨row, -, hnew, h⟩
          · rw [h]
            exact hkeys
          · rw [h]
            refine @Keyed.of_evolved .all _ _ hkeys ?_
            exact evolved_of_runId hkeys hrow (fun r happlies => eq_of_beq happlies)
              fun _ => .attach callback now hnone
          · rw [h]
            exact hkeys.insert hnew
      | _ => cases hcreate

theorem keyed_empty : Keyed Store.empty.runs := ⟨List.nodup_nil, List.nodup_nil⟩

theorem run_keyed (operations : List Operation) {store : Store} (hkeys : Keyed store.runs) :
    Keyed (run operations store).runs := by
  induction operations generalizing store with
  | nil => exact hkeys
  | cons operation rest ih => exact ih (after_keyed operation hkeys)

/-- **What a run of operations does.** -/
theorem run_evolved {operations : List Operation}
    (hpermits : ∀ operation ∈ operations, operation.within permits) {store : Store}
    (hkeys : Keyed store.runs) :
    Evolved (RowStep permits) Inserted store.runs (run operations store).runs := by
  induction operations generalizing store with
  | nil => exact Evolved.refl _ _ _
  | cons operation rest ih =>
      refine (after_evolved (hpermits operation List.mem_cons_self) hkeys).trans ?_
      exact ih (fun other hother => hpermits other (List.mem_cons_of_mem _ hother))
        (after_keyed operation hkeys)

theorem run_append (before later : List Operation) (store : Store) :
    run (before ++ later) store = run later (run before store) :=
  List.foldl_append

/-- A row of a run, found again later, has moved by steps. -/
theorem run_follows {operations : List Operation}
    (hpermits : ∀ operation ∈ operations, operation.within permits) {store : Store}
    (hkeys : Keyed store.runs) {r r' : Row} (hr : r ∈ store.runs)
    (hr' : r' ∈ (run operations store).runs) (hid : r'.runId = r.runId) :
    ReflTransGen (RowStep permits) r r' :=
  (run_evolved hpermits hkeys).of_key (fun _ _ hstep => hstep.runId_eq)
    (run_keyed operations hkeys).runId hr hr' hid

end

end Lifecycle
