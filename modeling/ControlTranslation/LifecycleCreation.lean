import ControlTranslation.LifecycleInvariant

/-!
# Creating a run twice

One idempotency key is bound to one run.  A creation under a bound key answers
with the bound run when it carries the same digest and a callback the run can
take; otherwise it is a conflict.

`creationBody` is the transaction statement by statement: its answer together
with the tables as it leaves them, before they are committed or rolled back.  A
creation is its body, committed or rolled back, and on a conflict there is
nothing to roll back.
-/

namespace Lifecycle

open PyText Table Relation

/-- What is left of a transaction: a body that raises is rolled back. -/
def settle {ε α σ : Type} : Except ε α × σ → Except ε (α × σ)
  | (.ok answer, tables) => .ok (answer, tables)
  | (.error e, _) => .error e

/-- The three columns of a submitted callback. -/
def CallbackMetadata.columns (callback : CallbackMetadata) :
    Option Str × Option Str × Option Str :=
  (some callback.callbackUrl, some callback.callbackWorkflowId, some callback.callbackSignal)

/-- The body of a repeated creation. -/
def repeatBody (row : Row) (callback : Option CallbackMetadata) (now : Int) (tables : Store) :
    Except StoreError CreatedLifecycleRun × Store :=
  match callback with
  | none => (.ok ⟨row.runId, false⟩, tables)
  | some callback =>
      if row.callback = (none, none, none) then
        let attached : Store :=
          ⟨(attachCallback row.runId callback now).run tables.runs, tables.deliveries⟩
        let announced := createCallbackOutboxRecords now (some row.runId) attached
        -- The row is read again, to answer with its callback.
        match getLifecycleRun row.runId announced with
        | some row => (.ok ⟨row.runId, false⟩, announced)
        | none => (.error (.persistence "Stored lifecycle run failed validation."), announced)
      else if row.callback ≠ callback.columns then
        (.error (.idempotencyConflict
          "Idempotency key is already bound to different callback metadata."), tables)
      else (.ok ⟨row.runId, false⟩, tables)

/-- The body of `create_lifecycle_run`. -/
def creationBody (c : Creation) (now : Int) (tables : Store) :
    Except StoreError CreatedLifecycleRun × Store :=
  match tables.runs.find? fun r => r.idempotencyKey == c.idempotencyKey with
  | some row =>
      if row.requestDigest ≠ c.requestDigest then
        (.error (.idempotencyConflict "Idempotency key is already bound to different input."),
          tables)
      else repeatBody row c.callback now tables
  | none =>
      match insertRun c now tables with
      | .ok (runId, inserted) => (.ok ⟨runId, true⟩, inserted)
      | .error e => (.error e, tables)

section

variable {store : Store} (hkeys : Keyed store.runs) {row : Row} (hrow : row ∈ store.runs)
  (hnone : row.callback = (none, none, none)) (callback : CallbackMetadata) (now : Int)

include hkeys hrow hnone

/-- Attaching a first callback moves its run by one step. -/
theorem evolved_attach :
    Evolved (RowStep .all) (fun _ => False) store.runs
      ((attachCallback row.runId callback now).run store.runs) :=
  evolved_of_runId hkeys hrow (fun _ happlies => eq_of_beq happlies)
    fun _ => .attach callback now hnone

/-- The run is found with its callback. -/
theorem getLifecycleRun_attached :
    getLifecycleRun row.runId (createCallbackOutboxRecords now (some row.runId)
        ⟨(attachCallback row.runId callback now).run store.runs, store.deliveries⟩) =
      some ((attachCallback row.runId callback now).assign row) := by
  have hattached := hkeys.of_evolved (evolved_attach hkeys hrow hnone callback now)
  have hmem : (attachCallback row.runId callback now).assign row ∈
      (createCallbackOutboxRecords now (some row.runId)
        ⟨(attachCallback row.runId callback now).run store.runs, store.deliveries⟩).runs :=
    Update.assign_mem_run hrow (beq_self_eq_true row.runId)
  exact getLifecycleRun_of_mem hattached hmem

end

/-- **A creation is its transaction.** -/
theorem createLifecycleRun_eq_settle (c : Creation) (now : Int) {store : Store}
    (hkeys : Keyed store.runs) :
    createLifecycleRun c now store = settle (creationBody c now store) := by
  unfold createLifecycleRun creationBody
  cases hfind : store.runs.find? fun r => r.idempotencyKey == c.idempotencyKey with
  | none =>
      cases hinsert : insertRun c now store with
      | error e => rfl
      | ok inserted => rfl
  | some row =>
      by_cases hdigest : row.requestDigest ≠ c.requestDigest
      · simp only [if_pos hdigest, settle]
      simp only [if_neg hdigest, repeatCallback, repeatBody]
      cases c.callback with
      | none => rfl
      | some callback =>
          by_cases hnone : row.callback = (none, none, none)
          · have hread := getLifecycleRun_attached hkeys (List.mem_of_find?_eq_some hfind)
              hnone callback now
            simp only [if_pos hnone, hread]
            rfl
          · simp only [if_neg hnone]
            by_cases hsame : row.callback = callback.columns
            · rw [if_neg (not_not.mpr hsame), if_pos (by exact hsame)]
              rfl
            · rw [if_pos hsame, if_neg (by exact hsame)]
              rfl

/-- The callbacks a run can take: none, its own, or its first. -/
def Row.admits (r : Row) : Option CallbackMetadata → Prop
  | none => True
  | some callback => r.callback = (none, none, none) ∨ r.callback = callback.columns

section

variable {store : Store} (hkeys : Keyed store.runs) {row : Row} (hrow : row ∈ store.runs)
  {c : Creation} (hkey : c.idempotencyKey = row.idempotencyKey) (now : Int)

include hkeys hrow hkey

/-- The key of a creation finds the one run it is bound to. -/
theorem find_bound :
    (store.runs.find? fun r => r.idempotencyKey == c.idempotencyKey) = some row := by
  cases hfind : store.runs.find? fun r => r.idempotencyKey == c.idempotencyKey with
  | none => exact absurd (beq_iff_eq.mpr hkey.symm) (List.find?_eq_none.mp hfind row hrow)
  | some found =>
      have hfound := List.find?_some hfind
      rw [eq_of_key hkeys.idempotencyKey (List.mem_of_find?_eq_some hfind) hrow
        ((eq_of_beq hfound).trans hkey)]

/-- A creation the bound run can take answers with it, and its callback is the
run's from then on. -/
theorem create_repeated (hdigest : c.requestDigest = row.requestDigest)
    (hadmits : row.admits c.callback) :
    ∃ store', createLifecycleRun c now store = .ok (⟨row.runId, false⟩, store') ∧
      store'.runs.map (·.runId) = store.runs.map (·.runId) ∧
      ∀ callback ∈ c.callback, ∃ row' ∈ store'.runs,
        row'.runId = row.runId ∧ row'.callback = callback.columns := by
  unfold createLifecycleRun
  rw [find_bound hkeys hrow hkey]
  simp only [hdigest, ne_eq, not_true_eq_false, if_false, repeatCallback]
  cases hcallback : c.callback with
  | none => exact ⟨store, rfl, rfl, fun callback h => absurd h (by simp)⟩
  | some callback =>
      rw [hcallback] at hadmits
      by_cases hnone : row.callback = (none, none, none)
      · simp only [if_pos hnone]
        refine ⟨_, rfl, ?_, fun other hother => ?_⟩
        · exact (evolved_attach hkeys hrow hnone callback now).map_key
            fun _ _ hstep => hstep.runId_eq
        · obtain rfl := Option.some.inj hother
          exact ⟨_, Update.assign_mem_run hrow (beq_self_eq_true row.runId), rfl, rfl⟩
      · have hown : row.callback = callback.columns := hadmits.resolve_left hnone
        simp only [if_neg hnone]
        refine ⟨store, if_pos hown ▸ rfl, rfl, fun other hother => ?_⟩
        obtain rfl := Option.some.inj hother
        exact ⟨row, hrow, rfl, hown⟩

/-- Any other creation under the key is a conflict, and its transaction has
written nothing. -/
theorem create_conflict
    (h : c.requestDigest ≠ row.requestDigest ∨ ¬row.admits c.callback) :
    ∃ message, creationBody c now store = (.error (.idempotencyConflict message), store) := by
  unfold creationBody
  rw [find_bound hkeys hrow hkey]
  by_cases hdigest : row.requestDigest = c.requestDigest
  · have hadmits := h.resolve_left fun hne => hne hdigest.symm
    simp only [hdigest, ne_eq, not_true_eq_false, if_false, repeatBody]
    cases hcallback : c.callback with
    | none =>
        rw [hcallback] at hadmits
        exact absurd trivial hadmits
    | some callback =>
        rw [hcallback] at hadmits
        obtain ⟨hsome, hother⟩ := not_or.mp hadmits
        simp only [if_neg hsome, if_pos hother]
        exact ⟨_, rfl⟩
  · simp only [ne_eq, hdigest, not_false_eq_true, if_true]
    exact ⟨_, rfl⟩

end

/-- An attached callback is never replaced. -/
theorem callback_of_steps {permits : Permits} {r r' : Row}
    (h : ReflTransGen (RowStep permits) r r') (hset : r.callback ≠ (none, none, none)) :
    r'.callback = r.callback := by
  induction h with
  | refl => rfl
  | tail _ hlast ih =>
      cases hlast with
      | attach callback now hnone => exact absurd (ih.symm.trans hnone) hset
      | _ => exact ih

/-- A run keeps its identifier, key and digest, and the callback it has. -/
theorem bound_run_kept (before later : List Operation) {row : Row}
    (hrow : row ∈ (run before Store.empty).runs) :
    ∃ row' ∈ (run (before ++ later) Store.empty).runs, row'.runId = row.runId ∧
      row'.idempotencyKey = row.idempotencyKey ∧ row'.requestDigest = row.requestDigest ∧
      (row.callback ≠ (none, none, none) → row'.callback = row.callback) := by
  obtain ⟨row', hrow', hsteps⟩ :=
    (run_evolved (fun operation _ => within_all operation)
      (run_keyed before keyed_empty)).forth hrow
  rw [run_append]
  refine ⟨row', hrow', ?_, ?_, ?_, callback_of_steps hsteps⟩
  · exact key_of_steps (fun _ _ hstep => hstep.runId_eq) hsteps
  · exact key_of_steps (fun _ _ hstep => hstep.idempotencyKey_eq) hsteps
  · exact key_of_steps (fun _ _ hstep => hstep.requestDigest_eq) hsteps

/-- **Creation is idempotent and atomic.**  After any calls of the store a key is
bound to at most one run.  A creation under a bound key with the bound digest and
a callback that is absent, the run's own or its first answers with the bound run
and creates none; any other raises a conflict with every table as it was, before
any rollback.  Whatever is called later, the run keeps its identifier, key and
digest, and the callback it has. -/
theorem creation_idempotent (before : List Operation) :
    ((run before Store.empty).runs.map (·.idempotencyKey)).Nodup ∧
    ∀ row ∈ (run before Store.empty).runs,
      (∀ (c : Creation) (now : Int), c.idempotencyKey = row.idempotencyKey →
        (c.requestDigest = row.requestDigest → row.admits c.callback →
          ∃ store', createLifecycleRun c now (run before Store.empty) =
              .ok (⟨row.runId, false⟩, store') ∧
            store'.runs.map (·.runId) = (run before Store.empty).runs.map (·.runId) ∧
            ∀ callback ∈ c.callback, ∃ row' ∈ store'.runs,
              row'.runId = row.runId ∧ row'.callback = callback.columns) ∧
        (c.requestDigest ≠ row.requestDigest ∨ ¬row.admits c.callback →
          ∃ message,
            createLifecycleRun c now (run before Store.empty) =
              .error (.idempotencyConflict message) ∧
            creationBody c now (run before Store.empty) =
              (.error (.idempotencyConflict message), run before Store.empty) ∧
            after (.create c now) (run before Store.empty) = run before Store.empty)) ∧
      ∀ later : List Operation, ∃ row' ∈ (run (before ++ later) Store.empty).runs,
        row'.runId = row.runId ∧ row'.idempotencyKey = row.idempotencyKey ∧
        row'.requestDigest = row.requestDigest ∧
        (row.callback ≠ (none, none, none) → row'.callback = row.callback) := by
  have hkeys := run_keyed before keyed_empty
  refine ⟨hkeys.idempotencyKey, fun row hrow => ⟨fun c now hkey => ⟨?_, fun h => ?_⟩, ?_⟩⟩
  · exact create_repeated hkeys hrow hkey now
  · obtain ⟨message, hbody⟩ := create_conflict hkeys hrow hkey now h
    have hcreate : createLifecycleRun c now (run before Store.empty) =
        .error (.idempotencyConflict message) := by
      rw [createLifecycleRun_eq_settle c now hkeys, hbody]
      rfl
    refine ⟨message, hcreate, hbody, ?_⟩
    simp only [after, hcreate]
  · exact fun later => bound_run_kept before later hrow

/-- A callback submitted after its run was canceled, and another one after that. -/
theorem creation_idempotent_canceled :
    ∃ message, createLifecycleRun { plainCreation with callback := some ⟨['o'], ['f'], ['s']⟩ } 3
      (run [.create plainCreation 0, .cancel ['r'] 1,
        .create { plainCreation with callback := some ⟨['h'], ['f'], ['s']⟩ } 2] Store.empty) =
      .error (.idempotencyConflict message) := by
  obtain ⟨row, hrow, hkey, hcallback⟩ : ∃ row ∈ (run [.create plainCreation 0, .cancel ['r'] 1,
      .create { plainCreation with callback := some ⟨['h'], ['f'], ['s']⟩ } 2]
        Store.empty).runs, row.idempotencyKey = ['k'] ∧
      row.callback = (some ['h'], some ['f'], some ['s']) :=
    ⟨_, List.mem_cons_self, rfl, rfl⟩
  obtain ⟨message, hconflict, -⟩ := (((creation_idempotent _).2 row hrow).1
    { plainCreation with callback := some ⟨['o'], ['f'], ['s']⟩ } 3 hkey.symm).2
    (.inr (by simp [Row.admits, hcallback, CallbackMetadata.columns]))
  exact ⟨message, hconflict⟩

end Lifecycle
