import ControlTranslation.LifecycleInvariant

/-!
# The outbox of terminal callbacks

A delivery records the one terminal event of a run with a callback.  Every
operation that ends a run or attaches a callback creates the records of the runs
it touches before it commits, and an existing record is kept.  A row whose
record is due never changes again, so the records stay right: `OutboxInv` holds of
every reachable store.
-/

namespace Lifecycle

open PyText Table Relation

/-- A finished run with all three callback columns. -/
def Row.due (r : Row) : Bool :=
  r.status.isTerminal && r.callbackUrl.isSome && r.callbackWorkflowId.isSome &&
    r.callbackSignal.isSome

/-- What a delivery says of its run. -/
structure Records (d : Delivery) (r : Row) : Prop where
  runId : d.runId = r.runId
  terminal : r.status.isTerminal = true
  status : d.terminalStatus = r.status
  callbackUrl : r.callbackUrl = some d.callbackUrl
  callbackWorkflowId : r.callbackWorkflowId = some d.callbackWorkflowId
  callbackSignal : r.callbackSignal = some d.callbackSignal
  requestId : d.requestId = r.requestId
  correlationId : d.correlationId = r.correlationId

theorem Records.due {d : Delivery} {r : Row} (h : Records d r) : r.due = true := by
  simp [Row.due, h.terminal, h.callbackUrl, h.callbackWorkflowId, h.callbackSignal]

/-- The record that is created records its run. -/
theorem outboxRecord_records {now : Int} {r : Row} {d : Delivery}
    (h : outboxRecord now r = some d) : Records d r ∧ d.eventId = eventId d.runId := by
  unfold outboxRecord at h
  split_ifs at h with hterminal
  split at h
  · rename_i hurl hworkflow hsignal
    obtain rfl := Option.some.inj h
    exact ⟨⟨rfl, hterminal, rfl, hurl, hworkflow, hsignal, rfl, rfl⟩, rfl⟩
  · cases h

/-- A due row has a record. -/
theorem outboxRecord_of_due {r : Row} (h : r.due = true) (now : Int) :
    ∃ d, outboxRecord now r = some d := by
  simp only [Row.due, Bool.and_eq_true] at h
  obtain ⟨⟨⟨hterminal, hurl⟩, hworkflow⟩, hsignal⟩ := h
  obtain ⟨url, hurl⟩ := Option.isSome_iff_exists.mp hurl
  obtain ⟨workflow, hworkflow⟩ := Option.isSome_iff_exists.mp hworkflow
  obtain ⟨signal, hsignal⟩ := Option.isSome_iff_exists.mp hsignal
  unfold outboxRecord
  rw [if_pos hterminal, hurl, hworkflow, hsignal]
  exact ⟨_, rfl⟩

/-- A due row takes no step. -/
theorem not_step_of_due {permits : Permits} {r r' : Row} (h : r.due = true) :
    ¬RowStep permits r r' := by
  intro hstep
  simp only [Row.due, Bool.and_eq_true] at h
  obtain ⟨callback, now, hnone, -⟩ := attach_of_terminal hstep h.1.1.1
  simp only [Row.callback, Prod.mk.injEq] at hnone
  rw [hnone.1] at h
  cases h.1.1.2

theorem eq_of_due {permits : Permits} {r r' : Row} (h : r.due = true)
    (hsteps : ReflTransGen (RowStep permits) r r') : r' = r := by
  rcases hsteps.cases_head with heq | ⟨_, hstep, -⟩
  · exact heq.symm
  · exact absurd hstep (not_step_of_due h)

theorem eventId_injective {runId other : Str} (h : eventId runId = eventId other) :
    runId = other := by
  unfold eventId at h
  exact List.append_cancel_left (List.append_cancel_right h)

/-- Deliveries are one for each run, under the key of its event. -/
structure Unique (deliveries : List Delivery) : Prop where
  runId : (deliveries.map (·.runId)).Nodup
  eventId : ∀ d ∈ deliveries, d.eventId = eventId d.runId

/-- What insertion adds. -/
structure Inserts (deliveries new later : List Delivery) : Prop where
  unique : Unique later
  kept : ∀ d ∈ deliveries, d ∈ later
  from_new : ∀ d ∈ later, d ∈ deliveries ∨ d ∈ new
  covers : ∀ d ∈ new, ∃ d' ∈ later, d'.runId = d.runId

/-- Inserting an event adds it once or leaves the table. -/
theorem insertOrIgnore_inserts {deliveries : List Delivery} (h : Unique deliveries) {d : Delivery}
    (hd : d.eventId = eventId d.runId) :
    Inserts deliveries [d] (insertOrIgnore deliveries d) := by
  unfold insertOrIgnore
  split_ifs with hany
  · refine ⟨h, fun _ hd' => hd', fun _ hd' => .inl hd', fun d' hd' => ?_⟩
    obtain rfl := List.mem_singleton.mp hd'
    obtain ⟨other, hother, hsame⟩ := List.any_eq_true.mp hany
    simp only [Bool.or_eq_true, beq_iff_eq] at hsame
    refine ⟨other, hother, ?_⟩
    rcases hsame with hevent | hid
    · rw [h.eventId other hother, hd] at hevent
      exact eventId_injective hevent
    · exact hid
  · have hfresh : ∀ other ∈ deliveries, other.runId ≠ d.runId := by
      intro other hother hid
      refine hany (List.any_eq_true.mpr ⟨other, hother, ?_⟩)
      simp [hid]
    refine ⟨⟨?_, fun d' hd' => ?_⟩, fun d' hd' => List.mem_append_left _ hd',
      fun d' hd' => List.mem_append.mp hd', fun d' hd' => ⟨d', List.mem_append_right _ hd', rfl⟩⟩
    · rw [List.map_append, List.map_singleton, List.nodup_append]
      refine ⟨h.runId, List.nodup_singleton _, fun a ha b hb => ?_⟩
      obtain ⟨other, hother, rfl⟩ := List.mem_map.mp ha
      rw [List.mem_singleton.mp hb]
      exact hfresh other hother
    · rcases List.mem_append.mp hd' with hd' | hd'
      · exact h.eventId d' hd'
      · rw [List.mem_singleton.mp hd']
        exact hd

/-- Inserting records one after the other. -/
theorem foldl_insertOrIgnore {new : List Delivery} (hnew : ∀ d ∈ new, d.eventId = eventId d.runId)
    {deliveries : List Delivery} (h : Unique deliveries) :
    Inserts deliveries new (new.foldl insertOrIgnore deliveries) := by
  induction new generalizing deliveries with
  | nil =>
      exact ⟨h, fun _ hd => hd, fun _ hd => .inl hd, fun _ hd => absurd hd List.not_mem_nil⟩
  | cons d rest ih =>
      have hone := insertOrIgnore_inserts h (hnew d List.mem_cons_self)
      have hrest := ih (fun d' hd' => hnew d' (List.mem_cons_of_mem _ hd')) hone.unique
      refine ⟨hrest.unique, fun d' hd' => hrest.kept d' (hone.kept d' hd'), fun d' hd' => ?_,
        fun d' hd' => ?_⟩
      · rcases hrest.from_new d' hd' with hd' | hd'
        · rcases hone.from_new d' hd' with hd' | hd'
          · exact .inl hd'
          · exact .inr (List.mem_singleton.mp hd' ▸ List.mem_cons_self)
        · exact .inr (List.mem_cons_of_mem _ hd')
      · rcases List.mem_cons.mp hd' with rfl | hd'
        · obtain ⟨d₁, hd₁, hid⟩ := hone.covers d' List.mem_cons_self
          exact ⟨d₁, hrest.kept d₁ hd₁, hid⟩
        · exact hrest.covers d' hd'

/-- The deliveries are the records of the due rows, one for each. -/
structure OutboxInv (store : Store) : Prop where
  unique : Unique store.deliveries
  sound : ∀ d ∈ store.deliveries, ∃ r ∈ store.runs, Records d r
  complete : ∀ r ∈ store.runs, r.due = true → ∃ d ∈ store.deliveries, d.runId = r.runId

theorem outboxInv_empty : OutboxInv Store.empty :=
  ⟨⟨List.nodup_nil, fun _ hd => absurd hd List.not_mem_nil⟩,
    fun _ hd => absurd hd List.not_mem_nil, fun _ hr => absurd hr List.not_mem_nil⟩

section

variable {permits : Permits} {store : Store} {runs : List Row}

/-- Due rows stay, so deliveries stay right. -/
theorem OutboxInv.sound_of_evolved (h : OutboxInv store)
    (hmoved : Evolved (RowStep permits) Inserted store.runs runs) :
    ∀ d ∈ store.deliveries, ∃ r ∈ runs, Records d r := by
  intro d hd
  obtain ⟨r, hr, hrecords⟩ := h.sound d hd
  obtain ⟨r', hr', hsteps⟩ := hmoved.forth hr
  rw [eq_of_due hrecords.due hsteps] at hr'
  exact ⟨r, hr', hrecords⟩

/-- A statement that makes no row due needs no record. -/
theorem OutboxInv.quiet (h : OutboxInv store)
    (hmoved : Evolved (RowStep permits) Inserted store.runs runs)
    (hdue : ∀ r ∈ runs, r.due = true → r ∈ store.runs) : OutboxInv ⟨runs, store.deliveries⟩ :=
  ⟨h.unique, h.sound_of_evolved hmoved, fun r hr hrdue => h.complete r (hdue r hr hrdue) hrdue⟩

/-- A statement followed by the creation of the records of every row it makes
due. -/
theorem OutboxInv.emit (h : OutboxInv store)
    (hmoved : Evolved (RowStep permits) Inserted store.runs runs) {now : Int} {runId : Option Str}
    (hdue : ∀ r ∈ runs, r.due = true → r ∈ store.runs ∨ runId.all (· == r.runId) = true) :
    OutboxInv (createCallbackOutboxRecords now runId ⟨runs, store.deliveries⟩) := by
  have hrecord : ∀ d ∈ (runs.filter fun r => runId.all (· == r.runId)).filterMap
      (outboxRecord now), ∃ r ∈ runs, outboxRecord now r = some d := by
    intro d hd
    obtain ⟨r, hr, heq⟩ := List.mem_filterMap.mp hd
    exact ⟨r, (List.mem_filter.mp hr).1, heq⟩
  have hinserts := foldl_insertOrIgnore (fun d hd => by
    obtain ⟨r, -, heq⟩ := hrecord d hd
    exact (outboxRecord_records heq).2) h.unique
  refine ⟨hinserts.unique, fun d hd => ?_, fun r hr hrdue => ?_⟩
  · rcases hinserts.from_new d hd with hd | hd
    · exact h.sound_of_evolved hmoved d hd
    · obtain ⟨r, hr, heq⟩ := hrecord d hd
      exact ⟨r, hr, (outboxRecord_records heq).1⟩
  · rcases hdue r hr hrdue with hold | hselected
    · obtain ⟨d, hd, hid⟩ := h.complete r hold hrdue
      exact ⟨d, hinserts.kept d hd, hid⟩
    · obtain ⟨d, heq⟩ := outboxRecord_of_due hrdue now
      obtain ⟨d', hd', hid⟩ := hinserts.covers d
        (List.mem_filterMap.mpr ⟨r, List.mem_filter.mpr ⟨hr, hselected⟩, heq⟩)
      exact ⟨d', hd', hid.trans (outboxRecord_records heq).1.runId⟩

end

theorem due_of_running {r : Row} (h : r.status = .running) : r.due = false := by
  simp [Row.due, h, Status.isTerminal]

/-- An update that leaves its rows running makes none due. -/
theorem due_of_running_update {u : Update Row} {runs : List Row}
    (hrunning : ∀ r, u.applies r = true → (u.assign r).status = .running) :
    ∀ r ∈ u.run runs, r.due = true → r ∈ runs := by
  intro r hr hdue
  obtain ⟨r₀, hr₀, rfl⟩ := List.mem_map.mp hr
  unfold Update.on at hdue ⊢
  split_ifs at hdue ⊢ with happlies
  · rw [due_of_running (hrunning r₀ happlies)] at hdue
    cases hdue
  · exact hr₀

/-- An update of one run makes only that run due. -/
theorem due_of_runId_update {u : Update Row} {runs : List Row} {runId : Str}
    (hassign : ∀ r, (u.assign r).runId = r.runId)
    (hid : ∀ r, u.applies r = true → r.runId = runId) :
    ∀ r ∈ u.run runs, r.due = true → r ∈ runs ∨ (some runId).all (· == r.runId) = true := by
  intro r hr _
  obtain ⟨r₀, hr₀, rfl⟩ := List.mem_map.mp hr
  unfold Update.on
  split_ifs with happlies
  · exact .inr (by simp [hassign, hid r₀ happlies])
  · exact .inl hr₀

section

variable {store : Store}

/-- A worker's update of a run it keeps running. -/
theorem OutboxInv.of_running_update (h : OutboxInv store) {u : Update Row}
    (hmoved : Evolved (RowStep .all) Inserted store.runs (u.run store.runs))
    (hrunning : ∀ r, u.applies r = true → (u.assign r).status = .running) :
    OutboxInv ⟨u.run store.runs, store.deliveries⟩ :=
  h.quiet hmoved (due_of_running_update hrunning)

/-- An update of one run, followed by the creation of its record. -/
theorem OutboxInv.of_runId_update (h : OutboxInv store) {u : Update Row} {runId : Str} {now : Int}
    (hmoved : Evolved (RowStep .all) Inserted store.runs (u.run store.runs))
    (hassign : ∀ r, (u.assign r).runId = r.runId)
    (hid : ∀ r, u.applies r = true → r.runId = runId) :
    OutboxInv (createCallbackOutboxRecords now (some runId) ⟨u.run store.runs, store.deliveries⟩) :=
  h.emit hmoved (due_of_runId_update hassign hid)

theorem outboxInv_create (creation : Creation) (now : Int) (hkeys : Keyed store.runs)
    (h : OutboxInv store) : OutboxInv (after (.create creation now) store) := by
  rcases create_cases creation now store with heq | ⟨row, hrow, callback, hnone, heq⟩ |
    ⟨row, hnew, -, heq⟩
  · rw [heq]
    exact h
  · rw [heq]
    refine h.of_runId_update ?_ (fun _ => rfl) fun r happlies => eq_of_beq happlies
    exact evolved_of_runId hkeys hrow (fun r happlies => eq_of_beq happlies)
      fun _ => .attach callback now hnone
  · rw [heq]
    refine h.quiet (@Evolved.of_insert _ (RowStep .all) _ _ _ hnew) fun r hr hdue => ?_
    rcases List.mem_append.mp hr with hr | hr
    · exact hr
    · obtain ⟨_, _, _, _, _, _, _, _, rfl⟩ := hnew
      rw [List.mem_singleton.mp hr] at hdue
      cases hdue

theorem outboxInv_claim (workerId : Str) (leaseSeconds : Int) (maxAttempts : Nat) (now : Int)
    (hkeys : Keyed store.runs) (h : OutboxInv store) :
    OutboxInv (claimLifecycleRun workerId leaseSeconds maxAttempts now store).2 := by
  have hswept : OutboxInv (sweptStore now maxAttempts store) :=
    h.emit (@evolved_sweep .all Inserted now maxAttempts store.runs)
      fun _ _ _ => .inr rfl
  have hkeys' : Keyed (sweptStore now maxAttempts store).runs := keyed_sweep now maxAttempts hkeys
  rcases claim_spec workerId leaseSeconds maxAttempts now hkeys with ⟨-, heq⟩ |
    ⟨row, hrow, hclaim, heq⟩
  · rw [heq]
    exact hswept
  · rw [heq]
    refine hswept.of_running_update ?_ fun _ _ => rfl
    refine evolved_of_runId hkeys' hrow (fun r happlies => ?_) fun _ => ?_
    · simp only [claimRow, Bool.and_eq_true, beq_iff_eq] at happlies
      exact happlies.1.1
    · exact .claim workerId (leaseEnd now leaseSeconds) now maxAttempts trivial hclaim

theorem outboxInv_complete (runId workerId : Str) (attemptNumber : Nat) (output : Output)
    (now : Int) (hkeys : Keyed store.runs) (h : OutboxInv store) :
    OutboxInv (after (.complete runId workerId attemptNumber output now) store) := by
  have hmoved := @evolved_complete .all Inserted runId workerId attemptNumber output now
    trivial store hkeys
  rcases complete_cases runId workerId attemptNumber output now hkeys with heq | heq | heq
  · rw [heq]
    exact h
  · rw [heq] at hmoved ⊢
    exact h.of_runId_update hmoved (fun _ => rfl) fun r happlies =>
      ownedBy_runId (cancelCompleting_owned happlies)
  · rw [heq] at hmoved ⊢
    exact h.of_runId_update hmoved (fun _ => rfl) fun r happlies =>
      ownedBy_runId (complete_owned happlies)

theorem outboxInv_fail (runId workerId : Str) (attemptNumber : Nat) (failure : RunFailure)
    (result : Option Str) (now : Int) (hkeys : Keyed store.runs) (h : OutboxInv store) :
    OutboxInv (failLifecycleRun runId workerId attemptNumber failure result now store).2 := by
  have hmoved := @evolved_fail .all Inserted runId workerId attemptNumber failure result
    now store hkeys
  rcases fail_cases runId workerId attemptNumber failure result now hkeys with heq | heq
  · rw [heq]
    exact h
  · rw [heq] at hmoved ⊢
    exact h.of_runId_update hmoved (fun _ => rfl) fun r happlies =>
      ownedBy_runId (failUpdate_owned happlies)

theorem outboxInv_cancel (runId : Str) (now : Int) (hkeys : Keyed store.runs)
    (h : OutboxInv store) : OutboxInv (cancelLifecycleRun runId now store).2 := by
  unfold cancelLifecycleRun
  cases hfind : getLifecycleRun runId store with
  | none => exact h
  | some row =>
      obtain ⟨hrow, rfl⟩ := getLifecycleRun_eq_some hfind
      refine h.emit (@evolved_cancelUpdate .all Inserted _ hkeys _ hrow now) ?_
      unfold cancelUpdate
      split_ifs
      · exact due_of_runId_update (fun _ => rfl) fun r happlies => eq_of_beq happlies
      · exact due_of_runId_update (fun _ => rfl) fun r happlies => eq_of_beq happlies
      · refine due_of_runId_update (fun _ => rfl) fun r happlies => ?_
        simp only [cancelPending, Bool.and_eq_true, beq_iff_eq] at happlies
        exact happlies.1.1
      · exact fun r hr _ => .inl hr

/-- A change of the delivery columns. -/
theorem OutboxInv.of_delivery_update (h : OutboxInv store) {u : Update Delivery}
    (hassign : ∀ d, (u.assign d).eventId = d.eventId ∧ (u.assign d).runId = d.runId)
    (hrecords : ∀ d r, Records d r → Records (u.assign d) r) :
    OutboxInv ⟨store.runs, u.run store.deliveries⟩ := by
  have hon : ∀ d, (u.on d).eventId = d.eventId ∧ (u.on d).runId = d.runId := by
    intro d
    unfold Update.on
    split_ifs
    · exact hassign d
    · exact ⟨rfl, rfl⟩
  refine ⟨⟨?_, fun d hd => ?_⟩, fun d hd => ?_, fun r hr hdue => ?_⟩
  · have hids : (u.run store.deliveries).map (·.runId) = store.deliveries.map (·.runId) := by
      unfold Update.run
      rw [List.map_map]
      exact List.map_congr_left fun d _ => (hon d).2
    rw [hids]
    exact h.unique.runId
  · obtain ⟨d₀, hd₀, rfl⟩ := List.mem_map.mp hd
    rw [(hon d₀).1, (hon d₀).2]
    exact h.unique.eventId d₀ hd₀
  · obtain ⟨d₀, hd₀, rfl⟩ := List.mem_map.mp hd
    obtain ⟨r, hr, hd₀r⟩ := h.sound d₀ hd₀
    refine ⟨r, hr, ?_⟩
    unfold Update.on
    split_ifs
    · exact hrecords d₀ r hd₀r
    · exact hd₀r
  · obtain ⟨d, hd, hid⟩ := h.complete r hr hdue
    exact ⟨u.on d, List.mem_map_of_mem hd, (hon d).2.trans hid⟩

/-- Every operation keeps the outbox. -/
theorem after_outboxInv (operation : Operation) (hkeys : Keyed store.runs) (h : OutboxInv store) :
    OutboxInv (after operation store) := by
  have hmoved := @after_evolved .all operation (within_all operation) store hkeys
  cases operation with
  | create creation now => exact outboxInv_create creation now hkeys h
  | claim workerId leaseSeconds maxAttempts now =>
      exact outboxInv_claim workerId leaseSeconds maxAttempts now hkeys h
  | heartbeat runId workerId attemptNumber leaseSeconds now =>
      exact h.of_running_update hmoved fun r happlies => (ownedBy_iff.mp happlies).2.1
  | prepare runId workerId attemptNumber output now =>
      exact h.of_running_update hmoved fun r happlies =>
        (ownedBy_iff.mp (prepare_owned happlies)).2.1
  | beginPublication runId workerId attemptNumber now =>
      revert hmoved
      dsimp only [after, beginLifecyclePublication]
      split_ifs
      · exact fun _ => h
      · exact fun hmoved => h.of_running_update hmoved fun r happlies =>
          (ownedBy_iff.mp (beginUpdate_owned happlies)).2.1
  | complete runId workerId attemptNumber output now =>
      exact outboxInv_complete runId workerId attemptNumber output now hkeys h
  | fail runId workerId attemptNumber failure result now =>
      exact outboxInv_fail runId workerId attemptNumber failure result now hkeys h
  | cancel runId now => exact outboxInv_cancel runId now hkeys h
  | callbackDelivered event deliveredAt statusCode =>
      exact h.of_delivery_update (fun _ => ⟨rfl, rfl⟩) fun _ _ hd =>
        ⟨hd.runId, hd.terminal, hd.status, hd.callbackUrl, hd.callbackWorkflowId,
          hd.callbackSignal, hd.requestId, hd.correlationId⟩
  | callbackRescheduled event attempts nextAttemptAt statusCode errorCategory now =>
      exact h.of_delivery_update (fun _ => ⟨rfl, rfl⟩) fun _ _ hd =>
        ⟨hd.runId, hd.terminal, hd.status, hd.callbackUrl, hd.callbackWorkflowId,
          hd.callbackSignal, hd.requestId, hd.correlationId⟩
  | callbackConfigurationFailed event attempts failedAt statusCode errorCategory =>
      exact h.of_delivery_update (fun _ => ⟨rfl, rfl⟩) fun _ _ hd =>
        ⟨hd.runId, hd.terminal, hd.status, hd.callbackUrl, hd.callbackWorkflowId,
          hd.callbackSignal, hd.requestId, hd.correlationId⟩

end

/-- Every run of operations keeps the invariant. -/
theorem run_outboxInv (operations : List Operation) {store : Store} (hkeys : Keyed store.runs)
    (h : OutboxInv store) : OutboxInv (run operations store) := by
  induction operations generalizing store with
  | nil => exact h
  | cons operation rest ih =>
      exact ih (after_keyed operation hkeys) (after_outboxInv operation hkeys h)

/-- Only an open delivery changes, and it keeps its event. -/
structure DeliveryStep (d d' : Delivery) : Prop where
  wasOpen : d.isOpen = true
  eventId : d'.eventId = d.eventId

/-- The creation of records only adds deliveries. -/
theorem evolved_created (now : Int) (runId : Option Str) (runs : List Row)
    (deliveries : List Delivery) :
    Evolved DeliveryStep (fun _ => True) deliveries
      (createCallbackOutboxRecords now runId ⟨runs, deliveries⟩).deliveries := by
  have hfold : ∀ (new deliveries : List Delivery), Evolved DeliveryStep (fun _ => True) deliveries
      (new.foldl insertOrIgnore deliveries) := by
    intro new
    induction new with
    | nil => exact fun deliveries => Evolved.refl _ _ _
    | cons d rest ih =>
        intro deliveries
        refine Evolved.trans ?_ (ih (insertOrIgnore deliveries d))
        unfold insertOrIgnore
        split_ifs
        · exact Evolved.refl _ _ _
        · exact .of_insert trivial
  exact hfold _ _

/-- What an operation does to the deliveries. -/
theorem after_deliveries (operation : Operation) {store : Store} (hkeys : Keyed store.runs) :
    Evolved DeliveryStep (fun _ => True) store.deliveries (after operation store).deliveries := by
  have hsame := Evolved.refl DeliveryStep (fun _ => True) store.deliveries
  have hupdate : ∀ (u : Update Delivery), (∀ d, u.applies d = true → d.isOpen = true) →
      (∀ d, (u.assign d).eventId = d.eventId) →
      Evolved DeliveryStep (fun _ => True) store.deliveries (u.run store.deliveries) :=
    fun u hopen hevent => .of_update fun d _ happlies => ⟨hopen d happlies, hevent d⟩
  cases operation with
  | create creation now =>
      rcases create_cases creation now store with h | ⟨row, -, callback, -, h⟩ | ⟨row, -, -, h⟩
      · rwa [h]
      · rw [h]
        exact evolved_created now (some row.runId) _ _
      · rwa [h]
  | claim workerId leaseSeconds maxAttempts now =>
      have hswept : Evolved DeliveryStep (fun _ => True) store.deliveries
          (sweptStore now maxAttempts store).deliveries :=
        evolved_created now none _ _
      dsimp only [after]
      rcases claim_spec workerId leaseSeconds maxAttempts now hkeys with ⟨-, h⟩ | ⟨row, -, -, h⟩
      · rwa [h]
      · rwa [h]
  | heartbeat => exact hsame
  | prepare => exact hsame
  | beginPublication runId workerId attemptNumber now =>
      dsimp only [after, beginLifecyclePublication]
      split_ifs
      · exact hsame
      · exact hsame
  | complete runId workerId attemptNumber output now =>
      rcases complete_cases runId workerId attemptNumber output now hkeys with h | h | h
      · rwa [h]
      · rw [h]
        exact evolved_created now (some runId) _ _
      · rw [h]
        exact evolved_created now (some runId) _ _
  | fail runId workerId attemptNumber failure result now =>
      dsimp only [after]
      rcases fail_cases runId workerId attemptNumber failure result now hkeys with h | h
      · rwa [h]
      · rw [h]
        exact evolved_created now (some runId) _ _
  | cancel runId now =>
      dsimp only [after, cancelLifecycleRun]
      cases getLifecycleRun runId store with
      | none => exact hsame
      | some row => exact evolved_created now (some runId) _ _
  | callbackDelivered event deliveredAt statusCode =>
      refine hupdate _ (fun d happlies => ?_) fun _ => rfl
      exact (Bool.and_eq_true _ _ ▸ happlies).2
  | callbackRescheduled event attempts nextAttemptAt statusCode errorCategory now =>
      refine hupdate _ (fun d happlies => ?_) fun _ => rfl
      exact (Bool.and_eq_true _ _ ▸ happlies).2
  | callbackConfigurationFailed event attempts failedAt statusCode errorCategory =>
      refine hupdate _ (fun d happlies => ?_) fun _ => rfl
      exact (Bool.and_eq_true _ _ ▸ happlies).2

/-- In every run of operations a delivery only goes forward. -/
theorem run_deliveries (operations : List Operation) {store : Store} (hkeys : Keyed store.runs) :
    Evolved DeliveryStep (fun _ => True) store.deliveries (run operations store).deliveries := by
  induction operations generalizing store with
  | nil => exact Evolved.refl _ _ _
  | cons operation rest ih =>
      exact (after_deliveries operation hkeys).trans (ih (after_keyed operation hkeys))

/-- A delivery that is closed stays as it is. -/
theorem mem_of_closed (operations : List Operation) {store : Store} (hkeys : Keyed store.runs)
    {d : Delivery} (hd : d ∈ store.deliveries) (hclosed : d.isOpen = false) :
    d ∈ (run operations store).deliveries := by
  obtain ⟨d', hd', hsteps⟩ := (run_deliveries operations hkeys).forth hd
  rcases hsteps.cases_head with heq | ⟨_, hstep, -⟩
  · rwa [heq]
  · rw [hstep.wasOpen] at hclosed
    cases hclosed

/-- The deliveries of a run. -/
def Store.deliveriesOf (store : Store) (runId : Str) : List Delivery :=
  store.deliveries.filter (·.runId == runId)

/-- Unique keys leave one row of a key. -/
theorem deliveriesOf_eq_singleton {store : Store} (h : Unique store.deliveries) {d : Delivery}
    (hd : d ∈ store.deliveries) : store.deliveriesOf d.runId = [d] := by
  have hself : d ∈ store.deliveriesOf d.runId := List.mem_filter.mpr ⟨hd, beq_self_eq_true _⟩
  have hnodup : (store.deliveriesOf d.runId).Nodup := (List.Nodup.of_map _ h.runId).filter _
  have hmem : ∀ d' ∈ store.deliveriesOf d.runId, d' = d := by
    intro d' hd'
    obtain ⟨hd', hid⟩ := List.mem_filter.mp hd'
    exact eq_of_key h.runId hd' hd (eq_of_beq hid)
  cases hlist : store.deliveriesOf d.runId with
  | nil =>
      rw [hlist] at hself
      cases hself
  | cons first rest =>
      rw [hlist] at hnodup hmem
      obtain rfl := hmem first List.mem_cons_self
      have hrest : rest = [] := by
        rw [List.eq_nil_iff_forall_not_mem]
        intro d' hd'
        have heq := hmem d' (List.mem_cons_of_mem _ hd')
        subst heq
        exact (List.nodup_cons.mp hnodup).1 hd'
      rw [hrest]

/-- A run whose record is not due has no delivery. -/
theorem deliveriesOf_eq_nil {store : Store} (hkeys : Keyed store.runs) (h : OutboxInv store)
    {r : Row} (hr : r ∈ store.runs) (hdue : r.due = false) : store.deliveriesOf r.runId = [] := by
  refine List.filter_eq_nil_iff.mpr fun d hd hid => ?_
  obtain ⟨r', hr', hrecords⟩ := h.sound d hd
  obtain rfl := eq_of_key hkeys.runId hr hr' ((eq_of_beq hid).symm.trans hrecords.runId)
  rw [hrecords.due] at hdue
  cases hdue

/-- **The outbox is exact.**  In every reachable store a run with a callback has one
delivery if it is finished, with the run's status and callback, and none before;
a run without a callback has none; and a delivery that was delivered or failed
its configuration stays as it is. -/
theorem callback_outbox_exact (operations : List Operation) :
    (∀ r ∈ (run operations Store.empty).runs, ∀ url workflow signal,
      r.callback = (some url, some workflow, some signal) →
      (r.status.isTerminal = true → ∃ d,
        (run operations Store.empty).deliveriesOf r.runId = [d] ∧ d.terminalStatus = r.status ∧
          d.callbackUrl = url ∧ d.callbackWorkflowId = workflow ∧ d.callbackSignal = signal) ∧
      (r.status.isTerminal = false → (run operations Store.empty).deliveriesOf r.runId = [])) ∧
    (∀ r ∈ (run operations Store.empty).runs,
      (¬∃ url workflow signal, r.callback = (some url, some workflow, some signal)) →
      (run operations Store.empty).deliveriesOf r.runId = []) ∧
    (∀ d ∈ (run operations Store.empty).deliveries,
      ∃ r ∈ (run operations Store.empty).runs, r.runId = d.runId) ∧
    ∀ d ∈ (run operations Store.empty).deliveries,
      d.deliveryStatus = .delivered ∨ d.deliveryStatus = .configurationFailed →
      ∀ later, (run (operations ++ later) Store.empty).deliveriesOf d.runId = [d] := by
  have hkeys := run_keyed operations keyed_empty
  have hinv := run_outboxInv operations keyed_empty outboxInv_empty
  refine ⟨fun r hr url workflow signal hcallback => ⟨fun hterminal => ?_, fun hterminal => ?_⟩,
    fun r hr hnone => ?_, fun d hd => ?_, fun d hd hclosed later => ?_⟩
  · simp only [Row.callback, Prod.mk.injEq] at hcallback
    obtain ⟨hurl, hworkflow, hsignal⟩ := hcallback
    have hdue : r.due = true := by simp [Row.due, hterminal, hurl, hworkflow, hsignal]
    obtain ⟨d, hd, hid⟩ := hinv.complete r hr hdue
    obtain ⟨r', hr', hrecords⟩ := hinv.sound d hd
    obtain rfl := eq_of_key hkeys.runId hr hr' (hid.symm.trans hrecords.runId)
    refine ⟨d, hid ▸ deliveriesOf_eq_singleton hinv.unique hd, hrecords.status, ?_, ?_, ?_⟩
    · exact Option.some.inj (hrecords.callbackUrl.symm.trans hurl)
    · exact Option.some.inj (hrecords.callbackWorkflowId.symm.trans hworkflow)
    · exact Option.some.inj (hrecords.callbackSignal.symm.trans hsignal)
  · exact deliveriesOf_eq_nil hkeys hinv hr (by simp [Row.due, hterminal])
  · refine deliveriesOf_eq_nil hkeys hinv hr ?_
    rw [← Bool.not_eq_true]
    intro hdue
    simp only [Row.due, Bool.and_eq_true, Option.isSome_iff_exists] at hdue
    obtain ⟨⟨⟨-, url, hurl⟩, workflow, hworkflow⟩, signal, hsignal⟩ := hdue
    exact hnone ⟨url, workflow, signal, by simp only [Row.callback, hurl, hworkflow, hsignal]⟩
  · obtain ⟨r, hr, hrecords⟩ := hinv.sound d hd
    exact ⟨r, hr, hrecords.runId.symm⟩
  · have hopen : d.isOpen = false := by
      rcases hclosed with hstatus | hstatus
      · simp [Delivery.isOpen, hstatus]
      · simp [Delivery.isOpen, hstatus]
    rw [run_append]
    exact deliveriesOf_eq_singleton (run_outboxInv later hkeys hinv).unique
      (mem_of_closed later hkeys hd hopen)

/-- A callback attached to a run that is already canceled. -/
theorem callback_outbox_exact_late_attach :
    ∃ d, (run [.create plainCreation 0, .cancel ['r'] 1,
        .create { plainCreation with callback := some ⟨['h'], ['f'], ['s']⟩ } 2]
        Store.empty).deliveriesOf ['r'] = [d] ∧ d.terminalStatus = .canceled ∧
      d.callbackUrl = ['h'] := by
  obtain ⟨r, hr, hid, hstatus, hcallback⟩ : ∃ r ∈ (run [.create plainCreation 0,
      .cancel ['r'] 1, .create { plainCreation with callback := some ⟨['h'], ['f'], ['s']⟩ } 2]
      Store.empty).runs, r.runId = ['r'] ∧ r.status = .canceled ∧
        r.callback = (some ['h'], some ['f'], some ['s']) :=
    ⟨_, List.mem_cons_self, rfl, rfl, rfl⟩
  obtain ⟨d, hd, hterminal, hurl, -⟩ := ((callback_outbox_exact _).1 r hr _ _ _ hcallback).1
    (by rw [hstatus]; rfl)
  exact ⟨d, hid ▸ hd, hterminal.trans hstatus, hurl⟩

end Lifecycle
