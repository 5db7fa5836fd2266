import ControlTranslation.CompletedRuns

/-!
# Synchronous invocations over the database of completed runs

With the database as the repository, a synchronous invocation looks its idempotency key
up, translates, checks that its run is not stored, inserts it in a transaction and
answers.  Any number of handlers may be anywhere in that sequence, and the lifecycle
worker publishes runs of its own.

The key is a column no two rows share.  Of the handlers that missed a key together one
commits; the insertion of every other is refused, and it reads the row of the first.  So
there is one answer to a key in every interleaving, which the warehouse, where rows are
merged on the result identifier alone, does not give.
-/

namespace RunStore

open PyText
open SyncInvoke (InvocationRequest)

variable {β γ ρ : Type}

/-- Where a handler stands. -/
inductive Phase (ρ : Type)
  | start
  | missed
  | translated (result : ResultEnvelope ρ) (startedAt : Str)
  | unstored (result : ResultEnvelope ρ) (startedAt : Str)
  | failed
  | answered (result : ResultEnvelope ρ)
  /-- 409: the key was used for a different request. -/
  | conflict
  | refused (status : Nat)

/-- What becomes of a transaction that breaks no constraint; an error may be reported
although it committed. -/
inductive Commit
  | done
  | doneThenFailed
  | failed

/-- What a handler does next, with what the outside answers. -/
inductive Move (ρ : Type)
  | lookup (fails : Bool)
  | translate (startedAt : Str) (outcome : Except Nat (ResultEnvelope ρ))
  | check (fails : Bool)
  | commit (now : Str) (outcome : Commit)
  | recover (fails : Bool)

/-- A statement of a handler, or a run that the lifecycle worker saves. -/
inductive Event (β γ ρ : Type)
  | handler (i : Nat) (move : Move ρ)
  | publish (c : Completed β γ ρ)

/-- The database and the handlers of the synchronous route. -/
structure World (β γ ρ : Type) where
  db : Database β γ ρ
  phase : Nat → Phase ρ

/-- No handler has begun. -/
def World.opening (db : Database β γ ρ) : World β γ ρ := ⟨db, fun _ => .start⟩

/-- The requests being handled, their hashes, and the run identifiers minted for them. -/
structure Calls (β γ : Type) where
  requests : Nat → InvocationRequest β γ
  requestHash : InvocationRequest β γ → Str
  mint : Nat → Str

/-- The idempotency key of a call. -/
def Calls.key (calls : Calls β γ) (i : Nat) : Option Str :=
  (calls.requests i).effectiveIdempotencyKey

/-- The hash a call's request is stored under. -/
def Calls.hash (calls : Calls β γ) (i : Nat) : Str := calls.requestHash (calls.requests i)

/-- The lookup before the translation. -/
def lookedUp (calls : Calls β γ) (i : Nat) (db : Database β γ ρ) : Phase ρ :=
  match calls.key i with
  | none => .missed
  | some key =>
      match db.getByIdempotencyKey key with
      | none => .missed
      | some (hash, result) => if hash = calls.hash i then .answered result else .conflict

/-- The lookup after a save that failed. -/
def recovered (calls : Calls β γ) (i : Nat) (db : Database β γ ρ) : Phase ρ :=
  match calls.key i with
  | none => .refused 503
  | some key =>
      match db.getByIdempotencyKey key with
      | none => .refused 503
      | some (hash, result) => if hash = calls.hash i then .answered result else .refused 503

/-- The lookup at the start of `save_completed_run`. -/
def checked [DecidableEq ρ] (db : Database β γ ρ) (result : ResultEnvelope ρ) (startedAt : Str) :
    Phase ρ :=
  match db.getRun result.runId with
  | none => .unstored result startedAt
  | some stored => if stored = result then .answered result else .failed

/-- The row that a handler inserts. -/
def Calls.completed (calls : Calls β γ) (i : Nat) (result : ResultEnvelope ρ)
    (startedAt now : Str) : Completed β γ ρ :=
  ⟨calls.requests i, result, calls.hash i, startedAt, now⟩

/-- The transaction of a handler. -/
def committed (calls : Calls β γ) (i : Nat) (db : Database β γ ρ) (result : ResultEnvelope ρ)
    (startedAt now : Str) (outcome : Commit) : Database β γ ρ × Phase ρ :=
  match db.transaction (calls.completed i result startedAt now), outcome with
  | .error _, _ => (db, .failed)
  | .ok db', .done => (db', .answered result)
  | .ok db', .doneThenFailed => (db', .failed)
  | .ok _, .failed => (db, .failed)

/-- One statement of one handler. -/
def handle [DecidableEq ρ] (calls : Calls β γ) (i : Nat) (db : Database β γ ρ) :
    Phase ρ → Move ρ → Database β γ ρ × Phase ρ
  | .start, .lookup fails =>
      (db, if fails && (calls.key i).isSome then .refused 503 else lookedUp calls i db)
  | .missed, .translate startedAt (.ok result) =>
      (db, .translated { result with runId := calls.mint i } startedAt)
  | .missed, .translate _ (.error status) => (db, .refused status)
  | .translated result startedAt, .check fails =>
      (db, if fails then .failed else checked db result startedAt)
  | .unstored result startedAt, .commit now outcome =>
      committed calls i db result startedAt now outcome
  | .failed, .recover fails => (db, if fails then .refused 503 else recovered calls i db)
  | phase, _ => (db, phase)

/-- One move of a handler, or a run published from elsewhere. -/
def World.step [DecidableEq ρ] (calls : Calls β γ) (w : World β γ ρ) :
    Event β γ ρ → World β γ ρ
  | .handler i move =>
      { db := (handle calls i w.db (w.phase i) move).1
        phase := Function.update w.phase i (handle calls i w.db (w.phase i) move).2 }
  | .publish c => { w with db := w.db.save c }

/-- A run of such steps. -/
def World.run [DecidableEq ρ] (calls : Calls β γ) (w : World β γ ρ) (events : List (Event β γ ρ)) :
    World β γ ρ :=
  events.foldl (World.step calls) w

/-- What is known of a handler by where it stands. -/
def Phase.Inv (calls : Calls β γ) (log : List (Completed β γ ρ)) (i : Nat) : Phase ρ → Prop
  | .start | .missed => ∀ c ∈ log, c.result.runId ≠ calls.mint i
  | .translated result _ | .unstored result _ =>
      result.runId = calls.mint i ∧ ∀ c ∈ log, c.result.runId ≠ calls.mint i
  | .answered result => ∃ c ∈ log, c.result = result ∧ c.requestHash = calls.hash i ∧
      c.request.effectiveIdempotencyKey = calls.key i
  | .conflict => ∃ key, calls.key i = some key ∧ ∃ c ∈ log,
      c.request.effectiveIdempotencyKey = some key ∧ c.requestHash ≠ calls.hash i
  | .failed | .refused _ => True

/-- The database is that of a log, and every handler has seen a part of it. -/
structure World.Inv (calls : Calls β γ) (log : List (Completed β γ ρ)) (w : World β γ ρ) :
    Prop where
  keyed : Keyed log
  db : w.db = .ofLog log
  phases : ∀ i, (w.phase i).Inv calls log i

variable {calls : Calls β γ} {log : List (Completed β γ ρ)} {w : World β γ ρ} {i : Nat}

/-- Runs of others leave what is known of a handler. -/
theorem Phase.Inv.grow {phase : Phase ρ} (h : phase.Inv calls log i)
    {more : List (Completed β γ ρ)} (hothers : ∀ c ∈ more, c.result.runId ≠ calls.mint i) :
    phase.Inv calls (log ++ more) i := by
  have hfresh : (∀ c ∈ log, c.result.runId ≠ calls.mint i) →
      ∀ c ∈ log ++ more, c.result.runId ≠ calls.mint i := fun hlog c hc =>
    (List.mem_append.mp hc).elim (hlog c) (hothers c)
  cases phase with
  | start => exact hfresh h
  | missed => exact hfresh h
  | translated result startedAt => exact ⟨h.1, hfresh h.2⟩
  | unstored result startedAt => exact ⟨h.1, hfresh h.2⟩
  | failed => trivial
  | answered result =>
      obtain ⟨c, hc, hfound⟩ := h
      exact ⟨c, List.mem_append_left _ hc, hfound⟩
  | conflict =>
      obtain ⟨key, hkey, c, hc, hfound⟩ := h
      exact ⟨key, hkey, c, List.mem_append_left _ hc, hfound⟩
  | refused status => trivial

/-- Both lookups answer with the row of the key, if its hash is the handler's own. -/
theorem inv_lookedUp (hkeyed : Keyed log) (hfresh : ∀ c ∈ log, c.result.runId ≠ calls.mint i) :
    (lookedUp calls i (.ofLog log)).Inv calls log i := by
  rw [lookedUp]
  split
  · exact hfresh
  · rename_i key hkey
    split
    · exact hfresh
    · rename_i hash result hfound
      obtain ⟨c, hc, hown, rfl, rfl⟩ := mem_of_getByIdempotencyKey hkeyed hfound
      split_ifs with hsame
      · exact ⟨c, hc, rfl, hsame, hown.trans hkey.symm⟩
      · exact ⟨key, hkey, c, hc, hown, hsame⟩

theorem inv_recovered (hkeyed : Keyed log) : (recovered calls i (.ofLog log)).Inv calls log i := by
  rw [recovered]
  split
  · trivial
  · rename_i key hkey
    split
    · trivial
    · rename_i hash result hfound
      obtain ⟨c, hc, hown, rfl, rfl⟩ := mem_of_getByIdempotencyKey hkeyed hfound
      split_ifs with hsame
      · exact ⟨c, hc, rfl, hsame, hown.trans hkey.symm⟩
      · trivial

/-- No handler finds its own run before it has inserted it. -/
theorem inv_checked [DecidableEq ρ] (hkeyed : Keyed log) {result : ResultEnvelope ρ}
    {startedAt : Str} (hown : result.runId = calls.mint i)
    (hfresh : ∀ c ∈ log, c.result.runId ≠ calls.mint i) :
    (checked (.ofLog log : Database β γ ρ) result startedAt).Inv calls log i := by
  have hnone : (Database.ofLog log).getRun result.runId = none := by
    cases hfound : (Database.ofLog log).getRun result.runId with
    | none => rfl
    | some stored =>
        obtain ⟨c, hc, rfl, hid⟩ := mem_of_getRun hkeyed hfound
        exact absurd (hid.trans hown) (hfresh c hc)
  rw [checked, hnone]
  exact ⟨hown, hfresh⟩

/-- A transaction adds the handler's row or nothing; an answer is a row that was added. -/
theorem inv_committed (hkeyed : Keyed log) {result : ResultEnvelope ρ} {startedAt now : Str}
    (outcome : Commit) :
    ∃ more, Keyed (log ++ more) ∧
      (∀ c ∈ more, c = calls.completed i result startedAt now) ∧
      (committed calls i (.ofLog log) result startedAt now outcome).1 = .ofLog (log ++ more) ∧
      (committed calls i (.ofLog log) result startedAt now outcome).2.Inv calls
        (log ++ more) i := by
  unfold committed
  by_cases hfits : Fits log (calls.completed i result startedAt now)
  · rw [transaction_of_fits hfits]
    have hadded := hkeyed.append hfits
    cases outcome with
    | done =>
        exact ⟨[_], hadded, fun c hc => List.mem_singleton.mp hc, rfl,
          ⟨_, List.mem_append_right _ List.mem_cons_self, rfl, rfl, rfl⟩⟩
    | doneThenFailed =>
        exact ⟨[_], hadded, fun c hc => List.mem_singleton.mp hc, rfl, trivial⟩
    | failed =>
        refine ⟨[], by rwa [List.append_nil], fun c hc => absurd hc List.not_mem_nil, ?_, trivial⟩
        rw [List.append_nil]
  · obtain ⟨violation, hviolation⟩ := transaction_of_not_fits hfits
    rw [hviolation]
    refine ⟨[], by rwa [List.append_nil], fun c hc => absurd hc List.not_mem_nil, ?_, trivial⟩
    rw [List.append_nil]

/-- What one statement of a handler does: it adds rows of that handler only, and what is
known of it afterwards is known by where it then stands. -/
theorem inv_handle [DecidableEq ρ] (hkeyed : Keyed log) {phase : Phase ρ}
    (h : phase.Inv calls log i) (move : Move ρ) :
    ∃ more, Keyed (log ++ more) ∧ (∀ c ∈ more, c.result.runId = calls.mint i) ∧
      (handle calls i (.ofLog log) phase move).1 = .ofLog (log ++ more) ∧
      (handle calls i (.ofLog log) phase move).2.Inv calls (log ++ more) i := by
  have hstay : ∀ after : Phase ρ, after.Inv calls log i →
      ∃ more, Keyed (log ++ more) ∧ (∀ c ∈ more, c.result.runId = calls.mint i) ∧
        Database.ofLog log = .ofLog (log ++ more) ∧ after.Inv calls (log ++ more) i :=
    fun after hafter => ⟨[], by rwa [List.append_nil], fun c hc => absurd hc List.not_mem_nil,
      by rw [List.append_nil], by rwa [List.append_nil]⟩
  rw [handle.eq_def]
  split
  · refine hstay _ ?_
    split_ifs
    · trivial
    · exact inv_lookedUp hkeyed h
  · exact hstay _ ⟨rfl, h⟩
  · exact hstay _ trivial
  · refine hstay _ ?_
    split_ifs
    · trivial
    · exact inv_checked hkeyed h.1 h.2
  · obtain ⟨more, hmore, honly, hdb, hafter⟩ := inv_committed hkeyed (by assumption)
    refine ⟨more, hmore, fun c hc => ?_, hdb, hafter⟩
    rw [honly c hc]
    exact h.1
  · refine hstay _ ?_
    split_ifs
    · trivial
    · exact inv_recovered hkeyed
  · exact hstay _ h

/-- The worker publishes under identifiers that no handler mints. -/
def Event.Apart (calls : Calls β γ) : Event β γ ρ → Prop
  | .handler _ _ => True
  | .publish c => ∀ i, c.result.runId ≠ calls.mint i

/-- A step keeps the invariant, the log growing by at most a run. -/
theorem World.Inv.step [DecidableEq ρ] (hmint : Function.Injective calls.mint)
    (h : w.Inv calls log) (event : Event β γ ρ) (hapart : event.Apart calls) :
    ∃ log', World.Inv calls log' (w.step calls event) := by
  cases event with
  | handler i move =>
      obtain ⟨more, hkeyed, hown, hdb, hafter⟩ := inv_handle h.keyed (h.phases i) move
      rw [← h.db] at hdb hafter
      refine ⟨log ++ more, hkeyed, hdb, fun j => ?_⟩
      change (Function.update w.phase i _ j).Inv calls (log ++ more) j
      rw [Function.update_apply]
      split_ifs with hj
      · exact hj ▸ hafter
      · exact (h.phases j).grow fun c hc hsame => hj (hmint (hsame.symm.trans (hown c hc)))
  | publish c =>
      obtain ⟨more, hkeyed, honly, hdb⟩ := exists_log_save h.keyed c
      refine ⟨log ++ more, hkeyed, by rw [World.step, h.db, hdb], fun j => ?_⟩
      exact (h.phases j).grow fun c' hc' => honly c' hc' ▸ hapart j

/-- Every run of steps keeps it. -/
theorem World.Inv.run [DecidableEq ρ] (hmint : Function.Injective calls.mint)
    (h : w.Inv calls log) (events : List (Event β γ ρ))
    (hapart : ∀ event ∈ events, event.Apart calls) :
    ∃ log', World.Inv calls log' (w.run calls events) := by
  induction events generalizing w log with
  | nil => exact ⟨log, h⟩
  | cons event rest ih =>
      obtain ⟨log', hstep⟩ := h.step hmint event (hapart event List.mem_cons_self)
      exact ih hstep fun e he => hapart e (List.mem_cons_of_mem _ he)

theorem World.inv_opening (hkeyed : Keyed log)
    (hapart : ∀ c ∈ log, ∀ i, c.result.runId ≠ calls.mint i) :
    World.Inv calls log (.opening (.ofLog log)) :=
  ⟨hkeyed, rfl, fun i c hc => hapart c hc i⟩

/-- An answer is stored: it is read under its run, its result and the key it answers. -/
structure Answered (calls : Calls β γ) (db : Database β γ ρ) (i : Nat)
    (result : ResultEnvelope ρ) : Prop where
  underRun : db.getRun result.runId = some result
  underResult : db.getResult result.resultId = some result
  underKey : ∀ key, calls.key i = some key →
    db.getByIdempotencyKey key = some (calls.hash i, result)

/-- What a handler answers is stored under its key. -/
theorem World.Inv.answered (h : w.Inv calls log) {result : ResultEnvelope ρ}
    (hanswered : w.phase i = .answered result) : Answered calls w.db i result := by
  have hphase := h.phases i
  rw [hanswered] at hphase
  obtain ⟨c, hc, rfl, hhash, hkey⟩ := hphase
  rw [h.db]
  refine ⟨getRun_of_mem h.keyed hc, getResult_of_mem h.keyed hc, fun key hown => ?_⟩
  rw [← hhash]
  exact getByIdempotencyKey_of_mem h.keyed hc (hkey.trans hown)

/-- A conflict is one: the key is bound to another request. -/
theorem World.Inv.conflict (h : w.Inv calls log) (hconflict : w.phase i = .conflict) :
    ∃ key hash result, calls.key i = some key ∧
      w.db.getByIdempotencyKey key = some (hash, result) ∧ hash ≠ calls.hash i := by
  have hphase := h.phases i
  rw [hconflict] at hphase
  obtain ⟨key, hkey, c, hc, hown, hhash⟩ := hphase
  rw [h.db]
  exact ⟨key, c.requestHash, c.result, hkey, getByIdempotencyKey_of_mem h.keyed hc hown, hhash⟩

/-- A handler that has answered is done. -/
theorem phase_run_of_answered [DecidableEq ρ] {result : ResultEnvelope ρ}
    (h : w.phase i = .answered result) (events : List (Event β γ ρ)) :
    (w.run calls events).phase i = .answered result := by
  induction events generalizing w with
  | nil => exact h
  | cons event rest ih =>
      refine ih ?_
      cases event with
      | publish c => exact h
      | handler j move =>
          change Function.update w.phase j _ i = _
          rw [Function.update_apply]
          split_ifs with hj
          · subst hj
            rw [h]
            rfl
          · exact h

/-- **One key, one answer.**  In every interleaving of handlers and of the worker, an
answered result is stored, and it stays the result of its run, of its identifier and of the
key it answers, whatever happens later.  So all answers to one key are one result, made for
requests of one hash, and who is told of a conflict sent another hash. -/
theorem one_answer_in_every_interleaving [DecidableEq ρ] {calls : Calls β γ}
    (hmint : Function.Injective calls.mint) {saves : List (Completed β γ ρ)}
    (hsaves : ∀ c ∈ saves, ∀ i, c.result.runId ≠ calls.mint i) {events : List (Event β γ ρ)}
    (hevents : ∀ event ∈ events, event.Apart calls) :
    let w := (World.opening (Database.after saves)).run calls events
    (∀ i result, w.phase i = .answered result →
      ∀ more, (∀ event ∈ more, event.Apart calls) →
        (w.run calls more).phase i = .answered result ∧
          Answered calls (w.run calls more).db i result) ∧
    (∀ i j key result result', calls.key i = some key → calls.key j = some key →
      w.phase i = .answered result → w.phase j = .answered result' →
        result = result' ∧ calls.hash i = calls.hash j) ∧
    ∀ i j key result, calls.key i = some key → calls.key j = some key →
      w.phase i = .conflict → w.phase j = .answered result → calls.hash i ≠ calls.hash j := by
  intro w
  obtain ⟨opened, hkeyed, hamong, hafter⟩ := exists_log_after saves
  have hopening : World.Inv calls opened (.opening (Database.after saves)) :=
    hafter ▸ World.inv_opening hkeyed fun c hc => hsaves c (hamong c hc)
  obtain ⟨log, hinv⟩ := hopening.run hmint events hevents
  refine ⟨fun i result hi more hmore => ?_, fun i j key result result' hki hkj hi hj => ?_,
    fun i j key result hki hkj hi hj hsame => ?_⟩
  · obtain ⟨log', hlater⟩ := World.Inv.run hmint hinv more hmore
    have hstill : (w.run calls more).phase i = .answered result := phase_run_of_answered hi more
    exact ⟨hstill, hlater.answered hstill⟩
  · have hone := (hinv.answered hi).underKey key hki
    have hother := (hinv.answered hj).underKey key hkj
    have hpair := Option.some.inj (hone.symm.trans hother)
    exact ⟨congrArg Prod.snd hpair, congrArg Prod.fst hpair⟩
  · obtain ⟨key', hash, stored, hown, hrow, hdiffers⟩ := hinv.conflict hi
    obtain rfl : key' = key := Option.some.inj (hown.symm.trans hki)
    have hother := (hinv.answered hj).underKey key' hkj
    have hpair := Option.some.inj (hrow.symm.trans hother)
    exact hdiffers ((congrArg Prod.fst hpair).trans hsame.symm)

/-- Handlers that are sent the same request under one key. -/
def alike : Calls Unit Unit where
  requests := fun _ => .invoke ['r'] (some ['k']) ()
  requestHash := fun _ => ['h']
  mint := fun i => List.replicate i 'a'

/-- A result with no candidate. -/
def declined (resultId : Str) : ResultEnvelope Unit where
  capability := ['c']
  contractId := ['c']
  runId := []
  resultId := resultId
  correlationId := ['c']
  status := .declined
  terminalState := .scopeDeclined
  reasonCode := .invalidInput
  producedAt := ['t']
  vulnerabilityId := ['v']
  targetTechnology := ['a']
  primaryCandidate := none
  evidenceBindings := []
  provenance := []
  content := ()

/-- A run that the worker saved, under a key of its own. -/
def published : Completed Unit Unit Unit where
  request := .invoke ['q'] (some ['p']) ()
  result := { declined ['z'] with runId := ['z'] }
  requestHash := ['d']
  startedAt := ['s']
  now := ['n']

/-- Both miss the key, both translate, and the second finds its insertion refused. -/
def overlapping : List (Event Unit Unit Unit) :=
  [.handler 0 (.lookup false), .handler 1 (.lookup false), .publish published,
    .handler 0 (.translate ['s'] (.ok (declined ['x']))),
    .handler 1 (.translate ['s'] (.ok (declined ['y']))),
    .handler 0 (.check false), .handler 1 (.check false),
    .handler 0 (.commit ['n'] .done), .handler 1 (.commit ['n'] .done),
    .handler 1 (.recover false)]

/-- Two overlapping handlers answer with one result, that of the first to commit. -/
theorem overlapping_handlers_answer_alike :
    ((World.opening (Database.after [published])).run alike overlapping).phase 0 =
        .answered (declined ['x']) ∧
      ((World.opening (Database.after [published])).run alike overlapping).phase 1 =
        .answered (declined ['x']) ∧
      Answered alike ((World.opening (Database.after [published])).run alike overlapping).db 1
        (declined ['x']) := by
  have hmint : Function.Injective alike.mint := fun i j h => by
    simpa [alike] using congrArg List.length h
  have hpublished : ∀ i, published.result.runId ≠ alike.mint i := fun i h => by
    have hid : ['z'] = List.replicate i 'a' := h
    have hmem : 'z' ∈ List.replicate i 'a' := hid ▸ List.mem_singleton.mpr rfl
    exact absurd (List.eq_of_mem_replicate hmem) (by decide)
  have hsaves : ∀ c ∈ [published], ∀ i, c.result.runId ≠ alike.mint i := fun c hc =>
    List.mem_singleton.mp hc ▸ hpublished
  have hevents : ∀ event ∈ overlapping, event.Apart alike := by
    intro event hevent
    rcases event with _ | c
    · trivial
    · have hc : c = published := by simpa [overlapping] using hevent
      exact hc ▸ hpublished
  have hone := one_answer_in_every_interleaving hmint hsaves hevents
  exact ⟨rfl, rfl, (hone.1 1 _ rfl [] fun event hevent => absurd hevent List.not_mem_nil).2⟩

end RunStore
