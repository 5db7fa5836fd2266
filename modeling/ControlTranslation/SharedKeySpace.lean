import ControlTranslation.DigestAgreement

/-!
# One key for both sides

Completed runs of both sides lie in one table, under one unique key.  A
synchronous call looks its key up, translates and inserts; an asynchronous run
inserts when it is published.  The first saves the canonical hash of the
request with its row, the second the normalized digest, and a lookup compares
the row with the canonical hash.

The two digests are one only for a shared-contract request that leaves no field
null, and an insertion fails wherever the other side came first.  So the order
of the two sides decides: `fulfilled_iff` says which orders give every call the
stored result and the run its row.
-/

namespace SharedKeySpace

open PyText JsonValue ModelSchema RequestDigests

/-- The identifiers minted for a completed run: a synchronous call's, the asynchronous
run's, or some other's. -/
inductive RunId
  | handler (i : Nat)
  | lifecycle
  | other (n : Nat)
  deriving DecidableEq

/-- A row of `capability_runs`. -/
structure Row (ρ : Type) where
  runId : RunId
  idempotencyKey : Option Str
  requestHash : Str
  result : ρ

variable {ρ : Type}

/-- `INSERT`: run identifiers are unique, and so are keys that are given. -/
def insert (rows : List (Row ρ)) (row : Row ρ) : Option (List (Row ρ)) :=
  if rows.any fun other => decide (other.runId = row.runId) ||
      (row.idempotencyKey.isSome && decide (other.idempotencyKey = row.idempotencyKey)) then none
  else some (rows ++ [row])

/-- `get_run`. -/
def getRun (rows : List (Row ρ)) (id : RunId) : Option (Row ρ) :=
  rows.find? fun row => row.runId = id

/-- `get_by_idempotency_key`. -/
def getByIdempotencyKey (rows : List (Row ρ)) (key : Str) : Option (Row ρ) :=
  rows.find? fun row => row.idempotencyKey = some key

/-- `save_completed_run`; nothing where it raises `PersistenceError`. -/
def saveCompletedRun [DecidableEq ρ] (rows : List (Row ρ)) (row : Row ρ) :
    Option (List (Row ρ)) :=
  match getRun rows row.runId with
  | some stored => if stored.result = row.result then some rows else none
  | none => insert rows row

/-- Where a synchronous call stands. -/
inductive Phase (ρ : Type)
  | start
  | missed
  | translated (result : ρ)
  | failed (result : ρ)
  | answered (result : ρ)
  | declined (status : Nat)
  | conflict
  | unavailable

/-- Where the asynchronous run stands.  A publication that collided remains pending and is
tried again. -/
inductive Publication (ρ : Type)
  | unsubmitted
  | refused
  | accepted (requestDigest : Str)
  | prepared (requestHash : Str) (result : ρ)
  | collided (requestHash : Str) (result : ρ)
  | saved (requestHash : Str) (result : ρ)
  | completed (result : ρ)

/-- What a publication tries to save. -/
def Publication.pending : Publication ρ → Option (Str × ρ)
  | .prepared hash result | .collided hash result | .saved hash result => some (hash, result)
  | _ => none

/-- The rows, the handlers, and the one publication that goes on beside them. -/
structure World (ρ : Type) where
  rows : List (Row ρ)
  phase : Nat → Phase ρ
  publication : Publication ρ

/-- Move one handler on. -/
def World.setPhase (w : World ρ) (i : Nat) (p : Phase ρ) : World ρ :=
  { w with phase := Function.update w.phase i p }

@[simp] theorem World.setPhase_rows (w : World ρ) (i : Nat) (p : Phase ρ) :
    (w.setPhase i p).rows = w.rows := rfl

@[simp] theorem World.setPhase_publication (w : World ρ) (i : Nat) (p : Phase ρ) :
    (w.setPhase i p).publication = w.publication := rfl

@[simp] theorem World.setPhase_phase (w : World ρ) (i j : Nat) (p : Phase ρ) :
    (w.setPhase i p).phase j = if j = i then p else w.phase j := Function.update_apply ..

/-- A step of a handler or of the publication. -/
inductive Event (ρ : Type)
  | lookup (i : Nat)
  | translate (i : Nat) (outcome : Except Nat ρ)
  | save (i : Nat)
  | recover (i : Nat)
  | submit
  | prepare (result : ρ)
  | publish
  | complete

/-- `effective_idempotency_key`, and the key a row is stored under. -/
def effectiveIdempotencyKey : InvocationRequest → Option Str
  | request@(.envelope _) => textField "idempotency_key" request
  | request@(.sharedContractV2 _) => textField "request_id" request

/-- Declared fields with one of them assigned. -/
def assign (name : Str) (value : Tree) (values : FieldValues) : FieldValues :=
  values.map fun f => if f.1 = name then (f.1, f.2.1, value) else f

/-- `model_copy(update={"idempotency_key": …})` on an envelope. -/
def withIdempotencyKey (key : Str) : InvocationRequest → InvocationRequest
  | .envelope e => .envelope { e with
      trailing := assign "idempotency_key".toList (.scalar (.text key)) e.trailing }
  | request => request

/-- What the submission endpoint asks of a body and its `Idempotency-Key`. -/
def submittable (request : InvocationRequest) (key : Str) : Bool :=
  textField "request_id" request == some key &&
    (textField "correlation_id" request).isSome &&
    match request with
    | .envelope e =>
        ((textField "idempotency_key" request).all (· == key)) &&
          (Tree.field (e.leading ++ e.trailing) "callback".toList).isNone
    | .sharedContractV2 _ => true

section

variable (sha256 : Str → Str) (request : InvocationRequest) (key : Str) [DecidableEq ρ]

/-- One statement of a synchronous call or of the asynchronous run; both carry one request
and key. -/
def World.step (w : World ρ) : Event ρ → World ρ
  | .lookup i =>
      match w.phase i, effectiveIdempotencyKey request with
      | .start, none => w.setPhase i .missed
      | .start, some key =>
          match getByIdempotencyKey w.rows key with
          | none => w.setPhase i .missed
          | some row =>
              if row.requestHash = canonicalRequestHash sha256 request then
                w.setPhase i (.answered row.result)
              else w.setPhase i .conflict
      | _, _ => w
  | .translate i outcome =>
      match w.phase i, outcome with
      | .missed, .ok result => w.setPhase i (.translated result)
      | .missed, .error status => w.setPhase i (.declined status)
      | _, _ => w
  | .save i =>
      match w.phase i with
      | .translated result =>
          match saveCompletedRun w.rows ⟨.handler i, effectiveIdempotencyKey request,
              canonicalRequestHash sha256 request, result⟩ with
          | some rows => { w.setPhase i (.answered result) with rows := rows }
          | none => w.setPhase i (.failed result)
      | _ => w
  | .recover i =>
      match w.phase i, effectiveIdempotencyKey request with
      | .failed _, some key =>
          match getByIdempotencyKey w.rows key with
          | none => w.setPhase i .unavailable
          | some row =>
              if row.requestHash = canonicalRequestHash sha256 request then
                w.setPhase i (.answered row.result)
              else w.setPhase i .unavailable
      | .failed _, none => w.setPhase i .unavailable
      | _, _ => w
  | .submit =>
      match w.publication with
      | .unsubmitted =>
          if submittable request key then
            { w with publication :=
                .accepted (normalizedRequestDigest sha256 (withIdempotencyKey key request)) }
          else { w with publication := .refused }
      | _ => w
  | .prepare result =>
      match w.publication with
      | .accepted digest => { w with publication := .prepared digest result }
      | _ => w
  | .publish =>
      match w.publication.pending with
      | some (hash, result) =>
          match saveCompletedRun w.rows ⟨.lifecycle,
              effectiveIdempotencyKey (withIdempotencyKey key request), hash, result⟩ with
          | some rows => { w with rows := rows, publication := .saved hash result }
          | none => { w with publication := .collided hash result }
      | none => w
  | .complete =>
      match w.publication with
      | .saved _ result => { w with publication := .completed result }
      | _ => w

/-- A run: any events in any order. -/
def World.run (w : World ρ) (events : List (Event ρ)) : World ρ :=
  events.foldl (World.step sha256 request key) w

/-- The table before, with no row under the key. -/
def World.opening (rows : List (Row ρ)) : World ρ := ⟨rows, fun _ => .start, .unsubmitted⟩

end

/-- Every answer is the result stored under the key, nobody is told of a conflict, and the
run has not collided. -/
structure Fulfilled (key : Str) (w : World ρ) : Prop where
  answered : ∀ i result, w.phase i = .answered result →
    ∃ row ∈ w.rows, row.idempotencyKey = some key ∧ row.result = result
  served : ∀ i, w.phase i ≠ .conflict ∧ w.phase i ≠ .unavailable
  published : ∀ hash result, w.publication ≠ .collided hash result

/-- Whether the asynchronous run has its row. -/
def World.published (w : World ρ) : Prop := ∃ row ∈ w.rows, row.runId = .lifecycle

/-- Whether a synchronous call has stored its result. -/
def World.called (w : World ρ) : Prop := ∃ row ∈ w.rows, ∃ i, row.runId = .handler i

/-- The condition on a step: a call that is about to look the key up, the run being published,
carries a request that leaves nothing null; and the run is published before any call has
stored its result. -/
def Clear (request : InvocationRequest) (w : World ρ) : Event ρ → Prop
  | .lookup i => w.phase i = .start → w.published → nothingNull request = true
  | .recover i => (∃ result, w.phase i = .failed result) → w.published →
      nothingNull request = true
  | .publish => w.publication.pending.isSome = true → ¬w.called
  | _ => True

theorem filter_assign (name : Str) (value : Tree) (values : FieldValues) :
    (assign name value values).filter (fun f => f.1 != name) =
      values.filter fun f => f.1 != name := by
  unfold assign
  induction values with
  | nil => rfl
  | cons f rest ih =>
      by_cases hname : f.1 = name
      · simp [hname, ih]
      · simp [hname, ih]

/-- The assigned field holds what it was assigned, where it is declared. -/
theorem find_assign (name : Str) (value : Tree) (values : FieldValues) :
    (assign name value values).find? (fun f => f.1 = name) =
      (values.find? fun f => f.1 = name).map fun f => (f.1, f.2.1, value) := by
  unfold assign
  induction values with
  | nil => rfl
  | cons f rest ih =>
      by_cases hname : f.1 = name
      · simp [hname]
      · simp [hname, ih]

/-- The key a submission fills in is no part of its digest. -/
theorem normalizedRequestDigest_withIdempotencyKey (sha256 : Str → Str) (key : Str)
    (request : InvocationRequest) :
    normalizedRequestDigest sha256 (withIdempotencyKey key request) =
      normalizedRequestDigest sha256 request := by
  cases request with
  | sharedContractV2 values => rfl
  | envelope e =>
      rw [normalizedRequestDigest, normalizedRequestDigest, InvocationRequest.normalizedText,
        InvocationRequest.normalizedText, withIdempotencyKey, InvocationRequest.modelDump,
        InvocationRequest.modelDump, InvokeRequestEnvelope.members, InvokeRequestEnvelope.members,
        filter_assign]

/-- A request that carries the key keeps it. -/
theorem effectiveIdempotencyKey_withIdempotencyKey {key : Str} {request : InvocationRequest}
    (h : effectiveIdempotencyKey request = some key) :
    effectiveIdempotencyKey (withIdempotencyKey key request) = some key := by
  cases request with
  | sharedContractV2 values => exact h
  | envelope e =>
      rw [effectiveIdempotencyKey, textField, Tree.field, List.find?_append] at h
      rw [withIdempotencyKey, effectiveIdempotencyKey, textField, Tree.field, List.find?_append,
        find_assign]
      cases hleading : e.leading.find? fun f => f.1 = "idempotency_key".toList with
      | some f =>
          rw [hleading] at h
          exact h
      | none =>
          cases htrailing : e.trailing.find? fun f => f.1 = "idempotency_key".toList with
          | some f => rfl
          | none =>
              rw [hleading, htrailing] at h
              cases h

theorem mem_of_getByIdempotencyKey {rows : List (Row ρ)} {key : Str} {row : Row ρ}
    (h : getByIdempotencyKey rows key = some row) :
    row ∈ rows ∧ row.idempotencyKey = some key :=
  ⟨List.mem_of_find?_eq_some h, by simpa using List.find?_some h⟩

/-- Nothing is found when no row is under the key. -/
theorem getByIdempotencyKey_eq_none {rows : List (Row ρ)} {key : Str} :
    getByIdempotencyKey rows key = none ↔ ∀ row ∈ rows, row.idempotencyKey ≠ some key := by
  simp [getByIdempotencyKey]

/-- An insertion fails on a row of the same run or key. -/
theorem insert_eq_none {rows : List (Row ρ)} {row : Row ρ} {key : Str}
    (hkey : row.idempotencyKey = some key) :
    insert rows row = none ↔
      ∃ other ∈ rows, other.runId = row.runId ∨ other.idempotencyKey = some key := by
  unfold insert
  rw [hkey, ite_eq_left_iff, not_imp_comm]
  simp

theorem insert_eq_some {rows rows' : List (Row ρ)} {row : Row ρ}
    (h : insert rows row = some rows') : rows' = rows ++ [row] := by
  unfold insert at h
  split_ifs at h
  exact (Option.some.inj h).symm

section

variable [DecidableEq ρ]

/-- Saving under a key: the run is stored already, or it is added where nothing is under
the key. -/
theorem saveCompletedRun_eq_some {rows rows' : List (Row ρ)} {row : Row ρ} {key : Str}
    (hkey : row.idempotencyKey = some key) (h : saveCompletedRun rows row = some rows') :
    (rows' = rows ∧
        ∃ stored ∈ rows, stored.runId = row.runId ∧ stored.result = row.result) ∨
      (rows' = rows ++ [row] ∧ ∀ other ∈ rows, other.idempotencyKey ≠ some key) := by
  unfold saveCompletedRun at h
  cases hrun : getRun rows row.runId with
  | some stored =>
      rw [hrun] at h
      simp only at h
      split_ifs at h with hresult
      refine .inl ⟨(Option.some.inj h).symm, stored, List.mem_of_find?_eq_some hrun, ?_,
        hresult⟩
      simpa using List.find?_some hrun
  | none =>
      rw [hrun] at h
      refine .inr ⟨insert_eq_some h, fun other hother hsame => ?_⟩
      have hnone := (insert_eq_none hkey).mpr ⟨other, hother, .inr hsame⟩
      rw [hnone] at h
      cases h

/-- Saving under a key fails where the run is stored with another result, or the key is
taken. -/
theorem saveCompletedRun_eq_none {rows : List (Row ρ)} {row : Row ρ} {key : Str}
    (hkey : row.idempotencyKey = some key) (h : saveCompletedRun rows row = none) :
    (∃ stored ∈ rows, stored.runId = row.runId ∧ stored.result ≠ row.result) ∨
      ((∀ other ∈ rows, other.runId ≠ row.runId) ∧
        ∃ other ∈ rows, other.idempotencyKey = some key) := by
  unfold saveCompletedRun at h
  cases hrun : getRun rows row.runId with
  | some stored =>
      rw [hrun] at h
      simp only at h
      split_ifs at h with hresult
      refine .inl ⟨stored, List.mem_of_find?_eq_some hrun, ?_, hresult⟩
      simpa using List.find?_some hrun
  | none =>
      rw [hrun] at h
      have habsent : ∀ other ∈ rows, other.runId ≠ row.runId := by
        simpa [getRun] using hrun
      refine .inr ⟨habsent, ?_⟩
      obtain ⟨other, hother, hrunId | hsame⟩ := (insert_eq_none hkey).mp h
      · exact absurd hrunId (habsent other hother)
      · exact ⟨other, hother, hsame⟩

end

section

variable {sha256 : Str → Str} {request : InvocationRequest} {key : Str}

/-- What the rows of a world are, and what its calls and its run know of them. -/
structure Sound (sha256 : Str → Str) (request : InvocationRequest) (key : Str)
    (w : World ρ) : Prop where
  called : ∀ row ∈ w.rows, ∀ i, row.runId = .handler i → row.idempotencyKey = some key ∧
    row.requestHash = canonicalRequestHash sha256 request ∧
      ∃ result, w.phase i = .answered result
  published : ∀ row ∈ w.rows, row.runId = .lifecycle → row.idempotencyKey = some key ∧
    row.requestHash = normalizedRequestDigest sha256 request ∧
      submittable request key = true ∧
      ((∃ hash, w.publication = .saved hash row.result) ∨ w.publication = .completed row.result)
  keyed : ∀ row ∈ w.rows, row.idempotencyKey = some key →
    row.runId = .lifecycle ∨ ∃ i, row.runId = .handler i
  single : ∀ row ∈ w.rows, ∀ other ∈ w.rows, row.idempotencyKey = some key →
    other.idempotencyKey = some key → row = other
  failed : ∀ i result, w.phase i = .failed result →
    ∃ row ∈ w.rows, row.idempotencyKey = some key
  submitted : ∀ digest, w.publication = .accepted digest ∨
      (∃ result, w.publication.pending = some (digest, result)) →
    digest = normalizedRequestDigest sha256 request ∧ submittable request key = true

/-- A call that moves on without saving keeps what is known. -/
theorem Sound.setPhase {w : World ρ} (h : Sound sha256 request key w) (i : Nat) {p : Phase ρ}
    (hcurrent : ∀ result, w.phase i ≠ .answered result)
    (hfailed : ∀ result, p = .failed result →
      ∃ row ∈ w.rows, row.idempotencyKey = some key) :
    Sound sha256 request key (w.setPhase i p) where
  called row hrow j hj := by
    obtain ⟨hkey, hhash, result, hphase⟩ := h.called row hrow j hj
    have hne : j ≠ i := by
      rintro rfl
      exact hcurrent result hphase
    refine ⟨hkey, hhash, result, ?_⟩
    rw [World.setPhase_phase, if_neg hne]
    exact hphase
  published := h.published
  keyed := h.keyed
  single := h.single
  failed j result hphase := by
    rw [World.setPhase_phase] at hphase
    split_ifs at hphase
    · exact hfailed result hphase
    · exact h.failed j result hphase
  submitted := h.submitted

/-- The first row under the key keeps what is known, whoever stores it. -/
theorem Sound.append {w w' : World ρ} {row : Row ρ} (h : Sound sha256 request key w)
    (hfree : ∀ other ∈ w.rows, other.idempotencyKey ≠ some key)
    (hkey : row.idempotencyKey = some key) (hrows : w'.rows = w.rows ++ [row])
    (hnew : (∃ i, row.runId = .handler i ∧
          row.requestHash = canonicalRequestHash sha256 request ∧
            ∃ result, w'.phase i = .answered result) ∨
        (row.runId = .lifecycle ∧ row.requestHash = normalizedRequestDigest sha256 request ∧
          submittable request key = true ∧ ∃ hash, w'.publication = .saved hash row.result))
    (hsubmitted : ∀ digest, w'.publication = .accepted digest ∨
        (∃ result, w'.publication.pending = some (digest, result)) →
      digest = normalizedRequestDigest sha256 request ∧ submittable request key = true) :
    Sound sha256 request key w' where
  called other hother j hj := by
    rw [hrows] at hother
    rcases List.mem_append.mp hother with hold | hnewest
    · exact absurd (h.called other hold j hj).1 (hfree other hold)
    · obtain rfl := List.mem_singleton.mp hnewest
      rcases hnew with ⟨i, hi, hhash, hresult⟩ | ⟨hlifecycle, -⟩
      · obtain rfl : j = i := RunId.handler.inj (hj.symm.trans hi)
        exact ⟨hkey, hhash, hresult⟩
      · cases hj.symm.trans hlifecycle
  published other hother hj := by
    rw [hrows] at hother
    rcases List.mem_append.mp hother with hold | hnewest
    · exact absurd (h.published other hold hj).1 (hfree other hold)
    · obtain rfl := List.mem_singleton.mp hnewest
      rcases hnew with ⟨i, hi, -⟩ | ⟨-, hhash, hsubmit, hsaved⟩
      · cases hj.symm.trans hi
      · exact ⟨hkey, hhash, hsubmit, .inl hsaved⟩
  keyed other hother hsame := by
    rw [hrows] at hother
    rcases List.mem_append.mp hother with hold | hnewest
    · exact absurd hsame (hfree other hold)
    · obtain rfl := List.mem_singleton.mp hnewest
      rcases hnew with ⟨i, hi, -⟩ | ⟨hlifecycle, -⟩
      · exact .inr ⟨i, hi⟩
      · exact .inl hlifecycle
  single other hother other' hother' hsame hsame' := by
    rw [hrows] at hother hother'
    rcases List.mem_append.mp hother with hold | hnewest
    · exact absurd hsame (hfree other hold)
    · rcases List.mem_append.mp hother' with hold' | hnewest'
      · exact absurd hsame' (hfree other' hold')
      · rw [List.mem_singleton.mp hnewest, List.mem_singleton.mp hnewest']
  failed _ _ _ := by
    refine ⟨row, ?_, hkey⟩
    rw [hrows]
    exact List.mem_append_right _ List.mem_cons_self
  submitted := hsubmitted

/-- A call that is still translating has no row. -/
theorem Sound.not_saved {w : World ρ} (h : Sound sha256 request key w) {i : Nat} {result : ρ}
    (hphase : w.phase i = .translated result) : ∀ row ∈ w.rows, row.runId ≠ .handler i := by
  intro row hrow hid
  obtain ⟨-, -, other, hanswered⟩ := h.called row hrow i hid
  rw [hphase] at hanswered
  cases hanswered

/-- The row of the run holds what is being published. -/
theorem Sound.result_eq {w : World ρ} (h : Sound sha256 request key w) {hash : Str} {result : ρ}
    (hpending : w.publication.pending = some (hash, result)) {row : Row ρ} (hrow : row ∈ w.rows)
    (hid : row.runId = .lifecycle) : row.result = result := by
  obtain ⟨-, -, -, ⟨hash', hsaved⟩ | hcompleted⟩ := h.published row hrow hid
  · rw [hsaved] at hpending
    exact (Prod.mk.inj (Option.some.inj hpending)).2
  · rw [hcompleted] at hpending
    cases hpending

/-- The run moves on without saving. -/
theorem Sound.setPublication {w : World ρ} (h : Sound sha256 request key w) (p : Publication ρ)
    (hpublished : ∀ row ∈ w.rows, row.runId = .lifecycle →
      (∃ hash, p = .saved hash row.result) ∨ p = .completed row.result)
    (hsubmitted : ∀ digest, p = .accepted digest ∨
        (∃ result, p.pending = some (digest, result)) →
      digest = normalizedRequestDigest sha256 request ∧ submittable request key = true) :
    Sound sha256 request key { w with publication := p } where
  called := h.called
  published row hrow hid := by
    obtain ⟨hkey, hhash, hsubmit, -⟩ := h.published row hrow hid
    exact ⟨hkey, hhash, hsubmit, hpublished row hrow hid⟩
  keyed := h.keyed
  single := h.single
  failed := h.failed
  submitted := hsubmitted

/-- Before the run saves it has no row. -/
theorem Sound.not_published {w : World ρ} (h : Sound sha256 request key w)
    (hpublication : ∀ result, (∀ hash, w.publication ≠ .saved hash result) ∧
      w.publication ≠ .completed result) : ∀ row ∈ w.rows, row.runId ≠ .lifecycle := by
  intro row hrow hid
  obtain ⟨-, -, -, ⟨hash, hsaved⟩ | hcompleted⟩ := h.published row hrow hid
  · exact (hpublication _).1 hash hsaved
  · exact (hpublication _).2 hcompleted

variable [DecidableEq ρ]

/-- **Steps.**  Every statement keeps what is known. -/
theorem Sound.step (hkey : effectiveIdempotencyKey request = some key) {w : World ρ}
    (h : Sound sha256 request key w) (e : Event ρ) :
    Sound sha256 request key (w.step sha256 request key e) := by
  cases e with
  | lookup i =>
      unfold World.step
      dsimp only
      rw [hkey]
      cases hphase : w.phase i with
      | start =>
          have hcurrent : ∀ result, w.phase i ≠ .answered result := by simp [hphase]
          dsimp only
          cases getByIdempotencyKey w.rows key with
          | none => exact h.setPhase i hcurrent nofun
          | some row =>
              dsimp only
              split_ifs
              · exact h.setPhase i hcurrent nofun
              · exact h.setPhase i hcurrent nofun
      | _ => exact h
  | translate i outcome =>
      unfold World.step
      dsimp only
      cases hphase : w.phase i with
      | missed =>
          have hcurrent : ∀ result, w.phase i ≠ .answered result := by simp [hphase]
          cases outcome with
          | ok result => exact h.setPhase i hcurrent nofun
          | error status => exact h.setPhase i hcurrent nofun
      | _ => exact h
  | save i =>
      unfold World.step
      dsimp only
      cases hphase : w.phase i with
      | translated result =>
          have habsent := h.not_saved hphase
          dsimp only
          cases hsaved : saveCompletedRun w.rows ⟨.handler i, effectiveIdempotencyKey request,
              canonicalRequestHash sha256 request, result⟩ with
          | some rows =>
              rcases saveCompletedRun_eq_some hkey hsaved with
                ⟨-, row, hrow, hid, -⟩ | ⟨rfl, hfree⟩
              · exact absurd hid (habsent row hrow)
              · refine h.append hfree hkey rfl (.inl ⟨i, rfl, rfl, result, ?_⟩) h.submitted
                exact Function.update_self ..
          | none =>
              refine h.setPhase i (by simp [hphase]) fun _ _ => ?_
              rcases saveCompletedRun_eq_none hkey hsaved with
                ⟨row, hrow, hid, -⟩ | ⟨-, htaken⟩
              · exact absurd hid (habsent row hrow)
              · exact htaken
      | _ => exact h
  | recover i =>
      unfold World.step
      dsimp only
      rw [hkey]
      cases hphase : w.phase i with
      | failed result =>
          have hcurrent : ∀ result, w.phase i ≠ .answered result := by simp [hphase]
          dsimp only
          cases getByIdempotencyKey w.rows key with
          | none => exact h.setPhase i hcurrent nofun
          | some row =>
              dsimp only
              split_ifs
              · exact h.setPhase i hcurrent nofun
              · exact h.setPhase i hcurrent nofun
      | _ => exact h
  | submit =>
      unfold World.step
      dsimp only
      cases hpublication : w.publication with
      | unsubmitted =>
          have habsent := h.not_published (by simp [hpublication])
          dsimp only
          split_ifs with hsubmittable
          · refine h.setPublication _ (fun row hrow hid => absurd hid (habsent row hrow)) ?_
            rintro digest (hdigest | ⟨result, hpending⟩)
            · rw [← Publication.accepted.inj hdigest, normalizedRequestDigest_withIdempotencyKey]
              exact ⟨rfl, hsubmittable⟩
            · cases hpending
          · refine h.setPublication _ (fun row hrow hid => absurd hid (habsent row hrow)) ?_
            rintro digest (hdigest | ⟨result, hpending⟩)
            · cases hdigest
            · cases hpending
      | _ => exact h
  | prepare result =>
      unfold World.step
      dsimp only
      cases hpublication : w.publication with
      | accepted digest =>
          have habsent := h.not_published (by simp [hpublication])
          refine h.setPublication _ (fun row hrow hid => absurd hid (habsent row hrow)) ?_
          rintro digest' (hdigest | ⟨result', hpending⟩)
          · cases hdigest
          · obtain rfl := (Prod.mk.inj (Option.some.inj hpending)).1
            exact h.submitted _ (.inl hpublication)
      | _ => exact h
  | publish =>
      unfold World.step
      dsimp only
      cases hpending : w.publication.pending with
      | none => exact h
      | some saved =>
          obtain ⟨hash, result⟩ := saved
          obtain ⟨hhash, hsubmittable⟩ := h.submitted hash (.inr ⟨result, hpending⟩)
          have hown := effectiveIdempotencyKey_withIdempotencyKey hkey
          have hsubmitted : ∀ (p : Publication ρ), p.pending = some (hash, result) →
              (∀ digest, p ≠ .accepted digest) → ∀ digest, p = .accepted digest ∨
                (∃ result, p.pending = some (digest, result)) →
              digest = normalizedRequestDigest sha256 request ∧
                submittable request key = true := by
            rintro p hp hne digest (hdigest | ⟨result', hother⟩)
            · exact absurd hdigest (hne digest)
            · obtain ⟨rfl, -⟩ := Prod.mk.inj (Option.some.inj (hp.symm.trans hother))
              exact ⟨hhash, hsubmittable⟩
          dsimp only
          cases hsaved : saveCompletedRun w.rows ⟨.lifecycle,
              effectiveIdempotencyKey (withIdempotencyKey key request), hash, result⟩ with
          | some rows =>
              rcases saveCompletedRun_eq_some hown hsaved with ⟨rfl, -⟩ | ⟨rfl, hfree⟩
              · refine h.setPublication _ (fun row hrow hid => ?_) (hsubmitted _ rfl nofun)
                rw [h.result_eq hpending hrow hid]
                exact .inl ⟨hash, rfl⟩
              · exact h.append hfree hown rfl
                  (.inr ⟨rfl, hhash, hsubmittable, hash, rfl⟩) (hsubmitted _ rfl nofun)
          | none =>
              refine h.setPublication _ (fun row hrow hid => ?_) (hsubmitted _ rfl nofun)
              rcases saveCompletedRun_eq_none hown hsaved with
                ⟨row', hrow', hid', hresult⟩ | ⟨habsent, -⟩
              · exact absurd (h.result_eq hpending hrow' hid') hresult
              · exact absurd hid (habsent row hrow)
  | complete =>
      unfold World.step
      dsimp only
      cases hpublication : w.publication with
      | saved hash result =>
          refine h.setPublication _ (fun row hrow hid => ?_) ?_
          · have hpending : w.publication.pending = some (hash, result) := by
              rw [hpublication]
              rfl
            rw [h.result_eq hpending hrow hid]
            exact .inr rfl
          · rintro digest (hdigest | ⟨result', hpending⟩)
            · cases hdigest
            · cases hpending
      | _ => exact h

omit [DecidableEq ρ] in
/-- The row under the key carries the hash of a call, unless the run is published and its
digest is another. -/
theorem Sound.hash_eq_iff (hsha : Function.Injective sha256) {V : Validators Kind}
    {trim : Str → Str} {body : JsonValue} (hread : readRequest V trim body = some request)
    {w : World ρ} (h : Sound sha256 request key w) {row : Row ρ} (hrow : row ∈ w.rows)
    (hkeyed : row.idempotencyKey = some key) :
    row.requestHash = canonicalRequestHash sha256 request ↔
      (w.published → nothingNull request = true) := by
  rcases h.keyed row hrow hkeyed with hlifecycle | ⟨i, hi⟩
  · obtain ⟨-, hhash, hsubmittable, -⟩ := h.published row hrow hlifecycle
    have hcorrelation : (textField "correlation_id" request).isSome = true := by
      simp only [submittable, Bool.and_eq_true] at hsubmittable
      exact hsubmittable.1.2
    rw [hhash, eq_comm, digests_eq_iff hsha hread hcorrelation]
    exact ⟨fun hnull _ => hnull, fun hnull => hnull ⟨row, hrow, hlifecycle⟩⟩
  · refine iff_of_true (h.called row hrow i hi).2.1 ?_
    rintro ⟨other, hother, hlifecycle⟩
    have hsame := h.single row hrow other hother hkeyed (h.published other hother hlifecycle).1
    rw [← hsame, hi] at hlifecycle
    cases hlifecycle

omit [DecidableEq ρ] in
/-- Moving a handler on keeps the key fulfilled, if it ends in neither error. -/
theorem Fulfilled.setPhase {w : World ρ} (h : Fulfilled key w) (i : Nat) {p : Phase ρ}
    (hp : p ≠ .conflict ∧ p ≠ .unavailable)
    (hanswered : ∀ result, p = .answered result →
      ∃ row ∈ w.rows, row.idempotencyKey = some key ∧ row.result = result) :
    Fulfilled key (w.setPhase i p) where
  answered j result hphase := by
    rw [World.setPhase_phase] at hphase
    split_ifs at hphase
    · exact hanswered result hphase
    · exact h.answered j result hphase
  served j := by
    rw [World.setPhase_phase]
    split_ifs
    · exact hp
    · exact h.served j
  published := h.published

omit [DecidableEq ρ] in
/-- A handler that ends in either error leaves the key unfulfilled. -/
theorem not_fulfilled_setPhase {w : World ρ} (i : Nat) {p : Phase ρ}
    (hp : p = .conflict ∨ p = .unavailable) : ¬Fulfilled key (w.setPhase i p) := by
  intro h
  have hserved := h.served i
  rw [World.setPhase_phase, if_pos rfl] at hserved
  rcases hp with rfl | rfl
  · exact hserved.1 rfl
  · exact hserved.2 rfl

omit [DecidableEq ρ] in
/-- Moving the publication on keeps the key fulfilled, unless it collides. -/
theorem Fulfilled.setPublication {w : World ρ} (h : Fulfilled key w) {p : Publication ρ}
    (hp : ∀ hash result, p ≠ .collided hash result) :
    Fulfilled key { w with publication := p } :=
  ⟨h.answered, h.served, hp⟩

omit [DecidableEq ρ] in
/-- More rows answer no less. -/
theorem Fulfilled.append {w : World ρ} (h : Fulfilled key w) (row : Row ρ) :
    Fulfilled key { w with rows := w.rows ++ [row] } where
  answered i result hphase := by
    obtain ⟨other, hother, hsame⟩ := h.answered i result hphase
    exact ⟨other, List.mem_append_left _ hother, hsame⟩
  served := h.served
  published := h.published

/-- **One step.**  A statement fulfils exactly where it is clear. -/
theorem fulfilled_step_iff (hsha : Function.Injective sha256) {V : Validators Kind}
    {trim : Str → Str} {body : JsonValue} (hread : readRequest V trim body = some request)
    (hkey : effectiveIdempotencyKey request = some key) {w : World ρ}
    (h : Sound sha256 request key w) (hf : Fulfilled key w) (e : Event ρ) :
    Fulfilled key (w.step sha256 request key e) ↔ Clear request w e := by
  cases e with
  | lookup i =>
      unfold World.step Clear
      dsimp only
      rw [hkey]
      cases hphase : w.phase i with
      | start =>
          dsimp only
          cases hfound : getByIdempotencyKey w.rows key with
          | none =>
              have hnone := getByIdempotencyKey_eq_none.mp hfound
              refine iff_of_true (hf.setPhase i ⟨nofun, nofun⟩ nofun) ?_
              rintro - ⟨row, hrow, hlifecycle⟩
              exact absurd (h.published row hrow hlifecycle).1 (hnone row hrow)
          | some row =>
              obtain ⟨hrow, hkeyed⟩ := mem_of_getByIdempotencyKey hfound
              have hhash := h.hash_eq_iff hsha hread hrow hkeyed
              dsimp only
              split_ifs with hsame
              · refine iff_of_true (hf.setPhase i ⟨nofun, nofun⟩ ?_) fun _ => hhash.mp hsame
                rintro result hresult
                exact ⟨row, hrow, hkeyed, Phase.answered.inj hresult⟩
              · exact iff_of_false (not_fulfilled_setPhase i (.inl rfl))
                  fun hclear => hsame (hhash.mpr (hclear rfl))
      | _ => exact iff_of_true hf nofun
  | translate i outcome =>
      unfold World.step
      dsimp only
      refine iff_of_true ?_ trivial
      cases hphase : w.phase i with
      | missed =>
          cases outcome with
          | ok result => exact hf.setPhase i ⟨nofun, nofun⟩ nofun
          | error status => exact hf.setPhase i ⟨nofun, nofun⟩ nofun
      | _ => exact hf
  | save i =>
      unfold World.step
      dsimp only
      refine iff_of_true ?_ trivial
      cases hphase : w.phase i with
      | translated result =>
          dsimp only
          cases hsaved : saveCompletedRun w.rows ⟨.handler i, effectiveIdempotencyKey request,
              canonicalRequestHash sha256 request, result⟩ with
          | some rows =>
              rcases saveCompletedRun_eq_some hkey hsaved with
                ⟨-, row, hrow, hid, -⟩ | ⟨rfl, -⟩
              · exact absurd hid (h.not_saved hphase row hrow)
              · refine (hf.append _).setPhase i ⟨nofun, nofun⟩ ?_
                rintro result' hresult
                exact ⟨_, List.mem_append_right _ List.mem_cons_self, hkey,
                  Phase.answered.inj hresult⟩
          | none => exact hf.setPhase i ⟨nofun, nofun⟩ nofun
      | _ => exact hf
  | recover i =>
      unfold World.step Clear
      dsimp only
      rw [hkey]
      cases hphase : w.phase i with
      | failed result =>
          dsimp only
          cases hfound : getByIdempotencyKey w.rows key with
          | none =>
              obtain ⟨row, hrow, hkeyed⟩ := h.failed i result hphase
              exact absurd hkeyed (getByIdempotencyKey_eq_none.mp hfound row hrow)
          | some row =>
              obtain ⟨hrow, hkeyed⟩ := mem_of_getByIdempotencyKey hfound
              have hhash := h.hash_eq_iff hsha hread hrow hkeyed
              dsimp only
              split_ifs with hsame
              · refine iff_of_true (hf.setPhase i ⟨nofun, nofun⟩ ?_) fun _ => hhash.mp hsame
                rintro result hresult
                exact ⟨row, hrow, hkeyed, Phase.answered.inj hresult⟩
              · exact iff_of_false (not_fulfilled_setPhase i (.inr rfl))
                  fun hclear => hsame (hhash.mpr (hclear ⟨result, rfl⟩))
      | _ => exact iff_of_true hf fun hfailed => nomatch hfailed
  | submit =>
      unfold World.step
      dsimp only
      refine iff_of_true ?_ trivial
      cases w.publication with
      | unsubmitted =>
          dsimp only
          split_ifs
          · exact hf.setPublication nofun
          · exact hf.setPublication nofun
      | _ => exact hf
  | prepare result =>
      unfold World.step
      dsimp only
      refine iff_of_true ?_ trivial
      cases w.publication with
      | accepted digest => exact hf.setPublication nofun
      | _ => exact hf
  | publish =>
      unfold World.step Clear
      dsimp only
      cases hpending : w.publication.pending with
      | none => exact iff_of_true hf nofun
      | some saved =>
          obtain ⟨hash, result⟩ := saved
          have hown := effectiveIdempotencyKey_withIdempotencyKey hkey
          dsimp only
          cases hsaved : saveCompletedRun w.rows ⟨.lifecycle,
              effectiveIdempotencyKey (withIdempotencyKey key request), hash, result⟩ with
          | some rows =>
              rcases saveCompletedRun_eq_some hown hsaved with
                ⟨rfl, row, hrow, hlifecycle, -⟩ | ⟨rfl, hfree⟩
              · refine iff_of_true (hf.setPublication nofun) ?_
                rintro - ⟨other, hother, i, hi⟩
                have hsame := h.single row hrow other hother (h.published row hrow hlifecycle).1
                  (h.called other hother i hi).1
                rw [hsame, hi] at hlifecycle
                cases hlifecycle
              · refine iff_of_true ((hf.append _).setPublication nofun) ?_
                rintro - ⟨other, hother, i, hi⟩
                exact hfree other hother (h.called other hother i hi).1
          | none =>
              refine iff_of_false (fun hcollided => hcollided.published hash result rfl) ?_
              intro hclear
              refine hclear rfl ?_
              rcases saveCompletedRun_eq_none hown hsaved with
                ⟨row, hrow, hid, hresult⟩ | ⟨habsent, row, hrow, hkeyed⟩
              · exact absurd (h.result_eq hpending hrow hid) hresult
              · rcases h.keyed row hrow hkeyed with hlifecycle | ⟨i, hi⟩
                · exact absurd hlifecycle (habsent row hrow)
                · exact ⟨row, hrow, i, hi⟩
  | complete =>
      unfold World.step
      dsimp only
      refine iff_of_true ?_ trivial
      cases w.publication with
      | saved hash result => exact hf.setPublication nofun
      | _ => exact hf

/-- The runs of a sound world that fulfil so far. -/
theorem fulfilled_run_iff (hsha : Function.Injective sha256) {V : Validators Kind}
    {trim : Str → Str} {body : JsonValue} (hread : readRequest V trim body = some request)
    (hkey : effectiveIdempotencyKey request = some key) (events : List (Event ρ)) :
    ∀ w : World ρ, Sound sha256 request key w → Fulfilled key w →
      ((∀ done, done <+: events → Fulfilled key (w.run sha256 request key done)) ↔
        ∀ done e, done ++ [e] <+: events →
          Clear request (w.run sha256 request key done) e) := by
  induction events with
  | nil =>
      intro w h hf
      refine iff_of_true ?_ ?_
      · intro done hdone
        rw [List.prefix_nil.mp hdone]
        exact hf
      · intro done e hdone
        exact absurd (List.prefix_nil.mp hdone) (by simp)
  | cons e rest ih =>
      intro w h hf
      have hstep := fulfilled_step_iff hsha hread hkey h hf e
      have hsound := h.step hkey e
      constructor
      · intro hall done e' hdone
        have hf' : Fulfilled key (w.step sha256 request key e) := hall [e] (by simp)
        cases done with
        | nil =>
            obtain ⟨rfl, -⟩ := List.cons_prefix_cons.mp hdone
            exact hstep.mp hf'
        | cons d done =>
            obtain ⟨rfl, hrest⟩ := List.cons_prefix_cons.mp hdone
            refine (ih _ hsound hf').mp (fun more hmore => ?_) done e' hrest
            exact hall (d :: more) (List.cons_prefix_cons.mpr ⟨rfl, hmore⟩)
      · intro hclear done hdone
        have hf' : Fulfilled key (w.step sha256 request key e) :=
          hstep.mpr (hclear [] e (by simp))
        cases done with
        | nil => exact hf
        | cons d done =>
            obtain ⟨rfl, hrest⟩ := List.cons_prefix_cons.mp hdone
            refine (ih _ hsound hf').mpr (fun more e' hmore => ?_) done hrest
            exact hclear (d :: more) e' (List.cons_prefix_cons.mpr ⟨rfl, hmore⟩)

omit [DecidableEq ρ] in
/-- Before anything happens under the key. -/
theorem sound_opening {rows : List (Row ρ)}
    (hrows : ∀ row ∈ rows, (∃ n, row.runId = .other n) ∧ row.idempotencyKey ≠ some key) :
    Sound sha256 request key (World.opening rows) := by
  refine ⟨?_, ?_, ?_, ?_, nofun, ?_⟩
  · intro row hrow i hi
    obtain ⟨⟨n, hn⟩, -⟩ := hrows row hrow
    cases hi.symm.trans hn
  · intro row hrow hi
    obtain ⟨⟨n, hn⟩, -⟩ := hrows row hrow
    cases hi.symm.trans hn
  · exact fun row hrow hkeyed => absurd hkeyed (hrows row hrow).2
  · exact fun row hrow _ _ hkeyed => absurd hkeyed (hrows row hrow).2
  · rintro digest (hdigest | ⟨result, hpending⟩)
    · cases hdigest
    · cases hpending

omit [DecidableEq ρ] in
theorem fulfilled_opening (rows : List (Row ρ)) : Fulfilled key (World.opening rows) :=
  ⟨nofun, fun _ => ⟨nofun, nofun⟩, nofun⟩

/-- **One key space.**  Whatever the request, the key and the order of the statements of one
asynchronous run and any number of synchronous calls, every state reached fulfils exactly
where every step taken is clear. -/
theorem fulfilled_iff (hsha : Function.Injective sha256) {V : Validators Kind}
    {trim : Str → Str} {body : JsonValue} (hread : readRequest V trim body = some request)
    (hkey : effectiveIdempotencyKey request = some key) {rows : List (Row ρ)}
    (hrows : ∀ row ∈ rows, (∃ n, row.runId = .other n) ∧ row.idempotencyKey ≠ some key)
    (events : List (Event ρ)) :
    (∀ done, done <+: events →
        Fulfilled key ((World.opening rows).run sha256 request key done)) ↔
      ∀ done e, done ++ [e] <+: events →
        Clear request ((World.opening rows).run sha256 request key done) e :=
  fulfilled_run_iff hsha hread hkey events _ (sound_opening hrows) (fulfilled_opening rows)

end

/-- Validators that take every scalar as it is. -/
def takingValidators : Validators Kind where
  read _ value :=
    match value with
    | .text s => some (.text s)
    | .number n => some (.number n)
    | .bool b => some (.bool b)
    | _ => none
  accepts _ _ := true

/-- A text member of the sample. -/
def textMember (name value : String) : Str × JsonValue := member name (.text value.toList)

/-- The locator of a completed result, with nothing left out. -/
def completedInput (capability contract state schema table : String) : JsonValue := .object [
  textMember "capability" capability, textMember "contract_id" contract, textMember "run_id" "r",
  textMember "result_id" (capability ++ "-result:r"), textMember "terminal_state" state,
  textMember "status" "completed", textMember "request_id" "q", textMember "correlation_id" "c",
  member "result_ref" (.object [textMember "system" "databricks",
    textMember "catalog" "36889_janus_dev", textMember "schema" schema, textMember "table" table,
    textMember "key" (capability ++ "-result:r")]),
  member "evidence_refs" (.array []),
  member "content_sha256" (.text ("sha256:".toList ++ List.replicate 64 '0')),
  member "size_bytes" (.number ['1']), textMember "created_at" "2026-01-01T00:00:00Z"]

/-- A shared-contract request that leaves nothing null. -/
def sharedBody : JsonValue := .object [
  textMember "contract_id" "control-translation@2.0", textMember "shared_contract_version" "2.0",
  textMember "profile_id" "waf-standard@2", textMember "request_id" "k",
  textMember "correlation_id" "c",
  member "upstream_inputs" (.array [
    completedInput "check-generation" "check-generation@2.1" "completed" "check_generation"
      "check_generation_results",
    completedInput "defense-generation" "defense-generation-result@1.0" "candidate-produced"
      "defense_generation" "defense_generation_results",
    completedInput "mitigation-check" "mitigation-check@1.0" "blocked" "mitigation-check"
      "mitigation_check",
    completedInput "bypass-validation" "bypass-validation@2.0" "no-bypass-found"
      "bypass_validation" "bypass_validation_results"]),
  member "target_context" (.object [textMember "target_technology" "akamai-waf",
    textMember "target_policy_context_id" "p"]),
  member "provenance" (.object [textMember "caller" "a", textMember "source" "b"])]

/-- The shared-contract body of the example is accepted. -/
theorem sharedBody_read :
    (readRequest takingValidators id sharedBody).any (fun request =>
      effectiveIdempotencyKey request == some ['k'] && submittable request ['k'] &&
        nothingNull request) = true := by
  decide +kernel

/-- A request that leaves nothing null, submitted, prepared, published and completed, is answered
with the stored result when it is called. -/
theorem fulfilled_iff_lookup : ∃ request,
    readRequest takingValidators id sharedBody = some request ∧
      (∀ done, done <+: [.submit, .prepare 0, .publish, .complete, .lookup 0] →
        Fulfilled ['k'] ((World.opening ([] : List (Row Nat))).run id request ['k'] done)) ∧
      ((World.opening ([] : List (Row Nat))).run id request ['k']
        [.submit, .prepare 0, .publish, .complete, .lookup 0]).phase 0 = .answered 0 := by
  have hfacts := sharedBody_read
  obtain ⟨request, hread⟩ :
      ∃ request, readRequest takingValidators id sharedBody = some request := by
    cases hread : readRequest takingValidators id sharedBody with
    | none =>
        rw [hread] at hfacts
        cases hfacts
    | some request => exact ⟨request, rfl⟩
  rw [hread, Option.any_some, Bool.and_eq_true, Bool.and_eq_true, beq_iff_eq] at hfacts
  obtain ⟨⟨hkey, hsubmittable⟩, hnull⟩ := hfacts
  have hown := effectiveIdempotencyKey_withIdempotencyKey hkey
  have hcorrelation : (textField "correlation_id" request).isSome = true := by
    simp only [submittable, Bool.and_eq_true] at hsubmittable
    exact hsubmittable.1.2
  have hsame := (digests_eq_iff Function.injective_id hread hcorrelation).mpr hnull
  refine ⟨request, hread, (fulfilled_iff Function.injective_id hread hkey
    (List.forall_mem_nil _) _).mpr fun done e hdone => ?_, ?_⟩
  · cases e with
    | lookup i => exact fun _ _ => hnull
    | recover i => exact fun _ _ => hnull
    | publish =>
        -- no call has stored anything, at any moment of this run
        rintro - ⟨row, hrow, i, hid⟩
        rcases done with _ | ⟨a, _ | ⟨b, _ | ⟨c, _ | ⟨d, done⟩⟩⟩⟩
        · simp at hdone
        · simp [List.cons_prefix_cons] at hdone
        · simp only [List.cons_append, List.nil_append, List.cons_prefix_cons] at hdone
          obtain ⟨rfl, rfl, -⟩ := hdone
          simp [World.run, World.step, World.opening, hsubmittable] at hrow
        · simp [List.cons_prefix_cons] at hdone
        · simp only [List.cons_append, List.cons_prefix_cons] at hdone
          obtain ⟨-, -, -, -, hlast⟩ := hdone
          cases done with
          | nil => simp at hlast
          | cons e done => simp [List.cons_prefix_cons] at hlast
    | _ => trivial
  · simp [World.run, World.step, World.opening, World.setPhase, saveCompletedRun, getRun, insert,
      getByIdempotencyKey, Publication.pending, hkey, hown, hsubmittable, hsame,
      normalizedRequestDigest_withIdempotencyKey]

/-- `{"request_id": "k", "correlation_id": "c", "idempotency_key": "k"}`. -/
def keyedBody : JsonValue := .object [member "request_id" (.text ['k']),
  member "correlation_id" (.text ['c']), member "idempotency_key" (.text ['k'])]

theorem keyedBody_read :
    (readRequest plainValidators id keyedBody).any (fun request =>
      effectiveIdempotencyKey request == some ['k'] && submittable request ['k'] &&
        !nothingNull request) = true := by
  decide +kernel

theorem exists_keyedBody : ∃ request, readRequest plainValidators id keyedBody = some request ∧
    effectiveIdempotencyKey request = some ['k'] ∧ submittable request ['k'] = true ∧
      nothingNull request = false := by
  have hfacts := keyedBody_read
  cases hread : readRequest plainValidators id keyedBody with
  | none =>
      rw [hread] at hfacts
      cases hfacts
  | some request =>
      rw [hread, Option.any_some, Bool.and_eq_true, Bool.and_eq_true, beq_iff_eq,
        Bool.not_eq_true'] at hfacts
      exact ⟨request, rfl, hfacts.1.1, hfacts.1.2, hfacts.2⟩

/-- An envelope submitted, published and then called again is answered with a conflict; called
first and then published, it collides. -/
theorem envelope_conflicts : ∃ request,
    readRequest plainValidators id keyedBody = some request ∧
      effectiveIdempotencyKey request = some ['k'] ∧ submittable request ['k'] = true ∧
      ∀ sha256, Function.Injective sha256 →
        (((World.opening []).run sha256 request ['k']
          [.submit, .prepare 0, .publish, .complete, .lookup 0]).phase 0 = .conflict) ∧
        ∃ hash, ((World.opening []).run sha256 request ['k']
          [.lookup 0, .translate 0 (.ok 0), .save 0, .submit, .prepare 0, .publish]).publication =
            .collided hash 0 := by
  obtain ⟨request, hread, hkey, hsubmittable, hnull⟩ := exists_keyedBody
  refine ⟨request, hread, hkey, hsubmittable, fun sha256 hsha => ?_⟩
  have hown := effectiveIdempotencyKey_withIdempotencyKey hkey
  have hcorrelation : (textField "correlation_id" request).isSome = true := by
    simp only [submittable, Bool.and_eq_true] at hsubmittable
    exact hsubmittable.1.2
  have hne : normalizedRequestDigest sha256 request ≠ canonicalRequestHash sha256 request := by
    intro hsame
    have htrue := (digests_eq_iff hsha hread hcorrelation).mp hsame.symm
    rw [hnull] at htrue
    cases htrue
  constructor
  · simp [World.run, World.step, World.opening, World.setPhase, saveCompletedRun, getRun, insert,
      getByIdempotencyKey, Publication.pending, hkey, hown, hsubmittable, hne,
      normalizedRequestDigest_withIdempotencyKey]
  · simp [World.run, World.step, World.opening, World.setPhase, saveCompletedRun, getRun, insert,
      getByIdempotencyKey, Publication.pending, hkey, hown, hsubmittable]

end SharedKeySpace
