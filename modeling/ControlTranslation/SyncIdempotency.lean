import ControlTranslation.PyText
import Mathlib.Data.List.MinMax

/-!
# Synchronous invocations under one key

A synchronous invocation looks its idempotency key up, translates, merges its
result into the table and answers once it has read the row back.  Each of these
is one statement, nothing is held between them, and any number of handlers may
be anywhere in the sequence.  The row is merged on the result identifier, which
every handler mints for itself, while retries are recognised by the key inside
the stored request: the table does not see that two rows carry one key.

What every interleaving keeps is that an answer is the result of a stored row.
That all answers to one key are one result needs more: no handler may miss the
row while another that missed it has yet to merge.  The invariants below follow
the handlers from the miss to the merge, where the key is open.
-/

namespace SyncInvoke

open PyText

/-- An invocation: the semantic fields of an envelope, or a shared-contract
request as a whole. -/
inductive InvocationRequest (β γ : Type)
  | invoke (requestId : Str) (idempotencyKey : Option Str) (semantic : β)
  | sharedContractV2 (requestId : Str) (content : γ)
  deriving DecidableEq

variable {β γ δ ρ : Type}

/-- `effective_idempotency_key`. -/
def InvocationRequest.effectiveIdempotencyKey : InvocationRequest β γ → Option Str
  | .invoke _ key _ => key
  | .sharedContractV2 requestId _ => some requestId

/-- `request_json:idempotency_key` of the stored request; a shared-contract
request has no such field. -/
def InvocationRequest.storedIdempotencyKey : InvocationRequest β γ → Option Str
  | .invoke _ key _ => key
  | .sharedContractV2 _ _ => none

/-- What `canonical_request_hash` hashes: an envelope without its transport and
retry identifiers, a shared-contract request whole. -/
def InvocationRequest.hashed : InvocationRequest β γ → β ⊕ (Str × γ)
  | .invoke _ _ semantic => .inl semantic
  | .sharedContractV2 requestId content => .inr (requestId, content)

/-- A result: the identifier minted for it and everything else. -/
structure ResultEnvelope (ρ : Type) where
  resultId : Nat
  content : ρ
  deriving DecidableEq

/-- A completed-run row. -/
structure Row (β γ ρ : Type) where
  request : InvocationRequest β γ
  result : ResultEnvelope ρ
  createdAt : Nat

/-- The rows stored under a key. -/
def stored (key : Str) (rows : List (Row β γ ρ)) : List (Row β γ ρ) :=
  rows.filter fun row => row.request.storedIdempotencyKey = some key

/-- The rows `ORDER BY created_at ASC` may put first. -/
def oldest (rows : List (Row β γ ρ)) : List (Row β γ ρ) :=
  rows.filter fun row => rows.all fun other => row.createdAt ≤ other.createdAt

/-- What the warehouse does with a lookup; among rows of one age it is free to
answer with any. -/
inductive Reply
  | failed
  | answered (choice : Nat)

/-- What a look for a key comes back with. -/
inductive Lookup (β γ ρ : Type)
  | unavailable
  | missing
  | found (row : Row β γ ρ)

/-- `get_by_idempotency_key`. -/
def getByIdempotencyKey (key : Str) (rows : List (Row β γ ρ)) : Reply → Lookup β γ ρ
  | .failed => .unavailable
  | .answered choice =>
      match (oldest (stored key rows))[choice % (oldest (stored key rows)).length]? with
      | some row => .found row
      | none => .missing

/-- `MERGE … ON result_id … WHEN NOT MATCHED THEN INSERT`. -/
def merge (rows : List (Row β γ ρ)) (row : Row β γ ρ) : List (Row β γ ρ) :=
  if rows.any fun other => other.result.resultId = row.result.resultId then rows
  else rows ++ [row]

/-- What becomes of the merge: an error may be reported although it committed. -/
inductive MergeOutcome
  | done
  | doneThenFailed
  | failed

/-- Where a handler stands. -/
inductive Phase (ρ : Type)
  | start
  | missed
  | translated (result : ResultEnvelope ρ) (startedAt : Nat)
  | merged (result : ResultEnvelope ρ)
  | failed (result : ResultEnvelope ρ)
  | answered (result : ResultEnvelope ρ)
  | refused (status : Nat)
  deriving DecidableEq

/-- Whether a handler missed the row and has yet to merge its own. -/
def Phase.pending : Phase ρ → Bool
  | .missed | .translated _ _ => true
  | _ => false

/-- What a handler does next, with what the outside answers. -/
inductive Move (ρ : Type)
  | lookup (reply : Reply)
  | translate (startedAt : Nat) (outcome : Except Nat ρ)
  | merge (outcome : MergeOutcome)
  | verify (failed : Bool)
  | recover (reply : Reply)

/-- A move and the handler that makes it. -/
structure Event (ρ : Type) where
  handler : Nat
  move : Move ρ

/-- The table, the handlers and how many identifiers were minted. -/
structure World (β γ ρ : Type) where
  rows : List (Row β γ ρ)
  phase : Nat → Phase ρ
  drawn : Nat

/-- Move one handler on. -/
def World.setPhase (w : World β γ ρ) (i : Nat) (p : Phase ρ) : World β γ ρ :=
  { w with phase := Function.update w.phase i p }

@[simp, grind =] theorem World.setPhase_rows (w : World β γ ρ) (i : Nat) (p : Phase ρ) :
    (w.setPhase i p).rows = w.rows := rfl

@[simp, grind =] theorem World.setPhase_drawn (w : World β γ ρ) (i : Nat) (p : Phase ρ) :
    (w.setPhase i p).drawn = w.drawn := rfl

@[simp, grind =] theorem World.setPhase_phase (w : World β γ ρ) (i j : Nat) (p : Phase ρ) :
    (w.setPhase i p).phase j = if j = i then p else w.phase j := Function.update_apply ..

/-- Before any handler runs. -/
def World.opening (rows : List (Row β γ ρ)) (drawn : Nat) : World β γ ρ :=
  ⟨rows, fun _ => .start, drawn⟩

section Handler

variable [DecidableEq β] [DecidableEq γ] [DecidableEq ρ]

/-- The answer to a handler whose lookup succeeded, by the hash of its request. -/
def lookedUp (request : InvocationRequest β γ) : Lookup β γ ρ → Phase ρ
  | .unavailable => .refused 503
  | .missing => .missed
  | .found row =>
      if row.request.hashed = request.hashed then .answered row.result else .refused 409

/-- The answer to a handler whose save failed. -/
def recovered (request : InvocationRequest β γ) : Lookup β γ ρ → Phase ρ
  | .found row =>
      if row.request.hashed = request.hashed then .answered row.result else .refused 503
  | _ => .refused 503

/-- The row a handler reads back, compared with what it wrote. -/
def readBack (rows : List (Row β γ ρ)) (result : ResultEnvelope ρ) : Phase ρ :=
  match rows.find? fun row => row.result.resultId = result.resultId with
  | some row => if row.result = result then .answered result else .failed result
  | none => .failed result

/-- One statement of one handler; `requests` are the requests being handled. -/
def World.step (requests : Nat → InvocationRequest β γ) (w : World β γ ρ) (e : Event ρ) :
    World β γ ρ :=
  match w.phase e.handler, e.move with
  | .start, .lookup reply =>
      match (requests e.handler).effectiveIdempotencyKey with
      | none => w.setPhase e.handler .missed
      | some key =>
          w.setPhase e.handler
            (lookedUp (requests e.handler) (getByIdempotencyKey key w.rows reply))
  | .missed, .translate startedAt (.ok content) =>
      { w.setPhase e.handler (.translated ⟨w.drawn, content⟩ startedAt) with
        drawn := w.drawn + 1 }
  | .missed, .translate _ (.error status) => w.setPhase e.handler (.refused status)
  | .translated result startedAt, .merge outcome =>
      let rows := merge w.rows ⟨requests e.handler, result, startedAt⟩
      match outcome with
      | .done => { w.setPhase e.handler (.merged result) with rows := rows }
      | .doneThenFailed => { w.setPhase e.handler (.failed result) with rows := rows }
      | .failed => w.setPhase e.handler (.failed result)
  | .merged result, .verify false => w.setPhase e.handler (readBack w.rows result)
  | .merged result, .verify true => w.setPhase e.handler (.failed result)
  | .failed _, .recover reply =>
      match (requests e.handler).effectiveIdempotencyKey with
      | none => w.setPhase e.handler (.refused 503)
      | some key =>
          w.setPhase e.handler
            (recovered (requests e.handler) (getByIdempotencyKey key w.rows reply))
  | _, _ => w

/-- A run: any events in any order. -/
def World.run (requests : Nat → InvocationRequest β γ) (w : World β γ ρ)
    (events : List (Event ρ)) : World β γ ρ :=
  events.foldl (World.step requests) w

/-- What one statement of a handler can do to the world, as far as rows and
answers are concerned. -/
inductive Change (requests : Nat → InvocationRequest β γ) (w : World β γ ρ) (i : Nat) :
    World β γ ρ → Prop
  | idle : Change requests w i w
  | miss (hstart : w.phase i = .start)
      (hopen : ∀ key, (requests i).effectiveIdempotencyKey = some key → stored key w.rows = []) :
      Change requests w i (w.setPhase i .missed)
  | mint (content : ρ) (startedAt : Nat) (hmissed : w.phase i = .missed) :
      Change requests w i
        { w.setPhase i (.translated ⟨w.drawn, content⟩ startedAt) with drawn := w.drawn + 1 }
  | save (result : ResultEnvelope ρ) (startedAt : Nat)
      (htranslated : w.phase i = .translated result startedAt) (p : Phase ρ)
      (hp : p = .merged result ∨ p = .failed result) :
      Change requests w i
        { w.setPhase i p with rows := merge w.rows ⟨requests i, result, startedAt⟩ }
  | answer (row : Row β γ ρ) (hrow : row ∈ w.rows)
      (hown : w.phase i = .merged row.result ∨
        row.request.hashed = (requests i).hashed ∧
          row.request.storedIdempotencyKey = (requests i).effectiveIdempotencyKey) :
      Change requests w i (w.setPhase i (.answered row.result))
  | abandon (p : Phase ρ) (hp : (∃ result, p = .failed result) ∨ ∃ status, p = .refused status) :
      Change requests w i (w.setPhase i p)

omit [DecidableEq β] [DecidableEq γ] [DecidableEq ρ] in
/-- Some row is the oldest. -/
theorem oldest_ne_nil {rows : List (Row β γ ρ)} (h : rows ≠ []) : oldest rows ≠ [] := by
  obtain ⟨row, hrow⟩ : ∃ row, row ∈ List.argmin (fun row : Row β γ ρ => row.createdAt) rows := by
    cases hmin : List.argmin (fun row : Row β γ ρ => row.createdAt) rows with
    | none => exact absurd (List.argmin_eq_none.mp hmin) h
    | some row => exact ⟨row, rfl⟩
  have hmem : row ∈ oldest rows := by
    rw [oldest, List.mem_filter, List.all_eq_true]
    refine ⟨List.argmin_mem hrow, ?_⟩
    intro other hother
    exact decide_eq_true (List.le_of_mem_argmin hother hrow)
  exact List.ne_nil_of_mem hmem

omit [DecidableEq β] [DecidableEq γ] [DecidableEq ρ] in
/-- A lookup finds a row of the key, or there is none. -/
theorem getByIdempotencyKey_cases (key : Str) (rows : List (Row β γ ρ)) (reply : Reply) :
    getByIdempotencyKey key rows reply = .unavailable ∨
      (getByIdempotencyKey key rows reply = .missing ∧ stored key rows = []) ∨
      ∃ row ∈ stored key rows, getByIdempotencyKey key rows reply = .found row := by
  cases reply with
  | failed => exact Or.inl rfl
  | answered choice =>
      right
      by_cases hnone : stored key rows = []
      · left
        simp [getByIdempotencyKey, hnone, oldest]
      · right
        have hpos := List.length_pos_iff.mpr (oldest_ne_nil hnone)
        have hlt := Nat.mod_lt choice hpos
        refine ⟨(oldest (stored key rows))[choice % (oldest (stored key rows)).length], ?_, ?_⟩
        · exact List.mem_of_mem_filter (List.getElem_mem hlt)
        · simp only [getByIdempotencyKey, List.getElem?_eq_getElem hlt]

omit [DecidableEq β] [DecidableEq γ] [DecidableEq ρ] in
theorem mem_stored {key : Str} {rows : List (Row β γ ρ)} {row : Row β γ ρ} :
    row ∈ stored key rows ↔ row ∈ rows ∧ row.request.storedIdempotencyKey = some key := by
  simp [stored]

/-- **Steps.**  Every statement is one of the changes. -/
theorem step_change (requests : Nat → InvocationRequest β γ) (w : World β γ ρ) (e : Event ρ) :
    Change requests w e.handler (w.step requests e) := by
  unfold World.step
  split
  · rename_i reply hstart _
    cases hkey : (requests e.handler).effectiveIdempotencyKey with
    | none => exact .miss hstart fun key hsome => by rw [hkey] at hsome; cases hsome
    | some key =>
        rcases getByIdempotencyKey_cases key w.rows reply with hno | ⟨hmissing, hnone⟩ |
            ⟨row, hrow, hfound⟩
        · simp only [hno, lookedUp]
          exact .abandon _ (Or.inr ⟨503, rfl⟩)
        · simp only [hmissing, lookedUp]
          apply Change.miss hstart
          intro key' hsome
          obtain rfl := Option.some.inj (hkey.symm.trans hsome)
          exact hnone
        · obtain ⟨hmem, hstored⟩ := mem_stored.mp hrow
          simp only [hfound, lookedUp]
          split
          · rename_i hhash
            exact .answer row hmem (Or.inr ⟨hhash, hstored.trans hkey.symm⟩)
          · exact .abandon _ (Or.inr ⟨409, rfl⟩)
  · rename_i startedAt content hmissed _
    exact .mint content startedAt hmissed
  · rename_i status _ _
    exact .abandon _ (Or.inr ⟨status, rfl⟩)
  · rename_i result startedAt outcome htranslated _
    cases outcome with
    | done => exact .save result startedAt htranslated _ (Or.inl rfl)
    | doneThenFailed => exact .save result startedAt htranslated _ (Or.inr rfl)
    | failed => exact .abandon _ (Or.inl ⟨result, rfl⟩)
  · rename_i result hmerged _
    unfold readBack
    split
    · rename_i row hfound
      split
      · rename_i hsame
        subst hsame
        exact .answer row (List.mem_of_find?_eq_some hfound) (Or.inl hmerged)
      · exact .abandon _ (Or.inl ⟨result, rfl⟩)
    · exact .abandon _ (Or.inl ⟨result, rfl⟩)
  · rename_i result _ _
    exact .abandon _ (Or.inl ⟨result, rfl⟩)
  · rename_i reply _ _
    cases hkey : (requests e.handler).effectiveIdempotencyKey with
    | none => exact .abandon _ (Or.inr ⟨503, rfl⟩)
    | some key =>
        rcases getByIdempotencyKey_cases key w.rows reply with hno | ⟨hmissing, -⟩ |
            ⟨row, hrow, hfound⟩
        · simp only [hno, recovered]
          exact .abandon _ (Or.inr ⟨503, rfl⟩)
        · simp only [hmissing, recovered]
          exact .abandon _ (Or.inr ⟨503, rfl⟩)
        · obtain ⟨hmem, hstored⟩ := mem_stored.mp hrow
          simp only [hfound, recovered]
          split
          · rename_i hhash
            exact .answer row hmem (Or.inr ⟨hhash, hstored.trans hkey.symm⟩)
          · exact .abandon _ (Or.inr ⟨503, rfl⟩)
  · exact .idle

/-- Identifiers in flight are nobody else's, and an answer is a stored row. -/
structure Inv (requests : Nat → InvocationRequest β γ) (w : World β γ ρ) : Prop where
  drawn_row : ∀ row ∈ w.rows, row.result.resultId < w.drawn
  drawn_phase : ∀ i result startedAt, w.phase i = .translated result startedAt →
    result.resultId < w.drawn
  unsaved : ∀ i result startedAt, w.phase i = .translated result startedAt →
    ∀ row ∈ w.rows, row.result.resultId ≠ result.resultId
  apart : ∀ i j result startedAt result' startedAt', i ≠ j →
    w.phase i = .translated result startedAt → w.phase j = .translated result' startedAt' →
    result.resultId ≠ result'.resultId
  saved : ∀ i result, w.phase i = .merged result →
    (∃ row ∈ w.rows, row.result.resultId = result.resultId) ∧
      ∀ row ∈ w.rows, row.result.resultId = result.resultId → row.request = requests i
  answered : ∀ i result, w.phase i = .answered result →
    ∃ row ∈ w.rows, row.result = result ∧ row.request.hashed = (requests i).hashed ∧
      (row.request = requests i ∨
        row.request.storedIdempotencyKey = (requests i).effectiveIdempotencyKey)

omit [DecidableEq β] [DecidableEq γ] [DecidableEq ρ] in
theorem inv_opening (requests : Nat → InvocationRequest β γ) {rows : List (Row β γ ρ)}
    {drawn : Nat} (h : ∀ row ∈ rows, row.result.resultId < drawn) :
    Inv requests (World.opening rows drawn) where
  drawn_row := h
  drawn_phase := by intro i result startedAt hi; cases hi
  unsaved := by intro i result startedAt hi; cases hi
  apart := by intro i j result startedAt result' startedAt' _ hi; cases hi
  saved := by intro i result hi; cases hi
  answered := by intro i result hi; cases hi

omit [DecidableEq β] [DecidableEq γ] [DecidableEq ρ] in
/-- A row nobody has is appended. -/
theorem merge_unsaved {rows : List (Row β γ ρ)} {row : Row β γ ρ}
    (h : ∀ other ∈ rows, other.result.resultId ≠ row.result.resultId) :
    merge rows row = rows ++ [row] := by
  unfold merge
  rw [if_neg]
  intro hany
  obtain ⟨other, hother, hsame⟩ := List.any_eq_true.mp hany
  exact h other hother (of_decide_eq_true hsame)

omit [DecidableEq β] [DecidableEq γ] [DecidableEq ρ] in
/-- **The step lemma.** -/
theorem Inv.change {requests : Nat → InvocationRequest β γ} {w w' : World β γ ρ} {i : Nat}
    (h : Inv requests w) (hc : Change requests w i w') : Inv requests w' := by
  obtain ⟨hdrawn, hphase, hunsaved, hapart, hsaved, hanswered⟩ := h
  cases hc with
  | idle => exact ⟨hdrawn, hphase, hunsaved, hapart, hsaved, hanswered⟩
  | miss hstart hopen => constructor <;> grind
  | mint content startedAt hmissed =>
      constructor <;> grind
  | save result startedAt htranslated p hp =>
      have hnew := hunsaved i result startedAt htranslated
      rw [merge_unsaved hnew]
      have hmem : ∀ row : Row β γ ρ, row ∈ w.rows ++ [⟨requests i, result, startedAt⟩] ↔
          row ∈ w.rows ∨ row = ⟨requests i, result, startedAt⟩ := by simp
      refine ⟨?_, ?_, ?_, ?_, ?_, ?_⟩
      · grind
      · grind
      · grind
      · grind
      · intro j saved hj
        by_cases hji : j = i
        · -- The handler's own row is the only one under its identifier.
          obtain rfl : saved = result := by grind
          subst hji
          refine ⟨⟨_, (hmem _).mpr (Or.inr rfl), rfl⟩, ?_⟩
          intro row hrow hid
          rcases (hmem row).mp hrow with hold | rfl
          · exact absurd hid (hnew row hold)
          · rfl
        · have hj' : w.phase j = .merged saved := by grind
          obtain ⟨⟨row, hrow, hid⟩, hown⟩ := hsaved j saved hj'
          refine ⟨⟨row, (hmem row).mpr (Or.inl hrow), hid⟩, ?_⟩
          intro other hother hother'
          rcases (hmem other).mp hother with hold | rfl
          · exact hown other hold hother'
          · exact absurd (hid.trans hother'.symm) (hnew row hrow)
      · intro j answer hj
        have hj' : w.phase j = .answered answer := by grind
        obtain ⟨row, hrow, hrest⟩ := hanswered j answer hj'
        exact ⟨row, (hmem row).mpr (Or.inl hrow), hrest⟩
  | answer row hrow hown => constructor <;> grind
  | abandon p hp => constructor <;> grind

/-- What every statement keeps under a condition, a run of such statements
keeps. -/
theorem run_invariant {requests : Nat → InvocationRequest β γ} {I : World β γ ρ → Prop}
    (hstep : ∀ w e, I w → I (w.step requests e)) (events : List (Event ρ)) {w : World β γ ρ}
    (hw : I w) : I (w.run requests events) := by
  induction events generalizing w with
  | nil => exact hw
  | cons e rest ih => exact ih (hstep w e hw)

/-- Every run keeps the invariant. -/
theorem inv_run {requests : Nat → InvocationRequest β γ} {w : World β γ ρ}
    (h : Inv requests w) (events : List (Event ρ)) : Inv requests (w.run requests events) :=
  run_invariant (fun w e hw => hw.change (step_change requests w e)) events h

/-- Whether a statement misses the row of its key. -/
def Misses (requests : Nat → InvocationRequest β γ) (w : World β γ ρ) (e : Event ρ) : Prop :=
  w.phase e.handler = .start ∧ (w.step requests e).phase e.handler = .missed

/-- Whether no other handler is between its miss and its merge. -/
def Alone (w : World β γ ρ) (i : Nat) : Prop := ∀ j, j ≠ i → (w.phase j).pending = false

/-- A run in which a handler misses the row only while alone. -/
def OneAtATime (requests : Nat → InvocationRequest β γ) : World β γ ρ → List (Event ρ) → Prop
  | _, [] => True
  | w, e :: rest =>
      (Misses requests w e → Alone w e.handler) ∧ OneAtATime requests (w.step requests e) rest

/-- While the row is missed it is not there, and only one handler misses it. -/
structure KeyInv (key : Str) (w : World β γ ρ) : Prop where
  one : (stored key w.rows).length ≤ 1
  missed : ∀ i, (w.phase i).pending = true → stored key w.rows = [] ∧ Alone w i

/-- Handlers of one request under one key. -/
def SameRequest (key : Str) (semantic : β) (requests : Nat → InvocationRequest β γ) : Prop :=
  ∀ i, ∃ requestId, requests i = .invoke requestId (some key) semantic

omit [DecidableEq β] [DecidableEq γ] [DecidableEq ρ] in
theorem SameRequest.effective {key : Str} {semantic : β}
    {requests : Nat → InvocationRequest β γ} (h : SameRequest key semantic requests) (i : Nat) :
    (requests i).effectiveIdempotencyKey = some key ∧
      (requests i).storedIdempotencyKey = some key ∧ (requests i).hashed = .inl semantic := by
  obtain ⟨requestId, hi⟩ := h i
  rw [hi]
  exact ⟨rfl, rfl, rfl⟩

omit [DecidableEq β] [DecidableEq γ] [DecidableEq ρ] in
/-- A phase that opens no miss keeps the invariant. -/
theorem KeyInv.setPhase {key : Str} {w : World β γ ρ} (h : KeyInv key w) (i : Nat) {p : Phase ρ}
    (hp : p.pending = true → (w.phase i).pending = true) : KeyInv key (w.setPhase i p) := by
  have hback : ∀ j, ((w.setPhase i p).phase j).pending = true → (w.phase j).pending = true := by
    intro j hj
    rw [World.setPhase_phase] at hj
    split at hj
    · rename_i hji
      exact hji ▸ hp hj
    · exact hj
  refine ⟨h.one, ?_⟩
  intro j hj
  obtain ⟨hopen, halone⟩ := h.missed j (hback j hj)
  refine ⟨hopen, ?_⟩
  intro k hk
  by_contra hpending
  rw [Bool.not_eq_false] at hpending
  have hold := hback k hpending
  rw [halone k hk] at hold
  cases hold

/-- **The step lemma under one key.** -/
theorem KeyInv.step {requests : Nat → InvocationRequest β γ} {key : Str} {semantic : β}
    (hsame : SameRequest key semantic requests) {w : World β γ ρ} {e : Event ρ}
    (hinv : Inv requests w) (hone : Misses requests w e → Alone w e.handler)
    (h : KeyInv key w) : KeyInv key (w.step requests e) := by
  have hmiss : w.phase e.handler = .start →
      (w.step requests e).phase e.handler = .missed → Alone w e.handler :=
    fun hstart hmissed => hone ⟨hstart, hmissed⟩
  have hc := step_change requests w e
  generalize w.step requests e = w' at hc hmiss ⊢
  cases hc with
  | idle => exact h
  | miss hstart hopen =>
      have hnone := hopen key (hsame.effective e.handler).1
      have halone := hmiss hstart (by simp)
      refine ⟨h.one, ?_⟩
      intro j hj
      rw [World.setPhase_phase] at hj
      split at hj
      · rename_i hji
        subst hji
        refine ⟨hnone, fun k hk => ?_⟩
        rw [World.setPhase_phase, if_neg hk]
        exact halone k hk
      · rename_i hji
        rw [halone j hji] at hj
        cases hj
  | mint content startedAt hmissed =>
      have hset := h.setPhase e.handler (p := .translated ⟨w.drawn, content⟩ startedAt)
        fun _ => by rw [hmissed]; rfl
      exact ⟨hset.one, hset.missed⟩
  | save result startedAt htranslated p hp =>
      have hpending : (w.phase e.handler).pending = true := by
        rw [htranslated]
        rfl
      obtain ⟨hopen, halone⟩ := h.missed e.handler hpending
      have hrows : stored key (merge w.rows ⟨requests e.handler, result, startedAt⟩) =
          [⟨requests e.handler, result, startedAt⟩] := by
        rw [merge_unsaved (hinv.unsaved e.handler result startedAt htranslated), stored,
          List.filter_append]
        change stored key w.rows ++ _ = _
        rw [hopen, List.nil_append, List.filter_cons_of_pos, List.filter_nil]
        exact decide_eq_true (hsame.effective e.handler).2.1
      refine ⟨by simp [hrows], ?_⟩
      intro j hj
      have hj' : ((w.setPhase e.handler p).phase j).pending = true := hj
      rw [World.setPhase_phase] at hj'
      split at hj'
      · rcases hp with rfl | rfl <;> cases hj'
      · rename_i hji
        rw [halone j hji] at hj'
        cases hj'
  | answer row hrow hown => exact h.setPhase e.handler (fun hp => by cases hp)
  | abandon p hp =>
      apply h.setPhase e.handler
      intro hpending
      rcases hp with ⟨result, rfl⟩ | ⟨status, rfl⟩ <;> cases hpending

/-- Every run in which handlers take turns keeps the one answer of the key. -/
theorem keyInv_run {requests : Nat → InvocationRequest β γ} {key : Str} {semantic : β}
    (hsame : SameRequest key semantic requests) (events : List (Event ρ)) {w : World β γ ρ}
    (hinv : Inv requests w) (hone : OneAtATime requests w events) (h : KeyInv key w) :
    KeyInv key (w.run requests events) := by
  induction events generalizing w with
  | nil => exact h
  | cons e rest ih =>
      obtain ⟨hmiss, hrest⟩ := hone
      have hstep := hinv.change (step_change requests w e)
      exact ih hstep hrest (h.step hsame hinv hmiss)

/-- All answers are one result, and at most one row carries the key. -/
def OneAnswer (key : Str) (w : World β γ ρ) : Prop :=
  (∀ i j result result', w.phase i = .answered result → w.phase j = .answered result' →
    result = result') ∧ (stored key w.rows).length ≤ 1

/-- Every answer is the result of a row stored under the key for the request. -/
def AnswersStored (key : Str) (semantic : β) (w : World β γ ρ) : Prop :=
  ∀ i result, w.phase i = .answered result →
    ∃ row ∈ stored key w.rows, row.result = result ∧ row.request.hashed = .inl semantic

/-- **One key.**  In every interleaving the answers are results of stored rows;
they are one result, in at most one row, when no lookup misses while another
handler is between its miss and its merge. -/
theorem one_answer_per_key {requests : Nat → InvocationRequest β γ} {key : Str} {semantic : β}
    (hsame : SameRequest key semantic requests) {rows : List (Row β γ ρ)} {drawn : Nat}
    (hdrawn : ∀ row ∈ rows, row.result.resultId < drawn) (hrows : (stored key rows).length ≤ 1)
    (events : List (Event ρ)) :
    AnswersStored key semantic ((World.opening rows drawn).run requests events) ∧
      (OneAtATime requests (World.opening rows drawn) events →
        OneAnswer key ((World.opening rows drawn).run requests events)) := by
  have hopening := inv_opening requests hdrawn
  have hinv := inv_run hopening events
  generalize hw : (World.opening rows drawn).run requests events = w at hinv ⊢
  have hstored : AnswersStored key semantic w := by
    intro i result hi
    obtain ⟨hkey, hown, hhash⟩ := hsame.effective i
    obtain ⟨row, hrow, hresult, hrowhash, hrowkey⟩ := hinv.answered i result hi
    refine ⟨row, mem_stored.mpr ⟨hrow, ?_⟩, hresult, hrowhash.trans hhash⟩
    rcases hrowkey with hsent | hsame
    · rw [hsent, hown]
    · rw [hsame, hkey]
  refine ⟨hstored, ?_⟩
  intro hone
  have hkeyed : KeyInv key (World.opening rows drawn) :=
    ⟨hrows, fun i hi => by cases hi⟩
  have hfinal := keyInv_run hsame events hopening hone hkeyed
  rw [hw] at hfinal
  refine ⟨?_, hfinal.one⟩
  intro i j result result' hi hj
  obtain ⟨row, hrow, rfl, -⟩ := hstored i result hi
  obtain ⟨row', hrow', rfl, -⟩ := hstored j result' hj
  have hle := hfinal.one
  have hsingle : ∀ {l : List (Row β γ ρ)}, l.length ≤ 1 → row ∈ l → row' ∈ l → row = row' := by
    intro l hl hmem hmem'
    match l, hl with
    | [only], _ => rw [List.mem_singleton.mp hmem, List.mem_singleton.mp hmem']
  rw [hsingle hle hrow hrow']

end Handler

/-- Two clients send the same request. -/
def twice : Nat → InvocationRequest Unit Unit := fun _ => .invoke ['r'] (some ['k']) ()

/-- Both miss, and both merge. -/
def overlapping : List (Event Unit) :=
  [⟨0, .lookup (.answered 0)⟩, ⟨1, .lookup (.answered 0)⟩, ⟨0, .translate 0 (.ok ())⟩,
    ⟨1, .translate 0 (.ok ())⟩, ⟨0, .merge .done⟩, ⟨1, .merge .done⟩, ⟨0, .verify false⟩,
    ⟨1, .verify false⟩]

/-- Two overlapping handlers may answer differently. -/
theorem two_answers_overlapping :
    ¬ ∀ (requests : Nat → InvocationRequest Unit Unit) (key : Str) (events : List (Event Unit)),
      SameRequest key () requests →
      OneAnswer key ((World.opening [] 0).run requests events) := by
  intro h
  obtain ⟨hsame, -⟩ := h twice ['k'] overlapping fun _ => ⟨['r'], rfl⟩
  have hids := hsame 0 1 ⟨0, ()⟩ ⟨1, ()⟩ (by decide) (by decide)
  cases hids

/-- The second comes when the first has been answered. -/
def consecutive : List (Event Unit) :=
  [⟨0, .lookup (.answered 0)⟩, ⟨0, .translate 0 (.ok ())⟩, ⟨0, .merge .done⟩,
    ⟨0, .verify false⟩, ⟨1, .lookup (.answered 0)⟩]

/-- Two handlers, one after the other, answer alike. -/
theorem one_answer_consecutive :
    OneAnswer ['k'] ((World.opening [] 0).run twice consecutive) := by
  have hopening : ∀ i, ((World.opening (β := Unit) (γ := Unit) (ρ := Unit) [] 0).phase i).pending =
      false := fun _ => rfl
  have hsame : SameRequest ['k'] () twice := fun _ => ⟨['r'], rfl⟩
  refine (one_answer_per_key hsame (fun _ hrow => absurd hrow List.not_mem_nil) (Nat.zero_le 1)
    consecutive).2 ?_
  refine ⟨fun _ j _ => hopening j, ?_⟩
  refine ⟨fun h => absurd h.1 (by decide), ?_⟩
  refine ⟨fun h => absurd h.1 (by decide), ?_⟩
  refine ⟨fun h => absurd h.1 (by decide), ?_⟩
  exact ⟨fun h => absurd h.2 (by decide), trivial⟩

end SyncInvoke
