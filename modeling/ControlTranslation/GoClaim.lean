import Mathlib.Data.Finset.Max
import ControlTranslation.GoOutcomes

/-!
# What a claim returns

`ClaimNextQueuedRun` is an update and a read.  The update picks the run by its age;
the read knows the worker only, and takes what the worker updated last.  Where rows
are equally old, or were updated in the same microsecond, the database may take any
of them, so a call is a relation; what the queue of the port does is one such call.
-/

namespace GoLifecycle

open PyText Table
open Lifecycle (Status RunFailure)

/-- A running run of a worker. -/
def Row.heldBy (r : Row) (workerId : Str) : Bool :=
  r.workerId == some workerId && r.status == .running

/-- The run an update may take: one of the oldest that can be claimed. -/
structure Takes (settings : Settings) (now : Int) (runs : List Row) (row : Row) : Prop where
  mem : row ∈ runs
  claimable : row.claimable now settings.maxAttempts = true
  oldest : ∀ other ∈ runs, other.claimable now settings.maxAttempts = true →
    row.createdAt ≤ other.createdAt

/-- What the read may answer: one of the worker's running runs that were updated
last. -/
inductive Answers (workerId : Str) (runs : List Row) : Option Row → Prop
  | none (h : ∀ r ∈ runs, r.heldBy workerId = false) : Answers workerId runs none
  | some {r : Row} (hr : r ∈ runs) (hheld : r.heldBy workerId = true)
      (hlast : ∀ other ∈ runs, other.heldBy workerId = true → other.updatedAt ≤ r.updatedAt) :
      Answers workerId runs (some r)

/-- A call of `ClaimNextQueuedRun`: what it returns, and the table after it. -/
inductive ClaimCall (settings : Settings) (workerId : Str) (now : Int) (runs : List Row) :
    Option Row → List Row → Prop
  | idle (h : ∀ r ∈ runs, r.claimable now settings.maxAttempts = false) :
      ClaimCall settings workerId now runs none runs
  | leased {row : Row} {answer : Option Row} (htakes : Takes settings now runs row)
      (hanswer : Answers workerId
        ((claimRow workerId row.runId settings.leaseSeconds now).run runs) answer) :
      ClaimCall settings workerId now runs answer
        ((claimRow workerId row.runId settings.leaseSeconds now).run runs)

/-- `ClaimNextQueuedRun`, on a queue that takes the first of equals. -/
def claimRun (settings : Settings) (workerId : Str) (now : Int) (runs : List Row) :
    Option Row × List Row :=
  match claimNextQueuedRun settings workerId now runs with
  | (true, after) => (claimedRun workerId after, after)
  | (false, after) => (none, after)

/-- A row whose lease or attempt count a call changed. -/
def Updated (runs : List Row) (r : Row) : Prop :=
  ∃ before ∈ runs, before.runId = r.runId ∧
    (before.leaseExpiresAt ≠ r.leaseExpiresAt ∨ before.attemptNumber ≠ r.attemptNumber)

/-- The head of a sorted list comes before the others. -/
theorem head_insertionSort {α : Type} {le : α → α → Prop} [DecidableRel le]
    (htotal : ∀ a b, le a b ∨ le b a) (htrans : ∀ a b c, le a b → le b c → le a c)
    {all : List α} {a : α} (h : (all.insertionSort le).head? = some a) :
    ∀ b ∈ all, le a b := by
  intro b hb
  have : Std.Total le := ⟨htotal⟩
  have : IsTrans α le := ⟨htrans⟩
  have hsorted := List.pairwise_insertionSort le all
  cases hsort : all.insertionSort le with
  | nil =>
      rw [hsort] at h
      cases h
  | cons first rest =>
      rw [hsort] at h hsorted
      obtain rfl := Option.some.inj h
      have hmem : b ∈ first :: rest := hsort ▸ (List.mem_insertionSort le).mpr hb
      rcases List.mem_cons.mp hmem with rfl | hmem
      · exact (htotal b b).elim id id
      · exact (List.pairwise_cons.mp hsorted).1 b hmem

/-- Nothing sorted is found only where nothing was selected. -/
theorem eq_false_of_head_insertionSort {α : Type} {le : α → α → Prop} [DecidableRel le]
    {p : α → Bool} {all : List α} (h : ((all.filter p).insertionSort le).head? = none) {a : α}
    (ha : a ∈ all) : p a = false := by
  by_contra hp
  rw [List.head?_eq_none_iff] at h
  have hmem := (List.mem_insertionSort le).mpr
    (List.mem_filter.mpr ⟨ha, Bool.not_eq_false (p a) ▸ hp⟩)
  rw [h] at hmem
  cases hmem

theorem takes_of_candidate {settings : Settings} {now : Int} {runs : List Row} {row : Row}
    (h : candidate now settings.maxAttempts runs = some row) : Takes settings now runs row := by
  obtain ⟨hrow, hclaimable⟩ := candidate_spec h
  refine ⟨hrow, hclaimable, fun other hother hclaim => ?_⟩
  have hfirst := @head_insertionSort Row (fun r r' => r.createdAt ≤ r'.createdAt) _
    (fun _ _ => Int.le_total _ _) (fun _ _ _ => Int.le_trans) _ _ h
  exact hfirst other (List.mem_filter.mpr ⟨hother, hclaim⟩)

/-- The claimed run is one the worker may be answered with. -/
theorem answers_claimedRun (workerId : Str) (runs : List Row) :
    Answers workerId runs (claimedRun workerId runs) := by
  cases h : claimedRun workerId runs with
  | none => exact .none fun r hr => eq_false_of_head_insertionSort h hr
  | some r =>
      obtain ⟨hr, hworker, hstatus⟩ := claimedRun_spec h
      refine .some hr (by simp [Row.heldBy, hworker, hstatus]) fun other hother hheld => ?_
      have hfirst := @head_insertionSort Row (fun r r' => r'.updatedAt ≤ r.updatedAt) _
        (fun _ _ => Int.le_total _ _) (fun _ _ _ hab hbc => Int.le_trans hbc hab) _ _ h
      exact hfirst other (List.mem_filter.mpr ⟨hother, hheld⟩)

/-- **The port's queue.**  Taking the first of equals is one way to make the call. -/
theorem claimCall_claimRun (settings : Settings) (workerId : Str) (now : Int) (runs : List Row) :
    ClaimCall settings workerId now runs (claimRun settings workerId now runs).1
      (claimRun settings workerId now runs).2 := by
  unfold claimRun claimNextQueuedRun
  cases h : candidate now settings.maxAttempts runs with
  | none => exact .idle fun r hr => eq_false_of_head_insertionSort h hr
  | some row => exact .leased (takes_of_candidate h) (answers_claimedRun _ _)

section

variable {settings : Settings} {workerId : Str} {now : Int} {runs : List Row} {row : Row}

/-- **The read** answers a run of the worker whatever is chosen among equals, if and
only if the worker updated its other runs before. -/
theorem answers_only_iff (hrow : row ∈ runs) (hheld : row.heldBy workerId = true) :
    (∀ answer, Answers workerId runs answer → answer = some row) ↔
      ∀ other ∈ runs, other.heldBy workerId = true → other ≠ row →
        other.updatedAt < row.updatedAt := by
  constructor
  · intro h other hother hother_held hne
    by_contra hlate
    let others := runs.toFinset.filter fun r => r.heldBy workerId = true ∧ r ≠ row
    have hmem : ∀ r, r ∈ others ↔ r ∈ runs ∧ r.heldBy workerId = true ∧ r ≠ row := fun r => by
      simp [others]
    obtain ⟨last, hlast, hmax⟩ := others.exists_max_image (·.updatedAt)
      ⟨other, (hmem other).mpr ⟨hother, hother_held, hne⟩⟩
    obtain ⟨hlast_mem, hlast_held, hlast_ne⟩ := (hmem last).mp hlast
    have hrow_le : row.updatedAt ≤ last.updatedAt :=
      (Int.not_lt.mp hlate).trans (hmax other ((hmem other).mpr ⟨hother, hother_held, hne⟩))
    have hanswer : Answers workerId runs (some last) := by
      refine .some hlast_mem hlast_held fun r hr hr_held => ?_
      by_cases heq : r = row
      · rw [heq]
        exact hrow_le
      · exact hmax r ((hmem r).mpr ⟨hr, hr_held, heq⟩)
    exact hlast_ne (Option.some.inj (h _ hanswer))
  · intro h answer hanswer
    cases hanswer with
    | none hnone =>
        rw [hnone row hrow] at hheld
        cases hheld
    | some hr hr_held hlast =>
        rename_i r
        by_contra hne
        have hlt := h r hr hr_held fun heq => hne (by rw [heq])
        exact absurd (hlast row hrow hheld) (Int.not_le.mpr hlt)

/-- In the table after the update the run is one of the worker's. -/
theorem claimRow_assign_held (r : Row) :
    ((claimRow workerId row.runId settings.leaseSeconds now).assign r).heldBy workerId = true := by
  simp [claimRow, Row.heldBy]

/-- The table after the update: the run that was taken, and the other rows. -/
theorem mem_claimed (hkeys : Keyed runs) (hrow : row ∈ runs) {r : Row} :
    r ∈ (claimRow workerId row.runId settings.leaseSeconds now).run runs ↔
      r = (claimRow workerId row.runId settings.leaseSeconds now).assign row ∨
        r ∈ runs ∧ r.runId ≠ row.runId := by
  constructor
  · intro hr
    obtain ⟨r₀, hr₀, rfl⟩ := List.mem_map.mp hr
    by_cases hid : r₀.runId = row.runId
    · obtain rfl := eq_of_key hkeys hr₀ hrow hid
      exact .inl (if_pos (by simp [claimRow]))
    · have hsame : (claimRow workerId row.runId settings.leaseSeconds now).on r₀ = r₀ :=
        if_neg (by simp [claimRow, hid])
      rw [hsame]
      exact .inr ⟨hr₀, hid⟩
  · rintro (rfl | ⟨hr, hne⟩)
    · exact Update.assign_mem_run hrow (by simp [claimRow])
    · exact Update.mem_run_self hr (by simp [claimRow, hne])

/-- A row that stays is not updated. -/
theorem not_updated (hkeys : Keyed runs) {r : Row} (hr : r ∈ runs) : ¬ Updated runs r := by
  rintro ⟨before, hbefore, hid, hchanged⟩
  obtain rfl := eq_of_key hkeys hbefore hr hid
  rcases hchanged with h | h
  · exact h rfl
  · exact h rfl

/-- **The update** changes the lease and the attempt count of one row. -/
theorem updated_iff (hkeys : Keyed runs) (hrow : row ∈ runs) {r : Row} :
    r ∈ (claimRow workerId row.runId settings.leaseSeconds now).run runs ∧ Updated runs r ↔
      r = (claimRow workerId row.runId settings.leaseSeconds now).assign row := by
  rw [mem_claimed hkeys hrow]
  constructor
  · rintro ⟨rfl | ⟨hr, -⟩, hupdated⟩
    · rfl
    · exact absurd hupdated (not_updated hkeys hr)
  · rintro rfl
    exact ⟨.inl rfl, row, hrow, rfl, .inr (Nat.ne_of_lt (Nat.lt_succ_self _))⟩

/-- The read after the update answers the run that was taken, if the worker updated its
other runs before. -/
theorem answers_claimed_iff (hkeys : Keyed runs) (hrow : row ∈ runs) :
    (∀ answer, Answers workerId
        ((claimRow workerId row.runId settings.leaseSeconds now).run runs) answer →
        answer = some ((claimRow workerId row.runId settings.leaseSeconds now).assign row)) ↔
      ∀ other ∈ runs, other.heldBy workerId = true → other.runId ≠ row.runId →
        other.updatedAt < now := by
  rw [answers_only_iff ((mem_claimed hkeys hrow).mpr (.inl rfl)) (claimRow_assign_held row)]
  constructor
  · intro h other hother hheld hne
    refine h other ((mem_claimed hkeys hrow).mpr (.inr ⟨hother, hne⟩)) hheld fun heq => hne ?_
    rw [heq]
    rfl
  · intro h other hother hheld hne
    rcases (mem_claimed hkeys hrow).mp hother with rfl | ⟨hmem, hid⟩
    · exact absurd rfl hne
    · exact h other hmem hheld hid

/-- **Claims.**  Every call returns the run whose lease and attempt count it updated,
and nothing where it updated none, if and only if the worker has no other running run
that was updated at the instant of the call or later. -/
theorem claim_returns_leased (hkeys : Keyed runs) :
    (∀ answer after, ClaimCall settings workerId now runs answer after →
        ∀ r, answer = some r ↔ r ∈ after ∧ Updated runs r) ↔
      ∀ row, Takes settings now runs row → ∀ other ∈ runs, other.heldBy workerId = true →
        other.runId ≠ row.runId → other.updatedAt < now := by
  constructor
  · intro h row htakes
    apply (answers_claimed_iff hkeys htakes.mem).mp
    intro answer hanswer
    exact (h answer _ (.leased htakes hanswer) _).mpr ((updated_iff hkeys htakes.mem).mpr rfl)
  · intro h answer after hcall r
    cases hcall with
    | idle =>
        constructor
        · intro heq
          cases heq
        · rintro ⟨hr, hupdated⟩
          exact absurd hupdated (not_updated hkeys hr)
    | leased htakes hanswer =>
        rw [updated_iff hkeys htakes.mem,
          (answers_claimed_iff hkeys htakes.mem).mpr (h _ htakes) answer hanswer]
        exact ⟨fun heq => (Option.some.inj heq).symm, fun heq => by rw [heq]⟩

end

/-- A submission of a run. -/
def submissionOf (runId : Str) : Submission := ⟨runId, runId, runId, runId, [], []⟩

/-- A run the worker has claimed at one, and one queued at two. -/
def queuedRuns : List Row :=
  createLifecycleRun (submissionOf ['b']) 2
    (claimNextQueuedRun .defaults ['w'] 1
      (createLifecycleRun (submissionOf ['a']) 1 [])).2

/-- A run the worker has claimed at two, and one queued at one. -/
def heldRuns : List Row :=
  createLifecycleRun (submissionOf ['b']) 1
    (claimNextQueuedRun .defaults ['w'] 2
      (createLifecycleRun (submissionOf ['a']) 2 [])).2

/-- The queued run is returned, beside the one that the worker has held for longer. -/
theorem claim_returns_leased_queued :
    (∃ other ∈ queuedRuns, other.heldBy ['w'] = true ∧ other.runId = ['a']) ∧
    ∃ r, (claimRun .defaults ['w'] 3 queuedRuns).1 = some r ∧ r.runId = ['b'] ∧
      r ∈ (claimRun .defaults ['w'] 3 queuedRuns).2 ∧ Updated queuedRuns r := by
  have hheld : ∀ other ∈ queuedRuns, other.heldBy ['w'] = true → other.updatedAt < 3 := by decide
  have hkeys : Keyed queuedRuns := by
    unfold Keyed
    decide
  have hreturned := (claim_returns_leased hkeys).mpr
    (fun row _ other hother hholds _ => hheld other hother hholds) _ _
    (claimCall_claimRun .defaults ['w'] 3 queuedRuns)
  exact ⟨by decide, _, rfl, rfl, (hreturned _).mp rfl⟩

/-- The clock steps back by a microsecond, and the claim of the second run returns the
first. -/
theorem claim_returns_other :
    ¬ ∀ (settings : Settings) (workerId : Str) (now : Int) (runs : List Row), Keyed runs →
      ∀ r, (claimRun settings workerId now runs).1 = some r ↔
        r ∈ (claimRun settings workerId now runs).2 ∧ Updated runs r := by
  intro h
  have hkeys : Keyed heldRuns := by
    unfold Keyed
    decide
  obtain ⟨r, hanswer, hid⟩ : ∃ r, (claimRun .defaults ['w'] 1 heldRuns).1 = some r ∧
      r.runId = ['a'] ∧ r.attemptNumber = 1 ∧ r.leaseExpiresAt = some 30000002 :=
    ⟨_, rfl, rfl, rfl, rfl⟩
  obtain ⟨-, before, hbefore, hsame, hchanged⟩ := (h _ _ _ _ hkeys r).mp hanswer
  have hfirst : before.runId = ['a'] → before.attemptNumber = 1 ∧
      before.leaseExpiresAt = some 30000002 := by
    have hall : ∀ row ∈ heldRuns, row.runId = ['a'] → row.attemptNumber = 1 ∧
      row.leaseExpiresAt = some 30000002 := by decide
    exact hall before hbefore
  obtain ⟨hattempt, hlease⟩ := hfirst (hsame.trans hid.1)
  rcases hchanged with hne | hne
  · exact hne (hlease.trans hid.2.2.symm)
  · exact hne (hattempt.trans hid.2.1.symm)

end GoLifecycle
