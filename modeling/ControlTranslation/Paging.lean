import Mathlib.Data.List.Nodup
import Mathlib.Data.List.Sort

/-!
# Paging through a table that grows

A page is a window of the sorted rows.  Rows may be added anywhere in the order between
two pages.  They move the rows after them down the listing and none of them up, so a
reader who goes on where the last page ended can meet a row twice, but passes none.
What the argument follows is the rank of a row, which growth never lowers.
-/

namespace Paging

variable {ρ κ : Type*} [LinearOrder κ] {key : ρ → κ}

/-- The rows, greatest key first. -/
def newestFirst (key : ρ → κ) (rows : List ρ) : List ρ :=
  rows.mergeSort fun a b => decide (key b ≤ key a)

/-- `LIMIT limit OFFSET offset`. -/
def window (limit offset : Nat) (rows : List ρ) : List ρ := (rows.drop offset).take limit

/-- How many rows stand before a row. -/
def rank (key : ρ → κ) (rows : List ρ) (x : ρ) : Nat :=
  rows.countP fun y => decide (key x < key y)

theorem newestFirst_perm (key : ρ → κ) (rows : List ρ) : (newestFirst key rows).Perm rows :=
  List.mergeSort_perm _ _

@[simp] theorem length_newestFirst (key : ρ → κ) (rows : List ρ) :
    (newestFirst key rows).length = rows.length :=
  (newestFirst_perm key rows).length_eq

@[simp] theorem mem_newestFirst {rows : List ρ} {x : ρ} : x ∈ newestFirst key rows ↔ x ∈ rows :=
  (newestFirst_perm key rows).mem_iff

/-- Rows of distinct keys are listed in strict order. -/
theorem newestFirst_sorted {rows : List ρ} (hkeys : (rows.map key).Nodup) :
    (newestFirst key rows).Pairwise fun a b => key b < key a := by
  have hsorted : (newestFirst key rows).Pairwise fun a b => decide (key b ≤ key a) = true :=
    List.pairwise_mergeSort (fun a b c hab hbc => by
        rw [decide_eq_true_iff] at hab hbc ⊢
        exact hbc.trans hab)
      (fun a b => by simpa using le_total (key b) (key a)) _
  have hdistinct : (newestFirst key rows).Pairwise fun a b => key a ≠ key b :=
    List.pairwise_map.mp (((newestFirst_perm key rows).map key).nodup_iff.mpr hkeys)
  refine (hsorted.and hdistinct).imp fun h => ?_
  exact lt_of_le_of_ne (of_decide_eq_true h.1) (Ne.symm h.2)

/-- The rank of a row does not depend on the order it is stored in. -/
theorem rank_newestFirst (key : ρ → κ) (rows : List ρ) (x : ρ) :
    rank key (newestFirst key rows) x = rank key rows x :=
  (newestFirst_perm key rows).countP_eq _

/-- Rows that are added move no row up. -/
theorem rank_mono {rows rows' : List ρ} (h : rows.Sublist rows') (x : ρ) :
    rank key rows x ≤ rank key rows' x :=
  h.countP_le

theorem rank_lt_length {rows : List ρ} {x : ρ} (hx : x ∈ rows) :
    rank key rows x < rows.length := by
  refine lt_of_le_of_ne List.countP_le_length fun h => ?_
  have hself := List.countP_eq_length.mp h x hx
  exact lt_irrefl _ (of_decide_eq_true hself)

/-- A row of a sorted list stands where its rank says. -/
theorem getElem?_rank {rows : List ρ} (hsorted : rows.Pairwise fun a b => key b < key a) {x : ρ}
    (hx : x ∈ rows) : rows[rank key rows x]? = some x := by
  induction rows with
  | nil => cases hx
  | cons a rest ih =>
      rw [List.pairwise_cons] at hsorted
      rcases List.mem_cons.mp hx with rfl | hrest
      · have hzero : rank key (x :: rest) x = 0 := by
          refine List.countP_eq_zero.mpr fun y hy => ?_
          rw [decide_eq_true_iff, not_lt]
          rcases List.mem_cons.mp hy with rfl | hy
          · exact le_rfl
          · exact (hsorted.1 y hy).le
        rw [hzero]
        rfl
      · have hsucc : rank key (a :: rest) x = rank key rest x + 1 := by
          simp only [rank, List.countP_cons, hsorted.1 x hrest, decide_true, if_true]
        rw [hsucc, List.getElem?_cons_succ]
        exact ih hsorted.2 hrest

/-- A page has at most as many rows as asked for. -/
theorem length_window_le (limit offset : Nat) (rows : List ρ) :
    (window limit offset rows).length ≤ limit :=
  List.length_take_le _ _

/-- A page is full, unless the table ends in it. -/
theorem length_window (limit offset : Nat) (rows : List ρ) :
    (window limit offset rows).length = min limit (rows.length - offset) := by
  rw [window, List.length_take, List.length_drop]

/-- A row is on the page its rank falls on. -/
theorem mem_window {rows : List ρ} (hkeys : (rows.map key).Nodup) {x : ρ} (hx : x ∈ rows)
    {limit offset : Nat} (hfrom : offset ≤ rank key rows x)
    (hto : rank key rows x < offset + limit) : x ∈ window limit offset (newestFirst key rows) := by
  have hplace := getElem?_rank (newestFirst_sorted hkeys) (mem_newestFirst.mpr hx)
  rw [rank_newestFirst] at hplace
  have hshown :
      (window limit offset (newestFirst key rows))[rank key rows x - offset]? = some x := by
    rw [window, List.getElem?_take_of_lt (by omega), List.getElem?_drop,
      Nat.add_sub_cancel' hfrom]
    exact hplace
  exact List.mem_of_getElem? hshown

/-- A row was shown, or is still to come at this offset. -/
def Ahead (key : ρ → κ) (rows : List ρ) (offset : Nat) (shown : List ρ) (x : ρ) : Prop :=
  x ∈ shown ∨ offset ≤ rank key rows x

theorem ahead_zero (rows : List ρ) (shown : List ρ) (x : ρ) : Ahead key rows 0 shown x :=
  .inr (Nat.zero_le _)

/-- Growth puts no row behind. -/
theorem Ahead.grow {rows rows' : List ρ} {offset : Nat} {shown : List ρ} {x : ρ}
    (h : Ahead key rows offset shown x) (hgrown : rows.Sublist rows') :
    Ahead key rows' offset shown x :=
  h.imp_right fun hrank => hrank.trans (rank_mono hgrown x)

/-- A page shows what it passes. -/
theorem Ahead.turn {rows : List ρ} (hkeys : (rows.map key).Nodup) {limit offset : Nat}
    {shown : List ρ} {x : ρ} (hx : x ∈ rows) (h : Ahead key rows offset shown x) :
    Ahead key rows (offset + limit) (shown ++ window limit offset (newestFirst key rows)) x := by
  rcases h with hshown | hrank
  · exact .inl (List.mem_append_left _ hshown)
  · by_cases hpassed : rank key rows x < offset + limit
    · exact .inl (List.mem_append_right _ (mem_window hkeys hx hrank hpassed))
    · exact .inr (Nat.not_lt.mp hpassed)

/-- A page that reaches the number of rows leaves nothing to come. -/
theorem Ahead.last {rows : List ρ} (hkeys : (rows.map key).Nodup) {limit offset : Nat}
    {shown : List ρ} {x : ρ} (hx : x ∈ rows) (h : Ahead key rows offset shown x)
    (hend : rows.length ≤ offset + (window limit offset (newestFirst key rows)).length) :
    x ∈ shown ++ window limit offset (newestFirst key rows) := by
  rcases h.turn hkeys hx with hshown | hrank
  · exact hshown
  · have hlength := length_window_le limit offset (newestFirst key rows)
    have hbound : rank key rows x < rows.length := rank_lt_length hx
    omega

/-- Over a table at rest the pages follow one another without a gap or a repetition. -/
theorem take_append_window (limit offset : Nat) (rows : List ρ) :
    rows.take offset ++ window limit offset rows = rows.take (offset + limit) :=
  (List.take_add ..).symm

end Paging
