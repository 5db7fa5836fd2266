import Mathlib.Data.List.Nodup
import Mathlib.Logic.Relation

/-!
# Tables that only change row by row

A table is a list of rows.  An `UPDATE` rewrites the rows it applies to in
place, an `INSERT` adds rows at the end, and nothing removes one, so a later
table is the earlier one with every row moved by some steps, followed by rows
that started later.  `Evolved` says that, for any relation of steps on rows; an
invariant of the steps is an invariant of the table, and rows are followed by a
key that steps keep.
-/

namespace Table

open Relation

variable {ρ κ : Type}

/-- An `UPDATE`: the rows it applies to, and what it assigns. -/
structure Update (ρ : Type) where
  applies : ρ → Bool
  assign : ρ → ρ

/-- A row under an update. -/
def Update.on (u : Update ρ) (r : ρ) : ρ := if u.applies r then u.assign r else r

/-- The table under an update. -/
def Update.run (u : Update ρ) (rows : List ρ) : List ρ := rows.map u.on

/-- `rowcount`. -/
def Update.affected (u : Update ρ) (rows : List ρ) : Nat := rows.countP u.applies

/-- An update affects no row when it applies to none. -/
theorem Update.affected_eq_zero {u : Update ρ} {rows : List ρ} :
    u.affected rows = 0 ↔ ∀ r ∈ rows, u.applies r = false := by
  simp [affected, List.countP_eq_zero]

/-- An update that affects some row applies to one. -/
theorem Update.exists_of_affected {u : Update ρ} {rows : List ρ} (h : u.affected rows ≠ 0) :
    ∃ r ∈ rows, u.applies r = true :=
  List.countP_pos_iff.mp (Nat.pos_of_ne_zero h)

/-- An update that applies to no row changes nothing. -/
theorem Update.run_eq_self {u : Update ρ} {rows : List ρ}
    (h : ∀ r ∈ rows, u.applies r = false) : u.run rows = rows := by
  unfold run
  refine (List.map_congr_left fun r hr => ?_).trans (List.map_id rows)
  simp [on, h r hr]

/-- A row of an updated table was there before or was assigned. -/
theorem Update.mem_run {u : Update ρ} {rows : List ρ} {r' : ρ} (h : r' ∈ u.run rows) :
    r' ∈ rows ∨ ∃ r ∈ rows, u.applies r = true ∧ r' = u.assign r := by
  obtain ⟨r, hr, rfl⟩ := List.mem_map.mp h
  unfold on
  split_ifs with happlies
  · exact .inr ⟨r, hr, happlies, rfl⟩
  · exact .inl hr

/-- A row an update applies to is there as it was assigned. -/
theorem Update.assign_mem_run {u : Update ρ} {rows : List ρ} {r : ρ} (hr : r ∈ rows)
    (happlies : u.applies r = true) : u.assign r ∈ u.run rows :=
  List.mem_map.mpr ⟨r, hr, if_pos happlies⟩

/-- A row the update does not apply to stays. -/
theorem Update.mem_run_self {u : Update ρ} {rows : List ρ} {r : ρ} (hr : r ∈ rows)
    (happlies : u.applies r = false) : r ∈ u.run rows :=
  List.mem_map.mpr ⟨r, hr, by simp [on, happlies]⟩

/-- A row that is selected by its key is the only one. -/
theorem eq_of_key {key : ρ → κ} {rows : List ρ} (hkeys : (rows.map key).Nodup) {r r' : ρ}
    (hr : r ∈ rows) (hr' : r' ∈ rows) (h : key r = key r') : r = r' :=
  List.inj_on_of_nodup_map hkeys hr hr' h

/-- An update within one key affects at most one row. -/
theorem Update.affected_le_one {u : Update ρ} {key : ρ → κ} {k : κ} {rows : List ρ}
    (hkeys : (rows.map key).Nodup) (h : ∀ r, u.applies r = true → key r = k) :
    u.affected rows ≤ 1 := by
  unfold affected
  induction rows with
  | nil => exact Nat.zero_le _
  | cons r rest ih =>
      rw [List.map_cons, List.nodup_cons] at hkeys
      by_cases hr : u.applies r = true
      · have hrest : rest.countP u.applies = 0 := by
          rw [List.countP_eq_zero]
          intro r' hr' happlies
          refine hkeys.1 (List.mem_map.mpr ⟨r', hr', ?_⟩)
          rw [h r' happlies, h r hr]
        rw [List.countP_cons_of_pos hr]
        omega
      · rw [List.countP_cons_of_neg hr]
        exact ih hkeys.2

/-- The table after some steps of its rows and some insertions: every row moved,
followed by rows that started later. -/
inductive Evolved (step : ρ → ρ → Prop) (new : ρ → Prop) : List ρ → List ρ → Prop
  | added {later : List ρ} (h : ∀ r ∈ later, ∃ r₀, new r₀ ∧ ReflTransGen step r₀ r) :
      Evolved step new [] later
  | moved {r r' : ρ} {rest rest' : List ρ} (h : ReflTransGen step r r')
      (hrest : Evolved step new rest rest') : Evolved step new (r :: rest) (r' :: rest')

section

variable {step : ρ → ρ → Prop} {new : ρ → Prop} {rows rows' rows'' : List ρ}

/-- Every row moves. -/
theorem Evolved.of_map {f : ρ → ρ} (h : ∀ r ∈ rows, ReflTransGen step r (f r)) :
    Evolved step new rows (rows.map f) := by
  induction rows with
  | nil => exact .added fun r hr => absurd hr List.not_mem_nil
  | cons r rest ih =>
      exact .moved (h r List.mem_cons_self) (ih fun r' hr' => h r' (List.mem_cons_of_mem _ hr'))

theorem Evolved.refl (step : ρ → ρ → Prop) (new : ρ → Prop) (rows : List ρ) :
    Evolved step new rows rows := by
  have h := @Evolved.of_map _ step new rows id fun _ _ => .refl
  rwa [List.map_id] at h

/-- An update moves the rows it applies to by one step. -/
theorem Evolved.of_update {u : Update ρ}
    (h : ∀ r ∈ rows, u.applies r = true → step r (u.assign r)) :
    Evolved step new rows (u.run rows) := by
  refine Evolved.of_map fun r hr => ?_
  unfold Update.on
  split_ifs with happlies
  · exact .single (h r hr happlies)
  · exact .refl

/-- An insertion adds a row. -/
theorem Evolved.of_insert {r : ρ} (h : new r) : Evolved step new rows (rows ++ [r]) := by
  induction rows with
  | nil =>
      refine .added fun r' hr' => ?_
      obtain rfl := List.mem_singleton.mp hr'
      exact ⟨r', h, .refl⟩
  | cons _ _ ih => exact .moved .refl ih

/-- Where a later row comes from. -/
theorem Evolved.back (h : Evolved step new rows rows') {r' : ρ} (hr' : r' ∈ rows') :
    (∃ r ∈ rows, ReflTransGen step r r') ∨ ∃ r₀, new r₀ ∧ ReflTransGen step r₀ r' := by
  induction h with
  | added hadded => exact .inr (hadded r' hr')
  | moved hmove _ ih =>
      rcases List.mem_cons.mp hr' with rfl | hr'
      · exact .inl ⟨_, List.mem_cons_self, hmove⟩
      · rcases ih hr' with ⟨r, hr, hmove'⟩ | hnew
        · exact .inl ⟨r, List.mem_cons_of_mem _ hr, hmove'⟩
        · exact .inr hnew

/-- Where an earlier row went. -/
theorem Evolved.forth (h : Evolved step new rows rows') {r : ρ} (hr : r ∈ rows) :
    ∃ r' ∈ rows', ReflTransGen step r r' := by
  induction h with
  | added => cases hr
  | moved hmove _ ih =>
      rcases List.mem_cons.mp hr with rfl | hr
      · exact ⟨_, List.mem_cons_self, hmove⟩
      · obtain ⟨r', hr', hmove'⟩ := ih hr
        exact ⟨r', List.mem_cons_of_mem _ hr', hmove'⟩

/-- Evolutions compose. -/
theorem Evolved.trans (h : Evolved step new rows rows') (h' : Evolved step new rows' rows'') :
    Evolved step new rows rows'' := by
  induction h generalizing rows'' with
  | added hadded =>
      refine .added fun r hr => ?_
      rcases h'.back hr with ⟨r₁, hr₁, hmove⟩ | hnew
      · obtain ⟨r₀, hnew, hmove₀⟩ := hadded r₁ hr₁
        exact ⟨r₀, hnew, hmove₀.trans hmove⟩
      · exact hnew
  | moved hmove _ ih =>
      cases h' with
      | moved hmove' hrest => exact .moved (hmove.trans hmove') (ih hrest)

/-- **Invariants.**  What every new row satisfies and every step keeps holds of
every later row. -/
theorem Evolved.invariant {I : ρ → Prop} (hstep : ∀ r r', I r → step r r' → I r')
    (hnew : ∀ r, new r → I r) (h : Evolved step new rows rows') (hrows : ∀ r ∈ rows, I r) :
    ∀ r ∈ rows', I r := by
  have hsteps : ∀ {r r'}, ReflTransGen step r r' → I r → I r' := by
    intro r r' hr hI
    induction hr with
    | refl => exact hI
    | tail _ hlast ih => exact hstep _ _ ih hlast
  intro r' hr'
  rcases h.back hr' with ⟨r, hr, hmove⟩ | ⟨r₀, hr₀, hmove⟩
  · exact hsteps hmove (hrows r hr)
  · exact hsteps hmove (hnew r₀ hr₀)

/-- The key of a row survives its steps. -/
theorem key_of_steps {key : ρ → κ} (hkey : ∀ r r', step r r' → key r' = key r) {r r' : ρ}
    (h : ReflTransGen step r r') : key r' = key r := by
  induction h with
  | refl => rfl
  | tail _ hlast ih => rw [hkey _ _ hlast, ih]

/-- Without insertions a key has the same values in the later table. -/
theorem Evolved.map_key {key : ρ → κ} (hkey : ∀ r r', step r r' → key r' = key r)
    (h : Evolved step (fun _ => False) rows rows') : rows'.map key = rows.map key := by
  induction h with
  | @added later hadded =>
      cases later with
      | nil => rfl
      | cons r _ =>
          obtain ⟨_, hnew, _⟩ := hadded r List.mem_cons_self
          exact hnew.elim
  | moved hmove _ ih => rw [List.map_cons, List.map_cons, key_of_steps hkey hmove, ih]

/-- **Following a row.**  Under unique keys the later row of a key is the earlier
one, moved. -/
theorem Evolved.of_key {key : ρ → κ} (hkey : ∀ r r', step r r' → key r' = key r)
    (h : Evolved step new rows rows') (hkeys : (rows'.map key).Nodup) {r r' : ρ}
    (hr : r ∈ rows) (hr' : r' ∈ rows') (heq : key r' = key r) : ReflTransGen step r r' := by
  obtain ⟨r₁, hr₁, hmove⟩ := h.forth hr
  have hsame : r₁ = r' := eq_of_key hkeys hr₁ hr' ((key_of_steps hkey hmove).trans heq.symm)
  rw [← hsame]
  exact hmove

end

end Table
