import Mathlib.Data.List.Basic
import Mathlib.Tactic.Cases

/-!
# Failures of a kind

A computation that fails raises one error.  Some errors are answered by the
caller and some are not; what makes a composition fail with an error of a kind is
told here step by step: the first step that fails decides, so a loop fails so
exactly when some item does after all items before it went through.
-/

namespace Failures

variable {ε α β σ : Type} {kind : ε → Prop}

/-- The computation fails with an error of a kind. -/
def FailsWith (kind : ε → Prop) (x : Except ε α) : Prop := ∃ e, kind e ∧ x = .error e

@[simp] theorem failsWith_ok (a : α) : ¬ FailsWith kind (.ok a : Except ε α) := by
  rintro ⟨e, -, h⟩
  cases h

@[simp] theorem failsWith_pure (a : α) : ¬ FailsWith kind (pure a : Except ε α) :=
  failsWith_ok a

@[simp] theorem failsWith_error (e : ε) : FailsWith kind (.error e : Except ε α) ↔ kind e := by
  constructor
  · rintro ⟨e', he, h⟩
    cases h
    exact he
  · exact fun h => ⟨e, h, rfl⟩

/-- A composition fails in its first part, or in what follows it. -/
theorem failsWith_bind {x : Except ε α} {f : α → Except ε β} :
    FailsWith kind (x >>= f) ↔ FailsWith kind x ∨ ∃ a, x = .ok a ∧ FailsWith kind (f a) := by
  cases x with
  | error e =>
      have hbind : ((Except.error e : Except ε α) >>= f) = .error e := rfl
      simp [hbind]
  | ok a =>
      have hbind : ((Except.ok a : Except ε α) >>= f) = f a := rfl
      simp [hbind]

/-- What fails nowhere on the way does not fail. -/
theorem not_failsWith_bind {x : Except ε α} {f : α → Except ε β} (hx : ¬ FailsWith kind x)
    (hf : ∀ a, ¬ FailsWith kind (f a)) : ¬ FailsWith kind (x >>= f) := by
  rw [failsWith_bind]
  rintro (h | ⟨a, -, h⟩)
  · exact hx h
  · exact hf a h

/-- A computation fails with no error of a kind, and what it answers has a property. -/
structure Ends (kind : ε → Prop) (P : α → Prop) (x : Except ε α) : Prop where
  safe : ¬ FailsWith kind x
  post : ∀ a, x = .ok a → P a

theorem ends_ok {P : α → Prop} {a : α} : Ends kind P (.ok a : Except ε α) ↔ P a := by
  constructor
  · exact fun h => h.post a rfl
  · intro h
    refine ⟨failsWith_ok a, ?_⟩
    rintro b ⟨⟩
    exact h

theorem ends_error {P : α → Prop} {e : ε} : Ends kind P (.error e : Except ε α) ↔ ¬ kind e := by
  constructor
  · exact fun h he => h.safe ((failsWith_error e).mpr he)
  · intro h
    refine ⟨fun hfails => h ((failsWith_error e).mp hfails), ?_⟩
    rintro a ⟨⟩

/-- The rule of composition: what the first part answers is what the rest starts from. -/
theorem Ends.bind {P : α → Prop} {Q : β → Prop} {x : Except ε α} {f : α → Except ε β}
    (hx : Ends kind P x) (hf : ∀ a, P a → Ends kind Q (f a)) : Ends kind Q (x >>= f) := by
  cases x with
  | error e => exact ends_error.mpr (ends_error.mp hx)
  | ok a => exact hf a (ends_ok.mp hx)

/-- The rule of consequence. -/
theorem Ends.imp {P Q : α → Prop} {x : Except ε α} (hx : Ends kind P x) (h : ∀ a, P a → Q a) :
    Ends kind Q x := ⟨hx.safe, fun a ha => h a (hx.post a ha)⟩

/-- How such a computation ends. -/
theorem Ends.cases {P : α → Prop} {x : Except ε α} (hx : Ends kind P x) :
    (∃ e, x = .error e ∧ ¬ kind e) ∨ ∃ a, x = .ok a ∧ P a := by
  cases x with
  | error e => exact .inl ⟨e, rfl, ends_error.mp hx⟩
  | ok a => exact .inr ⟨a, rfl, ends_ok.mp hx⟩

/-- A sequence gives a result when its first step and then the rest do. -/
theorem bind_eq_ok_iff {x : Except ε α} {f : α → Except ε β} {b : β} :
    (x >>= f) = .ok b ↔ ∃ a, x = .ok a ∧ f a = .ok b := by
  cases x with
  | error e =>
      constructor
      · intro h
        cases h
      · rintro ⟨a, h, -⟩
        cases h
  | ok a =>
      constructor
      · exact fun h => ⟨a, rfl, h⟩
      · rintro ⟨a', h, hf⟩
        cases h
        exact hf

/-- What every turn of a loop keeps, of the items before it, the loop keeps of all. -/
theorem foldlM_prefix {f : σ → α → Except ε σ} {P : List α → σ → Prop} {items : List α}
    (before : List α) {s s' : σ}
    (step : ∀ before item s s', item ∈ items → P before s → f s item = .ok s' →
      P (before ++ [item]) s') (h : P before s)
    (hrun : items.foldlM f s = .ok s') : P (before ++ items) s' := by
  induction items generalizing before s with
  | nil =>
      cases hrun
      rwa [List.append_nil]
  | cons item items ih =>
      rw [List.foldlM_cons] at hrun
      obtain ⟨next, hnext, hrun⟩ := bind_eq_ok_iff.mp hrun
      have hrest := ih (before ++ [item]) (fun before' other s s' hmem => step before' other s s'
        (List.mem_cons_of_mem _ hmem)) (step before item s next List.mem_cons_self h hnext) hrun
      rwa [List.append_assoc] at hrest

end Failures
