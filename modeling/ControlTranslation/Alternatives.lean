import Mathlib.Data.List.Forall2

/-!
# Alternatives of conjunctions

A list of alternatives, each a list of conditions, holds when every condition of
some alternative does.  Two such lists mean the same when they match alternative
by alternative and condition by condition; one narrows another when each of its
alternatives implies one of the other's.
-/

namespace Alternatives

variable {α β : Type}

/-- Some alternative holds whole. -/
def Holds (truth : α → Prop) (alternatives : List (List α)) : Prop :=
  ∃ alternative ∈ alternatives, ∀ a ∈ alternative, truth a

/-- Matched lists whose members agree hold together. -/
theorem all_iff_of_forall₂ {p : α → Prop} {q : β → Prop} {as : List α} {bs : List β}
    (h : List.Forall₂ (fun a b => p a ↔ q b) as bs) : (∀ a ∈ as, p a) ↔ ∀ b ∈ bs, q b := by
  induction h with
  | nil => simp
  | cons hab _ ih => rw [List.forall_mem_cons, List.forall_mem_cons, hab, ih]

/-- Matched lists whose members agree have a holding member together. -/
theorem any_iff_of_forall₂ {p : α → Prop} {q : β → Prop} {as : List α} {bs : List β}
    (h : List.Forall₂ (fun a b => p a ↔ q b) as bs) : (∃ a ∈ as, p a) ↔ ∃ b ∈ bs, q b := by
  induction h with
  | nil => simp
  | cons hab _ ih => rw [List.exists_mem_cons_iff, List.exists_mem_cons_iff, hab, ih]

/-- In a matching list each element has a partner. -/
theorem exists_right_of_forall₂ {r : α → β → Prop} {as : List α} {bs : List β}
    (h : List.Forall₂ r as bs) {a : α} (ha : a ∈ as) : ∃ b ∈ bs, r a b := by
  induction h with
  | nil => cases ha
  | cons hab _ ih =>
      rcases List.mem_cons.mp ha with rfl | ha
      · exact ⟨_, List.mem_cons_self, hab⟩
      · obtain ⟨b, hb, hr⟩ := ih ha
        exact ⟨b, List.mem_cons_of_mem _ hb, hr⟩

/-- Every member on the right is matched by one on the left. -/
theorem exists_left_of_forall₂ {r : α → β → Prop} {as : List α} {bs : List β}
    (h : List.Forall₂ r as bs) {b : β} (hb : b ∈ bs) : ∃ a ∈ as, r a b :=
  exists_right_of_forall₂ h.flip hb

end Alternatives
