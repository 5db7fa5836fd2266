import Mathlib.Computability.Language
import Mathlib.Order.CompletePartialOrder

/-!
# Wildcard patterns as languages

A wildcard pattern is a sequence of items: a literal, one arbitrary character,
or an arbitrary run.  Its language is the product of the item languages in the
Kleene algebra of Mathlib's `Language`, so joining patterns is multiplication
and a list of alternatives is a sum.

Literals are compared through a relation `same`, which is equality for an
exact comparison and agreement up to letter case for a folded one.  The
executable matcher `accepts` decides membership (`accepts_iff`).
-/

namespace Glob

/-- One item of a wildcard pattern. -/
inductive Item (α : Type)
  | lit (a : α)
  | one
  | many
  deriving DecidableEq, Repr

section

variable {α : Type} (same : α → α → Bool)

/-- The words of one character that `p` accepts. -/
def charLang (p : α → Bool) : Language α := {w | ∃ x, p x = true ∧ w = [x]}

/-- The language of one item. -/
def Item.lang : Item α → Language α
  | .lit a => charLang (same a)
  | .one => charLang fun _ => true
  | .many => ⊤

/-- The language of a pattern: the product of its items. -/
def lang (pattern : List (Item α)) : Language α :=
  (pattern.map (Item.lang same)).prod

/-- The language of a list of alternatives: their sum. -/
def sumLang {β : Type} (f : β → Language α) (alternatives : List β) : Language α :=
  (alternatives.map f).sum

@[simp] theorem mem_charLang {p : α → Bool} {w : List α} :
    w ∈ charLang p ↔ ∃ x, p x = true ∧ w = [x] := Iff.rfl

@[simp] theorem mem_top_lang (w : List α) : w ∈ (⊤ : Language α) :=
  Set.mem_univ w

@[simp] theorem lang_nil : lang same [] = 1 := rfl

@[simp] theorem lang_cons (i : Item α) (pattern : List (Item α)) :
    lang same (i :: pattern) = i.lang same * lang same pattern := by
  simp [lang]

@[simp] theorem lang_append (p q : List (Item α)) :
    lang same (p ++ q) = lang same p * lang same q := by
  simp [lang]

@[simp] theorem sumLang_nil {β : Type} (f : β → Language α) : sumLang f [] = 0 := rfl

@[simp] theorem sumLang_cons {β : Type} (f : β → Language α) (b : β) (bs : List β) :
    sumLang f (b :: bs) = f b + sumLang f bs := by
  simp [sumLang]

@[simp] theorem sumLang_append {β : Type} (f : β → Language α) (bs cs : List β) :
    sumLang f (bs ++ cs) = sumLang f bs + sumLang f cs := by
  simp [sumLang]

/-- A word is in a sum exactly when it is in one of the summands. -/
theorem mem_sumLang {β : Type} {f : β → Language α} {bs : List β} {w : List α} :
    w ∈ sumLang f bs ↔ ∃ b ∈ bs, w ∈ f b := by
  induction bs with
  | nil => simp [Language.notMem_zero]
  | cons b rest ih => simp [Language.mem_add, ih]

/-- The language of a literal word: the words agreeing with it pointwise. -/
def wordLang (word : List α) : Language α := {w | List.Forall₂ (same · ·) word w}

@[simp] theorem mem_wordLang {word w : List α} :
    w ∈ wordLang same word ↔ List.Forall₂ (fun a b => same a b = true) word w := Iff.rfl

/-- Comparing literally is the pattern made of literals only. -/
theorem lang_map_lit (word : List α) :
    lang same (word.map Item.lit) = wordLang same word := by
  induction word with
  | nil =>
      ext w
      simp [Language.mem_one]
  | cons a rest ih =>
      ext w
      simp only [List.map_cons, lang_cons, ih, Language.mem_mul, Item.lang, mem_charLang,
        mem_wordLang, List.forall₂_cons_left_iff]
      constructor
      · rintro ⟨_, ⟨x, hx, rfl⟩, v, hv, rfl⟩
        exact ⟨x, v, hx, hv, rfl⟩
      · rintro ⟨x, v, hx, hv, rfl⟩
        exact ⟨[x], ⟨x, hx, rfl⟩, v, hv, rfl⟩

/-- Two adjacent runs are one. -/
theorem top_mul_top : (⊤ : Language α) * ⊤ = ⊤ := by
  ext w
  simp only [Language.mem_mul, mem_top_lang, iff_true]
  exact ⟨[], trivial, w, trivial, rfl⟩

/-- Everything lies in the language of all words. -/
theorem le_top_lang (l : Language α) : l ≤ ⊤ := fun w _ => mem_top_lang w

/-- The executable matcher: `k` continues after a run. -/
def acceptsAfterRun (k : List α → Bool) : List α → Bool
  | [] => k []
  | x :: w => k (x :: w) || acceptsAfterRun k w

/-- Decide whether a pattern matches a whole word. -/
def accepts : List (Item α) → List α → Bool
  | [], w => w.isEmpty
  | .lit a :: p, x :: w => same a x && accepts p w
  | .one :: p, _ :: w => accepts p w
  | .lit _ :: _, [] => false
  | .one :: _, [] => false
  | .many :: p, w => acceptsAfterRun (accepts p) w

/-- A run stops at some suffix. -/
theorem acceptsAfterRun_iff {k : List α → Bool} {w : List α} :
    acceptsAfterRun k w = true ↔ ∃ u v, u ++ v = w ∧ k v = true := by
  induction w with
  | nil =>
      constructor
      · intro h
        exact ⟨[], [], rfl, h⟩
      · rintro ⟨u, v, huv, hk⟩
        obtain ⟨-, rfl⟩ := List.append_eq_nil_iff.mp huv
        exact hk
  | cons x rest ih =>
      simp only [acceptsAfterRun, Bool.or_eq_true, ih]
      constructor
      · rintro (hk | ⟨u, v, rfl, hk⟩)
        · exact ⟨[], x :: rest, rfl, hk⟩
        · exact ⟨x :: u, v, rfl, hk⟩
      · rintro ⟨u, v, huv, hk⟩
        cases u with
        | nil => exact Or.inl (by simpa [← huv] using hk)
        | cons y u =>
            obtain ⟨-, rfl⟩ := List.cons.inj huv
            exact Or.inr ⟨u, v, rfl, hk⟩

/-- **The matcher decides the language.** -/
theorem accepts_iff {pattern : List (Item α)} {w : List α} :
    accepts same pattern w = true ↔ w ∈ lang same pattern := by
  induction pattern generalizing w with
  | nil => simp [accepts, Language.mem_one]
  | cons i p ih =>
      rw [lang_cons, Language.mem_mul]
      cases i with
      | lit a =>
          cases w with
          | nil => simp [accepts, Item.lang]
          | cons x w => simp [accepts, Item.lang, ih]
      | one =>
          cases w with
          | nil => simp [accepts, Item.lang]
          | cons x w => simp [accepts, Item.lang, ih]
      | many =>
          simp only [accepts, acceptsAfterRun_iff, ih, Item.lang, mem_top_lang, true_and]
          constructor
          · rintro ⟨u, v, huv, hv⟩
            exact ⟨u, v, hv, huv⟩
          · rintro ⟨u, v, hv, huv⟩
            exact ⟨u, v, huv, hv⟩

/-- A word related letter by letter to a member is a member, when every
literal comparison carries over. -/
theorem lang_rel {same' : α → α → Bool} {R : α → α → Prop} {pattern : List (Item α)}
    (hlit : ∀ a, .lit a ∈ pattern → ∀ x y, R y x → same a x = true → same' a y = true)
    {w w' : List α} (h : List.Forall₂ R w' w) (hw : w ∈ lang same pattern) :
    w' ∈ lang same' pattern := by
  induction pattern generalizing w w' with
  | nil =>
      rw [lang_nil, Language.mem_one] at hw ⊢
      subst hw
      exact List.forall₂_nil_right_iff.mp h
  | cons i p ih =>
      rw [lang_cons, Language.mem_mul] at hw ⊢
      obtain ⟨u, hu, v, hv, rfl⟩ := hw
      have hsplit := List.take_append_drop u.length w'
      have hfirst := List.forall₂_take_append w' u v h
      have hrest := List.forall₂_drop_append w' u v h
      have hv' := ih (fun a ha => hlit a (List.mem_cons_of_mem _ ha)) hrest hv
      refine ⟨_, ?_, _, hv', hsplit⟩
      generalize List.take u.length w' = u' at hfirst
      cases i with
      | many => exact mem_top_lang u'
      | one =>
          obtain ⟨x, -, rfl⟩ := hu
          obtain ⟨y, rest, -, hnil, rfl⟩ := List.forall₂_cons_right_iff.mp hfirst
          rw [List.forall₂_nil_right_iff.mp hnil]
          exact ⟨y, rfl, rfl⟩
      | lit a =>
          obtain ⟨x, hx, rfl⟩ := hu
          obtain ⟨y, rest, hy, hnil, rfl⟩ := List.forall₂_cons_right_iff.mp hfirst
          rw [List.forall₂_nil_right_iff.mp hnil]
          exact ⟨y, hlit a List.mem_cons_self x y hy hx, rfl⟩

end

/-- Reading a text as a wildcard pattern: `*` is a run and `?` one character. -/
def ofText (text : List Char) : List (Item Char) :=
  text.map fun c => if c = '*' then .many else if c = '?' then .one else .lit c

@[simp] theorem ofText_nil : ofText [] = [] := rfl

@[simp] theorem ofText_append (s t : List Char) :
    ofText (s ++ t) = ofText s ++ ofText t := by
  simp [ofText]

/-- A text without wildcard characters reads as itself. -/
theorem ofText_literal {text : List Char}
    (h : ∀ c ∈ text, c ≠ '*' ∧ c ≠ '?') : ofText text = text.map .lit := by
  apply List.map_congr_left
  intro c hc
  simp [h c hc]

/-- Characters compared exactly, or up to ASCII letter case. -/
def sameChar (caseInsensitive : Bool) (a b : Char) : Bool :=
  if caseInsensitive then a.toLower == b.toLower else a == b

@[simp] theorem sameChar_refl (ci : Bool) (a : Char) : sameChar ci a a = true := by
  cases ci <;> simp [sameChar]

theorem toNat_toLower (c : Char) :
    c.toLower.toNat = if 65 ≤ c.toNat ∧ c.toNat ≤ 90 then c.toNat + 32 else c.toNat := by
  unfold Char.toLower
  by_cases h : 65 ≤ c.toNat ∧ c.toNat ≤ 90
  · have h' : c.val ≥ 'A'.val ∧ c.val ≤ 'Z'.val := by
      simpa [UInt32.le_iff_toNat_le] using h
    rw [dif_pos h', if_pos h, ← Char.toNat_val, ← Char.toNat_val, UInt32.toNat_add]
    rw [← Char.toNat_val] at h
    change (c.val.toNat + 32) % 2 ^ 32 = _
    omega
  · have h' : ¬(c.val ≥ 'A'.val ∧ c.val ≤ 'Z'.val) := by
      simpa [UInt32.le_iff_toNat_le] using h
    rw [dif_neg h', if_neg h]

theorem toNat_toUpper (c : Char) :
    c.toUpper.toNat = if 97 ≤ c.toNat ∧ c.toNat ≤ 122 then c.toNat - 32 else c.toNat := by
  unfold Char.toUpper
  by_cases h : 97 ≤ c.toNat ∧ c.toNat ≤ 122
  · have h' : 'a'.val ≤ c.val ∧ c.val ≤ 'z'.val := by
      simpa [UInt32.le_iff_toNat_le] using h
    rw [dif_pos h', if_pos h, ← Char.toNat_val, ← Char.toNat_val, UInt32.toNat_add]
    rw [← Char.toNat_val] at h
    change (c.val.toNat + 4294967264) % 2 ^ 32 = _
    omega
  · have h' : ¬('a'.val ≤ c.val ∧ c.val ≤ 'z'.val) := by
      simpa [UInt32.le_iff_toNat_le] using h
    rw [dif_neg h', if_neg h]

/-- Folding a character twice is folding it once. -/
@[simp] theorem toLower_toLower (c : Char) : c.toLower.toLower = c.toLower := by
  simp only [← Char.toNat_inj, toNat_toLower]
  split_ifs <;> omega

@[simp] theorem toLower_toUpper (c : Char) : c.toUpper.toLower = c.toLower := by
  simp only [← Char.toNat_inj, toNat_toLower, toNat_toUpper]
  split_ifs <;> omega

/-- The characters that fold together with `c`. -/
theorem eq_of_toLower_eq {a c : Char} (h : a.toLower = c.toLower) :
    a = c ∨ a = c.toLower ∨ a = c.toUpper := by
  simp only [← Char.toNat_inj, toNat_toLower, toNat_toUpper] at *
  split_ifs at * <;> omega

example : accepts (sameChar true) (ofText "*a?c*".toList) "xxABCz".toList = true := by
  decide

end Glob
