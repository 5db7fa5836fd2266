import ControlTranslation.Glob
import ControlTranslation.RegexTranslator

/-!
# The language of translated parts

Every part denotes a language: a literal the characters that compare equal to
it, a ladder the union of all its texts.  Alternatives are a sum of products,
so the cross product of the parser is multiplication and a counted repetition
a power.
-/

namespace ModSecurity

open PyText Glob

section

variable (same : Char → Char → Bool)

/-- The language of one part. -/
def Part.lang : Part → Language Char
  | .any => ⊤
  | .one => charLang fun _ => true
  | .lit c => charLang (same c)
  | .ladder depths => sumLang (wordLang same) depths.flatten

/-- The language of one alternative. -/
def partsLang (parts : Parts) : Language Char := (parts.map (Part.lang same)).prod

/-- The language of a list of alternatives. -/
def altLang (alternatives : List Parts) : Language Char :=
  sumLang (partsLang same) alternatives

@[simp] theorem partsLang_nil : partsLang same [] = 1 := rfl

@[simp] theorem partsLang_cons (part : Part) (parts : Parts) :
    partsLang same (part :: parts) = part.lang same * partsLang same parts := by
  simp [partsLang]

@[simp] theorem partsLang_append (p q : Parts) :
    partsLang same (p ++ q) = partsLang same p * partsLang same q := by
  simp [partsLang]

@[simp] theorem altLang_nil : altLang same [] = 0 := rfl

@[simp] theorem altLang_cons (parts : Parts) (rest : List Parts) :
    altLang same (parts :: rest) = partsLang same parts + altLang same rest := by
  simp [altLang]

@[simp] theorem altLang_append (a b : List Parts) :
    altLang same (a ++ b) = altLang same a + altLang same b := by
  simp [altLang]

theorem altLang_singleton (parts : Parts) :
    altLang same [parts] = partsLang same parts := by
  simp

theorem partsLang_singleton (part : Part) : partsLang same [part] = part.lang same := by
  simp

/-- A common beginning is taken out of an alternation. -/
theorem altLang_map_prefix (pre : Parts) (suffixes : List Parts) :
    altLang same (suffixes.map fun suffix => pre ++ suffix) =
      partsLang same pre * altLang same suffixes := by
  induction suffixes with
  | nil => simp
  | cons suffix rest ih => simp [ih, mul_add]

/-- The cross product multiplies. -/
theorem altLang_cross (prefixes suffixes : List Parts) :
    altLang same (cross prefixes suffixes) =
      altLang same prefixes * altLang same suffixes := by
  unfold cross
  induction prefixes with
  | nil => simp
  | cons pre rest ih => simp [ih, altLang_map_prefix, add_mul]

/-- Appending a run to every alternative. -/
theorem altLang_map_any (alternatives : List Parts) :
    altLang same (alternatives.map (· ++ [.any])) = altLang same alternatives * ⊤ := by
  induction alternatives with
  | nil => simp
  | cons parts rest ih => simp [ih, add_mul, Part.lang]

/-- A counted repetition is a power. -/
theorem altLang_repeatCross {alternatives : List Parts} :
    ∀ {n : Nat} {start result : List Parts},
      repeatCross alternatives n start = .ok result →
        altLang same result = altLang same start * altLang same alternatives ^ n := by
  intro n
  induction n with
  | zero =>
      intro start result h
      cases h
      simp
  | succ n ih =>
      intro start result h
      simp only [repeatCross] at h
      split at h
      · cases h
      · rw [ih h, altLang_cross, pow_succ', mul_assoc]

/-- An alternative made of literals is a word. -/
theorem partsLang_of_literalText {parts : Parts} {text : Str}
    (h : literalText parts = some text) : partsLang same parts = wordLang same text := by
  induction parts generalizing text with
  | nil =>
      cases h
      simpa using lang_map_lit same []
  | cons part rest ih =>
      cases part with
      | lit c =>
          obtain ⟨tail, htail, rfl⟩ := Option.map_eq_some_iff.mp h
          rw [partsLang_cons, ih htail, ← lang_map_lit, ← lang_map_lit]
          simp [Part.lang, Item.lang]
      | _ => cases h

/-- The branch texts denote the same language as the alternatives. -/
theorem altLang_of_literalBranches {alternatives : List Parts} {branches : List Str}
    (h : literalBranches alternatives = some branches) :
    altLang same alternatives = sumLang (wordLang same) branches := by
  induction alternatives generalizing branches with
  | nil =>
      cases h
      rfl
  | cons parts rest ih =>
      simp only [literalBranches] at h
      split at h
      · cases h
      · split at h
        · cases h
        · rename_i branch hbranch
          obtain ⟨tail, htail, rfl⟩ := Option.map_eq_some_iff.mp h
          rw [altLang_cons, sumLang_cons, ih htail, partsLang_of_literalText same hbranch]

end

/-- A ladder lists exactly the branch texts of its group. -/
theorem asEncodingLadder_flatten {alternatives : List Parts} {depths : List (List Str)}
    (h : asEncodingLadder alternatives = some depths) :
    literalBranches alternatives = some depths.flatten := by
  have hsingle : ∀ l : List Str, (l.map fun branch => [branch]).flatten = l := by
    intro l
    induction l with
    | nil => rfl
    | cons a rest ih => simp [ih]
  simp only [asEncodingLadder] at h
  split at h
  · cases h
  · split at h
    · cases h
    · rename_i branches hbranches
      split at h
      · cases h
        rw [hsingle, hbranches]
      · split at h
        · rename_i b₀ b₁ b₂ rest _
          split at h
          · cases h
            rw [hbranches]
            simp [hsingle]
          · cases h
        · cases h

/-- No depth of a ladder is empty. -/
theorem asEncodingLadder_full {alternatives : List Parts} {depths : List (List Str)}
    (h : asEncodingLadder alternatives = some depths) : [] ∉ depths := by
  simp only [asEncodingLadder] at h
  split at h
  · cases h
  · split at h
    · cases h
    · split at h
      · cases h
        simp
      · split at h
        · split at h
          · cases h
            simp
          · cases h
        · cases h

/-- A character of a branch text is a literal of some alternative. -/
theorem mem_of_literalText {parts : Parts} {text : Str} {c : Char}
    (h : literalText parts = some text) (hc : c ∈ text) : .lit c ∈ parts := by
  induction parts generalizing text with
  | nil =>
      cases h
      cases hc
  | cons part rest ih =>
      cases part with
      | lit d =>
          obtain ⟨tail, htail, rfl⟩ := Option.map_eq_some_iff.mp h
          rcases List.mem_cons.mp hc with rfl | hc
          · exact List.mem_cons_self
          · exact List.mem_cons_of_mem _ (ih htail hc)
      | _ => cases h

theorem mem_of_literalBranches {alternatives : List Parts} {branches : List Str} {text : Str}
    {c : Char} (h : literalBranches alternatives = some branches) (htext : text ∈ branches)
    (hc : c ∈ text) : ∃ parts ∈ alternatives, .lit c ∈ parts := by
  induction alternatives generalizing branches with
  | nil =>
      cases h
      cases htext
  | cons parts rest ih =>
      simp only [literalBranches] at h
      split at h
      · cases h
      · split at h
        · cases h
        · rename_i branch hbranch
          obtain ⟨tail, htail, rfl⟩ := Option.map_eq_some_iff.mp h
          rcases List.mem_cons.mp htext with rfl | htext
          · exact ⟨parts, List.mem_cons_self, mem_of_literalText hbranch hc⟩
          · obtain ⟨p, hp, hlit⟩ := ih htail htext
            exact ⟨p, List.mem_cons_of_mem _ hp, hlit⟩

/-- Recognising a ladder does not change the language of the group. -/
theorem altLang_ladder (same : Char → Char → Bool) {alternatives : List Parts}
    {depths : List (List Str)} (h : asEncodingLadder alternatives = some depths) :
    altLang same [[.ladder depths]] = altLang same alternatives := by
  rw [altLang_of_literalBranches same (asEncodingLadder_flatten h)]
  simp [Part.lang]

@[simp] theorem cross_nil_left (x : List Parts) : cross [[]] x = x := by
  simp [cross]

@[simp] theorem cross_nil_right (x : List Parts) : cross x [[]] = x := by
  induction x with
  | nil => rfl
  | cons p rest ih => simp [cross]

/-- Putting alternatives together is associative. -/
theorem cross_assoc (a b c : List Parts) :
    cross (cross a b) c = cross a (cross b c) := by
  simp [cross, List.flatMap_assoc, List.map_flatMap, List.flatMap_map, Function.comp_def]

/-- A product of alternatives has one from each. -/
theorem mem_cross {a b : List Parts} {p : Parts} :
    p ∈ cross a b ↔ ∃ x ∈ a, ∃ y ∈ b, p = x ++ y := by
  simp only [cross, List.mem_flatMap, List.mem_map]
  constructor
  · rintro ⟨x, hx, y, hy, rfl⟩
    exact ⟨x, hx, y, hy, rfl⟩
  · rintro ⟨x, hx, y, hy, rfl⟩
    exact ⟨x, hx, y, hy, rfl⟩

/-- There are as many as the two counts multiply to. -/
theorem cross_length (a b : List Parts) : (cross a b).length = a.length * b.length := by
  induction a with
  | nil => simp [cross]
  | cons x rest ih =>
      simp only [cross, List.flatMap_cons, List.length_append, List.length_map,
        List.length_cons] at ih ⊢
      rw [ih, Nat.add_mul]
      omega

/-- A cross product with one member comes from one prefix and one suffix. -/
theorem cross_eq_singleton {a b : List Parts} {p : Parts} (h : cross a b = [p]) :
    ∃ x y, a = [x] ∧ b = [y] ∧ p = x ++ y := by
  have hlen : a.length * b.length = 1 := by
    rw [← cross_length, h]
    rfl
  have ha : a.length = 1 := Nat.eq_one_of_mul_eq_one_right hlen
  have hb : b.length = 1 := Nat.eq_one_of_mul_eq_one_left hlen
  obtain ⟨x, rfl⟩ := List.length_eq_one_iff.mp ha
  obtain ⟨y, rfl⟩ := List.length_eq_one_iff.mp hb
  exact ⟨x, y, rfl, rfl, by simpa [cross] using h.symm⟩

/-- Every part of a counted repetition is a part of the repeated alternatives. -/
theorem mem_repeatCross {x : List Parts} {part : Part} :
    ∀ {n : Nat} {start y : List Parts}, repeatCross x n start = .ok y →
      ∀ parts ∈ y, part ∈ parts →
        (∃ p ∈ start, part ∈ p) ∨ ∃ p ∈ x, part ∈ p := by
  intro n
  induction n with
  | zero =>
      intro start y h parts hp hpart
      cases h
      exact Or.inl ⟨parts, hp, hpart⟩
  | succ n ih =>
      intro start y h parts hp hpart
      simp only [repeatCross] at h
      split at h
      · cases h
      · rcases ih h parts hp hpart with ⟨p, hp, hpart⟩ | hx
        · obtain ⟨u, hu, v, hv, rfl⟩ := mem_cross.mp hp
          rcases List.mem_append.mp hpart with hpart | hpart
          · exact Or.inl ⟨u, hu, hpart⟩
          · exact Or.inr ⟨v, hv, hpart⟩
        · exact Or.inr hx

theorem cross_ne_nil {a b : List Parts} (ha : a ≠ []) (hb : b ≠ []) : cross a b ≠ [] := by
  intro h
  have hlen := cross_length a b
  rw [h, List.length_nil, eq_comm, Nat.mul_eq_zero, List.length_eq_zero_iff,
    List.length_eq_zero_iff] at hlen
  exact hlen.elim ha hb

/-- Repeated alternatives are some alternatives. -/
theorem repeatCross_ne_nil {x : List Parts} (hx : x ≠ []) :
    ∀ {n : Nat} {start y : List Parts}, start ≠ [] → repeatCross x n start = .ok y →
      y ≠ [] := by
  intro n
  induction n with
  | zero =>
      intro start y hstart h
      cases h
      exact hstart
  | succ n ih =>
      intro start y hstart h
      simp only [repeatCross] at h
      split at h
      · cases h
      · exact ih (cross_ne_nil hstart hx) h

/-- A counted repetition with one member repeats one alternative. -/
theorem repeatCross_eq_singleton {x : List Parts} {p : Parts} :
    ∀ {n : Nat} {start : List Parts}, repeatCross x (n + 1) start = .ok [p] →
      ∃ s e, start = [s] ∧ x = [e] ∧ p = s ++ (List.replicate (n + 1) e).flatten := by
  intro n
  induction n with
  | zero =>
      intro start h
      simp only [repeatCross] at h
      split at h
      · cases h
      · obtain ⟨s, e, rfl, rfl, rfl⟩ := cross_eq_singleton (Except.ok.inj h)
        exact ⟨s, e, rfl, rfl, by simp⟩
  | succ n ih =>
      intro start h
      rw [repeatCross] at h
      split at h
      · cases h
      · obtain ⟨s, e, hs, rfl, rfl⟩ := ih h
        obtain ⟨s', e', rfl, he, rfl⟩ := cross_eq_singleton hs
        obtain rfl : e = e' := (List.cons.inj he).1
        exact ⟨s', e, rfl, rfl, by simp [List.replicate_succ]⟩

end ModSecurity
