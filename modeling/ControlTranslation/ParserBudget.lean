import ControlTranslation.ParserAgreement

/-!
# The budget of the translator's loops

The two loops of the translator carry a budget in place of the scan index the
source advances.  Every item consumes a character, so a budget above the length
of the unread text is never exhausted: no translation fails for that reason.
-/

namespace ModSecurity

open PyText

/-- An attempt that did not run out of budget. -/
def InBudget {α : Type} (x : Attempt α) : Prop := x ≠ .error "scan budget exhausted"

/-- A parser that stays in budget and consumes something. -/
structure Consumes {α : Type} (rest : α → Str) (s : Scan) (x : Attempt α) : Prop where
  inBudget : InBudget x
  shorter : ∀ {a}, x = .ok a → (rest a).length < s.rest.length

theorem inBudget_ok {α : Type} (a : α) : InBudget (.ok a : Attempt α) := by
  simp [InBudget]

/-- A message that begins otherwise is another message. -/
theorem inBudget_error {α : Type} {message : String}
    (h : message.toList.take 2 ≠ ['s', 'c']) : InBudget (.error message : Attempt α) := by
  intro heq
  obtain rfl := Except.error.inj heq
  exact h (by decide)

/-- An error passed on is about the budget only if it was. -/
theorem inBudget_of_error {α β : Type} {x : Attempt α} {message : String}
    (h : InBudget x) (hx : x = .error message) : InBudget (.error message : Attempt β) := by
  intro heq
  obtain rfl := Except.error.inj heq
  exact h hx

/-- A parser that stays in budget and never moves back. -/
structure Keeps (s : Scan) (x : Attempt (List Parts × Scan)) : Prop where
  inBudget : InBudget x
  shorter : ∀ {alts s'}, x = .ok (alts, s') → s'.rest.length ≤ s.rest.length

section

variable {t : CharTables}

theorem parseClass_consumes {s : Scan} (hrest : s.rest ≠ []) :
    Consumes (fun p : List Parts × Scan => p.2.rest) s (parseClass t s) := by
  constructor
  · simp only [parseClass]
    split
    · exact inBudget_error (by decide)
    · split
      · exact inBudget_ok _
      · split
        · exact inBudget_ok _
        · split <;> exact inBudget_ok _
  · rintro ⟨alts, s'⟩ h
    obtain ⟨hmem, hcases⟩ := parseClass_cases h
    have hlen := congrArg List.length (partition_of_mem hmem)
    rw [List.length_append, List.length_cons, List.length_tail] at hlen
    have hpos := List.length_pos_iff.mpr hrest
    rcases hcases with ⟨-, -, rfl⟩ | ⟨-, -, -, rfl⟩
    · change (partition ']' s.rest.tail).2.length < s.rest.length
      omega
    · change (partition ']' s.rest.tail).2.length < s.rest.length
      omega

theorem parseEscape_consumes {s : Scan} :
    Consumes (fun p : List Parts × Bool × Scan => p.2.2.rest) s (parseEscape t s) := by
  have hlen : s.rest.tail.length ≤ s.rest.length := by
    rw [List.length_tail]
    omega
  simp only [parseEscape]
  split
  · exact ⟨inBudget_error (by decide), fun h => by cases h⟩
  · rename_i char rest htail
    rw [htail, List.length_cons] at hlen
    split
    · exact ⟨inBudget_ok _, fun h => by cases h; exact hlen⟩
    · split
      · exact ⟨inBudget_ok _, fun h => by cases h; exact hlen⟩
      · split
        · exact ⟨inBudget_ok _, fun h => by cases h; exact hlen⟩
        · split
          · split
            · rename_i a b rest'
              split
              · refine ⟨inBudget_ok _, fun h => ?_⟩
                cases h
                simp only [List.length_cons] at hlen
                change rest'.length < s.rest.length
                omega
              · exact ⟨inBudget_error (by decide), fun h => by cases h⟩
            · exact ⟨inBudget_error (by decide), fun h => by cases h⟩
          · split
            · exact ⟨inBudget_error (by simp), fun h => by cases h⟩
            · exact ⟨inBudget_ok _, fun h => by cases h; exact hlen⟩

/-- Repetition stays within the budget or refuses. -/
theorem repeatCross_inBudget {x : List Parts} :
    ∀ {n : Nat} {start : List Parts}, InBudget (repeatCross x n start) := by
  intro n
  induction n with
  | zero => exact fun {start} => inBudget_ok _
  | succ n ih =>
      intro start
      simp only [repeatCross]
      split
      · exact inBudget_error (by decide)
      · exact ih

theorem parseCounted_consumes (alts : List Parts) {s : Scan} {rest : Str} {c : Char}
    (hrest : s.rest = c :: rest) :
    Consumes (fun p : List Parts × Scan => p.2.rest) s (parseCounted t alts s rest) := by
  simp only [parseCounted]
  split
  · exact ⟨inBudget_error (by decide), fun h => by cases h⟩
  · rename_i minimum upper after hbounds
    have hlt : after.length < s.rest.length := by
      obtain ⟨digits, -, -, -, hshape⟩ := readBounds_shape hbounds
      rw [hrest]
      rcases hshape with ⟨-, rfl⟩ | ⟨digits', -, -, -, rfl⟩ <;>
        simp only [List.length_cons, List.length_append] <;> omega
    split
    · exact ⟨inBudget_error (by decide), fun h => by cases h⟩
    · split
      · exact ⟨inBudget_ok _, fun h => by cases h; exact hlt⟩
      · split
        · exact ⟨inBudget_error (by decide), fun h => by cases h⟩
        · split
          · rename_i e he
            exact ⟨inBudget_of_error repeatCross_inBudget he, fun h => by cases h⟩
          · split
            · exact ⟨inBudget_ok _, fun h => by cases h; exact hlt⟩
            · exact ⟨inBudget_ok _, fun h => by cases h; exact hlt⟩

theorem parseQuantifier_consumes (alts : List Parts) (single : Bool) {s : Scan} {rest : Str}
    {c : Char} (hrest : s.rest = c :: rest) :
    Consumes (fun p : List Parts × Scan => p.2.rest) s
      (parseQuantifier alts single s c rest) := by
  have hlt : (skipMarker rest).length < s.rest.length := by
    rw [hrest, List.length_cons]
    cases rest with
    | nil => simp [skipMarker]
    | cons d rest =>
        simp only [skipMarker]
        split <;> simp only [List.length_cons] <;> omega
  simp only [parseQuantifier]
  split
  · split
    · exact ⟨inBudget_error (by decide), fun h => by cases h⟩
    · exact ⟨inBudget_ok _, fun h => by cases h; exact hlt⟩
  · split
    · exact ⟨inBudget_error (by decide), fun h => by cases h⟩
    · split
      · exact ⟨inBudget_error (by decide), fun h => by cases h⟩
      · exact ⟨inBudget_ok _, fun h => by cases h; exact hlt⟩

/-- An item consumes its first character, given that groups do not move back. -/
theorem parseAtom_consumes {group : Scan → Attempt (List Parts × Scan)}
    (hgroup : ∀ s, Keeps s (group s)) (s : Scan) :
    Consumes (fun p : List Parts × Bool × Scan => p.2.2.rest) s (parseAtom t group s) := by
  simp only [parseAtom]
  split
  · exact ⟨inBudget_error (by decide), fun h => by cases h⟩
  · rename_i char rest hrest
    have hpos : s.rest ≠ [] := by simp [hrest]
    have hlen : rest.length < s.rest.length := by simp [hrest]
    split
    · split
      · exact ⟨inBudget_error (by decide), fun h => by cases h⟩
      · have hinner : (if rest.head? = some '?' then rest.drop 2 else rest).length ≤
            rest.length := by
          split
          · rw [List.length_drop]
            omega
          · exact Nat.le_refl _
        split
        · rename_i e he
          exact ⟨inBudget_of_error (hgroup _).inBudget he, fun h => by cases h⟩
        · rename_i alts s' hs'
          have hle : s'.rest.length ≤ rest.length := ((hgroup _).shorter hs').trans hinner
          have hlt : s'.rest.tail.length < s.rest.length := by
            rw [List.length_tail]
            omega
          split
          · split
            · exact ⟨inBudget_ok _, fun h => by cases h; exact hlt⟩
            · exact ⟨inBudget_ok _, fun h => by cases h; exact hlt⟩
          · exact ⟨inBudget_error (by decide), fun h => by cases h⟩
    · split
      · have hclass := parseClass_consumes (t := t) hpos
        split
        · rename_i e he
          exact ⟨inBudget_of_error hclass.inBudget he, fun h => by cases h⟩
        · rename_i alts s' hs'
          exact ⟨inBudget_ok _, fun h => by cases h; exact hclass.shorter hs'⟩
      · split
        · exact parseEscape_consumes
        · split
          · exact ⟨inBudget_ok _, fun h => by cases h; exact hlen⟩
          · split
            · exact ⟨inBudget_error (by decide), fun h => by cases h⟩
            · split
              · exact ⟨inBudget_error (by decide), fun h => by cases h⟩
              · exact ⟨inBudget_ok _, fun h => by cases h; exact hlen⟩

/-- A term uses up some of the text when its atom does. -/
theorem parseTerm_consumes {atom : Scan → Attempt (List Parts × Bool × Scan)}
    (hatom : ∀ s, Consumes (fun p => p.2.2.rest) s (atom s)) (s : Scan) :
    Consumes (fun p : List Parts × Scan => p.2.rest) s (parseTerm t atom s) := by
  simp only [parseTerm]
  split
  · rename_i e he
    exact ⟨inBudget_of_error (hatom s).inBudget he, fun h => by cases h⟩
  · rename_i alts single s' hs'
    have hlt : s'.rest.length < s.rest.length := (hatom s).shorter hs'
    split
    · exact ⟨inBudget_ok _, fun h => by cases h; exact hlt⟩
    · rename_i c rest hrest
      split
      · have h := parseCounted_consumes (t := t) alts hrest
        exact ⟨h.inBudget, fun hok => (h.shorter hok).trans hlt⟩
      · split
        · have h := parseQuantifier_consumes alts single hrest
          exact ⟨h.inBudget, fun hok => (h.shorter hok).trans hlt⟩
        · exact ⟨inBudget_ok _, fun h => by cases h; exact hlt⟩

/-- The loop over items, by induction on a budget above the unread length. -/
theorem concatLoop_keeps {term : Scan → Attempt (List Parts × Scan)}
    (hterm : ∀ s, Consumes (fun p => p.2.rest) s (term s)) :
    ∀ {budget : Nat} (results : List Parts) {s : Scan}, s.rest.length < budget →
      Keeps s (concatLoop term budget results s) := by
  intro budget
  induction budget with
  | zero => intro results s h; cases h
  | succ budget ih =>
      intro results s hbudget
      simp only [concatLoop]
      split
      · exact ⟨inBudget_ok _, fun h => by cases h; exact Nat.le_refl _⟩
      · split
        · exact ⟨inBudget_ok _, fun h => by cases h; exact Nat.le_refl _⟩
        · split
          · rename_i e he
            exact ⟨inBudget_of_error (hterm s).inBudget he, fun h => by cases h⟩
          · rename_i suffixes s' hs'
            have hlt : s'.rest.length < s.rest.length := (hterm s).shorter hs'
            split
            · exact ⟨inBudget_error (by decide), fun h => by cases h⟩
            · have h := ih (cross results suffixes) (s := s') (by omega)
              exact ⟨h.inBudget, fun hok => (h.shorter hok).trans (Nat.le_of_lt hlt)⟩

/-- The loop over branches, each of which follows a `|`. -/
theorem alternationLoop_keeps {concat : Scan → Attempt (List Parts × Scan)}
    (hconcat : ∀ s, Keeps s (concat s)) :
    ∀ {budget : Nat} (alts : List Parts) {s : Scan}, s.rest.length < budget →
      Keeps s (alternationLoop concat budget alts s) := by
  intro budget
  induction budget with
  | zero => intro alts s h; cases h
  | succ budget ih =>
      intro alts s hbudget
      simp only [alternationLoop]
      split
      · exact ⟨inBudget_ok _, fun h => by cases h; exact Nat.le_refl _⟩
      · rename_i c rest hrest
        have hlen : rest.length < s.rest.length := by simp [hrest]
        split
        · split
          · rename_i e he
            exact ⟨inBudget_of_error (hconcat _).inBudget he, fun h => by cases h⟩
          · rename_i more s' hs'
            have hle : s'.rest.length ≤ rest.length := (hconcat _).shorter hs'
            split
            · exact ⟨inBudget_error (by decide), fun h => by cases h⟩
            · have h := ih (alts ++ more) (s := s') (by omega)
              exact ⟨h.inBudget, fun hok => (h.shorter hok).trans (by omega)⟩
        · exact ⟨inBudget_ok _, fun h => by cases h; exact Nat.le_refl _⟩

theorem parseAlternation_keeps (levels : Nat) :
    ∀ s, Keeps s (parseAlternation t levels s) := by
  induction levels with
  | zero => exact fun s => ⟨inBudget_error (by decide), fun h => by cases h⟩
  | succ levels ih =>
      intro s
      have hconcat : ∀ s, Keeps s
          (parseConcat (parseTerm t (parseAtom t (parseAlternation t levels))) s) :=
        fun s => concatLoop_keeps (parseTerm_consumes (parseAtom_consumes ih)) _
          (Nat.lt_succ_self _)
      simp only [parseAlternation]
      split
      · rename_i e he
        exact ⟨inBudget_of_error (hconcat s).inBudget he, fun h => by cases h⟩
      · rename_i alts s' hs'
        have h := alternationLoop_keeps hconcat alts (Nat.lt_succ_self s'.rest.length)
        exact ⟨h.inBudget, fun hok => (h.shorter hok).trans ((hconcat s).shorter hs')⟩

/-- **No translation runs out of budget.** -/
theorem translate_inBudget (source : Str) : InBudget (translate t source) := by
  simp only [translate]
  split
  · exact inBudget_error (by decide)
  · split
    · rename_i e he
      simp only [readInlineFlags] at he
      split at he
      · split at he
        · cases he
        · cases he
          exact inBudget_error (by simp)
      · cases he
    · rename_i ci src hflags
      split
      · rename_i e he
        exact inBudget_of_error (parseAlternation_keeps 9 _).inBudget he
      · split
        · exact inBudget_error (by decide)
        · split
          · exact inBudget_error (by decide)
          · split
            · exact inBudget_error (by decide)
            · split
              · exact inBudget_error (by decide)
              · split
                · exact inBudget_error (by decide)
                · exact inBudget_ok _

end

end ModSecurity
