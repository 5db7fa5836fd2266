import ControlTranslation.Pcre

/-!
# The fuel of the reference parser

The parser runs on fuel, but the fuel is bookkeeping: every item consumes a
character, so a multiple of the length covers the recursion.  Whatever some
amount of fuel parses, every amount above that bound parses the same way.
-/

namespace Pcre

/-- A bracket expression ends at the bracket that closes it. -/
theorem scanClass_eq {text raw after : List Char} {skip : Nat} {quoted : Bool}
    (h : scanClass skip quoted text = some (raw, after)) : text = raw ++ ']' :: after := by
  induction text generalizing skip quoted raw after with
  | nil => cases h
  | cons c rest ih =>
      have keep : ∀ {skip' : Nat} {quoted' : Bool},
          (scanClass skip' quoted' rest).map (fun p => (c :: p.1, p.2)) = some (raw, after) →
            c :: rest = raw ++ ']' :: after := by
        intro skip' quoted' hkeep
        obtain ⟨⟨raw', after'⟩, hscan, heq⟩ := Option.map_eq_some_iff.mp hkeep
        cases heq
        rw [ih hscan, List.cons_append]
      simp only [scanClass] at h
      split at h
      · exact keep h
      · split at h
        · split at h <;> exact keep h
        · split at h
          · rename_i hclose
            cases h
            rw [hclose, List.nil_append]
          · split at h
            · split at h
              · exact keep h
              · split at h <;> exact keep h
            · split at h <;> exact keep h

theorem readClass_eq {text after : List Char} {r : Regex}
    (h : readClass text = some (r, after)) :
    ∃ raw, text = raw ++ ']' :: after ∧
      r = .bracket raw (classBody raw).1 (classItems (classBody raw).2) := by
  simp only [readClass] at h
  split at h
  · cases h
  · rename_i raw after' hscan
    split at h
    · cases h
    · cases h
      exact ⟨raw, scanClass_eq hscan, rfl⟩

/-- What an escape leaves is an end of the text. -/
theorem readEscape_suffix {c : Char} {rest after : List Char} {r : Regex}
    (h : readEscape (c :: rest) = some (r, after)) : after <:+ rest := by
  simp only [readEscape] at h
  split at h
  · cases h
    exact List.suffix_refl _
  · split at h
    · cases h
      exact List.suffix_refl _
    · split at h
      · cases h
        exact List.suffix_refl _
      · split at h
        · cases h
          exact List.suffix_refl _
        · split at h
          · split at h
            · rename_i a b _
              split at h
              · cases h
                exact List.suffix_append [a, b] _
              · cases h
            · cases h
          · split at h
            · cases h
            · cases h
              exact List.suffix_refl _

theorem readCounted_suffix {s after : List Char} {q : Quant}
    (h : readCounted s = some (q, after)) : after <:+ s := by
  have hdrop : ∀ {x y : List Char} {d : Char}, x.dropWhile Char.isDigit = d :: y → y <:+ x := by
    intro x y d hx
    have hsuffix := List.dropWhile_suffix (l := x) Char.isDigit
    rw [hx] at hsuffix
    exact (List.suffix_cons d y).trans hsuffix
  simp only [readCounted] at h
  split at h
  · cases h
  · split at h
    · rename_i rest hrest
      cases h
      exact hdrop hrest
    · rename_i rest hrest
      split at h
      · rename_i rest' hrest'
        cases h
        exact (hdrop hrest').trans (hdrop hrest)
      · cases h
    · cases h

/-- What a quantifier leaves is an end of the text. -/
theorem readQuant_suffix {s rest : List Char} {q : Quant}
    (h : readQuant s = some (q, rest)) : rest <:+ s := by
  cases s with
  | nil => cases h
  | cons c x =>
      have htail : x <:+ c :: x := List.suffix_cons c x
      simp only [readQuant] at h
      split at h
      · cases h
        exact htail
      · split at h
        · cases h
          exact htail
        · split at h
          · cases h
            exact htail
          · split at h
            · exact (readCounted_suffix h).trans htail
            · cases h

theorem readMarker_suffix (s : List Char) : (readMarker s).2 <:+ s := by
  cases s with
  | nil => exact List.suffix_refl _
  | cons c rest =>
      simp only [readMarker]
      split
      · exact List.suffix_cons c rest
      · split
        · exact List.suffix_cons c rest
        · exact List.suffix_refl _

/-- What quantifying leaves is an end of the text. -/
theorem quantify_suffix (r : Regex) (s : List Char) : (quantify r s).2 <:+ s := by
  simp only [quantify]
  split
  · split
    · exact List.suffix_refl _
    · rename_i hq
      exact (readMarker_suffix _).trans (readQuant_suffix hq)
  · exact List.suffix_refl _

/-- **What is left to read** after each parser is an end of the text, and an item
takes at least its first character. -/
theorem parse_suffix : ∀ fuel,
    (∀ {s r y}, parseAlt fuel s = some (r, y) → y <:+ s) ∧
    (∀ {s r y}, parseCat fuel s = some (r, y) → y <:+ s) ∧
    (∀ {c s r y}, parseAtom fuel (c :: s) = some (r, y) → y <:+ s) := by
  intro fuel
  induction fuel with
  | zero => exact ⟨(fun h => by cases h), (fun h => by cases h), (fun h => by cases h)⟩
  | succ fuel ih =>
      obtain ⟨ihalt, ihcat, ihatom⟩ := ih
      refine ⟨?_, ?_, ?_⟩
      · intro s r y h
        simp only [parseAlt] at h
        split at h
        · cases h
        · rename_i r₁ rest hcat
          have hrest := ihcat hcat
          split at h
          · obtain ⟨⟨r₂, y₂⟩, halt, heq⟩ := Option.map_eq_some_iff.mp h
            cases heq
            exact (ihalt halt).trans ((List.tail_suffix _).trans hrest)
          · cases h
            exact hrest
      · intro s r y h
        simp only [parseCat] at h
        split at h
        · cases h
          exact List.suffix_refl _
        · rename_i c rest
          split at h
          · cases h
            exact List.suffix_refl _
          · split at h
            · cases h
            · rename_i a s' hatom
              obtain ⟨⟨r', y'⟩, hcat, heq⟩ := Option.map_eq_some_iff.mp h
              cases heq
              exact (ihcat hcat).trans ((quantify_suffix a s').trans
                ((ihatom hatom).trans (List.suffix_cons c rest)))
      · intro c rest r y h
        simp only [parseAtom] at h
        split at h
        · split at h
          · cases h
          · split at h
            · rename_i r₁ after halt
              cases h
              refine (List.suffix_cons ')' _).trans ((ihalt halt).trans ?_)
              split
              · exact List.drop_suffix 2 rest
              · exact List.suffix_refl _
            · cases h
        · split at h
          · obtain ⟨raw, heq, -⟩ := readClass_eq h
            exact ⟨raw ++ [']'], by rw [heq, List.append_assoc]; rfl⟩
          · split at h
            · cases rest with
              | nil => cases h
              | cons d rest =>
                  exact (readEscape_suffix h).trans (List.suffix_cons d rest)
            · split at h
              · cases h
                exact List.suffix_refl _
              · split at h
                · cases h
                  exact List.suffix_refl _
                · split at h
                  · cases h
                    exact List.suffix_refl _
                  · split at h
                    · cases h
                    · split at h
                      · split at h
                        · cases h
                        · cases h
                          exact List.suffix_refl _
                      · split at h
                        · cases h
                          exact List.suffix_refl _
                        · cases h
                          exact List.suffix_refl _

/-- **The result does not depend on the fuel**, once there is enough of it. -/
theorem parse_fuel : ∀ fuel,
    (∀ {s v fuel'}, parseAlt fuel s = some v → 3 * s.length + 3 ≤ fuel' →
      parseAlt fuel' s = some v) ∧
    (∀ {s v fuel'}, parseCat fuel s = some v → 3 * s.length + 2 ≤ fuel' →
      parseCat fuel' s = some v) ∧
    (∀ {s v fuel'}, parseAtom fuel s = some v → 3 * s.length + 1 ≤ fuel' →
      parseAtom fuel' s = some v) := by
  intro fuel
  induction fuel with
  | zero => exact ⟨(fun h => by cases h), (fun h => by cases h), (fun h => by cases h)⟩
  | succ fuel ih =>
      obtain ⟨ihalt, ihcat, ihatom⟩ := ih
      refine ⟨?_, ?_, ?_⟩
      · intro s v fuel' h hfuel
        obtain ⟨k, rfl⟩ : ∃ k, fuel' = k + 1 := ⟨fuel' - 1, by omega⟩
        simp only [parseAlt] at h ⊢
        split at h
        · cases h
        · rename_i r rest hcat
          rw [ihcat hcat (by omega)]
          simp only
          split at h
          · rename_i hbar
            rw [if_pos hbar]
            obtain ⟨p, halt, rfl⟩ := Option.map_eq_some_iff.mp h
            have hlen := ((parse_suffix fuel).2.1 hcat).length_le
            have hpos : 0 < rest.length := by
              cases rest with
              | nil => simp at hbar
              | cons c rest => simp
            rw [ihalt halt (by rw [List.length_tail]; omega), Option.map_some]
          · rename_i hbar
            rw [if_neg hbar, h]
      · intro s v fuel' h hfuel
        obtain ⟨k, rfl⟩ : ∃ k, fuel' = k + 1 := ⟨fuel' - 1, by omega⟩
        cases s with
        | nil => simpa only [parseCat] using h
        | cons c rest =>
            simp only [parseCat] at h ⊢
            split at h
            · rename_i hstop
              rw [if_pos hstop, h]
            · rename_i hstop
              rw [if_neg hstop]
              split at h
              · cases h
              · rename_i a s' hatom
                rw [ihatom hatom (by omega)]
                obtain ⟨p, hcat, rfl⟩ := Option.map_eq_some_iff.mp h
                have h₁ := ((parse_suffix fuel).2.2 hatom).length_le
                have h₂ := (quantify_suffix a s').length_le
                simp only
                rw [List.length_cons] at hfuel
                rw [ihcat hcat (by omega), Option.map_some]
      · intro s v fuel' h hfuel
        obtain ⟨k, rfl⟩ : ∃ k, fuel' = k + 1 := ⟨fuel' - 1, by omega⟩
        cases s with
        | nil => simp [parseAtom] at h
        | cons c rest =>
            simp only [parseAtom] at h ⊢
            split at h
            · rename_i hparen
              rw [if_pos hparen]
              split at h
              · cases h
              · rename_i hlook
                rw [if_neg hlook]
                split at h
                · rename_i r after halt
                  have hlen : (if rest.head? = some '?' then rest.drop 2 else rest).length ≤
                      rest.length := by
                    split
                    · rw [List.length_drop]
                      omega
                    · exact Nat.le_refl _
                  rw [List.length_cons] at hfuel
                  rw [ihalt halt (by omega)]
                  exact h
                · cases h
            · rename_i hparen
              rw [if_neg hparen]
              exact h

end Pcre
