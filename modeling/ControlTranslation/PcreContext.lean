import ControlTranslation.PcreFuel

/-!
# Reading in context

The parser stops a branch at `|` or `)` and never looks further, so what it reads
there does not depend on what follows.  A branch may then be read once, closed by
one such character, and the result holds in every longer expression.

Bracket expressions with a nested `[` are left out: whether it opens a POSIX name
is decided by a scan that may run past the end of the branch.
-/

namespace Pcre

/-- A character that ends a branch. -/
def isStop (c : Char) : Bool := c = '|' || c = ')'

/-- A bracket expression without a nested `[`. -/
def Regex.plainBracket : Regex → Bool
  | .bracket raw _ _ => !raw.contains '['
  | _ => true

/-- Whether a stop is left in a text. -/
def stops (s : List Char) : Prop := ∃ c ∈ s, isStop c = true

theorem stops.ne_nil {s : List Char} (h : stops s) : s ≠ [] := by
  rintro rfl
  obtain ⟨c, hc, -⟩ := h
  cases hc

theorem stops.of_suffix {s y : List Char} (h : stops y) (hy : y <:+ s) : stops s := by
  obtain ⟨c, hc, hstop⟩ := h
  exact ⟨c, hy.subset hc, hstop⟩

theorem stops.of_cons {c : Char} {s : List Char} (h : stops (c :: s)) (hc : isStop c = false) :
    stops s := by
  obtain ⟨d, hd, hstop⟩ := h
  rcases List.mem_cons.mp hd with rfl | hd
  · rw [hc] at hstop
    cases hstop
  · exact ⟨d, hd, hstop⟩

theorem scanClass_append {text raw after : List Char} {skip : Nat} {quoted : Bool}
    (h : scanClass skip quoted text = some (raw, after)) (hraw : '[' ∉ raw) (t : List Char) :
    scanClass skip quoted (text ++ t) = some (raw, after ++ t) := by
  induction text generalizing skip quoted raw after with
  | nil => cases h
  | cons c rest ih =>
      have keep : ∀ {skip' : Nat} {quoted' : Bool},
          (scanClass skip' quoted' rest).map (fun p => (c :: p.1, p.2)) = some (raw, after) →
            c ≠ '[' ∧ (rest ++ t).head? = rest.head? ∧
              (scanClass skip' quoted' (rest ++ t)).map (fun p => (c :: p.1, p.2)) =
                some (raw, after ++ t) := by
        intro skip' quoted' hkeep
        obtain ⟨⟨raw', after'⟩, hscan, heq⟩ := Option.map_eq_some_iff.mp hkeep
        cases heq
        obtain ⟨hc, hraw'⟩ := List.ne_and_not_mem_of_not_mem_cons hraw
        have hrest : rest ≠ [] := by
          rintro rfl
          cases hscan
        refine ⟨Ne.symm hc, List.head?_append_of_ne_nil _ hrest, ?_⟩
        rw [ih hscan hraw', Option.map_some]
      simp only [scanClass] at h
      simp only [List.cons_append, scanClass]
      split at h
      · rename_i hskip
        rw [if_pos hskip]
        exact (keep h).2.2
      · rename_i hskip
        rw [if_neg hskip]
        split at h
        · rename_i hquoted
          rw [if_pos hquoted]
          split at h
          · rename_i hend
            rw [(keep h).2.1, if_pos hend]
            exact (keep h).2.2
          · rename_i hend
            rw [(keep h).2.1, if_neg hend]
            exact (keep h).2.2
        · rename_i hquoted
          rw [if_neg hquoted]
          split at h
          · rename_i hclose
            rw [if_pos hclose]
            cases h
            rfl
          · rename_i hclose
            rw [if_neg hclose]
            split at h
            · rename_i hslash
              rw [if_pos hslash]
              split at h
              · rename_i hquote
                rw [(keep h).2.1, if_pos hquote]
                exact (keep h).2.2
              · rename_i hquote
                split at h
                · rename_i hcontrol
                  rw [(keep h).2.1, if_neg hquote, if_pos hcontrol]
                  exact (keep h).2.2
                · rename_i hcontrol
                  rw [(keep h).2.1, if_neg hquote, if_neg hcontrol]
                  exact (keep h).2.2
            · rename_i hslash
              rw [if_neg hslash]
              split at h
              · rename_i hopen
                exact absurd hopen (keep h).1
              · rename_i hopen
                rw [if_neg hopen]
                exact (keep h).2.2

/-- The closing bracket bounds the look at the quote ends. -/
theorem dropQuoteEnds_append {text : List Char} (h : ']' ∈ text) (t : List Char) :
    dropQuoteEnds (text ++ t) = dropQuoteEnds text ++ t ∧ ']' ∈ dropQuoteEnds text := by
  fun_induction dropQuoteEnds text with
  | case1 => cases h
  | case2 rest' ih => exact ih (by simpa using h)
  | case3 rest' ih => exact ih (by simpa using h)
  | case4 rest hend hempty =>
      refine ⟨?_, h⟩
      have hmem : ']' ∈ rest := by simpa using h
      have hend' : ∀ rest', rest ++ t ≠ 'E' :: rest' := by
        intro rest' heq
        rcases List.append_eq_cons_iff.mp heq with ⟨hnil, -⟩ | ⟨a, ha, -⟩
        · simp [hnil] at hmem
        · exact hend a ha
      have hempty' : ∀ rest', rest ++ t ≠ 'Q' :: '\\' :: 'E' :: rest' := by
        intro rest' heq
        rcases List.append_eq_cons_iff.mp heq with ⟨hnil, -⟩ | ⟨a, rfl, ha⟩
        · simp [hnil] at hmem
        rcases List.append_eq_cons_iff.mp ha.symm with ⟨hnil, -⟩ | ⟨b, rfl, hb⟩
        · simp [hnil] at hmem
        rcases List.append_eq_cons_iff.mp hb.symm with ⟨hnil, -⟩ | ⟨d, rfl, -⟩
        · simp [hnil] at hmem
        exact hempty d rfl
      rw [List.cons_append, dropQuoteEnds.eq_def]
      simp only [if_true]
  | case5 c rest hslash =>
      refine ⟨?_, h⟩
      rw [List.cons_append, dropQuoteEnds.eq_def]
      simp only [if_neg hslash]

theorem classBody_append {text : List Char} (h : ']' ∈ text) (t : List Char) :
    classBody (text ++ t) = ((classBody text).1, (classBody text).2 ++ t) ∧
      ']' ∈ (classBody text).2 := by
  obtain ⟨hdrop, hmem⟩ := dropQuoteEnds_append h t
  have hne : dropQuoteEnds text ≠ [] := List.ne_nil_of_mem hmem
  simp only [classBody, hdrop, List.head?_append_of_ne_nil _ hne, List.tail_append_of_ne_nil hne]
  split
  · rename_i hcaret
    have htail : ']' ∈ (dropQuoteEnds text).tail := by
      cases hs : dropQuoteEnds text with
      | nil => exact absurd hs hne
      | cons c rest =>
          rw [hs] at hcaret hmem
          obtain rfl := Option.some.inj hcaret
          simpa using hmem
    obtain ⟨hdrop', hmem'⟩ := dropQuoteEnds_append htail t
    exact ⟨by rw [hdrop'], hmem'⟩
  · exact ⟨rfl, hmem⟩

theorem readClass_append {text after : List Char} {r : Regex}
    (h : readClass text = some (r, after)) (hr : r.plainBracket = true) (t : List Char) :
    readClass (text ++ t) = some (r, after ++ t) := by
  obtain ⟨raw, htext, hbracket⟩ := readClass_eq h
  have hmem : ']' ∈ text := by simp [htext]
  have hraw : '[' ∉ raw := by simpa [hbracket, Regex.plainBracket] using hr
  obtain ⟨hbody, hclose⟩ := classBody_append hmem t
  have hne : (classBody text).2 ≠ [] := List.ne_nil_of_mem hclose
  simp only [readClass] at h ⊢
  rw [hbody, List.length_append, List.length_append, Nat.add_sub_add_right,
    List.head?_append_of_ne_nil _ hne]
  split at h
  · cases h
  · rename_i raw' after' hscan
    have hraw' : raw' = raw := by
      split at h
      · cases h
      · cases h
        cases hbracket
        rfl
    rw [scanClass_append hscan (hraw' ▸ hraw) t]
    simp only
    split at h
    · cases h
    · rename_i hreversed
      rw [if_neg hreversed]
      cases h
      rfl

theorem readEscape_append {text after : List Char} {r : Regex}
    (h : readEscape text = some (r, after)) (t : List Char) :
    readEscape (text ++ t) = some (r, after ++ t) := by
  cases text with
  | nil => cases h
  | cons c rest =>
      simp only [List.cons_append, readEscape] at h ⊢
      split at h
      · cases h
        rfl
      · split at h
        · rename_i hletter
          rw [if_pos hletter]
          cases h
          rfl
        · rename_i hletter
          rw [if_neg hletter]
          split at h
          · rename_i hb
            rw [if_pos hb]
            cases h
            rfl
          · rename_i hb
            rw [if_neg hb]
            split at h
            · rename_i hB
              rw [if_pos hB]
              cases h
              rfl
            · rename_i hB
              rw [if_neg hB]
              split at h
              · rename_i hx
                rw [if_pos hx]
                split at h
                · split at h
                  · rename_i hdigits
                    simp only [List.cons_append, if_pos hdigits]
                    cases h
                    rfl
                  · cases h
                · cases h
              · rename_i hx
                rw [if_neg hx]
                split at h
                · cases h
                · rename_i halnum
                  rw [if_neg halnum]
                  cases h
                  rfl

/-- A run of digits ends before anything that is none. -/
theorem spanDigits_append {s : List Char} (h : stops s) (t : List Char) :
    (s ++ t).takeWhile Char.isDigit = s.takeWhile Char.isDigit ∧
      (s ++ t).dropWhile Char.isDigit = s.dropWhile Char.isDigit ++ t ∧
      stops (s.dropWhile Char.isDigit) := by
  obtain ⟨c, hc, hstop⟩ := h
  have hdigit : c.isDigit = false := by
    simp only [isStop, Bool.or_eq_true, decide_eq_true_eq] at hstop
    rcases hstop with rfl | rfl <;> rfl
  have htake : c ∉ s.takeWhile Char.isDigit := by
    intro hmem
    have := List.mem_takeWhile_imp hmem
    rw [hdigit] at this
    cases this
  have hdrop : c ∈ s.dropWhile Char.isDigit := by
    rw [← List.takeWhile_append_dropWhile (p := Char.isDigit) (l := s)] at hc
    exact (List.mem_append.mp hc).resolve_left htake
  refine ⟨?_, ?_, c, hdrop, hstop⟩
  · rw [List.takeWhile_append, if_neg]
    intro hlen
    have hall := (List.takeWhile_prefix (l := s) Char.isDigit).eq_of_length hlen
    exact htake (hall.symm ▸ hc)
  · rw [List.dropWhile_append, if_neg]
    intro hnil
    rw [List.isEmpty_iff.mp hnil] at hdrop
    cases hdrop

/-- A count is read the same before any text, when the text had stopped. -/
theorem readCounted_append {s : List Char} (h : stops s) (t : List Char) :
    readCounted (s ++ t) = (readCounted s).map fun p => (p.1, p.2 ++ t) := by
  obtain ⟨htake, hdrop, hstops⟩ := spanDigits_append h t
  simp only [readCounted, htake, hdrop]
  split
  · rfl
  · cases hrest : s.dropWhile Char.isDigit with
    | nil => exact absurd hrest hstops.ne_nil
    | cons c rest =>
        rw [hrest] at hstops
        by_cases hclose : c = '}'
        · subst hclose
          rfl
        · by_cases hcomma : c = ','
          · subst hcomma
            obtain ⟨htake', hdrop', hstops'⟩ := spanDigits_append (hstops.of_cons rfl) t
            simp only [List.cons_append, htake', hdrop']
            cases hrest' : rest.dropWhile Char.isDigit with
            | nil => exact absurd hrest' hstops'.ne_nil
            | cons d rest' =>
                by_cases hd : d = '}'
                · subst hd
                  rfl
                · simp [hd]
          · simp [hclose, hcomma]

theorem readQuant_append {s : List Char} (h : stops s) (t : List Char) :
    readQuant (s ++ t) = (readQuant s).map fun p => (p.1, p.2 ++ t) := by
  cases s with
  | nil => exact absurd rfl h.ne_nil
  | cons c rest =>
      simp only [List.cons_append, readQuant]
      split
      · rfl
      · split
        · rfl
        · split
          · rfl
          · split
            · rename_i hbrace
              exact readCounted_append (h.of_cons (by rw [hbrace]; rfl)) t
            · rfl

theorem readMarker_append {s : List Char} (h : s ≠ []) (t : List Char) :
    readMarker (s ++ t) = ((readMarker s).1, (readMarker s).2 ++ t) := by
  cases s with
  | nil => exact absurd rfl h
  | cons c rest =>
      simp only [List.cons_append, readMarker]
      split
      · rfl
      · split <;> rfl

/-- A quantifier is read in the same way whatever follows the branch. -/
theorem quantify_append {r : Regex} {s : List Char} (h : stops (quantify r s).2)
    (t : List Char) :
    quantify r (s ++ t) = ((quantify r s).1, (quantify r s).2 ++ t) := by
  have hs : stops s := h.of_suffix (quantify_suffix r s)
  simp only [quantify, readQuant_append hs t] at h ⊢
  split
  · rename_i hrepeatable
    rw [if_pos hrepeatable] at h
    cases hq : readQuant s with
    | none => rfl
    | some p =>
        rw [hq] at h
        have hrest : stops p.2 := h.of_suffix (readMarker_suffix p.2)
        simp only [Option.map_some, readMarker_append hrest.ne_nil t]
  · rfl

theorem every_of_quantify {p : Regex → Bool} {a : Regex} {s : List Char}
    (h : (quantify a s).1.every p = true) : a.every p = true := by
  simp only [quantify] at h
  split at h
  · split at h
    · exact h
    · exact (Bool.and_eq_true_iff.mp h).2
  · exact h

/-- **What follows a stop is never read.** -/
theorem parse_append : ∀ fuel,
    (∀ {s r y}, parseAlt fuel s = some (r, y) → stops y → r.every Regex.plainBracket = true →
      ∀ t, parseAlt fuel (s ++ t) = some (r, y ++ t)) ∧
    (∀ {s r y}, parseCat fuel s = some (r, y) → stops y → r.every Regex.plainBracket = true →
      ∀ t, parseCat fuel (s ++ t) = some (r, y ++ t)) ∧
    (∀ {s r y}, parseAtom fuel s = some (r, y) → stops y → r.every Regex.plainBracket = true →
      ∀ t, parseAtom fuel (s ++ t) = some (r, y ++ t)) := by
  intro fuel
  induction fuel with
  | zero => exact ⟨(fun h => by cases h), (fun h => by cases h), (fun h => by cases h)⟩
  | succ fuel ih =>
      obtain ⟨ihalt, ihcat, ihatom⟩ := ih
      refine ⟨?_, ?_, ?_⟩
      · intro s r y h hy hr t
        simp only [parseAlt] at h ⊢
        split at h
        · cases h
        · rename_i r₁ rest hcat
          split at h
          · rename_i hbar
            obtain ⟨⟨r₂, y₂⟩, halt, heq⟩ := Option.map_eq_some_iff.mp h
            cases heq
            obtain ⟨hr₁, hr₂⟩ := Bool.and_eq_true_iff.mp hr
            have hrest : stops rest :=
              hy.of_suffix (((parse_suffix fuel).1 halt).trans (List.tail_suffix rest))
            rw [ihcat hcat hrest hr₁ t]
            simp only [List.head?_append_of_ne_nil _ hrest.ne_nil, if_pos hbar,
              List.tail_append_of_ne_nil hrest.ne_nil, ihalt halt hy hr₂ t, Option.map_some]
          · rename_i hbar
            cases h
            rw [ihcat hcat hy hr t]
            simp only [List.head?_append_of_ne_nil _ hy.ne_nil, if_neg hbar]
      · intro s r y h hy hr t
        cases s with
        | nil =>
            simp only [parseCat] at h
            cases h
            exact absurd rfl hy.ne_nil
        | cons c rest =>
            simp only [List.cons_append, parseCat] at h ⊢
            split at h
            · rename_i hstop
              rw [if_pos hstop]
              cases h
              rfl
            · rename_i hstop
              rw [if_neg hstop]
              split at h
              · cases h
              · rename_i a s' hatom
                obtain ⟨⟨r', y'⟩, hcat, heq⟩ := Option.map_eq_some_iff.mp h
                cases heq
                obtain ⟨ha, hr'⟩ := Bool.and_eq_true_iff.mp hr
                have hquant : stops (quantify a s').2 := hy.of_suffix ((parse_suffix fuel).2.1 hcat)
                have hs' : stops s' := hquant.of_suffix (quantify_suffix a s')
                have hatom' := ihatom hatom hs' (every_of_quantify ha) t
                rw [List.cons_append] at hatom'
                rw [hatom']
                simp only [quantify_append hquant t, ihcat hcat hy hr' t, Option.map_some]
      · intro s r y h hy hr t
        cases s with
        | nil =>
            simp only [parseAtom] at h
            cases h
        | cons c rest =>
            have hsuffix := (parse_suffix (fuel + 1)).2.2 h
            have hrest : stops rest := hy.of_suffix hsuffix
            have hhead : (rest ++ t).head? = rest.head? :=
              List.head?_append_of_ne_nil _ hrest.ne_nil
            have htail : (rest ++ t).tail = rest.tail ++ t :=
              List.tail_append_of_ne_nil hrest.ne_nil
            simp only [List.cons_append, parseAtom, hhead, htail] at h ⊢
            split at h
            · rename_i hparen
              rw [if_pos hparen]
              split at h
              · cases h
              · rename_i hlook
                split at h
                · rename_i r₁ after halt
                  cases h
                  have hinner := hy.of_suffix ((List.suffix_cons ')' y).trans
                    ((parse_suffix fuel).1 halt))
                  have hclose : stops (')' :: y) := hy.of_suffix (List.suffix_cons ')' y)
                  have hlook' : ¬(rest.head? = some '?' ∧ (rest.tail ++ t).head? ≠ some ':') := by
                    rintro ⟨hmark, hcolon⟩
                    have hcolon' : rest.tail.head? = some ':' :=
                      Decidable.not_not.mp fun hne => hlook ⟨hmark, hne⟩
                    rw [List.head?_append, hcolon'] at hcolon
                    exact hcolon rfl
                  rw [if_neg hlook']
                  split at halt
                  · rename_i hmark
                    rw [if_pos hmark] at hinner
                    have hdrop : (rest ++ t).drop 2 = rest.drop 2 ++ t := by
                      rw [List.drop_append_of_le_length]
                      have := List.length_pos_of_ne_nil hinner.ne_nil
                      rw [List.length_drop] at this
                      omega
                    rw [if_pos hmark, hdrop, ihalt halt hclose hr t]
                    rfl
                  · rename_i hmark
                    rw [if_neg hmark, ihalt halt hclose hr t]
                    rfl
                · cases h
            · rename_i hparen
              rw [if_neg hparen]
              split at h
              · rename_i hclass
                rw [if_pos hclass]
                obtain ⟨raw, -, hbracket⟩ := readClass_eq h
                exact readClass_append h (by simpa [hbracket, Regex.every] using hr) t
              · rename_i hclass
                rw [if_neg hclass]
                split at h
                · rename_i hslash
                  rw [if_pos hslash]
                  exact readEscape_append h t
                · rename_i hslash
                  rw [if_neg hslash, readCounted_append hrest t, Option.isSome_map]
                  split at h
                  · rename_i hdot
                    rw [if_pos hdot]
                    cases h
                    rfl
                  · rename_i hdot
                    rw [if_neg hdot]
                    split_ifs at h ⊢ <;> cases h <;> rfl

/-- A branch reads as a tree, up to the text `y`. -/
def Branch (s : List Char) (r : Regex) (y : List Char) : Prop :=
  parseCat (3 * s.length + 2) s = some (r, y)

/-- Branches separated by bars read as a tree, up to the text `y`. -/
def Branches (s : List Char) (r : Regex) (y : List Char) : Prop :=
  parseAlt (3 * s.length + 3) s = some (r, y)

/-- A branch is parsed the same before any text. -/
theorem Branch.append {s y : List Char} {r : Regex} (h : Branch s r y) (hy : stops y)
    (hr : r.every Regex.plainBracket = true) (t : List Char) : Branch (s ++ t) r (y ++ t) :=
  (parse_fuel _).2.1 ((parse_append _).2.1 h hy hr t) (Nat.le_refl _)

/-- A character that stands for itself, wherever it is outside brackets. -/
def isLiteral (c : Char) : Bool :=
  !(['|', ')', '(', '[', '\\', '.', '^', '$', '*', '+', '?', '{', '}'].contains c)

/-- What a character of a word reads as. -/
def wordItem (c : Char) : Regex := if c = '.' then .dot else .char c

/-- A word before an expression. -/
def Regex.after (word : List Char) (r : Regex) : Regex :=
  word.foldr (fun c r => .cat (wordItem c) r) r

theorem parseAtom_wordItem {c : Char} (hc : c = '.' ∨ isLiteral c = true) (fuel : Nat)
    (x : List Char) : parseAtom (fuel + 1) (c :: x) = some (wordItem c, x) := by
  rcases hc with rfl | hc
  · rfl
  · simp [isLiteral] at hc
    simp [parseAtom, wordItem, hc]

theorem readQuant_word {c : Char} (hc : c = '.' ∨ isLiteral c = true) (x : List Char) :
    readQuant (c :: x) = none := by
  rcases hc with rfl | hc
  · rfl
  · simp [isLiteral] at hc
    simp [readQuant, hc]

theorem parseCat_cons {fuel : Nat} {c : Char} {x s' : List Char} {a : Regex}
    (hc : ¬(c = '|' ∨ c = ')')) (hatom : parseAtom fuel (c :: x) = some (a, s')) :
    parseCat (fuel + 1) (c :: x) =
      (parseCat fuel (quantify a s').2).map fun p => (.cat (quantify a s').1 p.1, p.2) := by
  rw [parseCat]
  simp only [if_neg hc, hatom]

/-- A group is an atom when its inside is read up to the bracket. -/
theorem parseAtom_group {fuel : Nat} {s y : List Char} {r : Regex}
    (h : parseAlt fuel s = some (r, ')' :: y)) :
    parseAtom (fuel + 1) ('(' :: '?' :: ':' :: s) = some (.group r, y) := by
  rw [parseAtom]
  simp [h]

/-- A word before a branch is read character by character. -/
theorem Branch.after {word x y : List Char} {r : Regex}
    (hword : ∀ c ∈ word, c = '.' ∨ isLiteral c = true) (hx : readQuant x = none)
    (h : Branch x r y) : Branch (word ++ x) (r.after word) y := by
  induction word with
  | nil => exact h
  | cons c word ih =>
      obtain ⟨hc, hrest⟩ := List.forall_mem_cons.mp hword
      have hq : readQuant (word ++ x) = none := by
        cases word with
        | nil => exact hx
        | cons d word => exact readQuant_word (hrest d List.mem_cons_self) (word ++ x)
      have hstop : ¬(c = '|' ∨ c = ')') := by
        rintro (rfl | rfl) <;> rcases hc with hc | hc <;> cases hc
      have hrepeat : (wordItem c).repeatable = true := by
        unfold wordItem
        split <;> rfl
      have hquant : quantify (wordItem c) (word ++ x) = (wordItem c, word ++ x) := by
        simp [quantify, hrepeat, hq]
      have htail := (parse_fuel _).2.1 (ih hrest)
        (by omega : 3 * (word ++ x).length + 2 ≤ 3 * (word ++ x).length + 4)
      have hatom := parseAtom_wordItem hc (3 * (word ++ x).length + 3) (word ++ x)
      have hcat := parseCat_cons hstop hatom
      rw [hquant, htail] at hcat
      exact (parse_fuel _).2.1 hcat (Nat.le_refl _)

theorem Branch.last {s y : List Char} {r : Regex} (h : Branch s r (')' :: y)) :
    Branches s r (')' :: y) := by
  unfold Branches
  rw [parseAlt, h]
  rfl

theorem Branch.bar {s x y : List Char} {r r' : Regex} (h : Branch s r ('|' :: x))
    (hx : Branches x r' y) : Branches s (.alt r r') y := by
  have hlen := ((parse_suffix _).2.1 h).length_le
  rw [List.length_cons] at hlen
  have hx' := (parse_fuel _).1 hx (by omega : 3 * x.length + 3 ≤ 3 * s.length + 2)
  unfold Branches
  rw [parseAlt, h]
  simp only [List.head?_cons, if_true, List.tail_cons, hx', Option.map_some]

/-- One noncapturing group around branches is the whole expression. -/
theorem Branches.parse_group {s : List Char} {r : Regex} (h : Branches s r [')']) :
    parse ('(' :: '?' :: ':' :: s) = some (false, .cat (.group r) .empty) := by
  have hflags : readFlags ('(' :: '?' :: ':' :: s) = ([], '(' :: '?' :: ':' :: s) := by
    simp [readFlags]
  have hstop : ¬('(' = '|' ∨ '(' = ')') := by decide
  have hatom := parseAtom_group h
  have hcat : parseCat (3 * s.length + 5) ('(' :: '?' :: ':' :: s) =
      some (.cat (.group r) .empty, []) := by
    rw [parseCat_cons hstop hatom]
    rfl
  have halt : parseAlt (3 * s.length + 6) ('(' :: '?' :: ':' :: s) =
      some (.cat (.group r) .empty, []) := by
    rw [parseAlt, hcat]
    rfl
  have hfuel := (parse_fuel _).1 halt (Nat.le_refl _)
  simp only [parse, hflags, hfuel, List.all_nil, if_true, List.not_mem_nil, decide_false]

end Pcre
