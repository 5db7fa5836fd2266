import ControlTranslation.RegexImage

/-!
# The two parsers in lockstep

The translator and the reference read the same text.  When both accept and the
tree satisfies `sameLexeme`, they stop at the same place and the tree and the
alternatives are related by `Image`.

The translator has already removed a final `$`, which the reference still has
to read: `sfx` is that character or nothing.  Where the translator runs out of
text the reference reads the anchor, so its tree is that of the text followed
by the anchor (`Ends`).
-/

namespace ModSecurity

open PyText Pcre Glob

/-- The scanner flags are only ever raised. -/
structure Grows (s s' : Scan) : Prop where
  lossy : s'.lossy = false → s.lossy = false
  narrowed : s'.narrowed = false → s.narrowed = false

theorem Grows.trans {s₁ s₂ s₃ : Scan} (h : Grows s₁ s₂) (h' : Grows s₂ s₃) :
    Grows s₁ s₃ :=
  ⟨fun hl => h.lossy (h'.lossy hl), fun hn => h.narrowed (h'.narrowed hn)⟩

/-- Moving on without a new flag. -/
theorem grows_rest (s : Scan) (rest : Str) : Grows s { s with rest := rest } := ⟨id, id⟩

/-- Moving on after a widening. -/
theorem grows_lossy (s : Scan) (rest : Str) :
    Grows s { s with rest := rest, lossy := true } :=
  ⟨fun h => absurd h (by simp), id⟩

/-- Where a parser stopped, and the tree read so far. -/
def Ends (sfx : Str) (s' : Scan) (r₀ r : Regex) (y : Str) : Prop :=
  ((s'.rest ≠ [] ∨ sfx = []) ∧ r = r₀ ∧ y = s'.rest ++ sfx) ∨
    (s'.rest = [] ∧ sfx ≠ [] ∧ r = r₀.addEol ∧ y = [])

/-- Joining an item in front does not change where a parser stopped. -/
theorem Ends.cat {sfx : Str} {s' : Scan} {a r₀ r : Regex} {y : Str}
    (h : Ends sfx s' r₀ r y) : Ends sfx s' (.cat a r₀) (.cat a r) y := by
  rcases h with ⟨hrest, rfl, hy⟩ | ⟨hrest, hsfx, rfl, hy⟩
  · exact Or.inl ⟨hrest, rfl, hy⟩
  · exact Or.inr ⟨hrest, hsfx, rfl, hy⟩

/-- The end of an alternative is the end of the alternation. -/
theorem Ends.alt {sfx : Str} {s' : Scan} {a r₀ r : Regex} {y : Str}
    (h : Ends sfx s' r₀ r y) : Ends sfx s' (.alt a r₀) (.alt a r) y := by
  rcases h with ⟨hrest, rfl, hy⟩ | ⟨hrest, hsfx, rfl, hy⟩
  · exact Or.inl ⟨hrest, rfl, hy⟩
  · exact Or.inr ⟨hrest, hsfx, rfl, hy⟩

/-- A parser that stopped before the end stopped at the same place. -/
theorem Ends.of_rest {sfx : Str} {s' : Scan} {r₀ r : Regex} {y : Str}
    (h : Ends sfx s' r₀ r y) (hrest : s'.rest ≠ []) : r = r₀ ∧ y = s'.rest ++ sfx := by
  rcases h with ⟨-, hr, hy⟩ | ⟨hnil, -⟩
  · exact ⟨hr, hy⟩
  · exact absurd hnil hrest

section

variable (t : CharTables) (env : Env) (sfx : Str)

/-- Agreement of an atom parser with the reference. -/
def AtomAgrees (atom : Scan → Attempt (List Parts × Bool × Scan)) : Prop :=
  ∀ ⦃fuel : Nat⦄ ⦃s s' : Scan⦄ ⦃alts : List Parts⦄ ⦃single : Bool⦄ ⦃r : Regex⦄ ⦃y : Str⦄,
    atom s = .ok (alts, single, s') → Pcre.parseAtom fuel (s.rest ++ sfx) = some (r, y) →
    r.every sameLexeme = true →
    y = s'.rest ++ sfx ∧ Image t env r alts s'.lossy s'.narrowed ∧ Grows s s'

/-- Agreement of a parser of branches, or of one branch, with the reference. -/
def ParserAgrees (parser : Scan → Attempt (List Parts × Scan))
    (reference : Nat → Str → Option (Regex × Str)) : Prop :=
  ∀ ⦃fuel : Nat⦄ ⦃s s' : Scan⦄ ⦃alts : List Parts⦄ ⦃r : Regex⦄ ⦃y : Str⦄,
    parser s = .ok (alts, s') → reference fuel (s.rest ++ sfx) = some (r, y) →
    r.every sameLexeme = true →
    ∃ r₀, Ends sfx s' r₀ r y ∧ Image t env r₀ alts s'.lossy s'.narrowed ∧ Grows s s'

end

section

variable {t : CharTables} {env : Env} {sfx : Str}

theorem isShorthand_of_isClassShorthand {c : Char} (h : isClassShorthand c = true) :
    controlEscape c = none ∧ isShorthand c = true := by
  have hmem : c ∈ ['s', 'S', 'd', 'D', 'w', 'W'] := of_decide_eq_true h
  simp only [List.mem_cons, List.not_mem_nil, or_false] at hmem
  rcases hmem with rfl | rfl | rfl | rfl | rfl | rfl <;> decide

/-- The vertical tab of the translator against the vertical whitespace of the
reference. -/
theorem image_vertical {l n : Bool} :
    Image t env (.shorthand 'v') [[.lit '\x0b']] l n :=
  image_members ['\x0b'] (by simp) rfl
    (fun h => by simp [Regex.every, covered] at h)
    (fun _ _ c hc => by
      obtain ⟨m, hm, hc⟩ := hc
      rw [List.mem_singleton.mp hm] at hc
      exact shorthandMem_v hc)
    fun c hc hwild => by
      obtain rfl := List.mem_singleton.mp hc
      exact absurd hwild (by decide)

theorem escape_agrees {s s' : Scan} {alts : List Parts} {single : Bool} {r : Regex}
    {y : Str} (h : parseEscape t s = .ok (alts, single, s'))
    (href : readEscape (s.rest.tail ++ sfx) = some (r, y)) :
    y = s'.rest ++ sfx ∧ Image t env r alts s'.lossy s'.narrowed ∧ Grows s s' := by
  cases htail : s.rest.tail with
  | nil => simp [parseEscape, htail] at h
  | cons char rest =>
      simp only [parseEscape, htail] at h
      rw [htail, List.cons_append] at href
      simp only [readEscape] at href
      split at h
      · rename_i hset
        obtain ⟨hcontrol, hshort⟩ := isShorthand_of_isClassShorthand hset
        simp only [hcontrol, hshort, if_true] at href
        cases href
        cases h
        exact ⟨rfl, image_one rfl (fun h' => by cases h'), grows_lossy s rest⟩
      · split at h
        · rename_i hb
          cases h
          rcases hb with rfl | rfl
          · cases href
            exact ⟨rfl, image_boundary, grows_lossy s rest⟩
          · cases href
            exact ⟨rfl, image_boundary, grows_lossy s rest⟩
        · rename_i hb
          split at h
          · rename_i c hliteral
            cases h
            unfold escapeLiteral at hliteral
            split at hliteral <;> cases hliteral
            · cases href
              exact ⟨rfl, image_char, grows_rest s _⟩
            · cases href
              exact ⟨rfl, image_char, grows_rest s _⟩
            · cases href
              exact ⟨rfl, image_char, grows_rest s _⟩
            · cases href
              exact ⟨rfl, image_char, grows_rest s _⟩
            · cases href
              exact ⟨rfl, image_vertical, grows_rest s _⟩
          · rename_i hliteral
            split at h
            · rename_i hx
              subst hx
              split at h
              · rename_i a b rest'
                split at h
                · rename_i hhex
                  cases h
                  simp [controlEscape, isShorthand, hhex] at href
                  obtain ⟨rfl, rfl⟩ := href
                  exact ⟨rfl, image_char, grows_rest s _⟩
                · cases h
              · cases h
            · rename_i hx
              split at h
              · cases h
              · rename_i halnum
                cases h
                obtain ⟨hcontrol, hshort, hc, hne⟩ :=
                  plain_of_not_alnum t (by simpa using halnum)
                rw [hcontrol] at href
                simp only [hshort, hc, hne 'b' (by decide), hne 'B' (by decide),
                  hne 'x' (by decide), Bool.false_eq_true, if_false] at href
                cases href
                exact ⟨rfl, image_char, grows_rest s _⟩

/-- The bracket found by the reference splits the text. -/
theorem scanClass_split {text raw after : Str} {skip : Nat} {quoted : Bool}
    (h : scanClass skip quoted text = some (raw, after)) : text = raw ++ ']' :: after := by
  induction text generalizing skip quoted raw after with
  | nil => cases h
  | cons c rest ih =>
      have keep : ∀ {skip' : Nat} {quoted' : Bool},
          (scanClass skip' quoted' rest).map (fun p => (c :: p.1, p.2)) = some (raw, after) →
            c :: rest = raw ++ ']' :: after := by
        intro skip' quoted' hkeep
        obtain ⟨⟨raw', after'⟩, hscan, heq⟩ := Option.map_eq_some_iff.mp hkeep
        cases heq
        rw [ih hscan, List.cons_append]
      simp only [scanClass] at h
      split at h
      · exact keep h
      · split at h
        · split at h
          · exact keep h
          · exact keep h
        · split at h
          · rename_i hc
            cases h
            rw [hc, List.nil_append]
          · split at h
            · split at h
              · exact keep h
              · split at h
                · exact keep h
                · exact keep h
            · split at h
              · exact keep h
              · exact keep h

/-- What the translator makes of a bracket expression. -/
theorem parseClass_cases {s s' : Scan} {alts : List Parts}
    (h : parseClass t s = .ok (alts, s')) :
    ']' ∈ s.rest.tail ∧
      ((listsClass t (partition ']' s.rest.tail).1 = none ∧ alts = [[.one]] ∧
          s' = { s with rest := (partition ']' s.rest.tail).2, lossy := true }) ∨
        ∃ members, listsClass t (partition ']' s.rest.tail).1 = some members ∧
          alts = members.map (fun member => [.lit member]) ∧
          s' = { s with rest := (partition ']' s.rest.tail).2 }) := by
  simp only [parseClass] at h
  split at h
  · cases h
  · rename_i hmem
    refine ⟨by simpa using hmem, ?_⟩
    split at h
    · rename_i hbody
      cases h
      exact Or.inl ⟨by simp [listsClass, hbody], rfl, rfl⟩
    · rename_i hbody
      split at h
      · rename_i hnone
        cases h
        exact Or.inl ⟨by simp [listsClass, hbody, hnone], rfl, rfl⟩
      · rename_i members hmembers
        split at h
        · rename_i hlong
          cases h
          exact Or.inl ⟨by simp [listsClass, hbody, hmembers, hlong], rfl, rfl⟩
        · rename_i hlong
          cases h
          exact Or.inr ⟨members, by simp [listsClass, hbody, hmembers, hlong], rfl, rfl⟩

theorem class_agrees {s s' : Scan} {alts : List Parts} {r : Regex} {y : Str}
    (h : parseClass t s = .ok (alts, s'))
    (href : readClass (s.rest.tail ++ sfx) = some (r, y))
    (hlex : r.every sameLexeme = true) :
    y = s'.rest ++ sfx ∧ Image t env r alts s'.lossy s'.narrowed ∧ Grows s s' := by
  obtain ⟨hmem, hcases⟩ := parseClass_cases h
  simp only [readClass] at href
  split at href
  · cases href
  · rename_i raw after hscan
    split at href
    · cases href
    · cases href
      have hraw : ']' ∉ raw := by simpa [Regex.every, sameLexeme] using hlex
      -- The first bracket is the one the reference found.
      have hsplit := scanClass_split hscan
      rw [partition_of_mem hmem, List.append_assoc, List.cons_append] at hsplit
      have hbody : ']' ∉ (partition ']' s.rest.tail).1 := notMem_partition
      obtain ⟨rfl, rfl⟩ := split_unique hbody hraw hsplit
      rcases hcases with ⟨-, rfl, rfl⟩ | ⟨members, hmembers, rfl, rfl⟩
      · exact ⟨rfl, image_one rfl (fun h' => by cases h'), grows_lossy s _⟩
      · exact ⟨rfl, image_bracket_listed hmembers, grows_rest s _⟩

/-- A parse that continues after an item cannot begin with a quantifier. -/
theorem parseCat_head {fuel : Nat} {c : Char} {x y : Str} {r : Regex}
    (h : Pcre.parseCat fuel (c :: x) = some (r, y)) (hlex : r.every sameLexeme = true)
    (hc : c = '*' ∨ c = '+' ∨ c = '?' ∨ c = '{') : False := by
  cases fuel with
  | zero => cases h
  | succ fuel =>
      simp only [Pcre.parseCat] at h
      split at h
      · rename_i hstop
        rcases hstop with rfl | rfl <;> simp at hc
      · cases fuel with
        | zero => simp [Pcre.parseAtom] at h
        | succ fuel =>
            rcases hc with rfl | rfl | rfl | rfl
            · simp [Pcre.parseAtom] at h
            · simp [Pcre.parseAtom] at h
            · simp [Pcre.parseAtom] at h
            · have hbrace : Pcre.parseAtom (fuel + 1) ('{' :: x) =
                  if (readCounted x).isSome then none else some (.brace '{', x) := by
                simp [Pcre.parseAtom]
              rw [hbrace] at h
              split at h
              · cases h
              · rename_i a s' ha
                split at ha
                · cases ha
                · cases ha
                  obtain ⟨⟨r', y'⟩, -, heq⟩ := Option.map_eq_some_iff.mp h
                  cases heq
                  simp only [Regex.every, Bool.and_eq_true] at hlex
                  have hfirst := hlex.1
                  unfold quantify at hfirst
                  split at hfirst
                  · split at hfirst <;> simp [Regex.every, sameLexeme] at hfirst
                  · simp [Regex.every, sameLexeme] at hfirst

/-- The reference on the anchor alone. -/
theorem parseCat_dollar {fuel : Nat} {r : Regex} {y : Str}
    (h : Pcre.parseCat (fuel + 1) ['$'] = some (r, y)) : r = .cat .eol .empty ∧ y = [] := by
  cases fuel with
  | zero => simp [Pcre.parseCat, Pcre.parseAtom] at h
  | succ fuel =>
      have hatom : Pcre.parseAtom (fuel + 1) ['$'] = some (.eol, []) := by
        simp [Pcre.parseAtom]
      simp only [Pcre.parseCat, hatom] at h
      have hquant : quantify .eol [] = (.eol, []) := rfl
      rw [hquant] at h
      simpa [eq_comm] using h

/-- Nothing follows the last item but the anchor, which is no quantifier. -/
theorem quantify_sfx (hsfx : sfx = [] ∨ sfx = ['$']) (a : Regex) :
    quantify a sfx = (a, sfx) := by
  rcases hsfx with rfl | rfl <;> simp [quantify, readQuant]

/-- Nothing that can be repeated, or no quantifier. -/
theorem quantify_none {a : Regex} {z : Str} (h : a.repeatable = false ∨ readQuant z = none) :
    quantify a z = (a, z) := by
  unfold quantify
  rcases h with h | h
  · simp [h]
  · split
    · rw [h]
    · rfl

theorem quantify_some {a : Regex} {z rest : Str} {q : Quant} (ha : a.repeatable = true)
    (h : readQuant z = some (q, rest)) :
    quantify a z = (.rep a q (readMarker rest).1, (readMarker rest).2) := by
  simp [quantify, ha, h]

theorem every_of_quantify {a : Regex} {z : Str}
    (h : (quantify a z).1.every sameLexeme = true) : a.every sameLexeme = true := by
  unfold quantify at h
  split at h
  · split at h
    · exact h
    · simp only [Regex.every, Bool.and_eq_true] at h
      exact h.2
  · exact h

/-- Both parsers skip the same marker. -/
theorem readMarker_skip (hsfx : sfx = [] ∨ sfx = ['$']) (rest : Str) :
    (readMarker (rest ++ sfx)).2 = skipMarker rest ++ sfx := by
  cases rest with
  | nil => rcases hsfx with rfl | rfl <;> rfl
  | cons c rest =>
      simp only [List.cons_append, readMarker, skipMarker]
      by_cases h₁ : c = '?'
      · simp [h₁]
      · by_cases h₂ : c = '+'
        · simp [h₂]
        · simp [h₁, h₂]

theorem readMarker_greedy {z : Str} (h : (readMarker z).1 = .greedy) :
    (readMarker z).2 = z := by
  cases z with
  | nil => rfl
  | cons c rest =>
      simp only [readMarker] at h ⊢
      split at h
      · cases h
      · split at h
        · cases h
        · rename_i h₁ h₂
          simp [h₁, h₂]

theorem decimal_of_isDigit (t : CharTables) {c : Char} (h : c.isDigit = true) :
    t.decimal c = some (c.toNat - 48) := by
  have hlt : c.toNat < 128 := by
    simp only [Char.isDigit, UInt32.le_iff_toNat_le, Bool.and_eq_true, decide_eq_true_eq,
      ge_iff_le, Char.reduceVal, UInt32.reduceToNat, Char.toNat_val] at h
    omega
  rw [t.decimal_ascii c hlt, if_pos h]

/-- The two readers give ASCII digits the same value. -/
theorem readInt_eq_number (t : CharTables) {digits : Str} (h : ∀ d ∈ digits, d.isDigit = true) :
    readInt t digits = readCounted.number digits := by
  unfold readInt readCounted.number
  refine List.foldl_ext _ _ 0 fun n c hc => ?_
  rw [decimal_of_isDigit t (h c hc), Option.getD_some]

/-- A run of decimal digits that the reference reads to its end is ASCII. -/
theorem isDigit_of_stop {digits tail : Str} {stop e : Char}
    (hdigits : ∀ d ∈ digits, (t.decimal d).isSome = true) (hstop : e = '}' ∨ e = ',')
    (h : ((digits ++ stop :: tail).dropWhile Char.isDigit).head? = some e) :
    ∀ d ∈ digits, d.isDigit = true := by
  induction digits with
  | nil => simp
  | cons d digits ih =>
      by_cases hd : d.isDigit = true
      · rw [List.cons_append, List.dropWhile_cons_of_pos hd] at h
        intro x hx
        rcases List.mem_cons.mp hx with rfl | hx
        · exact hd
        · exact ih (fun x hx => hdigits x (List.mem_cons_of_mem _ hx)) h x hx
      · rw [List.cons_append, List.dropWhile_cons_of_neg hd] at h
        obtain rfl : d = e := by simpa using h
        have := hdigits d List.mem_cons_self
        rcases hstop with rfl | rfl <;> rw [t.decimal_ascii _ (by decide)] at this <;>
          simp at this

/-- Splitting off a run of characters that stops at `stop`. -/
theorem span_stop {p : Char → Bool} {xs : Str} {stop : Char} (tail : Str)
    (hxs : ∀ x ∈ xs, p x = true) (hstop : p stop = false) :
    (xs ++ stop :: tail).takeWhile p = xs ∧ (xs ++ stop :: tail).dropWhile p = stop :: tail := by
  constructor
  · rw [List.takeWhile_append_of_pos hxs, List.takeWhile_cons_of_neg (by simp [hstop]),
      List.append_nil]
  · rw [List.dropWhile_append_of_pos hxs, List.dropWhile_cons_of_neg (by simp [hstop])]

/-- The text of a counted quantifier the translator reads. -/
theorem readBounds_shape {s after : Str} {minimum : Nat} {upper : Option Nat}
    (h : readBounds t s = some (minimum, upper, after)) :
    ∃ digits, digits ≠ [] ∧ (∀ d ∈ digits, (t.decimal d).isSome = true) ∧
      minimum = readInt t digits ∧
      ((upper = none ∧ s = digits ++ '}' :: after) ∨
        ∃ digits', digits' ≠ [] ∧ (∀ d ∈ digits', (t.decimal d).isSome = true) ∧
          upper = some (readInt t digits') ∧ s = digits ++ ',' :: (digits' ++ '}' :: after)) := by
  have hall : ∀ x : Str, ∀ d ∈ x.takeWhile fun c => (t.decimal c).isSome,
      (t.decimal d).isSome = true := fun x d hd => by simpa using List.mem_takeWhile_imp hd
  have hsplit : ∀ x : Str, x = (x.takeWhile fun c => (t.decimal c).isSome) ++
      x.dropWhile fun c => (t.decimal c).isSome := fun x => List.takeWhile_append_dropWhile.symm
  simp only [readBounds] at h
  split at h
  · cases h
  · rename_i hne
    refine ⟨_, hne, hall s, ?_⟩
    split at h
    · rename_i after' hdrop
      cases h
      exact ⟨rfl, Or.inl ⟨rfl, by rw [← hdrop]; exact hsplit s⟩⟩
    · rename_i more hdrop
      split at h
      · cases h
      · rename_i hne'
        split at h
        · rename_i after' hdrop'
          cases h
          refine ⟨rfl, Or.inr ⟨_, hne', hall more, rfl, ?_⟩⟩
          rw [← hdrop', ← hsplit more, ← hdrop]
          exact hsplit s
        · cases h
    · cases h

/-- Both parsers read the same bounds. -/
theorem readCounted_of_readBounds {s after z : Str} {minimum : Nat} {upper : Option Nat}
    {q : Quant} (h : readBounds t s = some (minimum, upper, after))
    (href : readCounted (s ++ sfx) = some (q, z)) :
    q = .counted minimum (some (upper.getD minimum)) ∧ z = after ++ sfx := by
  obtain ⟨digits, hne, hdigits, rfl, hshape⟩ := readBounds_shape h
  have hhead : ∃ e, (e = '}' ∨ e = ',') ∧
      ((s ++ sfx).dropWhile Char.isDigit).head? = some e := by
    simp only [readCounted] at href
    split at href
    · cases href
    · split at href
      · rename_i hdrop
        exact ⟨'}', Or.inl rfl, by rw [hdrop]; rfl⟩
      · rename_i hdrop
        exact ⟨',', Or.inr rfl, by rw [hdrop]; rfl⟩
      · cases href
  obtain ⟨e, he, hhead⟩ := hhead
  rcases hshape with ⟨rfl, rfl⟩ | ⟨digits', hne', hdigits', rfl, rfl⟩
  · rw [List.append_assoc, List.cons_append] at hhead href
    have hascii := isDigit_of_stop hdigits he hhead
    obtain ⟨htake, hdrop⟩ := span_stop (after ++ sfx) hascii
      (show Char.isDigit '}' = false by decide)
    simp only [readCounted, htake, if_neg hne, hdrop] at href
    cases href
    rw [readInt_eq_number t hascii, Option.getD_none]
    exact ⟨rfl, rfl⟩
  · rw [List.append_assoc, List.cons_append] at hhead href
    have hascii := isDigit_of_stop hdigits he hhead
    obtain ⟨htake, hdrop⟩ := span_stop (digits' ++ '}' :: after ++ sfx) hascii
      (show Char.isDigit ',' = false by decide)
    simp only [readCounted, htake, if_neg hne, hdrop] at href
    rw [List.append_assoc, List.cons_append] at href
    have hhead' : ((digits' ++ '}' :: (after ++ sfx)).dropWhile Char.isDigit).head? =
        some '}' := by
      split at href
      · rename_i hdrop'
        rw [hdrop']
        rfl
      · cases href
    have hascii' := isDigit_of_stop hdigits' (Or.inl rfl) hhead'
    obtain ⟨htake', hdrop'⟩ := span_stop (after ++ sfx) hascii'
      (show Char.isDigit '}' = false by decide)
    simp only [htake', if_neg hne', hdrop'] at href
    cases href
    rw [readInt_eq_number t hascii, readInt_eq_number t hascii', Option.getD_some]
    exact ⟨rfl, rfl⟩

/-- A counted repetition, whatever its bounds. -/
theorem counted_image {s s' : Scan} {rest after : Str} {minimum : Nat}
    {upper : Option Nat} {r : Regex} {alts alts' : List Parts} {m : Marker}
    (himage : Image t env r alts s.lossy s.narrowed)
    (hbounds : readBounds t rest = some (minimum, upper, after))
    (h : parseCounted t alts s rest = .ok (alts', s')) :
    s'.rest = after ∧ Grows s s' ∧
      Image t env (.rep r (.counted minimum (some (upper.getD minimum))) m) alts'
        s'.lossy s'.narrowed := by
  simp only [parseCounted, hbounds] at h
  split at h
  · cases h
  · rename_i hrange
    split at h
    · cases h
      exact ⟨rfl, grows_lossy s _, himage.generalize fun h' => by cases h'⟩
    · rename_i hzero
      split at h
      · cases h
      · obtain ⟨k, rfl⟩ : ∃ k, minimum = k + 1 := ⟨minimum - 1, by omega⟩
        split at h
        · cases h
        · rename_i repeated hrepeated
          split at h
          · cases h
            exact ⟨rfl, grows_lossy s _, himage.countedRange hrepeated⟩
          · rename_i hle
            cases h
            have hmax : upper.getD (k + 1) = k + 1 := by omega
            rw [hmax]
            exact ⟨rfl, grows_rest s _, himage.counted hrepeated⟩

/-- The quantifiers written with one character. -/
theorem quantifier_image {s s' : Scan} {rest : Str} {single : Bool} {r : Regex}
    {alts alts' : List Parts} {c : Char} {q : Quant} {m : Marker}
    (himage : Image t env r alts s.lossy s.narrowed)
    (hc : (c = '*' ∧ q = .star) ∨ (c = '+' ∧ q = .plus) ∨ (c = '?' ∧ q = .opt))
    (h : parseQuantifier alts single s c rest = .ok (alts', s')) :
    s'.rest = skipMarker rest ∧ Grows s s' ∧
      Image t env (.rep r q m) alts' s'.lossy s'.narrowed := by
  have hlossy : (s.lossy || decide (alts ≠ [[.one]])) = false →
      s.lossy = false ∧ alts = [[.one]] := by
    intro h'
    rw [Bool.or_eq_false_iff] at h'
    exact ⟨h'.1, by simpa using h'.2⟩
  simp only [parseQuantifier] at h
  split at h
  · rename_i hopt
    split at h
    · cases h
    · cases h
      rcases hc with ⟨rfl, -⟩ | ⟨rfl, -⟩ | ⟨-, rfl⟩
      · simp at hopt
      · simp at hopt
      · exact ⟨rfl, grows_rest s _, himage.opt⟩
  · split at h
    · cases h
    · split at h
      · cases h
      · cases h
        refine ⟨rfl, ⟨fun h' => (hlossy h').1, id⟩, ?_⟩
        rcases hc with ⟨rfl, rfl⟩ | ⟨rfl, rfl⟩ | ⟨rfl, rfl⟩
        · exact himage.generalize fun h' =>
            ⟨(hlossy h').1, (hlossy h').2, Or.inr ⟨rfl, rfl⟩⟩
        · exact himage.plus hlossy
        · exact himage.generalize fun h' => ⟨(hlossy h').1, (hlossy h').2, Or.inl rfl⟩

/-- An item and its quantifier, given how the reference goes on. -/
theorem term_agrees {atom : Scan → Attempt (List Parts × Bool × Scan)}
    (hatom : AtomAgrees t env sfx atom) (hsfx : sfx = [] ∨ sfx = ['$'])
    {s s' : Scan} {alts : List Parts} {fuel fuel' : Nat} {a r : Regex} {x y : Str}
    (h : parseTerm t atom s = .ok (alts, s'))
    (ha : Pcre.parseAtom fuel (s.rest ++ sfx) = some (a, x))
    (hcont : Pcre.parseCat fuel' (quantify a x).2 = some (r, y))
    (hlex : (quantify a x).1.every sameLexeme = true) (hlex' : r.every sameLexeme = true) :
    (quantify a x).2 = s'.rest ++ sfx ∧
      Image t env (quantify a x).1 alts s'.lossy s'.narrowed ∧ Grows s s' := by
  simp only [parseTerm] at h
  split at h
  · cases h
  · rename_i alts₁ single s₁ hatom₁
    obtain ⟨rfl, himage, hgrows⟩ := hatom hatom₁ ha (every_of_quantify hlex)
    split at h
    · rename_i hrest
      cases h
      rw [hrest, List.nil_append, quantify_sfx hsfx]
      exact ⟨rfl, himage, hgrows⟩
    · rename_i c rest hrest
      rw [hrest, List.cons_append] at hcont hlex ⊢
      -- The reference cannot go on from a character that begins a quantifier.
      have hquant : c = '*' ∨ c = '+' ∨ c = '?' ∨ c = '{' →
          a.repeatable = true ∧ readQuant (c :: (rest ++ sfx)) ≠ none := by
        intro hc
        by_contra hnot
        rw [quantify_none (by
          rcases Bool.eq_false_or_eq_true a.repeatable with hrep | hrep
          · right
            by_contra hread
            exact hnot ⟨hrep, hread⟩
          · exact Or.inl hrep)] at hcont
        exact parseCat_head hcont hlex' hc
      split at h
      · rename_i hbrace
        subst hbrace
        obtain ⟨hrep, hread⟩ := hquant (by simp)
        have hread' : readCounted (rest ++ sfx) ≠ none := by simpa [readQuant] using hread
        obtain ⟨⟨q, z⟩, hcounted⟩ := Option.ne_none_iff_exists'.mp hread'
        cases hbounds : readBounds t rest with
        | none => simp [parseCounted, hbounds] at h
        | some bounds =>
            obtain ⟨minimum, upper, after⟩ := bounds
            obtain ⟨rfl, rfl⟩ := readCounted_of_readBounds hbounds hcounted
            rw [quantify_some hrep (by simpa [readQuant] using hcounted)] at hlex ⊢
            simp only [Regex.every, sameLexeme, Bool.and_eq_true, decide_eq_true_eq] at hlex
            obtain ⟨rfl, hgrows', himage'⟩ :=
              counted_image (m := (readMarker (after ++ sfx)).1) himage hbounds h
            exact ⟨readMarker_greedy hlex.1, himage', hgrows.trans hgrows'⟩
      · split at h
        · rename_i hc
          obtain ⟨hrep, -⟩ := hquant (by tauto)
          obtain ⟨q, hq, hread⟩ : ∃ q,
              ((c = '*' ∧ q = .star) ∨ (c = '+' ∧ q = .plus) ∨ (c = '?' ∧ q = .opt)) ∧
                readQuant (c :: (rest ++ sfx)) = some (q, rest ++ sfx) := by
            rcases hc with rfl | rfl | rfl
            · exact ⟨.star, by simp, by simp [readQuant]⟩
            · exact ⟨.plus, by simp, by simp [readQuant]⟩
            · exact ⟨.opt, by simp, by simp [readQuant]⟩
          rw [quantify_some hrep hread]
          obtain ⟨hrest', hgrows', himage'⟩ :=
            quantifier_image (m := (readMarker (rest ++ sfx)).1) himage hq h
          rw [hrest']
          exact ⟨readMarker_skip hsfx rest, himage', hgrows.trans hgrows'⟩
        · rename_i hbrace hc
          cases h
          rw [quantify_none (Or.inr (by
            simp only [not_or] at hc
            simp [readQuant, hbrace, hc]))]
          rw [hrest]
          exact ⟨rfl, himage, hgrows⟩

/-- One branch, by induction on the budget of its loop. -/
theorem concatLoop_agrees {atom : Scan → Attempt (List Parts × Bool × Scan)}
    (hatom : AtomAgrees t env sfx atom) (hsfx : sfx = [] ∨ sfx = ['$']) :
    ∀ {budget : Nat} {results out : List Parts} {s s' : Scan} {fuel : Nat} {r : Regex}
      {y : Str}, concatLoop (parseTerm t atom) budget results s = .ok (out, s') →
      Pcre.parseCat fuel (s.rest ++ sfx) = some (r, y) → r.every sameLexeme = true →
      ∃ alts r₀, out = cross results alts ∧ Ends sfx s' r₀ r y ∧
        Image t env r₀ alts s'.lossy s'.narrowed ∧ Grows s s' := by
  intro budget
  induction budget with
  | zero => intro results out s s' fuel r y h; cases h
  | succ budget ih =>
      intro results out s s' fuel r y h href hlex
      simp only [concatLoop] at h
      cases fuel with
      | zero => cases href
      | succ fuel =>
          split at h
          · rename_i hrest
            cases h
            refine ⟨[[]], .empty, by simp, ?_, image_empty, ⟨id, id⟩⟩
            rw [hrest, List.nil_append] at href
            rcases hsfx with rfl | rfl
            · simp only [Pcre.parseCat] at href
              cases href
              exact Or.inl ⟨Or.inr rfl, rfl, by simp [hrest]⟩
            · obtain ⟨rfl, rfl⟩ := parseCat_dollar href
              exact Or.inr ⟨hrest, by simp, rfl, rfl⟩
          · rename_i c rest hrest
            rw [hrest, List.cons_append] at href
            simp only [Pcre.parseCat] at href
            split at h
            · rename_i hstop
              cases h
              rw [if_pos hstop] at href
              cases href
              exact ⟨[[]], .empty, by simp, Or.inl ⟨Or.inl (by simp [hrest]), rfl,
                by simp [hrest]⟩, image_empty, ⟨id, id⟩⟩
            · rename_i hstop
              rw [if_neg hstop] at href
              split at h
              · cases h
              · rename_i suffixes s₁ hterm
                split at h
                · cases h
                · split at href
                  · cases href
                  · rename_i a x ha
                    obtain ⟨⟨r', y'⟩, hcont, heq⟩ := Option.map_eq_some_iff.mp href
                    cases heq
                    simp only [Regex.every, Bool.and_eq_true] at hlex
                    rw [← List.cons_append, ← hrest] at ha
                    obtain ⟨hx, himage, hgrows⟩ :=
                      term_agrees hatom hsfx hterm ha hcont hlex.1 hlex.2
                    rw [hx] at hcont
                    obtain ⟨alts, r₀, rfl, hends, himage', hgrows'⟩ := ih h hcont hlex.2
                    exact ⟨cross suffixes alts, .cat (quantify a x).1 r₀, cross_assoc _ _ _,
                      hends.cat, himage.cat himage' hgrows'.lossy hgrows'.narrowed,
                      hgrows.trans hgrows'⟩

/-- Readers that agree on atoms agree on what is put together of them. -/
theorem concat_agrees {atom : Scan → Attempt (List Parts × Bool × Scan)}
    (hatom : AtomAgrees t env sfx atom) (hsfx : sfx = [] ∨ sfx = ['$']) :
    ParserAgrees t env sfx (parseConcat (parseTerm t atom)) Pcre.parseCat := by
  intro fuel s s' alts r y h href hlex
  obtain ⟨alts', r₀, rfl, hends, himage, hgrows⟩ := concatLoop_agrees hatom hsfx h href hlex
  rw [cross_nil_left]
  exact ⟨r₀, hends, himage, hgrows⟩

/-- The branches after a scanner state, as the reference reads them. -/
def AltTail (t : CharTables) (env : Env) (sfx : Str) (s : Scan) (alts : List Parts)
    (s' : Scan) : Prop :=
  ∀ ⦃fuel : Nat⦄ ⦃r : Regex⦄ ⦃y : Str⦄, Pcre.parseAlt fuel (s.rest ++ sfx) = some (r, y) →
    r.every sameLexeme = true →
    ∃ r₀, Ends sfx s' r₀ r y ∧ Image t env r₀ alts s'.lossy s'.narrowed ∧ Grows s s'

/-- A branch followed by the end, or by `|` and more branches. -/
theorem altTail_step {concat : Scan → Attempt (List Parts × Scan)}
    (hconcat : ParserAgrees t env sfx concat Pcre.parseCat) {s s₁ s' : Scan}
    {alts out : List Parts} (h : concat s = .ok (alts, s₁))
    (hnext : (s₁.rest.head? ≠ some '|' ∧ out = alts ∧ s' = s₁) ∨
      ∃ rest more, s₁.rest = '|' :: rest ∧ out = alts ++ more ∧
        AltTail t env sfx { s₁ with rest := rest } more s') :
    AltTail t env sfx s out s' := by
  intro fuel r y href hlex
  cases fuel with
  | zero => cases href
  | succ fuel =>
      simp only [Pcre.parseAlt] at href
      split at href
      · cases href
      · rename_i r₁ y₁ hcat
        split at href
        · rename_i hbar
          obtain ⟨⟨r₂, y₂⟩, halt, heq⟩ := Option.map_eq_some_iff.mp href
          cases heq
          simp only [Regex.every, Bool.and_eq_true] at hlex
          obtain ⟨r₀, hends, himage, hgrows⟩ := hconcat h hcat hlex.1
          have hrest : s₁.rest ≠ [] := by
            intro hnil
            rcases hends with ⟨hsfx, -, rfl⟩ | ⟨-, -, -, rfl⟩
            · rcases hsfx with hsfx | rfl
              · exact hsfx hnil
              · simp [hnil] at hbar
            · simp at hbar
          obtain ⟨rfl, rfl⟩ := hends.of_rest hrest
          rcases hnext with ⟨hhead, -⟩ | ⟨rest, more, hs₁, rfl, htail⟩
          · obtain ⟨c, rest, hs₁⟩ := List.exists_cons_of_ne_nil hrest
            rw [hs₁] at hhead hbar
            exact absurd hbar hhead
          · rw [hs₁] at halt
            obtain ⟨r₀', hends', himage', hgrows'⟩ := htail halt hlex.2
            exact ⟨.alt r₁ r₀', hends'.alt,
              himage.alt himage' hgrows'.lossy hgrows'.narrowed,
              hgrows.trans ⟨hgrows'.lossy, hgrows'.narrowed⟩⟩
        · rename_i hbar
          cases href
          obtain ⟨r₀, hends, himage, hgrows⟩ := hconcat h hcat hlex
          rcases hnext with ⟨-, rfl, rfl⟩ | ⟨rest, more, hs₁, -⟩
          · exact ⟨r₀, hends, himage, hgrows⟩
          · obtain ⟨-, rfl⟩ := hends.of_rest (by simp [hs₁])
            simp [hs₁] at hbar

/-- The loop over further branches, by induction on its budget. -/
theorem alternationLoop_agrees {concat : Scan → Attempt (List Parts × Scan)}
    (hconcat : ParserAgrees t env sfx concat Pcre.parseCat) :
    ∀ {budget : Nat} {alts out : List Parts} {s s' : Scan},
      alternationLoop concat budget alts s = .ok (out, s') →
      (s.rest.head? ≠ some '|' ∧ out = alts ∧ s' = s) ∨
        ∃ rest more, s.rest = '|' :: rest ∧ out = alts ++ more ∧
          AltTail t env sfx { s with rest := rest } more s' := by
  intro budget
  induction budget with
  | zero => intro alts out s s' h; cases h
  | succ budget ih =>
      intro alts out s s' h
      simp only [alternationLoop] at h
      split at h
      · rename_i hrest
        cases h
        exact Or.inl ⟨by simp [hrest], rfl, rfl⟩
      · rename_i c rest hrest
        split at h
        · rename_i hc
          subst hc
          split at h
          · cases h
          · rename_i more s₁ hmore
            split at h
            · cases h
            · refine Or.inr ⟨rest, ?_⟩
              rcases ih h with ⟨hhead, rfl, rfl⟩ | ⟨rest', more', hs₁, rfl, htail⟩
              · exact ⟨more, hrest, rfl,
                  altTail_step hconcat hmore (Or.inl ⟨hhead, rfl, rfl⟩)⟩
              · exact ⟨more ++ more', hrest, by rw [List.append_assoc],
                  altTail_step hconcat hmore (Or.inr ⟨rest', more', hs₁, rfl, htail⟩)⟩
        · rename_i hc
          cases h
          exact Or.inl ⟨by simpa [hrest] using hc, rfl, rfl⟩

/-- Both parsers look past `?:` at the start of a group. -/
theorem open_group (hsfx : sfx = [] ∨ sfx = ['$']) {rest : Str}
    (hlook : ¬(rest.head? = some '?' ∧ rest.tail.head? ≠ some ':')) :
    (if (rest ++ sfx).head? = some '?' then (rest ++ sfx).drop 2 else rest ++ sfx) =
      (if rest.head? = some '?' then rest.drop 2 else rest) ++ sfx := by
  cases rest with
  | nil => rcases hsfx with rfl | rfl <;> simp
  | cons c rest =>
      by_cases hc : c = '?'
      · cases rest with
        | nil => simp [hc] at hlook
        | cons d rest => simp [hc]
      · simp [hc]

/-- An item, given that groups agree. -/
theorem atom_agrees {group : Scan → Attempt (List Parts × Scan)}
    (hgroup : ParserAgrees t env sfx group Pcre.parseAlt) (hsfx : sfx = [] ∨ sfx = ['$']) :
    AtomAgrees t env sfx (parseAtom t group) := by
  intro fuel s s' alts single r y h href hlex
  simp only [parseAtom] at h
  split at h
  · cases h
  · rename_i char rest hrest
    cases fuel with
    | zero => cases href
    | succ fuel =>
        rw [hrest, List.cons_append] at href
        simp only [Pcre.parseAtom] at href
        have htail : s.rest.tail = rest := by rw [hrest]; rfl
        split at h
        · rename_i hparen
          rw [if_pos hparen] at href
          split at h
          · cases h
          · rename_i hlook
            split at h
            · cases h
            · rename_i alts₁ s₁ hinner
              split at h
              · rename_i hclose
                rw [open_group hsfx hlook] at href
                split at href
                · cases href
                · split at href
                  · rename_i r₁ after hinner'
                    cases href
                    have hlex₁ : r₁.every sameLexeme = true := hlex
                    obtain ⟨r₀, hends, himage, hgrows⟩ := hgroup hinner hinner' hlex₁
                    obtain ⟨x, hx⟩ : ∃ x, s₁.rest = ')' :: x := by
                      cases hs₁ : s₁.rest with
                      | nil => simp [hs₁] at hclose
                      | cons c x =>
                          rw [hs₁] at hclose
                          exact ⟨x, by rw [Option.some.inj hclose]⟩
                    obtain ⟨rfl, hy⟩ := hends.of_rest (by simp [hx])
                    rw [hx, List.cons_append] at hy
                    obtain ⟨-, rfl⟩ := List.cons.inj hy
                    split at h
                    · rename_i depths hladder
                      cases h
                      refine ⟨by simp [hx], himage.ladder hladder,
                        ⟨hgrows.lossy, fun h' => by cases h'⟩⟩
                    · cases h
                      exact ⟨by simp [hx], himage.group, ⟨hgrows.lossy, hgrows.narrowed⟩⟩
                  · cases href
              · cases h
        · rename_i hparen
          rw [if_neg hparen] at href
          split at h
          · rename_i hbracket
            rw [if_pos hbracket, ← htail] at href
            split at h
            · cases h
            · rename_i alts₁ s₁ hclass
              cases h
              exact class_agrees hclass href hlex
          · rename_i hbracket
            rw [if_neg hbracket] at href
            split at h
            · rename_i hslash
              rw [if_pos hslash, ← htail] at href
              exact escape_agrees h href
            · rename_i hslash
              rw [if_neg hslash] at href
              split at h
              · rename_i hdot
                rw [if_pos hdot] at href
                cases h
                cases href
                exact ⟨rfl, image_one rfl fun _ => ⟨rfl, rfl, fun _ => rfl⟩, grows_rest s _⟩
              · rename_i hdot
                rw [if_neg hdot] at href
                split at h
                · cases h
                · rename_i hanchor
                  split at h
                  · cases h
                  · rename_i hbrace
                    cases h
                    simp only [not_or] at hanchor hbrace
                    rw [if_neg hanchor.1, if_neg hanchor.2] at href
                    split at href
                    · cases href
                    · rw [if_neg hbrace.1, if_neg hbrace.2] at href
                      cases href
                      exact ⟨rfl, image_char, grows_rest s _⟩

/-- **The parsers agree at every nesting level.** -/
theorem alternation_agrees (hsfx : sfx = [] ∨ sfx = ['$']) :
    ∀ levels, ParserAgrees t env sfx (parseAlternation t levels) Pcre.parseAlt := by
  intro levels
  induction levels with
  | zero => intro fuel s s' alts r y h; cases h
  | succ levels ih =>
      have hatom := atom_agrees ih hsfx
      have hconcat := concat_agrees hatom hsfx
      intro fuel s s' alts r y h href hlex
      simp only [parseAlternation] at h
      split at h
      · cases h
      · rename_i alts₁ s₁ hfirst
        exact altTail_step hconcat hfirst (alternationLoop_agrees hconcat h) href hlex

end

end ModSecurity
