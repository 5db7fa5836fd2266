import ControlTranslation.ValueRewriting

/-!
# Letter case and file-name patterns

Two ways of comparing a value with a subject meet in this file.  A target reads
`*` and `?` as wildcards and folds letters with `str.casefold`; the service's
checks use `str.lower` on texts stripped of their outer stars, or
`fnmatch.fnmatchcase`, for which a bracket opens a class of characters.

`str.lower` looks at the neighbours of a letter, and may write one letter as
several; `Casing` records what is needed of it and of `str.casefold`.  The main
lemma is `eq_of_lower_eq`: a text that matches, letter case compared, a pattern
with the same lower-case form is that pattern.
-/

namespace FnMatch

open PyText Glob ModSecurity

/-- A text written letter by letter, each with what stands before and after it. -/
def lowerFrom (lowered : Str → Char → Str → Str) (before : Str) : Str → Str
  | [] => []
  | c :: rest => lowered before c rest ++ lowerFrom lowered (before ++ [c]) rest

/-- What `str.lower` and `str.casefold` are made of. -/
structure Casing (t : CharTables) where
  /-- The lower-case form of a character between two texts. -/
  lowered : Str → Char → Str → Str
  /-- Its length, which the neighbours do not change. -/
  width : Char → Nat
  /-- `str.casefold` on one character. -/
  folded : Char → Str
  lower_eq : ∀ s, t.lower s = lowerFrom lowered [] s
  width_pos : ∀ c, 0 < width c
  length_lowered : ∀ before c rest, (lowered before c rest).length = width c
  lowered_ascii : ∀ before c rest, c.toNat < 128 → lowered before c rest = [c.toLower]
  eq_of_wildcard : ∀ before c rest, ∀ w ∈ lowered before c rest, isWildcardChar w = true → c = w
  folded_ascii : ∀ c, c.toNat < 128 → folded c = [c.toLower]
  folded_lower : ∀ s, (t.lower s).flatMap folded = s.flatMap folded

/-- `str.casefold`. -/
def Casing.casefold {t : CharTables} (cs : Casing t) (s : Str) : Str := s.flatMap cs.folded

variable {t : CharTables} (cs : Casing t)

theorem toLower_wildcard {c : Char} (h : isWildcardChar c = true) : c.toLower = c := by
  simp only [isWildcardChar, Bool.or_eq_true, decide_eq_true_eq] at h
  rcases h with rfl | rfl <;> decide

theorem ascii_wildcard {c : Char} (h : isWildcardChar c = true) : c.toNat < 128 := by
  simp only [isWildcardChar, Bool.or_eq_true, decide_eq_true_eq] at h
  rcases h with rfl | rfl <;> decide

theorem Casing.lowered_wildcard {c : Char} (h : isWildcardChar c = true) (before rest : Str) :
    cs.lowered before c rest = [c] := by
  rw [cs.lowered_ascii before c rest (ascii_wildcard h), toLower_wildcard h]

theorem Casing.folded_wildcard {c : Char} (h : isWildcardChar c = true) : cs.folded c = [c] := by
  rw [cs.folded_ascii c (ascii_wildcard h), toLower_wildcard h]

/-- Texts with one lower-case form have one folded form. -/
theorem Casing.casefold_eq {s s' : Str} (h : t.lower s = t.lower s') :
    cs.casefold s = cs.casefold s' := by
  rw [Casing.casefold, Casing.casefold, ← cs.folded_lower s, h, cs.folded_lower s']

/-- The characters that are no wildcards. -/
def letters (s : Str) : Str := s.filter fun c => !isWildcardChar c

/-- How many letters the characters of a text are lower-cased to. -/
def Casing.weight : Str → Nat
  | [] => 0
  | c :: rest => cs.width c + Casing.weight rest

/-- The lower-case letters of a text, counted by the letters of the text. -/
theorem length_letters_lowerFrom : ∀ (s before : Str),
    (letters (lowerFrom cs.lowered before s)).length = cs.weight (letters s) := by
  intro s
  induction s with
  | nil => exact fun _ => rfl
  | cons c rest ih =>
      intro before
      have hsplit : letters (lowerFrom cs.lowered before (c :: rest)) =
          letters (cs.lowered before c rest) ++
            letters (lowerFrom cs.lowered (before ++ [c]) rest) := by
        simp [letters, lowerFrom]
      rw [hsplit, List.length_append, ih]
      cases hwild : isWildcardChar c with
      | true =>
          rw [cs.lowered_wildcard hwild]
          simp [letters, hwild]
      | false =>
          have hkept : letters (cs.lowered before c rest) = cs.lowered before c rest := by
            apply List.filter_eq_self.mpr
            intro w hw
            cases hwild' : isWildcardChar w with
            | false => rfl
            | true => rw [cs.eq_of_wildcard before c rest w hw hwild', hwild'] at hwild; cases hwild
          rw [hkept, cs.length_lowered]
          simp [letters, Casing.weight, hwild]

theorem weight_le {l l' : Str} (h : List.Sublist l l') :
    cs.weight l ≤ cs.weight l' := by
  induction h with
  | slnil => exact Nat.le_refl _
  | cons c _ ih =>
      rw [Casing.weight]
      omega
  | cons_cons c _ ih =>
      rw [Casing.weight, Casing.weight]
      omega

/-- A shortened list weighs less. -/
theorem eq_of_sublist_of_weight {l l' : Str} (h : List.Sublist l l')
    (hsum : cs.weight l = cs.weight l') : l = l' := by
  induction h with
  | slnil => rfl
  | @cons l l' c hsub _ =>
      have hle := weight_le cs hsub
      have hpos := cs.width_pos c
      rw [Casing.weight] at hsum
      omega
  | cons_cons c _ ih =>
      rw [Casing.weight, Casing.weight] at hsum
      rw [ih (by omega)]

/-- One lower-case form and one sequence of letters make one text. -/
theorem eq_of_letters_eq : ∀ (x y b b' : Str), letters x = letters y →
    lowerFrom cs.lowered b x = lowerFrom cs.lowered b' y → x = y := by
  have hne : ∀ (c : Char) (b rest : Str), cs.lowered b c rest ≠ [] := by
    intro c b rest hnil
    have hpos := cs.width_pos c
    rw [← cs.length_lowered b c rest, hnil] at hpos
    exact absurd hpos (Nat.lt_irrefl 0)
  have hhead : ∀ {a c : Char} {b rest tail tail' : Str}, isWildcardChar a = true →
      cs.lowered b c rest ++ tail = a :: tail' → c = a := by
    intro a c b rest tail tail' hwild happ
    obtain ⟨d, l, hl⟩ := List.exists_cons_of_ne_nil (hne c b rest)
    rw [hl, List.cons_append] at happ
    obtain rfl : d = a := (List.cons.inj happ).1
    exact cs.eq_of_wildcard b c rest d (by rw [hl]; exact List.mem_cons_self) hwild
  intro x
  induction x with
  | nil =>
      intro y b b' _ hlower
      cases y with
      | nil => rfl
      | cons c rest => exact absurd (List.append_eq_nil_iff.mp hlower.symm).1 (hne c b' rest)
  | cons a x ih =>
      intro y b b' hletters hlower
      cases y with
      | nil => exact absurd (List.append_eq_nil_iff.mp hlower).1 (hne a b x)
      | cons c y =>
          simp only [lowerFrom] at hlower
          obtain rfl : a = c := by
            cases hwild : isWildcardChar a with
            | true =>
                rw [cs.lowered_wildcard hwild] at hlower
                exact (hhead hwild hlower.symm).symm
            | false =>
                cases hwild' : isWildcardChar c with
                | true =>
                    rw [cs.lowered_wildcard hwild'] at hlower
                    exact hhead hwild' hlower
                | false =>
                    simp only [letters, List.filter_cons, hwild, hwild', Bool.not_false,
                      if_true] at hletters
                    exact (List.cons.inj hletters).1
          have hlength : (cs.lowered b a x).length = (cs.lowered b' a y).length := by
            rw [cs.length_lowered, cs.length_lowered]
          have hrest : letters x = letters y := by
            cases hwild : isWildcardChar a with
            | true => simpa [letters, hwild] using hletters
            | false => simpa [letters, hwild] using hletters
          rw [ih y _ _ hrest (List.append_inj_right hlower hlength)]

/-- The letters of a pattern occur, in order, in what it matches. -/
theorem letters_sublist : ∀ (v p : Str), accepts (sameChar false) (ofText v) p = true →
    List.Sublist (letters v) p := by
  intro v
  induction v with
  | nil => exact fun _ _ => List.nil_sublist _
  | cons c v ih =>
      intro p h
      by_cases hrun : c = '*'
      · subst hrun
        obtain ⟨u, w, rfl, hw⟩ := acceptsAfterRun_iff.mp h
        exact (ih w hw).trans (List.sublist_append_right u w)
      · by_cases hone : c = '?'
        · subst hone
          cases p with
          | nil => cases h
          | cons x p => exact (ih p h).trans (List.sublist_cons_self x p)
        · have hlit : ofText (c :: v) = .lit c :: ofText v := by simp [ofText, hrun, hone]
          have hletter : letters (c :: v) = c :: letters v := by
            simp [letters, isWildcardChar, hrun, hone]
          rw [hlit] at h
          cases p with
          | nil => cases h
          | cons x p =>
              simp only [accepts, Bool.and_eq_true, sameChar, Bool.false_eq_true, if_false,
                beq_iff_eq] at h
              obtain ⟨rfl, hp⟩ := h
              rw [hletter]
              exact (ih p hp).cons_cons c

include cs in
/-- **Letter case.**  What matches a pattern letter for letter and has its
lower-case form is the pattern itself. -/
theorem eq_of_lower_eq {v x p : Str} (hletters : letters v = letters x)
    (hmatch : accepts (sameChar false) (ofText v) p = true) (hlower : t.lower x = t.lower p) :
    x = p := by
  rw [cs.lower_eq, cs.lower_eq] at hlower
  have hsub : List.Sublist (letters x) (letters p) := by
    have hfiltered := (letters_sublist v p hmatch).filter fun c => !isWildcardChar c
    rw [← hletters]
    simpa [letters] using hfiltered
  have hweight := length_letters_lowerFrom cs x []
  rw [hlower, length_letters_lowerFrom] at hweight
  exact eq_of_letters_eq cs x p [] [] (eq_of_sublist_of_weight cs hsub hweight.symm) hlower

/-- `value.strip("*")`. -/
def stripStars (v : Str) : Str := stripChars ['*'] v

theorem eq_replicate_star {s : Str} (h : ∀ c ∈ s, c ∈ ['*']) : ∃ n, s = List.replicate n '*' :=
  ⟨s.length, List.eq_replicate_of_mem fun c hc => List.mem_singleton.mp (h c hc)⟩

/-- Only stars are stripped. -/
theorem stars_around (v : Str) :
    ∃ m n, v = List.replicate m '*' ++ (stripStars v ++ List.replicate n '*') := by
  obtain ⟨m, hm⟩ := eq_replicate_star (s := v.takeWhile (· ∈ ['*'])) fun c hc => by
    simpa using List.mem_takeWhile_imp hc
  obtain ⟨n, hn⟩ := eq_replicate_star (s := (v.dropWhile (· ∈ ['*'])).rtakeWhile (· ∈ ['*']))
    fun c hc => by simpa using List.mem_rtakeWhile_imp hc
  have hright := @List.rdropWhile_append_rtakeWhile Char (· ∈ ['*']) (v.dropWhile (· ∈ ['*']))
  have hleft := List.takeWhile_append_dropWhile (p := (· ∈ ['*'])) (l := v)
  refine ⟨m, n, ?_⟩
  calc v = v.takeWhile (· ∈ ['*']) ++ v.dropWhile (· ∈ ['*']) := hleft.symm
    _ = List.replicate m '*' ++ (stripStars v ++ List.replicate n '*') := by
      rw [hm, ← hright, hn]
      rfl

theorem letters_replicate (n : Nat) : letters (List.replicate n '*') = [] := by
  induction n with
  | zero => rfl
  | succ n ih => rw [List.replicate_succ]; exact ih

/-- Stripping stars keeps the letters. -/
theorem letters_stripStars (v : Str) : letters v = letters (stripStars v) := by
  obtain ⟨m, n, hv⟩ := stars_around v
  have happend : ∀ a b : Str, letters (a ++ b) = letters a ++ letters b := List.filter_append
  calc letters v = letters (List.replicate m '*' ++ (stripStars v ++ List.replicate n '*')) :=
        congrArg letters hv
    _ = letters (stripStars v) := by
      rw [happend, happend, letters_replicate, letters_replicate, List.nil_append, List.append_nil]

theorem casefold_replicate (n : Nat) :
    cs.casefold (List.replicate n '*') = List.replicate n '*' := by
  induction n with
  | zero => rfl
  | succ n ih =>
      rw [List.replicate_succ, Casing.casefold, List.flatMap_cons, cs.folded_wildcard rfl]
      exact congrArg ('*' :: ·) ih

theorem casefold_append (a b : Str) :
    cs.casefold (a ++ b) = cs.casefold a ++ cs.casefold b := List.flatMap_append

/-- A text matches itself between stars. -/
theorem accepts_between_stars (m n : Nat) (s : Str) :
    accepts (sameChar false)
      (ofText (List.replicate m '*' ++ (s ++ List.replicate n '*'))) s = true := by
  induction m with
  | zero =>
      induction s with
      | nil =>
          induction n with
          | zero => rfl
          | succ n ih => exact ih
      | cons c s ih =>
          simp only [List.replicate_zero, List.nil_append, List.cons_append] at ih ⊢
          by_cases hrun : c = '*'
          · subst hrun
            exact acceptsAfterRun_iff.mpr ⟨['*'], s, rfl, ih⟩
          · by_cases hone : c = '?'
            · subst hone
              exact ih
            · have hlit : ofText (c :: (s ++ List.replicate n '*')) =
                  .lit c :: ofText (s ++ List.replicate n '*') := by simp [ofText, hrun, hone]
              rw [hlit, accepts, sameChar_refl, Bool.true_and]
              exact ih
  | succ m ih =>
      exact acceptsAfterRun_iff.mpr ⟨[], s, rfl, ih⟩

/-- Without wildcards a value matches itself only. -/
theorem matchesValue_literal {v s : Str} : matchesValue false false v s = true ↔ v = s := by
  have hall : ∀ v s : Str, accepts (sameChar false) (v.map .lit) s = true ↔ v = s := by
    intro v
    induction v with
    | nil => intro s; cases s <;> simp [accepts]
    | cons c v ih =>
        intro s
        cases s with
        | nil => simp [accepts]
        | cons d s =>
            have hsame : sameChar false c d = true ↔ c = d := by simp [sameChar]
            rw [List.map_cons, accepts, Bool.and_eq_true, ih, hsame, List.cons.injEq]
  exact hall v s

/-- A value against a subject, as a target reads its flags. -/
def valueMatches (caseSensitive wildcard : Bool) (v s : Str) : Bool :=
  if caseSensitive then matchesValue false wildcard v s
  else matchesValue false wildcard (cs.casefold v) (cs.casefold s)

/-- **Covering values.**  A value that is the subject up to outer stars and letter
case matches it exactly when its stars are wildcards and, if letter case counts,
the letters agree. -/
theorem valueMatches_iff_of_covers {caseSensitive wildcard : Bool} {v p : Str}
    (hcover : t.lower (stripStars v) = t.lower p) :
    valueMatches cs caseSensitive wildcard v p = true ↔
      (wildcard = true ∨ stripStars v = v) ∧ (caseSensitive = true → stripStars v = p) := by
  obtain ⟨m, n, hv⟩ := stars_around v
  have hfolded := cs.casefold_eq hcover
  have hnone : m + n = 0 → stripStars v = v := by
    intro hzero
    obtain ⟨rfl, rfl⟩ : m = 0 ∧ n = 0 := by omega
    simpa using hv.symm
  cases caseSensitive with
  | true =>
      cases wildcard with
      | true =>
          simp only [valueMatches, if_true, true_or, true_and, forall_const]
          constructor
          · intro h
            exact eq_of_lower_eq cs (letters_stripStars v) h hcover
          · intro h
            have hself := accepts_between_stars m n (stripStars v)
            rw [← hv, h] at hself
            exact hself
      | false =>
          simp only [valueMatches, if_true, matchesValue_literal, Bool.false_eq_true, false_or,
            forall_const]
          constructor
          · rintro rfl
            rw [cs.lower_eq, cs.lower_eq] at hcover
            -- Every star stripped would shorten the lower-case form.
            have hstrip := eq_of_letters_eq cs (stripStars v) v [] [] (letters_stripStars v).symm
              hcover
            exact ⟨hstrip, hstrip⟩
          · rintro ⟨hstrip, hsame⟩
            exact hstrip.symm.trans hsame
  | false =>
      cases wildcard with
      | true =>
          simp only [valueMatches, Bool.false_eq_true, if_false, true_or, false_implies, and_true,
            iff_true]
          have hself := accepts_between_stars m n (cs.casefold (stripStars v))
          rw [← casefold_replicate cs m, ← casefold_replicate cs n, ← casefold_append,
            ← casefold_append, ← hv] at hself
          rw [hfolded] at hself
          exact hself
      | false =>
          simp only [valueMatches, Bool.false_eq_true, if_false, matchesValue_literal, false_or,
            false_implies, and_true]
          constructor
          · intro h
            apply hnone
            have hlength := congrArg List.length h
            rw [hv, casefold_append, casefold_append, casefold_replicate, casefold_replicate,
              hfolded] at hlength
            simp only [List.length_append, List.length_replicate] at hlength
            omega
          · intro h
            rw [← hfolded, h]

/-- One element of a file-name pattern; a class lists its ranges. -/
inductive FnItem
  | many
  | one
  | lit (c : Char)
  | oneOf (negated : Bool) (ranges : List (Char × Char))
  | never
  deriving DecidableEq, Repr

/-- The text of a class and what follows its closing bracket. -/
def classText (rest : Str) : Option (Str × Str) :=
  let bang := if rest.head? = some '!' then 1 else 0
  let kept := if rest[bang]? = some ']' then bang + 1 else bang
  let tail := rest.drop kept
  if tail.contains ']' then
    some (rest.take kept ++ tail.takeWhile (· ≠ ']'), (tail.dropWhile (· ≠ ']')).tail)
  else none

/-- The text of a class cut at its range dashes; `fixed` characters cannot be one. -/
def classChunks (fixed : Nat) (chunk : Str) : Str → List Str
  | [] => [chunk.reverse]
  | c :: rest =>
      if fixed = 0 ∧ c = '-' then
        if rest = [] then [(c :: chunk).reverse] else chunk.reverse :: classChunks 2 [] rest
      else classChunks (fixed - 1) (c :: chunk) rest

/-- A range that runs backwards is removed with its ends. -/
def dropEmptyRanges (chunk : Str) : List Str → List Str
  | [] => [chunk]
  | next :: rest =>
      match chunk.getLast?, next.head? with
      | some a, some b =>
          if b.toNat < a.toNat then (chunk.dropLast ++ next.drop 1) :: rest
          else chunk :: next :: rest
      | _, _ => chunk :: next :: rest

/-- The chunks joined again: `none` is a dash between the ends of a range. -/
def joinChunks : List Str → List (Option Char)
  | [] => []
  | [chunk] => chunk.map some
  | chunk :: rest => chunk.map some ++ none :: joinChunks rest

/-- The ranges of a class. -/
def readRanges : List (Option Char) → List (Char × Char)
  | some a :: none :: some b :: rest => (a, b) :: readRanges rest
  | some a :: rest => (a, a) :: readRanges rest
  | none :: rest => ('-', '-') :: readRanges rest
  | [] => []

/-- What a class stands for. -/
def classItem (text : Str) : FnItem :=
  let fixed := if text.head? = some '!' then 2 else 1
  match joinChunks ((classChunks fixed [] text).foldr dropEmptyRanges []) with
  | [] => .never
  | [some '!'] => .one
  | some '!' :: pieces => .oneOf true (readRanges pieces)
  | pieces => .oneOf false (readRanges pieces)

/-- `fnmatch.translate`, on at most `fuel` characters. -/
def fnItems : Nat → Str → List FnItem
  | 0, _ => []
  | _, [] => []
  | fuel + 1, c :: rest =>
      if c = '*' then .many :: fnItems fuel rest
      else if c = '?' then .one :: fnItems fuel rest
      else if c = '[' then
        match classText rest with
        | none => .lit c :: fnItems fuel rest
        | some (text, after) => classItem text :: fnItems fuel after
      else .lit c :: fnItems fuel rest

/-- Whether a character lies in one of the ranges. -/
def inRanges (ranges : List (Char × Char)) (x : Char) : Bool :=
  ranges.any fun r => r.1.toNat ≤ x.toNat && x.toNat ≤ r.2.toNat

/-- Whether the items match the whole of a subject. -/
def fnAccepts : List FnItem → Str → Bool
  | [], w => w.isEmpty
  | .many :: items, w => acceptsAfterRun (fnAccepts items) w
  | _ :: _, [] => false
  | .one :: items, _ :: w => fnAccepts items w
  | .lit c :: items, x :: w => c == x && fnAccepts items w
  | .oneOf negated ranges :: items, x :: w =>
      inRanges ranges x != negated && fnAccepts items w
  | .never :: _, _ :: _ => false

/-- `fnmatch.fnmatchcase`. -/
def fnmatchcase (subject pattern : Str) : Bool :=
  fnAccepts (fnItems pattern.length pattern) subject

/-- Without a bracket a file-name pattern is a wildcard pattern. -/
theorem fnmatchcase_eq {pattern : Str} (h : '[' ∉ pattern) (subject : Str) :
    fnmatchcase subject pattern = matchesValue false true pattern subject := by
  have hall : ∀ (pattern : Str), '[' ∉ pattern → ∀ w : Str,
      fnAccepts (fnItems pattern.length pattern) w =
        accepts (sameChar false) (ofText pattern) w := by
    intro pattern
    induction pattern with
    | nil => exact fun _ _ => rfl
    | cons c rest ih =>
        intro hfree w
        have hrest := ih fun hmem => hfree (List.mem_cons_of_mem _ hmem)
        have hc : c ≠ '[' := fun hc => hfree (hc ▸ List.mem_cons_self)
        by_cases hrun : c = '*'
        · subst hrun
          have hsame : fnAccepts (fnItems rest.length rest) =
              accepts (sameChar false) (ofText rest) := funext hrest
          exact congrArg (fun k => acceptsAfterRun k w) hsame
        · by_cases hone : c = '?'
          · subst hone
            cases w with
            | nil => rfl
            | cons x w => exact hrest w
          · have hlit : ofText (c :: rest) = .lit c :: ofText rest := by
              simp [ofText, hrun, hone]
            have hfn : fnItems (rest.length + 1) (c :: rest) =
                .lit c :: fnItems rest.length rest := by simp [fnItems, hrun, hone, hc]
            rw [List.length_cons, hfn, hlit]
            cases w with
            | nil => rfl
            | cons x w => rw [fnAccepts, accepts, hrest w]; rfl
  exact hall pattern h subject

example : fnmatchcase "b".toList "[a-c]".toList = true := by decide
example : fnmatchcase "x".toList "[z-a!x]".toList = false := by decide

theorem lowerFrom_ascii : ∀ s before : Str,
    lowerFrom (fun _ c _ => [c.toLower]) before s = s.map Char.toLower := by
  intro s
  induction s with
  | nil => exact fun _ => rfl
  | cons c rest ih =>
      intro before
      rw [lowerFrom, ih]
      rfl

/-- Lowering under the ASCII tables is lowering every character. -/
theorem lower_ascii_eq (s : Str) :
    asciiTables.lower s = lowerFrom (fun _ c _ => [c.toLower]) [] s := (lowerFrom_ascii s []).symm

theorem wildcard_of_toLower {c w : Char} (hmem : w ∈ [c.toLower])
    (h : isWildcardChar w = true) : c = w := by
  obtain rfl := List.mem_singleton.mp hmem
  simp only [isWildcardChar, Bool.or_eq_true, decide_eq_true_eq] at h
  rw [← Char.toNat_inj]
  have hfold := toNat_toLower c
  have hstar : ('*' : Char).toNat = 42 := by decide
  have hone : ('?' : Char).toNat = 63 := by decide
  rcases h with h | h
  · rw [h] at hfold ⊢
    split_ifs at hfold <;> omega
  · rw [h] at hfold ⊢
    split_ifs at hfold <;> omega

theorem folded_lower_ascii (s : Str) :
    (asciiTables.lower s).flatMap (fun c => [c.toLower]) = s.flatMap fun c => [c.toLower] := by
  induction s with
  | nil => rfl
  | cons c rest ih =>
      have hcons : asciiTables.lower (c :: rest) = c.toLower :: asciiTables.lower rest := rfl
      rw [hcons, List.flatMap_cons, List.flatMap_cons, ih, toLower_toLower]

/-- Letter case on ASCII; concrete runs use it. -/
def asciiCasing : Casing asciiTables where
  lowered _ c _ := [c.toLower]
  width _ := 1
  folded c := [c.toLower]
  lower_eq := lower_ascii_eq
  width_pos := fun _ => Nat.one_pos
  length_lowered := fun _ _ _ => List.length_singleton
  lowered_ascii := fun _ c _ _ => Eq.refl [c.toLower]
  eq_of_wildcard := fun _ _ _ _ hmem h => wildcard_of_toLower hmem h
  folded_ascii := fun c _ => Eq.refl [c.toLower]
  folded_lower := folded_lower_ascii

end FnMatch
