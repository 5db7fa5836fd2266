import ControlTranslation.GoTranslator
import ControlTranslation.PartLanguage

/-!
# The regexes both programs read alike

The shared parser is the original's with a guard wherever the port goes another
way: counted repetition and optional groups, a ladder under a quantifier, the two
encodings of a space, the digits of a hexadecimal escape and the letters of the
tables.  A scan that meets one of them has parted.  Every other scan ends as it
does in both programs, whether with the same alternatives or with an error; this
goes by induction on the nesting, through one lemma for each loop.
-/

namespace GoCompiler

open PyText GoText ModSecurity

/-- The message of a scan that meets what the two programs read differently. -/
def parted : String := "read differently by the port"

/-- A scan that has parted unless `alike`. -/
def guarded {α : Type} (alike : Bool) (x : Attempt α) : Attempt α :=
  if alike then x else .error parted

/-- A scan that has parted when its result is not `alike`. -/
def keeping {α : Type} (alike : α → Bool) : Attempt α → Attempt α
  | .error e => .error e
  | .ok a => if alike a then .ok a else .error parted

/-- Whether the tables of the two agree that a character is a letter or a digit. -/
def lettersAlike (t : CharTables) (g : GoText.Tables) (c : Char) : Bool :=
  t.isalnum c == (g.isLetter c || g.isDigit c)

/-- Whether two hexadecimal digits begin with a sign. -/
def isSignedHex : Str → Bool
  | a :: b :: _ => (a == '+' || a == '-') && isHexDigit b
  | _ => false

/-- Whether the escape or the class a scan stands at is read alike. -/
def leafAlike (t : CharTables) (g : GoText.Tables) (s : Scan) : Bool :=
  match s.rest with
  | '\\' :: char :: rest => lettersAlike t g char && !(char == 'x' && isSignedHex rest)
  | '[' :: rest =>
      enumerateMembers t (partition ']' rest).1 =
        enumerateMembers (tables g) (partition ']' rest).1
  | _ => true

/-- A part of one text for each depth, without the separators that only one of the
encoders escapes. -/
def plainPart : Part → Bool
  | .lit c => !isSeparator c
  | .ladder depths => depths.all fun texts =>
      texts.length == 1 && texts.all fun text => text.all fun c => !isSeparator c
  | _ => true

/-- Alternatives made of plain parts. -/
def plainAlternatives (alternatives : List Parts) : Bool :=
  alternatives.all fun parts => parts.all plainPart

/-- Whether what follows an atom is read alike. -/
def quantifierAlike (t : CharTables) (alternatives : List Parts) (singleChar : Bool)
    (s : Scan) : Bool :=
  match s.rest with
  | [] => true
  | c :: rest =>
      if c = '{' then (parseCounted t alternatives s rest).toOption.isNone
      else if c = '*' ∨ c = '+' ∨ c = '?' then
        if singleChar then !(alternatives.any fun parts => parts.any Part.isLadder)
        else c ≠ '?' || maxValues < alternatives.length + 1
      else true

/-- An atom that both readers read alike. -/
def sharedAtom (t : CharTables) (g : GoText.Tables)
    (group : Scan → Attempt (List Parts × Scan)) (s : Scan) :
    Attempt (List Parts × Bool × Scan) :=
  guarded (leafAlike t g s)
    (keeping (fun r => plainAlternatives r.1) (ModSecurity.parseAtom t group s))

/-- An atom and its quantifier, read alike by both. -/
def sharedTerm (t : CharTables) (atom : Scan → Attempt (List Parts × Bool × Scan)) (s : Scan) :
    Attempt (List Parts × Scan) :=
  match atom s with
  | .error e => .error e
  | .ok (alternatives, singleChar, s') =>
      guarded (quantifierAlike t alternatives singleChar s') (ModSecurity.parseTerm t atom s)

/-- One concatenation and the alternatives after it. -/
def alternates (concat : Scan → Attempt (List Parts × Scan)) (s : Scan) :
    Attempt (List Parts × Scan) :=
  match concat s with
  | .error e => .error e
  | .ok (alternatives, s') => alternationLoop concat (s'.rest.length + 1) alternatives s'

/-- The shared parser with `levels` nesting levels left. -/
def sharedAlternation (t : CharTables) (g : GoText.Tables) :
    Nat → Scan → Attempt (List Parts × Scan)
  | 0, _ => .error "regex nesting is too deep"
  | levels + 1, s =>
      alternates (parseConcat (sharedTerm t (sharedAtom t g (sharedAlternation t g levels)))) s

/-- A scan `a` ends as the shared one `p` does, unless that has parted. -/
def Follows {α : Type} (p a : Attempt α) : Prop :=
  p = .error parted ∨ a.toOption = p.toOption

/-- As `Follows`, or `p` fails at a brace that `a` stops in front of. -/
def FollowsToBrace (p a : Attempt (List Parts × Scan)) : Prop :=
  Follows p a ∨ (∃ e, p = .error e) ∧
    ∃ alternatives s, a = .ok (alternatives, s) ∧ s.rest.head? = some '{'

/-- No term begins with a brace. -/
def RefusesBrace (term : Scan → Attempt (List Parts × Scan)) : Prop :=
  ∀ s, s.rest.head? = some '{' → ∃ e, term s = .error e

theorem follows_refl {α : Type} (x : Attempt α) : Follows x x := Or.inr rfl

theorem follows_errors {α : Type} (e e' : String) :
    Follows (.error e : Attempt α) (.error e') := Or.inr rfl

/-- The three ways of following. -/
theorem Follows.cases {α : Type} {p a : Attempt α} (h : Follows p a) :
    p = .error parted ∨ (∃ e e', p = .error e ∧ a = .error e') ∨
      ∃ x, p = .ok x ∧ a = .ok x := by
  rcases h with hparted | hsame
  · exact Or.inl hparted
  · cases p with
    | error e =>
        cases a with
        | error e' => exact Or.inr (Or.inl ⟨e, e', rfl, rfl⟩)
        | ok y => cases hsame
    | ok x =>
        cases a with
        | error e' => cases hsame
        | ok y =>
            obtain rfl : y = x := Option.some.inj hsame
            exact Or.inr (Or.inr ⟨y, rfl, rfl⟩)

/-- What the shared reader reads, the other reads. -/
theorem Follows.of_ok {α : Type} {x : α} {a : Attempt α} (h : Follows (.ok x) a) : a = .ok x := by
  obtain hparted | ⟨e, e', hp, -⟩ | ⟨y, hp, ha⟩ := h.cases
  · cases hparted
  · cases hp
  · rw [ha, Except.ok.inj hp]

/-- What the shared reader refuses on its own account, the other refuses. -/
theorem Follows.of_error {α : Type} {e : String} {a : Attempt α} (h : Follows (.error e) a)
    (hne : e ≠ parted) : ∃ e', a = .error e' := by
  obtain hparted | ⟨_, e', -, ha⟩ | ⟨x, hp, -⟩ := h.cases
  · exact absurd (Except.error.inj hparted) hne
  · exact ⟨e', ha⟩
  · cases hp

/-- A guard lets the shared reader follow where both are alike. -/
theorem Follows.guarded {α : Type} {p a : Attempt α} (alike : Bool)
    (h : alike = true → Follows p a) : Follows (guarded alike p) a := by
  cases alike with
  | false => exact Or.inl rfl
  | true => exact h rfl

/-- A check of the result keeps what is followed. -/
theorem Follows.keeping {α : Type} {p a : Attempt α} (alike : α → Bool) (h : Follows p a) :
    Follows (keeping alike p) a := by
  obtain hparted | ⟨e, e', hp, ha⟩ | ⟨x, hp, ha⟩ := h.cases
  · rw [hparted]
    exact Or.inl rfl
  · rw [hp, ha]
    exact follows_errors e e'
  · rw [hp, ha]
    simp only [GoCompiler.keeping]
    split
    · exact follows_refl _
    · exact Or.inl rfl

/-- Before a brace the loop over terms ends with an error. -/
theorem concatLoop_brace {a : Scan → Attempt (List Parts × Scan)} (hbrace : RefusesBrace a)
    (budget : Nat) (results : List Parts) {s : Scan} (hs : s.rest.head? = some '{') :
    ∃ e, concatLoop a budget results s = .error e := by
  cases budget with
  | zero => exact ⟨_, rfl⟩
  | succ budget =>
      obtain ⟨e, he⟩ := hbrace s hs
      unfold concatLoop
      cases hrest : s.rest with
      | nil => rw [hrest] at hs; cases hs
      | cons c rest =>
          rw [hrest] at hs
          obtain rfl : c = '{' := Option.some.inj hs
          refine ⟨e, ?_⟩
          simp only [he]
          rw [if_neg (by decide)]

/-- Readers that follow each other on terms do on runs of them. -/
theorem concatLoop_follows {p a : Scan → Attempt (List Parts × Scan)}
    (hterm : ∀ s, FollowsToBrace (p s) (a s)) (hbrace : RefusesBrace a) (budget : Nat) :
    ∀ results s, Follows (concatLoop p budget results s) (concatLoop a budget results s) := by
  induction budget with
  | zero => exact fun _ _ => follows_refl _
  | succ budget ih =>
      intro results s
      unfold concatLoop
      cases hrest : s.rest with
      | nil => exact follows_refl _
      | cons c rest =>
          by_cases hstop : c = '|' ∨ c = ')'
          · simp only [if_pos hstop]
            exact follows_refl _
          · simp only [if_neg hstop]
            rcases hterm s with hfollows | ⟨⟨e, hp⟩, suffixes, s', ha, hs'⟩
            · obtain hparted | ⟨e, e', hp, ha⟩ | ⟨⟨suffixes, s'⟩, hp, ha⟩ := hfollows.cases
              · simp only [hparted]
                exact Or.inl rfl
              · simp only [hp, ha]
                exact follows_errors e e'
              · simp only [hp, ha]
                by_cases hmany : maxValues < (cross results suffixes).length
                · simp only [if_pos hmany]
                  exact follows_refl _
                · simp only [if_neg hmany]
                  exact ih _ s'
            · -- The shared parser fails at the term, the other at the brace after it.
              simp only [hp, ha]
              by_cases hmany : maxValues < (cross results suffixes).length
              · simp only [if_pos hmany]
                exact follows_errors _ _
              · obtain ⟨e', he'⟩ := concatLoop_brace hbrace budget (cross results suffixes) hs'
                simp only [if_neg hmany, he']
                exact follows_errors _ _

theorem parseConcat_follows {p a : Scan → Attempt (List Parts × Scan)}
    (hterm : ∀ s, FollowsToBrace (p s) (a s)) (hbrace : RefusesBrace a) (s : Scan) :
    Follows (parseConcat p s) (parseConcat a s) :=
  concatLoop_follows hterm hbrace _ _ s

theorem alternationLoop_follows {p a : Scan → Attempt (List Parts × Scan)}
    (hconcat : ∀ s, Follows (p s) (a s)) (budget : Nat) :
    ∀ alternatives s,
      Follows (alternationLoop p budget alternatives s)
        (alternationLoop a budget alternatives s) := by
  induction budget with
  | zero => exact fun _ _ => follows_refl _
  | succ budget ih =>
      intro alternatives s
      unfold alternationLoop
      cases hrest : s.rest with
      | nil => exact follows_refl _
      | cons c rest =>
          by_cases hbar : c = '|'
          · simp only [if_pos hbar]
            obtain hparted | ⟨e, e', hp, ha⟩ | ⟨⟨more, s'⟩, hp, ha⟩ :=
              (hconcat { s with rest := rest }).cases
            · simp only [hparted]
              exact Or.inl rfl
            · simp only [hp, ha]
              exact follows_errors e e'
            · simp only [hp, ha]
              by_cases hmany : maxValues < (alternatives ++ more).length
              · simp only [if_pos hmany]
                exact follows_refl _
              · simp only [if_neg hmany]
                exact ih _ s'
          · simp only [if_neg hbar]
            exact follows_refl _

theorem alternates_follows {p a : Scan → Attempt (List Parts × Scan)}
    (hconcat : ∀ s, Follows (p s) (a s)) (s : Scan) :
    Follows (alternates p s) (alternates a s) := by
  unfold alternates
  obtain hparted | ⟨e, e', hp, ha⟩ | ⟨⟨alternatives, s'⟩, hp, ha⟩ := (hconcat s).cases
  · simp only [hparted]
    exact Or.inl rfl
  · simp only [hp, ha]
    exact follows_errors e e'
  · simp only [hp, ha]
    exact alternationLoop_follows hconcat _ alternatives s'

/-- The original follows on atoms where it does on groups. -/
theorem originalAtom_follows (t : CharTables) {p f : Scan → Attempt (List Parts × Scan)}
    (hgroup : ∀ s, Follows (p s) (f s)) (s : Scan) :
    Follows (ModSecurity.parseAtom t p s) (ModSecurity.parseAtom t f s) := by
  unfold ModSecurity.parseAtom
  cases hrest : s.rest with
  | nil => exact follows_refl _
  | cons char rest =>
      by_cases hopen : char = '('
      · simp only [if_pos hopen]
        by_cases hlook : rest.head? = some '?' ∧ rest.tail.head? ≠ some ':'
        · simp only [if_pos hlook]
          exact follows_refl _
        · simp only [if_neg hlook]
          obtain hparted | ⟨e, e', hp, hf⟩ | ⟨⟨alternatives, s'⟩, hp, hf⟩ :=
            (hgroup { s with rest := if rest.head? = some '?' then rest.drop 2 else rest }).cases
          · simp only [hparted]
            exact Or.inl rfl
          · simp only [hp, hf]
            exact follows_errors e e'
          · simp only [hp, hf]
            exact follows_refl _
      · simp only [if_neg hopen]
        exact follows_refl _

/-- The shared reader follows the original on atoms. -/
theorem sharedAtom_follows_original (t : CharTables) (g : GoText.Tables)
    {p f : Scan → Attempt (List Parts × Scan)} (hgroup : ∀ s, Follows (p s) (f s)) (s : Scan) :
    Follows (sharedAtom t g p s) (ModSecurity.parseAtom t f s) :=
  Follows.guarded _ fun _ => (originalAtom_follows t hgroup s).keeping _

theorem sharedTerm_follows_original (t : CharTables)
    {p f : Scan → Attempt (List Parts × Bool × Scan)} (hatom : ∀ s, Follows (p s) (f s))
    (s : Scan) : Follows (sharedTerm t p s) (ModSecurity.parseTerm t f s) := by
  unfold sharedTerm ModSecurity.parseTerm
  obtain hparted | ⟨e, e', hp, hf⟩ | ⟨⟨alternatives, single, s'⟩, hp, hf⟩ := (hatom s).cases
  · simp only [hparted]
    exact Or.inl rfl
  · simp only [hp, hf]
    exact follows_errors e e'
  · simp only [hp, hf]
    exact Follows.guarded _ fun _ => follows_refl _

/-- Neither parser has an atom that begins with a brace. -/
theorem originalTerm_refusesBrace (t : CharTables) (group : Scan → Attempt (List Parts × Scan)) :
    RefusesBrace (ModSecurity.parseTerm t (ModSecurity.parseAtom t group)) := by
  intro s hs
  refine ⟨"counted repetition is not expressible", ?_⟩
  cases hrest : s.rest with
  | nil => rw [hrest] at hs; cases hs
  | cons c rest =>
      rw [hrest] at hs
      obtain rfl : c = '{' := Option.some.inj hs
      simp [ModSecurity.parseTerm, ModSecurity.parseAtom, hrest]

/-- **The original follows the shared parser.** -/
theorem sharedAlternation_follows_original (t : CharTables) (g : GoText.Tables) (levels : Nat) :
    ∀ s, Follows (sharedAlternation t g levels s) (ModSecurity.parseAlternation t levels s) := by
  induction levels with
  | zero => exact fun _ => follows_refl _
  | succ levels ih =>
      refine alternates_follows (parseConcat_follows (fun s => Or.inl ?_)
        (originalTerm_refusesBrace t _))
      exact sharedTerm_follows_original t (sharedAtom_follows_original t g ih) s

theorem encodedOnceMore_eq : ∀ branches, encodedOnceMore branches = recursivelyEncoded branches
  | [] => rfl
  | [_] => rfl
  | a :: b :: rest => by
      unfold encodedOnceMore recursivelyEncoded
      rw [encodedOnceMore_eq (b :: rest), quoteAll_eq]

/-- A ladder of one text for each depth is a ladder of the port. -/
theorem asEncodingLadder_some {alternatives : List Parts} {depths : List (List Str)}
    (h : ModSecurity.asEncodingLadder alternatives = some depths)
    (hplain : plainPart (.ladder depths) = true) :
    ∃ ladder, asEncodingLadder alternatives = some ladder ∧ ladderPart ladder = .ladder depths := by
  unfold ModSecurity.asEncodingLadder at h
  unfold asEncodingLadder
  split_ifs at h with hlength
  · rw [if_neg hlength]
    cases hbranches : literalBranches alternatives with
    | none => simp [hbranches] at h
    | some branches =>
        simp only [hbranches] at h ⊢
        rw [encodedOnceMore_eq]
        by_cases hencoded : recursivelyEncoded branches = true
        · rw [if_pos hencoded] at h ⊢
          exact ⟨branches, rfl, congrArg Part.ladder (Option.some.inj h)⟩
        · -- The two encodings of a space are two texts at one depth.
          rw [if_neg hencoded] at h
          split at h
          · split_ifs at h with hspace
            · obtain rfl := Option.some.inj h
              simp [plainPart] at hplain
          · cases h

/-- What is no ladder in the original is none in the port. -/
theorem asEncodingLadder_none {alternatives : List Parts}
    (h : ModSecurity.asEncodingLadder alternatives = none) :
    asEncodingLadder alternatives = none := by
  unfold ModSecurity.asEncodingLadder at h
  unfold asEncodingLadder
  split_ifs at h ⊢ with hlength
  · rfl
  · cases hbranches : literalBranches alternatives with
    | none => rfl
    | some branches =>
        simp only [hbranches] at h ⊢
        rw [encodedOnceMore_eq]
        split_ifs at h ⊢ with hencoded
        · rfl

/-- Both read a class both read alike to the same parts. -/
theorem parseClass_eq {t : CharTables} {g : GoText.Tables} {s : Scan} {rest : Str}
    (hrest : s.rest = '[' :: rest) (halike : leafAlike t g s = true) :
    parseClass (tables g) s = parseClass t s := by
  have hmembers : enumerateMembers t (partition ']' rest).1 =
      enumerateMembers (tables g) (partition ']' rest).1 := by
    simpa [leafAlike, hrest] using halike
  unfold parseClass enumerateClass
  simp only [hrest, List.tail_cons, hmembers]

/-- Two hexadecimal digits without a sign are read alike. -/
theorem parseHex_unsigned {a b : Char} (rest : Str) (h : isSignedHex (a :: b :: rest) = false) :
    parseHex a b = if isHexDigit a ∧ isHexDigit b then
      some (Char.ofNat (16 * hexValue a + hexValue b)) else none := by
  unfold parseHex
  cases hb : isHexDigit b with
  | false => simp
  | true =>
      cases ha : isHexDigit a with
      | true => simp
      | false =>
          have hsign : a ≠ '+' ∧ a ≠ '-' := by
            simpa [isSignedHex, hb] using h
          simp [hsign.1, hsign.2]

theorem parseEscape_follows {t : CharTables} {g : GoText.Tables} {s : Scan} {tail : Str}
    (hrest : s.rest = '\\' :: tail) (halike : leafAlike t g s = true) :
    Follows (ModSecurity.parseEscape t s) (parseEscape g s) := by
  unfold ModSecurity.parseEscape parseEscape
  cases tail with
  | nil =>
      simp only [hrest, List.tail_cons]
      exact follows_refl _
  | cons char rest =>
      simp only [leafAlike, hrest, Bool.and_eq_true, lettersAlike, beq_iff_eq,
        Bool.not_eq_true', Bool.and_eq_false_iff, beq_eq_false_iff_ne] at halike
      obtain ⟨hletters, hsign⟩ := halike
      simp only [hrest, List.tail_cons, hletters]
      by_cases hx : char = 'x'
      · have hunsigned := hsign.resolve_left (not_not.mpr hx)
        rcases rest with _ | ⟨a, _ | ⟨b, rest'⟩⟩
        · exact follows_refl _
        · exact follows_refl _
        · simp only [parseHex_unsigned rest' hunsigned]
          by_cases hdigits : isHexDigit a = true ∧ isHexDigit b = true
          · simp only [if_pos hdigits]
            exact follows_refl _
          · simp only [if_neg hdigits]
            exact follows_refl _
      · simp only [if_neg hx]
        exact follows_refl _

/-- The shared reader follows the port on atoms. -/
theorem sharedAtom_follows_port (t : CharTables) (g : GoText.Tables)
    {p h : Scan → Attempt (List Parts × Scan)} (hgroup : ∀ s, Follows (p s) (h s)) (s : Scan) :
    Follows (sharedAtom t g p s) (parseAtom g h s) := by
  refine Follows.guarded _ fun halike => ?_
  unfold ModSecurity.parseAtom parseAtom
  cases hrest : s.rest with
  | nil => exact follows_errors _ _
  | cons char rest =>
      by_cases hopen : char = '('
      · simp only [if_pos hopen]
        by_cases hlook : rest.head? = some '?' ∧ rest.tail.head? ≠ some ':'
        · simp only [if_pos hlook]
          exact follows_errors _ _
        · simp only [if_neg hlook]
          obtain hparted | ⟨e, e', hp, hh⟩ | ⟨⟨alternatives, s'⟩, hp, hh⟩ :=
            (hgroup { s with rest := if rest.head? = some '?' then rest.drop 2 else rest }).cases
          · simp only [hparted]
            exact Or.inl rfl
          · simp only [hp, hh]
            exact follows_errors e e'
          · simp only [hp, hh]
            unfold closeGroup
            by_cases hclose : s'.rest.head? = some ')'
            · simp only [if_pos hclose]
              cases hladder : ModSecurity.asEncodingLadder alternatives with
              | none =>
                  simp only [asEncodingLadder_none hladder]
                  exact (follows_refl _).keeping _
              | some depths =>
                  by_cases hplain : plainPart (.ladder depths) = true
                  · obtain ⟨ladder, hport, hpart⟩ := asEncodingLadder_some hladder hplain
                    simp only [hport, hpart]
                    exact (follows_refl _).keeping _
                  · refine Or.inl ?_
                    simp [keeping, plainAlternatives, hplain]
            · simp only [if_neg hclose]
              exact follows_errors _ _
      · simp only [if_neg hopen]
        by_cases hclass : char = '['
        · subst hclass
          simp only [if_pos, parseClass_eq hrest halike]
          exact (follows_refl _).keeping _
        · simp only [if_neg hclass]
          by_cases hescape : char = '\\'
          · subst hescape
            simp only [if_pos]
            exact (parseEscape_follows hrest halike).keeping _
          · simp only [if_neg hescape]
            exact (follows_refl _).keeping _

/-- What the original does after an atom, where it is the port's doing too. -/
theorem quantify_follows {t : CharTables} {atom : Scan → Attempt (List Parts × Bool × Scan)}
    {alternatives : List Parts} {single : Bool} {s s' : Scan}
    (hatom : atom s = .ok (alternatives, single, s'))
    (halike : quantifierAlike t alternatives single s' = true) :
    FollowsToBrace (ModSecurity.parseTerm t atom s) (quantify alternatives single s') := by
  unfold ModSecurity.parseTerm quantify
  simp only [hatom]
  unfold quantifierAlike at halike
  cases hrest : s'.rest with
  | nil => exact Or.inl (follows_refl _)
  | cons c rest =>
      simp only [hrest] at halike
      by_cases hbrace : c = '{'
      · subst hbrace
        simp only [if_pos] at halike ⊢
        refine Or.inr ⟨?_, alternatives, s', by simp, by simp [hrest]⟩
        cases hcounted : parseCounted t alternatives s' rest with
        | error e => exact ⟨e, rfl⟩
        | ok r => simp [hcounted, Except.toOption] at halike
      · simp only [if_neg hbrace] at halike ⊢
        by_cases hquantifier : c = '*' ∨ c = '+' ∨ c = '?'
        · simp only [if_pos hquantifier] at halike ⊢
          unfold parseQuantifier
          cases single with
          | false =>
              simp only [and_true, if_true]
              by_cases hoptional : c = '?'
              · have hmany : maxValues < alternatives.length + 1 := by
                  simpa [hoptional] using halike
                simp only [if_pos hoptional, if_pos hmany]
                exact Or.inl (follows_errors _ _)
              · simp only [if_neg hoptional]
                exact Or.inl (follows_refl _)
          | true =>
              have hladder : (alternatives.any fun parts => parts.any Part.isLadder) = false := by
                simpa using halike
              simp only [hladder, Bool.true_eq_false, Bool.false_eq_true, and_false, if_false]
              exact Or.inl (follows_refl _)
        · simp only [if_neg hquantifier]
          exact Or.inl (follows_refl _)

theorem sharedTerm_follows_port (t : CharTables)
    {p h : Scan → Attempt (List Parts × Bool × Scan)} (hatom : ∀ s, Follows (p s) (h s))
    (s : Scan) : FollowsToBrace (sharedTerm t p s) (parseTerm h s) := by
  unfold sharedTerm parseTerm
  obtain hparted | ⟨e, e', hp, hh⟩ | ⟨⟨alternatives, single, s'⟩, hp, hh⟩ := (hatom s).cases
  · simp only [hparted]
    exact Or.inl (Or.inl rfl)
  · simp only [hp, hh]
    exact Or.inl (follows_errors e e')
  · simp only [hp, hh]
    cases halike : quantifierAlike t alternatives single s' with
    | false => exact Or.inl (Or.inl rfl)
    | true => exact quantify_follows hp halike

/-- The port refuses a term that begins with a brace. -/
theorem portTerm_refusesBrace (g : GoText.Tables) (group : Scan → Attempt (List Parts × Scan)) :
    RefusesBrace (parseTerm (parseAtom g group)) := by
  intro s hs
  refine ⟨"counted repetition is not expressible", ?_⟩
  cases hrest : s.rest with
  | nil => rw [hrest] at hs; cases hs
  | cons c rest =>
      rw [hrest] at hs
      obtain rfl : c = '{' := Option.some.inj hs
      simp [parseTerm, parseAtom, hrest]

/-- **The port follows the shared parser.** -/
theorem sharedAlternation_follows_port (t : CharTables) (g : GoText.Tables) (levels : Nat) :
    ∀ s, Follows (sharedAlternation t g levels s) (parseAlternation g levels s) := by
  induction levels with
  | zero => exact fun _ => follows_refl _
  | succ levels ih =>
      refine alternates_follows (parseConcat_follows (fun s => ?_) (portTerm_refusesBrace g _))
      exact sharedTerm_follows_port t (sharedAtom_follows_port t g ih) s

/-- Every result of a scan has plain parts. -/
def GivesPlain (p : Scan → Attempt (List Parts × Scan)) : Prop :=
  ∀ s alternatives s', p s = .ok (alternatives, s') → plainAlternatives alternatives = true

theorem plainAlternatives_iff {alternatives : List Parts} : plainAlternatives alternatives = true ↔
    ∀ parts ∈ alternatives, ∀ part ∈ parts, plainPart part = true := by
  simp [plainAlternatives]

theorem plain_cross {x y : List Parts} (hx : plainAlternatives x = true)
    (hy : plainAlternatives y = true) : plainAlternatives (cross x y) = true := by
  rw [plainAlternatives_iff] at *
  intro parts hparts part hpart
  obtain ⟨pre, hpre, suffix, hsuffix, rfl⟩ := mem_cross.mp hparts
  rcases List.mem_append.mp hpart with hpart | hpart
  · exact hx pre hpre part hpart
  · exact hy suffix hsuffix part hpart

theorem plain_append {x y : List Parts} (hx : plainAlternatives x = true)
    (hy : plainAlternatives y = true) : plainAlternatives (x ++ y) = true := by
  rw [plainAlternatives_iff] at *
  intro parts hparts
  rcases List.mem_append.mp hparts with hparts | hparts
  · exact hx parts hparts
  · exact hy parts hparts

theorem plain_map_any {x : List Parts} (hx : plainAlternatives x = true) :
    plainAlternatives (x.map (· ++ [.any])) = true := by
  rw [plainAlternatives_iff] at *
  intro parts hparts part hpart
  obtain ⟨parts', hparts', rfl⟩ := List.mem_map.mp hparts
  rcases List.mem_append.mp hpart with hpart | hpart
  · exact hx parts' hparts' part hpart
  · rw [List.mem_singleton.mp hpart]
    rfl

theorem sharedAtom_plain {t : CharTables} {g : GoText.Tables}
    {group : Scan → Attempt (List Parts × Scan)} {s s' : Scan} {alternatives : List Parts}
    {single : Bool} (h : sharedAtom t g group s = .ok (alternatives, single, s')) :
    plainAlternatives alternatives = true := by
  unfold sharedAtom guarded keeping at h
  split_ifs at h with halike
  split at h
  · cases h
  · split_ifs at h with hplain
    obtain rfl := Except.ok.inj h
    exact hplain

/-- A quantifier that the port reads too adds nothing but runs. -/
theorem quantify_plain {alternatives result : List Parts} {single : Bool} {s s' : Scan}
    (hplain : plainAlternatives alternatives = true)
    (h : quantify alternatives single s = .ok (result, s')) : plainAlternatives result = true := by
  unfold quantify at h
  split at h
  · cases h
    exact hplain
  · split_ifs at h with hquantifier hsingle hplus
    · obtain ⟨rfl, -⟩ := Prod.mk.inj (Except.ok.inj h)
      exact plain_map_any hplain
    · obtain ⟨rfl, -⟩ := Prod.mk.inj (Except.ok.inj h)
      rfl
    · cases h
      exact hplain

theorem sharedTerm_plain {t : CharTables} {g : GoText.Tables}
    {group : Scan → Attempt (List Parts × Scan)} :
    GivesPlain (sharedTerm t (sharedAtom t g group)) := by
  intro s result s' h
  unfold sharedTerm at h
  cases hatom : sharedAtom t g group s with
  | error e => simp [hatom] at h
  | ok r =>
      obtain ⟨alternatives, single, s''⟩ := r
      simp only [hatom, guarded] at h
      split_ifs at h with halike
      rcases quantify_follows hatom halike with hfollows | ⟨⟨e, he⟩, -⟩
      · rcases hfollows with hparted | hsame
        · rw [h] at hparted
          cases hparted
        · rw [h] at hsame
          cases hquantify : quantify alternatives single s'' with
          | error e => simp [hquantify, Except.toOption] at hsame
          | ok r =>
              obtain rfl : r = (result, s') := by
                simpa [hquantify, Except.toOption] using hsame
              exact quantify_plain (sharedAtom_plain hatom) hquantify
      · rw [h] at he
        cases he

theorem concatLoop_plain {term : Scan → Attempt (List Parts × Scan)} (hterm : GivesPlain term)
    (budget : Nat) : ∀ {results : List Parts} {s : Scan} {alternatives : List Parts} {s' : Scan},
      plainAlternatives results = true →
      concatLoop term budget results s = .ok (alternatives, s') →
      plainAlternatives alternatives = true := by
  induction budget with
  | zero =>
      intro results s alternatives s' _ h
      cases h
  | succ budget ih =>
      intro results s alternatives s' hresults h
      unfold concatLoop at h
      split at h
      · cases h
        exact hresults
      · split_ifs at h with hstop
        · cases h
          exact hresults
        · split at h
          · cases h
          · rename_i suffixes s'' hsuffixes
            split_ifs at h with hmany
            exact ih (plain_cross hresults (hterm _ _ _ hsuffixes)) h

theorem alternationLoop_plain {concat : Scan → Attempt (List Parts × Scan)}
    (hconcat : GivesPlain concat) (budget : Nat) :
    ∀ {results : List Parts} {s : Scan} {alternatives : List Parts} {s' : Scan},
      plainAlternatives results = true →
      alternationLoop concat budget results s = .ok (alternatives, s') →
      plainAlternatives alternatives = true := by
  induction budget with
  | zero =>
      intro results s alternatives s' _ h
      cases h
  | succ budget ih =>
      intro results s alternatives s' hresults h
      unfold alternationLoop at h
      split at h
      · cases h
        exact hresults
      · split_ifs at h with hbar
        · split at h
          · cases h
          · rename_i more s'' hmore
            split_ifs at h with hmany
            exact ih (plain_append hresults (hconcat _ _ _ hmore)) h
        · cases h
          exact hresults

/-- The parts of a shared scan are plain. -/
theorem sharedAlternation_plain (t : CharTables) (g : GoText.Tables) (levels : Nat) :
    GivesPlain (sharedAlternation t g levels) := by
  cases levels with
  | zero =>
      intro s alternatives s' h
      cases h
  | succ levels =>
      intro s alternatives s' h
      unfold sharedAlternation alternates at h
      have hconcat : GivesPlain (parseConcat (sharedTerm t (sharedAtom t g
          (sharedAlternation t g levels)))) := fun s₁ results s₂ hrun =>
        concatLoop_plain sharedTerm_plain _ rfl hrun
      split at h
      · cases h
      · rename_i results s'' hresults
        exact alternationLoop_plain hconcat _ (hconcat _ _ _ hresults) h

end GoCompiler
