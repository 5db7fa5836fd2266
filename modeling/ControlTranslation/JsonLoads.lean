import ControlTranslation.KeyOrder

/-!
# Reading JSON text back

`json.loads`: blanks between tokens, strings with their escapes, numbers kept as
they are written, and objects as dictionaries, where a repeated key keeps its first
place and its last value.  The limits on digits and nesting are left out, and one
half of a surrogate pair, which has no character, is read as the replacement
character.

What `dumps` writes is read back as it was: each piece of the text is taken whole
by the scanner of its kind, since none can continue into what follows it.  Two
decoded values are then compared as the language compares them, which sees neither
the order of keys nor how a number is written.
-/

namespace PyJson

open PyText JsonValue

/-- What stands between tokens. -/
def isBlank (c : Char) : Bool := c == ' ' || c == '\t' || c == '\n' || c == '\r'

/-- Past the blanks. -/
def skip (s : Str) : Str := s.dropWhile isBlank

/-- The integer of a number without its sign, and what follows. -/
def scanNatural : Str → Option (Str × Str)
  | [] => none
  | c :: rest =>
      if c = '0' then some (['0'], rest)
      else if c.isDigit then some (c :: rest.takeWhile Char.isDigit, rest.dropWhile Char.isDigit)
      else none

/-- The integer of a number. -/
def scanInteger : Str → Option (Str × Str)
  | [] => none
  | c :: rest =>
      if c = '-' then (scanNatural rest).map fun found => ('-' :: found.1, found.2)
      else scanNatural (c :: rest)

/-- A point with digits after it. -/
def scanFraction : Str → Str × Str
  | [] => ([], [])
  | c :: rest =>
      if c = '.' ∧ rest.takeWhile Char.isDigit ≠ [] then
        (c :: rest.takeWhile Char.isDigit, rest.dropWhile Char.isDigit)
      else ([], c :: rest)

/-- A sign, if there is one. -/
def scanSign : Str → Str × Str
  | [] => ([], [])
  | c :: rest => if c = '+' ∨ c = '-' then ([c], rest) else ([], c :: rest)

/-- An `e` with a sign, if there is one, and digits after it. -/
def scanExponent : Str → Str × Str
  | [] => ([], [])
  | c :: rest =>
      let signed := scanSign rest
      if (c = 'e' ∨ c = 'E') ∧ signed.2.takeWhile Char.isDigit ≠ [] then
        (c :: (signed.1 ++ signed.2.takeWhile Char.isDigit), signed.2.dropWhile Char.isDigit)
      else ([], c :: rest)

/-- `NUMBER_RE`: what it matches, and what follows. -/
def scanNumber (s : Str) : Option (Str × Str) :=
  (scanInteger s).map fun found =>
    (found.1 ++ (scanFraction found.2).1 ++ (scanExponent (scanFraction found.2).2).1,
      (scanExponent (scanFraction found.2).2).2)

/-- Four hexadecimal digits. -/
def hex4 (a b c d : Char) : Option Nat :=
  if isHexDigit a && isHexDigit b && isHexDigit c && isHexDigit d then
    some (16 * (16 * (16 * hexValue a + hexValue b) + hexValue c) + hexValue d)
  else none

/-- The character a letter after a backslash stands for. -/
def unescaped (c : Char) : Option Char :=
  if c = '"' ∨ c = '\\' ∨ c = '/' then some c
  else if c = 'b' then some '\x08' else if c = 'f' then some '\x0c'
  else if c = 'n' then some '\n' else if c = 'r' then some '\r'
  else if c = 't' then some '\t' else none

/-- The code units up to the closing quote of `scanstring`, and what follows it. -/
def scanUnits : Str → Option (List Nat × Str)
  | [] => none
  | '"' :: rest => some ([], rest)
  | '\\' :: 'u' :: a :: b :: c :: d :: rest =>
      (hex4 a b c d).bind fun n => (scanUnits rest).map fun found => (n :: found.1, found.2)
  | '\\' :: c :: rest =>
      (unescaped c).bind fun char =>
        (scanUnits rest).map fun found => (char.toNat :: found.1, found.2)
  | c :: rest =>
      if c.toNat < 32 then none
      else (scanUnits rest).map fun found => (c.toNat :: found.1, found.2)

/-- The first half of a surrogate pair. -/
def isHigh (n : Nat) : Bool := 0xD800 ≤ n && n < 0xDC00

/-- The second half of a surrogate pair. -/
def isLow (n : Nat) : Bool := 0xDC00 ≤ n && n < 0xE000

/-- One code unit; half a pair is replaced. -/
def charOf (n : Nat) : Char := if isHigh n || isLow n then '\ufffd' else Char.ofNat n

/-- The characters of code units. -/
def joinUnits : List Nat → Str
  | [] => []
  | [n] => [charOf n]
  | n :: low :: rest =>
      if isHigh n && isLow low then
        Char.ofNat (0x10000 + (n - 0xD800) * 0x400 + (low - 0xDC00)) :: joinUnits rest
      else charOf n :: joinUnits (low :: rest)

/-- `scanstring`, behind the opening quote. -/
def scanString (s : Str) : Option (Str × Str) :=
  (scanUnits s).map fun found => (joinUnits found.1, found.2)

/-- The values that are words. -/
def words : List (Str × JsonValue) :=
  [("null".toList, .null), ("true".toList, .bool true), ("false".toList, .bool false),
    ("NaN".toList, .number "NaN".toList), ("Infinity".toList, .number "Infinity".toList),
    ("-Infinity".toList, .number "-Infinity".toList)]

/-- A word at the beginning, or a number. -/
def scanPlain (s : Str) : Option (JsonValue × Str) :=
  match words.find? fun word => word.1.isPrefixOf s with
  | some word => some (word.2, s.drop word.1.length)
  | none => (scanNumber s).map fun found => (.number found.1, found.2)

mutual

/-- `scan_once`.  The number counts steps; a text takes no more than it has characters. -/
def scanOnce : Nat → Str → Option (JsonValue × Str)
  | 0, _ => none
  | _ + 1, [] => none
  | n + 1, c :: rest =>
      if c = '"' then (scanString rest).map fun found => (.text found.1, found.2)
      else if c = '[' then
        match skip rest with
        | ']' :: rest => some (.array [], rest)
        | rest => (scanItems n rest).map fun found => (.array found.1, found.2)
      else if c = '\x7b' then
        match skip rest with
        | '\x7d' :: rest => some (.object [], rest)
        | '"' :: rest => (scanMembers n [] rest).map fun found => (.object found.1, found.2)
        | _ => none
      else scanPlain (c :: rest)

/-- `JSONArray`, from an item on. -/
def scanItems : Nat → Str → Option (List JsonValue × Str)
  | 0, _ => none
  | n + 1, s =>
      match scanOnce n s with
      | none => none
      | some (item, rest) =>
          match skip rest with
          | ']' :: rest => some ([item], rest)
          | ',' :: rest => (scanItems n (skip rest)).map fun found => (item :: found.1, found.2)
          | _ => none

/-- `JSONObject`, behind the quote of a key, with the members so far. -/
def scanMembers : Nat → Members → Str → Option (Members × Str)
  | 0, _, _ => none
  | n + 1, members, s =>
      match scanString s with
      | none => none
      | some (name, rest) =>
          match skip rest with
          | ':' :: rest =>
              match scanOnce n (skip rest) with
              | none => none
              | some (value, rest) =>
                  match skip rest with
                  | '\x7d' :: rest => some (setMember members name value, rest)
                  | ',' :: rest =>
                      match skip rest with
                      | '"' :: rest => scanMembers n (setMember members name value) rest
                      | _ => none
                  | _ => none
          | _ => none

end

/-- `json.loads`. -/
def loads (s : Str) : Option JsonValue :=
  if s.head? = some '\ufeff' then none
  else
    match scanOnce (s.length + 1) (skip s) with
    | none => none
    | some (value, rest) => if skip rest = [] then some value else none

mutual

/-- Whether every number of a value is one that JSON has. -/
def numbered : JsonValue → Bool
  | .number literal => scanNumber literal == some (literal, [])
  | .array items => numberedItems items
  | .object members => numberedMembers members
  | _ => true

/-- `numbered` of every item. -/
def numberedItems : List JsonValue → Bool
  | [] => true
  | item :: rest => numbered item && numberedItems rest

/-- `numbered` of every member's value. -/
def numberedMembers : List (Str × JsonValue) → Bool
  | [] => true
  | (_, value) :: rest => numbered value && numberedMembers rest

end

theorem Stops.isDigit {r : Str} (h : Stops r) : ∀ c ∈ r.head?, c.isDigit = false := by
  intro c hc
  have hnumber := h c hc
  simp only [isNumberChar, Bool.or_eq_false_iff] at hnumber
  exact hnumber.1.1.1.1.1

/-- Digits end where a number does. -/
theorem digits_append {r : Str} (h : Stops r) (s : Str) :
    (s ++ r).takeWhile Char.isDigit = s.takeWhile Char.isDigit ∧
      (s ++ r).dropWhile Char.isDigit = s.dropWhile Char.isDigit ++ r := by
  induction s with
  | nil =>
      cases r with
      | nil => exact ⟨rfl, rfl⟩
      | cons c rest =>
          have hc := Stops.isDigit h c rfl
          simp [hc]
  | cons c s ih =>
      cases hc : c.isDigit with
      | true => simp [hc, ih.1, ih.2]
      | false => simp [hc]

/-- What follows a number and cannot go on with it is left over, for the integer digits. -/
theorem scanNatural_append {r : Str} (h : Stops r) {s literal rest : Str}
    (hs : scanNatural s = some (literal, rest)) :
    scanNatural (s ++ r) = some (literal, rest ++ r) := by
  cases s with
  | nil => cases hs
  | cons c s =>
      obtain ⟨htake, hdrop⟩ := digits_append h s
      simp only [scanNatural, List.cons_append] at hs ⊢
      split_ifs at hs ⊢ with hzero hdigit
      · obtain ⟨rfl, rfl⟩ := Prod.mk.inj (Option.some.inj hs)
        rfl
      · obtain ⟨rfl, rfl⟩ := Prod.mk.inj (Option.some.inj hs)
        rw [htake, hdrop]

theorem scanInteger_append {r : Str} (h : Stops r) {s literal rest : Str}
    (hs : scanInteger s = some (literal, rest)) :
    scanInteger (s ++ r) = some (literal, rest ++ r) := by
  cases s with
  | nil => cases hs
  | cons c s =>
      simp only [scanInteger, List.cons_append] at hs ⊢
      split_ifs at hs ⊢
      · obtain ⟨found, hfound, heq⟩ := Option.map_eq_some_iff.mp hs
        obtain ⟨rfl, rfl⟩ := Prod.mk.inj heq
        rw [scanNatural_append h hfound]
        rfl
      · exact scanNatural_append h hs

theorem scanFraction_append {r : Str} (h : Stops r) (s : Str) :
    scanFraction (s ++ r) = ((scanFraction s).1, (scanFraction s).2 ++ r) := by
  cases s with
  | nil =>
      cases r with
      | nil => rfl
      | cons c rest =>
          have hpoint : c ≠ '.' := by
            rintro rfl
            exact absurd (h '.' rfl) (by decide)
          exact if_neg fun hboth => hpoint hboth.1
  | cons c s =>
      obtain ⟨htake, hdrop⟩ := digits_append h s
      simp only [scanFraction, List.cons_append, htake, hdrop]
      split_ifs
      · rfl
      · rfl

theorem scanSign_append {r : Str} (h : Stops r) (s : Str) :
    scanSign (s ++ r) = ((scanSign s).1, (scanSign s).2 ++ r) := by
  cases s with
  | nil =>
      cases r with
      | nil => rfl
      | cons c rest =>
          refine if_neg ?_
          rintro (rfl | rfl)
          · exact absurd (h '+' rfl) (by decide)
          · exact absurd (h '-' rfl) (by decide)
  | cons c s =>
      simp only [scanSign, List.cons_append]
      split_ifs
      · rfl
      · rfl

theorem scanExponent_append {r : Str} (h : Stops r) (s : Str) :
    scanExponent (s ++ r) = ((scanExponent s).1, (scanExponent s).2 ++ r) := by
  cases s with
  | nil =>
      cases r with
      | nil => rfl
      | cons c rest =>
          refine if_neg ?_
          rintro ⟨rfl | rfl, -⟩
          · exact absurd (h 'e' rfl) (by decide)
          · exact absurd (h 'E' rfl) (by decide)
  | cons c s =>
      obtain ⟨htake, hdrop⟩ := digits_append h (scanSign s).2
      simp only [scanExponent, List.cons_append, scanSign_append h s, htake, hdrop]
      split_ifs
      · rfl
      · rfl

/-- **Numbers.**  A number is taken whole from what it stops before. -/
theorem scanNumber_append {r : Str} (h : Stops r) {s literal rest : Str}
    (hs : scanNumber s = some (literal, rest)) :
    scanNumber (s ++ r) = some (literal, rest ++ r) := by
  obtain ⟨found, hfound, heq⟩ := Option.map_eq_some_iff.mp hs
  obtain ⟨rfl, rfl⟩ := Prod.mk.inj heq
  rw [scanNumber, scanInteger_append h hfound, Option.map_some, scanFraction_append h,
    scanExponent_append h]

/-- A positive number is not written with a leading zero. -/
theorem toDigits_head (n : Nat) (h : 0 < n) :
    ∃ c rest, Nat.toDigits 10 n = c :: rest ∧ c ≠ '0' := by
  induction n using Nat.strongRecOn with
  | ind n ih =>
      by_cases hsmall : n < 10
      · refine ⟨_, [], Nat.toDigits_of_lt_base hsmall, ?_⟩
        have hall : ∀ d < 10, 0 < d → Nat.digitChar d ≠ '0' := by decide
        exact hall n hsmall h
      · obtain ⟨c, rest, hdigits, hc⟩ := ih (n / 10) (by omega) (by omega)
        refine ⟨c, rest ++ [(n % 10).digitChar], ?_, hc⟩
        rw [Nat.toDigits_of_base_le (by decide) (by omega), hdigits]
        rfl

/-- The digits of a natural number are a number. -/
theorem scanNumber_toDigits (n : Nat) :
    scanNumber (Nat.toDigits 10 n) = some (Nat.toDigits 10 n, []) := by
  have hall : ∀ c ∈ Nat.toDigits 10 n, c.isDigit = true := fun c hc =>
    Nat.isDigit_of_mem_toDigits (by decide) (by decide) hc
  by_cases hzero : n = 0
  · rw [hzero]
    decide
  · obtain ⟨c, rest, hdigits, hc⟩ := toDigits_head n (by omega)
    rw [hdigits] at hall ⊢
    have hfirst := hall c List.mem_cons_self
    have hrest : ∀ d ∈ rest, d.isDigit = true := fun d hd => hall d (List.mem_cons_of_mem _ hd)
    have hminus : c ≠ '-' := by
      rintro rfl
      cases hfirst
    have htake : rest.takeWhile Char.isDigit = rest := List.takeWhile_eq_self_iff.mpr hrest
    have hdrop : rest.dropWhile Char.isDigit = [] := List.dropWhile_eq_nil_iff.mpr hrest
    rw [scanNumber, scanInteger, if_neg hminus, scanNatural, if_neg hc, if_pos hfirst, htake, hdrop]
    simp [scanFraction, scanExponent]

/-- How a number begins. -/
theorem scanNumber_head {s : Str} (h : (scanNumber s).isSome = true) :
    ∃ c rest, s = c :: rest ∧ (c.isDigit = true ∨
      c = '-' ∧ ∃ d rest', rest = d :: rest' ∧ d.isDigit = true) := by
  have hnatural : ∀ {s : Str}, (scanNatural s).isSome = true →
      ∃ d rest, s = d :: rest ∧ d.isDigit = true := by
    intro s hs
    cases s with
    | nil => cases hs
    | cons d rest =>
        refine ⟨d, rest, rfl, ?_⟩
        simp only [scanNatural] at hs
        split_ifs at hs with hzero hdigit
        · rw [hzero]
          rfl
        · exact hdigit
        · cases hs
  rw [scanNumber, Option.isSome_map] at h
  cases s with
  | nil => cases h
  | cons c rest =>
      refine ⟨c, rest, rfl, ?_⟩
      simp only [scanInteger] at h
      split_ifs at h with hminus
      · rw [Option.isSome_map] at h
        exact Or.inr ⟨hminus, hnatural h⟩
      · obtain ⟨d, rest', heq, hd⟩ := hnatural h
        rw [(List.cons.inj heq).1]
        exact Or.inl hd

/-- No word begins as a number does. -/
theorem words_number {s : Str} (h : (scanNumber s).isSome = true) :
    (words.find? fun word => word.1.isPrefixOf s) = none := by
  have hne : ∀ {c d : Char}, c.isDigit = true → d.isDigit = false → d ≠ c := by
    rintro c d hc hd rfl
    rw [hc] at hd
    cases hd
  obtain ⟨c, rest, rfl, hc | ⟨rfl, d, rest', rfl, hd⟩⟩ := scanNumber_head h
  · have hword : ∀ (d : Char) (word : Str), d.isDigit = false → d = c → ¬word <+: rest :=
      fun d word hd heq => absurd heq (hne hc hd)
    simpa [words] using And.intro (hword 'n' "ull".toList rfl)
      (And.intro (hword 't' "rue".toList rfl) (And.intro (hword 'f' "alse".toList rfl)
        (And.intro (hword 'N' "aN".toList rfl) (And.intro (hword 'I' "nfinity".toList rfl)
          (hword '-' "Infinity".toList rfl)))))
  · have hword : 'I' = d → ¬"nfinity".toList <+: rest' := fun heq => absurd heq (hne hd rfl)
    simpa [words] using hword

theorem scanPlain_number {literal r : Str} (hliteral : scanNumber literal = some (literal, []))
    (h : Stops r) : scanPlain (literal ++ r) = some (.number literal, r) := by
  have hnumber := scanNumber_append h hliteral
  rw [scanPlain, words_number (by rw [hnumber]; rfl), hnumber]
  rfl

/-- A control character is read back off its escape. -/
theorem hex4_zero {n : Nat} (h : n < 32) :
    hex4 '0' '0' (hexLower (n / 16)) (hexLower (n % 16)) = some n := by
  have hall : ∀ n < 32, hex4 '0' '0' (hexLower (n / 16)) (hexLower (n % 16)) = some n := by decide
  exact hall n h

/-- A character is read as itself, however it is written. -/
theorem scanUnits_escapeChar (c : Char) (s : Str) : scanUnits (escapeChar c ++ s) =
    (scanUnits s).map fun found => (c.toNat :: found.1, found.2) := by
  unfold escapeChar
  split_ifs with hquote hslash hline hreturn htab hback hfeed hcontrol
  · rw [hquote]
    rfl
  · rw [hslash]
    rfl
  · rw [hline]
    rfl
  · rw [hreturn]
    rfl
  · rw [htab]
    rfl
  · rw [hback]
    rfl
  · rw [hfeed]
    rfl
  · simp only [List.cons_append, List.nil_append, scanUnits, hex4_zero hcontrol]
    rfl
  · rw [List.cons_append, List.nil_append, scanUnits, if_neg hcontrol]
    · exact hquote
    · exact fun a b c' d rest hc => absurd hc hslash
    · exact fun c' rest hc => absurd hc hslash

theorem joinUnits_map (s : Str) : joinUnits (s.map Char.toNat) = s := by
  have hnone : ∀ c : Char, isHigh c.toNat = false ∧ isLow c.toNat = false := by
    intro c
    have hvalid : c.toNat < 0xD800 ∨ 0xDFFF < c.toNat ∧ c.toNat < 0x110000 := c.valid
    simp only [isHigh, isLow, Bool.and_eq_false_iff, decide_eq_false_iff_not]
    omega
  have hchar : ∀ c : Char, charOf c.toNat = c := by
    intro c
    rw [charOf, (hnone c).1, (hnone c).2]
    exact Char.ofNat_toNat c
  induction s with
  | nil => rfl
  | cons c s ih =>
      cases s with
      | nil => exact congrArg (· :: []) (hchar c)
      | cons d s =>
          rw [List.map_cons, List.map_cons, joinUnits, (hnone c).1, hchar]
          exact congrArg (c :: ·) ih

/-- **Strings.**  A string is read up to its closing quote. -/
theorem scanString_flatMap (s r : Str) :
    scanString (s.flatMap escapeChar ++ '"' :: r) = some (s, r) := by
  have hunits : scanUnits (s.flatMap escapeChar ++ '"' :: r) = some (s.map Char.toNat, r) := by
    induction s with
    | nil => rfl
    | cons c s ih =>
        rw [List.flatMap_cons, List.append_assoc, scanUnits_escapeChar, ih]
        rfl
  rw [scanString, hunits, Option.map_some, joinUnits_map]

theorem skip_cons {c : Char} (h : isBlank c = false) (rest : Str) :
    skip (c :: rest) = c :: rest := by
  rw [skip, List.dropWhile_cons, h, if_neg Bool.false_ne_true]

/-- A value begins with no blank, no closing bracket and no byte order mark. -/
theorem print_start {v : JsonValue} (h : numbered v = true) :
    ∃ c rest, print escapeChar v = c :: rest ∧ isBlank c = false ∧ c ≠ ']' ∧ c ≠ '\ufeff' := by
  cases v with
  | null => exact ⟨_, _, rfl, rfl, by decide, by decide⟩
  | bool b =>
      cases b with
      | true => exact ⟨_, _, rfl, rfl, by decide, by decide⟩
      | false => exact ⟨_, _, rfl, rfl, by decide, by decide⟩
  | number literal =>
      have hread : scanNumber literal = some (literal, []) := by simpa [numbered] using h
      obtain ⟨c, rest, rfl, hc⟩ := scanNumber_head (s := literal) (by rw [hread]; rfl)
      refine ⟨c, rest, rfl, ?_⟩
      rcases hc with hc | ⟨rfl, -⟩
      · have hne : ∀ d : Char, d.isDigit = false → c ≠ d := by
          rintro d hd rfl
          rw [hc] at hd
          cases hd
        refine ⟨?_, hne ']' rfl, hne '\ufeff' rfl⟩
        simp only [isBlank, Bool.or_eq_false_iff, beq_eq_false_iff_ne]
        exact ⟨⟨⟨hne ' ' rfl, hne '\t' rfl⟩, hne '\n' rfl⟩, hne '\r' rfl⟩
      · exact ⟨rfl, by decide, by decide⟩
  | text s => exact ⟨_, _, rfl, rfl, by decide, by decide⟩
  | array items =>
      cases items with
      | nil => exact ⟨_, _, rfl, rfl, by decide, by decide⟩
      | cons item rest => exact ⟨_, _, rfl, rfl, by decide, by decide⟩
  | object members =>
      cases members with
      | nil => exact ⟨_, _, rfl, rfl, by decide, by decide⟩
      | cons member rest => exact ⟨_, _, rfl, rfl, by decide, by decide⟩

theorem skip_print {v : JsonValue} (h : numbered v = true) (r : Str) :
    skip (print escapeChar v ++ r) = print escapeChar v ++ r := by
  obtain ⟨c, rest, hprint, hblank, -, -⟩ := print_start h
  rw [hprint, List.cons_append, skip_cons hblank]

theorem skip_printItems (items : List JsonValue) (r : Str) :
    skip (printItems escapeChar items ++ r) = printItems escapeChar items ++ r := by
  cases items with
  | nil => rfl
  | cons item rest => rfl

theorem skip_printMembers (members : Members) (r : Str) :
    skip (printMembers escapeChar members ++ r) = printMembers escapeChar members ++ r := by
  cases members with
  | nil => rfl
  | cons member rest => rfl

/-- The items of an array that is not empty, and its closing bracket. -/
def itemsText : List JsonValue → Str
  | [] => []
  | item :: rest => print escapeChar item ++ printItems escapeChar rest

/-- The members of an object that is not empty, behind the first quote, and its brace. -/
def membersText : Members → Str
  | [] => []
  | (name, value) :: rest =>
      name.flatMap escapeChar ++ '"' :: ':' ::
        (print escapeChar value ++ printMembers escapeChar rest)

theorem scanItems_step {n : Nat} {item : JsonValue} {s rest : Str}
    (h : scanOnce n s = some (item, rest)) : scanItems (n + 1) s =
      match skip rest with
      | ']' :: rest => some ([item], rest)
      | ',' :: rest => (scanItems n (skip rest)).map fun found => (item :: found.1, found.2)
      | _ => none := by
  rw [scanItems, h]

theorem scanMembers_step {n : Nat} {members : Members} {name : Str} {value : JsonValue}
    {s r rest : Str} (hname : scanString s = some (name, ':' :: r))
    (hvalue : scanOnce n (skip r) = some (value, rest)) : scanMembers (n + 1) members s =
      match skip rest with
      | '\x7d' :: rest => some (setMember members name value, rest)
      | ',' :: rest =>
          match skip rest with
          | '"' :: rest => scanMembers n (setMember members name value) rest
          | _ => none
      | _ => none := by
  rw [scanMembers, hname]
  simp only [skip_cons (show isBlank ':' = false from rfl), hvalue]

/-- A number begins no other value. -/
theorem scanOnce_number {n : Nat} {literal r : Str}
    (hliteral : scanNumber literal = some (literal, [])) (h : Stops r) :
    scanOnce (n + 1) (literal ++ r) = some (.number literal, r) := by
  have hplain := scanPlain_number hliteral h
  obtain ⟨c, rest, rfl, hc⟩ := scanNumber_head (s := literal) (by rw [hliteral]; rfl)
  have hne : ∀ d : Char, d.isDigit = false → d ≠ '-' → c ≠ d := by
    rintro d hd hminus rfl
    rcases hc with hc | ⟨hc, -⟩
    · rw [hc] at hd
      cases hd
    · exact hminus hc
  rw [List.cons_append] at hplain ⊢
  rw [scanOnce, if_neg (hne '"' rfl (by decide)), if_neg (hne '[' rfl (by decide)),
    if_neg (hne '\x7b' rfl (by decide)), hplain]

/-- The items of an array begin behind its bracket. -/
theorem scanOnce_items {n : Nat} {c : Char} {s rest : Str} {items : List JsonValue}
    (hblank : isBlank c = false) (hc : c ≠ ']') (h : scanItems n (c :: s) = some (items, rest)) :
    scanOnce (n + 1) ('[' :: c :: s) = some (.array items, rest) := by
  rw [scanOnce, if_neg (by decide), if_pos rfl, skip_cons hblank]
  split
  · rename_i heq
    exact absurd (List.cons.inj heq).1 hc
  · rw [h]
    rfl

theorem hasKey_append (members : Members) (name : Str) (value : JsonValue) (key : Str) :
    hasKey (members ++ [(name, value)]) key = (hasKey members key || name == key) := by
  simp [hasKey]

mutual

/-- **Values.**  The text of a value is taken whole and read back as the value. -/
theorem scanOnce_print : ∀ (v : JsonValue) (n : Nat) (r : Str), numbered v = true →
    distinct v = true → (print escapeChar v).length ≤ n → Stops r →
      scanOnce n (print escapeChar v ++ r) = some (v, r)
  | _, 0, _, hv, _, hn, _ => by
      obtain ⟨c, rest, hprint, -⟩ := print_start hv
      rw [hprint] at hn
      cases hn
  | .null, _ + 1, _, _, _, _, _ => rfl
  | .bool true, _ + 1, _, _, _, _, _ => rfl
  | .bool false, _ + 1, _, _, _, _, _ => rfl
  | .number literal, n + 1, r, hv, _, _, hr => by
      have hread : scanNumber literal = some (literal, []) := by simpa [numbered] using hv
      exact scanOnce_number hread hr
  | .text s, n + 1, r, _, _, _, _ => by
      rw [print, printText, List.cons_append, List.cons_append, List.append_assoc, scanOnce,
        if_pos rfl]
      rw [List.singleton_append, scanString_flatMap]
      rfl
  | .array [], _ + 1, _, _, _, _, _ => rfl
  | .array (item :: rest), n + 1, r, hv, hd, hn, _ => by
      have hlength : (itemsText (item :: rest)).length ≤ n := by
        simpa [print, itemsText] using hn
      have hitems := scanItems_print (item :: rest) n r (by simp) hv hd hlength
      have hitem : numbered item = true := by
        simp only [numbered, numberedItems, Bool.and_eq_true] at hv
        exact hv.1
      obtain ⟨c, first, hprint, hblank, hc, -⟩ := print_start hitem
      rw [itemsText, hprint] at hitems
      rw [print, hprint]
      exact scanOnce_items hblank hc hitems
  | .object [], _ + 1, _, _, _, _, _ => rfl
  | .object ((name, value) :: rest), n + 1, r, hv, hd, hn, _ => by
      have hlength : (membersText ((name, value) :: rest)).length ≤ n := by
        simp only [print, printText, membersText, List.length_cons, List.length_append,
          List.length_nil] at hn ⊢
        omega
      have hmembers := scanMembers_print ((name, value) :: rest) [] n r (by simp) hv hd
        (fun _ _ => rfl) hlength
      have htext : print escapeChar (.object ((name, value) :: rest)) =
          '\x7b' :: '"' :: membersText ((name, value) :: rest) := by
        simp [print, printText, membersText]
      rw [htext, List.cons_append, List.cons_append, scanOnce, if_neg (by decide),
        if_neg (by decide), if_pos rfl, skip_cons rfl]
      simp only [hmembers, Option.map_some, List.nil_append]

theorem scanItems_print : ∀ (items : List JsonValue) (n : Nat) (r : Str), items ≠ [] →
    numberedItems items = true → distinctItems items = true → (itemsText items).length ≤ n →
      scanItems n (itemsText items ++ r) = some (items, r)
  | [], _, _, hne, _, _, _ => absurd rfl hne
  | item :: rest, n, r, _, hv, hd, hn => by
      simp only [numberedItems, Bool.and_eq_true] at hv
      simp only [distinctItems, Bool.and_eq_true] at hd
      simp only [itemsText, List.length_append] at hn
      have hcloses : 0 < (printItems escapeChar rest).length := by
        cases rest <;> simp [printItems]
      obtain ⟨n, rfl⟩ : ∃ m, n = m + 1 := ⟨n - 1, by omega⟩
      have hitem := scanOnce_print item n (printItems escapeChar rest ++ r) hv.1 hd.1 (by omega)
        (stops_printItems rest)
      rw [itemsText, List.append_assoc, scanItems_step hitem, skip_printItems]
      cases rest with
      | nil => rfl
      | cons next rest =>
          have hlength : (itemsText (next :: rest)).length ≤ n := by
            simp only [printItems, itemsText, List.length_cons, List.length_append] at hn ⊢
            omega
          have hrest := scanItems_print (next :: rest) n r (by simp) hv.2 hd.2 hlength
          have hnext : numbered next = true := by
            have hv := hv.2
            simp only [numberedItems, Bool.and_eq_true] at hv
            exact hv.1
          rw [itemsText, List.append_assoc] at hrest
          simp only [printItems, List.cons_append, List.append_assoc, skip_print hnext, hrest,
            Option.map_some]

/-- The members of a printed object are read back. -/
theorem scanMembers_print : ∀ (members : List (Str × JsonValue)) (before : Members) (n : Nat)
    (r : Str), members ≠ [] → numberedMembers members = true → distinctMembers members = true →
      (∀ m ∈ members, hasKey before m.1 = false) → (membersText members).length ≤ n →
        scanMembers n before (membersText members ++ r) = some (before ++ members, r)
  | [], _, _, _, hne, _, _, _, _ => absurd rfl hne
  | (name, value) :: rest, before, n, r, _, hv, hd, hbefore, hn => by
      simp only [numberedMembers, Bool.and_eq_true] at hv
      obtain ⟨hname, hvalue, hrest⟩ := distinctMembers_cons.mp hd
      simp only [membersText, List.length_append, List.length_cons] at hn
      obtain ⟨n, rfl⟩ : ∃ m, n = m + 1 := ⟨n - 1, by omega⟩
      have hread := scanOnce_print value n (printMembers escapeChar rest ++ r) hv.1 hvalue
        (by omega) (stops_printMembers rest)
      rw [← skip_print hv.1] at hread
      have hset : setMember before name value = before ++ [(name, value)] := by
        rw [setMember, hbefore (name, value) List.mem_cons_self, if_neg Bool.false_ne_true]
      have htext : membersText ((name, value) :: rest) ++ r = name.flatMap escapeChar ++ '"' ::
          (':' :: (print escapeChar value ++ (printMembers escapeChar rest ++ r))) := by
        simp [membersText]
      rw [htext, scanMembers_step (scanString_flatMap _ _) hread, skip_printMembers, hset]
      cases rest with
      | nil => rfl
      | cons next rest =>
          obtain ⟨key, next⟩ := next
          have hlength : (membersText ((key, next) :: rest)).length ≤ n := by
            simp only [printMembers, printText, membersText, List.length_cons,
              List.length_append, List.length_nil] at hn ⊢
            omega
          have hbefore' : ∀ m ∈ (key, next) :: rest,
              hasKey (before ++ [(name, value)]) m.1 = false := by
            intro m hm
            rw [hasKey_append, hbefore m (List.mem_cons_of_mem _ hm), Bool.false_or,
              beq_eq_false_iff_ne]
            exact (hname m hm).symm
          have hmembers := scanMembers_print ((key, next) :: rest) (before ++ [(name, value)]) n r
            (by simp) hv.2 hrest hbefore' hlength
          have htext : printMembers escapeChar ((key, next) :: rest) ++ r =
              ',' :: '"' :: (membersText ((key, next) :: rest) ++ r) := by
            simp [printMembers, printText, membersText]
          rw [htext]
          simp only [skip_cons (show isBlank '"' = false from rfl), hmembers, List.append_assoc,
            List.cons_append, List.nil_append]

end

/-- **Round trip.**  What is dumped is loaded as it was. -/
theorem loads_dumps {v : JsonValue} (hv : numbered v = true) (hd : distinct v = true) :
    loads (dumps v) = some v := by
  have hread := scanOnce_print v ((dumps v).length + 1) [] hv hd (Nat.le_succ _) stops_nil
  have hskip := skip_print hv []
  rw [List.append_nil] at hread hskip
  obtain ⟨c, rest, hprint, -, -, hmark⟩ := print_start hv
  have hmark : (dumps v).head? ≠ some '\ufeff' := by
    rw [dumps, hprint]
    exact fun h => hmark (Option.some.inj h)
  rw [loads, if_neg hmark]
  have hskip' : skip (dumps v) = dumps v := hskip
  have hread' : scanOnce ((dumps v).length + 1) (dumps v) = some (v, []) := hread
  rw [hskip', hread']
  rfl

theorem dumps_inj {v w : JsonValue} (hv : numbered v = true) (hdv : distinct v = true)
    (hw : numbered w = true) (hdw : distinct w = true) (h : dumps v = dumps w) : v = w := by
  have hread := loads_dumps hv hdv
  rw [h, loads_dumps hw hdw] at hread
  exact (Option.some.inj hread).symm

theorem numberedMembers_iff {members : Members} :
    numberedMembers members = true ↔ ∀ m ∈ members, numbered m.2 = true := by
  induction members with
  | nil => simp [numberedMembers]
  | cons first rest ih =>
      obtain ⟨name, value⟩ := first
      simp [numberedMembers, ih]

mutual

/-- Sorting keeps the numbers. -/
theorem numbered_sorted : ∀ v : JsonValue, numbered v = true → numbered (sorted v) = true
  | .null, h | .bool _, h | .number _, h | .text _, h => h
  | .array items, h => numberedItems_sorted items h
  | .object members, h => by
      have hperm := List.perm_insertionSort
        (fun m m' : Str × JsonValue => textLe m.1 m'.1 = true) (sortedMembers members)
      exact numberedMembers_iff.mpr fun m hm =>
        numberedMembers_iff.mp (numberedMembers_sorted members h) m (hperm.mem_iff.mp hm)

theorem numberedItems_sorted : ∀ items : List JsonValue, numberedItems items = true →
    numberedItems (sortedItems items) = true
  | [], _ => rfl
  | item :: rest, h => by
      simp only [numberedItems, Bool.and_eq_true] at h
      simp only [sortedItems, numberedItems, Bool.and_eq_true]
      exact ⟨numbered_sorted item h.1, numberedItems_sorted rest h.2⟩

theorem numberedMembers_sorted : ∀ members : List (Str × JsonValue),
    numberedMembers members = true → numberedMembers (sortedMembers members) = true
  | [], _ => rfl
  | (name, value) :: rest, h => by
      simp only [numberedMembers, Bool.and_eq_true] at h
      simp only [sortedMembers, numberedMembers, Bool.and_eq_true]
      exact ⟨numbered_sorted value h.1, numberedMembers_sorted rest h.2⟩

end

mutual

/-- A sorted value is the value but for the order of keys. -/
theorem reordered_sorted : ∀ v : JsonValue, Reordered v (sorted v)
  | .null | .bool _ | .number _ | .text _ => .refl _
  | .array items => .array (reorderedItems_sorted items)
  | .object members =>
      .object (reorderedMembers_sorted members) (List.perm_insertionSort _ _).symm

theorem reorderedItems_sorted : ∀ items : List JsonValue, ReorderedItems items (sortedItems items)
  | [] => .nil
  | item :: rest => .cons (reordered_sorted item) (reorderedItems_sorted rest)

theorem reorderedMembers_sorted : ∀ members : List (Str × JsonValue),
    ReorderedMembers members (sortedMembers members)
  | [] => .nil
  | (_, value) :: rest => .cons (reordered_sorted value) (reorderedMembers_sorted rest)

end

section

variable (sameNumber : Str → Str → Bool)

/-- What a number or a truth value counts as. -/
def numeral : JsonValue → Option Str
  | .number literal => some literal
  | .bool true => some ['1']
  | .bool false => some ['0']
  | _ => none

mutual

/-- `==` on decoded values; numbers are compared by `sameNumber`. -/
def equal : JsonValue → JsonValue → Bool
  | .null, w => w.isNull
  | .text s, w => w.asText == some s
  | .array items, w => w.asArray.any (equalItems items)
  | .object members, w =>
      w.asObject.any fun members' =>
        members.length == members'.length && equalMembers members members'
  | v, w =>
      match numeral v, numeral w with
      | some a, some b => sameNumber a b
      | _, _ => false

/-- `equal`, item by item. -/
def equalItems : List JsonValue → List JsonValue → Bool
  | [], items => items.isEmpty
  | _ :: _, [] => false
  | item :: rest, item' :: rest' => equal item item' && equalItems rest rest'

/-- Whether the members are found, equal, among others. -/
def equalMembers : List (Str × JsonValue) → Members → Bool
  | [], _ => true
  | (name, value) :: rest, members =>
      (member? members name).any (equal value) && equalMembers rest members

end

variable {sameNumber}

theorem equalMembers_iff {members others : Members} :
    equalMembers sameNumber members others = true ↔
      ∀ m ∈ members, (member? others m.1).any (equal sameNumber m.2) = true := by
  induction members with
  | nil => simp [equalMembers]
  | cons first rest ih =>
      obtain ⟨name, value⟩ := first
      simp [equalMembers, ih]

mutual

/-- A value equals itself. -/
theorem equal_self (hnumber : ∀ a, sameNumber a a = true) :
    ∀ v : JsonValue, distinct v = true → equal sameNumber v v = true
  | .null, _ => rfl
  | .bool true, _ => hnumber _
  | .bool false, _ => hnumber _
  | .number _, _ => hnumber _
  | .text s, _ => by simp [equal, asText]
  | .array items, h => by
      simp only [equal, asArray, Option.any_some]
      exact equalItems_self hnumber items h
  | .object members, h => by
      simp only [equal, asObject, Option.any_some, beq_self_eq_true, Bool.true_and]
      refine equalMembers_iff.mpr fun m hm => ?_
      rw [member?_of_mem (nodup_of_distinctMembers h) hm, Option.any_some]
      exact equalMember_self hnumber members h m hm

theorem equalItems_self (hnumber : ∀ a, sameNumber a a = true) :
    ∀ items : List JsonValue, distinctItems items = true →
      equalItems sameNumber items items = true
  | [], _ => rfl
  | item :: rest, h => by
      simp only [distinctItems, Bool.and_eq_true] at h
      simp only [equalItems, Bool.and_eq_true]
      exact ⟨equal_self hnumber item h.1, equalItems_self hnumber rest h.2⟩

theorem equalMember_self (hnumber : ∀ a, sameNumber a a = true) :
    ∀ members : List (Str × JsonValue), distinctMembers members = true →
      ∀ m ∈ members, equal sameNumber m.2 m.2 = true
  | [], _, _, hm => absurd hm List.not_mem_nil
  | (name, value) :: rest, h, m, hm => by
      obtain ⟨-, hvalue, hrest⟩ := distinctMembers_cons.mp h
      rcases List.mem_cons.mp hm with heq | hm
      · rw [heq]
        exact equal_self hnumber value hvalue
      · exact equalMember_self hnumber rest hrest m hm

end

mutual

/-- The order of keys on the left is not seen, -/
theorem equal_left {v w : JsonValue} (h : Reordered v w) (x : JsonValue) :
    equal sameNumber v x = equal sameNumber w x := by
  cases h with
  | refl => rfl
  | array hitems =>
      simp only [equal]
      cases x.asArray with
      | none => rfl
      | some items => exact equalItems_left hitems items
  | @object xs ys zs hmembers hperm =>
      simp only [equal]
      cases x.asObject with
      | none => rfl
      | some members =>
          have hlength : xs.length = zs.length := by
            rw [← hperm.length_eq, ← List.length_map (·.1), hmembers.map_fst_eq, List.length_map]
          have hsame : equalMembers sameNumber ys members = equalMembers sameNumber zs members := by
            rw [Bool.eq_iff_iff, equalMembers_iff, equalMembers_iff]
            exact ⟨fun hall m hm => hall m (hperm.mem_iff.mpr hm),
              fun hall m hm => hall m (hperm.mem_iff.mp hm)⟩
          simp only [Option.any_some, hlength, equalMembers_left hmembers members, hsame]

/-- Reordering the left side keeps equality, over items. -/
theorem equalItems_left {xs ys : List JsonValue} (h : ReorderedItems xs ys)
    (items : List JsonValue) :
    equalItems sameNumber xs items = equalItems sameNumber ys items := by
  cases h with
  | nil => rfl
  | cons hitem hrest =>
      cases items with
      | nil => rfl
      | cons item rest => simp only [equalItems, equal_left hitem item, equalItems_left hrest rest]

/-- Reordering the left side keeps equality, over members. -/
theorem equalMembers_left {xs ys : Members} (h : ReorderedMembers xs ys)
    (members : Members) :
    equalMembers sameNumber xs members = equalMembers sameNumber ys members := by
  cases h with
  | nil => rfl
  | @cons name x y xs ys hvalue hrest =>
      have hsame : equal sameNumber x = equal sameNumber y := funext fun z => equal_left hvalue z
      simp only [equalMembers, hsame, equalMembers_left hrest members]

end

mutual

/-- and none on the right. -/
theorem equal_right : ∀ (x : JsonValue) {v w : JsonValue}, Reordered v w → distinct w = true →
    equal sameNumber x v = equal sameNumber x w
  | .null, _, _, h, _ => by cases h <;> rfl
  | .bool true, _, _, h, _ => by cases h <;> rfl
  | .bool false, _, _, h, _ => by cases h <;> rfl
  | .number _, _, _, h, _ => by cases h <;> rfl
  | .text _, _, _, h, _ => by cases h <;> rfl
  | .array items, _, _, h, hd => by
      cases h with
      | refl => rfl
      | array hitems =>
          simp only [equal, asArray, Option.any_some]
          exact equalItems_right items hitems hd
      | object => rfl
  | .object members, _, _, h, hd => by
      cases h with
      | refl => rfl
      | array => rfl
      | @object xs ys zs hmembers hperm =>
          have hlength : xs.length = zs.length := by
            rw [← hperm.length_eq, ← List.length_map (·.1), hmembers.map_fst_eq, List.length_map]
          simp only [equal, asObject, Option.any_some, hlength]
          rw [equalMembers_right members (.object hmembers hperm) hd]

/-- Reordering the right side keeps equality, over items. -/
theorem equalItems_right : ∀ (items : List JsonValue) {xs ys : List JsonValue},
    ReorderedItems xs ys → distinctItems ys = true →
      equalItems sameNumber items xs = equalItems sameNumber items ys
  | [], _, _, h, _ => by cases h <;> rfl
  | item :: rest, _, _, h, hd => by
      cases h with
      | nil => rfl
      | cons hitem hrest =>
          simp only [distinctItems, Bool.and_eq_true] at hd
          simp only [equalItems, equal_right item hitem hd.1, equalItems_right rest hrest hd.2]

/-- Reordering the right side keeps equality, over members. -/
theorem equalMembers_right : ∀ (members : List (Str × JsonValue)) {xs zs : Members},
    Reordered (.object xs) (.object zs) → distinctMembers zs = true →
      equalMembers sameNumber members xs = equalMembers sameNumber members zs
  | [], _, _, _, _ => rfl
  | (name, value) :: rest, xs, zs, h, hd => by
      have hfound : (member? xs name).any (equal sameNumber value) =
          (member? zs name).any (equal sameNumber value) := by
        have hrel := h.member? hd name
        cases hzs : member? zs name with
        | none =>
            rw [hzs] at hrel
            cases hxs : member? xs name with
            | none => rfl
            | some x =>
                rw [hxs] at hrel
                cases hrel
        | some z =>
            rw [hzs] at hrel
            cases hxs : member? xs name with
            | none =>
                rw [hxs] at hrel
                cases hrel
            | some x =>
                rw [hxs] at hrel
                cases hrel with
                | some hvalue =>
                    exact equal_right value hvalue (distinct_of_mem hd (mem_of_member? hzs))
      simp only [equalMembers, hfound, equalMembers_right rest h hd]

end

end

example : equal (· == ·) (.object [(['a'], .bool true), (['b'], .null)])
    (.object [(['b'], .null), (['a'], .number ['1'])]) = true := by
  decide

end PyJson
