import ControlTranslation.JsonText

/-!
# Go text

The port of the rule compiler reads the same texts with the functions of another
language: white space and trimming, splitting at line feeds, case mapping rune by
rune, percent-encoding byte by byte, and a JSON encoder of its own.  A text is a
list of code points here too, so a length in bytes is that of the UTF-8 form.
Where the two languages agree is said next to each function.
-/

namespace GoText

open PyText JsonValue

/-- The line and paragraph separators, which the JSON encoder escapes. -/
def isSeparator (c : Char) : Bool := c == '\u2028' || c == '\u2029'

/-- The tables of package `unicode`, fixed on ASCII and free elsewhere, but for the
separators, which no letter maps to. -/
structure Tables where
  isLetter : Char → Bool
  isDigit : Char → Bool
  toUpper : Char → Char
  toLower : Char → Char
  isLetter_ascii : ∀ c, c.toNat < 128 → isLetter c = c.isAlpha
  isDigit_ascii : ∀ c, c.toNat < 128 → isDigit c = c.isDigit
  toUpper_ascii : ∀ c, c.toNat < 128 → toUpper c = c.toUpper
  toLower_ascii : ∀ c, c.toNat < 128 → toLower c = c.toLower
  toUpper_separator : ∀ c, isSeparator (toUpper c) = true → isSeparator c = true

/-- A table that is the language's own agrees with it on ASCII. -/
theorem agrees_ascii {β : Type} (f : Char → β) : ∀ c, c.toNat < 128 → f c = f c :=
  fun _ _ => rfl

/-- `unicode.IsSpace`. -/
def isSpace (c : Char) : Bool :=
  let n := c.toNat
  (9 ≤ n && n ≤ 13) || n == 32 || n == 0x85 || n == 0xA0 || n == 0x1680 ||
    (0x2000 ≤ n && n ≤ 0x200A) || n == 0x2028 || n == 0x2029 || n == 0x202F ||
    n == 0x205F || n == 0x3000

/-- `strings.TrimSpace`. -/
def trimSpace (s : Str) : Str := (s.dropWhile isSpace).rdropWhile isSpace

/-- The cutset `" \t"`. -/
def isBlank (c : Char) : Bool := c == ' ' || c == '\t'

/-- `strings.TrimRight(s, " \t")`. -/
def trimRightBlanks (s : Str) : Str := s.rdropWhile isBlank

/-- `strings.TrimLeft(s, " \t")`. -/
def trimLeftBlanks (s : Str) : Str := s.dropWhile isBlank

/-- `strings.Fields`. -/
def fields (s : Str) : List Str := (s.splitOnP isSpace).filter (· ≠ [])

/-- `len`: the number of bytes. -/
def byteLength (s : Str) : Nat := (s.flatMap utf8).length

/-- A text from its `n`th byte on, where a character begins there. -/
def dropBytes : Nat → Str → Str
  | 0, s => s
  | _, [] => []
  | n + 1, c :: rest => dropBytes (n + 1 - (utf8 c).length) rest

/-- `strings.ToUpper`. -/
def upper (g : Tables) (s : Str) : Str := s.map g.toUpper

/-- `strings.ToLower`. -/
def lower (g : Tables) (s : Str) : Str := s.map g.toLower

/-- `isURLUnreserved`. -/
def isURLUnreserved (b : Nat) : Bool :=
  (65 ≤ b && b ≤ 90) || (97 ≤ b && b ≤ 122) || (48 ≤ b && b ≤ 57) || b == 95 || b == 46 ||
    b == 45 || b == 126

/-- One byte under `quoteAll`. -/
def quoteByte (b : Nat) : Str :=
  if isURLUnreserved b then [Char.ofNat b] else ['%', hexUpper (b / 16), hexUpper (b % 16)]

/-- `quoteAll`. -/
def quoteAll (value : Str) : Str := (value.flatMap utf8).flatMap quoteByte

/-- `strings.ReplaceAll(s, "%20", "+")`. -/
def replaceEscapedSpaces : Str → Str
  | '%' :: '2' :: '0' :: rest => '+' :: replaceEscapedSpaces rest
  | c :: rest => c :: replaceEscapedSpaces rest
  | [] => []

/-- `quotePlusAll`. -/
def quotePlusAll (value : Str) : Str := replaceEscapedSpaces (quoteAll value)

/-- One string character under `SetEscapeHTML(false)`. -/
def encodeChar (c : Char) : Str :=
  if c = '\u2028' then ['\\', 'u', '2', '0', '2', '8']
  else if c = '\u2029' then ['\\', 'u', '2', '0', '2', '9']
  else escapeChar c

/-- `jsonx.Marshal`. -/
def marshal (value : JsonValue) : Str := print encodeChar value

/-- The characters that only Python counts as white space. -/
def isInfoSeparator (c : Char) : Bool := 28 ≤ c.toNat && c.toNat ≤ 31

/-- The two agree on spaces but for the information separators. -/
theorem isSpace_eq {c : Char} (h : isInfoSeparator c = false) : isSpace c = PyText.isSpace c := by
  have hrange : ¬ (28 ≤ c.toNat ∧ c.toNat ≤ 31) := by
    simpa [isInfoSeparator] using h
  rw [Bool.eq_iff_iff]
  simp only [isSpace, PyText.isSpace, Bool.or_eq_true, Bool.and_eq_true, decide_eq_true_eq,
    beq_iff_eq]
  omega

theorem utf8_ascii {c : Char} (h : c.toNat < 128) : utf8 c = [c.toNat] := by
  have hval : c.val.toNat ≤ 127 := Nat.le_of_lt_succ h
  unfold utf8 String.utf8EncodeChar
  rw [if_pos hval]
  have hbyte : c.toNat % 256 = c.toNat := Nat.mod_eq_of_lt (by omega)
  simp [hbyte]

/-- Every byte of a character beyond ASCII is beyond ASCII. -/
theorem utf8_not_ascii {c : Char} (h : 128 ≤ c.toNat) : ∀ b ∈ utf8 c, 128 ≤ b := by
  have hval : ¬ c.val.toNat ≤ 127 := Nat.not_le.mpr h
  unfold utf8 String.utf8EncodeChar
  rw [if_neg hval]
  intro b hb
  split_ifs at hb
  all_goals
    simp only [List.map_cons, List.map_nil, List.mem_cons, List.not_mem_nil, or_false] at hb
  · rcases hb with rfl | rfl <;> simp <;> omega
  · rcases hb with rfl | rfl | rfl <;> simp <;> omega
  · rcases hb with rfl | rfl | rfl | rfl <;> simp <;> omega

theorem isURLUnreserved_iff {b : Nat} : isURLUnreserved b = true ↔
    (65 ≤ b ∧ b ≤ 90) ∨ (97 ≤ b ∧ b ≤ 122) ∨ (48 ≤ b ∧ b ≤ 57) ∨ b = 95 ∨ b = 46 ∨ b = 45 ∨
      b = 126 := by
  simp only [isURLUnreserved, Bool.or_eq_true, Bool.and_eq_true, decide_eq_true_eq, beq_iff_eq]
  omega

theorem ascii_of_isUnreserved {c : Char} (h : isUnreserved c = true) : c.toNat < 128 := by
  have halpha : c.isAlpha = (decide (c.val ≥ 'A'.val ∧ c.val ≤ 'Z'.val) ||
      (decide (c.val ≥ 'a'.val) && decide (c.val ≤ 'z'.val))) := rfl
  simp only [isUnreserved, Char.isAlphanum, halpha, Char.isDigit, Bool.or_eq_true,
    Bool.and_eq_true, decide_eq_true_eq, ge_iff_le, UInt32.le_iff_toNat_le, Char.toNat_val,
    List.mem_cons, List.not_mem_nil, or_false] at h
  rcases h with ((h | h) | h) | rfl | rfl | rfl | rfl
  · have hle := h.2
    simp at hle
    omega
  · have hle := h.2
    simp at hle
    omega
  · have hle := h.2
    simp at hle
    omega
  all_goals decide

/-- A character is quoted byte by byte. -/
theorem quoteBytes_eq (c : Char) : (utf8 c).flatMap quoteByte = quoteChar c := by
  by_cases hascii : c.toNat < 128
  · have hsame : isUnreserved c = isURLUnreserved c.toNat := by
      obtain ⟨n, hn⟩ : ∃ n, n = c.toNat := ⟨_, rfl⟩
      have hchar : c = Char.ofNat n := by rw [hn, Char.ofNat_toNat]
      rw [← hn] at hascii
      rw [hchar]
      clear hn hchar
      decide +revert
    unfold quoteChar
    rw [utf8_ascii hascii, hsame, List.flatMap_singleton, List.flatMap_singleton]
    unfold quoteByte
    rw [Char.ofNat_toNat]
  · have hnot : isUnreserved c = false := by
      by_contra hunreserved
      exact hascii (ascii_of_isUnreserved (Bool.of_not_eq_false hunreserved))
    unfold quoteChar
    rw [hnot, if_neg Bool.false_ne_true]
    refine List.flatMap_congr fun b hb => ?_
    have hbyte := utf8_not_ascii (Nat.le_of_not_lt hascii) b hb
    have hreserved : isURLUnreserved b = false := by
      by_contra hunreserved
      have hcases := isURLUnreserved_iff.mp (Bool.of_not_eq_false hunreserved)
      omega
    unfold quoteByte
    rw [hreserved, if_neg Bool.false_ne_true]

theorem quoteAll_eq (value : Str) : quoteAll value = quote value := by
  unfold quoteAll quote
  rw [List.flatMap_assoc]
  exact List.flatMap_congr fun c _ => quoteBytes_eq c

/-- Nothing but the escape of a space is replaced. -/
theorem replaceEscapedSpaces_cons {c : Char} {rest : Str}
    (h : c = '%' → ∀ rest', rest ≠ '2' :: '0' :: rest') :
    replaceEscapedSpaces (c :: rest) = c :: replaceEscapedSpaces rest := by
  rw [replaceEscapedSpaces]
  intro rest' hc hrest
  exact h hc rest' hrest

theorem hexUpper_ne_percent {n : Nat} (h : n < 16) : hexUpper n ≠ '%' := by
  decide +revert

theorem hexUpper_inj {n m : Nat} (hn : n < 16) (hm : m < 16) (h : hexUpper n = hexUpper m) :
    n = m := by
  have hall : ∀ n < 16, ∀ m < 16, hexUpper n = hexUpper m → n = m := by decide
  exact hall n hn m hm h

/-- The escape of a byte that is not a space stays. -/
theorem replaceEscapedSpaces_byte {b : Nat} (hb : b < 256) (hne : b ≠ 32) (rest : Str) :
    replaceEscapedSpaces ('%' :: hexUpper (b / 16) :: hexUpper (b % 16) :: rest) =
      '%' :: hexUpper (b / 16) :: hexUpper (b % 16) :: replaceEscapedSpaces rest := by
  have hhigh : b / 16 < 16 := by omega
  have hlow : b % 16 < 16 := by omega
  rw [replaceEscapedSpaces_cons, replaceEscapedSpaces_cons, replaceEscapedSpaces_cons]
  · exact fun h => absurd h (hexUpper_ne_percent hlow)
  · exact fun h => absurd h (hexUpper_ne_percent hhigh)
  · intro _ rest' heq
    obtain ⟨htwo, htail⟩ := List.cons.inj heq
    have hzero := (List.cons.inj htail).1
    have htwo' : b / 16 = 2 := hexUpper_inj hhigh (by omega) htwo
    have hzero' : b % 16 = 0 := hexUpper_inj hlow (by omega) hzero
    omega

theorem replaceEscapedSpaces_quoteChar {c : Char} (hc : c ≠ ' ') (rest : Str) :
    replaceEscapedSpaces (quoteChar c ++ rest) = quoteChar c ++ replaceEscapedSpaces rest := by
  unfold quoteChar
  split_ifs with hunreserved
  · have hpercent : c ≠ '%' := by
      rintro rfl
      exact absurd hunreserved (by decide)
    exact replaceEscapedSpaces_cons fun h => absurd h hpercent
  · have hbytes : ∀ b ∈ utf8 c, b < 256 ∧ b ≠ 32 := by
      intro b hb
      refine ⟨?_, ?_⟩
      · obtain ⟨byte, _, rfl⟩ := List.mem_map.mp hb
        exact byte.toNat_lt
      · rintro rfl
        by_cases hascii : c.toNat < 128
        · rw [utf8_ascii hascii, List.mem_singleton] at hb
          exact hc (Char.toNat_inj.mp hb.symm)
        · exact absurd (utf8_not_ascii (Nat.le_of_not_lt hascii) 32 hb) (by omega)
    generalize utf8 c = bytes at hbytes
    induction bytes with
    | nil => rfl
    | cons b more ih =>
        obtain ⟨hlt, hne⟩ := hbytes b List.mem_cons_self
        have hmore := ih fun b' hb' => hbytes b' (List.mem_cons_of_mem _ hb')
        rw [List.flatMap_cons, List.append_assoc]
        exact (replaceEscapedSpaces_byte hlt hne _).trans
          (congrArg (['%', hexUpper (b / 16), hexUpper (b % 16)] ++ ·) hmore)

/-- Both quote a value with pluses to the same text. -/
theorem quotePlusAll_eq (value : Str) : quotePlusAll value = quotePlus value := by
  unfold quotePlusAll
  rw [quoteAll_eq]
  unfold quote quotePlus
  induction value with
  | nil => rfl
  | cons c rest ih =>
      rw [List.flatMap_cons, List.flatMap_cons]
      by_cases hc : c = ' '
      · subst hc
        rw [if_pos rfl]
        exact congrArg ('+' :: ·) ih
      · rw [if_neg hc, replaceEscapedSpaces_quoteChar hc, ih]

/-- No character of a text is one that only Python counts as white space. -/
def Spaced (s : Str) : Prop := ∀ c ∈ s, isInfoSeparator c = false

theorem dropWhile_congr {p q : Char → Bool} {s : Str} (h : ∀ c ∈ s, p c = q c) :
    s.dropWhile p = s.dropWhile q := by
  induction s with
  | nil => rfl
  | cons c rest ih =>
      have hc := h c List.mem_cons_self
      have hrest := ih fun d hd => h d (List.mem_cons_of_mem _ hd)
      rw [List.dropWhile_cons, List.dropWhile_cons, hc, hrest]

theorem rdropWhile_congr {p q : Char → Bool} {s : Str} (h : ∀ c ∈ s, p c = q c) :
    s.rdropWhile p = s.rdropWhile q := by
  unfold List.rdropWhile
  rw [dropWhile_congr fun c hc => h c (List.mem_reverse.mp hc)]

theorem spaced_nil : Spaced [] := fun _ hc => absurd hc List.not_mem_nil

theorem Spaced.append {s s' : Str} (h : Spaced s) (h' : Spaced s') : Spaced (s ++ s') := by
  intro c hc
  rcases List.mem_append.mp hc with hc | hc
  · exact h c hc
  · exact h' c hc

theorem Spaced.of_subset {s s' : Str} (h : Spaced s) (hsub : ∀ c ∈ s', c ∈ s) : Spaced s' :=
  fun c hc => h c (hsub c hc)

/-- In a spaced text both agree on every space. -/
theorem Spaced.isSpace_eq {s : Str} (h : Spaced s) {c : Char} (hc : c ∈ s) :
    isSpace c = PyText.isSpace c := GoText.isSpace_eq (h c hc)

theorem trimSpace_eq {s : Str} (h : Spaced s) : trimSpace s = strip s := by
  unfold trimSpace strip lstrip rstrip
  rw [dropWhile_congr fun c hc => h.isSpace_eq hc]
  exact rdropWhile_congr fun c hc => h.isSpace_eq ((List.dropWhile_sublist _).subset hc)

theorem splitOnP_congr {p q : Char → Bool} {s : Str} (h : ∀ c ∈ s, p c = q c) :
    s.splitOnP p = s.splitOnP q := by
  induction s with
  | nil => rfl
  | cons c rest ih =>
      have hc := h c List.mem_cons_self
      have hrest := ih fun d hd => h d (List.mem_cons_of_mem _ hd)
      rw [List.splitOnP_cons_eq_if_modifyHead, List.splitOnP_cons_eq_if_modifyHead, hc, hrest]

theorem fields_eq {s : Str} (h : Spaced s) : fields s = splitWhitespace s := by
  unfold fields splitWhitespace
  rw [splitOnP_congr fun c hc => h.isSpace_eq hc]

theorem encodeChar_eq {c : Char} (h : isSeparator c = false) : encodeChar c = escapeChar c := by
  simp only [isSeparator, Bool.or_eq_false_iff, beq_eq_false_iff_ne] at h
  unfold encodeChar
  rw [if_neg h.1, if_neg h.2]

theorem flatMap_encodeChar {s : Str} (h : ∀ c ∈ s, isSeparator c = false) :
    printText encodeChar s = printText escapeChar s := by
  unfold printText
  rw [List.flatMap_congr fun c hc => encodeChar_eq (h c hc)]

mutual

/-- The characters of the strings of a value. -/
def textOf : JsonValue → Str
  | .text s => s
  | .array items => textOfItems items
  | .object members => textOfMembers members
  | _ => []

/-- The texts in the items of an array, run together. -/
def textOfItems : List JsonValue → Str
  | [] => []
  | item :: rest => textOf item ++ textOfItems rest

/-- The names and the texts in the members of an object, run together. -/
def textOfMembers : List (Str × JsonValue) → Str
  | [] => []
  | (name, value) :: rest => name ++ (textOf value ++ textOfMembers rest)

end

mutual

/-- Without separators the two encoders write the same text. -/
theorem print_encodeChar : ∀ v : JsonValue, (∀ c ∈ textOf v, isSeparator c = false) →
    print encodeChar v = print escapeChar v
  | .null, _ => rfl
  | .bool true, _ => rfl
  | .bool false, _ => rfl
  | .number _, _ => rfl
  | .text s, h => flatMap_encodeChar h
  | .array [], _ => rfl
  | .array (item :: rest), h => by
      simp only [textOf, textOfItems, List.forall_mem_append] at h
      simp only [print, print_encodeChar item h.1, print_encodeChar_items rest h.2]
  | .object [], _ => rfl
  | .object ((name, value) :: rest), h => by
      simp only [textOf, textOfMembers, List.forall_mem_append] at h
      simp only [print, flatMap_encodeChar h.1, print_encodeChar value h.2.1,
        print_encodeChar_members rest h.2.2]

theorem print_encodeChar_items : ∀ items : List JsonValue,
    (∀ c ∈ textOfItems items, isSeparator c = false) →
      printItems encodeChar items = printItems escapeChar items
  | [], _ => rfl
  | item :: rest, h => by
      simp only [textOfItems, List.forall_mem_append] at h
      simp only [printItems, print_encodeChar item h.1, print_encodeChar_items rest h.2]

theorem print_encodeChar_members : ∀ members : Members,
    (∀ c ∈ textOfMembers members, isSeparator c = false) →
      printMembers encodeChar members = printMembers escapeChar members
  | [], _ => rfl
  | (name, value) :: rest, h => by
      simp only [textOfMembers, List.forall_mem_append] at h
      simp only [printMembers, flatMap_encodeChar h.1, print_encodeChar value h.2.1,
        print_encodeChar_members rest h.2.2]

end

theorem marshal_eq {v : JsonValue} (h : ∀ c ∈ textOf v, isSeparator c = false) :
    marshal v = dumps v := print_encodeChar v h

end GoText
