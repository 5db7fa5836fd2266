import Mathlib.Data.List.DropRight

/-!
# Python text

The service is Python, and everything it compiles is a `str`.  A `str` is
modelled as the list of its code points, so that the parsers below recurse on
it directly.  This file holds the string methods the service calls, with the
behaviour the language documents: the whitespace and line-break sets, the
splitting methods, and the percent-encoding of `urllib.parse.quote`.

Methods that consult the Unicode database (`isalnum`, `\d`, `lower`, `upper`)
differ between interpreter versions outside ASCII.  They are the fields of
`CharTables`, which pins them down on ASCII only; every theorem holds for all
such tables.
-/

namespace PyText

/-- A Python `str`, one entry per code point. -/
abbrev Str := List Char

/-- The Unicode tables of the interpreter, fixed on ASCII and free elsewhere. -/
structure CharTables where
  /-- `str.isalnum` on one code point. -/
  isalnum : Char → Bool
  /-- The value of a decimal digit: what `\d` accepts and `int` reads. -/
  decimal : Char → Option Nat
  /-- `str.lower`. -/
  lower : Str → Str
  /-- `str.upper`. -/
  upper : Str → Str
  isalnum_ascii : ∀ c, c.toNat < 128 → isalnum c = c.isAlphanum
  decimal_ascii : ∀ c, c.toNat < 128 →
    decimal c = if c.isDigit then some (c.toNat - 48) else none
  lower_ascii : ∀ s, (∀ c ∈ s, c.toNat < 128) → lower s = s.map Char.toLower
  upper_ascii : ∀ s, (∀ c ∈ s, c.toNat < 128) → upper s = s.map Char.toUpper

/-- The tables that know ASCII and nothing else; concrete runs use these. -/
def asciiTables : CharTables where
  isalnum := Char.isAlphanum
  decimal c := if c.isDigit then some (c.toNat - 48) else none
  lower s := s.map Char.toLower
  upper s := s.map Char.toUpper
  isalnum_ascii _ _ := rfl
  decimal_ascii _ _ := rfl
  lower_ascii _ _ := rfl
  upper_ascii _ _ := rfl

/-- `str.isspace` on one code point. -/
def isSpace (c : Char) : Bool :=
  let n := c.toNat
  (9 ≤ n && n ≤ 13) || (28 ≤ n && n ≤ 32) || n == 0x85 || n == 0xA0 ||
    n == 0x1680 || (0x2000 ≤ n && n ≤ 0x200A) || n == 0x2028 || n == 0x2029 ||
    n == 0x202F || n == 0x205F || n == 0x3000

/-- The single-character line separators of `str.splitlines`. -/
def isLineBreak (c : Char) : Bool :=
  let n := c.toNat
  (10 ≤ n && n ≤ 13) || (28 ≤ n && n ≤ 30) || n == 0x85 || n == 0x2028 ||
    n == 0x2029

/-- An ASCII hexadecimal digit, `[0-9A-Fa-f]`. -/
def isHexDigit (c : Char) : Bool :=
  c.isDigit || ('a' ≤ c && c ≤ 'f') || ('A' ≤ c && c ≤ 'F')

/-- The value of an ASCII hexadecimal digit. -/
def hexValue (c : Char) : Nat :=
  if c.isDigit then c.toNat - 48
  else if 'a' ≤ c then c.toNat - 87 else c.toNat - 55

/-- `str.lstrip()`. -/
def lstrip (s : Str) : Str := s.dropWhile isSpace

/-- `str.rstrip()`. -/
def rstrip (s : Str) : Str := s.rdropWhile isSpace

/-- `str.strip()`. -/
def strip (s : Str) : Str := rstrip (lstrip s)

/-- `str.strip(chars)`. -/
def stripChars (chars : Str) (s : Str) : Str :=
  (s.dropWhile (· ∈ chars)).rdropWhile (· ∈ chars)

/-- `str.partition` at one character, without the separator itself. -/
def partition (sep : Char) (s : Str) : Str × Str :=
  (s.takeWhile (· ≠ sep), (s.dropWhile (· ≠ sep)).tail)

/-- `str.split()`: the runs between whitespace. -/
def splitWhitespace (s : Str) : List Str :=
  (s.splitOnP isSpace).filter (· ≠ [])

/-- `str.splitlines()` with the current line in reverse.  `afterReturn` marks
a carriage return just consumed, which a line feed belongs to. -/
def splitLinesFrom (line : Str) (afterReturn : Bool) : Str → List Str
  | [] => if line = [] then [] else [line.reverse]
  | c :: rest =>
      if afterReturn && c = '\n' then splitLinesFrom [] false rest
      else if isLineBreak c then
        line.reverse :: splitLinesFrom [] (c = '\r') rest
      else splitLinesFrom (c :: line) false rest

/-- `str.splitlines()`. -/
def splitLines (s : Str) : List Str := splitLinesFrom [] false s

/-- `str.removeprefix` with a one-character prefix. -/
def removePrefix (p : Char) : Str → Str
  | [] => []
  | c :: rest => if c = p then rest else c :: rest

/-- `str.removesuffix` with a one-character suffix. -/
def removeSuffix (p : Char) (s : Str) : Str :=
  if s.getLast? = some p then s.dropLast else s

/-- `separator.join(parts)`. -/
def join (separator : Str) (parts : List Str) : Str :=
  separator.intercalate parts

/-- `list(dict.fromkeys(values))`: first occurrences, in order. -/
def unique {α : Type} [DecidableEq α] (values : List α) : List α :=
  values.eraseDups

/-- The UTF-8 bytes of one code point. -/
def utf8 (c : Char) : List Nat := (String.utf8EncodeChar c).map UInt8.toNat

/-- One hexadecimal digit in upper case. -/
def hexUpper (n : Nat) : Char := ("0123456789ABCDEF".toList).getD n '0'

/-- One hexadecimal digit in lower case. -/
def hexLower (n : Nat) : Char := ("0123456789abcdef".toList).getD n '0'

/-- The characters `quote` never escapes. -/
def isUnreserved (c : Char) : Bool :=
  c.isAlphanum || c ∈ ['_', '.', '-', '~']

/-- One code point under `urllib.parse.quote(..., safe="")`. -/
def quoteChar (c : Char) : Str :=
  if isUnreserved c then [c]
  else (utf8 c).flatMap fun b => ['%', hexUpper (b / 16), hexUpper (b % 16)]

/-- `urllib.parse.quote(value, safe="")`. -/
def quote (value : Str) : Str := value.flatMap quoteChar

/-- `urllib.parse.quote_plus(value, safe="")`: as `quote`, but a space is `+`. -/
def quotePlus (value : Str) : Str :=
  value.flatMap fun c => if c = ' ' then ['+'] else quoteChar c

/-- `value.encode().hex()`. -/
def encodeHex (value : Str) : Str :=
  value.flatMap fun c =>
    (utf8 c).flatMap fun b => [hexLower (b / 16), hexLower (b % 16)]

/-- Removing repetitions keeps exactly the members. -/
@[simp] theorem mem_unique {α : Type} [DecidableEq α] (a : α) :
    ∀ values : List α, a ∈ unique values ↔ a ∈ values := by
  intro values
  unfold unique
  induction hn : values.length using Nat.strong_induction_on generalizing values with
  | _ n ih =>
      cases values with
      | nil => simp
      | cons b rest =>
          have hlt : (rest.filter fun x => !x == b).length < n := by
            have := List.length_filter_le (fun x => !x == b) rest
            simp only [List.length_cons] at hn
            omega
          rw [List.eraseDups_cons, List.mem_cons, ih _ hlt _ rfl]
          by_cases hab : a = b <;> simp [hab]

/-- Removing repetitions leaves none. -/
theorem nodup_unique {α : Type} [DecidableEq α] (values : List α) : (unique values).Nodup := by
  unfold unique
  induction hn : values.length using Nat.strong_induction_on generalizing values with
  | _ n ih =>
      cases values with
      | nil => exact List.nodup_nil
      | cons a rest =>
          have hlt : (rest.filter fun x => !x == a).length < n := by
            have hle := List.length_filter_le (fun x => !x == a) rest
            rw [List.length_cons] at hn
            omega
          rw [List.eraseDups_cons, List.nodup_cons]
          refine ⟨?_, ih _ hlt _ rfl⟩
          intro hmem
          have hrest := List.mem_eraseDups.mp hmem
          simp at hrest

/-- The empty list is the only one without members. -/
@[simp] theorem unique_eq_nil {α : Type} [DecidableEq α] (values : List α) :
    unique values = [] ↔ values = [] := by
  cases values with
  | nil => simp [unique]
  | cons a rest => simp [unique, List.eraseDups_cons]

/-- Splitting at the first separator loses nothing. -/
theorem partition_of_mem {sep : Char} {s : Str} (h : sep ∈ s) :
    s = (partition sep s).1 ++ sep :: (partition sep s).2 := by
  induction s with
  | nil => simp at h
  | cons c rest ih =>
      by_cases hc : c = sep
      · simp [partition, hc]
      · have hrest : sep ∈ rest := by
          rcases List.mem_cons.mp h with rfl | hmem
          · exact absurd rfl hc
          · exact hmem
        have := ih hrest
        simp only [partition] at this ⊢
        rw [List.takeWhile_cons_of_pos (by simpa using hc),
          List.dropWhile_cons_of_pos (by simpa using hc), List.cons_append, ← this]

/-- Nothing before the first separator is a separator. -/
theorem notMem_partition {sep : Char} {s : Str} : sep ∉ (partition sep s).1 := by
  intro h
  have := List.mem_takeWhile_imp h
  simp at this

/-- A text splits at its first separator in one way. -/
theorem split_unique {sep : Char} {a b c d : Str} (ha : sep ∉ a) (hc : sep ∉ c)
    (h : a ++ sep :: b = c ++ sep :: d) : a = c ∧ b = d := by
  induction a generalizing c with
  | nil =>
      cases c with
      | nil => exact ⟨rfl, (List.cons.inj h).2⟩
      | cons x c =>
          obtain ⟨rfl, -⟩ := List.cons.inj h
          exact absurd List.mem_cons_self hc
  | cons y a ih =>
      cases c with
      | nil =>
          obtain ⟨rfl, -⟩ := List.cons.inj h
          exact absurd List.mem_cons_self ha
      | cons x c =>
          obtain ⟨rfl, htail⟩ := List.cons.inj h
          obtain ⟨rfl, rfl⟩ := ih (fun hm => ha (List.mem_cons_of_mem _ hm))
            (fun hm => hc (List.mem_cons_of_mem _ hm)) htail
          exact ⟨rfl, rfl⟩

/-- The ASCII digits and letters, by their code points. -/
theorem isAlphanum_iff {c : Char} : c.isAlphanum = true ↔
    (48 ≤ c.toNat ∧ c.toNat ≤ 57) ∨ (65 ≤ c.toNat ∧ c.toNat ≤ 90) ∨
      (97 ≤ c.toNat ∧ c.toNat ≤ 122) := by
  have hranges : c.isAlphanum = (decide ('A'.val ≤ c.val ∧ c.val ≤ 'Z'.val) ||
      (decide ('a'.val ≤ c.val) && decide (c.val ≤ 'z'.val)) ||
      (decide ('0'.val ≤ c.val) && decide (c.val ≤ '9'.val))) := rfl
  simp only [hranges, UInt32.le_iff_toNat_le, Bool.or_eq_true, Bool.and_eq_true,
    decide_eq_true_eq, Char.reduceVal, UInt32.reduceToNat, Char.toNat_val]
  omega

/-- A text with a character that is no white space is not blank. -/
theorem strip_ne_nil {s : Str} {c : Char} (hc : c ∈ s) (hspace : isSpace c = false) :
    strip s ≠ [] := by
  intro hblank
  have hleft : ∀ x ∈ lstrip s, isSpace x = true := List.rdropWhile_eq_nil_iff.mp hblank
  have hnil : lstrip s = [] := by
    cases hstripped : lstrip s with
    | nil => rfl
    | cons x rest =>
        have hhead := hleft x (by rw [hstripped]; exact List.mem_cons_self)
        have hkept := List.head?_dropWhile_not isSpace s
        rw [show s.dropWhile isSpace = x :: rest from hstripped] at hkept
        exact absurd (hhead.symm.trans hkept) (by decide)
  rw [List.dropWhile_eq_nil_iff.mp hnil c hc] at hspace
  cases hspace

example : splitLines "a\r\nb\nc".toList = ["a".toList, "b".toList, "c".toList] := by
  decide

example : quote "[ é".toList = "%5B%20%C3%A9".toList := by decide

/-- The code-point order of texts. -/
def textLe : Str → Str → Bool
  | [], _ => true
  | _ :: _, [] => false
  | a :: s, b :: t => a.toNat < b.toNat || (a == b && textLe s t)

end PyText
