import ControlTranslation.JsonValue

/-!
# Compact JSON text

`json.dumps` with compact separators and without ASCII escaping, over any
escaping of string characters, and the further replacements that make it agree
with another encoder's default escaping.  A reader of one escaped character
inverts both escapings, so the text determines the value: `print_inj` compares
the two encoders directly, and injectivity of each is its diagonal.
-/

namespace JsonValue

open PyText

/-- A character a number can be written with. -/
def isNumberChar (c : Char) : Bool :=
  c.isDigit || c == '-' || c == '+' || c == '.' || c == 'e' || c == 'E'

/-- A number literal that JSON has; `NaN` and the infinities are refused. -/
def isNumberLiteral (literal : Str) : Bool := !literal.isEmpty && literal.all isNumberChar

mutual

/-- Whether every number of a value can be written. -/
def finite : JsonValue → Bool
  | .number literal => isNumberLiteral literal
  | .array items => finiteItems items
  | .object members => finiteMembers members
  | _ => true

/-- `finite` of every item. -/
def finiteItems : List JsonValue → Bool
  | [] => true
  | item :: rest => finite item && finiteItems rest

/-- `finite` of every member's value. -/
def finiteMembers : List (Str × JsonValue) → Bool
  | [] => true
  | (_, value) :: rest => finite value && finiteMembers rest

end

/-- One string character under `ensure_ascii=False`. -/
def escapeChar (c : Char) : Str :=
  if c = '"' then ['\\', '"']
  else if c = '\\' then ['\\', '\\']
  else if c = '\n' then ['\\', 'n']
  else if c = '\r' then ['\\', 'r']
  else if c = '\t' then ['\\', 't']
  else if c = '\x08' then ['\\', 'b']
  else if c = '\x0c' then ['\\', 'f']
  else if c.toNat < 32 then
    ['\\', 'u', '0', '0', hexLower (c.toNat / 16), hexLower (c.toNat % 16)]
  else [c]

/-- A string literal. -/
def printText (escape : Char → Str) (s : Str) : Str := '"' :: s.flatMap escape ++ ['"']

mutual

/-- The compact text of a value. -/
def print (escape : Char → Str) : JsonValue → Str
  | .null => ['n', 'u', 'l', 'l']
  | .bool true => ['t', 'r', 'u', 'e']
  | .bool false => ['f', 'a', 'l', 's', 'e']
  | .number literal => literal
  | .text s => printText escape s
  | .array [] => ['[', ']']
  | .array (item :: rest) => '[' :: (print escape item ++ printItems escape rest)
  | .object [] => ['{', '}']
  | .object ((name, value) :: rest) =>
      '{' :: (printText escape name ++ ':' :: (print escape value ++
        printMembers escape rest))

/-- The items after the first, and the closing bracket. -/
def printItems (escape : Char → Str) : List JsonValue → Str
  | [] => [']']
  | item :: rest => ',' :: (print escape item ++ printItems escape rest)

/-- The members after the first, and the closing brace. -/
def printMembers (escape : Char → Str) : List (Str × JsonValue) → Str
  | [] => ['}']
  | (name, value) :: rest =>
      ',' :: (printText escape name ++ ':' :: (print escape value ++
        printMembers escape rest))

end

/-- `json.dumps` in compact form, in the order of the members. -/
def dumps (value : JsonValue) : Str := print escapeChar value

/-- One character of the text under the other encoder's default escaping. -/
def goReplace (c : Char) : Str :=
  if c = '&' then ['\\', 'u', '0', '0', '2', '6']
  else if c = '<' then ['\\', 'u', '0', '0', '3', 'c']
  else if c = '>' then ['\\', 'u', '0', '0', '3', 'e']
  else if c = '\u2028' then ['\\', 'u', '2', '0', '2', '8']
  else if c = '\u2029' then ['\\', 'u', '2', '0', '2', '9']
  else [c]

/-- `goReplace` over a text. -/
def goReplaceText (text : Str) : Str := text.flatMap goReplace

/-- A string character escaped and then replaced. -/
def goEscapeChar (c : Char) : Str := goReplaceText (escapeChar c)

/-! ## Replacing after writing

The replaced characters only occur inside string literals, so replacing them in
the text escapes the strings once more.
-/

@[simp]
theorem goReplaceText_nil : goReplaceText [] = [] := rfl

@[simp]
theorem goReplaceText_cons (c : Char) (text : Str) :
    goReplaceText (c :: text) = goReplace c ++ goReplaceText text := rfl

theorem goReplaceText_append (s t : Str) :
    goReplaceText (s ++ t) = goReplaceText s ++ goReplaceText t := List.flatMap_append

theorem goReplace_number {c : Char} (h : isNumberChar c = true) : goReplace c = [c] := by
  unfold goReplace
  split_ifs with h₁ h₂ h₃ h₄ h₅
  · rw [h₁] at h
    exact absurd h (by decide)
  · rw [h₂] at h
    exact absurd h (by decide)
  · rw [h₃] at h
    exact absurd h (by decide)
  · rw [h₄] at h
    exact absurd h (by decide)
  · rw [h₅] at h
    exact absurd h (by decide)
  · rfl

theorem goReplaceText_number : ∀ {literal : Str}, literal.all isNumberChar = true →
    goReplaceText literal = literal
  | [], _ => rfl
  | c :: rest, h => by
      rw [List.all_cons, Bool.and_eq_true] at h
      rw [goReplaceText_cons, goReplace_number h.1, goReplaceText_number h.2]
      rfl

theorem goReplaceText_flatMap (s : Str) :
    goReplaceText (s.flatMap escapeChar) = s.flatMap goEscapeChar := by
  induction s with
  | nil => rfl
  | cons c s ih =>
      rw [List.flatMap_cons, goReplaceText_append, ih]
      rfl

/-- Replacing in Python's text of a string gives Go's. -/
theorem goReplaceText_printText (s : Str) :
    goReplaceText (printText escapeChar s) = printText goEscapeChar s := by
  simp only [printText, List.cons_append, goReplaceText_cons, goReplaceText_append,
    goReplaceText_flatMap]
  rfl

mutual

/-- Replacing in the text is writing with the other escaping. -/
theorem goReplaceText_print : ∀ v : JsonValue, finite v = true →
    goReplaceText (print escapeChar v) = print goEscapeChar v
  | .null, _ => rfl
  | .bool true, _ => rfl
  | .bool false, _ => rfl
  | .number literal, h => by
      simp only [finite, isNumberLiteral, Bool.and_eq_true] at h
      exact goReplaceText_number h.2
  | .text s, _ => goReplaceText_printText s
  | .array [], _ => rfl
  | .array (item :: rest), h => by
      simp only [finite, finiteItems, Bool.and_eq_true] at h
      simp only [print, goReplaceText_cons, goReplaceText_append,
        goReplaceText_print item h.1, goReplaceText_printItems rest h.2]
      rfl
  | .object [], _ => rfl
  | .object ((name, value) :: rest), h => by
      simp only [finite, finiteMembers, Bool.and_eq_true] at h
      simp only [print, goReplaceText_cons, goReplaceText_append, goReplaceText_printText,
        goReplaceText_print value h.1, goReplaceText_printMembers rest h.2]
      rfl

/-- Replacing in Python's text of an array gives Go's. -/
theorem goReplaceText_printItems : ∀ items : List JsonValue, finiteItems items = true →
    goReplaceText (printItems escapeChar items) = printItems goEscapeChar items
  | [], _ => rfl
  | item :: rest, h => by
      simp only [finiteItems, Bool.and_eq_true] at h
      simp only [printItems, goReplaceText_cons, goReplaceText_append,
        goReplaceText_print item h.1, goReplaceText_printItems rest h.2]
      rfl

/-- Replacing in Python's text of an object gives Go's. -/
theorem goReplaceText_printMembers : ∀ members : Members, finiteMembers members = true →
    goReplaceText (printMembers escapeChar members) = printMembers goEscapeChar members
  | [], _ => rfl
  | (name, value) :: rest, h => by
      simp only [finiteMembers, Bool.and_eq_true] at h
      simp only [printMembers, goReplaceText_cons, goReplaceText_append,
        goReplaceText_printText, goReplaceText_print value h.1,
        goReplaceText_printMembers rest h.2]
      rfl

end

/-- The character a one-letter escape stands for. -/
def unescape (c : Char) : Char :=
  if c = 'n' then '\n' else if c = 'r' then '\r' else if c = 't' then '\t'
  else if c = 'b' then '\x08' else if c = 'f' then '\x0c' else c

/-- Read one string character, escaped or not; the closing quote is none. -/
def readChar : Str → Option (Char × Str)
  | '\\' :: 'u' :: a :: b :: c :: d :: rest =>
      some (Char.ofNat (16 * (16 * (16 * hexValue a + hexValue b) + hexValue c) + hexValue d),
        rest)
  | '\\' :: c :: rest => some (unescape c, rest)
  | '"' :: _ => none
  | c :: rest => some (c, rest)
  | [] => none

/-- An escaping that the reader inverts. -/
def Readable (escape : Char → Str) : Prop :=
  ∀ c rest, readChar (escape c ++ rest) = some (c, rest)

theorem hexValue_hexLower : ∀ n < 16, hexValue (hexLower n) = n := by decide

/-- A character that is not escaped reads as itself. -/
theorem readChar_plain {c : Char} (hquote : c ≠ '"') (hslash : c ≠ '\\') (rest : Str) :
    readChar (c :: rest) = some (c, rest) := by
  unfold readChar
  split
  · rename_i h
    exact absurd (List.cons.inj h).1 hslash
  · rename_i h
    exact absurd (List.cons.inj h).1 hslash
  · rename_i h
    exact absurd (List.cons.inj h).1 hquote
  · rename_i h
    obtain ⟨rfl, rfl⟩ := List.cons.inj h
    rfl
  · rename_i h
    cases h

theorem readable_escapeChar : Readable escapeChar := by
  intro c rest
  unfold escapeChar
  split_ifs with h₁ h₂ h₃ h₄ h₅ h₆ h₇ h₈
  · rw [h₁]
    rfl
  · rw [h₂]
    rfl
  · rw [h₃]
    rfl
  · rw [h₄]
    rfl
  · rw [h₅]
    rfl
  · rw [h₆]
    rfl
  · rw [h₇]
    rfl
  · have hhigh := hexValue_hexLower (c.toNat / 16) (by omega)
    have hlow := hexValue_hexLower (c.toNat % 16) (by omega)
    have hzero : hexValue '0' = 0 := by decide
    change some (Char.ofNat _, rest) = some (c, rest)
    rw [hhigh, hlow, hzero]
    have hsum : 16 * (16 * (16 * 0 + 0) + c.toNat / 16) + c.toNat % 16 = c.toNat := by omega
    rw [hsum, Char.ofNat_toNat]
  · exact readChar_plain h₁ h₂ rest

/-- The replaced characters are not the ones JSON escapes. -/
theorem readable_goEscapeChar : Readable goEscapeChar := by
  intro c rest
  change readChar (goReplaceText (escapeChar c) ++ rest) = some (c, rest)
  by_cases hplain : escapeChar c = [c]
  · have hquote : c ≠ '"' := by
      rintro rfl
      exact absurd hplain (by decide)
    have hslash : c ≠ '\\' := by
      rintro rfl
      exact absurd hplain (by decide)
    have hgo : goReplaceText (escapeChar c) = goReplace c := by
      simp [hplain, goReplaceText]
    rw [hgo]
    unfold goReplace
    split_ifs with h₁ h₂ h₃ h₄ h₅
    · rw [h₁]
      rfl
    · rw [h₂]
      rfl
    · rw [h₃]
      rfl
    · rw [h₄]
      rfl
    · rw [h₅]
      rfl
    · exact readChar_plain hquote hslash rest
  · have hkept : goReplaceText (escapeChar c) = escapeChar c := by
      have hhex : ∀ n < 16, goReplace (hexLower n) = [hexLower n] := by decide
      unfold escapeChar at hplain ⊢
      split_ifs at hplain ⊢ with h₁ h₂ h₃ h₄ h₅ h₆ h₇ h₈
      · decide
      · decide
      · decide
      · decide
      · decide
      · decide
      · decide
      · have hhigh := hhex (c.toNat / 16) (by omega)
        have hlow := hhex (c.toNat % 16) (by omega)
        simp only [goReplaceText, List.flatMap_cons, List.flatMap_nil, hhigh, hlow]
        rfl
      · exact absurd rfl hplain
    rw [hkept]
    exact readable_escapeChar c rest

/-- Text after a value that cannot continue a number. -/
def Stops (rest : Str) : Prop := ∀ c ∈ rest.head?, isNumberChar c = false

theorem stops_cons {c : Char} {rest : Str} (h : isNumberChar c = false) : Stops (c :: rest) := by
  intro d hd
  obtain rfl : c = d := by simpa using hd
  exact h

theorem stops_nil : Stops [] := by
  intro c hc
  cases hc

/-- The kind of a value, apart from its content. -/
def shape : JsonValue → Nat
  | .null => 0
  | .bool true => 1
  | .bool false => 2
  | .number _ => 3
  | .text _ => 4
  | .array _ => 5
  | .object _ => 6

/-- The kind of value a text begins. -/
def shapeOf (c : Char) : Nat :=
  if c = 'n' then 0 else if c = 't' then 1 else if c = 'f' then 2
  else if c = '"' then 4 else if c = '[' then 5 else if c = '{' then 6 else 3

theorem shapeOf_number {c : Char} (h : isNumberChar c = true) : shapeOf c = 3 := by
  unfold shapeOf
  split_ifs with h₁ h₂ h₃ h₄ h₅ h₆
  · rw [h₁] at h
    exact absurd h (by decide)
  · rw [h₂] at h
    exact absurd h (by decide)
  · rw [h₃] at h
    exact absurd h (by decide)
  · rw [h₄] at h
    exact absurd h (by decide)
  · rw [h₅] at h
    exact absurd h (by decide)
  · rw [h₆] at h
    exact absurd h (by decide)
  · rfl

/-- A value begins with a character of its kind, and not with a closing
bracket. -/
theorem print_head (escape : Char → Str) {v : JsonValue} (h : finite v = true) :
    ∃ c rest, print escape v = c :: rest ∧ shapeOf c = shape v ∧ c ≠ ']' := by
  cases v with
  | null => exact ⟨_, _, rfl, rfl, by decide⟩
  | bool b =>
      cases b with
      | true => exact ⟨_, _, rfl, rfl, by decide⟩
      | false => exact ⟨_, _, rfl, rfl, by decide⟩
  | number literal =>
      cases literal with
      | nil => cases h
      | cons c rest =>
          have hc : isNumberChar c = true := by
            simp only [finite, isNumberLiteral, List.all_cons, Bool.and_eq_true] at h
            exact h.2.1
          refine ⟨c, rest, rfl, shapeOf_number hc, ?_⟩
          rintro rfl
          exact absurd hc (by decide)
  | text s => exact ⟨_, _, rfl, rfl, by decide⟩
  | array items =>
      cases items with
      | nil => exact ⟨_, _, rfl, rfl, by decide⟩
      | cons item rest => exact ⟨_, _, rfl, rfl, by decide⟩
  | object members =>
      cases members with
      | nil => exact ⟨_, _, rfl, rfl, by decide⟩
      | cons member rest => exact ⟨_, _, rfl, rfl, by decide⟩

/-- Equal texts begin the same kind of value. -/
theorem shape_eq_of_print {escape escape' : Char → Str} {v w : JsonValue} {r r' : Str}
    (hv : finite v = true) (hw : finite w = true)
    (h : print escape v ++ r = print escape' w ++ r') : shape v = shape w := by
  obtain ⟨c, x, hx, hc, -⟩ := print_head escape hv
  obtain ⟨d, y, hy, hd, -⟩ := print_head escape' hw
  rw [hx, hy] at h
  have hcd : c = d := (List.cons.inj h).1
  rw [← hc, ← hd, hcd]

/-- Two numbers are read up to where they stop. -/
theorem number_inj {a b r r' : Str} (ha : a.all isNumberChar = true)
    (hb : b.all isNumberChar = true) (hr : Stops r) (hr' : Stops r')
    (h : a ++ r = b ++ r') : a = b ∧ r = r' := by
  have hspan : ∀ {l s : Str}, l.all isNumberChar = true → Stops s →
      (l ++ s).takeWhile isNumberChar = l := by
    intro l s hl hs
    induction l with
    | nil =>
        cases s with
        | nil => rfl
        | cons c rest => simp [hs c rfl]
    | cons c l ih =>
        simp only [List.all_cons, Bool.and_eq_true] at hl
        rw [List.cons_append, List.takeWhile_cons_of_pos hl.1, ih hl.2]
  have hab : a = b := by rw [← hspan ha hr, h, hspan hb hr']
  subst hab
  exact ⟨rfl, List.append_cancel_left h⟩

/-- A string literal is read up to its closing quote. -/
theorem printText_inj {escape escape' : Char → Str} (he : Readable escape)
    (he' : Readable escape') {s s' r r' : Str}
    (h : printText escape s ++ r = printText escape' s' ++ r') : s = s' ∧ r = r' := by
  have hbody : s.flatMap escape ++ '"' :: r = s'.flatMap escape' ++ '"' :: r' := by
    have htail := (List.cons.inj h).2
    simpa using htail
  clear h
  induction s generalizing s' with
  | nil =>
      cases s' with
      | nil => exact ⟨rfl, (List.cons.inj hbody).2⟩
      | cons c' s' =>
          have hread := congrArg readChar hbody
          rw [List.flatMap_cons, List.append_assoc, he'] at hread
          cases hread
  | cons c s ih =>
      cases s' with
      | nil =>
          have hread := congrArg readChar hbody
          rw [List.flatMap_cons, List.append_assoc, he] at hread
          cases hread
      | cons c' s' =>
          have hread := congrArg readChar hbody
          rw [List.flatMap_cons, List.append_assoc, he, List.flatMap_cons, List.append_assoc,
            he'] at hread
          obtain ⟨rfl, hrest⟩ := Prod.mk.inj (Option.some.inj hread)
          obtain ⟨rfl, rfl⟩ := ih hrest
          exact ⟨rfl, rfl⟩

section

variable {escape escape' : Char → Str}

theorem finite_cons_item {x : JsonValue} {xs : List JsonValue}
    (h : finiteItems (x :: xs) = true) : finite x = true ∧ finiteItems xs = true := by
  simpa only [finiteItems, Bool.and_eq_true] using h

theorem finite_cons_member {k : Str} {x : JsonValue} {xs : Members}
    (h : finiteMembers ((k, x) :: xs) = true) : finite x = true ∧ finiteMembers xs = true := by
  simpa only [finiteMembers, Bool.and_eq_true] using h

theorem stops_printItems {r : Str} (items : List JsonValue) :
    Stops (printItems escape items ++ r) := by
  cases items with
  | nil => exact stops_cons (by decide)
  | cons item rest => exact stops_cons (by decide)

theorem stops_printMembers {r : Str} (members : Members) :
    Stops (printMembers escape members ++ r) := by
  cases members with
  | nil => exact stops_cons (by decide)
  | cons member rest => exact stops_cons (by decide)

mutual

/-- **The text determines the value**, whichever of two escapings wrote it. -/
theorem print_inj (he : Readable escape) (he' : Readable escape') :
    ∀ (v w : JsonValue), finite v = true → finite w = true → ∀ r r' : Str, Stops r →
      Stops r' → print escape v ++ r = print escape' w ++ r' → v = w ∧ r = r'
  | .null, w, hv, hw, r, r', _, _, h => by
      have hshape := shape_eq_of_print hv hw h
      cases w with
      | null => exact ⟨rfl, List.append_cancel_left h⟩
      | bool b => cases b <;> cases hshape
      | _ => cases hshape
  | .bool b, w, hv, hw, r, r', _, _, h => by
      have hshape := shape_eq_of_print hv hw h
      cases w with
      | bool b' =>
          cases b <;> cases b' <;> first
            | exact ⟨rfl, List.append_cancel_left h⟩
            | cases hshape
      | _ => cases b <;> cases hshape
  | .number a, w, hv, hw, r, r', hr, hr', h => by
      have hshape := shape_eq_of_print hv hw h
      cases w with
      | number b =>
          simp only [finite, isNumberLiteral, Bool.and_eq_true] at hv hw
          obtain ⟨rfl, rfl⟩ := number_inj hv.2 hw.2 hr hr' h
          exact ⟨rfl, rfl⟩
      | bool b => cases b <;> cases hshape
      | _ => cases hshape
  | .text s, w, hv, hw, r, r', _, _, h => by
      have hshape := shape_eq_of_print hv hw h
      cases w with
      | text s' =>
          obtain ⟨rfl, rfl⟩ := printText_inj he he' h
          exact ⟨rfl, rfl⟩
      | bool b => cases b <;> cases hshape
      | _ => cases hshape
  | .array [], w, hv, hw, r, r', _, _, h => by
      have hshape := shape_eq_of_print hv hw h
      cases w with
      | array items =>
          cases items with
          | nil => exact ⟨rfl, List.append_cancel_left h⟩
          | cons item rest =>
              obtain ⟨hitem, -⟩ := finite_cons_item hw
              obtain ⟨c, x, hx, -, hc⟩ := print_head escape' hitem
              simp only [print, hx, List.cons_append, List.cons.injEq] at h
              exact absurd h.2.1.symm hc
      | bool b => cases b <;> cases hshape
      | _ => cases hshape
  | .array (x :: xs), w, hv, hw, r, r', _, _, h => by
      have hshape := shape_eq_of_print hv hw h
      obtain ⟨hx, hxs⟩ := finite_cons_item hv
      cases w with
      | array items =>
          cases items with
          | nil =>
              obtain ⟨c, z, hz, -, hc⟩ := print_head escape hx
              simp only [print, hz, List.cons_append, List.cons.injEq] at h
              exact absurd h.2.1 hc
          | cons y ys =>
              obtain ⟨hy, hys⟩ := finite_cons_item hw
              simp only [print, List.cons_append, List.append_assoc, List.cons.injEq,
                true_and] at h
              obtain ⟨rfl, hrest⟩ := print_inj he he' x y hx hy _ _ (stops_printItems xs)
                (stops_printItems ys) h
              obtain ⟨rfl, rfl⟩ := printItems_inj he he' xs ys hxs hys r r' hrest
              exact ⟨rfl, rfl⟩
      | bool b => cases b <;> cases hshape
      | _ => cases hshape
  | .object [], w, hv, hw, r, r', _, _, h => by
      have hshape := shape_eq_of_print hv hw h
      cases w with
      | object members =>
          cases members with
          | nil => exact ⟨rfl, List.append_cancel_left h⟩
          | cons member rest =>
              have hbrace := (List.cons.inj (List.cons.inj h).2).1
              exact absurd hbrace (by decide)
      | bool b => cases b <;> cases hshape
      | _ => cases hshape
  | .object ((k, x) :: xs), w, hv, hw, r, r', _, _, h => by
      have hshape := shape_eq_of_print hv hw h
      obtain ⟨hx, hxs⟩ := finite_cons_member (k := k) hv
      cases w with
      | object members =>
          cases members with
          | nil =>
              have hbrace := (List.cons.inj (List.cons.inj h).2).1
              exact absurd hbrace (by decide)
          | cons member ys =>
              obtain ⟨k', y⟩ := member
              obtain ⟨hy, hys⟩ := finite_cons_member (k := k') hw
              simp only [print, List.cons_append, List.append_assoc, List.cons.injEq,
                true_and] at h
              obtain ⟨rfl, hvalue⟩ := printText_inj he he' h
              have hvalue' := (List.cons.inj hvalue).2
              obtain ⟨rfl, hrest⟩ := print_inj he he' x y hx hy _ _ (stops_printMembers xs)
                (stops_printMembers ys) hvalue'
              obtain ⟨rfl, rfl⟩ := printMembers_inj he he' xs ys hxs hys r r' hrest
              exact ⟨rfl, rfl⟩
      | bool b => cases b <;> cases hshape
      | _ => cases hshape

/-- Items are read back off their text, whatever follows. -/
theorem printItems_inj (he : Readable escape) (he' : Readable escape') :
    ∀ (xs ys : List JsonValue), finiteItems xs = true → finiteItems ys = true →
      ∀ r r' : Str, printItems escape xs ++ r = printItems escape' ys ++ r' →
        xs = ys ∧ r = r'
  | [], ys, _, _, r, r', h => by
      cases ys with
      | nil => exact ⟨rfl, (List.cons.inj h).2⟩
      | cons y ys => exact absurd (List.cons.inj h).1 (by decide)
  | x :: xs, ys, hxs, hys, r, r', h => by
      cases ys with
      | nil => exact absurd (List.cons.inj h).1 (by decide)
      | cons y ys =>
          obtain ⟨hx, hxs⟩ := finite_cons_item hxs
          obtain ⟨hy, hys'⟩ := finite_cons_item hys
          simp only [printItems, List.cons_append, List.append_assoc, List.cons.injEq,
            true_and] at h
          obtain ⟨rfl, hrest⟩ := print_inj he he' x y hx hy _ _ (stops_printItems xs)
            (stops_printItems ys) h
          obtain ⟨rfl, rfl⟩ := printItems_inj he he' xs ys hxs hys' r r' hrest
          exact ⟨rfl, rfl⟩

/-- Members are read back off their text, whatever follows. -/
theorem printMembers_inj (he : Readable escape) (he' : Readable escape') :
    ∀ (xs ys : Members), finiteMembers xs = true → finiteMembers ys = true →
      ∀ r r' : Str, printMembers escape xs ++ r = printMembers escape' ys ++ r' →
        xs = ys ∧ r = r'
  | [], ys, _, _, r, r', h => by
      cases ys with
      | nil => exact ⟨rfl, (List.cons.inj h).2⟩
      | cons y ys => exact absurd (List.cons.inj h).1 (by decide)
  | (k, x) :: xs, ys, hxs, hys, r, r', h => by
      cases ys with
      | nil => exact absurd (List.cons.inj h).1 (by decide)
      | cons member ys =>
          obtain ⟨k', y⟩ := member
          obtain ⟨hx, hxs⟩ := finite_cons_member hxs
          obtain ⟨hy, hys'⟩ := finite_cons_member hys
          simp only [printMembers, List.cons_append, List.append_assoc, List.cons.injEq,
            true_and] at h
          obtain ⟨rfl, hvalue⟩ := printText_inj he he' h
          have hvalue' := (List.cons.inj hvalue).2
          obtain ⟨rfl, hrest⟩ := print_inj he he' x y hx hy _ _ (stops_printMembers xs)
            (stops_printMembers ys) hvalue'
          obtain ⟨rfl, rfl⟩ := printMembers_inj he he' xs ys hxs hys' r r' hrest
          exact ⟨rfl, rfl⟩

end

end

/-- Two values written whole, by either encoder. -/
theorem eq_of_print_eq {escape escape' : Char → Str} (he : Readable escape)
    (he' : Readable escape') {v w : JsonValue} (hv : finite v = true) (hw : finite w = true)
    (h : print escape v = print escape' w) : v = w := by
  refine (print_inj he he' v w hv hw [] [] stops_nil stops_nil ?_).1
  rw [List.append_nil, List.append_nil]
  exact h

end JsonValue
