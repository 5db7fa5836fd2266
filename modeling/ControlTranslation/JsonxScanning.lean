import ControlTranslation.JsonxOrdered

/-!
# The scanner on encoded trees

What the encoder writes is a text the scanner goes through: strings, the numbers
that are valid, and containers within the limit.  After a number the scanner may
still be inside it, so `Ready` says of a scanner that it will take the next
character as the end of a value.

From this follow, for every encoded tree within the limit, the three facts the
encoder and the decoder rest on: the text is valid, compacting it changes nothing,
and the text of a value is cut out whole from what follows it.
-/

namespace Jsonx

open PyText GoScanner JsonValue

/-- `Marshal`, but for the errors. -/
def encode (value : JsonValue) : Str := GoText.marshal value

mutual

/-- Every number of a tree is a valid literal. -/
def wellNumbered : JsonValue → Bool
  | .number literal => isValidNumber literal
  | .array items => wellNumberedItems items
  | .object members => wellNumberedMembers members
  | _ => true

/-- `wellNumbered` of every item. -/
def wellNumberedItems : List JsonValue → Bool
  | [] => true
  | item :: rest => wellNumbered item && wellNumberedItems rest

/-- `wellNumbered` of every member's value. -/
def wellNumberedMembers : List (Str × JsonValue) → Bool
  | [] => true
  | (_, value) :: rest => wellNumbered value && wellNumberedMembers rest

end

mutual

/-- How deep the containers of a tree nest. -/
def depth : JsonValue → Nat
  | .array items => depthItems items + 1
  | .object members => depthMembers members + 1
  | _ => 0

/-- The depth of the deepest item. -/
def depthItems : List JsonValue → Nat
  | [] => 0
  | item :: rest => max (depth item) (depthItems rest)

/-- The depth of the deepest member. -/
def depthMembers : List (Str × JsonValue) → Nat
  | [] => 0
  | (_, value) :: rest => max (depth value) (depthMembers rest)

end

/-- The items after the first. -/
def itemsTail (items : List JsonValue) : Str := items.flatMap fun item => ',' :: encode item

/-- One member. -/
def memberText (member : Str × JsonValue) : Str :=
  printText GoText.encodeChar member.1 ++ ':' :: encode member.2

/-- The members after the first. -/
def membersTail (members : Members) : Str := members.flatMap fun member => ',' :: memberText member

/-- What stands between the brackets of an array. -/
def itemsBody : List JsonValue → Str
  | [] => []
  | item :: rest => encode item ++ itemsTail rest

/-- What stands between the braces of an object. -/
def membersBody : Members → Str
  | [] => []
  | member :: rest => memberText member ++ membersTail rest

theorem printItems_eq (items : List JsonValue) :
    printItems GoText.encodeChar items = itemsTail items ++ [']'] := by
  induction items with
  | nil => rfl
  | cons item rest ih =>
      rw [printItems, ih]
      simp [itemsTail, encode, GoText.marshal]

theorem printMembers_eq (members : Members) :
    printMembers GoText.encodeChar members = membersTail members ++ ['}'] := by
  induction members with
  | nil => rfl
  | cons member rest ih =>
      obtain ⟨key, value⟩ := member
      rw [printMembers, ih]
      simp [membersTail, memberText, encode, GoText.marshal]

theorem encode_array (items : List JsonValue) :
    encode (.array items) = '[' :: (itemsBody items ++ [']']) := by
  cases items with
  | nil => rfl
  | cons item rest =>
      rw [encode, GoText.marshal, print, printItems_eq]
      simp [itemsBody, encode, GoText.marshal]

theorem encode_object (members : Members) :
    encode (.object members) = '{' :: (membersBody members ++ ['}']) := by
  cases members with
  | nil => rfl
  | cons member rest =>
      obtain ⟨key, value⟩ := member
      rw [encode, GoText.marshal, print, printMembers_eq]
      simp [membersBody, memberText, encode, GoText.marshal]

section

variable {limit : Nat} {stack : List ParseState}

theorem plain_scanContinue (s : Scanner) : Plain (s, .scanContinue) := by simp [Plain]

theorem plain_scanBeginLiteral (s : Scanner) : Plain (s, .scanBeginLiteral) := by simp [Plain]

theorem isHexDigit_hexLower : ∀ n < 16, isHexDigit (hexLower n) = true := by decide

/-- Four hexadecimal digits after `\u`. -/
theorem through_hex {a b c d : Char} (ha : isHexDigit a = true) (hb : isHexDigit b = true)
    (hc : isHexDigit c = true) (hd : isHexDigit d = true) :
    Through limit ⟨.inString, stack⟩ ['\\', 'u', a, b, c, d] ⟨.inString, stack⟩ := by
  refine through_cons rfl (plain_scanContinue _) (through_cons rfl (plain_scanContinue _) ?_)
  refine through_cons (if_pos ha) (plain_scanContinue _) ?_
  refine through_cons (if_pos hb) (plain_scanContinue _) ?_
  refine through_cons (if_pos hc) (plain_scanContinue _) ?_
  exact through_cons (if_pos hd) (plain_scanContinue _) rfl

/-- A letter after a backslash. -/
theorem through_escape {c : Char} (h : isEscape c = true) :
    Through limit ⟨.inString, stack⟩ ['\\', c] ⟨.inString, stack⟩ :=
  through_cons rfl (plain_scanContinue _)
    (through_cons (if_pos h) (plain_scanContinue _) rfl)

/-- A character of a string, as the encoder writes it. -/
theorem through_char (c : Char) :
    Through limit ⟨.inString, stack⟩ (GoText.encodeChar c) ⟨.inString, stack⟩ := by
  unfold GoText.encodeChar
  split_ifs
  · exact through_hex (by decide) (by decide) (by decide) (by decide)
  · exact through_hex (by decide) (by decide) (by decide) (by decide)
  unfold escapeChar
  split_ifs with hquote hslash h₁ h₂ h₃ h₄ h₅ hcontrol
  · exact through_escape rfl
  · exact through_escape rfl
  · exact through_escape rfl
  · exact through_escape rfl
  · exact through_escape rfl
  · exact through_escape rfl
  · exact through_escape rfl
  · exact through_hex (by decide) (by decide) (isHexDigit_hexLower _ (by omega))
      (isHexDigit_hexLower _ (by omega))
  · refine through_cons ?_ (plain_scanContinue ⟨.inString, stack⟩) rfl
    exact (if_neg hquote).trans ((if_neg hslash).trans (if_neg hcontrol))

/-- The rest of a string literal, after its quote. -/
theorem through_string (s : Str) :
    Through limit ⟨.inString, stack⟩ (s.flatMap GoText.encodeChar ++ ['"'])
      ⟨.endValue, stack⟩ := by
  induction s with
  | nil => exact through_cons rfl (plain_scanContinue _) rfl
  | cons c rest ih =>
      rw [List.flatMap_cons, List.append_assoc]
      exact through_append (through_char c) ih

/-- The scanner takes the next character as the end of a value, unless it
continues a number. -/
structure Ready (limit : Nat) (s : Scanner) (stack : List ParseState) : Prop where
  inside : s.parseState = stack
  ends : ∀ c, isNumberChar c = false → step limit s c = endValue ⟨.endValue, stack⟩ c

theorem ready_endValue : Ready limit ⟨.endValue, stack⟩ stack := ⟨rfl, fun _ _ => rfl⟩

/-- The states a number can end in. -/
def EndsNumber (state : State) : Prop :=
  state = .num0 ∨ state = .num1 ∨ state = .dot0 ∨ state = .exp0

/-- A number may end where it can go on no more. -/
theorem ready_number {state : State} (h : EndsNumber state) :
    Ready limit ⟨state, stack⟩ stack := by
  refine ⟨rfl, fun c hc => ?_⟩
  simp only [isNumberChar, Bool.or_eq_false_iff, beq_eq_false_iff_ne] at hc
  obtain ⟨⟨⟨⟨⟨hdigit, -⟩, -⟩, hdot⟩, he⟩, hE⟩ := hc
  have hexp : ¬(c = 'e' ∨ c = 'E') := by simp [he, hE]
  have hdigit : ¬c.isDigit = true := by simp [hdigit]
  rcases h with rfl | rfl | rfl | rfl
  · exact (if_neg hdot).trans (if_neg hexp)
  · exact (if_neg hdigit).trans ((if_neg hdot).trans (if_neg hexp))
  · exact (if_neg hdigit).trans (if_neg hexp)
  · exact if_neg hdigit

section

variable {c : Char} (hc : c.isDigit = true)

include hc

theorem step_num1 : step limit ⟨.num1, stack⟩ c = (⟨.num1, stack⟩, .scanContinue) := if_pos hc

theorem step_dot0 : step limit ⟨.dot0, stack⟩ c = (⟨.dot0, stack⟩, .scanContinue) := if_pos hc

theorem step_exp0 : step limit ⟨.exp0, stack⟩ c = (⟨.exp0, stack⟩, .scanContinue) := if_pos hc

theorem step_expSign : step limit ⟨.expSign, stack⟩ c = (⟨.exp0, stack⟩, .scanContinue) :=
  if_pos hc

theorem step_exp : step limit ⟨.exp, stack⟩ c = (⟨.exp0, stack⟩, .scanContinue) := by
  refine (if_neg ?_).trans (if_pos hc)
  rintro (rfl | rfl)
  · cases hc
  · cases hc

end

/-- A state that takes digits takes those a text begins with. -/
theorem through_digits {state : State}
    (hstate : ∀ c, c.isDigit = true →
      step limit ⟨state, stack⟩ c = (⟨state, stack⟩, .scanContinue))
    {s : Str} {last : Scanner}
    (h : Through limit ⟨state, stack⟩ (s.dropWhile Char.isDigit) last) :
    Through limit ⟨state, stack⟩ s last := by
  induction s with
  | nil => exact h
  | cons d rest ih =>
      by_cases hd : d.isDigit = true
      · rw [List.dropWhile_cons_of_pos hd] at h
        exact through_cons (hstate d hd) (plain_scanContinue _) (ih h)
      · rwa [List.dropWhile_cons_of_neg hd] at h

/-- Digits that end a text, after one of them. -/
theorem through_last_digits {start : State}
    (hstart : ∀ c, c.isDigit = true →
      step limit ⟨start, stack⟩ c = (⟨.exp0, stack⟩, .scanContinue))
    {d : Char} {rest : Str} (h : (d :: rest).dropWhile Char.isDigit = []) :
    Through limit ⟨start, stack⟩ (d :: rest) ⟨.exp0, stack⟩ := by
  have hd : d.isDigit = true := by
    by_contra hd
    rw [List.dropWhile_cons_of_neg hd] at h
    cases h
  rw [List.dropWhile_cons_of_pos hd] at h
  refine through_cons (hstart d hd) (plain_scanContinue _) ?_
  refine through_digits (fun _ => step_exp0) ?_
  rw [h]
  rfl

/-- From the end of a number's integer or fraction through its exponent. -/
theorem through_exponent {state : State}
    (hstate : state = .num0 ∨ state = .num1 ∨ state = .dot0) {s : Str}
    (h : afterExponent s = some []) :
    ∃ last, Through limit ⟨state, stack⟩ s ⟨last, stack⟩ ∧ EndsNumber last := by
  have hends : EndsNumber state := by
    rcases hstate with rfl | rfl | rfl
    · exact .inl rfl
    · exact .inr (.inl rfl)
    · exact .inr (.inr (.inl rfl))
  match s, h with
  | [], _ => exact ⟨state, rfl, hends⟩
  | e :: c :: rest, h =>
      simp only [afterExponent] at h
      by_cases he : e = 'e' ∨ e = 'E'
      · rw [if_pos he] at h
        have hfirst : step limit ⟨state, stack⟩ e = (⟨.exp, stack⟩, .scanContinue) := by
          rcases hstate with rfl | rfl | rfl <;> rcases he with rfl | rfl <;> rfl
        refine ⟨.exp0, through_cons hfirst (plain_scanContinue _) ?_, .inr (.inr (.inr rfl))⟩
        by_cases hsign : c = '+' ∨ c = '-'
        · rw [if_pos hsign] at h
          cases rest with
          | nil => cases h
          | cons d rest =>
              refine through_cons (if_pos hsign) (plain_scanContinue _) ?_
              exact through_last_digits (fun _ => step_expSign) (Option.some.inj h)
        · rw [if_neg hsign] at h
          exact through_last_digits (fun _ => step_exp) (Option.some.inj h)
      · rw [if_neg he] at h
        cases h

/-- From the end of a number's integer through the rest of it. -/
theorem through_fraction {state : State} (hstate : state = .num0 ∨ state = .num1) {s : Str}
    (h : afterExponent (afterFraction s) = some []) :
    ∃ last, Through limit ⟨state, stack⟩ s ⟨last, stack⟩ ∧ EndsNumber last := by
  have hplain : state = .num0 ∨ state = .num1 ∨ state = .dot0 :=
    hstate.imp_right .inl
  unfold afterFraction at h
  split at h
  · rename_i d rest
    by_cases hd : d.isDigit = true
    · rw [if_pos hd] at h
      obtain ⟨last, hlast, hends⟩ := through_exponent (.inr (.inr rfl)) h
      refine ⟨last, ?_, hends⟩
      have hdot : step limit ⟨state, stack⟩ '.' = (⟨.dot, stack⟩, .scanContinue) := by
        rcases hstate with rfl | rfl <;> rfl
      refine through_cons hdot (plain_scanContinue _) ?_
      refine through_cons (if_pos hd) (plain_scanContinue _) ?_
      exact through_digits (fun _ => step_dot0) hlast
    · rw [if_neg hd] at h
      exact through_exponent hplain h
  · exact through_exponent hplain h

/-- From the first digit of a number through the rest of it. -/
theorem through_integer {s : Str} {start : State}
    (hzero : step limit ⟨start, stack⟩ '0' = (⟨.num0, stack⟩, .scanBeginLiteral) ∨
      step limit ⟨start, stack⟩ '0' = (⟨.num0, stack⟩, .scanContinue))
    (hdigit : ∀ c, isPositiveDigit c = true →
      step limit ⟨start, stack⟩ c = (⟨.num1, stack⟩, .scanBeginLiteral) ∨
        step limit ⟨start, stack⟩ c = (⟨.num1, stack⟩, .scanContinue))
    {rest : Str} (hrest : afterInteger s = some rest)
    (h : afterExponent (afterFraction rest) = some []) :
    ∃ last, Through limit ⟨start, stack⟩ s ⟨last, stack⟩ ∧ EndsNumber last := by
  cases s with
  | nil => cases hrest
  | cons c s =>
      simp only [afterInteger] at hrest
      by_cases hc : c = '0'
      · rw [if_pos hc] at hrest
        obtain rfl := Option.some.inj hrest
        obtain ⟨last, hlast, hends⟩ := through_fraction (.inl rfl) h
        refine ⟨last, ?_, hends⟩
        rw [hc]
        rcases hzero with hstep | hstep
        · exact through_cons hstep (plain_scanBeginLiteral _) hlast
        · exact through_cons hstep (plain_scanContinue _) hlast
      · rw [if_neg hc] at hrest
        by_cases hpositive : isPositiveDigit c = true
        · rw [if_pos hpositive] at hrest
          obtain rfl := Option.some.inj hrest
          obtain ⟨last, hlast, hends⟩ := through_fraction (.inr rfl) h
          refine ⟨last, ?_, hends⟩
          have hall := through_digits (fun _ => step_num1) hlast
          rcases hdigit c hpositive with hstep | hstep
          · exact through_cons hstep (plain_scanBeginLiteral _) hall
          · exact through_cons hstep (plain_scanContinue _) hall
        · rw [if_neg hpositive] at hrest
          cases hrest

/-- The digits but zero are none of the other characters a value begins with. -/
theorem beginValue_digit {c : Char} (h : isPositiveDigit c = true) :
    step limit ⟨.beginValue, stack⟩ c = (⟨.num1, stack⟩, .scanBeginLiteral) := by
  have hne : ∀ d : Char, isPositiveDigit d = false → c ≠ d := by
    rintro d hd rfl
    rw [h] at hd
    cases hd
  have hspace : GoScanner.isSpace c = false := by
    simp only [GoScanner.isSpace, Bool.or_eq_false_iff, beq_eq_false_iff_ne]
    exact ⟨⟨⟨hne _ rfl, hne _ rfl⟩, hne _ rfl⟩, hne _ rfl⟩
  change beginValue limit ⟨.beginValue, stack⟩ c = _
  unfold beginValue
  rw [if_neg (by simp [hspace]), if_neg (hne _ rfl), if_neg (hne _ rfl), if_neg (hne _ rfl),
    if_neg (hne _ rfl), if_neg (hne _ rfl), if_neg (hne _ rfl), if_neg (hne _ rfl),
    if_neg (hne _ rfl), if_pos h]
  rfl

/-- A valid number. -/
theorem through_number {literal : Str} (h : isValidNumber literal = true) :
    ∃ last, Through limit ⟨.beginValue, stack⟩ literal ⟨last, stack⟩ ∧ EndsNumber last := by
  unfold isValidNumber at h
  split at h
  · cases h
  · rename_i rest hinteger
    have hrest := eq_of_beq h
    unfold afterMinus at hinteger
    split at hinteger
    · have hdigit : ∀ c, isPositiveDigit c = true →
          step limit ⟨.neg, stack⟩ c = (⟨.num1, stack⟩, .scanContinue) := by
        intro c hc
        refine (if_neg ?_).trans (if_pos hc)
        rintro rfl
        cases hc
      obtain ⟨last, hlast, hends⟩ :=
        through_integer (.inr rfl) (fun c hc => .inr (hdigit c hc)) hinteger hrest
      exact ⟨last, through_cons rfl (plain_scanBeginLiteral _) hlast, hends⟩
    · exact through_integer (.inl rfl) (fun c hc => .inl (beginValue_digit hc)) hinteger hrest

/-- The scanner is inside no value. -/
def isScalar : JsonValue → Bool
  | .array _ => false
  | .object _ => false
  | _ => true

theorem through_scalar {v : JsonValue} (hscalar : isScalar v = true)
    (hv : wellNumbered v = true) :
    ∃ last, Through limit ⟨.beginValue, stack⟩ (encode v) last ∧ Ready limit last stack := by
  have hend := @ready_endValue limit stack
  cases v with
  | null =>
      refine ⟨_, through_cons rfl (plain_scanBeginLiteral _) ?_, hend⟩
      refine through_cons rfl (plain_scanContinue _) (through_cons rfl (plain_scanContinue _) ?_)
      exact through_cons rfl (plain_scanContinue _) rfl
  | bool b =>
      cases b with
      | true =>
          refine ⟨_, through_cons rfl (plain_scanBeginLiteral _) ?_, hend⟩
          refine through_cons rfl (plain_scanContinue _) ?_
          refine through_cons rfl (plain_scanContinue _) ?_
          exact through_cons rfl (plain_scanContinue _) rfl
      | false =>
          refine ⟨_, through_cons rfl (plain_scanBeginLiteral _) ?_, hend⟩
          refine through_cons rfl (plain_scanContinue _) ?_
          refine through_cons rfl (plain_scanContinue _) ?_
          refine through_cons rfl (plain_scanContinue _) ?_
          exact through_cons rfl (plain_scanContinue _) rfl
  | number literal =>
      obtain ⟨last, hlast, hends⟩ := through_number hv
      exact ⟨_, hlast, ready_number hends⟩
  | text s => exact ⟨_, through_cons rfl (plain_scanBeginLiteral _) (through_string s), hend⟩
  | array items => cases hscalar
  | object members => cases hscalar

/-- What begins a value begins the first of an array. -/
theorem through_first {text : Str} {last : Scanner} (hne : text ≠ [])
    (h : Through limit ⟨.beginValue, stack⟩ text last) :
    Through limit ⟨.beginValueOrEmpty, stack⟩ text last := by
  cases text with
  | nil => exact absurd rfl hne
  | cons c rest =>
      have hspace : ¬GoScanner.isSpace c = true := by
        intro hspace
        have hstep : step limit ⟨.beginValue, stack⟩ c = (⟨.beginValue, stack⟩, .scanSkipSpace) :=
          if_pos hspace
        have hplain := h.1.2.1
        rw [hstep] at hplain
        exact hplain rfl
      have hbracket : c ≠ ']' := by
        rintro rfl
        exact h.1.1 rfl
      have hsame : step limit ⟨.beginValueOrEmpty, stack⟩ c =
          step limit ⟨.beginValue, stack⟩ c := by
        refine (if_neg hspace).trans ((if_neg hbracket).trans ?_)
        refine (if_neg hspace).trans (Eq.symm ((if_neg hspace).trans ?_))
        rfl
      change Plain _ ∧ Through _ _ _ _
      rw [hsame]
      exact h

theorem encode_ne_nil {v : JsonValue} (hv : wellNumbered v = true) : encode v ≠ [] := by
  cases v with
  | bool b => cases b <;> exact List.cons_ne_nil _ _
  | number literal =>
      intro h
      obtain rfl : literal = [] := h
      cases hv
  | array items =>
      rw [encode_array]
      exact List.cons_ne_nil _ _
  | object members =>
      rw [encode_object]
      exact List.cons_ne_nil _ _
  | _ => exact List.cons_ne_nil _ _

/-- A key and its colon, from where a key can begin. -/
theorem through_key {s : Scanner}
    (hs : step limit s '"' = (⟨.inString, .objectKey :: stack⟩, .scanBeginLiteral)) (key : Str) :
    Through limit s (printText GoText.encodeChar key ++ [':'])
      ⟨.beginValue, .objectValue :: stack⟩ := by
  refine through_append (through_cons hs (plain_scanBeginLiteral _) (through_string key)) ?_
  exact through_cons rfl (by simp [Plain]) rfl

/-- A closing bracket inside another container. -/
theorem through_close {s : Scanner} {c : Char} {op : Op} (hstack : stack ≠ [])
    (h : step limit s c = (popped stack, op)) (hop : op = .scanEndObject ∨ op = .scanEndArray) :
    Through limit s [c] ⟨.endValue, stack⟩ := by
  have hpopped : popped stack = ⟨.endValue, stack⟩ := by
    cases stack with
    | nil => exact absurd rfl hstack
    | cons inside outer => rfl
  rw [hpopped] at h
  refine through_cons h ?_ rfl
  rcases hop with rfl | rfl
  · exact ⟨by simp, by simp, by simp, fun _ => hstack⟩
  · exact ⟨by simp, by simp, by simp, fun _ => hstack⟩

end

section

variable {limit : Nat}

mutual

/-- The scanner goes through an encoded value inside a container. -/
theorem through_value : ∀ (v : JsonValue) (stack : List ParseState), wellNumbered v = true →
    stack ≠ [] → depth v + stack.length ≤ limit →
      ∃ last, Through limit ⟨.beginValue, stack⟩ (encode v) last ∧ Ready limit last stack
  | .array items, stack, hv, hstack, hdepth => by
      simp only [wellNumbered, depth] at hv hdepth
      have hopen : step limit ⟨.beginValue, stack⟩ '[' =
          (⟨.beginValueOrEmpty, .arrayValue :: stack⟩, .scanBeginArray) :=
        if_pos (by dsimp only; omega)
      obtain ⟨last, hlast, hclose⟩ := through_itemsBody items stack hv (by omega)
      refine ⟨⟨.endValue, stack⟩, ?_, ready_endValue⟩
      rw [encode_array]
      exact through_cons hopen (by simp [Plain])
        (through_append hlast (through_close hstack hclose (.inr rfl)))
  | .object members, stack, hv, hstack, hdepth => by
      simp only [wellNumbered, depth] at hv hdepth
      have hopen : step limit ⟨.beginValue, stack⟩ '{' =
          (⟨.beginStringOrEmpty, .objectKey :: stack⟩, .scanBeginObject) :=
        if_pos (by dsimp only; omega)
      obtain ⟨last, hlast, hclose⟩ := through_membersBody members stack hv (by omega)
      refine ⟨⟨.endValue, stack⟩, ?_, ready_endValue⟩
      rw [encode_object]
      exact through_cons hopen (by simp [Plain])
        (through_append hlast (through_close hstack hclose (.inl rfl)))
  | .null, _, hv, _, _ => through_scalar rfl hv
  | .bool _, _, hv, _, _ => through_scalar rfl hv
  | .number _, _, hv, _, _ => through_scalar rfl hv
  | .text _, _, hv, _, _ => through_scalar rfl hv

/-- What stands between brackets, to the closing one. -/
theorem through_itemsBody : ∀ (items : List JsonValue) (stack : List ParseState),
    wellNumberedItems items = true → depthItems items + (stack.length + 1) ≤ limit →
      ∃ last, Through limit ⟨.beginValueOrEmpty, .arrayValue :: stack⟩ (itemsBody items) last ∧
        step limit last ']' = (popped stack, .scanEndArray)
  | [], _, _, _ => ⟨_, rfl, rfl⟩
  | item :: rest, stack, hv, hdepth => by
      simp only [wellNumberedItems, Bool.and_eq_true, depthItems] at hv hdepth
      obtain ⟨middle, hitem, hmiddle⟩ := through_value item (.arrayValue :: stack)
        hv.1 (List.cons_ne_nil _ _) (by rw [List.length_cons]; omega)
      obtain ⟨last, hrest, hlast⟩ := through_items rest stack hv.2 (by omega) hmiddle
      refine ⟨last, ?_, hlast.ends ']' rfl⟩
      exact through_append (through_first (encode_ne_nil hv.1) hitem) hrest

/-- The items after the first. -/
theorem through_items : ∀ (items : List JsonValue) (stack : List ParseState) {s : Scanner},
    wellNumberedItems items = true → depthItems items + (stack.length + 1) ≤ limit →
      Ready limit s (.arrayValue :: stack) →
        ∃ last, Through limit s (itemsTail items) last ∧ Ready limit last (.arrayValue :: stack)
  | [], _, s, _, _, hs => ⟨s, rfl, hs⟩
  | item :: rest, stack, s, hv, hdepth, hs => by
      simp only [wellNumberedItems, Bool.and_eq_true, depthItems] at hv hdepth
      obtain ⟨middle, hitem, hmiddle⟩ := through_value item (.arrayValue :: stack)
        hv.1 (List.cons_ne_nil _ _) (by rw [List.length_cons]; omega)
      obtain ⟨last, hrest, hlast⟩ := through_items rest stack hv.2 (by omega) hmiddle
      refine ⟨last, ?_, hlast⟩
      have hcomma : step limit s ',' = (⟨.beginValue, .arrayValue :: stack⟩, .scanArrayValue) :=
        hs.ends ',' rfl
      exact through_cons hcomma (by simp [Plain]) (through_append hitem hrest)

/-- What stands between braces, to the closing one. -/
theorem through_membersBody : ∀ (members : List (Str × JsonValue)) (stack : List ParseState),
    wellNumberedMembers members = true → depthMembers members + (stack.length + 1) ≤ limit →
      ∃ last, Through limit ⟨.beginStringOrEmpty, .objectKey :: stack⟩ (membersBody members)
          last ∧ step limit last '}' = (popped stack, .scanEndObject)
  | [], _, _, _ => ⟨_, rfl, rfl⟩
  | (key, value) :: rest, stack, hv, hdepth => by
      simp only [wellNumberedMembers, Bool.and_eq_true, depthMembers] at hv hdepth
      obtain ⟨middle, hvalue, hmiddle⟩ := through_value value (.objectValue :: stack)
        hv.1 (List.cons_ne_nil _ _) (by rw [List.length_cons]; omega)
      obtain ⟨last, hrest, hlast⟩ := through_members rest stack hv.2 (by omega) hmiddle
      refine ⟨last, ?_, hlast.ends '}' rfl⟩
      have hquote : step limit ⟨.beginStringOrEmpty, .objectKey :: stack⟩ '"' =
          (⟨.inString, .objectKey :: stack⟩, .scanBeginLiteral) := rfl
      have hmember := through_append (through_key hquote key) hvalue
      rw [List.append_assoc] at hmember
      exact through_append hmember hrest

/-- The members after the first. -/
theorem through_members : ∀ (members : List (Str × JsonValue)) (stack : List ParseState)
    {s : Scanner}, wellNumberedMembers members = true →
      depthMembers members + (stack.length + 1) ≤ limit →
      Ready limit s (.objectValue :: stack) →
        ∃ last, Through limit s (membersTail members) last ∧
          Ready limit last (.objectValue :: stack)
  | [], _, s, _, _, hs => ⟨s, rfl, hs⟩
  | (key, value) :: rest, stack, s, hv, hdepth, hs => by
      simp only [wellNumberedMembers, Bool.and_eq_true, depthMembers] at hv hdepth
      obtain ⟨middle, hvalue, hmiddle⟩ := through_value value (.objectValue :: stack)
        hv.1 (List.cons_ne_nil _ _) (by rw [List.length_cons]; omega)
      obtain ⟨last, hrest, hlast⟩ := through_members rest stack hv.2 (by omega) hmiddle
      refine ⟨last, ?_, hlast⟩
      have hcomma : step limit s ',' = (⟨.beginString, .objectKey :: stack⟩, .scanObjectValue) :=
        hs.ends ',' rfl
      have hquote : step limit ⟨.beginString, .objectKey :: stack⟩ '"' =
          (⟨.inString, .objectKey :: stack⟩, .scanBeginLiteral) := rfl
      have hmember := through_append (through_key hquote key) hvalue
      rw [List.append_assoc] at hmember
      exact through_cons hcomma (by simp [Plain]) (through_append hmember hrest)

end

/-- What the package says of a container's text: it is valid, compact, and cut out
whole from what follows. -/
structure Whole (limit : Nat) (text : Str) : Prop where
  valid : checkValid limit text = true
  compact : compact limit text = some text
  cut : ∀ rest, readValue limit (text ++ rest) = some (text, rest)

/-- A container is whole when the scanner goes from its opening to its closing. -/
theorem whole_of_through {first last : Char} {inner final : Scanner} {op op' : Op} {body : Str}
    (hopen : step limit .new first = (inner, op)) (hplain : Plain (inner, op))
    (hbody : Through limit inner body final)
    (hclose : step limit final last = (popped [], op'))
    (hop' : op' = .scanEndObject ∨ op' = .scanEndArray) :
    Whole limit (first :: (body ++ [last])) := by
  have hthrough : Through limit .new (first :: body) final := through_cons hopen hplain hbody
  constructor
  · change checkValidFrom limit .new ((first :: body) ++ [last]) = true
    rw [checkValidFrom_through hthrough, checkValidFrom, hclose]
    rcases hop' with rfl | rfl <;> rfl
  · change compactFrom limit .new ((first :: body) ++ [last]) = _
    rw [compactFrom_through hthrough, compactFrom, hclose]
    rcases hop' with rfl | rfl <;> rfl
  · intro rest
    change readValueFrom limit .new [] ((first :: (body ++ [last])) ++ rest) = _
    have hsplit : (first :: (body ++ [last])) ++ rest = (first :: body) ++ last :: rest := by
      simp
    rw [hsplit, readValueFrom_through hthrough, readValueFrom, hclose]
    rcases hop' with rfl | rfl <;> rfl

theorem whole_array {items : List JsonValue} (hv : wellNumberedItems items = true)
    (hdepth : depthItems items + 1 ≤ limit) : Whole limit (encode (.array items)) := by
  obtain ⟨last, hlast, hclose⟩ := through_itemsBody items [] hv hdepth
  have hopen : step limit .new '[' =
      (⟨.beginValueOrEmpty, [.arrayValue]⟩, .scanBeginArray) :=
    if_pos (Nat.lt_of_lt_of_le (Nat.succ_pos _) hdepth)
  rw [encode_array]
  exact whole_of_through hopen (by simp [Plain]) hlast hclose (.inr rfl)

theorem whole_object {members : Members} (hv : wellNumberedMembers members = true)
    (hdepth : depthMembers members + 1 ≤ limit) : Whole limit (encode (.object members)) := by
  obtain ⟨last, hlast, hclose⟩ := through_membersBody members [] hv hdepth
  have hopen : step limit .new '{' =
      (⟨.beginStringOrEmpty, [.objectKey]⟩, .scanBeginObject) :=
    if_pos (Nat.lt_of_lt_of_le (Nat.succ_pos _) hdepth)
  rw [encode_object]
  exact whole_of_through hopen (by simp [Plain]) hlast hclose (.inl rfl)

/-- After a value that is complete the scanner gives back what follows. -/
theorem readValueFrom_ready {s : Scanner} {taken rest : Str} (hs : Ready limit s [])
    (hrest : Stops rest) : readValueFrom limit s taken rest = some (taken, rest) := by
  cases rest with
  | nil =>
      rw [readValueFrom, hs.ends ' ' rfl]
      rfl
  | cons c rest =>
      rw [readValueFrom, hs.ends c (hrest c rfl)]
      rfl

/-- **Values are cut out whole.**  The text of an encoded value is what the package
reads as one, whatever follows that does not continue a number. -/
theorem readValue_encode {v : JsonValue} (hv : wellNumbered v = true) (hdepth : depth v ≤ limit)
    {rest : Str} (hrest : Stops rest) :
    readValue limit (encode v ++ rest) = some (encode v, rest) := by
  have hscalar : isScalar v = true →
      readValue limit (encode v ++ rest) = some (encode v, rest) := by
    intro hscalar
    obtain ⟨last, hlast, hready⟩ := @through_scalar limit [] v hscalar hv
    exact (readValueFrom_through hlast).trans (readValueFrom_ready hready hrest)
  cases v with
  | array items => exact (whole_array hv hdepth).cut rest
  | object members => exact (whole_object hv hdepth).cut rest
  | _ => exact hscalar rfl

end

end Jsonx
