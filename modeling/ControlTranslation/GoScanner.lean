import ControlTranslation.PyText

/-!
# The scanner of `encoding/json`

The package checks, compacts and cuts JSON text with one machine, which reads a
character at a time and keeps a stack of the containers it is inside.  A stack
that grows beyond a limit is an error.  The machine and the three loops over it
are written here as the package has them.

`Through` says that the machine reads a text without an error, white space or
the end of the value it is in.  The loops go through such a text alike:
`compact_through`, `readValue_through`.  A scanner with a smaller limit does the
same or fails, so a limit changes no answer.
-/

namespace GoScanner

open PyText

/-- The `step` of the scanner. -/
inductive State
  | beginValueOrEmpty
  | beginValue
  | beginStringOrEmpty
  | beginString
  | endValue
  | endTop
  | inString
  | inStringEsc
  /-- Inside `\u`, with some hexadecimal digits still to come. -/
  | inStringEscU (remaining : Nat)
  | neg
  | num1
  | num0
  | dot
  | dot0
  | exp
  | expSign
  | exp0
  /-- Inside `true`, `false` or `null`. -/
  | word (remaining : Str)
  | error
  deriving DecidableEq

/-- What the scanner is inside. -/
inductive ParseState
  | objectKey
  | objectValue
  | arrayValue
  deriving DecidableEq

/-- What a step says about its character. -/
inductive Op
  | scanContinue
  | scanBeginLiteral
  | scanBeginObject
  | scanObjectKey
  | scanObjectValue
  | scanEndObject
  | scanBeginArray
  | scanArrayValue
  | scanEndArray
  | scanSkipSpace
  | scanEnd
  | scanError
  deriving DecidableEq

/-- The scanner; the innermost container comes first. -/
structure Scanner where
  step : State
  parseState : List ParseState
  deriving DecidableEq

/-- `newScanner`. -/
def Scanner.new : Scanner := ⟨.beginValue, []⟩

/-- `isSpace`. -/
def isSpace (c : Char) : Bool := c == ' ' || c == '\t' || c == '\r' || c == '\n'

/-- `'1' <= c && c <= '9'`. -/
def isPositiveDigit (c : Char) : Bool := c.isDigit && c != '0'

/-- `s.error`. -/
def Scanner.fail (s : Scanner) : Scanner × Op := (⟨.error, s.parseState⟩, .scanError)

/-- The scanner in another state. -/
def Scanner.go (s : Scanner) (state : State) : Scanner := ⟨state, s.parseState⟩

/-- `pushParseState`. -/
def Scanner.push (limit : Nat) (s : Scanner) (state : State) (inside : ParseState) (op : Op) :
    Scanner × Op :=
  if s.parseState.length < limit then (⟨state, inside :: s.parseState⟩, op)
  else (⟨.error, inside :: s.parseState⟩, .scanError)

/-- `popParseState`, to what is left. -/
def popped (left : List ParseState) : Scanner :=
  ⟨if left.isEmpty then .endTop else .endValue, left⟩

/-- `stateEndTop`: the value is complete; more than white space is an error. -/
def endTop (c : Char) : Scanner × Op :=
  (⟨if isSpace c then .endTop else .error, []⟩, .scanEnd)

/-- `stateEndValue`. -/
def endValue (s : Scanner) (c : Char) : Scanner × Op :=
  match s.parseState with
  | [] => endTop c
  | inside :: outer =>
      if isSpace c then (s.go .endValue, .scanSkipSpace)
      else
        match inside with
        | .objectKey =>
            if c = ':' then (⟨.beginValue, .objectValue :: outer⟩, .scanObjectKey) else s.fail
        | .objectValue =>
            if c = ',' then (⟨.beginString, .objectKey :: outer⟩, .scanObjectValue)
            else if c = '}' then (popped outer, .scanEndObject)
            else s.fail
        | .arrayValue =>
            if c = ',' then (s.go .beginValue, .scanArrayValue)
            else if c = ']' then (popped outer, .scanEndArray)
            else s.fail

/-- `stateBeginValue`. -/
def beginValue (limit : Nat) (s : Scanner) (c : Char) : Scanner × Op :=
  if isSpace c then (s, .scanSkipSpace)
  else if c = '{' then s.push limit .beginStringOrEmpty .objectKey .scanBeginObject
  else if c = '[' then s.push limit .beginValueOrEmpty .arrayValue .scanBeginArray
  else if c = '"' then (s.go .inString, .scanBeginLiteral)
  else if c = '-' then (s.go .neg, .scanBeginLiteral)
  else if c = '0' then (s.go .num0, .scanBeginLiteral)
  else if c = 't' then (s.go (.word ['r', 'u', 'e']), .scanBeginLiteral)
  else if c = 'f' then (s.go (.word ['a', 'l', 's', 'e']), .scanBeginLiteral)
  else if c = 'n' then (s.go (.word ['u', 'l', 'l']), .scanBeginLiteral)
  else if isPositiveDigit c then (s.go .num1, .scanBeginLiteral)
  else s.fail

/-- `stateBeginString`. -/
def beginString (s : Scanner) (c : Char) : Scanner × Op :=
  if isSpace c then (s, .scanSkipSpace)
  else if c = '"' then (s.go .inString, .scanBeginLiteral)
  else s.fail

/-- `state0`. -/
def afterInteger (s : Scanner) (c : Char) : Scanner × Op :=
  if c = '.' then (s.go .dot, .scanContinue)
  else if c = 'e' ∨ c = 'E' then (s.go .exp, .scanContinue)
  else endValue s c

/-- `stateESign`. -/
def afterSign (s : Scanner) (c : Char) : Scanner × Op :=
  if c.isDigit then (s.go .exp0, .scanContinue) else s.fail

/-- The characters after a backslash but for `u`. -/
def isEscape (c : Char) : Bool :=
  c == 'b' || c == 'f' || c == 'n' || c == 'r' || c == 't' || c == '\\' || c == '/' || c == '"'

/-- `s.step(s, c)`. -/
def step (limit : Nat) (s : Scanner) (c : Char) : Scanner × Op :=
  match s.step with
  | .beginValueOrEmpty =>
      if isSpace c then (s, .scanSkipSpace)
      else if c = ']' then endValue s c
      else beginValue limit s c
  | .beginValue => beginValue limit s c
  | .beginStringOrEmpty =>
      if isSpace c then (s, .scanSkipSpace)
      else if c = '}' then endValue ⟨s.step, .objectValue :: s.parseState.tail⟩ c
      else beginString s c
  | .beginString => beginString s c
  | .endValue => endValue s c
  | .endTop => endTop c
  | .inString =>
      if c = '"' then (s.go .endValue, .scanContinue)
      else if c = '\\' then (s.go .inStringEsc, .scanContinue)
      else if c.toNat < 32 then s.fail
      else (s, .scanContinue)
  | .inStringEsc =>
      if isEscape c then (s.go .inString, .scanContinue)
      else if c = 'u' then (s.go (.inStringEscU 4), .scanContinue)
      else s.fail
  | .inStringEscU remaining =>
      if isHexDigit c then
        (s.go (if remaining ≤ 1 then .inString else .inStringEscU (remaining - 1)), .scanContinue)
      else s.fail
  | .neg =>
      if c = '0' then (s.go .num0, .scanContinue)
      else if isPositiveDigit c then (s.go .num1, .scanContinue)
      else s.fail
  | .num1 => if c.isDigit then (s, .scanContinue) else afterInteger s c
  | .num0 => afterInteger s c
  | .dot => if c.isDigit then (s.go .dot0, .scanContinue) else s.fail
  | .dot0 =>
      if c.isDigit then (s, .scanContinue)
      else if c = 'e' ∨ c = 'E' then (s.go .exp, .scanContinue)
      else endValue s c
  | .exp => if c = '+' ∨ c = '-' then (s.go .expSign, .scanContinue) else afterSign s c
  | .expSign => afterSign s c
  | .exp0 => if c.isDigit then (s, .scanContinue) else endValue s c
  | .word [] => s.fail
  | .word (d :: rest) =>
      if c = d then (s.go (if rest.isEmpty then .endValue else .word rest), .scanContinue)
      else s.fail
  | .error => s.fail

/-- `s.eof() != scanError`: the text may end here. -/
def eof (limit : Nat) (s : Scanner) : Bool :=
  match s.step with
  | .error => false
  | .endTop => true
  | _ => (step limit s ' ').1.step == .endTop

/-- `checkValid`, from a scanner on. -/
def checkValidFrom (limit : Nat) (s : Scanner) : Str → Bool
  | [] => eof limit s
  | c :: rest =>
      match step limit s c with
      | (_, .scanError) => false
      | (next, _) => checkValidFrom limit next rest

/-- `checkValid`. -/
def checkValid (limit : Nat) (text : Str) : Bool := checkValidFrom limit .new text

/-- `appendCompact` without escaping, from a scanner on: white space is left out. -/
def compactFrom (limit : Nat) (s : Scanner) : Str → Option Str
  | [] => if eof limit s then some [] else none
  | c :: rest =>
      match step limit s c with
      | (_, .scanError) => none
      | (next, .scanSkipSpace) => compactFrom limit next rest
      | (next, .scanEnd) => compactFrom limit next rest
      | (next, _) => (compactFrom limit next rest).map (c :: ·)

/-- `appendCompact`. -/
def compact (limit : Nat) (text : Str) : Option Str := compactFrom limit .new text

/-- `readValue`, from a scanner on: the text of the next value, after what was
taken, and what follows it. -/
def readValueFrom (limit : Nat) (s : Scanner) (taken : Str) : Str → Option (Str × Str)
  | [] => if (step limit s ' ').2 = .scanEnd then some (taken, []) else none
  | c :: rest =>
      match step limit s c with
      | (_, .scanError) => none
      | (_, .scanEnd) => some (taken, c :: rest)
      | (next, op) =>
          if (op = .scanEndObject ∨ op = .scanEndArray) ∧ next.parseState = [] then
            some (taken ++ [c], rest)
          else readValueFrom limit next (taken ++ [c]) rest

/-- `readValue`. -/
def readValue (limit : Nat) (text : Str) : Option (Str × Str) :=
  readValueFrom limit .new [] text

/-- A step that every loop takes alike: it keeps its character and ends nothing. -/
def Plain (result : Scanner × Op) : Prop :=
  result.2 ≠ .scanError ∧ result.2 ≠ .scanSkipSpace ∧ result.2 ≠ .scanEnd ∧
    (result.2 = .scanEndObject ∨ result.2 = .scanEndArray → result.1.parseState ≠ [])

/-- The machine goes through a text by such steps. -/
def Through (limit : Nat) (s : Scanner) : Str → Scanner → Prop
  | [], last => s = last
  | c :: rest, last => Plain (step limit s c) ∧ Through limit (step limit s c).1 rest last

section

variable {limit : Nat}

theorem through_append {s middle last : Scanner} {before after : Str}
    (h : Through limit s before middle) (h' : Through limit middle after last) :
    Through limit s (before ++ after) last := by
  induction before generalizing s with
  | nil =>
      obtain rfl : s = middle := h
      exact h'
  | cons c rest ih => exact ⟨h.1, ih h.2⟩

/-- One plain step. -/
theorem through_cons {s next last : Scanner} {op : Op} {c : Char} {rest : Str}
    (hstep : step limit s c = (next, op)) (hplain : Plain (next, op))
    (h : Through limit next rest last) : Through limit s (c :: rest) last := by
  rw [← hstep] at hplain
  refine ⟨hplain, ?_⟩
  rw [hstep]
  exact h

/-- Validity carries on from where a text was read through. -/
theorem checkValidFrom_through {s last : Scanner} {text rest : Str}
    (h : Through limit s text last) :
    checkValidFrom limit s (text ++ rest) = checkValidFrom limit last rest := by
  induction text generalizing s with
  | nil =>
      obtain rfl : s = last := h
      rfl
  | cons c text ih =>
      obtain ⟨⟨herror, -⟩, h⟩ := h
      rw [List.cons_append, checkValidFrom]
      split
      · rename_i heq
        exact absurd (congrArg Prod.snd heq) herror
      · rename_i next op _ heq
        rw [heq] at h
        exact ih h

theorem compactFrom_through {s last : Scanner} {text rest : Str}
    (h : Through limit s text last) :
    compactFrom limit s (text ++ rest) = (compactFrom limit last rest).map (text ++ ·) := by
  induction text generalizing s with
  | nil =>
      obtain rfl : s = last := h
      simp
  | cons c text ih =>
      obtain ⟨⟨herror, hspace, hend, -⟩, h⟩ := h
      rw [List.cons_append, compactFrom]
      split
      · rename_i heq
        exact absurd (congrArg Prod.snd heq) herror
      · rename_i heq
        exact absurd (congrArg Prod.snd heq) hspace
      · rename_i heq
        exact absurd (congrArg Prod.snd heq) hend
      · rename_i heq
        rw [heq] at h
        rw [ih h, Option.map_map]
        rfl

theorem readValueFrom_through {s last : Scanner} {taken text rest : Str}
    (h : Through limit s text last) :
    readValueFrom limit s taken (text ++ rest) =
      readValueFrom limit last (taken ++ text) rest := by
  induction text generalizing s taken with
  | nil =>
      obtain rfl : s = last := h
      rw [List.nil_append, List.append_nil]
  | cons c text ih =>
      obtain ⟨⟨herror, -, hend, hinside⟩, h⟩ := h
      rw [List.cons_append, readValueFrom]
      split
      · rename_i heq
        exact absurd (congrArg Prod.snd heq) herror
      · rename_i heq
        exact absurd (congrArg Prod.snd heq) hend
      · rename_i next op _ _ heq
        rw [heq] at h hinside
        rw [if_neg fun hclosed => hinside hclosed.1 hclosed.2, ih h, List.append_assoc]
        rfl

end

/-- White space opens nothing. -/
theorem step_space (limit limit' : Nat) (s : Scanner) : step limit s ' ' = step limit' s ' ' := by
  unfold step
  cases s.step with
  | word remaining => cases remaining <;> rfl
  | _ => rfl

/-- The end of the text asks nothing of the depth. -/
theorem eof_eq (limit limit' : Nat) (s : Scanner) : eof limit s = eof limit' s := by
  unfold eof
  rw [step_space limit limit']

section

variable {limit limit' : Nat} (hle : limit ≤ limit')

include hle

/-- A step under a smaller limit is the same or an error. -/
theorem step_of_le (s : Scanner) (c : Char) :
    (step limit s c).2 = .scanError ∨ step limit s c = step limit' s c := by
  have hpush : ∀ (state : State) (inside : ParseState) (op : Op),
      (s.push limit state inside op).2 = .scanError ∨
        s.push limit state inside op = s.push limit' state inside op := by
    intro state inside op
    unfold Scanner.push
    by_cases hroom : s.parseState.length < limit
    · rw [if_pos hroom, if_pos (by omega)]
      exact .inr rfl
    · rw [if_neg hroom]
      exact .inl rfl
  have hbegin : (beginValue limit s c).2 = .scanError ∨
      beginValue limit s c = beginValue limit' s c := by
    unfold beginValue
    by_cases hspace : isSpace c = true
    · rw [if_pos hspace]
      exact .inr (if_pos hspace).symm
    by_cases hobject : c = '{'
    · rw [if_neg hspace, if_neg hspace, if_pos hobject, if_pos hobject]
      exact hpush _ _ _
    by_cases harray : c = '['
    · rw [if_neg hspace, if_neg hspace, if_neg hobject, if_neg hobject, if_pos harray,
        if_pos harray]
      exact hpush _ _ _
    · rw [if_neg hspace, if_neg hspace, if_neg hobject, if_neg hobject, if_neg harray,
        if_neg harray]
      exact .inr rfl
  unfold step
  cases s.step with
  | beginValueOrEmpty =>
      dsimp only
      split_ifs
      · exact .inr rfl
      · exact .inr rfl
      · exact hbegin
  | beginValue => exact hbegin
  | word remaining => cases remaining <;> exact .inr rfl
  | _ => exact .inr rfl

/-- A value found under a limit is found under a greater one. -/
theorem readValueFrom_of_le {s : Scanner} {taken text : Str} {found : Str × Str}
    (h : readValueFrom limit s taken text = some found) :
    readValueFrom limit' s taken text = some found := by
  induction text generalizing s taken with
  | nil =>
      rw [readValueFrom] at h ⊢
      rcases step_of_le hle s ' ' with herror | heq
      · rw [herror] at h
        cases h
      · rwa [← heq]
  | cons c rest ih =>
      rw [readValueFrom] at h ⊢
      rcases step_of_le hle s c with herror | heq
      · cases hstep : step limit s c with
        | mk next op =>
            rw [hstep] at h herror
            obtain rfl : op = .scanError := herror
            cases h
      · rw [← heq]
        split at h
        · cases h
        · exact h
        · split_ifs at h ⊢ with hclosed
          · exact h
          · exact ih h

theorem readValue_of_le {text : Str} {found : Str × Str} (h : readValue limit text = some found) :
    readValue limit' text = some found :=
  readValueFrom_of_le hle h

theorem checkValidFrom_of_le {s : Scanner} {text : Str}
    (h : checkValidFrom limit s text = true) : checkValidFrom limit' s text = true := by
  induction text generalizing s with
  | nil =>
      rw [checkValidFrom] at h ⊢
      rwa [← eof_eq limit limit' s]
  | cons c rest ih =>
      rw [checkValidFrom] at h ⊢
      rcases step_of_le hle s c with herror | heq
      · cases hstep : step limit s c with
        | mk next op =>
            rw [hstep] at h herror
            obtain rfl : op = .scanError := herror
            cases h
      · rw [← heq]
        split at h
        · cases h
        · exact ih h

theorem compactFrom_of_le {s : Scanner} {text found : Str}
    (h : compactFrom limit s text = some found) : compactFrom limit' s text = some found := by
  induction text generalizing s found with
  | nil =>
      rw [compactFrom] at h ⊢
      rwa [← eof_eq limit limit' s]
  | cons c rest ih =>
      rw [compactFrom] at h ⊢
      rcases step_of_le hle s c with herror | heq
      · cases hstep : step limit s c with
        | mk next op =>
            rw [hstep] at h herror
            obtain rfl : op = .scanError := herror
            cases h
      · rw [← heq]
        split at h
        · cases h
        · exact ih h
        · exact ih h
        · obtain ⟨kept, hkept, rfl⟩ := Option.map_eq_some_iff.mp h
          rw [ih hkept]
          rfl

/-- A text compacts the same under a greater limit. -/
theorem compact_of_le {text found : Str} (h : compact limit text = some found) :
    compact limit' text = some found :=
  compactFrom_of_le hle h

/-- A text valid under a limit is valid under a greater one. -/
theorem checkValid_of_le {text : Str} (h : checkValid limit text = true) :
    checkValid limit' text = true :=
  checkValidFrom_of_le hle h

end

end GoScanner
