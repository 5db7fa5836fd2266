import ControlTranslation.GoText
import ControlTranslation.RegexTranslator

/-!
# The regex translator of the port

The port follows the original line by line and was not kept up with it: it knows
no counted repetition and no optional group, a ladder has one text for each depth,
and a quantifier looks at whether a group is one character wide only.  What the two
have word for word is the original's definition: the loops over terms and
alternatives, the flags and anchors, and the class scanner, with the letters and
digits of this program.
-/

namespace GoCompiler

open PyText GoText ModSecurity

/-- On ASCII the Go tables know the same letters and digits. -/
theorem alnum_ascii (g : GoText.Tables) :
    ∀ c, c.toNat < 128 → (g.isLetter c || g.isDigit c) = c.isAlphanum := by
  intro c h
  rw [g.isLetter_ascii c h, g.isDigit_ascii c h]
  rfl

theorem mapped_ascii {f f' : Char → Char} (h : ∀ c, c.toNat < 128 → f c = f' c) :
    ∀ s : Str, (∀ c ∈ s, c.toNat < 128) → s.map f = s.map f' :=
  fun _ hs => List.map_congr_left fun c hc => h c (hs c hc)

theorem decimal_alike : ∀ c : Char, c.toNat < 128 →
    (if c.isDigit then some (c.toNat - 48) else none) =
      if c.isDigit then some (c.toNat - 48) else none :=
  fun _ _ => rfl

/-- The tables as the original's definitions read them: a letter or a digit. -/
def tables (g : GoText.Tables) : CharTables where
  isalnum c := g.isLetter c || g.isDigit c
  decimal c := if c.isDigit then some (c.toNat - 48) else none
  lower s := GoText.lower g s
  upper s := GoText.upper g s
  isalnum_ascii := alnum_ascii g
  decimal_ascii := decimal_alike
  lower_ascii := mapped_ascii g.toLower_ascii
  upper_ascii := mapped_ascii g.toUpper_ascii

/-- `strconv.ParseInt(digits, 16, 32)` of two characters, as the rune it is written
as; a sign counts. -/
def parseHex (a b : Char) : Option Char :=
  if isHexDigit b = false then none
  else if isHexDigit a then some (Char.ofNat (16 * hexValue a + hexValue b))
  else if a = '+' then some (Char.ofNat (hexValue b))
  else if a = '-' then some (if hexValue b = 0 then Char.ofNat 0 else '\uFFFD')
  else none

/-- `parseEscape`. -/
def parseEscape (g : GoText.Tables) (s : Scan) : Attempt (List Parts × Bool × Scan) :=
  match s.rest.tail with
  | [] => .error "dangling escape"
  | char :: rest =>
      if isClassShorthand char then
        .ok ([[.one]], true, { s with rest := rest, lossy := true })
      else if char = 'b' ∨ char = 'B' then
        .ok ([[]], false, { s with rest := rest, lossy := true })
      else
        match escapeLiteral char with
        | some c => .ok ([[.lit c]], true, { s with rest := rest })
        | none =>
            if char = 'x' then
              match rest with
              | a :: b :: rest' =>
                  match parseHex a b with
                  | some c => .ok ([[.lit c]], true, { s with rest := rest' })
                  | none => .error "unsupported hexadecimal escape"
              | _ => .error "unsupported hexadecimal escape"
            else if g.isLetter char || g.isDigit char then
              .error ("unsupported regex escape: \\" ++ String.ofList [char])
            else .ok ([[.lit char]], true, { s with rest := rest })

/-- Every branch is the previous one, URL-encoded once more. -/
def encodedOnceMore : List Str → Bool
  | a :: b :: rest => b = quoteAll a && encodedOnceMore (b :: rest)
  | _ => true

/-- `asEncodingLadder`. -/
def asEncodingLadder (alternatives : List Parts) : Option (List Str) :=
  if alternatives.length < 2 then none
  else
    match literalBranches alternatives with
    | none => none
    | some branches => if encodedOnceMore branches then some branches else none

/-- A ladder part: one text for each depth. -/
def ladderPart (ladder : List Str) : Part := .ladder (ladder.map fun branch => [branch])

/-- What `parseTerm` does after the atom. -/
def quantify (alternatives : List Parts) (singleChar : Bool) (s : Scan) :
    Attempt (List Parts × Scan) :=
  match s.rest with
  | [] => .ok (alternatives, s)
  | quantifier :: rest =>
      if quantifier = '*' ∨ quantifier = '+' ∨ quantifier = '?' then
        if singleChar = false then .error "quantified groups are not expressible"
        else
          let expanded :=
            if quantifier = '+' then alternatives.map (· ++ [.any]) else [[.any]]
          .ok (expanded,
            { s with rest := skipMarker rest, lossy := s.lossy || alternatives ≠ [[.one]] })
      else .ok (alternatives, s)

/-- `parseTerm`. -/
def parseTerm (atom : Scan → Attempt (List Parts × Bool × Scan)) (s : Scan) :
    Attempt (List Parts × Scan) :=
  match atom s with
  | .error e => .error e
  | .ok (alternatives, singleChar, s') => quantify alternatives singleChar s'

/-- The end of a group: its ladder, or its alternatives. -/
def closeGroup (alternatives : List Parts) (s : Scan) : Attempt (List Parts × Bool × Scan) :=
  if s.rest.head? = some ')' then
    match asEncodingLadder alternatives with
    | some ladder => .ok ([[ladderPart ladder]], false,
        { s with rest := s.rest.tail, narrowed := true })
    | none => .ok (alternatives, alternatives.all fun parts => parts.length = 1,
        { s with rest := s.rest.tail })
  else .error "unbalanced regex group"

/-- `parseAtom`. -/
def parseAtom (g : GoText.Tables) (group : Scan → Attempt (List Parts × Scan)) (s : Scan) :
    Attempt (List Parts × Bool × Scan) :=
  match s.rest with
  | [] => .error "index out of range"
  | char :: rest =>
      if char = '(' then
        if rest.head? = some '?' ∧ rest.tail.head? ≠ some ':' then
          .error "lookarounds and inline groups are not expressible"
        else
          match group { s with rest := if rest.head? = some '?' then rest.drop 2 else rest } with
          | .error e => .error e
          | .ok (alternatives, s') => closeGroup alternatives s'
      else if char = '[' then
        match parseClass (tables g) s with
        | .error e => .error e
        | .ok (alternatives, s') => .ok (alternatives, true, s')
      else if char = '\\' then parseEscape g s
      else if char = '.' then .ok ([[.one]], true, { s with rest := rest })
      else if char = '^' ∨ char = '$' then
        .error "anchors are only supported at the pattern edges"
      else if char = '{' ∨ char = '}' then .error "counted repetition is not expressible"
      else .ok ([[.lit char]], true, { s with rest := rest })

/-- `parseAlternation` with `levels` nesting levels left. -/
def parseAlternation (g : GoText.Tables) : Nat → Scan → Attempt (List Parts × Scan)
  | 0, _ => .error "regex nesting is too deep"
  | levels + 1, s =>
      let concat := parseConcat (parseTerm (parseAtom g (parseAlternation g levels)))
      match concat s with
      | .error e => .error e
      | .ok (alternatives, s') =>
          alternationLoop concat (s'.rest.length + 1) alternatives s'

/-- The loop of `render`. -/
def renderFrom (depth : Nat) (lastWasAny : Bool) : Parts → Str × Bool
  | [] => ([], false)
  | .ladder depths :: parts =>
      let tail := renderFrom depth false parts
      ((depths.getD depth []).headD [] ++ tail.1, tail.2)
  | .any :: parts =>
      let tail := renderFrom depth true parts
      (if lastWasAny then tail.1 else '*' :: tail.1, true)
  | .one :: parts => ('?' :: (renderFrom depth false parts).1, true)
  | .lit c :: parts =>
      let tail := renderFrom depth false parts
      (c :: tail.1, tail.2)

/-- `render`. -/
def render (depth : Nat) (parts : Parts) : Str × Bool := renderFrom depth false parts

/-- `ladderDepth`: the depth every ladder shares. -/
def ladderDepth (alternatives : List Parts) : Option Nat :=
  match ladders alternatives with
  | [] => none
  | depths :: rest =>
      if rest.all fun depths' => depths'.length = depths.length then some depths.length
      else none

/-- `hasLadder`. -/
def hasLadder (alternatives : List Parts) : Bool :=
  alternatives.any fun parts => parts.any Part.isLadder

/-- The values of one depth after the other, before the edges are completed. -/
def renderDepths (alternatives : List Parts) (depths : Nat) : List (Str × Bool) :=
  (List.range depths).flatMap fun depth => alternatives.map (render depth)

/-- `translateRegex`. -/
def translateRegex (g : GoText.Tables) (source : Str) : Attempt RegexResult :=
  if maxRegexLength < byteLength source then .error "regex is too large"
  else
    match readInlineFlags source with
    | .error e => .error e
    | .ok (caseInsensitive, source) =>
        match parseAlternation g 9 ⟨innerText source, false, false⟩ with
        | .error e => .error e
        | .ok (alternatives, s) =>
            if s.rest ≠ [] then .error "unbalanced regex group"
            else if ladderDepth alternatives = none ∧ hasLadder alternatives then
              .error "encoding ladders of differing depths cannot be aligned"
            else
              let rendered := renderDepths alternatives ((ladderDepth alternatives).getD 1)
              let wildcard := !startAnchored source || !endAnchored source ||
                rendered.any fun r => r.2
              let values := rendered.map fun r =>
                frame (startAnchored source) (endAnchored source) r.1
              if maxValues < values.length then .error "regex expands to too many values"
              else if values = [] ∨ (unique values).contains [] then
                .error "regex produced an empty match value"
              else if wildcard ∧ alternatives.any hasLiteralWildcard then
                .error "literal '*' or '?' cannot coexist with wildcards"
              else .ok ⟨unique values, wildcard, caseInsensitive, s.lossy, s.narrowed⟩

end GoCompiler
