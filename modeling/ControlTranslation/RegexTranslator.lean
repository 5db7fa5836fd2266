import ControlTranslation.PyText

/-!
# The regex translator

A custom-rule condition matches flat values in which `*` is any run and `?` one
character.  The translator expands a bounded regex subset into such values: a
recursive-descent parser turns the source into alternatives, each a list of
parts, and a renderer writes every alternative as one value.  Anything without
a faithful image raises `_Unsupported`, here an `Except` error carrying the
message.

The scanner state keeps the unread suffix of the source in place of an index.
A group is parsed by one level fewer than its surroundings, so the nesting
bound of the source is the structural recursion; the two loops carry a budget
that the length of the suffix exceeds (`ParserBudget`).
-/

namespace ModSecurity

open PyText

/-- More values than this are not emitted. -/
def maxValues : Nat := 32
/-- A larger class is not spelled out. -/
def maxClassMembers : Nat := 8
/-- A longer pattern is not read. -/
def maxRegexLength : Nat := 4096

/-- One part of an alternative.  A ladder lists, per encoding depth, the texts
that stand for the same character at that depth. -/
inductive Part
  | any
  | one
  | lit (char : Char)
  | ladder (depths : List (List Str))
  deriving DecidableEq, Repr

/-- One alternative of a pattern, read from the left. -/
abbrev Parts := List Part

/-- The scanner: the unread source and the two flags. -/
structure Scan where
  rest : Str
  /-- A generalization that can match more than the source. -/
  lossy : Bool
  /-- An encoding-ladder alignment, which matches less. -/
  narrowed : Bool
  deriving DecidableEq, Repr

/-- The globs of a pattern and what was lost in writing them. -/
structure RegexResult where
  values : List Str
  wildcard : Bool
  caseInsensitive : Bool
  lossy : Bool
  narrowed : Bool
  deriving DecidableEq, Repr

/-- A step of reading, which may refuse the pattern with a reason. -/
abbrev Attempt (α : Type) := Except String α

/-- The letters that stand for a class after a backslash. -/
def isClassShorthand (c : Char) : Bool := c ∈ ['s', 'S', 'd', 'D', 'w', 'W']

/-- `_ESCAPE_LITERALS`. -/
def escapeLiteral (c : Char) : Option Char :=
  match c with
  | 'n' => some '\n'
  | 'r' => some '\r'
  | 't' => some '\t'
  | 'f' => some '\x0c'
  | 'v' => some '\x0b'
  | _ => none

/-- The characters from `lo` to `hi`. -/
def charRange (lo hi : Char) : List Char :=
  (List.range (hi.toNat + 1 - lo.toNat)).map fun k => Char.ofNat (lo.toNat + k)

/-- The loop of `_enumerate_class`. -/
def enumerateMembers (t : CharTables) : Str → Option (List Char)
  | [] => some []
  | ['\\'] => none
  | '\\' :: following :: rest =>
      if isClassShorthand following || t.isalnum following then
        match escapeLiteral following with
        | none => none
        | some member => (enumerateMembers t rest).map (member :: ·)
      else (enumerateMembers t rest).map (following :: ·)
  | char :: '-' :: stop :: rest =>
      if stop.toNat < char.toNat ∨ maxClassMembers ≤ stop.toNat - char.toNat then none
      else (enumerateMembers t rest).map (charRange char stop ++ ·)
  | char :: rest => (enumerateMembers t rest).map (char :: ·)

/-- The distinct members of a class body, when they can be listed. -/
def enumerateClass (t : CharTables) (body : Str) : Option (List Char) :=
  match enumerateMembers t body with
  | none => none
  | some members => if members = [] then none else some (unique members)

/-- A bracket expression; the first `]` after the bracket closes it. -/
def parseClass (t : CharTables) (s : Scan) : Attempt (List Parts × Scan) :=
  let tail := s.rest.tail
  if ']' ∉ tail then .error "unterminated character class"
  else
    let body := (partition ']' tail).1
    let after := (partition ']' tail).2
    if body.head? = some '^' ∨ body = [] then
      .ok ([[.one]], { s with rest := after, lossy := true })
    else
      match enumerateClass t body with
      | none => .ok ([[.one]], { s with rest := after, lossy := true })
      | some members =>
          if maxClassMembers < members.length then
            .ok ([[.one]], { s with rest := after, lossy := true })
          else .ok (members.map fun member => [.lit member], { s with rest := after })

/-- A backslash escape; the flag says whether it stands for one character. -/
def parseEscape (t : CharTables) (s : Scan) : Attempt (List Parts × Bool × Scan) :=
  match s.rest.tail with
  | [] => .error "dangling escape"
  | char :: rest =>
      if isClassShorthand char then
        .ok ([[.one]], true, { s with rest := rest, lossy := true })
      else if char = 'b' ∨ char = 'B' then
        -- A word boundary has no wildcard image; dropping it widens the match.
        .ok ([[]], false, { s with rest := rest, lossy := true })
      else
        match escapeLiteral char with
        | some c => .ok ([[.lit c]], true, { s with rest := rest })
        | none =>
            if char = 'x' then
              match rest with
              | a :: b :: rest' =>
                  if isHexDigit a ∧ isHexDigit b then
                    .ok ([[.lit (Char.ofNat (16 * hexValue a + hexValue b))]], true,
                      { s with rest := rest' })
                  else .error "unsupported hexadecimal escape"
              | _ => .error "unsupported hexadecimal escape"
            else if t.isalnum char then
              .error ("unsupported regex escape: \\" ++ String.ofList [char])
            else .ok ([[.lit char]], true, { s with rest := rest })

/-- The text of an alternative made of literals only. -/
def literalText : Parts → Option Str
  | [] => some []
  | .lit c :: parts => (literalText parts).map (c :: ·)
  | _ :: _ => none

/-- The branch texts of a group whose branches are nonempty literals. -/
def literalBranches : List Parts → Option (List Str)
  | [] => some []
  | parts :: rest =>
      if parts = [] then none
      else
        match literalText parts with
        | none => none
        | some branch => (literalBranches rest).map (branch :: ·)

/-- Every branch is the previous one, encoded once more. -/
def recursivelyEncoded : List Str → Bool
  | a :: b :: rest => b = quote a && recursivelyEncoded (b :: rest)
  | _ => true

/-- The branches of a group in depth order when it is an encoding ladder.  A
space has two encodings at depth one, `+` and `%20`. -/
def asEncodingLadder (alternatives : List Parts) : Option (List (List Str)) :=
  if alternatives.length < 2 then none
  else
    match literalBranches alternatives with
    | none => none
    | some branches =>
        if recursivelyEncoded branches then some (branches.map fun branch => [branch])
        else
          match branches with
          | b₀ :: b₁ :: b₂ :: rest =>
              if b₀ = " ".toList ∧ b₁ = "+".toList ∧ b₂ = "%20".toList ∧
                  recursivelyEncoded (b₂ :: rest) then
                some ([b₀] :: [b₁, b₂] :: rest.map fun branch => [branch])
              else none
          | _ => none

/-- Whether a part is a ladder of encodings. -/
def Part.isLadder : Part → Bool
  | .ladder _ => true
  | _ => false

/-- Every prefix followed by every suffix. -/
def cross (prefixes suffixes : List Parts) : List Parts :=
  prefixes.flatMap fun pre => suffixes.map fun suffix => pre ++ suffix

/-- The loop of a counted repetition: `n` more copies of the alternatives. -/
def repeatCross (alternatives : List Parts) : Nat → List Parts → Attempt (List Parts)
  | 0, repeated => .ok repeated
  | n + 1, repeated =>
      if maxValues < (cross repeated alternatives).length then
        .error "counted repetition expands to too many values"
      else repeatCross alternatives n (cross repeated alternatives)

/-- `int` of a run of decimal digits. -/
def readInt (t : CharTables) (digits : Str) : Nat :=
  digits.foldl (fun n c => 10 * n + (t.decimal c).getD 0) 0

/-- The two bounds matched by `\{(\d+)(?:,(\d+))?\}`, read after the brace. -/
def readBounds (t : CharTables) (s : Str) : Option (Nat × Option Nat × Str) :=
  let isDecimal := fun c => (t.decimal c).isSome
  let digits := s.takeWhile isDecimal
  if digits = [] then none
  else
    match s.dropWhile isDecimal with
    | '}' :: after => some (readInt t digits, none, after)
    | ',' :: more =>
        let digits' := more.takeWhile isDecimal
        if digits' = [] then none
        else
          match more.dropWhile isDecimal with
          | '}' :: after => some (readInt t digits, some (readInt t digits'), after)
          | _ => none
    | _ => none

/-- Skip a lazy or possessive marker. -/
def skipMarker : Str → Str
  | [] => []
  | c :: rest => if c = '?' ∨ c = '+' then rest else c :: rest

/-- The counted repetition of `_parse_term`, read after its brace. -/
def parseCounted (t : CharTables) (alternatives : List Parts) (s : Scan) (rest : Str) :
    Attempt (List Parts × Scan) :=
  match readBounds t rest with
  | none => .error "unbounded or malformed counted repetition"
  | some (minimum, upper, after) =>
      let maximum := upper.getD minimum
      if maximum < minimum ∨ maximum < 1 ∨ 4096 < maximum then
        .error "counted repetition bounds are not expressible"
      else if minimum = 0 then .ok ([[.any]], { s with rest := after, lossy := true })
      else if maxValues < minimum then
        .error "counted repetition minimum is too large"
      else
        match repeatCross alternatives minimum [[]] with
        | .error e => .error e
        | .ok repeated =>
            if minimum < maximum then
              .ok (repeated.map (· ++ [.any]), { s with rest := after, lossy := true })
            else .ok (repeated, { s with rest := after })

/-- The quantifiers `*`, `+` and `?` of `_parse_term`. -/
def parseQuantifier (alternatives : List Parts) (singleChar : Bool) (s : Scan)
    (quantifier : Char) (rest : Str) : Attempt (List Parts × Scan) :=
  let s := { s with rest := skipMarker rest }
  if quantifier = '?' ∧ singleChar = false then
    if maxValues < alternatives.length + 1 then
      .error "optional group expands to too many values"
    else .ok ([] :: alternatives, s)
  else if singleChar = false then .error "quantified groups are not expressible"
  else if alternatives.any fun parts => parts.any Part.isLadder then
    .error "quantified encoding ladders are not expressible"
  else
    let expanded :=
      if quantifier = '+' then alternatives.map (· ++ [.any]) else [[.any]]
    -- Quantifying `.` is taken to keep full fidelity; anything else widens.
    .ok (expanded, { s with lossy := s.lossy || alternatives ≠ [[.one]] })

/-- An atom with the quantifier that follows it. -/
def parseTerm (t : CharTables) (atom : Scan → Attempt (List Parts × Bool × Scan))
    (s : Scan) : Attempt (List Parts × Scan) :=
  match atom s with
  | .error e => .error e
  | .ok (alternatives, singleChar, s') =>
      match s'.rest with
      | [] => .ok (alternatives, s')
      | c :: rest =>
          if c = '{' then parseCounted t alternatives s' rest
          else if c = '*' ∨ c = '+' ∨ c = '?' then
            parseQuantifier alternatives singleChar s' c rest
          else .ok (alternatives, s')

/-- The loop of `_parse_concat`. -/
def concatLoop (term : Scan → Attempt (List Parts × Scan)) :
    Nat → List Parts → Scan → Attempt (List Parts × Scan)
  | 0, _, _ => .error "scan budget exhausted"
  | budget + 1, results, s =>
      match s.rest with
      | [] => .ok (results, s)
      | c :: _ =>
          if c = '|' ∨ c = ')' then .ok (results, s)
          else
            match term s with
            | .error e => .error e
            | .ok (suffixes, s') =>
                if maxValues < (cross results suffixes).length then
                  .error "regex expands to too many values"
                else concatLoop term budget (cross results suffixes) s'

/-- A run of terms, each appended to every alternative before it. -/
def parseConcat (term : Scan → Attempt (List Parts × Scan)) (s : Scan) :
    Attempt (List Parts × Scan) :=
  concatLoop term (s.rest.length + 1) [[]] s

/-- The loop of `_parse_alternation`. -/
def alternationLoop (concat : Scan → Attempt (List Parts × Scan)) :
    Nat → List Parts → Scan → Attempt (List Parts × Scan)
  | 0, _, _ => .error "scan budget exhausted"
  | budget + 1, alternatives, s =>
      match s.rest with
      | [] => .ok (alternatives, s)
      | c :: rest =>
          if c = '|' then
            match concat { s with rest := rest } with
            | .error e => .error e
            | .ok (more, s') =>
                if maxValues < (alternatives ++ more).length then
                  .error "regex expands to too many values"
                else alternationLoop concat budget (alternatives ++ more) s'
          else .ok (alternatives, s)

/-- A group is parsed by `group`; everything else is one of the cases below. -/
def parseAtom (t : CharTables) (group : Scan → Attempt (List Parts × Scan)) (s : Scan) :
    Attempt (List Parts × Bool × Scan) :=
  match s.rest with
  | [] => .error "string index out of range"
  | char :: rest =>
      if char = '(' then
        if rest.head? = some '?' ∧ rest.tail.head? ≠ some ':' then
          .error "lookarounds and inline groups are not expressible"
        else
          match group { s with rest := if rest.head? = some '?' then rest.drop 2 else rest } with
          | .error e => .error e
          | .ok (alternatives, s') =>
              if s'.rest.head? = some ')' then
                match asEncodingLadder alternatives with
                | some depths =>
                    .ok ([[.ladder depths]], false,
                      { s' with rest := s'.rest.tail, narrowed := true })
                | none =>
                    .ok (alternatives, alternatives.all fun parts => parts.length = 1,
                      { s' with rest := s'.rest.tail })
              else .error "unbalanced regex group"
      else if char = '[' then
        match parseClass t s with
        | .error e => .error e
        | .ok (alternatives, s') => .ok (alternatives, true, s')
      else if char = '\\' then parseEscape t s
      else if char = '.' then .ok ([[.one]], true, { s with rest := rest })
      else if char = '^' ∨ char = '$' then
        .error "anchors are only supported at the pattern edges"
      else if char = '{' ∨ char = '}' then .error "counted repetition is not expressible"
      else .ok ([[.lit char]], true, { s with rest := rest })

/-- `_parse_alternation` with `levels` nesting levels left; `depth > 8` raises. -/
def parseAlternation (t : CharTables) : Nat → Scan → Attempt (List Parts × Scan)
  | 0, _ => .error "regex nesting is too deep"
  | levels + 1, s =>
      let concat := parseConcat (parseTerm t (parseAtom t (parseAlternation t levels)))
      match concat s with
      | .error e => .error e
      | .ok (alternatives, s') =>
          alternationLoop concat (s'.rest.length + 1) alternatives s'

/-- `_render` after a piece `previous`; the flag says a wildcard was used. -/
def renderAfter (depth variant : Nat) (previous : Option Str) : Parts → Str × Bool
  | [] => ([], false)
  | .ladder depths :: parts =>
      let variants := depths.getD depth []
      let piece := variants.getD variant (variants.getD 0 [])
      let tail := renderAfter depth variant (some piece) parts
      (piece ++ tail.1, tail.2)
  | .any :: parts =>
      if previous = some ['*'] then ((renderAfter depth variant previous parts).1, true)
      else
        let tail := renderAfter depth variant (some ['*']) parts
        ('*' :: tail.1, true)
  | .one :: parts =>
      let tail := renderAfter depth variant (some ['?']) parts
      ('?' :: tail.1, true)
  | .lit c :: parts =>
      let tail := renderAfter depth variant (some [c]) parts
      (c :: tail.1, tail.2)

/-- The glob of one alternative, and whether it has a wildcard. -/
def render (depth variant : Nat) (parts : Parts) : Str × Bool :=
  renderAfter depth variant none parts

/-- The ladders of the alternatives, in order. -/
def ladders (alternatives : List Parts) : List (List (List Str)) :=
  alternatives.flatMap fun parts =>
    parts.filterMap fun part =>
      match part with
      | .ladder depths => some depths
      | _ => none

/-- The depth every ladder shares, 1 when there is none, or `none`. -/
def ladderDepth (alternatives : List Parts) : Option Nat :=
  match ladders alternatives with
  | [] => some 1
  | depths :: rest =>
      if rest.all fun depths' => depths'.length = depths.length then some depths.length
      else none

/-- The aligned alias count at one depth, 1 when there is no ladder. -/
def ladderVariants (alternatives : List Parts) (depth : Nat) : Nat :=
  match ladders alternatives with
  | [] => 1
  | all => (all.map fun depths => (depths.getD depth []).length).foldl max 0

/-- Whether an alternative has a literal `*` or `?`. -/
def hasLiteralWildcard (parts : Parts) : Bool :=
  parts.any fun part => part = .lit '*' || part = .lit '?'

/-- The value lists of every depth, alias index and alternative. -/
def renderAll (alternatives : List Parts) (depths : Nat) : List (Str × Bool) :=
  (List.range depths).flatMap fun depth =>
    (List.range (ladderVariants alternatives depth)).flatMap fun variant =>
      alternatives.map (render depth variant)

/-- Complete a rendered alternative at the edges that are not anchored. -/
def frame (anchoredStart anchoredEnd : Bool) (rendered : Str) : Str :=
  (if anchoredStart then rendered else '*' :: rendered) ++ if anchoredEnd then [] else ['*']

/-- `_read_inline_flags`: the case flag and the unread source. -/
def readInlineFlags (source : Str) : Attempt (Bool × Str) :=
  let letters := (source.drop 2).takeWhile Char.isAlpha
  if source.take 2 = ['(', '?'] ∧ letters ≠ [] ∧
      ((source.drop 2).dropWhile Char.isAlpha).head? = some ')' then
    if letters.all fun c => c = 'i' || c = 's' then
      .ok ('i' ∈ letters, ((source.drop 2).dropWhile Char.isAlpha).tail)
    else .error ("unsupported inline regex flags: " ++ String.ofList letters)
  else .ok (false, source)

/-- Whether the source, after its flags, begins with an anchor. -/
def startAnchored (source : Str) : Bool := source.head? = some '^'

/-- The source after its start anchor. -/
def bodyText (source : Str) : Str := if startAnchored source then source.tail else source

/-- Whether the body ends in an anchor: a `$` without a backslash before it. -/
def endAnchored (source : Str) : Bool :=
  "$".toList.isSuffixOf (bodyText source) && !"\\$".toList.isSuffixOf (bodyText source)

/-- The source between its anchors. -/
def innerText (source : Str) : Str :=
  if endAnchored source then (bodyText source).dropLast else bodyText source

/-- The values of all alternatives, completed and without repetitions. -/
def emittedValues (source : Str) (rendered : List (Str × Bool)) : List Str :=
  unique (rendered.map fun r => frame (startAnchored source) (endAnchored source) r.1)

/-- `_RegexTranslator(source).translate()`. -/
def translate (t : CharTables) (source : Str) : Attempt RegexResult :=
  if maxRegexLength < source.length then .error "regex is too large"
  else
    match readInlineFlags source with
    | .error e => .error e
    | .ok (caseInsensitive, source) =>
        match parseAlternation t 9 ⟨innerText source, false, false⟩ with
        | .error e => .error e
        | .ok (alternatives, s) =>
            if s.rest ≠ [] then .error "unbalanced regex group"
            else
              match ladderDepth alternatives with
              | none => .error "encoding ladders of differing depths cannot be aligned"
              | some depths =>
                  let rendered := renderAll alternatives depths
                  let wildcard := !startAnchored source || !endAnchored source ||
                    rendered.any fun r => r.2
                  let values := emittedValues source rendered
                  if maxValues < values.length then .error "regex expands to too many values"
                  else if values = [] ∨ [] ∈ values then
                    .error "regex produced an empty match value"
                  else if wildcard ∧ alternatives.any hasLiteralWildcard then
                    .error "literal '*' or '?' cannot coexist with wildcards"
                  else
                    .ok ⟨values, wildcard, caseInsensitive, s.lossy, s.narrowed⟩

end ModSecurity
