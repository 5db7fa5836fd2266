import ControlTranslation.Glob
import ControlTranslation.PyText

/-!
# Perl-compatible regular expressions: syntax and search

The reference meaning of a regular expression, independent of any compiler.
`parse` reads the syntax, `run` is a backtracking matcher that lists the ends
of all matches from a position in priority order, and `search` is the
unanchored search.

The compile options are those a rule engine sets: a dot is any character and
`$` holds only at the very end of the subject.  Priority order matters for one
construct only: a possessive quantifier keeps the first way of matching and
gives up the others.

A bracket expression is delimited exactly as the syntax prescribes, including a
leading `]`, escapes, quoting and POSIX names.  What it contains is spelled out
for plain characters, ranges and common escapes; the members of an expression
using anything else (`\p{..}`, octal escapes, POSIX names) are the parameter
`oracle`, so that results hold whatever those tables say.
-/

namespace Pcre

open Glob (sameChar)
open PyText (isHexDigit hexValue)

/-- The character after a quantifier. -/
inductive Marker
  | greedy
  | lazy
  | possessive
  deriving DecidableEq, Repr

/-- A quantifier; `counted` is the brace form, without an upper bound in `{m,}`. -/
inductive Quant
  | star
  | plus
  | opt
  | counted (min : Nat) (max : Option Nat)
  deriving DecidableEq, Repr

/-- The least number of copies. -/
def Quant.min : Quant → Nat
  | .star => 0
  | .plus => 1
  | .opt => 0
  | .counted m _ => m

/-- The greatest number of copies, if there is one. -/
def Quant.max : Quant → Option Nat
  | .star => none
  | .plus => none
  | .opt => some 1
  | .counted _ n => n

/-- A member of a bracket expression.  `escaped` records that an end of a range
was written with a backslash. -/
inductive ClassItem
  | char (c : Char)
  | range (lo hi : Char) (escaped : Bool)
  | shorthand (letter : Char)
  deriving DecidableEq, Repr

/-- A parsed regular expression.  `brace` is a literal brace that begins no
quantifier; `bracket` keeps its text between the brackets. -/
inductive Regex
  | empty
  | char (c : Char)
  | brace (c : Char)
  | dot
  | shorthand (letter : Char)
  | bracket (raw : List Char) (negated : Bool) (items : Option (List ClassItem))
  | bol
  | eol
  | boundary (negated : Bool)
  | cat (a b : Regex)
  | alt (a b : Regex)
  | group (r : Regex)
  | rep (r : Regex) (q : Quant) (m : Marker)
  deriving DecidableEq, Repr

/-- Every item of a tree satisfies `p`; joining items asks nothing more. -/
def Regex.every (p : Regex → Bool) : Regex → Bool
  | .empty => true
  | .cat a b => a.every p && b.every p
  | .alt a b => a.every p && b.every p
  | .group r => r.every p
  | .rep r q m => p (.rep r q m) && r.every p
  | r => p r

/-- The length of a POSIX name and its closing `:]`, scanned after `[:`. -/
def posixSpan (terminator : Char) : List Char → Option Nat
  | [] => none
  | c :: rest =>
      if c = '\\' then
        match rest with
        | d :: rest' =>
            if d = ']' ∨ d = '\\' then (posixSpan terminator rest').map (· + 2)
            else (posixSpan terminator (d :: rest')).map (· + 1)
        | [] => none
      else if c = ']' ∨ (c = '[' ∧ rest.head? = some terminator) then none
      else if c = terminator ∧ rest.head? = some ']' then some 2
      else (posixSpan terminator rest).map (· + 1)

/-- The length of a POSIX bracket after its `[`, and zero when there is none. -/
def posixLength : List Char → Nat
  | [] => 0
  | t :: rest =>
      if t = ':' ∨ t = '.' ∨ t = '=' then ((posixSpan t rest).map (· + 1)).getD 0 else 0

/-- Find the bracket that closes an expression: the text before it and the
text after it.  The first `skip` characters cannot close it; between `\Q` and
`\E` nothing can. -/
def scanClass (skip : Nat) (quoted : Bool) : List Char → Option (List Char × List Char)
  | [] => none
  | c :: rest =>
      let keep (o : Option (List Char × List Char)) := o.map fun p => (c :: p.1, p.2)
      if 0 < skip then keep (scanClass (skip - 1) quoted rest)
      else if quoted then
        if c = '\\' ∧ rest.head? = some 'E' then keep (scanClass 1 false rest)
        else keep (scanClass 0 true rest)
      else if c = ']' then some ([], rest)
      else if c = '\\' then
        if rest.head? = some 'Q' then keep (scanClass 1 true rest)
        else if rest.head? = some 'c' then keep (scanClass 2 false rest)
        else keep (scanClass 1 false rest)
      else if c = '[' then keep (scanClass (posixLength rest) false rest)
      else keep (scanClass 0 false rest)

/-- Drop `\E` and `\Q\E`, which mean nothing at the start of an expression. -/
def dropQuoteEnds : List Char → List Char
  | [] => []
  | c :: rest =>
      if c = '\\' then
        match rest with
        | 'E' :: rest' => dropQuoteEnds rest'
        | 'Q' :: '\\' :: 'E' :: rest' => dropQuoteEnds rest'
        | _ => c :: rest
      else c :: rest

/-- Whether an expression is negated, and its text after the `^`. -/
def classBody (text : List Char) : Bool × List Char :=
  let s := dropQuoteEnds text
  if s.head? = some '^' then (true, dropQuoteEnds s.tail) else (false, s)

/-- One lexical unit of a bracket expression. -/
inductive ClassToken
  | char (c : Char) (escaped : Bool)
  | set (letter : Char)
  deriving DecidableEq, Repr

/-- The letters naming a set of characters. -/
def isShorthand (c : Char) : Bool :=
  c ∈ ['d', 'D', 'w', 'W', 's', 'S', 'h', 'H', 'v', 'V']

/-- The control characters written as a backslash and a letter. -/
def controlEscape (c : Char) : Option Char :=
  match c with
  | 'n' => some '\n'
  | 'r' => some '\r'
  | 't' => some '\t'
  | 'f' => some '\x0c'
  | _ => none

/-- A backslash and a character inside a bracket expression; `none` for the
escapes whose members are left to the oracle. -/
def classEscape (c : Char) : Option ClassToken :=
  match controlEscape c with
  | some d => some (.char d true)
  | none =>
      if c = 'b' then some (.char '\x08' true)
      else if isShorthand c then some (.set c)
      else if c.isAlphanum then none
      else some (.char c true)

/-- The lexical units of a bracket expression. -/
def classTokens : List Char → Option (List ClassToken)
  | [] => some []
  | c :: rest =>
      if c = '\\' then
        match rest with
        | [] => none
        | f :: rest' =>
            match classEscape f with
            | none => none
            | some t => (classTokens rest').map (t :: ·)
      else if c = '[' ∧ 0 < posixLength rest then none
      else (classTokens rest).map (.char c false :: ·)

/-- Read ranges off the lexical units; a hyphen is literal at either end. -/
def classRanges : List ClassToken → Option (List ClassItem)
  | [] => some []
  | .set letter :: rest => (classRanges rest).map (.shorthand letter :: ·)
  | .char lo e :: .char '-' false :: .char hi e' :: rest =>
      (classRanges rest).map (.range lo hi (e || e') :: ·)
  | .char _ _ :: .char '-' false :: .set _ :: _ => none
  | .char c _ :: rest => (classRanges rest).map (.char c :: ·)

/-- The members of a bracket expression, where this file spells them out. -/
def classItems (body : List Char) : Option (List ClassItem) :=
  (classTokens body).bind classRanges

/-- A range whose ends are out of order, which is a syntax error. -/
def ClassItem.reversed : ClassItem → Bool
  | .range lo hi _ => hi < lo
  | _ => false

/-- A bracket expression, read after its `[`. -/
def readClass (text : List Char) : Option (Regex × List Char) :=
  let body := (classBody text).2
  let lead := text.length - body.length + if body.head? = some ']' then 1 else 0
  match scanClass lead false text with
  | none => none
  | some (raw, after) =>
      let items := classItems (classBody raw).2
      if (items.getD []).any ClassItem.reversed then none
      else some (.bracket raw (classBody raw).1 items, after)

/-- An escape outside bracket expressions, read after its backslash. -/
def readEscape : List Char → Option (Regex × List Char)
  | [] => none
  | c :: rest =>
      match controlEscape c with
      | some d => some (.char d, rest)
      | none =>
          if isShorthand c then some (.shorthand c, rest)
          else if c = 'b' then some (.boundary false, rest)
          else if c = 'B' then some (.boundary true, rest)
          else if c = 'x' then
            match rest with
            | a :: b :: rest' =>
                if isHexDigit a ∧ isHexDigit b then
                  some (.char (Char.ofNat (16 * hexValue a + hexValue b)), rest')
                else none
            | _ => none
          else if c.isAlphanum then none
          else some (.char c, rest)

/-- The brace quantifier, read after its `{`. -/
def readCounted (s : List Char) : Option (Quant × List Char) :=
  let digits := s.takeWhile Char.isDigit
  if digits = [] then none
  else
    match s.dropWhile Char.isDigit with
    | '}' :: rest => some (.counted (number digits) (some (number digits)), rest)
    | ',' :: rest =>
        let digits' := rest.takeWhile Char.isDigit
        match rest.dropWhile Char.isDigit with
        | '}' :: rest' =>
            some (.counted (number digits)
              (if digits' = [] then none else some (number digits')), rest')
        | _ => none
    | _ => none
where
  /-- The value of a run of ASCII digits. -/
  number (digits : List Char) : Nat :=
    digits.foldl (fun n c => 10 * n + (c.toNat - 48)) 0

/-- A quantifier, when one follows. -/
def readQuant : List Char → Option (Quant × List Char)
  | [] => none
  | c :: rest =>
      if c = '*' then some (.star, rest)
      else if c = '+' then some (.plus, rest)
      else if c = '?' then some (.opt, rest)
      else if c = '{' then readCounted rest
      else none

/-- The laziness or possessiveness marker after a quantifier. -/
def readMarker : List Char → Marker × List Char
  | [] => (.greedy, [])
  | c :: rest =>
      if c = '?' then (.lazy, rest)
      else if c = '+' then (.possessive, rest)
      else (.greedy, c :: rest)

/-- Whether a quantifier may follow an item: not after an assertion. -/
def Regex.repeatable : Regex → Bool
  | .bol => false
  | .eol => false
  | .boundary _ => false
  | _ => true

/-- Attach the quantifier that follows an item, if one does. -/
def quantify (r : Regex) (s : List Char) : Regex × List Char :=
  if r.repeatable then
    match readQuant s with
    | none => (r, s)
    | some (q, rest) => (.rep r q (readMarker rest).1, (readMarker rest).2)
  else (r, s)

mutual

/-- Branches separated by `|`. -/
def parseAlt : Nat → List Char → Option (Regex × List Char)
  | 0, _ => none
  | fuel + 1, s =>
      match parseCat fuel s with
      | none => none
      | some (r, rest) =>
          if rest.head? = some '|' then
            (parseAlt fuel rest.tail).map fun p => (.alt r p.1, p.2)
          else some (r, rest)

/-- The items of one branch. -/
def parseCat : Nat → List Char → Option (Regex × List Char)
  | 0, _ => none
  | fuel + 1, s =>
      match s with
      | [] => some (.empty, [])
      | c :: rest =>
          if c = '|' ∨ c = ')' then some (.empty, c :: rest)
          else
            match parseAtom fuel (c :: rest) with
            | none => none
            | some (a, s') =>
                (parseCat fuel (quantify a s').2).map fun p =>
                  (.cat (quantify a s').1 p.1, p.2)

/-- One item without its quantifier.  Groups other than `(...)` and `(?:...)`
are outside this syntax, and a quantifier with nothing before it is an error. -/
def parseAtom : Nat → List Char → Option (Regex × List Char)
  | 0, _ => none
  | fuel + 1, s =>
      match s with
      | [] => none
      | c :: rest =>
          if c = '(' then
            let inner := if rest.head? = some '?' then rest.drop 2 else rest
            if rest.head? = some '?' ∧ rest.tail.head? ≠ some ':' then none
            else
              match parseAlt fuel inner with
              | some (r, ')' :: rest') => some (.group r, rest')
              | _ => none
          else if c = '[' then readClass rest
          else if c = '\\' then readEscape rest
          else if c = '.' then some (.dot, rest)
          else if c = '^' then some (.bol, rest)
          else if c = '$' then some (.eol, rest)
          else if c = '*' ∨ c = '+' ∨ c = '?' then none
          else if c = '{' then
            if (readCounted rest).isSome then none else some (.brace c, rest)
          else if c = '}' then some (.brace c, rest)
          else some (.char c, rest)

end

/-- The flags of a leading `(?flags)` and the text after it. -/
def readFlags (source : List Char) : List Char × List Char :=
  let letters := (source.drop 2).takeWhile Char.isAlpha
  if source.take 2 = ['(', '?'] ∧ letters ≠ [] ∧
      ((source.drop 2).dropWhile Char.isAlpha).head? = some ')' then
    (letters, ((source.drop 2).dropWhile Char.isAlpha).tail)
  else ([], source)

/-- Parse a whole expression: whether it ignores case, and its syntax tree. -/
def parse (source : List Char) : Option (Bool × Regex) :=
  let (flags, body) := readFlags source
  if flags.all fun c => c = 'i' || c = 's' then
    match parseAlt (3 * body.length + 3) body with
    | some (r, []) => some ('i' ∈ flags, r)
    | _ => none
  else none

/-- A position in a subject: what lies before it, reversed, and after it. -/
structure Cursor where
  before : List Char
  after : List Char
  deriving DecidableEq, Repr

/-- How literals compare, and the members of bracket expressions that use
syntax this file does not spell out. -/
structure Env where
  caseInsensitive : Bool
  oracle : List Char → Char → Bool

/-- The characters a shorthand letter names. -/
def shorthandMem (letter c : Char) : Bool :=
  if letter = 'd' then c.isDigit
  else if letter = 'D' then !c.isDigit
  else if letter = 'w' then isWord c
  else if letter = 'W' then !isWord c
  else if letter = 's' then isBlank c
  else if letter = 'S' then !isBlank c
  else if letter = 'h' then isHorizontal c
  else if letter = 'H' then !isHorizontal c
  else if letter = 'v' then isVertical c
  else if letter = 'V' then !isVertical c
  else false
where
  isWord (c : Char) : Bool := c.isAlphanum || c == '_'
  isBlank (c : Char) : Bool := c.toNat == 32 || (9 ≤ c.toNat && c.toNat ≤ 13)
  isHorizontal (c : Char) : Bool :=
    c.toNat ∈ [0x09, 0x20, 0xA0, 0x1680, 0x180E, 0x202F, 0x205F, 0x3000] ||
      (0x2000 ≤ c.toNat && c.toNat ≤ 0x200A)
  isVertical (c : Char) : Bool :=
    (10 ≤ c.toNat && c.toNat ≤ 13) || c.toNat ∈ [0x85, 0x2028, 0x2029]

/-- Whether a character is a member of one item. -/
def ClassItem.mem (ci : Bool) : ClassItem → Char → Bool
  | .char a, c => sameChar ci a c
  | .range lo hi _, c =>
      inRange lo hi c || (ci && (inRange lo hi c.toLower || inRange lo hi c.toUpper))
  | .shorthand letter, c => shorthandMem letter c
where
  inRange (lo hi c : Char) : Bool := lo ≤ c && c ≤ hi

/-- Whether a character is in a bracket expression. -/
def bracketMem (env : Env) (raw : List Char) (negated : Bool)
    (items : Option (List ClassItem)) (c : Char) : Bool :=
  match items with
  | some is => (is.any fun i => i.mem env.caseInsensitive c) != negated
  | none => env.oracle raw c

/-- Consume one character satisfying `p`. -/
def step (p : Char → Bool) (c : Cursor) : List Cursor :=
  match c.after with
  | [] => []
  | x :: rest => if p x then [⟨x :: c.before, rest⟩] else []

/-- Whether the position separates a word character from anything else. -/
def atBoundary (c : Cursor) : Bool :=
  (c.before.head?.any shorthandMem.isWord) != (c.after.head?.any shorthandMem.isWord)

/-- Exactly `n` copies. -/
def power (f : Cursor → List Cursor) : Nat → Cursor → List Cursor
  | 0, c => [c]
  | n + 1, c => (f c).flatMap (power f n)

/-- At most `n` copies, the preferred number of them first. -/
def upTo (f : Cursor → List Cursor) (isLazy : Bool) : Nat → Cursor → List Cursor
  | 0, c => [c]
  | n + 1, c =>
      if isLazy then c :: (f c).flatMap (upTo f isLazy n)
      else (f c).flatMap (upTo f isLazy n) ++ [c]

/-- The copies that consume something; an unbounded loop makes no others. -/
def progress (f : Cursor → List Cursor) (c : Cursor) : List Cursor :=
  (f c).filter fun d => d.after.length < c.after.length

/-- A quantified item. -/
def repeatRun (f : Cursor → List Cursor) (q : Quant) (isLazy : Bool) (c : Cursor) :
    List Cursor :=
  (power f q.min c).flatMap fun d =>
    match q.max with
    | some n => upTo f isLazy (n - q.min) d
    | none => upTo (progress f) isLazy d.after.length d

/-- The ends of all matches from a position, in priority order. -/
def run (env : Env) : Regex → Cursor → List Cursor
  | .empty, c => [c]
  | .char a, c => step (sameChar env.caseInsensitive a) c
  | .brace a, c => step (sameChar env.caseInsensitive a) c
  | .dot, c => step (fun _ => true) c
  | .shorthand letter, c => step (shorthandMem letter) c
  | .bracket raw negated items, c => step (bracketMem env raw negated items) c
  | .bol, c => if c.before = [] then [c] else []
  | .eol, c => if c.after = [] then [c] else []
  | .boundary negated, c => if atBoundary c != negated then [c] else []
  | .cat a b, c => (run env a c).flatMap (run env b)
  | .alt a b, c => run env a c ++ run env b c
  | .group r, c => run env r c
  | .rep r q m, c =>
      if m = .possessive then (repeatRun (run env r) q false c).take 1
      else repeatRun (run env r) q (m = .lazy) c

/-- The unanchored search: some position of the subject starts a match. -/
def search (oracle : List Char → Char → Bool) (source subject : List Char) : Bool :=
  match parse source with
  | none => false
  | some (ci, r) =>
      (List.range (subject.length + 1)).any fun n =>
        !(run ⟨ci, oracle⟩ r ⟨(subject.take n).reverse, subject.drop n⟩).isEmpty

example : search (fun _ _ => false) "^a|b".toList "xb".toList = true := by decide +kernel
example : search (fun _ _ => false) ".*+b".toList "ab".toList = false := by decide +kernel
example : search (fun _ _ => false) "[]a]{2}".toList "x]a".toList = true := by decide +kernel

end Pcre
