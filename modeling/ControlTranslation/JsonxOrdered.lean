import ControlTranslation.GoScanner
import ControlTranslation.GoText

/-!
# Ordered JSON of the port

`ordered.go`: objects that keep their keys in order, with an encoder and a
decoder over `encoding/json`.  An object encodes itself, and what it wrote is
compacted by the package once more on every level; the decoder reads an object
key by key, takes the text of each value and decodes it in turn.  Containers
that nest deeper than the package allows are an error of either.

The number of levels is an argument here, and the port's functions are those at
`maxNestingDepth`.  Trees hold the values the decoder makes: ordered members,
repeated keys included, and numbers as their text.
-/

namespace Jsonx

open PyText GoScanner

/-- `maxNestingDepth` of `encoding/json`. -/
def maxNestingDepth : Nat := 10000

/-- The integer of a number, and what follows it. -/
def afterInteger : Str → Option Str
  | [] => none
  | c :: rest =>
      if c = '0' then some rest
      else if isPositiveDigit c then some (rest.dropWhile Char.isDigit)
      else none

/-- What follows a fraction, if there is one. -/
def afterFraction : Str → Str
  | '.' :: d :: rest =>
      if d.isDigit then rest.dropWhile Char.isDigit else '.' :: d :: rest
  | s => s

/-- What follows an exponent, if there is one. -/
def afterExponent : Str → Option Str
  | e :: c :: rest =>
      if e = 'e' ∨ e = 'E' then
        if c = '+' ∨ c = '-' then
          if rest.isEmpty then none else some (rest.dropWhile Char.isDigit)
        else some ((c :: rest).dropWhile Char.isDigit)
      else some (e :: c :: rest)
  | s => some s

/-- What follows an optional minus. -/
def afterMinus : Str → Str
  | '-' :: rest => rest
  | s => s

/-- `isValidNumber`. -/
def isValidNumber (s : Str) : Bool :=
  match afterInteger (afterMinus s) with
  | none => false
  | some rest => afterExponent (afterFraction rest) == some []

/-- The encoding of a `json.Number`. -/
def encodeNumber (literal : Str) : Option Str :=
  if literal.isEmpty then some ['0']
  else if isValidNumber literal then some literal
  else none

/-- Texts with commas between them. -/
def joined : List Str → Str
  | [] => []
  | [text] => text
  | text :: rest => text ++ ',' :: joined rest

mutual

/-- `Marshal`. -/
def marshalWithin (limit : Nat) : JsonValue → Option Str
  | .null => some ['n', 'u', 'l', 'l']
  | .bool true => some ['t', 'r', 'u', 'e']
  | .bool false => some ['f', 'a', 'l', 's', 'e']
  | .number literal => encodeNumber literal
  | .text s => some (JsonValue.printText GoText.encodeChar s)
  | .array items => do
      let texts ← marshalItems limit items
      return '[' :: (joined texts ++ [']'])
  -- `Obj.MarshalJSON`, and the compaction of what it returned.
  | .object members => do
      let texts ← marshalMembers limit members
      compact limit ('{' :: (joined texts ++ ['}']))

/-- `marshalWithin` over the items of an array. -/
def marshalItems (limit : Nat) : List JsonValue → Option (List Str)
  | [] => some []
  | item :: rest => do
      let text ← marshalWithin limit item
      let texts ← marshalItems limit rest
      return text :: texts

/-- `marshalWithin` over the members of an object, each after its key. -/
def marshalMembers (limit : Nat) : List (Str × JsonValue) → Option (List Str)
  | [] => some []
  | (key, value) :: rest => do
      let text ← marshalWithin limit value
      let texts ← marshalMembers limit rest
      return (JsonValue.printText GoText.encodeChar key ++ ':' :: text) :: texts

end

/-- `Marshal`. -/
def marshal (value : JsonValue) : Option Str := marshalWithin maxNestingDepth value

/-- `getu4`. -/
def hex4 (a b c d : Char) : Option Nat :=
  if isHexDigit a && isHexDigit b && isHexDigit c && isHexDigit d then
    some (16 * (16 * (16 * hexValue a + hexValue b) + hexValue c) + hexValue d)
  else none

/-- `utf16.IsSurrogate`. -/
def isSurrogate (r : Nat) : Bool := 0xD800 ≤ r && r < 0xE000

/-- `utf16.DecodeRune`, of a valid pair. -/
def decodeRune (high low : Nat) : Option Nat :=
  if 0xD800 ≤ high ∧ high < 0xDC00 ∧ 0xDC00 ≤ low ∧ low < 0xE000 then
    some ((high - 0xD800) * 1024 + (low - 0xDC00) + 0x10000)
  else none

/-- The character a one-letter escape stands for. -/
def unescaped (c : Char) : Option Char :=
  if c = '"' ∨ c = '\\' ∨ c = '/' ∨ c = '\'' then some c
  else if c = 'b' then some '\x08'
  else if c = 'f' then some '\x0c'
  else if c = 'n' then some '\n'
  else if c = 'r' then some '\r'
  else if c = 't' then some '\t'
  else none

/-- The rune of a surrogate and the escape after it. -/
def pairedRune (r : Nat) : Str → Option Nat
  | '\\' :: 'u' :: a :: b :: c :: d :: _ => (hex4 a b c d).bind (decodeRune r)
  | _ => none

/-- The characters between the quotes of a literal, after some that were read
with an earlier one. -/
def unquoteBody : Nat → Str → Option Str
  | _, [] => some []
  | skip + 1, _ :: rest => unquoteBody skip rest
  | 0, '\\' :: 'u' :: a :: b :: c :: d :: rest =>
      match hex4 a b c d with
      | none => none
      | some r =>
          if isSurrogate r then
            match pairedRune r rest with
            | some rune => (unquoteBody 6 rest).map (Char.ofNat rune :: ·)
            | none => (unquoteBody 0 rest).map ('\uFFFD' :: ·)
          else (unquoteBody 0 rest).map (Char.ofNat r :: ·)
  | 0, '\\' :: c :: rest => (unescaped c).bind fun e => (unquoteBody 0 rest).map (e :: ·)
  | 0, c :: rest =>
      if c = '\\' ∨ c = '"' ∨ c.toNat < 32 then none else (unquoteBody 0 rest).map (c :: ·)

/-- `unquote`. -/
def unquote : Str → Option Str
  | '"' :: rest => if rest.getLast? = some '"' then unquoteBody 0 rest.dropLast else none
  | _ => none

/-- A literal, decoded into `any` with `UseNumber`. -/
def literalValue : Str → Option JsonValue
  | 'n' :: _ => some .null
  | 't' :: _ => some (.bool true)
  | 'f' :: _ => some (.bool false)
  | '"' :: rest => (unquote ('"' :: rest)).map .text
  | literal => some (.number literal)

/-- White space before a token is skipped. -/
def peek (text : Str) : Str := text.dropWhile GoScanner.isSpace

/-- One turn of the loop of `Obj.UnmarshalJSON`, at a key: the member and what
follows it. -/
def readMember (limit : Nat) (decode : Str → Option JsonValue) (text : Str) :
    Option ((Str × JsonValue) × Str) := do
  let (literal, afterKey) ← readValue limit text
  let key ← unquote literal
  match peek afterKey with
  | ':' :: afterColon => do
      let (raw, left) ← readValue limit (peek afterColon)
      let value ← decode raw
      return ((key, value), left)
  | _ => none

/-- The loop of `Obj.UnmarshalJSON` to the closing brace. -/
def readMembers (limit : Nat) (decode : Str → Option JsonValue) :
    Nat → Bool → Str → Option Members
  | 0, _, _ => none
  | fuel + 1, first, text =>
      match peek text, first with
      | '}' :: _, _ => some []
      | '"' :: rest, true => do
          let (member, left) ← readMember limit decode ('"' :: rest)
          let members ← readMembers limit decode fuel false left
          return member :: members
      | ',' :: rest, false =>
          match peek rest with
          | '"' :: rest => do
              let (member, left) ← readMember limit decode ('"' :: rest)
              let members ← readMembers limit decode fuel false left
              return member :: members
          | _ => none
      | _, _ => none

/-- `Obj.UnmarshalJSON`; every turn of the loop takes some of the text. -/
def unmarshalJSON (limit : Nat) (decode : Str → Option JsonValue) (data : Str) :
    Option Members :=
  match peek data with
  | '{' :: rest => readMembers limit decode (rest.length + 1) true rest
  | _ => none

/-- The elements of an array to the closing bracket. -/
def readItems (limit : Nat) : Nat → Bool → Str → Option (List Str)
  | 0, _, _ => none
  | fuel + 1, first, text =>
      match peek text, first with
      | ']' :: _, _ => some []
      | ',' :: rest, false => do
          let (raw, left) ← readValue limit (peek rest)
          let raws ← readItems limit fuel false left
          return raw :: raws
      | c :: rest, true => do
          let (raw, left) ← readValue limit (c :: rest)
          let raws ← readItems limit fuel false left
          return raw :: raws
      | _, _ => none

/-- `json.Unmarshal` into `[]json.RawMessage`. -/
def unmarshalRaws (limit : Nat) (data : Str) : Option (List Str) :=
  if checkValid limit data then
    match peek data with
    | '[' :: rest => readItems limit (rest.length + 1) true rest
    | _ => none
  else none

/-- `decodeAny`, with a bound on the levels it enters. -/
def decodeWithin (limit : Nat) : Nat → Str → Option JsonValue
  | 0, _ => none
  | levels + 1, raw =>
      match GoText.trimSpace raw with
      | [] => some .null
      | '{' :: rest =>
          (unmarshalJSON limit (decodeWithin limit levels) ('{' :: rest)).map .object
      | '[' :: rest => do
          let raws ← unmarshalRaws limit ('[' :: rest)
          (raws.mapM (decodeWithin limit levels)).map .array
      | trimmed => do
          let (literal, _) ← readValue limit trimmed
          literalValue literal

/-- `decodeAny`; a text has no more levels than characters. -/
def decodeAny (raw : Str) : Option JsonValue :=
  decodeWithin maxNestingDepth (raw.length + 1) raw

/-- `json.Unmarshal` into an `Obj`. -/
def unmarshal (data : Str) : Option Members :=
  if checkValid maxNestingDepth data then
    unmarshalJSON maxNestingDepth (decodeWithin maxNestingDepth data.length) data
  else none

end Jsonx
