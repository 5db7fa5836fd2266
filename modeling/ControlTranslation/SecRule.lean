import ControlTranslation.RegexTranslator

/-!
# SecRule directives

The proven artifact is text in which the directives `SecRule` are found: line
continuations are joined, every joined line that begins with the keyword is a
directive, and a directive is split into quoted and bare tokens.  The first
token names the variables, the second holds the operator with its argument, the
third the actions.  Quoting is scanned by an explicit mode, so that the scanner
recurses on the unread text.
-/

namespace ModSecurity

open PyText

/-- More directives than this are not read. -/
def maxRules : Nat := 8
/-- A longer argument is not read. -/
def maxArgumentLength : Nat := 4096

/-- A collection, and the part of it a directive reads. -/
structure Variable where
  collection : Str
  selector : Option Str
  deriving DecidableEq, Repr

/-- One directive. -/
structure SecRule where
  vars : List Variable
  negated : Bool
  operator : Str
  argument : Str
  transformations : List Str
  message : Option Str
  tags : List Str
  chained : Bool
  deriving DecidableEq, Repr

/-- Join line continuations; `buffer` is the text continued so far. -/
def joinLines (buffer : Str) : List Str → List Str
  | [] => if strip buffer = [] then [] else [strip buffer]
  | rawLine :: rest =>
      let line := rstrip rawLine
      if line.getLast? = some '\\' then
        joinLines (buffer ++ rstrip line.dropLast ++ [' ']) rest
      else if strip (buffer ++ line) = [] then joinLines [] rest
      else strip (buffer ++ line) :: joinLines [] rest

/-- A character under `re.IGNORECASE`, where the long s folds with `s`. -/
def foldsWith (char c : Char) : Bool :=
  char.toLower == c.toLower || (char.toLower == 's' && c == 'ſ')

/-- A word character of a regex, which `\b` looks at. -/
def isWordChar (t : CharTables) (c : Char) : Bool := t.isalnum c || c == '_'

/-- `_SECRULE_LINE`: white space, the keyword, then no word character. -/
def isSecRuleLine (t : CharTables) (line : Str) : Bool :=
  let body := lstrip line
  (body.take 7).length == 7 && (List.zipWith foldsWith "SecRule".toList body).all id &&
    !(body.drop 7).head?.any (isWordChar t)

/-- `_split_directives`. -/
def splitDirectives (t : CharTables) (text : Str) : List Str :=
  (joinLines [] (splitLines text)).filter (isSecRuleLine t)

/-- Where the tokenizer stands; a chunk is the token read so far, in reverse. -/
inductive TokenMode
  | between
  | quoted (chunk : Str)
  | bare (chunk : Str)

/-- The loop of `_tokenize`. -/
def tokenizeFrom : TokenMode → Str → Attempt (List Str)
  | .between, [] => .ok []
  | .between, c :: rest =>
      if isSpace c then tokenizeFrom .between rest
      else if c = '"' then tokenizeFrom (.quoted []) rest
      else tokenizeFrom (.bare [c]) rest
  | .quoted _, [] => .error "unterminated quoted token"
  | .quoted chunk, ['\\'] => tokenizeFrom (.quoted ('\\' :: chunk)) []
  | .quoted chunk, '\\' :: following :: rest =>
      -- Only `\"` and `\\` are unescaped; any other backslash is the regex's own.
      if following = '"' ∨ following = '\\' then
        tokenizeFrom (.quoted (following :: chunk)) rest
      else tokenizeFrom (.quoted ('\\' :: chunk)) (following :: rest)
  | .quoted chunk, c :: rest =>
      if c = '"' then (tokenizeFrom .between rest).map (chunk.reverse :: ·)
      else tokenizeFrom (.quoted (c :: chunk)) rest
  | .bare chunk, [] => .ok [chunk.reverse]
  | .bare chunk, c :: rest =>
      if isSpace c then (tokenizeFrom .between rest).map (chunk.reverse :: ·)
      else tokenizeFrom (.bare (c :: chunk)) rest

/-- `_tokenize`: the tokens after the keyword. -/
def tokenize (directive : Str) : Attempt (List Str) :=
  tokenizeFrom .between ((strip directive).drop 7)

/-- The loop of `_split_actions`; quotes are dropped and hide commas. -/
def splitActionsFrom (current : Str) : Option Char → Str → List Str
  | _, [] => [strip current.reverse]
  | some quoteChar, char :: rest =>
      if char = quoteChar then splitActionsFrom current none rest
      else splitActionsFrom (char :: current) (some quoteChar) rest
  | none, char :: rest =>
      if char = '\'' ∨ char = '"' then splitActionsFrom current (some char) rest
      else if char = ',' then strip current.reverse :: splitActionsFrom [] none rest
      else splitActionsFrom (char :: current) none rest

/-- `_split_actions`. -/
def splitActions (actions : Str) : List Str :=
  (splitActionsFrom [] none actions).filter (· ≠ [])

/-- A character of `_HTTP_HEADER_NAME`. -/
def isHeaderNameChar (c : Char) : Bool :=
  c.isAlphanum || c ∈ "!#$%&'*+-.^_`|~".toList

/-- One variable of a directive. -/
def parseVariable (t : CharTables) (raw : Str) : Attempt Variable :=
  let item := strip raw
  let collection := t.upper (strip (partition ':' item).1)
  let selector := stripChars ['\'', '"'] (strip (partition ':' item).2)
  if item = [] then .error "empty variable"
  else if item.head? = some '!' then .error "variable exclusions are not expressible"
  else if selector.head? = some '/' ∨ '*' ∈ selector then
    .error "regex variable selectors are not expressible"
  else if collection = "REQUEST_HEADERS".toList ∧ selector ≠ [] ∧
      selector.all isHeaderNameChar = false then
    .error "request header selector is not a valid field name"
  else .ok ⟨collection, if selector = [] then none else some selector⟩

/-- `_parse_variables`. -/
def parseVariables (t : CharTables) (token : Str) : Attempt (List Variable) :=
  match (token.splitOn '|').mapM (parseVariable t) with
  | .error e => .error e
  | .ok vars => if vars = [] then .error "no variables" else .ok vars

/-- What the actions of a directive contribute to the rule. -/
structure Actions where
  transformations : List Str
  message : Option Str
  tags : List Str
  chained : Bool

/-- One action: only `t`, `msg`, `tag` and `chain` are read. -/
def readAction (t : CharTables) (actions : Actions) (action : Str) : Actions :=
  let name := t.lower (strip (partition ':' action).1)
  let value := strip (partition ':' action).2
  if name = "t".toList then
    { actions with transformations := actions.transformations ++ [t.lower value] }
  else if name = "msg".toList then
    { actions with message := if value = [] then none else some value }
  else if name = "tag".toList then
    if value = [] then actions else { actions with tags := actions.tags ++ [value] }
  else if name = "chain".toList then { actions with chained := true }
  else actions

/-- The actions of the third token. -/
def readActions (t : CharTables) (token : Str) : Actions :=
  (splitActions token).foldl (readAction t) ⟨[], none, [], false⟩

/-- The polarity and the rest of an operator token. -/
def readPolarity (token : Str) : Bool × Str :=
  if token.head? = some '!' then (true, lstrip token.tail) else (false, token)

/-- `_parse_secrule`. -/
def parseSecrule (t : CharTables) (directive : Str) : Attempt SecRule :=
  match tokenize directive with
  | .error e => .error e
  | .ok (variableToken :: operatorToken :: more) =>
      match parseVariables t variableToken with
      | .error e => .error e
      | .ok vars =>
          let (negated, operatorToken) := readPolarity (strip operatorToken)
          if operatorToken.head? ≠ some '@' then
            .error "SecRule operator must be explicit (@rx, @contains, ...)"
          else
            let operator := strip (partition ' ' operatorToken.tail).1
            let argument := strip (partition ' ' operatorToken.tail).2
            if maxArgumentLength < argument.length then
              .error "operator argument is too large"
            else
              let actions := readActions t (more.headD [])
              .ok ⟨vars, negated, operator, argument, actions.transformations,
                actions.message, actions.tags, actions.chained⟩
  | .ok _ => .error "SecRule needs a variable and an operator"

example :
    (tokenize "SecRule ARGS:a \"@rx x\\\"y\" 'chain'".toList).toOption =
      some ["ARGS:a".toList, "@rx x\"y".toList, "'chain'".toList] := by
  decide +kernel

end ModSecurity
