import ControlTranslation.SemanticGates

/-!
# Deriving the proven JSON field

From the request a Mitigation Check proved, the service derives the one scalar
JSON field that the discriminator and the proven artifact both mention.  The
document is walked under bounds on depth, nodes and leaves; every text leaf is
compared with the two pieces of evidence, by its whole value, by one token of
it, or by the mere presence of its field in a pure presence rule of the
artifact.  A feature is derived when exactly one leaf is corroborated.

Decoding is left to the parameter `loads`, which refuses what `json.loads`
refuses with the hooks against duplicate keys and non-standard constants.
-/

namespace JsonFieldInference

open PyText JsonValue ModSecurity FnMatch SemanticGates

/-- A longer body is not looked into. -/
def maxJsonBodyBytes : Nat := 64 * 1024
/-- Values nested deeper are passed over. -/
def maxJsonDepth : Nat := 12
/-- A body with more leaves is given up. -/
def maxJsonLeaves : Nat := 256
/-- A body with more nodes is given up. -/
def maxJsonNodes : Nat := 1024

/-- A character of `[A-Za-z0-9_-]`. -/
def isFieldChar (c : Char) : Bool := c.isAlphanum || c == '_' || c == '-'

/-- `[A-Za-z0-9_-]{1,128}`. -/
def isFieldKey (key : Str) : Bool :=
  1 ≤ key.length && key.length ≤ 128 && key.all isFieldChar

/-- The ASCII form under which `re.IGNORECASE` compares a character: four letters
outside ASCII fold with the ASCII letters. -/
def reFold (c : Char) : Char :=
  if c = '\u0130' ∨ c = '\u0131' then 'i'
  else if c = '\u017f' then 's'
  else if c = '\u212a' then 'k'
  else c.toLower

/-- A search for a name that no character of `inName` touches; `before` is the
character in front of the text. -/
def standsIn (inName : Char → Bool) (fold : Char → Char) (name : Str) :
    Option Char → Str → Bool
  | _, [] => false
  | before, c :: rest =>
      (!before.any inName && (name.map fold).isPrefixOf ((c :: rest).map fold) &&
        !((c :: rest).drop name.length).head?.any inName) ||
      standsIn inName fold name (some c) rest

/-- `_evidence_mentions_path`. -/
def evidenceMentionsPath (source dottedPath terminal : Str) : Bool :=
  isSubstring dottedPath source || standsIn isFieldChar id terminal none source

/-- A character of a token after its first: a name character or one of `.:+/`. -/
def isTokenChar (c : Char) : Bool := isFieldChar c || c ∈ ".:+/".toList

/-- The token at the start of a text, `_CORROBORATION_TOKEN`. -/
def readToken : Str → Option Str
  | [] => none
  | c :: rest =>
      if c = '-' then
        let run := ((rest.drop 1).takeWhile isFieldChar).take 64
        if rest.head? = some '-' ∧ 2 ≤ run.length then some ('-' :: '-' :: run) else none
      else
        let run := (rest.takeWhile isTokenChar).take 127
        if c.isAlphanum ∧ 2 ≤ run.length then some (c :: run) else none

/-- `findall`: after a token the search goes on behind it. -/
def findTokens : Nat → Str → List Str
  | _, [] => []
  | skip + 1, _ :: rest => findTokens skip rest
  | 0, c :: rest =>
      match readToken (c :: rest) with
      | some token => token :: findTokens (token.length - 1) rest
      | none => findTokens 0 rest

/-- The text after a word, letter case ignored. -/
def readWord (word text : Str) : Option Str :=
  if (word.map reFold).isPrefixOf (text.map reFold) then some (text.drop word.length) else none

/-- The text after `\s+`. -/
def readSpaces (text : Str) : Option Str :=
  if text.head?.any isSpace then some (lstrip text) else none

/-- `(?:\\.|[^"\\])*"`: the text up to the first quote without a backslash, and
the text after it. -/
def readQuoted : Str → Option (Str × Str)
  | [] => none
  | ['\\'] => none
  | '\\' :: c :: rest =>
      if c = '\n' then none
      else (readQuoted rest).map fun parts => ('\\' :: c :: parts.1, parts.2)
  | c :: rest =>
      if c = '"' then some ([], rest)
      else (readQuoted rest).map fun parts => (c :: parts.1, parts.2)

/-- `request_body_rx` at the start of a line: the expression of the directive. -/
def requestBodyRx (line : Str) : Option Str := do
  let keyword ← readWord "SecRule".toList (lstrip line)
  let target ← readSpaces keyword
  let collection ← readWord "REQUEST_BODY".toList target
  let operator ← readSpaces collection
  let argument ← readWord "\"@rx".toList operator
  let quoted ← readSpaces argument
  let (expression, closed) ← readQuoted quoted
  let actions ← readSpaces closed
  if actions.head? = some '"' then some expression else none

/-- `text.replace(pair, "")` for a pair of distinct characters. -/
def erasePair (first second : Char) : Str → Str
  | [] => []
  | [c] => [c]
  | c :: d :: rest =>
      if c = first ∧ d = second then erasePair first second rest
      else c :: erasePair first second (d :: rest)

/-- `field_pattern.sub("", text)`; `skip` characters belong to a name found. -/
def eraseNames (name : Str) : Option Char → Nat → Str → Str
  | _, _, [] => []
  | _, skip + 1, c :: rest => eraseNames name (some c) skip rest
  | before, 0, c :: rest =>
      if !before.any (fun c => isFieldChar (reFold c)) &&
          (name.map reFold).isPrefixOf ((c :: rest).map reFold) &&
          !((c :: rest).drop name.length).head?.any (fun c => isFieldChar (reFold c)) then
        eraseNames name (some c) (name.length - 1) rest
      else c :: eraseNames name (some c) 0 rest

/-- A character of `[\s()?:|]`. -/
def isGrouping (c : Char) : Bool := isSpace c || c ∈ "()?:|".toList

/-- What is left of an expression without the name, word boundaries, quotes and
grouping. -/
def remainder (expression field : Str) : Str :=
  let named := eraseNames field none 0 (erasePair '\\' 'b' expression)
  ((erasePair '\\' '"' named).filter (· ≠ '\'')).filter fun c => !isGrouping c

/-- One line of the artifact taken for a rule on the presence of the field. -/
def presenceLine (field line : Str) : Bool :=
  (lstrip line).head? ≠ some '#' &&
    (requestBodyRx line).any fun expression =>
      standsIn (fun c => isFieldChar (reFold c)) reFold field none expression &&
        remainder expression field = []

/-- `_artifact_blocks_json_field_presence`. -/
def artifactBlocksJsonFieldPresence (artifact field : Str) : Bool :=
  (splitLines artifact).any (presenceLine field)

/-- What the walk has seen. -/
structure Walk where
  nodesVisited : Nat
  exceeded : Bool
  leaves : List (List Str × Str)

/-- A text leaf, unless it is blank or too long. -/
def Walk.leaf (w : Walk) (path : List Str) (s : Str) : Walk :=
  if strip s ≠ [] ∧ s.length ≤ 4096 then
    { w with
      leaves := w.leaves ++ [(path, s)]
      exceeded := w.exceeded || maxJsonLeaves < w.leaves.length + 1 }
  else w

mutual

/-- `visit`. -/
def visit (path : List Str) (depth : Nat) (w : Walk) : JsonValue → Walk
  | .object members =>
      if maxJsonNodes < w.nodesVisited + 1 then
        { w with nodesVisited := w.nodesVisited + 1, exceeded := true }
      else if maxJsonDepth < depth then { w with nodesVisited := w.nodesVisited + 1 }
      else visitMembers path depth { w with nodesVisited := w.nodesVisited + 1 } members
  | .text s =>
      if maxJsonNodes < w.nodesVisited + 1 then
        { w with nodesVisited := w.nodesVisited + 1, exceeded := true }
      else if maxJsonDepth < depth then { w with nodesVisited := w.nodesVisited + 1 }
      else { w with nodesVisited := w.nodesVisited + 1 }.leaf path s
  | _ =>
      { w with
        nodesVisited := w.nodesVisited + 1
        exceeded := w.exceeded || maxJsonNodes < w.nodesVisited + 1 }

/-- The members of an object; a name that is no field key is passed over. -/
def visitMembers (path : List Str) (depth : Nat) (w : Walk) : List (Str × JsonValue) → Walk
  | [] => w
  | (key, child) :: rest =>
      if isFieldKey key = false then visitMembers path depth w rest
      else
        let visited := visit (path ++ [key]) (depth + 1) w child
        if visited.exceeded then visited else visitMembers path depth visited rest

end

/-- What the inference reads of the proven request. -/
structure RequestContext where
  method : Str
  headers : List (Str × Str)
  body : Str

/-- `content_type`: the value of the first header of that name. -/
def RequestContext.contentType (t : CharTables) (context : RequestContext) : Str :=
  ((context.headers.find? fun header => t.lower header.1 = "content-type".toList).map
    fun header => t.lower header.2).getD []

/-- Whether a request posts a JSON body within bounds. -/
def postsJson (t : CharTables) (context : RequestContext) : Bool :=
  t.upper (strip context.method) == "POST".toList &&
    t.lower (strip (partition ';' (context.contentType t)).1) == "application/json".toList &&
    (context.body.flatMap utf8).length ≤ maxJsonBodyBytes

variable {t : CharTables} (cs : Casing t)

/-- Both pieces of evidence, folded. -/
def evidenceOf (discriminator artifact : Str) : List Str :=
  [cs.casefold discriminator, cs.casefold artifact]

/-- The folded tokens of a value that all evidence has. -/
def sharedTokens (evidence : List Str) (value : Str) : List Str :=
  unique (((findTokens 0 value).map cs.casefold).filter fun folded =>
    evidence.all (isSubstring folded))

/-- The last token of a value with a given folded form. -/
def tokenOf (value folded : Str) : Option Str :=
  ((findTokens 0 value).filter fun token => cs.casefold token = folded).getLast?

/-- How the evidence corroborates a leaf, if it does. -/
def corroborate (evidence : List Str) (artifact : Str) (leaf : List Str × Str) :
    Option (List Str × Str × ValueMatch) :=
  let dottedPath := cs.casefold (join ['.'] leaf.1)
  let field := leaf.1.getLast?.getD []
  if evidence.all fun source => evidenceMentionsPath source dottedPath (cs.casefold field) then
    if evidence.all (isSubstring (cs.casefold leaf.2)) then some (leaf.1, leaf.2, .exact)
    else
      match sharedTokens cs evidence leaf.2 with
      | [folded] => (tokenOf cs leaf.2 folded).map fun token => (leaf.1, token, .containsToken)
      | _ =>
          if artifactBlocksJsonFieldPresence artifact field then
            some (leaf.1, ['*'], .fieldPresent)
          else none
  else none

/-- White space as the contract models strip it: the information separators stay. -/
def isContractSpace (c : Char) : Bool := isSpace c && !(28 ≤ c.toNat && c.toNat ≤ 31)

/-- What a text field of a strict contract model keeps of a text. -/
def contractStrip (s : Str) : Str := (s.dropWhile isContractSpace).rdropWhile isContractSpace

/-- `JsonBodyFieldFeature(...)`, which refuses values out of its bounds. -/
def buildFeature (path : List Str) (value : Str) (valueMatch : ValueMatch) :
    Option JsonBodyFieldFeature :=
  match path with
  | [] => none
  | segment :: rest =>
      if (segment :: rest).length ≤ 16 ∧ (segment :: rest).all isFieldKey ∧
          contractStrip value ≠ [] ∧ (contractStrip value).length ≤ 4096 ∧
          strip (contractStrip value) ≠ [] then
        some {
          method := "POST".toList
          contentType := "application/json".toList
          fieldPath := segment :: rest
          value := contractStrip value
          valueMatch := valueMatch
          fieldPath_ne := List.cons_ne_nil _ _ }
      else none

/-- `_json_body_field_feature`. -/
def jsonBodyFieldFeature (loads : Str → Option JsonValue) (context : RequestContext)
    (discriminator artifact : Str) : Option JsonBodyFieldFeature :=
  if postsJson t context = false then none
  else
    match loads context.body with
    | some (.object members) =>
        let walk := visit [] 0 ⟨0, false, []⟩ (.object members)
        if walk.exceeded ∨ walk.leaves = [] then none
        else
          match walk.leaves.filterMap
              (corroborate cs (evidenceOf cs discriminator artifact) artifact) with
          | [(path, value, valueMatch)] => buildFeature path value valueMatch
          | _ => none
    | _ => none

end JsonFieldInference
