import ControlTranslation.GoTranslator
import ControlTranslation.RuleCompiler

/-!
# The rule compiler of the port

Directives, tokens, actions, operators and conditions as the port reads and builds
them.  It trims with its own white space, counts an argument in bytes, checks no
header name, derives no transport form and has one label for everything that is not
exact.  The rule over the final conditions is put together as in the original, and
the text of a rule is the encoder's of the program that made it.
-/

namespace GoCompiler

open PyText GoText ModSecurity

/-- The loop of `splitDirectives`; `buffer` is what the builder holds. -/
def joinLines (buffer : Str) : List Str → List Str
  | [] => if trimSpace buffer = [] then [] else [trimSpace buffer]
  | raw :: rest =>
      let line := trimRightBlanks (removeSuffix '\r' raw)
      if line.getLast? = some '\\' then
        joinLines (buffer ++ trimRightBlanks line.dropLast ++ [' ']) rest
      else if trimSpace (buffer ++ line) = [] then joinLines [] rest
      else trimSpace (buffer ++ line) :: joinLines [] rest

/-- What `\s` matches in an expression of this language. -/
def isPatternSpace (c : Char) : Bool := c ∈ ['\t', '\n', '\x0c', '\r', ' ']

/-- What `\b` takes for a word character. -/
def isWordChar (c : Char) : Bool := c.isAlphanum || c == '_'

/-- `secRuleLine`. -/
def isSecRuleLine (line : Str) : Bool :=
  let body := line.dropWhile isPatternSpace
  (body.take 7).length == 7 && (List.zipWith foldsWith "SecRule".toList body).all id &&
    !(body.drop 7).head?.any isWordChar

/-- `splitDirectives`. -/
def splitDirectives (text : Str) : List Str :=
  (joinLines [] (text.splitOn '\n')).filter isSecRuleLine

/-- The loop of `tokenize`. -/
def tokenizeFrom : TokenMode → Str → Attempt (List Str)
  | .between, [] => .ok []
  | .between, c :: rest =>
      if GoText.isSpace c then tokenizeFrom .between rest
      else if c = '"' then tokenizeFrom (.quoted []) rest
      else tokenizeFrom (.bare [c]) rest
  | .quoted _, [] => .error "unterminated quoted token"
  | .quoted chunk, ['\\'] => tokenizeFrom (.quoted ('\\' :: chunk)) []
  | .quoted chunk, '\\' :: following :: rest =>
      if following = '"' ∨ following = '\\' then
        tokenizeFrom (.quoted (following :: chunk)) rest
      else tokenizeFrom (.quoted ('\\' :: chunk)) (following :: rest)
  | .quoted chunk, c :: rest =>
      if c = '"' then (tokenizeFrom .between rest).map (chunk.reverse :: ·)
      else tokenizeFrom (.quoted (c :: chunk)) rest
  | .bare chunk, [] => .ok [chunk.reverse]
  | .bare chunk, c :: rest =>
      if GoText.isSpace c then (tokenizeFrom .between rest).map (chunk.reverse :: ·)
      else tokenizeFrom (.bare (c :: chunk)) rest

/-- `tokenize`: the keyword is cut off by its length in bytes. -/
def tokenize (directive : Str) : Attempt (List Str) :=
  tokenizeFrom .between (dropBytes 7 (trimSpace directive))

/-- The loop of `splitActions`. -/
def splitActionsFrom (current : Str) : Option Char → Str → List Str
  | _, [] => [trimSpace current.reverse]
  | some quoteChar, char :: rest =>
      if char = quoteChar then splitActionsFrom current none rest
      else splitActionsFrom (char :: current) (some quoteChar) rest
  | none, char :: rest =>
      if char = '\'' ∨ char = '"' then splitActionsFrom current (some char) rest
      else if char = ',' then trimSpace current.reverse :: splitActionsFrom [] none rest
      else splitActionsFrom (char :: current) none rest

/-- `splitActions`. -/
def splitActions (actions : Str) : List Str :=
  (splitActionsFrom [] none actions).filter (· ≠ [])

/-- One variable of `parseVariables`; an empty selector is none. -/
def parseVariable (g : GoText.Tables) (raw : Str) : Attempt Variable :=
  let item := trimSpace raw
  let collection := upper g (trimSpace (partition ':' item).1)
  let selector := stripChars ['\'', '"'] (trimSpace (partition ':' item).2)
  if item = [] then .error "empty variable"
  else if item.head? = some '!' then .error "variable exclusions are not expressible"
  else if selector.head? = some '/' ∨ '*' ∈ selector then
    .error "regex variable selectors are not expressible"
  else .ok ⟨collection, if selector = [] then none else some selector⟩

/-- `parseVariables`. -/
def parseVariables (g : GoText.Tables) (token : Str) : Attempt (List Variable) :=
  match (token.splitOn '|').mapM (parseVariable g) with
  | .error e => .error e
  | .ok vars => if vars = [] then .error "no variables" else .ok vars

/-- One action; an empty message leaves the one before it. -/
def readAction (g : GoText.Tables) (actions : Actions) (action : Str) : Actions :=
  let name := lower g (trimSpace (partition ':' action).1)
  let value := trimSpace (partition ':' action).2
  if name = "t".toList then
    { actions with transformations := actions.transformations ++ [lower g value] }
  else if name = "msg".toList then
    if value = [] then actions else { actions with message := some value }
  else if name = "tag".toList then
    if value = [] then actions else { actions with tags := actions.tags ++ [value] }
  else if name = "chain".toList then { actions with chained := true }
  else actions

/-- The actions of the third token. -/
def readActions (g : GoText.Tables) (token : Str) : Actions :=
  (splitActions token).foldl (readAction g) ⟨[], none, [], false⟩

/-- The polarity and the rest of an operator token. -/
def readPolarity (token : Str) : Bool × Str :=
  if token.head? = some '!' then (true, trimLeftBlanks token.tail) else (false, token)

/-- `parseSecRule`. -/
def parseSecRule (g : GoText.Tables) (directive : Str) : Attempt SecRule :=
  match tokenize directive with
  | .error e => .error e
  | .ok (variableToken :: operatorToken :: more) =>
      match parseVariables g variableToken with
      | .error e => .error e
      | .ok vars =>
          let (negated, operatorToken) := readPolarity (trimSpace operatorToken)
          if operatorToken.head? ≠ some '@' then
            .error "SecRule operator must be explicit (@rx, @contains, ...)"
          else
            let operator := trimSpace (partition ' ' operatorToken.tail).1
            let argument := trimSpace (partition ' ' operatorToken.tail).2
            if maxArgumentLength < byteLength argument then
              .error "operator argument is too large"
            else
              let actions := readActions g (more.headD [])
              .ok ⟨vars, negated, operator, argument, actions.transformations,
                actions.message, actions.tags, actions.chained⟩
  | .ok _ => .error "SecRule needs a variable and an operator"

/-- `@rx`. -/
def regexMatch (g : GoText.Tables) (argument : Str) : Attempt Match :=
  match translateRegex g argument with
  | .error e => .error e
  | .ok r => .ok {
      values := r.values, wildcard := r.wildcard, caseInsensitive := r.caseInsensitive,
      lossy := r.lossy, narrowed := r.narrowed }

/-- The addresses between commas and white space. -/
def splitAddresses (argument : Str) : List Str :=
  (argument.splitOnP fun c => c == ',' || GoText.isSpace c).filter (· ≠ [])

/-- `@pm`. -/
def phraseMatch (argument : Str) : Attempt Match :=
  let members := unique (fields argument)
  if members = [] then .error "empty @pm list"
  else if maxValues < members.length then .error "@pm list is too large"
  else .ok { values := members.map fun item => '*' :: item ++ ['*'], wildcard := true,
             caseInsensitive := true, lossy := false }

/-- `operatorMatch`. -/
def operatorMatch (g : GoText.Tables) (rule : SecRule) : Attempt Match :=
  if rule.operator = "rx".toList then regexMatch g rule.argument
  else if rule.operator = "contains".toList then literalMatch ['*'] ['*'] true rule.argument
  else if rule.operator = "beginsWith".toList then literalMatch [] ['*'] true rule.argument
  else if rule.operator = "endsWith".toList then literalMatch ['*'] [] true rule.argument
  else if rule.operator = "streq".toList ∨ rule.operator = "eq".toList then
    literalMatch [] [] false rule.argument
  else if rule.operator = "within".toList then
    memberMatch "empty @within list" (unique (fields rule.argument))
  else if rule.operator = "pm".toList then phraseMatch rule.argument
  else if rule.operator = "ipMatch".toList then
    memberMatch "empty @ipMatch list" (unique (splitAddresses rule.argument))
  else .error ("unsupported ModSecurity operator: @" ++ String.ofList rule.operator)

/-- `encodingVariants`. -/
def encodingVariants (values : List Str) : List Str :=
  unique (values.flatMap fun value =>
    [value, quoteAll value, quotePlusAll value, quoteAll (quoteAll value)])

/-- The values a condition is emitted with. -/
def conditionValues (g : GoText.Tables) (c : Component) (v : Variable) (m : Match) : List Str :=
  if v.collection = "REQUEST_METHOD".toList then unique (m.values.map (upper g))
  else if c.encodable ∧ m.wildcard = false then encodingVariants m.values
  else m.values

/-- `buildCondition`. -/
def buildCondition (g : GoText.Tables) (v : Variable) (rule : SecRule) (m : Match)
    (caseSensitive : Bool) : Attempt CompiledCondition :=
  match component v.collection with
  | none => .error ("unsupported ModSecurity collection: " ++ String.ofList v.collection)
  | some c =>
      let type := conditionTypeOf c v
      if c.literalOnly ∧ m.wildcard then
        .error (String.ofList c.label ++ " conditions require literal values")
      else if v.collection = "REMOTE_ADDR".toList ∧ rule.operator ≠ "ipMatch".toList then
        .error "client IP conditions require @ipMatch"
      else
        .ok {
          condition := {
            type := type
            positiveMatch := !rule.negated
            selector :=
              match c.selectorKey, v.selector with
              | some key, some selector => some (key, selector)
              | _, _ => none
            valueCase := if type.hasValueFlags then some caseSensitive else none
            valueWildcard := if type.hasValueFlags then some m.wildcard else none
            value := conditionValues g c v m }
          notes := c.coverageNote.toList ++ encodingNotes c v m
          lossy := m.lossy
          narrowed := m.narrowed }

/-- The body of the loop over the directives. -/
def compileRule (g : GoText.Tables) (several : Bool) (rule : SecRule) : Attempt Compiled :=
  match operatorMatch g rule with
  | .error e => .error e
  | .ok m =>
      if several ∧ 1 < rule.vars.length then
        .error ("a chained SecRule with alternative variables cannot be " ++
          "expressed under a single AND operation")
      else
        match rule.vars.mapM fun v => buildCondition g v rule m (caseSensitiveOf rule m) with
        | .error e => .error e
        | .ok built =>
            if rule.transformations.all toleratedTransformations.contains then
              .ok {
                conditions := built.map (·.condition)
                mappings := List.zipWith (mappingText rule) rule.vars
                  (built.map (·.condition))
                notes := built.flatMap (·.notes)
                lossy := built.any (·.lossy)
                narrowed := built.any (·.narrowed) }
            else .error "unsupported ModSecurity transformation"

/-- The loop over the directives. -/
def compileRules (g : GoText.Tables) (rules : List SecRule) : Attempt Compiled :=
  match rules.mapM (compileRule g (1 < rules.length)) with
  | .error e => .error e
  | .ok parts => .ok (parts.foldl Compiled.append ⟨[], [], [], false, false⟩)

/-- The label: whatever is not exact counts as narrower. -/
def labelOf (lossy narrowed : Bool) : TranslationLabel :=
  if lossy ∨ narrowed then .narrower else .equivalent

/-- The proposal over the compiled directives. -/
def propose (pattern : Pattern) (rules : List SecRule) (compiled : Compiled) : Proposal :=
  { candidateContent := ruleBody pattern rules compiled.conditions
    translationLabel := labelOf compiled.lossy compiled.narrowed
    justification :=
      ("Compiled the proven ModSecurity SecRule deterministically into " ++
        "Akamai custom-rule conditions: ").toList ++
      join "; ".toList compiled.mappings ++ ['.']
    translationAssumptions := translationAssumptions
    limitations := shapeLimitation :: unique compiled.notes ++
      (if compiled.lossy then [lossyLimitation] else []) ++
      if compiled.narrowed then [narrowedLimitation] else [] }

/-- `compileAkamai`. -/
def compile (g : GoText.Tables) (pattern : Pattern) : Attempt Proposal :=
  let directives := splitDirectives pattern.patternSummary
  if directives = [] then .error "no SecRule directives"
  else if maxRules < directives.length then .error "too many SecRule directives"
  else
    match directives.mapM (parseSecRule g) with
    | .error e => .error e
    | .ok rules =>
        if 1 < rules.length ∧ anyChained rules = false then
          .error "independent SecRule directives do not compose into one custom rule"
        else
          match compileRules g rules with
          | .error e => .error e
          | .ok compiled =>
              if compiled.conditions = [] then .error "no conditions were produced"
              else .ok (propose pattern rules compiled)

/-- `CompileAkamaiCustomRule`. -/
def compileAkamaiCustomRule (g : GoText.Tables) (pattern : Pattern) : Option Proposal :=
  (compile g pattern).toOption

/-- An operation as the Go port writes it. -/
def operationName : Operation → Str
  | .and => "AND".toList
  | .or => "OR".toList

/-- A selector key as the Go port writes it. -/
def selectorName : SelectorKey → Str
  | .parameter => "parameter".toList
  | .header => "header".toList
  | .name => "name".toList

/-- The object of one condition, its keys in the order both programs set them. -/
def conditionJson (c : Condition) : JsonValue :=
  .object ([("type".toList, .text c.type.name),
      ("positiveMatch".toList, .bool c.positiveMatch)] ++
    (c.selector.map fun s => (selectorName s.1, .text s.2)).toList ++
    (c.valueCase.map fun b => ("valueCase".toList, .bool b)).toList ++
    (c.valueWildcard.map fun b => ("valueWildcard".toList, .bool b)).toList ++
    [("value".toList, .array (c.value.map .text))])

/-- The object of a rule. -/
def ruleJson (rule : RuleBody) : JsonValue :=
  .object [("name".toList, .text rule.name), ("description".toList, .text rule.description),
    ("operation".toList, .text (operationName rule.operation)),
    ("conditions".toList, .array (rule.conditions.map conditionJson)),
    ("tag".toList, .array (rule.tag.map .text))]

/-- The rule as the original serializes it. -/
def originalText (rule : RuleBody) : Str := JsonValue.dumps (ruleJson rule)

/-- The rule as the port serializes it. -/
def portText (rule : RuleBody) : Str := marshal (ruleJson rule)

end GoCompiler
