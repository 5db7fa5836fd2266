import ControlTranslation.ValueRewriting

/-!
# The rule compiler

A proven pattern is compiled into one custom rule: every variable of every
directive becomes a condition, the proof-loop requirements add payloads and the
request path, and the rule carries one operation over all its conditions and a
fidelity label.  Text that documents the proposal is built as the source builds
it, since the service stores and reviews it.
-/

namespace ModSecurity

open PyText

/-- The condition types the compiler emits. -/
inductive ConditionType
  | argsPostMatch
  | argsPostJSONMatch
  | argsPostXMLMatch
  | uriQueryMatch
  | requestHeaderValueMatch
  | requestHeaderMatch
  | pathMatch
  | cookieMatch
  | requestMethodMatch
  | ipMatch
  deriving DecidableEq, Repr

/-- The type as it is written in a rule. -/
def ConditionType.name : ConditionType → Str
  | .argsPostMatch => "argsPostMatch".toList
  | .argsPostJSONMatch => "argsPostJSONMatch".toList
  | .argsPostXMLMatch => "argsPostXMLMatch".toList
  | .uriQueryMatch => "uriQueryMatch".toList
  | .requestHeaderValueMatch => "requestHeaderValueMatch".toList
  | .requestHeaderMatch => "requestHeaderMatch".toList
  | .pathMatch => "pathMatch".toList
  | .cookieMatch => "cookieMatch".toList
  | .requestMethodMatch => "requestMethodMatch".toList
  | .ipMatch => "ipMatch".toList

/-- The field of a condition that names the inspected element. -/
inductive SelectorKey
  | parameter
  | header
  | name
  deriving DecidableEq, Repr

/-- How one collection maps onto a condition. -/
structure Component where
  conditionType : ConditionType
  label : Str
  selectorKey : Option SelectorKey
  encodable : Bool
  literalOnly : Bool
  coverageNote : Option Str
  deriving DecidableEq, Repr

/-- The note on what `ARGS` covers beyond the body. -/
def argsCoverageNote : Str :=
  ("ModSecurity ARGS covers query-string and request-body arguments; the " ++
    "Akamai candidate matches POST body arguments only. Add an equivalent " ++
    "uriQueryMatch condition if the endpoint also accepts this parameter in " ++
    "the query string.").toList

/-- The note on what `REQUEST_URI` covers beyond the path. -/
def uriCoverageNote : Str :=
  ("ModSecurity REQUEST_URI includes the query string; pathMatch inspects " ++
    "the URI path only.").toList

/-- `_COMPONENTS`, in the order of the source. -/
def components : List (Str × Component) :=
  [("ARGS".toList, ⟨.argsPostMatch, "POST argument".toList, some .parameter,
      true, false, some argsCoverageNote⟩),
    ("ARGS_POST".toList, ⟨.argsPostMatch, "POST argument".toList, some .parameter,
      true, false, none⟩),
    ("ARGS_GET".toList, ⟨.uriQueryMatch, "query string".toList, none,
      true, false, none⟩),
    ("QUERY_STRING".toList, ⟨.uriQueryMatch, "query string".toList, none,
      true, false, none⟩),
    ("REQUEST_BODY".toList, ⟨.argsPostMatch, "request body".toList, none,
      true, false, none⟩),
    ("XML".toList, ⟨.argsPostXMLMatch, "XML request body".toList, none,
      false, false, none⟩),
    ("REQUEST_HEADERS".toList, ⟨.requestHeaderValueMatch, "request header".toList, some .header,
      false, false, none⟩),
    ("REQUEST_URI".toList, ⟨.pathMatch, "request path".toList, none,
      true, false, some uriCoverageNote⟩),
    ("REQUEST_URI_RAW".toList, ⟨.pathMatch, "request path".toList, none,
      true, false, some uriCoverageNote⟩),
    ("REQUEST_FILENAME".toList, ⟨.pathMatch, "request path".toList, none,
      true, false, none⟩),
    ("REQUEST_COOKIES".toList, ⟨.cookieMatch, "cookie".toList, some .name,
      false, false, none⟩),
    ("REQUEST_METHOD".toList, ⟨.requestMethodMatch, "request method".toList, none,
      false, true, none⟩),
    ("REMOTE_ADDR".toList, ⟨.ipMatch, "client IP".toList, none,
      false, true, none⟩)]

/-- `_COMPONENTS.get(collection)`. -/
def component (collection : Str) : Option Component :=
  (components.find? fun entry => entry.1 = collection).map (·.2)

/-- A condition of an Akamai rule. -/
structure Condition where
  type : ConditionType
  positiveMatch : Bool
  selector : Option (SelectorKey × Str)
  valueCase : Option Bool
  valueWildcard : Option Bool
  value : List Str
  deriving DecidableEq, Repr

/-- A condition with the notes it needs and what it lost. -/
structure CompiledCondition where
  condition : Condition
  notes : List Str
  lossy : Bool
  narrowed : Bool
  deriving DecidableEq, Repr

/-- The condition type of a variable: any header when none is named. -/
def conditionTypeOf (c : Component) (v : Variable) : ConditionType :=
  if c.selectorKey = some .header ∧ v.selector = none then .requestHeaderMatch
  else c.conditionType

/-- The values of a condition before wildcard rewriting. -/
def componentValues (t : CharTables) (c : Component) (v : Variable) (m : Match) : List Str :=
  if v.collection = "REQUEST_METHOD".toList then unique (m.values.map t.upper)
  else if c.encodable ∧ m.wildcard = false then encodingVariants m.values
  else m.values

/-- What a condition over an encodable component says about encodings. -/
def encodingNotes (c : Component) (v : Variable) (m : Match) : List Str :=
  if v.collection = "REQUEST_METHOD".toList ∨ c.encodable = false ∨ m.wildcard = false then []
  else if m.narrowed then
    ["Transport encodings are enumerated at aligned depths: a ".toList ++ c.label ++
      (" encoded uniformly is matched, but one whose " ++
        "characters were encoded to differing depths is not.").toList]
  else if m.transportFormsExplicit then []
  else
    ["Only the decoded ".toList ++ c.label ++
      (" form is matched; transport " ++
        "encodings are not enumerated because the match uses wildcards.").toList]

/-- The values a condition is emitted with. -/
def conditionValues (t : CharTables) (c : Component) (v : Variable) (m : Match) : List Str :=
  if m.wildcard then
    removeSubsumedLiteralWildcards
      (generalizeWildcardTransportForms (componentValues t c v m))
  else componentValues t c v m

/-- Whether a condition type carries `valueCase` and `valueWildcard`. -/
def ConditionType.hasValueFlags (type : ConditionType) : Bool :=
  type ≠ .requestMethodMatch && type ≠ .ipMatch

/-- `_build_condition`. -/
def buildCondition (t : CharTables) (v : Variable) (rule : SecRule) (m : Match)
    (caseSensitive : Bool) : Attempt CompiledCondition :=
  match component v.collection with
  | none => .error ("unsupported ModSecurity collection: " ++ String.ofList v.collection)
  | some c =>
      let type := conditionTypeOf c v
      if c.literalOnly ∧ m.wildcard then
        .error (String.ofList c.label ++ " conditions require literal values")
      else if v.collection = "REMOTE_ADDR".toList ∧ rule.operator ≠ "ipMatch".toList then
        .error "client IP conditions require @ipMatch"
      else if m.wildcard ∧ maxValues < (conditionValues t c v m).length then
        .error "generalized wildcard transport forms exceed value limit"
      else
        .ok {
          condition := {
            type := type
            positiveMatch := !rule.negated
            selector :=
              match c.selectorKey, v.selector with
              | some key, some selector => some (key, selector)
              | _, _ => none
            valueCase := if type.hasValueFlags then some caseSensitive else none
            valueWildcard := if type.hasValueFlags then some m.wildcard else none
            value := conditionValues t c v m }
          notes := c.coverageNote.toList ++ encodingNotes c v m
          lossy := m.lossy
          narrowed := m.narrowed }

/-- The requirements of the proof loop.  `mutationLocation` holds the rendered
values of the mutation location, `effectivePath` the text under `path` in the
effective request. -/
structure Requirements where
  originalPayload : Option Str
  bypassPayload : Option Str
  postWafCanonicalForms : List Str
  effectivePath : Option Str
  mutationLocation : List Str
  deriving DecidableEq, Repr

/-- The payloads the rule must hit, once each. -/
def Requirements.requiredPayloads (r : Requirements) : List Str :=
  unique ((r.originalPayload.toList ++ r.bypassPayload.toList ++
    r.postWafCanonicalForms).filter (· ≠ []))

/-- The path the rule is to be scoped to, if one is known. -/
def Requirements.requestPath (r : Requirements) : Option Str :=
  r.effectivePath.filter (· ≠ [])

/-- `needle in text`. -/
def isSubstring (needle text : Str) : Bool := text.tails.any fun suffix =>
  needle.isPrefixOf suffix

/-- The texts that a text has in one piece. -/
theorem isSubstring_iff {needle text : Str} :
    isSubstring needle text = true ↔ ∃ u v, text = u ++ needle ++ v := by
  simp only [isSubstring, List.any_eq_true, List.mem_tails, List.isPrefixOf_iff_prefix]
  constructor
  · rintro ⟨suffix, ⟨u, hu⟩, ⟨v, hv⟩⟩
    exact ⟨u, v, by rw [List.append_assoc, hv, hu]⟩
  · rintro ⟨u, v, rfl⟩
    exact ⟨needle ++ v, ⟨u, (List.append_assoc u needle v).symm⟩, ⟨v, rfl⟩⟩

/-- `_required_condition_types`. -/
def requiredConditionTypes (t : CharTables) (r : Requirements) : List ConditionType :=
  let location := t.lower (join [' '] r.mutationLocation)
  if isSubstring "header".toList location then [.requestHeaderValueMatch]
  else if isSubstring "query".toList location then [.uriQueryMatch]
  else if isSubstring "cookie".toList location then [.cookieMatch]
  else if isSubstring "path".toList location then [.pathMatch]
  else [.argsPostMatch, .argsPostJSONMatch, .argsPostXMLMatch]

/-- Fold payloads into the first condition of a required type. -/
def foldPayloads (types : List ConditionType) (payloads : List Str) :
    List Condition → Attempt (List Condition)
  | [] => .error ("compiled rule has no condition for the component the bypass " ++
      "counterexample mutated")
  | c :: rest =>
      if c.type ∈ types then
        let value := unique (c.value ++ payloads)
        if maxValues < value.length then
          .error "proof-loop requirements exceed the Akamai condition value limit"
        else .ok ({ c with value := value } :: rest)
      else (foldPayloads types payloads rest).map (c :: ·)

/-- The note on payloads that were added. -/
def payloadNote : Str :=
  ("Proven bypass payload forms from Bypass Validation were added to " ++
    "the matching condition.").toList

/-- The note on the path condition that was added. -/
def pathNote : Str := "The rule is scoped to the authoritative proven request path.".toList

/-- The condition on the proven request path. -/
def pathCondition (path : Str) : Condition :=
  { type := .pathMatch, positiveMatch := true, selector := none, valueCase := some false,
    valueWildcard := some false, value := [path] }

/-- The path condition a rule without one gains. -/
def pathScope (conditions : List Condition) (r : Requirements) : List Condition :=
  match r.requestPath with
  | none => []
  | some path =>
      if conditions.any (·.type = .pathMatch) then [] else [pathCondition path]

/-- `_apply_requirements`: the conditions and the notes. -/
def applyRequirements (t : CharTables) (conditions : List Condition) (r : Requirements) :
    Attempt (List Condition × List Str) :=
  let payloads := r.requiredPayloads
  let folded :=
    if payloads = [] then .ok conditions
    else foldPayloads (requiredConditionTypes t r) payloads conditions
  match folded with
  | .error e => .error e
  | .ok conditions =>
      .ok (conditions ++ pathScope conditions r,
        (if payloads = [] then [] else [payloadNote]) ++
          if pathScope conditions r = [] then [] else [pathNote])

/-- The part of a proven pattern the compiler reads. -/
structure Pattern where
  patternSummary : Str
  vulnerabilityId : Str
  deriving DecidableEq, Repr

/-- How the conditions of a rule are joined. -/
inductive Operation
  | and
  | or
  deriving DecidableEq, Repr

/-- What a translation says of itself against its source. -/
inductive TranslationLabel
  | exact
  | equivalent
  | narrower
  | broader
  deriving DecidableEq, Repr

/-- The rule that is emitted. -/
structure RuleBody where
  name : Str
  description : Str
  operation : Operation
  conditions : List Condition
  tag : List Str
  deriving DecidableEq, Repr

/-- The rule with its label and its notes. -/
structure Proposal where
  candidateContent : RuleBody
  translationLabel : TranslationLabel
  justification : Str
  translationAssumptions : List Str
  limitations : List Str
  deriving DecidableEq, Repr

/-- What the loop over the directives accumulates. -/
structure Compiled where
  conditions : List Condition
  mappings : List Str
  notes : List Str
  lossy : Bool
  narrowed : Bool
  deriving DecidableEq, Repr

/-- What two pieces compile to, one after the other. -/
def Compiled.append (a b : Compiled) : Compiled :=
  ⟨a.conditions ++ b.conditions, a.mappings ++ b.mappings, a.notes ++ b.notes,
    a.lossy || b.lossy, a.narrowed || b.narrowed⟩

/-- The transformations the compiler tolerates. -/
def toleratedTransformations : List Str :=
  ["none", "lowercase", "urldecode", "urldecodeuni", "utf8tounicode", "removenulls",
    "compresswhitespace", "normalizepath", "htmlentitydecode"].map String.toList

/-- A variable as it is written in a directive. -/
def variableLabel (v : Variable) : Str :=
  match v.selector with
  | some selector => v.collection ++ ':' :: selector
  | none => v.collection

/-- Whether a condition compares letter case. -/
def caseSensitiveOf (rule : SecRule) (m : Match) : Bool :=
  !(m.caseInsensitive || rule.transformations.contains "lowercase".toList)

/-- The line of the justification that one condition contributes. -/
def mappingText (rule : SecRule) (v : Variable) (c : Condition) : Str :=
  variableLabel v ++ " @".toList ++ rule.operator ++ " -> ".toList ++ c.type.name

/-- One directive; `several` says that the pattern has more than one. -/
def compileRule (t : CharTables) (several : Bool) (rule : SecRule) : Attempt Compiled :=
  match operatorMatch t rule with
  | .error e => .error e
  | .ok m =>
      if several ∧ 1 < rule.vars.length then
        .error ("a chained SecRule with alternative variables cannot be " ++
          "expressed under a single AND operation")
      else
        match rule.vars.mapM fun v => buildCondition t v rule m (caseSensitiveOf rule m) with
        | .error e => .error e
        | .ok built =>
            if rule.transformations.all toleratedTransformations.contains then
              .ok {
                conditions := built.map (·.condition)
                mappings := List.zipWith (mappingText rule) rule.vars
                  (built.map (·.condition))
                notes := m.limitations ++ built.flatMap (·.notes)
                lossy := built.any (·.lossy)
                narrowed := built.any (·.narrowed) }
            else .error "unsupported ModSecurity transformation"

/-- `_condition_label`. -/
def conditionLabel (c : Condition) : Str :=
  match components.find? fun entry => entry.2.conditionType = c.type with
  | some entry => entry.2.label
  | none => c.type.name

/-- `_is_safe_tag`. -/
def isSafeTag (tag : Str) : Bool :=
  1 ≤ tag.length && tag.length ≤ 64 &&
    tag.all fun c => c.isAlphanum || c ∈ " ._:/-".toList

/-- Every run of other characters becomes one dash. -/
def dashRuns (afterDash : Bool) : Str → Str
  | [] => []
  | c :: rest =>
      if c.isAlphanum then c :: dashRuns false rest
      else if afterDash then dashRuns true rest
      else '-' :: dashRuns true rest

/-- `_slug`. -/
def slug (text : Str) : Str :=
  let cleaned := stripChars ['-'] (dashRuns false text)
  if cleaned = [] then "Rule".toList else cleaned

/-- `_rule_name`. -/
def ruleName (pattern : Pattern) (v : Variable) (conditions : List Condition) : Str :=
  let suffix := v.selector.getD ((conditions.head?.map conditionLabel).getD [])
  "JANUS-".toList ++ pattern.vulnerabilityId ++ ['-'] ++ slug suffix

/-- The assumptions every translation states. -/
def translationAssumptions : List Str :=
  [("The proven ModSecurity rule in the upstream defense-generation " ++
      "artifact is the authoritative source of the match semantics.").toList,
    ("Akamai evaluates the mapped condition types against the same request " ++
      "components ModSecurity inspected.").toList,
    ("The custom-rule action is assigned at the security-policy binding; " ++
      "recommended action: deny.").toList]

/-- The limitation every translation has. -/
def shapeLimitation : Str :=
  ("The candidate is shape-validated only and has not been executed in an " ++
    "Akamai tenant.").toList

/-- The limitation of a translation that was widened. -/
def lossyLimitation : Str :=
  ("Regex constructs without a wildcard equivalent were generalized, " ++
    "so the candidate can match a broader set of requests than the " ++
    "source rule. Operator review of collateral impact is required.").toList

/-- The limitation of a translation that was narrowed. -/
def narrowedLimitation : Str :=
  ("The source rule enumerated recursive encodings of individual " ++
    "characters. The candidate matches those encodings applied " ++
    "uniformly, one value per depth, rather than every combination of " ++
    "differing depths; a request mixing encoding depths within one " ++
    "value would not match.").toList

/-- Whether some directive before the last carries `chain`. -/
def anyChained (rules : List SecRule) : Bool := rules.dropLast.any (·.chained)

/-- The one operation over all conditions. -/
def operationOf (conditions : List Condition) (chained : Bool) : Operation :=
  if conditions.length = 1 ∨ chained then .and else .or

/-- The label, by what was lost. -/
def labelOf (lossy narrowed : Bool) : TranslationLabel :=
  if lossy then .broader else if narrowed then .narrower else .equivalent

/-- The rule body over the final conditions. -/
def ruleBody (pattern : Pattern) (rules : List SecRule) (conditions : List Condition) :
    RuleBody :=
  let labels := unique (conditions.map conditionLabel)
  let sourceTags := unique ((rules.flatMap (·.tags)).filter isSafeTag)
  { name := ruleName pattern ((rules.head?.bind (·.vars.head?)).getD ⟨[], none⟩) conditions
    description := (rules.findSome? (·.message)).getD
      ("Compiled from the proven ModSecurity rule for ".toList ++
        pattern.vulnerabilityId ++ "; matches ".toList ++ join ", ".toList labels ++ ['.'])
    operation := operationOf conditions (anyChained rules)
    conditions := conditions
    tag := unique (["JANUS".toList, pattern.vulnerabilityId, "modsec-derived".toList,
      "virtual-patch".toList] ++ sourceTags) }

/-- The loop over the directives. -/
def compileRules (t : CharTables) (rules : List SecRule) : Attempt Compiled :=
  match rules.mapM (compileRule t (1 < rules.length)) with
  | .error e => .error e
  | .ok parts => .ok (parts.foldl Compiled.append ⟨[], [], [], false, false⟩)

/-- The conditions and notes once the requirements, if any, are applied. -/
def applyOptional (t : CharTables) (conditions : List Condition) :
    Option Requirements → Attempt (List Condition × List Str)
  | none => .ok (conditions, [])
  | some r => applyRequirements t conditions r

/-- The proposal over the compiled directives. -/
def propose (pattern : Pattern) (rules : List SecRule) (compiled : Compiled)
    (conditions : List Condition) (notes : List Str) : Proposal :=
  { candidateContent := ruleBody pattern rules conditions
    translationLabel := labelOf compiled.lossy compiled.narrowed
    justification :=
      ("Compiled the proven ModSecurity SecRule deterministically into " ++
        "Akamai custom-rule conditions: ").toList ++
      join "; ".toList compiled.mappings ++ ['.']
    translationAssumptions := translationAssumptions
    limitations := shapeLimitation :: unique (compiled.notes ++ notes) ++
      (if compiled.lossy then [lossyLimitation] else []) ++
      if compiled.narrowed then [narrowedLimitation] else [] }

/-- `_compile`; `none` when the text has no directive. -/
def compile (t : CharTables) (pattern : Pattern) (requirements : Option Requirements) :
    Attempt (Option Proposal) :=
  let directives := splitDirectives t pattern.patternSummary
  if directives = [] then .ok none
  else if maxRules < directives.length then .error "too many SecRule directives"
  else
    match directives.mapM (parseSecrule t) with
    | .error e => .error e
    | .ok rules =>
        if 1 < rules.length ∧ anyChained rules = false then
          .error "independent SecRule directives do not compose into one custom rule"
        else
          match compileRules t rules with
          | .error e => .error e
          | .ok compiled =>
              if compiled.conditions = [] then .error "no conditions were produced"
              else
                match applyOptional t compiled.conditions requirements with
                | .error e => .error e
                | .ok (conditions, notes) =>
                    if compiled.lossy ∧ compiled.narrowed then
                      .error ("translation both broadens regex constructs and narrows " ++
                        "encoding coverage")
                    else .ok (some (propose pattern rules compiled conditions notes))

/-- `compile_akamai_custom_rule`: a construct without a certain equivalent
declines. -/
def compileAkamaiCustomRule (t : CharTables) (pattern : Pattern)
    (requirements : Option Requirements) : Option Proposal :=
  match compile t pattern requirements with
  | .ok proposal => proposal
  | .error _ => none

/-- A traversal that succeeds does so at every element. -/
theorem mapM_ok {α β : Type} {f : α → Attempt β} {l : List α} {r : List β}
    (h : l.mapM f = .ok r) : List.Forall₂ (fun a b => f a = .ok b) l r := by
  induction l generalizing r with
  | nil =>
      cases h
      exact .nil
  | cons a rest ih =>
      rw [List.mapM_cons] at h
      cases hfirst : f a with
      | error e => simp [hfirst, bind, Except.bind] at h
      | ok b =>
          cases hrest : rest.mapM f with
          | error e => simp [hfirst, hrest, bind, Except.bind] at h
          | ok bs =>
              have hr : b :: bs = r := by
                simpa [hfirst, hrest, bind, Except.bind, pure, Except.pure] using h
              exact hr ▸ .cons hfirst (ih hrest)

theorem mapM_ok_left {α β : Type} {f : α → Attempt β} {l : List α} {r : List β}
    (h : l.mapM f = .ok r) {a : α} (ha : a ∈ l) : ∃ b ∈ r, f a = .ok b := by
  have hall := mapM_ok h
  clear h
  induction hall with
  | nil => simp at ha
  | cons hfirst _ ih =>
      rcases List.mem_cons.mp ha with rfl | ha
      · exact ⟨_, List.mem_cons_self, hfirst⟩
      · obtain ⟨b, hb, hfb⟩ := ih ha
        exact ⟨b, List.mem_cons_of_mem _ hb, hfb⟩

/-- Every result was carried over from a member. -/
theorem mapM_ok_right {α β : Type} {f : α → Attempt β} {l : List α} {r : List β}
    (h : l.mapM f = .ok r) {b : β} (hb : b ∈ r) : ∃ a ∈ l, f a = .ok b := by
  have hall := mapM_ok h
  clear h
  induction hall with
  | nil => simp at hb
  | cons hfirst _ ih =>
      rcases List.mem_cons.mp hb with rfl | hb
      · exact ⟨_, List.mem_cons_self, hfirst⟩
      · obtain ⟨a, ha, hfa⟩ := ih hb
        exact ⟨a, List.mem_cons_of_mem _ ha, hfa⟩

/-- Everything an accepted compilation went through. -/
structure Compilation (t : CharTables) (pattern : Pattern)
    (requirements : Option Requirements) (proposal : Proposal) (rules : List SecRule)
    (compiled : Compiled) (conditions : List Condition) (notes : List Str) : Prop where
  nonempty : splitDirectives t pattern.patternSummary ≠ []
  bounded : (splitDirectives t pattern.patternSummary).length ≤ maxRules
  parsed : (splitDirectives t pattern.patternSummary).mapM (parseSecrule t) = .ok rules
  linked : 1 < rules.length → anyChained rules = true
  loop : compileRules t rules = .ok compiled
  produced : compiled.conditions ≠ []
  applied : applyOptional t compiled.conditions requirements = .ok (conditions, notes)
  oneFlag : ¬(compiled.lossy = true ∧ compiled.narrowed = true)
  proposed : proposal = propose pattern rules compiled conditions notes

/-- What a compilation that succeeds goes through. -/
theorem compile_ok {t : CharTables} {pattern : Pattern}
    {requirements : Option Requirements} {proposal : Proposal}
    (h : compile t pattern requirements = .ok (some proposal)) :
    ∃ rules compiled conditions notes,
      Compilation t pattern requirements proposal rules compiled conditions notes := by
  simp only [compile] at h
  split at h
  · cases h
  · rename_i hnonempty
    split at h
    · cases h
    · rename_i hbounded
      split at h
      · cases h
      · rename_i rules hparsed
        split at h
        · cases h
        · rename_i hlinked
          split at h
          · cases h
          · rename_i compiled hloop
            split at h
            · cases h
            · rename_i hproduced
              split at h
              · cases h
              · rename_i conditions notes happlied
                split at h
                · cases h
                · rename_i hflags
                  cases h
                  refine ⟨rules, compiled, conditions, notes, hnonempty,
                    Nat.le_of_not_lt hbounded, hparsed, ?_, hloop, hproduced, happlied,
                    hflags, rfl⟩
                  intro hseveral
                  by_contra hchained
                  exact hlinked ⟨hseveral, by simpa using hchained⟩

/-- Everything one emitted condition went through. -/
structure ConditionBuilt (t : CharTables) (v : Variable) (rule : SecRule) (m : Match)
    (caseSensitive : Bool) (c : Component) (cc : CompiledCondition) : Prop where
  known : component v.collection = some c
  literal : ¬(c.literalOnly = true ∧ m.wildcard = true)
  bounded : m.wildcard = true → (conditionValues t c v m).length ≤ maxValues
  type : cc.condition.type = conditionTypeOf c v
  positiveMatch : cc.condition.positiveMatch = !rule.negated
  valueCase : cc.condition.valueCase =
    if (conditionTypeOf c v).hasValueFlags then some caseSensitive else none
  valueWildcard : cc.condition.valueWildcard =
    if (conditionTypeOf c v).hasValueFlags then some m.wildcard else none
  value : cc.condition.value = conditionValues t c v m
  lossy : cc.lossy = m.lossy
  narrowed : cc.narrowed = m.narrowed

theorem buildCondition_ok {t : CharTables} {v : Variable} {rule : SecRule} {m : Match}
    {caseSensitive : Bool} {cc : CompiledCondition}
    (h : buildCondition t v rule m caseSensitive = .ok cc) :
    ∃ c, ConditionBuilt t v rule m caseSensitive c cc := by
  simp only [buildCondition] at h
  split at h
  · cases h
  · rename_i c hknown
    split at h
    · cases h
    · rename_i hliteral
      split at h
      · cases h
      · split at h
        · cases h
        · rename_i hbounded
          cases h
          refine ⟨c, hknown, hliteral, ?_, rfl, rfl, rfl, rfl, rfl, rfl, rfl⟩
          intro hwild
          exact Nat.le_of_not_lt fun hlt => hbounded ⟨hwild, hlt⟩

/-- Everything one compiled directive went through. -/
structure RuleCompilation (t : CharTables) (several : Bool) (rule : SecRule) (part : Compiled)
    (m : Match) (built : List CompiledCondition) : Prop where
  matched : operatorMatch t rule = .ok m
  single : several = true → rule.vars.length ≤ 1
  conditions : List.Forall₂
    (fun v c => buildCondition t v rule m (caseSensitiveOf rule m) = .ok c) rule.vars built
  tolerated : rule.transformations.all toleratedTransformations.contains = true
  emitted : part.conditions = built.map (·.condition)
  lossy : part.lossy = built.any (·.lossy)
  narrowed : part.narrowed = built.any (·.narrowed)

theorem compileRule_ok {t : CharTables} {several : Bool} {rule : SecRule} {part : Compiled}
    (h : compileRule t several rule = .ok part) :
    ∃ m built, RuleCompilation t several rule part m built := by
  simp only [compileRule] at h
  split at h
  · cases h
  · rename_i m hmatched
    split at h
    · cases h
    · rename_i hsingle
      split at h
      · cases h
      · rename_i built hbuilt
        split at h
        · rename_i htolerated
          cases h
          refine ⟨m, built, hmatched, ?_, mapM_ok hbuilt, htolerated, rfl, rfl, rfl⟩
          intro hseveral
          by_contra hlength
          exact hsingle ⟨hseveral, by omega⟩
        · cases h

end ModSecurity
