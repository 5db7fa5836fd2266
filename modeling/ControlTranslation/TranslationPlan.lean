import Mathlib.Data.List.Sort
import ControlTranslation.SharedContracts

/-!
# The translation plan

A verified join is translated whole or not at all.  The rules of a source
artifact become conditions, one for each component; the coverage alternatives of
the artifact, or its route-bound alternatives, become custom rules that conjoin
them.  An artifact of carrier bindings becomes no rule: its bindings have to be
those the rules already carry.  Every obligation and every directive is mapped
to the one artifact that lists all the rules.
-/

namespace SharedContracts

open PyText JsonValue

/-- The code of grammar the plan cannot express. -/
def cannotExpress : String := "cannot-express"

/-- Where a request carries a component. -/
inductive Carrier
  | query | header | cookie | path | body | method
  deriving DecidableEq

namespace Carrier

/-- Every carrier, in the order of the source. -/
def all : List Carrier := [query, header, cookie, path, body, method]

/-- The carrier as a binding writes it. -/
def name : Carrier → String
  | query => "query"
  | header => "header"
  | cookie => "cookie"
  | path => "path"
  | body => "body"
  | method => "method"

/-- `_CARRIER_CONDITION_TYPES`. -/
def conditionType : Carrier → String
  | query => "uriQueryMatch"
  | header => "requestHeaderValueMatch"
  | cookie => "cookieMatch"
  | path => "pathMatch"
  | body => "argsPostMatch"
  | method => "requestMethodMatch"

/-- `_CARRIERS_REQUIRING_SELECTOR`. -/
def requiresSelector (carrier : Carrier) : Bool := carrier = header || carrier = cookie

/-- The carrier a value names. -/
def named (value : JsonValue) : Option Carrier := all.find? fun carrier => isText value carrier.name

/-- `carrier in _CARRIER_CONDITION_TYPES`. -/
def known (value : JsonValue) : Option Bool := inTexts (all.map fun c => c.name.toList) value

end Carrier

/-- The kinds of location a semantic component has. -/
inductive LocationKind
  | httpQuery | httpHeader | httpCookie | httpBodyStructured | httpBodyRaw | httpPath | httpMethod
  deriving DecidableEq

namespace LocationKind

/-- Every kind of location. -/
def all : List LocationKind :=
  [httpQuery, httpHeader, httpCookie, httpBodyStructured, httpBodyRaw, httpPath, httpMethod]

/-- The kind as a component writes it. -/
def name : LocationKind → String
  | httpQuery => "http-query"
  | httpHeader => "http-header"
  | httpCookie => "http-cookie"
  | httpBodyStructured => "http-body-structured"
  | httpBodyRaw => "http-body-raw"
  | httpPath => "http-path"
  | httpMethod => "http-method"

/-- The kind a value names. -/
def named (value : JsonValue) : Option LocationKind :=
  all.find? fun kind => isText value kind.name

end LocationKind

/-- A carrier, the selector under it and the component bound to both. -/
abbrev CarrierKey := Carrier × Str × Str

/-- The selector of a location that names one. -/
def locationName (location : Members) : Checked Str :=
  match (field location "name").asNonemptyText with
  | some name => .ok name
  | none => refuse cannotExpress "named component selector is absent".toList

/-- The carrier and selector of a location. -/
def locationCarrier (location : Members) : LocationKind → Checked (Carrier × Str)
  | .httpQuery => return (.query, ← locationName location)
  | .httpHeader => return (.header, ← locationName location)
  | .httpCookie => return (.cookie, ← locationName location)
  | .httpBodyStructured =>
      if isText (field location "selector_type") "any-field" then .ok (.body, ['*'])
      else
        match (field location "selector").asNonemptyText with
        | some selector => .ok (.body, selector)
        | none => refuse cannotExpress "structured body selector is absent".toList
  | .httpBodyRaw => .ok (.body, [])
  | .httpPath => .ok (.path, [])
  | .httpMethod => .ok (.method, [])

/-- `_semantic_carrier`. -/
def semanticCarrier (s : Services) (component : Members) : Checked (Carrier × Str) :=
  match field component "location" with
  | .object location => do
      let kind ← hashed (field location "kind")
      match LocationKind.named kind with
      | some known => locationCarrier location known
      | none =>
          refuse cannotExpress
            ("component location ".toList ++ s.repr kind ++ " has no Akamai mapping".toList)
  | _ => refuse cannotExpress "component location is absent".toList

/-- `_same_carrier_binding`. -/
def sameCarrierBinding (s : Services) (carrier name : JsonValue) (expected : Carrier × Str) :
    Bool :=
  isText carrier expected.1.name &&
    match name with
    | .text actual =>
        if expected.1 = .header then s.casefold actual == s.casefold expected.2
        else actual == expected.2
    | _ => false

/-- Whether a location is any field of a structured body. -/
def isAnyField (location : Members) : Bool :=
  isText (field location "kind") "http-body-structured" &&
    isText (field location "selector_type") "any-field"

/-- Whether a binding is to every field of a body, as `location` asks. -/
def anyFieldBinding (location : Members) (carrier name : JsonValue) : Bool :=
  isAnyField location && isText carrier "body" && isText name "*"

/-- What a source rule says of its component. -/
structure SourceRule where
  ruleId : Str
  carrier : Carrier
  name : Str
  componentId : Str
  pattern : Str
  flags : List Str
  transformations : List Str

/-- The members of a rule, where each has its type. -/
def readRule (rule : Members) : Option SourceRule := do
  let flags ← (field rule "flags").asArray
  let transformations ← (field rule "transformations").asArray
  return {
    ruleId := ← (field rule "rule_id").asText
    carrier := ← Carrier.named (field rule "carrier")
    name := ← (field rule "name").asText
    componentId := ← (field rule "component_id").asText
    pattern := ← (field rule "pattern").asText
    flags := ← flags.mapM asText
    transformations := ← transformations.mapM asText }

/-- A condition on one component. -/
structure ComponentCondition where
  type : String
  valueCase : Bool
  value : Str
  sourceRuleId : Str
  sourceComponentId : Str
  sourceCarrier : Carrier
  sourceSelector : Str
  sourceLocationKind : JsonValue
  transformations : List Str
  sourceSelectorType : JsonValue
  header : Option Str
  parameter : Option Str
  cookieName : Option Str

/-- The condition type that inspects what a rule inspects. -/
def conditionType (location : Members) (rule : SourceRule) : String :=
  if isText (field location "kind") "http-body-structured" then "argsPostJSONMatch"
  else if rule.carrier = .header && rule.name == ['*'] then "requestHeaderMatch"
  else rule.carrier.conditionType

/-- The condition a rule becomes. -/
def conditionOf (location : Members) (rule : SourceRule) : ComponentCondition where
  type := conditionType location rule
  valueCase := !rule.flags.contains ['i']
  value := rule.pattern
  sourceRuleId := rule.ruleId
  sourceComponentId := rule.componentId
  sourceCarrier := rule.carrier
  sourceSelector := rule.name
  sourceLocationKind := field location "kind"
  transformations := rule.transformations
  sourceSelectorType := field location "selector_type"
  header := if rule.carrier = .header && rule.name != ['*'] then some rule.name else none
  parameter :=
    if (rule.carrier = .query || rule.carrier = .body) && rule.name != [] && rule.name != ['*'] then
      some rule.name
    else none
  cookieName := if rule.carrier = .cookie && rule.name != ['*'] then some rule.name else none

/-- The members of a list that are not among some texts. -/
def anyOutside (texts : List Str) (items : List JsonValue) : Option Bool :=
  anyOf (items.map fun item => (inTexts texts item).map (!·))

/-- What stands in the way of carrying a rule over. -/
def ruleChecks (s : Services) (rule location : Members) (expected : Carrier × Str)
    (seenRuleIds : List Str) : List (Option Bool) :=
  let carrier := field rule "carrier"
  let name := field rule "name"
  [ (field rule "rule_id").asNonemptyText.isNone,
    (field rule "rule_id").asText.any fun ruleId => seenRuleIds.contains ruleId,
    (Carrier.known carrier).map (!·),
    name.asText.isNone,
    !(sameCarrierBinding s carrier name expected || anyFieldBinding location carrier name),
    (field rule "component_id").asNonemptyText.isNone,
    (field rule "pattern").asNonemptyText.isNone,
    (field rule "flags").asArray.isNone,
    anyOutside [['i']] ((field rule "flags").asArray.getD []),
    (field rule "transformations").asArray.isNone,
    ((field rule "transformations").asArray.getD []).any fun item => item.asNonemptyText.isNone ]

/-- `_component_condition`. -/
def componentCondition (s : Services) (rule component : Members) (sourceArtifactId : Str)
    (seenRuleIds : List Str) : Checked (ComponentCondition × CarrierKey) := do
  let expected ← semanticCarrier s component
  let location := (field component "location").asObject.getD []
  raiseIf (ruleChecks s rule location expected seenRuleIds) cannotExpress
    ("DG rule ".toList ++ s.repr (field rule "rule_id") ++ " in ".toList ++ sourceArtifactId ++
      " cannot map without semantic loss (carrier=".toList ++ s.repr (field rule "carrier") ++
      ", name=".toList ++ s.repr (field rule "name") ++ ", component=".toList ++
      s.repr (field rule "component_id") ++ ", expected_carrier=".toList ++
      s.repr (.text expected.1.name.toList) ++ ", expected_name=".toList ++
      s.repr (.text expected.2) ++ [')'])
  -- the checks leave only rules that can be read
  match readRule rule with
  | some source =>
      return (conditionOf location source, (source.carrier, source.name, source.componentId))
  | none => .error .crash

/-- A condition on the route of a request. -/
structure RouteCondition where
  type : String
  value : Str
  sourceRoute : Members
  sourcePathComponents : List ComponentCondition

/-- A condition of a custom rule. -/
inductive Condition
  | component (condition : ComponentCondition)
  | route (condition : RouteCondition)

/-- A text member of a dictionary, if it is one and not empty. -/
def textMember (members : Members) (key : String) : Members :=
  match (field members key).asNonemptyText with
  | some found => [(key.toList, .text found)]
  | none => []

/-- `_source_input_route`. -/
def sourceInputRoute (item : Members) : Option Members :=
  match field item "input" with
  | .object value =>
      let method := (field value "method").asNonemptyText
      if isText (field value "modality") "http-request-template" then
        match method, (field value "path_key").asNonemptyText with
        | some method, some pathKey =>
            some [("kind".toList, .text "opaque-path-key".toList),
              ("method".toList, .text method), ("path_key".toList, .text pathKey)]
        | _, _ => none
      else if isText (field value "modality") "http-request" then
        match method, (field value "path").asNonemptyText with
        | some method, some path =>
            some ([("kind".toList, .text "rendered-http-route".toList),
              ("method".toList, .text method), ("path".toList, .text path)] ++
              textMember value "scheme" ++ textMember value "authority")
        | _, _ => none
      else none
  | _ => none

/-- The profile that knows one route. -/
def legacyProfileId : String := "waf-standard@1"
/-- The profile that knows one route more. -/
def ctProfileId : String := "waf-standard@2"

/-- `_profile_routes`: the paths of the embedded profiles. -/
def profileRoutes (profileId : Str) : Checked (Table Str) :=
  if profileId = legacyProfileId.toList then
    .ok [("inventory-item-detail".toList, "/inventory/items/42".toList)]
  else if profileId = ctProfileId.toList then
    .ok [("inventory-item-detail".toList, "/inventory/items/42".toList),
      ("public/submit.php".toList, "/public/submit.php".toList)]
  else refuse cannotExpress "unapproved route profile".toList

/-- The path a route stands for. -/
def routePath (route : Members) (profileId alternativeId : Str) : Checked JsonValue :=
  let place := "route alternative ".toList ++ alternativeId
  if isText (field route "kind") "opaque-path-key" then do
    let routes ← profileRoutes profileId
    let pathKey ← hashed (field route "path_key")
    match pathKey.asText.bind (lookup routes) with
    | some path => .ok (.text path)
    | none => refuse cannotExpress (place ++ " uses an unknown path_key".toList)
  else if isText (field route "kind") "rendered-http-route" then .ok (field route "path")
  else refuse cannotExpress (place ++ " has an unknown route kind".toList)

/-- A path, and below it the payload it carries. -/
def renderedPath (path : Str) : Option Str → Str
  | none => path
  | some payload => stripTrailing path ++ ['/'] ++ escapePathPayload payload
where
  stripTrailing (path : Str) : Str := path.rdropWhile (· == '/')

/-- `_resolved_route_conditions`: a condition on the path and one on the method. -/
def resolvedRouteConditions (route : Members) (profileId alternativeId : Str)
    (pathPayload : Option Str) : Checked (RouteCondition × RouteCondition) := do
  let path ← routePath route profileId alternativeId
  match path.asNonemptyText, (field route "method").asNonemptyText with
  | some path, some method =>
      .ok (⟨"pathMatch", renderedPath path pathPayload, route, []⟩,
        ⟨"requestMethodMatch", method, route, []⟩)
  | _, _ =>
      refuse cannotExpress
        ("route alternative ".toList ++ alternativeId ++ " is incomplete".toList)

/-- An emitted custom rule. -/
structure Rule where
  name : Str
  description : String
  conditions : List Condition
  sourceArtifactId : Str
  sourceRuleSetId : JsonValue
  sourceAlternativeId : Str
  sourceAction : JsonValue
  fastLoopNegativeMaterials : JsonValue

/-- The rule an alternative of a document becomes. -/
def ruleOf (s : Services) (document : Members) (sourceArtifactId : Str) (number : Nat)
    (description : String) (alternativeId : Str) (conditions : List Condition) : Rule where
  name := "janus-".toList ++
    (if hasField document "rule_set_id" then format s (field document "rule_set_id")
      else sourceArtifactId) ++ ['-'] ++ AkamaiAdapter.natText number
  description := description
  conditions := conditions
  sourceArtifactId := sourceArtifactId
  sourceRuleSetId := field document "rule_set_id"
  sourceAlternativeId := alternativeId
  sourceAction := field document "action"
  fastLoopNegativeMaterials :=
    if hasField document "fast_loop_negative_materials" then
      field document "fast_loop_negative_materials"
    else .array []

/-- What the loop over the rules of a document has gathered. -/
structure CarriedRules where
  conditions : Table ComponentCondition
  carrierKeys : List CarrierKey
  ruleIds : List Str

/-- The rest of the rules of a document, after some. -/
def carryRules (s : Services) (sourceArtifactId : Str) (components : Table Members) :
    CarriedRules → List JsonValue → Checked CarriedRules
  | carried, [] => .ok carried
  | carried, .object rule :: rest =>
      match (field rule "component_id").asNonemptyText.filter
          fun id => !(keys carried.conditions).contains id with
      | none =>
          refuse cannotExpress ("DG rule in ".toList ++ sourceArtifactId ++
            " cannot map without semantic loss".toList)
      | some componentId =>
          match lookup components componentId with
          | none =>
              refuse cannotExpress ("DG rule in ".toList ++ sourceArtifactId ++
                " has no semantic component".toList)
          | some component => do
              let (condition, key) ←
                componentCondition s rule component sourceArtifactId carried.ruleIds
              raiseIf [carried.carrierKeys.contains key] cannotExpress
                ("DG artifact ".toList ++ sourceArtifactId ++ " repeats carrier binding ".toList ++
                  key.1.name.toList ++ ['/'] ++ key.2.1)
              carryRules s sourceArtifactId components
                ⟨carried.conditions ++ [(componentId, condition)], carried.carrierKeys ++ [key],
                  carried.ruleIds ++ [condition.sourceRuleId]⟩ rest
  | _, _ :: _ =>
      refuse cannotExpress ("DG artifact ".toList ++ sourceArtifactId ++
        " has a malformed rule".toList)

/-- The conditions of listed components. -/
def conditionsOf (conditions : Table ComponentCondition) (componentIds : List JsonValue) :
    Checked (List ComponentCondition) :=
  match componentIds.mapM fun id => id.asText.bind (lookup conditions) with
  | some found => .ok found
  | none => .error .crash

/-- The id of an alternative that is bound to no route. -/
def independentId (number : Nat) : Str :=
  "endpoint-independent:".toList ++ AkamaiAdapter.natText number

/-- The rest of the coverage alternatives, each as one rule. -/
def independentRules (s : Services) (document : Members) (sourceArtifactId : Str)
    (conditions : Table ComponentCondition) :
    Nat → List Str → List JsonValue → Checked (List (Str × Rule))
  | _, _, [] => .ok []
  | position, seen, alternative :: rest => do
      let key ← canonicalText s alternative
      raiseIf [alternative.asArray.isNone, !alternative.truthy, seen.contains key,
          anyOutside (keys conditions) (alternative.asArray.getD [])] cannotExpress
        "DG endpoint-independent coverage alternative is invalid".toList
      let inspected ← conditionsOf conditions (alternative.asArray.getD [])
      let others ← independentRules s document sourceArtifactId conditions (position + 1)
        (seen ++ [key]) rest
      return (independentId position, ruleOf s document sourceArtifactId position
        "One endpoint-independent Boolean alternative from a verified DG WAF rule set."
        (independentId position) (inspected.map .component)) :: others

/-- The references of a component to inputs that take the route, with the inputs. -/
def expectedRefs (s : Services) (inputs : Table Members) (route : Members) :
    List JsonValue → Checked (List (JsonValue × Members))
  | [] => .ok []
  | .object ref :: rest => do
      let id ← hashed (field ref "id")
      let others ← expectedRefs s inputs route rest
      match (id.asText.bind (lookup inputs)).filter fun input =>
          (sourceInputRoute input).any fun taken => equal s (.object taken) (.object route) with
      | some input => return (.object ref, input) :: others
      | none => return others
  | _ :: _ => .error .crash

/-- The payload an input carries below the path. -/
def pathPayload (input : Members) : JsonValue :=
  match field input "input" with
  | .object value => field value "path_payload"
  | _ => .null

/-- The path payloads of some inputs, after others. -/
def gatherPayloads (route : Members) : List Str → List Members → Checked (List Str)
  | payloads, [] => .ok payloads
  | payloads, input :: rest => do
      raiseIf [isText (field route "kind") "opaque-path-key" &&
          (pathPayload input).asNonemptyText.isNone] cannotExpress
        "template path component has no exact authenticated path_payload".toList
      match (pathPayload input).asText with
      | some payload =>
          gatherPayloads route
            (if payloads.contains payload then payloads else payloads ++ [payload]) rest
      | none => gatherPayloads route payloads rest

/-- Whether a semantic component is carried in the path. -/
def isPathComponent (component : Members) : Bool :=
  match field component "location" with
  | .object location => isText (field location "kind") "http-path"
  | _ => false

/-- A route-bound alternative of a document. -/
structure RouteAlternative where
  alternativeId : Str
  componentIds : List Str
  route : Members
  bindings : Table Members

/-- What the components of a route-bound document are looked up in. -/
structure Components where
  semantic : Table Members
  inputs : Table Members
  conditions : Table ComponentCondition

/-- The payloads a component adds: those of its inputs, if it is carried in the path. -/
def addPayloads (route component : Members) (payloads : List Str)
    (expected : List (JsonValue × Members)) : Checked (List Str) :=
  if isPathComponent component then gatherPayloads route payloads (expected.map (·.2))
  else .ok payloads

/-- The rest of the components of an alternative: the payloads they add. -/
def bindComponents (s : Services) (known : Components) (alternative : RouteAlternative) :
    List Str → List Str → Checked (List Str)
  | payloads, [] => .ok payloads
  | payloads, id :: rest =>
      match lookup known.semantic id, lookup known.conditions id with
      | some component, some _ => do
          let refs ← iterate (← need component "input_refs")
          let expected ← expectedRefs s known.inputs alternative.route refs
          let bound := field ((lookup alternative.bindings id).getD []) "input_refs"
          raiseIf [!equal s bound (.array (expected.map (·.1))), expected.isEmpty] cannotExpress
            "DG route binding differs from authenticated CG inputs".toList
          let _ ← needDictionary component "location"
          let added ← addPayloads alternative.route component payloads expected
          bindComponents s known alternative added rest
      | _, _ =>
          refuse cannotExpress "DG route alternative references an unknown component".toList

/-- Whether some identities are exactly the keys of a table; the set of them is built first. -/
def sameIdentities (table : Table Members) (ids : List JsonValue) : Option Bool :=
  (ids.mapM (inTexts (keys table))).map fun inside =>
    inside.all (· == true) && (keys table).all fun key => ids.any fun id => id.asText == some key

/-- Reading one route-bound alternative, against the coverage alternatives and
those already read. -/
def readAlternative (s : Services) (coverageKeys seen : List Str) (bound : JsonValue) :
    Checked (RouteAlternative × Str) :=
  match bound with
  | .object members => do
      let componentIds := field members "component_ids"
      let refusal := "DG route alternative differs from coverage".toList
      raiseIf [(field members "alternative_id").asNonemptyText.isNone,
          (field members "alternative_id").asText.any fun id => seen.contains id,
          componentIds.asArray.isNone, !componentIds.truthy] cannotExpress refusal
      let key ← canonicalText s componentIds
      raiseIf [!coverageKeys.contains key, (field members "route").asObject.isNone,
          (field members "component_bindings").asArray.isNone] cannotExpress refusal
      let bindings ←
        index (field members "component_bindings") "component_id" "route-component-bindings-invalid"
      raiseIf [(sameIdentities bindings (componentIds.asArray.getD [])).map (!·)] cannotExpress
        "DG route component binding is incomplete".toList
      match (componentIds.asArray.getD []).mapM asText with
      | some ids =>
          return (⟨(field members "alternative_id").asText.getD [], ids,
            (field members "route").asObject.getD [], bindings⟩, key)
      | none => .error .crash
  | _ => refuse cannotExpress "DG route alternative is malformed".toList

/-- The conditions of the components an alternative carries in the path, or not. -/
def carriedConditions (known : Components) (alternative : RouteAlternative) (inPath : Bool) :
    List ComponentCondition :=
  (alternative.componentIds.filter fun id =>
      ((lookup known.semantic id).map isPathComponent).getD false == inPath).filterMap
    (lookup known.conditions)

/-- The rule of an alternative for one payload. -/
def boundRule (s : Services) (document : Members) (sourceArtifactId profileId : Str)
    (known : Components) (alternative : RouteAlternative) (number : Nat) (payload : Option Str) :
    Checked Rule := do
  let (path, method) ←
    resolvedRouteConditions alternative.route profileId alternative.alternativeId payload
  return ruleOf s document sourceArtifactId number
    "One route-bound Boolean alternative from a verified DG WAF rule set."
    alternative.alternativeId
    ([.route { path with sourcePathComponents := carriedConditions known alternative true },
        .route method] ++
      (carriedConditions known alternative false).map .component)

/-- The rules of an alternative for the payloads from a place on. -/
def boundVariants (s : Services) (document : Members) (sourceArtifactId profileId : Str)
    (known : Components) (alternative : RouteAlternative) (several : Bool) :
    Nat → Nat → List (Option Str) → Checked (List (Str × Rule))
  | _, _, [] => .ok []
  | position, variant, payload :: rest => do
      let rule ← boundRule s document sourceArtifactId profileId known alternative position payload
      let others ← boundVariants s document sourceArtifactId profileId known alternative several
        (position + 1) (variant + 1) rest
      let translatedId :=
        if several then
          alternative.alternativeId ++ ":path-payload:".toList ++ AkamaiAdapter.natText variant
        else alternative.alternativeId
      return (translatedId, rule) :: others

/-- `path_payloads or [None]`. -/
def variantsOf (payloads : List Str) : List (Option Str) :=
  if payloads.isEmpty then [none] else payloads.map some

/-- What the loop over the route-bound alternatives has gathered. -/
structure BoundRules where
  translated : List (Str × Rule)
  seen : List Str
  represented : List Str

/-- The rest of the route-bound alternatives, after some. -/
def boundRules (s : Services) (document : Members) (sourceArtifactId profileId : Str)
    (known : Components) (coverageKeys : List Str) :
    BoundRules → List JsonValue → Checked BoundRules
  | gathered, [] => .ok gathered
  | gathered, bound :: rest => do
      let (alternative, key) ← readAlternative s coverageKeys gathered.seen bound
      let payloads ← bindComponents s known alternative [] alternative.componentIds
      let variants := variantsOf payloads
      let rules ← boundVariants s document sourceArtifactId profileId known alternative
        (variants.length != 1) gathered.translated.length 0 variants
      boundRules s document sourceArtifactId profileId known coverageKeys
        ⟨gathered.translated ++ rules, gathered.seen ++ [alternative.alternativeId],
          gathered.represented ++ [key]⟩ rest

/-- How a document places its rules. -/
inductive Placement
  | independent | routeBound
  deriving DecidableEq

/-- The placement a mode names; nothing, or no text, names the independent one. -/
def placementOf (sourceArtifactId : Str) (mode : JsonValue) : Checked Placement := do
  let mode ← hashed mode
  if mode.isNull || isText mode "" then return .independent
  else if isText mode "route-bound-v1" then return .routeBound
  else
    refuse cannotExpress
      ("DG artifact ".toList ++ sourceArtifactId ++ " uses an unknown placement mode".toList)

/-- `canonical_bytes` of each item. -/
def canonicalTexts (s : Services) (items : List JsonValue) : Checked (List Str) :=
  items.mapM (canonicalText s)

/-- The route-bound rules of a document. -/
def routeBoundRules (s : Services) (document : Members) (sourceArtifactId profileId : Str)
    (semantics : Members) (semantic : Table Members) (conditions : Table ComponentCondition)
    (coverage : List JsonValue) (alternatives : List JsonValue) :
    Checked (List (Str × Rule)) := do
  let inputs ← index (← need semantics "test_inputs") "input_id" "semantics-inputs-invalid"
  let coverageKeys ← canonicalTexts s coverage
  let gathered ← boundRules s document sourceArtifactId profileId ⟨semantic, inputs, conditions⟩
    coverageKeys ⟨[], [], []⟩ alternatives
  raiseIf [!(gathered.represented.all coverageKeys.contains &&
      coverageKeys.all gathered.represented.contains)] cannotExpress
    "DG route alternatives do not cover every Boolean alternative".toList
  return gathered.translated

/-- A nonempty array under a key. -/
def nonemptyArray (document : Members) (key : String) (refusal : Str) :
    Checked (List JsonValue) :=
  match field document key with
  | .array (first :: rest) => .ok (first :: rest)
  | _ => refuse cannotExpress refusal

/-- The route-bound alternatives, which only a route-bound document has to have. -/
def routeAlternatives (document : Members) (refusal : Str) :
    Placement → Checked (List JsonValue)
  | .independent => .ok []
  | .routeBound => nonemptyArray document "route_bound_alternatives" refusal

/-- `_translate_rule_document`. -/
def translateRuleDocument (s : Services) (document : Members) (sourceArtifactId : Str)
    (semantics : Members) (profileId : Str) :
    Checked (List (Str × Rule) × List CarrierKey) := do
  let place := "DG artifact ".toList ++ sourceArtifactId
  let rules ← nonemptyArray document "rules" (place ++ " has no expressible WAF rules".toList)
  let placement ← placementOf sourceArtifactId (field document "placement_mode")
  let coverage ← nonemptyArray document "coverage_alternatives"
    (place ++ " lacks Boolean alternatives".toList)
  let alternatives ← routeAlternatives document
    (place ++ " lacks route-bound alternatives".toList) placement
  let semantic ← index (← need semantics "components") "component_id" "components-invalid"
  let carried ← carryRules s sourceArtifactId semantic ⟨[], [], []⟩ rules
  match placement with
  | .independent => do
      let translated ←
        independentRules s document sourceArtifactId carried.conditions 0 [] coverage
      return (translated, carried.carrierKeys)
  | .routeBound => do
      let translated ← routeBoundRules s document sourceArtifactId profileId semantics semantic
        carried.conditions coverage alternatives
      return (translated, carried.carrierKeys)

/-- What stands in the way of carrying a binding over. -/
def bindingChecks (s : Services) (binding : Members) (component : Option Members)
    (expected : Option (Carrier × Str)) : List (Option Bool) :=
  let carrier := field binding "carrier"
  let name := field binding "name"
  let location := (component.bind fun c => (field c "location").asObject).getD []
  [ (Carrier.known carrier).map (!·),
    name.asText.isNone,
    (field binding "component_id").asNonemptyText.isNone,
    expected.any fun expected =>
      !sameCarrierBinding s carrier name expected && !anyFieldBinding location carrier name,
    expected.isNone && (Carrier.named carrier).any Carrier.requiresSelector && !name.truthy ]

/-- The semantic component a binding is about, where the semantics are given. -/
def boundComponent (semantic : Option (Table Members)) (binding : Members) :
    Checked (Option Members) :=
  match semantic with
  | some known => do
      let id ← hashed (field binding "component_id")
      return id.asText.bind (lookup known)
  | none => .ok none

/-- The carrier a semantic component has, if there is one. -/
def expectedCarrier (s : Services) : Option Members → Checked (Option (Carrier × Str))
  | some component => do return some (← semanticCarrier s component)
  | none => .ok none

/-- The rest of the bindings of a document, after some. -/
def carryBindings (s : Services) (sourceArtifactId : Str) (semantic : Option (Table Members)) :
    List CarrierKey → List JsonValue → Checked (List CarrierKey)
  | carried, [] => .ok carried
  | carried, .object binding :: rest => do
      let component ← boundComponent semantic binding
      let expected ← expectedCarrier s component
      raiseIf (bindingChecks s binding component expected) cannotExpress
        ("DG carrier binding in ".toList ++ sourceArtifactId ++
          " cannot map without semantic loss".toList)
      match Carrier.named (field binding "carrier"), (field binding "name").asText,
          (field binding "component_id").asText with
      | some carrier, some name, some componentId => do
          let key := (carrier, name, componentId)
          raiseIf [carried.contains key] cannotExpress
            ("DG artifact ".toList ++ sourceArtifactId ++ " repeats carrier binding ".toList ++
              carrier.name.toList ++ ['/'] ++ name)
          carryBindings s sourceArtifactId semantic (carried ++ [key]) rest
      | _, _, _ => .error .crash
  | _, _ :: _ =>
      refuse cannotExpress
        ("DG artifact ".toList ++ sourceArtifactId ++ " has a malformed carrier binding".toList)

/-- The configuration fragment that lists some bindings. -/
def carrierConfiguration (document : Members) (sourceArtifactId : Str)
    (carried : List CarrierKey) : JsonValue :=
  .object
    [("configurationType".toList, .text "akamai-carrier-bindings".toList),
      ("sourceArtifactId".toList, .text sourceArtifactId),
      ("sourceRuleSetId".toList, field document "rule_set_id"),
      ("carrierBindings".toList, .array (carried.map fun key =>
        .object
          [("carrier".toList, .text key.1.name.toList), ("selector".toList, .text key.2.1),
            ("sourceComponentId".toList, .text key.2.2),
            ("targetConditionType".toList, .text key.1.conditionType.toList)])),
      ("claimRule".toList, field document "claim_rule")]

/-- The components of the semantics, where they are given. -/
def semanticIndex : Option Members → Checked (Option (Table Members))
  | some semantics => do
      return some (← index (← need semantics "components") "component_id" "components-invalid")
  | none => .ok none

/-- `_translate_carrier_document`. -/
def translateCarrierDocument (s : Services) (document : Members) (sourceArtifactId : Str)
    (semantics : Option Members) : Checked (JsonValue × List CarrierKey) := do
  let bindings ← nonemptyArray document "carrier_bindings"
    ("DG artifact ".toList ++ sourceArtifactId ++ " has no expressible carrier bindings".toList)
  let semantic ← semanticIndex semantics
  let carried ← carryBindings s sourceArtifactId semantic [] bindings
  return (carrierConfiguration document sourceArtifactId carried, carried)

/-- An optional text member. -/
def memberIfSome (key : String) (value : Option Str) : Members :=
  value.toList.map fun text => (key.toList, .text text)

/-- A boolean member. -/
def flag (key : String) (value : Bool) : Str × JsonValue := (key.toList, .bool value)

/-- A text member. -/
def named (key : String) (value : Str) : Str × JsonValue := (key.toList, .text value)

/-- A condition on a component, as the adapter reads it. -/
def ComponentCondition.json (condition : ComponentCondition) : JsonValue :=
  .object
    ([named "type" condition.type.toList, flag "positiveMatch" true,
      flag "valueCase" condition.valueCase, flag "valueWildcard" false,
      ("value".toList, .array [.text condition.value]), named "matchOperator" "regex".toList,
      named "sourceRuleId" condition.sourceRuleId,
      named "sourceComponentId" condition.sourceComponentId,
      named "sourceCarrier" condition.sourceCarrier.name.toList,
      named "sourceSelector" condition.sourceSelector,
      ("sourceLocationKind".toList, condition.sourceLocationKind),
      ("transformations".toList, .array (condition.transformations.map .text))] ++
      (if condition.sourceSelectorType.isNull then []
        else [("sourceSelectorType".toList, condition.sourceSelectorType)]) ++
      memberIfSome "header" condition.header ++ memberIfSome "parameter" condition.parameter ++
      memberIfSome "cookieName" condition.cookieName)

/-- A condition on the route, as the adapter reads it. -/
def RouteCondition.json (condition : RouteCondition) : JsonValue :=
  .object
    ([named "type" condition.type.toList, flag "positiveMatch" true, flag "valueCase" true,
      flag "valueWildcard" false, ("value".toList, .array [.text condition.value]),
      named "matchOperator" "exact".toList,
      ("sourceRoute".toList, .object condition.sourceRoute)] ++
      (if condition.sourcePathComponents.isEmpty then []
        else [("sourcePathComponents".toList,
          .array (condition.sourcePathComponents.map ComponentCondition.json))]))

/-- A condition of either kind as it is emitted. -/
def Condition.json : Condition → JsonValue
  | .component condition => condition.json
  | .route condition => condition.json

/-- A rule as it is emitted. -/
def Rule.json (rule : Rule) : JsonValue :=
  .object
    [named "name" rule.name, named "description" rule.description.toList,
      named "operation" "AND".toList,
      ("conditions".toList, .array (rule.conditions.map Condition.json)),
      named "sourceArtifactId" rule.sourceArtifactId,
      ("sourceRuleSetId".toList, rule.sourceRuleSetId),
      named "sourceAlternativeId" rule.sourceAlternativeId,
      ("sourceAction".toList, rule.sourceAction),
      ("fastLoopNegativeMaterials".toList, rule.fastLoopNegativeMaterials)]

/-- The candidate that lists all the rules. -/
def ruleSetJson (rules : List Rule) : JsonValue :=
  .object [("rules".toList, .array (rules.map Rule.json))]

/-- What the adapter has against a candidate text. -/
def validateSyntax (s : Services) (candidate : Str) : Option (List Str) :=
  match s.loads candidate with
  | .ok document => AkamaiAdapter.syntaxErrors s.tables s.repr document
  | .error reason => some ["Candidate is not valid JSON: ".toList ++ reason]

/-- The rest of the syntax checks. -/
def checkRuleSyntax (s : Services) : Nat → List Rule → Checked Unit
  | _, [] => .ok ()
  | position, rule :: rest => do
      let candidate ← canonicalText s rule.json
      match validateSyntax s candidate with
      | none => .error .crash
      | some [] => checkRuleSyntax s (position + 1) rest
      | some errors =>
          refuse cannotExpress
            ("translated Akamai rule ".toList ++ AkamaiAdapter.natText position ++
            " is invalid: ".toList ++ join "; ".toList errors)

/-- What one source artifact contributes. -/
structure Contribution where
  rules : List Rule
  ruleCarriers : List CarrierKey
  bindingCarriers : List CarrierKey

/-- One source artifact, translated. -/
def translateSource (s : Services) (verified : VerifiedSharedContractV2) (sourceId : Str) :
    Checked Contribution := do
  match lookup verified.artifactContents sourceId with
  | none => .error .crash
  | some raw => do
      let document ← strictJsonBytes s raw ("DG artifact ".toList ++ sourceId)
      if hasField document "rules" then do
        let (translated, carriers) ←
          translateRuleDocument s document sourceId verified.semantics verified.profileId
        return ⟨translated.map (·.2), carriers, []⟩
      else if hasField document "carrier_bindings" then do
        let (_, carriers) ←
          translateCarrierDocument s document sourceId (some verified.semantics)
        return ⟨[], [], carriers⟩
      else
        refuse cannotExpress
          ("DG artifact ".toList ++ sourceId ++ " has no lossless Akamai mapping".toList)

/-- The place of an artifact; the schema makes it a number. -/
def sourceOrder (s : Services) (source : Members) : Checked ℚ := do
  match ← need source "order" with
  | .number literal => return s.number literal
  | .bool b => return if b then 1 else 0
  | _ => .error .crash

/-- The identities of the source artifacts, in their order. -/
def orderedSources (s : Services) (sources : Table Members) : Checked (List Str) := do
  let places ← sources.mapM fun source => do
    let place ← sourceOrder s source.2
    return (place, source.1)
  return (places.insertionSort fun a b => a.1 ≤ b.1).map (·.2)

/-- The rules of the plan: those of every source, if the bindings of the carrier
documents are those of the rules and the adapter has nothing against a rule. -/
def emittedRules (s : Services) (verified : VerifiedSharedContractV2)
    (sources : Table Members) : Checked (List Rule) := do
  let ordered ← orderedSources s sources
  let contributions ← ordered.mapM (translateSource s verified)
  let rules := contributions.flatMap (·.rules)
  let ruleCarriers := contributions.flatMap (·.ruleCarriers)
  let bindingCarriers := contributions.flatMap (·.bindingCarriers)
  raiseIf [rules.isEmpty, !(bindingCarriers.all ruleCarriers.contains &&
      ruleCarriers.all bindingCarriers.contains)] cannotExpress
    "complete DG carrier bindings do not exactly match executable WAF rule carriers".toList
  checkRuleSyntax s 0 rules
  return rules

/-- The emitted rule set with what is said of it. -/
structure TranslationProposal where
  candidateContent : Str
  translationLabel : String
  justification : String
  translationAssumptions : List Str
  limitations : List JsonValue

/-- `TargetTranslationDirective`. -/
structure TargetTranslationDirective where
  directiveId : Str
  sourceDirectiveId : Str
  targetArtifactId : Str
  kind : Str
  value : Str
  required : Bool

/-- `TranslationMapping`. -/
structure TranslationMapping where
  obligationId : Str
  targetArtifactIds : List Str
  deriving DecidableEq

/-- `WafTranslationPlan`; the doer proposes `proposal` whatever it is asked, and
the plan lists no further target artifacts. -/
structure WafTranslationPlan where
  proposal : TranslationProposal
  translatedDirectives : List TargetTranslationDirective
  translationMappings : List TranslationMapping
  discriminatorDescription : Str
  patternSummary : Str
  primaryCandidateContent : Str

/-- `shared_waf_primary_artifact_id`. -/
def sharedWafPrimaryArtifactId (contentHash : Str) : Checked Str :=
  let hex := if "sha256:".toList.isPrefixOf contentHash then contentHash.drop 7 else contentHash
  if hex.length != 64 || hex.any (fun c => !"0123456789abcdef".toList.contains c) then .error .crash
  else .ok ("akamai-rule-set-".toList ++ hex)

/-- A text member that the target contract requires to be there. -/
def requiredText (members : Members) (key : String) : Checked Str := do
  match (← need members key).asNonemptyText with
  | some found => .ok found
  | none => .error .crash

/-- The artifact a directive is about. -/
def directiveSource (directive : Members) : Checked JsonValue :=
  match field directive "artifact_ref" with
  | .object ref => hashed (field ref "id")
  | _ => .ok .null

/-- A source directive, bound to the target artifact. -/
def translateDirective (sources : Table Members) (targetId : Str) (directive : Members) :
    Checked TargetTranslationDirective := do
  let sourceId ← directiveSource directive
  let directiveId ← requiredText directive "directive_id"
  raiseIf [!(sourceId.asText.any fun id => (keys sources).contains id)] cannotExpress
    ("DG directive ".toList ++ directiveId ++ " does not map to an emitted artifact".toList)
  let required ← need directive "required"
  match required with
  | .bool required =>
      return {
        directiveId := "akamai-".toList ++ directiveId ++ "-0".toList
        sourceDirectiveId := directiveId
        targetArtifactId := targetId
        kind := ← requiredText directive "kind"
        value := ← requiredText directive "value"
        required := required }
  | _ => .error .crash

/-- A source mapping, bound to the target artifact. -/
def translateMapping (s : Services) (scope : JsonValue) (sources directives : Table Members)
    (targetId : Str) (mapping : JsonValue) : Checked TranslationMapping := do
  let mapping ← dictionary mapping
  let sourceIds ← refIds s (← need mapping "artifact_refs") "artifact" scope (keys sources)
    "obligation-artifacts-invalid" false
  let _ ← refIds s (← need mapping "directive_refs") "directive" scope (keys directives)
    "obligation-directives-invalid" true
  let mappedIds := unique (sourceIds.map fun _ => targetId)
  raiseIf [mappedIds.isEmpty] cannotExpress
    ("obligation ".toList ++ format s (field mapping "obligation_id") ++
      " has no applicable target alternative".toList)
  let obligationId ← requiredText mapping "obligation_id"
  return ⟨obligationId, mappedIds⟩

/-- The values under a key of each item, as members of a set. -/
def valuesUnder (key : String) (items : JsonValue) : Checked (List JsonValue) := do
  (← iterate items).mapM fun item => do hashed (← need (← dictionary item) key)

/-- `item.get("description", "")` for each component, where it is not empty. -/
def descriptionsOf (components : JsonValue) : Checked (List Str) := do
  let values ← (← iterate components).mapM fun item => do
    return field (← dictionary item) "description"
  (values.filter (·.truthy)).mapM fun
    | .text description => .ok description
    | _ => .error .crash

/-- `candidate.get("limitations", [])`. -/
def limitationsOf (candidate : Members) : Checked (List JsonValue) :=
  if hasField candidate "limitations" then iterate (field candidate "limitations") else .ok []

/-- `build_waf_translation_plan`. -/
def buildWafTranslationPlan (s : Services) (verified : VerifiedSharedContractV2)
    (targetTechnology : Str) : Checked WafTranslationPlan := do
  raiseIf [targetTechnology != "akamai-waf".toList] cannotExpress
    ("shared WAF profile cannot map to target technology ".toList ++ targetTechnology)
  let candidate ← needDictionary verified.bundle "primary_candidate"
  let sources ← index (← need candidate "artifacts") "artifact_id" "candidate-artifacts-invalid"
  let rules ← emittedRules s verified sources
  let content ← canonicalText s (ruleSetJson rules)
  let targetId ← sharedWafPrimaryArtifactId (digestText s content)
  let limitations ← limitationsOf candidate
  let directives ←
    index (← need candidate "directives") "directive_id" "candidate-directives-invalid"
  let translatedDirectives ← (directives.map (·.2)).mapM (translateDirective sources targetId)
  let scope ← need verified.bundle "bundle_id"
  let mappings ← (← iterate (← need candidate "obligation_mappings")).mapM
    (translateMapping s scope sources directives targetId)
  let required ← valuesUnder "obligation_id" (← need verified.semantics "obligations")
  let mapped := mappings.map (·.obligationId)
  raiseIf [!(mapped.all (fun id => required.any fun value => value.asText == some id) &&
      required.all fun value => value.asText.any mapped.contains)] cannotExpress
    "not every required obligation has one target mapping".toList
  let descriptions ← descriptionsOf (← need verified.semantics "components")
  let patternSummary ← canonicalText s (.object
    [("candidate_bundle_id".toList, ← need verified.bundle "bundle_id"),
      ("candidate_id".toList, ← need candidate "candidate_id"),
      ("source_artifact_ids".toList, .array ((keys sources).map .text))])
  return {
    proposal := {
      candidateContent := content
      translationLabel := "equivalent"
      justification := "Every verified DG Boolean alternative, carrier, selector, pattern, and " ++
        "ordered transformation is preserved without fixture route narrowing."
      translationAssumptions := []
      limitations := limitations }
    translatedDirectives := translatedDirectives
    translationMappings := mappings
    discriminatorDescription :=
      ("WAF regex matching across query, header, cookie, path, body, and method " ++
        "carriers: ").toList ++ join "; ".toList descriptions
    patternSummary := patternSummary
    primaryCandidateContent := content }

end SharedContracts
