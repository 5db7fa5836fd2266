import ControlTranslation.BypassAttribution
import Mathlib.Data.List.Sort

/-!
# The campaigns of a bypass validation

The Bypass Validation result has a campaign for every obligation.  A campaign
lists the dimensions it attempted; each was executed and blocked, or declared
unsupported, and the attempts are told apart by their identities over the whole
result.
-/

namespace SharedContracts

open PyText JsonValue Alternatives

/-- What the dimensions of a campaign are checked against. -/
structure CampaignScope where
  expected : List Dimension
  components : Table Members
  challenges : Table Members
  obligation : Members
  obligationId : Str

/-- What the dimensions before have named. -/
structure Observed where
  dimensions : List Str
  attributions : List (Target × Str)
  producers : List (Target × Str)
  sources : List Target

/-- Nothing observed yet. -/
def Observed.none : Observed := ⟨[], [], [], []⟩

/-- An attribution without the target it ends with. -/
def baseAttribution (s : JoinServices) (attempt : Attempt) (attribution : Str) : Checked Str :=
  if attribution.tails.any "|target:".toList.isPrefixOf then
    match rpartition '|' attribution with
    | some (base, target) => do
        validateV3ChallengeTarget s target attempt.target.carrier attempt.component
        return base
    | none => .ok attribution
  else .ok attribution

/-- The prefix of an attribution to the authenticated challenge source. -/
def sourceAttribution : Str := "challenge:source:authenticated-representation|".toList

/-- One attribution of a dimension. -/
def checkAttribution (s : JoinServices) (scope : CampaignScope) (attempt : Attempt)
    (seen : Observed) (attribution : Str) : Checked Observed := do
  raiseIf [seen.attributions.contains (attempt.target, attribution)] dimensionCode
    ("BV attribution is duplicated across dimensions: ".toList ++ scope.obligationId)
  let noted := { seen with attributions := seen.attributions ++ [(attempt.target, attribution)] }
  let base ← baseAttribution s attempt attribution
  if attempt.producers.contains base then
    return { noted with producers := noted.producers ++ [(attempt.target, base)] }
  else do
    v3ChallengeAttribution s scope.challenges attempt base
    return if sourceAttribution.isPrefixOf attribution then
        { noted with sources := noted.sources ++ [attempt.target] }
      else noted

/-- `input_id in {ref["id"] for ref in refs}`. -/
def idAmong (refs : JsonValue) (inputId : Str) : Checked Bool := do
  let ids ← (← iterate refs).mapM fun ref => do hashed (← need (← dictionary ref) "id")
  return ids.any fun id => hasText id inputId

/-- The target a dimension names. -/
def targetOf (actual : Members) : Option Target := do
  let inputId ← (field actual "input_id").asNonemptyText
  let componentId ← (field actual "component_id").asNonemptyText
  let carrier ← (field actual "carrier").asNonemptyText
  return ⟨inputId, componentId, carrier⟩

/-- The dimension is one for its obligation. -/
def checkReachable (scope : CampaignScope) (target : Target) (component : Members) :
    Checked Unit := do
  let refusal := "BV dimension input, component, or carrier differs: ".toList ++ scope.obligationId
  let required ← idAmong (← need scope.obligation "required_input_refs") target.inputId
  raiseIf [!required] dimensionCode refusal
  let taken ← idAmong (← need component "input_refs") target.inputId
  raiseIf [!taken] dimensionCode refusal
  let carrier ← componentCarrier component
  raiseIf [carrier.toList != target.carrier] dimensionCode refusal

/-- What a dimension is told apart by. -/
def dimensionKey (s : Services) (target : Target) (transformation : Str) : Checked Str :=
  canonicalText s (.object [("carrier".toList, .text target.carrier),
    ("transformation".toList, .text transformation), ("input_id".toList, .text target.inputId),
    ("component_id".toList, .text target.componentId)])

/-- One dimension of a campaign under `waf-bypass@3`. -/
def checkV3Dimension (s : JoinServices) (scope : CampaignScope) (seen : Observed)
    (dimension : JsonValue) : Checked Observed :=
  let refusal := fun (reason : String) => reason.toList ++ scope.obligationId
  match dimension with
  | .object actual =>
      match targetOf actual with
      | none => refuse dimensionCode (refusal "BV dimension identity fields are absent: ")
      | some target => do
          let producers := producersOf scope.expected target
          raiseIf [producers.isEmpty] dimensionCode
            (refusal "BV dimension is unreachable from its obligation: ")
          let component ← needEntry scope.components target.componentId
          checkReachable scope target component
          match (field actual "transformation").asNonemptyText with
          | none => refuse dimensionCode (refusal "BV dimension label is absent: ")
          | some transformation => do
              let key ← dimensionKey s.toServices target transformation
              raiseIf [seen.dimensions.contains key] dimensionCode
                (refusal "BV dimension is duplicated: ")
              let attributions := splitFrom "||attribution:".toList [] 0 transformation
              raiseIf [attributions.any List.isEmpty || !decide attributions.Nodup] dimensionCode
                (refusal "BV dimension attributions are invalid: ")
              raiseIf [isFalse (field actual "supported") &&
                  !attributions.all "challenge:".toList.isPrefixOf] dimensionCode
                (refusal "BV unsupported label is not an approved challenge: ")
              attributions.foldlM (checkAttribution s scope
                  ⟨target, field actual "supported", component, producers⟩)
                { seen with dimensions := seen.dimensions ++ [key] }
  | _ => refuse dimensionCode (refusal "BV dimension is malformed: ")

/-- Whether the campaign left out the work that an expected dimension asks for. -/
def omits (scope : CampaignScope) (seen : Observed) (dimension : Dimension) : Checked Bool := do
  let component ← needEntry scope.components dimension.componentId
  match dimension.inputId with
  | .text inputId =>
      let target : Target := ⟨inputId, dimension.componentId, dimension.carrier.toList⟩
      let authenticated :=
        (field component "transformations").truthy && seen.sources.contains target
      let complete := (producersOf scope.expected target).all fun label =>
        seen.producers.contains (target, label)
      return !authenticated && !complete
  | _ => return true

/-- `_validate_bv_v3_dimensions`. -/
def validateBvV3Dimensions (s : JoinServices) (dimensions : List JsonValue)
    (obligation semantics : Members) (obligationId : Str) : Checked Unit := do
  let components ← index (← need semantics "components") "component_id" "components-invalid"
  let expected ← expectedDimensions s bypass3 obligation semantics
  let profile ← bvProfile s bypass3
  let listed := field profile "positive_challenges"
  raiseIf [listed.asArray.isNone] profileCode
    "embedded waf-bypass@3 challenges are absent".toList
  let challenges ← index listed "challenge_id" profileCode
  let scope : CampaignScope := ⟨expected, components, challenges, obligation, obligationId⟩
  let seen ← dimensions.foldlM (checkV3Dimension s scope) Observed.none
  let omitted ← expected.mapM (omits scope seen)
  raiseIf [omitted.contains true] dimensionCode
    ("BV campaign omitted required producer baseline work: ".toList ++ obligationId)

/-- The members a dimension may have. -/
def dimensionFields : List String :=
  ["carrier", "transformation", "input_id", "component_id", "family", "wire_value_sha256",
    "wire_value_size_bytes", "baseline_value_sha256", "wire_encoding_chain", "supported", "detail",
    "attempt_id", "disposition"]

/-- A dimension repeats what is expected of it. -/
def sameDimension (s : Services) (actual : Members) (expected : Dimension) : Bool :=
  hasText (field actual "carrier") expected.carrier.toList &&
    hasText (field actual "transformation") expected.transformation &&
    equal s (field actual "input_id") expected.inputId &&
    hasText (field actual "component_id") expected.componentId

/-- `re.fullmatch(r"sha256:[a-f0-9]{64}", value)`. -/
def isSha256 : JsonValue → Bool
  | .text t =>
      let hex := t.drop 7
      "sha256:".toList.isPrefixOf t && hex.length == 64 &&
        hex.all fun c => ('a' ≤ c && c ≤ 'f') || ('0' ≤ c && c ≤ '9')
  | _ => false

/-- What a dimension adds to its campaign. -/
structure Outcome where
  transformation : Str
  family : Option Str
  /-- The attempt that executed it, unless it is unsupported. -/
  attempt : Option Str
  /-- What the attempt rendered from a template. -/
  rendered : Option (Members × Members)

/-- Whether the evidence of what was sent is no evidence. -/
def badWire (s : Services) (actual : Members) : Bool :=
  !isSha256 (field actual "wire_value_sha256") ||
    !isSha256 (field actual "baseline_value_sha256") ||
    !((intLiteral (field actual "wire_value_size_bytes")).any
      fun literal => decide (0 ≤ s.number literal)) ||
    !((field actual "wire_encoding_chain").asArray.any
      fun steps => steps.all fun step => step.asNonemptyText.isSome)

/-- An encoding that changes nothing. -/
def encodesNothing (s : Services) (actual : Members) : Bool :=
  isText (field actual "family") "encoding" &&
    (!(field actual "wire_encoding_chain").truthy ||
      equal s (field actual "wire_value_sha256") (field actual "baseline_value_sha256"))

/-- What an attempt renders: the input and the component, where the input is a template. -/
def renderedBy (inputs components : Table Members) (actual : Members) :
    Checked (Option (Members × Members)) := do
  let item ← needEntry inputs (← needText actual "input_id")
  let input ← needDictionary item "input"
  if isText (field input "modality") "http-request-template" then do
    let component ← needEntry components (← needText actual "component_id")
    return some (item, component)
  else return none

/-- An executed dimension was blocked. -/
def checkExecuted (s : Services) (inputs components : Table Members) (obligationId : Str)
    (transformation : Str) (family : Option Str) (actual : Members) : Checked Outcome := do
  raiseIf [(field actual "attempt_id").asNonemptyText.isNone,
      (inTexts ["blocked".toList, "bypassed".toList, "safety-stop".toList]
        (field actual "disposition")).map (!·),
      !(field actual "detail").isNull] dimensionCode
    ("BV supported dimension evidence differs: ".toList ++ obligationId)
  raiseIf [badWire s actual] dimensionCode
    ("BV wire-value evidence differs: ".toList ++ obligationId)
  raiseIf [encodesNothing s actual] dimensionCode
    ("BV encoding dimension is an identity/no-op: ".toList ++ obligationId)
  raiseIf [isText (field actual "disposition") "bypassed"] "bv-translation-outcome-invalid"
    ("BV no-bypass aggregate contains a bypassed dimension: ".toList ++ obligationId)
  let rendered ← renderedBy inputs components actual
  return ⟨transformation, family, some ((field actual "attempt_id").asText.getD []), rendered⟩

/-- One attempted dimension. -/
def checkDimension (s : Services) (inputs components : Table Members) (obligationId : Str)
    (pair : JsonValue × Option Dimension) : Checked Outcome :=
  let bogus := "BV dimension is bogus or out of order: ".toList ++ obligationId
  match pair.1 with
  | .object actual => do
      raiseIf [!onlyMembers actual dimensionFields,
        pair.2.any fun expected => !sameDimension s actual expected] dimensionCode bogus
      let transformation ← needText actual "transformation"
      let family := (field actual "family").asNonemptyText
      raiseIf [!(field actual "family").isNull && family.isNone] dimensionCode
        ("BV governed family is invalid: ".toList ++ obligationId)
      if isTrue (field actual "supported") then
        checkExecuted s inputs components obligationId transformation family actual
      else do
        raiseIf [!isFalse (field actual "supported")] dimensionCode
          ("BV dimension support state is absent: ".toList ++ obligationId)
        raiseIf [!(field actual "attempt_id").isNull, !(field actual "disposition").isNull,
            (field actual "detail").asNonemptyText.isNone] dimensionCode
          ("BV unsupported dimension evidence differs: ".toList ++ obligationId)
        return ⟨transformation, family, none, none⟩
  | _ => refuse dimensionCode bogus

/-- The member of a request that a component may change. -/
def mutableFields : List (String × String) :=
  [("http-query", "query"), ("http-header", "headers"), ("http-cookie", "cookies"),
    ("http-method", "method"), ("http-path", "path"), ("http-body-raw", "body"),
    ("http-body-structured", "body")]

/-- The code of a template resolution that does not check out. -/
def resolutionCode : String := "bv-template-resolution-invalid"

/-- Whether two dictionaries have the same keys. -/
def sameKeys (a b : Members) : Bool := sameSet (a.map (·.1)) (b.map (·.1))

/-- Whether a document differs from another in a member other than some. -/
def differsOutside (s : Services) (actual expected : Members) (names : List Str) : Bool :=
  expected.any fun member =>
    !names.contains member.1 && !equal s (get actual member.1) member.2

/-- `_validate_bv_resolution`. -/
def validateBvResolution (s : Services) (profile : Members) (resolver : Resolver)
    (obligationId : Str) (resolution : JsonValue) (item component : Members) : Checked Unit := do
  let refusal := fun (reason : String) => reason.toList ++ obligationId
  let template ← needDictionary item "input"
  match ← routeUnder (field profile "routes") (field template "path_key") with
  | some (.object route) => do
      let base ← expectedTemplateResolution item template resolver route
      match resolution with
      | .object members => do
          raiseIf [!sameKeys members base,
              differsOutside s members base ["rendered_request".toList]] resolutionCode
            (refusal "BV template resolution identity differs: ")
          let expected ← needDictionary base "rendered_request"
          let kind ← hashed (field (← needDictionary component "location") "kind")
          let inPath := isText kind "http-path"
          let shape := if inPath then setMember expected "path_payload".toList .null else expected
          match field members "rendered_request" with
          | .object rendered => do
              raiseIf [!sameKeys rendered shape] resolutionCode
                (refusal "BV rendered request shape differs: ")
              match (mutableFields.find? fun entry => isText kind entry.1).map (·.2) with
              | some name =>
                  raiseIf [differsOutside s rendered expected
                      (name.toList :: if inPath then ["path_payload".toList] else [])]
                    resolutionCode (refusal "BV changed a nonselected template field: ")
              | none =>
                  refuse resolutionCode (refusal "BV changed a nonselected template field: ")
          | _ => refuse resolutionCode (refusal "BV rendered request shape differs: ")
      | _ => refuse resolutionCode (refusal "BV template resolution identity differs: ")
  | _ => refuse resolutionCode (refusal "BV accepted an unknown path key: ")

/-- What an accepted campaign adds to the result. -/
structure Campaign where
  outcomes : List Outcome
  resolutions : List JsonValue

/-- The identities of the attempts, in order. -/
def Campaign.attempts (campaign : Campaign) : List Str := campaign.outcomes.filterMap (·.attempt)

/-- What the campaigns are checked against. -/
structure BvScope where
  semantics : Members
  obligations : Table Members
  inputs : Table Members
  components : Table Members
  bundle : Members
  resolver : Resolver

/-- The dimensions of a campaign, each with what is expected of it under `waf-bypass@2`. -/
def dimensionPairs (s : JoinServices) (scope : BvScope) (obligationId : Str) (obligation : Members)
    (dimensions : JsonValue) : Checked (List (JsonValue × Option Dimension)) := do
  let expected ← expectedDimensions s scope.resolver.profileId obligation scope.semantics
  let code := "bv-empty-campaign"
  let refusal := "BV campaign has no attempted dimensions: ".toList ++ obligationId
  match dimensions with
  | .array dimensions => do
      raiseIf [dimensions.isEmpty] code refusal
      if scope.resolver.profileId = bypass3 then do
        validateBvV3Dimensions s dimensions obligation scope.semantics obligationId
        return dimensions.map fun actual => (actual, none)
      else do
        raiseIf [dimensions.length != expected.length] code refusal
        return dimensions.zip (expected.map some)
  | _ => refuse code refusal

/-- The first mapping of an obligation in a bundle. -/
def mappingOf (s : Services) (bundle : Members) (obligationId : Str) : Checked JsonValue := do
  let candidate ← needDictionary bundle "primary_candidate"
  let found ← (← iterate (← need candidate "obligation_mappings")).foldlM (fun found item =>
    match found with
    | some mapping => pure (some mapping)
    | none => do
        let id ← need (← dictionary item) "obligation_id"
        return if equal s id (.text obligationId) then some item else none) none
  match found with
  | some mapping => .ok mapping
  | none => .error .crash

/-- One campaign, after those whose attempts are `seen`. -/
def checkCampaign (s : JoinServices) (scope : BvScope) (seen : List Str)
    (entry : Str × Members) : Checked Campaign := do
  let (id, campaign) := entry
  let refusal := fun (reason : String) => reason.toList ++ id
  let obligation ← needEntry scope.obligations id
  let pairs ← dimensionPairs s scope id obligation (field campaign "attempted_dimensions")
  let outcomes ← pairs.mapM (checkDimension s.toServices scope.inputs scope.components id)
  let attempts := outcomes.filterMap (·.attempt)
  raiseIf [!equal s.toServices (field campaign "attempt_refs") (.array (attempts.map .text))]
    "bv-attempt-accounting-invalid" (refusal "BV attempts do not bind dimensions: ")
  raiseIf [!decide attempts.Nodup, attempts.any seen.contains] "bv-attempt-accounting-invalid"
    (refusal "BV attempt IDs are not globally unique: ")
  let rendered := outcomes.filterMap (·.rendered)
  let code := resolutionCode
  match field campaign "resolution_refs" with
  | .array resolutions => do
      raiseIf [resolutions.length != rendered.length] code
        (refusal "BV resolutions do not bind template attempts: ")
      let profile ← bvProfile s scope.resolver.profileId
      (resolutions.zip rendered).forM fun resolved =>
        validateBvResolution s.toServices profile scope.resolver id resolved.1 resolved.2.1
          resolved.2.2
      raiseIf [!isText (field campaign "disposition") "no-bypass"]
        "bv-translation-outcome-invalid"
        (refusal "BV required campaign must report no-bypass: ")
      let mapping ← mappingOf s.toServices scope.bundle id
      raiseIf [!equal s.toServices (field campaign "candidate_mapping") mapping]
        "bv-candidate-mapping-mismatch" (refusal "BV candidate mapping differs: ")
      return ⟨outcomes, resolutions⟩
  | _ => refuse code (refusal "BV resolutions do not bind template attempts: ")

/-- The campaigns, after those whose attempts are `seen`. -/
def checkCampaigns (s : JoinServices) (scope : BvScope) :
    List Str → Table Members → Checked (List Campaign)
  | _, [] => .ok []
  | seen, entry :: rest => do
      let campaign ← checkCampaign s scope seen entry
      let others ← checkCampaigns s scope (seen ++ campaign.attempts) rest
      return campaign :: others

/-- `sorted(set(texts))`. -/
def sortedTexts (texts : List Str) : JsonValue :=
  .array (((unique texts).insertionSort fun a b => textLe a b = true).map .text)

/-- The families of some outcomes. -/
def familiesOf (outcomes : List Outcome) : List Str := outcomes.filterMap (·.family)

/-- The transformation families a campaign may enable. -/
def enabledFamilies : List Str :=
  ["baseline".toList, "case-normalization".toList, "encoding".toList, "semantic-domain".toList]

/-- What the search bounds have to say of governed families. -/
def governedBounds (outcomes : List Outcome) : List (String × JsonValue) :=
  let executed := familiesOf (outcomes.filter (·.attempt.isSome))
  let unsupported := familiesOf (outcomes.filter (·.attempt.isNone))
  let enabled := JsonValue.array (enabledFamilies.map .text)
  [("variant_families_requested", enabled), ("variant_families_enabled", enabled),
    ("variant_families_planned", sortedTexts (familiesOf outcomes)),
    ("variant_families_generated", sortedTexts executed),
    ("variant_families_executed", sortedTexts executed),
    ("variant_families_budget_skipped", .array []),
    ("variant_families_unsupported", sortedTexts unsupported),
    ("variant_families_out_of_scope", sortedTexts
      (enabledFamilies.filter fun family => !(familiesOf outcomes).contains family))]

/-- The resolutions, without those that another has the canonical form of. -/
def uniqueResolutions (s : Services) :
    List Str → List JsonValue → Checked (List JsonValue)
  | _, [] => .ok []
  | seen, resolution :: rest => do
      let key ← canonicalText s resolution
      if seen.contains key then uniqueResolutions s seen rest
      else return resolution :: (← uniqueResolutions s (seen ++ [key]) rest)

/-- What the result says of itself, and of the results it was made from. -/
def checkBvIdentity (s : JoinServices) (bv attestation : Members)
    (locators : Capability → Locator) (profileId : Str) : Checked Unit := do
  raiseIf [!isText (field bv "contract_id") "bypass-validation@2.0",
      !hasText (field bv "profile_id") profileId,
      !isText (field bv "terminal_state") "no-bypass-found"] "bv-identity-invalid"
    "BV identity, state, or profile differs".toList
  raiseIf [!equal s.toServices (field bv "candidate_attestation") (.object attestation)]
    "bv-candidate-attestation-mismatch" "BV candidate attestation differs".toList
  let code := "bv-chain-provenance-mismatch"
  match field bv "input_bindings" with
  | .object bindings =>
      let bound := match field bindings "shared_contract_locators" with
        | .array [check, defense, mitigation] =>
            sameLocatorDocument s check (locators .checkGeneration) &&
              sameLocatorDocument s defense (locators .defenseGeneration) &&
              sameLocatorDocument s mitigation (locators .mitigationCheck)
        | _ => false
      raiseIf [!bound, !hasText (field bindings "bypass_profile_id") profileId,
          (field bindings "validation_substrate_id").asNonemptyText.isNone] code
        "BV does not bind exact CG, DG, and MC locators".toList
  | _ => refuse code "BV input bindings are absent".toList

/-- The search bounds are those of the dimensions. -/
def checkSearchBounds (s : Services) (bv : Members) (outcomes : List Outcome) : Checked Unit := do
  let executed := outcomes.filter (·.attempt.isSome)
  let planned := familiesOf outcomes
  let attempted := if planned.isEmpty then sortedTexts (outcomes.map (·.transformation))
    else sortedTexts (familiesOf executed)
  let code := "bv-attempt-accounting-invalid"
  let refusal := "BV search bounds differ from authenticated campaign dimensions".toList
  match field bv "search_bounds" with
  | .object bounds => do
      raiseIf [!equal s (field bounds "attempt_budget") (natNumber outcomes.length),
        !equal s (field bounds "attempts_executed") (natNumber executed.length),
        !equal s (field bounds "variant_families_attempted") attempted] code refusal
      raiseIf [!planned.isEmpty && (governedBounds outcomes).any fun entry =>
          !equal s (field bounds entry.1) entry.2] code
        "BV governed family accounting differs from authenticated dimensions".toList
  | _ => refuse code refusal

/-- `_validate_bv`.  An accepted result lists no counterexample and no feedback, so that
what the source says of those that are listed holds of none. -/
def validateBv (s : JoinServices) (bv semantics bundle attestation : Members)
    (locators : Capability → Locator) (resolver : Resolver) : Checked CoverageAccounting := do
  checkBvIdentity s bv attestation locators resolver.profileId
  let obligations ←
    index (← need semantics "obligations") "obligation_id" "obligations-invalid"
  let campaigns ←
    index (field bv "campaign_results") "obligation_id" "bv-campaign-results-invalid"
  raiseIf [!sameSet (keys campaigns) (keys obligations)] "bv-campaign-accounting-invalid"
    "BV campaign IDs differ from required obligations".toList
  let inputs ← index (← need semantics "test_inputs") "input_id" "semantics-inputs-invalid"
  let components ← index (← need semantics "components") "component_id" "components-invalid"
  let accepted ← checkCampaigns s ⟨semantics, obligations, inputs, components, bundle, resolver⟩
    [] campaigns
  raiseIf [!equal s.toServices (field bv "counterexamples") (.array []),
      !equal s.toServices (field bv "feedback") (.array [])] "bv-translation-outcome-invalid"
    "BV no-bypass aggregate cannot contain counterexamples or feedback".toList
  let resolutions ← uniqueResolutions s.toServices [] (accepted.flatMap (·.resolutions))
  raiseIf [!equal s.toServices (field bv "resolutions") (.array resolutions)] resolutionCode
    "BV top-level resolutions differ from campaign resolutions".toList
  let outcomes := accepted.flatMap (·.outcomes)
  let disposed := (outcomes.filter (·.attempt.isSome)).length +
    (outcomes.filter (·.attempt.isNone)).length
  raiseIf [disposed != outcomes.length] "bv-attempt-accounting-invalid"
    "BV planned dimensions contain a silent non-executed disposition".toList
  checkSearchBounds s.toServices bv outcomes
  let accounting ← accountingOf semantics outcomes.length disposed
  raiseIf [!equal s.toServices (field bv "accounting") accounting.json] "bv-accounting-invalid"
    "BV CoverageAccounting differs".toList
  return accounting

end SharedContracts
