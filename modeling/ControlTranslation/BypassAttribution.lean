import ControlTranslation.MitigationCases
import ControlTranslation.GrammarLabels

/-!
# What a bypass dimension is attributed to

Under `waf-bypass@3` a dimension of a campaign names what it was made from: a
label of its component, or a challenge of the profile.  A challenge names a slot
of the component, an ordinal within the bound of the profile, and the chain of
transformations it was sent through.
-/

namespace SharedContracts

open PyText JsonValue

/-- `text.rpartition(separator)`, where there is one. -/
def rpartition (separator : Char) (text : Str) : Option (Str × Str) :=
  if text.contains separator then
    let after := text.reverse.takeWhile (· ≠ separator)
    some ((text.reverse.drop (after.length + 1)).reverse, after.reverse)
  else none

/-- `text.split(separator)`, after the start of a piece; `skip` code points of a
separator are still to pass. -/
def splitFrom (separator piece : Str) : Nat → Str → List Str
  | _, [] => [piece]
  | skip + 1, _ :: rest => splitFrom separator piece skip rest
  | 0, c :: rest =>
      if separator.isPrefixOf (c :: rest) then
        piece :: splitFrom separator [] (separator.length - 1) rest
      else splitFrom separator (piece ++ [c]) 0 rest

/-- `text.removeprefix(prefix)`. -/
def withoutPrefix (start text : Str) : Str :=
  if start.isPrefixOf text then text.drop start.length else text

/-- `text.isdecimal()`. -/
def isDecimal (t : CharTables) (text : Str) : Bool :=
  !text.isEmpty && text.all fun c => (t.decimal c).isSome

/-- `text.isdigit()`. -/
def isDigits (s : JoinServices) (text : Str) : Bool := !text.isEmpty && text.all s.isDigit

/-- `max(items, key=length)`: the first of the longest. -/
def longest {α : Type} (length : α → Nat) : List α → Option α
  | [] => none
  | item :: rest =>
      some (rest.foldl (fun best other => if length best < length other then other else best) item)

/-- `value in container`. -/
def isIn (s : Services) (value : JsonValue) : JsonValue → Checked Bool
  | .array items => .ok (items.any (equal s value))
  | .object members => do
      let key ← hashed value
      return key.asText.any (hasKey members)
  | .text whole =>
      match value with
      | .text part => .ok (whole.tails.any part.isPrefixOf)
      | _ => .error .crash
  | _ => .error .crash

/-- What an embedded profile has to be. -/
structure ProfileMetadata where
  filename : String
  byteLength : Nat
  fileDigest : String
  profileDigest : String

/-- The resolver every accepted bypass-verdict attribution names. -/
def bvResolverId : String := "bv-approved-route-adapter"

/-- The legacy bypass profile. -/
def bypass2 : Str := "waf-bypass@2".toList

/-- The bypass profile that carries dimensions. -/
def bypass3 : Str := "waf-bypass@3".toList

/-- What the packaged legacy profile must be, byte for byte. -/
def legacyBvMetadata : ProfileMetadata where
  filename := "bv-http-route-profile.json"
  byteLength := 3745
  fileDigest := "sha256:e32674808bc8691021f26683aaa44bdd313a25875ea57168ddb4e0a2a6c1e2bc"
  profileDigest := "sha256:46f4d0dd59e1464acc1ef19ef68d0134a4be554cc203da653192f057aa82e577"

/-- What the packaged current profile must be, byte for byte. -/
def bvMetadata : ProfileMetadata where
  filename := "bv-http-route-profile-v3.json"
  byteLength := 6251
  fileDigest := "sha256:9373f61caafa9fcede696e9c01e7d146235994b35faed4c9ada147b3f78396a6"
  profileDigest := "sha256:749b4773b1f479e0b5ce00868a99a148076be87952640b41408d9dd3dc3f14f9"

/-- The packaged profile a profile id stands for. -/
def metadataOf (profileId : Str) : Option ProfileMetadata :=
  if profileId = bypass2 then some legacyBvMetadata
  else if profileId = bypass3 then some bvMetadata
  else none

/-- The manifest has to repeat the metadata of the profile. -/
def expectedManifest (metadata : ProfileMetadata) : JsonValue :=
  .object [("manifest_version".toList, natNumber 1), ("profile_id".toList, .text bypass3),
    ("resolver_id".toList, .text bvResolverId.toList),
    ("registry_id".toList, .text "janus-approved-test-routes".toList),
    ("relative_path".toList, .text metadata.filename.toList),
    ("sha256".toList, .text metadata.fileDigest.toList),
    ("byte_length".toList, natNumber metadata.byteLength),
    ("resolver_profile_digest".toList, .text metadata.profileDigest.toList)]

/-- The code of a profile that is not the packaged one. -/
def profileCode : String := "bv-profile-integrity-failed"

/-- The manifest of the newer profile. -/
def checkManifest (s : JoinServices) (profileId : Str) (metadata : ProfileMetadata) :
    Checked Unit :=
  if profileId = bypass3 then do
    let manifest ← strictJsonBytes s.toServices (s.profileFile "manifest-v3.json")
      "waf-bypass@3 manifest".toList
    raiseIf [!equal s.toServices (.object manifest) (expectedManifest metadata)] profileCode
      "embedded waf-bypass@3 manifest metadata differs".toList
  else .ok ()

/-- `_bv_profile`. -/
def bvProfile (s : JoinServices) (profileId : Str) : Checked Members :=
  match metadataOf profileId with
  | none => refuse profileCode "unapproved embedded BV profile".toList
  | some metadata => do
      checkManifest s profileId metadata
      let raw := s.profileFile metadata.filename
      raiseIf [raw.length != metadata.byteLength,
          digestBytes s.toServices raw != metadata.fileDigest.toList] profileCode
        ("embedded ".toList ++ profileId ++ " profile bytes differ".toList)
      let profile ← strictJsonBytes s.toServices raw (profileId ++ " profile".toList)
      let refusal := "embedded ".toList ++ profileId ++ " profile identity differs".toList
      raiseIf [!hasText (field profile "profile_id") profileId,
        !isText (field profile "resolver_id") bvResolverId] profileCode refusal
      let own ← digest s.toServices (.object profile)
      raiseIf [own != metadata.profileDigest.toList,
        (field profile "routes").asObject.isNone,
        (field profile "bypass_dimensions").asObject.isNone] profileCode refusal
      return profile

/-- `_expected_bv_dimensions` under an embedded profile. -/
def expectedDimensions (s : JoinServices) (profileId : Str) (obligation semantics : Members) :
    Checked (List Dimension) := do
  let profile ← bvProfile s profileId
  expectedBvDimensions s.toServices ⟨profileId = bypass3, profile⟩ obligation semantics

/-- `_component_target_label`. -/
def targetLabel (s : Services) (location : Members) (kind : Str) : Checked Str :=
  if ["http-query".toList, "http-header".toList, "http-cookie".toList].contains kind then do
    let name ← need location "name"
    return kind ++ ':' :: (format s name ++ ':' ::
      format s (fieldOr location "occurrence" (natNumber 0)))
  else if kind = "http-body-structured".toList then
    if isText (field location "selector_type") "any-field" then
      .ok "http-body-structured:*".toList
    else do return kind ++ ':' :: format s (← need location "selector")
  else if kind = "http-path".toList then .ok "http-path:path-payload".toList
  else .ok kind

/-- `_component_target_label_matches`. -/
def targetLabelMatches (s : Services) (component : Members) (label : Str) : Checked Bool := do
  let location ← needDictionary component "location"
  let kind := format s (← need location "kind")
  let start := kind ++ [':']
  if ["http-query".toList, "http-header".toList, "http-cookie".toList].contains kind &&
      isText (field location "name") "*" then
    return start.isPrefixOf label && (rpartition ':' (withoutPrefix start label)).any
      fun parts => !parts.1.isEmpty && isDecimal s.tables parts.2
  else if kind == "http-body-structured".toList &&
      isText (field location "selector_type") "any-field" then
    return "http-body-structured:/".toList.isPrefixOf label
  else return label == (← targetLabel s location kind)

/-- The code of a dimension that does not fit its profile. -/
def dimensionCode : String := "bv-dimension-invalid"

/-- `re.search(r"~(?![01])", text)`: a tilde that escapes nothing. -/
def hasLooseTilde : Str → Bool
  | [] => false
  | c :: rest =>
      (c == '~' && rest.head? != some '0' && rest.head? != some '1') || hasLooseTilde rest

/-- Whether a target names one of the fields that `*` stands for. -/
def isWildcardTarget (s : JoinServices) (kind : String) (carrierMatches : Bool) (target : Str) :
    Checked Bool :=
  let start := (kind ++ ":").toList
  if start.isPrefixOf target then
    match rpartition ':' (withoutPrefix start target) with
    | some (name, occurrence) =>
        if !name.isEmpty && isDigits s occurrence then
          match JsonPointer.readInt s.tables occurrence with
          | some place => .ok ((toString place).toList == occurrence && carrierMatches)
          | none => .error .crash
        else .ok false
    | none => .ok false
  else .ok false

/-- Carriers that take a name, with the carrier kind each is written as. -/
def namedCarriers : List (String × String) :=
  [("http-query", "query"), ("http-header", "header"), ("http-cookie", "cookie")]

/-- Whether a target is one of the component's. -/
def isChallengeTarget (s : JoinServices) (location : Members) (carrier target : Str) :
    Checked Bool := do
  let kind := field location "kind"
  if isText kind "http-path" && carrier == "path".toList &&
      target == "http-path:path-payload".toList then return true
  else do
    let key ← hashed kind
    let wildcard ← match namedCarriers.find? fun entry => isText key entry.1 with
      | some (kind, expected) =>
          if isText (field location "name") "*" then
            isWildcardTarget s kind (carrier == expected.toList) target
          else .ok false
      | none => .ok false
    return wildcard || (isText kind "http-body-structured" &&
      isText (field location "selector_type") "any-field" && carrier == "body-json".toList &&
      "http-body-structured:/".toList.isPrefixOf target &&
      !hasLooseTilde (withoutPrefix "http-body-structured:".toList target))

/-- `_validate_v3_challenge_target`. -/
def validateV3ChallengeTarget (s : JoinServices) (attribution : Str) (carrier : Str)
    (component : Members) : Checked Unit := do
  raiseIf [!"target:".toList.isPrefixOf attribution] dimensionCode
    "BV challenge target attribution is malformed".toList
  match field component "location" with
  | .object location => do
      let named ← isChallengeTarget s location carrier
        (withoutPrefix "target:".toList attribution)
      raiseIf [!named] dimensionCode "BV challenge target attribution differs".toList
  | _ => refuse dimensionCode "BV challenge component location is absent".toList

/-- What a dimension is made for. -/
structure Target where
  inputId : Str
  componentId : Str
  carrier : Str
  deriving DecidableEq

/-- A dimension is made for a target. -/
def Dimension.isAt (dimension : Dimension) (target : Target) : Bool :=
  hasText dimension.inputId target.inputId && dimension.componentId == target.componentId &&
    dimension.carrier.toList == target.carrier

/-- The labels expected of a target. -/
def producersOf (expected : List Dimension) (target : Target) : List Str :=
  (expected.filter (·.isAt target)).map (·.transformation)

/-- The chain of a label that starts with a grammar label. -/
def chainOfGrammar (label : Str) : Checked Str :=
  if label.contains '|' then .ok (partition '|' label).2 else .error .crash

/-- The chains of an authenticated source. -/
def sourceChains (producers : List Str) : Checked (List Str) := do
  let chains ← producers.mapM fun label =>
    if "grammar:".toList.isPrefixOf label then chainOfGrammar label else .ok label
  return chains ++ ["baseline:authenticated-source".toList]

/-- The chains that producers sent a value through. -/
def producerChains (producers : List Str) : Checked (List Str) :=
  producers.mapM fun label =>
    if "grammar:".toList.isPrefixOf label then chainOfGrammar label
    else if "challenge:source:authenticated-representation|".toList.isPrefixOf label then
      match label.splitOn '|' with
      | [_, _, _, chain] =>
          .ok (if "transformation:".toList.isPrefixOf chain then
            withoutPrefix "transformation:".toList chain else label)
      | _ => .ok label
    else .ok label

/-- A dimension under check. -/
structure Attempt where
  target : Target
  supported : JsonValue
  component : Members
  producers : List Str

/-- A slot under its identity, if it has one. -/
def identifiedSlot (slot : JsonValue) : Option (Str × Members) :=
  slot.asObject.bind fun members => (field members "slot_id").asText.map fun id => (id, members)

/-- The slot of a component that the rest of a challenge label names. -/
def challengedSlot (component : Members) (suffix : Str) : Checked (Str × Members) :=
  match (field component "grammar").asObject.bind fun grammar =>
      (field grammar "slots").asArray with
  | none => refuse dimensionCode "BV challenge component has no declared slots".toList
  | some slots =>
      let named := (slots.filterMap identifiedSlot).filter fun slot =>
        suffix == slot.1 || (slot.1 ++ [':']).isPrefixOf suffix
      match longest (fun slot => slot.1.length) named with
      | none => refuse dimensionCode "BV challenge names an unknown component slot".toList
      | some slot => .ok slot

/-- `ordinal >= maximum`. -/
def reaches (s : Services) (ordinal : ℤ) : JsonValue → Checked Bool
  | .number literal => .ok (decide (s.number literal ≤ ordinal))
  | .bool b => .ok (decide ((if b then 1 else 0) ≤ ordinal))
  | _ => .error .crash

/-- The ordinal of a challenge, within the bound of its profile. -/
def challengeOrdinal (s : JoinServices) (challenge : Members) (suffix : Str) :
    Checked (Option ℤ) :=
  if suffix.isEmpty then .ok none
  else do
    let digits := withoutPrefix [':'] suffix
    raiseIf [!isDecimal s.tables digits] dimensionCode "BV challenge ordinal is malformed".toList
    match JsonPointer.readInt s.tables digits with
    | none => .error .crash
    | some ordinal => do
        let exceeded ← reaches s.toServices ordinal
          (fieldOr challenge "maximum_values" (natNumber 0))
        raiseIf [exceeded] dimensionCode "BV challenge ordinal exceeds its profile bound".toList
        return some ordinal

/-- Whether a challenge applies to a slot. -/
def appliesTo (s : Services) (challenge slot : Members) : Checked Bool := do
  let typed ← isIn s (field slot "value_type") (fieldOr challenge "value_types" (.array []))
  match typed, field slot "allowed_domain" with
  | true, .object domain =>
      isIn s (field domain "kind") (fieldOr challenge "domain_kinds" (.array []))
  | _, _ => return false

/-- The chain of a challenge is one its strategy allows. -/
def checkChallengeChain (s : Services) (challenge : Members) (producers : List Str)
    (transformation : Str) : Checked Unit :=
  if isText (field challenge "strategy") "representation" then
    raiseIf [transformation !=
        "authenticated-encode-".toList ++ format s (field challenge "codec")] dimensionCode
      "BV representation challenge transformation differs".toList
  else do
    let chains ← producerChains producers
    raiseIf [!chains.contains transformation] dimensionCode
      "BV challenge transformation is not producer-derived".toList

/-- A challenge of the profile. -/
def checkChallenge (s : JoinServices) (challenges : Table Members) (attempt : Attempt)
    (label transformation : Str) : Checked Unit := do
  let approved := (keys challenges).filter fun id => (id ++ [':']).isPrefixOf label
  match longest List.length approved with
  | none => refuse dimensionCode "BV challenge attribution is not profile-approved".toList
  | some id => do
      let challenge ← needEntry challenges id
      let carried ← isIn s.toServices (.text attempt.target.carrier)
        (fieldOr challenge "carriers" (.array []))
      raiseIf [!carried] dimensionCode "BV challenge carrier is not profile-approved".toList
      let suffix := label.drop (id.length + 1)
      let (slotId, slot) ← challengedSlot attempt.component suffix
      let ordinal ← challengeOrdinal s challenge (suffix.drop slotId.length)
      let applies ← appliesTo s.toServices challenge slot
      raiseIf [!applies] dimensionCode
        "BV challenge is inapplicable to its declared slot".toList
      if isFalse attempt.supported then
        raiseIf [transformation != "unsupported".toList] dimensionCode
          "BV unsupported challenge attribution differs".toList
      else do
        raiseIf [ordinal.isNone] dimensionCode
          "BV supported challenge has no bounded ordinal".toList
        checkChallengeChain s.toServices challenge attempt.producers transformation

/-- Whether the fields of an attribution are those of its dimension. -/
def attributionShape (s : Services) (attempt : Attempt) : List Str → Checked Bool
  | label :: component :: carrier :: chain :: target => do
      if "challenge:".toList.isPrefixOf label &&
          component == "component:".toList ++ attempt.target.componentId &&
          carrier == "carrier:".toList ++ attempt.target.carrier &&
          "transformation:".toList.isPrefixOf chain then
        match target with
        | [] => return true
        | [target] =>
            targetLabelMatches s attempt.component (withoutPrefix "target:".toList target)
        | _ => return false
      else return false
  | _ => .ok false

/-- `_v3_challenge_attribution`. -/
def v3ChallengeAttribution (s : JoinServices) (challenges : Table Members) (attempt : Attempt)
    (attribution : Str) : Checked Unit := do
  let fields := attribution.splitOn '|'
  let shaped ← attributionShape s.toServices attempt fields
  raiseIf [!shaped] dimensionCode
    ("BV challenge attribution shape differs: ".toList ++ attribution)
  let label := withoutPrefix "challenge:".toList (fields.getD 0 [])
  let transformation := withoutPrefix "transformation:".toList (fields.getD 3 [])
  if label = "source:authenticated-representation".toList then do
    let chains ← sourceChains attempt.producers
    raiseIf [!chains.contains transformation] dimensionCode
      "BV authenticated source representation has an unexpected transformation".toList
  else checkChallenge s challenges attempt label transformation

end SharedContracts
