import ControlTranslation.AkamaiAdapter
import ControlTranslation.FnMatch
import ControlTranslation.RuleCompiler

/-!
# The semantic gates

Before a candidate leaves the engine two gates look at what it would match.  One
asks whether the values of the right conditions cover every required payload and
the request path; the other runs the rule on a document with the proven field
and on a benign one.  Both read conditions in their own way: neither looks at
`positiveMatch`, the first looks at no flag at all, the second takes every header
value for a file-name pattern and compares literals with their letter case.

The target reads a condition by its fields (`accepts`).  This file states when
the reading of a gate carries over to it.
-/

namespace SemanticGates

open PyText JsonValue ModSecurity FnMatch AkamaiAdapter

/-- `condition.get(key) is True`. -/
def flag (condition : Members) (key : String) : Bool :=
  match field condition key with
  | .bool b => b
  | _ => false

/-- `_condition_values`. -/
def conditionValues (condition : Members) : List Str :=
  match field condition "value" with
  | .text s => [s]
  | .array items => items.filterMap asText
  | _ => []

/-- Whether the type of a condition is one of some. -/
def ofType (types : List Str) (condition : Members) : Bool :=
  match field condition "type" with
  | .text s => types.contains s
  | _ => false

/-- The conditions of a candidate. -/
def conditionsOf (rule : Members) : List Members :=
  match field rule "conditions" with
  | .array items => items.filterMap asObject
  | _ => []

variable {t : CharTables} (cs : Casing t)

/-- A value of a condition against a subject, by the fields of the condition. -/
def matchesBy (condition : Members) (subject value : Str) : Bool :=
  valueMatches cs (flag condition "valueCase") (flag condition "valueWildcard") value subject

/-- The verdict of a condition on a subject; a missing subject matches no value. -/
def accepts (condition : Members) (subject : Option Str) : Bool :=
  (match subject with
    | some s => (conditionValues condition).any (matchesBy cs condition s)
    | none => false) == flag condition "positiveMatch"

/-- The verdict of a rule whose conditions have the given verdicts. -/
def combine (rule : Members) (verdicts : List Bool) : Bool :=
  if isText (field rule "operation") "AND" then verdicts.all id else verdicts.any id

/-- What the gate reads of the requirements; `locationText` is what `json.dumps`
writes for the mutation location, with sorted keys. -/
structure GateRequirements where
  requirements : Requirements
  locationText : Str
  deriving DecidableEq, Repr

/-- `_required_akamai_condition_types`. -/
def requiredAkamaiConditionTypes (t : CharTables) (r : GateRequirements) : List Str × Str :=
  let location := t.lower r.locationText
  if isSubstring "header".toList location then
    (["requestHeaderValueMatch".toList], "request-header".toList)
  else if isSubstring "query".toList location then
    (["uriQueryMatch".toList], "query-string".toList)
  else if isSubstring "cookie".toList location then (["cookieMatch".toList], "cookie".toList)
  else if isSubstring "path".toList location then (["pathMatch".toList], "request-path".toList)
  else (["argsPostMatch", "argsPostJSONMatch", "argsPostXMLMatch"].map String.toList,
    "request-body".toList)

/-- `_value_covers`. -/
def valueCovers (t : CharTables) (configured required : Str) : Bool :=
  t.lower (stripStars configured) == t.lower required

/-- The conditions whose type is one of some; `condition["type"]` may raise. -/
def selectType (types : List Str) : List Members → Option (List Members)
  | [] => some []
  | condition :: rest =>
      match (if hasField condition "type" then inTexts types (field condition "type") else none),
        selectType types rest with
      | some true, some others => some (condition :: others)
      | some false, some others => some others
      | _, _ => none

/-- The error of a payload no condition of the rule matches. -/
def payloadError (repr : JsonValue → Str) (label payload : Str) : Str :=
  "Exact/equivalent Akamai translation does not preserve required ".toList ++ label ++
    " payload ".toList ++ repr (.text payload) ++ " with a documented ".toList ++ label ++
    " condition".toList

/-- The error of a path no condition of the rule matches. -/
def pathError (repr : JsonValue → Str) (path : Str) : Str :=
  "Exact/equivalent Akamai translation does not preserve request path ".toList ++
    repr (.text path) ++ " with a pathMatch condition".toList

/-- Whether some value of the conditions covers a text. -/
def coveredBy (t : CharTables) (conditions : List Members) (required : Str) : Bool :=
  (conditions.flatMap conditionValues).any fun value => valueCovers t value required

/-- The errors about the payloads and the path, over the conditions of a rule. -/
def requirementErrors (t : CharTables) (repr : JsonValue → Str) (conditions : List Members)
    (r : GateRequirements) : Option (List Str) :=
  let required := requiredAkamaiConditionTypes t r
  match selectType required.1 conditions with
  | none => none
  | some payloadConditions =>
      let errors := (r.requirements.requiredPayloads.filter fun payload =>
        !coveredBy t payloadConditions payload).map (payloadError repr required.2)
      match r.requirements.requestPath with
      | none => some errors
      | some path =>
          (selectType ["pathMatch".toList] conditions).map fun pathConditions =>
            errors ++ if coveredBy t pathConditions path then [] else [pathError repr path]

/-- `_akamai_semantic_errors` on a decoded candidate. -/
def akamaiSemanticErrors (t : CharTables) (repr : JsonValue → Str) (candidate : JsonValue)
    (label : TranslationLabel) (r : GateRequirements) : Option (List Str) :=
  if label ≠ .exact ∧ label ≠ .equivalent then some []
  else
    match candidate with
    | .object rule =>
        match field rule "conditions" with
        | .array items =>
            match items.mapM asObject with
            | some conditions => requirementErrors t repr conditions r
            | none => none
        | _ => none
    | _ => none

/-- What the requirements ask for: texts, each with the types of condition that
have to cover it. -/
def demanded (t : CharTables) (r : GateRequirements) : List (List Str × Str) :=
  r.requirements.requiredPayloads.map ((requiredAkamaiConditionTypes t r).1, ·) ++
    r.requirements.requestPath.toList.map (["pathMatch".toList], ·)

/-- A condition of the right type has a value that covers the text. -/
def Covered (t : CharTables) (conditions : List Members) (demand : List Str × Str) : Prop :=
  ∃ c ∈ conditions, ofType demand.1 c = true ∧
    ∃ v ∈ conditionValues c, valueCovers t v demand.2 = true

/-- A condition of the right type accepts the text. -/
def Satisfied (conditions : List Members) (demand : List Str × Str) : Prop :=
  ∃ c ∈ conditions, ofType demand.1 c = true ∧ accepts cs c (some demand.2) = true

/-- The text is covered by a value that is read as the gate reads it: in a positive
condition, its outer stars are wildcards, and its letters are the text's where
letter case counts. -/
def ReadAlike (t : CharTables) (conditions : List Members) (demand : List Str × Str) : Prop :=
  ∃ c ∈ conditions, ofType demand.1 c = true ∧ flag c "positiveMatch" = true ∧
    ∃ v ∈ conditionValues c, valueCovers t v demand.2 = true ∧
      (flag c "valueWildcard" = true ∨ stripStars v = v) ∧
      (flag c "valueCase" = true → stripStars v = demand.2)

/-- What is covered by a value read alike is satisfied. -/
theorem satisfied_of_readAlike {conditions : List Members} {demand : List Str × Str}
    (h : ReadAlike t conditions demand) : Satisfied cs conditions demand := by
  obtain ⟨c, hc, htype, hpositive, v, hv, hcover, hread⟩ := h
  refine ⟨c, hc, htype, ?_⟩
  rw [accepts, hpositive, beq_true, List.any_eq_true]
  exact ⟨v, hv, (valueMatches_iff_of_covers cs (beq_iff_eq.mp hcover)).mpr hread⟩

/-- Selecting by type keeps the conditions of that type. -/
theorem selectType_valid {types : List Str} : ∀ {conditions : List Members},
    (∀ c ∈ conditions, ValidCondition c) →
      selectType types conditions = some (conditions.filter (ofType types)) := by
  intro conditions
  induction conditions with
  | nil => exact fun _ => rfl
  | cons c rest ih =>
      intro hvalid
      obtain ⟨type, -, htype⟩ := (hvalid c List.mem_cons_self).type
      have hhas : hasField c "type" = true := by
        by_contra habsent
        rw [field, get_of_not_mem] at htype
        · cases htype
        · intro m hm hkey
          apply habsent
          exact List.any_eq_true.mpr ⟨m, hm, beq_iff_eq.mpr hkey⟩
      have hof : ofType types c = types.contains type := by rw [ofType, htype]
      rw [selectType, if_pos hhas, htype, inTexts,
        ih fun d hd => hvalid d (List.mem_cons_of_mem _ hd), List.filter_cons, hof]
      cases types.contains type <;> rfl

/-- Covering, as the gate computes it. -/
theorem coveredBy_filter {conditions : List Members} {types : List Str} {s : Str} :
    coveredBy t (conditions.filter (ofType types)) s = true ↔ Covered t conditions (types, s) := by
  simp only [coveredBy, List.any_eq_true, List.mem_flatMap, List.mem_filter, Covered]
  constructor
  · rintro ⟨v, ⟨c, ⟨hc, htype⟩, hv⟩, hcover⟩
    exact ⟨c, hc, htype, v, hv, hcover⟩
  · rintro ⟨c, hc, htype, v, hv, hcover⟩
    exact ⟨v, ⟨c, ⟨hc, htype⟩, hv⟩, hcover⟩

/-- The gate has nothing to report exactly when everything demanded is covered. -/
theorem requirementErrors_nil {repr : JsonValue → Str} {conditions : List Members}
    {r : GateRequirements} (hvalid : ∀ c ∈ conditions, ValidCondition c) :
    requirementErrors t repr conditions r = some [] ↔
      ∀ demand ∈ demanded t r, Covered t conditions demand := by
  have hpayloads : ((r.requirements.requiredPayloads.filter fun payload =>
      !coveredBy t (conditions.filter (ofType (requiredAkamaiConditionTypes t r).1)) payload).map
        (payloadError repr (requiredAkamaiConditionTypes t r).2)) = [] ↔
      ∀ p ∈ r.requirements.requiredPayloads,
        Covered t conditions ((requiredAkamaiConditionTypes t r).1, p) := by
    rw [List.map_eq_nil_iff, List.filter_eq_nil_iff]
    simp only [Bool.not_eq_true', Bool.not_eq_false, coveredBy_filter]
  have hdemanded : (∀ demand ∈ demanded t r, Covered t conditions demand) ↔
      (∀ p ∈ r.requirements.requiredPayloads,
        Covered t conditions ((requiredAkamaiConditionTypes t r).1, p)) ∧
      ∀ path ∈ r.requirements.requestPath, Covered t conditions (["pathMatch".toList], path) := by
    simp only [demanded, List.mem_append, List.mem_map, Option.mem_toList]
    constructor
    · intro h
      exact ⟨fun p hp => h _ (Or.inl ⟨p, hp, rfl⟩),
        fun path hpath => h _ (Or.inr ⟨path, hpath, rfl⟩)⟩
    · rintro ⟨hpayload, hpath⟩ demand (⟨p, hp, rfl⟩ | ⟨path, hmem, rfl⟩)
      · exact hpayload p hp
      · exact hpath path hmem
  rw [hdemanded, ← hpayloads]
  simp only [requirementErrors, selectType_valid hvalid]
  cases hpath : r.requirements.requestPath with
  | none => simp only [Option.some.injEq, Option.mem_def, reduceCtorEq, false_implies,
      implies_true, and_true]
  | some path =>
      simp only [Option.map_some, Option.some.injEq, List.append_eq_nil_iff, Option.mem_def,
        forall_eq']
      apply and_congr_right'
      rw [← coveredBy_filter]
      cases coveredBy t (conditions.filter (ofType ["pathMatch".toList])) path <;> simp

/-- How the value of a feature is matched. -/
inductive ValueMatch
  | exact
  | containsToken
  | fieldPresent
  deriving DecidableEq, Repr

/-- A proven field of a JSON request body; its path has a segment. -/
structure JsonBodyFieldFeature where
  method : Str
  contentType : Str
  fieldPath : List Str
  value : Str
  valueMatch : ValueMatch
  fieldPath_ne : fieldPath ≠ []

/-- `_nested_json_value`. -/
def nestedJsonValue : List Str → JsonValue → JsonValue
  | [], value => value
  | segment :: path, value => .object [(segment, nestedJsonValue path value)]

/-- A value the pattern stands for. -/
def maliciousValue (feature : JsonBodyFieldFeature) : Str :=
  match feature.valueMatch with
  | .fieldPresent => "janus-nonempty-proven-field".toList
  | .exact => feature.value
  | .containsToken => "janus-prefix ".toList ++ feature.value ++ " janus-suffix".toList

/-- The document with the proven field. -/
def maliciousDocument (feature : JsonBodyFieldFeature) : JsonValue :=
  nestedJsonValue feature.fieldPath (.text (maliciousValue feature))

/-- The document the rule has to leave alone. -/
def benignDocument (feature : JsonBodyFieldFeature) : JsonValue :=
  if feature.valueMatch = .fieldPresent then .object []
  else nestedJsonValue feature.fieldPath (.text "janus-benign-node-options".toList)

/-- The value under a path, when every step of it is there. -/
def valueAt : List Str → JsonValue → Option JsonValue
  | [], value => some value
  | segment :: path, .object members =>
      if hasKey members segment then valueAt path (get members segment) else none
  | _ :: _, _ => none

/-- The text under the path of the feature. -/
def fieldText (feature : JsonBodyFieldFeature) (document : JsonValue) : Option Str :=
  (valueAt feature.fieldPath document).bind asText

/-- `_wildcard_match`. -/
def wildcardMatch (caseSensitive : Bool) (actual pattern : Str) : Bool :=
  if caseSensitive then fnmatchcase actual pattern
  else fnmatchcase (cs.casefold actual) (cs.casefold pattern)

/-- Whether a condition is on the method. -/
def isMethodCondition (condition : Members) : Bool :=
  isText (field condition "type") "requestMethodMatch"

/-- A condition on the header the proven request declares its content in. -/
def isContentTypeCondition (t : CharTables) (condition : Members) : Bool :=
  isText (field condition "type") "requestHeaderValueMatch" &&
    ((field condition "header").asText.map t.lower) == some "content-type".toList

/-- A condition on the proven field. -/
def isFieldCondition (feature : JsonBodyFieldFeature) (condition : Members) : Bool :=
  isText (field condition "type") "argsPostJSONMatch" &&
    isText (field condition "parameter") (String.ofList (join ['.'] feature.fieldPath))

/-- How the gate compares a value of a condition on the proven field. -/
def fieldValueReads (condition : Members) (actual value : Str) : Bool :=
  if flag condition "valueWildcard" then
    wildcardMatch cs (flag condition "valueCase") actual value
  else value == actual

/-- What the gate makes of one condition on a document. -/
def gateReads (feature : JsonBodyFieldFeature) (document : JsonValue) (condition : Members) :
    Bool :=
  if isMethodCondition condition then (conditionValues condition).contains feature.method
  else if isContentTypeCondition t condition then
    (conditionValues condition).any
      (wildcardMatch cs (flag condition "valueCase") feature.contentType)
  else if isFieldCondition feature condition then
    match fieldText feature document with
    | some actual => (conditionValues condition).any (fieldValueReads cs condition actual)
    | none => false
  else false

/-- `_akamai_json_rule_matches`: the first condition it cannot read ends it, and so
does every condition that does not match. -/
def akamaiJsonRuleMatches (rule : Members) (feature : JsonBodyFieldFeature)
    (document : JsonValue) : Bool :=
  isText (field rule "operation") "AND" && !(conditionsOf rule).isEmpty &&
    (conditionsOf rule).all (gateReads cs feature document)

/-- `_akamai_json_body_semantic_errors` on a decoded rule. -/
def akamaiJsonBodySemanticErrors (rule : Members) (feature : JsonBodyFieldFeature) : List Str :=
  if akamaiJsonRuleMatches cs rule feature (maliciousDocument feature) = false then
    ["Akamai-like candidate does not match the proven malicious JSON field value".toList]
  else if akamaiJsonRuleMatches cs rule feature (benignDocument feature) then
    ["Akamai-like candidate also matches a benign JSON field value".toList]
  else []

/-- What a condition inspects of the proven request with a given body. -/
def subjectOf (feature : JsonBodyFieldFeature) (document : JsonValue) (condition : Members) :
    Option Str :=
  if isMethodCondition condition then some feature.method
  else if isContentTypeCondition t condition then some feature.contentType
  else if isFieldCondition feature condition then fieldText feature document
  else none

/-- The verdict of a condition on the proven request with a given body. -/
def verdict (feature : JsonBodyFieldFeature) (document : JsonValue) (condition : Members) : Bool :=
  accepts cs condition (subjectOf (t := t) feature document condition)

/-- The verdict of a rule on the proven request with a given body. -/
def ruleMatches (rule : Members) (feature : JsonBodyFieldFeature) (document : JsonValue) : Bool :=
  combine rule ((conditionsOf rule).map (verdict cs feature document))

/-- The gate's reading of the conditions lets the rule pass. -/
def ReadsWell (rule : Members) (feature : JsonBodyFieldFeature) : Prop :=
  isText (field rule "operation") "AND" = true ∧ conditionsOf rule ≠ [] ∧
    (∀ c ∈ conditionsOf rule, gateReads cs feature (maliciousDocument feature) c = true) ∧
    ∃ c ∈ conditionsOf rule, gateReads cs feature (benignDocument feature) c = false

/-- The gate reports nothing exactly for rules it reads well. -/
theorem akamaiJsonBodySemanticErrors_nil {rule : Members} {feature : JsonBodyFieldFeature} :
    akamaiJsonBodySemanticErrors cs rule feature = [] ↔ ReadsWell cs rule feature := by
  have hmatches : ∀ document, akamaiJsonRuleMatches cs rule feature document = true ↔
      isText (field rule "operation") "AND" = true ∧ conditionsOf rule ≠ [] ∧
        ∀ c ∈ conditionsOf rule, gateReads cs feature document c = true := by
    intro document
    simp [akamaiJsonRuleMatches, and_assoc]
  constructor
  · intro h
    rw [akamaiJsonBodySemanticErrors] at h
    split_ifs at h with hmalicious hbenign
    obtain ⟨hop, hne, hall⟩ := (hmatches _).mp (Bool.eq_true_of_not_eq_false hmalicious)
    refine ⟨hop, hne, hall, ?_⟩
    by_contra hnone
    apply hbenign
    refine (hmatches _).mpr ⟨hop, hne, fun c hc => ?_⟩
    by_contra hread
    exact hnone ⟨c, hc, Bool.eq_false_of_not_eq_true hread⟩
  · rintro ⟨hop, hne, hall, c, hc, hbenign⟩
    have hmalicious := (hmatches _).mpr ⟨hop, hne, hall⟩
    have hrefused : ¬akamaiJsonRuleMatches cs rule feature (benignDocument feature) = true := by
      intro hmatch
      rw [((hmatches _).mp hmatch).2.2 c hc] at hbenign
      cases hbenign
    rw [akamaiJsonBodySemanticErrors, hmalicious, if_neg (by decide), if_neg hrefused]

/-- The text of a value that the gate takes for a pattern. -/
def patternOf (condition : Members) (v : Str) : Str :=
  if flag condition "valueCase" then v else cs.casefold v

/-- A condition whose fields say what the gate assumes: it is positive; a header value is a
pattern, or has nothing of one; the values of the proven field are patterns, or literals
compared with their letter case, or no literal is the benign text but for letter case; and
no pattern has a bracket. -/
structure PlainlyRead (feature : JsonBodyFieldFeature) (condition : Members) : Prop where
  positive : flag condition "positiveMatch" = true
  header : isContentTypeCondition t condition = true → ∀ v ∈ conditionValues condition,
    '[' ∉ patternOf cs condition v ∧ (flag condition "valueWildcard" = true ∨
      ∀ c ∈ patternOf cs condition v, c ≠ '*' ∧ c ≠ '?')
  pattern : isFieldCondition feature condition = true → flag condition "valueWildcard" = true →
    ∀ v ∈ conditionValues condition, '[' ∉ patternOf cs condition v
  literal : isFieldCondition feature condition = true → flag condition "valueWildcard" = false →
    flag condition "valueCase" = true ∨ ∀ v ∈ conditionValues condition, ∀ text,
      fieldText feature (benignDocument feature) = some text → cs.casefold v ≠ cs.casefold text

/-- What a pattern without brackets matches, and what the condition does with it. -/
theorem wildcardMatch_eq {condition : Members} {actual v : Str}
    (h : '[' ∉ patternOf cs condition v) :
    wildcardMatch cs (flag condition "valueCase") actual v =
      valueMatches cs (flag condition "valueCase") true v actual := by
  unfold patternOf at h
  cases hcase : flag condition "valueCase" with
  | true =>
      rw [hcase] at h
      exact fnmatchcase_eq h actual
  | false =>
      rw [hcase] at h
      exact fnmatchcase_eq h (cs.casefold actual)

/-- A value that has nothing of a pattern is matched as a literal. -/
theorem valueMatches_literal {condition : Members} {actual v : Str}
    (h : ∀ c ∈ patternOf cs condition v, c ≠ '*' ∧ c ≠ '?') :
    valueMatches cs (flag condition "valueCase") true v actual =
      valueMatches cs (flag condition "valueCase") false v actual := by
  have hsame : ∀ {value subject : Str}, (∀ c ∈ value, c ≠ '*' ∧ c ≠ '?') →
      matchesValue false true value subject = matchesValue false false value subject := by
    intro value subject hplain
    unfold matchesValue
    rw [if_pos rfl, Glob.ofText_literal hplain]
    rfl
  unfold patternOf at h
  unfold valueMatches
  split_ifs at h ⊢ <;> exact hsame h

/-- A value matches its own text, whatever the flags. -/
theorem valueMatches_self (caseSensitive wildcard : Bool) (v : Str) :
    valueMatches cs caseSensitive wildcard v v = true := by
  have hself : ∀ text : Str, matchesValue false wildcard text text = true := by
    intro text
    cases wildcard with
    | true =>
        have hself := accepts_between_stars 0 0 text
        rw [List.replicate_zero, List.nil_append, List.append_nil] at hself
        exact hself
    | false => exact matchesValue_literal.mpr rfl
  unfold valueMatches
  split_ifs <;> exact hself _

/-- Where the gate sees a match of a plainly read condition, there is one. -/
theorem verdict_of_gateReads {feature : JsonBodyFieldFeature} {document : JsonValue}
    {condition : Members} (h : PlainlyRead cs feature condition)
    (hread : gateReads cs feature document condition = true) :
    verdict cs feature document condition = true := by
  unfold gateReads at hread
  unfold verdict subjectOf accepts
  rw [h.positive, beq_true]
  split_ifs at hread ⊢ with hmethod hheader hfield
  · rw [List.any_eq_true]
    refine ⟨feature.method, List.contains_iff_mem.mp hread, ?_⟩
    exact valueMatches_self cs _ _ _
  · obtain ⟨v, hv, hmatch⟩ := List.any_eq_true.mp hread
    obtain ⟨hbracket, hplain⟩ := h.header hheader v hv
    rw [wildcardMatch_eq cs hbracket] at hmatch
    refine List.any_eq_true.mpr ⟨v, hv, ?_⟩
    rw [matchesBy]
    rcases Bool.eq_false_or_eq_true (flag condition "valueWildcard") with hwildcard | hliteral
    · rw [hwildcard]
      exact hmatch
    · rw [hliteral, ← valueMatches_literal cs (hplain.resolve_left (by simp [hliteral]))]
      exact hmatch
  · split at hread
    · rename_i actual hactual
      obtain ⟨v, hv, hmatch⟩ := List.any_eq_true.mp hread
      refine List.any_eq_true.mpr ⟨v, hv, ?_⟩
      rw [matchesBy]
      unfold fieldValueReads at hmatch
      split_ifs at hmatch with hwildcard
      · rw [wildcardMatch_eq cs (h.pattern hfield hwildcard v hv)] at hmatch
        rw [hwildcard]
        exact hmatch
      · rw [Bool.not_eq_true] at hwildcard
        rw [hwildcard, eq_of_beq hmatch]
        exact valueMatches_self cs _ _ _
    · cases hread

/-- Where the gate sees that a plainly read condition on the proven field leaves the benign
document alone, it does. -/
theorem not_verdict_of_gateReads {feature : JsonBodyFieldFeature} {condition : Members}
    (h : PlainlyRead cs feature condition) (hmethod : isMethodCondition condition = false)
    (hheader : isContentTypeCondition t condition = false)
    (hread : gateReads cs feature (benignDocument feature) condition = false) :
    verdict cs feature (benignDocument feature) condition = false := by
  unfold gateReads at hread
  unfold verdict subjectOf accepts
  rw [h.positive, beq_true]
  simp only [hmethod, hheader, Bool.false_eq_true, if_false] at hread ⊢
  split_ifs at hread ⊢ with hfield
  · cases hactual : fieldText feature (benignDocument feature) with
    | none => rfl
    | some actual =>
        rw [hactual] at hread
        refine List.any_eq_false.mpr fun v hv => ?_
        have hno := List.any_eq_false.mp hread v hv
        rw [matchesBy]
        unfold fieldValueReads at hno
        split_ifs at hno with hwildcard
        · rw [hwildcard, ← wildcardMatch_eq cs (h.pattern hfield hwildcard v hv)]
          exact hno
        · rw [Bool.not_eq_true] at hwildcard
          rw [hwildcard, valueMatches]
          rw [beq_iff_eq] at hno
          split_ifs with hcase
          · rw [matchesValue_literal]
            exact hno
          · rw [matchesValue_literal]
            exact (h.literal hfield hwildcard).resolve_left hcase v hv actual hactual
  · rfl

/-- Where the conditions that the gate reads say what it assumes: the rule asks for all of
them, and each is on the method, on the content type or on the proven field. -/
def BodyReadPlainly (rule : Members) (feature : JsonBodyFieldFeature) : Prop :=
  isText (field rule "operation") "AND" = true →
    (∀ c ∈ conditionsOf rule, isMethodCondition c = true ∨ isContentTypeCondition t c = true ∨
      isFieldCondition feature c = true) →
    ∀ c ∈ conditionsOf rule, PlainlyRead cs feature c

/-- The promise of the payload gate. -/
def PayloadGateSound (repr : JsonValue → Str) (rule : Members) (label : TranslationLabel)
    (r : GateRequirements) : Prop :=
  akamaiSemanticErrors t repr (.object rule) label r = some [] →
    ∀ demand ∈ demanded t r, Satisfied cs (conditionsOf rule) demand

/-- The promise of the JSON body gate. -/
def BodyGateSound (rule : Members) (feature : JsonBodyFieldFeature) : Prop :=
  akamaiJsonBodySemanticErrors cs rule feature = [] →
    ruleMatches cs rule feature (maliciousDocument feature) = true ∧
      ruleMatches cs rule feature (benignDocument feature) = false

/-- A valid wrapper has no member but `rules`. -/
theorem wrapper_only {repr : JsonValue → Str} {rule : Members}
    (hvalid : syntaxErrors t repr (.object rule) = some [])
    (hwrapper : hasField rule "rules" = true) : ∀ m ∈ rule, m.1 = "rules".toList := by
  intro m hm
  by_contra hother
  have hany : (rule.any fun member => member.1 != "rules".toList) = true := by
    rw [List.any_eq_true]
    exact ⟨m, hm, by rw [bne_iff_ne]; exact hother⟩
  have hrules : (rulesOf rule).2 ≠ [] := by
    rw [rulesOf, if_neg (by rw [hwrapper]; decide), if_pos hany]
    exact List.cons_ne_nil _ _
  obtain ⟨_, -, hempty⟩ := Option.map_eq_some_iff.mp hvalid
  exact hrules (List.append_eq_nil_iff.mp hempty).1

/-- A wrapper of rules has no conditions of its own. -/
theorem wrapper_conditions {repr : JsonValue → Str} {rule : Members}
    (hvalid : syntaxErrors t repr (.object rule) = some [])
    (hwrapper : hasField rule "rules" = true) : field rule "conditions" = .null := by
  apply get_of_not_mem
  intro m hm hkey
  rw [wrapper_only hvalid hwrapper m hm] at hkey
  exact absurd hkey (by decide)

/-- Valid conditions are objects, and both ways of reading them agree. -/
theorem objects_of_valid {items : List JsonValue}
    (h : ∀ c ∈ items, ∃ members, c = .object members ∧ ValidCondition members) :
    items.mapM asObject = some (items.filterMap asObject) ∧
      ∀ c ∈ items.filterMap asObject, ValidCondition c := by
  induction items with
  | nil => exact ⟨rfl, fun _ hc => absurd hc List.not_mem_nil⟩
  | cons item rest ih =>
      obtain ⟨members, rfl, hmembers⟩ := h item List.mem_cons_self
      obtain ⟨hmap, hrest⟩ := ih fun c hc => h c (List.mem_cons_of_mem _ hc)
      have hcons : (JsonValue.object members :: rest).filterMap asObject =
          members :: rest.filterMap asObject := List.filterMap_cons_some rfl
      rw [hcons]
      refine ⟨by rw [List.mapM_cons, hmap]; rfl, fun c hc => ?_⟩
      rcases List.mem_cons.mp hc with rfl | hc
      · exact hmembers
      · exact hrest c hc

/-- The payload gate has nothing to report about a valid rule exactly when
everything demanded is covered; of a wrapper it reads no conditions at all. -/
theorem akamaiSemanticErrors_nil {repr : JsonValue → Str} {rule : Members}
    {label : TranslationLabel} {r : GateRequirements}
    (hvalid : syntaxErrors t repr (.object rule) = some [])
    (hlabel : label = .exact ∨ label = .equivalent) :
    akamaiSemanticErrors t repr (.object rule) label r = some [] ↔
      hasField rule "rules" = false ∧
        ∀ demand ∈ demanded t r, Covered t (conditionsOf rule) demand := by
  have hneither : ¬(label ≠ .exact ∧ label ≠ .equivalent) := by
    rcases hlabel with rfl | rfl <;> simp
  rw [akamaiSemanticErrors, if_neg hneither]
  cases hwrapper : hasField rule "rules" with
  | true => simp only [wrapper_conditions hvalid hwrapper, reduceCtorEq, Bool.true_eq_false,
      false_and]
  | false =>
      obtain ⟨conditions, hlist, -, hall⟩ := syntaxErrors_nil hwrapper hvalid
      obtain ⟨hmap, hmembers⟩ := objects_of_valid hall
      have hconditions : conditionsOf rule = conditions.filterMap asObject := by
        rw [conditionsOf, hlist]
      simp only [hlist, hmap, hconditions, true_and, requirementErrors_nil hmembers]

/-- A rule that is plainly read separates the documents if the gate says so. -/
theorem bodyGateSound {rule : Members} {feature : JsonBodyFieldFeature}
    (h : BodyReadPlainly cs rule feature) : BodyGateSound cs rule feature := by
  intro hnil
  obtain ⟨hop, -, hall, c, hc, hbenign⟩ := (akamaiJsonBodySemanticErrors_nil cs).mp hnil
  have hplain := h hop fun d hd => by
    have hread := hall d hd
    unfold gateReads at hread
    split_ifs at hread with hmethod hheader hfield
    · exact Or.inl hmethod
    · exact Or.inr (Or.inl hheader)
    · exact Or.inr (Or.inr hfield)
  -- the method and the content type are those of both documents
  have hread := hall c hc
  have hmethod : isMethodCondition c = false := by
    by_contra hmethod
    unfold gateReads at hread hbenign
    rw [if_pos (Bool.eq_true_of_not_eq_false hmethod)] at hread hbenign
    rw [hread] at hbenign
    cases hbenign
  have hheader : isContentTypeCondition t c = false := by
    by_contra hheader
    unfold gateReads at hread hbenign
    rw [if_neg (by simp [hmethod]), if_pos (Bool.eq_true_of_not_eq_false hheader)] at hread hbenign
    rw [hread] at hbenign
    cases hbenign
  simp only [ruleMatches, combine, hop, if_true, List.all_map, List.all_eq_true, id_eq,
    Function.comp_apply, List.all_eq_false]
  refine ⟨fun d hd => verdict_of_gateReads cs (hplain d hd) (hall d hd), c, hc, ?_⟩
  rw [not_verdict_of_gateReads cs (hplain c hc) hmethod hheader hbenign]
  exact Bool.false_ne_true

/-- **Semantic gates.**  On a valid candidate labelled exact or equivalent the gates are
sound where what they find covered is covered by values that are read alike, and where the
conditions of the rule say what the body gate assumes. -/
theorem gates_sound {repr : JsonValue → Str} {rule : Members} {label : TranslationLabel}
    {r : GateRequirements} {feature : JsonBodyFieldFeature}
    (hvalid : syntaxErrors t repr (.object rule) = some [])
    (hlabel : label = .exact ∨ label = .equivalent)
    (hpayloads : ∀ demand ∈ demanded t r, Covered t (conditionsOf rule) demand →
      ReadAlike t (conditionsOf rule) demand)
    (hbody : BodyReadPlainly cs rule feature) :
    PayloadGateSound cs repr rule label r ∧ BodyGateSound cs rule feature := by
  refine ⟨fun hnil demand hdemand => ?_, bodyGateSound cs hbody⟩
  have hcovered := ((akamaiSemanticErrors_nil hvalid hlabel).mp hnil).2 demand hdemand
  exact satisfied_of_readAlike cs (hpayloads demand hdemand hcovered)

/-- A condition on the JSON field `user`. -/
def userCondition (positive : Bool) : Members :=
  [("type".toList, .text "argsPostJSONMatch".toList), ("positiveMatch".toList, .bool positive),
    ("parameter".toList, .text "user".toList), ("valueCase".toList, .bool true),
    ("value".toList, .array [.text "evil".toList])]

/-- A rule over it. -/
def userRule (positive : Bool) : Members :=
  [("operation".toList, .text "AND".toList),
    ("conditions".toList, .array [.object (userCondition positive)])]

/-- A bypass through the request body. -/
def bypassEvil : GateRequirements :=
  { requirements := ⟨none, some "evil".toList, [], none, []⟩
    locationText := "\x7b\x7d".toList }

/-- The proven field. -/
def evilUser : JsonBodyFieldFeature :=
  { method := "POST".toList, contentType := "application/json".toList,
    fieldPath := ["user".toList], value := "evil".toList, valueMatch := .exact,
    fieldPath_ne := List.cons_ne_nil _ _ }

theorem userRule_conditions (positive : Bool) :
    conditionsOf (userRule positive) = [userCondition positive] := by
  cases positive <;> rfl

/-- Both gates pass a rule that matches everything but the proven value. -/
theorem gates_unsound_when_negated :
    (¬ ∀ (t : CharTables) (cs : Casing t) (repr : JsonValue → Str) (rule : Members)
        (label : TranslationLabel) (r : GateRequirements),
      syntaxErrors t repr (.object rule) = some [] → label = .exact ∨ label = .equivalent →
      PayloadGateSound cs repr rule label r) ∧
    ¬ ∀ (t : CharTables) (cs : Casing t) (repr : JsonValue → Str) (rule : Members)
        (feature : JsonBodyFieldFeature),
      syntaxErrors t repr (.object rule) = some [] → BodyGateSound cs rule feature := by
  constructor
  · intro h
    obtain ⟨c, hc, -, haccepts⟩ := h asciiTables asciiCasing (fun _ => []) (userRule false)
      .equivalent bypassEvil (by decide +kernel) (Or.inr rfl) (by decide +kernel)
      ((requiredAkamaiConditionTypes asciiTables bypassEvil).1, "evil".toList) (by decide +kernel)
    rw [userRule_conditions] at hc
    obtain rfl := List.mem_singleton.mp hc
    exact absurd haccepts (by decide +kernel)
  · intro h
    obtain ⟨hmatches, -⟩ := h asciiTables asciiCasing (fun _ => []) (userRule false) evilUser
      (by decide +kernel) (by decide +kernel)
    exact absurd hmatches (by decide +kernel)

/-- The condition of the example is plainly read. -/
theorem userCondition_plain : PlainlyRead asciiCasing evilUser (userCondition true) where
  positive := by decide +kernel
  header h := absurd h (by decide +kernel)
  pattern _ h := absurd h (by decide +kernel)
  literal _ _ := Or.inl (by decide +kernel)

/-- Both gates pass the rule of the example, and it does what they stand for. -/
theorem gates_sound_user :
    akamaiSemanticErrors asciiTables (fun _ => []) (.object (userRule true)) .equivalent
        bypassEvil = some [] ∧
      akamaiJsonBodySemanticErrors asciiCasing (userRule true) evilUser = [] ∧
      PayloadGateSound asciiCasing (fun _ => []) (userRule true) .equivalent bypassEvil ∧
      BodyGateSound asciiCasing (userRule true) evilUser := by
  refine ⟨by decide +kernel, by decide +kernel,
    gates_sound asciiCasing (by decide +kernel) (Or.inr rfl) ?_ fun _ _ c hc => ?_⟩
  · intro demand hdemand _
    obtain rfl := List.mem_singleton.mp (show demand ∈
      [((requiredAkamaiConditionTypes asciiTables bypassEvil).1, "evil".toList)] from hdemand)
    refine ⟨userCondition true, ?_, by decide +kernel, by decide +kernel, "evil".toList, ?_,
      by decide +kernel, Or.inr (by decide +kernel), fun _ => by decide +kernel⟩
    · rw [userRule_conditions]
      exact List.mem_singleton_self _
    · exact List.mem_singleton_self _
  · rw [userRule_conditions] at hc
    obtain rfl := List.mem_singleton.mp hc
    exact userCondition_plain

end SemanticGates
