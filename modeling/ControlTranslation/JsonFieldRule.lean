import ControlTranslation.JsonFieldInference

/-!
# The rule for a proven JSON field

The engine turns a derived feature into a rule of three conditions, and then
judges that rule like any other candidate: by the adapter's shape check and by
the gate that runs it on a document with the proven field and on a benign one.
The benign document holds a fixed sample, so the gate turns down the engine's
own rule when the proven value is that sample, or a token of it.
-/

namespace JsonFieldInference

open PyText JsonValue ModSecurity Glob FnMatch SemanticGates AkamaiAdapter

/-- The condition on the method of the proven request. -/
def methodCondition (feature : JsonBodyFieldFeature) : Members :=
  [("type".toList, .text "requestMethodMatch".toList), ("positiveMatch".toList, .bool true),
    ("value".toList, .array [.text feature.method])]

/-- The condition on its content type. -/
def contentTypeCondition (feature : JsonBodyFieldFeature) : Members :=
  [("type".toList, .text "requestHeaderValueMatch".toList),
    ("positiveMatch".toList, .bool true), ("header".toList, .text "Content-Type".toList),
    ("valueCase".toList, .bool false), ("valueWildcard".toList, .bool true),
    ("value".toList, .array [.text ('*' :: feature.contentType ++ ['*'])])]

/-- The value the field is compared with. -/
def configuredValue (feature : JsonBodyFieldFeature) : Str :=
  match feature.valueMatch with
  | .fieldPresent => ['*']
  | .containsToken => '*' :: feature.value ++ ['*']
  | .exact => feature.value

/-- The condition on the proven field. -/
def fieldCondition (feature : JsonBodyFieldFeature) : Members :=
  [("type".toList, .text "argsPostJSONMatch".toList), ("positiveMatch".toList, .bool true),
    ("parameter".toList, .text (join ['.'] feature.fieldPath)),
    ("valueCase".toList, .bool true),
    ("valueWildcard".toList, .bool (feature.valueMatch != .exact)),
    ("value".toList, .array [.text (configuredValue feature)])]

/-- `candidate_content` of `_akamai_json_body_field_proposal`. -/
def jsonBodyFieldRule (vulnerabilityId : Str) (feature : JsonBodyFieldFeature) : Members :=
  [("name".toList, .text ("JANUS-".toList ++ vulnerabilityId ++ "-JSON-Body-Field".toList)),
    ("description".toList, .text ("Matches the proven JSON request field ".toList ++
      join ['.'] feature.fieldPath ++ ['.'])),
    ("operation".toList, .text "AND".toList),
    ("conditions".toList, .array [.object (methodCondition feature),
      .object (contentTypeCondition feature), .object (fieldCondition feature)]),
    ("tag".toList, .array (["JANUS", "json-body-field", "virtual-patch"].map fun tag =>
      .text tag.toList))]

/-- What the rule relies on: the fixed method and content type, a path of field
keys, a value, and tokens without wildcard or class characters. -/
structure Derived (feature : JsonBodyFieldFeature) : Prop where
  method : feature.method = "POST".toList
  contentType : feature.contentType = "application/json".toList
  fieldPath : ∀ key ∈ feature.fieldPath, isFieldKey key = true
  value : feature.value ≠ []
  token : feature.valueMatch = .containsToken → ∀ c ∈ feature.value, isTokenChar c = true

theorem readToken_chars {s token : Str} (h : readToken s = some token) :
    ∀ c ∈ token, isTokenChar c = true := by
  have hfield : ∀ {c : Char}, isFieldChar c = true → isTokenChar c = true := by
    intro c hc
    rw [isTokenChar, hc, Bool.true_or]
  cases s with
  | nil => cases h
  | cons first rest =>
      simp only [readToken] at h
      split at h
      · split at h
        · cases h
          intro c hc
          simp only [List.mem_cons] at hc
          rcases hc with rfl | rfl | hc
          · decide
          · decide
          · exact hfield (List.mem_takeWhile_imp (List.mem_of_mem_take hc))
        · cases h
      · split at h
        · rename_i hrun
          cases h
          intro c hc
          rcases List.mem_cons.mp hc with rfl | hc
          · apply hfield
            simp [isFieldChar, hrun.1]
          · exact List.mem_takeWhile_imp (List.mem_of_mem_take hc)
        · cases h

theorem findTokens_chars {s : Str} : ∀ {skip : Nat}, ∀ token ∈ findTokens skip s,
    ∀ c ∈ token, isTokenChar c = true := by
  induction s with
  | nil =>
      intro skip token htoken
      rw [findTokens] at htoken
      cases htoken
  | cons first rest ih =>
      intro skip token htoken
      cases skip with
      | succ skip => exact ih token htoken
      | zero =>
          rw [findTokens] at htoken
          split at htoken
          · rename_i read hread
            rcases List.mem_cons.mp htoken with rfl | htoken
            · exact readToken_chars hread
            · exact ih token htoken
          · exact ih token htoken

/-- Stripping only takes characters away. -/
theorem mem_of_mem_contractStrip {s : Str} {c : Char} (h : c ∈ contractStrip s) : c ∈ s :=
  (List.dropWhile_sublist _).subset ((List.rdropWhile_prefix _ _).subset h)

theorem buildFeature_derived {path : List Str} {value : Str} {valueMatch : ValueMatch}
    {feature : JsonBodyFieldFeature} (h : buildFeature path value valueMatch = some feature)
    (htoken : valueMatch = .containsToken → ∀ c ∈ value, isTokenChar c = true) :
    Derived feature := by
  cases path with
  | nil => cases h
  | cons segment rest =>
      simp only [buildFeature] at h
      split at h
      · rename_i hvalid
        cases h
        refine ⟨rfl, rfl, List.all_eq_true.mp hvalid.2.1, hvalid.2.2.1, ?_⟩
        intro hmatch c hc
        exact htoken hmatch c (mem_of_mem_contractStrip hc)
      · cases h

variable {t : CharTables} (cs : Casing t)

/-- A corroborated token is made of token characters. -/
theorem corroborate_token {evidence : List Str} {artifact : Str} {leaf : List Str × Str}
    {path : List Str} {value : Str}
    (h : corroborate cs evidence artifact leaf = some (path, value, .containsToken)) :
    ∀ c ∈ value, isTokenChar c = true := by
  simp only [corroborate] at h
  split at h
  · split at h
    · cases h
    · split at h
      · rename_i folded _
        obtain ⟨token, htoken, hsame⟩ := Option.map_eq_some_iff.mp h
        cases hsame
        have hmem := List.mem_of_getLast? htoken
        exact findTokens_chars value (List.mem_of_mem_filter hmem)
      · split at h
        · cases h
        · cases h
  · cases h

/-- Every feature the service derives is one the rule can rely on. -/
theorem derived {loads : Str → Option JsonValue} {context : RequestContext}
    {discriminator artifact : Str} {feature : JsonBodyFieldFeature}
    (h : jsonBodyFieldFeature cs loads context discriminator artifact = some feature) :
    Derived feature := by
  simp only [jsonBodyFieldFeature] at h
  split at h
  · cases h
  · split at h
    · split at h
      · cases h
      · split at h
        · rename_i path value valueMatch honly
          apply buildFeature_derived h
          rintro rfl
          have hmem := List.mem_singleton_self (path, value, ValueMatch.containsToken)
          rw [← honly] at hmem
          obtain ⟨leaf, -, hleaf⟩ := List.mem_filterMap.mp hmem
          exact corroborate_token cs hleaf
        · cases h
    · cases h

/-- A condition of a known type with a polarity and one value passes, when its
header or parameter does. -/
theorem conditionErrors_of_parts {repr : JsonValue → Str} {index : Nat} {before : Str}
    {condition : Members} {value : Str}
    (htype : inTexts validConditionTypes (field condition "type") = some true)
    (hpolarity : field condition "positiveMatch" = .bool true)
    (hvalue : field condition "value" = .array [.text value]) (hne : value ≠ [])
    (hparameter : ∀ place, parameterErrors place condition = some [])
    (hheader : ∀ place, headerErrors t repr place condition = []) :
    conditionErrors t repr index (.object condition) before = some [] := by
  have hvalid : validValue (.array [.text value]) = true := by
    simp [validValue, asNonemptyText, asText, hne]
  simp only [conditionErrors, memberErrors, typeErrors, htype, hparameter, hpolarity, hvalue,
    hheader, valueErrors, hvalid, polarityErrors, Option.map_some, if_true, List.append_nil]

/-- White space is no part of a name. -/
theorem isSpace_of_isFieldChar {c : Char} (h : isFieldChar c = true) : isSpace c = false := by
  simp only [isFieldChar, Bool.or_eq_true, beq_iff_eq, isAlphanum_iff] at h
  rcases h with (h | rfl) | rfl
  · simp only [isSpace, Bool.or_eq_false_iff, Bool.and_eq_false_iff, decide_eq_false_iff_not,
      beq_eq_false_iff_ne]
    omega
  · decide
  · decide

/-- A path of field keys joins to a text that is not blank. -/
theorem strip_join_ne {path : List Str} (hne : path ≠ [])
    (hkeys : ∀ key ∈ path, isFieldKey key = true) : strip (join ['.'] path) ≠ [] := by
  obtain ⟨key, rest, rfl⟩ := List.exists_cons_of_ne_nil hne
  have hkey := hkeys key List.mem_cons_self
  simp only [isFieldKey, Bool.and_eq_true, decide_eq_true_eq, List.all_eq_true] at hkey
  obtain ⟨c, tail, rfl⟩ := List.exists_cons_of_length_pos hkey.1.1
  have hjoin : c ∈ join ['.'] ((c :: tail) :: rest) := by
    cases rest with
    | nil => simp [join]
    | cons second rest => simp [join, List.intercalate_cons_cons]
  exact strip_ne_nil hjoin (isSpace_of_isFieldChar (hkey.2 c List.mem_cons_self))

theorem configuredValue_ne {feature : JsonBodyFieldFeature} (h : feature.value ≠ []) :
    configuredValue feature ≠ [] := by
  unfold configuredValue
  split
  · exact List.cons_ne_nil _ _
  · exact List.cons_ne_nil _ _
  · exact h

/-- A single rule without embedded actions passes when its conditions do. -/
theorem syntaxErrors_of_conditions {repr : JsonValue → Str} {rule : Members}
    {first : JsonValue} {rest : List JsonValue}
    (hsingle : hasField rule "rules" = false)
    (hbare : forbiddenActionKeys.filter (fun key => hasKey rule key) = [])
    (hoperation : isText (field rule "operation") "AND" = true)
    (hconditions : field rule "conditions" = .array (first :: rest))
    (hvalid : ∀ index, ∀ condition ∈ first :: rest,
      conditionErrors t repr index condition [] = some []) :
    syntaxErrors t repr (.object rule) = some [] := by
  have hall : ∀ (conditions : List JsonValue) (index : Nat),
      (∀ index, ∀ condition ∈ conditions,
        conditionErrors t repr index condition [] = some []) →
      errorsFrom (fun index condition => conditionErrors t repr index condition []) index
        conditions = some [] := by
    intro conditions
    induction conditions with
    | nil => exact fun _ _ => rfl
    | cons condition conditions ih =>
        intro index hpass
        rw [errorsFrom, hpass index condition List.mem_cons_self,
          ih (index + 1) fun i c hc => hpass i c (List.mem_cons_of_mem _ hc)]
        rfl
  have hrules : rulesOf rule = ([rule], []) := by rw [rulesOf, if_pos hsingle]
  have hrule : ruleErrors t repr [] rule = some [] := by
    simp only [ruleErrors, hconditions, conditionsErrors, hall (first :: rest) 0 hvalid,
      actionErrors, hbare, operationErrors, hoperation, Bool.true_or, if_true, Option.map_some,
      List.append_nil]
  have hnumbered : (decide (1 < [rule].length) || hasField rule "rules") = false := by
    rw [hsingle]
    rfl
  simp only [syntaxErrors, hrules, hnumbered, errorsFrom, Bool.false_eq_true, if_false, hrule,
    Option.map_some, List.append_nil]

/-- A text is ASCII when a run over it says so. -/
theorem ascii_of_all {s : Str} (h : (s.all fun c => c.toNat < 128) = true) :
    ∀ c ∈ s, c.toNat < 128 := by
  intro c hc
  exact of_decide_eq_true (List.all_eq_true.mp h c hc)

/-- The header of the second condition is a real one. -/
theorem contentType_header {repr : JsonValue → Str} (place : Str)
    (feature : JsonBodyFieldFeature) :
    headerErrors t repr place (contentTypeCondition feature) = [] := by
  have hlower : t.lower "Content-Type".toList = "content-type".toList :=
    t.lower_ascii _ (ascii_of_all (by decide))
  have hname : ((field (contentTypeCondition feature) "header").asText.map strip).filter
      (· ≠ []) = some "Content-Type".toList := by
    have hheader : field (contentTypeCondition feature) "header" =
        .text "Content-Type".toList := rfl
    rw [hheader]
    decide
  have hreal : syntheticRequestHeaders.contains "content-type".toList = false := by decide
  have htype : isText (field (contentTypeCondition feature) "type")
      "requestHeaderValueMatch" = true := rfl
  simp only [headerErrors, htype, if_true, hname, hlower, hreal, Bool.false_eq_true, if_false]

/-- The parameter of the third condition names a field. -/
theorem fieldCondition_parameter (place : Str) {feature : JsonBodyFieldFeature}
    (h : Derived feature) : parameterErrors place (fieldCondition feature) = some [] := by
  have hparameter : field (fieldCondition feature) "parameter" =
      .text (join ['.'] feature.fieldPath) := rfl
  have hname : (((field (fieldCondition feature) "parameter").asText.map strip).any
      (· ≠ [])) = true := by
    rw [hparameter]
    simpa [asText] using strip_join_ne feature.fieldPath_ne h.fieldPath
  have hjson : isText (field (fieldCondition feature) "type") "argsPostJSONMatch" = true := rfl
  rw [parameterErrors, hname, if_pos hjson]
  rfl

/-- The engine's own rule has the shape the adapter asks for. -/
theorem jsonBodyFieldRule_valid {repr : JsonValue → Str} {feature : JsonBodyFieldFeature}
    (h : Derived feature) (vulnerabilityId : Str) :
    syntaxErrors t repr (.object (jsonBodyFieldRule vulnerabilityId feature)) = some [] := by
  refine @syntaxErrors_of_conditions t repr _ (.object (methodCondition feature))
    [.object (contentTypeCondition feature), .object (fieldCondition feature)]
    rfl rfl rfl rfl ?_
  intro index condition hcondition
  simp only [List.mem_cons, List.not_mem_nil, or_false] at hcondition
  rcases hcondition with rfl | rfl | rfl
  · exact conditionErrors_of_parts rfl rfl rfl (by rw [h.method]; decide) (fun _ => rfl)
      fun _ => rfl
  · refine conditionErrors_of_parts rfl rfl rfl (List.cons_ne_nil _ _) (fun _ => rfl) ?_
    exact fun place => contentType_header place feature
  · refine conditionErrors_of_parts rfl rfl rfl (configuredValue_ne h.value) ?_ fun _ => rfl
    exact fun place => fieldCondition_parameter place h

/-- The sample the benign document holds. -/
def benignSample : Str := "janus-benign-node-options".toList

/-- A token between runs is found as a piece of the subject. -/
theorem fnmatchcase_between {token : Str} (htoken : ∀ c ∈ token, isTokenChar c = true)
    (subject : Str) :
    fnmatchcase subject ('*' :: token ++ ['*']) = isSubstring token subject := by
  have hfree : ∀ d : Char, isTokenChar d = false → ∀ c ∈ token, c ≠ d := by
    intro d hd c hc hsame
    rw [← hsame, htoken c hc] at hd
    cases hd
  have hbracket : '[' ∉ '*' :: token ++ ['*'] := by
    have := hfree '[' (by decide)
    simp only [List.cons_append, List.mem_cons, List.mem_append, List.not_mem_nil, or_false,
      not_or]
    exact ⟨by decide, fun hmem => this '[' hmem rfl, by decide⟩
  have hplain : ∀ c ∈ token, isWildcardChar c = false := by
    intro c hc
    have hstar := hfree '*' (by decide) c hc
    have hquestion := hfree '?' (by decide) c hc
    simp [isWildcardChar, hstar, hquestion]
  have hframe : '*' :: token ++ ['*'] = frame false false token := rfl
  rw [fnmatchcase_eq hbracket, hframe, Bool.eq_iff_iff, matchesValue_frame hplain,
    isSubstring_iff, mem_framed]
  constructor
  · rintro ⟨u, m, v, rfl, -, -, hm⟩
    exact ⟨u, v, by rw [mem_wordLang_exact.mp hm]⟩
  · rintro ⟨u, v, rfl⟩
    exact ⟨u, token, v, rfl, by simp, by simp, mem_wordLang_exact.mpr rfl⟩

/-- What is stored under a path is found under it. -/
theorem valueAt_nested (path : List Str) (value : JsonValue) :
    valueAt path (nestedJsonValue path value) = some value := by
  induction path with
  | nil => rfl
  | cons segment path ih =>
      have hkey : hasKey [(segment, nestedJsonValue path value)] segment = true := by
        simp [hasKey]
      have hget : JsonValue.get [(segment, nestedJsonValue path value)] segment =
          nestedJsonValue path value := by simp [JsonValue.get]
      rw [nestedJsonValue, valueAt, if_pos hkey, hget]
      exact ih

/-- The malicious document has the malicious value at the field. -/
theorem fieldText_malicious (feature : JsonBodyFieldFeature) :
    fieldText feature (maliciousDocument feature) = some (maliciousValue feature) := by
  rw [fieldText, maliciousDocument, valueAt_nested]
  rfl

/-- The benign one has a sample value there, or nothing. -/
theorem fieldText_benign (feature : JsonBodyFieldFeature) :
    fieldText feature (benignDocument feature) =
      if feature.valueMatch = .fieldPresent then none else some benignSample := by
  unfold fieldText benignDocument
  split
  · obtain ⟨segment, rest, hpath⟩ := List.exists_cons_of_ne_nil feature.fieldPath_ne
    rw [hpath]
    rfl
  · rw [valueAt_nested]
    rfl

theorem casefold_of_ascii {s : Str} (h : ∀ c ∈ s, c.toNat < 128) :
    cs.casefold s = s.map Char.toLower := by
  induction s with
  | nil => rfl
  | cons c s ih =>
      have hrest := ih fun d hd => h d (List.mem_cons_of_mem _ hd)
      rw [Casing.casefold] at hrest ⊢
      rw [List.flatMap_cons, hrest, cs.folded_ascii c (h c List.mem_cons_self)]
      rfl

/-- The gate accepts the method of the proven request. -/
theorem gateReads_method (feature : JsonBodyFieldFeature) (document : JsonValue) :
    gateReads cs feature document (methodCondition feature) = true := by
  have hmethod : isMethodCondition (methodCondition feature) = true := rfl
  have hvalues : conditionValues (methodCondition feature) = [feature.method] := rfl
  rw [gateReads, if_pos hmethod, hvalues]
  simp

/-- The gate accepts its content type. -/
theorem gateReads_contentType {feature : JsonBodyFieldFeature}
    (h : feature.contentType = "application/json".toList) (document : JsonValue) :
    gateReads cs feature document (contentTypeCondition feature) = true := by
  have hmethod : isMethodCondition (contentTypeCondition feature) = false := rfl
  have hheader : isContentTypeCondition t (contentTypeCondition feature) = true := by
    have hlower : t.lower "Content-Type".toList = "content-type".toList :=
      t.lower_ascii _ (ascii_of_all (by decide))
    have hfield : (field (contentTypeCondition feature) "header").asText =
        some "Content-Type".toList := rfl
    have htype : isText (field (contentTypeCondition feature) "type")
        "requestHeaderValueMatch" = true := rfl
    rw [isContentTypeCondition, htype, hfield, Option.map_some, hlower]
    rfl
  have hvalues : conditionValues (contentTypeCondition feature) =
      ['*' :: "application/json".toList ++ ['*']] := by
    rw [← h]
    rfl
  have hcase : flag (contentTypeCondition feature) "valueCase" = false := rfl
  have hpattern : cs.casefold ('*' :: "application/json".toList ++ ['*']) =
      '*' :: "application/json".toList ++ ['*'] := by
    rw [casefold_of_ascii cs (ascii_of_all (by decide))]
    decide
  have hsubject : cs.casefold "application/json".toList = "application/json".toList := by
    rw [casefold_of_ascii cs (ascii_of_all (by decide))]
    decide
  rw [gateReads, hmethod, if_neg (by decide), if_pos hheader, hvalues, hcase, h]
  simp only [List.any_cons, List.any_nil, Bool.or_false, wildcardMatch, Bool.false_eq_true,
    if_false, hpattern, hsubject]
  decide +kernel

/-- How the gate reads the condition on the proven field. -/
theorem gateReads_field (feature : JsonBodyFieldFeature) (document : JsonValue) :
    gateReads cs feature document (fieldCondition feature) =
      match fieldText feature document with
      | some actual =>
          if feature.valueMatch = .exact then configuredValue feature == actual
          else fnmatchcase actual (configuredValue feature)
      | none => false := by
  have hmethod : isMethodCondition (fieldCondition feature) = false := rfl
  have hheader : isContentTypeCondition t (fieldCondition feature) = false := rfl
  have hfield : isFieldCondition feature (fieldCondition feature) = true := by
    have hparameter : field (fieldCondition feature) "parameter" =
        .text (join ['.'] feature.fieldPath) := rfl
    have htype : isText (field (fieldCondition feature) "type") "argsPostJSONMatch" = true := rfl
    rw [isFieldCondition, htype, hparameter]
    simp [isText, asText]
  have hvalues : conditionValues (fieldCondition feature) = [configuredValue feature] := rfl
  have hwildcard : flag (fieldCondition feature) "valueWildcard" =
      (feature.valueMatch != .exact) := rfl
  have hcase : flag (fieldCondition feature) "valueCase" = true := rfl
  rw [gateReads, hmethod, hheader, hfield, hvalues]
  simp only [Bool.false_eq_true, if_false, if_true]
  cases fieldText feature document with
  | none => rfl
  | some actual =>
      simp only [List.any_cons, List.any_nil, Bool.or_false, fieldValueReads, hwildcard, hcase,
        wildcardMatch, if_true]
      cases feature.valueMatch <;> rfl

/-- The gate accepts the proven document, whatever the feature. -/
theorem gateReads_malicious {feature : JsonBodyFieldFeature} (h : Derived feature) :
    gateReads cs feature (maliciousDocument feature) (fieldCondition feature) = true := by
  rw [gateReads_field, fieldText_malicious]
  simp only [configuredValue, maliciousValue]
  cases hmatch : feature.valueMatch with
  | exact => simp
  | fieldPresent =>
      have hrun : fnmatchcase "janus-nonempty-proven-field".toList ['*'] = true := by
        decide +kernel
      simp only [reduceCtorEq, if_false]
      exact hrun
  | containsToken =>
      simp only [reduceCtorEq, if_false]
      rw [fnmatchcase_between (h.token hmatch)]
      exact isSubstring_iff.mpr ⟨"janus-prefix ".toList, " janus-suffix".toList, rfl⟩

/-- The benign sample tells the feature apart from a benign request: the proven
value is not the sample, and the proven token is no piece of it. -/
def TellsApart (feature : JsonBodyFieldFeature) : Prop :=
  match feature.valueMatch with
  | .exact => feature.value ≠ benignSample
  | .containsToken => isSubstring feature.value benignSample = false
  | .fieldPresent => True

/-- The gate passes over the benign document exactly when the feature tells the two apart. -/
theorem gateReads_benign_iff {feature : JsonBodyFieldFeature} (h : Derived feature) :
    gateReads cs feature (benignDocument feature) (fieldCondition feature) = false ↔
      TellsApart feature := by
  rw [gateReads_field, fieldText_benign]
  simp only [configuredValue, TellsApart]
  cases hmatch : feature.valueMatch with
  | exact => simp
  | fieldPresent => simp
  | containsToken =>
      simp only [reduceCtorEq, if_false]
      rw [fnmatchcase_between (h.token hmatch)]

/-- The rule for a feature the service can derive is accepted exactly when the
sample tells the feature apart. -/
theorem accepted_iff_of_derived {vulnerabilityId : Str} {repr : JsonValue → Str}
    {feature : JsonBodyFieldFeature} (h : Derived feature) :
    (syntaxErrors t repr (.object (jsonBodyFieldRule vulnerabilityId feature)) = some [] ∧
        akamaiJsonBodySemanticErrors cs (jsonBodyFieldRule vulnerabilityId feature) feature =
          []) ↔
      TellsApart feature := by
  have hconditions : conditionsOf (jsonBodyFieldRule vulnerabilityId feature) =
      [methodCondition feature, contentTypeCondition feature, fieldCondition feature] := rfl
  rw [akamaiJsonBodySemanticErrors_nil, ← gateReads_benign_iff cs h]
  constructor
  · rintro ⟨-, -, -, -, condition, hcondition, hread⟩
    rw [hconditions] at hcondition
    simp only [List.mem_cons, List.not_mem_nil, or_false] at hcondition
    rcases hcondition with rfl | rfl | rfl
    · rw [gateReads_method] at hread
      cases hread
    · rw [gateReads_contentType cs h.contentType] at hread
      cases hread
    · exact hread
  · intro hbenign
    refine ⟨jsonBodyFieldRule_valid h vulnerabilityId, rfl, ?_, ?_, ?_⟩
    · rw [hconditions]
      exact List.cons_ne_nil _ _
    · rw [hconditions]
      intro condition hcondition
      simp only [List.mem_cons, List.not_mem_nil, or_false] at hcondition
      rcases hcondition with rfl | rfl | rfl
      · exact gateReads_method cs feature _
      · exact gateReads_contentType cs h.contentType _
      · exact gateReads_malicious cs h
    · refine ⟨fieldCondition feature, ?_, hbenign⟩
      rw [hconditions]
      simp

/-- **The engine's own rule.**  The rule for a derived feature always has the
shape the adapter asks for; the gate accepts it exactly when the fixed benign
sample tells the feature apart. -/
theorem own_rule_accepted_iff {loads : Str → Option JsonValue} {context : RequestContext}
    {discriminator artifact vulnerabilityId : Str} {repr : JsonValue → Str}
    {feature : JsonBodyFieldFeature}
    (h : jsonBodyFieldFeature cs loads context discriminator artifact = some feature) :
    (syntaxErrors t repr (.object (jsonBodyFieldRule vulnerabilityId feature)) = some [] ∧
        akamaiJsonBodySemanticErrors cs (jsonBodyFieldRule vulnerabilityId feature) feature =
          []) ↔
      TellsApart feature :=
  accepted_iff_of_derived cs (derived cs h)

/-- A body with one command. -/
def commandBody (command : Str) : Str :=
  "\x7b\"cmd\":\"".toList ++ command ++ "\"\x7d".toList

/-- Decoding of that body, and of no other. -/
def loadsCommand (command body : Str) : Option JsonValue :=
  if body = commandBody command then some (.object [("cmd".toList, .text command)]) else none

/-- The request that posts it. -/
def commandRequest (command : Str) : RequestContext :=
  { method := "POST".toList
    headers := [("Content-Type".toList, "application/json".toList)]
    body := commandBody command }

/-- What is derived when both pieces of evidence name the field and a word. -/
def commandFeature (command word : Str) : Option JsonBodyFieldFeature :=
  jsonBodyFieldFeature asciiCasing (loadsCommand command) (commandRequest command)
    ("cmd starts ".toList ++ word)
    ("SecRule ARGS:cmd \"@contains ".toList ++ word ++ "\" \"id:1,deny\"".toList)

/-- A derived feature, read off by running the inference. -/
theorem exists_feature {command word : Str}
    (h : ((commandFeature command word).map fun f => (f.valueMatch, f.value)) =
      some (.containsToken, word)) :
    ∃ feature, commandFeature command word = some feature ∧
      feature.valueMatch = .containsToken ∧ feature.value = word := by
  obtain ⟨feature, hfeature, hsame⟩ := Option.map_eq_some_iff.mp h
  obtain ⟨hmatch, hvalue⟩ := Prod.mk.inj hsame
  exact ⟨feature, hfeature, hmatch, hvalue⟩

/-- The word `node` is proven, and the benign sample has it too. -/
theorem own_rule_rejected_node :
    ¬ ∀ (t : CharTables) (cs : Casing t) (loads : Str → Option JsonValue)
        (context : RequestContext) (discriminator artifact vulnerabilityId : Str)
        (repr : JsonValue → Str) (feature : JsonBodyFieldFeature),
      jsonBodyFieldFeature cs loads context discriminator artifact = some feature →
      syntaxErrors t repr (.object (jsonBodyFieldRule vulnerabilityId feature)) = some [] ∧
        akamaiJsonBodySemanticErrors cs (jsonBodyFieldRule vulnerabilityId feature) feature =
          [] := by
  intro hall
  obtain ⟨feature, hfeature, hmatch, hvalue⟩ :
      ∃ feature, commandFeature "run node".toList "node".toList = some feature ∧
        feature.valueMatch = .containsToken ∧ feature.value = "node".toList :=
    exists_feature (by decide +kernel)
  have haccepted := hall asciiTables asciiCasing _ _ _ _ "CVE-1".toList (fun _ => []) feature
    hfeature
  have hderived : Derived feature := derived asciiCasing hfeature
  have hapart := (accepted_iff_of_derived asciiCasing hderived).mp haccepted
  rw [TellsApart, hmatch, hvalue] at hapart
  exact absurd hapart (by decide +kernel)

/-- The word `perl` is no piece of the sample. -/
theorem own_rule_accepted_perl :
    ∃ feature, commandFeature "run perl".toList "perl".toList = some feature ∧
      syntaxErrors asciiTables (fun _ => [])
          (.object (jsonBodyFieldRule "CVE-1".toList feature)) = some [] ∧
      akamaiJsonBodySemanticErrors asciiCasing (jsonBodyFieldRule "CVE-1".toList feature)
          feature = [] := by
  obtain ⟨feature, hfeature, hmatch, hvalue⟩ :
      ∃ feature, commandFeature "run perl".toList "perl".toList = some feature ∧
        feature.valueMatch = .containsToken ∧ feature.value = "perl".toList :=
    exists_feature (by decide +kernel)
  refine ⟨feature, hfeature, (own_rule_accepted_iff asciiCasing hfeature).mpr ?_⟩
  rw [TellsApart, hmatch, hvalue]
  decide +kernel

end JsonFieldInference
