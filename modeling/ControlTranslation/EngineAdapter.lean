import ControlTranslation.TranslationEngine

/-!
# The Akamai adapter in the engine

The engine hands texts to the adapter, which decodes them each time.  Its checks
report what is wrong and raise only when a set is asked about a list or a dictionary.
What it accepts suits the gates of the engine with one exception: the payload gate
wants the conditions of one rule, and a wrapper of rules has none.
-/

namespace TranslationEngine

open PyText JsonValue ModSecurity FnMatch SemanticGates AkamaiAdapter

/-- Words of a feature the adapter says it can express. -/
def supportedFeatures : List Str :=
  ["header", "content-type", "query-string", "uri", "path", "request", "body", "argument",
    "parameter", "cookie", "method", "ip", "regex", "sql injection"].map String.toList

/-- `supports_feature`. -/
def supportsFeature (t : CharTables) (pattern : ProvenPattern) : Bool :=
  pattern.jsonBodyFieldFeature.isSome ||
    (supportedFeatures ++ ["expression".toList, "syntax".toList]).any
      (isSubstring · (t.lower pattern.discriminatorDescription))

/-- `validate_syntax`. -/
def validateSyntax (sv : Services) (content : Str) : Option (Bool × List Str) :=
  match sv.loads content with
  | .invalid detail => some (false, ["Candidate is not valid JSON: ".toList ++ detail])
  | .raised => none
  | .document value =>
      (syntaxErrors sv.t sv.repr value).map fun errors => (errors.isEmpty, errors)

/-- The identity of a rule under a key, and how identities are compared. -/
def identity (t : CharTables) (text : Str) : Option Str :=
  if strip text = [] then none else some (t.lower (strip text))

/-- The identities of the rules of a candidate. -/
def identitiesOf (t : CharTables) (rules : List Members) : List Str :=
  rules.flatMap fun rule =>
    [field rule "name", field rule "sourceRuleId"].filterMap fun value =>
      value.asText.bind (identity t)

/-- `detect_conflicts`, against the rules of a snapshot. -/
def detectConflicts (sv : Services) (snapshot : Option (List Str)) (content : Str) :
    Option (List Str) :=
  match snapshot with
  | none => some []
  | some existing =>
      match sv.loads content with
      | .invalid _ => some []
      | .raised => none
      | .document (.object document) =>
          if (rulesOf document).2 = [] then
            some (((unique ((identitiesOf sv.t (rulesOf document).1).filter
              (existing.filterMap (identity sv.t)).contains)).insertionSort
                fun a b => textLe a b = true).map
                  ("Existing rule identity already exists: ".toList ++ ·))
          else some []
      | .document _ => some []

/-- `AkamaiWafAdapter`, as a call sees it. -/
def akamaiAdapter (sv : Services) (pattern : ProvenPattern) (snapshot : Option (List Str)) :
    Adapter :=
  { artifactType := "akamai-waf-rule".toList
    supportsFeature := some (supportsFeature sv.t pattern)
    validateSyntax := validateSyntax sv
    detectConflicts := detectConflicts sv snapshot }

/-- A list or a dictionary. -/
def Structured (value : JsonValue) : Prop :=
  (∃ items, value = .array items) ∨ ∃ members, value = .object members

/-- A condition with a structured type, or on any field of a JSON body with a
structured selector. -/
def UnhashableCondition (condition : Members) : Prop :=
  Structured (field condition "type") ∨
    (isText (field condition "type") "argsPostJSONMatch" = true ∧
      isText (field condition "sourceLocationKind") "http-body-structured" = true ∧
      isText (field condition "sourceSelectorType") "any-field" = true ∧
      Structured (field condition "sourceSelector"))

/-- A rule with such a condition. -/
def UnhashableRule (rule : Members) : Prop :=
  ∃ items condition, field rule "conditions" = .array items ∧ .object condition ∈ items ∧
    UnhashableCondition condition

/-- A document with such a rule. -/
def Unhashable (value : JsonValue) : Prop :=
  ∃ document, value = .object document ∧ ∃ rule ∈ (rulesOf document).1, UnhashableRule rule

/-- Only a structured value cannot be looked for in a table of texts. -/
theorem inTexts_none {texts : List Str} {value : JsonValue} :
    inTexts texts value = none ↔ Structured value := by
  cases value <;> simp [inTexts, Structured]

/-- The checks of a condition raise exactly on unhashable ones. -/
theorem memberErrors_none {t : CharTables} {repr : JsonValue → Str} {place : Str}
    {condition : Members} :
    memberErrors t repr place condition = none ↔ UnhashableCondition condition := by
  have htype : typeErrors repr place (field condition "type") = none ↔
      Structured (field condition "type") := by
    rw [typeErrors, Option.map_eq_none_iff, inTexts_none]
  have hparameter : parameterErrors place condition = none ↔
      isText (field condition "type") "argsPostJSONMatch" = true ∧
      isText (field condition "sourceLocationKind") "http-body-structured" = true ∧
      isText (field condition "sourceSelectorType") "any-field" = true ∧
      Structured (field condition "sourceSelector") := by
    rw [parameterErrors, anyField]
    split_ifs with hjson hany
    · rw [Bool.and_eq_true] at hany
      rw [Option.map_eq_none_iff, inTexts_none]
      exact ⟨fun h => ⟨hjson, hany.1, hany.2, h⟩, fun h => h.2.2.2⟩
    · rw [Bool.and_eq_true] at hany
      exact iff_of_false (by rw [Option.map_some]; exact Option.some_ne_none _)
        fun h => hany ⟨h.2.1, h.2.2.1⟩
    · exact iff_of_false id fun h => hjson h.1
  rw [UnhashableCondition, ← htype, ← hparameter, memberErrors]
  cases typeErrors repr place (field condition "type") with
  | none => simp
  | some type =>
      cases parameterErrors place condition with
      | none => simp
      | some parameter => simp

/-- A walk raises exactly where one of its checks does. -/
theorem errorsFrom_none {α : Type} {check : Nat → α → Option (List Str)} {P : α → Prop}
    (h : ∀ i a, check i a = none ↔ P a) {all : List α} :
    ∀ {index : Nat}, errorsFrom check index all = none ↔ ∃ a ∈ all, P a := by
  induction all with
  | nil => simp [errorsFrom]
  | cons first rest ih =>
      intro index
      rw [List.exists_mem_cons_iff, ← @ih (index + 1), ← h index first, errorsFrom]
      cases check index first with
      | none => simp
      | some errors => cases errorsFrom check (index + 1) rest <;> simp

/-- The checks of a rule raise exactly on unhashable ones. -/
theorem ruleErrors_none {t : CharTables} {repr : JsonValue → Str} {before : Str}
    {rule : Members} : ruleErrors t repr before rule = none ↔ UnhashableRule rule := by
  have hcondition : ∀ (i : Nat) (value : JsonValue),
      conditionErrors t repr i value before = none ↔
        ∃ condition, value = .object condition ∧ UnhashableCondition condition := by
    intro i value
    cases value with
    | object condition =>
        simp only [conditionErrors, memberErrors_none, JsonValue.object.injEq,
          exists_eq_left']
    | _ => simp [conditionErrors]
  rw [ruleErrors, Option.map_eq_none_iff, UnhashableRule]
  cases hlist : field rule "conditions" with
  | array items =>
      have hwalk : conditionsErrors t repr before (.array items) = none ↔
          ∃ value ∈ items, ∃ condition, value = .object condition ∧
            UnhashableCondition condition := by
        cases items with
        | nil => simp [conditionsErrors]
        | cons first rest => exact errorsFrom_none hcondition
      rw [hwalk]
      constructor
      · rintro ⟨_, hmem, condition, rfl, hcond⟩
        exact ⟨items, condition, rfl, hmem, hcond⟩
      · rintro ⟨_, condition, heq, hmem, hcond⟩
        cases heq
        exact ⟨_, hmem, condition, rfl, hcond⟩
  | _ => simp [conditionsErrors]

/-- The shape check raises exactly on unhashable documents. -/
theorem syntaxErrors_none {t : CharTables} {repr : JsonValue → Str} {value : JsonValue} :
    syntaxErrors t repr value = none ↔ Unhashable value := by
  cases value with
  | object document =>
      rw [syntaxErrors, Option.map_eq_none_iff, Unhashable]
      have hwalk : errorsFrom (fun index rule => ruleErrors t repr
          (if (decide (1 < (rulesOf document).1.length) || hasField document "rules") = true then
            "rules[".toList ++ natText index ++ "].".toList else []) rule)
          0 (rulesOf document).1 = none ↔ ∃ rule ∈ (rulesOf document).1, UnhashableRule rule :=
        errorsFrom_none (P := UnhashableRule) fun _ _ => ruleErrors_none
      simp only [hwalk, JsonValue.object.injEq, exists_eq_left']
  | _ => simp [syntaxErrors, Unhashable]

/-- A candidate the adapter has nothing against. -/
def Valid (sv : Services) (content : Str) (rule : Members) : Prop :=
  sv.loads content = .document (.object rule) ∧ syntaxErrors sv.t sv.repr (.object rule) = some []

/-- A valid wrapper lacks every other field. -/
theorem wrapper_lacks {sv : Services} {content : Str} {rule : Members} {key : String}
    (hvalid : Valid sv content rule) (hwrapper : hasField rule "rules" = true)
    (hkey : "rules".toList ≠ key.toList) : hasField rule key = false := by
  apply List.any_eq_false.mpr
  intro m hm
  rw [wrapper_only hvalid.2 hwrapper m hm, beq_iff_eq]
  exact hkey

/-- A valid single rule lists its conditions. -/
theorem hasField_conditions {sv : Services} {content : Str} {rule : Members}
    (hvalid : Valid sv content rule) (hsingle : hasField rule "rules" = false) :
    hasField rule "conditions" = true ∧ ∃ items, field rule "conditions" = .array items ∧
      ∀ item ∈ items, ∃ members, item = .object members ∧ ValidCondition members := by
  obtain ⟨items, hlist, -, hall⟩ := syntaxErrors_nil hsingle hvalid.2
  refine ⟨?_, items, hlist, hall⟩
  by_contra habsent
  rw [field, get_of_not_mem] at hlist
  · cases hlist
  · intro m hm hkey
    exact habsent (List.any_eq_true.mpr ⟨m, hm, beq_iff_eq.mpr hkey⟩)

/-- The walk of the body gate ends on objects. -/
theorem readAll_some {sv : Services} {feature : JsonBodyFieldFeature} {document : JsonValue}
    {items : List JsonValue} (h : ∀ item ∈ items, ∃ members, item = .object members) :
    ∃ b, readAll sv feature document items = some b := by
  induction items with
  | nil => exact ⟨true, rfl⟩
  | cons item rest ih =>
      obtain ⟨condition, rfl⟩ := h item List.mem_cons_self
      obtain ⟨b, hb⟩ := ih fun other hother => h other (List.mem_cons_of_mem _ hother)
      rw [readAll, hb]
      split_ifs
      · exact ⟨false, rfl⟩
      · exact ⟨_, rfl⟩

/-- The body gate reads a valid candidate, and no wrapper matches. -/
theorem ruleReads_some {sv : Services} {content : Str} {rule : Members}
    (hvalid : Valid sv content rule) (feature : JsonBodyFieldFeature) (document : JsonValue) :
    ∃ b, ruleReads sv rule feature document = some b ∧
      (hasField rule "rules" = true → b = false) := by
  cases hwrapper : hasField rule "rules" with
  | true =>
      have hoperation : field rule "operation" = .null := by
        apply get_of_not_mem
        intro m hm hkey
        rw [wrapper_only hvalid.2 hwrapper m hm] at hkey
        exact absurd hkey (by decide)
      refine ⟨false, ?_, fun _ => rfl⟩
      rw [ruleReads, hoperation]
      rfl
  | false =>
      obtain ⟨hpresent, items, hlist, hall⟩ := hasField_conditions hvalid hwrapper
      obtain ⟨b, hb⟩ := @readAll_some sv feature document items fun item hitem =>
        (hall item hitem).imp fun _ h => h.1
      rw [ruleReads, if_pos hpresent, hlist]
      simp only [iterated, hb, Option.map_some]
      split_ifs
      · exact ⟨_, rfl, False.elim⟩
      · exact ⟨false, rfl, False.elim⟩

/-- The body gate does not raise on a valid candidate and refuses every wrapper. -/
theorem jsonBodyErrors_some {sv : Services} {content : Str} {rule : Members}
    (hvalid : Valid sv content rule) (feature : JsonBodyFieldFeature) :
    ∃ errors, jsonBodyErrors sv content feature = some errors ∧
      (hasField rule "rules" = true → errors ≠ []) := by
  obtain ⟨malicious, hmalicious, hrefused⟩ :=
    ruleReads_some hvalid feature (maliciousDocument feature)
  obtain ⟨benign, hbenign, -⟩ := ruleReads_some hvalid feature (benignDocument feature)
  simp only [jsonBodyErrors, hvalid.1, hmalicious, hbenign, Option.map_some]
  cases malicious with
  | false => exact ⟨_, rfl, fun _ => List.cons_ne_nil _ _⟩
  | true => exact ⟨_, rfl, fun hwrapper => absurd (hrefused hwrapper) Bool.noConfusion⟩

/-- The payload gate raises exactly on wrappers it looks into. -/
theorem semanticErrors_none {sv : Services} {content label : Str} {rule : Members}
    (hvalid : Valid sv content rule) (requirements : GateRequirements) :
    semanticErrors sv content label requirements = none ↔
      (label = "exact".toList ∨ label = "equivalent".toList) ∧ hasField rule "rules" = true := by
  rw [semanticErrors, hvalid.1]
  split_ifs with hlabel
  · refine iff_of_false id ?_
    rintro ⟨hexact | hequivalent, -⟩
    · exact hlabel.1 hexact
    · exact hlabel.2 hequivalent
  · rw [not_and_or, not_not, not_not] at hlabel
    cases hwrapper : hasField rule "rules" with
    | true =>
        have hlacks : hasField rule "conditions" = false :=
          wrapper_lacks hvalid hwrapper (by decide)
        simp only [hlacks, Bool.false_eq_true, if_false]
        exact iff_of_true trivial ⟨hlabel, trivial⟩
    | false =>
        obtain ⟨hpresent, items, hlist, hall⟩ := hasField_conditions hvalid hwrapper
        obtain ⟨hmap, hconditions⟩ := objects_of_valid hall
        refine iff_of_false ?_ fun h => Bool.noConfusion h.2
        simp only [hpresent, if_true, hlist, iterated, Option.bind_some, hmap,
          requirementErrors, selectType_valid hconditions]
        cases requirements.requirements.requestPath <;> exact Option.some_ne_none _

end TranslationEngine
