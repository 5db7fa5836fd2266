import ControlTranslation.JsonSame

/-!
# The Akamai adapter

The adapter checks the shape of a candidate: one custom rule, or a wrapper that
lists several.  A check reports texts and never stops at the first; the only way
out is an unhashable value where the adapter asks whether a set contains it,
which raises and is modelled by `none`.  How a value is shown in a text is left
to the parameter `repr`.
-/

namespace JsonValue

open PyText

/-- `document.get(key)`. -/
def field (members : Members) (key : String) : JsonValue := get members key.toList

/-- `key in document`. -/
def hasField (members : Members) (key : String) : Bool := hasKey members key.toList

/-- `value == text`, for a text of the program. -/
def isText (value : JsonValue) (s : String) : Bool := value.asText == some s.toList

theorem isText_iff {value : JsonValue} {s : String} :
    isText value s = true ↔ value = .text s.toList := by
  cases value <;> simp only [isText, asText, beq_iff_eq, reduceCtorEq, Option.some.injEq,
    JsonValue.text.injEq]

/-- `value in set_of_texts`; lists and dictionaries are not hashable. -/
def inTexts (texts : List Str) : JsonValue → Option Bool
  | .array _ => none
  | .object _ => none
  | .text s => some (texts.contains s)
  | _ => some false

theorem inTexts_iff {texts : List Str} {value : JsonValue} :
    inTexts texts value = some true ↔ ∃ s ∈ texts, value = .text s := by
  cases value <;> simp [inTexts]

end JsonValue

namespace AkamaiAdapter

open PyText JsonValue

/-- The condition types the adapter admits in a rule. -/
def validConditionTypes : List Str :=
  ["requestHeaderMatch", "requestHeaderValueMatch", "argsPostMatch", "argsPostJSONMatch",
    "argsPostXMLMatch", "pathMatch", "uriQueryMatch", "ipMatch", "requestMethodMatch",
    "cookieMatch"].map String.toList

/-- The keys that embed an action, in the order they are reported. -/
def forbiddenActionKeys : List Str := ["action", "alert", "deny"].map String.toList

/-- Names a rule may not give as a header, being the request line or body in disguise. -/
def syntheticRequestHeaders : List Str :=
  ["request-uri", "request_uri", "request-body", "request_body"].map String.toList

/-- A count as it is written in an error text. -/
def natText (n : Nat) : Str := (Nat.repr n).toList

/-- What is wrong with the type of a condition. -/
def typeErrors (repr : JsonValue → Str) (place : Str) (type : JsonValue) : Option (List Str) :=
  (inTexts validConditionTypes type).map fun known =>
    if known then []
    else [place ++ ".type ".toList ++ repr type ++
      " is not a recognized Akamai condition type.".toList]

/-- What is wrong with its polarity. -/
def polarityErrors (place : Str) : JsonValue → List Str
  | .bool _ => []
  | _ => [place ++ ".positiveMatch must be a boolean.".toList]

/-- Whether a value is a non-empty text, or some of them. -/
def validValue : JsonValue → Bool
  | .array items => !items.isEmpty && items.all fun item => item.asNonemptyText.isSome
  | other => other.asNonemptyText.isSome

/-- What is wrong with a condition's value. -/
def valueErrors (place : Str) (value : JsonValue) : List Str :=
  if validValue value then []
  else [place ++ ".value must be a non-empty array or a string.".toList]

/-- Whether a condition inspects any field of a JSON body. -/
def anyField (condition : Members) : Option Bool :=
  if isText (field condition "sourceLocationKind") "http-body-structured" &&
      isText (field condition "sourceSelectorType") "any-field" then
    inTexts [[], ['*']] (field condition "sourceSelector")
  else some false

/-- What is wrong with the field a JSON condition inspects. -/
def parameterErrors (place : Str) (condition : Members) : Option (List Str) :=
  if isText (field condition "type") "argsPostJSONMatch" then
    (anyField condition).map fun any =>
      if ((field condition "parameter").asText.map strip).any (· ≠ []) || any then []
      else [place ++ ".parameter must identify the JSON field for argsPostJSONMatch.".toList]
  else some []

/-- What is wrong with the header a condition names. -/
def headerErrors (t : CharTables) (repr : JsonValue → Str) (place : Str) (condition : Members) :
    List Str :=
  if isText (field condition "type") "requestHeaderValueMatch" then
    match ((field condition "header").asText.map strip).filter (· ≠ []) with
    | none =>
        [place ++ (".header must name a real request header for " ++
          "requestHeaderValueMatch.").toList]
    | some name =>
        if syntheticRequestHeaders.contains (t.lower name) then
          [place ++ ".header ".toList ++ repr (field condition "header") ++
            (" is synthetic; use pathMatch for " ++
              "URI paths or an argsPost condition for request bodies.").toList]
        else []
  else if hasField condition "header" then
    [place ++ ".header is valid only for requestHeaderValueMatch.".toList]
  else []

/-- What is wrong with the fields of a condition. -/
def memberErrors (t : CharTables) (repr : JsonValue → Str) (place : Str) (condition : Members) :
    Option (List Str) :=
  match typeErrors repr place (field condition "type"), parameterErrors place condition with
  | some type, some parameter =>
      some (type ++ polarityErrors place (field condition "positiveMatch") ++
        valueErrors place (field condition "value") ++ parameter ++
        headerErrors t repr place condition)
  | _, _ => none

/-- `_condition_errors`. -/
def conditionErrors (t : CharTables) (repr : JsonValue → Str) (index : Nat)
    (condition : JsonValue) (before : Str) : Option (List Str) :=
  let place := before ++ "conditions[".toList ++ natText index ++ [']']
  match condition with
  | .object members => memberErrors t repr place members
  | _ => some [place ++ " must be an object.".toList]

/-- The errors over a list whose first element has the given index. -/
def errorsFrom {α : Type} (check : Nat → α → Option (List Str)) :
    Nat → List α → Option (List Str)
  | _, [] => some []
  | index, first :: rest =>
      match check index first, errorsFrom check (index + 1) rest with
      | some errors, some others => some (errors ++ others)
      | _, _ => none

/-- What is wrong with an action in the body of a rule. -/
def actionErrors (before : Str) (rule : Members) : List Str :=
  let forbidden := forbiddenActionKeys.filter fun key => hasKey rule key
  if forbidden = [] then []
  else [before ++ "Custom rule body must not embed an action (".toList ++
    join ", ".toList forbidden ++ ("); the action is assigned " ++
      "separately on the security policy.").toList]

/-- What is wrong with the operation that joins a rule's conditions. -/
def operationErrors (before : Str) (operation : JsonValue) : List Str :=
  if isText operation "AND" || isText operation "OR" then []
  else [before ++ "Field 'operation' must be 'AND' or 'OR'.".toList]

/-- What is wrong with the conditions of a rule. -/
def conditionsErrors (t : CharTables) (repr : JsonValue → Str) (before : Str) :
    JsonValue → Option (List Str)
  | .array (first :: rest) =>
      errorsFrom (fun index condition => conditionErrors t repr index condition before) 0
        (first :: rest)
  | _ => some [before ++ "Field 'conditions' must be a non-empty array.".toList]

/-- `_rule_errors`. -/
def ruleErrors (t : CharTables) (repr : JsonValue → Str) (before : Str) (rule : Members) :
    Option (List Str) :=
  (conditionsErrors t repr before (field rule "conditions")).map fun errors =>
    actionErrors before rule ++ operationErrors before (field rule "operation") ++ errors

/-- `_rules`: the rules of a document and what is wrong with its wrapper. -/
def rulesOf (document : Members) : List Members × List Str :=
  if hasField document "rules" = false then ([document], [])
  else if document.any fun member => member.1 != "rules".toList then
    ([], ["Akamai rule-set wrapper may contain only 'rules'.".toList])
  else
    match field document "rules" with
    | .array (first :: rest) =>
        match (first :: rest).mapM asObject with
        | some rules => (rules, [])
        | none => ([], ["Every rules[] member must be an object.".toList])
    | _ => ([], ["Field 'rules' must be a non-empty array.".toList])

/-- `validate_syntax` on a decoded candidate: the errors it reports. -/
def syntaxErrors (t : CharTables) (repr : JsonValue → Str) : JsonValue → Option (List Str)
  | .object document =>
      let numbered := 1 < (rulesOf document).1.length || hasField document "rules"
      (errorsFrom (fun index rule =>
        ruleErrors t repr
          (if numbered then "rules[".toList ++ natText index ++ "].".toList else []) rule)
        0 (rulesOf document).1).map fun errors => (rulesOf document).2 ++ errors
  | _ => some ["Akamai custom rule must be a JSON object.".toList]

/-- A condition the adapter has nothing against. -/
structure ValidCondition (condition : Members) : Prop where
  type : ∃ type ∈ validConditionTypes, field condition "type" = .text type
  positiveMatch : ∃ b, field condition "positiveMatch" = .bool b
  value : validValue (field condition "value") = true

/-- A type without an error is one of the valid types. -/
theorem typeErrors_nil {repr : JsonValue → Str} {place : Str} {type : JsonValue}
    (h : typeErrors repr place type = some []) :
    ∃ s ∈ validConditionTypes, type = .text s := by
  obtain ⟨known, hknown, hempty⟩ := Option.map_eq_some_iff.mp h
  cases known with
  | true => exact inTexts_iff.mp hknown
  | false => cases hempty

theorem polarityErrors_nil {place : Str} {value : JsonValue}
    (h : polarityErrors place value = []) : ∃ b, value = .bool b := by
  cases value with
  | bool b => exact ⟨b, rfl⟩
  | _ => cases h

theorem valueErrors_nil {place : Str} {value : JsonValue} (h : valueErrors place value = []) :
    validValue value = true := by
  by_contra hinvalid
  rw [valueErrors, if_neg hinvalid] at h
  cases h

/-- A condition without an error is a valid condition. -/
theorem conditionErrors_nil {t : CharTables} {repr : JsonValue → Str} {index : Nat}
    {condition : JsonValue} {before : Str}
    (h : conditionErrors t repr index condition before = some []) :
    ∃ members, condition = .object members ∧ ValidCondition members := by
  cases condition with
  | object members =>
      simp only [conditionErrors, memberErrors] at h
      split at h
      · rename_i type parameter htype hparameter
        simp only [Option.some.injEq, List.append_eq_nil_iff] at h
        obtain ⟨⟨⟨⟨rfl, hpolarity⟩, hvalue⟩, -⟩, -⟩ := h
        exact ⟨members, rfl, typeErrors_nil htype, polarityErrors_nil hpolarity,
          valueErrors_nil hvalue⟩
      · cases h
  | _ => cases h

/-- A list without errors has none in any element. -/
theorem errorsFrom_nil {α : Type} {check : Nat → α → Option (List Str)} {all : List α} :
    ∀ {index : Nat}, errorsFrom check index all = some [] →
      ∀ a ∈ all, ∃ i, check i a = some [] := by
  induction all with
  | nil => exact fun _ a ha => absurd ha List.not_mem_nil
  | cons first rest ih =>
      intro index h a ha
      simp only [errorsFrom] at h
      split at h
      · rename_i errors others hfirst hrest
        simp only [Option.some.injEq, List.append_eq_nil_iff] at h
        obtain ⟨rfl, rfl⟩ := h
        rcases List.mem_cons.mp ha with rfl | ha
        · exact ⟨index, hfirst⟩
        · exact ih hrest a ha
      · cases h

/-- A single rule without errors has conditions, each of them valid. -/
theorem syntaxErrors_nil {t : CharTables} {repr : JsonValue → Str} {rule : Members}
    (hsingle : hasField rule "rules" = false)
    (h : syntaxErrors t repr (.object rule) = some []) :
    ∃ conditions, field rule "conditions" = .array conditions ∧ conditions ≠ [] ∧
      ∀ condition ∈ conditions, ∃ members, condition = .object members ∧
        ValidCondition members := by
  have hrules : rulesOf rule = ([rule], []) := by rw [rulesOf, if_pos hsingle]
  simp only [syntaxErrors, hrules, List.nil_append] at h
  obtain ⟨_, herrors, rfl⟩ := Option.map_eq_some_iff.mp h
  obtain ⟨i, hrule⟩ := errorsFrom_nil herrors rule List.mem_cons_self
  obtain ⟨_, hconditions, hempty⟩ := Option.map_eq_some_iff.mp hrule
  simp only [List.append_eq_nil_iff] at hempty
  obtain ⟨-, rfl⟩ := hempty
  cases hlist : field rule "conditions" with
  | array conditions =>
      cases conditions with
      | nil =>
          rw [hlist] at hconditions
          cases hconditions
      | cons first rest =>
          rw [hlist] at hconditions
          refine ⟨first :: rest, rfl, List.cons_ne_nil _ _, fun condition hmem => ?_⟩
          obtain ⟨j, hcondition⟩ := errorsFrom_nil hconditions condition hmem
          exact conditionErrors_nil hcondition
  | _ =>
      rw [hlist] at hconditions
      cases hconditions

end AkamaiAdapter
