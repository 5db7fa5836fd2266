import ControlTranslation.ModelSchema

/-!
# The digests of an invocation request

A request is an envelope or a shared-contract request, read by strict models
from a decoded body.  All of it is typed except `scope_config`, whose keys are
trimmed and whose values stay as they came.  A synchronous invocation is known
by `canonical_request_hash`: of an envelope it hashes the text of seven fields
as `model_dump_json` writes them, so in the order of the document inside
`scope_config`; of a shared-contract request it hashes the whole dump with
sorted keys.  The asynchronous side is known by `normalized_request_digest`,
whose text always has its keys sorted.

Two bodies that differ in the order of keys are read as requests that agree but
for `scope_config`, and its order is what the first digest sees of it.
-/

namespace RequestDigests

open PyText JsonValue ModelSchema

/-- The kinds of scalar fields. -/
inductive Kind
  | text (minLength : Nat) (maxLength : Option Nat)
  | matching (pattern : String)
  | literal (values : List String)
  | literalTrue
  | boolean
  | integer (ge : Option Int) (le : Option Int)
  | timestamp
  | url
  deriving DecidableEq

/-- A field of a model: its name, its alias, its default and its schema. -/
abbrev FieldSpec := Str × Str × Option Tree × Schema Kind

/-- The fields of a model from a table of them. -/
def fields : List FieldSpec → Fields Kind
  | [] => .nil
  | (name, label, default, schema) :: rest => .cons name label default schema (fields rest)

/-- `None`. -/
def nothing : Tree := .scalar .null

/-- A field with no default. -/
def required (name : String) (schema : Schema Kind) : FieldSpec :=
  (name.toList, name.toList, none, schema)

/-- A field with a default. -/
def defaulted (name : String) (default : Tree) (schema : Schema Kind) : FieldSpec :=
  (name.toList, name.toList, some default, schema)

/-- A field of type `… | None` with the default `None`. -/
def optional (name : String) (schema : Schema Kind) : FieldSpec :=
  defaulted name nothing (.nullable schema)

/-- Any text. -/
def anyText : Schema Kind := .leaf (.text 0 none)

/-- A text with both its bounds. -/
def boundedText (minLength maxLength : Nat) : Schema Kind :=
  .leaf (.text minLength (some maxLength))

/-- A text with something in it. -/
def nonemptyText : Schema Kind := .leaf (.text 1 none)

/-- One of the given texts. -/
def literal (values : List String) : Schema Kind := .leaf (.literal values)

/-- A boolean. -/
def flag : Schema Kind := .leaf .boolean

/-- An integer from one on. -/
def positive : Schema Kind := .leaf (.integer (some 1) none)

/-- A list of texts. -/
def texts : Schema Kind := .list none anyText

/-- A text as a default. -/
def word (s : String) : Tree := .scalar (.text s.toList)

/-- A text that is written as a digest. -/
def digestPattern : Schema Kind := .leaf (.matching "^sha256:[a-f0-9]{64}$")

/-- The size of a result, within the limit of the contract. -/
def resultBytes : Schema Kind := .leaf (.integer (some 1) (some (200 * 1024 * 1024)))

/-- A model with the given fields, whose nulls are kept. -/
def model (name : String) (specs : List FieldSpec) : Schema Kind :=
  .model name.toList false (fields specs)

/-- `JsonBodyFieldFeature`. -/
def jsonBodyFieldFeature : Schema Kind := model "JsonBodyFieldFeature" [
  defaulted "kind" (word "json-body-field") (literal ["json-body-field"]),
  required "method" (literal ["POST"]),
  required "content_type" (literal ["application/json"]),
  required "field_path" texts,
  required "value" (boundedText 1 4096),
  required "value_match" (literal ["exact", "contains-token", "field-present"]),
  defaulted "source" (word "mitigation-check.test_basis.request")
    (literal ["mitigation-check.test_basis.request"])]

/-- `ProvenMitigationPattern`. -/
def provenMitigationPattern : Schema Kind := model "ProvenMitigationPattern" [
  required "proven_pattern_id" anyText,
  required "vulnerability_id" anyText,
  required "selected_control_class" anyText,
  required "discriminator_id" anyText,
  required "discriminator_description" anyText,
  required "pattern_summary" anyText,
  required "proof_record_ids" texts,
  optional "json_body_field_feature" jsonBodyFieldFeature]

/-- `TargetContext`. -/
def targetContext : Schema Kind := model "TargetContext" [
  optional "target_technology" anyText,
  optional "target_policy_context_id" anyText]

/-- `TranslationPolicy`. -/
def translationPolicy : Schema Kind := model "TranslationPolicy" [
  defaulted "translation_policy_id" (word "control-translation-policy:mvp1") anyText,
  defaulted "allow_narrower_translation" (.scalar (.bool true)) flag,
  defaulted "allow_equivalent_translation" (.scalar (.bool true)) flag,
  defaulted "allow_broader_translation" (.scalar (.bool true)) flag]

/-- A field of a default. -/
def named (name : String) (value : Tree) : Str × Str × Tree := (name.toList, name.toList, value)

/-- `TranslationPolicy()`. -/
def defaultPolicy : Tree := .record false [
  named "translation_policy_id" (word "control-translation-policy:mvp1"),
  named "allow_narrower_translation" (.scalar (.bool true)),
  named "allow_equivalent_translation" (.scalar (.bool true)),
  named "allow_broader_translation" (.scalar (.bool true))]

/-- `ControlTranslationRequest`. -/
def controlTranslationRequest : Schema Kind := model "ControlTranslationRequest" [
  optional "proven_pattern" provenMitigationPattern,
  optional "target_context" targetContext,
  defaulted "translation_policy" defaultPolicy translationPolicy,
  optional "current_policy_snapshot_id" anyText]

/-- `ControlTranslationRequest()`. -/
def defaultInput : Tree := .record false [
  named "proven_pattern" nothing,
  named "target_context" nothing,
  named "translation_policy" defaultPolicy,
  named "current_policy_snapshot_id" nothing]

/-- `InvocationSubject`. -/
def invocationSubject : Schema Kind := model "InvocationSubject" [
  required "vulnerability_id" nonemptyText,
  required "candidate_id" nonemptyText]

/-- A reference is populated by name or alias and writes no null. -/
def databricksResultReference : Schema Kind :=
  .model "DatabricksResultReference".toList true (fields [
    required "system" (literal ["databricks", "workflow-lab"]),
    optional "catalog" anyText,
    ("schema_name".toList, "schema".toList, some nothing, .nullable anyText),
    optional "table" anyText,
    optional "contract_id" anyText,
    optional "namespace" anyText,
    required "key" anyText])

/-- `OrchestrationUpstreamInput`. -/
def orchestrationUpstreamInput : Schema Kind := model "OrchestrationUpstreamInput" [
  required "capability" (literal ["defense-generation", "mitigation-check", "bypass-validation"]),
  required "contract_id" (boundedText 1 128),
  required "run_id" (boundedText 1 255),
  required "result_id" (boundedText 1 512),
  required "terminal_state" (boundedText 1 128),
  required "status" (literal ["completed"]),
  optional "request_id" (boundedText 1 512),
  required "correlation_id" (boundedText 1 255),
  required "result_ref" databricksResultReference,
  defaulted "evidence_refs" (.items []) texts,
  optional "content_sha256" digestPattern,
  optional "size_bytes" resultBytes,
  optional "created_at" (.leaf .timestamp)]

/-- `OrchestrationRoutingContext`. -/
def orchestrationRoutingContext : Schema Kind := model "OrchestrationRoutingContext" [
  required "route" (literal ["validated", "loop-exhausted"]),
  required "mitigation_check_terminal_state" (literal ["blocked"]),
  required "mitigation_check_match" (.leaf .literalTrue),
  required "bypass_validation_terminal_state" (literal ["no-bypass-found", "bypass-found"]),
  required "loop_exhausted" flag,
  required "completed_iterations" positive,
  required "max_iterations" positive]

/-- `UpstreamResultReferences`. -/
def upstreamResultReferences : Schema Kind := model "UpstreamResultReferences" [
  required "defense_generation" databricksResultReference,
  required "mitigation_check" databricksResultReference,
  required "bypass_validation" databricksResultReference]

/-- `ProofLoopRoutingMetadata`. -/
def proofLoopRoutingMetadata : Schema Kind := model "ProofLoopRoutingMetadata" [
  required "loop_exhausted" flag,
  required "completed_iterations" positive,
  required "max_iterations" positive,
  required "bypass_validation_terminal_state" (literal ["no-bypass-found", "bypass-found"]),
  required "bypass_validation_result_ref" databricksResultReference]

/-- `Provenance`. -/
def provenance : Schema Kind := model "Provenance" [
  optional "caller" anyText,
  optional "source" anyText]

/-- `CompletionCallback`. -/
def completionCallback : Schema Kind := model "CompletionCallback" [
  required "url" (.leaf .url),
  required "event_contract_id" (literal ["capability-run-event@1.0"])]

/-- The fields of an envelope before `scope_config`. -/
def leadingFields : List FieldSpec := [
  optional "contract_id" (literal ["control-translation@1.0"]),
  defaulted "input" defaultInput controlTranslationRequest,
  optional "subject" invocationSubject,
  optional "upstream_inputs" (.list none orchestrationUpstreamInput),
  optional "routing_context" orchestrationRoutingContext,
  optional "upstream_result_refs" upstreamResultReferences,
  optional "routing_metadata" proofLoopRoutingMetadata]

/-- The fields of an envelope after `scope_config`. -/
def trailingFields : List FieldSpec := [
  optional "request_id" (boundedText 0 255),
  optional "correlation_id" (boundedText 1 255),
  optional "idempotency_key" (boundedText 1 255),
  optional "subject_record_revision_id" (boundedText 1 255),
  optional "provenance" provenance,
  optional "callback" completionCallback]

/-- `SharedContractV2UpstreamInput`. -/
def sharedContractV2UpstreamInput : Schema Kind := model "SharedContractV2UpstreamInput" [
  required "capability" (literal ["check-generation", "defense-generation", "mitigation-check",
    "bypass-validation"]),
  required "contract_id" (boundedText 1 128),
  required "run_id" (boundedText 1 255),
  required "result_id" (boundedText 1 512),
  required "terminal_state" (boundedText 1 128),
  required "status" (literal ["completed"]),
  required "request_id" (boundedText 1 512),
  required "correlation_id" (boundedText 1 255),
  required "result_ref" databricksResultReference,
  defaulted "evidence_refs" (.items []) texts,
  required "content_sha256" digestPattern,
  required "size_bytes" resultBytes,
  required "created_at" (.leaf .timestamp)]

/-- The fields of `SharedContractV2InvokeRequest`. -/
def sharedContractV2Fields : List FieldSpec := [
  required "contract_id" (literal ["control-translation@2.0"]),
  required "shared_contract_version" (literal ["2.0"]),
  required "profile_id" (literal ["waf-standard@1", "waf-standard@2"]),
  required "request_id" (boundedText 1 255),
  required "correlation_id" (boundedText 1 255),
  required "upstream_inputs" (.list (some 4) sharedContractV2UpstreamInput),
  optional "target_context" targetContext,
  required "provenance" provenance]

/-- An envelope: its typed fields on either side of `scope_config`. -/
structure InvokeRequestEnvelope where
  leading : FieldValues
  scopeConfig : Members
  trailing : FieldValues

/-- A request of either kind, already validated. -/
inductive InvocationRequest
  | envelope (e : InvokeRequestEnvelope)
  | sharedContractV2 (fields : FieldValues)

/-- The reference of an upstream input, by its capability. -/
def resultRef (inputs : List Tree) (capability : String) : Tree :=
  match inputs.find? fun item =>
      (item.attr "capability".toList).text? == some capability.toList with
  | some item => item.attr "result_ref".toList
  | none => nothing

/-- What `validate_reference_routing` assigns to a field of an orchestrated request. -/
def routedField (all : FieldValues) : Str × Str × Tree → Str × Str × Tree
  | (name, label, value) =>
      let inputs := (Tree.field all "upstream_inputs".toList).elements
      let context := Tree.field all "routing_context".toList
      let kept (field : String) := named field (context.attr field.toList)
      if name = "upstream_result_refs".toList then
        (name, label, .record false [
          named "defense_generation" (resultRef inputs "defense-generation"),
          named "mitigation_check" (resultRef inputs "mitigation-check"),
          named "bypass_validation" (resultRef inputs "bypass-validation")])
      else if name = "routing_metadata".toList then
        (name, label, .record false [
          kept "loop_exhausted", kept "completed_iterations", kept "max_iterations",
          kept "bypass_validation_terminal_state",
          named "bypass_validation_result_ref" (resultRef inputs "bypass-validation")])
      else if name = "idempotency_key".toList then
        (name, label, Tree.field all "request_id".toList)
      else (name, label, value)

/-- The assignments of `validate_reference_routing`; what it refuses is the judge's. -/
def routed (leading trailing : FieldValues) : FieldValues × FieldValues :=
  let all := leading ++ trailing
  if (Tree.field all "upstream_inputs".toList).isNone &&
      (Tree.field all "routing_context".toList).isNone then (leading, trailing)
  else (leading.map (routedField all), trailing.map (routedField all))

/-- Members as `dict` collects them: a key keeps its first place and its last value. -/
def collect (members : Members) : Members :=
  members.foldl (fun all m => setMember all m.1 m.2) []

section

variable (V : Validators Kind) (trim : Str → Str)

/-- `scope_config: dict[str, Any]`, its keys trimmed. -/
def readScope (members : Members) : Option Members :=
  match member? members "scope_config".toList with
  | none => some []
  | some (.object scope) => some (collect (scope.map fun m => (trim m.1, m.2)))
  | some _ => none

/-- `InvokeRequestEnvelope.model_validate`. -/
def readEnvelope (members : Members) : Option InvokeRequestEnvelope := do
  if members.all fun m => m.1 == "scope_config".toList ||
      (fields leadingFields).takes members m.1 || (fields trailingFields).takes members m.1 then
    let leading ← (fields leadingFields).validate V members
    let scope ← readScope trim members
    let trailing ← (fields trailingFields).validate V members
    if V.accepts "InvokeRequestEnvelope".toList (leading ++ trailing) then
      pure ⟨(routed leading trailing).1, scope, (routed leading trailing).2⟩
    else none
  else none

/-- `SharedContractV2InvokeRequest.model_validate`. -/
def readSharedContractV2 (members : Members) : Option FieldValues :=
  if members.all fun m => (fields sharedContractV2Fields).takes members m.1 then
    ((fields sharedContractV2Fields).validate V members).filter
      (V.accepts "SharedContractV2InvokeRequest".toList)
  else none

/-- A body as an `InvocationRequest`. -/
def readRequest : JsonValue → Option InvocationRequest
  | .object members =>
      ((readEnvelope V trim members).map .envelope).or
        ((readSharedContractV2 V members).map .sharedContractV2)
  | _ => none

end

/-- The members an envelope is written with, of the fields that are kept. -/
def InvokeRequestEnvelope.members (byAlias excludeNone : Bool) (keep : Str → Bool)
    (e : InvokeRequestEnvelope) : Members :=
  Tree.dumpFields byAlias excludeNone excludeNone (e.leading.filter fun f => keep f.1) ++
    (if keep "scope_config".toList then [("scope_config".toList, .object e.scopeConfig)] else []) ++
    Tree.dumpFields byAlias excludeNone excludeNone (e.trailing.filter fun f => keep f.1)

/-- `model_dump` of the kept fields. -/
def InvocationRequest.modelDump (byAlias excludeNone : Bool) (keep : Str → Bool) :
    InvocationRequest → JsonValue
  | .envelope e => .object (e.members byAlias excludeNone keep)
  | .sharedContractV2 values =>
      .object (Tree.dumpFields byAlias excludeNone excludeNone (values.filter fun f => keep f.1))

/-- The fields of an envelope that its hash covers. -/
def semanticFields : List Str :=
  ["input", "subject", "upstream_result_refs", "routing_metadata", "scope_config",
    "subject_record_revision_id", "provenance"].map String.toList

/-- What `canonical_request_hash` hashes. -/
def InvocationRequest.canonicalText : InvocationRequest → Str
  | .envelope e => dumps (.object (e.members false true semanticFields.contains))
  | request@(.sharedContractV2 _) => dumps (sorted (request.modelDump true false fun _ => true))

/-- What `normalized_request_digest` hashes. -/
def InvocationRequest.normalizedText (request : InvocationRequest) : Str :=
  dumps (sorted (request.modelDump true true fun name => name != "idempotency_key".toList))

section

variable (sha256 : Str → Str)

/-- `canonical_request_hash`; `sha256` is the digest of a text's bytes. -/
def canonicalRequestHash (request : InvocationRequest) : Str := sha256 request.canonicalText

/-- `normalized_request_digest`. -/
def normalizedRequestDigest (request : InvocationRequest) : Str := sha256 request.normalizedText

end

/-- `request_json`, as the store writes it: `model_dump_json()`. -/
def InvocationRequest.stored (request : InvocationRequest) : JsonValue :=
  request.modelDump false false fun _ => true

theorem printMembers_split (escape : Char → Str) (k : Str) (post : Members) :
    ∀ pre : Members, ∃ before, ∀ x, printMembers escape (pre ++ (k, x) :: post) =
      before ++ (print escape x ++ printMembers escape post) := by
  intro pre
  induction pre with
  | nil => exact ⟨',' :: (printText escape k ++ [':']), fun x => by simp [printMembers]⟩
  | cons member rest ih =>
      obtain ⟨name, value⟩ := member
      obtain ⟨before, hbefore⟩ := ih
      refine ⟨',' :: (printText escape name ++ ':' :: (print escape value ++ before)), ?_⟩
      intro x
      rw [List.cons_append, printMembers, hbefore x]
      simp

/-- A member is written between texts that do not depend on it. -/
theorem print_split (escape : Char → Str) (k : Str) (pre post : Members) :
    ∃ before, ∀ x, print escape (.object (pre ++ (k, x) :: post)) =
      before ++ (print escape x ++ printMembers escape post) := by
  cases pre with
  | nil => exact ⟨'{' :: (printText escape k ++ [':']), fun x => by simp [print]⟩
  | cons first rest =>
      obtain ⟨name, value⟩ := first
      obtain ⟨before, hbefore⟩ := printMembers_split escape k post rest
      refine ⟨'{' :: (printText escape name ++ ':' :: (print escape value ++ before)), ?_⟩
      intro x
      rw [List.cons_append, print, hbefore x]
      simp

/-- Objects that differ in one member are written differently. -/
theorem eq_of_dumps_eq {k : Str} {pre post : Members} {x y : JsonValue} (hx : finite x = true)
    (hy : finite y = true)
    (h : dumps (.object (pre ++ (k, x) :: post)) = dumps (.object (pre ++ (k, y) :: post))) :
    x = y := by
  obtain ⟨before, hbefore⟩ := print_split escapeChar k pre post
  rw [dumps, dumps, hbefore x, hbefore y] at h
  have hprint := List.append_cancel_right (List.append_cancel_left h)
  exact eq_of_print_eq readable_escapeChar readable_escapeChar hx hy hprint

/-- The text of an envelope's hash, around its `scope_config`. -/
theorem members_semantic (e : InvokeRequestEnvelope) :
    e.members false true semanticFields.contains =
      Tree.dumpFields false true true (e.leading.filter fun f => semanticFields.contains f.1) ++
        ("scope_config".toList, .object e.scopeConfig) ::
          Tree.dumpFields false true true
            (e.trailing.filter fun f => semanticFields.contains f.1) := by
  have hkeep : semanticFields.contains "scope_config".toList = true := by decide
  rw [InvokeRequestEnvelope.members, if_pos hkeep, List.append_assoc, List.singleton_append]

/-- **Scope order.**  Envelopes that agree in their typed fields have one canonical text only
if they agree in `scope_config` too. -/
theorem canonicalText_inj {e e' : InvokeRequestEnvelope} (hleading : e.leading = e'.leading)
    (htrailing : e.trailing = e'.trailing) (he : finiteMembers e.scopeConfig = true)
    (he' : finiteMembers e'.scopeConfig = true)
    (h : (InvocationRequest.envelope e).canonicalText =
      (InvocationRequest.envelope e').canonicalText) :
    e.scopeConfig = e'.scopeConfig := by
  rw [InvocationRequest.canonicalText, InvocationRequest.canonicalText, members_semantic,
    members_semantic, hleading, htrailing] at h
  exact JsonValue.object.inj (eq_of_dumps_eq he he' h)

/-- The `scope_config` of a body, its keys trimmed, in the order of the body. -/
def scopeConfigOf (trim : Str → Str) : JsonValue → Members
  | .object members => (readScope trim members).getD []
  | _ => []

theorem finite_collect {members : Members} (h : ∀ m ∈ members, finite m.2 = true) :
    ∀ m ∈ collect members, finite m.2 = true := by
  have hfold : ∀ rest all : Members, (∀ m ∈ rest, finite m.2 = true) →
      (∀ m ∈ all, finite m.2 = true) →
        ∀ m ∈ rest.foldl (fun all m => setMember all m.1 m.2) all, finite m.2 = true := by
    intro rest
    induction rest with
    | nil => exact fun all _ hall => hall
    | cons first rest ih =>
        intro all hrest hall
        refine ih _ (fun m hm => hrest m (List.mem_cons_of_mem _ hm)) fun m hm => ?_
        rcases mem_setMember_iff.mp hm with rfl | ⟨hm, -⟩
        · exact hrest _ List.mem_cons_self
        · exact hall m hm
  exact hfold members [] h nofun

theorem finite_scopeConfigOf (trim : Str → Str) {v : JsonValue} (h : finite v = true) :
    finiteMembers (scopeConfigOf trim v) = true := by
  cases v with
  | object members =>
      rw [scopeConfigOf, readScope]
      cases hscope : member? members "scope_config".toList with
      | none => rfl
      | some value =>
          cases value with
          | object scope =>
              have hfinite : finiteMembers scope = true :=
                finiteMembers_iff.mp h _ (mem_of_member? hscope)
              refine finiteMembers_iff.mpr (finite_collect fun m hm => ?_)
              obtain ⟨m', hm', rfl⟩ := List.mem_map.mp hm
              exact finiteMembers_iff.mp hfinite m' hm'
          | _ => rfl
  | _ => rfl

/-- A shared-contract body has no `scope_config`. -/
theorem takes_scope (members : Members) :
    (fields sharedContractV2Fields).takes members "scope_config".toList = false := by
  simp [sharedContractV2Fields, fields, required, optional, defaulted, Fields.takes]

theorem scopeConfigOf_sharedContractV2 {V : Validators Kind} (trim : Str → Str)
    {members : Members} {values : FieldValues}
    (h : readSharedContractV2 V members = some values) :
    scopeConfigOf trim (.object members) = [] := by
  unfold readSharedContractV2 at h
  split_ifs at h with htakes
  have hnone : member? members "scope_config".toList = none := by
    refine member?_eq_none.mpr fun m hm hkey => ?_
    have htaken := List.all_eq_true.mp htakes m hm
    rw [hkey, takes_scope] at htaken
    cases htaken
  rw [scopeConfigOf, readScope, hnone]
  rfl

section

variable {V : Validators Kind} {trim : Str → Str} {xs zs : Members}

/-- Whether a scope is read does not depend on the order of members. -/
theorem isSome_readScope (trim : Str → Str) (h : Reordered (.object xs) (.object zs))
    (hdistinct : distinctMembers zs = true) :
    (readScope trim xs).isSome = (readScope trim zs).isSome := by
  have hrel := h.member? hdistinct "scope_config".toList
  unfold readScope
  generalize member? xs "scope_config".toList = x, member? zs "scope_config".toList = z at hrel ⊢
  cases hrel with
  | none => rfl
  | some hvalue =>
      cases hvalue with
      | refl value => rfl
      | array => rfl
      | object => rfl

/-- Both orders of a body have their keys taken by the same fields. -/
theorem all_envelope_reordered (h : Reordered (.object xs) (.object zs))
    (hdistinct : distinctMembers zs = true) :
    (xs.all fun m => m.1 == "scope_config".toList || (fields leadingFields).takes xs m.1 ||
        (fields trailingFields).takes xs m.1) =
      zs.all fun m => m.1 == "scope_config".toList || (fields leadingFields).takes zs m.1 ||
        (fields trailingFields).takes zs m.1 := by
  simp only [takes_reordered h hdistinct]
  exact h.all_keys fun key => key == "scope_config".toList ||
    (fields leadingFields).takes zs key || (fields trailingFields).takes zs key

/-- An envelope is read from another order of its body with that order's `scope_config`. -/
theorem readEnvelope_reordered (V : Validators Kind) (trim : Str → Str)
    (h : Reordered (.object xs) (.object zs))
    (hdistinct : distinctMembers zs = true) :
    readEnvelope V trim zs = (readEnvelope V trim xs).bind fun e =>
      (readScope trim zs).map fun scope => { e with scopeConfig := scope } := by
  have hscope := isSome_readScope trim h hdistinct
  unfold readEnvelope
  rw [all_envelope_reordered h hdistinct,
    (fields leadingFields).validate_reordered V xs zs h hdistinct,
    (fields trailingFields).validate_reordered V xs zs h hdistinct]
  generalize (fields leadingFields).validate V zs = leading,
    (fields trailingFields).validate V zs = trailing, readScope trim xs = scope,
    readScope trim zs = scope' at hscope ⊢
  split_ifs
  · cases leading with
    | none => rfl
    | some leading =>
        cases scope with
        | none =>
            cases scope' with
            | none => rfl
            | some _ => cases hscope
        | some scope =>
            cases scope' with
            | none => cases hscope
            | some scope' =>
                cases trailing with
                | none => rfl
                | some trailing =>
                    simp only [Option.bind_eq_bind, Option.bind_some]
                    split_ifs
                    · rfl
                    · rfl
  · rfl

theorem readSharedContractV2_reordered (h : Reordered (.object xs) (.object zs))
    (hdistinct : distinctMembers zs = true) :
    readSharedContractV2 V zs = readSharedContractV2 V xs := by
  unfold readSharedContractV2
  rw [all_takes_reordered h hdistinct,
    (fields sharedContractV2Fields).validate_reordered V xs zs h hdistinct]

/-- The scope of an envelope is what was read of its body's. -/
theorem readScope_eq {members : Members} {e : InvokeRequestEnvelope}
    (h : readEnvelope V trim members = some e) : readScope trim members = some e.scopeConfig := by
  unfold readEnvelope at h
  generalize (fields leadingFields).validate V members = leading,
    (fields trailingFields).validate V members = trailing,
    readScope trim members = scope at h ⊢
  split_ifs at h
  obtain ⟨leading, -, hread⟩ := Option.bind_eq_some_iff.mp h
  obtain ⟨found, hscope, hread⟩ := Option.bind_eq_some_iff.mp hread
  obtain ⟨trailing, -, hread⟩ := Option.bind_eq_some_iff.mp hread
  split_ifs at hread
  rw [← Option.some.inj hread, hscope]

end

/-- A request with another `scope_config`. -/
def InvocationRequest.withScope (scope : Members) : InvocationRequest → InvocationRequest
  | .envelope e => .envelope { e with scopeConfig := scope }
  | request => request

/-- **Two orders of a body.**  They are read as one request, up to `scope_config`, which
each keeps in its own order. -/
theorem readRequest_reordered {V : Validators Kind} {trim : Str → Str} {x y : JsonValue}
    (h : Reordered x y) (hdistinct : distinct y = true) {a b : InvocationRequest}
    (ha : readRequest V trim x = some a) (hb : readRequest V trim y = some b) :
    a = a.withScope (scopeConfigOf trim x) ∧ b = a.withScope (scopeConfigOf trim y) ∧
      ((∃ e, a = .envelope e) ∨ (scopeConfigOf trim x = [] ∧ scopeConfigOf trim y = [])) := by
  obtain ⟨xs, rfl⟩ : ∃ xs, x = .object xs := by
    cases x with
    | object xs => exact ⟨xs, rfl⟩
    | _ => cases ha
  obtain ⟨zs, rfl⟩ : ∃ zs, y = .object zs := by
    cases y with
    | object zs => exact ⟨zs, rfl⟩
    | _ => cases hb
  have hreorder := readEnvelope_reordered V trim h hdistinct
  have hscope := isSome_readScope trim h hdistinct
  rw [readRequest] at ha hb
  cases hx : readEnvelope V trim xs with
  | some e =>
      rw [hx, Option.map_some, Option.some_or] at ha
      obtain rfl := Option.some.inj ha
      rw [hx, Option.bind_some] at hreorder
      have hown := readScope_eq hx
      cases hz : readEnvelope V trim zs with
      | some e' =>
          rw [hz, Option.map_some, Option.some_or] at hb
          obtain rfl := Option.some.inj hb
          have hother := readScope_eq hz
          rw [hz] at hreorder
          obtain ⟨scope, -, hsame⟩ := Option.map_eq_some_iff.mp hreorder.symm
          obtain rfl := hsame
          refine ⟨?_, ?_, .inl ⟨e, rfl⟩⟩
          · rw [scopeConfigOf, hown]
            rfl
          · rw [scopeConfigOf, hother]
            rfl
      | none =>
          have hfound : (readScope trim zs).isSome = true := by
            rw [← hscope, hown]
            rfl
          rw [hz] at hreorder
          rw [Option.map_eq_none_iff.mp hreorder.symm] at hfound
          cases hfound
  | none =>
      rw [hx, Option.bind_none] at hreorder
      rw [hx, Option.map_none, Option.none_or] at ha
      rw [hreorder, Option.map_none, Option.none_or,
        readSharedContractV2_reordered h hdistinct] at hb
      obtain rfl := Option.some.inj (ha.symm.trans hb)
      obtain ⟨values, hvalues, rfl⟩ := Option.map_eq_some_iff.mp ha
      refine ⟨rfl, rfl, .inr ⟨scopeConfigOf_sharedContractV2 trim hvalues, ?_⟩⟩
      rw [← readSharedContractV2_reordered h hdistinct] at hvalues
      exact scopeConfigOf_sharedContractV2 trim hvalues

/-- Requests that both digests know as one. -/
def SameDigests (sha256 : Str → Str) (a b : InvocationRequest) : Prop :=
  canonicalRequestHash sha256 a = canonicalRequestHash sha256 b ∧
    normalizedRequestDigest sha256 a = normalizedRequestDigest sha256 b

section

variable {sha256 trim : Str → Str} {V : Validators Kind}

/-- One canonical hash for two orders of a body means one order of their scopes. -/
theorem scopeConfigOf_eq_of_canonical (hsha : Function.Injective sha256) {x y : JsonValue}
    (hdistinct : distinct y = true) (hfinite : finite y = true) (h : Reordered x y)
    {a b : InvocationRequest} (ha : readRequest V trim x = some a)
    (hb : readRequest V trim y = some b)
    (hcanonical : canonicalRequestHash sha256 a = canonicalRequestHash sha256 b) :
    scopeConfigOf trim x = scopeConfigOf trim y := by
  obtain ⟨hx, hy, hkind⟩ := readRequest_reordered h hdistinct ha hb
  rcases hkind with ⟨e, rfl⟩ | ⟨hnone, hnone'⟩
  · have htext := hsha hcanonical
    have hscope : e.scopeConfig = scopeConfigOf trim x :=
      congrArg InvokeRequestEnvelope.scopeConfig (InvocationRequest.envelope.inj hx)
    rw [hy] at htext
    rw [← hscope]
    refine @canonicalText_inj e { e with scopeConfig := scopeConfigOf trim y } rfl rfl ?_ ?_ htext
    · rw [hscope]
      exact finite_scopeConfigOf trim (h.finite hfinite)
    · exact finite_scopeConfigOf trim hfinite
  · rw [hnone, hnone']

/-- Two orders of a body share their digests exactly where their scopes are in one order. -/
theorem sameDigests_iff (hsha : Function.Injective sha256) {x y : JsonValue}
    (hdistinct : distinct y = true) (hfinite : finite y = true) (h : Reordered x y)
    {a b : InvocationRequest} (ha : readRequest V trim x = some a)
    (hb : readRequest V trim y = some b) :
    SameDigests sha256 a b ↔ scopeConfigOf trim x = scopeConfigOf trim y := by
  constructor
  · rintro ⟨hcanonical, -⟩
    exact scopeConfigOf_eq_of_canonical hsha hdistinct hfinite h ha hb hcanonical
  · intro hscope
    obtain ⟨hx, hy, -⟩ := readRequest_reordered h hdistinct ha hb
    have hsame : a = b := by
      rw [hy, ← hscope]
      exact hx
    rw [hsame]
    exact ⟨rfl, rfl⟩

/-- **One request, two orders.**  Of two accepted bodies that differ in the order of keys,
both digests agree exactly where the two `scope_config` objects, once their keys are trimmed,
list the same members in one order at every depth.  The same decides whether a request that
is read back from a store that may reorder keys has the digests it was saved with. -/
theorem digests_order (hsha : Function.Injective sha256) {x y : JsonValue}
    (hdistinct : distinct y = true) (hfinite : finite y = true) (h : Reordered x y)
    {a b : InvocationRequest} (ha : readRequest V trim x = some a)
    (hb : readRequest V trim y = some b) :
    (SameDigests sha256 a b ↔ scopeConfigOf trim x = scopeConfigOf trim y) ∧
      ∀ (stored : JsonValue) (c : InvocationRequest), readRequest V trim a.stored = some a →
        Reordered a.stored stored → distinct stored = true → finite stored = true →
          readRequest V trim stored = some c →
            (SameDigests sha256 a c ↔
              scopeConfigOf trim a.stored = scopeConfigOf trim stored) := by
  refine ⟨sameDigests_iff hsha hdistinct hfinite h ha hb, ?_⟩
  intro stored c hwhole hstored hstoredDistinct hstoredFinite hc
  exact sameDigests_iff hsha hstoredDistinct hstoredFinite hstored hwhole hc

end

/-- Validators that take texts, literals and flags as they are. -/
def plainValidators : Validators Kind where
  read kind value :=
    match kind, value with
    | .text minLength _, .text s => if minLength ≤ s.length then some (.text s) else none
    | .literal values, .text s => if values.any (·.toList == s) then some (.text s) else none
    | .boolean, .bool b => some (.bool b)
    | _, _ => none
  accepts _ _ := true

/-- A member of the sample. -/
def member (name : String) (value : JsonValue) : Str × JsonValue := (name.toList, value)

/-- `{"request_id": "r", "scope_config": …}`. -/
def scopedBody (scope : Members) : JsonValue :=
  .object [member "request_id" (.text ['r']), member "scope_config" (.object scope)]

/-- The same body with its members the other way round. -/
def turnedBody (scope : Members) : JsonValue :=
  .object [member "scope_config" (.object scope), member "request_id" (.text ['r'])]

/-- Two members out of the order of their names. -/
def twoMembers : Members := [member "b" (.number ['1']), member "a" (.number ['2'])]

theorem bodies_accepted :
    (readRequest plainValidators id (scopedBody twoMembers)).isSome = true ∧
      (readRequest plainValidators id (turnedBody twoMembers)).isSome = true ∧
      (readRequest plainValidators id (scopedBody twoMembers.reverse)).isSome = true := by
  decide +kernel

/-- A document with its members the other way round. -/
def turned : JsonValue → JsonValue
  | .object members => .object members.reverse
  | value => value

theorem reordered_turned (value : JsonValue) : Reordered value (turned value) := by
  cases value with
  | object members => exact .object (ReorderedMembers.refl _) (List.reverse_perm _).symm
  | _ => exact .refl _

/-- What is stored of the first body reads back as its request, -/
theorem stored_reads :
    ((readRequest plainValidators id (scopedBody twoMembers)).bind fun a =>
      readRequest plainValidators id a.stored) =
    readRequest plainValidators id (scopedBody twoMembers) := (rfl)

/-- with the same `scope_config` in both orders. -/
theorem stored_scope :
    ((readRequest plainValidators id (scopedBody twoMembers)).map fun a =>
      (scopeConfigOf id a.stored, scopeConfigOf id (turned a.stored))) =
    some (twoMembers, twoMembers) := (rfl)

theorem stored_accepted :
    ((readRequest plainValidators id (scopedBody twoMembers)).any fun a =>
      (readRequest plainValidators id (turned a.stored)).isSome &&
        (distinct (turned a.stored) && finite (turned a.stored))) = true := by
  decide +kernel

/-- A body, one turned round, and the stored one: one pair of digests. -/
theorem digests_order_turned : ∃ a b c,
    readRequest plainValidators id (scopedBody twoMembers) = some a ∧
      readRequest plainValidators id (turnedBody twoMembers) = some b ∧ SameDigests id a b ∧
      readRequest plainValidators id a.stored = some a ∧
      readRequest plainValidators id (turned a.stored) = some c ∧ SameDigests id a c := by
  obtain ⟨ha, hb, -⟩ := bodies_accepted
  obtain ⟨a, ha⟩ := Option.isSome_iff_exists.mp ha
  obtain ⟨b, hb⟩ := Option.isSome_iff_exists.mp hb
  have hreordered : Reordered (scopedBody twoMembers) (turnedBody twoMembers) :=
    .object (ReorderedMembers.refl _) (List.Perm.swap _ _ _)
  have hreads := stored_reads
  have hscope := stored_scope
  have haccepted := stored_accepted
  rw [ha, Option.bind_some] at hreads
  rw [ha, Option.map_some, Option.some.injEq, Prod.mk.injEq] at hscope
  rw [ha, Option.any_some, Bool.and_eq_true, Bool.and_eq_true] at haccepted
  obtain ⟨hc, hdistinct, hfinite⟩ := haccepted
  obtain ⟨c, hc⟩ := Option.isSome_iff_exists.mp hc
  obtain ⟨hsame, hstored⟩ :=
    digests_order Function.injective_id (by decide) (by decide) hreordered ha hb
  exact ⟨a, b, c, ha, hb, hsame.mpr rfl, hreads, hc,
    (hstored _ c hreads (reordered_turned _) hdistinct hfinite hc).mpr
      (hscope.1.trans hscope.2.symm)⟩

/-- Accepted bodies that differ in the order of keys have different canonical hashes, whatever
digest keeps texts apart. -/
theorem canonical_hash_reordered : ∃ (x y : JsonValue) (a b : InvocationRequest),
    Reordered x y ∧ readRequest plainValidators id x = some a ∧
      readRequest plainValidators id y = some b ∧
      ∀ sha256, Function.Injective sha256 →
        canonicalRequestHash sha256 a ≠ canonicalRequestHash sha256 b := by
  obtain ⟨ha, -, hb⟩ := bodies_accepted
  obtain ⟨a, ha⟩ := Option.isSome_iff_exists.mp ha
  obtain ⟨b, hb⟩ := Option.isSome_iff_exists.mp hb
  have hreordered : Reordered (scopedBody twoMembers) (scopedBody twoMembers.reverse) :=
    .object (.cons (.refl _) (.cons (.object (ReorderedMembers.refl _) (List.Perm.swap _ _ _))
      .nil)) (List.Perm.refl _)
  refine ⟨_, _, a, b, hreordered, ha, hb, fun sha256 hsha hcanonical => ?_⟩
  have hscope := scopeConfigOf_eq_of_canonical hsha (by decide) (by decide) hreordered ha hb
    hcanonical
  exact absurd (congrArg (List.map Prod.fst) hscope) (by decide)

end RequestDigests
