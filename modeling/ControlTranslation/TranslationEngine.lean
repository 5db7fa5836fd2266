import ControlTranslation.SemanticGates

/-!
# The translation engine

One call of the engine takes a proven pattern to a candidate or to a structured
failure.  For the Akamai target the proposal comes from code where some
deterministic path has one; otherwise a doer is asked, and its answer is not
trusted: it passes the policy, the shape check of the adapter, with one repair,
the two semantic gates and the conflict check before it is hashed and emitted.

The doer, the adapter and the cancellation signal are whatever they are: each is
asked at most once at each place, so its answers are values.  A call counts what
it asked of the doer.  An exception that no handler of the engine catches is the
outcome `raised`.
-/

namespace TranslationEngine

open PyText JsonValue ModSecurity FnMatch SemanticGates

/-- What a call of a provider does. -/
inductive Reply (α : Type)
  | returned (answer : α)
  | raised (detail : Str)
  | cancelled

/-- Proposed content: text, a JSON object or array, or something else. -/
inductive Content
  | text (s : Str)
  | document (value : JsonValue)
  | unsupported

/-- `TranslationProposal`; the label is not trusted to be one of the four. -/
structure Proposal where
  candidateContent : Content
  translationLabel : Str
  justification : Str
  translationAssumptions : List Str
  limitations : List Str

/-- A doer, as far as one call of the engine sees it: its answer, the source it
declares, and its repair, if it has one, of a proposal with given errors. -/
structure Doer where
  propose : Reply Proposal
  deterministicProposalSource : Option Str
  repair : Option (Proposal → List Str → Reply Proposal)

/-- A target adapter; `none` is an exception. -/
structure Adapter where
  artifactType : Str
  supportsFeature : Option Bool
  validateSyntax : Str → Option (Bool × List Str)
  detectConflicts : Str → Option (List Str)

/-- The places where the engine looks at the cancellation signal. -/
inductive Checkpoint
  | start
  | beforePropose
  | afterPropose
  | beforeSyntax
  | afterSyntax
  | beforeRepair
  | afterRepair
  | beforeRepairedSyntax
  | afterRepairedSyntax
  | beforeConflicts
  | afterConflicts
  deriving DecidableEq, Repr

/-- The part of a proven pattern the engine itself reads. -/
structure ProvenPattern where
  vulnerabilityId : Str
  selectedControlClass : Str
  discriminatorId : Str
  discriminatorDescription : Str
  patternSummary : Str
  proofRecordIds : List Str
  jsonBodyFieldFeature : Option JsonBodyFieldFeature

/-- The other arguments of a call. -/
structure Request where
  pattern : ProvenPattern
  targetTechnology : Str
  targetPolicyContextId : Str
  adapter : Adapter
  translationRequirements : Option GateRequirements
  allowNarrowerTranslation : Bool
  allowEquivalentTranslation : Bool
  allowBroaderTranslation : Bool
  signal : Checkpoint → Bool

/-- What the builders of the deterministic paths make of the pattern. -/
structure DeterministicPaths where
  compiled : Option Proposal
  jsonBodyField : Option Proposal
  anchoredLiteral : Option Proposal
  formBody : Option Proposal

/-- How `json.dumps` ends: with a text, with an error the engine turns into a
refusal, or with another exception. -/
inductive Dumped
  | text (s : Str)
  | refused
  | raised (detail : Str)

/-- How `json.loads` ends: with a document, with a `JSONDecodeError` of the given
text, or with another exception. -/
inductive Loaded
  | document (value : JsonValue)
  | invalid (detail : Str)
  | raised

/-- What the engine calls: the tables of the characters, how a value is shown, the
JSON library, the digest (`none` where the text has no UTF-8 form) and the
deterministic paths. -/
structure Services where
  t : CharTables
  casing : Casing t
  repr : JsonValue → Str
  loads : Str → Loaded
  dumps : JsonValue → Dumped
  digest : Str → Option Str
  paths : DeterministicPaths

/-- `EngineFailure`. -/
structure Failure where
  reason : Str
  detail : Str
  proposalSource : Str
  llmInvoked : Bool

/-- `EngineSuccess` with its candidate. -/
structure Success where
  candidateId : Str
  targetControlClass : Str
  targetTechnology : Str
  targetPolicyContextId : Str
  artifactType : Str
  contentRef : Str
  contentHash : Str
  sourceDiscriminatorId : Str
  translation : Str
  justification : Str
  evidenceRefs : List Str
  conflictNotes : List Str
  translationAssumptions : List Str
  limitations : List Str
  semanticRelationship : Option Str
  proposalSource : Str
  llmInvoked : Bool

/-- How a call ends. -/
inductive Outcome
  | success (s : Success)
  | failure (f : Failure)
  | cancelled
  | raised

/-- A call, with how often it asked the doer. -/
structure Run where
  outcome : Outcome
  proposeCalls : Nat
  repairCalls : Nat

/-- The one technology with a deterministic path. -/
def akamaiWaf : Str := "akamai-waf".toList

/-- The source a translation of the proven rule names. -/
def modsecSource : Str := "deterministic-modsec-rule".toList

/-- Whether the compiled rule stands for compacted JNDI branches. -/
def compactedJndi (compiled : Option Proposal) : Bool :=
  compiled.any fun proposal => proposal.limitations.any
    (isSubstring "JNDI branches were compacted".toList)

/-- A proposal with the name of its path. -/
def named (source : String) (proposal : Option Proposal) : Option (Proposal × Str) :=
  proposal.map fun p => (p, source.toList)

/-- `_akamai_deterministic_proposal`. -/
def akamaiDeterministicProposal (pattern : ProvenPattern)
    (requirements : Option GateRequirements) (paths : DeterministicPaths) :
    Option (Proposal × Str) :=
  if paths.compiled.isSome && (pattern.jsonBodyFieldFeature.isSome ||
      compactedJndi paths.compiled) then
    named "deterministic-modsec-rule" paths.compiled
  else
    named "deterministic-json-body-field" paths.jsonBodyField <|>
      (if requirements.isNone then
        named "deterministic-anchored-literal" paths.anchoredLiteral <|>
          named "deterministic-form-body" paths.formBody
      else none) <|>
      named "deterministic-modsec-rule" paths.compiled

/-- The proposal code has for the request. -/
def deterministicProposal (sv : Services) (r : Request) : Option (Proposal × Str) :=
  if r.targetTechnology = akamaiWaf then
    akamaiDeterministicProposal r.pattern r.translationRequirements sv.paths
  else none

/-- `re.search(r"(?im)^\\s*SecRule\\s+", text)` at one position after a line start:
white space, the keyword, white space. -/
def secRuleHere (text : Str) : Bool :=
  let body := lstrip text
  (body.take 7).length == 7 && (List.zipWith foldsWith "SecRule".toList body).all id &&
    (body.drop 7).head?.any isSpace

/-- The search below the first line. -/
def secRuleBelow : Str → Bool
  | [] => false
  | c :: rest => (c == '\n' && secRuleHere rest) || secRuleBelow rest

/-- `has_authoritative_secrule`. -/
def hasAuthoritativeSecrule (text : Str) : Bool := secRuleHere text || secRuleBelow text

/-- `_proposal_policy_failure`, before the source is filled in. -/
def proposalPolicyFailure (sv : Services) (r : Request) (label : Str) : Option (Str × Str) :=
  if label = "broader".toList ∧ r.allowBroaderTranslation = false then
    some ("unsupported-feature".toList,
      ("Translation is broader than the proven source semantics, and " ++
        "the current translation policy does not allow broader translations.").toList)
  else if (["exact", "equivalent", "narrower", "broader"].map String.toList).contains label =
      false then
    some ("provider-failure".toList,
      "Doer returned an invalid translation_label: ".toList ++ sv.repr (.text label))
  else if label = "equivalent".toList ∧ r.allowEquivalentTranslation = false then
    some ("unsupported-feature".toList,
      "Translation policy does not allow equivalent translations.".toList)
  else if label = "narrower".toList ∧ r.allowNarrowerTranslation = false then
    some ("unsupported-feature".toList,
      "Translation policy does not allow narrower translations.".toList)
  else none

/-- How `_normalize_candidate_content` ends. -/
inductive Normalized
  | text (s : Str)
  | refused (detail : Str)
  | raised (detail : Str)

/-- `_normalize_candidate_content`. -/
def normalizeCandidateContent (sv : Services) : Content → Normalized
  | .text s => .text s
  | .document value =>
      match sv.dumps value with
      | .text s => .text s
      | .refused =>
          .refused "Translation provider returned non-serializable candidate content.".toList
      | .raised detail => .raised detail
  | .unsupported =>
      .refused "Translation provider returned unsupported candidate content type.".toList

/-- `syntax_validator.validate`. -/
def validate (adapter : Adapter) (content : Str) : Option (Bool × List Str) :=
  if strip content = [] then some (false, ["Candidate content is empty.".toList])
  else adapter.validateSyntax content

/-- `"; ".join(errors) or default`. -/
def detailOf (errors : List Str) (default : Str) : Str :=
  if join "; ".toList errors = [] then default else join "; ".toList errors

/-- What is known of the proposal that is being judged. -/
structure Judged where
  proposal : Proposal
  content : Str
  source : Str
  fromDoer : Bool

/-- A failure, with its reason and where it came from. -/
def failure (reason : String) (detail : Str) (source : Str) (llmInvoked : Bool) : Outcome :=
  .failure ⟨reason.toList, detail, source, llmInvoked⟩

/-- The candidate that is emitted. -/
def candidate (r : Request) (j : Judged) (conflicts : List Str) (digest : Str) : Success :=
  { candidateId := "control-candidate:".toList ++ r.pattern.vulnerabilityId ++ [':'] ++
      r.targetTechnology ++ [':'] ++ digest.take 16
    targetControlClass := r.pattern.selectedControlClass
    targetTechnology := r.targetTechnology
    targetPolicyContextId := r.targetPolicyContextId
    artifactType := r.adapter.artifactType
    contentRef := j.content
    contentHash := "sha256:".toList ++ digest
    sourceDiscriminatorId := r.pattern.discriminatorId
    translation := j.proposal.translationLabel
    justification := j.proposal.justification
    evidenceRefs := r.pattern.proofRecordIds
    conflictNotes := conflicts
    translationAssumptions := j.proposal.translationAssumptions
    limitations := j.proposal.limitations
    semanticRelationship :=
      if r.targetTechnology = akamaiWaf then some j.proposal.translationLabel else none
    proposalSource := j.source
    llmInvoked := j.fromDoer }

/-- The conflict check, the hash and the candidate. -/
def emit (sv : Services) (r : Request) (j : Judged) : Outcome :=
  if r.signal .beforeConflicts then .cancelled
  else
    match r.adapter.detectConflicts j.content with
    | none => .raised
    | some conflicts =>
        if r.signal .afterConflicts then .cancelled
        else
          match sv.digest j.content with
          | none => .raised
          | some digest => .success (candidate r j conflicts digest)

/-- What a gate with given errors leaves to the next step. -/
def gate (j : Judged) (next : Outcome) : Option (List Str) → Outcome
  | none => .raised
  | some [] => next
  | some errors => failure "unsupported-feature" (join "; ".toList errors) j.source j.fromDoer

/-- What `for item in value` goes over; other values are not iterable. -/
def iterated : JsonValue → Option (List JsonValue)
  | .array items => some items
  | .text s => some (s.map fun c => .text [c])
  | .object members => some (members.map fun member => .text member.1)
  | _ => none

/-- A condition that ends the body gate: it is of no kind the gate reads, or on
another header or field, or its field is not a text of the document. -/
def endsReading (t : CharTables) (feature : JsonBodyFieldFeature) (document : JsonValue)
    (condition : Members) : Bool :=
  !isMethodCondition condition && !isContentTypeCondition t condition &&
    !(isFieldCondition feature condition && (fieldText feature document).isSome)

/-- The conditions one after the other; what is not an object has no `get`. -/
def readAll (sv : Services) (feature : JsonBodyFieldFeature) (document : JsonValue) :
    List JsonValue → Option Bool
  | [] => some true
  | .object condition :: rest =>
      if endsReading sv.t feature document condition then some false
      else (readAll sv feature document rest).map
        (gateReads sv.casing feature document condition && ·)
  | _ :: _ => none

/-- `_akamai_json_rule_matches`. -/
def ruleReads (sv : Services) (rule : Members) (feature : JsonBodyFieldFeature)
    (document : JsonValue) : Option Bool :=
  if isText (field rule "operation") "AND" then
    match if hasField rule "conditions" then iterated (field rule "conditions")
      else some [] with
    | some items => (readAll sv feature document items).map (!items.isEmpty && ·)
    | none => none
  else some false

/-- `_akamai_json_body_semantic_errors`. -/
def jsonBodyErrors (sv : Services) (content : Str) (feature : JsonBodyFieldFeature) :
    Option (List Str) :=
  match sv.loads content with
  | .document (.object rule) =>
      match ruleReads sv rule feature (maliciousDocument feature) with
      | none => none
      | some false => some
          ["Akamai-like candidate does not match the proven malicious JSON field value".toList]
      | some true =>
          (ruleReads sv rule feature (benignDocument feature)).map fun matched =>
            if matched then
              ["Akamai-like candidate also matches a benign JSON field value".toList]
            else []
  | _ => none

/-- `_akamai_semantic_errors`; `rule["conditions"]` wants an object with that key. -/
def semanticErrors (sv : Services) (content label : Str) (r : GateRequirements) :
    Option (List Str) :=
  if label ≠ "exact".toList ∧ label ≠ "equivalent".toList then some []
  else
    match sv.loads content with
    | .document (.object rule) =>
        if hasField rule "conditions" then
          match (iterated (field rule "conditions")).bind (·.mapM asObject) with
          | some conditions => requirementErrors sv.t sv.repr conditions r
          | none => none
        else none
    | _ => none

/-- The errors of the payload gate, which only the Akamai target has. -/
def payloadGate (sv : Services) (r : Request) (j : Judged) : Option (List Str) :=
  match r.translationRequirements with
  | some requirements =>
      if r.targetTechnology = akamaiWaf then
        semanticErrors sv j.content j.proposal.translationLabel requirements
      else some []
  | none => some []

/-- The errors of the JSON body gate, which a compiled rule does not pass through. -/
def jsonBodyGate (sv : Services) (r : Request) (j : Judged) : Option (List Str) :=
  match r.pattern.jsonBodyFieldFeature with
  | some feature =>
      if r.targetTechnology = akamaiWaf ∧ j.source ≠ modsecSource then
        jsonBodyErrors sv j.content feature
      else some []
  | none => some []

/-- Everything behind the shape check. -/
def judge (sv : Services) (r : Request) (j : Judged) : Outcome :=
  gate j (gate j (emit sv r j) (payloadGate sv r j)) (jsonBodyGate sv r j)

/-- The repaired proposal, which has one more chance. -/
def judgeRepaired (sv : Services) (r : Request) (source : Str) (fromDoer : Bool)
    (repaired : Proposal) : Outcome :=
  match proposalPolicyFailure sv r repaired.translationLabel with
  | some (reason, detail) => .failure ⟨reason, detail, source, true⟩
  | none =>
      match normalizeCandidateContent sv repaired.candidateContent with
      | .refused detail => failure "provider-failure" detail source true
      | .raised detail => failure "provider-failure" detail source true
      | .text content =>
          if r.signal .beforeRepairedSyntax then .cancelled
          else
            match validate r.adapter content with
            | none => .raised
            | some (valid, errors) =>
                if r.signal .afterRepairedSyntax then .cancelled
                else if valid then judge sv r ⟨repaired, content, source, fromDoer⟩
                else
                  failure "provider-failure"
                    (("Translation provider produced invalid target candidate syntax " ++
                        "after one repair attempt: ").toList ++
                      detailOf errors "Candidate failed syntax validation.".toList) source true

/-- A repair of a proposal with errors: the outcome and how often it was asked. -/
def repairOnce (sv : Services) (r : Request) (source : Str) (fromDoer : Bool)
    (reply : Reply Proposal) : Outcome × Nat :=
  if r.signal .beforeRepair then (.cancelled, 0)
  else
    match reply with
    | .raised detail => (failure "provider-failure" detail source true, 1)
    | .cancelled => (.cancelled, 1)
    | .returned repaired =>
        if r.signal .afterRepair then (.cancelled, 1)
        else (judgeRepaired sv r source fromDoer repaired, 1)

/-- The shape check of normalized content, with the number of repairs asked for. -/
def checkContent (sv : Services) (r : Request) (doer : Doer) (j : Judged) : Outcome × Nat :=
  if r.signal .beforeSyntax then (.cancelled, 0)
  else
    match validate r.adapter j.content with
    | none => (.raised, 0)
    | some (valid, errors) =>
        if r.signal .afterSyntax then (.cancelled, 0)
        else if valid then (judge sv r j, 0)
        else
          match if j.fromDoer then doer.repair else none with
          | none =>
              (failure "unsupported-feature"
                (detailOf errors "Candidate failed syntax validation.".toList)
                j.source j.fromDoer, 0)
          | some repair => repairOnce sv r j.source j.fromDoer (repair j.proposal errors)

/-- From a proposal to an outcome. -/
def checkProposal (sv : Services) (r : Request) (doer : Doer) (proposal : Proposal)
    (source : Str) (fromDoer : Bool) : Outcome × Nat :=
  match proposalPolicyFailure sv r proposal.translationLabel with
  | some (reason, detail) => (.failure ⟨reason, detail, source, fromDoer⟩, 0)
  | none =>
      match normalizeCandidateContent sv proposal.candidateContent with
      | .refused detail => (failure "provider-failure" detail source fromDoer, 0)
      | .raised _ => (.raised, 0)
      | .text content => checkContent sv r doer ⟨proposal, content, source, fromDoer⟩

/-- The doer is asked for a proposal. -/
def askDoer (sv : Services) (r : Request) (doer : Doer) : Run :=
  if r.signal .beforePropose then ⟨.cancelled, 0, 0⟩
  else
    match doer.propose with
    | .raised detail =>
        ⟨failure "provider-failure" detail "translation-doer".toList true, 1, 0⟩
    | .cancelled => ⟨.cancelled, 1, 0⟩
    | .returned proposal =>
        if r.signal .afterPropose then ⟨.cancelled, 1, 0⟩
        else
          let source := doer.deterministicProposalSource.getD "translation-doer".toList
          let fromDoer := doer.deterministicProposalSource.isNone
          let checked := checkProposal sv r doer proposal source fromDoer
          ⟨checked.1, 1, checked.2⟩

/-- What is left where no deterministic path has a proposal. -/
def translateByDoer (sv : Services) (r : Request) (doer : Doer) : Run :=
  if r.targetTechnology = akamaiWaf ∧ hasAuthoritativeSecrule r.pattern.patternSummary = true then
    ⟨failure "unsupported-feature"
      (("The authoritative ModSecurity SecRule could not be compiled " ++
        "deterministically for Akamai; model fallback is disabled for " ++
        "authoritative executable source artifacts.").toList) modsecSource false, 0, 0⟩
  else
    match r.adapter.supportsFeature with
    | none => ⟨.raised, 0, 0⟩
    | some false =>
        ⟨failure "unsupported-feature"
          (r.targetTechnology ++ (" adapter does not recognize a supported " ++
            "feature for discriminator: ").toList ++
            r.pattern.discriminatorDescription) "none".toList false, 0, 0⟩
    | some true => askDoer sv r doer

/-- `translate`. -/
def translate (sv : Services) (r : Request) (doer : Doer) : Run :=
  if r.signal .start then ⟨.cancelled, 0, 0⟩
  else
    match deterministicProposal sv r with
    | some (proposal, source) =>
        let checked := checkProposal sv r doer proposal source false
        ⟨checked.1, 0, checked.2⟩
    | none => translateByDoer sv r doer

end TranslationEngine
