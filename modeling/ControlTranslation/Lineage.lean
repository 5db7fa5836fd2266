import ControlTranslation.ProofLoop

/-!
# Lineage of a resolved proof loop

Acceptance as evidence: what the three records hold when `resolve_proof_loop`
returns.  A value searched at every depth is collapsed to the one text found, or
to none when nothing or more than one text is found; without an orchestration
subject a missing value is refused, so acceptance means agreement at every
depth.  With an orchestration subject a missing value is tolerated, and the
collapse lets an ambiguous record through.
-/

namespace ProofLoop

open PyText JsonValue

/-- Everything an accepted resolution went through. -/
structure Resolved (env : Environment) (r : ResolveRequest) (resolved : ResolvedProofLoop)
    (records : Records) (vulnerabilityId candidateId : Str) : Prop where
  correlated : given r.correlationId = true
  bound : (given r.subjectRecordRevisionId || r.hasSubject) = true
  fetched : fetchRecords env r.immutableLocators r.references
    r.routingMetadata.bypassValidationTerminalState = .ok records
  lineage : ∀ role, checkLineage (r.correlationId.getD []) r.subjectRecordRevisionId
    r.hasSubject role (records.of role) = .ok ()
  ids : lineageOf r records = .ok (vulnerabilityId, candidateId)
  assembled : assemble env r records vulnerabilityId candidateId = .ok resolved

/-- What resolving a loop passes on the way to its result. -/
theorem resolveProofLoop_ok {env : Environment} {r : ResolveRequest}
    {resolved : ResolvedProofLoop} (h : resolveProofLoop env r = .ok resolved) :
    ∃ records vulnerabilityId candidateId,
      Resolved env r resolved records vulnerabilityId candidateId := by
  simp only [resolveProofLoop, bind_eq_ok, require_eq_ok] at h
  obtain ⟨-, hcorrelated, -, hbound, records, hfetched, ⟨⟩, hdefense, ⟨⟩, hmitigation, ⟨⟩,
    hbypass, ⟨vulnerabilityId, candidateId⟩, hids, hassembled⟩ := h
  refine ⟨records, vulnerabilityId, candidateId, hcorrelated, hbound, hfetched, ?_, hids,
    hassembled⟩
  intro role
  cases role with
  | defenseGeneration => exact hdefense
  | mitigationCheck => exact hmitigation
  | bypassValidation => exact hbypass

/-- The lineage checks on one record. -/
theorem checkLineage_ok {correlationId : Str} {subject : Option Str} {hasSubject : Bool}
    {role : Role} {record : UpstreamRecord} {u : Unit}
    (h : checkLineage correlationId subject hasSubject role record = .ok u) :
    (∀ v, oneValue record.document "correlation_id".toList = some v → v = correlationId) ∧
      ((oneValue record.document "correlation_id".toList).isSome || hasSubject) = true ∧
      (∀ s, subject = some s → s ≠ [] → ∀ v,
        oneValue record.document "subject_record_revision_id".toList = some v → v = s) ∧
      ((oneValue record.document "subject_record_revision_id".toList).isSome || hasSubject) =
        true := by
  simp only [checkLineage, bind_eq_ok, require_eq_ok] at h
  obtain ⟨-, hcorrelation, -, hsome, -, hsubject, hsome'⟩ := h
  refine ⟨?_, hsome, ?_, hsome'⟩
  · intro v hv
    rw [hv] at hcorrelation
    exact of_decide_eq_true hcorrelation
  · intro s hs hne v hv
    rw [hs, hv] at hsubject
    simpa [hne] using hsubject

/-- The vulnerability a Defense Generation record names itself. -/
def primaryVulnerability (record : UpstreamRecord) : Option Str :=
  (get (nested record.result "primary_candidate") "vulnerability_id".toList).asNonemptyText

/-- The vulnerability its request names. -/
def requestedVulnerability (record : UpstreamRecord) : Option Str :=
  (get record.request "vulnerability_id".toList).asNonemptyText

/-- No lineage field differs from what the request expects. -/
structure Isolated (r : ResolveRequest) (records : Records) : Prop where
  correlation : ∀ role, ∀ v ∈ occurrences "correlation_id".toList (records.of role).document,
    r.correlationId = some v
  vulnerability : ∀ v ∈ occurrences "vulnerability_id".toList records.mitigation.document,
    r.expectedVulnerabilityId = some v
  candidate : ∀ v ∈ occurrences "candidate_id".toList records.mitigation.document,
    r.expectedCandidateId = some v
  primary : ∀ v, primaryVulnerability records.defense = some v →
    r.expectedVulnerabilityId = some v
  requested : ∀ v, requestedVulnerability records.defense = some v →
    r.expectedVulnerabilityId = some v

/-- No lineage field occurs with two different values. -/
structure UnambiguousLineage (records : Records) : Prop where
  correlation : ∀ role, Unambiguous (records.of role).document "correlation_id".toList
  vulnerability : Unambiguous records.mitigation.document "vulnerability_id".toList
  candidate : Unambiguous records.mitigation.document "candidate_id".toList
  defense : ∀ v w, primaryVulnerability records.defense = some v →
    requestedVulnerability records.defense = some w → v = w

/-- The checks an orchestration subject adds. -/
theorem orchestrationLineage_ok {vulnerabilityId candidateId : Str} {records : Records}
    {ids : Str × Str} (h : orchestrationLineage vulnerabilityId candidateId records = .ok ids) :
    (∀ role v, roleVulnerabilityId role (records.of role) = some v → v = vulnerabilityId) ∧
      ∀ role v, roleCandidateId role (records.of role) = some v → v = candidateId := by
  simp only [orchestrationLineage, checkSubject, bind_eq_ok, require_eq_ok] at h
  obtain ⟨-, ⟨-, hv₁, hc₁⟩, -, ⟨-, hv₂, hc₂⟩, -, ⟨-, hv₃, hc₃⟩, -⟩ := h
  have hall : ∀ {o : Option Str} {s : Str}, o.all (· = s) = true → ∀ v, o = some v → v = s := by
    intro o s ho v hv
    rw [hv] at ho
    exact of_decide_eq_true ho
  constructor
  · intro role
    cases role with
    | defenseGeneration => exact hall hv₁
    | mitigationCheck => exact hall hv₂
    | bypassValidation => exact hall hv₃
  · intro role
    cases role with
    | defenseGeneration => exact hall hc₁
    | mitigationCheck => exact hall hc₂
    | bypassValidation => exact hall hc₃

/-- A value collapsed to its one text is what was expected, or nothing was
found, or more than one. -/
theorem all_eq_of_collapsed {document : JsonValue} {key expected : Str}
    (h : ∀ v, oneValue document key = some v → v = expected)
    (hone : Unambiguous document key) : ∀ v ∈ occurrences key document, v = expected :=
  fun v hv => h v (oneValue_of_unambiguous hv hone)

theorem eq_some_of_given {s : Option Str} (h : given s = true) : s = some (s.getD []) := by
  cases s with
  | none => cases h
  | some s => rfl

/-- **Isolation.**  In orchestration mode an accepted loop holds no foreign
lineage value exactly when no lineage field of its records is ambiguous. -/
theorem resolve_isolated_iff {env : Environment} {r : ResolveRequest}
    {resolved : ResolvedProofLoop} (h : resolveProofLoop env r = .ok resolved)
    (hsubject : r.hasSubject = true) :
    ∃ records, fetchRecords env r.immutableLocators r.references
        r.routingMetadata.bypassValidationTerminalState = .ok records ∧
      (Isolated r records ↔ UnambiguousLineage records) := by
  obtain ⟨records, vulnerabilityId, candidateId, hr⟩ := resolveProofLoop_ok h
  refine ⟨records, hr.fetched, ?_⟩
  have hexpected : given r.expectedVulnerabilityId = true ∧
      given r.expectedCandidateId = true := by
    simpa only [ResolveRequest.hasSubject, Bool.and_eq_true] using hsubject
  have hids := hr.ids
  rw [lineageOf, if_pos hsubject] at hids
  obtain ⟨hvulnerability, hcandidate⟩ := orchestrationLineage_ok hids
  have hone : ∀ {o : Option Str} {v w : Str}, o = some v → o = some w → v = w := by
    intro o v w hv hw
    exact Option.some.inj (hv.symm.trans hw)
  constructor
  · intro hi
    exact {
      correlation := fun role v hv w hw =>
        hone (hi.correlation role v hv) (hi.correlation role w hw)
      vulnerability := fun v hv w hw => hone (hi.vulnerability v hv) (hi.vulnerability w hw)
      candidate := fun v hv w hw => hone (hi.candidate v hv) (hi.candidate w hw)
      defense := fun v w hv hw => hone (hi.primary v hv) (hi.requested w hw) }
  · intro hu
    have hprimary : ∀ v, primaryVulnerability records.defense = some v →
        v = r.expectedVulnerabilityId.getD [] := by
      intro v hv
      refine hvulnerability .defenseGeneration v ?_
      unfold primaryVulnerability at hv
      simp only [roleVulnerabilityId, Records.of, hv, Option.some_or]
    have hrequested : ∀ v, requestedVulnerability records.defense = some v →
        v = r.expectedVulnerabilityId.getD [] := by
      intro v hv
      cases hcases : primaryVulnerability records.defense with
      | some w =>
          rw [← hu.defense w v hcases hv]
          exact hprimary w hcases
      | none =>
          refine hvulnerability .defenseGeneration v ?_
          unfold primaryVulnerability at hcases
          unfold requestedVulnerability at hv
          simp only [roleVulnerabilityId, Records.of, hcases, hv, Option.none_or,
            Option.some_or]
    refine ⟨?_, ?_, ?_, ?_, ?_⟩
    · intro role v hv
      have hcheck := (checkLineage_ok (hr.lineage role)).1
      rw [all_eq_of_collapsed hcheck (hu.correlation role) v hv]
      exact eq_some_of_given hr.correlated
    · intro v hv
      rw [all_eq_of_collapsed (hvulnerability .mitigationCheck) hu.vulnerability v hv]
      exact eq_some_of_given hexpected.1
    · intro v hv
      rw [all_eq_of_collapsed (hcandidate .mitigationCheck) hu.candidate v hv]
      exact eq_some_of_given hexpected.2
    · intro v hv
      rw [hprimary v hv]
      exact eq_some_of_given hexpected.1
    · intro v hv
      rw [hrequested v hv]
      exact eq_some_of_given hexpected.1

/-- A text member. -/
def field (key value : String) : Str × JsonValue := (key.toList, .text value.toList)

/-- A reference to the result with the given key. -/
def sampleReference (key : String) : Reference :=
  { system := "databricks".toList, catalog := none, schemaName := none, table := none,
    key := key.toList }

/-- A defense record about the given vulnerability. -/
def sampleDefense (vulnerabilityId : String) : UpstreamRecord :=
  { resultId := "defense:1".toList, terminalState := "candidate-produced".toList,
    correlationId := some ['c'], subjectRecordRevisionId := some ['s'], request := [],
    result := [("primary_candidate".toList, .object
      [field "vulnerability_id" vulnerabilityId, field "candidate_id" "candidate",
        field "discriminator" "d", field "selected_control_class" "waf",
        field "artifact_content" "SecRule"])] }

/-- A mitigation record with the given lineage. -/
def sampleMitigation (lineage : Members) : UpstreamRecord :=
  { resultId := "mitigation-check-result:1".toList, terminalState := "blocked".toList,
    correlationId := some ['c'], subjectRecordRevisionId := some ['s'], request := [],
    result := lineage }

/-- A bypass record with the given lineage. -/
def sampleBypass (lineage : Members) : UpstreamRecord :=
  { resultId := "bypass-validation-result:1".toList, terminalState := "no-bypass-found".toList,
    correlationId := some ['c'], subjectRecordRevisionId := some ['s'], request := [],
    result := lineage }

/-- A resolver that holds three records and trims with `trim`. -/
def sampleEnvironment (records : Records) (trim : Str → Str) : Environment :=
  { fetch := fun role _ _ => .ok (some (records.of role))
    trim := trim
    feature := fun _ _ _ => .ok none }

/-- A request for the three sample records. -/
def sampleRequest (vulnerabilityId candidateId : Option Str) : ResolveRequest :=
  { references := ⟨sampleReference "defense:1", sampleReference "mitigation-check-result:1",
      sampleReference "bypass-validation-result:1"⟩
    correlationId := some ['c']
    subjectRecordRevisionId := some ['s']
    routingMetadata := ⟨false, 1, 1, .noBypassFound,
      sampleReference "bypass-validation-result:1"⟩
    expectedVulnerabilityId := vulnerabilityId
    expectedCandidateId := candidateId
    immutableLocators := none }

/-- A resolution that succeeds has a result. -/
theorem exists_resolved (env : Environment) (r : ResolveRequest)
    (h : (resolveProofLoop env r).isOk = true) :
    ∃ resolved, resolveProofLoop env r = .ok resolved := by
  cases hr : resolveProofLoop env r with
  | error e =>
      rw [hr] at h
      cases h
  | ok resolved => exact ⟨resolved, rfl⟩

/-- A Mitigation Check record that also carries another run's correlation. -/
def splicedRecords : Records :=
  ⟨sampleDefense "CVE-1", sampleMitigation [field "correlation_id" "other"], sampleBypass []⟩

/-- A request that names its subject. -/
def subjectRequest : ResolveRequest :=
  sampleRequest (some "CVE-1".toList) (some "candidate".toList)

/-- A record with two correlation ids is resolved all the same. -/
theorem resolve_accepts_spliced_record :
    ¬ ∀ (env : Environment) (r : ResolveRequest) (resolved : ResolvedProofLoop)
        (records : Records), resolveProofLoop env r = .ok resolved → r.hasSubject = true →
      fetchRecords env r.immutableLocators r.references
        r.routingMetadata.bypassValidationTerminalState = .ok records →
      Isolated r records := by
  intro h
  obtain ⟨resolved, hresolved⟩ :=
    exists_resolved (sampleEnvironment splicedRecords id) subjectRequest (by decide +kernel)
  have hbad := h _ _ resolved splicedRecords hresolved (by decide +kernel) (by rfl)
  have hother : "other".toList ∈ occurrences "correlation_id".toList
      (splicedRecords.of .mitigationCheck).document := by decide +kernel
  exact absurd (hbad.correlation .mitigationCheck _ hother) (by decide +kernel)

/-- Records that agree on their subject. -/
def agreeingRecords : Records :=
  ⟨sampleDefense "CVE-1", sampleMitigation [field "vulnerability_id" "CVE-1"],
    sampleBypass []⟩

/-- Records that agree are resolved, and isolated. -/
theorem resolve_isolated_sample :
    ∃ records, fetchRecords (sampleEnvironment agreeingRecords id) none
        subjectRequest.references .noBypassFound = .ok records ∧
      (Isolated subjectRequest records ↔ UnambiguousLineage records) := by
  obtain ⟨resolved, hresolved⟩ :=
    exists_resolved (sampleEnvironment agreeingRecords id) subjectRequest (by decide +kernel)
  exact resolve_isolated_iff hresolved (by decide +kernel)

/-- A text is found under a key and nothing else is. -/
def OnlyValue (document : JsonValue) (key value : Str) : Prop :=
  value ∈ occurrences key document ∧ ∀ v ∈ occurrences key document, v = value

/-- The three records agree on a lineage. -/
structure Agreement (r : ResolveRequest) (records : Records)
    (vulnerabilityId candidateId : Str) : Prop where
  correlation : ∀ role, ∃ c, r.correlationId = some c ∧
    OnlyValue (records.of role).document "correlation_id".toList c
  subject : ∀ role, ∃ s, r.subjectRecordRevisionId = some s ∧
    OnlyValue (records.of role).document "subject_record_revision_id".toList s
  vulnerability : ∀ role,
    OnlyValue (records.of role).document "vulnerability_id".toList vulnerabilityId
  candidate : ∀ role,
    OnlyValue (records.of role).document "candidate_id".toList candidateId

/-- The identifiers of a pattern, up to the trimming of its contract. -/
structure Carries (trim : Str → Str) (pattern : ProvenPattern) (state : BypassState)
    (records : Records) (vulnerabilityId candidateId : Str) : Prop where
  vulnerability : pattern.vulnerabilityId = trim vulnerabilityId
  discriminator : pattern.discriminatorId = trim ("discriminator:".toList ++ candidateId)
  provenPattern : pattern.provenPatternId = trim
    ((if state = .noBypassFound then "proven-pattern:".toList
      else "loop-exhausted-pattern:".toList) ++ candidateId)
  proofRecords : pattern.proofRecordIds =
    [trim records.mitigation.resultId, trim records.bypass.resultId]

/-- A required value is the only one in its record. -/
theorem requiredOneValue_ok {key : String} {role : Role} {record : UpstreamRecord} {v : Str}
    (h : requiredOneValue key role record = .ok v) :
    oneValue record.document key.toList = some v := by
  unfold requiredOneValue at h
  split at h
  · rename_i w hw
    cases h
    exact hw
  · cases h

/-- A required value that agrees across the records is the only one in each. -/
theorem requiredValues_ok {key : String} {records : Records} {v₁ v₂ v₃ : Str}
    (h : requiredValues key records = .ok (v₁, v₂, v₃)) (heq : (v₁ == v₂ && v₁ == v₃) = true) :
    ∀ role, OnlyValue (records.of role).document key.toList v₁ := by
  simp only [requiredValues, bind_eq_ok, pure_eq_ok, Prod.mk.injEq] at h
  obtain ⟨w₁, h₁, w₂, h₂, w₃, h₃, rfl, rfl, rfl⟩ := h
  obtain ⟨rfl, rfl⟩ : w₁ = w₂ ∧ w₁ = w₃ := by simpa using heq
  intro role
  cases role with
  | defenseGeneration => exact eq_of_oneValue (requiredOneValue_ok h₁)
  | mitigationCheck => exact eq_of_oneValue (requiredOneValue_ok h₂)
  | bypassValidation => exact eq_of_oneValue (requiredOneValue_ok h₃)

/-- Direct lineage is the only value of every record. -/
theorem directLineage_ok {records : Records} {vulnerabilityId candidateId : Str}
    (h : directLineage records = .ok (vulnerabilityId, candidateId)) :
    (∀ role, OnlyValue (records.of role).document "vulnerability_id".toList vulnerabilityId) ∧
      ∀ role, OnlyValue (records.of role).document "candidate_id".toList candidateId := by
  simp only [directLineage, bind_eq_ok, require_eq_ok, pure_eq_ok, Prod.mk.injEq] at h
  obtain ⟨⟨v₁, v₂, v₃⟩, hv, ⟨c₁, c₂, c₃⟩, hc, -, hveq, -, hceq, rfl, rfl⟩ := h
  exact ⟨requiredValues_ok hv hveq, requiredValues_ok hc hceq⟩

/-- The strict contract only trims. -/
theorem validatePattern_ok {trim : Str → Str} {pattern validated : ProvenPattern}
    (h : validatePattern trim pattern = .ok validated) :
    validated = { pattern with
      provenPatternId := trim pattern.provenPatternId
      vulnerabilityId := trim pattern.vulnerabilityId
      selectedControlClass := trim pattern.selectedControlClass
      discriminatorId := trim pattern.discriminatorId
      discriminatorDescription := trim pattern.discriminatorDescription
      patternSummary := trim pattern.patternSummary
      proofRecordIds := pattern.proofRecordIds.map trim } := by
  simp only [validatePattern] at h
  split at h
  · cases h
  · cases h
    rfl

/-- The pattern assembled from checked records carries their identifiers. -/
theorem assemble_carries {env : Environment} {r : ResolveRequest} {records : Records}
    {vulnerabilityId candidateId : Str} {resolved : ResolvedProofLoop}
    (h : assemble env r records vulnerabilityId candidateId = .ok resolved) :
    Carries env.trim resolved.pattern r.routingMetadata.bypassValidationTerminalState records
      vulnerabilityId candidateId := by
  simp only [assemble, bind_eq_ok, pure_eq_ok] at h
  obtain ⟨_, -, _, -, _, -, _, -, _, -, pattern, hpattern, _, -, rfl⟩ := h
  have hvalid := validatePattern_ok hpattern
  constructor <;> rw [hvalid]
  rfl

/-- **Agreement.**  Without an orchestration subject, an accepted loop's records
hold the request's correlation and subject, one vulnerability and one candidate,
each at every depth and at least once, and the pattern carries those
identifiers, trimmed as its contract trims every text. -/
theorem resolve_direct_agrees {env : Environment} {r : ResolveRequest}
    {resolved : ResolvedProofLoop} (h : resolveProofLoop env r = .ok resolved)
    (hdirect : r.hasSubject = false) :
    ∃ records vulnerabilityId candidateId,
      fetchRecords env r.immutableLocators r.references
        r.routingMetadata.bypassValidationTerminalState = .ok records ∧
      Agreement r records vulnerabilityId candidateId ∧
      Carries env.trim resolved.pattern r.routingMetadata.bypassValidationTerminalState records
        vulnerabilityId candidateId := by
  obtain ⟨records, vulnerabilityId, candidateId, hr⟩ := resolveProofLoop_ok h
  have hsubject : given r.subjectRecordRevisionId = true := by
    have hbound := hr.bound
    rwa [hdirect, Bool.or_false] at hbound
  have hids := hr.ids
  rw [lineageOf, if_neg (by simp [hdirect])] at hids
  obtain ⟨hvulnerability, hcandidate⟩ := directLineage_ok hids
  refine ⟨records, vulnerabilityId, candidateId, hr.fetched, ?_, assemble_carries hr.assembled⟩
  refine ⟨fun role => ?_, fun role => ?_, hvulnerability, hcandidate⟩
  · obtain ⟨hcheck, hsome, -, -⟩ := checkLineage_ok (hr.lineage role)
    rw [hdirect, Bool.or_false] at hsome
    obtain ⟨v, hv⟩ := Option.isSome_iff_exists.mp hsome
    obtain rfl := hcheck v hv
    exact ⟨_, eq_some_of_given hr.correlated, eq_of_oneValue hv⟩
  · obtain ⟨-, -, hcheck, hsome⟩ := checkLineage_ok (hr.lineage role)
    rw [hdirect, Bool.or_false] at hsome
    obtain ⟨v, hv⟩ := Option.isSome_iff_exists.mp hsome
    have hgiven := eq_some_of_given hsubject
    have hne : r.subjectRecordRevisionId.getD [] ≠ [] := by
      rw [given, hgiven, Option.any_some] at hsubject
      simpa using hsubject
    obtain rfl := hcheck _ hgiven hne v hv
    exact ⟨_, hgiven, eq_of_oneValue hv⟩

/-- The Unicode white space a strict contract trims: that of `str.isspace`
without the four information separators. -/
def isWhiteSpace (c : Char) : Bool := isSpace c && !(28 ≤ c.toNat && c.toNat ≤ 31)

/-- The trimming of a strict contract. -/
def trimWhiteSpace (s : Str) : Str := (s.dropWhile isWhiteSpace).rdropWhile isWhiteSpace

/-- Records that carry their lineage at the top level. -/
def directRecords (vulnerabilityId : String) : Records :=
  ⟨sampleDefense vulnerabilityId,
    sampleMitigation [field "vulnerability_id" vulnerabilityId,
      field "candidate_id" "candidate"],
    sampleBypass [field "vulnerability_id" vulnerabilityId, field "candidate_id" "candidate"]⟩

/-- A vulnerability recorded with a trailing blank loses it. -/
theorem resolve_trims_identifier :
    ¬ ∀ (env : Environment) (r : ResolveRequest) (resolved : ResolvedProofLoop)
        (records : Records), resolveProofLoop env r = .ok resolved → r.hasSubject = false →
      fetchRecords env r.immutableLocators r.references
        r.routingMetadata.bypassValidationTerminalState = .ok records →
      ∃ vulnerabilityId candidateId, Agreement r records vulnerabilityId candidateId ∧
        resolved.pattern.vulnerabilityId = vulnerabilityId := by
  intro h
  obtain ⟨resolved, hresolved⟩ := exists_resolved
    (sampleEnvironment (directRecords "CVE-1 ") trimWhiteSpace) (sampleRequest none none)
    (by decide +kernel)
  obtain ⟨vulnerabilityId, candidateId, hagree, hpattern⟩ :=
    h _ _ resolved (directRecords "CVE-1 ") hresolved (by decide +kernel) (by rfl)
  obtain ⟨records, v, c, hr⟩ := resolveProofLoop_ok hresolved
  have hcarried := (assemble_carries hr.assembled).vulnerability
  have hpadded : "CVE-1 ".toList ∈ occurrences "vulnerability_id".toList
      ((directRecords "CVE-1 ").of .mitigationCheck).document := by decide +kernel
  have hvulnerability := (hagree.vulnerability .mitigationCheck).2 _ hpadded
  rw [hpattern, ← hvulnerability] at hcarried
  have hblank : ∀ (s : Str) (hne : s ≠ []), s = "CVE-1 ".toList →
      isWhiteSpace (s.getLast hne) = true := by
    rintro s hne rfl
    rfl
  have htrimmed : trimWhiteSpace v = "CVE-1 ".toList := hcarried.symm
  have hne : trimWhiteSpace v ≠ [] := by
    rw [htrimmed]
    decide
  exact List.rdropWhile_last_not _ _ hne (hblank _ hne htrimmed)

/-- Records with direct lineage are resolved without a subject. -/
theorem resolve_direct_sample :
    ∃ (resolved : ResolvedProofLoop) (records : Records) (vulnerabilityId candidateId : Str),
      resolveProofLoop (sampleEnvironment (directRecords "CVE-1") trimWhiteSpace)
        (sampleRequest none none) = .ok resolved ∧
      Agreement (sampleRequest none none) records vulnerabilityId candidateId := by
  obtain ⟨resolved, hresolved⟩ := exists_resolved
    (sampleEnvironment (directRecords "CVE-1") trimWhiteSpace) (sampleRequest none none)
    (by decide +kernel)
  obtain ⟨records, vulnerabilityId, candidateId, -, hagree, -⟩ :=
    resolve_direct_agrees hresolved (by decide +kernel)
  exact ⟨resolved, records, vulnerabilityId, candidateId, hresolved, hagree⟩

end ProofLoop
