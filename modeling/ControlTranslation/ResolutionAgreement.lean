import ControlTranslation.GoResolution
import ControlTranslation.ResolutionFailures

/-!
# Both services resolve alike

The two programs read the same three records of a proof loop.  Here the answers of one
resolver are given to both, and what they make of them is compared: a loop that both
accept is the same loop, up to the trimming of one of them, and each refuses what the
other accepts in a few cases that are named one by one.
-/

namespace GoProofLoop

open PyText JsonValue GoContracts
open ProofLoop (Role UpstreamRecord Records Environment ResolveRequest BypassState
  JsonBodyFieldFeature RequestContext trimWhiteSpace)

/-- The answer as the Python program meets it. -/
def Fetched.answer : Fetched → ProofLoop.Resolution (Option UpstreamRecord)
  | .record found => .ok (some found)
  | .absent => .ok none
  | .unresolved message => .error (.resolution message)
  | .failed => .error (.other "Exception")

/-- What the Python program resolves with: it looks for a feature of the request, too. -/
def environment (fetch : Role → Fetched)
    (feature : Option RequestContext → Str → Str →
      ProofLoop.Resolution (Option JsonBodyFieldFeature)) : Environment where
  fetch := fun role _ _ => (fetch role).answer
  trim := trimWhiteSpace
  feature := feature

/-- A reference as the Go port holds it, an absent part being empty. -/
def referenceOf (reference : ProofLoop.Reference) : DatabricksResultReference :=
  ⟨reference.system, reference.catalog.getD [], reference.schemaName.getD [],
    reference.table.getD [], reference.key⟩

/-- The three references as the Go port holds them. -/
def referencesOf (references : ProofLoop.References) : UpstreamResultReferences :=
  ⟨referenceOf references.defenseGeneration, referenceOf references.mitigationCheck,
    referenceOf references.bypassValidation⟩

/-- The routing metadata as the Go port holds it. -/
def routingOf (routing : ProofLoop.RoutingMetadata) : ProofLoopRoutingMetadata where
  loopExhausted := routing.loopExhausted
  completedIterations := routing.completedIterations
  maxIterations := routing.maxIterations
  bypassValidationTerminalState := routing.bypassValidationTerminalState.text
  bypassValidationResultRef := referenceOf routing.bypassValidationResultRef

/-- A request as the Go program is given it: what is missing is empty. -/
def inputOf (r : ResolveRequest) : ResolveInput where
  references := referencesOf r.references
  correlationId := r.correlationId.getD []
  subjectRecordRevisionId := r.subjectRecordRevisionId.getD []
  routingMetadata := routingOf r.routingMetadata
  expectedVulnerabilityId := r.expectedVulnerabilityId.getD []
  expectedCandidateId := r.expectedCandidateId.getD []

/-- The request without immutable locators, which only the Python program knows. -/
def plain (r : ResolveRequest) : ResolveRequest := { r with immutableLocators := none }

theorem given_eq (s : Option Str) : ProofLoop.given s = (s.getD [] != []) := by
  cases s with
  | none => rfl
  | some s =>
      rw [Bool.eq_iff_iff]
      simp [ProofLoop.given]

theorem hasSubject_eq (r : ResolveRequest) : (inputOf r).hasSubject = r.hasSubject := by
  rw [ResolveRequest.hasSubject, given_eq, given_eq]
  rfl

/-- Two computations that accept the same, with the same result. -/
def Alike {α : Type} (x : Resolution α) (y : ProofLoop.Resolution α) : Prop :=
  ∀ a, x = .ok a ↔ y = .ok a

section Alike

variable {α β : Type}

theorem alike_ok (a : α) : Alike (.ok a) (.ok a) := by
  intro b
  rw [Except.ok.injEq, Except.ok.injEq]

theorem alike_error (message : String) (e : ProofLoop.ResolveError) :
    Alike (.error message : Resolution α) (.error e) := by
  intro a
  constructor <;> intro h <;> cases h

theorem alike_check {passed passed' : Bool} (h : passed = passed') (message message' : String) :
    Alike (check passed message) (ProofLoop.require passed' message') := by
  intro u
  rw [check_eq_ok, ProofLoop.require_eq_ok, h]

/-- Steps that are alike are alike one after the other. -/
theorem Alike.bind {x : Resolution α} {y : ProofLoop.Resolution α} {f : α → Resolution β}
    {g : α → ProofLoop.Resolution β} (hx : Alike x y) (h : ∀ a, Alike (f a) (g a)) :
    Alike (x >>= f) (y >>= g) := by
  intro b
  rw [bind_eq_ok, ProofLoop.bind_eq_ok]
  exact exists_congr fun a => and_congr (hx a) (h a b)

end Alike

/-- Both check the identity of a record alike. -/
theorem alike_validateRecordIdentity (role : Role) (record : UpstreamRecord) :
    Alike (validateRecordIdentity role record) (ProofLoop.validateRecordIdentity role record) := by
  refine (alike_check rfl _ _).bind fun _ => ?_
  have hnone : (ProofLoop.acceptedContracts role).contains [] = false := by
    cases role <;> decide
  cases get record.result "contract_id".toList with
  | null => exact alike_ok ()
  | text s => exact alike_check rfl _ _
  | bool b => exact alike_check hnone _ _
  | number literal => exact alike_check hnone _ _
  | array items =>
      change Alike (check ((ProofLoop.acceptedContracts role).contains []) _) _
      rw [hnone]
      exact alike_error _ _
  | object members =>
      change Alike (check ((ProofLoop.acceptedContracts role).contains []) _) _
      rw [hnone]
      exact alike_error _ _

section Fetching

variable {fetch : Role → Fetched}
  {feature : Option RequestContext → Str → Str →
    ProofLoop.Resolution (Option JsonBodyFieldFeature)}

theorem alike_fetchRecord (role : Role) (reference : ProofLoop.Reference) (required : Str) :
    Alike (fetchRecord fetch role (referenceOf reference) required)
      (ProofLoop.fetchRecord (environment fetch feature) none role reference required) := by
  have hfetch : (environment fetch feature).fetch role reference (ProofLoop.locatorOf none role) =
      (fetch role).answer := rfl
  unfold fetchRecord ProofLoop.fetchRecord
  simp only [hfetch]
  generalize fetch role = answer
  cases answer with
  | unresolved message => exact alike_error _ _
  | failed => exact alike_error _ _
  | absent => exact alike_error _ _
  | record record =>
      change Alike (check _ _ >>= fun _ => check _ _ >>= fun _ =>
        validateRecordIdentity role record >>= fun _ => pure record)
        (ProofLoop.checkRecord role reference required record >>= fun _ => pure record)
      intro found
      simp only [ProofLoop.checkRecord, bind_eq_ok, ProofLoop.bind_eq_ok, check_eq_ok,
        ProofLoop.require_eq_ok, pure_eq_ok, ProofLoop.pure_eq_ok]
      constructor
      · rintro ⟨⟨⟩, hid, ⟨⟩, hstate, ⟨⟩, hidentity, hfound⟩
        exact ⟨(), ⟨(), hid, (), hstate, (alike_validateRecordIdentity _ _ ()).mp hidentity⟩,
          hfound⟩
      · rintro ⟨⟨⟩, ⟨⟨⟩, hid, ⟨⟩, hstate, hidentity⟩, hfound⟩
        exact ⟨(), hid, (), hstate, (), (alike_validateRecordIdentity _ _ ()).mpr hidentity,
          hfound⟩

theorem alike_fetchRecords (r : ResolveRequest) :
    Alike (fetchRecords fetch (inputOf r))
      (ProofLoop.fetchRecords (environment fetch feature) none r.references
        r.routingMetadata.bypassValidationTerminalState) :=
  (alike_fetchRecord _ _ _).bind fun _ => (alike_fetchRecord _ _ _).bind fun _ =>
    (alike_fetchRecord _ _ _).bind fun _ => alike_ok _

/-- The records that are fetched are those the resolver answers with. -/
theorem fetched_of_fetchRecords {i : ResolveInput} {records : Records}
    (h : fetchRecords fetch i = .ok records) :
    ∀ role, fetch role = .record (records.of role) := by
  have hone : ∀ {role reference required record},
      fetchRecord fetch role reference required = .ok record → fetch role = .record record := by
    intro role reference required record h
    unfold fetchRecord at h
    split at h
    · cases h
    · cases h
    · cases h
    · rename_i found hfetch
      simp only [bind_eq_ok, pure_eq_ok] at h
      obtain ⟨-, -, -, -, -, -, rfl⟩ := h
      exact hfetch
  simp only [fetchRecords, bind_eq_ok, pure_eq_ok] at h
  obtain ⟨defense, hdefense, mitigation, hmitigation, bypass, hbypass, rfl⟩ := h
  intro role
  cases role with
  | defenseGeneration => exact hone hdefense
  | mitigationCheck => exact hone hmitigation
  | bypassValidation => exact hone hbypass

end Fetching

theorem alike_checkLineage (r : ResolveRequest) (role : Role) (record : UpstreamRecord) :
    Alike (checkLineage (inputOf r) role record)
      (ProofLoop.checkLineage (r.correlationId.getD []) r.subjectRecordRevisionId r.hasSubject
        role record) := by
  have hany : ∀ (found : Option Str) (s : Str),
      (!found.any (· != s)) = found.all fun t => decide (t = s) := by
    intro found s
    cases found with
    | none => rfl
    | some t =>
        rw [Bool.eq_iff_iff]
        simp
  have hmissing : ∀ found : Option Str,
      (!(found.isNone && !(inputOf r).hasSubject)) = (found.isSome || r.hasSubject) := by
    intro found
    rw [hasSubject_eq]
    cases found <;> simp
  refine (alike_check (hany _ _) _ _).bind fun _ => (alike_check (hmissing _) _ _).bind
    fun _ => (alike_check ?_ _ _).bind fun _ => alike_check (hmissing _) _ _
  have hsubject : (inputOf r).subjectRecordRevisionId = r.subjectRecordRevisionId.getD [] := rfl
  rw [Bool.not_and, hany, hsubject]
  cases r.subjectRecordRevisionId with
  | none => rfl
  | some subject =>
      rw [Bool.eq_iff_iff]
      simp

/-- The vulnerability a defense record states of its candidate or its request. -/
def statedVulnerability (record : UpstreamRecord) : Option Str :=
  (get (ProofLoop.nested record.result "primary_candidate")
    "vulnerability_id".toList).asNonemptyText.or
      (get record.request "vulnerability_id".toList).asNonemptyText

theorem firstString_single (value : JsonValue) :
    firstString [value] = value.asNonemptyText.getD [] := by
  simp only [firstString, List.findSome?_cons, List.findSome?_nil]
  cases value.asNonemptyText <;> rfl

theorem ne_nil_of_asNonemptyText {value : JsonValue} {s : Str}
    (h : value.asNonemptyText = some s) : s ≠ [] := by
  rw [asNonemptyText, Option.filter_eq_some_iff] at h
  simpa using h.2

/-- A text that begins with a prefix is looked for like any text that is not empty. -/
theorem filter_prefix_getD {p : Str} (hp : p ≠ []) (value : JsonValue) :
    (value.asText.filter fun s => p.isPrefixOf s).getD [] =
      if p.isPrefixOf (firstString [value]) then firstString [value] else [] := by
  have hnil : p.isPrefixOf ([] : Str) = false := by
    cases p with
    | nil => exact absurd rfl hp
    | cons c p => rfl
  rw [firstString_single, asNonemptyText]
  cases value.asText with
  | none => simp [hnil]
  | some s =>
      by_cases hs : s = []
      · subst hs
        simp [Option.filter, hnil]
      · cases hprefix : p.isPrefixOf s <;> simp [Option.filter, hs, hprefix]

/-- The vulnerability of a defense record is the one it states. -/
theorem roleVulnerabilityId_defense (record : UpstreamRecord) :
    roleVulnerabilityId .defenseGeneration record = (statedVulnerability record).getD [] := by
  simp only [roleVulnerabilityId, statedVulnerability, ProofLoop.nested, firstString_single]
  cases (get record.result "primary_candidate".toList).asObject with
  | none => rfl
  | some primary =>
      simp only [Option.getD_some]
      cases hvalue : (get primary "vulnerability_id".toList).asNonemptyText with
      | none => rfl
      | some value => simp [ne_nil_of_asNonemptyText hvalue]

theorem roleVulnerabilityId_of_ne {role : Role} (h : role ≠ .defenseGeneration)
    (record : UpstreamRecord) : roleVulnerabilityId role record =
      (ProofLoop.roleVulnerabilityId role record).getD [] := by
  cases role with
  | defenseGeneration => exact absurd rfl h
  | mitigationCheck => rfl
  | bypassValidation =>
      simp only [roleVulnerabilityId, ProofLoop.roleVulnerabilityId, ProofLoop.nested]
      rw [filter_prefix_getD (by decide)]
      cases (get record.result "subject".toList).asObject with
      | none => rfl
      | some subject => rfl

theorem roleCandidateId_eq (role : Role) (record : UpstreamRecord) :
    roleCandidateId role record = (ProofLoop.roleCandidateId role record).getD [] := by
  cases role with
  | mitigationCheck => rfl
  | defenseGeneration =>
      simp only [roleCandidateId, ProofLoop.roleCandidateId, ProofLoop.nested,
        firstString_single]
      cases (get record.result "primary_candidate".toList).asObject with
      | none => rfl
      | some primary => rfl
  | bypassValidation =>
      simp only [roleCandidateId, ProofLoop.roleCandidateId, ProofLoop.nested]
      cases (get record.result "subject".toList).asObject with
      | none => rfl
      | some subject =>
          simp only [Option.getD_some, firstString_single]
          cases hsource : (get subject "source_candidate_id".toList).asNonemptyText with
          | some source => simp [ne_nil_of_asNonemptyText hsource]
          | none =>
              have hlegacy := filter_prefix_getD (p := "candidate:".toList) (by decide)
                (get subject "vulnerability_id".toList)
              rw [firstString_single] at hlegacy
              rw [Option.none_or, hlegacy]
              rfl

/-- An optional text is what was expected, or missing; a missing text is empty. -/
theorem mismatch_eq {found : Option Str} (hne : ∀ s, found = some s → s ≠ []) (expected : Str) :
    (!(found.getD [] != [] && found.getD [] != expected)) =
      found.all fun s => decide (s = expected) := by
  cases found with
  | none => rfl
  | some s =>
      rw [Bool.eq_iff_iff]
      simp [hne s rfl]

mutual

/-- Only texts that are not empty are found. -/
theorem ne_nil_of_mem_occurrences {key s : Str} : ∀ {value : JsonValue},
    s ∈ occurrences key value → s ≠ []
  | .array _, h => ne_nil_of_mem_items h
  | .object _, h => ne_nil_of_mem_members h

theorem ne_nil_of_mem_items {key s : Str} : ∀ {items : List JsonValue},
    s ∈ occurrencesInItems key items → s ≠ []
  | _ :: _, h => (List.mem_append.mp h).elim ne_nil_of_mem_occurrences ne_nil_of_mem_items

theorem ne_nil_of_mem_members {key s : Str} : ∀ {members : Members},
    s ∈ occurrencesInMembers key members → s ≠ []
  | (name, value) :: _, h => by
      rcases List.mem_append.mp h with h | h
      · rcases List.mem_append.mp h with h | h
        · rw [textUnder] at h
          split_ifs at h
          · exact ne_nil_of_asNonemptyText (Option.mem_toList.mp h)
          · cases h
        · exact ne_nil_of_mem_occurrences h
      · exact ne_nil_of_mem_members h

end

theorem ne_nil_of_oneValue {document : JsonValue} {key s : Str}
    (h : oneValue document key = some s) : s ≠ [] :=
  ne_nil_of_mem_occurrences (eq_of_oneValue h).1

theorem roleVulnerabilityId_ne {role : Role} {record : UpstreamRecord} {s : Str}
    (h : ProofLoop.roleVulnerabilityId role record = some s) : s ≠ [] := by
  cases role with
  | mitigationCheck => exact ne_nil_of_oneValue h
  | bypassValidation =>
      rintro rfl
      exact absurd (Option.filter_eq_some_iff.mp h).2 (by decide)
  | defenseGeneration =>
      rcases Option.or_eq_some_iff.mp h with h | ⟨-, h⟩
      · rcases Option.or_eq_some_iff.mp h with h | ⟨-, h⟩
        · exact ne_nil_of_asNonemptyText h
        · exact ne_nil_of_asNonemptyText h
      · exact ne_nil_of_oneValue h

theorem roleCandidateId_ne {role : Role} {record : UpstreamRecord} {s : Str}
    (h : ProofLoop.roleCandidateId role record = some s) : s ≠ [] := by
  cases role with
  | defenseGeneration => exact ne_nil_of_asNonemptyText h
  | mitigationCheck => exact ne_nil_of_oneValue h
  | bypassValidation =>
      rcases Option.or_eq_some_iff.mp h with h | ⟨-, h⟩
      · exact ne_nil_of_asNonemptyText h
      · rintro rfl
        exact absurd (Option.filter_eq_some_iff.mp h).2 (by decide)

/-- A record is held against the subject alike, where both find its vulnerability in the
same place. -/
theorem alike_checkSubject (r : ResolveRequest) {role : Role} {record : UpstreamRecord}
    (h : roleVulnerabilityId role record = (ProofLoop.roleVulnerabilityId role record).getD []) :
    Alike (checkSubject (inputOf r) role record)
      (ProofLoop.checkSubject (r.expectedVulnerabilityId.getD []) (r.expectedCandidateId.getD [])
        role record) := by
  refine (alike_check ?_ _ _).bind fun _ => alike_check ?_ _ _
  · rw [h]
    exact mismatch_eq (fun _ => roleVulnerabilityId_ne) _
  · rw [roleCandidateId_eq]
    exact mismatch_eq (fun _ => roleCandidateId_ne) _

/-- A subject's lineage is accepted alike, but the Go program wants the defense record to
state its vulnerability. -/
theorem orchestrationLineage_iff (r : ResolveRequest) (records : Records) (x : Str × Str) :
    orchestrationLineage (inputOf r) records = .ok x ↔
      ProofLoop.orchestrationLineage (r.expectedVulnerabilityId.getD [])
        (r.expectedCandidateId.getD []) records = .ok x ∧
      (statedVulnerability records.defense).isSome = true := by
  have hdefense := roleVulnerabilityId_defense records.defense
  cases hstated : statedVulnerability records.defense with
  | none =>
      rw [hstated] at hdefense
      constructor
      · intro h
        simp only [orchestrationLineage, bind_eq_ok, check_eq_ok] at h
        obtain ⟨-, -, -, -, -, -, -, hmissing, -⟩ := h
        rw [hdefense] at hmissing
        cases hmissing
      · rintro ⟨-, h⟩
        cases h
  | some s =>
      have horiginal : ProofLoop.roleVulnerabilityId .defenseGeneration records.defense =
          some s := by
        change (statedVulnerability records.defense).or _ = _
        rw [hstated]
        rfl
      have hsame : roleVulnerabilityId .defenseGeneration records.defense =
          (ProofLoop.roleVulnerabilityId .defenseGeneration records.defense).getD [] := by
        rw [hdefense, hstated, horiginal]
      have hcandidate : (roleCandidateId .defenseGeneration records.defense != []) =
          (ProofLoop.roleCandidateId .defenseGeneration records.defense).isSome := by
        rw [roleCandidateId_eq]
        cases hfound : ProofLoop.roleCandidateId .defenseGeneration records.defense with
        | none => rfl
        | some c => simpa using roleCandidateId_ne hfound
      have hvulnerability : (roleVulnerabilityId .defenseGeneration records.defense != []) =
          (ProofLoop.roleVulnerabilityId .defenseGeneration records.defense).isSome := by
        rw [hsame, horiginal]
        simpa using roleVulnerabilityId_ne horiginal
      have halike : Alike (orchestrationLineage (inputOf r) records)
          (ProofLoop.orchestrationLineage (r.expectedVulnerabilityId.getD [])
            (r.expectedCandidateId.getD []) records) :=
        (alike_checkSubject r hsame).bind fun _ =>
          (alike_checkSubject r (roleVulnerabilityId_of_ne (by decide) _)).bind fun _ =>
          (alike_checkSubject r (roleVulnerabilityId_of_ne (by decide) _)).bind fun _ =>
          (alike_check hvulnerability _ _).bind fun _ =>
          (alike_check hcandidate _ _).bind fun _ => alike_ok _
      exact (halike x).trans (by simp)

/-- The lineage of a record is its only two values. -/
theorem recordLineage_eq_ok {role : Role} {record : UpstreamRecord} {v c : Str} :
    recordLineage role record = .ok (v, c) ↔
      oneValue record.document "vulnerability_id".toList = some v ∧
        oneValue record.document "candidate_id".toList = some c := by
  unfold recordLineage
  cases oneValue record.document "vulnerability_id".toList with
  | none => simp
  | some v' =>
      cases oneValue record.document "candidate_id".toList with
      | none => simp
      | some c' => simp

theorem requiredOneValue_eq_ok {key : String} {role : Role} {record : UpstreamRecord} {v : Str} :
    ProofLoop.requiredOneValue key role record = .ok v ↔
      oneValue record.document key.toList = some v := by
  unfold ProofLoop.requiredOneValue
  cases oneValue record.document key.toList with
  | none => simp
  | some v' => simp

theorem requiredValues_eq_ok {key : String} {records : Records} {v₁ v₂ v₃ : Str} :
    ProofLoop.requiredValues key records = .ok (v₁, v₂, v₃) ↔
      oneValue records.defense.document key.toList = some v₁ ∧
        oneValue records.mitigation.document key.toList = some v₂ ∧
          oneValue records.bypass.document key.toList = some v₃ := by
  simp only [ProofLoop.requiredValues, ProofLoop.bind_eq_ok, ProofLoop.pure_eq_ok,
    requiredOneValue_eq_ok]
  constructor
  · rintro ⟨_, h₁, _, h₂, _, h₃, ⟨⟩⟩
    exact ⟨h₁, h₂, h₃⟩
  · rintro ⟨h₁, h₂, h₃⟩
    exact ⟨_, h₁, _, h₂, _, h₃, rfl⟩

/-- Three texts are one when a set of them has one member. -/
theorem length_unique_three (a b c : Str) :
    ((unique [a, b, c]).length == 1) = (a == b && a == c) := by
  rw [Bool.eq_iff_iff]
  simp only [unique, List.eraseDups_cons, List.filter_cons, List.filter_nil, beq_iff_eq,
    Bool.and_eq_true]
  by_cases hb : b = a
  · by_cases hc : c = a
    · simp [hb, hc]
    · simp [hb, hc, Ne.symm hc, List.eraseDups_cons]
  · have hb' : a ≠ b := Ne.symm hb
    simp [hb, hb', List.eraseDups_cons]

/-- Without a subject the records are held against one another alike. -/
theorem alike_directLineage (records : Records) :
    Alike (directLineage records) (ProofLoop.directLineage records) := by
  rintro ⟨v, c⟩
  simp only [directLineage, ProofLoop.directLineage, bind_eq_ok, ProofLoop.bind_eq_ok,
    check_eq_ok, ProofLoop.require_eq_ok, pure_eq_ok, ProofLoop.pure_eq_ok, Prod.exists,
    recordLineage_eq_ok, requiredValues_eq_ok, length_unique_three]
  constructor
  · rintro ⟨v₁, c₁, ⟨hv₁, hc₁⟩, v₂, c₂, ⟨hv₂, hc₂⟩, v₃, c₃, ⟨hv₃, hc₃⟩, -, hv, -, hc, heq⟩
    exact ⟨v₁, v₂, v₃, ⟨hv₁, hv₂, hv₃⟩, c₁, c₂, c₃, ⟨hc₁, hc₂, hc₃⟩, (), hv, (), hc, heq⟩
  · rintro ⟨v₁, v₂, v₃, ⟨hv₁, hv₂, hv₃⟩, c₁, c₂, c₃, ⟨hc₁, hc₂, hc₃⟩, -, hv, -, hc, heq⟩
    exact ⟨v₁, c₁, ⟨hv₁, hc₁⟩, v₂, c₂, ⟨hv₂, hc₂⟩, v₃, c₃, ⟨hv₃, hc₃⟩, (), hv, (), hc, heq⟩

/-- The Go program accepts the lineage that the Python program does, where the defense
record of a subject states its vulnerability. -/
theorem lineageOf_iff (r : ResolveRequest) (records : Records) (x : Str × Str) :
    lineageOf (inputOf r) records = .ok x ↔
      ProofLoop.lineageOf r records = .ok x ∧
      (r.hasSubject = true → (statedVulnerability records.defense).isSome = true) := by
  unfold lineageOf ProofLoop.lineageOf
  rw [hasSubject_eq]
  cases r.hasSubject with
  | true =>
      rw [if_pos rfl, if_pos rfl, orchestrationLineage_iff]
      simp
  | false =>
      rw [if_neg (by decide), if_neg (by decide), alike_directLineage records x]
      simp

/-- A common beginning does not matter to the order of bytes. -/
theorem bytesLe_append (shared s t : List Nat) :
    bytesLe (shared ++ s) (shared ++ t) = bytesLe s t := by
  induction shared with
  | nil => rfl
  | cons b rest ih => simp [bytesLe, ih]

/-- The bytes of a character, by its range. -/
theorem utf8_cases (c : Char) :
    (c.toNat < 0x80 ∧ utf8 c = [c.toNat]) ∨
    (0x80 ≤ c.toNat ∧ c.toNat < 0x800 ∧
      utf8 c = [0xC0 + c.toNat / 64, 0x80 + c.toNat % 64]) ∨
    (0x800 ≤ c.toNat ∧ c.toNat < 0x10000 ∧
      utf8 c = [0xE0 + c.toNat / 4096, 0x80 + c.toNat / 64 % 64, 0x80 + c.toNat % 64]) ∨
    (0x10000 ≤ c.toNat ∧ c.toNat < 0x110000 ∧ utf8 c = [0xF0 + c.toNat / 262144,
      0x80 + c.toNat / 4096 % 64, 0x80 + c.toNat / 64 % 64, 0x80 + c.toNat % 64]) := by
  have hval : c.val.toNat = c.toNat := rfl
  have hbound : c.val.toNat < 0x110000 := by
    rcases c.valid with h | h
    · exact Nat.lt_trans h (by decide)
    · exact h.2
  unfold utf8 String.utf8EncodeChar
  change (c.val.toNat < 0x80 ∧ _) ∨ _
  rcases Nat.lt_or_ge c.val.toNat 0x80 with h1 | h1
  · refine .inl ⟨h1, ?_⟩
    rw [if_pos (Nat.le_of_lt_succ h1)]
    simp
    omega
  rcases Nat.lt_or_ge c.val.toNat 0x800 with h2 | h2
  · refine .inr (.inl ⟨h1, h2, ?_⟩)
    rw [if_neg (by omega), if_pos (Nat.le_of_lt_succ h2)]
    simp
    omega
  rcases Nat.lt_or_ge c.val.toNat 0x10000 with h3 | h3
  · refine .inr (.inr (.inl ⟨h2, h3, ?_⟩))
    rw [if_neg (by omega), if_neg (by omega), if_pos (Nat.le_of_lt_succ h3)]
    simp
    omega
  · refine .inr (.inr (.inr ⟨h3, hbound, ?_⟩))
    rw [if_neg (by omega), if_neg (by omega), if_neg (by omega)]
    simp
    omega

/-- The bytes of the smaller character come first. -/
theorem bytesLe_of_lt {a b : Char} (h : a.toNat < b.toNat) (s t : List Nat) :
    bytesLe (utf8 a ++ s) (utf8 b ++ t) = true ∧ bytesLe (utf8 b ++ t) (utf8 a ++ s) = false := by
  rcases utf8_cases a with ⟨ha, ea⟩ | ⟨ha, ha', ea⟩ | ⟨ha, ha', ea⟩ | ⟨ha, ha', ea⟩ <;>
  rcases utf8_cases b with ⟨hb, eb⟩ | ⟨hb, hb', eb⟩ | ⟨hb, hb', eb⟩ | ⟨hb, hb', eb⟩ <;>
  rw [ea, eb] <;> simp [bytesLe] <;> omega

/-- Texts stand in the order of their bytes as in that of their characters. -/
theorem bytesLe_utf8 (s t : Str) : bytesLe (s.flatMap utf8) (t.flatMap utf8) = textLe s t := by
  induction s generalizing t with
  | nil => simp [bytesLe, textLe]
  | cons a s ih =>
      cases t with
      | nil =>
          rcases utf8_cases a with ⟨-, h⟩ | ⟨-, -, h⟩ | ⟨-, -, h⟩ | ⟨-, -, h⟩ <;>
            simp [h, bytesLe, textLe]
      | cons b t =>
          rw [List.flatMap_cons, List.flatMap_cons, textLe]
          rcases Nat.lt_trichotomy a.toNat b.toNat with h | h | h
          · rw [(bytesLe_of_lt h _ _).1]
            simp [h]
          · obtain rfl : a = b := Char.toNat_inj.mp h
            rw [bytesLe_append, ih]
            simp
          · rw [(bytesLe_of_lt h _ _).2]
            have hne : a ≠ b := fun heq => by simp [heq] at h
            have hle : ¬ a.toNat < b.toNat := by omega
            simp [hle, hne]

theorem sortedKeys_eq (keys : List Str) :
    sortedKeys keys = (unique keys).insertionSort fun s t => textLe s t = true := by
  simp only [sortedKeys, bytesLe_utf8]

theorem requiredString_eq_ok {value : JsonValue} {message : String} {t : Str} :
    ProofLoop.requiredString value message = .ok t ↔
      strip (firstString [value]) ≠ [] ∧ t = firstString [value] := by
  rw [firstString_single, asNonemptyText, ProofLoop.requiredString]
  cases value.asText with
  | none => simp [Option.filter, strip, lstrip, rstrip]
  | some s =>
      by_cases hs : s = []
      · subst hs
        simp [Option.filter, strip, lstrip, rstrip]
      · by_cases hblank : strip s = []
        · simp [Option.filter, hs, hblank]
        · simp [Option.filter, hs, hblank, eq_comm]

/-- The first of two values is a text, where it counts, and what is chosen is not blank. -/
structure Legible (value other : JsonValue) : Prop where
  text : value.truthy = true → value.asText.isSome = true
  nonblank : strip (firstString [value, other]) ≠ []

theorem firstString_pair (value other : JsonValue) : firstString [value, other] =
    if firstString [value] = [] then firstString [other] else firstString [value] := by
  rw [firstString_single, firstString_single, firstString, List.findSome?_cons]
  cases hvalue : value.asNonemptyText with
  | none =>
      rw [Option.getD_none, if_pos rfl]
      exact firstString_single other
  | some s =>
      rw [Option.getD_some, if_neg (ne_nil_of_asNonemptyText hvalue)]

theorem firstString_ne_nil_iff {value : JsonValue} :
    firstString [value] ≠ [] ↔ value.truthy = true ∧ value.asText.isSome = true := by
  rw [firstString_single, asNonemptyText]
  cases value with
  | text s => cases s <;> simp [truthy, asText, Option.filter]
  | _ => simp [asText]

/-- A required text with another to fall back on. -/
theorem requiredString_orElse {value other : JsonValue} {message : String} {t : Str} :
    ProofLoop.requiredString (value.orElse other) message = .ok t ↔
      Legible value other ∧ t = firstString [value, other] := by
  rw [requiredString_eq_ok, firstString_pair, orElse]
  by_cases htext : firstString [value] = []
  · rw [if_pos htext]
    cases htruthy : value.truthy with
    | true =>
        -- The first value is taken, and it is no text.
        rw [if_pos rfl, htext]
        constructor
        · rintro ⟨h, -⟩
          exact absurd rfl h
        · rintro ⟨h, -⟩
          exact absurd htext (firstString_ne_nil_iff.mpr ⟨htruthy, h.text htruthy⟩)
    | false =>
        rw [if_neg (by decide)]
        constructor
        · rintro ⟨h, rfl⟩
          refine ⟨⟨fun h' => ?_, ?_⟩, rfl⟩
          · rw [htruthy] at h'
            cases h'
          · rwa [firstString_pair, if_pos htext]
        · rintro ⟨h, rfl⟩
          refine ⟨?_, rfl⟩
          have hnonblank := h.nonblank
          rwa [firstString_pair, if_pos htext] at hnonblank
  · obtain ⟨htruthy, hsome⟩ := firstString_ne_nil_iff.mp htext
    rw [if_neg htext, if_pos htruthy]
    constructor
    · rintro ⟨h, rfl⟩
      refine ⟨⟨fun _ => hsome, ?_⟩, rfl⟩
      rwa [firstString_pair, if_neg htext]
    · rintro ⟨h, rfl⟩
      refine ⟨?_, rfl⟩
      have hnonblank := h.nonblank
      rwa [firstString_pair, if_neg htext] at hnonblank

theorem trimWhiteSpace_eq : trimWhiteSpace = GoText.trimSpace := by
  have hspace : ProofLoop.isWhiteSpace = GoText.isSpace := by
    funext c
    cases hseparator : GoText.isInfoSeparator c with
    | false =>
        rw [GoText.isSpace_eq hseparator, ProofLoop.isWhiteSpace]
        rw [GoText.isInfoSeparator] at hseparator
        rw [hseparator, Bool.not_false, Bool.and_true]
    | true =>
        rw [GoText.isInfoSeparator] at hseparator
        rw [ProofLoop.isWhiteSpace, hseparator, Bool.not_true, Bool.and_false]
        simp only [Bool.and_eq_true, decide_eq_true_eq] at hseparator
        rw [eq_comm, Bool.eq_false_iff]
        simp only [GoText.isSpace, ne_eq, Bool.or_eq_true, Bool.and_eq_true, decide_eq_true_eq,
          beq_iff_eq]
        omega
  funext s
  rw [trimWhiteSpace, GoText.trimSpace, hspace]

/-- A text with a character that the Go program takes for no white space is not blank. -/
theorem not_blank_of_mem {s : Str} {c : Char} (hc : c ∈ s) (h : GoText.isSpace c = false) :
    blank s = false := by
  have hleft := ProofLoop.mem_dropWhile_of_not hc h
  have hright := ProofLoop.mem_dropWhile_of_not (List.mem_reverse.mpr hleft) h
  have hmem : c ∈ GoText.trimSpace s := List.mem_reverse.mpr hright
  rw [blank, List.isEmpty_eq_false_iff]
  exact List.ne_nil_of_mem hmem

/-- What is blank for the Go program is blank for the Python program. -/
theorem not_blank_of_strip {s : Str} (h : strip s ≠ []) : blank s = false := by
  obtain ⟨c, hc, hspace⟩ := ProofLoop.exists_of_strip_ne h
  refine not_blank_of_mem hc ?_
  cases hseparator : GoText.isInfoSeparator c with
  | false => rwa [GoText.isSpace_eq hseparator]
  | true =>
      simp only [GoText.isInfoSeparator, Bool.and_eq_true, decide_eq_true_eq] at hseparator
      simp only [PyText.isSpace, Bool.or_eq_false_iff, Bool.and_eq_false_iff,
        decide_eq_false_iff_not] at hspace
      omega

theorem isPrefix_rdropWhile {α : Type} {p : α → Bool} {c : α} (hc : p c = false)
    (s t : List α) : s ++ [c] <+: (s ++ [c] ++ t).rdropWhile p := by
  induction t using List.reverseRecOn with
  | nil =>
      rw [List.append_nil, List.rdropWhile_concat_neg _ _ _ (by simp [hc])]
  | append_singleton t d ih =>
      rw [← List.append_assoc, List.rdropWhile_concat]
      split_ifs
      · exact ih
      · rw [List.append_assoc]
        exact List.prefix_append _ _

/-- Trimming leaves a prefix that begins and ends with no white space. -/
theorem prefix_trimSpace {first last : Char} {middle s : Str}
    (hfirst : GoText.isSpace first = false) (hlast : GoText.isSpace last = false)
    (h : first :: middle ++ [last] <+: s) :
    first :: middle ++ [last] <+: GoText.trimSpace s := by
  obtain ⟨t, rfl⟩ := h
  rw [GoText.trimSpace]
  have hkept : (first :: middle ++ [last] ++ t).dropWhile GoText.isSpace =
      first :: middle ++ [last] ++ t := by
    rw [List.cons_append, List.cons_append, List.dropWhile_cons_of_neg (by simp [hfirst])]
  rw [hkept]
  exact isPrefix_rdropWhile hlast _ _

end GoProofLoop
