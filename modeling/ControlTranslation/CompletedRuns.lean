import Mathlib.Data.List.Lex
import Mathlib.Data.List.Pairwise
import Mathlib.Data.Prod.Lex
import Mathlib.Data.Char
import ControlTranslation.CapabilityRouting
import ControlTranslation.Paging
import ControlTranslation.SyncIdempotency

/-!
# The database of completed runs

A completed run is inserted into four tables in one transaction: its columns, its
request and result, the artifact of its candidate, and the evidence it refers to.
Nothing is ever updated or deleted there.  What the tables amount to is a log of runs
that have three identities each, the run, the result and the idempotency key, and a
transaction either appends to the log or leaves it alone.
-/

namespace RunStore

open PyText
open CapabilityRouting (TerminalState OutcomeReasonCode ResultStatus)
open SyncInvoke (InvocationRequest)

/-- The artifact of a candidate, by reference and hash. -/
structure CandidateArtifact where
  artifactType : Str
  contentRef : Str
  contentHash : Str
  emittedAs : Str
  deriving DecidableEq

/-- The candidate a result puts first. -/
structure PrimaryCandidate where
  candidateId : Str
  candidateArtifact : CandidateArtifact
  deriving DecidableEq

/-- A claim of a result with the references filed under it. -/
structure EvidenceBinding where
  claim : Str
  evidenceRefs : List Str
  deriving DecidableEq

/-- A result envelope: what the repository reads of it, and everything else. -/
structure ResultEnvelope (ρ : Type) where
  capability : Str
  contractId : Str
  runId : Str
  resultId : Str
  correlationId : Str
  status : ResultStatus
  terminalState : TerminalState
  reasonCode : OutcomeReasonCode
  /-- When it was produced, in UTC, as `isoformat` writes it. -/
  producedAt : Str
  vulnerabilityId : Str
  targetTechnology : Str
  primaryCandidate : Option PrimaryCandidate
  evidenceBindings : List EvidenceBinding
  provenance : List Str
  content : ρ
  deriving DecidableEq

/-- `capability_runs`. -/
structure CapabilityRun where
  runId : Str
  capability : Str
  contractId : Str
  requestId : Str
  correlationId : Str
  idempotencyKey : Option Str
  requestHash : Str
  resultId : Str
  status : ResultStatus
  terminalState : TerminalState
  outcomeReasonCode : OutcomeReasonCode
  startedAt : Str
  completedAt : Str
  createdAt : Str
  updatedAt : Str

/-- `invocation_payloads`. -/
structure InvocationPayload (β γ ρ : Type) where
  runId : Str
  request : InvocationRequest β γ
  result : ResultEnvelope ρ

/-- `result_artifacts`. -/
structure ResultArtifact where
  runId : Str
  artifactId : Str
  resultId : Str
  artifactType : Str
  content : Str
  contentHash : Str
  emittedAs : Str
  createdAt : Str

/-- `evidence_references`. -/
structure EvidenceReference where
  runId : Str
  resultId : Str
  claim : Str
  evidenceRef : Str
  createdAt : Str

/-- The four tables a completed run is written to. -/
structure Database (β γ ρ : Type) where
  runs : List CapabilityRun
  payloads : List (InvocationPayload β γ ρ)
  artifacts : List ResultArtifact
  evidence : List EvidenceReference

/-- The tables as the migration creates them. -/
def Database.empty (β γ ρ : Type) : Database β γ ρ := ⟨[], [], [], []⟩

/-- The constraint that an `INSERT` breaks. -/
inductive Violation
  | primaryKey
  | unique
  | foreignKey
  deriving DecidableEq

variable {β γ ρ : Type}

/-! The columns of a key are compared as texts. -/

local instance lawfulText : LawfulBEq Str := inferInstance

local instance lawfulPair : LawfulBEq (Str × Str) := inferInstance

local instance lawfulTriple : LawfulBEq (Str × Str × Str) := inferInstance

/-- A run is inserted once by its id, its result and its idempotency key. -/
def Database.insertRun (db : Database β γ ρ) (row : CapabilityRun) :
    Except Violation (Database β γ ρ) :=
  if row.runId ∈ db.runs.map (·.runId) then .error .primaryKey
  else if row.resultId ∈ db.runs.map (·.resultId) then .error .unique
  else if row.idempotencyKey.any (· ∈ db.runs.filterMap (·.idempotencyKey)) then .error .unique
  else .ok { db with runs := db.runs ++ [row] }

/-- A payload needs its run, and there is one a run. -/
def Database.insertPayload (db : Database β γ ρ) (row : InvocationPayload β γ ρ) :
    Except Violation (Database β γ ρ) :=
  if row.runId ∈ db.payloads.map (·.runId) then .error .primaryKey
  else if row.runId ∉ db.runs.map (·.runId) then .error .foreignKey
  else .ok { db with payloads := db.payloads ++ [row] }

/-- An artifact needs its run, and its id is new within it. -/
def Database.insertArtifact (db : Database β γ ρ) (row : ResultArtifact) :
    Except Violation (Database β γ ρ) :=
  if (row.runId, row.artifactId) ∈ db.artifacts.map (fun a => (a.runId, a.artifactId)) then
    .error .primaryKey
  else if row.runId ∉ db.runs.map (·.runId) then .error .foreignKey
  else .ok { db with artifacts := db.artifacts ++ [row] }

/-- An evidence row needs its run, and no row is written twice. -/
def Database.insertEvidence (db : Database β γ ρ) (row : EvidenceReference) :
    Except Violation (Database β γ ρ) :=
  if (row.runId, row.claim, row.evidenceRef) ∈
      db.evidence.map (fun r => (r.runId, r.claim, r.evidenceRef)) then .error .unique
  else if row.runId ∉ db.runs.map (·.runId) then .error .foreignKey
  else .ok { db with evidence := db.evidence ++ [row] }

/-- What `save_completed_run` is called with, and the time it reads. -/
structure Completed (β γ ρ : Type) where
  request : InvocationRequest β γ
  result : ResultEnvelope ρ
  requestHash : Str
  startedAt : Str
  now : Str

/-- The id of a request of either kind. -/
def requestId : InvocationRequest β γ → Str
  | .invoke id _ _ => id
  | .sharedContractV2 id _ => id

/-- The references of a result with the claims they are made for, once each. -/
def references (result : ResultEnvelope ρ) : List (Str ×ₗ Str) :=
  ((result.evidenceBindings.flatMap fun binding =>
      binding.evidenceRefs.map fun ref => toLex (binding.claim, ref)) ++
    result.provenance.map fun ref => toLex ("provenance".toList, ref)).dedup.insertionSort
      (· ≤ ·)

/-- The row of `runs` written for a completed invocation. -/
def Completed.run (c : Completed β γ ρ) : CapabilityRun where
  runId := c.result.runId
  capability := c.result.capability
  contractId := c.result.contractId
  requestId := requestId c.request
  correlationId := c.result.correlationId
  idempotencyKey := c.request.effectiveIdempotencyKey
  requestHash := c.requestHash
  resultId := c.result.resultId
  status := c.result.status
  terminalState := c.result.terminalState
  outcomeReasonCode := c.result.reasonCode
  startedAt := c.startedAt
  completedAt := c.result.producedAt
  createdAt := c.now
  updatedAt := c.now

/-- The request and the result it is kept with. -/
def Completed.payload (c : Completed β γ ρ) : InvocationPayload β γ ρ :=
  ⟨c.result.runId, c.request, c.result⟩

/-- The row of a candidate. -/
def Completed.artifact (c : Completed β γ ρ) (candidate : PrimaryCandidate) : ResultArtifact where
  runId := c.result.runId
  artifactId := candidate.candidateId
  resultId := c.result.resultId
  artifactType := candidate.candidateArtifact.artifactType
  content := candidate.candidateArtifact.contentRef
  contentHash := candidate.candidateArtifact.contentHash
  emittedAs := candidate.candidateArtifact.emittedAs
  createdAt := c.now

/-- The rows of the evidence, `_insert_evidence`. -/
def Completed.evidence (c : Completed β γ ρ) : List EvidenceReference :=
  (references c.result).map fun reference =>
    { runId := c.result.runId
      resultId := c.result.resultId
      claim := (ofLex reference).1
      evidenceRef := (ofLex reference).2
      createdAt := c.now }

/-- `_insert_artifact`. -/
def Database.insertCandidate (db : Database β γ ρ) (c : Completed β γ ρ) :
    Except Violation (Database β γ ρ) :=
  match c.result.primaryCandidate with
  | none => .ok db
  | some candidate => db.insertArtifact (c.artifact candidate)

/-- The transaction of `save_completed_run`; what fails is rolled back. -/
def Database.transaction (db : Database β γ ρ) (c : Completed β γ ρ) :
    Except Violation (Database β γ ρ) := do
  let db ← db.insertRun c.run
  let db ← db.insertPayload c.payload
  let db ← db.insertCandidate c
  c.evidence.foldlM Database.insertEvidence db

/-- The tables after the transaction, whatever became of it. -/
def Database.save (db : Database β γ ρ) (c : Completed β γ ρ) : Database β γ ρ :=
  match db.transaction c with
  | .ok db' => db'
  | .error _ => db

/-- The tables after some transactions. -/
def Database.after (saves : List (Completed β γ ρ)) : Database β γ ρ :=
  saves.foldl Database.save (.empty β γ ρ)

/-- `capability_runs JOIN invocation_payloads`. -/
def Database.joined (db : Database β γ ρ) : List (CapabilityRun × InvocationPayload β γ ρ) :=
  db.runs.flatMap fun run => (db.payloads.filter (·.runId = run.runId)).map fun row => (run, row)

/-- `get_run`. -/
def Database.getRun (db : Database β γ ρ) (runId : Str) : Option (ResultEnvelope ρ) :=
  (db.joined.find? (·.1.runId = runId)).map (·.2.result)

/-- `get_result`. -/
def Database.getResult (db : Database β γ ρ) (resultId : Str) : Option (ResultEnvelope ρ) :=
  (db.joined.find? (·.1.resultId = resultId)).map (·.2.result)

/-- `get_by_idempotency_key`: the hash of the request, and the result. -/
def Database.getByIdempotencyKey (db : Database β γ ρ) (key : Str) :
    Option (Str × ResultEnvelope ρ) :=
  (db.joined.find? (·.1.idempotencyKey = some key)).map fun row =>
    (row.1.requestHash, row.2.result)

/-- The artifact rows, none when the result has no candidate. -/
def Completed.artifacts (c : Completed β γ ρ) : List ResultArtifact :=
  c.result.primaryCandidate.toList.map c.artifact

/-- The tables of a log. -/
def Database.ofLog (log : List (Completed β γ ρ)) : Database β γ ρ where
  runs := log.map Completed.run
  payloads := log.map Completed.payload
  artifacts := log.flatMap Completed.artifacts
  evidence := log.flatMap Completed.evidence

/-- No two runs of a log share an identity. -/
structure Keyed (log : List (Completed β γ ρ)) : Prop where
  runIds : (log.map (·.result.runId)).Nodup
  resultIds : (log.map (·.result.resultId)).Nodup
  keys : (log.filterMap (·.request.effectiveIdempotencyKey)).Nodup

/-- The identities of a run are not taken. -/
structure Fits (log : List (Completed β γ ρ)) (c : Completed β γ ρ) : Prop where
  runId : c.result.runId ∉ log.map (·.result.runId)
  resultId : c.result.resultId ∉ log.map (·.result.resultId)
  key : ∀ key, c.request.effectiveIdempotencyKey = some key →
    key ∉ log.filterMap (·.request.effectiveIdempotencyKey)

variable {log : List (Completed β γ ρ)} {c : Completed β γ ρ}

theorem keyed_nil : Keyed ([] : List (Completed β γ ρ)) :=
  ⟨List.nodup_nil, List.nodup_nil, List.nodup_nil⟩

theorem nodup_snoc {α : Type} {xs : List α} {x : α} (h : xs.Nodup) (hx : x ∉ xs) :
    (xs ++ [x]).Nodup :=
  (List.perm_append_singleton x xs).nodup_iff.mpr (List.nodup_cons.mpr ⟨hx, h⟩)

/-- A log with one more fitting run is still keyed. -/
theorem Keyed.append (h : Keyed log) (hfits : Fits log c) : Keyed (log ++ [c]) where
  runIds := by
    rw [List.map_append]
    exact nodup_snoc h.runIds hfits.runId
  resultIds := by
    rw [List.map_append]
    exact nodup_snoc h.resultIds hfits.resultId
  keys := by
    rw [List.filterMap_append]
    cases hkey : c.request.effectiveIdempotencyKey with
    | none => simpa [hkey] using h.keys
    | some key =>
        have hone : [c].filterMap (·.request.effectiveIdempotencyKey) = [key] := by
          simp [hkey]
        rw [hone]
        exact nodup_snoc h.keys (hfits.key key hkey)

/-- The references of a result are listed once each. -/
theorem references_nodup (result : ResultEnvelope ρ) : (references result).Nodup :=
  (List.perm_insertionSort _ _).nodup_iff.mpr (List.nodup_dedup _)

theorem evidence_nodup (c : Completed β γ ρ) :
    (c.evidence.map fun row => (row.runId, row.claim, row.evidenceRef)).Nodup := by
  rw [Completed.evidence, List.map_map]
  refine (references_nodup c.result).map fun a b h => ?_
  simp only [Function.comp_apply, Prod.mk.injEq, true_and] at h
  exact ofLex.injective (Prod.ext h.1 h.2)

/-- Evidence of a stored run that is not yet there is inserted whole. -/
theorem foldlM_insertEvidence (rows : List EvidenceReference) (db : Database β γ ρ)
    (hrun : ∀ row ∈ rows, row.runId ∈ db.runs.map (·.runId))
    (hnew : ∀ row ∈ rows, (row.runId, row.claim, row.evidenceRef) ∉
      db.evidence.map fun r => (r.runId, r.claim, r.evidenceRef))
    (honce : (rows.map fun r => (r.runId, r.claim, r.evidenceRef)).Nodup) :
    rows.foldlM Database.insertEvidence db = .ok { db with evidence := db.evidence ++ rows } := by
  induction rows generalizing db with
  | nil =>
      rw [List.append_nil]
      rfl
  | cons row rest ih =>
      have hinsert : db.insertEvidence row = .ok { db with evidence := db.evidence ++ [row] } := by
        rw [Database.insertEvidence, if_neg (hnew row List.mem_cons_self),
          if_neg (not_not.mpr (hrun row List.mem_cons_self))]
      rw [List.map_cons, List.nodup_cons] at honce
      rw [List.foldlM_cons, hinsert]
      change rest.foldlM Database.insertEvidence _ = _
      rw [ih { db with evidence := db.evidence ++ [row] }
        (fun r hr => hrun r (List.mem_cons_of_mem _ hr)) ?_ honce.2]
      · rw [List.append_assoc]
        rfl
      · intro r hr hmem
        rw [List.map_append, List.mem_append, List.map_singleton, List.mem_singleton] at hmem
        rcases hmem with hold | hsame
        · exact hnew r (List.mem_cons_of_mem _ hr) hold
        · exact honce.1 (hsame ▸ List.mem_map_of_mem hr)

theorem runIds_ofLog (log : List (Completed β γ ρ)) :
    (Database.ofLog log).runs.map (·.runId) = log.map (·.result.runId) := by
  rw [Database.ofLog, List.map_map]
  rfl

theorem resultIds_ofLog (log : List (Completed β γ ρ)) :
    (Database.ofLog log).runs.map (·.resultId) = log.map (·.result.resultId) := by
  rw [Database.ofLog, List.map_map]
  rfl

theorem keys_ofLog (log : List (Completed β γ ρ)) :
    (Database.ofLog log).runs.filterMap (·.idempotencyKey) =
      log.filterMap (·.request.effectiveIdempotencyKey) := by
  rw [Database.ofLog, List.filterMap_map]
  rfl

theorem payloadIds_ofLog (log : List (Completed β γ ρ)) :
    (Database.ofLog log).payloads.map (·.runId) = log.map (·.result.runId) := by
  rw [Database.ofLog, List.map_map]
  rfl

/-- The rows of a log beside the columns carry the run's identifier. -/
theorem artifact_runId {row : ResultArtifact} (h : row ∈ (Database.ofLog log).artifacts) :
    row.runId ∈ log.map (·.result.runId) := by
  obtain ⟨c, hc, hrow⟩ := List.mem_flatMap.mp h
  obtain ⟨candidate, -, rfl⟩ := List.mem_map.mp hrow
  exact List.mem_map_of_mem hc

/-- An evidence row belongs to a run of the log. -/
theorem evidence_runId {row : EvidenceReference} (h : row ∈ (Database.ofLog log).evidence) :
    row.runId ∈ log.map (·.result.runId) := by
  obtain ⟨c, hc, hrow⟩ := List.mem_flatMap.mp h
  obtain ⟨reference, -, rfl⟩ := List.mem_map.mp hrow
  exact List.mem_map_of_mem hc

theorem insertPayload_eq_ok {db : Database β γ ρ} {row : InvocationPayload β γ ρ}
    (hnew : row.runId ∉ db.payloads.map (·.runId)) (hstored : row.runId ∈ db.runs.map (·.runId)) :
    db.insertPayload row = .ok { db with payloads := db.payloads ++ [row] } := by
  rw [Database.insertPayload, if_neg hnew, if_neg (not_not.mpr hstored)]

theorem insertCandidate_eq_ok {db : Database β γ ρ} {c : Completed β γ ρ}
    (hnew : ∀ row ∈ db.artifacts, row.runId ≠ c.result.runId)
    (hstored : c.result.runId ∈ db.runs.map (·.runId)) :
    db.insertCandidate c = .ok { db with artifacts := db.artifacts ++ c.artifacts } := by
  rw [Database.insertCandidate, Completed.artifacts]
  cases c.result.primaryCandidate with
  | none =>
      rw [Option.toList_none, List.map_nil, List.append_nil]
  | some candidate =>
      have hfree : (c.result.runId, candidate.candidateId) ∉
          db.artifacts.map fun a => (a.runId, a.artifactId) := by
        intro hmem
        obtain ⟨row, hrow, hsame⟩ := List.mem_map.mp hmem
        exact hnew row hrow (congrArg Prod.fst hsame)
      exact (if_neg hfree).trans (if_neg (not_not.mpr hstored))

theorem bind_of_ok {ε α δ : Type} {x : Except ε α} {a : α} {f : α → Except ε δ}
    (h : x = .ok a) : (x >>= f) = f a := by
  rw [h]
  rfl

/-- A run whose identities are free is added to the log. -/
theorem transaction_of_fits (h : Fits log c) :
    (Database.ofLog log).transaction c = .ok (.ofLog (log ++ [c])) := by
  have hkey : ¬ (c.run.idempotencyKey.any
      (· ∈ (Database.ofLog log).runs.filterMap (·.idempotencyKey))) = true := by
    rw [keys_ofLog]
    cases hkey : c.run.idempotencyKey with
    | none => exact Bool.false_ne_true
    | some key => simpa using h.key key hkey
  have hrun : (Database.ofLog log).insertRun c.run =
      .ok { Database.ofLog log with runs := (Database.ofLog log).runs ++ [c.run] } := by
    rw [Database.insertRun, if_neg (runIds_ofLog log ▸ h.runId),
      if_neg (resultIds_ofLog log ▸ h.resultId), if_neg hkey]
  have hstored : c.result.runId ∈ ((Database.ofLog log).runs ++ [c.run]).map (·.runId) :=
    List.mem_map_of_mem (List.mem_append_right _ (List.mem_singleton.mpr rfl))
  have hartifacts : ∀ row ∈ (Database.ofLog log).artifacts, row.runId ≠ c.result.runId :=
    fun row hrow hsame => h.runId (hsame ▸ artifact_runId hrow)
  have hevidence : ∀ row ∈ c.evidence, (row.runId, row.claim, row.evidenceRef) ∉
      (Database.ofLog log).evidence.map fun r => (r.runId, r.claim, r.evidenceRef) := by
    intro row hrow hmem
    obtain ⟨reference, -, rfl⟩ := List.mem_map.mp hrow
    obtain ⟨old, hold, hsame⟩ := List.mem_map.mp hmem
    have hid : old.runId = c.result.runId := congrArg Prod.fst hsame
    exact h.runId (hid ▸ evidence_runId hold)
  have hown : ∀ row ∈ c.evidence, row.runId = c.result.runId := by
    intro row hrow
    obtain ⟨reference, -, rfl⟩ := List.mem_map.mp hrow
    rfl
  refine (bind_of_ok hrun).trans ?_
  refine (bind_of_ok (insertPayload_eq_ok (payloadIds_ofLog log ▸ h.runId) hstored)).trans ?_
  refine (bind_of_ok (insertCandidate_eq_ok ?_ ?_)).trans ?_
  · exact hartifacts
  · exact hstored
  refine (foldlM_insertEvidence _ _ ?_ ?_ (evidence_nodup c)).trans ?_
  · intro row hrow
    rw [hown row hrow]
    exact hstored
  · exact hevidence
  simp only [Database.ofLog, List.map_append, List.map_cons, List.map_nil, List.flatMap_append,
    List.flatMap_singleton]

/-- A run one of whose identities is taken is refused. -/
theorem transaction_of_not_fits (h : ¬ Fits log c) :
    ∃ violation, (Database.ofLog log).transaction c = .error violation := by
  have hrefused : ∃ violation, (Database.ofLog log).insertRun c.run = .error violation := by
    by_contra hnone
    rw [Database.insertRun, runIds_ofLog, resultIds_ofLog, keys_ofLog] at hnone
    split_ifs at hnone with hrunId hresultId hkey
    · exact hnone ⟨_, rfl⟩
    · exact hnone ⟨_, rfl⟩
    · exact hnone ⟨_, rfl⟩
    · refine h ⟨hrunId, hresultId, fun key hown hmem => hkey ?_⟩
      have hcolumn : c.run.idempotencyKey = some key := hown
      rw [hcolumn]
      exact decide_eq_true hmem
  obtain ⟨violation, hviolation⟩ := hrefused
  exact ⟨violation, by rw [Database.transaction, hviolation]; rfl⟩

/-- What a transaction makes of the tables of a log. -/
theorem save_cases (log : List (Completed β γ ρ)) (c : Completed β γ ρ) :
    (Fits log c ∧ (Database.ofLog log).save c = .ofLog (log ++ [c])) ∨
      (¬ Fits log c ∧ (Database.ofLog log).save c = .ofLog log) := by
  by_cases h : Fits log c
  · exact .inl ⟨h, by rw [Database.save, transaction_of_fits h]⟩
  · obtain ⟨violation, hviolation⟩ := transaction_of_not_fits h
    exact .inr ⟨h, by rw [Database.save, hviolation]⟩

/-- The tables are those of a log, to which a transaction adds a run or nothing. -/
theorem exists_log_save (hkeyed : Keyed log) (c : Completed β γ ρ) :
    ∃ more, Keyed (log ++ more) ∧ (∀ c' ∈ more, c' = c) ∧
      (Database.ofLog log).save c = .ofLog (log ++ more) := by
  rcases save_cases log c with ⟨hfits, hsave⟩ | ⟨-, hsave⟩
  · exact ⟨[c], hkeyed.append hfits, fun c' hc' => List.mem_singleton.mp hc', hsave⟩
  · exact ⟨[], by rwa [List.append_nil], fun c' hc' => absurd hc' List.not_mem_nil,
      by rw [hsave, List.append_nil]⟩

/-- After any saves the database is that of a longer keyed log. -/
theorem exists_log_saves (hkeyed : Keyed log) (saves : List (Completed β γ ρ)) :
    ∃ more, Keyed (log ++ more) ∧ (∀ c ∈ more, c ∈ saves) ∧
      saves.foldl Database.save (.ofLog log) = .ofLog (log ++ more) := by
  induction saves generalizing log with
  | nil => exact ⟨[], by rwa [List.append_nil], fun c hc => hc, by rw [List.append_nil]; rfl⟩
  | cons c rest ih =>
      obtain ⟨more, hmore, honly, hsave⟩ := exists_log_save hkeyed c
      obtain ⟨others, hothers, hrest, hfold⟩ := ih hmore
      refine ⟨more ++ others, by rwa [← List.append_assoc], fun c' hc' => ?_, ?_⟩
      · rcases List.mem_append.mp hc' with hc' | hc'
        · exact honly c' hc' ▸ List.mem_cons_self
        · exact List.mem_cons_of_mem _ (hrest c' hc')
      · rw [List.foldl_cons, hsave, hfold, List.append_assoc]

/-- Whatever was saved, the tables are those of a log of runs among the saves. -/
theorem exists_log_after (saves : List (Completed β γ ρ)) :
    ∃ log, Keyed log ∧ (∀ c ∈ log, c ∈ saves) ∧ Database.after saves = .ofLog log := by
  obtain ⟨log, hkeyed, hamong, hafter⟩ := exists_log_saves keyed_nil saves
  exact ⟨log, hkeyed, hamong, hafter⟩

/-- Under distinct keys a key selects one row. -/
theorem filter_eq_singleton {α : Type} {key : α → Str} {xs : List α} (hkeys : (xs.map key).Nodup)
    {x : α} (hx : x ∈ xs) : xs.filter (fun y => decide (key y = key x)) = [x] := by
  induction xs with
  | nil => cases hx
  | cons a rest ih =>
      rw [List.map_cons, List.nodup_cons] at hkeys
      rcases List.mem_cons.mp hx with rfl | hrest
      · have hnone : rest.filter (fun y => decide (key y = key x)) = [] := by
          refine List.filter_eq_nil_iff.mpr fun y hy hsame => ?_
          exact hkeys.1 (of_decide_eq_true hsame ▸ List.mem_map_of_mem hy)
        rw [List.filter_cons, if_pos (decide_eq_true rfl), hnone]
      · have hdiffers : key a ≠ key x := fun hsame =>
          hkeys.1 (hsame ▸ List.mem_map_of_mem hrest)
        rw [List.filter_cons_of_neg (by simpa using hdiffers), ih hkeys.2 hrest]

/-- Every run of a log is joined with its own request and result. -/
theorem joined_ofLog (hkeyed : Keyed log) :
    (Database.ofLog log).joined = log.map fun c => (c.run, c.payload) := by
  have hown : ∀ c ∈ log, ((Database.ofLog log).payloads.filter (·.runId = c.run.runId)) =
      [c.payload] := by
    intro c hc
    have hone := filter_eq_singleton hkeyed.runIds hc
    rw [Database.ofLog, List.filter_map]
    exact congrArg (List.map Completed.payload) hone
  rw [Database.joined, Database.ofLog, List.flatMap_map]
  calc log.flatMap _ = log.flatMap fun c => [(c.run, c.payload)] := by
        refine List.flatMap_congr fun c hc => ?_
        exact congrArg (List.map _) (hown c hc)
    _ = log.map fun c => (c.run, c.payload) := List.map_eq_flatMap.symm

theorem find?_eq_some_of_unique {α : Type} {p : α → Bool} {xs : List α} {x : α} (hx : x ∈ xs)
    (hp : p x = true) (hunique : ∀ y ∈ xs, p y = true → y = x) : xs.find? p = some x := by
  cases hfound : xs.find? p with
  | none => exact absurd hp (List.find?_eq_none.mp hfound x hx)
  | some y => rw [hunique y (List.mem_of_find?_eq_some hfound) (List.find?_some hfound)]

/-- A logged run is read under its run identifier. -/
theorem getRun_of_mem (hkeyed : Keyed log) (hc : c ∈ log) :
    (Database.ofLog log).getRun c.result.runId = some c.result := by
  have hfound : (log.map fun c => (c.run, c.payload)).find?
      (fun row => decide (row.1.runId = c.result.runId)) = some (c.run, c.payload) := by
    refine find?_eq_some_of_unique (List.mem_map_of_mem hc) (decide_eq_true rfl) ?_
    rintro row hrow hsame
    obtain ⟨c', hc', rfl⟩ := List.mem_map.mp hrow
    rw [List.inj_on_of_nodup_map hkeyed.runIds hc' hc (of_decide_eq_true hsame)]
  rw [Database.getRun, joined_ofLog hkeyed, hfound]
  rfl

/-- A logged run is read under its result identifier. -/
theorem getResult_of_mem (hkeyed : Keyed log) (hc : c ∈ log) :
    (Database.ofLog log).getResult c.result.resultId = some c.result := by
  have hfound : (log.map fun c => (c.run, c.payload)).find?
      (fun row => decide (row.1.resultId = c.result.resultId)) = some (c.run, c.payload) := by
    refine find?_eq_some_of_unique (List.mem_map_of_mem hc) (decide_eq_true rfl) ?_
    rintro row hrow hsame
    obtain ⟨c', hc', rfl⟩ := List.mem_map.mp hrow
    rw [List.inj_on_of_nodup_map hkeyed.resultIds hc' hc (of_decide_eq_true hsame)]
  rw [Database.getResult, joined_ofLog hkeyed, hfound]
  rfl

/-- Runs of a log that carry one key are one run. -/
theorem Keyed.eq_of_key (hkeyed : Keyed log) {c' : Completed β γ ρ} (hc : c ∈ log)
    (hc' : c' ∈ log) {key : Str} (hkey : c.request.effectiveIdempotencyKey = some key)
    (hkey' : c'.request.effectiveIdempotencyKey = some key) : c = c' := by
  have hapart := List.pairwise_filterMap.mp hkeyed.keys
  have hsymm : Std.Symm fun a a' : Completed β γ ρ =>
      ∀ k, a.request.effectiveIdempotencyKey = some k →
        ∀ k', a'.request.effectiveIdempotencyKey = some k' → k ≠ k' :=
    ⟨fun a a' h k hk k' hk' => (h k' hk' k hk).symm⟩
  by_contra hne
  exact hapart.forall hc hc' hne key hkey key hkey' rfl

/-- A logged run is read under its idempotency key. -/
theorem getByIdempotencyKey_of_mem (hkeyed : Keyed log) (hc : c ∈ log) {key : Str}
    (hkey : c.request.effectiveIdempotencyKey = some key) :
    (Database.ofLog log).getByIdempotencyKey key = some (c.requestHash, c.result) := by
  have hfound : (log.map fun c => (c.run, c.payload)).find?
      (fun row => decide (row.1.idempotencyKey = some key)) = some (c.run, c.payload) := by
    refine find?_eq_some_of_unique (List.mem_map_of_mem hc) (decide_eq_true hkey) ?_
    rintro row hrow hsame
    obtain ⟨c', hc', rfl⟩ := List.mem_map.mp hrow
    rw [hkeyed.eq_of_key hc' hc (of_decide_eq_true hsame) hkey]
  rw [Database.getByIdempotencyKey, joined_ofLog hkeyed, hfound]
  rfl

/-- What is read under a key was logged with it. -/
theorem mem_of_getByIdempotencyKey (hkeyed : Keyed log) {key hash : Str}
    {result : ResultEnvelope ρ}
    (h : (Database.ofLog log).getByIdempotencyKey key = some (hash, result)) :
    ∃ c ∈ log, c.request.effectiveIdempotencyKey = some key ∧ c.requestHash = hash ∧
      c.result = result := by
  rw [Database.getByIdempotencyKey, joined_ofLog hkeyed] at h
  obtain ⟨row, hrow, hpair⟩ := Option.map_eq_some_iff.mp h
  have hkey : row.1.idempotencyKey = some key := by simpa using List.find?_some hrow
  obtain ⟨c, hc, rfl⟩ := List.mem_map.mp (List.mem_of_find?_eq_some hrow)
  obtain ⟨rfl, rfl⟩ := Prod.mk.inj hpair
  exact ⟨c, hc, hkey, rfl, rfl⟩

/-- What is read under a run identifier was logged with it. -/
theorem mem_of_getRun (hkeyed : Keyed log) {runId : Str} {result : ResultEnvelope ρ}
    (h : (Database.ofLog log).getRun runId = some result) :
    ∃ c ∈ log, c.result = result ∧ result.runId = runId := by
  rw [Database.getRun, joined_ofLog hkeyed] at h
  obtain ⟨row, hrow, rfl⟩ := Option.map_eq_some_iff.mp h
  have hid : row.1.runId = runId := by simpa using List.find?_some hrow
  obtain ⟨c, hc, rfl⟩ := List.mem_map.mp (List.mem_of_find?_eq_some hrow)
  exact ⟨c, hc, rfl, hid⟩

end RunStore
