import ControlTranslation.GoPublication
import ControlTranslation.GoResults

/-!
# What a completion describes

The completion of a run gives the digest of the structured result under a prefix, and
the row it points to carries the bare digest of the whole envelope.  The two texts begin
differently: the structured result with its contract, the canonical bytes with the
capability, whose key sorts first.  So nothing that is read by a completion verifies
against it, however a run came about.
-/

namespace GoLifecycle

open PyText JsonValue GoContracts Table

/-- Members whose first key comes before the others are sorted behind it. -/
theorem sortMembers_cons {first : Str × JsonValue} {rest : Members}
    (h : ∀ m ∈ rest, textLe first.1 m.1 = true) :
    GoJson.sortMembers (first :: rest) = first :: GoJson.sortMembers rest := by
  unfold GoJson.sortMembers
  rw [List.insertionSort_cons]
  cases hsorted : rest.insertionSort fun m m' => textLe m.1 m'.1 = true with
  | nil => rfl
  | cons second others =>
      have hmem : second ∈ rest := by
        rw [← List.mem_insertionSort (fun m m' : Str × JsonValue => textLe m.1 m'.1 = true),
          hsorted]
        exact List.mem_cons_self
      exact List.orderedInsert_cons_of_le _ others (h second hmem)

theorem documentMembers_eq (float : Str → Str) (members : Members) :
    documentMembers float members = members.map fun m => (m.1, document float m.2) := by
  induction members with
  | nil => rfl
  | cons m rest ih => rw [documentMembers, ih, List.map_cons]

/-- The names of an envelope's members. -/
def envelopeNames : List Str :=
  ["capability", "contract_id", "run_id", "result_id", "status", "terminal_state", "request_id",
    "correlation_id", "result_ref", "upstream_result_refs", "structured_result", "prose",
    "reference_bundle", "provenance", "confidence", "warnings", "trace", "inference"].map
      String.toList

theorem names_members (e : ResultEnvelope) : e.members.map (·.1) = envelopeNames := rfl

/-- No member of an envelope describes the envelope itself. -/
theorem filter_members (e : ResultEnvelope) :
    e.members.filter (fun m =>
      !(m.1 == "content_sha256".toList || m.1 == "size_bytes".toList)) = e.members := by
  refine List.filter_eq_self.mpr fun m hm => ?_
  have hnames : envelopeNames.all (fun name =>
      !(name == "content_sha256".toList || name == "size_bytes".toList)) = true := by decide
  refine List.all_eq_true.mp hnames m.1 ?_
  rw [← names_members e]
  exact List.mem_map_of_mem hm

/-- The capability's key sorts first. -/
theorem capability_first (e : ResultEnvelope) :
    ∀ m ∈ e.members.tail, textLe "capability".toList m.1 = true := by
  have hnames : envelopeNames.tail.all (textLe "capability".toList) = true := by decide
  intro m hm
  refine List.all_eq_true.mp hnames m.1 ?_
  rw [← names_members e, ← List.map_tail]
  exact List.mem_map_of_mem hm

/-- An object's text begins with its first key. -/
theorem print_object_cons (escape : Char → Str) (name : Str) (value : JsonValue)
    (rest : Members) :
    print escape (.object ((name, value) :: rest)) =
      '\x7b' :: '"' :: name.flatMap escape ++ '"' :: ':' :: (print escape value ++
        printMembers escape rest) := by
  simp only [print, printText, List.cons_append, List.append_assoc, List.nil_append]

/-- The canonical bytes begin with the capability. -/
theorem canonicalResultBytes_head (float : Str → Str) (e : ResultEnvelope) :
    ∃ rest, canonicalResultBytes float e = "\x7b\"capability".toList ++ rest := by
  have hmembers : e.members =
      GoContracts.field "capability" (.text e.capability) :: e.members.tail := rfl
  have hsorted : GoJson.sortMembers (documentMembers float e.members) =
      GoContracts.field "capability" (.text e.capability) ::
        GoJson.sortMembers (documentMembers float e.members.tail) := by
    rw [hmembers, List.tail_cons]
    refine sortMembers_cons fun m hm => ?_
    rw [documentMembers_eq] at hm
    obtain ⟨m', hm', rfl⟩ := List.mem_map.mp hm
    exact capability_first e m' hm'
  have hname : "capability".toList.flatMap GoText.encodeChar = "capability".toList := by decide
  have htext : canonicalResultBytes float e = '\x7b' :: '"' :: "capability".toList ++
      '"' :: ':' :: (print GoText.encodeChar (.text e.capability) ++
        printMembers GoText.encodeChar
          (GoJson.sortMembers (documentMembers float e.members.tail))) := by
    unfold canonicalResultBytes
    rw [filter_members, document, hsorted, GoContracts.field, print_object_cons, hname]
  exact ⟨_, htext⟩

/-- The structured result begins with its contract. -/
theorem structuredBytes_head (e : ResultEnvelope) :
    ∃ rest, structuredBytes e = "\x7b\"contract_id".toList ++ rest := by
  have hname : "contract_id".toList.flatMap goEscapeChar = "contract_id".toList := by decide
  unfold structuredBytes marshal ControlTranslationResult.encode
  rw [GoContracts.field, print_object_cons, hname]
  exact ⟨_, rfl⟩

/-- A text as the characters of its bytes. -/
def octets (s : Str) : Str := (s.flatMap utf8).map Char.ofNat

theorem octets_append (s s' : Str) : octets (s ++ s') = octets s ++ octets s' := by
  unfold octets
  rw [List.flatMap_append, List.map_append]

/-- **Two texts.**  No structured result has the bytes of an envelope. -/
theorem structured_ne_canonical (float : Str → Str) (e e' : ResultEnvelope) :
    octets (structuredBytes e) ≠ octets (canonicalResultBytes float e') := by
  obtain ⟨rest, hstructured⟩ := structuredBytes_head e
  obtain ⟨rest', hcanonical⟩ := canonicalResultBytes_head float e'
  have hhead : octets "\x7b\"contract_id".toList = "\x7b\"contract_id".toList := by decide
  have hhead' : octets "\x7b\"capability".toList = "\x7b\"capability".toList := by decide
  rw [hstructured, hcanonical, octets_append, octets_append, hhead, hhead']
  intro heq
  have hthird := congrArg (·[3]?) heq
  cases hthird

/-- What an invocation makes of a result. -/
def Envelope.ofResult (float : Str → Str) (e : ResultEnvelope) : Envelope :=
  { resultId := e.resultId
    runId := e.runId
    terminalState := e.terminalState
    evidenceRefs := e.structuredResult.evidenceBindings.flatMap (·.evidenceRefs)
    structured := octets (structuredBytes e)
    content := octets (canonicalResultBytes float e) }

/-- An envelope with the two texts of one result. -/
def Computed (float : Str → Str) (result : Envelope) : Prop :=
  ∃ e, result = .ofResult float e

/-- Invocations make the two texts of what they return. -/
def Event.computes (float : Str → Str) : Event → Prop
  | .invoke _ invocation => Computed float (invokeEnvelope invocation)
  | _ => True

/-- The result a worker holds. -/
def Phase.result : Phase → Option Envelope
  | .translated _ result | .checked _ result | .published _ result => some result
  | _ => none

/-- A completion gives the row it points to: its digest, bare or under the prefix, its
size, its run and its identifier. -/
structure Describes (c : Completion) (row : ResultRow) : Prop where
  digest : c.contentSha256 = row.resultSha256 ∨
    c.contentSha256 = "sha256:".toList ++ row.resultSha256
  size : c.sizeBytes = row.resultSizeBytes
  run : c.runId = row.runId
  identity : c.resultId = row.resultId

section

variable {sha256 float : Str → Str} {settings : Settings}

/-- The digest of a completion is of a structured result. -/
def StructuredDigest (sha256 : Str → Str) (r : Row) : Prop :=
  ∀ c, r.completion = some c →
    ∃ e, c.contentSha256 = "sha256:".toList ++ sha256 (octets (structuredBytes e))

/-- The digest of a row is of canonical bytes. -/
def CanonicalDigest (sha256 float : Str → Str) (row : ResultRow) : Prop :=
  ∃ e, row.resultSha256 = sha256 (octets (canonicalResultBytes float e))

/-- What is held and stored is computed. -/
structure Digested (sha256 float : Str → Str) (w : World) : Prop where
  held : ∀ worker ∈ w.workers, ∀ result, worker.phase.result = some result → Computed float result
  stored : ∀ row ∈ w.results, CanonicalDigest sha256 float row
  completed : ∀ r ∈ w.runs, StructuredDigest sha256 r

/-- Moving a worker on keeps the invariant when its result is a computed one. -/
theorem Digested.move {w : World} (h : Digested sha256 float w) (index : Nat) (worker : Worker)
    (phase : Phase) (hphase : ∀ result, phase.result = some result → Computed float result) :
    Digested sha256 float (w.move index worker phase) := by
  refine ⟨fun worker' hworker' result hresult => ?_, h.stored, h.completed⟩
  rcases List.mem_or_eq_of_mem_set hworker' with hworker | rfl
  · exact h.held worker' hworker result hresult
  · exact hphase result hresult

/-- A step of the queue keeps it when the rows do. -/
theorem Digested.queue {w : World} (h : Digested sha256 float w) {runs : List Row}
    (hruns : ∀ r ∈ runs, StructuredDigest sha256 r) :
    Digested sha256 float { w with runs := runs } :=
  ⟨h.held, h.stored, hruns⟩

/-- An update that leaves the completions as they are. -/
theorem structured_update {u : Update Row} (hkeeps : ∀ r, (u.assign r).completion = r.completion)
    {runs : List Row} (h : ∀ r ∈ runs, StructuredDigest sha256 r) :
    ∀ r ∈ u.run runs, StructuredDigest sha256 r := by
  intro r' hr' c hc
  rcases Update.mem_run hr' with hr | ⟨r, hr, -, rfl⟩
  · exact h r' hr c hc
  · exact h r hr c ((hkeeps r).symm.trans hc)

theorem structured_complete {runId workerId terminalState resultId : Str} {completion : Completion}
    {now : Int} {runs : List Row} (h : ∀ r ∈ runs, StructuredDigest sha256 r)
    (hnew : ∃ e, completion.contentSha256 =
      "sha256:".toList ++ sha256 (octets (structuredBytes e))) :
    ∀ r ∈ completeLifecycleRun runId workerId terminalState resultId completion now runs,
      StructuredDigest sha256 r := by
  unfold completeLifecycleRun
  dsimp only
  split_ifs
  · exact h
  · intro r' hr' c hc
    rcases Update.mem_run hr' with hr | ⟨r, hr, -, rfl⟩
    · exact h r' hr c hc
    · obtain rfl := Option.some.inj hc
      exact hnew

theorem Digested.merge {w : World} (h : Digested sha256 float w) {run : Claimed}
    {result : Envelope} (hresult : Computed float result) :
    ∀ row ∈ merge (resultRow sha256 run result) w.results, CanonicalDigest sha256 float row := by
  intro row hrow
  rcases mem_merge hrow with hrow | rfl
  · exact h.stored row hrow
  · obtain ⟨e, rfl⟩ := hresult
    exact ⟨e, by simp only [resultRow, Envelope.ofResult]⟩

/-- **One step.**  What is held and stored stays computed. -/
theorem Digested.step {w : World} (h : Digested sha256 float w) {event : Event}
    (hcomputes : event.computes float) : Digested sha256 float (w.step sha256 settings event) := by
  have hworker : ∀ (index : Nat) (step : Worker → World),
      (∀ worker ∈ w.workers, Digested sha256 float (step worker)) →
      Digested sha256 float (w.withWorker index step) := by
    intro index step hstep
    rcases withWorker_cases w index step with hsame | ⟨worker, hget, hmoved⟩
    · rw [hsame]
      exact h
    · rw [hmoved]
      exact hstep worker (List.mem_of_getElem? hget)
  cases event with
  | submit submission now =>
      refine h.queue fun r hr => ?_
      unfold createLifecycleRun at hr
      split_ifs at hr
      · exact h.completed r hr
      · rcases List.mem_append.mp hr with hr | hr
        · exact h.completed r hr
        · obtain rfl := List.mem_singleton.mp hr
          exact fun c hc => by cases hc
  | cancel runId now => exact h.queue (structured_update (fun _ => rfl) h.completed)
  | heartbeat runId workerId now => exact h.queue (structured_update (fun _ => rfl) h.completed)
  | start workerId =>
      dsimp only [World.step]
      split_ifs
      · exact h
      · refine ⟨fun worker hmem result hresult => ?_, h.stored, h.completed⟩
        rcases List.mem_append.mp hmem with hmem | hmem
        · exact h.held worker hmem result hresult
        · obtain rfl := List.mem_singleton.mp hmem
          cases hresult
  | claim index now =>
      refine hworker index _ fun worker _ => ?_
      split
      · unfold World.claimStep
        refine (h.move index worker _ fun result hresult => ?_).queue ?_
        · split_ifs at hresult <;> cases hresult
        · unfold claimNextQueuedRun
          split
          · exact h.completed
          · exact structured_update (fun _ => rfl) h.completed
      · exact h
  | read index =>
      refine hworker index _ fun worker _ => ?_
      split
      · unfold World.readStep
        split <;> exact h.move index worker _ fun _ hresult => by cases hresult
      · exact h
  | invoke index invocation =>
      refine hworker index _ fun worker _ => ?_
      split
      · rename_i run hphase
        unfold World.invokeStep
        split_ifs
        · exact h
        · have hmoved := h.move index worker (.translated run (invokeEnvelope invocation))
            fun result hresult => Option.some.inj hresult ▸ hcomputes
          exact ⟨hmoved.held, hmoved.stored, hmoved.completed⟩
      · exact h
  | check index readable =>
      refine hworker index _ fun worker hmem => ?_
      split
      · rename_i run result hphase
        unfold World.checkStep
        split_ifs
        · exact h.move index worker _ fun _ hresult => by cases hresult
        · refine h.move index worker _ fun held hheld => h.held worker hmem held ?_
          rw [hphase]
          exact hheld
      · exact h
  | save index outcome =>
      refine hworker index _ fun worker hmem => ?_
      split
      · rename_i run result hphase
        have hresult : Computed float result := h.held worker hmem result (by rw [hphase]; rfl)
        cases outcome with
        | answered =>
            have hmoved := h.move index worker (if verified (resultRow sha256 run result)
              (GoLifecycle.merge (resultRow sha256 run result) w.results) then
                .published run result else .unpublished run) fun held hheld => by
              split_ifs at hheld
              · exact Option.some.inj hheld ▸ hresult
              · cases hheld
            exact ⟨hmoved.held, h.merge hresult, hmoved.completed⟩
        | unanswered =>
            have hmoved := h.move index worker (.unpublished run)
              fun _ hheld => by cases hheld
            exact ⟨hmoved.held, h.merge hresult, hmoved.completed⟩
        | refused => exact h.move index worker _ fun _ hheld => by cases hheld
      · exact h
  | complete index now =>
      refine hworker index _ fun worker hmem => ?_
      split
      · rename_i run result hphase
        obtain ⟨e, rfl⟩ : Computed float result := h.held worker hmem result (by rw [hphase]; rfl)
        unfold World.completeStep
        refine (h.move index worker _ fun _ hheld => by cases hheld).queue ?_
        exact structured_complete h.completed ⟨e, rfl⟩
      · exact h
  | report index now =>
      refine hworker index _ fun worker _ => ?_
      split
      · unfold World.reportStep
        refine (h.move index worker _ fun _ hheld => by cases hheld).queue ?_
        exact structured_update (fun _ => rfl) h.completed
      · exact h
  | giveUp index =>
      refine hworker index _ fun worker _ => ?_
      split
      · exact h
      · exact h.move index worker _ fun _ hheld => by cases hheld
  | crash index =>
      exact hworker index _ fun worker _ => h.move index worker _ fun _ hheld => by cases hheld

/-- Every run whose invocations compute their results keeps the two digests apart. -/
theorem digested_run {events : List Event}
    (h : Always sha256 settings (fun _ event => event.computes float) events World.empty) :
    Digested sha256 float (World.empty.run sha256 settings events) := by
  refine h.invariant (fun _ _ hcomputes hw => hw.step hcomputes) ⟨?_, ?_, ?_⟩
  · exact fun _ hworker => absurd hworker List.not_mem_nil
  · exact fun _ hrow => absurd hrow List.not_mem_nil
  · exact fun _ hr => absurd hr List.not_mem_nil

/-- No digest of a completion is the digest of a row, with or without the prefix. -/
theorem digest_differs (hsha : Function.Injective sha256) (hhex : ∀ t, ':' ∉ sha256 t) {r : Row}
    (hr : StructuredDigest sha256 r) {c : Completion} (hc : r.completion = some c)
    {row : ResultRow} (hrow : CanonicalDigest sha256 float row) :
    c.contentSha256 ≠ row.resultSha256 ∧
      c.contentSha256 ≠ "sha256:".toList ++ row.resultSha256 := by
  obtain ⟨e, hcompletion⟩ := hr c hc
  obtain ⟨e', hstored⟩ := hrow
  rw [hcompletion, hstored]
  constructor
  · intro heq
    refine hhex (octets (canonicalResultBytes float e')) ?_
    rw [← heq]
    exact List.mem_append_left _ (by decide)
  · intro heq
    have hdigest := List.append_cancel_left heq
    exact structured_ne_canonical float e e' (hsha hdigest)

/-- **Completions.**  Nothing a worker completes describes a row of the results table,
whether digests are compared bare or under the prefix. -/
theorem completions_describe_nothing (hsha : Function.Injective sha256)
    (hhex : ∀ t, ':' ∉ sha256 t) (events : List Event)
    (h : Always sha256 settings (fun _ event => event.computes float) events World.empty) :
    ∀ r ∈ (World.empty.run sha256 settings events).runs, ∀ c, r.completion = some c →
      ∀ row ∈ (World.empty.run sha256 settings events).results, ¬ Describes c row := by
  intro r hr c hc row hrow hdescribes
  have hdigested := digested_run h
  have hdiffers := digest_differs hsha hhex (hdigested.completed r hr) hc
    (hdigested.stored row hrow)
  exact hdescribes.digest.elim hdiffers.1 hdiffers.2

end

/-- A worker's own row is found again. -/
theorem verified_merge {row : ResultRow} {results : List ResultRow}
    (h : ∀ other ∈ results, other.resultId ≠ row.resultId) :
    verified row (merge row results) = true := by
  have hfind : (results ++ [row]).find? (·.resultId == row.resultId) = some row := by
    rw [List.find?_append, List.find?_eq_none.mpr fun other hother heq =>
      h other hother (eq_of_beq heq)]
    simp
  unfold verified
  rw [merge_of_fresh h, hfind]
  simp

/-- A result with short texts. -/
def plainResult : ResultEnvelope :=
  { capability := "control-translation".toList, contractId := ['c']
    runId := List.replicate 36 '0', resultId := (invokeEnvelope (plainInvocation '0')).resultId
    status := ['s'], terminalState := ['e'], requestId := none, correlationId := ['i']
    resultRef := ⟨['s'], ['t'], ['r'], ['h']⟩, upstreamResultRefs := none
    structuredResult :=
      { contractId := ['c'], resultId := ['r'], producedAt := ['t'], subject := ⟨[], [], []⟩
        inputBindings := ⟨[], [], false, none, [], []⟩, terminalState := ['e']
        outcomeReason := ⟨[], []⟩, proofLoopQualification := none, bypassCounterexample := none
        primaryCandidate := none, evidenceBindings := [], proseSummary := [] }
    prose := [], referenceBundle := [], provenance := [], confidence := [], warnings := []
    trace := [], inference := [] }

/-- The invocation that returns it. -/
def computedInvocation : Invocation :=
  { plainInvocation '0' with
    structured := octets (structuredBytes plainResult)
    content := octets (canonicalResultBytes id plainResult) }

/-- A run that is submitted, claimed, translated, written and completed. -/
def completedAttempt : List Event :=
  [.submit plainSubmission 0, .start ['w'], .claim 0 1, .read 0, .invoke 0 computedInvocation,
    .check 0 true, .save 0 .answered, .complete 0 3]

/-- The attempt of the example computes its result. -/
theorem computes_completedAttempt (sha256 : Str → Str) (settings : Settings) :
    Always sha256 settings (fun _ event => event.computes id) completedAttempt World.empty :=
  ⟨trivial, trivial, trivial, trivial, ⟨plainResult, rfl⟩, trivial, trivial, trivial, trivial⟩

theorem completeLifecycleRun_single {runId workerId terminalState resultId : Str}
    {completion : Completion} {now : Int} {r : Row}
    (happlies : (complete runId workerId terminalState resultId completion now).applies r = true) :
    completeLifecycleRun runId workerId terminalState resultId completion now [r] =
      [(complete runId workerId terminalState resultId completion now).assign r] := by
  unfold completeLifecycleRun
  simp only [List.any_cons, List.any_nil, happlies, Bool.not_true, Bool.false_and, Bool.or_false,
    Bool.and_false, Bool.false_eq_true, if_false, Update.run, Update.on, List.map_cons,
    List.map_nil, if_true]

/-- The run is completed, and its row is in the table. -/
theorem completedAttempt_run (sha256 : Str → Str) :
    ∃ r, (World.empty.run sha256 .defaults completedAttempt).runs = [r] ∧
      r.completion = some (canonicalCompletion sha256 ⟨['r'], ['q'], ['c'], 1, 0⟩
        (.ofResult id plainResult) 3) ∧
      (World.empty.run sha256 .defaults completedAttempt).results =
        [resultRow sha256 ⟨['r'], ['q'], ['c'], 1, 0⟩ (.ofResult id plainResult)] := by
  let run : Claimed := ⟨['r'], ['q'], ['c'], 1, 0⟩
  let result : Envelope := invokeEnvelope computedInvocation
  have hresult : result = .ofResult id plainResult := rfl
  have hverified : verified (resultRow sha256 run result)
      (merge (resultRow sha256 run result) []) = true :=
    verified_merge fun _ hother => absurd hother List.not_mem_nil
  have hchecked : ∃ w : World, World.empty.run sha256 .defaults (completedAttempt.take 6) = w ∧
      w.workers = [⟨['w'], .checked run result⟩] ∧ w.results = [] ∧
      ∃ r, w.runs = [r] ∧ r.runId = ['r'] ∧ r.workerId = some ['w'] :=
    ⟨_, rfl, rfl, rfl, _, rfl, rfl, rfl⟩
  obtain ⟨w, hw, hworkers, hresults, r, hruns, hid, hheld⟩ := hchecked
  have hsplit : completedAttempt = completedAttempt.take 6 ++ [.save 0 .answered, .complete 0 3] :=
    rfl
  rw [hsplit, run_append, hw, ← hresult]
  have hsaved : w.step sha256 .defaults (.save 0 .answered) =
      { w.move 0 ⟨['w'], .checked run result⟩ (.published run result) with
        results := merge (resultRow sha256 run result) [] } := by
    simp only [World.step, World.withWorker, hworkers, List.getElem?_cons_zero, World.saveStep,
      hresults, hverified, if_true]
  have hrun : w.run sha256 .defaults [.save 0 .answered, .complete 0 3] =
      (w.step sha256 .defaults (.save 0 .answered)).step sha256 .defaults (.complete 0 3) := rfl
  have happlies : (complete ['r'] ['w'] result.terminalState result.resultId
      (canonicalCompletion sha256 run result 3) 3).applies r = true := by
    simp [complete, hid, hheld]
  rw [hrun, hsaved]
  simp only [World.step, World.withWorker, World.move, hworkers, List.set_cons_zero,
    List.getElem?_cons_zero, World.completeStep, hruns]
  refine ⟨_, completeLifecycleRun_single happlies, rfl, rfl⟩

/-- A completed run and its row: the completion has the digest of the structured result,
the row that of the whole. -/
theorem completions_describe_nothing_plain :
    ¬ ∀ r ∈ (World.empty.run id .defaults completedAttempt).runs, ∀ c, r.completion = some c →
      ∃ row ∈ (World.empty.run id .defaults completedAttempt).results, Describes c row := by
  intro h
  obtain ⟨r, hruns, hcompletion, hresults⟩ := completedAttempt_run id
  obtain ⟨row, hrow, hdescribes⟩ := h r (by rw [hruns]; exact List.mem_cons_self) _ hcompletion
  rw [hresults] at hrow
  obtain rfl := List.mem_singleton.mp hrow
  have hrun := hdescribes.run
  cases hrun

/-- A digest in unary: injective and without a colon. -/
def unaryDigest : Str → Str
  | [] => []
  | c :: rest => List.replicate c.toNat '1' ++ '0' :: unaryDigest rest

theorem unaryDigest_injective : Function.Injective unaryDigest := by
  have hcut : ∀ (n m : Nat) (s s' : Str), List.replicate n '1' ++ '0' :: s =
      List.replicate m '1' ++ '0' :: s' → n = m ∧ s = s' := by
    intro n
    induction n with
    | zero =>
        intro m s s' h
        cases m with
        | zero => exact ⟨rfl, List.cons_injective h⟩
        | succ m => cases h
    | succ n ih =>
        intro m s s' h
        cases m with
        | zero => cases h
        | succ m =>
            obtain ⟨hlength, hrest⟩ := ih m s s' (List.cons_injective h)
            exact ⟨congrArg (· + 1) hlength, hrest⟩
  intro s
  induction s with
  | nil =>
      intro s' h
      cases s' with
      | nil => rfl
      | cons c rest =>
          have hlength := congrArg List.length h
          simp [unaryDigest] at hlength
  | cons c rest ih =>
      intro s' h
      cases s' with
      | nil =>
          have hlength := congrArg List.length h
          simp [unaryDigest] at hlength
      | cons c' rest' =>
          obtain ⟨hchar, hrest⟩ := hcut _ _ _ _ h
          rw [Char.toNat_inj.mp hchar, ih hrest]

theorem colon_unaryDigest (t : Str) : ':' ∉ unaryDigest t := by
  induction t with
  | nil => exact List.not_mem_nil
  | cons c rest ih =>
      intro hmem
      rcases List.mem_append.mp hmem with hmem | hmem
      · cases List.eq_of_mem_replicate hmem
      · rcases List.mem_cons.mp hmem with heq | hmem
        · cases heq
        · exact ih hmem

/-- The completed attempt, under a digest without collisions. -/
theorem completions_describe_nothing_unary :
    Function.Injective unaryDigest ∧
      ∀ r ∈ (World.empty.run unaryDigest .defaults completedAttempt).runs,
        ∀ c, r.completion = some c →
          ∀ row ∈ (World.empty.run unaryDigest .defaults completedAttempt).results,
            ¬ Describes c row :=
  ⟨unaryDigest_injective, completions_describe_nothing unaryDigest_injective colon_unaryDigest
    completedAttempt (computes_completedAttempt unaryDigest .defaults)⟩

end GoLifecycle
