import ControlTranslation.GoSteps

/-!
# What an event does to the workers and the results table

`Effect` lists it: a worker moves, and a save merges a row.  Every invocation draws
its identifier anew, so a merge always adds a row: `Identified` says that what
workers have not written is not in the table, and what was answered is.
-/

namespace GoLifecycle

open PyText Table Relation
open Lifecycle (Status RunFailure)

/-- Where a worker carries nothing to the results table or back. -/
def Phase.quiet : Phase → Bool
  | .idle | .claimed | .unpublished _ | .dead => true
  | _ => false

/-- What an event does to the workers and the results table, where only permitted
runs are read, pass the look for a cancellation and are written. -/
inductive Effect (sha256 : Str → Str) (reads : Row → Prop) (looks : Claimed → Prop)
    (writes : Worker → Claimed → Prop) (w : World) : World → Prop
  | queue (runs : List Row) : Effect sha256 reads looks writes w { w with runs := runs }
  | start (workerId : Str) (hnew : ∀ worker ∈ w.workers, worker.workerId ≠ workerId) :
      Effect sha256 reads looks writes w { w with workers := w.workers ++ [⟨workerId, .idle⟩] }
  | rest (index : Nat) (worker : Worker) (phase : Phase) (runs : List Row)
      (hget : w.workers[index]? = some worker) (hquiet : phase.quiet = true) :
      Effect sha256 reads looks writes w { w.move index worker phase with runs := runs }
  | read (index : Nat) (worker : Worker) (row : Row) (hget : w.workers[index]? = some worker)
      (hphase : worker.phase = .claimed)
      (hread : claimedRun worker.workerId w.runs = some row) (hpermit : reads row) :
      Effect sha256 reads looks writes w (w.move index worker (.translating (.ofRow row)))
  | invoke (index : Nat) (worker : Worker) (run : Claimed) (invocation : Invocation)
      (hget : w.workers[index]? = some worker) (hphase : worker.phase = .translating run)
      (hfresh : invocation.resultUuid ∉ w.drawn) :
      Effect sha256 reads looks writes w
        { w.move index worker (.translated run (invokeEnvelope invocation)) with
          drawn := invocation.resultUuid :: w.drawn }
  | check (index : Nat) (worker : Worker) (run : Claimed) (result : Envelope)
      (hget : w.workers[index]? = some worker) (hphase : worker.phase = .translated run result)
      (hpermit : looks run) :
      Effect sha256 reads looks writes w (w.move index worker (.checked run result))
  | save (index : Nat) (worker : Worker) (run : Claimed) (result : Envelope) (phase : Phase)
      (hget : w.workers[index]? = some worker) (hphase : worker.phase = .checked run result)
      (hnext : phase = .unpublished run ∨ phase = .published run result)
      (hpermit : writes worker run) :
      Effect sha256 reads looks writes w
        { w.move index worker phase with
          results := merge (resultRow sha256 run result) w.results }

/-- An event reads permitted runs only. -/
def Event.reads (reads : Row → Prop) (w : World) : Event → Prop
  | .read index => ∀ worker row, w.workers[index]? = some worker → worker.phase = .claimed →
      claimedRun worker.workerId w.runs = some row → reads row
  | _ => True

/-- Permitted runs only pass the look for a cancellation. -/
def Event.looks (looks : Claimed → Prop) (w : World) : Event → Prop
  | .check index readable => ∀ worker run result, w.workers[index]? = some worker →
      worker.phase = .translated run result →
      (readable && (getLifecycleRun run.runId w.runs).any (·.cancelRequested)) = false → looks run
  | _ => True

/-- An event writes the results of permitted runs only. -/
def Event.writes (writes : Worker → Claimed → Prop) (w : World) : Event → Prop
  | .save index outcome => outcome ≠ .refused → ∀ worker run result,
      w.workers[index]? = some worker → worker.phase = .checked run result → writes worker run
  | _ => True

theorem reads_any (w : World) (event : Event) : event.reads (fun _ => True) w := by
  cases event with
  | read => exact fun _ _ _ _ _ => trivial
  | _ => trivial

theorem looks_any (w : World) (event : Event) : event.looks (fun _ => True) w := by
  cases event with
  | check => exact fun _ _ _ _ _ _ => trivial
  | _ => trivial

theorem writes_any (w : World) (event : Event) : event.writes (fun _ _ => True) w := by
  cases event with
  | save => exact fun _ _ _ _ _ _ => trivial
  | _ => trivial

section

variable {sha256 : Str → Str} {settings : Settings} {reads : Row → Prop}
  {looks : Claimed → Prop} {writes : Worker → Claimed → Prop}

theorem Effect.refl (w : World) : Effect sha256 reads looks writes w w := .queue w.runs

/-- Every event has one of the effects. -/
theorem step_effect {w : World} {event : Event} (hreads : event.reads reads w)
    (hlooks : event.looks looks w) (hwrites : event.writes writes w) :
    Effect sha256 reads looks writes w (w.step sha256 settings event) := by
  have hworker : ∀ (index : Nat) (step : Worker → World),
      (∀ worker, w.workers[index]? = some worker →
        Effect sha256 reads looks writes w (step worker)) →
      Effect sha256 reads looks writes w (w.withWorker index step) := by
    intro index step hstep
    rcases withWorker_cases w index step with h | ⟨worker, hget, h⟩
    · rw [h]
      exact Effect.refl w
    · rw [h]
      exact hstep worker hget
  cases event with
  | submit submission now => exact .queue _
  | cancel runId now => exact .queue _
  | heartbeat runId workerId now => exact .queue _
  | start workerId =>
      dsimp only [World.step]
      split_ifs with htaken
      · exact Effect.refl w
      · refine .start workerId fun worker hworker' heq => htaken ?_
        exact List.any_eq_true.mpr ⟨worker, hworker', beq_iff_eq.mpr heq⟩
  | claim index now =>
      refine hworker index _ fun worker hget => ?_
      split
      · unfold World.claimStep
        refine .rest index worker _ _ hget ?_
        split_ifs <;> rfl
      · exact Effect.refl w
  | read index =>
      refine hworker index _ fun worker hget => ?_
      split
      · rename_i hphase
        unfold World.readStep
        split
        · rename_i row hread
          exact .read index worker row hget hphase hread (hreads worker row hget hphase hread)
        · exact .rest index worker .idle w.runs hget rfl
      · exact Effect.refl w
  | invoke index invocation =>
      refine hworker index _ fun worker hget => ?_
      split
      · rename_i run hphase
        unfold World.invokeStep
        split_ifs with hdrawn
        · exact Effect.refl w
        · refine .invoke index worker run invocation hget hphase fun hmem => hdrawn ?_
          exact List.contains_iff_mem.mpr hmem
      · exact Effect.refl w
  | check index readable =>
      refine hworker index _ fun worker hget => ?_
      split
      · rename_i run result hphase
        unfold World.checkStep
        split_ifs with hfound
        · exact .rest index worker .idle w.runs hget rfl
        · refine .check index worker run result hget hphase ?_
          exact hlooks worker run result hget hphase (Bool.not_eq_true _ ▸ hfound)
      · exact Effect.refl w
  | save index outcome =>
      refine hworker index _ fun worker hget => ?_
      split
      · rename_i run result hphase
        cases outcome with
        | answered =>
            have hpermit := hwrites SaveOutcome.noConfusion worker run result hget hphase
            refine .save index worker run result _ hget hphase ?_ hpermit
            split_ifs
            · exact .inr rfl
            · exact .inl rfl
        | unanswered =>
            have hpermit := hwrites SaveOutcome.noConfusion worker run result hget hphase
            exact .save index worker run result _ hget hphase (.inl rfl) hpermit
        | refused => exact .rest index worker (.unpublished run) w.runs hget rfl
      · exact Effect.refl w
  | complete index now =>
      refine hworker index _ fun worker hget => ?_
      split
      · exact .rest index worker .idle _ hget rfl
      · exact Effect.refl w
  | report index now =>
      refine hworker index _ fun worker hget => ?_
      split
      · exact .rest index worker .idle _ hget rfl
      · exact Effect.refl w
  | giveUp index =>
      refine hworker index _ fun worker hget => ?_
      split
      · exact Effect.refl w
      · exact .rest index worker .idle w.runs hget rfl
  | crash index =>
      exact hworker index _ fun worker hget => .rest index worker .dead w.runs hget rfl

/-- Where nothing is asked. -/
theorem step_effect_any (w : World) (event : Event) :
    Effect sha256 (fun _ => True) (fun _ => True) (fun _ _ => True) w
      (w.step sha256 settings event) :=
  step_effect (reads_any w event) (looks_any w event) (writes_any w event)

/-- Who is at an index after one worker moved. -/
theorem getElem?_move {w : World} {index i : Nat} {worker worker' : Worker} {phase : Phase}
    (h : (w.move index worker phase).workers[i]? = some worker') :
    (i = index ∧ worker' = { worker with phase := phase }) ∨
      (i ≠ index ∧ w.workers[i]? = some worker') := by
  unfold World.move at h
  rw [List.getElem?_set] at h
  split_ifs at h with hindex hlt
  · exact .inl ⟨hindex.symm, (Option.some.inj h).symm⟩
  · exact .inr ⟨fun heq => hindex heq.symm, h⟩

/-- The identifier is one of an invocation that happened. -/
def Drawn (drawn : List Uuid) (resultId : Str) : Prop :=
  ∃ invocation : Invocation, invocation.resultUuid ∈ drawn ∧
    resultId = (invokeEnvelope invocation).resultId

/-- Invocations that draw different identifiers make different results. -/
theorem resultUuid_eq {i i' : Invocation}
    (h : (invokeEnvelope i).resultId = (invokeEnvelope i').resultId) :
    i.resultUuid = i'.resultUuid := by
  have hlength : i.resultUuid.text.length = i'.resultUuid.text.length := by
    rw [i.resultUuid.length_eq, i'.resultUuid.length_eq]
  have htext := (List.append_inj' h hlength).2
  cases hi : i.resultUuid with
  | mk text _ =>
      cases hi' : i'.resultUuid with
      | mk text' _ =>
          rw [hi, hi'] at htext
          subst htext
          rfl

/-- A result with a fresh identifier has none that was drawn. -/
theorem not_drawn {drawn : List Uuid} {invocation : Invocation}
    (h : invocation.resultUuid ∉ drawn) : ¬ Drawn drawn (invokeEnvelope invocation).resultId := by
  rintro ⟨other, hdrawn, heq⟩
  exact h (resultUuid_eq heq ▸ hdrawn)

theorem Drawn.mono {drawn : List Uuid} {uuid : Uuid} {resultId : Str} (h : Drawn drawn resultId) :
    Drawn (uuid :: drawn) resultId := by
  obtain ⟨invocation, hdrawn, heq⟩ := h
  exact ⟨invocation, List.mem_cons_of_mem _ hdrawn, heq⟩

/-- The identifier a worker has translated under and not written. -/
def Phase.unwritten : Phase → Option Str
  | .translated _ result | .checked _ result => some result.resultId
  | _ => none

/-- The identifier the worker at an index has not written. -/
def World.waiting (w : World) (i : Nat) : Option Str :=
  w.workers[i]?.bind fun worker => worker.phase.unwritten

/-- Identifiers are drawn ones, what is not written is not in the table, no two
workers are at the same, and what was answered is in the table. -/
structure Identified (w : World) : Prop where
  stored : ∀ row ∈ w.results, Drawn w.drawn row.resultId
  fresh : ∀ i resultId, w.waiting i = some resultId →
    Drawn w.drawn resultId ∧ ∀ row ∈ w.results, row.resultId ≠ resultId
  apart : ∀ i j resultId, w.waiting i = some resultId → w.waiting j = some resultId → i = j
  published : ∀ worker ∈ w.workers, ∀ run result, worker.phase = .published run result →
    ∃ row ∈ w.results, row.resultId = result.resultId ∧ row.lifecycleRun = run.runId

theorem identified_empty : Identified World.empty where
  stored _ hrow := absurd hrow List.not_mem_nil
  fresh _ _ hwaiting := by cases hwaiting
  apart _ _ _ hwaiting := by cases hwaiting
  published _ hworker := absurd hworker List.not_mem_nil

/-- A move changes what one worker is waiting to write. -/
theorem waiting_move {w : World} {index : Nat} {worker : Worker}
    (hget : w.workers[index]? = some worker) (phase : Phase) (i : Nat) :
    (w.move index worker phase).waiting i =
      if i = index then phase.unwritten else w.waiting i := by
  have hlt : index < w.workers.length := (List.getElem?_eq_some_iff.mp hget).1
  unfold World.waiting World.move
  dsimp only
  rw [List.getElem?_set]
  by_cases hi : i = index
  · subst hi
    rw [if_pos rfl, if_pos hlt, if_pos rfl]
    rfl
  · rw [if_neg fun heq => hi heq.symm, if_neg hi]

/-- A worker that moves to where nothing new waits or was answered. -/
theorem Identified.move {w : World} (h : Identified w) {index : Nat} {worker : Worker}
    (hget : w.workers[index]? = some worker) {phase : Phase}
    (hwaiting : ∀ resultId, phase.unwritten = some resultId → w.waiting index = some resultId)
    (hpublished : ∀ run result, phase ≠ .published run result) :
    Identified (w.move index worker phase) where
  stored := h.stored
  fresh i resultId hi := by
    rw [waiting_move hget] at hi
    split_ifs at hi with hindex
    · exact h.fresh index resultId (hwaiting resultId hi)
    · exact h.fresh i resultId hi
  apart i j resultId hi hj := by
    have hold : ∀ k, (w.move index worker phase).waiting k = some resultId →
        w.waiting k = some resultId := by
      intro k hk
      rw [waiting_move hget] at hk
      split_ifs at hk with hindex
      · rw [hindex]
        exact hwaiting resultId hk
      · exact hk
    exact h.apart i j resultId (hold i hi) (hold j hj)
  published worker' hworker' run result hphase := by
    rcases List.mem_or_eq_of_mem_set hworker' with hworker | rfl
    · exact h.published worker' hworker run result hphase
    · exact absurd hphase (hpublished run result)

theorem Identified.start {w : World} (h : Identified w) (workerId : Str) :
    Identified { w with workers := w.workers ++ [⟨workerId, .idle⟩] } := by
  have hold : ∀ i resultId,
      World.waiting { w with workers := w.workers ++ [⟨workerId, .idle⟩] } i = some resultId →
        w.waiting i = some resultId := by
    intro i resultId hi
    obtain ⟨worker, hget, hunwritten⟩ := Option.bind_eq_some_iff.mp hi
    rcases Nat.lt_or_ge i w.workers.length with hlt | hge
    · rw [List.getElem?_append_left hlt] at hget
      exact Option.bind_eq_some_iff.mpr ⟨worker, hget, hunwritten⟩
    · rw [List.getElem?_append_right hge] at hget
      obtain rfl := List.mem_singleton.mp (List.mem_of_getElem? hget)
      cases hunwritten
  refine ⟨h.stored, fun i resultId hi => h.fresh i resultId (hold i resultId hi),
    fun i j resultId hi hj => h.apart i j resultId (hold i resultId hi) (hold j resultId hj), ?_⟩
  intro worker hworker run result hphase
  rcases List.mem_append.mp hworker with hworker | hworker
  · exact h.published worker hworker run result hphase
  · obtain rfl := List.mem_singleton.mp hworker
    cases hphase

/-- An invocation draws an identifier of its own. -/
theorem Identified.invoke {w : World} (h : Identified w) {index : Nat} {worker : Worker}
    (hget : w.workers[index]? = some worker) (run : Claimed) {invocation : Invocation}
    (hfresh : invocation.resultUuid ∉ w.drawn) :
    Identified { w.move index worker (.translated run (invokeEnvelope invocation)) with
      drawn := invocation.resultUuid :: w.drawn } := by
  have hnew := not_drawn hfresh
  have hnow : Drawn (invocation.resultUuid :: w.drawn) (invokeEnvelope invocation).resultId :=
    ⟨invocation, List.mem_cons_self, rfl⟩
  have hcases : ∀ i resultId, World.waiting { w.move index worker
      (.translated run (invokeEnvelope invocation)) with
        drawn := invocation.resultUuid :: w.drawn } i = some resultId →
      (i = index ∧ resultId = (invokeEnvelope invocation).resultId) ∨
        w.waiting i = some resultId := by
    intro i resultId hi
    have hmove := (waiting_move hget (.translated run (invokeEnvelope invocation)) i).symm.trans hi
    split_ifs at hmove with hindex
    · exact .inl ⟨hindex, (Option.some.inj hmove).symm⟩
    · exact .inr hmove
  refine ⟨fun row hrow => (h.stored row hrow).mono, ?_, ?_, ?_⟩
  · intro i resultId hi
    rcases hcases i resultId hi with ⟨-, rfl⟩ | hold
    · refine ⟨hnow, fun row hrow heq => hnew ?_⟩
      rw [← heq]
      exact h.stored row hrow
    · obtain ⟨hdrawn, hrows⟩ := h.fresh i resultId hold
      exact ⟨hdrawn.mono, hrows⟩
  · intro i j resultId hi hj
    rcases hcases i resultId hi with ⟨rfl, rfl⟩ | hiold
    · rcases hcases j _ hj with ⟨rfl, -⟩ | hjold
      · rfl
      · exact absurd (h.fresh j _ hjold).1 hnew
    · rcases hcases j resultId hj with ⟨rfl, rfl⟩ | hjold
      · exact absurd (h.fresh i _ hiold).1 hnew
      · exact h.apart i j resultId hiold hjold
  · intro worker' hworker' run' result' hphase
    rcases List.mem_or_eq_of_mem_set hworker' with hworker | rfl
    · exact h.published worker' hworker run' result' hphase
    · cases hphase

theorem merge_of_fresh {row : ResultRow} {results : List ResultRow}
    (h : ∀ other ∈ results, other.resultId ≠ row.resultId) :
    merge row results = results ++ [row] := by
  unfold merge
  rw [if_neg]
  intro hany
  obtain ⟨other, hother, heq⟩ := List.any_eq_true.mp hany
  exact h other hother (eq_of_beq heq)

theorem Identified.merge_eq {w : World} (h : Identified w) {index : Nat} {worker : Worker}
    (hget : w.workers[index]? = some worker) {run : Claimed} {result : Envelope}
    (hphase : worker.phase = .checked run result) :
    merge (resultRow sha256 run result) w.results =
      w.results ++ [resultRow sha256 run result] := by
  have hwaiting : w.waiting index = some result.resultId :=
    Option.bind_eq_some_iff.mpr ⟨worker, hget, by rw [hphase]; rfl⟩
  exact merge_of_fresh (h.fresh index _ hwaiting).2

/-- A worker writes its result, which no other row has the identifier of. -/
theorem Identified.save {w : World} (h : Identified w) {index : Nat} {worker : Worker}
    (hget : w.workers[index]? = some worker) {run : Claimed} {result : Envelope}
    (hphase : worker.phase = .checked run result) {phase : Phase}
    (hnext : phase = .unpublished run ∨ phase = .published run result) :
    Identified { w.move index worker phase with
      results := merge (resultRow sha256 run result) w.results } := by
  have hwaiting : w.waiting index = some result.resultId :=
    Option.bind_eq_some_iff.mpr ⟨worker, hget, by rw [hphase]; rfl⟩
  have hunwritten : phase.unwritten = none := by
    rcases hnext with rfl | rfl <;> rfl
  have hold : ∀ i resultId, World.waiting { w.move index worker phase with
      results := merge (resultRow sha256 run result) w.results } i = some resultId →
      i ≠ index ∧ w.waiting i = some resultId := by
    intro i resultId hi
    have hmove := (waiting_move hget phase i).symm.trans hi
    rw [hunwritten] at hmove
    split_ifs at hmove with hindex
    exact ⟨hindex, hmove⟩
  rw [h.merge_eq hget hphase] at hold ⊢
  refine ⟨?_, ?_, ?_, ?_⟩
  · intro row hrow
    rcases List.mem_append.mp hrow with hrow | hrow
    · exact h.stored row hrow
    · obtain rfl := List.mem_singleton.mp hrow
      exact (h.fresh index _ hwaiting).1
  · intro i resultId hi
    obtain ⟨hindex, hi⟩ := hold i resultId hi
    obtain ⟨hdrawn, hrows⟩ := h.fresh i resultId hi
    refine ⟨hdrawn, fun row hrow heq => ?_⟩
    rcases List.mem_append.mp hrow with hrow | hrow
    · exact hrows row hrow heq
    · obtain rfl := List.mem_singleton.mp hrow
      have hsame : result.resultId = resultId := heq
      exact hindex (h.apart i index resultId hi (hsame ▸ hwaiting))
  · intro i j resultId hi hj
    exact h.apart i j resultId (hold i resultId hi).2 (hold j resultId hj).2
  · intro worker' hworker' run' result' hphase'
    rcases List.mem_or_eq_of_mem_set hworker' with hworker | rfl
    · obtain ⟨row, hrow, hmatch⟩ := h.published worker' hworker run' result' hphase'
      exact ⟨row, List.mem_append_left _ hrow, hmatch⟩
    · rcases hnext with rfl | rfl
      · cases hphase'
      · cases hphase'
        exact ⟨resultRow sha256 run result, List.mem_append_right _ List.mem_cons_self, rfl, rfl⟩

theorem unwritten_of_quiet {phase : Phase} (h : phase.quiet = true) : phase.unwritten = none := by
  cases phase <;> first | rfl | cases h

theorem Effect.identified {w w' : World} (heffect : Effect sha256 reads looks writes w w')
    (h : Identified w) : Identified w' := by
  cases heffect with
  | queue => exact ⟨h.stored, h.fresh, h.apart, h.published⟩
  | start workerId => exact h.start workerId
  | rest index worker phase runs hget hquiet =>
      have hmove : Identified (w.move index worker phase) := by
        refine h.move hget (fun resultId hresult => ?_) fun run result heq => ?_
        · rw [unwritten_of_quiet hquiet] at hresult
          cases hresult
        · rw [heq] at hquiet
          cases hquiet
      exact ⟨hmove.stored, hmove.fresh, hmove.apart, hmove.published⟩
  | read index worker row hget =>
      exact h.move hget (fun _ hresult => by cases hresult) fun _ _ heq => by cases heq
  | invoke index worker run invocation hget _ hfresh => exact h.invoke hget run hfresh
  | check index worker run result hget hphase =>
      refine h.move hget (fun resultId hresult => ?_) fun _ _ heq => by cases heq
      exact Option.bind_eq_some_iff.mpr ⟨worker, hget, by rw [hphase]; exact hresult⟩
  | save index worker run result phase hget hphase hnext => exact h.save hget hphase hnext

/-- In every run the stored results have identifiers of their own. -/
theorem identified_run (events : List Event) :
    Identified (World.empty.run sha256 settings events) :=
  run_invariant (I := Identified) (fun w event h => (step_effect_any w event).identified h) events
    identified_empty

/-- A row after a merge was there before or is the one merged. -/
theorem mem_merge {row other : ResultRow} {results : List ResultRow}
    (h : other ∈ merge row results) : other ∈ results ∨ other = row := by
  unfold merge at h
  split_ifs at h
  · exact .inl h
  · exact (List.mem_append.mp h).imp_right List.mem_singleton.mp

theorem mem_merge_of_mem {row other : ResultRow} {results : List ResultRow}
    (h : other ∈ results) : other ∈ merge row results := by
  unfold merge
  split_ifs
  · exact h
  · exact List.mem_append_left _ h

/-- What a save does, if it writes. -/
theorem save_step {w : World} {index : Nat} {worker : Worker} {run : Claimed} {result : Envelope}
    (hget : w.workers[index]? = some worker) (hphase : worker.phase = .checked run result)
    {outcome : SaveOutcome} (hwrites : outcome ≠ .refused) :
    (w.step sha256 settings (.save index outcome)).runs = w.runs ∧
      (w.step sha256 settings (.save index outcome)).results =
        merge (resultRow sha256 run result) w.results := by
  simp only [World.step, World.withWorker, hget, hphase]
  cases outcome with
  | answered => exact ⟨rfl, rfl⟩
  | unanswered => exact ⟨rfl, rfl⟩
  | refused => exact absurd rfl hwrites

/-- The table changes by a save only, and the queue does not change with it. -/
theorem Effect.results_cases {w w' : World} (h : Effect sha256 reads looks writes w w') :
    w'.results = w.results ∨ ∃ worker run result, writes worker run ∧ w'.runs = w.runs ∧
      w'.results = merge (resultRow sha256 run result) w.results := by
  cases h with
  | save index worker run result phase _ _ _ hpermit =>
      exact .inr ⟨worker, run, result, hpermit, rfl, rfl⟩
  | _ => exact .inl rfl

theorem Effect.mem_results {w w' : World} (h : Effect sha256 reads looks writes w w')
    {row : ResultRow}
    (hrow : row ∈ w.results) : row ∈ w'.results := by
  rcases h.results_cases with hsame | ⟨_, _, _, _, _, hmerge⟩
  · rwa [hsame]
  · rw [hmerge]
    exact mem_merge_of_mem hrow

end

end GoLifecycle
