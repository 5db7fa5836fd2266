import ControlTranslation.CompletedRuns

/-!
# Listing completed runs

The dashboard lists the runs newest first and goes from page to page.  A page takes
three statements, the rows, their number and the number in each terminal state, and
runs are saved before, between and after them.  A request that fails is made again at
the same offset.

Saved runs are found anywhere in the order, by the time they carry and not the time
they are saved.  They move older runs down, so a reader may meet a run on two pages,
but passes none that was there when the reading began.
-/

namespace RunStore

open PyText Paging
open CapabilityRouting (TerminalState OutcomeReasonCode ResultStatus)

variable {β γ ρ : Type}

/-- A line of the list of runs. -/
structure RunSummary where
  runId : Str
  resultId : Str
  correlationId : Str
  status : ResultStatus
  terminalState : TerminalState
  outcomeReasonCode : OutcomeReasonCode
  vulnerabilityId : Str
  targetTechnology : Str
  artifactType : Option Str
  startedAt : Str
  completedAt : Str
  resultHref : Str

/-- `ORDER BY runs.completed_at DESC, runs.run_id DESC`. -/
def listingKey (row : CapabilityRun × InvocationPayload β γ ρ) : Str ×ₗ Str :=
  toLex (row.1.completedAt, row.1.runId)

/-- The type of the first artifact of a run. -/
def Database.artifactType (db : Database β γ ρ) (runId : Str) : Option Str :=
  ((db.artifacts.filter (·.runId = runId)).mergeSort fun a b =>
    decide (a.artifactId ≤ b.artifactId)).head?.map (·.artifactType)

/-- The line of a run. -/
def Database.summary (db : Database β γ ρ)
    (row : CapabilityRun × InvocationPayload β γ ρ) : RunSummary where
  runId := row.1.runId
  resultId := row.1.resultId
  correlationId := row.1.correlationId
  status := row.1.status
  terminalState := row.1.terminalState
  outcomeReasonCode := row.1.outcomeReasonCode
  vulnerabilityId := row.2.result.vulnerabilityId
  targetTechnology := row.2.result.targetTechnology
  artifactType := db.artifactType row.1.runId
  startedAt := row.1.startedAt
  completedAt := row.1.completedAt
  resultHref := "/v1/results/".toList ++ row.1.resultId

/-- The rows of a page, the first statement of `list_runs`. -/
def Database.selectPage (db : Database β γ ρ) (limit offset : Nat) : List RunSummary :=
  (window limit offset (newestFirst listingKey db.joined)).map db.summary

/-- The terminal states a list may be filtered by. -/
def terminalStates : List TerminalState :=
  [.translated, .cannotExpress, .insufficientContext, .scopeDeclined, .malfunction]

/-- `GROUP BY terminal_state`: the states that some run is in. -/
def Database.terminalStateCounts (db : Database β γ ρ) : List (TerminalState × Nat) :=
  (terminalStates.map fun state => (state, db.runs.countP (·.terminalState = state))).filter
    fun group => group.2 ≠ 0

/-- A page of the list. -/
structure RunListResponse where
  items : List RunSummary
  total : Nat
  limit : Nat
  offset : Nat
  hasMore : Bool
  terminalStateCounts : List (TerminalState × Nat)

/-- The answer of `list_runs` from what its statements read. -/
def runListResponse (limit offset : Nat) (items : List RunSummary) (total : Nat)
    (counts : List (TerminalState × Nat)) : RunListResponse where
  items := items
  total := total
  limit := limit
  offset := offset
  hasMore := decide (offset + items.length < total)
  terminalStateCounts := counts

/-- How far the request for a page has come. -/
inductive Stage
  | requested
  | listed (items : List RunSummary)
  | counted (items : List RunSummary) (total : Nat)

/-- The tables, and a reader who goes from page to page. -/
structure Dashboard (β γ ρ : Type) where
  db : Database β γ ρ
  runsOffset : Nat
  stage : Stage
  pages : List RunListResponse
  finished : Bool

/-- What happens next: a run is saved, the next statement of the request is answered,
or it fails. -/
inductive Happening (β γ ρ : Type)
  | save (c : Completed β γ ρ)
  | statement
  | fault

/-- The dashboard as it opens, its first page requested. -/
def Dashboard.opened (db : Database β γ ρ) : Dashboard β γ ρ :=
  ⟨db, 0, .requested, [], false⟩

/-- `renderRuns`: after a page that is not the last, the next one is asked for. -/
def Dashboard.render (d : Dashboard β γ ρ) (page : RunListResponse) : Dashboard β γ ρ :=
  { d with
    runsOffset := if page.hasMore then d.runsOffset + page.limit else d.runsOffset
    stage := .requested
    pages := d.pages ++ [page]
    finished := !page.hasMore }

/-- What one happening does to the database and to the dashboard. -/
def Dashboard.step (limit : Nat) (d : Dashboard β γ ρ) : Happening β γ ρ → Dashboard β γ ρ
  | .save c => { d with db := d.db.save c }
  | .fault => { d with stage := .requested }
  | .statement =>
      if d.finished then d
      else match d.stage with
        | .requested => { d with stage := .listed (d.db.selectPage limit d.runsOffset) }
        | .listed items => { d with stage := .counted items d.db.runs.length }
        | .counted items total =>
            d.render (runListResponse limit d.runsOffset items total d.db.terminalStateCounts)

/-- What a run of happenings does. -/
def Dashboard.run (limit : Nat) (d : Dashboard β γ ρ) (happenings : List (Happening β γ ρ)) :
    Dashboard β γ ρ :=
  happenings.foldl (Dashboard.step limit) d

variable {log : List (Completed β γ ρ)} {c : Completed β γ ρ}

/-- What runs are ordered by: when they were produced, then their id. -/
def Completed.order (c : Completed β γ ρ) : Str ×ₗ Str :=
  toLex (c.result.producedAt, c.result.runId)

/-- The line of a run. -/
def Completed.summary (c : Completed β γ ρ) : RunSummary where
  runId := c.result.runId
  resultId := c.result.resultId
  correlationId := c.result.correlationId
  status := c.result.status
  terminalState := c.result.terminalState
  outcomeReasonCode := c.result.reasonCode
  vulnerabilityId := c.result.vulnerabilityId
  targetTechnology := c.result.targetTechnology
  artifactType := c.result.primaryCandidate.map (·.candidateArtifact.artifactType)
  startedAt := c.startedAt
  completedAt := c.result.producedAt
  resultHref := "/v1/results/".toList ++ c.result.resultId

theorem flatMap_filter {α δ : Type} (p : α → Prop) [DecidablePred p] (f : α → List δ)
    (xs : List α) :
    (xs.filter (fun x => decide (p x))).flatMap f =
      xs.flatMap fun x => if p x then f x else [] := by
  induction xs with
  | nil => rfl
  | cons x rest ih =>
      rw [List.flatMap_cons, List.filter_cons, ← ih]
      by_cases hx : p x
      · rw [if_pos hx, if_pos (decide_eq_true hx), List.flatMap_cons]
      · rw [if_neg hx, if_neg (by simpa using hx), List.nil_append]

/-- The artifacts of a logged run are its own. -/
theorem artifacts_of_mem (hkeyed : Keyed log) (hc : c ∈ log) :
    (Database.ofLog log).artifacts.filter (·.runId = c.result.runId) = c.artifacts := by
  have hown : ∀ c' ∈ log, c'.artifacts.filter (fun row => decide (row.runId = c.result.runId)) =
      if c'.result.runId = c.result.runId then c'.artifacts else [] := by
    intro c' _
    split_ifs with hsame
    · refine List.filter_eq_self.mpr fun row hrow => ?_
      obtain ⟨candidate, -, rfl⟩ := List.mem_map.mp hrow
      exact decide_eq_true hsame
    · refine List.filter_eq_nil_iff.mpr fun row hrow => ?_
      obtain ⟨candidate, -, rfl⟩ := List.mem_map.mp hrow
      exact fun h => hsame (of_decide_eq_true h)
  have hone := filter_eq_singleton hkeyed.runIds hc
  calc (log.flatMap Completed.artifacts).filter (fun row => decide (row.runId = c.result.runId))
      = log.flatMap fun c' =>
          if c'.result.runId = c.result.runId then c'.artifacts else [] := by
        rw [List.filter_flatMap]
        exact List.flatMap_congr hown
    _ = (log.filter fun c' => decide (c'.result.runId = c.result.runId)).flatMap
          Completed.artifacts := by
        exact (flatMap_filter _ _ _).symm
    _ = c.artifacts := by
        rw [hone, List.flatMap_singleton]

theorem summary_of_mem (hkeyed : Keyed log) (hc : c ∈ log) :
    (Database.ofLog log).summary (c.run, c.payload) = c.summary := by
  have htype : (Database.ofLog log).artifactType c.result.runId =
      c.result.primaryCandidate.map (·.candidateArtifact.artifactType) := by
    rw [Database.artifactType, artifacts_of_mem hkeyed hc, Completed.artifacts]
    cases c.result.primaryCandidate with
    | none => rw [Option.toList_none, List.map_nil, List.mergeSort_nil]; rfl
    | some candidate =>
        rw [Option.toList_some, List.map_singleton, List.mergeSort_singleton]
        rfl
  rw [Database.summary, Completed.summary, ← htype]
  rfl

/-- A page of the tables is a page of the log. -/
theorem selectPage_ofLog (hkeyed : Keyed log) (limit offset : Nat) :
    (Database.ofLog log).selectPage limit offset =
      (window limit offset (newestFirst Completed.order log)).map Completed.summary := by
  have hlisting : newestFirst listingKey (Database.ofLog log).joined =
      (newestFirst Completed.order log).map fun c => (c.run, c.payload) := by
    rw [joined_ofLog hkeyed, newestFirst, newestFirst, List.map_mergeSort]
    intro a _ b _
    rfl
  rw [Database.selectPage, hlisting, window, window, ← List.map_drop, ← List.map_take,
    List.map_map]
  refine List.map_congr_left fun c hc => ?_
  exact summary_of_mem hkeyed (mem_newestFirst.mp (List.mem_of_mem_drop (List.mem_of_mem_take hc)))

/-- The runs that a page counts, whatever their state. -/
def RunListResponse.counted (page : RunListResponse) : Nat :=
  (page.terminalStateCounts.map (·.2)).foldr (· + ·) 0

theorem foldr_add_nonzero (groups : List (TerminalState × Nat)) :
    ((groups.filter fun group => decide (group.2 ≠ 0)).map (·.2)).foldr (· + ·) 0 =
      (groups.map (·.2)).foldr (· + ·) 0 := by
  induction groups with
  | nil => rfl
  | cons group rest ih =>
      rw [List.filter_cons]
      by_cases hzero : group.2 = 0
      · rw [if_neg (by simpa using hzero), ih, List.map_cons, List.foldr_cons, hzero,
          Nat.zero_add]
      · rw [if_pos (by simpa using hzero), List.map_cons, List.foldr_cons, ih]
        rfl

/-- Every run is counted in its terminal state, and once. -/
theorem counted_terminalStateCounts (db : Database β γ ρ) :
    (db.terminalStateCounts.map (·.2)).foldr (· + ·) 0 = db.runs.length := by
  rw [Database.terminalStateCounts, foldr_add_nonzero]
  induction db.runs with
  | nil => rfl
  | cons run rest ih =>
      simp only [terminalStates, List.map_cons, List.map_nil, List.foldr_cons, List.foldr_nil,
        List.countP_cons, List.length_cons] at ih ⊢
      cases run.terminalState <;> simp <;> omega

/-- A line says of a result what the result says. -/
structure RunSummary.Describes (item : RunSummary) (result : ResultEnvelope ρ) : Prop where
  runId : item.runId = result.runId
  resultId : item.resultId = result.resultId
  correlationId : item.correlationId = result.correlationId
  status : item.status = result.status
  terminalState : item.terminalState = result.terminalState
  outcomeReasonCode : item.outcomeReasonCode = result.reasonCode
  vulnerabilityId : item.vulnerabilityId = result.vulnerabilityId
  targetTechnology : item.targetTechnology = result.targetTechnology
  artifactType : item.artifactType =
    result.primaryCandidate.map (·.candidateArtifact.artifactType)
  completedAt : item.completedAt = result.producedAt

/-- A page holds stored runs, newest first and no more than were asked for, and its
numbers never fall short of what it shows. -/
structure RunListResponse.Sound (page : RunListResponse) (limit : Nat) (db : Database β γ ρ) :
    Prop where
  size : page.items.length ≤ limit
  stored : ∀ item ∈ page.items, ∃ result, db.getRun item.runId = some result ∧
    item.Describes result
  order : page.items.Pairwise fun a b =>
    toLex (b.completedAt, b.runId) < toLex (a.completedAt, a.runId)
  shown : page.items ≠ [] → page.offset + page.items.length ≤ page.total
  counted : page.total ≤ page.counted

theorem describes_summary (c : Completed β γ ρ) : c.summary.Describes c.result :=
  ⟨rfl, rfl, rfl, rfl, rfl, rfl, rfl, rfl, rfl, rfl⟩

/-- What a request has read so far, of the log as it was then. -/
structure Reading (limit offset : Nat) (old log shown seen : List (Completed β γ ρ))
    (items : List RunSummary) : Prop where
  keyed : Keyed seen
  since : old <+: seen
  before : seen <+: log
  ahead : ∀ c ∈ old, Ahead Completed.order seen offset shown c
  page : items = (window limit offset (newestFirst Completed.order seen)).map Completed.summary

/-- The stage of a request over a log that began as `old`. -/
def Stage.Inv (limit offset : Nat) (old log shown : List (Completed β γ ρ)) : Stage → Prop
  | .requested => True
  | .listed items => ∃ seen, Reading limit offset old log shown seen items
  | .counted items total => ∃ seen, Reading limit offset old log shown seen items ∧
      seen.length ≤ total ∧ total ≤ log.length

/-- What holds of the dashboard at any time: the log has grown from the one it was opened
on, and each run of that one was shown or is ahead. -/
structure Dashboard.Inv (limit : Nat) (old log shown : List (Completed β γ ρ))
    (d : Dashboard β γ ρ) : Prop where
  keyed : Keyed log
  grown : old <+: log
  db : d.db = .ofLog log
  stage : d.stage.Inv limit d.runsOffset old log shown
  lines : d.pages.flatMap (·.items) = shown.map Completed.summary
  pages : ∀ page ∈ d.pages, page.Sound limit d.db
  ahead : d.finished = false → ∀ c ∈ old, Ahead Completed.order log d.runsOffset shown c
  complete : d.finished = true → ∀ c ∈ old, c ∈ shown
  offset : d.finished = false → d.runsOffset = limit * d.pages.length
  rest : log = old → shown = (newestFirst Completed.order old).take (limit * d.pages.length)
  whole : log = old → d.finished = true → old.length ≤ limit * d.pages.length

variable {limit offset : Nat} {old shown seen : List (Completed β γ ρ)} {d : Dashboard β γ ρ}

theorem Keyed.order_nodup (h : Keyed log) : (log.map Completed.order).Nodup := by
  refine List.Nodup.of_map (fun key => (ofLex key).2) ?_
  rw [List.map_map]
  exact h.runIds

/-- A stored run stays stored. -/
theorem getRun_of_prefix {log' : List (Completed β γ ρ)} (hkeyed : Keyed log)
    (hkeyed' : Keyed log') (hinitial : log <+: log') {runId : Str} {result : ResultEnvelope ρ}
    (h : (Database.ofLog log).getRun runId = some result) :
    (Database.ofLog log').getRun runId = some result := by
  obtain ⟨c, hc, rfl, rfl⟩ := mem_of_getRun hkeyed h
  exact getRun_of_mem hkeyed' (hinitial.subset hc)

theorem RunListResponse.Sound.grow {log' : List (Completed β γ ρ)} {page : RunListResponse}
    (h : page.Sound limit (Database.ofLog log)) (hkeyed : Keyed log) (hkeyed' : Keyed log')
    (hinitial : log <+: log') : page.Sound limit (Database.ofLog log') where
  size := h.size
  stored := fun item hitem => by
    obtain ⟨result, hresult, hdescribes⟩ := h.stored item hitem
    exact ⟨result, getRun_of_prefix hkeyed hkeyed' hinitial hresult, hdescribes⟩
  order := h.order
  shown := h.shown
  counted := h.counted

/-- A page half read stays right as the log grows. -/
theorem Reading.grow {log' : List (Completed β γ ρ)} {items : List RunSummary}
    (h : Reading limit offset old log shown seen items) (hinitial : log <+: log') :
    Reading limit offset old log' shown seen items :=
  { h with before := h.before.trans hinitial }

theorem Stage.Inv.grow {log' : List (Completed β γ ρ)} {stage : Stage}
    (h : stage.Inv limit offset old log shown) (hinitial : log <+: log') :
    stage.Inv limit offset old log' shown := by
  cases stage with
  | requested => trivial
  | listed items =>
      obtain ⟨seen, hreading⟩ := h
      exact ⟨seen, hreading.grow hinitial⟩
  | counted items total =>
      obtain ⟨seen, hreading, hseen, htotal⟩ := h
      exact ⟨seen, hreading.grow hinitial, hseen, htotal.trans hinitial.length_le⟩

/-- Saving a run puts nothing behind the reader. -/
theorem Dashboard.Inv.save (h : d.Inv limit old log shown) (c : Completed β γ ρ) :
    ∃ log', Dashboard.Inv limit old log' shown { d with db := d.db.save c } := by
  obtain ⟨more, hkeyed, -, hsave⟩ := exists_log_save h.keyed c
  have hinitial : log <+: log ++ more := List.prefix_append log more
  have hback : log ++ more = old → log = old := fun hsame =>
    (hsame ▸ hinitial : log <+: old).eq_of_length_le h.grown.length_le
  refine ⟨log ++ more, {
    keyed := hkeyed
    grown := h.grown.trans hinitial
    db := by rw [h.db, hsave]
    stage := h.stage.grow hinitial
    lines := h.lines
    pages := ?_
    ahead := fun hopen c hc => (h.ahead hopen c hc).grow hinitial.sublist
    complete := h.complete
    offset := h.offset
    rest := fun hsame => h.rest (hback hsame)
    whole := fun hsame => h.whole (hback hsame) }⟩
  intro page hpage
  have hsound := h.pages page hpage
  rw [h.db] at hsound
  have hgrown := hsound.grow h.keyed hkeyed hinitial
  rw [← hsave, ← h.db] at hgrown
  exact hgrown

/-- A page of a log as it was shows runs of the log. -/
theorem Reading.sound {items : List RunSummary} {total : Nat}
    (h : Reading limit offset old log shown seen items) (hkeyed : Keyed log)
    (hseen : seen.length ≤ total) (htotal : total ≤ log.length) :
    (runListResponse limit offset items total
      (Database.ofLog log).terminalStateCounts).Sound limit (Database.ofLog log) := by
  obtain rfl := h.page
  have hwindow := length_window limit offset (newestFirst Completed.order seen)
  rw [length_newestFirst] at hwindow
  refine ⟨?_, ?_, ?_, ?_, ?_⟩
  · change (List.map _ _).length ≤ limit
    rw [List.length_map]
    exact length_window_le _ _ _
  · intro item hitem
    obtain ⟨c, hc, rfl⟩ := List.mem_map.mp hitem
    have hmem : c ∈ seen :=
      mem_newestFirst.mp (List.mem_of_mem_drop (List.mem_of_mem_take hc))
    exact ⟨c.result, getRun_of_mem hkeyed (h.before.subset hmem), describes_summary c⟩
  · refine List.pairwise_map.mpr ?_
    have hsorted := newestFirst_sorted h.keyed.order_nodup
    exact (hsorted.sublist (List.drop_sublist _ _)).sublist (List.take_sublist _ _)
  · intro hsome
    have hne : window limit offset (newestFirst Completed.order seen) ≠ [] :=
      fun hnil => hsome (congrArg (List.map Completed.summary) hnil)
    have hpos := List.length_pos_iff.mpr hne
    change offset + (List.map _ _).length ≤ total
    rw [List.length_map]
    omega
  · change total ≤ ((Database.ofLog log).terminalStateCounts.map (·.2)).foldr (· + ·) 0
    rw [counted_terminalStateCounts]
    exact htotal.trans (by rw [Database.ofLog, List.length_map])

/-- While there is more, the next page starts where this one ends. -/
theorem runsOffset_render {page : RunListResponse} (hmore : (d.render page).finished = false) :
    (d.render page).runsOffset = d.runsOffset + page.limit :=
  if_pos (Bool.not_eq_eq_eq_not.mp hmore)

/-- A rendered page shows what it passes, and the last one leaves nothing to come. -/
theorem Dashboard.Inv.render (h : d.Inv limit old log shown) (hopen : d.finished = false)
    {items : List RunSummary} {total : Nat}
    (hreading : Reading limit d.runsOffset old log shown seen items)
    (hseen : seen.length ≤ total) (htotal : total ≤ log.length) :
    ∃ shown', Dashboard.Inv limit old log shown' (d.render (runListResponse limit d.runsOffset
      items total d.db.terminalStateCounts)) := by
  have hsound := hreading.sound h.keyed hseen htotal
  rw [← h.db] at hsound
  obtain rfl := hreading.page
  have hkeys := hreading.keyed.order_nodup
  have hend : (d.render (runListResponse limit d.runsOffset
      ((window limit d.runsOffset (newestFirst Completed.order seen)).map Completed.summary) total
      d.db.terminalStateCounts)).finished = true → seen.length ≤ d.runsOffset +
        (window limit d.runsOffset (newestFirst Completed.order seen)).length := by
    intro hlast
    have hreached := of_decide_eq_false (Bool.not_eq_eq_eq_not.mp hlast)
    have hlines : ((window limit d.runsOffset (newestFirst Completed.order seen)).map
        Completed.summary).length =
          (window limit d.runsOffset (newestFirst Completed.order seen)).length :=
      List.length_map _
    exact hlines ▸ hseen.trans (Nat.not_lt.mp hreached)
  have hpages : ∀ page, (d.render page).pages.length = d.pages.length + 1 := fun page => by
    rw [Dashboard.render, List.length_append, List.length_singleton]
  refine ⟨shown ++ window limit d.runsOffset (newestFirst Completed.order seen), {
    keyed := h.keyed
    grown := h.grown
    db := h.db
    stage := trivial
    lines := ?_
    pages := ?_
    ahead := ?_
    complete := ?_
    offset := ?_
    rest := ?_
    whole := ?_ }⟩
  · rw [Dashboard.render, List.flatMap_append, h.lines, List.flatMap_singleton, List.map_append]
    rfl
  · intro page hpage
    rcases List.mem_append.mp hpage with hpage | hpage
    · exact h.pages page hpage
    · rw [List.mem_singleton.mp hpage]
      exact hsound
  · intro hmore c hc
    rw [runsOffset_render hmore]
    exact ((hreading.ahead c hc).turn hkeys (hreading.since.subset hc)).grow
      hreading.before.sublist
  · intro hlast c hc
    exact (hreading.ahead c hc).last hkeys (hreading.since.subset hc) (hend hlast)
  · intro hmore
    rw [runsOffset_render hmore, h.offset hopen, hpages, Nat.mul_succ]
    rfl
  · intro hsame
    have hseen : seen = old :=
      ((hsame ▸ hreading.before).eq_of_length_le hreading.since.length_le)
    rw [h.rest hsame, hseen, h.offset hopen, take_append_window, hpages, Nat.mul_succ]
  · intro _ hlast
    have hlimit := length_window_le limit d.runsOffset (newestFirst Completed.order seen)
    have hreached := hend hlast
    have hold := hreading.since.length_le
    rw [hpages, Nat.mul_succ, ← h.offset hopen]
    omega

/-- A statement keeps the invariant of the dashboard. -/
theorem Dashboard.Inv.statement (h : d.Inv limit old log shown) :
    ∃ shown', Dashboard.Inv limit old log shown' (d.step limit .statement) := by
  rw [Dashboard.step]
  split
  · exact ⟨shown, h⟩
  · rename_i hunfinished
    have hopen : d.finished = false := Bool.eq_false_of_not_eq_true hunfinished
    have hstage := h.stage
    split
    · have hpage := selectPage_ofLog h.keyed limit d.runsOffset
      rw [← h.db] at hpage
      have hreading : Reading limit d.runsOffset old log shown log
          (d.db.selectPage limit d.runsOffset) :=
        ⟨h.keyed, h.grown, List.prefix_rfl, h.ahead hopen, hpage⟩
      exact ⟨shown, { h with stage := ⟨log, hreading⟩ }⟩
    · rename_i items hlisted
      rw [hlisted] at hstage
      obtain ⟨seen, hreading⟩ := hstage
      have htotal : d.db.runs.length = log.length := by
        rw [h.db, Database.ofLog, List.length_map]
      exact ⟨shown, { h with
        stage := ⟨seen, hreading, htotal ▸ hreading.before.length_le, htotal.le⟩ }⟩
    · rename_i items total hcounted
      rw [hcounted] at hstage
      obtain ⟨seen, hreading, hseen, htotal⟩ := hstage
      exact h.render hopen hreading hseen htotal

/-- Whatever happens next, no run of the old log falls behind. -/
theorem Dashboard.Inv.step (h : d.Inv limit old log shown) (happening : Happening β γ ρ) :
    ∃ log' shown', Dashboard.Inv limit old log' shown' (d.step limit happening) := by
  cases happening with
  | save c =>
      obtain ⟨log', hsaved⟩ := h.save c
      exact ⟨log', shown, hsaved⟩
  | statement =>
      obtain ⟨shown', hread⟩ := h.statement
      exact ⟨log, shown', hread⟩
  | fault => exact ⟨log, shown, { h with stage := trivial }⟩

/-- Every run of happenings keeps it. -/
theorem Dashboard.Inv.run (h : d.Inv limit old log shown) (happenings : List (Happening β γ ρ)) :
    ∃ log' shown', Dashboard.Inv limit old log' shown' (d.run limit happenings) := by
  induction happenings generalizing d log shown with
  | nil => exact ⟨log, shown, h⟩
  | cons happening rest ih =>
      obtain ⟨log', shown', hstep⟩ := h.step happening
      exact ih hstep

theorem Dashboard.inv_opened (hkeyed : Keyed old) :
    Dashboard.Inv limit old old [] (.opened (.ofLog old)) where
  keyed := hkeyed
  grown := List.prefix_rfl
  db := rfl
  stage := trivial
  lines := rfl
  pages := fun _ hpage => absurd hpage List.not_mem_nil
  ahead := fun _ c _ => ahead_zero _ _ c
  complete := fun h => absurd h Bool.false_ne_true
  offset := fun _ => rfl
  rest := fun _ => rfl
  whole := fun _ h => absurd h Bool.false_ne_true

/-- All runs, as one page would list them. -/
def Database.listing (db : Database β γ ρ) : List RunSummary := db.selectPage db.runs.length 0

theorem listing_ofLog (hkeyed : Keyed log) :
    (Database.ofLog log).listing = (newestFirst Completed.order log).map Completed.summary := by
  have hall : (Database.ofLog log).runs.length = (newestFirst Completed.order log).length := by
    rw [Database.ofLog, List.length_map, length_newestFirst]
  rw [Database.listing, selectPage_ofLog hkeyed, hall, window, List.drop_zero, List.take_length]

/-- **The dashboard passes no run.**  However runs are saved between the statements of its
requests, and whichever of them fail, once there is no next page every run that was stored
when the dashboard was opened has been listed with what its result says.  Every page holds
stored runs only, newest first, and numbers that do not fall short of them.  Where nothing
is saved in between, the pages list the runs once each, in order. -/
theorem dashboard_passes_no_run (saves : List (Completed β γ ρ)) (limit : Nat)
    (happenings : List (Happening β γ ρ)) :
    let d := Dashboard.opened (Database.after saves)
    let d' := d.run limit happenings
    (d'.finished = true → ∀ runId result, d.db.getRun runId = some result →
      ∃ page ∈ d'.pages, ∃ item ∈ page.items, item.Describes result) ∧
    (∀ page ∈ d'.pages, page.Sound limit d'.db) ∧
    (d'.db = d.db → d'.pages.flatMap (·.items) <+: d.db.listing ∧
      (d'.finished = true → d'.pages.flatMap (·.items) = d.db.listing)) := by
  intro d d'
  obtain ⟨old, hkeyed, -, hafter⟩ := exists_log_after saves
  have hopened : d = .opened (.ofLog old) := congrArg Dashboard.opened hafter
  obtain ⟨log, shown, hinv⟩ := (hopened ▸ Dashboard.inv_opened hkeyed :
    Dashboard.Inv limit old old [] d).run happenings
  have hdb : d.db = .ofLog old := hafter
  refine ⟨fun hfinished runId result hresult => ?_, hinv.pages, fun hsame => ?_⟩
  · rw [hdb] at hresult
    obtain ⟨c, hc, rfl, -⟩ := mem_of_getRun hkeyed hresult
    have hshown : c.summary ∈ d'.pages.flatMap (·.items) :=
      hinv.lines ▸ List.mem_map_of_mem (hinv.complete hfinished c hc)
    obtain ⟨page, hpage, hitem⟩ := List.mem_flatMap.mp hshown
    exact ⟨page, hpage, c.summary, hitem, describes_summary c⟩
  · have hlength : log.length = old.length := by
      have hruns := congrArg (fun db => db.runs.length) (hinv.db.symm.trans (hsame.trans hdb))
      simpa [Database.ofLog] using hruns
    have hlog : old = log := hinv.grown.eq_of_length hlength.symm
    have hlines := hinv.lines
    rw [hinv.rest hlog.symm] at hlines
    rw [hdb, listing_ofLog hkeyed, hlines]
    refine ⟨(List.take_prefix _ _).map _, fun hfinished => ?_⟩
    rw [List.take_of_length_le]
    rw [length_newestFirst]
    exact hinv.whole hlog.symm hfinished

end RunStore
