import ControlTranslation.JsonText
import ControlTranslation.LifecycleInvariant

/-!
# Workers of the lifecycle

An attempt of a worker runs `_process`: it reads what an earlier attempt staged,
or translates and stages its own output, reads it back, passes the cutoff, writes
the result outside the store and completes the run from what it read.  Attempts
of any workers take these steps in any order between the other calls of the
store, and may stop anywhere: a crash, a cancellation they observe, a lost lease,
an exception.

The documents of a publication are read back from text, so their formats are a
parameter: reading what was written gives the document again.
-/

namespace Lifecycle

open PyText Table Relation

/-- A text format: what it writes it reads back. -/
structure Codec (α : Type) where
  write : α → Str
  read : Str → Option α
  read_write : ∀ a, read (write a) = some a

open Classical in
/-- The JSON of plain documents is such a format: a text has at most one document. -/
noncomputable def Codec.json : Codec { v : JsonValue // JsonValue.finite v = true } where
  write v := JsonValue.dumps v.1
  read text :=
    if h : ∃ v : { v : JsonValue // JsonValue.finite v = true }, JsonValue.dumps v.1 = text then
      some h.choose
    else none
  read_write v := by
    have h : ∃ w : { v : JsonValue // JsonValue.finite v = true },
        JsonValue.dumps w.1 = JsonValue.dumps v.1 := ⟨v, rfl⟩
    rw [dif_pos h, Option.some.injEq]
    exact Subtype.ext (JsonValue.eq_of_print_eq JsonValue.readable_escapeChar
      JsonValue.readable_escapeChar h.choose.2 v.2 h.choose_spec)

/-- The formats of the columns: `parse_invocation_request_json`, the JSON of the
envelope model and the JSON of plain documents. -/
structure Formats (Request Envelope Document : Type) where
  parseRequest : Str → Option Request
  envelope : Codec Envelope
  document : Codec Document

/-- What an attempt stages. -/
structure Publication (Envelope Document : Type) where
  resultEnvelope : Envelope
  canonicalResult : Document
  completion : Document
  requestHash : Str
  startedAt : Int
  resultId : Str
  terminalState : Str

/-- `PreparedPublication`: what an attempt reads back. -/
structure PreparedPublication (Request Envelope Document : Type) where
  request : Request
  publication : Publication Envelope Document
  publicationState : PublicationState

variable {Request Envelope Document : Type} (formats : Formats Request Envelope Document)

/-- The columns a publication is staged in. -/
def Formats.columns (p : Publication Envelope Document) : Prepared :=
  { resultEnvelopeJson := formats.envelope.write p.resultEnvelope
    resultJson := formats.document.write p.canonicalResult
    completionJson := formats.document.write p.completion
    requestHash := p.requestHash
    startedAt := p.startedAt
    resultId := p.resultId
    terminalState := p.terminalState }

/-- The publication of some columns. -/
def Formats.parse (columns : Prepared) : Option (Publication Envelope Document) := do
  let resultEnvelope ← formats.envelope.read columns.resultEnvelopeJson
  let canonicalResult ← formats.document.read columns.resultJson
  let completion ← formats.document.read columns.completionJson
  return ⟨resultEnvelope, canonicalResult, completion, columns.requestHash, columns.startedAt,
    columns.resultId, columns.terminalState⟩

@[simp]
theorem Formats.parse_columns (p : Publication Envelope Document) :
    formats.parse (formats.columns p) = some p := by
  simp [parse, columns, Codec.read_write]

/-- `get_prepared_publication`. -/
def getPreparedPublication (runId : Str) (store : Store) :
    Except StoreError (Option (PreparedPublication Request Envelope Document)) :=
  match getLifecycleRun runId store with
  | none => .ok none
  | some row =>
      if row.publicationState = .none then .ok none
      else
        match formats.parseRequest row.requestJson, row.prepared.bind formats.parse with
        | some request, some publication =>
            .ok (some ⟨request, publication, row.publicationState⟩)
        | _, _ => .error (.persistence "Prepared result publication failed validation.")

/-- Where an attempt is in `_process`. -/
inductive Phase (Request Envelope Document : Type)
  /-- Claimed. -/
  | claimed
  /-- Nothing was staged before. -/
  | translating
  /-- It has staged its own output. -/
  | staged
  /-- It has read what is staged. -/
  | ready (prepared : PreparedPublication Request Envelope Document)
  /-- It has passed the cutoff. -/
  | begun (prepared : PreparedPublication Request Envelope Document)
  /-- Its external write has succeeded. -/
  | saved (prepared : PreparedPublication Request Envelope Document)
  | stopped

/-- What an attempt remembers of staged output. -/
def Phase.held : Phase Request Envelope Document →
    Option (PreparedPublication Request Envelope Document)
  | .ready prepared => some prepared
  | .begun prepared => some prepared
  | .saved prepared => some prepared
  | _ => none

/-- An attempt: the claimed run as it was answered, and its phase. -/
structure Attempt (Request Envelope Document : Type) where
  runId : Str
  workerId : Str
  attemptNumber : Nat
  requestDigest : Str
  startedAt : Option Int
  phase : Phase Request Envelope Document

/-- What a translation produces; the hash and the start are the run's own. -/
structure Translated (Envelope Document : Type) where
  resultEnvelope : Envelope
  canonicalResult : Document
  completion : Document
  resultId : Str
  terminalState : Str

/-- What an attempt stages of its translation. -/
def Attempt.publication (a : Attempt Request Envelope Document)
    (translated : Translated Envelope Document) (now : Int) : Publication Envelope Document :=
  { resultEnvelope := translated.resultEnvelope
    canonicalResult := translated.canonicalResult
    completion := translated.completion
    requestHash := a.requestDigest
    startedAt := a.startedAt.getD now
    resultId := translated.resultId
    terminalState := translated.terminalState }

/-- An external write, and whether its caller was told that it succeeded. -/
structure Write (Request Envelope Document : Type) where
  runId : Str
  request : Request
  resultEnvelope : Envelope
  requestHash : Str
  startedAt : Int
  canonicalResult : Document
  succeeded : Bool

/-- The arguments of `save_completed_run`. -/
def Attempt.write (a : Attempt Request Envelope Document)
    (prepared : PreparedPublication Request Envelope Document) (succeeded : Bool) :
    Write Request Envelope Document :=
  { runId := a.runId
    request := prepared.request
    resultEnvelope := prepared.publication.resultEnvelope
    requestHash := prepared.publication.requestHash
    startedAt := prepared.publication.startedAt
    canonicalResult := prepared.publication.canonicalResult
    succeeded := succeeded }

/-- What a completion stores of a publication. -/
def Formats.output (p : Publication Envelope Document) : Output :=
  { resultJson := formats.document.write p.canonicalResult
    completionJson := formats.document.write p.completion
    resultId := p.resultId
    terminalState := p.terminalState }

/-- The store, the attempts under way, what was staged and what was written. -/
structure Service (Request Envelope Document : Type) where
  store : Store
  attempts : List (Attempt Request Envelope Document)
  stagings : List (Str × Publication Envelope Document)
  writes : List (Write Request Envelope Document)

/-- Before anything happens. -/
def Service.initial : Service Request Envelope Document := ⟨Store.empty, [], [], []⟩

/-- How an external write ends: it succeeds, it takes effect but its caller is not
told, or it fails. -/
inductive SaveOutcome
  | succeeded
  | unanswered
  | failed

/-- What happens: a call of the store outside the publication path, a claim, or
the next step of an attempt. -/
inductive ServiceEvent (Envelope Document : Type)
  | call (operation : Operation)
  | claim (workerId : Str) (leaseSeconds : Int) (maxAttempts : Nat) (now : Int)
  | read (index : Nat)
  | stage (index : Nat) (translated : Translated Envelope Document) (clock now : Int)
  | beginPublication (index : Nat) (now : Int)
  | save (index : Nat) (outcome : SaveOutcome)
  | complete (index : Nat) (now : Int)
  | stop (index : Nat)

/-- Calls outside the publication path: by the service, by heartbeats and by
attempts that report a failure. -/
def Operation.isAside : Operation → Bool
  | .create .. => true
  | .heartbeat .. => true
  | .fail .. => true
  | .cancel .. => true
  | .callbackDelivered .. => true
  | .callbackRescheduled .. => true
  | .callbackConfigurationFailed .. => true
  | _ => false

/-- The attempt a claimed run starts. -/
def Attempt.ofRow (row : Row) (workerId : Str) : Attempt Request Envelope Document :=
  { runId := row.runId
    workerId := workerId
    attemptNumber := row.attemptNumber
    requestDigest := row.requestDigest
    startedAt := row.startedAt
    phase := .claimed }

/-- Move one attempt on. -/
def Service.move (service : Service Request Envelope Document) (index : Nat)
    (a : Attempt Request Envelope Document) (phase : Phase Request Envelope Document) :
    Service Request Envelope Document :=
  { service with attempts := service.attempts.set index { a with phase := phase } }

/-- The first read of an attempt, or the read after it has staged. -/
def Service.readStep (service : Service Request Envelope Document) (index : Nat)
    (a : Attempt Request Envelope Document) (missing : Phase Request Envelope Document) :
    Service Request Envelope Document :=
  match getPreparedPublication formats a.runId service.store with
  | .ok (some prepared) => service.move index a (.ready prepared)
  | .ok none => service.move index a missing
  | .error _ => service.move index a .stopped

/-- An attempt stages its output. -/
def Service.stageStep (service : Service Request Envelope Document) (index : Nat)
    (a : Attempt Request Envelope Document) (p : Publication Envelope Document) (now : Int) :
    Service Request Envelope Document :=
  let answer := prepareLifecyclePublication a.runId a.workerId a.attemptNumber
    (formats.columns p) now service.store
  if answer.1 then
    { service.move index a .staged with
      store := answer.2
      stagings := service.stagings ++ [(a.runId, p)] }
  else { service.move index a .stopped with store := answer.2 }

/-- An attempt asks for the cutoff. -/
def Service.beginStep (service : Service Request Envelope Document) (index : Nat)
    (a : Attempt Request Envelope Document)
    (prepared : PreparedPublication Request Envelope Document) (now : Int) :
    Service Request Envelope Document :=
  let answer := beginLifecyclePublication a.runId a.workerId a.attemptNumber now service.store
  { service.move index a (if answer.1 then .begun prepared else .stopped) with store := answer.2 }

/-- An attempt writes outside the store. -/
def Service.saveStep (service : Service Request Envelope Document) (index : Nat)
    (a : Attempt Request Envelope Document)
    (prepared : PreparedPublication Request Envelope Document) :
    SaveOutcome → Service Request Envelope Document
  | .succeeded => { service.move index a (.saved prepared) with
      writes := service.writes ++ [a.write prepared true] }
  | .unanswered => { service.move index a .stopped with
      writes := service.writes ++ [a.write prepared false] }
  | .failed => service.move index a .stopped

/-- An attempt completes the run. -/
def Service.completeStep (service : Service Request Envelope Document) (index : Nat)
    (a : Attempt Request Envelope Document)
    (prepared : PreparedPublication Request Envelope Document) (now : Int) :
    Service Request Envelope Document :=
  { service.move index a .stopped with
    store := after (.complete a.runId a.workerId a.attemptNumber
      (formats.output prepared.publication) now) service.store }

/-- The step of one attempt, if there is one. -/
def Service.withAttempt (service : Service Request Envelope Document) (index : Nat)
    (step : Attempt Request Envelope Document → Service Request Envelope Document) :
    Service Request Envelope Document :=
  match service.attempts[index]? with
  | some a => step a
  | none => service

/-- One event; a step that the attempt is not at does nothing. -/
def Service.step (service : Service Request Envelope Document) :
    ServiceEvent Envelope Document → Service Request Envelope Document
  | .call operation =>
      if operation.isAside then { service with store := after operation service.store }
      else service
  | .claim workerId leaseSeconds maxAttempts now =>
      let answer := claimLifecycleRun workerId leaseSeconds maxAttempts now service.store
      { service with
        store := answer.2
        attempts := service.attempts ++ (answer.1.map (Attempt.ofRow · workerId)).toList }
  | .read index => service.withAttempt index fun a =>
      match a.phase with
      | .claimed => service.readStep formats index a .translating
      | .staged => service.readStep formats index a .stopped
      | _ => service
  | .stage index translated clock now => service.withAttempt index fun a =>
      match a.phase with
      | .translating => service.stageStep formats index a (a.publication translated clock) now
      | _ => service
  | .beginPublication index now => service.withAttempt index fun a =>
      match a.phase with
      | .ready prepared => service.beginStep index a prepared now
      | _ => service
  | .save index outcome => service.withAttempt index fun a =>
      match a.phase with
      | .begun prepared => service.saveStep index a prepared outcome
      | _ => service
  | .complete index now => service.withAttempt index fun a =>
      match a.phase with
      | .saved prepared => service.completeStep formats index a prepared now
      | _ => service
  | .stop index => service.withAttempt index fun a => service.move index a .stopped

/-- The service after some events, in order. -/
def Service.run (events : List (ServiceEvent Envelope Document))
    (service : Service Request Envelope Document) : Service Request Envelope Document :=
  events.foldl (fun service event => service.step formats event) service

/-- Everything but staging and completing. -/
def Permits.aside : Permits := ⟨fun _ => True, False, False⟩

/-- The columns a completion stores. -/
def Row.outcome (r : Row) : Option Str × Option Str × Option Str × Option Str :=
  (r.resultJson, r.completionJson, r.resultId, r.terminalState)

/-- What is staged stays. -/
theorem prepared_step {permits : Permits} {r r' : Row} (h : RowStep permits r r') (hinv : RowInv r)
    {columns : Prepared} (hprepared : r.prepared = some columns) :
    r'.prepared = some columns := by
  cases h with
  | prepare workerId attemptNumber output now hpermit h =>
      simp only [prepare, Bool.and_eq_true, beq_iff_eq] at h
      rw [hinv.staged.mp h.1.2] at hprepared
      cases hprepared
  | _ => exact hprepared

/-- A prepared output is kept through every run of steps. -/
theorem prepared_steps {permits : Permits} {r r' : Row}
    (h : ReflTransGen (RowStep permits) r r') (hinv : RowInv r) {columns : Prepared}
    (hprepared : r.prepared = some columns) : r'.prepared = some columns := by
  have hboth : RowInv r' ∧ r'.prepared = some columns := by
    induction h with
    | refl => exact ⟨hinv, hprepared⟩
    | tail _ hlast ih => exact ⟨rowInv_step hlast ih.1, prepared_step hlast ih.1 ih.2⟩
  exact hboth.2

/-- Aside from staging and completing, rows keep what is staged, and completed rows
come from completed ones. -/
theorem aside_step {r r' : Row} (h : RowStep .aside r r') :
    r'.prepared = r.prepared ∧
      (r'.status = .completed → r.status = .completed ∧ r'.outcome = r.outcome) := by
  cases h with
  | attach callback now h => exact ⟨rfl, fun hstatus => ⟨hstatus, rfl⟩⟩
  | prepare workerId attemptNumber output now hpermit h => exact hpermit.elim
  | complete workerId attemptNumber output now hpermit h => exact hpermit.elim
  | fail workerId attemptNumber failure result now h =>
      refine ⟨rfl, fun hstatus => ?_⟩
      dsimp only [failUpdate] at hstatus
      split_ifs at hstatus
  | heartbeat workerId attemptNumber lease now h => exact ⟨rfl, fun hstatus => ⟨hstatus, rfl⟩⟩
  | beginPublication workerId attemptNumber now h => exact ⟨rfl, fun hstatus => ⟨hstatus, rfl⟩⟩
  | cancelPending now h => exact ⟨rfl, fun hstatus => ⟨hstatus, rfl⟩⟩
  | exhaustPublication now maxAttempts h => exact ⟨rfl, fun hstatus => by cases hstatus⟩
  | cancelExpired now h => exact ⟨rfl, fun hstatus => by cases hstatus⟩
  | exhaustAttempts now maxAttempts h => exact ⟨rfl, fun hstatus => by cases hstatus⟩
  | claim workerId lease now maxAttempts hlimit h => exact ⟨rfl, fun hstatus => by cases hstatus⟩
  | cancelCompleting workerId attemptNumber now h => exact ⟨rfl, fun hstatus => by cases hstatus⟩
  | cancelQueued now h => exact ⟨rfl, fun hstatus => by cases hstatus⟩
  | cancelRunning now h hstate => exact ⟨rfl, fun hstatus => by cases hstatus⟩

/-- Steps beside the worker complete no run. -/
theorem aside_steps {r r' : Row} (h : ReflTransGen (RowStep .aside) r r') :
    r'.prepared = r.prepared ∧
      (r'.status = .completed → r.status = .completed ∧ r'.outcome = r.outcome) := by
  induction h with
  | refl => exact ⟨rfl, fun hstatus => ⟨hstatus, rfl⟩⟩
  | tail _ hlast ih =>
      obtain ⟨hprepared, hcompleted⟩ := aside_step hlast
      refine ⟨hprepared.trans ih.1, fun hstatus => ?_⟩
      obtain ⟨hbefore, hsame⟩ := hcompleted hstatus
      obtain ⟨hfirst, hsame'⟩ := ih.2 hbefore
      exact ⟨hfirst, hsame.trans hsame'⟩

/-- A completed row holds what was staged for it, after a write that succeeded. -/
def CompletedFrom (stagings : List (Str × Publication Envelope Document))
    (writes : List (Write Request Envelope Document)) (r : Row) : Prop :=
  ∃ p, (r.runId, p) ∈ stagings ∧
    r.outcome = (some (formats.document.write p.canonicalResult),
      some (formats.document.write p.completion), some p.resultId, some p.terminalState) ∧
    ∃ w ∈ writes, w.runId = r.runId ∧ w.succeeded = true

/-- The rows hold what was staged, and nothing else is staged. -/
structure StoreInv (store : Store) (stagings : List (Str × Publication Envelope Document))
    (writes : List (Write Request Envelope Document)) : Prop where
  keyed : Keyed store.runs
  rows : ∀ r ∈ store.runs, RowInv r
  staged : ∀ s ∈ stagings, ∃ r ∈ store.runs,
    r.runId = s.1 ∧ r.prepared = some (formats.columns s.2)
  origin : ∀ r ∈ store.runs, r.prepared ≠ none → ∃ s ∈ stagings, s.1 = r.runId
  completed : ∀ r ∈ store.runs, r.status = .completed → CompletedFrom formats stagings writes r

/-- What attempts remember, and what was written, was staged; a run is staged
once. -/
structure MemoryInv (attempts : List (Attempt Request Envelope Document))
    (stagings : List (Str × Publication Envelope Document))
    (writes : List (Write Request Envelope Document)) : Prop where
  once : (stagings.map (·.1)).Nodup
  held : ∀ a ∈ attempts, ∀ prepared, a.phase.held = some prepared →
    (a.runId, prepared.publication) ∈ stagings
  told : ∀ a ∈ attempts, ∀ prepared, a.phase = .saved prepared →
    ∃ w ∈ writes, w.runId = a.runId ∧ w.succeeded = true
  written : ∀ w ∈ writes, ∃ p, (w.runId, p) ∈ stagings ∧ w.resultEnvelope = p.resultEnvelope ∧
    w.requestHash = p.requestHash ∧ w.startedAt = p.startedAt

variable {formats}
variable {store : Store} {stagings : List (Str × Publication Envelope Document)}
  {writes : List (Write Request Envelope Document)}
  {attempts : List (Attempt Request Envelope Document)}

/-- More stagings and writes keep a completed run accounted for. -/
theorem CompletedFrom.mono {stagings' : List (Str × Publication Envelope Document)}
    {writes' : List (Write Request Envelope Document)} {r : Row}
    (h : CompletedFrom formats stagings writes r) (hstagings : ∀ s ∈ stagings, s ∈ stagings')
    (hwrites : ∀ w ∈ writes, w ∈ writes') : CompletedFrom formats stagings' writes' r := by
  obtain ⟨p, hp, houtcome, w, hw, hid⟩ := h
  exact ⟨p, hstagings _ hp, houtcome, w, hwrites w hw, hid⟩

/-- More writes do not disturb the rows. -/
theorem StoreInv.mono_writes (h : StoreInv formats store stagings writes)
    {writes' : List (Write Request Envelope Document)} (hwrites : ∀ w ∈ writes, w ∈ writes') :
    StoreInv formats store stagings writes' :=
  ⟨h.keyed, h.rows, h.staged, h.origin, fun r hr hstatus =>
    (h.completed r hr hstatus).mono (fun _ hs => hs) hwrites⟩

/-- What is staged stays in the rows, whatever moves them. -/
theorem StoreInv.staged_of_evolved {permits : Permits} (h : StoreInv formats store stagings writes)
    {runs : List Row} (hmoved : Evolved (RowStep permits) Inserted store.runs runs) :
    ∀ s ∈ stagings, ∃ r ∈ runs, r.runId = s.1 ∧ r.prepared = some (formats.columns s.2) := by
  intro s hs
  obtain ⟨r, hr, hid, hprepared⟩ := h.staged s hs
  obtain ⟨r', hr', hsteps⟩ := hmoved.forth hr
  exact ⟨r', hr', (key_of_steps (fun _ _ hstep => hstep.runId_eq) hsteps).trans hid,
    prepared_steps hsteps (h.rows r hr) hprepared⟩

/-- An operation aside from the publication path. -/
theorem StoreInv.aside (h : StoreInv formats store stagings writes) {operation : Operation}
    (haside : operation.within .aside) :
    StoreInv formats (after operation store) stagings writes := by
  have hmoved := after_evolved haside h.keyed
  refine ⟨after_keyed operation h.keyed, after_rowInv operation h.keyed h.rows,
    h.staged_of_evolved hmoved, fun r' hr' hprepared => ?_, fun r' hr' hstatus => ?_⟩
  · rcases hmoved.back hr' with ⟨r, hr, hsteps⟩ | ⟨r₀, ⟨_, _, _, _, _, _, _, _, rfl⟩, hsteps⟩
    · rw [(aside_steps hsteps).1] at hprepared
      obtain ⟨s, hs, hid⟩ := h.origin r hr hprepared
      exact ⟨s, hs, hid.trans (key_of_steps (fun _ _ hstep => hstep.runId_eq) hsteps).symm⟩
    · exact absurd (aside_steps hsteps).1 hprepared
  · rcases hmoved.back hr' with ⟨r, hr, hsteps⟩ | ⟨r₀, ⟨_, _, _, _, _, _, _, _, rfl⟩, hsteps⟩
    · obtain ⟨hbefore, hsame⟩ := (aside_steps hsteps).2 hstatus
      have hid : r'.runId = r.runId := key_of_steps (fun _ _ hstep => hstep.runId_eq) hsteps
      obtain ⟨p, hp, houtcome, hwrite⟩ := h.completed r hr hbefore
      refine ⟨p, ?_, hsame.trans houtcome, ?_⟩
      · rwa [hid]
      · rwa [hid]
    · cases ((aside_steps hsteps).2 hstatus).1

/-- A run is staged at most once: staging it succeeds only where nothing is
staged, and stages exactly the columns given. -/
theorem StoreInv.stage (h : StoreInv formats store stagings writes) {runId workerId : Str}
    {attemptNumber : Nat} {p : Publication Envelope Document} {now : Int}
    (hanswer : (prepareLifecyclePublication runId workerId attemptNumber (formats.columns p) now
      store).1 = true) :
    runId ∉ stagings.map (·.1) ∧
      StoreInv formats (prepareLifecyclePublication runId workerId attemptNumber
        (formats.columns p) now store).2 (stagings ++ [(runId, p)]) writes := by
  let u := prepare runId workerId attemptNumber (formats.columns p) now
  have haffected : u.affected store.runs = 1 := eq_of_beq hanswer
  obtain ⟨row, hrow, happlies⟩ := Update.exists_of_affected (by omega : u.affected store.runs ≠ 0)
  have hid : row.runId = runId := ownedBy_runId (prepare_owned happlies)
  have hfresh : row.prepared = none := by
    simp only [u, prepare, Bool.and_eq_true, beq_iff_eq] at happlies
    exact (h.rows row hrow).staged.mp happlies.1.2
  have hmem : u.assign row ∈ u.run store.runs :=
    List.mem_map.mpr ⟨row, hrow, by simp only [Update.on, happlies, if_true]⟩
  have hoperation : after (.prepare runId workerId attemptNumber (formats.columns p) now) store =
      ⟨u.run store.runs, store.deliveries⟩ := rfl
  have hmoved := @after_evolved .all _ (within_all
    (.prepare runId workerId attemptNumber (formats.columns p) now)) store h.keyed
  have hkeys := after_keyed (.prepare runId workerId attemptNumber (formats.columns p) now) h.keyed
  have hrows := after_rowInv (.prepare runId workerId attemptNumber (formats.columns p) now)
    h.keyed h.rows
  rw [hoperation] at hmoved hkeys hrows
  refine ⟨fun hstaged => ?_, hkeys, hrows, fun s hs => ?_, fun r' hr' hprepared => ?_,
    fun r' hr' hstatus => ?_⟩
  · obtain ⟨s, hs, heq⟩ := List.mem_map.mp hstaged
    obtain ⟨r, hr, hrid, hprepared⟩ := h.staged s hs
    obtain rfl := eq_of_key h.keyed.runId hr hrow (hrid.trans (heq.trans hid.symm))
    rw [hfresh] at hprepared
    cases hprepared
  · rcases List.mem_append.mp hs with hs | hs
    · exact h.staged_of_evolved hmoved s hs
    · obtain rfl := List.mem_singleton.mp hs
      exact ⟨u.assign row, hmem, hid, rfl⟩
  · rcases Update.mem_run hr' with hr | ⟨r, hr, hr'applies, rfl⟩
    · obtain ⟨s, hs, hsid⟩ := h.origin r' hr hprepared
      exact ⟨s, List.mem_append_left _ hs, hsid⟩
    · exact ⟨(runId, p), List.mem_append_right _ List.mem_cons_self,
        (ownedBy_runId (prepare_owned hr'applies)).symm⟩
  · rcases Update.mem_run hr' with hr | ⟨r, hr, hr'applies, rfl⟩
    · exact (h.completed r' hr hstatus).mono (fun _ hs => List.mem_append_left _ hs) fun _ hw => hw
    · have hrunning := (ownedBy_iff.mp (prepare_owned hr'applies)).2.1
      exact absurd (hrunning.symm.trans hstatus) (by decide)

/-- A completion from what is staged, after a write. -/
theorem StoreInv.complete (h : StoreInv formats store stagings writes) {runId workerId : Str}
    {attemptNumber : Nat} {p : Publication Envelope Document} {now : Int}
    (hstaged : (runId, p) ∈ stagings) (htold : ∃ w ∈ writes, w.runId = runId ∧ w.succeeded = true) :
    StoreInv formats (after (.complete runId workerId attemptNumber (formats.output p) now) store)
      stagings writes := by
  have hoperation := complete_cases runId workerId attemptNumber (formats.output p) now h.keyed
  have hmoved := @after_evolved .all _ (within_all
    (.complete runId workerId attemptNumber (formats.output p) now)) store h.keyed
  refine ⟨after_keyed _ h.keyed, after_rowInv _ h.keyed h.rows, h.staged_of_evolved hmoved, ?_, ?_⟩
  · intro r' hr' hprepared
    rcases hoperation with heq | heq | heq
    · rw [heq] at hr'
      exact h.origin r' hr' hprepared
    · rw [heq] at hr'
      rcases Update.mem_run hr' with hr | ⟨r, hr, -, rfl⟩
      · exact h.origin r' hr hprepared
      · exact h.origin r hr hprepared
    · rw [heq] at hr'
      rcases Update.mem_run hr' with hr | ⟨r, hr, -, rfl⟩
      · exact h.origin r' hr hprepared
      · exact h.origin r hr hprepared
  · intro r' hr' hstatus
    rcases hoperation with heq | heq | heq
    · rw [heq] at hr'
      exact h.completed r' hr' hstatus
    · rw [heq] at hr'
      rcases Update.mem_run hr' with hr | ⟨r, hr, -, rfl⟩
      · exact h.completed r' hr hstatus
      · cases hstatus
    · rw [heq] at hr'
      rcases Update.mem_run hr' with hr | ⟨r, hr, happlies, rfl⟩
      · exact h.completed r' hr hstatus
      · have hid : r.runId = runId := ownedBy_runId (complete_owned happlies)
        refine ⟨p, ?_, rfl, ?_⟩
        · show (r.runId, p) ∈ stagings
          rwa [hid]
        · show ∃ w ∈ writes, w.runId = r.runId ∧ w.succeeded = true
          rwa [hid]

/-- What an attempt reads back was staged. -/
theorem StoreInv.read (h : StoreInv formats store stagings writes) {runId : Str}
    {prepared : PreparedPublication Request Envelope Document}
    (hread : getPreparedPublication formats runId store = .ok (some prepared)) :
    (runId, prepared.publication) ∈ stagings := by
  unfold getPreparedPublication at hread
  cases hfind : getLifecycleRun runId store with
  | none =>
      rw [hfind] at hread
      cases hread
  | some row =>
      rw [hfind] at hread
      dsimp only at hread
      obtain ⟨hrow, rfl⟩ := getLifecycleRun_eq_some hfind
      by_cases hstate : row.publicationState = .none
      · rw [if_pos hstate] at hread
        cases hread
      rw [if_neg hstate] at hread
      have hstaged : row.prepared ≠ none := fun hnone => hstate ((h.rows row hrow).staged.mpr hnone)
      obtain ⟨s, hs, hid⟩ := h.origin row hrow hstaged
      obtain ⟨row', hrow', hid', hcolumns⟩ := h.staged s hs
      obtain rfl := eq_of_key h.keyed.runId hrow' hrow (hid'.trans hid)
      rw [hcolumns, Option.bind_some, formats.parse_columns] at hread
      cases hrequest : formats.parseRequest row'.requestJson with
      | none =>
          rw [hrequest] at hread
          cases hread
      | some request =>
          rw [hrequest] at hread
          cases hread
          exact hid ▸ hs

/-- More stagings and writes do not disturb what attempts remember. -/
theorem MemoryInv.move (h : MemoryInv attempts stagings writes) {index : Nat}
    {a : Attempt Request Envelope Document}
    {phase : Phase Request Envelope Document}
    (hheld : ∀ prepared, phase.held = some prepared → (a.runId, prepared.publication) ∈ stagings)
    (htold : ∀ prepared, phase = .saved prepared →
      ∃ w ∈ writes, w.runId = a.runId ∧ w.succeeded = true) :
    MemoryInv (attempts.set index { a with phase := phase }) stagings writes := by
  refine ⟨h.once, fun b hb prepared hprepared => ?_, fun b hb prepared hprepared => ?_, h.written⟩
  · rcases List.mem_or_eq_of_mem_set hb with hb | rfl
    · exact h.held b hb prepared hprepared
    · exact hheld prepared hprepared
  · rcases List.mem_or_eq_of_mem_set hb with hb | rfl
    · exact h.told b hb prepared hprepared
    · exact htold prepared hprepared

/-- An attempt that forgets what it read. -/
theorem MemoryInv.forget (h : MemoryInv attempts stagings writes) {index : Nat}
    {a : Attempt Request Envelope Document}
    {phase : Phase Request Envelope Document} (hnone : phase.held = none) :
    MemoryInv (attempts.set index { a with phase := phase }) stagings writes := by
  refine h.move (fun prepared hheld => ?_) fun prepared hsaved => ?_
  · rw [hnone] at hheld
    cases hheld
  · rw [hsaved] at hnone
    cases hnone

/-- A new staging of a run that has none. -/
theorem MemoryInv.stage (h : MemoryInv attempts stagings writes) {runId : Str}
    {p : Publication Envelope Document} (hfresh : runId ∉ stagings.map (·.1)) :
    MemoryInv attempts (stagings ++ [(runId, p)]) writes := by
  refine ⟨?_, fun a ha prepared hheld => List.mem_append_left _ (h.held a ha prepared hheld),
    h.told, fun w hw => ?_⟩
  · rw [List.map_append, List.map_singleton, List.nodup_append]
    refine ⟨h.once, List.nodup_singleton _, fun x hx y hy => ?_⟩
    rw [List.mem_singleton.mp hy]
    intro heq
    subst heq
    exact hfresh hx
  · obtain ⟨p', hp', hsame⟩ := h.written w hw
    exact ⟨p', List.mem_append_left _ hp', hsame⟩

/-- A write of what an attempt holds. -/
theorem MemoryInv.write (h : MemoryInv attempts stagings writes)
    {a : Attempt Request Envelope Document}
    {prepared : PreparedPublication Request Envelope Document}
    (hheld : (a.runId, prepared.publication) ∈ stagings) (succeeded : Bool) :
    MemoryInv attempts stagings (writes ++ [a.write prepared succeeded]) := by
  refine ⟨h.once, h.held, fun b hb p hp => ?_, fun w hw => ?_⟩
  · obtain ⟨w, hw, hid⟩ := h.told b hb p hp
    exact ⟨w, List.mem_append_left _ hw, hid⟩
  · rcases List.mem_append.mp hw with hw | hw
    · exact h.written w hw
    · obtain rfl := List.mem_singleton.mp hw
      exact ⟨prepared.publication, hheld, rfl, rfl, rfl⟩

/-- The invariant of the service. -/
structure Service.Inv (formats : Formats Request Envelope Document)
    (service : Service Request Envelope Document) : Prop where
  store : StoreInv formats service.store service.stagings service.writes
  memory : MemoryInv service.attempts service.stagings service.writes

theorem Service.inv_initial :
    (Service.initial : Service Request Envelope Document).Inv formats where
  store := ⟨keyed_empty, fun _ h => absurd h List.not_mem_nil, fun _ h => absurd h List.not_mem_nil,
    fun _ h => absurd h List.not_mem_nil, fun _ h => absurd h List.not_mem_nil⟩
  memory := ⟨List.nodup_nil, fun _ h => absurd h List.not_mem_nil,
    fun _ h => absurd h List.not_mem_nil, fun _ h => absurd h List.not_mem_nil⟩

variable {service : Service Request Envelope Document}

/-- A step of an attempt keeps it if it does for every attempt. -/
theorem Service.Inv.withAttempt (h : service.Inv formats) {index : Nat}
    {step : Attempt Request Envelope Document → Service Request Envelope Document}
    (hstep : ∀ a ∈ service.attempts, (step a).Inv formats) :
    (service.withAttempt index step).Inv formats := by
  unfold Service.withAttempt
  cases hget : service.attempts[index]? with
  | none => exact h
  | some a => exact hstep a (List.mem_of_getElem? hget)

theorem Service.Inv.readStep (h : service.Inv formats) (index : Nat)
    (a : Attempt Request Envelope Document) {missing : Phase Request Envelope Document}
    (hmissing : missing.held = none) : (service.readStep formats index a missing).Inv formats := by
  unfold Service.readStep
  cases hread : getPreparedPublication formats a.runId service.store with
  | error => exact ⟨h.store, h.memory.forget rfl⟩
  | ok found =>
      cases found with
      | none => exact ⟨h.store, h.memory.forget hmissing⟩
      | some prepared =>
          refine ⟨h.store, h.memory.move (fun other hheld => ?_) fun other hsaved => ?_⟩
          · obtain rfl := Option.some.inj hheld
            exact h.store.read hread
          · cases hsaved

theorem Service.Inv.stageStep (h : service.Inv formats) (index : Nat)
    (a : Attempt Request Envelope Document) (p : Publication Envelope Document) (now : Int) :
    (service.stageStep formats index a p now).Inv formats := by
  unfold Service.stageStep
  dsimp only
  by_cases hanswer : (prepareLifecyclePublication a.runId a.workerId a.attemptNumber
      (formats.columns p) now service.store).1 = true
  · rw [if_pos hanswer]
    obtain ⟨hfresh, hstore⟩ := h.store.stage hanswer
    exact ⟨hstore, (h.memory.stage hfresh).forget rfl⟩
  · rw [if_neg hanswer]
    have hnone : (prepare a.runId a.workerId a.attemptNumber (formats.columns p) now).affected
        service.store.runs ≠ 1 := fun hone => hanswer (beq_iff_eq.mpr hone)
    obtain ⟨-, hidle⟩ := idle_of_affected h.store.keyed
      (fun r happlies => ownedBy_runId (prepare_owned happlies)) hnone
    have hsame : (prepareLifecyclePublication a.runId a.workerId a.attemptNumber
        (formats.columns p) now service.store).2 = service.store := by
      simp only [prepareLifecyclePublication, hidle]
    rw [hsame]
    exact ⟨h.store, h.memory.forget rfl⟩

theorem Service.Inv.beginStep (h : service.Inv formats) (index : Nat)
    {a : Attempt Request Envelope Document}
    {prepared : PreparedPublication Request Envelope Document}
    (hheld : (a.runId, prepared.publication) ∈ service.stagings) (now : Int) :
    (service.beginStep index a prepared now).Inv formats := by
  refine ⟨@StoreInv.aside _ _ _ _ _ _ _ h.store
    (.beginPublication a.runId a.workerId a.attemptNumber now) trivial, ?_⟩
  refine h.memory.move (fun other hother => ?_) fun other hsaved => ?_
  · split_ifs at hother
    · obtain rfl := Option.some.inj hother
      exact hheld
    · cases hother
  · split_ifs at hsaved

theorem Service.Inv.saveStep (h : service.Inv formats) (index : Nat)
    {a : Attempt Request Envelope Document}
    {prepared : PreparedPublication Request Envelope Document}
    (hheld : (a.runId, prepared.publication) ∈ service.stagings) (outcome : SaveOutcome) :
    (service.saveStep index a prepared outcome).Inv formats := by
  cases outcome with
  | succeeded =>
      refine ⟨h.store.mono_writes fun w hw => List.mem_append_left _ hw, ?_⟩
      refine (h.memory.write hheld true).move (fun other hother => ?_) fun other _ => ?_
      · obtain rfl := Option.some.inj hother
        exact hheld
      · exact ⟨a.write prepared true, List.mem_append_right _ List.mem_cons_self, rfl, rfl⟩
  | unanswered =>
      exact ⟨h.store.mono_writes fun w hw => List.mem_append_left _ hw,
        (h.memory.write hheld false).forget rfl⟩
  | failed => exact ⟨h.store, h.memory.forget rfl⟩

/-- Operations outside the publication path neither stage nor complete. -/
theorem within_aside {operation : Operation} (h : operation.isAside = true) :
    operation.within .aside := by
  cases operation with
  | prepare => cases h
  | complete => cases h
  | _ => trivial

/-- Every event keeps the invariant. -/
theorem Service.Inv.step (h : service.Inv formats) (event : ServiceEvent Envelope Document) :
    (service.step formats event).Inv formats := by
  cases event with
  | call operation =>
      dsimp only [Service.step]
      split_ifs with haside
      · exact ⟨h.store.aside (within_aside haside), h.memory⟩
      · exact h
  | claim workerId leaseSeconds maxAttempts now =>
      refine ⟨@StoreInv.aside _ _ _ _ _ _ _ h.store
        (.claim workerId leaseSeconds maxAttempts now) trivial, ?_⟩
      -- The attempt that starts holds nothing yet.
      refine ⟨h.memory.once, fun a ha prepared hheld => ?_, fun a ha prepared hsaved => ?_,
        h.memory.written⟩
      · rcases List.mem_append.mp ha with ha | ha
        · exact h.memory.held a ha prepared hheld
        · obtain ⟨row, -, rfl⟩ := Option.map_eq_some_iff.mp (Option.mem_toList.mp ha)
          cases hheld
      · rcases List.mem_append.mp ha with ha | ha
        · exact h.memory.told a ha prepared hsaved
        · obtain ⟨row, -, rfl⟩ := Option.map_eq_some_iff.mp (Option.mem_toList.mp ha)
          cases hsaved
  | read index =>
      refine h.withAttempt fun a _ => ?_
      split
      · exact h.readStep index a rfl
      · exact h.readStep index a rfl
      · exact h
  | stage index translated clock now =>
      refine h.withAttempt fun a _ => ?_
      split
      · exact h.stageStep index a _ now
      · exact h
  | beginPublication index now =>
      refine h.withAttempt fun a ha => ?_
      split
      · rename_i prepared hphase
        exact h.beginStep index (h.memory.held a ha prepared (by rw [hphase]; rfl)) now
      · exact h
  | save index outcome =>
      refine h.withAttempt fun a ha => ?_
      split
      · rename_i prepared hphase
        exact h.saveStep index (h.memory.held a ha prepared (by rw [hphase]; rfl)) outcome
      · exact h
  | complete index now =>
      refine h.withAttempt fun a ha => ?_
      split
      · rename_i prepared hphase
        have hheld := h.memory.held a ha prepared (by rw [hphase]; rfl)
        exact ⟨h.store.complete hheld (h.memory.told a ha prepared hphase), h.memory.forget rfl⟩
      · exact h
  | stop index => exact h.withAttempt fun a _ => ⟨h.store, h.memory.forget rfl⟩

/-- Every run of the service keeps the invariant. -/
theorem Service.Inv.run (events : List (ServiceEvent Envelope Document)) (h : service.Inv formats) :
    (service.run formats events).Inv formats := by
  induction events generalizing service with
  | nil => exact h
  | cons event rest ih => exact ih (h.step event)

/-- Nothing staged is forgotten. -/
theorem Service.stagings_step (event : ServiceEvent Envelope Document)
    {s : Str × Publication Envelope Document} (hs : s ∈ service.stagings) :
    s ∈ (service.step formats event).stagings := by
  have hattempt : ∀ {index : Nat} {step : Attempt Request Envelope Document →
      Service Request Envelope Document}, (∀ a, s ∈ (step a).stagings) →
      s ∈ (service.withAttempt index step).stagings := by
    intro index step hstep
    unfold Service.withAttempt
    cases service.attempts[index]? with
    | none => exact hs
    | some a => exact hstep a
  have hread : ∀ index a missing, s ∈ (service.readStep formats index a missing).stagings := by
    intro index a missing
    unfold Service.readStep
    split <;> exact hs
  cases event with
  | call operation =>
      dsimp only [Service.step]
      split_ifs <;> exact hs
  | claim => exact hs
  | read index =>
      refine hattempt fun a => ?_
      split
      · exact hread index a .translating
      · exact hread index a .stopped
      · exact hs
  | stage index translated clock now =>
      refine hattempt fun a => ?_
      split
      · unfold Service.stageStep
        dsimp only
        split_ifs
        · exact List.mem_append_left _ hs
        · exact hs
      · exact hs
  | beginPublication index now =>
      refine hattempt fun a => ?_
      split <;> exact hs
  | save index outcome =>
      refine hattempt fun a => ?_
      split
      · cases outcome <;> exact hs
      · exact hs
  | complete index now =>
      refine hattempt fun a => ?_
      split <;> exact hs
  | stop index => exact hattempt fun a => hs

/-- What was staged stays so. -/
theorem Service.stagings_run (events : List (ServiceEvent Envelope Document))
    {s : Str × Publication Envelope Document} (hs : s ∈ service.stagings) :
    s ∈ (service.run formats events).stagings := by
  induction events generalizing service with
  | nil => exact hs
  | cons event rest ih => exact ih (Service.stagings_step event hs)

variable (formats)

/-- **One staged output.**  Whatever attempts do and wherever they stop, a run is
staged at most once and keeps what is staged; every external write of the run is
of the staged envelope, hash and start; and a completed run stores what was
staged, after an external write that succeeded. -/
theorem one_staged_output (events later : List (ServiceEvent Envelope Document)) (runId : Str) :
    ((Service.run formats events Service.initial).stagings.filter (·.1 == runId)).length ≤ 1 ∧
    (∀ p, (runId, p) ∈ (Service.run formats events Service.initial).stagings →
      ∀ r ∈ (Service.run formats (events ++ later) Service.initial).store.runs, r.runId = runId →
        r.prepared = some (formats.columns p)) ∧
    (∀ w ∈ (Service.run formats events Service.initial).writes, w.runId = runId →
      ∃ p, (runId, p) ∈ (Service.run formats events Service.initial).stagings ∧
        w.resultEnvelope = p.resultEnvelope ∧ w.requestHash = p.requestHash ∧
        w.startedAt = p.startedAt) ∧
    ∀ r ∈ (Service.run formats events Service.initial).store.runs, r.runId = runId →
      r.status = .completed → ∃ columns, r.prepared = some columns ∧
        r.resultJson = some columns.resultJson ∧ r.completionJson = some columns.completionJson ∧
        r.resultId = some columns.resultId ∧ r.terminalState = some columns.terminalState ∧
        ∃ w ∈ (Service.run formats events Service.initial).writes,
          w.runId = runId ∧ w.succeeded = true := by
  have hinv := Service.Inv.run events
    (Service.inv_initial : (Service.initial : Service Request Envelope Document).Inv formats)
  refine ⟨?_, fun p hp r hr hid => ?_, fun w hw hid => ?_, fun r hr hid hstatus => ?_⟩
  · have hnodup := hinv.memory.once
    rw [← List.countP_eq_length_filter]
    have hcount := List.nodup_iff_count_le_one.mp hnodup runId
    rwa [List.count, List.countP_map] at hcount
  · have hlater := hinv.run later
    have hp' := @Service.stagings_run _ _ _ formats _ later _ hp
    rw [Service.run, List.foldl_append] at hr
    obtain ⟨r', hr', hid', hprepared⟩ := hlater.store.staged _ hp'
    obtain rfl := eq_of_key hlater.store.keyed.runId hr hr' (hid.trans hid'.symm)
    exact hprepared
  · obtain ⟨p, hp, hsame⟩ := hinv.memory.written w hw
    exact ⟨p, hid ▸ hp, hsame⟩
  · obtain ⟨p, hp, houtcome, hwrite⟩ := hinv.store.completed r hr hstatus
    obtain ⟨r', hr', hid', hprepared⟩ := hinv.store.staged _ hp
    obtain rfl := eq_of_key hinv.store.keyed.runId hr hr' hid'.symm
    simp only [Row.outcome, Prod.mk.injEq] at houtcome
    exact ⟨formats.columns p, hprepared, houtcome.1, houtcome.2.1, houtcome.2.2.1, houtcome.2.2.2,
      hid ▸ hwrite⟩

/-- Texts that stand for themselves. -/
def plainFormats : Formats Str Str Str :=
  { parseRequest := some
    envelope := ⟨id, some, fun _ => rfl⟩
    document := ⟨id, some, fun _ => rfl⟩ }

/-- A worker dies after its write; the next attempt completes the run from what
the first one staged. -/
def recoveredPublication : List (ServiceEvent Str Str) :=
  [.call (.create plainCreation 0), .claim ['w'] 60 3 1, .read 0,
    .stage 0 ⟨['e'], ['t'], ['d'], ['i'], ['s']⟩ 2 3, .read 0, .beginPublication 0 4,
    .save 0 .unanswered, .claim ['w'] 60 3 60000002, .read 1, .beginPublication 1 60000003,
    .save 1 .succeeded, .complete 1 60000004]

/-- A publication recovered by a second attempt publishes what the first had staged. -/
theorem one_staged_output_recovered :
    ∃ r ∈ (Service.run plainFormats recoveredPublication Service.initial).store.runs,
      r.status = .completed ∧ ∃ columns, r.prepared = some columns ∧
        r.resultJson = some columns.resultJson := by
  obtain ⟨r, hr, hid, hstatus⟩ : ∃ r ∈ (Service.run plainFormats recoveredPublication
      Service.initial).store.runs, r.runId = ['r'] ∧ r.status = .completed :=
    ⟨_, List.mem_cons_self, rfl, rfl⟩
  obtain ⟨columns, hprepared, hresult, -⟩ :=
    (one_staged_output plainFormats recoveredPublication [] ['r']).2.2.2 r hr hid hstatus
  exact ⟨r, hr, hstatus, columns, hprepared, hresult⟩

end Lifecycle
