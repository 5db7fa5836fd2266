import ControlTranslation.JsonSame
import ControlTranslation.LifecycleStore
import Mathlib.Data.Rat.Floor

/-!
# Dispatching callbacks

The dispatcher posts every due delivery and records the outcome: delivered, to be
retried at a later time, or failed by configuration.  A retry is scheduled by the
receiver's `Retry-After`, a number of seconds or a date, or else by a table of delays.
The deliveries of a batch are processed one after the other, and no handler stands
between them: an exception in one ends the batch.

Times are microseconds since 1970.  What the library makes of texts and bytes is left
to the parameter `Host`; an exception is a run that does not return.
-/

namespace CallbackDispatch

open PyText JsonValue Lifecycle

/-- `datetime.min` and `datetime.max`, in microseconds. -/
def minInstant : Int := -62135596800000000
/-- The last microsecond of the year 9999, the largest datetime. -/
def maxInstant : Int := 253402300799999999

/-- What a `datetime` holds. -/
abbrev Instant := {t : Int // minInstant ≤ t ∧ t ≤ maxInstant}

/-- A float; the sign of a zero and of a NaN is left out. -/
inductive PyFloat
  | finite (q : Rat)
  | infinity (negative : Bool)
  | nan
  deriving DecidableEq, Repr

/-- `max(0.0, x)`, which keeps the zero where nothing compares greater. -/
def atLeastZero : PyFloat → PyFloat
  | .finite q => if 0 < q then .finite q else .finite 0
  | .infinity false => .infinity false
  | .infinity true => .finite 0
  | .nan => .finite 0

/-- The nearest integer, the even one of two. -/
def roundEven (q : Rat) : Int :=
  let low := q.floor
  if q - low < 1 / 2 then low
  else if 1 / 2 < q - low then low + 1
  else if low % 2 = 0 then low else low + 1

/-- The length of a day in microseconds. -/
def day : Int := 86400000000

/-- `timedelta(seconds=x)` in microseconds. -/
def timedelta : PyFloat → Option Int
  | .finite q =>
      let length := roundEven (q * 1000000)
      if -999999999 * day ≤ length ∧ length < 1000000000 * day then some length else none
  | _ => none

/-- `now + delta`. -/
def later (now : Instant) (delta : Int) : Option Instant :=
  if h : minInstant ≤ now.1 + delta ∧ now.1 + delta ≤ maxInstant then some ⟨now.1 + delta, h⟩
  else none

/-- How `json.loads` ends on bytes: with a document, with an error that is handled,
or with another exception. -/
inductive Decoded
  | document (value : JsonValue)
  | refused
  | raised

/-- What the dispatcher calls: `float`, whose `ValueError` is `none`;
`parsedate_to_datetime`, with the zone filled in, whose handled errors are `none`;
`total_seconds`; and `json.loads`. -/
structure Host where
  t : CharTables
  parseFloat : Str → Option PyFloat
  parseDate : Str → Option Int
  totalSeconds : Int → Rat
  loads : List UInt8 → Decoded

/-- How a post ends; `failed` is an exception other than `CallbackTransportError`. -/
inductive HttpOutcome
  | response (statusCode : Int) (body : List UInt8) (headers : List (Str × Str))
  | transportError (name : Str)
  | failed

/-- What the dispatcher reads of a delivery. -/
structure CallbackDelivery where
  eventId : Str
  attempts : Nat
  deriving DecidableEq, Repr

/-- A delivery of a batch with what happens to it: how its post ends, the product of
a base delay with the jitter, and the clock a rescheduling reads. -/
structure Posted where
  delivery : CallbackDelivery
  outcome : HttpOutcome
  jittered : Nat → PyFloat
  clock : Int

/-- Answers after which a delivery is tried again. -/
def retryableStatusCodes : List Int := [408, 425, 429, 500, 502, 503, 504]
/-- Answers that say the callback itself is misconfigured. -/
def configurationFailureStatusCodes : List Int := [400, 401, 404, 415]
/-- The growing delays between the first attempts. -/
def retryDelaysSeconds : List Nat := [5, 15, 30, 60, 300]
/-- The delay once those are used up. -/
def steadyRetryDelaySeconds : Nat := 900

/-- The calls of the repository, and whether the dispatcher returned. -/
structure Ran where
  operations : List Operation
  returned : Bool

/-- `_accepted_response`. -/
def acceptedResponse (host : Host) (body : List UInt8) (event : Str) : Option Bool :=
  match host.loads body with
  | .raised => none
  | .refused => some false
  | .document (.object payload) => some
      ((payload.all fun member =>
          member.1 == "event_id".toList || member.1 == "status".toList) &&
        hasKey payload "event_id".toList && hasKey payload "status".toList &&
        (get payload "event_id".toList).asText == some event &&
        (get payload "status".toList).asText == some "accepted".toList)
  | .document _ => some false

/-- The text of the `Retry-After` header. -/
def retryAfterText (host : Host) (headers : List (Str × Str)) : Option Str :=
  (headers.find? fun header => host.t.lower header.1 == "retry-after".toList).map (·.2)

/-- `_retry_after`. -/
def retryAfter (host : Host) (headers : List (Str × Str)) (now : Instant) : Option PyFloat :=
  match retryAfterText host headers with
  | none => none
  | some value =>
      match host.parseFloat (strip value) with
      | some x => some (atLeastZero x)
      | none =>
          (host.parseDate value).map fun retryAt =>
            atLeastZero (.finite (host.totalSeconds (retryAt - now.1)))

/-- The delay of the table, with its jitter. -/
def scheduledDelay (posted : Posted) : PyFloat :=
  atLeastZero (posted.jittered
    (retryDelaysSeconds.getD posted.delivery.attempts steadyRetryDelaySeconds))

/-- `_retry`. -/
def retry (posted : Posted) (now : Instant) (statusCode : Option Int) (errorCategory : String)
    (retryAfter : Option PyFloat) : Ran :=
  match (timedelta (retryAfter.getD (scheduledDelay posted))).bind (later now) with
  | none => ⟨[], false⟩
  | some next => ⟨[.callbackRescheduled posted.delivery.eventId (posted.delivery.attempts + 1)
      next.1 statusCode errorCategory posted.clock], true⟩

/-- `_deliver`. -/
def deliver (host : Host) (token : Str) (now : Instant) (posted : Posted) : Ran :=
  let event := posted.delivery.eventId
  let attempts := posted.delivery.attempts + 1
  if token = [] then
    ⟨[.callbackConfigurationFailed event attempts now.1 none "missing-callback-token"], true⟩
  else
    match posted.outcome with
    | .failed => ⟨[], false⟩
    | .transportError name =>
        retry posted now none (String.ofList ("network-".toList ++ host.t.lower name)) none
    | .response statusCode body headers =>
        match if statusCode = 202 then acceptedResponse host body event else some false with
        | none => ⟨[], false⟩
        | some true => ⟨[.callbackDelivered event now.1 statusCode], true⟩
        | some false =>
            if retryableStatusCodes.contains statusCode || statusCode = 202 then
              retry posted now (some statusCode)
                (if statusCode = 202 then "invalid-accepted-response"
                  else "retryable-http-status") (retryAfter host headers now)
            else
              ⟨[.callbackConfigurationFailed event attempts now.1 (some statusCode)
                (if configurationFailureStatusCodes.contains statusCode then
                  "callback-configuration-http-status" else "non-retryable-http-status")], true⟩

/-- The loop of `deliver_due`. -/
def deliverDue (host : Host) (token : Str) (now : Instant) : List Posted → Ran
  | [] => ⟨[], true⟩
  | posted :: rest =>
      let first := deliver host token now posted
      if first.returned then
        let others := deliverDue host token now rest
        ⟨first.operations ++ others.operations, others.returned⟩
      else first

/-- The outcome a delivery has been given: delivered, to be retried at an instant, or
failed by configuration. -/
inductive Recorded (delivery : CallbackDelivery) : Operation → Prop
  | delivered (deliveredAt statusCode : Int) :
      Recorded delivery (.callbackDelivered delivery.eventId deliveredAt statusCode)
  | retried (next : Instant) (statusCode : Option Int) (category : String) (clock : Int) :
      Recorded delivery (.callbackRescheduled delivery.eventId (delivery.attempts + 1) next.1
        statusCode category clock)
  | configurationFailed (failedAt : Int) (statusCode : Option Int) (category : String) :
      Recorded delivery (.callbackConfigurationFailed delivery.eventId (delivery.attempts + 1)
        failedAt statusCode category)

/-- One delivery makes progress: it returns and records one outcome. -/
def Advances (host : Host) (token : Str) (now : Instant) (posted : Posted) : Prop :=
  ∃ operation, deliver host token now posted = ⟨[operation], true⟩ ∧
    Recorded posted.delivery operation

/-- A batch makes progress: it returns, and every delivery of it, in order, has
recorded one outcome. -/
def Progress (host : Host) (token : Str) (now : Instant) (batch : List Posted) : Prop :=
  (∀ posted ∈ batch, Advances host token now posted) ∧
    (deliverDue host token now batch).returned = true ∧
    List.Forall₂ (fun posted operation => Recorded posted.delivery operation) batch
      (deliverDue host token now batch).operations

/-- A delay after which there is still a `datetime`: not positive, or no number, or it
ends in time. -/
def InTime (now : Instant) : PyFloat → Prop
  | .finite q => 0 < q → now.1 + roundEven (q * 1000000) ≤ maxInstant
  | .infinity negative => negative = true
  | .nan => True

theorem roundEven_nonneg {q : Rat} (h : 0 ≤ q) : 0 ≤ roundEven q := by
  have hlow : 0 ≤ q.floor := Rat.le_floor_iff.mpr h
  simp only [roundEven]
  split_ifs <;> omega

/-- A delay can be scheduled exactly when it is in time. -/
theorem schedule_isSome_iff {now : Instant} {x : PyFloat} :
    ((timedelta (atLeastZero x)).bind (later now)).isSome = true ↔ InTime now x := by
  have hnow := now.2
  have hzero : ((timedelta (.finite 0)).bind (later now)).isSome = true := by
    have hspan : timedelta (.finite 0) = some 0 := by decide +kernel
    rw [hspan, Option.bind_some, later, dif_pos (by rw [add_zero]; exact hnow)]
    rfl
  cases x with
  | nan => exact iff_of_true hzero trivial
  | infinity negative =>
      cases negative with
      | true => exact iff_of_true hzero rfl
      | false => exact iff_of_false Bool.false_ne_true Bool.false_ne_true
  | finite q =>
      by_cases hq : 0 < q
      · have hlength : 0 ≤ roundEven (q * 1000000) :=
          roundEven_nonneg (mul_nonneg hq.le (by norm_num))
        rw [atLeastZero, if_pos hq, InTime]
        simp only [timedelta]
        constructor
        · intro hsome _
          split_ifs at hsome with hspan
          · rw [Option.bind_some, later] at hsome
            split_ifs at hsome with hfits
            · exact hfits.2
            · cases hsome
          · cases hsome
        · intro hfits
          have hlast := hfits hq
          have hspan : -999999999 * day ≤ roundEven (q * 1000000) ∧
              roundEven (q * 1000000) < 1000000000 * day := by
            simp only [minInstant, maxInstant, day] at *
            omega
          rw [if_pos hspan, Option.bind_some, later, dif_pos ⟨by omega, hlast⟩]
          rfl
      · rw [atLeastZero, if_neg hq]
        exact iff_of_true hzero fun hpos => absurd hpos hq

/-- The delay of the table, before it is cut off at zero. -/
def tableDelay (posted : Posted) : PyFloat :=
  posted.jittered (retryDelaysSeconds.getD posted.delivery.attempts steadyRetryDelaySeconds)

/-- The delay a response asks for is in time: a number of seconds, or the time up to a
date, or else the delay of the table. -/
def Schedulable (host : Host) (now : Instant) (posted : Posted) (headers : List (Str × Str)) :
    Prop :=
  match retryAfterText host headers with
  | none => InTime now (tableDelay posted)
  | some value =>
      match host.parseFloat (strip value) with
      | some x => InTime now x
      | none =>
          match host.parseDate value with
          | some retryAt => InTime now (.finite (host.totalSeconds (retryAt - now.1)))
          | none => InTime now (tableDelay posted)

/-- Without a token, or when the post ends with a response or a transport error: the
body of a 202 is one the JSON library copes with, and where the delivery is retried
the delay is in time. -/
def Manageable (host : Host) (token : Str) (now : Instant) (posted : Posted) : Prop :=
  token = [] ∨
    match posted.outcome with
    | .failed => False
    | .transportError _ => InTime now (tableDelay posted)
    | .response statusCode body headers =>
        (statusCode = 202 → host.loads body ≠ .raised) ∧
          ((statusCode ∈ retryableStatusCodes ∨
            (statusCode = 202 ∧
              acceptedResponse host body posted.delivery.eventId = some false)) →
            Schedulable host now posted headers)

/-- The body check raises where the JSON library does. -/
theorem acceptedResponse_none_iff {host : Host} {body : List UInt8} {event : Str} :
    acceptedResponse host body event = none ↔ host.loads body = .raised := by
  rw [acceptedResponse]
  cases host.loads body with
  | raised => simp
  | refused => simp
  | document value => cases value <;> simp

/-- A retry that can be scheduled is recorded once; one that cannot raises. -/
theorem retry_advances_iff {posted : Posted} {now : Instant} {statusCode : Option Int}
    {category : String} {after : Option PyFloat} :
    (∃ operation, retry posted now statusCode category after = ⟨[operation], true⟩ ∧
      Recorded posted.delivery operation) ↔
      ((timedelta (after.getD (scheduledDelay posted))).bind (later now)).isSome = true := by
  rw [retry]
  cases (timedelta (after.getD (scheduledDelay posted))).bind (later now) with
  | none => simp
  | some next =>
      refine iff_of_true ⟨_, rfl, ?_⟩ rfl
      exact .retried next statusCode category posted.clock

/-- The delay of a response is in time exactly when it is schedulable. -/
theorem retryAfter_isSome_iff {host : Host} {posted : Posted} {now : Instant}
    {headers : List (Str × Str)} :
    ((timedelta ((retryAfter host headers now).getD (scheduledDelay posted))).bind
      (later now)).isSome = true ↔ Schedulable host now posted headers := by
  rw [retryAfter, Schedulable]
  cases retryAfterText host headers with
  | none => exact schedule_isSome_iff
  | some value =>
      simp only
      cases host.parseFloat (strip value) with
      | some x => exact schedule_isSome_iff
      | none =>
          simp only
          cases host.parseDate value with
          | some retryAt =>
              rw [Option.map_some, Option.getD_some]
              exact schedule_isSome_iff
          | none => exact schedule_isSome_iff

/-- A delivery makes progress exactly when its outcome is manageable. -/
theorem advances_iff {host : Host} {token : Str} {now : Instant} {posted : Posted} :
    Advances host token now posted ↔ Manageable host token now posted := by
  rw [Advances, Manageable, deliver]
  by_cases htoken : token = []
  · rw [if_pos htoken]
    exact iff_of_true ⟨_, rfl, .configurationFailed now.1 none _⟩ (Or.inl htoken)
  · rw [if_neg htoken, or_iff_right htoken]
    cases posted.outcome with
    | failed => simp
    | transportError name => exact retry_advances_iff.trans schedule_isSome_iff
    | response statusCode body headers =>
        simp only
        by_cases haccepted : statusCode = 202
        · subst haccepted
          simp only [if_true, true_implies, true_and, decide_true, Bool.or_true, ne_eq,
            ← @acceptedResponse_none_iff host body posted.delivery.eventId,
            (by decide : ¬(202 : Int) ∈ retryableStatusCodes), false_or]
          cases acceptedResponse host body posted.delivery.eventId with
          | none => simp
          | some accepted =>
              cases accepted with
              | true =>
                  refine iff_of_true ⟨_, rfl, .delivered now.1 202⟩ ?_
                  simp
              | false =>
                  simp only [reduceCtorEq, not_false_eq_true, true_and, true_implies]
                  exact retry_advances_iff.trans retryAfter_isSome_iff
        · simp only [haccepted, if_false, false_implies, true_and, false_and, or_false,
            decide_false, Bool.or_false]
          by_cases hretryable : statusCode ∈ retryableStatusCodes
          · simp only [List.contains_iff_mem.mpr hretryable, if_true, hretryable, true_implies]
            exact retry_advances_iff.trans retryAfter_isSome_iff
          · have hcontains : retryableStatusCodes.contains statusCode = false := by
              rw [← Bool.not_eq_true, List.contains_iff_mem]
              exact hretryable
            simp only [hcontains, Bool.false_eq_true, if_false, hretryable, false_implies]
            exact iff_of_true ⟨_, rfl, .configurationFailed now.1 (some statusCode) _⟩ trivial

/-- Where every delivery advances, the batch does. -/
theorem deliverDue_of_advances {host : Host} {token : Str} {now : Instant}
    {batch : List Posted} (h : ∀ posted ∈ batch, Advances host token now posted) :
    (deliverDue host token now batch).returned = true ∧
      List.Forall₂ (fun posted operation => Recorded posted.delivery operation) batch
        (deliverDue host token now batch).operations := by
  induction batch with
  | nil => exact ⟨rfl, .nil⟩
  | cons posted rest ih =>
      obtain ⟨operation, hdeliver, hrecorded⟩ := h posted List.mem_cons_self
      obtain ⟨hreturned, hrest⟩ := ih fun other hother => h other (List.mem_cons_of_mem _ hother)
      rw [deliverDue, hdeliver]
      exact ⟨hreturned, .cons hrecorded hrest⟩

/-- **Dispatch.**  A batch makes progress exactly when the outcome of every post in it
is manageable. -/
theorem progress_iff {host : Host} {token : Str} {now : Instant} {batch : List Posted} :
    Progress host token now batch ↔ ∀ posted ∈ batch, Manageable host token now posted := by
  constructor
  · intro h posted hposted
    exact advances_iff.mp (h.1 posted hposted)
  · intro h
    have hadvances : ∀ posted ∈ batch, Advances host token now posted :=
      fun posted hposted => advances_iff.mpr (h posted hposted)
    exact ⟨hadvances, deliverDue_of_advances hadvances⟩

theorem epoch_representable : minInstant ≤ 0 ∧ 0 ≤ maxInstant := by decide

/-- The instant zero. -/
def epoch : Instant := ⟨0, epoch_representable⟩

/-- A host that reads `inf` as a number. -/
def infHost : Host :=
  { t := asciiTables
    parseFloat := fun s => if s = "inf".toList then some (.infinity false) else none
    parseDate := fun _ => none
    totalSeconds := fun microseconds => microseconds / 1000000
    loads := fun _ => .refused }

/-- A busy receiver with a `Retry-After`. -/
def busy (event value : String) : Posted :=
  { delivery := ⟨event.toList, 0⟩
    outcome := .response 503 [] [("Retry-After".toList, value.toList)]
    jittered := fun base => .finite base
    clock := 0 }

/-- The first receiver answers `Retry-After: inf`, and the second delivery, which could
be scheduled, is not even tried. -/
theorem inf_stops_the_batch :
    (¬ ∀ (host : Host) (token : Str) (now : Instant) (batch : List Posted),
      Progress host token now batch) ∧
      deliverDue infHost "secret".toList epoch [busy "a" "inf", busy "b" "soon"] =
        ⟨[], false⟩ ∧
      Advances infHost "secret".toList epoch (busy "b" "soon") := by
  refine ⟨fun h => ?_, rfl, ?_⟩
  · have hprogress := h infHost "secret".toList epoch [busy "a" "inf", busy "b" "soon"]
    exact Bool.noConfusion hprogress.2.1
  · refine advances_iff.mpr (Or.inr ⟨fun haccepted => absurd haccepted (by decide), fun _ => ?_⟩)
    change InTime epoch (.finite ((5 : Nat) : Rat))
    intro _
    decide +kernel

end CallbackDispatch
