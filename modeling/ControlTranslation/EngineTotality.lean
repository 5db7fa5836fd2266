import ControlTranslation.EngineAdapter
import ControlTranslation.EngineGates
import ControlTranslation.JsonText

/-!
# What upsets the engine

On its way through the engine a proposed content is decoded, checked by the adapter,
read by the two gates, compared with the rules in force and hashed.  Each step
assumes something of the content, and an assumption that fails is an exception that
no handler turns into a refusal: a value that a set cannot be asked about, a wrapper
of rules where one rule is expected, a text without a UTF-8 form, a document beyond
the limits of the JSON library.

This file names the contents that upset the engine and shows that there are no
others, over every way a call can be cancelled.
-/

namespace TranslationEngine

open PyText JsonValue ModSecurity FnMatch SemanticGates AkamaiAdapter

variable {sv : Services} {r : Request} {snapshot : Option (List Str)}

/-- What no handler of the engine turns into a refusal: content the JSON library gives
up on; an unhashable document; a valid wrapper, labelled exact or equivalent, at the
payload gate; a valid candidate that passes both gates and has no UTF-8 form. -/
inductive Upsets (sv : Services) (r : Request) (j : Judged) : Prop
  | undecodable (h : sv.loads j.content = .raised)
  | unhashable (value : JsonValue) (h : sv.loads j.content = .document value)
      (hvalue : Unhashable value)
  | wrapped (rule : Members) (hvalid : Valid sv j.content rule)
      (hwrapper : hasField rule "rules" = true)
      (hlabel : j.proposal.translationLabel = "exact".toList ∨
        j.proposal.translationLabel = "equivalent".toList)
      (hrequirements : r.translationRequirements ≠ none)
      (hgate : r.pattern.jsonBodyFieldFeature = none ∨ j.source = modsecSource)
  | unencodable (rule : Members) (hvalid : Valid sv j.content rule)
      (hbody : jsonBodyGate sv r j = some []) (hpayload : payloadGate sv r j = some [])
      (hdigest : sv.digest j.content = none)

/-- A gate raises when its check does, or when it passes and the rest raises. -/
theorem gate_raised {j : Judged} {next : Outcome} {errors : Option (List Str)} :
    gate j next errors = .raised ↔ errors = none ∨ (errors = some [] ∧ next = .raised) := by
  cases errors with
  | none => simp [gate]
  | some texts => cases texts <;> simp [gate, failure]

/-- The conflict check does not raise on a valid candidate. -/
theorem detectConflicts_some {content : Str} {rule : Members} (hvalid : Valid sv content rule) :
    ∃ conflicts, detectConflicts sv snapshot content = some conflicts := by
  cases snapshot with
  | none => exact ⟨[], rfl⟩
  | some existing =>
      simp only [detectConflicts, hvalid.1]
      split_ifs
      · exact ⟨_, rfl⟩
      · exact ⟨[], rfl⟩

/-- With requirements on this technology the gate is the check of payloads. -/
theorem payloadGate_eq {j : Judged} {requirements : GateRequirements}
    (hrequirements : r.translationRequirements = some requirements)
    (htarget : r.targetTechnology = akamaiWaf) :
    payloadGate sv r j =
      semanticErrors sv j.content j.proposal.translationLabel requirements := by
  rw [payloadGate, hrequirements]
  exact if_pos htarget

/-- With a field feature on this technology the gate is the check of the body. -/
theorem jsonBodyGate_eq {j : Judged} {feature : JsonBodyFieldFeature}
    (hfeature : r.pattern.jsonBodyFieldFeature = some feature)
    (htarget : r.targetTechnology = akamaiWaf) (hsource : j.source ≠ modsecSource) :
    jsonBodyGate sv r j = jsonBodyErrors sv j.content feature := by
  rw [jsonBodyGate, hfeature]
  exact if_pos ⟨htarget, hsource⟩

/-- Without one, or for the proven rule, the gate is open. -/
theorem jsonBodyGate_open {j : Judged}
    (h : r.pattern.jsonBodyFieldFeature = none ∨ j.source = modsecSource) :
    jsonBodyGate sv r j = some [] := by
  rw [jsonBodyGate]
  cases hfeature : r.pattern.jsonBodyFieldFeature with
  | none => rfl
  | some feature =>
      refine if_neg fun hboth => ?_
      rcases h with hnone | hsource
      · rw [hfeature] at hnone
        cases hnone
      · exact hboth.2 hsource

/-- The body gate, on a valid candidate: it does not raise, and lets a wrapper through
only when it does not look. -/
theorem jsonBodyGate_valid (htarget : r.targetTechnology = akamaiWaf) {j : Judged}
    {rule : Members} (hvalid : Valid sv j.content rule) :
    jsonBodyGate sv r j ≠ none ∧
      (hasField rule "rules" = true → jsonBodyGate sv r j = some [] →
        r.pattern.jsonBodyFieldFeature = none ∨ j.source = modsecSource) := by
  by_cases hopen : r.pattern.jsonBodyFieldFeature = none ∨ j.source = modsecSource
  · rw [jsonBodyGate_open hopen]
    exact ⟨Option.some_ne_none _, fun _ _ => hopen⟩
  · rw [not_or] at hopen
    obtain ⟨feature, hfeature⟩ := Option.ne_none_iff_exists'.mp hopen.1
    obtain ⟨errors, herrors, hrefused⟩ := jsonBodyErrors_some hvalid feature
    rw [jsonBodyGate_eq hfeature htarget hopen.2, herrors]
    refine ⟨Option.some_ne_none _, fun hwrapper hempty => ?_⟩
    exact absurd (Option.some.inj hempty) (hrefused hwrapper)

/-- Behind the shape check only wrappers and texts without a UTF-8 form raise. -/
theorem upsets_of_judge (htarget : r.targetTechnology = akamaiWaf)
    (hadapter : r.adapter = akamaiAdapter sv r.pattern snapshot) {j : Judged} {rule : Members}
    (hvalid : Valid sv j.content rule) (h : judge sv r j = .raised) : Upsets sv r j := by
  obtain ⟨hreads, hwrapped⟩ := jsonBodyGate_valid htarget hvalid
  obtain ⟨hbody, hnext⟩ := (gate_raised.mp h).resolve_left hreads
  rcases gate_raised.mp hnext with hpayload | ⟨hpayload, hemit⟩
  · cases hrequirements : r.translationRequirements with
    | none =>
        rw [payloadGate, hrequirements] at hpayload
        cases hpayload
    | some requirements =>
        rw [payloadGate_eq hrequirements htarget] at hpayload
        obtain ⟨hlabel, hwrapper⟩ := (semanticErrors_none hvalid requirements).mp hpayload
        exact .wrapped rule hvalid hwrapper hlabel
          (by rw [hrequirements]; exact Option.some_ne_none _) (hwrapped hwrapper hbody)
  · refine .unencodable rule hvalid hbody hpayload ?_
    obtain ⟨conflicts, hconflicts⟩ := @detectConflicts_some sv snapshot _ rule hvalid
    have hdetect : r.adapter.detectConflicts j.content = some conflicts := by
      rw [hadapter]
      exact hconflicts
    rw [emit, hdetect] at hemit
    cases hdigest : sv.digest j.content with
    | none => rfl
    | some digest =>
        simp only [hdigest] at hemit
        split_ifs at hemit

/-- A wrapper at the payload gate raises, and so does a text without a UTF-8 form. -/
theorem judge_of_upsets (hquiet : ∀ c, r.signal c = false)
    (htarget : r.targetTechnology = akamaiWaf)
    (hadapter : r.adapter = akamaiAdapter sv r.pattern snapshot) {j : Judged} {rule : Members}
    (hvalid : Valid sv j.content rule) (h : Upsets sv r j) : judge sv r j = .raised := by
  cases h with
  | undecodable hloads =>
      rw [hvalid.1] at hloads
      cases hloads
  | unhashable value hloads hvalue =>
      rw [hvalid.1] at hloads
      cases hloads
      rw [← syntaxErrors_none (t := sv.t), hvalid.2] at hvalue
      cases hvalue
  | wrapped rule' hvalid' hwrapper hlabel hrequirements hgate =>
      obtain ⟨requirements, hsome⟩ := Option.ne_none_iff_exists'.mp hrequirements
      refine gate_raised.mpr (Or.inr ⟨jsonBodyGate_open hgate, gate_raised.mpr (Or.inl ?_)⟩)
      rw [payloadGate_eq hsome htarget, semanticErrors_none hvalid']
      exact ⟨hlabel, hwrapper⟩
  | unencodable rule' hvalid' hbody hpayload hdigest =>
      refine gate_raised.mpr (Or.inr ⟨hbody, gate_raised.mpr (Or.inr ⟨hpayload, ?_⟩)⟩)
      obtain ⟨conflicts, hconflicts⟩ := @detectConflicts_some sv snapshot _ rule' hvalid'
      have hdetect : r.adapter.detectConflicts j.content = some conflicts := by
        rw [hadapter]
        exact hconflicts
      simp only [emit, hquiet, Bool.false_eq_true, if_false, hdetect, hdigest]

/-- The shape check raises, or the content is valid and raises behind it. -/
def Stops (sv : Services) (r : Request) (j : Judged) : Prop :=
  validate r.adapter j.content = none ∨
    (∃ errors, validate r.adapter j.content = some (true, errors)) ∧ judge sv r j = .raised

/-- Content that is not blank and upsets the engine. -/
def Breaks (sv : Services) (r : Request) (j : Judged) : Prop :=
  strip j.content ≠ [] ∧ Upsets sv r j

theorem validate_blank {adapter : Adapter} {content : Str} (h : strip content = []) :
    validate adapter content = some (false, ["Candidate content is empty.".toList]) :=
  if_pos h

theorem validate_akamai (hadapter : r.adapter = akamaiAdapter sv r.pattern snapshot)
    {content : Str} (h : strip content ≠ []) :
    validate r.adapter content = validateSyntax sv content := by
  rw [validate, if_neg h, hadapter]
  rfl

/-- The adapter accepts valid candidates only. -/
theorem validateSyntax_true_iff {content : Str} :
    (∃ errors, validateSyntax sv content = some (true, errors)) ↔
      ∃ rule, Valid sv content rule := by
  rw [validateSyntax]
  constructor
  · rintro ⟨errors, h⟩
    cases hloads : sv.loads content with
    | raised => simp [hloads] at h
    | invalid detail => simp [hloads] at h
    | document value =>
        simp only [hloads] at h
        obtain ⟨texts, htexts, heq⟩ := Option.map_eq_some_iff.mp h
        obtain rfl : texts = [] := List.isEmpty_iff.mp (Prod.mk.inj heq).1
        cases value with
        | object rule => exact ⟨rule, hloads, htexts⟩
        | _ => exact absurd (Option.some.inj htexts) (List.cons_ne_nil _ _)
  · rintro ⟨rule, hloads, hvalid⟩
    refine ⟨[], ?_⟩
    rw [hloads]
    simp only [hvalid, Option.map_some, List.isEmpty_nil]

/-- The adapter raises on what the JSON library gives up on and on unhashable
documents. -/
theorem validateSyntax_none_iff {content : Str} : validateSyntax sv content = none ↔
    sv.loads content = .raised ∨
      ∃ value, sv.loads content = .document value ∧ Unhashable value := by
  rw [validateSyntax]
  cases hloads : sv.loads content with
  | raised => simp
  | invalid detail => simp
  | document value => simp [syntaxErrors_none]

/-- The shape check accepts valid candidates that are not blank. -/
theorem validate_true_iff (hadapter : r.adapter = akamaiAdapter sv r.pattern snapshot)
    {content : Str} : (∃ errors, validate r.adapter content = some (true, errors)) ↔
      strip content ≠ [] ∧ ∃ rule, Valid sv content rule := by
  by_cases hblank : strip content = []
  · rw [validate_blank hblank]
    refine iff_of_false ?_ fun h => h.1 hblank
    rintro ⟨errors, h⟩
    cases h
  · rw [validate_akamai hadapter hblank, validateSyntax_true_iff]
    exact (and_iff_right hblank).symm

/-- The shape check raises where the adapter does. -/
theorem validate_none_iff (hadapter : r.adapter = akamaiAdapter sv r.pattern snapshot)
    {content : Str} : validate r.adapter content = none ↔ strip content ≠ [] ∧
      (sv.loads content = .raised ∨
        ∃ value, sv.loads content = .document value ∧ Unhashable value) := by
  by_cases hblank : strip content = []
  · rw [validate_blank hblank]
    exact iff_of_false (Option.some_ne_none _) fun h => h.1 hblank
  · rw [validate_akamai hadapter hblank, validateSyntax_none_iff]
    exact (and_iff_right hblank).symm

/-- What stops the engine is content that upsets it. -/
theorem breaks_of_stops (htarget : r.targetTechnology = akamaiWaf)
    (hadapter : r.adapter = akamaiAdapter sv r.pattern snapshot) {j : Judged}
    (h : Stops sv r j) : Breaks sv r j := by
  rcases h with hnone | ⟨haccepted, hjudge⟩
  · obtain ⟨hblank, hloads | ⟨value, hloads, hvalue⟩⟩ := (validate_none_iff hadapter).mp hnone
    · exact ⟨hblank, .undecodable hloads⟩
    · exact ⟨hblank, .unhashable value hloads hvalue⟩
  · obtain ⟨hblank, rule, hvalid⟩ := (validate_true_iff hadapter).mp haccepted
    exact ⟨hblank, upsets_of_judge htarget hadapter hvalid hjudge⟩

/-- Content that upsets the engine stops it, unless the call is cancelled before. -/
theorem stops_of_breaks (hquiet : ∀ c, r.signal c = false)
    (htarget : r.targetTechnology = akamaiWaf)
    (hadapter : r.adapter = akamaiAdapter sv r.pattern snapshot) {j : Judged}
    (h : Breaks sv r j) : Stops sv r j := by
  obtain ⟨hblank, hupsets⟩ := h
  have hjudged : ∀ rule, Valid sv j.content rule → Stops sv r j := fun rule hvalid =>
    Or.inr ⟨(validate_true_iff hadapter).mpr ⟨hblank, rule, hvalid⟩,
      judge_of_upsets hquiet htarget hadapter hvalid hupsets⟩
  cases hupsets with
  | undecodable hloads => exact Or.inl ((validate_none_iff hadapter).mpr ⟨hblank, Or.inl hloads⟩)
  | unhashable value hloads hvalue =>
      exact Or.inl ((validate_none_iff hadapter).mpr
        ⟨hblank, Or.inr ⟨value, hloads, hvalue⟩⟩)
  | wrapped rule hvalid => exact hjudged rule hvalid
  | unencodable rule hvalid => exact hjudged rule hvalid

/-- A repaired proposal whose label is permitted and whose content stops the engine. -/
def RepairStops (sv : Services) (r : Request) (source : Str) (fromDoer : Bool)
    (repaired : Proposal) : Prop :=
  ∃ content, Permitted r repaired.translationLabel ∧
    normalizeCandidateContent sv repaired.candidateContent = .text content ∧
    Stops sv r ⟨repaired, content, source, fromDoer⟩

/-- A repaired draft raises only where repair stops. -/
theorem repairStops_of_raised {source : Str} {fromDoer : Bool} {repaired : Proposal}
    (h : judgeRepaired sv r source fromDoer repaired = .raised) :
    RepairStops sv r source fromDoer repaired := by
  rw [judgeRepaired] at h
  cases hpolicy : proposalPolicyFailure sv r repaired.translationLabel with
  | some refusal => simp [hpolicy] at h
  | none =>
      simp only [hpolicy] at h
      cases hcontent : normalizeCandidateContent sv repaired.candidateContent with
      | refused detail => simp [hcontent, failure] at h
      | raised detail => simp [hcontent, failure] at h
      | text content =>
          simp only [hcontent] at h
          refine ⟨content, proposalPolicyFailure_none_iff.mp hpolicy, hcontent, ?_⟩
          have hchecked := uncancelled h (by simp)
          cases hvalid : validate r.adapter content with
          | none => exact Or.inl hvalid
          | some result =>
              obtain ⟨valid, errors⟩ := result
              simp only [hvalid] at hchecked
              have hjudged := uncancelled hchecked (by simp)
              cases valid with
              | false => simp [failure] at hjudged
              | true => exact Or.inr ⟨⟨errors, hvalid⟩, hjudged⟩

/-- Where repair stops, and no one cancels, judging raises. -/
theorem raised_of_repairStops (hquiet : ∀ c, r.signal c = false) {source : Str}
    {fromDoer : Bool} {repaired : Proposal} (h : RepairStops sv r source fromDoer repaired) :
    judgeRepaired sv r source fromDoer repaired = .raised := by
  obtain ⟨content, hpermitted, hcontent, hnone | ⟨⟨errors, haccepted⟩, hjudge⟩⟩ := h
  · simp only [judgeRepaired, proposalPolicyFailure_none_iff.mpr hpermitted, hcontent, hquiet,
      Bool.false_eq_true, if_false, hnone]
  · simp only [judgeRepaired, proposalPolicyFailure_none_iff.mpr hpermitted, hcontent, hquiet,
      Bool.false_eq_true, if_false, haccepted, if_true, hjudge]

/-- A refused content whose repair stops the engine. -/
def RepairOf (sv : Services) (r : Request) (doer : Doer) (j : Judged) : Prop :=
  ∃ errors repair repaired, validate r.adapter j.content = some (false, errors) ∧
    j.fromDoer = true ∧ doer.repair = some repair ∧
    repair j.proposal errors = .returned repaired ∧
    RepairStops sv r j.source j.fromDoer repaired

/-- Checking raises only where it stops, or where the repair does. -/
theorem stops_of_checkContent {doer : Doer} {j : Judged}
    (h : (checkContent sv r doer j).1 = .raised) : Stops sv r j ∨ RepairOf sv r doer j := by
  unfold checkContent at h
  cases hbefore : r.signal .beforeSyntax with
  | true => simp [hbefore] at h
  | false =>
      simp only [hbefore, Bool.false_eq_true, if_false] at h
      cases hvalid : validate r.adapter j.content with
      | none => exact Or.inl (Or.inl hvalid)
      | some result =>
          obtain ⟨valid, errors⟩ := result
          simp only [hvalid] at h
          split_ifs at h with hcancelled haccepted hasked
          · exact Or.inl (Or.inr ⟨⟨errors, haccepted ▸ hvalid⟩, h⟩)
          · cases hrepair : doer.repair with
            | none => simp [hrepair, failure] at h
            | some repair =>
                simp only [hrepair, repairOnce] at h
                cases hbegin : r.signal .beforeRepair with
                | true => simp [hbegin] at h
                | false =>
                    simp only [hbegin, Bool.false_eq_true, if_false] at h
                    cases hanswer : repair j.proposal errors with
                    | raised detail => simp [hanswer, failure] at h
                    | cancelled => simp [hanswer] at h
                    | returned repaired =>
                        simp only [hanswer] at h
                        split_ifs at h
                        exact Or.inr ⟨errors, repair, repaired,
                          Bool.eq_false_of_not_eq_true haccepted ▸ hvalid, hasked, hrepair,
                          hanswer, repairStops_of_raised h⟩
          · simp [failure] at h

/-- Where either stops, and no one cancels, checking raises. -/
theorem checkContent_of_stops (hquiet : ∀ c, r.signal c = false) {doer : Doer} {j : Judged}
    (h : Stops sv r j ∨ RepairOf sv r doer j) : (checkContent sv r doer j).1 = .raised := by
  unfold checkContent
  rcases h with (hnone | ⟨⟨errors, haccepted⟩, hjudge⟩) |
    ⟨errors, repair, repaired, hrefused, hdoer, hrepair, hanswer, hstops⟩
  · simp only [hquiet, Bool.false_eq_true, if_false, hnone]
  · simp only [hquiet, Bool.false_eq_true, if_false, haccepted, if_true, hjudge]
  · simp only [hquiet, Bool.false_eq_true, if_false, hrefused, hdoer, if_true, hrepair,
      repairOnce, hanswer]
    rw [hdoer] at hstops
    exact raised_of_repairStops hquiet hstops

/-- A proposal that is checked, with its source and whether a model made it: that of a
deterministic path, or else the answer of the doer, where the doer is asked. -/
inductive Offered (sv : Services) (r : Request) (doer : Doer) : Proposal → Str → Bool → Prop
  | deterministic (proposal : Proposal) (source : Str)
      (h : deterministicProposal sv r = some (proposal, source)) :
      Offered sv r doer proposal source false
  | proposed (proposal : Proposal) (hnone : deterministicProposal sv r = none)
      (hunseen : hasAuthoritativeSecrule r.pattern.patternSummary = false)
      (hsupported : supportsFeature sv.t r.pattern = true)
      (h : doer.propose = .returned proposal) :
      Offered sv r doer proposal
        (doer.deterministicProposalSource.getD "translation-doer".toList)
        doer.deterministicProposalSource.isNone

/-- The permitted proposal that is checked cannot be written, or upsets the engine, or
is refused and its permitted repair upsets the engine. -/
inductive UpsetBy (sv : Services) (r : Request) (doer : Doer) : Prop
  | unwritable (proposal : Proposal) (source : Str) (fromDoer : Bool) (value : JsonValue)
      (detail : Str) (hoffered : Offered sv r doer proposal source fromDoer)
      (hpermitted : Permitted r proposal.translationLabel)
      (hcontent : proposal.candidateContent = .document value)
      (hdumps : sv.dumps value = .raised detail)
  | first (proposal : Proposal) (source : Str) (fromDoer : Bool) (content : Str)
      (hoffered : Offered sv r doer proposal source fromDoer)
      (hpermitted : Permitted r proposal.translationLabel)
      (hcontent : normalizeCandidateContent sv proposal.candidateContent = .text content)
      (hbreaks : Breaks sv r ⟨proposal, content, source, fromDoer⟩)
  | repaired (proposal : Proposal) (source content : Str) (errors : List Str)
      (repair : Proposal → List Str → Reply Proposal) (answer : Proposal) (again : Str)
      (hoffered : Offered sv r doer proposal source true)
      (hpermitted : Permitted r proposal.translationLabel)
      (hcontent : normalizeCandidateContent sv proposal.candidateContent = .text content)
      (hrefused : validate r.adapter content = some (false, errors))
      (hrepair : doer.repair = some repair) (hanswer : repair proposal errors = .returned answer)
      (hallowed : Permitted r answer.translationLabel)
      (hagain : normalizeCandidateContent sv answer.candidateContent = .text again)
      (hbreaks : Breaks sv r ⟨answer, again, source, true⟩)

/-- Content that cannot be normalized was too much for the serializer. -/
theorem normalize_raised {content : Content} {detail : Str}
    (h : normalizeCandidateContent sv content = .raised detail) :
    ∃ value, content = .document value ∧ sv.dumps value = .raised detail := by
  cases content with
  | text s => cases h
  | unsupported => cases h
  | document value =>
      refine ⟨value, rfl, ?_⟩
      rw [normalizeCandidateContent] at h
      cases hdumps : sv.dumps value with
      | text s => simp [hdumps] at h
      | refused => simp [hdumps] at h
      | raised d =>
          simp only [hdumps, Normalized.raised.injEq] at h
          rw [h]

/-- A proposal that raises is upsetting. -/
theorem upsetBy_of_checkProposal (htarget : r.targetTechnology = akamaiWaf)
    (hadapter : r.adapter = akamaiAdapter sv r.pattern snapshot) {doer : Doer}
    {proposal : Proposal} {source : Str} {fromDoer : Bool}
    (hoffered : Offered sv r doer proposal source fromDoer)
    (h : (checkProposal sv r doer proposal source fromDoer).1 = .raised) :
    UpsetBy sv r doer := by
  unfold checkProposal at h
  cases hpolicy : proposalPolicyFailure sv r proposal.translationLabel with
  | some refusal => simp [hpolicy] at h
  | none =>
      have hpermitted := proposalPolicyFailure_none_iff.mp hpolicy
      simp only [hpolicy] at h
      cases hcontent : normalizeCandidateContent sv proposal.candidateContent with
      | refused detail => simp [hcontent, failure] at h
      | raised detail =>
          obtain ⟨value, hvalue, hdumps⟩ := normalize_raised hcontent
          exact .unwritable proposal source fromDoer value detail hoffered hpermitted hvalue hdumps
      | text content =>
          simp only [hcontent] at h
          rcases stops_of_checkContent h with hstops |
            ⟨errors, repair, answer, hrefused, hdoer, hrepair, hanswer, again, hallowed, hagain,
              hstops⟩
          · exact .first proposal source fromDoer content hoffered hpermitted hcontent
              (breaks_of_stops htarget hadapter hstops)
          · obtain rfl : fromDoer = true := hdoer
            exact .repaired proposal source content errors repair answer again hoffered hpermitted
              hcontent hrefused hrepair hanswer hallowed hagain
              (breaks_of_stops htarget hadapter hstops)

/-- An exception that escapes has an upsetting proposal. -/
theorem upsetBy_of_raised (htarget : r.targetTechnology = akamaiWaf)
    (hadapter : r.adapter = akamaiAdapter sv r.pattern snapshot) {doer : Doer}
    (h : (translate sv r doer).outcome = .raised) : UpsetBy sv r doer := by
  unfold translate at h
  cases hstart : r.signal .start with
  | true => simp [hstart] at h
  | false =>
      simp only [hstart, Bool.false_eq_true, if_false] at h
      cases hfound : deterministicProposal sv r with
      | some found =>
          simp only [hfound] at h
          exact upsetBy_of_checkProposal htarget hadapter
            (.deterministic found.1 found.2 hfound) h
      | none =>
          have hsupports : r.adapter.supportsFeature = some (supportsFeature sv.t r.pattern) := by
            rw [hadapter]
            rfl
          simp only [hfound, translateByDoer, hsupports] at h
          split_ifs at h with hseen
          · simp [failure] at h
          · have hunseen := Bool.eq_false_of_not_eq_true fun hs => hseen ⟨htarget, hs⟩
            cases hsupported : supportsFeature sv.t r.pattern with
            | false => simp [hsupported, failure] at h
            | true =>
                simp only [hsupported, askDoer] at h
                cases hbefore : r.signal .beforePropose with
                | true => simp [hbefore] at h
                | false =>
                    simp only [hbefore, Bool.false_eq_true, if_false] at h
                    cases hpropose : doer.propose with
                    | raised detail => simp [hpropose, failure] at h
                    | cancelled => simp [hpropose] at h
                    | returned proposal =>
                        simp only [hpropose] at h
                        split_ifs at h
                        exact upsetBy_of_checkProposal htarget hadapter
                          (.proposed proposal hfound hunseen hsupported hpropose) h

/-- Without a cancellation a call ends as the check of the proposal it is offered. -/
theorem outcome_of_offered (hquiet : ∀ c, r.signal c = false)
    (hadapter : r.adapter = akamaiAdapter sv r.pattern snapshot) {doer : Doer}
    {proposal : Proposal} {source : Str} {fromDoer : Bool}
    (h : Offered sv r doer proposal source fromDoer) :
    (translate sv r doer).outcome = (checkProposal sv r doer proposal source fromDoer).1 := by
  unfold translate
  rw [hquiet, if_neg Bool.false_ne_true]
  cases h with
  | deterministic _ hfound => rw [hfound]
  | proposed hnone hunseen hsupported hpropose =>
      have hsupports : r.adapter.supportsFeature = some true := by
        rw [hadapter, ← hsupported]
        rfl
      have hauthority : ¬(r.targetTechnology = akamaiWaf ∧
          hasAuthoritativeSecrule r.pattern.patternSummary = true) := by
        rw [hunseen]
        exact fun hboth => Bool.noConfusion hboth.2
      rw [hnone]
      simp only [translateByDoer, if_neg hauthority, hsupports, askDoer, hquiet,
        Bool.false_eq_true, if_false, hpropose]

/-- An upsetting proposal makes an exception escape, unless the call is cancelled. -/
theorem raised_of_upsetBy (hquiet : ∀ c, r.signal c = false)
    (htarget : r.targetTechnology = akamaiWaf)
    (hadapter : r.adapter = akamaiAdapter sv r.pattern snapshot) {doer : Doer}
    (h : UpsetBy sv r doer) : (translate sv r doer).outcome = .raised := by
  cases h with
  | unwritable proposal source fromDoer value detail hoffered hpermitted hcontent hdumps =>
      rw [outcome_of_offered hquiet hadapter hoffered, checkProposal,
        proposalPolicyFailure_none_iff.mpr hpermitted, hcontent]
      simp only [normalizeCandidateContent, hdumps]
  | first proposal source fromDoer content hoffered hpermitted hcontent hbreaks =>
      rw [outcome_of_offered hquiet hadapter hoffered, checkProposal,
        proposalPolicyFailure_none_iff.mpr hpermitted, hcontent]
      exact checkContent_of_stops hquiet
        (Or.inl (stops_of_breaks hquiet htarget hadapter hbreaks))
  | repaired proposal source content errors repair answer again hoffered hpermitted hcontent
      hrefused hrepair hanswer hallowed hagain hbreaks =>
      rw [outcome_of_offered hquiet hadapter hoffered, checkProposal,
        proposalPolicyFailure_none_iff.mpr hpermitted, hcontent]
      exact checkContent_of_stops hquiet (Or.inr ⟨errors, repair, answer, hrefused, rfl, hrepair,
        hanswer, again, hallowed, hagain, stops_of_breaks hquiet htarget hadapter hbreaks⟩)

/-- Permission, offers and upsets have nothing to do with cancellation. -/
theorem UpsetBy.of_signal {doer : Doer} {signal signal' : Checkpoint → Bool}
    (h : UpsetBy sv { r with signal := signal } doer) :
    UpsetBy sv { r with signal := signal' } doer := by
  have hpermit : ∀ {label : Str}, Permitted { r with signal := signal } label →
      Permitted { r with signal := signal' } label := fun hp =>
    ⟨hp.known, hp.broader, hp.equivalent, hp.narrower⟩
  have hoffer : ∀ {p : Proposal} {source : Str} {fromDoer : Bool},
      Offered sv { r with signal := signal } doer p source fromDoer →
      Offered sv { r with signal := signal' } doer p source fromDoer := by
    intro p source fromDoer ho
    cases ho with
    | deterministic _ hfound => exact .deterministic p source hfound
    | proposed hnone hunseen hsupported hp => exact .proposed p hnone hunseen hsupported hp
  have hbreak : ∀ {j : Judged}, Breaks sv { r with signal := signal } j →
      Breaks sv { r with signal := signal' } j := by
    rintro j ⟨hblank, hupsets⟩
    refine ⟨hblank, ?_⟩
    cases hupsets with
    | undecodable hloads => exact .undecodable hloads
    | unhashable value hloads hvalue => exact .unhashable value hloads hvalue
    | wrapped rule hvalid hwrapper hlabel hrequirements hgate =>
        exact .wrapped rule hvalid hwrapper hlabel hrequirements hgate
    | unencodable rule hvalid hbody hpayload hdigest =>
        exact .unencodable rule hvalid hbody hpayload hdigest
  cases h with
  | unwritable proposal source fromDoer value detail hoffered hpermitted hcontent hdumps =>
      exact .unwritable proposal source fromDoer value detail (hoffer hoffered)
        (hpermit hpermitted) hcontent hdumps
  | first proposal source fromDoer content hoffered hpermitted hcontent hbreaks =>
      exact .first proposal source fromDoer content (hoffer hoffered) (hpermit hpermitted)
        hcontent (hbreak hbreaks)
  | repaired proposal source content errors repair answer again hoffered hpermitted hcontent
      hrefused hrepair hanswer hallowed hagain hbreaks =>
      exact .repaired proposal source content errors repair answer again (hoffer hoffered)
        (hpermit hpermitted) hcontent hrefused hrepair hanswer (hpermit hallowed) hagain
        (hbreak hbreaks)

/-- A request for the Akamai target, with its adapter. -/
def onAkamai (sv : Services) (r : Request) (snapshot : Option (List Str)) : Request :=
  { r with
    targetTechnology := akamaiWaf
    adapter := akamaiAdapter sv r.pattern snapshot }

/-- Whenever the call is cancelled, or not at all, no exception escapes. -/
def Total (sv : Services) (r : Request) (doer : Doer) : Prop :=
  ∀ signal, (translate sv { r with signal := signal } doer).outcome ≠ .raised

/-- **Engine totality.**  For the Akamai target an exception escapes from some call
exactly when the proposal, or its repair, upsets the engine. -/
theorem total_iff {doer : Doer} : Total sv (onAkamai sv r snapshot) doer ↔
    ¬UpsetBy sv (onAkamai sv r snapshot) doer := by
  constructor
  · intro htotal hupset
    refine htotal (fun _ => false) ?_
    exact raised_of_upsetBy (fun _ => rfl) rfl rfl
      (@UpsetBy.of_signal sv (onAkamai sv r snapshot) doer _ (fun _ => false) hupset)
  · intro hcalm signal hraised
    apply hcalm
    exact @UpsetBy.of_signal sv _ doer signal (onAkamai sv r snapshot).signal
      (upsetBy_of_raised rfl rfl hraised)

/-- A rule whose only condition has a list for its type. -/
def listTyped : JsonValue :=
  .object [("operation".toList, .text "AND".toList),
    ("conditions".toList, .array [.object [("type".toList, .array []),
      ("positiveMatch".toList, .bool true), ("value".toList, .text "x".toList)]])]

/-- The JSON library, as far as that rule goes. -/
def listTypedServices : Services :=
  { userServices with
    loads := fun text => if text = dumps listTyped then .document listTyped else .invalid []
    dumps := fun value => .text (dumps value) }

/-- A proposal of a document. -/
def documentProposal (value : JsonValue) : Proposal :=
  { textProposal "" with candidateContent := .document value }

/-- A doer that proposes a document. -/
def documentDoer (value : JsonValue) : Doer :=
  { propose := .returned (documentProposal value)
    deterministicProposalSource := none
    repair := none }

/-- Nothing but the content is out of the ordinary, and the exception escapes. -/
theorem listTyped_escapes :
    (translate listTypedServices (onAkamai listTypedServices userRequest (some []))
      (documentDoer listTyped)).outcome = .raised ∧
    ¬ ∀ (sv : Services) (r : Request) (snapshot : Option (List Str)) (doer : Doer),
      Total sv (onAkamai sv r snapshot) doer := by
  have hloads : listTypedServices.loads (dumps listTyped) = .document listTyped := by
    simp only [listTypedServices, if_true]
  have hunhashable : Unhashable listTyped :=
    ⟨_, rfl, _, List.mem_singleton_self _, _, _, rfl, List.mem_singleton_self _,
      Or.inl (Or.inl ⟨[], rfl⟩)⟩
  have hraised : (translate listTypedServices
      (onAkamai listTypedServices userRequest (some [])) (documentDoer listTyped)).outcome =
        .raised := by
    refine raised_of_upsetBy (fun _ => rfl) rfl rfl ?_
    refine .first (documentProposal listTyped) "translation-doer".toList true (dumps listTyped)
      ?_ ?_ rfl ⟨by decide +kernel, .unhashable listTyped hloads hunhashable⟩
    · exact .proposed _ rfl (by decide +kernel) (by decide +kernel) rfl
    · exact (@proposalPolicyFailure_none_iff listTypedServices _ _).mp rfl
  refine ⟨hraised, fun h => ?_⟩
  exact h listTypedServices userRequest (some []) (documentDoer listTyped) (fun _ => false) hraised

end TranslationEngine
