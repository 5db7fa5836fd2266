import ControlTranslation.TranslationEngine

/-!
# What a success of the engine promises

A candidate leaves the engine in one way only: its content passed the shape check,
the body gate, the payload gate, the conflict check and the digest, in this order,
and its label passed the policy.  The doer decides which proposal gets that far,
the first or the repaired one, and nothing else.

Every stage has one lemma that says what its success means; the theorem about a
whole call puts them together, for each of the three origins of a proposal.
-/

namespace TranslationEngine

open PyText JsonValue ModSecurity FnMatch SemanticGates

/-- The label is one of the four, and the flags of the request permit it. -/
structure Permitted (r : Request) (label : Str) : Prop where
  known : label = "exact".toList ∨ label = "equivalent".toList ∨ label = "narrower".toList ∨
    label = "broader".toList
  broader : label = "broader".toList → r.allowBroaderTranslation = true
  equivalent : label = "equivalent".toList → r.allowEquivalentTranslation = true
  narrower : label = "narrower".toList → r.allowNarrowerTranslation = true

/-- The policy has no objection exactly to the permitted labels. -/
theorem proposalPolicyFailure_none_iff {sv : Services} {r : Request} {label : Str} :
    proposalPolicyFailure sv r label = none ↔ Permitted r label := by
  have hknown : (["exact", "equivalent", "narrower", "broader"].map String.toList).contains label
      = true ↔ label = "exact".toList ∨ label = "equivalent".toList ∨
        label = "narrower".toList ∨ label = "broader".toList := by
    rw [List.contains_iff_mem]
    simp only [List.map_cons, List.map_nil, List.mem_cons, List.not_mem_nil, or_false]
  constructor
  · intro h
    rw [proposalPolicyFailure] at h
    split_ifs at h with hbroader hlabel hequivalent hnarrower
    refine ⟨hknown.mp (Bool.eq_true_of_not_eq_false hlabel), fun hl => ?_, fun hl => ?_,
      fun hl => ?_⟩
    · exact Bool.eq_true_of_not_eq_false fun hflag => hbroader ⟨hl, hflag⟩
    · exact Bool.eq_true_of_not_eq_false fun hflag => hequivalent ⟨hl, hflag⟩
    · exact Bool.eq_true_of_not_eq_false fun hflag => hnarrower ⟨hl, hflag⟩
  · rintro ⟨hlabel, hbroader, hequivalent, hnarrower⟩
    rw [proposalPolicyFailure, if_neg, if_neg, if_neg, if_neg]
    · rintro ⟨hl, hflag⟩
      simp [hnarrower hl] at hflag
    · rintro ⟨hl, hflag⟩
      simp [hequivalent hl] at hflag
    · rw [hknown.mpr hlabel]
      exact Bool.noConfusion
    · rintro ⟨hl, hflag⟩
      simp [hbroader hl] at hflag

/-- An outcome that is no cancellation was not cancelled. -/
theorem uncancelled {cancelled : Bool} {next outcome : Outcome}
    (h : (if cancelled then .cancelled else next) = outcome) (hother : outcome ≠ .cancelled) :
    next = outcome := by
  cases cancelled with
  | true => exact absurd h.symm hother
  | false => exact h

/-- What is emitted passed the conflict check and was hashed. -/
theorem emit_success {sv : Services} {r : Request} {j : Judged} {s : Success}
    (h : emit sv r j = .success s) :
    ∃ conflicts digest, r.adapter.detectConflicts j.content = some conflicts ∧
      sv.digest j.content = some digest ∧ s = candidate r j conflicts digest := by
  have hchecked := uncancelled h nofun
  cases hconflicts : r.adapter.detectConflicts j.content with
  | none => simp [hconflicts] at hchecked
  | some conflicts =>
      simp only [hconflicts] at hchecked
      have hhashed := uncancelled hchecked nofun
      cases hdigest : sv.digest j.content with
      | none => simp [hdigest] at hhashed
      | some digest =>
          simp only [hdigest, Outcome.success.injEq] at hhashed
          exact ⟨conflicts, digest, rfl, rfl, hhashed.symm⟩

/-- A gate lets through what has no errors. -/
theorem gate_success {j : Judged} {next : Outcome} {errors : Option (List Str)} {s : Success}
    (h : gate j next errors = .success s) : errors = some [] ∧ next = .success s := by
  cases errors with
  | none => cases h
  | some texts =>
      cases texts with
      | nil => exact ⟨rfl, h⟩
      | cons first rest => cases h

/-- Behind the shape check: both gates, and the emission. -/
theorem judge_success {sv : Services} {r : Request} {j : Judged} {s : Success}
    (h : judge sv r j = .success s) :
    jsonBodyGate sv r j = some [] ∧ payloadGate sv r j = some [] ∧ emit sv r j = .success s := by
  obtain ⟨hbody, hnext⟩ := gate_success h
  obtain ⟨hpayload, hemit⟩ := gate_success hnext
  exact ⟨hbody, hpayload, hemit⟩

/-- What passes the shape check was accepted by the adapter. -/
theorem validate_accepted {adapter : Adapter} {content : Str} {errors : List Str}
    (h : validate adapter content = some (true, errors)) :
    adapter.validateSyntax content = some (true, errors) := by
  rw [validate] at h
  split_ifs at h
  · cases h
  · exact h

/-- Everything a candidate passed on its way out, and the proposal it is made of. -/
structure Passed (sv : Services) (r : Request) (proposal : Proposal) (source : Str)
    (fromDoer : Bool) (s : Success) : Prop where
  content : normalizeCandidateContent sv proposal.candidateContent = .text s.contentRef
  syntax_ok : ∃ errors, r.adapter.validateSyntax s.contentRef = some (true, errors)
  jsonBody : ∀ feature, r.pattern.jsonBodyFieldFeature = some feature →
    r.targetTechnology = akamaiWaf → s.proposalSource ≠ modsecSource →
      jsonBodyErrors sv s.contentRef feature = some []
  payloads : ∀ requirements, r.translationRequirements = some requirements →
    r.targetTechnology = akamaiWaf →
      semanticErrors sv s.contentRef s.translation requirements = some []
  conflicts : r.adapter.detectConflicts s.contentRef = some s.conflictNotes
  hash : ∃ digest, sv.digest s.contentRef = some digest ∧
    s.contentHash = "sha256:".toList ++ digest
  label : s.translation = proposal.translationLabel
  permitted : Permitted r s.translation
  source_eq : s.proposalSource = source
  llmInvoked : s.llmInvoked = fromDoer

/-- A judged proposal that succeeds passed everything. -/
theorem passed_of_judge {sv : Services} {r : Request} {proposal : Proposal} {content source : Str}
    {fromDoer : Bool} {errors : List Str} {s : Success}
    (hpolicy : proposalPolicyFailure sv r proposal.translationLabel = none)
    (hcontent : normalizeCandidateContent sv proposal.candidateContent = .text content)
    (hvalid : validate r.adapter content = some (true, errors))
    (h : judge sv r ⟨proposal, content, source, fromDoer⟩ = .success s) :
    Passed sv r proposal source fromDoer s := by
  obtain ⟨hbody, hpayload, hemit⟩ := judge_success h
  obtain ⟨conflicts, digest, hconflicts, hdigest, rfl⟩ := emit_success hemit
  refine
    { content := hcontent
      syntax_ok := ⟨errors, validate_accepted hvalid⟩
      jsonBody := fun feature hfeature htarget hsource => ?_
      payloads := fun requirements hrequirements htarget => ?_
      conflicts := hconflicts
      hash := ⟨digest, hdigest, rfl⟩
      label := rfl
      permitted := proposalPolicyFailure_none_iff.mp hpolicy
      source_eq := rfl
      llmInvoked := rfl }
  · rw [jsonBodyGate, hfeature] at hbody
    exact (if_pos ⟨htarget, hsource⟩).symm.trans hbody
  · rw [payloadGate, hrequirements] at hpayload
    exact (if_pos htarget).symm.trans hpayload

/-- A repaired proposal that succeeds passed everything itself. -/
theorem judgeRepaired_success {sv : Services} {r : Request} {source : Str} {fromDoer : Bool}
    {repaired : Proposal} {s : Success}
    (h : judgeRepaired sv r source fromDoer repaired = .success s) :
    Passed sv r repaired source fromDoer s := by
  rw [judgeRepaired] at h
  cases hpolicy : proposalPolicyFailure sv r repaired.translationLabel with
  | some refusal => simp [hpolicy] at h
  | none =>
      simp only [hpolicy] at h
      cases hcontent : normalizeCandidateContent sv repaired.candidateContent with
      | refused detail => simp [hcontent, failure] at h
      | raised detail => simp [hcontent, failure] at h
      | text content =>
          simp only [hcontent] at h
          have hchecked := uncancelled h nofun
          cases hvalid : validate r.adapter content with
          | none => simp [hvalid] at hchecked
          | some result =>
              obtain ⟨valid, errors⟩ := result
              simp only [hvalid] at hchecked
              have hjudged := uncancelled hchecked nofun
              cases valid with
              | false => simp [failure] at hjudged
              | true => exact passed_of_judge hpolicy hcontent hvalid hjudged

/-- A repair that succeeds was answered, and its answer passed everything. -/
theorem repairOnce_success {sv : Services} {r : Request} {source : Str} {fromDoer : Bool}
    {reply : Reply Proposal} {s : Success}
    (h : (repairOnce sv r source fromDoer reply).1 = .success s) :
    ∃ repaired, reply = .returned repaired ∧ (repairOnce sv r source fromDoer reply).2 = 1 ∧
      Passed sv r repaired source fromDoer s := by
  unfold repairOnce at h ⊢
  cases hbefore : r.signal .beforeRepair with
  | true => simp [hbefore] at h
  | false =>
      simp only [hbefore, Bool.false_eq_true, if_false] at h ⊢
      cases reply with
      | raised detail => simp [failure] at h
      | cancelled => simp at h
      | returned repaired =>
          cases hafter : r.signal .afterRepair with
          | true => simp [hafter] at h
          | false =>
              simp only [hafter, Bool.false_eq_true, if_false] at h ⊢
              exact ⟨repaired, rfl, trivial, judgeRepaired_success h⟩

/-- The proposal that is emitted, with the number of repairs: the one that is checked,
or its one repair, which only the proposal of a doer without a declared source gets. -/
inductive Emitted (doer : Doer) (first : Proposal) (fromDoer : Bool) :
    Proposal → Nat → Prop
  | checked : Emitted doer first fromDoer first 0
  | repaired (repair : Proposal → List Str → Reply Proposal) (errors : List Str)
      (answer : Proposal) (hdoer : fromDoer = true) (hrepair : doer.repair = some repair)
      (hanswer : repair first errors = .returned answer) : Emitted doer first fromDoer answer 1

/-- Content that succeeds passed everything, or the repair of its proposal did. -/
theorem checkContent_success {sv : Services} {r : Request} {doer : Doer} {j : Judged}
    {s : Success} (hpolicy : proposalPolicyFailure sv r j.proposal.translationLabel = none)
    (hcontent : normalizeCandidateContent sv j.proposal.candidateContent = .text j.content)
    (h : (checkContent sv r doer j).1 = .success s) :
    ∃ emitted, Emitted doer j.proposal j.fromDoer emitted (checkContent sv r doer j).2 ∧
      Passed sv r emitted j.source j.fromDoer s := by
  unfold checkContent at h ⊢
  cases hbefore : r.signal .beforeSyntax with
  | true => simp [hbefore] at h
  | false =>
      simp only [hbefore, Bool.false_eq_true, if_false] at h ⊢
      cases hvalid : validate r.adapter j.content with
      | none => simp [hvalid] at h
      | some result =>
          obtain ⟨valid, errors⟩ := result
          simp only [hvalid] at h ⊢
          split_ifs at h ⊢ with hcancelled haccepted hasked
          · exact ⟨j.proposal, .checked, passed_of_judge hpolicy hcontent (haccepted ▸ hvalid) h⟩
          · cases hrepair : doer.repair with
            | none => simp [hrepair, failure] at h
            | some repair =>
                simp only [hrepair] at h ⊢
                obtain ⟨repaired, hanswer, hcalls, hpassed⟩ := repairOnce_success h
                rw [hcalls]
                exact ⟨repaired, .repaired repair errors repaired hasked hrepair hanswer, hpassed⟩
          · simp [failure] at h

/-- A proposal that succeeds passed everything, or its repair did. -/
theorem checkProposal_success {sv : Services} {r : Request} {doer : Doer} {proposal : Proposal}
    {source : Str} {fromDoer : Bool} {s : Success}
    (h : (checkProposal sv r doer proposal source fromDoer).1 = .success s) :
    ∃ emitted, Emitted doer proposal fromDoer emitted
        (checkProposal sv r doer proposal source fromDoer).2 ∧
      Passed sv r emitted source fromDoer s := by
  unfold checkProposal at h ⊢
  cases hpolicy : proposalPolicyFailure sv r proposal.translationLabel with
  | some refusal => simp [hpolicy] at h
  | none =>
      simp only [hpolicy] at h ⊢
      cases hcontent : normalizeCandidateContent sv proposal.candidateContent with
      | refused detail => simp [hcontent, failure] at h
      | raised detail => simp [hcontent] at h
      | text content =>
          simp only [hcontent] at h ⊢
          exact checkContent_success hpolicy hcontent h

/-- Where the proposal behind a candidate came from, with the number of proposals
asked for: a deterministic path, or the first answer of the doer. -/
inductive Origin (sv : Services) (r : Request) (doer : Doer) : Proposal → Str → Bool → Nat → Prop
  | deterministic (proposal : Proposal) (source : Str)
      (h : deterministicProposal sv r = some (proposal, source)) :
      Origin sv r doer proposal source false 0
  | proposed (proposal : Proposal) (hnone : deterministicProposal sv r = none)
      (h : doer.propose = .returned proposal) :
      Origin sv r doer proposal
        (doer.deterministicProposalSource.getD "translation-doer".toList)
        doer.deterministicProposalSource.isNone 1

/-- What success means: an origin, the proposal that came out of it, and what that
proposal passed. -/
def Succeeds (sv : Services) (r : Request) (doer : Doer) (run : Run) (s : Success) : Prop :=
  ∃ first source fromDoer emitted, Origin sv r doer first source fromDoer run.proposeCalls ∧
    Emitted doer first fromDoer emitted run.repairCalls ∧ Passed sv r emitted source fromDoer s

/-- A doer that is asked and succeeds answered. -/
theorem askDoer_success {sv : Services} {r : Request} {doer : Doer} {s : Success}
    (hnone : deterministicProposal sv r = none) (h : (askDoer sv r doer).outcome = .success s) :
    Succeeds sv r doer (askDoer sv r doer) s := by
  unfold askDoer at h ⊢
  cases hbefore : r.signal .beforePropose with
  | true => simp [hbefore] at h
  | false =>
      simp only [hbefore, Bool.false_eq_true, if_false] at h ⊢
      cases hpropose : doer.propose with
      | raised detail => simp [hpropose, failure] at h
      | cancelled => simp [hpropose] at h
      | returned proposal =>
          simp only [hpropose] at h ⊢
          split_ifs at h ⊢
          obtain ⟨emitted, hemitted, hpassed⟩ := checkProposal_success h
          exact ⟨proposal, _, _, emitted, .proposed proposal hnone hpropose, hemitted, hpassed⟩

/-- A call that succeeds found its proposal somewhere, and that proposal or its
repair passed everything. -/
theorem translate_success {sv : Services} {r : Request} {doer : Doer} {s : Success}
    (h : (translate sv r doer).outcome = .success s) :
    Succeeds sv r doer (translate sv r doer) s := by
  unfold translate at h ⊢
  cases hstart : r.signal .start with
  | true => simp [hstart] at h
  | false =>
      simp only [hstart, Bool.false_eq_true, if_false] at h ⊢
      cases hfound : deterministicProposal sv r with
      | some found =>
          obtain ⟨proposal, source⟩ := found
          simp only [hfound] at h ⊢
          obtain ⟨emitted, hemitted, hpassed⟩ := checkProposal_success h
          exact ⟨proposal, source, false, emitted, .deterministic proposal source hfound,
            hemitted, hpassed⟩
      | none =>
          simp only [hfound, translateByDoer] at h ⊢
          split_ifs at h ⊢
          · simp [failure] at h
          · cases hfeature : r.adapter.supportsFeature with
            | none => simp [hfeature] at h
            | some supported =>
                cases supported with
                | false => simp [hfeature, failure] at h
                | true =>
                    simp only [hfeature] at h ⊢
                    exact askDoer_success hfound h

/-- The first of two answers, or the second. -/
theorem of_orElse {α : Type} {first second : Option α} {a : α}
    (h : (first <|> second) = some a) : first = some a ∨ second = some a := by
  cases first with
  | none => exact Or.inr h
  | some b => exact Or.inl h

/-- A deterministic proposal under the name of the compiled rule is that rule. -/
theorem compiled_of_deterministicProposal {sv : Services} {r : Request} {proposal : Proposal}
    (h : deterministicProposal sv r = some (proposal, modsecSource)) :
    sv.paths.compiled = some proposal := by
  have hother : ∀ {source : String} {path : Option Proposal}, source.toList ≠ modsecSource →
      named source path ≠ some (proposal, modsecSource) := by
    intro source path hne hpath
    obtain ⟨p, -, hp⟩ := Option.map_eq_some_iff.mp hpath
    exact hne (Prod.mk.inj hp).2
  have hcompiled : named "deterministic-modsec-rule" sv.paths.compiled =
      some (proposal, modsecSource) → sv.paths.compiled = some proposal := by
    intro hnamed
    obtain ⟨p, hp, heq⟩ := Option.map_eq_some_iff.mp hnamed
    rw [hp, (Prod.mk.inj heq).1]
  rw [deterministicProposal] at h
  split_ifs at h
  rw [akamaiDeterministicProposal] at h
  split_ifs at h
  · exact hcompiled h
  · rcases of_orElse h with hbody | hrest
    · exact absurd hbody (hother (by decide))
    · rcases of_orElse hrest with hlocal | hlast
      · rcases of_orElse hlocal with hliteral | hform
        · exact absurd hliteral (hother (by decide))
        · exact absurd hform (hother (by decide))
      · exact hcompiled hlast
  · rcases of_orElse h with hbody | hrest
    · exact absurd hbody (hother (by decide))
    · exact hcompiled ((of_orElse hrest).resolve_left (by simp))

/-- What holds of a success: its content passed every gate and is hashed as it is, its
label is permitted and that of the proposal the content came from, and the doer was
asked at most once for each, and for nothing when code had a proposal. -/
structure Gated (sv : Services) (r : Request) (doer : Doer) (run : Run) (s : Success) :
    Prop where
  syntax_ok : ∃ errors, r.adapter.validateSyntax s.contentRef = some (true, errors)
  jsonBody : ∀ feature, r.pattern.jsonBodyFieldFeature = some feature →
    r.targetTechnology = akamaiWaf → s.proposalSource ≠ modsecSource →
      jsonBodyErrors sv s.contentRef feature = some []
  compiled : s.proposalSource = modsecSource →
    (∃ proposal, deterministicProposal sv r = some (proposal, modsecSource) ∧
      sv.paths.compiled = some proposal) ∨ doer.deterministicProposalSource = some modsecSource
  payloads : ∀ requirements, r.translationRequirements = some requirements →
    r.targetTechnology = akamaiWaf →
      semanticErrors sv s.contentRef s.translation requirements = some []
  conflicts : r.adapter.detectConflicts s.contentRef = some s.conflictNotes
  hash : ∃ digest, sv.digest s.contentRef = some digest ∧
    s.contentHash = "sha256:".toList ++ digest
  proposal : ∃ first source fromDoer emitted,
    Origin sv r doer first source fromDoer run.proposeCalls ∧
    Emitted doer first fromDoer emitted run.repairCalls ∧
    normalizeCandidateContent sv emitted.candidateContent = .text s.contentRef ∧
    s.translation = emitted.translationLabel
  permitted : Permitted r s.translation
  proposeCalls : run.proposeCalls ≤ 1
  repairCalls : run.repairCalls ≤ 1
  deterministic : (deterministicProposal sv r).isSome = true →
    run.proposeCalls = 0 ∧ run.repairCalls = 0 ∧ s.llmInvoked = false

/-- **Engine gates.**  Whatever the doer and the adapter are, a success of the engine
is gated. -/
theorem success_gated {sv : Services} {r : Request} {doer : Doer} {s : Success}
    (h : (translate sv r doer).outcome = .success s) : Gated sv r doer (translate sv r doer) s := by
  obtain ⟨first, source, fromDoer, emitted, horigin, hemitted, hpassed⟩ := translate_success h
  have hrepair : (translate sv r doer).repairCalls ≤ 1 ∧
      (fromDoer = false → (translate sv r doer).repairCalls = 0) := by
    generalize (translate sv r doer).repairCalls = calls at hemitted
    cases hemitted with
    | checked => exact ⟨Nat.zero_le 1, fun _ => rfl⟩
    | repaired repair errors answer hdoer =>
        exact ⟨Nat.le_refl 1, fun hcode => absurd (hdoer.symm.trans hcode) Bool.noConfusion⟩
  refine
    { syntax_ok := hpassed.syntax_ok
      jsonBody := hpassed.jsonBody
      compiled := fun hsource => ?_
      payloads := hpassed.payloads
      conflicts := hpassed.conflicts
      hash := hpassed.hash
      proposal := ⟨first, source, fromDoer, emitted, horigin, hemitted, hpassed.content,
        hpassed.label⟩
      permitted := hpassed.permitted
      proposeCalls := ?_
      repairCalls := hrepair.1
      deterministic := fun hsome => ?_ }
  · have hmodsec : source = modsecSource := hpassed.source_eq.symm.trans hsource
    generalize (translate sv r doer).proposeCalls = calls at horigin
    cases horigin with
    | deterministic _ hfound =>
        rw [hmodsec] at hfound
        exact Or.inl ⟨first, hfound, compiled_of_deterministicProposal hfound⟩
    | proposed hnone =>
        right
        cases hdeclared : doer.deterministicProposalSource with
        | none =>
            rw [hdeclared] at hmodsec
            exact absurd hmodsec (by decide)
        | some declared =>
            rw [hdeclared] at hmodsec
            exact congrArg some hmodsec
  · generalize (translate sv r doer).proposeCalls = calls at horigin
    cases horigin with
    | deterministic => exact Nat.zero_le 1
    | proposed => exact Nat.le_refl 1
  · have hcode : (translate sv r doer).proposeCalls = 0 ∧ fromDoer = false := by
      generalize (translate sv r doer).proposeCalls = calls at horigin
      cases horigin with
      | deterministic => exact ⟨rfl, rfl⟩
      | proposed hnone =>
          rw [hnone] at hsome
          cases hsome
    exact ⟨hcode.1, hrepair.2 hcode.2, hpassed.llmInvoked.trans hcode.2⟩

/-- A proposal of a text. -/
def textProposal (content : String) : Proposal :=
  { candidateContent := .text content.toList
    translationLabel := "equivalent".toList
    justification := []
    translationAssumptions := []
    limitations := [] }

/-- No deterministic path has a proposal, and every text is the rule on the field
`user`. -/
def userServices : Services :=
  { t := asciiTables
    casing := asciiCasing
    repr := fun _ => []
    loads := fun _ => .document (.object (userRule true))
    dumps := fun _ => .refused
    digest := some
    paths := ⟨none, none, none, none⟩ }

/-- An adapter that wants the text `rule`. -/
def ruleAdapter : Adapter :=
  { artifactType := "akamai-waf-rule".toList
    supportsFeature := some true
    validateSyntax := fun content => some (content == "rule".toList, [])
    detectConflicts := fun _ => some ["name".toList] }

/-- A pattern with a proven field and a bypass, for the Akamai target. -/
def userRequest : Request :=
  { pattern := ⟨"CVE-1".toList, "waf".toList, "d".toList, "body".toList, "evil".toList, [],
      some evilUser⟩
    targetTechnology := akamaiWaf
    targetPolicyContextId := "policy".toList
    adapter := ruleAdapter
    translationRequirements := some bypassEvil
    allowNarrowerTranslation := false
    allowEquivalentTranslation := true
    allowBroaderTranslation := false
    signal := fun _ => false }

/-- A doer whose first answer the adapter refuses. -/
def draftingDoer : Doer :=
  { propose := .returned (textProposal "draft")
    deterministicProposalSource := none
    repair := some fun _ _ => .returned (textProposal "rule") }

/-- A repaired draft can pass every gate. -/
theorem success_gated_repaired :
    ∃ s, (translate userServices userRequest draftingDoer).outcome = .success s ∧
      Gated userServices userRequest draftingDoer
        (translate userServices userRequest draftingDoer) s :=
  ⟨_, rfl, success_gated rfl⟩

end TranslationEngine
