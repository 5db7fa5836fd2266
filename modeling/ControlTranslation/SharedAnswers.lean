import ControlTranslation.Lineage
import ControlTranslation.SharedInvocation

/-!
# What an answer of the shared contract says

Whatever is fetched and whatever the policy reader and the adapter do, the answer is the
plan's or it lists nothing: the gates only decide whether the plan's own content is
handed out.  What makes this so is the join.  It counts one mapping, one check and one
campaign for each obligation, and the plan keeps the mappings; so the finished result
passes its own contract without being changed for it.
-/

namespace CapabilityRouting

open PyText JsonValue SharedContracts Alternatives Failures
open TranslationEngine (Success)

/-- A text on one line that starts with a brace, as the canonical form of an object does. -/
def OneLine (t : Str) : Prop := t.head? = some '\x7b' ∧ ∀ c ∈ t, isLineBreak c = false

theorem exists_cons_of_head? {α : Type} {l : List α} {a : α} (h : l.head? = some a) :
    ∃ rest, l = a :: rest := by
  cases l with
  | nil => cases h
  | cons b rest =>
      obtain rfl := Option.some.inj h
      exact ⟨rest, rfl⟩

/-- What starts with a brace starts with it after the white space at the end is gone. -/
theorem head?_rstrip {t : Str} (h : t.head? = some '\x7b') :
    (rstrip t).head? = some '\x7b' := by
  have hne : rstrip t ≠ [] := by
    intro hnil
    obtain ⟨rest, rfl⟩ := exists_cons_of_head? h
    have hspace := List.rdropWhile_eq_nil_iff.mp hnil '\x7b' List.mem_cons_self
    exact absurd hspace (by decide)
  obtain ⟨c, rest, hrest⟩ := List.exists_cons_of_ne_nil hne
  obtain ⟨suffix, hsuffix⟩ := List.rdropWhile_prefix isSpace t
  have hwhole : rstrip t ++ suffix = t := hsuffix
  rw [hrest] at hwhole
  rw [← hwhole] at h
  rw [hrest]
  exact h

theorem lstrip_brace {t : Str} (h : t.head? = some '\x7b') : lstrip t = t := by
  obtain ⟨rest, rfl⟩ := exists_cons_of_head? h
  exact List.dropWhile_cons_of_neg (by decide)

/-- No directive starts with a brace. -/
theorem isSecRuleLine_brace {t : CharTables} {line : Str} (h : line.head? = some '\x7b') :
    ModSecurity.isSecRuleLine t line = false := by
  have hstrip := lstrip_brace h
  obtain ⟨rest, rfl⟩ := exists_cons_of_head? h
  have hkeyword : ModSecurity.foldsWith 'S' '\x7b' = false := by decide
  change (_ &&
    (List.zipWith ModSecurity.foldsWith "SecRule".toList (lstrip ('\x7b' :: rest))).all id
    && _) = false
  rw [hstrip]
  change (_ && (ModSecurity.foldsWith 'S' '\x7b' :: _).all id && _) = false
  rw [List.all_cons, hkeyword]
  simp

theorem splitLinesFrom_plain : ∀ {t line : Str}, (∀ c ∈ t, isLineBreak c = false) →
    line ≠ [] → splitLinesFrom line false t = [line.reverse ++ t] := by
  intro t
  induction t with
  | nil =>
      intro line _ hline
      simp [splitLinesFrom, hline]
  | cons c rest ih =>
      intro line hplain hline
      have hc := hplain c List.mem_cons_self
      rw [splitLinesFrom]
      simp only [Bool.false_and, Bool.false_eq_true, if_false, hc]
      rw [ih (fun d hd => hplain d (List.mem_cons_of_mem _ hd)) (List.cons_ne_nil _ _)]
      simp

/-- A text on one line has that line. -/
theorem splitLines_oneLine {t : Str} (h : OneLine t) : splitLines t = [t] := by
  obtain ⟨rest, rfl⟩ := exists_cons_of_head? h.1
  have hc := h.2 '\x7b' List.mem_cons_self
  rw [splitLines, splitLinesFrom]
  simp only [Bool.false_and, Bool.false_eq_true, if_false, hc]
  rw [splitLinesFrom_plain (fun d hd => h.2 d (List.mem_cons_of_mem _ hd)) (List.cons_ne_nil _ _)]
  rfl

/-- No directive is in such a text. -/
theorem splitDirectives_oneLine {t : CharTables} {summary : Str} (h : OneLine summary) :
    ModSecurity.splitDirectives t summary = [] := by
  rw [ModSecurity.splitDirectives, splitLines_oneLine h, List.filter_eq_nil_iff]
  intro line hline
  have hstripped := head?_rstrip h.1
  have hbrace : line.head? = some '\x7b' := by
    have hof : ∀ {u : Str}, u.head? = some '\x7b' →
        line ∈ (if strip u = [] then [] else [strip u]) → line.head? = some '\x7b' := by
      intro u hu hmem
      split_ifs at hmem
      · cases hmem
      · rw [List.mem_singleton.mp hmem, strip, lstrip_brace hu]
        exact head?_rstrip hu
    rw [ModSecurity.joinLines] at hline
    split_ifs at hline with hcontinued hblank
    · refine hof ?_ hline
      obtain ⟨rest, hrest⟩ := exists_cons_of_head? hstripped
      rw [hrest] at hcontinued ⊢
      cases rest with
      | nil => exact absurd hcontinued (by decide)
      | cons d rest =>
          rw [List.dropLast_cons_cons, List.nil_append]
          obtain ⟨more, hmore⟩ := exists_cons_of_head?
            (head?_rstrip (t := '\x7b' :: (d :: rest).dropLast) rfl)
          rw [hmore]
          rfl
    · cases hline
    · rw [ModSecurity.joinLines] at hline
      rcases List.mem_cons.mp hline with rfl | hnil
      · rw [List.nil_append, strip, lstrip_brace hstripped]
        exact head?_rstrip hstripped
      · have hempty : strip ([] : Str) = [] := rfl
        rw [if_pos hempty] at hnil
        cases hnil
  rw [isSecRuleLine_brace hbrace]
  exact Bool.false_ne_true

theorem not_lineFeed {t : Str} (h : OneLine t) : '\n' ∉ t := by
  intro hmem
  exact absurd (h.2 _ hmem) (by decide)

/-- No anchored literal is in such a text. -/
theorem searchAnchoredLiteral_oneLine {t : Str} (h : OneLine t) :
    ModSecurity.searchAnchoredLiteral t = none := by
  have hhere : ModSecurity.anchoredHere t = none := by
    obtain ⟨rest, hrest⟩ := exists_cons_of_head? h.1
    rw [ModSecurity.anchoredHere, lstrip_brace h.1, hrest]
    rfl
  have hbelow : ∀ {u : Str}, '\n' ∉ u → ModSecurity.anchoredBelow u = none := by
    intro u
    induction u with
    | nil => intro; rfl
    | cons c rest ih =>
        intro hmem
        rw [List.mem_cons, not_or] at hmem
        rw [ModSecurity.anchoredBelow, if_neg (Ne.symm hmem.1)]
        exact ih hmem.2
  rw [ModSecurity.searchAnchoredLiteral, hhere]
  exact hbelow (not_lineFeed h)

/-- Code has no proposal for such a pattern. -/
theorem deterministicPaths_oneLine {p : Providers} {pattern : ProofLoop.ProvenPattern}
    (hsummary : OneLine pattern.patternSummary) (hfeature : pattern.jsonBodyFieldFeature = none) :
    deterministicPaths p pattern none none = ⟨none, none, none, none⟩ := by
  have hcompiled : ModSecurity.compileAkamaiCustomRule p.tables (compilerPattern pattern) none =
      none := by
    have hnone : ModSecurity.splitDirectives p.tables (compilerPattern pattern).patternSummary =
        [] := splitDirectives_oneLine hsummary
    simp only [ModSecurity.compileAkamaiCustomRule, ModSecurity.compile, hnone, if_true]
  have hanchored : ModSecurity.hardenedAkamaiLiteralProposal (compilerPattern pattern) = none := by
    have hnone :
        ModSecurity.searchAnchoredLiteral (compilerPattern pattern).patternSummary = none :=
      searchAnchoredLiteral_oneLine hsummary
    simp only [ModSecurity.hardenedAkamaiLiteralProposal, hnone]
  simp only [deterministicPaths, Option.map_none, hcompiled, hanchored, hfeature, Option.bind_none]

section Plans

variable {s : SharedContracts.Services} {verified : VerifiedSharedContractV2}
  {plan : WafTranslationPlan} {rules : List Rule} {targetId technology : Str}

/-- A plan proposes its content. -/
theorem proposal_of_plan (h : buildWafTranslationPlan s verified technology = .ok plan) :
    plan.proposal.candidateContent = plan.primaryCandidateContent := by
  simp only [buildWafTranslationPlan, SharedContracts.bind_eq_ok] at h
  obtain ⟨_, -, _, -, _, -, _, -, _, -, _, -, _, -, _, -, _, -, _, -, _, -, _, -, _, -, _, -, _, -,
    _, -, _, -, _, -, _, -, _, -, _, -, _, -, _, -, h⟩ := h
  obtain rfl := SharedContracts.pure_eq_ok.mp h
  rfl

/-- The identities of the mappings of a plan are those of the candidate's. -/
theorem mappings_of_plan (h : Built s verified plan rules targetId) :
    plan.translationMappings.map (·.obligationId) =
        identities (field (candidateOf verified) "obligation_mappings") "obligation_id" ∧
      plan.translationMappings.length =
        (arrayItems (field (candidateOf verified) "obligation_mappings")).length ∧
      ∀ mapping ∈ plan.translationMappings, mapping.targetArtifactIds = [targetId] := by
  obtain ⟨sources, items, -, hitems, hmapped⟩ := h.mappings
  have hlisted : items = arrayItems (field (candidateOf verified) "obligation_mappings") := by
    apply iterate_eq_arrayItems hitems
    intro item hitem
    obtain ⟨mapping, -, hmapping⟩ := exists_right_of_forall₂ hmapped hitem
    obtain ⟨members, -, rfl, -⟩ := hmapping.source
    exact ⟨members, rfl⟩
  refine ⟨?_, by rw [← hlisted, hmapped.length_eq], fun mapping hmapping => ?_⟩
  · rw [identities, ← hlisted]
    clear hitems hlisted
    generalize plan.translationMappings = mappings at hmapped ⊢
    induction hmapped with
    | nil => rfl
    | @cons item mapping items mappings hfirst _ ih =>
        obtain ⟨members, -, rfl, hid, -⟩ := hfirst.source
        have hidentity : identityOf "obligation_id" (.object members) =
            some mapping.obligationId := by
          change (field members "obligation_id").asText = some mapping.obligationId
          rw [hid]
          rfl
        rw [List.filterMap_cons, hidentity, List.map_cons, ih]
  · obtain ⟨item, -, hitem⟩ := exists_left_of_forall₂ hmapped hmapping
    exact hitem.target

theorem directives_of_plan (h : Built s verified plan rules targetId) :
    ∀ directive ∈ plan.translatedDirectives, directive.targetArtifactId = targetId := by
  obtain ⟨table, -, hdirected⟩ := h.directives
  intro directive hdirective
  obtain ⟨item, -, hitem⟩ := exists_left_of_forall₂ hdirected hdirective
  exact hitem.target

end Plans

section Joins

variable {s : JoinServices} {documents : JoinDocuments} {verified : VerifiedSharedContractV2}
  {profiles : JoinProfiles}

/-- How many obligations a join has. -/
def obligationCount (verified : VerifiedSharedContractV2) : Nat :=
  (arrayItems (field verified.semantics "obligations")).length

/-- The verification counts the obligations of the join. -/
theorem verification_of_join (h : VerifiedJoin s documents verified profiles) :
    verified.verification.requiredObligationCount = obligationCount verified := by
  obtain ⟨-, -, hattested, -⟩ := h.counts
  unfold attest at hattested
  split_ifs at hattested
  rw [← Except.ok.inj hattested]
  rfl

/-- A join has one mapping for each obligation. -/
theorem mapped_of_join (h : VerifiedJoin s documents verified profiles) :
    OneForEach (field (candidateOf verified) "obligation_mappings")
      (field verified.semantics "obligations") := by
  obtain ⟨candidate, -, haccepted, -⟩ := h.bundle
  have hcandidate : candidateOf verified = candidate := by
    rw [candidateOf, haccepted.primary]
    rfl
  rw [hcandidate]
  exact haccepted.mapped

end Joins

variable {p : SharedProviders} {settings : Settings} {minted : Minted} {request : SharedRequest}
  {verified : VerifiedSharedContractV2} {documents : JoinDocuments} {profiles : JoinProfiles}

/-- A join's counts agree, so a result of it passes as long as its output does. -/
theorem validate_of_join (request : SharedRequest)
    (hjoin : VerifiedJoin p.join documents verified profiles) {r : SharedResult}
    (hversion : r.sharedContractVersion = some "2.0")
    (hprofile : r.profileId = some request.profileId)
    (hverification : r.preTranslationVerification = some verified.verification)
    (haccounting : r.accounting = some verified.accounting)
    (hcontract : r.result.contractId = "control-translation@2.0")
    (houtput : r.result.terminalState = .translated →
      validateTranslated r (obligationCount verified) = .ok ())
    (hnone : r.result.terminalState ≠ .translated → r.listsOutput = false) :
    validateV2Completeness r = .ok () := by
  have hcount := verification_of_join hjoin
  obtain ⟨hrequired, haccounted, hunaccounted⟩ := hjoin.bypass.obligations
  rw [validateV2Completeness, hversion]
  simp only [hprofile, hverification, haccounting, bind_eq_ok, demand_eq_ok]
  refine ⟨(), by simp [hcontract], (), ?_, ?_⟩
  · rw [haccounted, hrequired, hunaccounted, hcount, obligationCount]
    simp
  · split_ifs with hstate
    · rw [hcount]
      exact houtput hstate
    · rw [demand_eq_ok, hnone hstate]
      rfl

/-- What a result without output says is complete. -/
theorem validate_sharedResult (request : SharedRequest)
    (hjoin : VerifiedJoin p.join documents verified profiles)
    {result : ControlTranslationResult} (hstate : result.terminalState ≠ .translated) :
    validateV2Completeness (sharedResult request verified result) = .ok () :=
  validate_of_join request hjoin rfl rfl rfl rfl rfl
    (fun h => absurd h hstate) fun _ => rfl

/-- What a plan lists is one mapping for each obligation, all to its own content. -/
theorem completeOutput_of_plan (hjoin : VerifiedJoin p.join documents verified profiles)
    {plan : WafTranslationPlan} {rules : List Rule} {targetId : Str}
    (hplan : Built p.join.toServices verified plan rules targetId) {r : SharedResult}
    (hartifacts : r.targetArtifacts = [])
    (hdirectives : r.translatedDirectives = plan.translatedDirectives)
    (hmappings : r.translationMappings = plan.translationMappings) :
    completeOutput r (obligationCount verified) targetId = true := by
  obtain ⟨hids, hlength, htargets⟩ := mappings_of_plan hplan
  have hmapped := mapped_of_join hjoin
  simp only [completeOutput, hartifacts, hdirectives, hmappings, List.map_nil, List.nil_append,
    List.nodup_nil, decide_true, Bool.true_and, Bool.and_eq_true, beq_iff_eq, decide_eq_true_eq,
    List.all_eq_true, List.contains_iff_mem, List.mem_singleton]
  refine ⟨⟨⟨?_, ?_⟩, fun mapping hmapping id hid => ?_⟩, directives_of_plan hplan⟩
  · rw [List.length_map, hlength, hmapped.length]
    rfl
  · rw [hids]
    exact hmapped.nodup
  · rw [htargets mapping hmapping] at hid
    exact List.mem_singleton.mp hid

/-- The output of a plan is complete under the identity of its content. -/
theorem validate_planResult (request : SharedRequest)
    (hjoin : VerifiedJoin p.join documents verified profiles)
    {plan : WafTranslationPlan} {rules : List Rule} {targetId : Str}
    (hplan : Built p.join.toServices verified plan rules targetId) (candidate : Success)
    {result : ControlTranslationResult} (hstate : result.terminalState = .translated) :
    validateV2Completeness (planResult p.join.toServices verified plan candidate
      (sharedResult request verified result)) = .ok () := by
  refine validate_of_join request hjoin rfl rfl rfl rfl rfl (fun _ => ?_)
    fun hother => absurd hstate hother
  have hprimary : sharedWafPrimaryArtifactId (planCandidate p.join.toServices verified plan
      candidate).contentHash = .ok targetId := hplan.target
  rw [validateTranslated]
  simp only [planResult, hprimary, demand_eq_ok]
  exact completeOutput_of_plan hjoin hplan rfl rfl rfl

/-- A fixed doer is answered by its proposal, which nothing repairs. -/
theorem proposal_of_fixed {sv : TranslationEngine.Services} {r : TranslationEngine.Request}
    {proposal first final : TranslationEngine.Proposal} {source : Str} {fromDoer : Bool}
    {proposeCalls repairCalls : Nat} (hnone : TranslationEngine.deterministicProposal sv r = none)
    (horigin : TranslationEngine.Origin sv r (fixedDoer proposal) first source fromDoer proposeCalls)
    (hemitted : TranslationEngine.Emitted (fixedDoer proposal) first fromDoer final repairCalls) :
    final = proposal := by
  cases horigin with
  | deterministic =>
      rename_i hfound
      rw [hnone] at hfound
      cases hfound
  | proposed _ hproposed =>
      cases hemitted with
      | checked => exact (TranslationEngine.Reply.returned.inj hproposed).symm
      | repaired => cases ‹(fixedDoer proposal).deterministicProposalSource.isNone = true›

/-- Without a path of code, the candidate's content is the one proposed. -/
theorem content_of_vetted {p : Providers} {c : Call} {pattern : ProofLoop.ProvenPattern}
    {target : Target} {candidate emitted : Success} {technology : Technology}
    {snapshot : PolicySnapshot} {proposal : TranslationEngine.Proposal} {content : Str}
    (h : Vetted p c pattern target candidate technology snapshot emitted)
    (hpaths : (engineServices p pattern c).paths = ⟨none, none, none, none⟩)
    (hdoer : ∀ r, p.doer r = fixedDoer proposal)
    (hcontent : proposal.candidateContent = .text content) :
    emitted.contentRef = content := by
  have hnone : ∀ r, TranslationEngine.deterministicProposal (engineServices p pattern c) r =
      none := by
    intro r
    simp [TranslationEngine.deterministicProposal, TranslationEngine.akamaiDeterministicProposal,
      TranslationEngine.compactedJndi, TranslationEngine.named, hpaths]
  obtain ⟨first, source, fromDoer, final, horigin, hemitted, hpassed⟩ :=
    TranslationEngine.translate_success h.outcome
  rw [hdoer] at horigin hemitted
  have hfinal := proposal_of_fixed (hnone _) horigin hemitted
  have hnormal := hpassed.content
  rw [hfinal, hcontent] at hnormal
  exact (TranslationEngine.Normalized.text.inj hnormal).symm

/-- The adapter of a target accepts a content and finds no conflict, under the policy that
was read. -/
def Accepted (p : Providers) (target : Target) (pattern : ProofLoop.ProvenPattern)
    (content : Str) : Prop :=
  ∃ technology snapshot errors, getAdapter target.technology = some technology ∧
    p.readSnapshot target.technology target.policyContextId = .returned (some snapshot) ∧
    (p.adapter technology pattern snapshot).validateSyntax content = some (true, errors) ∧
    (p.adapter technology pattern snapshot).detectConflicts content = some []

/-- A vetted candidate without conflicts has accepted content. -/
theorem accepted_of_vetted {p : Providers} {c : Call} {pattern : ProofLoop.ProvenPattern}
    {target : Target} {candidate emitted : Success} {technology : Technology}
    {snapshot : PolicySnapshot} (hqualification : c.qualification = none)
    (h : Vetted p c pattern target candidate technology snapshot emitted)
    (hconflicts : candidate.conflictNotes = []) : Accepted p target pattern emitted.contentRef := by
  obtain ⟨proposal, source, fromDoer, hpassed⟩ := h.passed
  obtain ⟨errors, hsyntax⟩ := hpassed.syntax_ok
  refine ⟨technology, snapshot, errors, h.carried, h.policy, hsyntax, ?_⟩
  have hnotes : emitted.conflictNotes = [] := by
    rw [← hconflicts, h.qualified, hqualification]
    rfl
  exact hnotes ▸ hpassed.conflicts

/-- The four records behind a join, and what was verified of them. -/
def Joined (p : SharedProviders) (request : SharedRequest) (verified : VerifiedSharedContractV2) :
    Prop :=
  ∃ fetch records documents profiles, p.resolver = some fetch ∧
    (∀ c, fetch c (request.locators c) = .found (records c)) ∧
    joinDocuments p.join records request.locators = .ok documents ∧
    expectedProfiles request.profileId = .ok profiles ∧
    VerifiedJoin p.join documents verified profiles

/-- The target under which the gates judge a planned pattern: the target of the request, as
the call with the pattern has it. -/
def plannedTarget (trim : Str → Str) (settings : Settings) (request : SharedRequest)
    (pattern : ProofLoop.ProvenPattern) : Target :=
  effectiveTarget trim settings (joinRequest (joinTarget trim settings request) pattern)

/-- What a translated answer hands out. -/
structure PlanAnswer (p : SharedProviders) (settings : Settings) (request : SharedRequest)
    (verified : VerifiedSharedContractV2) (structured : SharedResult) (plan : WafTranslationPlan)
    (candidate : Success) (targetId : Str) : Prop where
  built : buildWafTranslationPlan p.join.toServices verified
    (joinTarget p.trim settings request).technology = .ok plan
  carried : structured.result.primaryCandidate = some candidate
  /-- The content is the plan's, and is hashed as it is. -/
  content : candidate.contentRef = plan.primaryCandidateContent ∧
    candidate.contentHash = digestText p.join.toServices plan.primaryCandidateContent ∧
    sharedWafPrimaryArtifactId candidate.contentHash = .ok targetId
  label : candidate.translation = "exact".toList
  conflicts : candidate.conflictNotes = []
  /-- Every obligation has one mapping, and every reference is to the content. -/
  mappings : (structured.translationMappings.map (·.obligationId)).Nodup ∧
    (structured.translationMappings.map (·.obligationId)).Perm
      (identities (field verified.semantics "obligations") "obligation_id") ∧
    ∀ mapping ∈ structured.translationMappings, mapping.targetArtifactIds = [targetId]
  directives : ∀ directive ∈ structured.translatedDirectives, directive.targetArtifactId = targetId
  /-- The gates judged this content for the planned pattern, under the target of the request,
  where the plan's summary is one line. -/
  judged : OneLine plan.patternSummary → ∃ pattern,
    joinPattern p.trim request verified = .ok pattern ∧
    Accepted p.toProviders
      (plannedTarget p.trim settings request (plannedPattern pattern plan))
      (plannedPattern pattern plan) candidate.contentRef

/-- What holds of every answer. -/
structure SharedAnswer (p : SharedProviders) (settings : Settings) (request : SharedRequest)
    (verified : VerifiedSharedContractV2) (found : SharedEnvelope) : Prop where
  valid : validateV2Completeness found.structuredResult = .ok ()
  status : found.status = terminalStateToStatus found.structuredResult.result.terminalState
  bound : found.structuredResult.preTranslationVerification = some verified.verification ∧
    found.structuredResult.accounting = some verified.accounting ∧
    found.structuredResult.profileId = some request.profileId ∧
    found.provenance = request.proofIds
  /-- It names the four results, and no other. -/
  provenance : found.provenance.Perm (Capability.all.map fun c => (request.locators c).resultId)
  /-- No model is named as having been asked. -/
  inference : found.inference.llmInvoked = false
  translated : found.structuredResult.result.terminalState = .translated →
    ∃ plan candidate targetId,
      PlanAnswer p settings request verified found.structuredResult plan candidate targetId
  otherwise : found.structuredResult.result.terminalState ≠ .translated →
    found.structuredResult.listsOutput = false

/-- The finished result did not pass its own contract. -/
def invalidResult (stop : Stop) : Prop := ∃ message, stop = .invalid message

/-- A check ends the call as an invalid result or goes on with its value. -/
theorem ends_checkedAnswer {α : Type} (x : Checked α) :
    Ends invalidResult (fun a => x = .ok a) (checkedAnswer x) := by
  rcases x with (⟨code, detail⟩ | ⟨⟩) | a
  · exact ends_error.mpr (by simp [invalidResult])
  · exact ends_error.mpr (by simp [invalidResult])
  · exact ends_ok.mpr rfl

/-- The gates hold no result against its contract. -/
theorem not_invalid_of_interrupted {p : Providers} {settings : Settings} {c : Call} {stop : Stop}
    (h : Interrupted p settings c stop) : ¬ invalidResult stop := by
  rintro ⟨message, rfl⟩
  cases h with
  | reading stop hread =>
      unfold answered at hread
      split at hread <;> cases hread

/-- The gates end the call as an invalid result or go on with theirs. -/
theorem ends_gates (p : Providers) (settings : Settings) (minted : Minted) (c : Call) :
    Ends invalidResult (fun found => invoke p settings minted c = .ok found)
      (invoke p settings minted c) := by
  obtain ⟨stop, hrun, hstop⟩ | ⟨found, hrun, -⟩ := (ends_invoke p settings minted c).cases
  · rw [hrun]
    exact ends_error.mpr (not_invalid_of_interrupted (not_not.mp hstop))
  · rw [hrun]
    exact ends_ok.mpr rfl

/-- A signal is no such failure. -/
theorem ends_signal (signal : Bool) : Ends invalidResult (fun _ => True) (checkCancelled signal) :=
  ends_checkCancelled fun _ => by simp [invalidResult]

/-- The records are fetched in order, and joined. -/
theorem ends_resolveAndVerify (fetch : Capability → SharedContracts.Locator → Fetched)
    (hresolver : p.resolver = some fetch) :
    Ends invalidResult (Joined p request) (resolveAndVerify p fetch request) := by
  have hfetched : ∀ c, Ends invalidResult
      (fun record => fetch c (request.locators c) = .found record)
      (fetchRecord p fetch request c) := by
    intro c
    refine (ends_signal _).bind fun _ _ => ?_
    cases fetch c (request.locators c) with
    | found record => exact ends_ok.mpr rfl
    | _ => exact ends_error.mpr (by simp [invalidResult])
  refine (hfetched .checkGeneration).bind fun cg hcg => (hfetched .defenseGeneration).bind
    fun dg hdg => (hfetched .mitigationCheck).bind fun mc hmc => (hfetched .bypassValidation).bind
    fun bv hbv => (ends_signal _).bind fun _ _ => (ends_checkedAnswer _).imp
    fun verified hverified => ?_
  obtain ⟨documents, profiles, hread, hexpected, hjoin⟩ := verified_join_discharges hverified
  refine ⟨fetch, recordsOf cg dg mc bv, documents, profiles, hresolver, fun c => ?_, hread,
    hexpected, hjoin⟩
  cases c with
  | checkGeneration => exact hcg
  | defenseGeneration => exact hdg
  | mitigationCheck => exact hmc
  | bypassValidation => exact hbv

/-- The pattern of a join has no proven field. -/
theorem feature_of_joinPattern {trim : Str → Str} {pattern : ProofLoop.ProvenPattern}
    (h : joinPattern trim request verified = .ok pattern) :
    pattern.jsonBodyFieldFeature = none := by
  simp only [joinPattern, bind_eq_ok] at h
  obtain ⟨semanticsId, -, candidate, -, intent, -, h⟩ := h
  split at h
  · rename_i found hfound
    obtain rfl := pure_eq_ok.mp h
    rw [ProofLoop.validatePattern_ok hfound]
  · cases h

theorem ends_joinPattern (trim : Str → Str) (request : SharedRequest)
    (verified : VerifiedSharedContractV2) :
    Ends invalidResult (fun pattern => joinPattern trim request verified = .ok pattern)
      (joinPattern trim request verified) := by
  have hends : Ends invalidResult (fun _ => True) (joinPattern trim request verified) := by
    refine (ends_checkedAnswer _).bind fun semanticsId _ => (ends_checkedAnswer _).bind
      fun candidate _ => (ends_checkedAnswer _).bind fun intent _ => ?_
    split
    · exact ends_ok.mpr trivial
    · exact ends_error.mpr (by simp [invalidResult])
  exact ⟨hends.safe, fun pattern h => h⟩

theorem ends_planProposal (plan : WafTranslationPlan) :
    Ends invalidResult
      (fun proposal => proposal.candidateContent = .text plan.proposal.candidateContent)
      (planProposal plan) := by
  unfold planProposal
  split
  · exact ends_ok.mpr rfl
  · exact ends_error.mpr (by simp [invalidResult])

/-- The results a request names are those of its four capabilities. -/
theorem proofIds_perm (request : SharedRequest) :
    request.proofIds.Perm (Capability.all.map fun c => (request.locators c).resultId) := by
  have hnodup : (request.inputs.map (·.capability)).Nodup :=
    request.capabilities.nodup_iff.mpr (by decide)
  have hlocators : ∀ input ∈ request.inputs, request.locators input.capability = input := by
    intro input hinput
    have hfound := List.find?_some
      (Option.some_get (request.isSome_find input.capability)).symm
    have hmem := List.mem_of_find?_eq_some
      (Option.some_get (request.isSome_find input.capability)).symm
    exact List.inj_on_of_nodup_map hnodup hmem hinput (of_decide_eq_true hfound)
  have hids : request.proofIds =
      (request.inputs.map (·.capability)).map fun c => (request.locators c).resultId := by
    rw [SharedRequest.proofIds, List.map_map]
    exact List.map_congr_left fun input hinput => by simp [hlocators input hinput]
  rw [hids]
  exact request.capabilities.map _

/-- A result without output answers a request of its join. -/
theorem ends_bind_sharedResult (hjoin : VerifiedJoin p.join documents verified profiles)
    (result : ResultEnvelope)
    (hstate : result.structuredResult.terminalState ≠ .translated)
    (hstatus : result.status = terminalStateToStatus result.structuredResult.terminalState) :
    Ends invalidResult (SharedAnswer p settings request verified)
      (bindSharedContext request result
        (sharedResult request verified result.structuredResult)) := by
  have hvalid := validate_sharedResult request hjoin hstate
  rw [bindSharedContext, hvalid]
  exact ends_ok.mpr {
    valid := hvalid
    status := hstatus
    bound := ⟨rfl, rfl, rfl, rfl⟩
    provenance := proofIds_perm request
    inference := rfl
    translated := fun h => absurd h hstate
    otherwise := fun _ => rfl }

/-- A translated result is handed out as the plan's. -/
theorem planAnswer_of_sound {plan : WafTranslationPlan} {rules : List Rule} {targetId : Str}
    {proposal : TranslationEngine.Proposal} {pattern : ProofLoop.ProvenPattern}
    {candidate : Success} {result : ControlTranslationResult}
    (hjoin : VerifiedJoin p.join documents verified profiles)
    (hplan : buildWafTranslationPlan p.join.toServices verified
      (joinTarget p.trim settings request).technology = .ok plan)
    (hbuilt : Built p.join.toServices verified plan rules targetId)
    (hproposal : proposal.candidateContent = .text plan.proposal.candidateContent)
    (hpattern : joinPattern p.trim request verified = .ok pattern)
    (hconflicts : candidate.conflictNotes = [])
    (hvetted : ∃ technology snapshot emitted, Vetted (p.planned proposal)
      (joinCall request (joinTarget p.trim settings request) (plannedPattern pattern plan))
      (plannedPattern pattern plan)
      (plannedTarget p.trim settings request (plannedPattern pattern plan))
      candidate technology snapshot emitted) :
    PlanAnswer p settings request verified (planResult p.join.toServices verified plan candidate
      (sharedResult request verified result)) plan
      (planCandidate p.join.toServices verified plan candidate) targetId := by
  obtain ⟨hids, -, htargets⟩ := mappings_of_plan hbuilt
  have hmapped := mapped_of_join hjoin
  refine {
    built := hplan
    carried := rfl
    content := ⟨rfl, rfl, hbuilt.target⟩
    label := rfl
    conflicts := hconflicts
    mappings := ⟨?_, ?_, htargets⟩
    directives := directives_of_plan hbuilt
    judged := fun hline => ?_ }
  · change (plan.translationMappings.map (·.obligationId)).Nodup
    rw [hids]
    exact hmapped.nodup
  · change (plan.translationMappings.map (·.obligationId)).Perm _
    rw [hids]
    exact hmapped.identities
  · obtain ⟨found, snapshot, emitted, hvetted⟩ := hvetted
    have hfeature := feature_of_joinPattern hpattern
    have haccepted := accepted_of_vetted rfl hvetted hconflicts
    have hcontent := content_of_vetted hvetted
      (deterministicPaths_oneLine (p := p.planned proposal) hline hfeature) (fun _ => rfl) hproposal
    rw [hcontent, proposal_of_plan hplan] at haccepted
    exact ⟨pattern, hpattern, haccepted⟩

/-- What the gates answer is finished and handed out. -/
theorem ends_finish {plan : WafTranslationPlan} {rules : List Rule} {targetId : Str}
    (hjoin : VerifiedJoin p.join documents verified profiles)
    (hbuilt : Built p.join.toServices verified plan rules targetId) {result : ResultEnvelope}
    (hsame : result.terminalState = result.structuredResult.terminalState)
    (hstatus : result.status = terminalStateToStatus result.structuredResult.terminalState)
    (hanswer : result.structuredResult.terminalState = .translated →
      ∃ candidate, result.structuredResult.primaryCandidate = some candidate ∧
        PlanAnswer p settings request verified (planResult p.join.toServices verified plan candidate
          (sharedResult request verified result.structuredResult)) plan
          (planCandidate p.join.toServices verified plan candidate) targetId) :
    Ends invalidResult (SharedAnswer p settings request verified)
      (finishedResult p.join.toServices request verified plan result >>= fun structured =>
        validateV2Completeness structured >>= fun _ =>
          bindSharedContext request result structured) := by
  by_cases hstate : result.structuredResult.terminalState = .translated
  · obtain ⟨candidate, hcandidate, hplanned⟩ := hanswer hstate
    have hfinished : finishedResult p.join.toServices request verified plan result =
        .ok (planResult p.join.toServices verified plan candidate
          (sharedResult request verified result.structuredResult)) := by
      rw [finishedResult, if_pos (hsame.trans hstate), hcandidate]
    have hvalid := validate_planResult request hjoin hbuilt candidate hstate
    rw [hfinished]
    refine Ends.bind (ends_ok.mpr rfl) ?_
    rintro structured rfl
    rw [bindSharedContext, hvalid]
    exact ends_ok.mpr {
      valid := hvalid
      status := hstatus
      bound := ⟨rfl, rfl, rfl, rfl⟩
      provenance := proofIds_perm request
      inference := rfl
      translated := fun _ => ⟨plan, _, targetId, hplanned⟩
      otherwise := fun h => absurd hstate h }
  · have hfinished : finishedResult p.join.toServices request verified plan result =
        .ok (sharedResult request verified result.structuredResult) := by
      rw [finishedResult, if_neg (fun h => hstate (hsame.symm.trans h))]
    rw [hfinished]
    refine Ends.bind (ends_ok.mpr rfl) ?_
    rintro structured rfl
    rw [validate_sharedResult request hjoin hstate]
    exact ends_bind_sharedResult hjoin result hstate hstatus

/-- A plan is answered by its own content, or by nothing. -/
theorem ends_invokePlan {plan : WafTranslationPlan} {pattern : ProofLoop.ProvenPattern}
    (hjoin : VerifiedJoin p.join documents verified profiles)
    (hplan : buildWafTranslationPlan p.join.toServices verified
      (joinTarget p.trim settings request).technology = .ok plan)
    (hpattern : joinPattern p.trim request verified = .ok pattern) :
    Ends invalidResult (SharedAnswer p settings request verified)
      (invokePlan p settings minted request verified (joinTarget p.trim settings request) pattern
        plan) := by
  obtain ⟨rules, targetId, hbuilt⟩ := buildWafTranslationPlan_eq_ok hplan
  refine (ends_planProposal plan).bind fun proposal hproposal => (ends_gates _ _ _ _).bind
    fun result hresult => ?_
  obtain ⟨found, disposition, hfound, hdisposed, rfl⟩ := invoke_eq_ok hresult
  obtain rfl : plannedPattern pattern plan = found := Option.some.inj hfound
  refine ends_finish hjoin hbuilt rfl rfl fun hstate => ?_
  have hsome := hdisposed.carries.mpr (.inl hstate)
  obtain ⟨candidate, hcandidate⟩ := Option.isSome_iff_exists.mp hsome
  obtain ⟨hconflicts, hvetted⟩ := hdisposed.vetted candidate hcandidate
  exact ⟨candidate, hcandidate, planAnswer_of_sound hjoin hplan hbuilt hproposal hpattern
    (hconflicts.mp hstate) hvetted⟩

/-- A verified join is answered by its plan, or without output. -/
theorem ends_answerJoin (hjoin : VerifiedJoin p.join documents verified profiles) :
    Ends invalidResult (SharedAnswer p settings request verified)
      (answerJoin p settings minted request verified) := by
  refine (ends_joinPattern _ _ _).bind fun pattern hpattern => ?_
  split
  · rename_i plan hplan
    exact ends_invokePlan hjoin hplan hpattern
  · split_ifs
    · rw [inexpressible]
      refine ends_bind_sharedResult hjoin _ (fun h => ?_) rfl
      simp [envelope, buildResult, gated] at h
    · exact ends_error.mpr (by simp [invalidResult])
  · exact ends_error.mpr (by simp [invalidResult])

/-- **Answers of the shared contract.**  Whatever is fetched and whatever the providers do, a
request is stopped, never because its finished result fails its own contract, or it is
answered: by the plan's content with one mapping for each obligation, or without output. -/
theorem shared_contract_answers (p : SharedProviders) (settings : Settings) (minted : Minted)
    (request : SharedRequest) :
    (∃ stop, invokeSharedContract p settings minted request = .error stop ∧
      ∀ message, stop ≠ .invalid message) ∨
    ∃ found verified, invokeSharedContract p settings minted request = .ok found ∧
      Joined p request verified ∧ SharedAnswer p settings request verified found := by
  have hends : Ends invalidResult (fun found => ∃ verified, Joined p request verified ∧
      SharedAnswer p settings request verified found)
      (invokeSharedContract p settings minted request) := by
    refine (ends_signal _).bind fun _ _ => ?_
    cases hresolver : p.resolver with
    | none => exact ends_error.mpr (by simp [invalidResult])
    | some fetch =>
        refine (ends_resolveAndVerify fetch hresolver).bind fun verified hjoined =>
          (ends_signal _).bind fun _ _ => ?_
        obtain ⟨_, _, documents, profiles, -, -, -, -, hjoin⟩ := id hjoined
        exact (ends_answerJoin hjoin).imp fun found hanswer => ⟨verified, hjoined, hanswer⟩
  rcases hends.cases with ⟨stop, hstop, hvalid⟩ | ⟨found, hfound, verified, hjoined, hanswer⟩
  · exact .inl ⟨stop, hstop, fun message h => hvalid ⟨message, h⟩⟩
  · exact .inr ⟨found, verified, hfound, hjoined, hanswer⟩

end CapabilityRouting
