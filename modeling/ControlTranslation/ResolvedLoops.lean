import ControlTranslation.ResolutionAgreement

/-!
# What both services make of a proof loop

The second half of the comparison: the assembly of the pattern, the counterexample and
its evidence, and the theorem about the two programs as a whole.
-/

namespace GoProofLoop

open PyText JsonValue GoContracts
open ProofLoop (Role UpstreamRecord Records Environment ResolveRequest BypassState
  JsonBodyFieldFeature RequestContext trimWhiteSpace)

/-- Two proof records that name both results. -/
structure ProofIds (ids : List Str) : Prop where
  nodup : ids.Nodup
  mitigation : ids.any ("mitigation-check-result:".toList.isPrefixOf ·) = true
  bypass : ids.any ("bypass-validation-result:".toList.isPrefixOf ·) = true

theorem any_prefix_trim {first last : Char} (middle : Str)
    (hfirst : GoText.isSpace first = false) (hlast : GoText.isSpace last = false)
    {ids : List Str} (h : ids.any ((first :: middle ++ [last]).isPrefixOf ·) = true) :
    (ids.map trimWhiteSpace).any ((first :: middle ++ [last]).isPrefixOf ·) = true := by
  obtain ⟨id, hmem, hprefix⟩ := List.any_eq_true.mp h
  refine List.any_eq_true.mpr ⟨_, List.mem_map_of_mem hmem, ?_⟩
  rw [trimWhiteSpace_eq]
  exact List.isPrefixOf_iff_prefix.mpr
    (prefix_trimSpace hfirst hlast (List.isPrefixOf_iff_prefix.mp hprefix))

/-- One text does not begin with both prefixes. -/
theorem not_both_prefixes {s : Str} (hm : "mitigation-check-result:".toList.isPrefixOf s = true)
    (hb : "bypass-validation-result:".toList.isPrefixOf s = true) : False := by
  cases s with
  | nil => cases hm
  | cons c rest =>
      have hm' : ('m' == c) = true := (Bool.and_eq_true_iff.mp hm).1
      have hb' : ('b' == c) = true := (Bool.and_eq_true_iff.mp hb).1
      rw [← beq_iff_eq.mp hm'] at hb'
      exact absurd hb' (by decide)

/-- Trimmed records are told apart by their prefixes. -/
theorem ProofIds.trimmed {m b : Str} (h : ProofIds [m, b]) :
    ProofIds [trimWhiteSpace m, trimWhiteSpace b] := by
  have hmitigation := any_prefix_trim "itigation-check-result".toList
    (by decide : GoText.isSpace 'm' = false) (by decide : GoText.isSpace ':' = false) h.mitigation
  have hbypass := any_prefix_trim "ypass-validation-result".toList
    (by decide : GoText.isSpace 'b' = false) (by decide : GoText.isSpace ':' = false) h.bypass
  refine ⟨?_, hmitigation, hbypass⟩
  have hne : trimWhiteSpace m ≠ trimWhiteSpace b := by
    intro heq
    simp only [List.map_cons, List.map_nil, List.any_cons, List.any_nil, Bool.or_false,
      heq, Bool.or_self] at hmitigation hbypass
    exact not_both_prefixes hmitigation hbypass
  simpa using hne

/-- The Python program accepts a pattern for its proof records alone. -/
theorem validatePattern_eq_ok {pattern found : ProofLoop.ProvenPattern} {m b : Str}
    (hids : pattern.proofRecordIds = [m, b]) :
    ProofLoop.validatePattern trimWhiteSpace pattern = .ok found ↔
      ProofIds [trimWhiteSpace m, trimWhiteSpace b] ∧
        found = ⟨trimWhiteSpace pattern.provenPatternId, trimWhiteSpace pattern.vulnerabilityId,
          trimWhiteSpace pattern.selectedControlClass, trimWhiteSpace pattern.discriminatorId,
          trimWhiteSpace pattern.discriminatorDescription, trimWhiteSpace pattern.patternSummary,
          [trimWhiteSpace m, trimWhiteSpace b], pattern.jsonBodyFieldFeature⟩ := by
  have hunique : [trimWhiteSpace m, trimWhiteSpace b] =
      unique [trimWhiteSpace m, trimWhiteSpace b] ↔
        [trimWhiteSpace m, trimWhiteSpace b].Nodup := by
    constructor
    · intro h
      rw [h]
      exact nodup_unique _
    · intro h
      have hne : trimWhiteSpace b ≠ trimWhiteSpace m := by
        intro heq
        simp [heq] at h
      simp [unique, List.eraseDups_cons, hne]
  simp only [ProofLoop.validatePattern, hids, List.map_cons, List.map_nil]
  split
  · rename_i hbad
    constructor
    · intro h
      cases h
    · rintro ⟨h, -⟩
      rcases hbad with hbad | hbad | hbad | hbad
      · simp at hbad
      · exact absurd (hunique.mpr h.nodup) hbad
      · rw [h.mitigation] at hbad
        cases hbad
      · rw [h.bypass] at hbad
        cases hbad
  · rename_i hgood
    simp only [not_or, Bool.not_eq_false, not_not] at hgood
    rw [Except.ok.injEq, eq_comm]
    exact (and_iff_right ⟨hunique.mp hgood.2.1, hgood.2.2.1, hgood.2.2.2⟩).symm

theorem demand_eq_ok {condition : Bool} {name reason : String} {u : Unit} :
    demand condition name reason = .ok u ↔ condition = true := by
  cases condition <;> simp [demand, invalid, pure, Except.pure, throw, throwThe,
    MonadExceptOf.throw]

/-- The Go program reads every text of a pattern, too. -/
theorem validate_eq_ok {pattern : ProvenMitigationPattern} {m b : Str}
    (hids : pattern.proofRecordIds = [m, b]) :
    pattern.validate = .ok () ↔
      (blank pattern.provenPatternId = false ∧ blank pattern.vulnerabilityId = false ∧
        blank pattern.selectedControlClass = false ∧ blank pattern.discriminatorId = false ∧
        blank pattern.discriminatorDescription = false ∧ blank pattern.patternSummary = false) ∧
      ProofIds [m, b] := by
  have hbind : ∀ {x : Checked Unit} {f : Unit → Checked Unit},
      (x >>= f) = .ok () ↔ x = .ok () ∧ f () = .ok () := by
    intro x f
    cases x with
    | error e => simp [bind, Except.bind]
    | ok a => simp [bind, Except.bind]
  simp only [ProvenMitigationPattern.validate, hbind, demand_eq_ok, hids, Bool.not_eq_true',
    List.length_cons, List.length_nil, decide_eq_true_eq]
  constructor
  · rintro ⟨h₁, h₂, h₃, h₄, h₅, h₆, -, hnodup, hmitigation, hbypass⟩
    exact ⟨⟨h₁, h₂, h₃, h₄, h₅, h₆⟩, hnodup, hmitigation, hbypass⟩
  · rintro ⟨⟨h₁, h₂, h₃, h₄, h₅, h₆⟩, hnodup, hmitigation, hbypass⟩
    exact ⟨h₁, h₂, h₃, h₄, h₅, h₆, by decide, hnodup, hmitigation, hbypass⟩

/-- A counterexample as the Go program holds it. -/
def counterexampleOf (c : ProofLoop.BypassCounterexample) : BypassCounterexample :=
  ⟨c.counterexampleId, c.sampleRef, c.variantFamily, c.observedBehavior, some c.evidenceRefs⟩

/-- No text of a counterexample is empty. -/
structure Full (c : ProofLoop.BypassCounterexample) : Prop where
  counterexampleId : c.counterexampleId ≠ []
  sampleRef : c.sampleRef ≠ []
  variantFamily : c.variantFamily ≠ []
  observedBehavior : c.observedBehavior ≠ []

/-- The evidence of a counterexample is a list, where it is there at all. -/
def EvidenceListed (raw : JsonValue) : Prop :=
  ∀ members, raw = .object members →
    members.any (fun m => decide (m.1 = "evidence_refs".toList)) = true →
      ((get members "evidence_refs".toList).asArray).isSome = true

theorem asNonemptyText_eq_some {value : JsonValue} {s : Str} :
    value.asNonemptyText = some s ↔ value.asText = some s ∧ s ≠ [] := by
  rw [asNonemptyText, Option.filter_eq_some_iff]
  simp

theorem get_of_absent {members : Members} {key : Str}
    (h : members.any (fun m => decide (m.1 = key)) = false) : get members key = .null := by
  have hnone : members.find? (fun m => decide (m.1 = key)) = none := by
    rw [List.find?_eq_none]
    intro m hm
    simpa using List.any_eq_false.mp h m hm
  unfold JsonValue.get
  rw [hnone]
  rfl

/-- What the Python program reads of a counterexample's evidence. -/
def evidenceOf (members : Members) : Option (List Str) :=
  if members.any (fun m => decide (m.1 = "evidence_refs".toList)) = true then
    ((get members "evidence_refs".toList).asArray).bind ProofLoop.textItems
  else some []

/-- The evidence of a counterexample, as it is listed. -/
theorem evidenceOf_eq_some {members : Members} {refs : List Str} :
    evidenceOf members = some refs ↔
      counterexampleRefs (get members "evidence_refs".toList) = some refs ∧
        EvidenceListed (.object members) := by
  unfold evidenceOf
  cases hpresent : members.any (fun m => decide (m.1 = "evidence_refs".toList)) with
  | false =>
      rw [if_neg (by decide), get_of_absent hpresent]
      refine (and_iff_left ?_).symm
      rintro found heq habsent
      cases heq
      rw [hpresent] at habsent
      cases habsent
  | true =>
      rw [if_pos rfl, counterexampleRefs]
      constructor
      · intro h
        obtain ⟨items, hitems, hrefs⟩ := Option.bind_eq_some_iff.mp h
        rw [hitems]
        refine ⟨hrefs, ?_⟩
        rintro found heq -
        cases heq
        rw [hitems]
        rfl
      · rintro ⟨hrefs, hlisted⟩
        obtain ⟨items, hitems⟩ := Option.isSome_iff_exists.mp (hlisted members rfl hpresent)
        rw [hitems] at hrefs ⊢
        exact hrefs

/-- What the original reads of a counterexample. -/
theorem validateCounterexample_eq_some {raw : JsonValue} {c : ProofLoop.BypassCounterexample} :
    ProofLoop.validateCounterexample raw = some c ↔
      ∃ members, raw = .object members ∧
        (get members "counterexample_id".toList).asText = some c.counterexampleId ∧
        (get members "sample_ref".toList).asText = some c.sampleRef ∧
        (get members "variant_family".toList).asText = some c.variantFamily ∧
        (get members "observed_behavior".toList).asText = some c.observedBehavior ∧
        evidenceOf members = some c.evidenceRefs := by
  constructor
  · intro h
    obtain ⟨members, hmembers, h⟩ := Option.bind_eq_some_iff.mp h
    obtain ⟨counterexampleId, hid, h⟩ := Option.bind_eq_some_iff.mp h
    obtain ⟨sampleRef, hsample, h⟩ := Option.bind_eq_some_iff.mp h
    obtain ⟨variantFamily, hfamily, h⟩ := Option.bind_eq_some_iff.mp h
    obtain ⟨observedBehavior, hbehavior, h⟩ := Option.bind_eq_some_iff.mp h
    refine ⟨members, ?_, ?_⟩
    · cases raw <;> cases hmembers
      rfl
    · split at h
      · rename_i hpresent
        obtain ⟨items, hitems, h⟩ := Option.bind_eq_some_iff.mp h
        obtain ⟨refs, hrefs, h⟩ := Option.bind_eq_some_iff.mp h
        cases h
        refine ⟨hid, hsample, hfamily, hbehavior, ?_⟩
        rw [evidenceOf, if_pos hpresent, hitems]
        exact hrefs
      · rename_i habsent
        cases h
        refine ⟨hid, hsample, hfamily, hbehavior, ?_⟩
        rw [evidenceOf, if_neg habsent]
  · rintro ⟨members, rfl, hid, hsample, hfamily, hbehavior, hrefs⟩
    simp only [ProofLoop.validateCounterexample, Option.bind_eq_bind, Option.bind_eq_some_iff]
    refine ⟨members, rfl, _, hid, _, hsample, _, hfamily, _, hbehavior, ?_⟩
    unfold evidenceOf at hrefs
    split_ifs at hrefs ⊢ with hpresent
    · obtain ⟨items, hitems, hrefs⟩ := Option.bind_eq_some_iff.mp hrefs
      exact Option.bind_eq_some_iff.mpr ⟨items, hitems,
        Option.bind_eq_some_iff.mpr ⟨_, hrefs, rfl⟩⟩
    · rw [Option.some.inj hrefs]
      rfl

theorem parseCounterexample_eq_some {raw : JsonValue} {c : BypassCounterexample} :
    parseCounterexample raw = some c ↔
      ∃ members refs, raw = .object members ∧
        (get members "counterexample_id".toList).asNonemptyText = some c.counterexampleId ∧
        (get members "sample_ref".toList).asNonemptyText = some c.sampleRef ∧
        (get members "variant_family".toList).asNonemptyText = some c.variantFamily ∧
        (get members "observed_behavior".toList).asNonemptyText = some c.observedBehavior ∧
        counterexampleRefs (get members "evidence_refs".toList) = some refs ∧
        c.evidenceRefs = some refs := by
  constructor
  · intro h
    obtain ⟨members, hmembers, h⟩ := Option.bind_eq_some_iff.mp h
    obtain ⟨counterexampleId, hid, h⟩ := Option.bind_eq_some_iff.mp h
    obtain ⟨sampleRef, hsample, h⟩ := Option.bind_eq_some_iff.mp h
    obtain ⟨variantFamily, hfamily, h⟩ := Option.bind_eq_some_iff.mp h
    obtain ⟨observedBehavior, hbehavior, h⟩ := Option.bind_eq_some_iff.mp h
    obtain ⟨refs, hrefs, h⟩ := Option.bind_eq_some_iff.mp h
    cases h
    refine ⟨members, refs, ?_, hid, hsample, hfamily, hbehavior, hrefs, rfl⟩
    cases raw <;> cases hmembers
    rfl
  · rintro ⟨members, refs, rfl, hid, hsample, hfamily, hbehavior, hrefs, heq⟩
    obtain ⟨counterexampleId, sampleRef, variantFamily, observedBehavior, found⟩ := c
    cases heq
    simp only [parseCounterexample, Option.bind_eq_bind, Option.bind_eq_some_iff]
    exact ⟨members, rfl, _, hid, _, hsample, _, hfamily, _, hbehavior, _, hrefs, rfl⟩

/-- The Go program reads the counterexample that the Python program reads, where none of its
texts is empty. -/
theorem parse_of_validate {raw : JsonValue} {c : ProofLoop.BypassCounterexample}
    (h : ProofLoop.validateCounterexample raw = some c) (hfull : Full c) :
    parseCounterexample raw = some (counterexampleOf c) := by
  obtain ⟨members, rfl, hid, hsample, hfamily, hbehavior, hrefs⟩ :=
    validateCounterexample_eq_some.mp h
  exact parseCounterexample_eq_some.mpr ⟨members, c.evidenceRefs, rfl,
    asNonemptyText_eq_some.mpr ⟨hid, hfull.counterexampleId⟩,
    asNonemptyText_eq_some.mpr ⟨hsample, hfull.sampleRef⟩,
    asNonemptyText_eq_some.mpr ⟨hfamily, hfull.variantFamily⟩,
    asNonemptyText_eq_some.mpr ⟨hbehavior, hfull.observedBehavior⟩,
    (evidenceOf_eq_some.mp hrefs).1, rfl⟩

/-- The Python program reads the counterexample that the Go program reads, where its
evidence is a list. -/
theorem validate_of_parse {raw : JsonValue} {found : BypassCounterexample}
    (h : parseCounterexample raw = some found) (hlisted : EvidenceListed raw) :
    ∃ c, ProofLoop.validateCounterexample raw = some c ∧ found = counterexampleOf c ∧ Full c := by
  obtain ⟨members, refs, rfl, hid, hsample, hfamily, hbehavior, hrefs, heq⟩ :=
    parseCounterexample_eq_some.mp h
  obtain ⟨hid, hidne⟩ := asNonemptyText_eq_some.mp hid
  obtain ⟨hsample, hsamplene⟩ := asNonemptyText_eq_some.mp hsample
  obtain ⟨hfamily, hfamilyne⟩ := asNonemptyText_eq_some.mp hfamily
  obtain ⟨hbehavior, hbehaviorne⟩ := asNonemptyText_eq_some.mp hbehavior
  refine ⟨⟨found.counterexampleId, found.sampleRef, found.variantFamily,
    found.observedBehavior, refs⟩, validateCounterexample_eq_some.mpr ⟨members, rfl, hid, hsample,
    hfamily, hbehavior, evidenceOf_eq_some.mpr ⟨hrefs, hlisted⟩⟩, ?_,
    ⟨hidne, hsamplene, hfamilyne, hbehaviorne⟩⟩
  obtain ⟨counterexampleId, sampleRef, variantFamily, observedBehavior, evidence⟩ := found
  cases heq
  rfl

/-- A counterexample the original reads lists its evidence. -/
theorem listed_of_validate {raw : JsonValue} {c : ProofLoop.BypassCounterexample}
    (h : ProofLoop.validateCounterexample raw = some c) : EvidenceListed raw := by
  obtain ⟨members, rfl, -, -, -, -, hrefs⟩ := validateCounterexample_eq_some.mp h
  exact (evidenceOf_eq_some.mp hrefs).2

theorem alike_readCounterexample {raw : JsonValue} {found : Option BypassCounterexample}
    {original : Option ProofLoop.BypassCounterexample} (h : readCounterexample raw = .ok found)
    (horiginal : ProofLoop.readCounterexample raw = .ok original) :
    found = original.map counterexampleOf := by
  unfold readCounterexample at h
  unfold ProofLoop.readCounterexample at horiginal
  split_ifs at h horiginal with hnull
  · cases h
    cases horiginal
    rfl
  · cases hvalidate : ProofLoop.validateCounterexample raw with
    | none =>
        rw [hvalidate] at horiginal
        cases horiginal
    | some c =>
        rw [hvalidate] at horiginal
        cases horiginal
        cases hparse : parseCounterexample raw with
        | none =>
            rw [hparse] at h
            cases h
        | some found =>
            rw [hparse] at h
            cases h
            obtain ⟨c', hc', rfl, -⟩ := validate_of_parse hparse (listed_of_validate hvalidate)
            rw [hvalidate] at hc'
            cases hc'
            rfl

/-- The port reads what the original does when it is full. -/
theorem readCounterexample_iff_full {raw : JsonValue}
    {original : Option ProofLoop.BypassCounterexample}
    (h : ProofLoop.readCounterexample raw = .ok original) :
    (∃ found, readCounterexample raw = .ok found) ↔ ∀ c, original = some c → Full c := by
  unfold ProofLoop.readCounterexample at h
  unfold readCounterexample
  split_ifs at h ⊢ with hnull
  · cases h
    simp
  · cases hvalidate : ProofLoop.validateCounterexample raw with
    | none =>
        rw [hvalidate] at h
        cases h
    | some c =>
        rw [hvalidate] at h
        cases h
        constructor
        · rintro ⟨found, hfound⟩ c' hc'
          cases hc'
          cases hparse : parseCounterexample raw with
          | none =>
              rw [hparse] at hfound
              cases hfound
          | some found =>
              obtain ⟨c', hc', -, hfull⟩ :=
                validate_of_parse hparse (listed_of_validate hvalidate)
              rw [hvalidate] at hc'
              cases hc'
              exact hfull
        · intro hfull
          rw [parse_of_validate hvalidate (hfull c rfl)]
          exact ⟨_, rfl⟩

/-- The original reads what the port does when it is listed. -/
theorem readCounterexample_iff_listed {raw : JsonValue} {found : Option BypassCounterexample}
    (h : readCounterexample raw = .ok found) :
    (∃ original, ProofLoop.readCounterexample raw = .ok original) ↔ EvidenceListed raw := by
  unfold readCounterexample at h
  unfold ProofLoop.readCounterexample
  split_ifs at h ⊢ with hnull
  · refine iff_of_true ⟨none, rfl⟩ ?_
    rintro members rfl
    cases hnull
  · cases hparse : parseCounterexample raw with
    | none =>
        rw [hparse] at h
        cases h
    | some found =>
        constructor
        · rintro ⟨original, horiginal⟩
          cases hvalidate : ProofLoop.validateCounterexample raw with
          | none =>
              rw [hvalidate] at horiginal
              cases horiginal
          | some c => exact listed_of_validate hvalidate
        · intro hlisted
          obtain ⟨c, hc, -, -⟩ := validate_of_parse hparse hlisted
          rw [hc]
          exact ⟨_, rfl⟩

section Assembly

variable {fetch : Role → Fetched}
  {feature : Option RequestContext → Str → Str →
    ProofLoop.Resolution (Option JsonBodyFieldFeature)}

theorem cleared_eq (r : ResolveRequest) :
    (inputOf r).cleared = decide (r.routingMetadata.bypassValidationTerminalState =
      .noBypassFound) := by
  change (r.routingMetadata.bypassValidationTerminalState.text == _) = _
  cases r.routingMetadata.bypassValidationTerminalState <;> decide

theorem validated_eq_ok {pattern found : ProvenMitigationPattern} :
    validated pattern = .ok found ↔ pattern.validate = .ok () ∧ found = pattern := by
  unfold validated
  cases pattern.validate with
  | error e => simp
  | ok u => simp [eq_comm]

/-- What the port reads of a defense record's texts. -/
theorem readTexts_eq_ok {defense : UpstreamRecord} {texts : Texts} :
    readTexts defense = .ok texts ↔ ∃ primary,
      (get defense.result "primary_candidate".toList).asObject = some primary ∧
      texts = textsOf defense primary ∧ texts.discriminator ≠ [] ∧
      texts.selectedControlClass ≠ [] ∧ texts.artifactContent ≠ [] := by
  unfold readTexts
  cases (get defense.result "primary_candidate".toList).asObject with
  | none => simp
  | some primary =>
      simp only [bind_eq_ok, check_eq_ok, pure_eq_ok, bne_iff_ne, Option.some.injEq]
      constructor
      · rintro ⟨-, hdiscriminator, -, hclass, -, hartifact, rfl⟩
        exact ⟨primary, rfl, rfl, hdiscriminator, hclass, hartifact⟩
      · rintro ⟨_, rfl, rfl, hdiscriminator, hclass, hartifact⟩
        exact ⟨(), hdiscriminator, (), hclass, (), hartifact, rfl⟩

theorem ne_nil_of_not_blank {s : Str} (h : blank s = false) : s ≠ [] := by
  rintro rfl
  cases h

/-- What the Go program wants of the texts of a pattern. -/
structure Filled (texts : Texts) (vulnerabilityId : Str) : Prop where
  vulnerabilityId : blank vulnerabilityId = false
  discriminator : blank texts.discriminator = false
  selectedControlClass : blank texts.selectedControlClass = false
  artifactContent : blank texts.artifactContent = false

theorem validate_patternOf {i : ResolveInput} {records : Records} {texts : Texts} {v c : Str} :
    (patternOf i records texts v c).validate = .ok () ↔ Filled texts v ∧
      ProofIds [records.mitigation.resultId, records.bypass.resultId] := by
  have hvalidate := @validate_eq_ok (patternOf i records texts v c) _ _ rfl
  rw [hvalidate]
  have hpattern : blank (patternOf i records texts v c).provenPatternId = false := by
    cases hcleared : i.cleared with
    | true =>
        rw [patternOf, hcleared, if_pos rfl]
        exact not_blank_of_mem (c := 'p') (List.mem_append_left _ (by decide)) (by decide)
    | false =>
        rw [patternOf, hcleared, if_neg (by decide)]
        exact not_blank_of_mem (c := 'l') (List.mem_append_left _ (by decide)) (by decide)
  have hdiscriminator : blank (patternOf i records texts v c).discriminatorId = false :=
    not_blank_of_mem (c := 'd') (List.mem_append_left _ (by decide)) (by decide)
  constructor
  · rintro ⟨⟨-, hv, hclass, -, hdescription, hsummary⟩, hids⟩
    exact ⟨⟨hv, hdescription, hclass, hsummary⟩, hids⟩
  · rintro ⟨h, hids⟩
    exact ⟨⟨hpattern, h.vulnerabilityId, h.selectedControlClass, hdiscriminator,
      h.discriminator, h.artifactContent⟩, hids⟩

/-- The Go program assembles what its contract of a pattern accepts. -/
theorem assemble_eq_ok {i : ResolveInput} {records : Records} {v c : Str}
    {loop : ResolvedProofLoop} :
    assemble i records v c = .ok loop ↔ ∃ primary counterexample,
      (get records.defense.result "primary_candidate".toList).asObject = some primary ∧
      Filled (textsOf records.defense primary) v ∧
      ProofIds [records.mitigation.resultId, records.bypass.resultId] ∧
      readCounterexample (get records.bypass.result "bypass_counterexample".toList) =
        .ok counterexample ∧
      loop = loopOf i records (patternOf i records (textsOf records.defense primary) v c)
        counterexample := by
  simp only [assemble, bind_eq_ok, pure_eq_ok, readTexts_eq_ok, validated_eq_ok,
    validate_patternOf]
  constructor
  · rintro ⟨_, ⟨primary, hprimary, rfl, -⟩, _, ⟨⟨hfilled, hids⟩, rfl⟩, counterexample,
      hcounterexample, rfl⟩
    exact ⟨primary, counterexample, hprimary, hfilled, hids, hcounterexample, rfl⟩
  · rintro ⟨primary, counterexample, hprimary, hfilled, hids, hcounterexample, rfl⟩
    exact ⟨_, ⟨primary, hprimary, rfl, ne_nil_of_not_blank hfilled.discriminator,
      ne_nil_of_not_blank hfilled.selectedControlClass,
      ne_nil_of_not_blank hfilled.artifactContent⟩, _, ⟨⟨hfilled, hids⟩, rfl⟩, counterexample,
      hcounterexample, rfl⟩

/-- What the Python program finds in the record before it assembles a pattern. -/
structure Readable (defense : UpstreamRecord) (primary : Members) : Prop where
  discriminator : Legible (get primary "discriminator".toList)
    (get defense.request "discriminator".toList)
  selectedControlClass : Legible (get primary "selected_control_class".toList)
    (get defense.request "selected_control_class".toList)
  artifactContent : strip (textsOf defense primary).artifactContent ≠ []

/-- What the Python program reads is filled for the Go program, too. -/
theorem Readable.filled {defense : UpstreamRecord} {primary : Members} {v : Str}
    (h : Readable defense primary) (hv : blank v = false) :
    Filled (textsOf defense primary) v :=
  ⟨hv, not_blank_of_strip h.discriminator.nonblank,
    not_blank_of_strip h.selectedControlClass.nonblank, not_blank_of_strip h.artifactContent⟩

theorem requiredMapping_eq_ok {value : JsonValue} {message : String} {members : Members} :
    ProofLoop.requiredMapping value message = .ok members ↔ value.asObject = some members := by
  unfold ProofLoop.requiredMapping
  cases value.asObject with
  | none => simp
  | some found => simp

/-- The trimmed pattern of the Python program. -/
def trimmedOf (pattern : ProvenMitigationPattern) (found : Option JsonBodyFieldFeature) :
    ProofLoop.ProvenPattern where
  provenPatternId := trimWhiteSpace pattern.provenPatternId
  vulnerabilityId := trimWhiteSpace pattern.vulnerabilityId
  selectedControlClass := trimWhiteSpace pattern.selectedControlClass
  discriminatorId := trimWhiteSpace pattern.discriminatorId
  discriminatorDescription := trimWhiteSpace pattern.discriminatorDescription
  patternSummary := trimWhiteSpace pattern.patternSummary
  proofRecordIds := pattern.proofRecordIds.map trimWhiteSpace
  jsonBodyFieldFeature := found

/-- The Python program assembles what it can read and finds a feature of, or none. -/
theorem original_assemble_eq_ok {r : ResolveRequest} {records : Records} {v c : Str}
    {loop : ProofLoop.ResolvedProofLoop} :
    ProofLoop.assemble (environment fetch feature) r records v c = .ok loop ↔
      ∃ primary found counterexample,
        (get records.defense.result "primary_candidate".toList).asObject = some primary ∧
        Readable records.defense primary ∧
        feature (ProofLoop.mitigationRequestContext records.mitigation.result)
          (textsOf records.defense primary).discriminator
          (textsOf records.defense primary).artifactContent = .ok found ∧
        ProofIds [trimWhiteSpace records.mitigation.resultId,
          trimWhiteSpace records.bypass.resultId] ∧
        ProofLoop.readCounterexample
          (get records.bypass.result "bypass_counterexample".toList) = .ok counterexample ∧
        loop =
          { pattern := trimmedOf (patternOf (inputOf r) records (textsOf records.defense primary)
              v c) found
            references := r.references
            qualification :=
              { route := if r.routingMetadata.bypassValidationTerminalState = .noBypassFound
                  then .validated else .pocExhaustion
                bypassCleared := r.routingMetadata.bypassValidationTerminalState = .noBypassFound
                loopExhausted := r.routingMetadata.loopExhausted
                completedIterations := r.routingMetadata.completedIterations
                maxIterations := r.routingMetadata.maxIterations
                bypassValidationTerminalState := r.routingMetadata.bypassValidationTerminalState
                bypassValidationResultRef := r.routingMetadata.bypassValidationResultRef }
            targetTechnology := ProofLoop.preferredString
              [records.defense.result, records.defense.request] "target_technology"
            targetPolicyContextId := ProofLoop.preferredString
              [records.defense.result, records.defense.request] "target_policy_context_id"
            bypassCounterexample := counterexample
            bypassEvidenceRefs := ProofLoop.evidenceRefs counterexample
              (get records.bypass.result "feedback".toList)
            translationRequirements := ProofLoop.translationRequirements
              (get records.bypass.result "bypass_counterexample".toList)
              (get records.bypass.result "feedback".toList)
            requestContext := ProofLoop.mitigationRequestContext records.mitigation.result } := by
  have hstart : (if (inputOf r).cleared = true then "proven-pattern:".toList
      else "loop-exhausted-pattern:".toList) =
        if r.routingMetadata.bypassValidationTerminalState = .noBypassFound then
          "proven-pattern:".toList else "loop-exhausted-pattern:".toList := by
    rw [cleared_eq]
    split_ifs <;> simp_all
  simp only [ProofLoop.assemble, ProofLoop.bind_eq_ok, ProofLoop.pure_eq_ok,
    requiredMapping_eq_ok]
  constructor
  · rintro ⟨primary, hprimary, _, hdiscriminator, _, hclass, _, hartifact, found, hfeature,
      pattern, hpattern, counterexample, hcounterexample, rfl⟩
    obtain ⟨hlegible, rfl⟩ := requiredString_orElse.mp hdiscriminator
    obtain ⟨hlegibleClass, rfl⟩ := requiredString_orElse.mp hclass
    obtain ⟨hwritten, rfl⟩ := requiredString_eq_ok.mp hartifact
    obtain ⟨hids, rfl⟩ := (validatePattern_eq_ok rfl).mp hpattern
    refine ⟨primary, found, counterexample, hprimary, ⟨hlegible, hlegibleClass, hwritten⟩,
      hfeature, hids, hcounterexample, ?_⟩
    simp only [trimmedOf, patternOf, hstart]
    rfl
  · rintro ⟨primary, found, counterexample, hprimary, hreadable, hfeature, hids, hcounterexample,
      rfl⟩
    refine ⟨primary, hprimary, _, requiredString_orElse.mpr ⟨hreadable.discriminator, rfl⟩, _,
      requiredString_orElse.mpr ⟨hreadable.selectedControlClass, rfl⟩, _,
      requiredString_eq_ok.mpr ⟨hreadable.artifactContent, rfl⟩, found, hfeature, _,
      (validatePattern_eq_ok rfl).mpr ⟨hids, rfl⟩, counterexample, hcounterexample, ?_⟩
    simp only [trimmedOf, patternOf, hstart]
    rfl

/-- What both programs require of a request and its records. -/
structure Front (fetch : Role → Fetched) (r : ResolveRequest) (records : Records)
    (x : Str × Str) : Prop where
  correlated : ProofLoop.given r.correlationId = true
  bound : (ProofLoop.given r.subjectRecordRevisionId || r.hasSubject) = true
  fetched : fetchRecords fetch (inputOf r) = .ok records
  defense : checkLineage (inputOf r) .defenseGeneration records.defense = .ok ()
  mitigation : checkLineage (inputOf r) .mitigationCheck records.mitigation = .ok ()
  bypass : checkLineage (inputOf r) .bypassValidation records.bypass = .ok ()
  lineage : ProofLoop.lineageOf r records = .ok x

/-- The records and their lineage are found once. -/
theorem Front.unique {r : ResolveRequest} {records records' : Records} {x x' : Str × Str}
    (h : Front fetch r records x) (h' : Front fetch r records' x') :
    records = records' ∧ x = x' := by
  obtain rfl : records = records' := Except.ok.inj (h.fetched.symm.trans h'.fetched)
  exact ⟨rfl, Except.ok.inj (h.lineage.symm.trans h'.lineage)⟩

theorem resolve_eq_ok {r : ResolveRequest} {loop : ResolvedProofLoop} :
    resolveProofLoop fetch (inputOf r) = .ok loop ↔ ∃ records x, Front fetch r records x ∧
      (r.hasSubject = true → (statedVulnerability records.defense).isSome = true) ∧
      assemble (inputOf r) records x.1 x.2 = .ok loop := by
  have hcorrelated : ((inputOf r).correlationId != []) = ProofLoop.given r.correlationId :=
    (given_eq _).symm
  have hbound : (!((inputOf r).subjectRecordRevisionId == [] && !(inputOf r).hasSubject)) =
      (ProofLoop.given r.subjectRecordRevisionId || r.hasSubject) := by
    rw [hasSubject_eq, given_eq, Bool.not_and, Bool.not_not]
    rfl
  simp only [resolveProofLoop, bind_eq_ok, check_eq_ok, hcorrelated, hbound, lineageOf_iff]
  constructor
  · rintro ⟨-, hc, -, hb, records, hfetched, ⟨⟩, hdefense, ⟨⟩, hmitigation, ⟨⟩, hbypass, x,
      ⟨hlineage, hstated⟩, hassembled⟩
    exact ⟨records, x, ⟨hc, hb, hfetched, hdefense, hmitigation, hbypass, hlineage⟩, hstated,
      hassembled⟩
  · rintro ⟨records, x, h, hstated, hassembled⟩
    exact ⟨(), h.correlated, (), h.bound, records, h.fetched, (), h.defense, (), h.mitigation, (),
      h.bypass, x, ⟨h.lineage, hstated⟩, hassembled⟩

theorem original_resolve_eq_ok {r : ResolveRequest} {loop : ProofLoop.ResolvedProofLoop} :
    ProofLoop.resolveProofLoop (environment fetch feature) (plain r) = .ok loop ↔
      ∃ records x, Front fetch r records x ∧
        ProofLoop.assemble (environment fetch feature) (plain r) records x.1 x.2 = .ok loop := by
  have hfetch := @alike_fetchRecords fetch feature r
  have hcheck := alike_checkLineage r
  simp only [ProofLoop.resolveProofLoop, ProofLoop.bind_eq_ok, ProofLoop.require_eq_ok]
  constructor
  · rintro ⟨-, hc, -, hb, records, hfetched, ⟨⟩, hdefense, ⟨⟩, hmitigation, ⟨⟩, hbypass, x,
      hlineage, hassembled⟩
    exact ⟨records, x, ⟨hc, hb, (hfetch _).mpr hfetched, (hcheck _ _ ()).mpr hdefense,
      (hcheck _ _ ()).mpr hmitigation, (hcheck _ _ ()).mpr hbypass, hlineage⟩, hassembled⟩
  · rintro ⟨records, x, h, hassembled⟩
    exact ⟨(), h.correlated, (), h.bound, records, (hfetch _).mp h.fetched, (),
      (hcheck _ _ ()).mp h.defense, (), (hcheck _ _ ()).mp h.mitigation, (),
      (hcheck _ _ ()).mp h.bypass, x, h.lineage, hassembled⟩

/-- A route as it is written. -/
def routeText : ProofLoop.Route → Str
  | .validated => "validated".toList
  | .pocExhaustion => "poc-exhaustion".toList

/-- A qualification as the Go program holds it. -/
def qualificationOf (q : ProofLoop.Qualification) : ProofLoopQualification where
  route := routeText q.route
  bypassCleared := q.bypassCleared
  loopExhausted := q.loopExhausted
  completedIterations := q.completedIterations
  maxIterations := q.maxIterations
  bypassValidationTerminalState := q.bypassValidationTerminalState.text
  bypassValidationResultRef := referenceOf q.bypassValidationResultRef

/-- One loop in both programs: the Python program trims the texts of the pattern and adds
the feature, and everything else is the same. -/
structure Agree (loop : ResolvedProofLoop) (original : ProofLoop.ResolvedProofLoop) : Prop where
  pattern : original.pattern = trimmedOf loop.pattern original.pattern.jsonBodyFieldFeature
  references : loop.references = referencesOf original.references
  qualification : loop.qualification = qualificationOf original.qualification
  targetTechnology : loop.targetTechnology = original.targetTechnology.getD []
  targetPolicyContextId : loop.targetPolicyContextId = original.targetPolicyContextId.getD []
  counterexample : loop.bypassCounterexample =
    original.bypassCounterexample.map counterexampleOf
  evidence : loop.bypassEvidenceRefs = original.bypassEvidenceRefs

/-- The qualification that both programs hand on. -/
theorem qualification_eq (i : ResolveInput) (routing : ProofLoop.RoutingMetadata)
    (h : i.routingMetadata = routingOf routing)
    (hcleared : i.cleared = decide (routing.bypassValidationTerminalState = .noBypassFound)) :
    ({  route := (if i.cleared then "validated" else "poc-exhaustion").toList
        bypassCleared := i.cleared
        loopExhausted := i.routingMetadata.loopExhausted
        completedIterations := i.routingMetadata.completedIterations
        maxIterations := i.routingMetadata.maxIterations
        bypassValidationTerminalState := i.routingMetadata.bypassValidationTerminalState
        bypassValidationResultRef := i.routingMetadata.bypassValidationResultRef } :
      ProofLoopQualification) =
      qualificationOf
        { route := if routing.bypassValidationTerminalState = .noBypassFound
            then .validated else .pocExhaustion
          bypassCleared := routing.bypassValidationTerminalState = .noBypassFound
          loopExhausted := routing.loopExhausted
          completedIterations := routing.completedIterations
          maxIterations := routing.maxIterations
          bypassValidationTerminalState := routing.bypassValidationTerminalState
          bypassValidationResultRef := routing.bypassValidationResultRef } := by
  rw [hcleared, h]
  by_cases hstate : routing.bypassValidationTerminalState = .noBypassFound
  · rw [if_pos hstate, decide_eq_true hstate]
    rfl
  · rw [if_neg hstate, decide_eq_false hstate]
    rfl

/-- Both list the same evidence in the same order. -/
theorem sortedKeys_evidenceSet (counterexample : Option ProofLoop.BypassCounterexample)
    (feedback : JsonValue) :
    sortedKeys (evidenceSet (counterexample.map counterexampleOf) feedback) =
      ProofLoop.evidenceRefs counterexample feedback := by
  rw [sortedKeys_eq]
  cases counterexample <;> rfl

theorem preferredString_eq (key : String) (documents : List Members) :
    preferredString key documents = (ProofLoop.preferredString documents key).getD [] := by
  unfold preferredString ProofLoop.preferredString
  congr 2
  funext document
  simp only [ProofLoop.nested, List.findSome?_cons, List.findSome?_nil]
  cases (get document key.toList).asNonemptyText with
  | some s => rfl
  | none =>
      cases (get ((get document "primary_candidate".toList).asObject.getD [])
        key.toList).asNonemptyText with
      | some s => rfl
      | none =>
          cases (get ((get document "target_context".toList).asObject.getD [])
            key.toList).asNonemptyText <;> rfl

/-- What only the Go program requires: the defense record states the vulnerability of a
subject in its candidate or its request, the vulnerability is not blank, the identities of
the proof records are not padded, and no text of the counterexample is empty. -/
structure PortRequires (r : ResolveRequest) (records : Records)
    (original : ProofLoop.ResolvedProofLoop) : Prop where
  stated : r.hasSubject = true → (statedVulnerability records.defense).isSome = true
  vulnerability : original.pattern.vulnerabilityId ≠ []
  ids : ProofIds [records.mitigation.resultId, records.bypass.resultId]
  counterexample : ∀ c, original.bypassCounterexample = some c → Full c

/-- What only the Python program requires: texts that count and are not blank in its sense,
a request whose feature can be read, and a list of evidence. -/
structure OriginalRequires (feature : Option RequestContext → Str → Str →
      ProofLoop.Resolution (Option JsonBodyFieldFeature)) (records : Records)
    (primary : Members) : Prop where
  readable : Readable records.defense primary
  feature : ∃ found, feature (ProofLoop.mitigationRequestContext records.mitigation.result)
    (textsOf records.defense primary).discriminator
    (textsOf records.defense primary).artifactContent = .ok found
  counterexample : EvidenceListed (get records.bypass.result "bypass_counterexample".toList)

theorem blank_eq_false {s : Str} : blank s = false ↔ trimWhiteSpace s ≠ [] := by
  rw [blank, trimWhiteSpace_eq, List.isEmpty_eq_false_iff]

/-- Two loops that both programs assemble from the same records agree. -/
theorem agree_of_assembled {r : ResolveRequest} {records : Records} {x : Str × Str}
    {loop : ResolvedProofLoop} {original : ProofLoop.ResolvedProofLoop}
    (h : assemble (inputOf r) records x.1 x.2 = .ok loop)
    (horiginal : ProofLoop.assemble (environment fetch feature) (plain r) records x.1 x.2 =
      .ok original) : Agree loop original := by
  obtain ⟨primary, counterexample, hprimary, -, -, hcounterexample, rfl⟩ := assemble_eq_ok.mp h
  obtain ⟨primary', found, read, hprimary', -, -, -, hread, rfl⟩ :=
    original_assemble_eq_ok.mp horiginal
  obtain rfl : primary = primary' := Option.some.inj (hprimary.symm.trans hprimary')
  obtain rfl := alike_readCounterexample hcounterexample hread
  refine {
    pattern := rfl
    references := rfl
    qualification := ?_
    targetTechnology := preferredString_eq _ _
    targetPolicyContextId := preferredString_eq _ _
    counterexample := rfl
    evidence := sortedKeys_evidenceSet _ _ }
  exact qualification_eq (inputOf r) r.routingMetadata rfl (cleared_eq r)

/-- **Both services resolve alike.**  Over one resolver, a loop that both programs accept is
the same loop; what the Python program accepts, the Go program accepts exactly when four
conditions of its own hold, and what the Go program accepts, the Python program accepts
exactly when three of its own do. -/
theorem resolvers_agree (fetch : Role → Fetched)
    (feature : Option RequestContext → Str → Str →
      ProofLoop.Resolution (Option JsonBodyFieldFeature)) (r : ResolveRequest) :
    (∀ loop original, resolveProofLoop fetch (inputOf r) = .ok loop →
      ProofLoop.resolveProofLoop (environment fetch feature) (plain r) = .ok original →
      Agree loop original) ∧
    (∀ original, ProofLoop.resolveProofLoop (environment fetch feature) (plain r) = .ok original →
      ∃ records, (∀ role, fetch role = .record (records.of role)) ∧
        ((∃ loop, resolveProofLoop fetch (inputOf r) = .ok loop) ↔
          PortRequires r records original)) ∧
    ∀ loop, resolveProofLoop fetch (inputOf r) = .ok loop →
      ∃ records primary, (∀ role, fetch role = .record (records.of role)) ∧
        get records.defense.result "primary_candidate".toList = .object primary ∧
        ((∃ original, ProofLoop.resolveProofLoop (environment fetch feature) (plain r) =
            .ok original) ↔ OriginalRequires feature records primary) := by
  refine ⟨fun loop original h horiginal => ?_, fun original horiginal => ?_, fun loop h => ?_⟩
  · obtain ⟨records, x, hfront, -, hassembled⟩ := resolve_eq_ok.mp h
    obtain ⟨records', x', hfront', hassembled'⟩ := original_resolve_eq_ok.mp horiginal
    obtain ⟨rfl, rfl⟩ := hfront.unique hfront'
    exact agree_of_assembled hassembled hassembled'
  · obtain ⟨records, x, hfront, hassembled⟩ := original_resolve_eq_ok.mp horiginal
    refine ⟨records, fetched_of_fetchRecords hfront.fetched, ?_⟩
    obtain ⟨primary, found, counterexample, hprimary, hreadable, -, -, hread, rfl⟩ :=
      original_assemble_eq_ok.mp hassembled
    constructor
    · rintro ⟨loop, h⟩
      obtain ⟨records', x', hfront', hstated, hport⟩ := resolve_eq_ok.mp h
      obtain ⟨rfl, rfl⟩ := hfront.unique hfront'
      obtain ⟨primary', read, hprimary', hfilled, hids, hcounterexample, -⟩ :=
        assemble_eq_ok.mp hport
      exact ⟨hstated, blank_eq_false.mp hfilled.vulnerabilityId, hids,
        (readCounterexample_iff_full hread).mp ⟨read, hcounterexample⟩⟩
    · intro h
      obtain ⟨read, hcounterexample⟩ := (readCounterexample_iff_full hread).mpr h.counterexample
      exact ⟨_, resolve_eq_ok.mpr ⟨records, x, hfront, h.stated, assemble_eq_ok.mpr ⟨primary, read,
        hprimary, hreadable.filled (blank_eq_false.mpr h.vulnerability), h.ids, hcounterexample,
        rfl⟩⟩⟩
  · obtain ⟨records, x, hfront, -, hassembled⟩ := resolve_eq_ok.mp h
    obtain ⟨primary, read, hprimary, hfilled, hids, hcounterexample, -⟩ :=
      assemble_eq_ok.mp hassembled
    have hobject : get records.defense.result "primary_candidate".toList = .object primary := by
      cases hvalue : get records.defense.result "primary_candidate".toList <;>
        rw [hvalue] at hprimary <;> cases hprimary
      rfl
    refine ⟨records, primary, fetched_of_fetchRecords hfront.fetched, hobject, ?_⟩
    constructor
    · rintro ⟨original, horiginal⟩
      obtain ⟨records', x', hfront', hassembled'⟩ := original_resolve_eq_ok.mp horiginal
      obtain ⟨rfl, rfl⟩ := hfront.unique hfront'
      obtain ⟨primary', found, counterexample, hprimary', hreadable, hfeature, -, hread, -⟩ :=
        original_assemble_eq_ok.mp hassembled'
      obtain rfl : primary = primary' := Option.some.inj (hprimary.symm.trans hprimary')
      exact ⟨hreadable, ⟨found, hfeature⟩,
        (readCounterexample_iff_listed hcounterexample).mp ⟨counterexample, hread⟩⟩
    · intro h
      obtain ⟨found, hfeature⟩ := h.feature
      obtain ⟨counterexample, hread⟩ :=
        (readCounterexample_iff_listed hcounterexample).mpr h.counterexample
      exact ⟨_, original_resolve_eq_ok.mpr ⟨records, x, hfront, original_assemble_eq_ok.mpr
        ⟨primary, found, counterexample, hprimary, h.readable, hfeature, hids.trimmed, hread,
          rfl⟩⟩⟩

end Assembly

end GoProofLoop
