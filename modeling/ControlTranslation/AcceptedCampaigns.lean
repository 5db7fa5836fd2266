import ControlTranslation.BypassCampaigns
import ControlTranslation.Failures

/-!
# What accepted campaigns say

Of an accepted Bypass Validation result: there is one campaign for every
obligation, every dimension of it was disposed, no attempt is counted twice, and
the dimensions leave out nothing that the obligation asks for.
-/

namespace SharedContracts

open PyText JsonValue Alternatives Failures

/-- What the dimension names, and for which target. -/
def attributionsOf : JsonValue → List (Target × Str)
  | .object actual =>
      match targetOf actual, (field actual "transformation").asNonemptyText with
      | some target, some transformation =>
          (splitFrom "||attribution:".toList [] 0 transformation).map fun a => (target, a)
      | _, _ => []
  | _ => []

/-- An attribution names a label, with or without a target of its own after it. -/
def NamesLabel (attribution label : Str) : Prop :=
  attribution = label ∨ ∃ target, rpartition '|' attribution = some (label, target)

/-- What the loops have seen is what the dimensions before named. -/
structure Recorded (named : List (Target × Str)) (seen : Observed) : Prop where
  attributions : seen.attributions = named
  nodup : named.Nodup
  producers : ∀ producer ∈ seen.producers, ∃ attribution,
    (producer.1, attribution) ∈ named ∧ NamesLabel attribution producer.2
  sources : ∀ target ∈ seen.sources, ∃ attribution,
    (target, attribution) ∈ named ∧ sourceAttribution <+: attribution

variable {s : JoinServices} {scope : CampaignScope}

/-- The base of an accepted attribution is named by its label. -/
theorem baseAttribution_eq_ok {attempt : Attempt} {attribution base : Str}
    (h : baseAttribution s attempt attribution = .ok base) : NamesLabel attribution base := by
  rw [baseAttribution] at h
  split at h
  · split at h
    · rename_i found target hparts
      simp only [bind_eq_ok, pure_eq_ok] at h
      obtain ⟨-, -, rfl⟩ := h
      exact .inr ⟨target, hparts⟩
    · exact .inl (Except.ok.inj h)
  · exact .inl (Except.ok.inj h)

/-- One attribution is noted once, with the label or the source it names. -/
theorem Recorded.attribution {named : List (Target × Str)} {seen next : Observed}
    {attempt : Attempt} {attribution : Str} (hseen : Recorded named seen)
    (h : checkAttribution s scope attempt seen attribution = .ok next) :
    Recorded (named ++ [(attempt.target, attribution)]) next := by
  simp only [checkAttribution, bind_eq_ok, raiseIf_eq_ok, List.forall_mem_cons,
    Option.some.injEq] at h
  obtain ⟨-, ⟨hfresh, -⟩, base, hbase, h⟩ := h
  have hnew : (attempt.target, attribution) ∉ named := by
    rw [← hseen.attributions]
    intro hmem
    have hcontained := List.contains_iff_mem.mpr hmem
    rw [hfresh] at hcontained
    cases hcontained
  have hlast : (attempt.target, attribution) ∈ named ++ [(attempt.target, attribution)] :=
    List.mem_append_right _ List.mem_cons_self
  have hnodup := nodup_snoc hseen.nodup hnew
  have hproducers : ∀ producer ∈ seen.producers, ∃ a,
      (producer.1, a) ∈ named ++ [(attempt.target, attribution)] ∧ NamesLabel a producer.2 := by
    intro producer hproducer
    obtain ⟨a, ha, hnames⟩ := hseen.producers producer hproducer
    exact ⟨a, List.mem_append_left _ ha, hnames⟩
  have hsources : ∀ target ∈ seen.sources, ∃ a,
      (target, a) ∈ named ++ [(attempt.target, attribution)] ∧ sourceAttribution <+: a := by
    intro target htarget
    obtain ⟨a, ha, hprefix⟩ := hseen.sources target htarget
    exact ⟨a, List.mem_append_left _ ha, hprefix⟩
  split at h
  · obtain rfl := pure_eq_ok.mp h
    refine ⟨congrArg (· ++ _) hseen.attributions, hnodup, fun producer hproducer => ?_, hsources⟩
    rcases List.mem_append.mp hproducer with hproducer | hproducer
    · exact hproducers producer hproducer
    · rw [List.mem_singleton.mp hproducer]
      exact ⟨attribution, hlast, baseAttribution_eq_ok hbase⟩
  · simp only [bind_eq_ok, pure_eq_ok] at h
    obtain ⟨-, -, rfl⟩ := h
    split
    · rename_i hprefix
      refine ⟨congrArg (· ++ _) hseen.attributions, hnodup, hproducers, fun target htarget => ?_⟩
      rcases List.mem_append.mp htarget with htarget | htarget
      · exact hsources target htarget
      · rw [List.mem_singleton.mp htarget]
        exact ⟨attribution, hlast, List.isPrefixOf_iff_prefix.mp hprefix⟩
    · exact ⟨congrArg (· ++ _) hseen.attributions, hnodup, hproducers, hsources⟩

/-- A dimension of the obligation, for a target that work is expected of. -/
def Reachable (expected : List Dimension) (dimension : JsonValue) : Prop :=
  ∃ actual target, dimension = .object actual ∧ targetOf actual = some target ∧
    producersOf expected target ≠ []

/-- One dimension notes what it names. -/
theorem Recorded.dimension {named : List (Target × Str)} {seen next : Observed}
    {dimension : JsonValue} (hseen : Recorded named seen)
    (h : checkV3Dimension s scope seen dimension = .ok next) :
    Reachable scope.expected dimension ∧ Recorded (named ++ attributionsOf dimension) next := by
  unfold checkV3Dimension at h
  split at h
  · rename_i actual
    split at h
    · exact absurd h refuse_ne_ok.mp
    · rename_i target htarget
      simp only [bind_eq_ok, raiseIf_eq_ok, List.forall_mem_cons, Option.some.injEq] at h
      obtain ⟨-, ⟨hproducers, -⟩, component, -, -, -, h⟩ := h
      refine ⟨⟨actual, target, rfl, htarget, by simpa using hproducers⟩, ?_⟩
      split at h
      · exact absurd h refuse_ne_ok.mp
      · rename_i transformation htransformation
        simp only [bind_eq_ok, raiseIf_eq_ok] at h
        obtain ⟨key, -, -, -, -, -, -, -, h⟩ := h
        have hstart : Recorded (named ++ ([] : List Str).map fun a => (target, a))
            { seen with dimensions := seen.dimensions ++ [key] } := by
          rw [List.map_nil, List.append_nil]
          exact ⟨hseen.attributions, hseen.nodup, hseen.producers, hseen.sources⟩
        have hrun := foldlM_prefix []
          (P := fun before seen => Recorded (named ++ before.map fun a => (target, a)) seen)
          (fun before attribution seen next _ hbefore hstep => by
            rw [List.map_append, ← List.append_assoc]
            exact hbefore.attribution hstep) hstart h
        rw [attributionsOf]
        simpa only [htarget, htransformation, List.nil_append] using hrun
  · exact absurd h refuse_ne_ok.mp

/-- A component of the semantics was transformed before the request carried it. -/
def Transformed (semantics : Members) (componentId : Str) : Prop :=
  ∃ component, .object component ∈ arrayItems (field semantics "components") ∧
    field component "component_id" = .text componentId ∧
    (field component "transformations").truthy = true

/-- The dimensions of a campaign under `waf-bypass@3`: each is expected, nothing is
attributed twice, and what is expected is named, or its authenticated source is. -/
structure CompleteV3 (semantics : Members) (expected : List Dimension)
    (dimensions : List JsonValue) : Prop where
  reachable : ∀ dimension ∈ dimensions, Reachable expected dimension
  once : (dimensions.flatMap attributionsOf).Nodup
  complete : ∀ wanted ∈ expected, ∃ target, wanted.isAt target = true ∧
    ∃ attribution, (target, attribution) ∈ dimensions.flatMap attributionsOf ∧
      (NamesLabel attribution wanted.transformation ∨
        Transformed semantics wanted.componentId ∧ sourceAttribution <+: attribution)

/-- A dimension is at a target when input, component and carrier agree. -/
theorem Dimension.isAt_iff {dimension : Dimension} {target : Target} :
    dimension.isAt target = true ↔ dimension.inputId = .text target.inputId ∧
      dimension.componentId = target.componentId ∧ dimension.carrier.toList = target.carrier := by
  simp only [isAt, Bool.and_eq_true, beq_iff_eq, hasText_iff, and_assoc]

/-- What the check does not find omitted is named. -/
theorem Recorded.complete {semantics : Members} {named : List (Target × Str)} {seen : Observed}
    {wanted : Dimension} (hseen : Recorded named seen)
    (hcomponents : Indexed (field semantics "components") "component_id" scope.components)
    (hwanted : wanted ∈ scope.expected) (h : omits scope seen wanted = .ok false) :
    ∃ target, wanted.isAt target = true ∧ ∃ attribution, (target, attribution) ∈ named ∧
      (NamesLabel attribution wanted.transformation ∨
        Transformed semantics wanted.componentId ∧ sourceAttribution <+: attribution) := by
  simp only [omits, bind_eq_ok, needEntry_eq_ok] at h
  obtain ⟨component, hcomponent, h⟩ := h
  split at h
  · rename_i inputId hinput
    let target : Target := ⟨inputId, wanted.componentId, wanted.carrier.toList⟩
    have hat : wanted.isAt target = true := Dimension.isAt_iff.mpr ⟨hinput, rfl, rfl⟩
    have hlabel : wanted.transformation ∈ producersOf scope.expected target :=
      List.mem_map_of_mem (List.mem_filter.mpr ⟨hwanted, hat⟩)
    refine ⟨target, hat, ?_⟩
    have hgoes := pure_eq_ok.mp h
    simp only [Bool.and_eq_false_iff, Bool.not_eq_false', Bool.and_eq_true] at hgoes
    rcases hgoes with ⟨htransformed, hsource⟩ | hall
    · obtain ⟨attribution, hnamed, hprefix⟩ :=
        hseen.sources target (List.contains_iff_mem.mp hsource)
      exact ⟨attribution, hnamed, .inr ⟨⟨component, hcomponents.mem_of_entry
        (mem_of_lookup hcomponent), (hcomponents.field_of_lookup hcomponent).1, htransformed⟩,
        hprefix⟩⟩
    · obtain ⟨attribution, hnamed, hnames⟩ := hseen.producers _
        (List.contains_iff_mem.mp (List.all_eq_true.mp hall _ hlabel))
      exact ⟨attribution, hnamed, .inl hnames⟩
  · exact absurd (pure_eq_ok.mp h) Bool.false_ne_true.symm

/-- The loop over the dimensions notes what they name. -/
theorem recorded_of_foldlM {dimensions : List JsonValue} {seen : Observed}
    (h : dimensions.foldlM (checkV3Dimension s scope) Observed.none = .ok seen) :
    (∀ dimension ∈ dimensions, Reachable scope.expected dimension) ∧
      Recorded (dimensions.flatMap attributionsOf) seen := by
  have hrun := foldlM_prefix []
    (P := fun before seen => (∀ dimension ∈ before, Reachable scope.expected dimension) ∧
      Recorded (before.flatMap attributionsOf) seen)
    (fun before dimension seen next _ hbefore hstep => by
      obtain ⟨hreachable, hnext⟩ := hbefore.2.dimension hstep
      refine ⟨fun other hother => ?_, ?_⟩
      · rcases List.mem_append.mp hother with hother | hother
        · exact hbefore.1 other hother
        · rwa [List.mem_singleton.mp hother]
      · rwa [List.flatMap_append, List.flatMap_singleton])
    ⟨fun _ hmem => absurd hmem List.not_mem_nil,
      ⟨rfl, List.nodup_nil, fun _ hmem => absurd hmem List.not_mem_nil,
        fun _ hmem => absurd hmem List.not_mem_nil⟩⟩ h
  simpa using hrun

theorem validateBvV3Dimensions_eq_ok {dimensions : List JsonValue} {obligation semantics : Members}
    {id : Str} (h : validateBvV3Dimensions s dimensions obligation semantics id = .ok ()) :
    ∃ expected, expectedDimensions s bypass3 obligation semantics = .ok expected ∧
      CompleteV3 semantics expected dimensions := by
  simp only [validateBvV3Dimensions, bind_eq_ok, raiseIf_eq_ok, List.forall_mem_cons,
    Option.some.injEq] at h
  obtain ⟨items, hitems, components, hcomponents, expected, hexpected, profile, -, -, -, challenges,
    -, seen, hseen, omitted, homitted, hnone, -⟩ := h
  obtain ⟨hreachable, hrecorded⟩ := recorded_of_foldlM hseen
  refine ⟨expected, hexpected, hreachable, hrecorded.nodup, fun wanted hwanted => ?_⟩
  obtain ⟨left, hleft, hok⟩ := exists_right_of_forall₂ (mapM_eq_ok.mp homitted) hwanted
  have hkept : left = false := by
    cases left with
    | false => rfl
    | true =>
        rw [List.contains_iff_mem.mpr hleft] at hnone
        cases hnone
  rw [hkept] at hok
  exact hrecorded.complete (index_need hitems hcomponents) hwanted hok

/-- A dimension was executed by an attempt, and did not get through. -/
structure Executed (actual : Members) (attempt : Str) : Prop where
  supported : field actual "supported" = .bool true
  attempt : field actual "attempt_id" = .text attempt ∧ attempt ≠ []
  disposition : field actual "disposition" = .text "blocked".toList ∨
    field actual "disposition" = .text "safety-stop".toList

/-- A dimension was declared unsupported, for a reason. -/
structure DeclaredOut (actual : Members) : Prop where
  supported : field actual "supported" = .bool false
  attempt : field actual "attempt_id" = .null
  detail : ∃ detail, field actual "detail" = .text detail ∧ detail ≠ []

/-- How a dimension was disposed: by an attempt, or by a declaration. -/
def Disposes (dimension : JsonValue) (attempt : Option Str) : Prop :=
  ∃ actual, dimension = .object actual ∧
    match attempt with
    | some attempt => Executed actual attempt
    | none => DeclaredOut actual

/-- The dimensions of a campaign are those its profile expects. -/
def AsExpected (s : JoinServices) (profileId : Str) (obligation semantics : Members)
    (dimensions : List JsonValue) : Prop :=
  ∃ expected, expectedDimensions s profileId obligation semantics = .ok expected ∧
    if profileId = bypass3 then CompleteV3 semantics expected dimensions
    else List.Forall₂ (fun dimension wanted => ∃ actual, dimension = .object actual ∧
      sameDimension s.toServices actual wanted = true) dimensions expected

/-- What an accepted campaign says of its obligation. -/
structure AcceptedCampaign (s : JoinServices) (profileId : Str)
    (semantics bundle campaign obligation : Members) : Prop where
  dimensions : ∃ dimensions attempts, dimensions ≠ [] ∧
    field campaign "attempted_dimensions" = .array dimensions ∧
    AsExpected s profileId obligation semantics dimensions ∧
    List.Forall₂ Disposes dimensions attempts ∧
    field campaign "attempt_refs" = .array ((attempts.filterMap id).map .text)
  disposition : field campaign "disposition" = .text "no-bypass".toList
  /-- The campaign was run against the mapping of the bundle. -/
  mapping : ∃ candidate mapping, field bundle "primary_candidate" = .object candidate ∧
    .object mapping ∈ arrayItems (field candidate "obligation_mappings") ∧
    field mapping "obligation_id" = field obligation "obligation_id" ∧
    equal s.toServices (field campaign "candidate_mapping") (.object mapping) = true

theorem equal_text {s : Services} {value : JsonValue} {t : Str} :
    equal s value (.text t) = true ↔ value = .text t := by
  cases value <;> simp [equal]

/-- An array that equals one of texts is one of these texts. -/
theorem eq_of_equal_texts {s : Services} {value : JsonValue} {texts : List Str}
    (h : equal s value (.array (texts.map .text)) = true) : value = .array (texts.map .text) := by
  cases value with
  | array items =>
      rw [equal] at h
      congr 1
      induction texts generalizing items with
      | nil =>
          cases items with
          | nil => rfl
          | cons item items => cases h
      | cons t texts ih =>
          cases items with
          | nil => cases h
          | cons item items =>
              rw [List.map_cons, equalItems, Bool.and_eq_true] at h
              rw [List.map_cons, equal_text.mp h.1, ih items h.2]
  | _ => cases h

/-- The mapping of an obligation is one the candidate lists. -/
theorem mappingOf_eq_ok {s : Services} {bundle : Members} {id : Str} {mapping : JsonValue}
    (h : mappingOf s bundle id = .ok mapping) :
    ∃ candidate found, field bundle "primary_candidate" = .object candidate ∧
      mapping = .object found ∧ .object found ∈ arrayItems (field candidate "obligation_mappings") ∧
      field found "obligation_id" = .text id := by
  simp only [mappingOf, bind_eq_ok] at h
  obtain ⟨candidate, hcandidate, items, hitems, listed, hlisted, first, hfirst, h⟩ := h
  obtain rfl : field candidate "obligation_mappings" = items := (need_eq_ok.mp hitems).2
  have hfound := foldlM_prefix []
    (P := fun before (found : Option JsonValue) => ∀ item, found = some item → item ∈ before ∧
      ∃ members, item = .object members ∧ field members "obligation_id" = .text id)
    (fun before item found next _ hbefore hstep other hother => by
      cases found with
      | some mapping =>
          obtain rfl := pure_eq_ok.mp hstep
          obtain ⟨hmem, hid⟩ := hbefore other hother
          exact ⟨List.mem_append_left _ hmem, hid⟩
      | none =>
          simp only [bind_eq_ok, pure_eq_ok] at hstep
          obtain ⟨members, hmembers, value, hvalue, rfl⟩ := hstep
          split at hother
          · rename_i hequal
            obtain rfl := Option.some.inj hother
            refine ⟨List.mem_append_right _ List.mem_cons_self, members,
              dictionary_eq_ok.mp hmembers, ?_⟩
            rw [(need_eq_ok.mp hvalue).2]
            exact equal_text.mp hequal
          · cases hother)
    (fun _ hnone => by cases hnone) hfirst
  split at h
  · rename_i found
    obtain rfl := Except.ok.inj h
    obtain ⟨hmem, members, rfl, hid⟩ := hfound _ rfl
    refine ⟨candidate, members, needDictionary_eq_ok hcandidate, rfl, ?_, hid⟩
    rw [List.nil_append] at hmem
    cases hvalue : field candidate "obligation_mappings" with
    | array items =>
        rw [hvalue] at hlisted
        obtain rfl := Except.ok.inj hlisted
        exact hmem
    | object members' =>
        rw [hvalue] at hlisted
        obtain rfl := Except.ok.inj hlisted
        obtain ⟨_, -, hname⟩ := List.mem_map.mp hmem
        cases hname
    | text t =>
        rw [hvalue] at hlisted
        obtain rfl := Except.ok.inj hlisted
        obtain ⟨_, -, hname⟩ := List.mem_map.mp hmem
        cases hname
    | null =>
        rw [hvalue] at hlisted
        cases hlisted
    | bool b =>
        rw [hvalue] at hlisted
        cases hlisted
    | number literal =>
        rw [hvalue] at hlisted
        cases hlisted
  · cases h

theorem isFalse_iff {value : JsonValue} : isFalse value = true ↔ value = .bool false := by
  cases value <;> simp [isFalse]

theorem isNull_iff {value : JsonValue} : value.isNull = true ↔ value = .null := by
  cases value <;> simp [isNull]

theorem text_of_isNone {value : JsonValue} (h : value.asNonemptyText.isNone = false) :
    ∃ t, value = .text t ∧ t ≠ [] := by
  cases htext : value.asNonemptyText with
  | none =>
      rw [htext] at h
      cases h
  | some t => exact ⟨t, asNonemptyText_eq_some htext⟩

/-- A dimension that was executed has an attempt, which was blocked or stopped. -/
theorem checkExecuted_eq_ok {s : Services} {inputs components : Table Members} {id : Str}
    {transformation : Str} {family : Option Str} {actual : Members} {outcome : Outcome}
    (hsupported : field actual "supported" = .bool true)
    (h : checkExecuted s inputs components id transformation family actual = .ok outcome) :
    ∃ attempt, outcome.attempt = some attempt ∧ Executed actual attempt := by
  simp only [checkExecuted, bind_eq_ok, raiseIf_eq_ok, List.forall_mem_cons, pure_eq_ok,
    Option.some.injEq] at h
  obtain ⟨-, ⟨hattempt, hdisposition, -⟩, -, -, -, -, -, ⟨hblocked, -⟩, rendered, -, rfl⟩ := h
  obtain ⟨attempt, hid, hne⟩ := text_of_isNone hattempt
  refine ⟨attempt, ?_, hsupported, ⟨hid, hne⟩, ?_⟩
  · rw [hid]
    rfl
  · obtain ⟨known, hknown, hin⟩ := Option.map_eq_some_iff.mp hdisposition
    obtain rfl : known = true := by simpa using hin
    obtain ⟨t, ht, hvalue⟩ := inTexts_iff.mp hknown
    simp only [List.mem_cons, List.not_mem_nil, or_false] at ht
    rcases ht with rfl | rfl | rfl
    · exact .inl hvalue
    · rw [hvalue, isText_iff.mpr rfl] at hblocked
      cases hblocked
    · exact .inr hvalue

/-- An accepted dimension was disposed, and is what was expected of it. -/
theorem checkDimension_eq_ok {s : Services} {inputs components : Table Members} {id : Str}
    {pair : JsonValue × Option Dimension} {outcome : Outcome}
    (h : checkDimension s inputs components id pair = .ok outcome) :
    Disposes pair.1 outcome.attempt ∧ ∀ wanted, pair.2 = some wanted →
      ∃ actual, pair.1 = .object actual ∧ sameDimension s actual wanted = true := by
  unfold checkDimension at h
  split at h
  · rename_i actual hactual
    simp only [bind_eq_ok, raiseIf_eq_ok, List.forall_mem_cons, Option.some.injEq] at h
    obtain ⟨-, ⟨-, hexpected, -⟩, transformation, -, -, -, h⟩ := h
    refine ⟨⟨actual, hactual, ?_⟩, fun wanted hwanted => ⟨actual, hactual, ?_⟩⟩
    · split at h
      · rename_i hsupported
        obtain ⟨attempt, hattempt, hexecuted⟩ := checkExecuted_eq_ok (isTrue_iff.mp hsupported) h
        rw [hattempt]
        exact hexecuted
      · simp only [bind_eq_ok, raiseIf_eq_ok, List.forall_mem_cons, pure_eq_ok,
          Option.some.injEq, Bool.not_eq_false'] at h
        obtain ⟨-, ⟨hfalse, -⟩, -, ⟨hattempt, -, hdetail, -⟩, rfl⟩ := h
        exact ⟨isFalse_iff.mp hfalse, isNull_iff.mp hattempt, text_of_isNone hdetail⟩
    · rw [hwanted] at hexpected
      simpa using hexpected
  · exact absurd h refuse_ne_ok.mp

/-- The pairs of a campaign are its dimensions, and these are the expected ones. -/
theorem dimensionPairs_eq_ok {scope : BvScope} {id : Str} {obligation : Members}
    {value : JsonValue} {pairs : List (JsonValue × Option Dimension)}
    (h : dimensionPairs s scope id obligation value = .ok pairs)
    (hpairs : ∀ pair ∈ pairs, ∀ wanted, pair.2 = some wanted → ∃ actual, pair.1 = .object actual ∧
      sameDimension s.toServices actual wanted = true) :
    ∃ dimensions, value = .array dimensions ∧ dimensions ≠ [] ∧ pairs.map (·.1) = dimensions ∧
      AsExpected s scope.resolver.profileId obligation scope.semantics dimensions := by
  simp only [dimensionPairs, bind_eq_ok] at h
  obtain ⟨expected, hexpected, h⟩ := h
  split at h
  · rename_i dimensions
    simp only [bind_eq_ok, raiseIf_eq_ok, List.forall_mem_cons, Option.some.injEq] at h
    obtain ⟨-, ⟨hnonempty, -⟩, h⟩ := h
    refine ⟨dimensions, rfl, by simpa using hnonempty, ?_⟩
    split at h
    · rename_i hprofile
      simp only [bind_eq_ok, pure_eq_ok] at h
      obtain ⟨⟨⟩, hvalid, rfl⟩ := h
      obtain ⟨expected', hexpected', hcomplete⟩ := validateBvV3Dimensions_eq_ok hvalid
      refine ⟨?_, expected', by rw [hprofile]; exact hexpected', ?_⟩
      · rw [List.map_map]
        exact List.map_id dimensions
      · rwa [if_pos hprofile]
    · rename_i hprofile
      simp only [bind_eq_ok, raiseIf_eq_ok, List.forall_mem_cons, Option.some.injEq, pure_eq_ok,
        bne_eq_false_iff_eq] at h
      obtain ⟨-, ⟨hlength, -⟩, rfl⟩ := h
      refine ⟨List.map_fst_zip (by simp [hlength]), expected, hexpected, ?_⟩
      rw [if_neg hprofile]
      refine List.forall₂_iff_get.mpr ⟨hlength, fun i hi hi' => ?_⟩
      refine hpairs (dimensions[i], some expected[i]) ?_ _ rfl
      have hmem := List.getElem_mem (l := dimensions.zip (expected.map some)) (n := i)
        (by simp; omega)
      rwa [List.getElem_zip, List.getElem_map] at hmem
  · exact absurd h refuse_ne_ok.mp

/-- What the loop over one campaign found. -/
theorem checkCampaign_eq_ok {scope : BvScope} {seen : List Str} {entry : Str × Members}
    {found : Campaign} {obligation : Members}
    (hobligation : lookup scope.obligations entry.1 = some obligation)
    (hid : field obligation "obligation_id" = .text entry.1)
    (h : checkCampaign s scope seen entry = .ok found) :
    AcceptedCampaign s scope.resolver.profileId scope.semantics scope.bundle entry.2 obligation ∧
      field entry.2 "attempt_refs" = .array (found.attempts.map .text) ∧
      (arrayItems (field entry.2 "attempted_dimensions")).length = found.outcomes.length ∧
      found.attempts.Nodup ∧ ∀ attempt ∈ found.attempts, attempt ∉ seen := by
  simp only [checkCampaign, bind_eq_ok, needEntry_eq_ok] at h
  obtain ⟨other, hother, pairs, hpairs, outcomes, houtcomes, h⟩ := h
  obtain rfl := Option.some.inj (hother.symm.trans hobligation)
  simp only [raiseIf_eq_ok, List.forall_mem_cons, Option.some.injEq, Bool.not_eq_false',
    decide_eq_true_eq] at h
  obtain ⟨-, ⟨hrefs, -⟩, -, ⟨hnodup, hfresh, -⟩, h⟩ := h
  have hforall := mapM_eq_ok.mp houtcomes
  obtain ⟨dimensions, hdimensions, hnonempty, hfirsts, hexpected⟩ := dimensionPairs_eq_ok hpairs
    fun pair hpair => by
      obtain ⟨outcome, -, hok⟩ := exists_right_of_forall₂ hforall hpair
      exact (checkDimension_eq_ok hok).2
  have hdisposes : List.Forall₂ Disposes dimensions (outcomes.map (·.attempt)) := by
    rw [← hfirsts, List.forall₂_map_left_iff, List.forall₂_map_right_iff]
    exact hforall.imp fun pair outcome hok => (checkDimension_eq_ok hok).1
  split at h
  · simp only [bind_eq_ok, raiseIf_eq_ok, List.forall_mem_cons, Option.some.injEq, pure_eq_ok,
      Bool.not_eq_false'] at h
    obtain ⟨-, -, profile, -, -, -, -, ⟨hdisposition, -⟩, mapping, hmapping, -, ⟨hsame, -⟩,
      rfl⟩ := h
    have hattempts : field entry.2 "attempt_refs" =
        .array ((outcomes.filterMap (·.attempt)).map .text) := eq_of_equal_texts hrefs
    obtain ⟨candidate, members, hcandidate, rfl, hmem, hmappingId⟩ := mappingOf_eq_ok hmapping
    refine ⟨{
      dimensions := ⟨dimensions, outcomes.map (·.attempt), hnonempty, hdimensions, hexpected,
        hdisposes, ?_⟩
      disposition := isText_iff.mp hdisposition
      mapping := ⟨candidate, members, hcandidate, hmem, hmappingId.trans hid.symm, hsame⟩ },
      hattempts, ?_, hnodup, fun attempt hattempt hseen => ?_⟩
    · rw [List.filterMap_map]
      exact hattempts
    · rw [hdimensions]
      change dimensions.length = outcomes.length
      rw [hdisposes.length_eq, List.length_map]
    · have hany := List.any_eq_false.mp hfresh attempt hattempt
      exact hany (List.contains_iff_mem.mpr hseen)
  · exact absurd h refuse_ne_ok.mp

/-- The campaigns share no attempt, with each other or with those before. -/
theorem checkCampaigns_eq_ok {scope : BvScope} {entries : Table Members} :
    ∀ {seen : List Str} {found : List Campaign}, checkCampaigns s scope seen entries = .ok found →
      List.Forall₂ (fun entry campaign => ∃ seen, checkCampaign s scope seen entry = .ok campaign)
        entries found ∧
      ((∀ entry ∈ entries, ∃ obligation, lookup scope.obligations entry.1 = some obligation ∧
          field obligation "obligation_id" = .text entry.1) →
        (found.flatMap (·.attempts)).Nodup ∧
          ∀ attempt ∈ found.flatMap (·.attempts), attempt ∉ seen) := by
  induction entries with
  | nil =>
      intro seen found h
      obtain rfl := Except.ok.inj h
      exact ⟨.nil, fun _ => ⟨List.nodup_nil, fun _ hmem => absurd hmem List.not_mem_nil⟩⟩
  | cons entry rest ih =>
      intro seen found h
      simp only [checkCampaigns, bind_eq_ok, pure_eq_ok] at h
      obtain ⟨campaign, hcampaign, others, hothers, rfl⟩ := h
      obtain ⟨hforall, hdistinct⟩ := ih hothers
      refine ⟨.cons ⟨seen, hcampaign⟩ hforall, fun hobligations => ?_⟩
      obtain ⟨obligation, hobligation, hid⟩ := hobligations entry List.mem_cons_self
      obtain ⟨-, -, -, hnodup, hfresh⟩ := checkCampaign_eq_ok hobligation hid hcampaign
      obtain ⟨hnodups, hfreshes⟩ := hdistinct fun other hother =>
        hobligations other (List.mem_cons_of_mem _ hother)
      rw [List.flatMap_cons]
      refine ⟨List.nodup_append.mpr ⟨hnodup, hnodups, fun a ha b hb hab => ?_⟩,
        fun attempt hattempt => ?_⟩
      · exact hfreshes b hb (List.mem_append_right _ (hab ▸ ha))
      · rcases List.mem_append.mp hattempt with hattempt | hattempt
        · exact hfresh attempt hattempt
        · exact fun hseen => hfreshes attempt hattempt (List.mem_append_left _ hseen)

/-- The attempts that a campaign refers to. -/
def attemptRefs (campaign : JsonValue) : List Str :=
  campaign.asObject.elim [] fun members =>
    (arrayItems (field members "attempt_refs")).filterMap asText

/-- How many dimensions a campaign attempted. -/
def dimensionCount (campaign : JsonValue) : Nat :=
  campaign.asObject.elim 0 fun members =>
    (arrayItems (field members "attempted_dimensions")).length

/-- What an accepted result says of the semantics. -/
structure AcceptedBypass (s : JoinServices) (profileId : Str) (bv semantics bundle : Members)
    (accounting : CoverageAccounting) : Prop where
  /-- There is one campaign for every obligation, and for nothing else. -/
  reported : OneForEach (field bv "campaign_results") (field semantics "obligations")
  campaigns : ∀ campaign obligation, .object campaign ∈ arrayItems (field bv "campaign_results") →
    .object obligation ∈ arrayItems (field semantics "obligations") →
    field campaign "obligation_id" = field obligation "obligation_id" →
      AcceptedCampaign s profileId semantics bundle campaign obligation
  /-- No attempt is counted twice. -/
  once : ((arrayItems (field bv "campaign_results")).flatMap attemptRefs).Nodup
  /-- The work is the dimensions, and all of it is disposed. -/
  work : accounting.requiredWorkItemCount =
      ((arrayItems (field bv "campaign_results")).map dimensionCount).sum ∧
    accounting.disposedWorkItemCount = accounting.requiredWorkItemCount ∧
    accounting.unaccountedRequiredWorkItemCount = 0
  /-- The obligations are those of the semantics, and none is left out. -/
  obligations : accounting.requiredObligationCount =
      (arrayItems (field semantics "obligations")).length ∧
    accounting.accountedObligationCount = accounting.requiredObligationCount ∧
    accounting.unaccountedRequiredObligationCount = 0

/-- A campaign that the loop accepted, beside what the result says of it. -/
def Agrees (entry : Str × Members) (campaign : Campaign) : Prop :=
  attemptRefs (.object entry.2) = campaign.attempts ∧
    dimensionCount (.object entry.2) = campaign.outcomes.length

/-- The campaigns of a result are those the loop accepted. -/
theorem campaigns_of_agrees {campaigns : Table Members} {accepted : List Campaign}
    (h : List.Forall₂ Agrees campaigns accepted) :
    (campaigns.map fun entry => JsonValue.object entry.2).flatMap attemptRefs =
        accepted.flatMap (·.attempts) ∧
      ((campaigns.map fun entry => JsonValue.object entry.2).map dimensionCount).sum =
        (accepted.flatMap (·.outcomes)).length := by
  induction h with
  | nil => exact ⟨rfl, rfl⟩
  | cons hfirst _ ih =>
      constructor
      · rw [List.map_cons, List.flatMap_cons, List.flatMap_cons, hfirst.1, ih.1]
      · rw [List.map_cons, List.map_cons, List.sum_cons, List.flatMap_cons, List.length_append,
          hfirst.2, ih.2]

/-- **An accepted bypass validation** attempted what every obligation asks for, and
disposed of all of it without a bypass. -/
theorem acceptedBypass_of_validateBv {bv semantics bundle attestation : Members}
    {locators : Capability → Locator} {resolver : Resolver} {accounting : CoverageAccounting}
    (h : validateBv s bv semantics bundle attestation locators resolver = .ok accounting) :
    AcceptedBypass s resolver.profileId bv semantics bundle accounting := by
  simp only [validateBv, bind_eq_ok, raiseIf_eq_ok, List.forall_mem_cons, Option.some.injEq,
    Bool.not_eq_false', pure_eq_ok, bne_eq_false_iff_eq] at h
  obtain ⟨-, -, items, hitems, obligations, hobligations, campaigns, hcampaigns, -, ⟨hsame, -⟩,
    _, -, inputs, -, _, -, components, -, accepted, haccepted, -, -, resolutions, -, -, -, -,
    ⟨hdisposed, -⟩, -, -, counted, haccounting, -, -, rfl⟩ := h
  have hobligationIndex := index_need hitems hobligations
  have hcampaignIndex := index_eq_ok hcampaigns
  have hknown : ∀ entry ∈ campaigns, ∃ obligation, lookup obligations entry.1 = some obligation ∧
      field obligation "obligation_id" = .text entry.1 := by
    intro entry hentry
    have hkey : entry.1 ∈ keys obligations :=
      (sameSet_iff.mp hsame entry.1).mp (List.mem_map_of_mem hentry)
    obtain ⟨obligation, hobligation⟩ := Option.isSome_iff_exists.mp (lookup_isSome.mpr hkey)
    exact ⟨obligation, hobligation, (hobligationIndex.field_of_lookup hobligation).1⟩
  obtain ⟨hforall, hdistinct⟩ := checkCampaigns_eq_ok haccepted
  have hagrees : List.Forall₂ Agrees campaigns accepted := by
    refine ((List.forall₂_and_left _ _).mpr ⟨hknown, hforall⟩).imp ?_
    rintro entry campaign ⟨⟨obligation, hobligation, hid⟩, seen, hcampaign⟩
    obtain ⟨-, hrefs, hlength, -, -⟩ := checkCampaign_eq_ok hobligation hid hcampaign
    refine ⟨?_, hlength⟩
    change (arrayItems (field entry.2 "attempt_refs")).filterMap asText = _
    rw [hrefs]
    change (campaign.attempts.map JsonValue.text).filterMap asText = _
    rw [List.filterMap_map]
    exact List.filterMap_some
  obtain ⟨hattempts, hcounts⟩ := campaigns_of_agrees hagrees
  have hlisted : arrayItems (field bv "campaign_results") =
      campaigns.map fun entry => JsonValue.object entry.2 := by
    rw [hcampaignIndex.items]
    rfl
  obtain ⟨hrequired, hdone, hleft, -, all, hall, hcount, haccounted, hunaccounted⟩ :=
    accountingOf_eq_ok haccounting
  obtain rfl : field semantics "obligations" = items := (need_eq_ok.mp hitems).2
  refine {
    reported := oneForEach_of_indexed hcampaignIndex hobligationIndex hsame
    campaigns := fun campaign obligation hcampaign hobligation hid => ?_
    once := ?_
    work := ?_
    obligations := ⟨?_, haccounted.trans hcount.symm, hunaccounted⟩ }
  · obtain ⟨entry, hentry, rfl⟩ := hcampaignIndex.entry_of_mem hcampaign
    have hentryId := (hcampaignIndex.identity entry hentry).1
    obtain ⟨found, -, seen, hfound⟩ := exists_right_of_forall₂ hforall hentry
    exact (checkCampaign_eq_ok
      (hobligationIndex.lookup_of_field hobligation (hid.symm.trans hentryId))
      (hid.symm.trans hentryId) hfound).1
  · rw [hlisted, hattempts]
    exact (hdistinct hknown).1
  · rw [hlisted, hcounts, hrequired, hdone, hleft, hdisposed]
    exact ⟨rfl, rfl, Nat.sub_self _⟩
  · rw [hobligationIndex.items] at hall ⊢
    rw [hcount, ← Except.ok.inj hall]
    rfl

end SharedContracts
