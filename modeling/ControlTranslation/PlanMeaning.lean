import ControlTranslation.Alternatives
import ControlTranslation.TranslationPlan

/-!
# What a plan means

An atomic condition is a carrier, a selector, a pattern, flags and
transformations.  The rules of a source document have atoms, and so have the
conditions of an emitted rule, which the target reads from the condition type
and its own selector fields.  A plan keeps them: the rules emitted for an
endpoint-independent document are its coverage alternatives, atom by atom.
-/

namespace SharedContracts

open PyText JsonValue Alternatives

/-- An atomic condition on a request. -/
structure Atom where
  carrier : Carrier
  selector : Str
  pattern : Str
  flags : List Str
  transformations : List Str
  deriving DecidableEq

/-- What a source rule asks of a request; its flags are a set. -/
def SourceRule.atom (rule : SourceRule) : Atom :=
  ⟨rule.carrier, rule.name, rule.pattern, unique rule.flags, rule.transformations⟩

/-- What a source rule reads and asks of it. -/
def sourceAtom (rule : Members) : Option Atom := (readRule rule).map SourceRule.atom

/-- The carrier and the selector that the target reads in a condition. -/
def targetSelector (condition : ComponentCondition) : Option (Carrier × Str) :=
  match condition.type with
  | "uriQueryMatch" => some (.query, condition.parameter.getD ['*'])
  | "requestHeaderMatch" => some (.header, ['*'])
  | "requestHeaderValueMatch" => condition.header.map fun name => (.header, name)
  | "cookieMatch" => some (.cookie, condition.cookieName.getD ['*'])
  | "pathMatch" => some (.path, [])
  | "requestMethodMatch" => some (.method, [])
  | "argsPostMatch" => some (.body, condition.parameter.getD [])
  | "argsPostJSONMatch" => some (.body, condition.parameter.getD ['*'])
  | _ => none

/-- What an emitted condition asks of a request. -/
def targetAtom (condition : ComponentCondition) : Option Atom :=
  (targetSelector condition).map fun (carrier, selector) =>
    ⟨carrier, selector, condition.value, if condition.valueCase then [] else [['i']],
      condition.transformations⟩

/-- A selector that a location of the kind can have. -/
inductive Selects (location : Members) : Carrier → Str → Prop
  | query {name : Str} (h : name ≠ []) : Selects location .query name
  | header (name : Str) : Selects location .header name
  | cookie {name : Str} (h : name ≠ []) : Selects location .cookie name
  | structured {name : Str} (h : name ≠ [])
      (hkind : isText (field location "kind") "http-body-structured" = true) :
      Selects location .body name
  | raw (hkind : isText (field location "kind") "http-body-structured" = false) :
      Selects location .body []
  | path : Selects location .path []
  | method : Selects location .method []

/-- A condition reads back as the carrier and the selector of its rule. -/
theorem targetSelector_conditionOf {location : Members} {rule : SourceRule}
    (h : Selects location rule.carrier rule.name)
    (hstructured : isText (field location "kind") "http-body-structured" = true →
      rule.carrier = .body) :
    targetSelector (conditionOf location rule) = some (rule.carrier, rule.name) := by
  have hplain : rule.carrier ≠ .body →
      isText (field location "kind") "http-body-structured" = false := by
    intro hne
    rw [Bool.eq_false_iff]
    exact fun hkind => hne (hstructured hkind)
  obtain ⟨ruleId, carrier, name, componentId, pattern, flags, transformations⟩ := rule
  dsimp only at h hplain ⊢
  cases h with
  | query hne =>
      by_cases hstar : name = ['*']
      · subst hstar
        simp [conditionOf, conditionType, targetSelector, hplain, Carrier.conditionType]
      · simp [conditionOf, conditionType, targetSelector, hplain, Carrier.conditionType, hne, hstar]
  | header _ =>
      by_cases hstar : name = ['*']
      · subst hstar
        simp [conditionOf, conditionType, targetSelector, hplain]
      · simp [conditionOf, conditionType, targetSelector, hplain, Carrier.conditionType, hstar]
  | cookie hne =>
      by_cases hstar : name = ['*']
      · subst hstar
        simp [conditionOf, conditionType, targetSelector, hplain, Carrier.conditionType]
      · simp [conditionOf, conditionType, targetSelector, hplain, Carrier.conditionType, hstar]
  | structured hne hkind =>
      by_cases hstar : name = ['*']
      · subst hstar
        simp [conditionOf, conditionType, targetSelector, hkind]
      · simp [conditionOf, conditionType, targetSelector, hkind, hne, hstar]
  | raw hkind => simp [conditionOf, conditionType, targetSelector, hkind, Carrier.conditionType]
  | path => simp [conditionOf, conditionType, targetSelector, hplain, Carrier.conditionType]
  | method => simp [conditionOf, conditionType, targetSelector, hplain, Carrier.conditionType]

theorem Carrier.text_of_named {value : JsonValue} {carrier : Carrier}
    (h : Carrier.named value = some carrier) : value = .text carrier.name.toList :=
  isText_iff.mp (List.find?_some (p := fun c : Carrier => isText value c.name) h)

theorem Carrier.name_injective {a b : Carrier} (h : a.name.toList = b.name.toList) : a = b := by
  revert h
  cases a <;> cases b <;> first | exact fun _ => rfl | exact fun h => absurd h (by decide)

theorem LocationKind.text_of_named {value : JsonValue} {kind : LocationKind}
    (h : LocationKind.named value = some kind) : value = .text kind.name.toList :=
  isText_iff.mp (List.find?_some (p := fun k : LocationKind => isText value k.name) h)

theorem LocationKind.name_injective {a b : LocationKind} (h : a.name.toList = b.name.toList) :
    a = b := by
  revert h
  cases a <;> cases b <;> first | exact fun _ => rfl | exact fun h => absurd h (by decide)

/-- A rule that can be read has these members. -/
structure ReadsAs (members : Members) (rule : SourceRule) : Prop where
  ruleId : field members "rule_id" = .text rule.ruleId
  carrier : field members "carrier" = .text rule.carrier.name.toList
  name : field members "name" = .text rule.name
  componentId : field members "component_id" = .text rule.componentId
  pattern : field members "pattern" = .text rule.pattern
  flags : ∃ items, field members "flags" = .array items ∧ items.mapM asText = some rule.flags

/-- A rule that is read reads as its members say. -/
theorem readsAs_of_readRule {members : Members} {rule : SourceRule}
    (h : readRule members = some rule) : ReadsAs members rule := by
  simp only [readRule, Option.bind_eq_bind, Option.bind_eq_some_iff, Option.pure_def,
    Option.some.injEq] at h
  obtain ⟨flags, hflags, transformations, -, ruleId, hruleId, carrier, hcarrier, name, hname,
    componentId, hcomponentId, pattern, hpattern, flagTexts, hflagTexts, transformed, -, rfl⟩ := h
  exact ⟨asText_eq_some.mp hruleId, Carrier.text_of_named hcarrier, asText_eq_some.mp hname,
    asText_eq_some.mp hcomponentId, asText_eq_some.mp hpattern,
    flags, asArray_eq_some.mp hflags, hflagTexts⟩

/-- What `_semantic_carrier` accepts. -/
theorem semanticCarrier_eq_ok {s : Services} {component : Members} {expected : Carrier × Str}
    (h : semanticCarrier s component = .ok expected) :
    ∃ location kind, field component "location" = .object location ∧
      field location "kind" = .text (LocationKind.name kind).toList ∧
      locationCarrier location kind = .ok expected := by
  unfold semanticCarrier at h
  split at h
  · rename_i location hlocation
    obtain ⟨value, hvalue, h⟩ := bind_eq_ok.mp h
    obtain rfl := eq_of_hashed hvalue
    split at h
    · rename_i kind hkind
      exact ⟨location, kind, hlocation, LocationKind.text_of_named hkind, h⟩
    · cases h
  · cases h

theorem locationName_ne_nil {location : Members} {name : Str}
    (h : locationName location = .ok name) : name ≠ [] := by
  unfold locationName at h
  split at h
  · rename_i found hfound
    obtain rfl := Except.ok.inj h
    exact (asNonemptyText_eq_some hfound).2
  · cases h

theorem isKind_iff {location : Members} {kind : LocationKind}
    (h : field location "kind" = .text kind.name.toList) (other : LocationKind) :
    isText (field location "kind") other.name = true ↔ kind = other := by
  rw [h, isText_iff]
  constructor
  · intro heq
    apply LocationKind.name_injective
    exact JsonValue.text.inj heq
  · rintro rfl
    rfl

/-- The carrier of a location, and what may be selected under it. -/
theorem selects_of_locationCarrier {location : Members} {kind : LocationKind}
    {expected : Carrier × Str} (hkind : field location "kind" = .text kind.name.toList)
    (h : locationCarrier location kind = .ok expected) :
    Selects location expected.1 expected.2 ∧
      (isText (field location "kind") "http-body-structured" = true → expected.1 = .body) := by
  have hstructured : isText (field location "kind") "http-body-structured" = true ↔
      kind = .httpBodyStructured := isKind_iff hkind .httpBodyStructured
  cases kind with
  | httpQuery =>
      obtain ⟨name, hname, h⟩ := bind_eq_ok.mp h
      obtain rfl := pure_eq_ok.mp h
      exact ⟨.query (locationName_ne_nil hname), fun hs => absurd (hstructured.mp hs) (by decide)⟩
  | httpHeader =>
      obtain ⟨name, -, h⟩ := bind_eq_ok.mp h
      obtain rfl := pure_eq_ok.mp h
      exact ⟨.header name, fun hs => absurd (hstructured.mp hs) (by decide)⟩
  | httpCookie =>
      obtain ⟨name, hname, h⟩ := bind_eq_ok.mp h
      obtain rfl := pure_eq_ok.mp h
      exact ⟨.cookie (locationName_ne_nil hname), fun hs => absurd (hstructured.mp hs) (by decide)⟩
  | httpBodyStructured =>
      have hbody := hstructured.mpr rfl
      simp only [locationCarrier] at h
      split at h
      · obtain rfl := Except.ok.inj h
        exact ⟨.structured (by decide) hbody, fun _ => rfl⟩
      · split at h
        · rename_i selector hselector
          obtain rfl := Except.ok.inj h
          exact ⟨.structured (asNonemptyText_eq_some hselector).2 hbody, fun _ => rfl⟩
        · cases h
  | httpBodyRaw =>
      obtain rfl := Except.ok.inj h
      have hnot : isText (field location "kind") "http-body-structured" = false :=
        Bool.eq_false_iff.mpr fun hs => absurd (hstructured.mp hs) (by decide)
      exact ⟨.raw hnot, fun _ => rfl⟩
  | httpPath =>
      obtain rfl := Except.ok.inj h
      exact ⟨.path, fun hs => absurd (hstructured.mp hs) (by decide)⟩
  | httpMethod =>
      obtain rfl := Except.ok.inj h
      exact ⟨.method, fun hs => absurd (hstructured.mp hs) (by decide)⟩

/-- The carrier of a kind of location. -/
def LocationKind.carrier : LocationKind → Carrier
  | httpQuery => .query
  | httpHeader => .header
  | httpCookie => .cookie
  | httpBodyStructured => .body
  | httpBodyRaw => .body
  | httpPath => .path
  | httpMethod => .method

/-- A location is carried by the carrier of its kind. -/
theorem fst_of_locationCarrier {location : Members} {kind : LocationKind}
    {expected : Carrier × Str} (h : locationCarrier location kind = .ok expected) :
    expected.1 = kind.carrier := by
  cases kind with
  | httpBodyStructured =>
      simp only [locationCarrier] at h
      split at h
      · rw [← Except.ok.inj h]
        rfl
      · split at h
        · rw [← Except.ok.inj h]
          rfl
        · cases h
  | httpBodyRaw | httpPath | httpMethod =>
      rw [← Except.ok.inj h]
      rfl
  | httpQuery | httpHeader | httpCookie =>
      obtain ⟨name, -, h⟩ := bind_eq_ok.mp h
      rw [← pure_eq_ok.mp h]
      rfl

theorem LocationKind.carrier_eq_path {kind : LocationKind} :
    kind.carrier = .path ↔ kind = .httpPath := by
  cases kind <;> decide

/-- What a rule binds is what its location selects. -/
theorem selects_of_binding {s : Services} {members location : Members} {rule : SourceRule}
    {expected : Carrier × Str} (hread : ReadsAs members rule)
    (hexpected : Selects location expected.1 expected.2)
    (hbound : (sameCarrierBinding s (field members "carrier") (field members "name") expected ||
      anyFieldBinding location (field members "carrier") (field members "name")) = true) :
    Selects location rule.carrier rule.name ∧
      (rule.carrier = expected.1 ∨ isText (field location "kind") "http-body-structured" = true ∧
        rule.carrier = .body) := by
  rw [hread.carrier, hread.name, Bool.or_eq_true] at hbound
  rcases hbound with hsame | hany
  · simp only [sameCarrierBinding, Bool.and_eq_true] at hsame
    obtain ⟨hcarrier, hname⟩ := hsame
    have heq : rule.carrier = expected.1 :=
      Carrier.name_injective (JsonValue.text.inj (isText_iff.mp hcarrier))
    refine ⟨?_, Or.inl heq⟩
    rw [heq]
    by_cases hheader : expected.1 = .header
    · rw [hheader]
      exact .header _
    · rw [if_neg hheader, beq_iff_eq] at hname
      rw [hname]
      exact hexpected
  · simp only [anyFieldBinding, isAnyField, Bool.and_eq_true] at hany
    obtain ⟨⟨⟨hkind, -⟩, hbody⟩, hstar⟩ := hany
    have hcarrier : rule.carrier = .body :=
      Carrier.name_injective (JsonValue.text.inj (isText_iff.mp hbody))
    have hname : rule.name = ['*'] := JsonValue.text.inj (isText_iff.mp hstar)
    rw [hcarrier, hname]
    exact ⟨.structured (by decide) hkind, Or.inr ⟨hkind, rfl⟩⟩

theorem mapM_asText {items : List JsonValue} :
    ∀ {texts : List Str}, items.mapM asText = some texts → items = texts.map .text := by
  induction items with
  | nil =>
      intro texts h
      obtain rfl := Option.some.inj h
      rfl
  | cons item rest ih =>
      intro texts h
      simp only [List.mapM_cons, Option.bind_eq_bind, Option.bind_eq_some_iff, Option.pure_def,
        Option.some.injEq] at h
      obtain ⟨first, hfirst, others, hothers, rfl⟩ := h
      rw [List.map_cons, ← ih hothers, asText_eq_some.mp hfirst]

theorem anyOutside_eq_false {texts : List Str} {items : List JsonValue}
    (h : anyOutside texts items = some false) : ∀ item ∈ items, ∃ t ∈ texts, item = .text t := by
  intro item hitem
  have hnot := anyOf_eq_false.mp h _ (List.mem_map_of_mem hitem)
  obtain ⟨known, hknown, hfalse⟩ := Option.map_eq_some_iff.mp hnot
  obtain rfl : known = true := by simpa using hfalse
  exact inTexts_iff.mp hknown

/-- A list of one repeated element, without repetitions. -/
theorem unique_of_forall_eq {α : Type} [DecidableEq α] {a : α} {l : List α}
    (h : ∀ b ∈ l, b = a) : unique l = if l.contains a then [a] else [] := by
  split
  · rename_i hmem
    exact unique_eq_singleton (by simpa using hmem) h
  · rename_i hmem
    have hnil : l = [] := by
      rw [List.eq_nil_iff_forall_not_mem]
      intro b hb
      exact hmem (by simpa [h b hb] using hb)
    rw [hnil]
    rfl

/-- The carrier binding of a condition. -/
def ComponentCondition.carrierKey (condition : ComponentCondition) : CarrierKey :=
  (condition.sourceCarrier, condition.sourceSelector, condition.sourceComponentId)

/-- A condition that carries a rule over: it is about the same component, at its
location, and asks the same of a request. -/
structure CarriedOver (rule component : Members) (condition : ComponentCondition) : Prop where
  componentId : field rule "component_id" = .text condition.sourceComponentId
  location : ∃ location, field component "location" = .object location ∧
    condition.sourceLocationKind = field location "kind"
  inPath : isPathComponent component = true ↔ condition.sourceCarrier = .path
  atom : ∃ atom, sourceAtom rule = some atom ∧ targetAtom condition = some atom ∧
    atom.carrier = condition.sourceCarrier ∧ atom.selector = condition.sourceSelector

/-- What `_component_condition` accepts is carried over. -/
theorem componentCondition_eq_ok {s : Services} {rule component : Members} {sourceId : Str}
    {seen : List Str} {condition : ComponentCondition} {key : CarrierKey}
    (h : componentCondition s rule component sourceId seen = .ok (condition, key)) :
    CarriedOver rule component condition ∧ key = condition.carrierKey := by
  simp only [componentCondition, bind_eq_ok, raiseIf_eq_ok] at h
  obtain ⟨expected, hexpected, _, hchecks, h⟩ := h
  obtain ⟨location, kind, hlocation, hkind, hcarrier⟩ := semanticCarrier_eq_ok hexpected
  rw [hlocation] at hchecks h
  simp only [asObject, Option.getD_some] at hchecks h
  split at h
  · rename_i source hread
    obtain ⟨rfl, rfl⟩ := Prod.mk.inj (pure_eq_ok.mp h)
    have hreads := readsAs_of_readRule hread
    obtain ⟨flags, hflags, hflagTexts⟩ := hreads.flags
    simp only [ruleChecks, List.forall_mem_cons, Option.some.injEq, Bool.not_eq_false',
      hflags, asArray, Option.getD_some] at hchecks
    obtain ⟨-, -, -, -, hbound, -, -, -, hletters, -⟩ := hchecks
    obtain ⟨hselects, hstructured⟩ := selects_of_locationCarrier hkind hcarrier
    obtain ⟨hselected, hsame⟩ := selects_of_binding hreads hselects hbound
    have hbody : isText (field location "kind") "http-body-structured" = true →
        source.carrier = .body := by
      intro hs
      rcases hsame with heq | ⟨-, heq⟩
      · rw [heq]
        exact hstructured hs
      · exact heq
    have hpath : isPathComponent component = true ↔ source.carrier = .path := by
      have hlocated : isPathComponent component = isText (field location "kind") "http-path" := by
        rw [isPathComponent, hlocation]
      have hkinds := fst_of_locationCarrier hcarrier
      rw [hlocated]
      refine (isKind_iff hkind .httpPath).trans ?_
      rcases hsame with heq | ⟨hs, heq⟩
      · rw [heq, hkinds, LocationKind.carrier_eq_path]
      · rw [heq, (isKind_iff hkind .httpBodyStructured).mp hs]
        exact iff_of_false (by decide) (by decide)
    have hletter : ∀ flag ∈ source.flags, flag = ['i'] := by
      intro flag hflag
      rw [mapM_asText hflagTexts] at hletters
      obtain ⟨t, ht, heq⟩ := anyOutside_eq_false hletters _ (List.mem_map_of_mem hflag)
      rw [JsonValue.text.inj heq, List.mem_singleton.mp ht]
    refine ⟨⟨hreads.componentId, ⟨location, hlocation, rfl⟩, hpath, source.atom, ?_, ?_, rfl, rfl⟩,
      rfl⟩
    · rw [sourceAtom, hread]
      rfl
    · rw [targetAtom, targetSelector_conditionOf hselected hbody, Option.map_some]
      rw [SourceRule.atom, unique_of_forall_eq hletter]
      simp [conditionOf]
  · cases h

/-- A rule of a document, carried over under the component it is about. -/
structure Carries (s : Services) (sourceId : Str) (semantic : Table Members) (members : Members)
    (entry : Str × ComponentCondition) : Prop where
  translated : ∃ component seen key, lookup semantic entry.1 = some component ∧
    componentCondition s members component sourceId seen = .ok (entry.2, key)
  component : entry.2.sourceComponentId = entry.1

/-- The rules of a document and the conditions they become. -/
def CarriesRule (s : Services) (sourceId : Str) (semantic : Table Members) (rule : JsonValue)
    (entry : Str × ComponentCondition) : Prop :=
  ∃ members, rule = .object members ∧ Carries s sourceId semantic members entry

/-- What a rule is carried over to. -/
theorem Carries.over {s : Services} {sourceId : Str} {semantic : Table Members}
    {members : Members} {entry : Str × ComponentCondition}
    (h : Carries s sourceId semantic members entry) :
    ∃ component, lookup semantic entry.1 = some component ∧
      CarriedOver members component entry.2 := by
  obtain ⟨component, seen, key, hlookup, htranslated⟩ := h.translated
  exact ⟨component, hlookup, (componentCondition_eq_ok htranslated).1⟩

/-- Carried rules give every component one condition. -/
theorem carryRules_eq_ok {s : Services} {sourceId : Str} {semantic : Table Members}
    {rules : List JsonValue} :
    ∀ {before after : CarriedRules}, carryRules s sourceId semantic before rules = .ok after →
      (keys before.conditions).Nodup →
      ∃ more, after.conditions = before.conditions ++ more ∧
        after.carrierKeys = before.carrierKeys ++ more.map (fun entry => entry.2.carrierKey) ∧
        (keys after.conditions).Nodup ∧
          List.Forall₂ (CarriesRule s sourceId semantic) rules more := by
  induction rules with
  | nil =>
      intro before after h hnodup
      obtain rfl := Except.ok.inj h
      exact ⟨[], (List.append_nil _).symm, (List.append_nil _).symm, hnodup, .nil⟩
  | cons rule rest ih =>
      intro before after h hnodup
      cases rule with
      | object members =>
          simp only [carryRules] at h
          split at h
          · cases h
          · rename_i componentId hid
            split at h
            · cases h
            · rename_i component hcomponent
              simp only [bind_eq_ok, raiseIf_eq_ok] at h
              obtain ⟨⟨condition, key⟩, hcondition, _, -, h⟩ := h
              obtain ⟨hcarried, hkey⟩ := componentCondition_eq_ok hcondition
              obtain ⟨hidText, hnew⟩ := Option.filter_eq_some_iff.mp hid
              have hfresh : componentId ∉ keys before.conditions := by simpa using hnew
              have hsame : condition.sourceComponentId = componentId :=
                JsonValue.text.inj (hcarried.componentId.symm.trans
                  (asNonemptyText_eq_some hidText).1)
              obtain ⟨more, hmore, hkeys, hall, hforall⟩ := ih h
                (by rw [keys_append]; exact nodup_snoc hnodup hfresh)
              refine ⟨(componentId, condition) :: more, ?_, ?_, hall, ?_⟩
              · rw [hmore, List.append_assoc]
                rfl
              · rw [hkeys, hkey, List.append_assoc]
                rfl
              · exact .cons ⟨members, rfl, ⟨component, before.ruleIds, _, hcomponent, hcondition⟩,
                  hsame⟩ hforall
      | _ => cases h

/-- The rules of a document give a component this atom. -/
def HasAtom (document : Members) (componentId : JsonValue) (atom : Atom) : Prop :=
  ∃ rule, .object rule ∈ arrayItems (field document "rules") ∧
    field rule "component_id" = componentId ∧ sourceAtom rule = some atom

/-- A component of a document holds. -/
def ComponentHolds (truth : Atom → Prop) (document : Members) (componentId : JsonValue) : Prop :=
  ∃ atom, HasAtom document componentId atom ∧ truth atom

/-- The coverage alternatives of a document, each a list of components. -/
def coverage (document : Members) : List (List JsonValue) :=
  (arrayItems (field document "coverage_alternatives")).map arrayItems

/-- What a document covers: some coverage alternative, whole. -/
def CoverageHolds (truth : Atom → Prop) (document : Members) : Prop :=
  Holds (ComponentHolds truth document) (coverage document)

/-- The rules translated from one source artifact. -/
def rulesFrom (sourceId : Str) (rules : List Rule) : List Rule :=
  rules.filter fun rule => rule.sourceArtifactId = sourceId

/-- The condition found for a component has the one atom of the component. -/
theorem hasAtom_iff {s : Services} {sourceId : Str} {semantic : Table Members}
    {document : Members} {table : Table ComponentCondition} (hnodup : (keys table).Nodup)
    (hcarries : List.Forall₂ (CarriesRule s sourceId semantic)
      (arrayItems (field document "rules")) table)
    {id : Str} {condition : ComponentCondition} (hlookup : lookup table id = some condition) :
    ∃ atom, targetAtom condition = some atom ∧
      ∀ other, HasAtom document (.text id) other ↔ other = atom := by
  obtain ⟨rule, hrule, members, rfl, hcarried⟩ :=
    exists_left_of_forall₂ hcarries (mem_of_lookup hlookup)
  obtain ⟨component, -, hover⟩ := hcarried.over
  have hid := hcarried.component
  obtain ⟨atom, hsource, htarget, -⟩ := hover.atom
  refine ⟨atom, htarget, fun other => ?_⟩
  constructor
  · rintro ⟨rule, hmem, hcomponent, hother⟩
    obtain ⟨⟨name, found⟩, hentry, members', heq, hcarried'⟩ :=
      exists_right_of_forall₂ hcarries hmem
    obtain rfl := JsonValue.object.inj heq
    obtain ⟨component', -, hover'⟩ := hcarried'.over
    have hname : name = id :=
      hcarried'.component.symm.trans (JsonValue.text.inj (hover'.componentId.symm.trans hcomponent))
    rw [hname] at hentry
    obtain rfl := Option.some.inj ((lookup_of_mem hnodup hentry).symm.trans hlookup)
    obtain ⟨atom', hsource', htarget', -⟩ := hover'.atom
    rw [← Option.some.inj (hsource'.symm.trans hother)]
    exact Option.some.inj (htarget'.symm.trans htarget)
  · rintro rfl
    refine ⟨members, hrule, ?_, hsource⟩
    rw [hover.componentId, hid]

/-- Every id of an alternative has its condition. -/
theorem conditionsOf_eq_ok {conditions : Table ComponentCondition} {ids : List JsonValue} :
    ∀ {found : List ComponentCondition}, conditionsOf conditions ids = .ok found →
      List.Forall₂ (fun id condition => ∃ name, id = .text name ∧
        lookup conditions name = some condition) ids found := by
  intro found h
  unfold conditionsOf at h
  split at h
  · rename_i listed hlisted
    obtain rfl := Except.ok.inj h
    clear h
    induction ids generalizing listed with
    | nil =>
        obtain rfl := Option.some.inj hlisted
        exact .nil
    | cons id rest ih =>
        simp only [List.mapM_cons, Option.bind_eq_bind, Option.bind_eq_some_iff, Option.pure_def,
          Option.some.injEq] at hlisted
        obtain ⟨condition, ⟨name, hname, hlookup⟩, others, hothers, rfl⟩ := hlisted
        exact .cons ⟨name, asText_eq_some.mp hname, hlookup⟩ (ih others hothers)
  · cases h

/-- Each coverage alternative becomes one rule, with the conditions of its components. -/
theorem independentRules_eq_ok {s : Services} {document : Members} {sourceId : Str}
    {conditions : Table ComponentCondition} {alternatives : List JsonValue} :
    ∀ {position : Nat} {seen : List Str} {translated : List (Str × Rule)},
      independentRules s document sourceId conditions position seen alternatives =
        .ok translated →
      List.Forall₂ (fun alternative entry => entry.2.sourceArtifactId = sourceId ∧
        ∃ inspected, entry.2.conditions = inspected.map Condition.component ∧
          List.Forall₂ (fun id condition => ∃ name, id = .text name ∧
            lookup conditions name = some condition) (arrayItems alternative) inspected)
        alternatives translated := by
  induction alternatives with
  | nil =>
      intro position seen translated h
      obtain rfl := Except.ok.inj h
      exact .nil
  | cons alternative rest ih =>
      intro position seen translated h
      simp only [independentRules, bind_eq_ok] at h
      obtain ⟨key, -, _, -, inspected, hinspected, others, hothers, h⟩ := h
      obtain rfl := pure_eq_ok.mp h
      exact .cons ⟨rfl, inspected, rfl, conditionsOf_eq_ok hinspected⟩ (ih hothers)

/-- A document whose rules are not bound to a route. -/
def EndpointIndependent (document : Members) : Prop :=
  field document "placement_mode" = .null ∨ field document "placement_mode" = .text []

/-- A document whose rules are bound to routes. -/
def RouteBound (document : Members) : Prop :=
  field document "placement_mode" = .text "route-bound-v1".toList

/-- An endpoint-independent document is bound to no route. -/
theorem not_routeBound_of_independent {document : Members} (h : EndpointIndependent document) :
    ¬ RouteBound document := by
  intro hbound
  rw [RouteBound] at hbound
  rcases h with hnull | hempty
  · rw [hnull] at hbound
    cases hbound
  · rw [hempty] at hbound
    exact absurd (JsonValue.text.inj hbound) (by decide)

theorem placementOf_eq_ok {sourceId : Str} {mode : JsonValue} {placement : Placement}
    (h : placementOf sourceId mode = .ok placement) :
    (placement = .independent ∧ (mode = .null ∨ mode = .text [])) ∨
      (placement = .routeBound ∧ mode = .text "route-bound-v1".toList) := by
  obtain ⟨value, hvalue, hplaced⟩ := bind_eq_ok.mp h
  obtain rfl := eq_of_hashed hvalue
  split at hplaced
  · rename_i hmode
    obtain rfl := pure_eq_ok.mp hplaced
    rcases Bool.or_eq_true_iff.mp hmode with hnull | hempty
    · cases value with
      | null => exact Or.inl ⟨rfl, Or.inl rfl⟩
      | _ => cases hnull
    · exact Or.inl ⟨rfl, Or.inr (isText_iff.mp hempty)⟩
  · split at hplaced
    · rename_i hmode
      obtain rfl := pure_eq_ok.mp hplaced
      exact Or.inr ⟨rfl, isText_iff.mp hmode⟩
    · cases hplaced

theorem nonemptyArray_eq_ok {document : Members} {key : String} {refusal : Str}
    {items : List JsonValue} (h : nonemptyArray document key refusal = .ok items) :
    field document key = .array items ∧ items ≠ [] := by
  unfold nonemptyArray at h
  split at h
  · rename_i first rest hfield
    obtain rfl := Except.ok.inj h
    exact ⟨hfield, List.cons_ne_nil _ _⟩
  · cases h

/-- What every accepted rule document has: its rules, each carried over to a
condition on its own component. -/
structure CarriedDocument (s : Services) (sourceId : Str) (document semantics : Members)
    (semantic : Table Members) (table : Table ComponentCondition) : Prop where
  components : Indexed (field semantics "components") "component_id" semantic
  nodup : (keys table).Nodup
  carries : List.Forall₂ (CarriesRule s sourceId semantic) (arrayItems (field document "rules"))
    table

/-- What `_translate_rule_document` accepts, up to the placement. -/
theorem translateRuleDocument_eq_ok {s : Services} {document : Members} {sourceId : Str}
    {semantics : Members} {profileId : Str} {translated : List (Str × Rule)}
    {carriers : List CarrierKey}
    (h : translateRuleDocument s document sourceId semantics profileId =
      .ok (translated, carriers)) :
    ∃ semantic table, CarriedDocument s sourceId document semantics semantic table ∧
      carriers = table.map (fun entry => entry.2.carrierKey) ∧
      ((EndpointIndependent document ∧ independentRules s document sourceId table 0 []
          (arrayItems (field document "coverage_alternatives")) = .ok translated) ∨
        (RouteBound document ∧ routeBoundRules s document sourceId profileId semantics semantic
          table (arrayItems (field document "coverage_alternatives"))
          (arrayItems (field document "route_bound_alternatives")) = .ok translated)) := by
  simp only [translateRuleDocument, bind_eq_ok] at h
  obtain ⟨rules, hrules, placement, hplacement, coverage, hcoverage, alternatives, halternatives,
    components, hcomponents, semantic, hsemantic, carried, hcarried, h⟩ := h
  obtain ⟨more, hmore, hkeys, hnodup, hforall⟩ := carryRules_eq_ok hcarried List.nodup_nil
  rw [List.nil_append] at hmore hkeys
  rw [hmore] at hnodup
  have hfield := (nonemptyArray_eq_ok hrules).1
  have hcoverage' := (nonemptyArray_eq_ok hcoverage).1
  refine ⟨semantic, more, ⟨?_, hnodup, ?_⟩, ?_⟩
  · rw [(need_eq_ok.mp hcomponents).2]
    exact index_eq_ok hsemantic
  · rw [hfield]
    exact hforall
  · rw [hcoverage', ← hkeys]
    rw [hmore] at h
    rcases placementOf_eq_ok hplacement with ⟨rfl, hmode⟩ | ⟨rfl, hmode⟩
    · obtain ⟨rules', hrules', h⟩ := bind_eq_ok.mp h
      obtain ⟨rfl, rfl⟩ := Prod.mk.inj (pure_eq_ok.mp h)
      exact ⟨rfl, Or.inl ⟨hmode, hrules'⟩⟩
    · obtain ⟨rules', hrules', h⟩ := bind_eq_ok.mp h
      obtain ⟨rfl, rfl⟩ := Prod.mk.inj (pure_eq_ok.mp h)
      rw [(nonemptyArray_eq_ok halternatives).1]
      exact ⟨rfl, Or.inr ⟨hmode, hrules'⟩⟩

/-- Rules keep the identity of the artifact they come from. -/
theorem sourceArtifactId_of_independentRules {s : Services} {document : Members} {sourceId : Str}
    {table : Table ComponentCondition} {alternatives : List JsonValue}
    {translated : List (Str × Rule)}
    (h : independentRules s document sourceId table 0 [] alternatives = .ok translated) :
    ∀ rule ∈ translated.map (·.2), rule.sourceArtifactId = sourceId := by
  intro rule hrule
  obtain ⟨entry, hentry, rfl⟩ := List.mem_map.mp hrule
  obtain ⟨_, -, hsource, -⟩ := exists_left_of_forall₂ (independentRules_eq_ok h) hentry
  exact hsource

end SharedContracts
