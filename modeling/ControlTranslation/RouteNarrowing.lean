import ControlTranslation.ProducerIntegrity
import ControlTranslation.RoutePlan

/-!
# Whether route-bound rules only narrow

A route-bound rule asks for an exact path, and that condition stands for the
components carried in the path: their patterns are listed with it and never
asked.  So a rule keeps what its alternative asks exactly when the path it
renders is one that those patterns accept.
-/

namespace SharedContracts

open PyText JsonValue Alternatives

/-- A request as far as rules inspect it: the method, the path, and which atoms of the
other carriers hold. -/
structure Request where
  method : Str
  path : Str
  holds : Atom → Prop

/-- An atom holds of a request; `accepts` says which values a pattern accepts. -/
def AtomHolds (accepts : Atom → Str → Prop) (request : Request) (atom : Atom) : Prop :=
  match atom.carrier with
  | .path => accepts atom request.path
  | .method => accepts atom request.method
  | _ => request.holds atom

/-- What a condition asks holds of a request. -/
def AskHolds (accepts : Atom → Str → Prop) (request : Request) : Ask → Prop
  | .atom atom => AtomHolds accepts request atom
  | .exactly .path _ value => request.path = value
  | .exactly .method _ value => request.method = value
  | .exactly _ _ _ => False

/-- An emitted rule matches a request. -/
def RuleMatches (accepts : Atom → Str → Prop) (request : Request) (rule : JsonValue) : Prop :=
  RuleAsks (AskHolds accepts request) rule

/-- The path a route stands for. -/
def routeBase (route : Members) (profileId : Str) : Option Str :=
  match routePath route profileId [] with
  | .ok (.text path) => some path
  | _ => none

/-- A component brings a payload: it is carried in the path, and an input it names takes the
route with the payload. -/
def BringsPayload (s : Services) (semantics route : Members) (id payload : Str) : Prop :=
  ∃ component ref refId input,
    Listed (field semantics "components") "component_id" id component ∧
    isPathComponent component = true ∧
    .object ref ∈ arrayItems (field component "input_refs") ∧ field ref "id" = .text refId ∧
    Listed (field semantics "test_inputs") "input_id" refId input ∧ TakesRoute s route input ∧
    pathPayload input = .text payload

/-- A payload that the alternative carries in the path. -/
def CarriesPayload (s : Services) (semantics bound : Members) (payload : Str) : Prop :=
  ∃ id route, .text id ∈ arrayItems (field bound "component_ids") ∧
    field bound "route" = .object route ∧ BringsPayload s semantics route id payload

/-- A request takes the route of an alternative: its method, and its path or that path with a
payload of the alternative. -/
def OnRoute (s : Services) (semantics : Members) (profileId : Str) (bound : Members)
    (request : Request) : Prop :=
  ∃ route path, field bound "route" = .object route ∧
    field route "method" = .text request.method ∧ routeBase route profileId = some path ∧
    (request.path = path ∨ ∃ payload, CarriesPayload s semantics bound payload ∧
      request.path = renderedPath path (some payload))

/-- A path that the alternative renders: the route's with each payload, or the route's alone
where there is none. -/
def RenderedAt (s : Services) (semantics : Members) (profileId : Str) (bound : Members)
    (path : Str) : Prop :=
  ∃ route base, field bound "route" = .object route ∧ routeBase route profileId = some base ∧
    ((∃ payload, CarriesPayload s semantics bound payload ∧
        path = renderedPath base (some payload)) ∨
      ((¬ ∃ payload, CarriesPayload s semantics bound payload) ∧ path = base))

/-- The alternative an emitted rule represents. -/
def Represents (document : Members) (rule : JsonValue) (bound : Members) : Prop :=
  .object bound ∈ arrayItems (field document "route_bound_alternatives") ∧
    ∃ id, identityOf "sourceAlternativeId" rule = some id ∧
      field bound "alternative_id" = .text id

/-- What a rule matches is on the route and satisfies every component of the alternative the
rule represents; and every coverage alternative is represented. -/
structure OnlyNarrows (s : Services) (accepts : Atom → Str → Prop) (semantics : Members)
    (profileId : Str) (document : Members) (rules : List JsonValue) : Prop where
  origin : ∀ rule ∈ rules, ∃ bound, Represents document rule bound
  narrow : ∀ rule ∈ rules, ∀ bound, Represents document rule bound →
    ∀ request, RuleMatches accepts request rule →
      OnRoute s semantics profileId bound request ∧
      ∀ id ∈ arrayItems (field bound "component_ids"),
        ComponentHolds (AtomHolds accepts request) document id
  represented : ∀ alternative ∈ arrayItems (field document "coverage_alternatives"),
    ∃ rule ∈ rules, ∃ bound, Represents document rule bound ∧
      field bound "component_ids" = alternative

/-- Every path an alternative renders is one that its path patterns accept, unless a method
pattern of the alternative refuses the method of the route. -/
def PathsAccepted (s : Services) (accepts : Atom → Str → Prop) (semantics : Members)
    (profileId : Str) (document : Members) : Prop :=
  ∀ bound, .object bound ∈ arrayItems (field document "route_bound_alternatives") →
    ∀ route method path, field bound "route" = .object route →
      field route "method" = .text method → RenderedAt s semantics profileId bound path →
      (∀ id ∈ arrayItems (field bound "component_ids"), ∀ atom, HasAtom document id atom →
        atom.carrier = .method → accepts atom method) →
      ∀ id ∈ arrayItems (field bound "component_ids"), ∀ atom, HasAtom document id atom →
        atom.carrier = .path → accepts atom path

theorem SameItems.eq_texts {items : List JsonValue} :
    ∀ {texts : List Str}, SameItems items (texts.map .text) → items = texts.map .text := by
  induction items with
  | nil =>
      intro texts h
      cases texts with
      | nil => rfl
      | cons t rest => cases h
  | cons item rest ih =>
      intro texts h
      cases texts with
      | nil => cases h
      | cons t others =>
          cases h with
          | cons hitem hrest =>
              cases hitem
              rw [ih hrest]
              rfl

theorem SameItems.texts_eq {texts : List Str} :
    ∀ {items : List JsonValue}, SameItems (texts.map .text) items → items = texts.map .text := by
  induction texts with
  | nil =>
      intro items h
      cases h
      rfl
  | cons t rest ih =>
      intro items h
      cases h with
      | cons hitem hrest =>
          cases hitem
          rw [ih hrest]
          rfl

/-- What is written as a list of texts is that list. -/
theorem eq_texts_of_canonicalText {s : Services} (hrfc : ResultReader.Canonical s.rfc8785)
    {value : JsonValue} {texts : List Str} {key : Str} (hvalue : canonicalText s value = .ok key)
    (htexts : canonicalText s (.array (texts.map .text)) = .ok key) :
    value = .array (texts.map .text) := by
  have hwritten : ∀ {v : JsonValue}, canonicalText s v = .ok key → s.rfc8785 v = some key := by
    intro v hv
    unfold canonicalText at hv
    split at hv
    · rename_i found hfound
      rw [hfound, Except.ok.inj hv]
    · cases hv
  obtain ⟨left, hleft, hfinite, hkey⟩ := hrfc _ _ (hwritten hvalue)
  obtain ⟨right, hright, hfinite', hkey'⟩ := hrfc _ _ (hwritten htexts)
  have hsame : left = right :=
    eq_of_print_eq readable_escapeChar readable_escapeChar hfinite hfinite' (hkey.symm.trans hkey')
  subst hsame
  cases hright with
  | array hitems =>
      rw [SameItems.texts_eq hitems] at hleft
      cases hleft with
      | array hall => rw [SameItems.eq_texts hall]

/-- The identity of the alternative only goes into texts. -/
theorem routeBase_of_routePath {route : Members} {profileId alternativeId path : Str}
    (h : routePath route profileId alternativeId = .ok (.text path)) :
    routeBase route profileId = some path := by
  have hfree : routePath route profileId [] = .ok (.text path) := by
    unfold routePath at h ⊢
    split at h
    · rename_i hkind
      rw [if_pos hkind]
      simp only [bind_eq_ok] at h ⊢
      obtain ⟨routes, hroutes, pathKey, hpathKey, h⟩ := h
      refine ⟨routes, hroutes, pathKey, hpathKey, ?_⟩
      split at h
      · exact h
      · cases h
    · rename_i hkind
      rw [if_neg hkind]
      split at h
      · rename_i hrendered
        rw [if_pos hrendered]
        exact h
      · cases h
  rw [routeBase, hfree]

section Documents

variable {s : Services} {sourceId profileId : Str} {document semantics : Members}
  {semantic inputs : Table Members} {table : Table ComponentCondition}

/-- Bringing a payload, in the tables and in the semantics. -/
theorem brings_iff (hcarried : CarriedDocument s sourceId document semantics semantic table)
    (hinputs : Indexed (field semantics "test_inputs") "input_id" inputs) {route : Members}
    {id payload : Str} :
    Brings s ⟨semantic, inputs, table⟩ route id payload ↔
      BringsPayload s semantics route id payload := by
  constructor
  · rintro ⟨component, input, hcomponent, hpath, ⟨ref, refId, href, hid, hinput, htakes⟩, hpayload⟩
    exact ⟨component, ref, refId, input, hcarried.components.lookup_iff.mp hcomponent, hpath, href,
      hid, hinputs.lookup_iff.mp hinput, htakes, hpayload⟩
  · rintro ⟨component, ref, refId, input, hcomponent, hpath, href, hid, hinput, htakes, hpayload⟩
    exact ⟨component, input, hcarried.components.lookup_iff.mpr hcomponent, hpath,
      ⟨ref, refId, href, hid, hinputs.lookup_iff.mpr hinput, htakes⟩, hpayload⟩

/-- The one atom of a component of an alternative, and where it is carried. -/
structure ComponentAtom (document : Members) (id : Str) (component : Members)
    (condition : ComponentCondition) (atom : Atom) : Prop where
  target : targetAtom condition = some atom
  only : ∀ other, HasAtom document (.text id) other ↔ other = atom
  path : atom.carrier = .path ↔ isPathComponent component = true

/-- The condition of a component asks what the component is. -/
theorem componentAtom_of_lookup
    (hcarried : CarriedDocument s sourceId document semantics semantic table) {id : Str}
    {component : Members} {condition : ComponentCondition}
    (hcomponent : lookup semantic id = some component)
    (hcondition : lookup table id = some condition) :
    ∃ atom, ComponentAtom document id component condition atom := by
  obtain ⟨atom, htarget, honly⟩ := hasAtom_iff hcarried.nodup hcarried.carries hcondition
  refine ⟨atom, htarget, honly, ?_⟩
  obtain ⟨rule, -, members, -, hrule⟩ :=
    exists_left_of_forall₂ hcarried.carries (mem_of_lookup hcondition)
  obtain ⟨found, hfound, hover⟩ := hrule.over
  obtain rfl := Option.some.inj (hcomponent.symm.trans hfound)
  obtain ⟨own, -, hown, hcarrier, -⟩ := hover.atom
  obtain rfl := Option.some.inj (htarget.symm.trans hown)
  rw [hcarrier]
  exact hover.inPath.symm

/-- What a rule of an alternative matches: the path it renders, the method of the route, and
every component that is not carried in the path. -/
theorem ruleMatches_iff (accepts : Atom → Str → Prop)
    (hcarried : CarriedDocument s sourceId document semantics semantic table)
    {alternative : RouteAlternative}
    (hbound : ∀ id ∈ alternative.componentIds, ∃ component condition,
      lookup semantic id = some component ∧ lookup table id = some condition)
    {payload : Option Str} {rule : Rule}
    (hrule : BoundRuleOf sourceId profileId ⟨semantic, inputs, table⟩ alternative payload rule)
    (request : Request) :
    RuleMatches accepts request rule.json ↔
      (∃ base, routeBase alternative.route profileId = some base ∧
        request.path = renderedPath base payload) ∧
      field alternative.route "method" = .text request.method ∧
      ∀ id ∈ alternative.componentIds, ∀ atom, HasAtom document (.text id) atom →
        atom.carrier ≠ .path → AtomHolds accepts request atom := by
  obtain ⟨base, method, hbase, hmethod, hconditions⟩ := hrule.conditions
  have hroute := routeBase_of_routePath hbase
  rw [RuleMatches, ruleAsks_json, hconditions]
  simp only [List.cons_append, List.nil_append, List.forall_mem_cons, List.forall_mem_map]
  rw [Condition.json, (asksFor_route (Or.inl ⟨rfl, rfl⟩)).iff, Condition.json,
    (asksFor_route (Or.inr ⟨rfl, rfl⟩)).iff, hroute, hmethod]
  constructor
  · rintro ⟨hpath, hsame, hcomponents⟩
    refine ⟨⟨base, rfl, hpath⟩, by rw [hsame], fun id hid atom hatom hcarrier => ?_⟩
    obtain ⟨component, condition, hcomponent, hcondition⟩ := hbound id hid
    obtain ⟨own, hown⟩ := componentAtom_of_lookup hcarried hcomponent hcondition
    obtain rfl := (hown.only atom).mp hatom
    have hplain : isPathComponent component = false :=
      Bool.eq_false_iff.mpr fun hpath => hcarrier (hown.path.mpr hpath)
    refine ((asksFor_component hown.target).iff _).mp (hcomponents condition ?_)
    exact (mem_carriedConditions hbound).mpr ⟨id, hid, component, hcomponent, hplain, hcondition⟩
  · rintro ⟨⟨base', hbase', hpath⟩, hsame, hcomponents⟩
    obtain rfl := Option.some.inj hbase'
    refine ⟨hpath, (JsonValue.text.inj hsame).symm, fun condition hcondition => ?_⟩
    obtain ⟨id, hid, component, hcomponent, hplain, hlookup⟩ :=
      (mem_carriedConditions hbound).mp hcondition
    obtain ⟨own, hown⟩ := componentAtom_of_lookup hcarried hcomponent hlookup
    refine ((asksFor_component hown.target).iff _).mpr
      (hcomponents id hid own ((hown.only own).mpr rfl) fun hcarrier => ?_)
    rw [hown.path.mp hcarrier] at hplain
    cases hplain

/-- The alternative of an entry, in the document. -/
theorem members_of_boundAlternative {known : Components} {coverageKeys : List Str}
    {bound : JsonValue} {alternative : RouteAlternative} {rules : List Rule}
    (h : BoundAlternative s sourceId profileId known coverageKeys bound alternative rules) :
    ∃ members, bound = .object members ∧
      field members "alternative_id" = .text alternative.alternativeId ∧
      field members "component_ids" = .array (alternative.componentIds.map .text) ∧
      field members "route" = .object alternative.route := by
  obtain ⟨key, hreads⟩ := h.reads
  exact hreads.members

theorem variantsOf_ne_nil (payloads : List Str) : variantsOf payloads ≠ [] := by
  cases payloads with
  | nil => exact List.cons_ne_nil _ _
  | cons payload rest => exact List.cons_ne_nil _ _

/-- There is a variant a payload, or one without any. -/
theorem mem_variantsOf {payloads : List Str} {variant : Option Str} :
    variant ∈ variantsOf payloads ↔
      (∃ payload ∈ payloads, variant = some payload) ∨ (payloads = [] ∧ variant = none) := by
  cases payloads with
  | nil => simp [variantsOf]
  | cons payload rest =>
      simp only [variantsOf, List.isEmpty_cons, Bool.false_eq_true, if_false, List.mem_map,
        reduceCtorEq, false_and, or_false]
      exact ⟨fun ⟨p, hp, heq⟩ => ⟨p, hp, heq.symm⟩, fun ⟨p, hp, heq⟩ => ⟨p, hp, heq.symm⟩⟩

/-- An entry of the translated document with the alternative it comes from. -/
structure EntryOf (s : Services) (sourceId profileId : Str) (semantics : Members)
    (known : Components) (bound : Members) (entry : RouteAlternative × List Rule) : Prop where
  ids : field bound "component_ids" = .array (entry.1.componentIds.map .text)
  route : field bound "route" = .object entry.1.route
  identity : field bound "alternative_id" = .text entry.1.alternativeId
  found : ∀ id ∈ entry.1.componentIds, ∃ component condition,
    lookup known.semantic id = some component ∧ lookup known.conditions id = some condition
  rules : ∃ payloads, (∀ payload, payload ∈ payloads ↔ CarriesPayload s semantics bound payload) ∧
    List.Forall₂ (BoundRuleOf sourceId profileId known entry.1) (variantsOf payloads) entry.2

/-- A bound alternative is entered as its rule reads. -/
theorem entryOf_of_boundAlternative
    (hcarried : CarriedDocument s sourceId document semantics semantic table)
    (hinputs : Indexed (field semantics "test_inputs") "input_id" inputs)
    {coverageKeys : List Str} {bound : Members} {entry : RouteAlternative × List Rule}
    (h : BoundAlternative s sourceId profileId ⟨semantic, inputs, table⟩ coverageKeys
      (.object bound) entry.1 entry.2) :
    EntryOf s sourceId profileId semantics ⟨semantic, inputs, table⟩ bound entry := by
  obtain ⟨members, heq, hid, hids, hroute⟩ := members_of_boundAlternative h
  obtain rfl := JsonValue.object.inj heq
  obtain ⟨payloads, hpayloads, hrules⟩ := h.payloads
  refine ⟨hids, hroute, hid, h.bound, payloads, fun payload => ?_, hrules⟩
  rw [hpayloads]
  constructor
  · rintro ⟨id, hid, hbrings⟩
    refine ⟨id, entry.1.route, ?_, hroute, (brings_iff hcarried hinputs).mp hbrings⟩
    rw [hids]
    exact List.mem_map_of_mem hid
  · rintro ⟨id, route, hid, hroute', hbrings⟩
    rw [hids] at hid
    obtain ⟨name, hname, heq⟩ := List.mem_map.mp hid
    obtain rfl := JsonValue.text.inj heq
    obtain rfl := JsonValue.object.inj (hroute.symm.trans hroute')
    exact ⟨name, hname, (brings_iff hcarried hinputs).mpr hbrings⟩

variable {entries : List (RouteAlternative × List Rule)}

/-- Every route-bound alternative has its entry. -/
theorem exists_entry (hcarried : CarriedDocument s sourceId document semantics semantic table)
    (hentries : BoundEntries s sourceId profileId document semantics ⟨semantic, inputs, table⟩
      entries) {bound : Members}
    (hbound : .object bound ∈ arrayItems (field document "route_bound_alternatives")) :
    ∃ entry ∈ entries, EntryOf s sourceId profileId semantics ⟨semantic, inputs, table⟩ bound
      entry := by
  obtain ⟨coverageKeys, hall⟩ := hentries.bounds
  obtain ⟨entry, hentry, h⟩ := exists_right_of_forall₂ hall hbound
  exact ⟨entry, hentry, entryOf_of_boundAlternative hcarried hentries.inputs h⟩

/-- Every entry is that of a route-bound alternative. -/
theorem exists_bound (hcarried : CarriedDocument s sourceId document semantics semantic table)
    (hentries : BoundEntries s sourceId profileId document semantics ⟨semantic, inputs, table⟩
      entries) {entry : RouteAlternative × List Rule} (hentry : entry ∈ entries) :
    ∃ bound, .object bound ∈ arrayItems (field document "route_bound_alternatives") ∧
      EntryOf s sourceId profileId semantics ⟨semantic, inputs, table⟩ bound entry := by
  obtain ⟨coverageKeys, hall⟩ := hentries.bounds
  obtain ⟨value, hvalue, h⟩ := exists_left_of_forall₂ hall hentry
  obtain ⟨bound, rfl, -⟩ := members_of_boundAlternative h
  exact ⟨bound, hvalue, entryOf_of_boundAlternative hcarried hentries.inputs h⟩

/-- The rules of an entry carry its identity. -/
theorem EntryOf.represents {known : Components} {bound : Members}
    {entry : RouteAlternative × List Rule}
    (h : EntryOf s sourceId profileId semantics known bound entry)
    (hbound : .object bound ∈ arrayItems (field document "route_bound_alternatives")) {rule : Rule}
    (hrule : rule ∈ entry.2) : Represents document rule.json bound := by
  obtain ⟨payloads, -, hrules⟩ := h.rules
  obtain ⟨variant, -, hof⟩ := exists_left_of_forall₂ hrules hrule
  refine ⟨hbound, _, rfl, ?_⟩
  rw [h.identity, hof.identity]

/-- The alternative a rule represents is the one it was made from. -/
theorem entry_of_represents
    (hcarried : CarriedDocument s sourceId document semantics semantic table)
    (hentries : BoundEntries s sourceId profileId document semantics ⟨semantic, inputs, table⟩
      entries) {rule : Rule} (hrule : rule ∈ entries.flatMap (·.2)) {bound : Members}
    (hrepresents : Represents document rule.json bound) :
    ∃ entry ∈ entries, rule ∈ entry.2 ∧
      EntryOf s sourceId profileId semantics ⟨semantic, inputs, table⟩ bound entry := by
  obtain ⟨own, hown, hmem⟩ := List.mem_flatMap.mp hrule
  obtain ⟨ownBound, hownBound, howns⟩ := exists_bound hcarried hentries hown
  obtain ⟨entry, hentry, h⟩ := exists_entry hcarried hentries hrepresents.1
  obtain ⟨-, id, hruleId, hid⟩ := howns.represents hownBound hmem
  obtain ⟨-, _, hruleId', hid'⟩ := hrepresents
  obtain rfl := Option.some.inj (hruleId.symm.trans hruleId')
  have hsame : entry.1.alternativeId = own.1.alternativeId := by
    rw [h.identity] at hid'
    rw [howns.identity] at hid
    exact JsonValue.text.inj (hid'.trans hid.symm)
  obtain rfl := List.inj_on_of_nodup_map hentries.nodup hentry hown hsame
  exact ⟨entry, hentry, hmem, h⟩

/-- The paths an alternative renders are those of its rules. -/
theorem renderedAt_iff {bound : Members} {entry : RouteAlternative × List Rule}
    (hroute : field bound "route" = .object entry.1.route) {payloads : List Str}
    (hpayloads : ∀ payload, payload ∈ payloads ↔ CarriesPayload s semantics bound payload)
    {path : Str} :
    RenderedAt s semantics profileId bound path ↔
      ∃ variant ∈ variantsOf payloads, ∃ base, routeBase entry.1.route profileId = some base ∧
        path = renderedPath base variant := by
  have hnone : (¬ ∃ payload, CarriesPayload s semantics bound payload) ↔ payloads = [] := by
    rw [List.eq_nil_iff_forall_not_mem, not_exists]
    exact forall_congr' fun payload => not_congr (hpayloads payload).symm
  constructor
  · rintro ⟨route, base, hfound, hbase, hpath⟩
    obtain rfl := JsonValue.object.inj (hroute.symm.trans hfound)
    rcases hpath with ⟨payload, hcarries, rfl⟩ | ⟨hempty, rfl⟩
    · refine ⟨some payload, mem_variantsOf.mpr (Or.inl ⟨payload, ?_, rfl⟩), base, hbase, rfl⟩
      exact (hpayloads payload).mpr hcarries
    · exact ⟨none, mem_variantsOf.mpr (Or.inr ⟨hnone.mp hempty, rfl⟩), path, hbase, rfl⟩
  · rintro ⟨variant, hvariant, base, hbase, rfl⟩
    refine ⟨entry.1.route, base, hroute, hbase, ?_⟩
    rcases mem_variantsOf.mp hvariant with ⟨payload, hpayload, rfl⟩ | ⟨hempty, rfl⟩
    · exact Or.inl ⟨payload, (hpayloads payload).mp hpayload, rfl⟩
    · exact Or.inr ⟨hnone.mpr hempty, rfl⟩

theorem atomHolds_of_path {accepts : Atom → Str → Prop} {request : Request} {atom : Atom}
    (h : atom.carrier = .path) : AtomHolds accepts request atom ↔ accepts atom request.path := by
  rw [AtomHolds, h]

theorem atomHolds_of_method {accepts : Atom → Str → Prop} {request : Request} {atom : Atom}
    (h : atom.carrier = .method) :
    AtomHolds accepts request atom ↔ accepts atom request.method := by
  rw [AtomHolds, h]

/-- A request that leaves everything but the path to the rule satisfies its other atoms. -/
theorem atomHolds_of_free {accepts : Atom → Str → Prop} {method path : Str} {atom : Atom}
    (hpath : atom.carrier ≠ .path) (hmethod : atom.carrier = .method → accepts atom method) :
    AtomHolds accepts ⟨method, path, fun _ => True⟩ atom := by
  cases hcarrier : atom.carrier with
  | path => exact absurd hcarrier hpath
  | method => exact (atomHolds_of_method hcarrier).mpr (hmethod hcarrier)
  | _ =>
      rw [AtomHolds, hcarrier]
      trivial

/-- Where the rendered paths are accepted, a rule matches only what its alternative asks. -/
theorem narrow_of_pathsAccepted {accepts : Atom → Str → Prop}
    (hcarried : CarriedDocument s sourceId document semantics semantic table)
    (hentries : BoundEntries s sourceId profileId document semantics ⟨semantic, inputs, table⟩
      entries) (haccepted : PathsAccepted s accepts semantics profileId document) {rule : Rule}
    (hrule : rule ∈ entries.flatMap (·.2)) {bound : Members}
    (hrepresents : Represents document rule.json bound) {request : Request}
    (hmatches : RuleMatches accepts request rule.json) :
    OnRoute s semantics profileId bound request ∧
      ∀ id ∈ arrayItems (field bound "component_ids"),
        ComponentHolds (AtomHolds accepts request) document id := by
  obtain ⟨entry, -, hmem, hentry⟩ := entry_of_represents hcarried hentries hrule hrepresents
  obtain ⟨payloads, hpayloads, hrules⟩ := hentry.rules
  obtain ⟨variant, hvariant, hof⟩ := exists_left_of_forall₂ hrules hmem
  obtain ⟨⟨base, hbase, hpath⟩, hmethod, hcomponents⟩ :=
    (ruleMatches_iff accepts hcarried hentry.found hof request).mp hmatches
  have hrendered :=
    (renderedAt_iff hentry.route hpayloads).mpr ⟨variant, hvariant, base, hbase, rfl⟩
  have hother : ∀ id ∈ arrayItems (field bound "component_ids"), ∀ atom, HasAtom document id atom →
      atom.carrier ≠ .path → AtomHolds accepts request atom := by
    intro id hid atom hatom hcarrier
    rw [hentry.ids] at hid
    obtain ⟨name, hname, rfl⟩ := List.mem_map.mp hid
    exact hcomponents name hname atom hatom hcarrier
  refine ⟨⟨entry.1.route, base, hentry.route, hmethod, hbase, ?_⟩, fun id hid => ?_⟩
  · rcases mem_variantsOf.mp hvariant with ⟨payload, hpayload, rfl⟩ | ⟨-, rfl⟩
    · exact Or.inr ⟨payload, (hpayloads payload).mp hpayload, hpath⟩
    · exact Or.inl hpath
  · have hlisted := hid
    rw [hentry.ids] at hlisted
    obtain ⟨name, hname, rfl⟩ := List.mem_map.mp hlisted
    obtain ⟨component, condition, hcomponent, hcondition⟩ := hentry.found name hname
    obtain ⟨atom, hatom⟩ := componentAtom_of_lookup hcarried hcomponent hcondition
    have hhas := (hatom.only atom).mpr rfl
    refine ⟨atom, hhas, ?_⟩
    by_cases hcarrier : atom.carrier = .path
    · rw [atomHolds_of_path hcarrier, hpath]
      refine haccepted bound hrepresents.1 entry.1.route request.method _ hentry.route hmethod
        hrendered (fun other hother' found hfound hmethods => ?_) (.text name) hid atom hhas
        hcarrier
      have hne : found.carrier ≠ .path := by
        rw [hmethods]
        decide
      exact (atomHolds_of_method hmethods).mp (hother other hother' found hfound hne)
    · exact hother (.text name) hid atom hhas hcarrier

/-- Where rules only narrow, the rendered paths are accepted. -/
theorem pathsAccepted_of_narrow {accepts : Atom → Str → Prop}
    (hcarried : CarriedDocument s sourceId document semantics semantic table)
    (hentries : BoundEntries s sourceId profileId document semantics ⟨semantic, inputs, table⟩
      entries)
    (hnarrow : ∀ rule ∈ (entries.flatMap (·.2)).map Rule.json, ∀ bound,
      Represents document rule bound → ∀ request, RuleMatches accepts request rule →
        OnRoute s semantics profileId bound request ∧
        ∀ id ∈ arrayItems (field bound "component_ids"),
          ComponentHolds (AtomHolds accepts request) document id) :
    PathsAccepted s accepts semantics profileId document := by
  intro bound hbound route method path hroute hmethod hrendered hmethods id hid atom hatom hcarrier
  obtain ⟨entry, hin, hentry⟩ := exists_entry hcarried hentries hbound
  obtain rfl := JsonValue.object.inj (hentry.route.symm.trans hroute)
  obtain ⟨payloads, hpayloads, hrules⟩ := hentry.rules
  obtain ⟨variant, hvariant, base, hbase, hpath⟩ :=
    (renderedAt_iff hentry.route hpayloads).mp hrendered
  obtain ⟨rule, hmem, hof⟩ := exists_right_of_forall₂ hrules hvariant
  have hmatches : RuleMatches accepts ⟨method, path, fun _ => True⟩ rule.json := by
    refine (ruleMatches_iff accepts hcarried hentry.found hof _).mpr
      ⟨⟨base, hbase, hpath⟩, hmethod, fun name hname other hother hplain => ?_⟩
    refine atomHolds_of_free hplain fun hcarries => hmethods (.text name) ?_ other hother hcarries
    rw [hentry.ids]
    exact List.mem_map_of_mem hname
  obtain ⟨-, hholds⟩ := hnarrow rule.json
    (List.mem_map_of_mem (List.mem_flatMap.mpr ⟨entry, hin, hmem⟩)) bound
    (hentry.represents hbound hmem) _ hmatches
  obtain ⟨own, hown, htruth⟩ := hholds id hid
  have hlisted := hid
  rw [hentry.ids] at hlisted
  obtain ⟨name, hname, rfl⟩ := List.mem_map.mp hlisted
  obtain ⟨component, condition, hcomponent, hcondition⟩ := hentry.found name hname
  obtain ⟨only, honly⟩ := componentAtom_of_lookup hcarried hcomponent hcondition
  obtain rfl := (honly.only atom).mp hatom
  obtain rfl := (honly.only own).mp hown
  exact (atomHolds_of_path hcarrier).mp htruth

/-- Every coverage alternative has a rule. -/
theorem represented_of_entries (hrfc : ResultReader.Canonical s.rfc8785)
    (hcarried : CarriedDocument s sourceId document semantics semantic table)
    (hentries : BoundEntries s sourceId profileId document semantics ⟨semantic, inputs, table⟩
      entries) :
    ∀ alternative ∈ arrayItems (field document "coverage_alternatives"),
      ∃ rule ∈ (entries.flatMap (·.2)).map Rule.json, ∃ bound, Represents document rule bound ∧
        field bound "component_ids" = alternative := by
  intro alternative halternative
  obtain ⟨entry, hentry, key, hkey, hids⟩ := hentries.covers alternative halternative
  obtain ⟨bound, hbound, hof⟩ := exists_bound hcarried hentries hentry
  obtain ⟨payloads, -, hrules⟩ := hof.rules
  obtain ⟨variant, rest, hvariants⟩ := List.exists_cons_of_ne_nil (variantsOf_ne_nil payloads)
  obtain ⟨rule, hrule, -⟩ := exists_right_of_forall₂ hrules
    (show variant ∈ variantsOf payloads by rw [hvariants]; exact List.mem_cons_self)
  refine ⟨rule.json, List.mem_map_of_mem (List.mem_flatMap.mpr ⟨entry, hentry, hrule⟩), bound,
    hof.represents hbound hrule, ?_⟩
  rw [hof.ids, eq_texts_of_canonicalText hrfc hkey hids]

/-- The rules of a route-bound document only narrow where its rendered paths are accepted. -/
theorem onlyNarrows_iff {accepts : Atom → Str → Prop} (hrfc : ResultReader.Canonical s.rfc8785)
    (hcarried : CarriedDocument s sourceId document semantics semantic table)
    (hentries : BoundEntries s sourceId profileId document semantics ⟨semantic, inputs, table⟩
      entries) :
    OnlyNarrows s accepts semantics profileId document
        ((entries.flatMap (·.2)).map Rule.json) ↔
      PathsAccepted s accepts semantics profileId document := by
  constructor
  · intro h
    exact pathsAccepted_of_narrow hcarried hentries h.narrow
  · intro haccepted
    refine ⟨?_, ?_, represented_of_entries hrfc hcarried hentries⟩
    · intro rule hrule
      obtain ⟨own, hown, rfl⟩ := List.mem_map.mp hrule
      obtain ⟨entry, hentry, hmem⟩ := List.mem_flatMap.mp hown
      obtain ⟨bound, hbound, hof⟩ := exists_bound hcarried hentries hentry
      exact ⟨bound, hof.represents hbound hmem⟩
    · intro rule hrule bound hrepresents request hmatches
      obtain ⟨own, hown, rfl⟩ := List.mem_map.mp hrule
      exact narrow_of_pathsAccepted hcarried hentries haccepted hown hrepresents hmatches

end Documents

/-- The rules planned for a route-bound document, and when they only narrow. -/
theorem onlyNarrows_iff_of_plan {s : Services} (hrfc : ResultReader.Canonical s.rfc8785)
    (accepts : Atom → Str → Prop) {verified : VerifiedSharedContractV2} {targetTechnology : Str}
    {plan : WafTranslationPlan}
    (hplan : buildWafTranslationPlan s verified targetTechnology = .ok plan) {id : Str}
    (hid : id ∈ sourceIds verified) {document : Members}
    (hdocument : IsDocument s verified id document) (hrules : hasField document "rules" = true)
    (hplacement : RouteBound document) :
    ∃ rules, plannedRules s verified = .ok rules ∧
      canonicalText s (ruleSetJson rules) = .ok plan.primaryCandidateContent ∧
      (OnlyNarrows s accepts verified.semantics verified.profileId document
          (listedFrom id (ruleSetJson rules)) ↔
        PathsAccepted s accepts verified.semantics verified.profileId document) := by
  obtain ⟨rules, targetId, hbuilt⟩ := buildWafTranslationPlan_eq_ok hplan
  refine ⟨rules, hbuilt.planned, hbuilt.content, ?_⟩
  obtain ⟨contribution, hsource, hfrom⟩ := hbuilt.emitted.source id hid
  obtain ⟨own, hcontributes⟩ := translateSource_eq_ok hsource
  obtain rfl := hcontributes.decodes.unique hdocument
  rcases hcontributes.cases with ⟨-, -, translated, htranslated, hlist⟩ | ⟨hnone, -⟩
  · obtain ⟨semantic, table, hcarried, -, ⟨hindependent, -⟩ | ⟨-, hbound⟩⟩ :=
      translateRuleDocument_eq_ok htranslated
    · exact absurd hplacement (not_routeBound_of_independent hindependent)
    · obtain ⟨inputs, entries, hentries, hall⟩ := routeBoundRules_eq_ok hbound
      rw [listedFrom_ruleSetJson, hfrom, hlist, hall]
      exact onlyNarrows_iff hrfc hcarried hentries
  · rw [hrules] at hnone
    cases hnone

/-- **Route-bound plans only narrow to the route exactly where the rendered paths are
accepted.**  Nothing checks a payload against the patterns it replaces. -/
theorem routeBound_onlyNarrows_iff {s : Services} (hrfc : ResultReader.Canonical s.rfc8785)
    (accepts : Atom → Str → Prop) {verified : VerifiedSharedContractV2} {targetTechnology : Str}
    {plan : WafTranslationPlan}
    (hplan : buildWafTranslationPlan s verified targetTechnology = .ok plan) {id : Str}
    (hid : id ∈ sourceIds verified) {document : Members}
    (hdocument : IsDocument s verified id document) (hrules : hasField document "rules" = true)
    (hplacement : RouteBound document) :
    ∃ rules, plannedRules s verified = .ok rules ∧
      canonicalText s (ruleSetJson rules) = .ok plan.primaryCandidateContent ∧
      (OnlyNarrows s accepts verified.semantics verified.profileId document
          (listedFrom id (ruleSetJson rules)) ↔
        PathsAccepted s accepts verified.semantics verified.profileId document) :=
  onlyNarrows_iff_of_plan hrfc accepts hplan hid hdocument hrules hplacement

/-- Whether an anchored pattern without other operators accepts a value. -/
def anchoredAccepts (atom : Atom) (value : Str) : Prop := atom.pattern = ['^'] ++ value ++ ['$']

/-- A component carried by the path. -/
def pathComponent : Members := record
  [("component_id", word "component:path"), ("description", word "A path segment."),
    ("location", .object (record [("kind", word "http-path")])),
    ("input_refs", .array [typedRef "test-input" "semantics:1" "input:1"])]

/-- A test input whose path payload is `alpha`. -/
def alphaInput : Members := record
  [("input_id", word "input:1"),
    ("input", .object (record
      [("modality", word "http-request-template"), ("method", word "POST"),
        ("path_key", word "public/submit.php"), ("path_payload", word "alpha")]))]

/-- A component in the path, whose one input carries a payload. -/
def alphaSemantics : Members := record
  [("components", .array [.object pathComponent]), ("test_inputs", .array [.object alphaInput]),
    ("obligations", .array [.object (record [("obligation_id", word "obligation:1")])])]

/-- The route of the sample. -/
def submitRoute : Members := record
  [("kind", word "opaque-path-key"), ("method", word "POST"),
    ("path_key", word "public/submit.php")]

/-- The one alternative, bound to that route. -/
def submitAlternative : Members := record
  [("alternative_id", word "alternative:1"), ("component_ids", .array [word "component:path"]),
    ("component_bindings", .array [.object (record
      [("component_id", word "component:path"),
        ("input_refs", .array [typedRef "test-input" "semantics:1" "input:1"])])]),
    ("route", .object submitRoute)]

/-- The pattern of the component is not that of its payload. -/
def adminRule : Members := record
  [("rule_id", word "rule:path"), ("component_id", word "component:path"),
    ("carrier", word "path"), ("name", word ""), ("pattern", word "^/admin$"),
    ("flags", .array []), ("transformations", .array [])]

/-- A rule set whose pattern does not match that payload. -/
def adminRules : Members := record
  [("rule_set_id", word "rules:1"), ("action", word "block"),
    ("placement_mode", word "route-bound-v1"),
    ("coverage_alternatives", .array [.array [word "component:path"]]),
    ("route_bound_alternatives", .array [.object submitAlternative]),
    ("rules", .array [.object adminRule])]

/-- The bindings of its carriers. -/
def pathBindings : Members := record
  [("rule_set_id", word "rules:1"),
    ("carrier_bindings", .array [.object (record
      [("carrier", word "path"), ("name", word ""), ("component_id", word "component:path")])]),
    ("claim_rule", word "Coverage is limited to the named carriers.")]

/-- The rule emitted for the sample. -/
def alphaRule : Rule where
  name := "janus-rules:1-0".toList
  description := "One route-bound Boolean alternative from a verified DG WAF rule set."
  conditions := [.route ⟨"pathMatch", "/public/submit.php/alpha".toList, submitRoute,
      [{ type := "pathMatch"
         valueCase := true
         value := "^/admin$".toList
         sourceRuleId := "rule:path".toList
         sourceComponentId := "component:path".toList
         sourceCarrier := .path
         sourceSelector := []
         sourceLocationKind := word "http-path"
         transformations := []
         sourceSelectorType := .null
         header := none
         parameter := none
         cookieName := none }]⟩,
    .route ⟨"requestMethodMatch", "POST".toList, submitRoute, []⟩]
  sourceArtifactId := "artifact:main".toList
  sourceRuleSetId := word "rules:1"
  sourceAlternativeId := "alternative:1".toList
  sourceAction := word "block"
  fastLoopNegativeMaterials := .array []

/-- Services that answer what planning the sample asks. -/
def alphaServices : Services :=
  sampleServices [adminRules, pathBindings] [alphaRule]
    "a1f96a953766c55d9f7ed2fcf1ca9970c238fb6473eb70c3695dfdb58d7d6db4"

/-- The verified join of the sample. -/
def alphaJoin : VerifiedSharedContractV2 :=
  sampleJoin alphaSemantics adminRules pathBindings "artifact:main"

theorem alphaServices_canonical : ResultReader.Canonical alphaServices.rfc8785 := by
  intro value text h
  change sortedText value = some text at h
  unfold sortedText at h
  by_cases hfinite : finite (GoJson.goNestedValue .leaf value) = true
  · rw [if_pos hfinite] at h
    exact ⟨_, GoJson.same_goNestedValue value, hfinite, (Option.some.inj h).symm⟩
  · rw [if_neg hfinite] at h
    cases h

theorem alphaPlan_isOk :
    (buildWafTranslationPlan alphaServices alphaJoin "akamai-waf".toList).isOk = true := by
  decide +kernel

theorem main_mem_sourceIds : "artifact:main".toList ∈ sourceIds alphaJoin := by
  change "artifact:main".toList ∈ ["artifact:main".toList, "artifact:carriers".toList]
  exact List.mem_cons_self

theorem alphaJoin_document {plan : WafTranslationPlan}
    (hplan : buildWafTranslationPlan alphaServices alphaJoin "akamai-waf".toList = .ok plan) :
    IsDocument alphaServices alphaJoin "artifact:main".toList adminRules := by
  obtain ⟨rules, targetId, hbuilt⟩ := buildWafTranslationPlan_eq_ok hplan
  obtain ⟨contribution, hsource, -⟩ := hbuilt.emitted.source _ main_mem_sourceIds
  obtain ⟨document, hcontributes⟩ := translateSource_eq_ok hsource
  have hwritten : (sortedText (.object adminRules)).isSome = true := by decide +kernel
  rw [← document_of_sampleJoin hwritten hcontributes.decodes]
  exact hcontributes.decodes

/-- The plan of the sample only narrows exactly when its paths are accepted. -/
theorem routeBound_onlyNarrows_iff_admin :
    ∃ plan rules,
      buildWafTranslationPlan alphaServices alphaJoin "akamai-waf".toList = .ok plan ∧
      plannedRules alphaServices alphaJoin = .ok rules ∧
      (OnlyNarrows alphaServices anchoredAccepts alphaSemantics ctProfileId.toList adminRules
          (listedFrom "artifact:main".toList (ruleSetJson rules)) ↔
        PathsAccepted alphaServices anchoredAccepts alphaSemantics ctProfileId.toList
          adminRules) := by
  obtain ⟨plan, hplan⟩ := ok_of_isOk alphaPlan_isOk
  obtain ⟨rules, hrules, -, hiff⟩ := routeBound_onlyNarrows_iff alphaServices_canonical
    anchoredAccepts hplan main_mem_sourceIds (alphaJoin_document hplan) rfl rfl
  exact ⟨plan, rules, hplan, hrules, hiff⟩

/-- The one rule asks for the pattern that its document lists. -/
theorem hasAtom_admin {componentId : JsonValue} {atom : Atom}
    (h : HasAtom adminRules componentId atom) :
    atom = ⟨.path, [], "^/admin$".toList, [], []⟩ := by
  obtain ⟨rule, hrule, -, hatom⟩ := h
  change JsonValue.object rule ∈ [JsonValue.object adminRule] at hrule
  obtain rfl := JsonValue.object.inj (List.mem_singleton.mp hrule)
  exact (Option.some.inj hatom).symm

theorem not_pathsAccepted_admin :
    ¬ PathsAccepted alphaServices anchoredAccepts alphaSemantics ctProfileId.toList
      adminRules := by
  intro h
  have hcarries : CarriesPayload alphaServices alphaSemantics submitAlternative
      "alpha".toList := by
    refine ⟨"component:path".toList, submitRoute, List.mem_cons_self, rfl, pathComponent, _,
      "input:1".toList, alphaInput, ⟨List.mem_cons_self, rfl⟩, rfl, List.mem_cons_self, rfl,
      ⟨List.mem_cons_self, rfl⟩, ⟨submitRoute, rfl, rfl⟩, rfl⟩
  have haccepts := h submitAlternative List.mem_cons_self submitRoute "POST".toList
    (renderedPath "/public/submit.php".toList (some "alpha".toList)) rfl rfl
    ⟨submitRoute, "/public/submit.php".toList, rfl, by decide +kernel,
      Or.inl ⟨"alpha".toList, hcarries, rfl⟩⟩
    (fun _ _ atom hatom hmethod => by
      rw [hasAtom_admin hatom] at hmethod
      cases hmethod)
    (word "component:path") List.mem_cons_self ⟨.path, [], "^/admin$".toList, [], []⟩
    ⟨adminRule, List.mem_cons_self, rfl, rfl⟩ rfl
  exact absurd haccepts (by unfold anchoredAccepts; decide +kernel)

/-- A path that is rendered is not checked against the pattern of its component. -/
theorem rendered_path_unchecked :
    ¬ ∀ (s : Services) (accepts : Atom → Str → Prop) (verified : VerifiedSharedContractV2)
      (targetTechnology : Str) (plan : WafTranslationPlan) (id : Str) (document : Members)
      (rules : List Rule), ResultReader.Canonical s.rfc8785 →
      buildWafTranslationPlan s verified targetTechnology = .ok plan →
      id ∈ sourceIds verified → IsDocument s verified id document →
      hasField document "rules" = true → RouteBound document →
      plannedRules s verified = .ok rules →
      OnlyNarrows s accepts verified.semantics verified.profileId document
        (listedFrom id (ruleSetJson rules)) := by
  intro h
  obtain ⟨plan, hplan⟩ := ok_of_isOk alphaPlan_isOk
  obtain ⟨rules, hrules, -, hiff⟩ := onlyNarrows_iff_of_plan alphaServices_canonical
    anchoredAccepts hplan main_mem_sourceIds (alphaJoin_document hplan) rfl rfl
  apply not_pathsAccepted_admin
  exact hiff.mp (h alphaServices anchoredAccepts alphaJoin "akamai-waf".toList plan _ adminRules
    rules alphaServices_canonical hplan main_mem_sourceIds (alphaJoin_document hplan) rfl rfl
    hrules)

end SharedContracts
