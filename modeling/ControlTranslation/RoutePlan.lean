import ControlTranslation.PlanPreservation

/-!
# Route-bound rules

A route-bound alternative becomes one rule for each payload its path-carried
components bring, or one rule where they bring none.  Every rule asks for the
exact path and the exact method and conjoins the conditions of the components
that are not carried in the path.
-/

namespace SharedContracts

open PyText JsonValue Alternatives

/-- An item of a collection, under its identity. -/
def Listed (items : JsonValue) (key : String) (id : Str) (members : Members) : Prop :=
  .object members ∈ arrayItems items ∧ field members key = .text id

theorem Indexed.lookup_iff {items : JsonValue} {key : String} {table : Table Members}
    (h : Indexed items key table) {id : Str} {members : Members} :
    lookup table id = some members ↔ Listed items key id members := by
  rw [Listed, h.items]
  constructor
  · intro hlookup
    exact ⟨List.mem_map.mpr ⟨_, mem_of_lookup hlookup, rfl⟩, (h.field_of_lookup hlookup).1⟩
  · rintro ⟨hmem, hid⟩
    obtain ⟨entry, hentry, heq⟩ := List.mem_map.mp hmem
    obtain rfl := JsonValue.object.inj heq
    have hsame : entry.1 = id := JsonValue.text.inj ((h.identity entry hentry).1.symm.trans hid)
    rw [← hsame]
    exact h.lookup_identity hentry

/-- An input takes a route. -/
def TakesRoute (s : Services) (route input : Members) : Prop :=
  ∃ taken, sourceInputRoute input = some taken ∧
    equal s (.object taken) (.object route) = true

/-- An input that a list of references names and that takes a route. -/
def Referenced (s : Services) (inputs : Table Members) (route : Members) (refs : List JsonValue)
    (input : Members) : Prop :=
  ∃ ref id, .object ref ∈ refs ∧ field ref "id" = .text id ∧ lookup inputs id = some input ∧
    TakesRoute s route input

/-- Every reference of a route is to a test input of that route. -/
theorem expectedRefs_eq_ok {s : Services} {inputs : Table Members} {route : Members}
    {refs : List JsonValue} :
    ∀ {expected : List (JsonValue × Members)}, expectedRefs s inputs route refs = .ok expected →
      (∀ ref ∈ refs, ∃ members, ref = .object members) ∧
      ∀ input, input ∈ expected.map (·.2) ↔ Referenced s inputs route refs input := by
  induction refs with
  | nil =>
      intro expected h
      obtain rfl := Except.ok.inj h
      refine ⟨fun _ hnil => absurd hnil List.not_mem_nil, fun input => ?_⟩
      simp [Referenced]
  | cons first rest ih =>
      intro expected h
      cases first with
      | object ref =>
          simp only [expectedRefs, bind_eq_ok] at h
          obtain ⟨id, hid, others, hothers, h⟩ := h
          obtain rfl := eq_of_hashed hid
          obtain ⟨hobjects, hmem⟩ := ih hothers
          refine ⟨?_, fun input => ?_⟩
          · intro r hr
            rcases List.mem_cons.mp hr with rfl | hr
            · exact ⟨ref, rfl⟩
            · exact hobjects r hr
          · have hrest : Referenced s inputs route (.object ref :: rest) input ↔
                ((field ref "id").asText.bind (lookup inputs) = some input ∧
                  TakesRoute s route input) ∨ Referenced s inputs route rest input := by
              constructor
              · rintro ⟨r, i, hr, hi, hlookup, htakes⟩
                rcases List.mem_cons.mp hr with heq | hr
                · obtain rfl := JsonValue.object.inj heq
                  rw [hi]
                  exact Or.inl ⟨hlookup, htakes⟩
                · exact Or.inr ⟨r, i, hr, hi, hlookup, htakes⟩
              · rintro (⟨hlookup, htakes⟩ | ⟨r, i, hr, hi, hlookup, htakes⟩)
                · obtain ⟨i, hi, hlookup⟩ := Option.bind_eq_some_iff.mp hlookup
                  exact ⟨ref, i, List.mem_cons_self, asText_eq_some.mp hi, hlookup, htakes⟩
                · exact ⟨r, i, List.mem_cons_of_mem _ hr, hi, hlookup, htakes⟩
            rw [hrest, ← hmem]
            have htakes : ∀ found : Members, (sourceInputRoute found).any
                (fun taken => equal s (.object taken) (.object route)) = true ↔
                  TakesRoute s route found := by
              intro found
              cases hroute : sourceInputRoute found with
              | none => simp [TakesRoute, hroute]
              | some taken => simp [TakesRoute, hroute]
            split at h
            · rename_i found hfound
              obtain rfl := pure_eq_ok.mp h
              obtain ⟨hlookup, htaken⟩ := Option.filter_eq_some_iff.mp hfound
              rw [List.map_cons, List.mem_cons, hlookup]
              constructor
              · rintro (rfl | hin)
                · exact Or.inl ⟨rfl, (htakes _).mp htaken⟩
                · exact Or.inr hin
              · rintro (⟨heq, -⟩ | hin)
                · exact Or.inl (Option.some.inj heq).symm
                · exact Or.inr hin
            · rename_i hnone
              obtain rfl := pure_eq_ok.mp h
              constructor
              · exact Or.inr
              · rintro (⟨hlookup, htaken⟩ | hin)
                · rw [hlookup, Option.filter_eq_none_iff] at hnone
                  exact absurd ((htakes input).mpr htaken) (hnone input rfl)
                · exact hin
      | _ => cases h

/-- Gathering adds the payloads of the inputs. -/
theorem gatherPayloads_eq_ok {route : Members} {inputs : List Members} :
    ∀ {before after : List Str}, gatherPayloads route before inputs = .ok after →
      ∀ payload, payload ∈ after ↔
        payload ∈ before ∨ ∃ input ∈ inputs, pathPayload input = .text payload := by
  induction inputs with
  | nil =>
      intro before after h payload
      obtain rfl := Except.ok.inj h
      simp
  | cons input rest ih =>
      intro before after h payload
      simp only [gatherPayloads, bind_eq_ok] at h
      obtain ⟨_, -, h⟩ := h
      rw [List.exists_mem_cons_iff]
      split at h
      · rename_i found hfound
        rw [ih h, asText_eq_some.mp hfound]
        have hadded : payload ∈ (if before.contains found then before else before ++ [found]) ↔
            payload ∈ before ∨ JsonValue.text found = .text payload := by
          split
          · rename_i hmem
            constructor
            · exact Or.inl
            · rintro (hin | heq)
              · exact hin
              · rw [← JsonValue.text.inj heq]
                simpa using hmem
          · rw [List.mem_append, List.mem_singleton, JsonValue.text.injEq, eq_comm (a := found)]
        rw [hadded, or_assoc]
      · rename_i hnone
        rw [ih h]
        have hnot : pathPayload input ≠ .text payload := by
          intro heq
          rw [heq] at hnone
          cases hnone
        simp [hnot]

/-- A component of an alternative brings a payload: it is carried in the path, and an input
it names takes the route with the payload. -/
def Brings (s : Services) (known : Components) (route : Members) (id payload : Str) : Prop :=
  ∃ component input, lookup known.semantic id = some component ∧
    isPathComponent component = true ∧
    Referenced s known.inputs route (arrayItems (field component "input_refs")) input ∧
    pathPayload input = .text payload

/-- What binding the components of an alternative establishes. -/
theorem bindComponents_eq_ok {s : Services} {known : Components} {alternative : RouteAlternative}
    {ids : List Str} :
    ∀ {before after : List Str}, bindComponents s known alternative before ids = .ok after →
      (∀ id ∈ ids, ∃ component condition, lookup known.semantic id = some component ∧
        lookup known.conditions id = some condition) ∧
      ∀ payload, payload ∈ after ↔
        payload ∈ before ∨ ∃ id ∈ ids, Brings s known alternative.route id payload := by
  induction ids with
  | nil =>
      intro before after h
      obtain rfl := Except.ok.inj h
      exact ⟨fun _ hnil => absurd hnil List.not_mem_nil, fun payload => by simp⟩
  | cons id rest ih =>
      intro before after h
      simp only [bindComponents] at h
      split at h
      · rename_i component condition hcomponent hcondition
        simp only [bind_eq_ok] at h
        obtain ⟨items, hitems, refs, hrefs, expected, hexpected, _, -, _, -, added, hadded, h⟩ := h
        obtain ⟨hobjects, hmem⟩ := expectedRefs_eq_ok hexpected
        obtain ⟨hothers, hpayloads⟩ := ih h
        have hlisted : refs = arrayItems (field component "input_refs") := by
          rw [(need_eq_ok.mp hitems).2]
          exact iterate_eq_arrayItems hrefs hobjects
        refine ⟨?_, fun payload => ?_⟩
        · intro other hother
          rcases List.mem_cons.mp hother with rfl | hother
          · exact ⟨component, condition, hcomponent, hcondition⟩
          · exact hothers other hother
        · have hfirst : payload ∈ added ↔
              payload ∈ before ∨ Brings s known alternative.route id payload := by
            unfold addPayloads at hadded
            split at hadded
            · rename_i hpath
              rw [gatherPayloads_eq_ok hadded]
              constructor
              · rintro (hin | ⟨input, hinput, hpayload⟩)
                · exact Or.inl hin
                · rw [hmem, hlisted] at hinput
                  exact Or.inr ⟨component, input, hcomponent, hpath, hinput, hpayload⟩
              · rintro (hin | ⟨found, input, hfound, -, hinput, hpayload⟩)
                · exact Or.inl hin
                · obtain rfl := Option.some.inj (hcomponent.symm.trans hfound)
                  rw [← hlisted, ← hmem] at hinput
                  exact Or.inr ⟨input, hinput, hpayload⟩
            · rename_i hpath
              obtain rfl := Except.ok.inj hadded
              constructor
              · exact Or.inl
              · rintro (hin | ⟨found, input, hfound, hpath', -⟩)
                · exact hin
                · obtain rfl := Option.some.inj (hcomponent.symm.trans hfound)
                  exact absurd hpath' hpath
          rw [hpayloads, hfirst, List.exists_mem_cons_iff, or_assoc]
      · cases h

/-- What reading a route-bound alternative establishes. -/
structure ReadsAlternative (s : Services) (coverageKeys : List Str) (bound : JsonValue)
    (alternative : RouteAlternative) (key : Str) : Prop where
  members : ∃ members, bound = .object members ∧
    field members "alternative_id" = .text alternative.alternativeId ∧
    field members "component_ids" = .array (alternative.componentIds.map .text) ∧
    field members "route" = .object alternative.route
  canonical : canonicalText s (.array (alternative.componentIds.map .text)) = .ok key
  covered : key ∈ coverageKeys

/-- An alternative that is read reads as its members say. -/
theorem readAlternative_eq_ok {s : Services} {coverageKeys seen : List Str} {bound : JsonValue}
    {alternative : RouteAlternative} {key : Str}
    (h : readAlternative s coverageKeys seen bound = .ok (alternative, key)) :
    ReadsAlternative s coverageKeys bound alternative key ∧ alternative.alternativeId ∉ seen := by
  cases bound with
  | object members =>
      simp only [readAlternative, bind_eq_ok, raiseIf_eq_ok] at h
      obtain ⟨_, hshape, canonical, hcanonical, _, hcovered, bindings, -, _, -, h⟩ := h
      simp only [List.forall_mem_cons, Option.some.injEq, Bool.not_eq_false'] at hshape hcovered
      obtain ⟨hid, hfresh, hids, -⟩ := hshape
      obtain ⟨hkey, hroute, -⟩ := hcovered
      cases halternativeId : field members "alternative_id" with
      | text alternativeId =>
          cases hcomponentIds : field members "component_ids" with
          | array items =>
              cases hrouteObject : field members "route" with
              | object route =>
                  rw [halternativeId] at h hfresh
                  rw [hcomponentIds] at h hcanonical
                  rw [hrouteObject] at h
                  simp only [asArray, Option.getD_some] at h
                  split at h
                  · rename_i ids hitems
                    obtain ⟨rfl, rfl⟩ := Prod.mk.inj (pure_eq_ok.mp h)
                    rw [mapM_asText hitems] at hcanonical hcomponentIds
                    refine ⟨⟨⟨members, rfl, ?_, hcomponentIds, hrouteObject⟩, hcanonical, ?_⟩, ?_⟩
                    · exact halternativeId
                    · simpa using hkey
                    · simpa [asText] using hfresh
                  · cases h
              | _ =>
                  rw [hrouteObject] at hroute
                  cases hroute
          | _ =>
              rw [hcomponentIds] at hids
              cases hids
      | _ =>
          rw [halternativeId] at hid
          cases hid
  | _ => cases h

/-- The rule of an alternative for one payload. -/
structure BoundRuleOf (sourceId profileId : Str) (known : Components)
    (alternative : RouteAlternative) (payload : Option Str) (rule : Rule) : Prop where
  source : rule.sourceArtifactId = sourceId
  identity : rule.sourceAlternativeId = alternative.alternativeId
  conditions : ∃ path method,
    routePath alternative.route profileId alternative.alternativeId = .ok (.text path) ∧
    field alternative.route "method" = .text method ∧
    rule.conditions =
      [.route ⟨"pathMatch", renderedPath path payload, alternative.route,
          carriedConditions known alternative true⟩,
        .route ⟨"requestMethodMatch", method, alternative.route, []⟩] ++
        (carriedConditions known alternative false).map .component

theorem resolvedRouteConditions_eq_ok {route : Members} {profileId alternativeId : Str}
    {payload : Option Str} {conditions : RouteCondition × RouteCondition}
    (h : resolvedRouteConditions route profileId alternativeId payload = .ok conditions) :
    ∃ path method, routePath route profileId alternativeId = .ok (.text path) ∧
      field route "method" = .text method ∧
      conditions = (⟨"pathMatch", renderedPath path payload, route, []⟩,
        ⟨"requestMethodMatch", method, route, []⟩) := by
  obtain ⟨value, hvalue, h⟩ := bind_eq_ok.mp h
  split at h
  · rename_i path method hpath hmethod
    have hfound := (asNonemptyText_eq_some hpath).1
    rw [hfound] at hvalue
    exact ⟨path, method, hvalue, (asNonemptyText_eq_some hmethod).1, (Except.ok.inj h).symm⟩
  · cases h

/-- The rule of one variant of a bound alternative. -/
theorem boundRule_eq_ok {s : Services} {document : Members} {sourceId profileId : Str}
    {known : Components} {alternative : RouteAlternative} {position : Nat} {payload : Option Str}
    {rule : Rule}
    (h : boundRule s document sourceId profileId known alternative position payload = .ok rule) :
    BoundRuleOf sourceId profileId known alternative payload rule := by
  simp only [boundRule, bind_eq_ok] at h
  obtain ⟨conditions, hconditions, h⟩ := h
  obtain ⟨path, method, hpath, hmethod, rfl⟩ := resolvedRouteConditions_eq_ok hconditions
  obtain rfl := pure_eq_ok.mp h
  exact ⟨rfl, rfl, path, method, hpath, hmethod, rfl⟩

theorem boundVariants_eq_ok {s : Services} {document : Members} {sourceId profileId : Str}
    {known : Components} {alternative : RouteAlternative} {several : Bool}
    {payloads : List (Option Str)} :
    ∀ {position variant : Nat} {translated : List (Str × Rule)},
      boundVariants s document sourceId profileId known alternative several position variant
        payloads = .ok translated →
      List.Forall₂ (BoundRuleOf sourceId profileId known alternative) payloads
        (translated.map (·.2)) := by
  induction payloads with
  | nil =>
      intro position variant translated h
      obtain rfl := Except.ok.inj h
      exact .nil
  | cons payload rest ih =>
      intro position variant translated h
      simp only [boundVariants, bind_eq_ok] at h
      obtain ⟨rule, hrule, others, hothers, h⟩ := h
      obtain rfl := pure_eq_ok.mp h
      exact .cons (boundRule_eq_ok hrule) (ih hothers)

/-- What one route-bound alternative contributes. -/
structure BoundAlternative (s : Services) (sourceId profileId : Str) (known : Components)
    (coverageKeys : List Str) (bound : JsonValue) (alternative : RouteAlternative)
    (rules : List Rule) : Prop where
  reads : ∃ key, ReadsAlternative s coverageKeys bound alternative key
  bound : ∀ id ∈ alternative.componentIds, ∃ component condition,
    lookup known.semantic id = some component ∧ lookup known.conditions id = some condition
  payloads : ∃ payloads, (∀ payload, payload ∈ payloads ↔
      ∃ id ∈ alternative.componentIds, Brings s known alternative.route id payload) ∧
    List.Forall₂ (BoundRuleOf sourceId profileId known alternative) (variantsOf payloads) rules

/-- What the loop over the route-bound alternatives establishes: each contributes its rules,
under an identity of its own, and the keys represented are theirs. -/
theorem boundRules_eq_ok {s : Services} {document : Members} {sourceId profileId : Str}
    {known : Components} {coverageKeys : List Str} {bounds : List JsonValue} :
    ∀ {before after : BoundRules},
      boundRules s document sourceId profileId known coverageKeys before bounds = .ok after →
      before.seen.Nodup →
      ∃ entries : List (RouteAlternative × List Rule),
        List.Forall₂ (fun bound entry =>
          BoundAlternative s sourceId profileId known coverageKeys bound entry.1 entry.2) bounds
          entries ∧
        (before.seen ++ entries.map (·.1.alternativeId)).Nodup ∧
        after.translated.map (·.2) = before.translated.map (·.2) ++ entries.flatMap (·.2) ∧
        ∀ key ∈ after.represented, key ∈ before.represented ∨ ∃ entry ∈ entries,
          canonicalText s (.array (entry.1.componentIds.map .text)) = .ok key := by
  induction bounds with
  | nil =>
      intro before after h hnodup
      obtain rfl := Except.ok.inj h
      exact ⟨[], .nil, by simpa using hnodup, by simp, fun key hkey => Or.inl hkey⟩
  | cons bound rest ih =>
      intro before after h hnodup
      simp only [boundRules, bind_eq_ok] at h
      obtain ⟨⟨alternative, key⟩, hread, payloads, hpayloads, rules, hrules, h⟩ := h
      obtain ⟨hreads, hfresh⟩ := readAlternative_eq_ok hread
      obtain ⟨hbound, hbrings⟩ := bindComponents_eq_ok hpayloads
      obtain ⟨entries, hentries, hall, htranslated, hrepresented⟩ := ih h (nodup_snoc hnodup hfresh)
      refine ⟨(alternative, rules.map (·.2)) :: entries, .cons ?_ hentries, ?_, ?_, ?_⟩
      · refine ⟨⟨key, hreads⟩, hbound, payloads, fun payload => ?_, boundVariants_eq_ok hrules⟩
        rw [hbrings]
        simp
      · rw [List.append_assoc] at hall
        exact hall
      · rw [htranslated, List.map_append, List.append_assoc]
        rfl
      · intro other hother
        rcases hrepresented other hother with hin | ⟨entry, hentry, hkey⟩
        · rcases List.mem_append.mp hin with hin | hin
          · exact Or.inl hin
          · refine Or.inr ⟨_, List.mem_cons_self, ?_⟩
            rw [List.mem_singleton.mp hin]
            exact hreads.canonical
        · exact Or.inr ⟨entry, List.mem_cons_of_mem _ hentry, hkey⟩

/-- What a route-bound document becomes: a list of rules for each of its alternatives, and
every coverage alternative is that of some entry. -/
structure BoundEntries (s : Services) (sourceId profileId : Str) (document semantics : Members)
    (known : Components) (entries : List (RouteAlternative × List Rule)) : Prop where
  inputs : Indexed (field semantics "test_inputs") "input_id" known.inputs
  bounds : ∃ coverageKeys, List.Forall₂ (fun bound entry =>
    BoundAlternative s sourceId profileId known coverageKeys bound entry.1 entry.2)
    (arrayItems (field document "route_bound_alternatives")) entries
  nodup : (entries.map (·.1.alternativeId)).Nodup
  covers : ∀ alternative ∈ arrayItems (field document "coverage_alternatives"),
    ∃ entry ∈ entries, ∃ key, canonicalText s alternative = .ok key ∧
      canonicalText s (.array (entry.1.componentIds.map .text)) = .ok key

theorem routeBoundRules_eq_ok {s : Services} {document : Members} {sourceId profileId : Str}
    {semantics : Members} {semantic : Table Members} {table : Table ComponentCondition}
    {translated : List (Str × Rule)}
    (h : routeBoundRules s document sourceId profileId semantics semantic table
      (arrayItems (field document "coverage_alternatives"))
      (arrayItems (field document "route_bound_alternatives")) = .ok translated) :
    ∃ inputs entries, BoundEntries s sourceId profileId document semantics
        ⟨semantic, inputs, table⟩ entries ∧ translated.map (·.2) = entries.flatMap (·.2) := by
  simp only [routeBoundRules, bind_eq_ok, raiseIf_eq_ok] at h
  obtain ⟨items, hitems, inputs, hinputs, coverageKeys, hcoverageKeys, gathered, hgathered, _,
    hcovered, h⟩ := h
  obtain rfl := pure_eq_ok.mp h
  obtain ⟨entries, hentries, hnodup, htranslated, hrepresented⟩ :=
    boundRules_eq_ok hgathered List.nodup_nil
  have hindexed := index_eq_ok hinputs
  rw [← (need_eq_ok.mp hitems).2] at hindexed
  refine ⟨inputs, entries, ⟨hindexed, ⟨coverageKeys, hentries⟩, hnodup, ?_⟩, htranslated⟩
  intro alternative halternative
  obtain ⟨key, hmem, hkey⟩ :=
    exists_right_of_forall₂ (mapM_eq_ok.mp hcoverageKeys) halternative
  simp only [List.forall_mem_cons, Option.some.injEq, Bool.not_eq_false', Bool.and_eq_true,
    List.all_eq_true, List.contains_iff_mem] at hcovered
  obtain ⟨⟨-, hall⟩, -⟩ := hcovered
  rcases hrepresented key (hall key hmem) with hnil | ⟨entry, hentry, hsame⟩
  · exact absurd hnil List.not_mem_nil
  · exact ⟨entry, hentry, key, hkey, hsame⟩

/-- The conditions of the components that are carried in the path, or of the others. -/
theorem mem_carriedConditions {known : Components} {alternative : RouteAlternative}
    {inPath : Bool} {condition : ComponentCondition}
    (hbound : ∀ id ∈ alternative.componentIds, ∃ component condition,
      lookup known.semantic id = some component ∧ lookup known.conditions id = some condition) :
    condition ∈ carriedConditions known alternative inPath ↔
      ∃ id ∈ alternative.componentIds, ∃ component, lookup known.semantic id = some component ∧
        isPathComponent component = inPath ∧ lookup known.conditions id = some condition := by
  rw [carriedConditions, List.mem_filterMap]
  constructor
  · rintro ⟨id, hid, hcondition⟩
    obtain ⟨hid, hpath⟩ := List.mem_filter.mp hid
    obtain ⟨component, _, hcomponent, -⟩ := hbound id hid
    rw [hcomponent] at hpath
    exact ⟨id, hid, component, hcomponent, by simpa using hpath, hcondition⟩
  · rintro ⟨id, hid, component, hcomponent, hpath, hcondition⟩
    refine ⟨id, List.mem_filter.mpr ⟨hid, ?_⟩, hcondition⟩
    rw [hcomponent, Option.map_some, Option.getD_some, hpath]
    exact beq_self_eq_true _

end SharedContracts
