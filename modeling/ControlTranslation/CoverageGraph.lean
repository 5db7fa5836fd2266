import ControlTranslation.Alternatives
import ControlTranslation.JoinRecords

/-!
# Coverage references

A coverage reference names a component, or a group that lists further
references.  A walk takes a group out of those available while it is inside it,
so a group that leads back to itself is refused like an unknown one, and no walk
is deeper than there are groups.
-/

namespace SharedContracts

open PyText JsonValue Alternatives

/-- A table without one of its entries. -/
def removeKey {β : Type} (table : Table β) (key : Str) : Table β :=
  table.filter fun entry => entry.1 ≠ key

/-- The group a reference leads into, among those available. -/
def groupOf (available : Table Members) (ref : Members) : Checked (Str × Members) := do
  let refusal := "invalid or cyclic coverage group".toList
  raiseIf [!isText (field ref "kind") "coverage-group"] "coverage-reference-invalid" refusal
  let id ← hashed (field ref "id")
  match id.asText.bind fun id => (lookup available id).map fun group => (id, group) with
  | some found => .ok found
  | none => refuse "coverage-reference-invalid" refusal

/-- The components below a reference, after those already found. -/
def walkComponents : Nat → Table Members → List Str → JsonValue → Checked (List Str)
  | depth, available, found, ref => do
      let current ← dictionary ref
      if isText (field current "kind") "component" then do
        let id ← needText current "id"
        return if found.contains id then found else found ++ [id]
      else do
        let (id, group) ← groupOf available current
        match depth with
        | 0 => .error .crash
        | depth + 1 =>
            (← iterate (← need group "member_refs")).foldlM
              (walkComponents depth (removeKey available id)) found

/-- `_coverage_component_ids`. -/
def coverageComponentIds (ref : JsonValue) (semantics : Members) : Checked (List Str) := do
  let coverage ← needDictionary semantics "coverage"
  let groups ← index (← need coverage "groups") "group_id" "coverage-invalid"
  walkComponents groups.length groups [] ref

/-- `[item["id"] for item in items]`. -/
def idsOf (items : JsonValue) : Checked (List Str) := do
  (← iterate items).mapM fun item => do needText (← dictionary item) "id"

/-- What the walk over source members looks things up in. -/
structure CoverageScope where
  components : Table Members
  semanticsId : JsonValue

/-- The source members below a reference. -/
def walkMembers (s : Services) (scope : CoverageScope) :
    Nat → Table Members → JsonValue → Checked (List Str)
  | depth, available, ref => do
      let current ← dictionary ref
      raiseIf [!equal s (field current "scope") scope.semanticsId] "coverage-scope-mismatch"
        "coverage scope differs".toList
      if isText (field current "kind") "component" then
        match lookup scope.components (format s (field current "id")) with
        | some component => idsOf (← need component "source_member_refs")
        | none => refuse "coverage-reference-invalid" "unknown coverage component".toList
      else do
        let (id, group) ← groupOf available current
        match depth with
        | 0 => .error .crash
        | depth + 1 => do
            let below ← (← iterate (← need group "member_refs")).mapM
              (walkMembers s scope depth (removeKey available id))
            let own ← idsOf (← need group "source_member_refs")
            raiseIf [!sameSet below.flatten own] "coverage-ancestry-mismatch"
              "coverage source ancestry differs".toList
            return below.flatten

/-- `_coverage_members`, as a list. -/
def coverageMembers (s : Services) (ref : JsonValue) (semantics : Members) :
    Checked (List Str) := do
  let components ←
    index (← need semantics "components") "component_id" "components-invalid"
  let coverage ← needDictionary semantics "coverage"
  let groups ← index (← need coverage "groups") "group_id" "coverage-invalid"
  let semanticsId ← need semantics "semantics_id"
  walkMembers s ⟨components, semanticsId⟩ groups.length groups ref

/-- A table loses a row when a key of it is removed. -/
theorem length_removeKey {β : Type} {table : Table β} {key : Str} {value : β}
    (h : lookup table key = some value) : (removeKey table key).length < table.length := by
  apply List.length_filter_lt_length_iff_exists.mpr
  exact ⟨_, mem_of_lookup h, by simp⟩

/-- What is left of a table is what the table had. -/
theorem lookup_removeKey {β : Type} {table : Table β} {key other : Str} {value : β}
    (h : lookup (removeKey table key) other = some value) : lookup table other = some value := by
  have hne : other ≠ key := by
    have hmem := (List.mem_filter.mp (mem_of_lookup h)).2
    simpa using hmem
  rw [lookup, removeKey, List.find?_filter] at h
  rw [lookup, ← h]
  congr 2
  funext entry
  by_cases heq : entry.1 = other
  · simp [heq, hne]
  · simp [heq]

/-- The group found is the one the reference names. -/
theorem groupOf_eq_ok {available : Table Members} {ref : Members} {found : Str × Members}
    (h : groupOf available ref = .ok found) :
    field ref "id" = .text found.1 ∧ lookup available found.1 = some found.2 := by
  simp only [groupOf, bind_eq_ok] at h
  obtain ⟨_, -, id, hid, h⟩ := h
  obtain rfl := eq_of_hashed hid
  split at h
  · rename_i pair hpair
    obtain rfl := Except.ok.inj h
    obtain ⟨name, hname, hgroup⟩ := Option.bind_eq_some_iff.mp hpair
    obtain ⟨group, hlookup, rfl⟩ := Option.map_eq_some_iff.mp hgroup
    cases hvalue : field ref "id" with
    | text t =>
        rw [hvalue] at hname
        obtain rfl := Option.some.inj hname
        exact ⟨rfl, hlookup⟩
    | _ =>
        rw [hvalue] at hname
        cases hname
  · cases h

/-- A reference leads to a reference that names a component. -/
inductive Leads (groups : Table Members) : JsonValue → Members → Prop
  | component {ref : Members} (kind : isText (field ref "kind") "component" = true) :
      Leads groups (.object ref) ref
  | group {ref group node : Members} {groupId : Str} {child : JsonValue}
      (kind : isText (field ref "kind") "component" = false)
      (identity : field ref "id" = .text groupId) (found : lookup groups groupId = some group)
      (member : child ∈ arrayItems (field group "member_refs")) (below : Leads groups child node) :
      Leads groups (.object ref) node

/-- A reference leads to the component of an identity. -/
def Reaches (groups : Table Members) (ref : JsonValue) (id : Str) : Prop :=
  ∃ node, Leads groups ref node ∧ field node "id" = .text id

/-- A walk from a reference found what the reference leads to. -/
def FoundBelow (groups : Table Members) (ref : JsonValue) (found after : List Str) : Prop :=
  (∃ members, ref = .object members) ∧
    ∀ id, id ∈ after ↔ id ∈ found ∨ Reaches groups ref id

/-- A walk over references finds what each of them leads to. -/
theorem foldlM_eq_ok {groups : Table Members} {walk : List Str → JsonValue → Checked (List Str)}
    (hwalk : ∀ found ref after, walk found ref = .ok after → FoundBelow groups ref found after)
    {refs : List JsonValue} :
    ∀ {found after : List Str}, refs.foldlM walk found = .ok after →
      (∀ ref ∈ refs, ∃ members, ref = .object members) ∧
        ∀ id, id ∈ after ↔ id ∈ found ∨ ∃ ref ∈ refs, Reaches groups ref id := by
  induction refs with
  | nil =>
      intro found after h
      obtain rfl := pure_eq_ok.mp h
      simp
  | cons ref rest ih =>
      intro found after h
      rw [List.foldlM_cons, bind_eq_ok] at h
      obtain ⟨first, hfirst, h⟩ := h
      obtain ⟨hobject, hbelow⟩ := hwalk found ref first hfirst
      obtain ⟨hobjects, hrest⟩ := ih h
      refine ⟨List.forall_mem_cons.mpr ⟨hobject, hobjects⟩, fun id => ?_⟩
      rw [hrest, hbelow, List.exists_mem_cons_iff, or_assoc]

/-- What a reference into a group leads to is what the members of the group lead to. -/
theorem leads_group_iff {groups : Table Members} {ref group node : Members} {groupId : Str}
    (hkind : isText (field ref "kind") "component" = false)
    (hid : field ref "id" = .text groupId) (hgroup : lookup groups groupId = some group) :
    Leads groups (.object ref) node ↔
      ∃ child ∈ arrayItems (field group "member_refs"), Leads groups child node := by
  constructor
  · intro h
    cases h with
    | component kind =>
        rw [hkind] at kind
        cases kind
    | group _ identity found member below =>
        obtain rfl := JsonValue.text.inj (identity.symm.trans hid)
        obtain rfl := Option.some.inj (found.symm.trans hgroup)
        exact ⟨_, member, below⟩
  · rintro ⟨child, hchild, hbelow⟩
    exact .group hkind hid hgroup hchild hbelow

/-- A reference to a component leads nowhere but to itself. -/
theorem leads_component_iff {groups : Table Members} {ref node : Members}
    (hkind : isText (field ref "kind") "component" = true) :
    Leads groups (.object ref) node ↔ node = ref := by
  constructor
  · intro h
    cases h with
    | component _ => rfl
    | group kind =>
        rw [hkind] at kind
        cases kind
  · rintro rfl
    exact .component hkind

/-- What a group reaches is what its members reach without it. -/
theorem reaches_group_iff {groups : Table Members} {ref group : Members} {groupId id : Str}
    (hkind : isText (field ref "kind") "component" = false)
    (hid : field ref "id" = .text groupId) (hgroup : lookup groups groupId = some group) :
    Reaches groups (.object ref) id ↔
      ∃ child ∈ arrayItems (field group "member_refs"), Reaches groups child id := by
  simp only [Reaches, leads_group_iff hkind hid hgroup]
  constructor
  · rintro ⟨node, ⟨child, hchild, hleads⟩, hnode⟩
    exact ⟨child, hchild, node, hleads, hnode⟩
  · rintro ⟨child, hchild, node, hleads, hnode⟩
    exact ⟨node, ⟨child, hchild, hleads⟩, hnode⟩

theorem reaches_component_iff {groups : Table Members} {ref : Members} {name id : Str}
    (hkind : isText (field ref "kind") "component" = true) (hid : field ref "id" = .text name) :
    Reaches groups (.object ref) id ↔ id = name := by
  simp only [Reaches, leads_component_iff hkind, exists_eq_left, hid]
  constructor
  · exact fun h => (JsonValue.text.inj h).symm
  · rintro rfl
    rfl

theorem needText_eq_ok {members : Members} {key : String} {found : Str}
    (h : needText members key = .ok found) : field members key = .text found := by
  obtain ⟨value, hvalue, h⟩ := bind_eq_ok.mp h
  rw [(need_eq_ok.mp hvalue).2]
  split at h
  · rw [Except.ok.inj h]
  · cases h

/-- What a walk did: it found a component, or it walked the members of a group. -/
theorem walkComponents_cases {depth : Nat} {available : Table Members} {found : List Str}
    {ref : JsonValue} {after : List Str}
    (h : walkComponents depth available found ref = .ok after) :
    ∃ current, ref = .object current ∧
      ((isText (field current "kind") "component" = true ∧ ∃ name,
          field current "id" = .text name ∧ ∀ id, id ∈ after ↔ id ∈ found ∨ id = name) ∨
        (isText (field current "kind") "component" = false ∧ ∃ name group below items,
          depth = below + 1 ∧ field current "id" = .text name ∧
          lookup available name = some group ∧
          iterate (field group "member_refs") = .ok items ∧
          items.foldlM (walkComponents below (removeKey available name)) found = .ok after)) := by
  unfold walkComponents at h
  obtain ⟨current, hcurrent, h⟩ := bind_eq_ok.mp h
  refine ⟨current, dictionary_eq_ok.mp hcurrent, ?_⟩
  split at h
  · rename_i hkind
    obtain ⟨name, hname, h⟩ := bind_eq_ok.mp h
    obtain rfl := pure_eq_ok.mp h
    refine Or.inl ⟨hkind, name, needText_eq_ok hname, fun id => ?_⟩
    split
    · rename_i hmem
      have hin : name ∈ found := by simpa using hmem
      constructor
      · exact Or.inl
      · rintro (hid | rfl)
        · exact hid
        · exact hin
    · rw [List.mem_append, List.mem_singleton]
  · rename_i hkind
    obtain ⟨⟨name, group⟩, hgroup, h⟩ := bind_eq_ok.mp h
    obtain ⟨hname, hlookup⟩ := groupOf_eq_ok hgroup
    refine Or.inr ⟨Bool.eq_false_iff.mpr hkind, name, group, ?_⟩
    cases depth with
    | zero => cases h
    | succ below =>
        simp only [bind_eq_ok] at h
        obtain ⟨refs, hrefs, items, hitems, h⟩ := h
        rw [← (need_eq_ok.mp hrefs).2] at hitems
        exact ⟨below, items, rfl, hname, hlookup, hitems, h⟩

/-- A walk finds what its reference leads to, and keeps what was found. -/
theorem walkComponents_eq_ok {groups : Table Members} {depth : Nat} :
    ∀ {available : Table Members},
      (∀ id group, lookup available id = some group → lookup groups id = some group) →
      ∀ found ref after, walkComponents depth available found ref = .ok after →
        FoundBelow groups ref found after := by
  induction depth with
  | zero =>
      intro available havailable found ref after h
      obtain ⟨current, rfl, ⟨hkind, name, hname, hafter⟩ | ⟨-, _, _, below, _, hzero, -⟩⟩ :=
        walkComponents_cases h
      · refine ⟨⟨current, rfl⟩, fun id => ?_⟩
        rw [hafter, reaches_component_iff hkind hname]
      · omega
  | succ depth ih =>
      intro available havailable found ref after h
      obtain ⟨current, rfl, ⟨hkind, name, hname, hafter⟩ |
        ⟨hkind, name, group, below, items, hdepth, hname, hgroup, hitems, h⟩⟩ :=
        walkComponents_cases h
      · refine ⟨⟨current, rfl⟩, fun id => ?_⟩
        rw [hafter, reaches_component_iff hkind hname]
      · obtain rfl := Nat.succ.inj hdepth
        have hleft : ∀ id other, lookup (removeKey available name) id = some other →
            lookup groups id = some other :=
          fun id other hother => havailable id other (lookup_removeKey hother)
        obtain ⟨hobjects, hfound⟩ := foldlM_eq_ok (ih hleft) h
        refine ⟨⟨current, rfl⟩, fun id => ?_⟩
        rw [hfound, reaches_group_iff hkind hname (havailable name group hgroup),
          ← iterate_eq_arrayItems hitems hobjects]

/-- **Coverage walks are complete.**  The components found below a reference are those it
leads to. -/
theorem mem_coverageComponentIds_iff {ref : JsonValue} {semantics : Members} {ids : List Str}
    (h : coverageComponentIds ref semantics = .ok ids) :
    ∃ coverage groups, field semantics "coverage" = .object coverage ∧
      Indexed (field coverage "groups") "group_id" groups ∧
      ∀ id, id ∈ ids ↔ Reaches groups ref id := by
  simp only [coverageComponentIds, bind_eq_ok] at h
  obtain ⟨coverage, hcoverage, items, hitems, groups, hgroups, h⟩ := h
  refine ⟨coverage, groups, needDictionary_eq_ok hcoverage, ?_, fun id => ?_⟩
  · rw [(need_eq_ok.mp hitems).2]
    exact index_eq_ok hgroups
  · obtain ⟨-, hfound⟩ := walkComponents_eq_ok (fun _ _ hgroup => hgroup) [] ref ids h
    rw [hfound]
    simp

theorem idsOf_eq_ok {items : JsonValue} {ids : List Str} (h : idsOf items = .ok ids) :
    ids = identities items "id" := by
  simp only [idsOf, bind_eq_ok, mapM_eq_ok] at h
  obtain ⟨listed, hlisted, hids⟩ := h
  have hobjects : ∀ item ∈ listed, ∃ members, item = .object members := by
    intro item hitem
    obtain ⟨_, -, members, hmembers, -⟩ := exists_right_of_forall₂ hids hitem
    exact ⟨members, dictionary_eq_ok.mp hmembers⟩
  rw [identities, ← iterate_eq_arrayItems hlisted hobjects]
  clear hlisted hobjects
  induction hids with
  | nil => rfl
  | @cons item id listed ids hitem _ ih =>
      obtain ⟨members, hmembers, hid⟩ := hitem
      have hidentity : identityOf "id" item = some id := by
        rw [identityOf, dictionary_eq_ok.mp hmembers, asObject, Option.bind_some,
          needText_eq_ok hid]
        rfl
      rw [List.filterMap_cons, hidentity, ← ih]

/-- A source member is below a reference: it is one of a component the reference leads to. -/
def MemberBelow (s : Services) (groups components : Table Members) (ref : JsonValue)
    (member : Str) : Prop :=
  ∃ node component, Leads groups ref node ∧
    lookup components (format s (field node "id")) = some component ∧
    member ∈ identities (field component "source_member_refs") "id"

theorem memberBelow_component_iff {s : Services} {groups components : Table Members}
    {ref component : Members} {member : Str}
    (hkind : isText (field ref "kind") "component" = true)
    (hfound : lookup components (format s (field ref "id")) = some component) :
    MemberBelow s groups components (.object ref) member ↔
      member ∈ identities (field component "source_member_refs") "id" := by
  simp only [MemberBelow, leads_component_iff hkind]
  constructor
  · rintro ⟨node, other, rfl, hother, hmember⟩
    obtain rfl := Option.some.inj (hfound.symm.trans hother)
    exact hmember
  · intro hmember
    exact ⟨ref, component, rfl, hfound, hmember⟩

/-- The members below a group are those below its members. -/
theorem memberBelow_group_iff {s : Services} {groups components : Table Members}
    {ref group : Members} {name member : Str}
    (hkind : isText (field ref "kind") "component" = false)
    (hname : field ref "id" = .text name) (hgroup : lookup groups name = some group) :
    MemberBelow s groups components (.object ref) member ↔
      ∃ child ∈ arrayItems (field group "member_refs"),
        MemberBelow s groups components child member := by
  simp only [MemberBelow, leads_group_iff hkind hname hgroup]
  constructor
  · rintro ⟨node, component, ⟨child, hchild, hleads⟩, hfound, hmember⟩
    exact ⟨child, hchild, node, component, hleads, hfound, hmember⟩
  · rintro ⟨child, hchild, node, component, hleads, hfound, hmember⟩
    exact ⟨node, component, ⟨child, hchild, hleads⟩, hfound, hmember⟩

/-- What a walk over source members did: it read a component, or it walked a group. -/
theorem walkMembers_cases {s : Services} {scope : CoverageScope} {depth : Nat}
    {available : Table Members} {ref : JsonValue} {found : List Str}
    (h : walkMembers s scope depth available ref = .ok found) :
    ∃ current, ref = .object current ∧
      ((isText (field current "kind") "component" = true ∧ ∃ component,
          lookup scope.components (format s (field current "id")) = some component ∧
          found = identities (field component "source_member_refs") "id") ∨
        (isText (field current "kind") "component" = false ∧ ∃ name group deeper items below,
          depth = deeper + 1 ∧ field current "id" = .text name ∧
          lookup available name = some group ∧
          iterate (field group "member_refs") = .ok items ∧
          List.Forall₂ (fun child listed =>
            walkMembers s scope deeper (removeKey available name) child = .ok listed) items below ∧
          found = below.flatten)) := by
  unfold walkMembers at h
  obtain ⟨current, hcurrent, h⟩ := bind_eq_ok.mp h
  obtain ⟨_, -, h⟩ := bind_eq_ok.mp h
  refine ⟨current, dictionary_eq_ok.mp hcurrent, ?_⟩
  split at h
  · rename_i hkind
    split at h
    · rename_i component hcomponent
      obtain ⟨refs, hrefs, h⟩ := bind_eq_ok.mp h
      refine Or.inl ⟨hkind, component, hcomponent, ?_⟩
      rw [(need_eq_ok.mp hrefs).2]
      exact idsOf_eq_ok h
    · cases h
  · rename_i hkind
    obtain ⟨⟨name, group⟩, hgroup, h⟩ := bind_eq_ok.mp h
    obtain ⟨hname, hlookup⟩ := groupOf_eq_ok hgroup
    refine Or.inr ⟨Bool.eq_false_iff.mpr hkind, name, group, ?_⟩
    cases depth with
    | zero => cases h
    | succ deeper =>
        simp only [bind_eq_ok, mapM_eq_ok] at h
        obtain ⟨refs, hrefs, items, hitems, below, hbelow, ownRefs, -, own, -, _, -, h⟩ := h
        rw [← (need_eq_ok.mp hrefs).2] at hitems
        exact ⟨deeper, items, below, rfl, hname, hlookup, hitems, hbelow, (pure_eq_ok.mp h).symm⟩

/-- The source members found are those below the reference. -/
theorem walkMembers_eq_ok {s : Services} {scope : CoverageScope} {groups : Table Members}
    {depth : Nat} :
    ∀ {available : Table Members},
      (∀ id group, lookup available id = some group → lookup groups id = some group) →
      ∀ {ref : JsonValue} {found : List Str},
        walkMembers s scope depth available ref = .ok found →
        ∀ member, member ∈ found ↔ MemberBelow s groups scope.components ref member := by
  induction depth with
  | zero =>
      intro available havailable ref found h member
      obtain ⟨current, rfl, ⟨hkind, component, hfound, rfl⟩ |
        ⟨-, _, _, deeper, _, _, hzero, -⟩⟩ := walkMembers_cases h
      · rw [memberBelow_component_iff hkind hfound]
      · omega
  | succ depth ih =>
      intro available havailable ref found h member
      obtain ⟨current, rfl, ⟨hkind, component, hfound, rfl⟩ |
        ⟨hkind, name, group, deeper, items, below, hdepth, hname, hgroup, hitems, hbelow, rfl⟩⟩ :=
        walkMembers_cases h
      · rw [memberBelow_component_iff hkind hfound]
      · obtain rfl := Nat.succ.inj hdepth
        have hleft : ∀ id other, lookup (removeKey available name) id = some other →
            lookup groups id = some other :=
          fun id other hother => havailable id other (lookup_removeKey hother)
        have hobjects : ∀ item ∈ items, ∃ members, item = .object members := by
          intro item hitem
          obtain ⟨_, -, hlisted⟩ := exists_right_of_forall₂ hbelow hitem
          obtain ⟨members, hobject, -⟩ := walkMembers_cases hlisted
          exact ⟨members, hobject⟩
        rw [memberBelow_group_iff hkind hname (havailable name group hgroup),
          ← iterate_eq_arrayItems hitems hobjects, List.mem_flatten]
        constructor
        · rintro ⟨listed, hlisted, hmember⟩
          obtain ⟨child, hchild, hwalk⟩ := exists_left_of_forall₂ hbelow hlisted
          exact ⟨child, hchild, (ih hleft hwalk member).mp hmember⟩
        · rintro ⟨child, hchild, hmember⟩
          obtain ⟨listed, hlisted, hwalk⟩ := exists_right_of_forall₂ hbelow hchild
          exact ⟨listed, hlisted, (ih hleft hwalk member).mpr hmember⟩

/-- A source member that the coverage of a reference reaches. -/
def CoversMember (s : Services) (semantics : Members) (ref : JsonValue) (member : Str) : Prop :=
  ∃ coverage groups components, field semantics "coverage" = .object coverage ∧
    Indexed (field coverage "groups") "group_id" groups ∧
    Indexed (field semantics "components") "component_id" components ∧
    MemberBelow s groups components ref member

/-- **Coverage members are complete.**  `_coverage_members` finds the source members of the
components that the reference leads to. -/
theorem mem_coverageMembers_iff {s : Services} {ref : JsonValue} {semantics : Members}
    {found : List Str} (h : coverageMembers s ref semantics = .ok found) (member : Str) :
    member ∈ found ↔ CoversMember s semantics ref member := by
  simp only [coverageMembers, bind_eq_ok] at h
  obtain ⟨componentItems, hcomponentItems, components, hcomponents, coverage, hcoverage, groupItems,
    hgroupItems, groups, hgroups, semanticsId, -, h⟩ := h
  have hfound := walkMembers_eq_ok (fun _ _ hgroup => hgroup) h member
  have hcomponentIndex := index_eq_ok hcomponents
  have hgroupIndex := index_eq_ok hgroups
  rw [← (need_eq_ok.mp hcomponentItems).2] at hcomponentIndex
  rw [← (need_eq_ok.mp hgroupItems).2] at hgroupIndex
  rw [hfound]
  constructor
  · intro hbelow
    exact ⟨coverage, groups, components, needDictionary_eq_ok hcoverage, hgroupIndex,
      hcomponentIndex, hbelow⟩
  · rintro ⟨coverage', groups', components', hcoverage', hgroups', hcomponents', hbelow⟩
    obtain rfl := JsonValue.object.inj ((needDictionary_eq_ok hcoverage).symm.trans hcoverage')
    obtain rfl := hgroupIndex.unique hgroups'
    obtain rfl := hcomponentIndex.unique hcomponents'
    exact hbelow

end SharedContracts
