import ControlTranslation.CoverageGraph
import Mathlib.Logic.Relation

/-!
# Coverage walks end

The source walks the groups with a set of those it is inside.  Here the walks
are written so, by recursion without a bound: each group entered is one of the
finitely many outside the set, and inside it the set has grown.  They are the
bounded walks, so these end for every graph and never for want of depth.

A walk that succeeds was inside every group of every path once, so a graph with
a cycle below the reference is refused; a group that two paths share is not.
-/

namespace SharedContracts

open PyText JsonValue Alternatives Relation

/-- The groups that a walk is not inside. -/
def outside (groups : Table Members) (visiting : List Str) : Table Members :=
  groups.filter fun entry => !visiting.contains entry.1

/-- The group a reference enters, unless the walk is inside it. -/
def enter (groups : Table Members) (visiting : List Str) (ref : Members) :
    Checked (Str × Members) := do
  let refusal := "invalid or cyclic coverage group".toList
  raiseIf [!isText (field ref "kind") "coverage-group"] "coverage-reference-invalid" refusal
  let identity ← hashed (field ref "id")
  match identity.asText.bind fun id => (lookup groups id).map fun group => (id, group) with
  | some (id, group) =>
      if visiting.contains id then refuse "coverage-reference-invalid" refusal
      else .ok (id, group)
  | none => refuse "coverage-reference-invalid" refusal

/-- A group is found outside the visited ones unless it was visited. -/
theorem lookup_outside (groups : Table Members) (visiting : List Str) (id : Str) :
    lookup (outside groups visiting) id =
      if visiting.contains id then none else lookup groups id := by
  unfold lookup outside
  rw [List.find?_filter]
  split_ifs with hinside
  · rw [Option.map_eq_none_iff, List.find?_eq_none]
    rintro entry -
    by_cases heq : entry.1 = id
    · simp [heq, List.contains_iff_mem.mp hinside]
    · simp [heq]
  · congr 2
    funext entry
    by_cases heq : entry.1 = id
    · simp [heq, mt List.contains_iff_mem.mpr hinside]
    · simp [heq]

/-- Entering takes a group out of those outside. -/
theorem enter_eq_groupOf (groups : Table Members) (visiting : List Str) (ref : Members) :
    enter groups visiting ref = groupOf (outside groups visiting) ref := by
  unfold enter groupOf
  refine bind_congr fun _ => bind_congr fun identity => ?_
  cases identity.asText with
  | none => rfl
  | some id =>
      simp only [Option.bind_some, lookup_outside]
      by_cases hinside : visiting.contains id = true
      · rw [if_pos hinside]
        cases lookup groups id with
        | none => rfl
        | some group => simp only [Option.map_some, hinside, if_true, Option.map_none]
      · rw [if_neg hinside]
        cases lookup groups id with
        | none => rfl
        | some group => simp only [Option.map_some, hinside, Bool.false_eq_true, if_false]

theorem outside_cons (groups : Table Members) (visiting : List Str) (id : Str) :
    outside groups (id :: visiting) = removeKey (outside groups visiting) id := by
  unfold outside removeKey
  rw [List.filter_filter]
  refine List.filter_congr fun entry _ => ?_
  by_cases heq : entry.1 = id
  · simp [heq]
  · simp [heq]

/-- Inside a group there are fewer groups left to enter. -/
theorem outside_lt {groups : Table Members} {visiting : List Str} {ref : Members}
    {entered : Str × Members} (h : enter groups visiting ref = .ok entered) :
    (outside groups (entered.1 :: visiting)).length < (outside groups visiting).length := by
  rw [outside_cons]
  rw [enter_eq_groupOf] at h
  exact length_removeKey (groupOf_eq_ok h).2

/-- The walk of `_coverage_component_ids`. -/
def componentWalk (groups : Table Members) (visiting found : List Str) (ref : JsonValue) :
    Checked (List Str) :=
  match dictionary ref with
  | .error e => .error e
  | .ok current =>
      if isText (field current "kind") "component" then do
        let id ← needText current "id"
        return if found.contains id then found else found ++ [id]
      else
        match _h : enter groups visiting current with
        | .error e => .error e
        | .ok entered => do
            (← iterate (← need entered.2 "member_refs")).foldlM
              (fun found child => componentWalk groups (entered.1 :: visiting) found child) found
termination_by (outside groups visiting).length
decreasing_by exact outside_lt _h

/-- The walk of `_coverage_members`. -/
def memberWalk (s : Services) (scope : CoverageScope) (groups : Table Members)
    (visiting : List Str) (ref : JsonValue) : Checked (List Str) :=
  match dictionary ref with
  | .error e => .error e
  | .ok current => do
      raiseIf [!equal s (field current "scope") scope.semanticsId] "coverage-scope-mismatch"
        "coverage scope differs".toList
      if isText (field current "kind") "component" then
        match lookup scope.components (format s (field current "id")) with
        | some component => idsOf (← need component "source_member_refs")
        | none => refuse "coverage-reference-invalid" "unknown coverage component".toList
      else
        match _h : enter groups visiting current with
        | .error e => .error e
        | .ok entered => do
            let below ← (← iterate (← need entered.2 "member_refs")).mapM
              fun child => memberWalk s scope groups (entered.1 :: visiting) child
            let own ← idsOf (← need entered.2 "source_member_refs")
            raiseIf [!sameSet below.flatten own] "coverage-ancestry-mismatch"
              "coverage source ancestry differs".toList
            return below.flatten
termination_by (outside groups visiting).length
decreasing_by exact outside_lt _h

/-- What the walk over components does at a reference. -/
theorem componentWalk_eq (groups : Table Members) (visiting found : List Str) (ref : JsonValue) :
    componentWalk groups visiting found ref = (do
      let current ← dictionary ref
      if isText (field current "kind") "component" then do
        let id ← needText current "id"
        return if found.contains id then found else found ++ [id]
      else do
        let entered ← enter groups visiting current
        (← iterate (← need entered.2 "member_refs")).foldlM
          (componentWalk groups (entered.1 :: visiting)) found) := by
  rw [componentWalk]
  cases dictionary ref with
  | error e => rfl
  | ok current =>
      dsimp only [bind, Except.bind]
      split
      · rfl
      · split
        · rename_i h
          rw [h]
        · rename_i h
          rw [h]

/-- What the walk over source members does at a reference. -/
theorem memberWalk_eq (s : Services) (scope : CoverageScope) (groups : Table Members)
    (visiting : List Str) (ref : JsonValue) :
    memberWalk s scope groups visiting ref = (do
      let current ← dictionary ref
      raiseIf [!equal s (field current "scope") scope.semanticsId] "coverage-scope-mismatch"
        "coverage scope differs".toList
      if isText (field current "kind") "component" then
        match lookup scope.components (format s (field current "id")) with
        | some component => idsOf (← need component "source_member_refs")
        | none => refuse "coverage-reference-invalid" "unknown coverage component".toList
      else do
        let entered ← enter groups visiting current
        let below ← (← iterate (← need entered.2 "member_refs")).mapM
          (memberWalk s scope groups (entered.1 :: visiting))
        let own ← idsOf (← need entered.2 "source_member_refs")
        raiseIf [!sameSet below.flatten own] "coverage-ancestry-mismatch"
          "coverage source ancestry differs".toList
        return below.flatten) := by
  rw [memberWalk]
  cases dictionary ref with
  | error e => rfl
  | ok current =>
      refine bind_congr fun _ => ?_
      split
      · rfl
      · split
        · rename_i h
          rw [h]
          rfl
        · rename_i h
          rw [h]
          rfl

/-- A walk is the walk bounded by the groups it is outside. -/
theorem componentWalk_eq_bounded {groups : Table Members} {depth : Nat} :
    ∀ {visiting : List Str}, (outside groups visiting).length ≤ depth →
      componentWalk groups visiting = walkComponents depth (outside groups visiting) := by
  induction depth with
  | zero =>
      intro visiting h
      funext found ref
      rw [componentWalk_eq, walkComponents]
      refine bind_congr fun current => ?_
      split
      · rfl
      · rw [← enter_eq_groupOf]
        cases hentered : enter groups visiting current with
        | error e => rfl
        | ok entered => exact absurd (outside_lt hentered) (by omega)
  | succ depth ih =>
      intro visiting h
      funext found ref
      rw [componentWalk_eq, walkComponents]
      refine bind_congr fun current => ?_
      split
      · rfl
      · rw [← enter_eq_groupOf]
        cases hentered : enter groups visiting current with
        | error e => rfl
        | ok entered =>
            have hless := outside_lt hentered
            have hbelow := @ih (entered.1 :: visiting) (by omega)
            rw [outside_cons] at hbelow
            dsimp only [bind, Except.bind]
            rw [hbelow]

/-- With as much depth as there are groups the bound is never met. -/
theorem memberWalk_eq_bounded {s : Services} {scope : CoverageScope} {groups : Table Members}
    {depth : Nat} :
    ∀ {visiting : List Str}, (outside groups visiting).length ≤ depth →
      memberWalk s scope groups visiting =
        walkMembers s scope depth (outside groups visiting) := by
  induction depth with
  | zero =>
      intro visiting h
      funext ref
      rw [memberWalk_eq, walkMembers]
      refine bind_congr fun current => bind_congr fun _ => ?_
      split
      · rfl
      · rw [← enter_eq_groupOf]
        cases hentered : enter groups visiting current with
        | error e => rfl
        | ok entered => exact absurd (outside_lt hentered) (by omega)
  | succ depth ih =>
      intro visiting h
      funext ref
      rw [memberWalk_eq, walkMembers]
      refine bind_congr fun current => bind_congr fun _ => ?_
      split
      · rfl
      · rw [← enter_eq_groupOf]
        cases hentered : enter groups visiting current with
        | error e => rfl
        | ok entered =>
            have hless := outside_lt hentered
            have hbelow := @ih (entered.1 :: visiting) (by omega)
            rw [outside_cons] at hbelow
            dsimp only [bind, Except.bind]
            rw [hbelow]

theorem outside_nil (groups : Table Members) : outside groups [] = groups := by
  unfold outside
  simp

/-- The walks without a bound, from the documents. -/
def componentIdsVisiting (ref : JsonValue) (semantics : Members) : Checked (List Str) := do
  let coverage ← needDictionary semantics "coverage"
  let groups ← index (← need coverage "groups") "group_id" "coverage-invalid"
  componentWalk groups [] [] ref

/-- The members covered by one reference, by the walk of the source. -/
def membersVisiting (s : Services) (ref : JsonValue) (semantics : Members) :
    Checked (List Str) := do
  let components ←
    index (← need semantics "components") "component_id" "components-invalid"
  let coverage ← needDictionary semantics "coverage"
  let groups ← index (← need coverage "groups") "group_id" "coverage-invalid"
  let semanticsId ← need semantics "semantics_id"
  memberWalk s ⟨components, semanticsId⟩ groups [] ref

/-- The bounded walk of components is the one of the source. -/
theorem coverageComponentIds_eq_visiting (ref : JsonValue) (semantics : Members) :
    coverageComponentIds ref semantics = componentIdsVisiting ref semantics := by
  unfold coverageComponentIds componentIdsVisiting
  refine bind_congr fun coverage => bind_congr fun items => bind_congr fun groups => ?_
  rw [componentWalk_eq_bounded (by rw [outside_nil]), outside_nil]

/-- The bounded walk of members is the one of the source. -/
theorem coverageMembers_eq_visiting (s : Services) (ref : JsonValue) (semantics : Members) :
    coverageMembers s ref semantics = membersVisiting s ref semantics := by
  unfold coverageMembers membersVisiting
  refine bind_congr fun _ => bind_congr fun components => bind_congr fun coverage => ?_
  refine bind_congr fun items => bind_congr fun groups => bind_congr fun semanticsId => ?_
  rw [memberWalk_eq_bounded (by rw [outside_nil]), outside_nil]

/-- A reference into a group. -/
def Enters (ref : JsonValue) (name : Str) : Prop :=
  ∃ members, ref = .object members ∧ isText (field members "kind") "coverage-group" = true ∧
    field members "id" = .text name

/-- A group lists a reference into another. -/
def Lists (groups : Table Members) (name other : Str) : Prop :=
  ∃ group, lookup groups name = some group ∧
    ∃ child ∈ arrayItems (field group "member_refs"), Enters child other

/-- A reference leads into a group that leads back to itself. -/
def CycleBelow (groups : Table Members) (ref : JsonValue) : Prop :=
  ∃ start name, Enters ref start ∧ ReflTransGen (Lists groups) start name ∧
    TransGen (Lists groups) name name

/-- Every entry of one table is the entry of another. -/
def Narrower (table other : Table Members) : Prop :=
  ∀ name group, lookup table name = some group → lookup other name = some group

theorem lookup_removeKey_self (table : Table Members) (name : Str) :
    lookup (removeKey table name) name = none := by
  rw [lookup, removeKey, List.find?_filter, Option.map_eq_none_iff, List.find?_eq_none]
  rintro entry -
  by_cases heq : entry.1 = name
  · simp [heq]
  · simp [heq]

section

variable {groups : Table Members} {walks : Table Members → JsonValue → Prop}
  (hwalk : ∀ {available ref name}, walks available ref → Enters ref name →
    ∃ group, lookup available name = some group ∧
      ∀ child ∈ arrayItems (field group "member_refs"), walks (removeKey available name) child)

include hwalk

/-- A walk of a group walks what the group lists. -/
theorem walks_listed {available : Table Members} (hnarrow : Narrower available groups)
    {ref : JsonValue} {name other : Str} (h : walks available ref) (henters : Enters ref name)
    (hlists : Lists groups name other) :
    ∃ child, Enters child other ∧ walks (removeKey available name) child := by
  obtain ⟨group, hgroup, hbelow⟩ := hwalk h henters
  obtain ⟨listed, hlisted, child, hchild, hother⟩ := hlists
  obtain rfl := Option.some.inj ((hnarrow name group hgroup).symm.trans hlisted)
  exact ⟨child, hother, hbelow child hchild⟩

/-- A walk follows every path, and on the way groups only become unavailable. -/
theorem walks_path {available : Table Members} (hnarrow : Narrower available groups)
    {ref : JsonValue} {start name : Str} (h : walks available ref) (henters : Enters ref start)
    (hpath : ReflTransGen (Lists groups) start name) :
    ∃ left child, Narrower left available ∧ Enters child name ∧ walks left child := by
  induction hpath with
  | refl => exact ⟨available, ref, fun _ _ hgroup => hgroup, henters, h⟩
  | tail _ hlast ih =>
      obtain ⟨left, child, hleft, hchild, hwalks⟩ := ih
      obtain ⟨next, hnext, hwalks⟩ := walks_listed hwalk
        (fun name group hgroup => hnarrow name group (hleft name group hgroup)) hwalks hchild hlast
      exact ⟨_, next, fun name group hgroup => hleft name group (lookup_removeKey hgroup), hnext,
        hwalks⟩

/-- **No walk succeeds above a cycle.**  Back at the group it would be inside, the
walk finds it gone. -/
theorem not_cycleBelow {ref : JsonValue} (h : walks groups ref) : ¬CycleBelow groups ref := by
  rintro ⟨start, name, henters, hpath, hcycle⟩
  obtain ⟨left, child, hleft, hchild, hwalks⟩ :=
    walks_path hwalk (fun _ _ hgroup => hgroup) h henters hpath
  obtain ⟨next, hfirst, hback⟩ := TransGen.head'_iff.mp hcycle
  obtain ⟨inside, hinside, hwalks⟩ := walks_listed hwalk hleft hwalks hchild hfirst
  have hnarrow : Narrower (removeKey left name) groups :=
    fun other group hgroup => hleft other group (lookup_removeKey hgroup)
  obtain ⟨last, again, hlast, hagain, hwalks⟩ := walks_path hwalk hnarrow hwalks hinside hback
  obtain ⟨group, hgroup, -⟩ := hwalk hwalks hagain
  have hgone := lookup_removeKey_self left name
  rw [hlast name group hgroup] at hgone
  cases hgone

end

/-- A reference into a group does not name a component. -/
theorem not_component_of_group {members : Members}
    (h : isText (field members "kind") "coverage-group" = true) :
    isText (field members "kind") "component" = false := by
  cases hkind : field members "kind" with
  | text t =>
      rw [hkind] at h
      simp only [isText, beq_iff_eq] at h ⊢
      rw [h]
      rfl
  | _ => rfl

/-- A walk over references walked each of them. -/
theorem exists_of_foldlM {walk : List Str → JsonValue → Checked (List Str)}
    {refs : List JsonValue} {found after : List Str} (h : refs.foldlM walk found = .ok after) :
    ∀ ref ∈ refs, ∃ before below, walk before ref = .ok below := by
  induction refs generalizing found with
  | nil => exact fun ref href => absurd href List.not_mem_nil
  | cons first rest ih =>
      rw [List.foldlM_cons, bind_eq_ok] at h
      obtain ⟨next, hfirst, h⟩ := h
      intro ref href
      rcases List.mem_cons.mp href with rfl | href
      · exact ⟨found, next, hfirst⟩
      · exact ih h ref href

/-- A walk over components that succeeds from a reference. -/
def WalksComponents (available : Table Members) (ref : JsonValue) : Prop :=
  ∃ depth found after, walkComponents depth available found ref = .ok after

/-- A walk that enters a group walks all its members. -/
theorem walksComponents_below {available : Table Members} {ref : JsonValue} {name : Str}
    (h : WalksComponents available ref) (henters : Enters ref name) :
    ∃ group, lookup available name = some group ∧
      ∀ child ∈ arrayItems (field group "member_refs"),
        WalksComponents (removeKey available name) child := by
  obtain ⟨depth, found, after, h⟩ := h
  obtain ⟨members, rfl, hgroup, hid⟩ := henters
  obtain ⟨current, hcurrent, ⟨hkind, -⟩ |
    ⟨-, other, group, below, items, -, hother, hlookup, hitems, hwalk⟩⟩ := walkComponents_cases h
  · obtain rfl := JsonValue.object.inj hcurrent
    rw [not_component_of_group hgroup] at hkind
    cases hkind
  · obtain rfl := JsonValue.object.inj hcurrent
    obtain rfl := JsonValue.text.inj (hid.symm.trans hother)
    have heach := exists_of_foldlM hwalk
    have hobjects : ∀ item ∈ items, ∃ members, item = .object members := by
      intro item hitem
      obtain ⟨before, after, hitem⟩ := heach item hitem
      obtain ⟨members, hmembers, -⟩ := walkComponents_cases hitem
      exact ⟨members, hmembers⟩
    refine ⟨group, hlookup, fun child hchild => ?_⟩
    rw [← iterate_eq_arrayItems hitems hobjects] at hchild
    exact ⟨below, heach child hchild⟩

/-- A walk over source members that succeeds from a reference. -/
def WalksMembers (s : Services) (scope : CoverageScope) (available : Table Members)
    (ref : JsonValue) : Prop :=
  ∃ depth found, walkMembers s scope depth available ref = .ok found

theorem walksMembers_below {s : Services} {scope : CoverageScope} {available : Table Members}
    {ref : JsonValue} {name : Str} (h : WalksMembers s scope available ref)
    (henters : Enters ref name) :
    ∃ group, lookup available name = some group ∧
      ∀ child ∈ arrayItems (field group "member_refs"),
        WalksMembers s scope (removeKey available name) child := by
  obtain ⟨depth, found, h⟩ := h
  obtain ⟨members, rfl, hgroup, hid⟩ := henters
  obtain ⟨current, hcurrent, ⟨hkind, -⟩ |
    ⟨-, other, group, deeper, items, below, -, hother, hlookup, hitems, hbelow, -⟩⟩ :=
    walkMembers_cases h
  · obtain rfl := JsonValue.object.inj hcurrent
    rw [not_component_of_group hgroup] at hkind
    cases hkind
  · obtain rfl := JsonValue.object.inj hcurrent
    obtain rfl := JsonValue.text.inj (hid.symm.trans hother)
    have hobjects : ∀ item ∈ items, ∃ members, item = .object members := by
      intro item hitem
      obtain ⟨_, -, hlisted⟩ := exists_right_of_forall₂ hbelow hitem
      obtain ⟨members, hobject, -⟩ := walkMembers_cases hlisted
      exact ⟨members, hobject⟩
    refine ⟨group, hlookup, fun child hchild => ?_⟩
    rw [← iterate_eq_arrayItems hitems hobjects] at hchild
    obtain ⟨listed, -, hlisted⟩ := exists_right_of_forall₂ hbelow hchild
    exact ⟨deeper, listed, hlisted⟩

/-- A cycle of the coverage graph is below a reference. -/
def CoverageCycle (semantics : Members) (ref : JsonValue) : Prop :=
  ∃ coverage groups, field semantics "coverage" = .object coverage ∧
    Indexed (field coverage "groups") "group_id" groups ∧ CycleBelow groups ref

/-- A component that the coverage of a reference reaches. -/
def CoversComponent (semantics : Members) (ref : JsonValue) (id : Str) : Prop :=
  ∃ coverage groups, field semantics "coverage" = .object coverage ∧
    Indexed (field coverage "groups") "group_id" groups ∧ Reaches groups ref id

/-- A document has one table of groups. -/
theorem groups_unique {semantics coverage coverage' : Members} {groups groups' : Table Members}
    (h : field semantics "coverage" = .object coverage)
    (hgroups : Indexed (field coverage "groups") "group_id" groups)
    (h' : field semantics "coverage" = .object coverage')
    (hgroups' : Indexed (field coverage' "groups") "group_id" groups') : groups = groups' := by
  obtain rfl := JsonValue.object.inj (h.symm.trans h')
  exact hgroups.unique hgroups'

theorem mem_coverageComponentIds {ref : JsonValue} {semantics : Members} {ids : List Str}
    (h : coverageComponentIds ref semantics = .ok ids) (id : Str) :
    id ∈ ids ↔ CoversComponent semantics ref id := by
  obtain ⟨coverage, groups, hcoverage, hgroups, hids⟩ := mem_coverageComponentIds_iff h
  rw [hids]
  constructor
  · exact fun hreaches => ⟨coverage, groups, hcoverage, hgroups, hreaches⟩
  · rintro ⟨coverage', groups', hcoverage', hgroups', hreaches⟩
    rw [groups_unique hcoverage hgroups hcoverage' hgroups']
    exact hreaches

/-- A cycle is refused when components are collected. -/
theorem coverageComponentIds_of_cycle {ref : JsonValue} {semantics : Members}
    (hcycle : CoverageCycle semantics ref) :
    ∃ e, coverageComponentIds ref semantics = .error e := by
  cases h : coverageComponentIds ref semantics with
  | error e => exact ⟨e, rfl⟩
  | ok ids =>
      obtain ⟨coverage, groups, hcoverage, hgroups, hcycle⟩ := hcycle
      simp only [coverageComponentIds, bind_eq_ok] at h
      obtain ⟨coverage', hcoverage', items, hitems, groups', hgroups', h⟩ := h
      have hindexed := index_eq_ok hgroups'
      rw [← (need_eq_ok.mp hitems).2] at hindexed
      obtain rfl := groups_unique hcoverage hgroups (needDictionary_eq_ok hcoverage') hindexed
      exact absurd hcycle (not_cycleBelow walksComponents_below ⟨_, _, _, h⟩)

/-- A cycle is refused when members are collected. -/
theorem coverageMembers_of_cycle {s : Services} {ref : JsonValue} {semantics : Members}
    (hcycle : CoverageCycle semantics ref) : ∃ e, coverageMembers s ref semantics = .error e := by
  cases h : coverageMembers s ref semantics with
  | error e => exact ⟨e, rfl⟩
  | ok found =>
      obtain ⟨coverage, groups, hcoverage, hgroups, hcycle⟩ := hcycle
      simp only [coverageMembers, bind_eq_ok] at h
      obtain ⟨_, -, components, -, coverage', hcoverage', items, hitems, groups', hgroups', id, -,
        h⟩ := h
      have hindexed := index_eq_ok hgroups'
      rw [← (need_eq_ok.mp hitems).2] at hindexed
      obtain rfl := groups_unique hcoverage hgroups (needDictionary_eq_ok hcoverage') hindexed
      exact absurd hcycle (not_cycleBelow walksMembers_below ⟨_, _, h⟩)

/-- **Coverage recursion is total and exact.**  For every graph both walks end: they
are functions without a bound.  They refuse a graph with a cycle below the
reference, and where they succeed they return the component ids, respectively the
source members, of exactly what the reference leads to. -/
theorem coverage_recursion_exact (s : Services) (ref : JsonValue) (semantics : Members) :
    (coverageComponentIds ref semantics = componentIdsVisiting ref semantics ∧
      coverageMembers s ref semantics = membersVisiting s ref semantics) ∧
    (CoverageCycle semantics ref →
      (∃ e, coverageComponentIds ref semantics = .error e) ∧
        ∃ e, coverageMembers s ref semantics = .error e) ∧
    (∀ ids, coverageComponentIds ref semantics = .ok ids →
      ∀ id, id ∈ ids ↔ CoversComponent semantics ref id) ∧
    ∀ found, coverageMembers s ref semantics = .ok found →
      ∀ member, member ∈ found ↔ CoversMember s semantics ref member := by
  refine ⟨⟨coverageComponentIds_eq_visiting ref semantics,
    coverageMembers_eq_visiting s ref semantics⟩, fun hcycle => ⟨?_, ?_⟩, fun ids h => ?_,
    fun found h => ?_⟩
  · exact coverageComponentIds_of_cycle hcycle
  · exact coverageMembers_of_cycle hcycle
  · exact mem_coverageComponentIds h
  · exact mem_coverageMembers_iff h

/-- A reference of a kind. -/
def coverageRef (kind : String) (id : Str) : JsonValue :=
  .object [("kind".toList, .text kind.toList), ("id".toList, .text id)]

/-- A group that lists another one twice: a shared group is no cycle. -/
example :
    coverageComponentIds (coverageRef "coverage-group" ['g'])
      [("coverage".toList, .object [("groups".toList, .array [
        .object [("group_id".toList, .text ['g']), ("member_refs".toList, .array
          [coverageRef "coverage-group" ['h'], coverageRef "coverage-group" ['h']])],
        .object [("group_id".toList, .text ['h']), ("member_refs".toList, .array
          [coverageRef "component" ['c']])]])])] = .ok [['c']] := by
  rfl

end SharedContracts
