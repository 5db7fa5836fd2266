import ControlTranslation.JsonValue

/-!
# Values that are the same document

A canonical encoder may reorder the members of an object and rewrite a number,
and nothing else.  `Same` is that relation.  On documents without repeated keys
it preserves whatever a reader of keys and texts can see: each member, the
truth of a value, its text, and the texts found under a key at any depth.
-/

namespace JsonValue

open PyText

mutual

/-- No object of the value repeats a key. -/
def distinct : JsonValue → Bool
  | .array items => distinctItems items
  | .object members => distinctMembers members
  | _ => true

/-- `distinct` of every item. -/
def distinctItems : List JsonValue → Bool
  | [] => true
  | item :: rest => distinct item && distinctItems rest

/-- `distinct` of every value, and no name given twice. -/
def distinctMembers : List (Str × JsonValue) → Bool
  | [] => true
  | (name, value) :: rest =>
      !rest.any (·.1 == name) && distinct value && distinctMembers rest

end

/-- A decoded object: `json.loads` keeps one member for each key. -/
structure Document where
  members : Members
  distinct : distinctMembers members = true

mutual

/-- Equal up to the order of members and the spelling of numbers. -/
inductive Same : JsonValue → JsonValue → Prop
  | null : Same .null .null
  | bool (b : Bool) : Same (.bool b) (.bool b)
  | number {a b : Str} (h : isZeroLiteral a = isZeroLiteral b) : Same (.number a) (.number b)
  | text (s : Str) : Same (.text s) (.text s)
  | array {xs ys : List JsonValue} (h : SameItems xs ys) : Same (.array xs) (.array ys)
  | object {xs ys zs : List (Str × JsonValue)} (h : SameMembers xs ys) (hperm : ys.Perm zs) :
      Same (.object xs) (.object zs)

/-- `Same`, item by item. -/
inductive SameItems : List JsonValue → List JsonValue → Prop
  | nil : SameItems [] []
  | cons {x y : JsonValue} {xs ys : List JsonValue} (h : Same x y) (hrest : SameItems xs ys) :
      SameItems (x :: xs) (y :: ys)

/-- `Same`, member by member, the names in one order. -/
inductive SameMembers : List (Str × JsonValue) → List (Str × JsonValue) → Prop
  | nil : SameMembers [] []
  | cons {name : Str} {x y : JsonValue} {xs ys : List (Str × JsonValue)} (h : Same x y)
      (hrest : SameMembers xs ys) : SameMembers ((name, x) :: xs) ((name, y) :: ys)

end

theorem distinctMembers_cons {name : Str} {value : JsonValue} {rest : Members} :
    distinctMembers ((name, value) :: rest) = true ↔
      (∀ m ∈ rest, m.1 ≠ name) ∧ distinct value = true ∧ distinctMembers rest = true := by
  simp [distinctMembers, and_assoc]

theorem nodup_of_distinctMembers {members : Members} (h : distinctMembers members = true) :
    (members.map (·.1)).Nodup := by
  induction members with
  | nil => exact List.nodup_nil
  | cons member rest ih =>
      obtain ⟨name, value⟩ := member
      obtain ⟨hname, -, hrest⟩ := distinctMembers_cons.mp h
      rw [List.map_cons, List.nodup_cons]
      refine ⟨?_, ih hrest⟩
      intro hmem
      obtain ⟨m, hm, hmname⟩ := List.mem_map.mp hmem
      exact hname m hm hmname

/-- The value of a distinct object's member is distinct. -/
theorem distinct_of_mem {members : Members} (h : distinctMembers members = true)
    {member : Str × JsonValue} (hm : member ∈ members) : distinct member.2 = true := by
  induction members with
  | nil => cases hm
  | cons first rest ih =>
      obtain ⟨name, value⟩ := first
      obtain ⟨-, hvalue, hrest⟩ := distinctMembers_cons.mp h
      rcases List.mem_cons.mp hm with rfl | hm
      · exact hvalue
      · exact ih hrest hm

/-- The member under a key is what `get` answers. -/
theorem get_of_mem {members : Members} (h : (members.map (·.1)).Nodup) {key : Str}
    {value : JsonValue} (hm : (key, value) ∈ members) : get members key = value := by
  induction members with
  | nil => cases hm
  | cons first rest ih =>
      obtain ⟨name, other⟩ := first
      rw [List.map_cons, List.nodup_cons] at h
      rcases List.mem_cons.mp hm with heq | hm
      · obtain ⟨rfl, rfl⟩ := Prod.mk.inj heq
        simp [get]
      · have hne : name ≠ key := by
          rintro rfl
          exact h.1 (List.mem_map.mpr ⟨_, hm, rfl⟩)
        have hrest := ih h.2 hm
        simpa [get, hne] using hrest

theorem get_of_not_mem {members : Members} {key : Str} (h : ∀ m ∈ members, m.1 ≠ key) :
    get members key = .null := by
  have hnone : (members.find? fun member => member.1 = key) = none := by
    rw [List.find?_eq_none]
    intro m hm
    simpa using h m hm
  rw [get, hnone]
  rfl

/-- `get` answers a member or `null`. -/
theorem get_mem_or_null (members : Members) (key : Str) :
    (key, get members key) ∈ members ∨
      (∀ m ∈ members, m.1 ≠ key) ∧ get members key = .null := by
  by_cases h : ∃ m ∈ members, m.1 = key
  · left
    unfold get
    cases hfind : members.find? fun member => member.1 = key with
    | none =>
        obtain ⟨m, hm, hkey⟩ := h
        exact absurd hkey (by simpa using List.find?_eq_none.mp hfind m hm)
    | some m =>
        have hkey : m.1 = key := by simpa using List.find?_some hfind
        have hm := List.mem_of_find?_eq_some hfind
        rw [← hkey]
        exact hm
  · right
    have hnone : ∀ m ∈ members, m.1 ≠ key := fun m hm hkey => h ⟨m, hm, hkey⟩
    exact ⟨hnone, get_of_not_mem hnone⟩

/-- A distinct value that is an object has distinct members. -/
theorem distinctMembers_of_asObject {x : JsonValue} {members : Members}
    (h : distinct x = true) (hx : x.asObject = some members) :
    distinctMembers members = true := by
  cases x with
  | object xs =>
      obtain rfl := Option.some.inj hx
      exact h
  | _ => cases hx

/-- What is read of a distinct object is distinct. -/
theorem distinct_get {members : Members} (h : distinctMembers members = true) (key : Str) :
    distinct (get members key) = true := by
  rcases get_mem_or_null members key with hm | ⟨-, hnull⟩
  · exact distinct_of_mem h hm
  · rw [hnull]
    rfl

/-- `key in members`. -/
def hasKey (members : Members) (key : Str) : Bool := members.any (·.1 == key)

/-- `{**members, key: value}`: a key keeps its place, a new one comes last. -/
def setMember (members : Members) (key : Str) (value : JsonValue) : Members :=
  if hasKey members key then
    members.map fun member => if member.1 = key then (key, value) else member
  else members ++ [(key, value)]

theorem get_cons (name : Str) (value : JsonValue) (rest : Members) (key : Str) :
    get ((name, value) :: rest) key = if name = key then value else get rest key := by
  by_cases h : name = key
  · simp [get, h]
  · simp [get, h]

/-- Replacing the value under a key that is there. -/
theorem get_replace (members : Members) (key : Str) (value : JsonValue) (other : Str) :
    get (members.map fun member => if member.1 = key then (key, value) else member) other =
      if other = key ∧ hasKey members key = true then value else get members other := by
  induction members with
  | nil => simp [get, hasKey]
  | cons member rest ih =>
      obtain ⟨name, old⟩ := member
      rw [List.map_cons]
      by_cases hname : name = key
      · subst hname
        rw [if_pos rfl, get_cons, get_cons, ih]
        by_cases hother : name = other
        · simp [hother, hasKey]
        · have hother' : ¬ other = name := fun h => hother h.symm
          simp [hother, hother']
      · rw [if_neg hname, get_cons, get_cons, ih]
        by_cases hother : name = other
        · have hother' : ¬ other = key := by
            rintro rfl
            exact hname hother
          simp [hother, hother']
        · have hkeys : hasKey ((name, old) :: rest) key = hasKey rest key := by
            simp [hasKey, hname]
          rw [if_neg hother, if_neg hother, hkeys]

/-- A new member is read back, the others as before. -/
theorem get_append (members : Members) (key : Str) (value : JsonValue) (other : Str)
    (h : hasKey members key = false) :
    get (members ++ [(key, value)]) other = if other = key then value else get members other := by
  induction members with
  | nil =>
      rw [List.nil_append, get_cons]
      by_cases hother : other = key
      · simp [hother]
      · have hother' : ¬ key = other := fun h => hother h.symm
        simp [hother, hother']
  | cons member rest ih =>
      obtain ⟨name, old⟩ := member
      simp only [hasKey, List.any_cons, Bool.or_eq_false_iff, beq_eq_false_iff_ne] at h
      rw [List.cons_append, get_cons, get_cons, ih h.2]
      by_cases hother : name = other
      · have hother' : ¬ other = key := by
          rintro rfl
          exact h.1 hother
        simp [hother, hother']
      · simp [hother]

/-- What a changed object answers. -/
theorem get_setMember (members : Members) (key : Str) (value : JsonValue) (other : Str) :
    get (setMember members key value) other = if other = key then value else get members other := by
  unfold setMember
  by_cases h : hasKey members key = true
  · rw [if_pos h, get_replace]
    simp [h]
  · rw [if_neg h, get_append _ _ _ _ (by simpa using h)]

theorem get_setMember_of_ne {members : Members} {key other : Str} {value : JsonValue}
    (h : other ≠ key) : get (setMember members key value) other = get members other := by
  rw [get_setMember, if_neg h]

theorem mem_setMember {members : Members} {key : Str} {value : JsonValue} :
    (key, value) ∈ setMember members key value := by
  unfold setMember
  split_ifs with h
  · obtain ⟨member, hm, hkey⟩ := List.any_eq_true.mp h
    refine List.mem_map.mpr ⟨member, hm, ?_⟩
    rw [if_pos (by simpa using hkey)]
  · simp

theorem hasKey_setMember (members : Members) (key : Str) (value : JsonValue) (other : Str) :
    hasKey (setMember members key value) other =
      (decide (other = key) || hasKey members other) := by
  by_cases h : other = key
  · subst h
    have hmem := @mem_setMember members other value
    rw [decide_eq_true rfl, Bool.true_or]
    exact List.any_eq_true.mpr ⟨_, hmem, by simp⟩
  · have h' : ¬ key = other := fun heq => h heq.symm
    rw [decide_eq_false h, Bool.false_or]
    unfold setMember
    split_ifs
    · unfold hasKey
      rw [List.any_map]
      refine congrArg (List.any members) (funext fun member => ?_)
      by_cases hmember : member.1 = key
      · simp [hmember]
      · simp [hmember]
    · simp [hasKey, List.any_append, h']

/-- The names of an object with one member replaced are the same. -/
theorem distinctMembers_replace {members : Members} {key : Str} {value : JsonValue}
    (h : distinctMembers members = true) (hvalue : distinct value = true) :
    distinctMembers (members.map fun member =>
      if member.1 = key then (key, value) else member) = true := by
  induction members with
  | nil => rfl
  | cons member rest ih =>
      obtain ⟨name, old⟩ := member
      obtain ⟨hname, hold, hrest⟩ := distinctMembers_cons.mp h
      have hnames : ∀ m ∈ rest.map fun member =>
          if member.1 = key then (key, value) else member, m.1 ≠ name := by
        intro m hm
        obtain ⟨m', hm', rfl⟩ := List.mem_map.mp hm
        by_cases hkey : m'.1 = key
        · rw [if_pos hkey, ← hkey]
          exact hname m' hm'
        · rw [if_neg hkey]
          exact hname m' hm'
      rw [List.map_cons]
      by_cases hkey : name = key
      · rw [if_pos hkey]
        rw [hkey] at hnames
        exact distinctMembers_cons.mpr ⟨hnames, hvalue, ih hrest⟩
      · rw [if_neg hkey]
        exact distinctMembers_cons.mpr ⟨hnames, hold, ih hrest⟩

theorem distinctMembers_append {members : Members} {key : Str} {value : JsonValue}
    (h : distinctMembers members = true) (hvalue : distinct value = true)
    (hkey : hasKey members key = false) :
    distinctMembers (members ++ [(key, value)]) = true := by
  induction members with
  | nil => simp [distinctMembers, hvalue]
  | cons member rest ih =>
      obtain ⟨name, old⟩ := member
      obtain ⟨hname, hold, hrest⟩ := distinctMembers_cons.mp h
      simp only [hasKey, List.any_cons, Bool.or_eq_false_iff, beq_eq_false_iff_ne] at hkey
      rw [List.cons_append]
      refine distinctMembers_cons.mpr ⟨?_, hold, ih hrest hkey.2⟩
      intro m hm
      rcases List.mem_append.mp hm with hm | hm
      · exact hname m hm
      · obtain rfl := List.mem_singleton.mp hm
        exact fun heq => hkey.1 heq.symm

theorem distinctMembers_setMember {members : Members} {key : Str} {value : JsonValue}
    (h : distinctMembers members = true) (hvalue : distinct value = true) :
    distinctMembers (setMember members key value) = true := by
  unfold setMember
  by_cases hkey : hasKey members key = true
  · rw [if_pos hkey]
    exact distinctMembers_replace h hvalue
  · rw [if_neg hkey]
    exact distinctMembers_append h hvalue (by simpa using hkey)

/-- Leaving members out keeps what the others answer. -/
theorem get_filter {members : Members} {p : Str × JsonValue → Bool} {key : Str}
    (h : ∀ m ∈ members, m.1 = key → p m = true) :
    get (members.filter p) key = get members key := by
  induction members with
  | nil => rfl
  | cons member rest ih =>
      obtain ⟨name, value⟩ := member
      have hrest := ih fun m hm => h m (List.mem_cons_of_mem _ hm)
      by_cases hp : p (name, value) = true
      · rw [List.filter_cons_of_pos hp, get_cons, get_cons, hrest]
      · have hname : name ≠ key := fun heq => hp (h _ List.mem_cons_self heq)
        rw [List.filter_cons_of_neg hp, get_cons, if_neg hname, hrest]

theorem distinctMembers_filter {members : Members} (h : distinctMembers members = true)
    (p : Str × JsonValue → Bool) : distinctMembers (members.filter p) = true := by
  induction members with
  | nil => rfl
  | cons member rest ih =>
      obtain ⟨name, value⟩ := member
      obtain ⟨hname, hvalue, hrest⟩ := distinctMembers_cons.mp h
      by_cases hp : p (name, value) = true
      · rw [List.filter_cons_of_pos hp]
        exact distinctMembers_cons.mpr
          ⟨fun m hm => hname m (List.mem_of_mem_filter hm), hvalue, ih hrest⟩
      · rw [List.filter_cons_of_neg hp]
        exact ih hrest

namespace Same

variable {x y : JsonValue}

theorem asText_eq (h : Same x y) : x.asText = y.asText := by cases h <;> rfl

theorem asNonemptyText_eq (h : Same x y) : x.asNonemptyText = y.asNonemptyText := by
  rw [asNonemptyText, asNonemptyText, h.asText_eq]

theorem asObject_isSome_eq (h : Same x y) : x.asObject.isSome = y.asObject.isSome := by
  cases h <;> rfl

end Same

mutual

theorem Same.refl : ∀ x : JsonValue, Same x x
  | .null => .null
  | .bool b => .bool b
  | .number _ => .number rfl
  | .text s => .text s
  | .array items => .array (SameItems.refl items)
  | .object members => .object (SameMembers.refl members) (.refl _)

theorem SameItems.refl : ∀ items : List JsonValue, SameItems items items
  | [] => .nil
  | item :: rest => .cons (Same.refl item) (SameItems.refl rest)

theorem SameMembers.refl : ∀ members : List (Str × JsonValue), SameMembers members members
  | [] => .nil
  | (_, value) :: rest => .cons (Same.refl value) (SameMembers.refl rest)

end

theorem SameItems.isEmpty_eq {xs ys : List JsonValue} (h : SameItems xs ys) :
    xs.isEmpty = ys.isEmpty := by
  cases h <;> rfl

/-- Same objects have the same names in one order. -/
theorem SameMembers.map_fst_eq : ∀ {xs ys : Members}, SameMembers xs ys →
    xs.map (·.1) = ys.map (·.1)
  | _, _, .nil => rfl
  | _, _, .cons _ hrest => by
      rw [List.map_cons, List.map_cons, hrest.map_fst_eq]

/-- A member of one of two same objects has its fellow in the other. -/
theorem SameMembers.mem : ∀ {xs ys : Members}, SameMembers xs ys → ∀ {key : Str}
    {x : JsonValue}, (key, x) ∈ xs → ∃ y, Same x y ∧ (key, y) ∈ ys
  | _, _, .nil, _, _, hm => by cases hm
  | _, _, .cons h hrest, _, _, hm => by
      rcases List.mem_cons.mp hm with heq | hm
      · obtain ⟨rfl, rfl⟩ := Prod.mk.inj heq
        exact ⟨_, h, List.mem_cons_self⟩
      · obtain ⟨y, hy, hmem⟩ := hrest.mem hm
        exact ⟨y, hy, List.mem_cons_of_mem _ hmem⟩

theorem Same.truthy_eq {x y : JsonValue} (h : Same x y) : x.truthy = y.truthy := by
  cases h with
  | number h => simp only [truthy, h]
  | array h => simp only [truthy, h.isEmpty_eq]
  | @object xs ys zs h hperm =>
      have hlength : xs.length = zs.length := by
        have hnames := congrArg List.length h.map_fst_eq
        rw [List.length_map, List.length_map] at hnames
        rw [hnames, hperm.length_eq]
      cases xs with
      | nil =>
          obtain rfl := List.length_eq_zero_iff.mp hlength.symm
          rfl
      | cons x xs =>
          cases zs with
          | nil => cases hlength
          | cons z zs => rfl
  | _ => rfl

theorem Same.orElse {x y : JsonValue} (h : Same x y) (other : JsonValue) :
    Same (x.orElse other) (y.orElse other) := by
  unfold JsonValue.orElse
  rw [h.truthy_eq]
  split_ifs
  · exact h
  · exact .refl other

/-- Both are objects, with the same members, or neither is. -/
theorem Same.asObject_cases {x y : JsonValue} (h : Same x y) :
    (x.asObject = none ∧ y.asObject = none) ∨
      ∃ xs zs, x.asObject = some xs ∧ y.asObject = some zs ∧ Same (.object xs) (.object zs) := by
  cases h with
  | object h hperm => exact .inr ⟨_, _, rfl, rfl, .object h hperm⟩
  | _ => exact .inl ⟨rfl, rfl⟩

/-- **Members.**  The same document has the same member under each key. -/
theorem Same.get {xs zs : Members} (h : Same (.object xs) (.object zs))
    (hdistinct : distinctMembers xs = true) (key : Str) :
    Same (get xs key) (get zs key) := by
  cases h with
  | @object _ ys _ h hperm =>
      have hnodup : (zs.map (·.1)).Nodup := by
        have hys := nodup_of_distinctMembers hdistinct
        rw [h.map_fst_eq] at hys
        exact (hperm.map _).nodup_iff.mp hys
      rcases get_mem_or_null xs key with hm | ⟨hnone, hnull⟩
      · obtain ⟨y, hy, hmem⟩ := h.mem hm
        rw [get_of_mem hnodup (hperm.mem_iff.mp hmem)]
        exact hy
      · have hnone' : ∀ m ∈ zs, m.1 ≠ key := by
          intro m hm hkey
          have hname : key ∈ xs.map (·.1) := by
            rw [h.map_fst_eq]
            exact List.mem_map.mpr ⟨m, hperm.mem_iff.mpr hm, hkey⟩
          obtain ⟨m', hm', hkey'⟩ := List.mem_map.mp hname
          exact hnone m' hm' hkey'
        rw [hnull, get_of_not_mem hnone']
        exact .null

/-- A text is found under a key in some member. -/
theorem mem_occurrencesInMembers {key v : Str} {members : Members} :
    v ∈ occurrencesInMembers key members ↔
      ∃ m ∈ members, v ∈ textUnder key m ∨ v ∈ occurrences key m.2 := by
  induction members with
  | nil => simp [occurrencesInMembers]
  | cons member rest ih =>
      obtain ⟨name, value⟩ := member
      simp only [occurrencesInMembers, List.mem_append, ih, List.mem_cons, exists_eq_or_imp]

/-- Same members have the same text under a key. -/
theorem textUnder_eq_of_same {x y : JsonValue} (h : Same x y) (key name : Str) :
    textUnder key (name, x) = textUnder key (name, y) := by
  simp only [textUnder, h.asNonemptyText_eq]

mutual

/-- **Found texts.**  The same document holds the same texts under a key. -/
theorem mem_occurrences_of_same (key v : Str) : ∀ (x y : JsonValue), Same x y →
    (v ∈ occurrences key x ↔ v ∈ occurrences key y)
  | .null, _, .null => Iff.rfl
  | .bool _, _, .bool _ => Iff.rfl
  | .number _, _, .number _ => Iff.rfl
  | .text _, _, .text _ => Iff.rfl
  | .array xs, .array ys, .array h => mem_occurrencesInItems_of_same key v xs ys h
  | .object xs, .object zs, @Same.object _ ys _ h hperm => by
      have hxs := mem_occurrencesInMembers_of_same key v xs ys h
      have hzs : v ∈ occurrencesInMembers key ys ↔ v ∈ occurrencesInMembers key zs := by
        simp only [mem_occurrencesInMembers, hperm.mem_iff]
      exact hxs.trans hzs

theorem mem_occurrencesInItems_of_same (key v : Str) : ∀ (xs ys : List JsonValue),
    SameItems xs ys → (v ∈ occurrencesInItems key xs ↔ v ∈ occurrencesInItems key ys)
  | [], _, .nil => Iff.rfl
  | x :: xs, y :: ys, .cons h hrest => by
      have hx := mem_occurrences_of_same key v x y h
      have hxs := mem_occurrencesInItems_of_same key v xs ys hrest
      simp only [occurrencesInItems, List.mem_append, hx, hxs]

theorem mem_occurrencesInMembers_of_same (key v : Str) :
    ∀ (xs ys : List (Str × JsonValue)), SameMembers xs ys →
      (v ∈ occurrencesInMembers key xs ↔ v ∈ occurrencesInMembers key ys)
  | [], _, .nil => Iff.rfl
  | (name, x) :: xs, (_, y) :: ys, .cons h hrest => by
      have hx := mem_occurrences_of_same key v x y h
      have hxs := mem_occurrencesInMembers_of_same key v xs ys hrest
      simp only [occurrencesInMembers, List.mem_append, hx, hxs, textUnder_eq_of_same h]

end

end JsonValue
