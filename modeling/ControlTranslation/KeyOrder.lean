import ControlTranslation.JsonSame
import ControlTranslation.JsonText
import Mathlib

/-!
# The order of keys

Two documents that differ only in the order of keys inside objects, at any
depth.  Where no object repeats a key, such documents hold related members
under every key, so whatever is found by key is found in both.  `sorted` is the
one order an encoder may choose for itself; it keeps the members and so the
length of the text.
-/

namespace JsonValue

open PyText

mutual

/-- Equal but for the order of the members of objects. -/
inductive Reordered : JsonValue → JsonValue → Prop
  | refl (v : JsonValue) : Reordered v v
  | array {xs ys : List JsonValue} (h : ReorderedItems xs ys) : Reordered (.array xs) (.array ys)
  | object {xs ys zs : List (Str × JsonValue)} (h : ReorderedMembers xs ys)
      (hperm : ys.Perm zs) : Reordered (.object xs) (.object zs)

/-- `Reordered`, item by item. -/
inductive ReorderedItems : List JsonValue → List JsonValue → Prop
  | nil : ReorderedItems [] []
  | cons {x y : JsonValue} {xs ys : List JsonValue} (h : Reordered x y)
      (hrest : ReorderedItems xs ys) : ReorderedItems (x :: xs) (y :: ys)

/-- `Reordered`, member by member. -/
inductive ReorderedMembers : List (Str × JsonValue) → List (Str × JsonValue) → Prop
  | nil : ReorderedMembers [] []
  | cons {name : Str} {x y : JsonValue} {xs ys : List (Str × JsonValue)} (h : Reordered x y)
      (hrest : ReorderedMembers xs ys) : ReorderedMembers ((name, x) :: xs) ((name, y) :: ys)

end

theorem ReorderedMembers.refl : ∀ members : Members, ReorderedMembers members members
  | [] => .nil
  | (_, value) :: rest => .cons (.refl value) (ReorderedMembers.refl rest)

/-- The member under a key, if there is one. -/
def member? (members : Members) (key : Str) : Option JsonValue :=
  (members.find? fun member => member.1 = key).map (·.2)

theorem member?_cons (name : Str) (value : JsonValue) (rest : Members) (key : Str) :
    member? ((name, value) :: rest) key = if name = key then some value else member? rest key := by
  unfold member?
  by_cases hname : name = key
  · simp [hname]
  · simp [hname]

/-- Under distinct keys a member is found by its key. -/
theorem member?_of_mem {members : Members} (h : (members.map (·.1)).Nodup) {key : Str}
    {value : JsonValue} (hm : (key, value) ∈ members) : member? members key = some value := by
  induction members with
  | nil => cases hm
  | cons first rest ih =>
      obtain ⟨name, other⟩ := first
      rw [List.map_cons, List.nodup_cons] at h
      rw [member?_cons]
      rcases List.mem_cons.mp hm with heq | hm
      · obtain ⟨rfl, rfl⟩ := Prod.mk.inj heq
        rw [if_pos rfl]
      · have hne : name ≠ key := by
          rintro rfl
          exact h.1 (List.mem_map.mpr ⟨_, hm, rfl⟩)
        rw [if_neg hne]
        exact ih h.2 hm

theorem member?_eq_none {members : Members} {key : Str} :
    member? members key = none ↔ ∀ m ∈ members, m.1 ≠ key := by
  simp [member?]

theorem mem_of_member? {members : Members} {key : Str} {value : JsonValue}
    (h : member? members key = some value) : (key, value) ∈ members := by
  obtain ⟨m, hfind, rfl⟩ := Option.map_eq_some_iff.mp h
  have hkey : m.1 = key := by simpa using List.find?_some hfind
  rw [← hkey]
  exact List.mem_of_find?_eq_some hfind

theorem ReorderedMembers.map_fst_eq : ∀ {xs ys : Members}, ReorderedMembers xs ys →
    xs.map (·.1) = ys.map (·.1)
  | _, _, .nil => rfl
  | _, _, .cons _ hrest => by
      rw [List.map_cons, List.map_cons, hrest.map_fst_eq]

/-- Related members hold related values under a key. -/
theorem ReorderedMembers.member? {xs ys : Members} (h : ReorderedMembers xs ys) (key : Str) :
    Option.Rel Reordered (member? xs key) (member? ys key) := by
  cases h with
  | nil => exact .none
  | cons hvalue hrest =>
      rw [member?_cons, member?_cons]
      split_ifs with hname
      · exact .some hvalue
      · exact hrest.member? key

/-- Under distinct keys the order of the members does not matter for what is found. -/
theorem member?_perm {xs ys : Members} (hperm : xs.Perm ys) (hdistinct : (ys.map (·.1)).Nodup)
    (key : Str) : member? xs key = member? ys key := by
  have hkeys : (xs.map (·.1)).Nodup := ((hperm.map (·.1)).nodup_iff).mpr hdistinct
  cases hys : member? ys key with
  | none =>
      rw [member?_eq_none] at hys ⊢
      exact fun m hm => hys m (hperm.mem_iff.mp hm)
  | some value => exact member?_of_mem hkeys (hperm.mem_iff.mpr (mem_of_member? hys))

/-- A member of an updated object was put there or was there under another key. -/
theorem mem_setMember_iff {members : Members} {key : Str} {value : JsonValue}
    {m : Str × JsonValue} :
    m ∈ setMember members key value ↔ m = (key, value) ∨ (m ∈ members ∧ m.1 ≠ key) := by
  constructor
  · intro h
    unfold setMember at h
    split_ifs at h with hkey
    · obtain ⟨m', hm', rfl⟩ := List.mem_map.mp h
      split_ifs with hname
      · exact .inl rfl
      · exact .inr ⟨hm', hname⟩
    · rcases List.mem_append.mp h with h | h
      · refine .inr ⟨h, fun hname => hkey (List.any_eq_true.mpr ⟨m, h, ?_⟩)⟩
        rw [hname, beq_self_eq_true]
      · exact .inl (List.mem_singleton.mp h)
  · rintro (rfl | ⟨hm, hname⟩)
    · exact mem_setMember
    · unfold setMember
      split_ifs
      · exact List.mem_map.mpr ⟨m, hm, if_neg hname⟩
      · exact List.mem_append_left _ hm

theorem distinctMembers_iff {members : Members} :
    distinctMembers members = true ↔
      (members.map (·.1)).Nodup ∧ ∀ m ∈ members, distinct m.2 = true := by
  constructor
  · intro h
    exact ⟨nodup_of_distinctMembers h, fun m hm => distinct_of_mem h hm⟩
  · rintro ⟨hkeys, hvalues⟩
    induction members with
    | nil => rfl
    | cons first rest ih =>
        obtain ⟨name, value⟩ := first
        rw [List.map_cons, List.nodup_cons] at hkeys
        refine distinctMembers_cons.mpr ⟨?_, hvalues _ List.mem_cons_self, ?_⟩
        · rintro m hm rfl
          exact hkeys.1 (List.mem_map.mpr ⟨m, hm, rfl⟩)
        · exact ih hkeys.2 fun m hm => hvalues m (List.mem_cons_of_mem _ hm)

theorem finiteMembers_iff {members : Members} :
    finiteMembers members = true ↔ ∀ m ∈ members, finite m.2 = true := by
  induction members with
  | nil => simp [finiteMembers]
  | cons first rest ih =>
      obtain ⟨name, value⟩ := first
      simp [finiteMembers, ih]

mutual

/-- A reordered document repeats no key either. -/
theorem Reordered.distinct {x y : JsonValue} (h : Reordered x y) (hy : distinct y = true) :
    distinct x = true := by
  cases h with
  | refl => exact hy
  | array hitems => exact hitems.distinct hy
  | @object xs ys zs hmembers hperm =>
      have hys : distinctMembers ys = true := by
        obtain ⟨hkeys, hvalues⟩ := distinctMembers_iff.mp hy
        exact distinctMembers_iff.mpr ⟨((hperm.map (·.1)).nodup_iff).mpr hkeys,
          fun m hm => hvalues m (hperm.mem_iff.mp hm)⟩
      exact hmembers.distinct hys

theorem ReorderedItems.distinct {xs ys : List JsonValue} (h : ReorderedItems xs ys)
    (hys : distinctItems ys = true) : distinctItems xs = true := by
  cases h with
  | nil => rfl
  | cons hitem hrest =>
      simp only [distinctItems, Bool.and_eq_true] at hys ⊢
      exact ⟨hitem.distinct hys.1, hrest.distinct hys.2⟩

theorem ReorderedMembers.distinct {xs ys : Members} (h : ReorderedMembers xs ys)
    (hys : distinctMembers ys = true) : distinctMembers xs = true := by
  cases h with
  | nil => rfl
  | @cons name x y xs ys hvalue hrest =>
      obtain ⟨hname, hy, hrest'⟩ := distinctMembers_cons.mp hys
      refine distinctMembers_cons.mpr ⟨?_, hvalue.distinct hy, hrest.distinct hrest'⟩
      rintro m hm rfl
      have hkey : m.1 ∈ ys.map (·.1) := hrest.map_fst_eq ▸ List.mem_map_of_mem hm
      obtain ⟨m', hm', hsame⟩ := List.mem_map.mp hkey
      exact hname m' hm' hsame

end

mutual

/-- Nor does any other order of it. -/
theorem Reordered.distinct_right {x y : JsonValue} (h : Reordered x y)
    (hx : JsonValue.distinct x = true) : JsonValue.distinct y = true := by
  cases h with
  | refl => exact hx
  | array hitems => exact hitems.distinct_right hx
  | @object xs ys zs hmembers hperm =>
      obtain ⟨hkeys, hvalues⟩ := distinctMembers_iff.mp (hmembers.distinct_right hx)
      exact distinctMembers_iff.mpr ⟨((hperm.map (·.1)).nodup_iff).mp hkeys,
        fun m hm => hvalues m (hperm.mem_iff.mpr hm)⟩

theorem ReorderedItems.distinct_right {xs ys : List JsonValue} (h : ReorderedItems xs ys)
    (hxs : distinctItems xs = true) : distinctItems ys = true := by
  cases h with
  | nil => rfl
  | cons hitem hrest =>
      simp only [distinctItems, Bool.and_eq_true] at hxs ⊢
      exact ⟨hitem.distinct_right hxs.1, hrest.distinct_right hxs.2⟩

theorem ReorderedMembers.distinct_right {xs ys : Members} (h : ReorderedMembers xs ys)
    (hxs : distinctMembers xs = true) : distinctMembers ys = true := by
  cases h with
  | nil => rfl
  | @cons name x y xs ys hvalue hrest =>
      obtain ⟨hname, hx, hrest'⟩ := distinctMembers_cons.mp hxs
      refine distinctMembers_cons.mpr
        ⟨?_, hvalue.distinct_right hx, hrest.distinct_right hrest'⟩
      rintro m hm rfl
      have hkey : m.1 ∈ xs.map (·.1) := hrest.map_fst_eq ▸ List.mem_map_of_mem hm
      obtain ⟨m', hm', hsame⟩ := List.mem_map.mp hkey
      exact hname m' hm' hsame

end

mutual

/-- A reordered document has the same numbers. -/
theorem Reordered.finite {x y : JsonValue} (h : Reordered x y) (hy : finite y = true) :
    finite x = true := by
  cases h with
  | refl => exact hy
  | array hitems => exact hitems.finite hy
  | @object xs ys zs hmembers hperm =>
      have hys : finiteMembers ys = true :=
        finiteMembers_iff.mpr fun m hm => finiteMembers_iff.mp hy m (hperm.mem_iff.mp hm)
      exact hmembers.finite hys

theorem ReorderedItems.finite {xs ys : List JsonValue} (h : ReorderedItems xs ys)
    (hys : finiteItems ys = true) : finiteItems xs = true := by
  cases h with
  | nil => rfl
  | cons hitem hrest =>
      simp only [finiteItems, Bool.and_eq_true] at hys ⊢
      exact ⟨hitem.finite hys.1, hrest.finite hys.2⟩

theorem ReorderedMembers.finite {xs ys : Members} (h : ReorderedMembers xs ys)
    (hys : finiteMembers ys = true) : finiteMembers xs = true := by
  cases h with
  | nil => rfl
  | cons hvalue hrest =>
      simp only [finiteMembers, Bool.and_eq_true] at hys ⊢
      exact ⟨hvalue.finite hys.1, hrest.finite hys.2⟩

end

/-- **Members by key.**  Two orders of one object hold related values under every key. -/
theorem Reordered.member? {xs zs : Members} (h : Reordered (.object xs) (.object zs))
    (hdistinct : distinctMembers zs = true) (key : Str) :
    Option.Rel Reordered (JsonValue.member? xs key) (JsonValue.member? zs key) := by
  cases h with
  | refl =>
      cases JsonValue.member? xs key with
      | none => exact .none
      | some value => exact .some (.refl value)
  | object hmembers hperm =>
      rw [← member?_perm hperm (nodup_of_distinctMembers hdistinct) key]
      exact hmembers.member? key

/-- Two orders of one object have the same keys. -/
theorem Reordered.keys {xs zs : Members} (h : Reordered (.object xs) (.object zs)) :
    (xs.map (·.1)).Perm (zs.map (·.1)) := by
  cases h with
  | refl => exact List.Perm.refl _
  | object hmembers hperm =>
      rw [hmembers.map_fst_eq]
      exact hperm.map (·.1)

/-- What holds of every key holds in either order. -/
theorem Reordered.all_keys {xs zs : Members} (h : Reordered (.object xs) (.object zs))
    (p : Str → Bool) : (xs.all fun m => p m.1) = zs.all fun m => p m.1 := by
  have hkeys : ∀ members : Members,
      (members.all fun m => p m.1) = (members.map (·.1)).all p := by
    intro members
    rw [List.all_map]
    rfl
  rw [hkeys xs, hkeys zs, Bool.eq_iff_iff, List.all_eq_true, List.all_eq_true]
  exact ⟨fun hall key hkey => hall key (h.keys.mem_iff.mpr hkey),
    fun hall key hkey => hall key (h.keys.mem_iff.mp hkey)⟩

mutual

/-- `sort_keys=True`. -/
def sorted : JsonValue → JsonValue
  | .array items => .array (sortedItems items)
  | .object members =>
      .object ((sortedMembers members).insertionSort fun m m' => textLe m.1 m'.1 = true)
  | value => value

/-- `sorted` over the items of an array. -/
def sortedItems : List JsonValue → List JsonValue
  | [] => []
  | item :: rest => sorted item :: sortedItems rest

/-- The members, each sorted inside. -/
def sortedMembers : List (Str × JsonValue) → List (Str × JsonValue)
  | [] => []
  | (name, value) :: rest => (name, sorted value) :: sortedMembers rest

end

section

variable (escape : Char → Str)

/-- What a member adds to the text of its object: two texts, a colon and a separator. -/
def memberLength (member : Str × JsonValue) : Nat :=
  (printText escape member.1).length + (print escape member.2).length + 2

theorem length_printMembers (members : Members) :
    (printMembers escape members).length = (members.map (memberLength escape)).sum + 1 := by
  induction members with
  | nil => rfl
  | cons first rest ih =>
      obtain ⟨name, value⟩ := first
      simp only [printMembers, List.length_cons, List.length_append, ih, List.map_cons,
        List.sum_cons, memberLength]
      omega

/-- The length of an object's text. -/
theorem length_print_object (members : Members) :
    (print escape (.object members)).length =
      (members.map (memberLength escape)).sum + if members = [] then 2 else 1 := by
  cases members with
  | nil => rfl
  | cons first rest =>
      obtain ⟨name, value⟩ := first
      simp only [print, List.length_cons, List.length_append, length_printMembers,
        List.map_cons, List.sum_cons, memberLength, reduceCtorEq, if_false]
      omega

theorem length_printItems (items : List JsonValue) :
    (printItems escape items).length =
      (items.map fun item => (print escape item).length + 1).sum + 1 := by
  induction items with
  | nil => rfl
  | cons item rest ih =>
      simp only [printItems, List.length_cons, List.length_append, ih, List.map_cons,
        List.sum_cons]
      omega

/-- The length of an array's text. -/
theorem length_print_array (items : List JsonValue) :
    (print escape (.array items)).length =
      (items.map fun item => (print escape item).length + 1).sum + if items = [] then 2 else 1 := by
  cases items with
  | nil => rfl
  | cons item rest =>
      simp only [print, List.length_cons, List.length_append, length_printItems,
        List.map_cons, List.sum_cons, reduceCtorEq, if_false]
      omega

theorem sortedMembers_eq (members : Members) :
    sortedMembers members = members.map fun m => (m.1, sorted m.2) := by
  induction members with
  | nil => rfl
  | cons first rest ih =>
      obtain ⟨name, value⟩ := first
      rw [sortedMembers, ih, List.map_cons]

theorem sortedItems_eq (items : List JsonValue) : sortedItems items = items.map sorted := by
  induction items with
  | nil => rfl
  | cons item rest ih => rw [sortedItems, ih, List.map_cons]

mutual

/-- Sorting keeps the length of the text. -/
theorem length_print_sorted : ∀ v : JsonValue,
    (print escape (sorted v)).length = (print escape v).length
  | .null | .bool _ | .number _ | .text _ => rfl
  | .array items => by
      have hempty : sortedItems items = [] ↔ items = [] := by
        rw [sortedItems_eq, List.map_eq_nil_iff]
      rw [sorted, length_print_array, length_print_array, sum_sortedItems items]
      simp only [hempty]
  | .object members => by
      have hperm := List.perm_insertionSort
        (fun m m' : Str × JsonValue => textLe m.1 m'.1 = true) (sortedMembers members)
      have hempty : (sortedMembers members).insertionSort
          (fun m m' => textLe m.1 m'.1 = true) = [] ↔ members = [] := by
        rw [← List.length_eq_zero_iff, hperm.length_eq, sortedMembers_eq, List.length_map,
          List.length_eq_zero_iff]
      rw [sorted, length_print_object, length_print_object,
        (hperm.map (memberLength escape)).sum_nat, sum_sortedMembers members]
      simp only [hempty]

theorem sum_sortedItems : ∀ items : List JsonValue,
    ((sortedItems items).map fun item => (print escape item).length + 1).sum =
      (items.map fun item => (print escape item).length + 1).sum
  | [] => rfl
  | item :: rest => by
      simp only [sortedItems, List.map_cons, List.sum_cons]
      rw [length_print_sorted item, sum_sortedItems rest]

theorem sum_sortedMembers : ∀ members : Members,
    ((sortedMembers members).map (memberLength escape)).sum =
      (members.map (memberLength escape)).sum
  | [] => rfl
  | (name, value) :: rest => by
      simp only [sortedMembers, List.map_cons, List.sum_cons, memberLength]
      rw [length_print_sorted value, sum_sortedMembers rest]

end

end

theorem sortedMembers_keys (members : Members) :
    (sortedMembers members).map (·.1) = members.map (·.1) := by
  rw [sortedMembers_eq, List.map_map]
  rfl

mutual

/-- Sorting repeats no key. -/
theorem distinct_sorted : ∀ v : JsonValue, distinct v = true → distinct (sorted v) = true
  | .null, _ | .bool _, _ | .number _, _ | .text _, _ => rfl
  | .array items, h => distinctItems_sorted items h
  | .object members, h => by
      obtain ⟨hkeys, hvalues⟩ := distinctMembers_iff.mp (distinctMembers_sorted members h)
      have hperm := List.perm_insertionSort
        (fun m m' : Str × JsonValue => textLe m.1 m'.1 = true) (sortedMembers members)
      exact distinctMembers_iff.mpr ⟨((hperm.map (·.1)).nodup_iff).mpr hkeys,
        fun m hm => hvalues m (hperm.mem_iff.mp hm)⟩

theorem distinctItems_sorted : ∀ items : List JsonValue, distinctItems items = true →
    distinctItems (sortedItems items) = true
  | [], _ => rfl
  | item :: rest, h => by
      simp only [distinctItems, Bool.and_eq_true] at h
      simp only [sortedItems, distinctItems, Bool.and_eq_true]
      exact ⟨distinct_sorted item h.1, distinctItems_sorted rest h.2⟩

theorem distinctMembers_sorted : ∀ members : Members, distinctMembers members = true →
    distinctMembers (sortedMembers members) = true
  | [], _ => rfl
  | (name, value) :: rest, h => by
      obtain ⟨hname, hvalue, hrest⟩ := distinctMembers_cons.mp h
      refine distinctMembers_cons.mpr
        ⟨?_, distinct_sorted value hvalue, distinctMembers_sorted rest hrest⟩
      intro m hm
      rw [sortedMembers_eq] at hm
      obtain ⟨m', hm', rfl⟩ := List.mem_map.mp hm
      exact hname m' hm'

end

theorem textLe_total : ∀ s t : Str, textLe s t = true ∨ textLe t s = true
  | [], _ => .inl rfl
  | _ :: _, [] => .inr rfl
  | a :: s, b :: t => by
      rcases Nat.lt_trichotomy a.toNat b.toNat with hlt | heq | hgt
      · simp [textLe, hlt]
      · obtain rfl := Char.toNat_inj.mp heq
        rcases textLe_total s t with h | h
        · simp [textLe, h]
        · simp [textLe, h]
      · simp [textLe, hgt]

theorem textLe_trans : ∀ {s t u : Str}, textLe s t = true → textLe t u = true →
    textLe s u = true
  | [], _, _, _, _ => rfl
  | a :: s, b :: t, c :: u, hst, htu => by
      simp only [textLe, Bool.or_eq_true, decide_eq_true_eq, Bool.and_eq_true, beq_iff_eq]
        at hst htu ⊢
      rcases hst with hab | ⟨rfl, hst⟩
      · rcases htu with hbc | ⟨rfl, -⟩
        · exact .inl (Nat.lt_trans hab hbc)
        · exact .inl hab
      · rcases htu with hbc | ⟨rfl, htu⟩
        · exact .inl hbc
        · exact .inr ⟨rfl, textLe_trans hst htu⟩

theorem textLe_antisymm : ∀ {s t : Str}, textLe s t = true → textLe t s = true → s = t
  | [], [], _, _ => rfl
  | a :: s, b :: t, hst, hts => by
      simp only [textLe, Bool.or_eq_true, decide_eq_true_eq, Bool.and_eq_true, beq_iff_eq]
        at hst hts
      rcases hst with hlt | ⟨rfl, hst⟩
      · rcases hts with hgt | ⟨rfl, -⟩
        · omega
        · omega
      · rcases hts with hgt | ⟨-, hts⟩
        · omega
        · rw [textLe_antisymm hst hts]

/-- The members of a sorted object come in the order of their keys. -/
theorem pairwise_sorted (members : Members) :
    (members.insertionSort fun m m' => textLe m.1 m'.1 = true).Pairwise
      fun m m' => textLe m.1 m'.1 = true := by
  have htotal : Std.Total fun m m' : Str × JsonValue => textLe m.1 m'.1 = true :=
    ⟨fun m m' => textLe_total m.1 m'.1⟩
  have htrans : IsTrans (Str × JsonValue) fun m m' => textLe m.1 m'.1 = true :=
    ⟨fun _ _ _ => textLe_trans⟩
  exact List.pairwise_insertionSort (fun m m' : Str × JsonValue => textLe m.1 m'.1 = true) members

/-- The first member of a sorted object comes before every other. -/
theorem textLe_head {members : Members} {first : Str × JsonValue} {rest : Members}
    (h : (members.insertionSort fun m m' => textLe m.1 m'.1 = true) = first :: rest)
    {m : Str × JsonValue} (hm : m ∈ members) : textLe first.1 m.1 = true := by
  have hsorted := pairwise_sorted members
  rw [h] at hsorted
  have hmem : m ∈ first :: rest := by
    rw [← h]
    exact (List.perm_insertionSort _ members).mem_iff.mpr hm
  rcases List.mem_cons.mp hmem with rfl | hrest
  · rcases textLe_total m.1 m.1 with hself | hself
    · exact hself
    · exact hself
  · exact (List.pairwise_cons.mp hsorted).1 m hrest

/-- Distinct members have one order. -/
theorem insertionSort_eq_of_perm {xs ys : Members} (hperm : xs.Perm ys)
    (hdistinct : (ys.map (·.1)).Nodup) :
    (xs.insertionSort fun m m' => textLe m.1 m'.1 = true) =
      ys.insertionSort fun m m' => textLe m.1 m'.1 = true := by
  have hxs := List.perm_insertionSort (fun m m' : Str × JsonValue => textLe m.1 m'.1 = true) xs
  have hys := List.perm_insertionSort (fun m m' : Str × JsonValue => textLe m.1 m'.1 = true) ys
  refine List.Perm.eq_of_pairwise ?_ (pairwise_sorted xs) (pairwise_sorted ys)
    (hxs.trans (hperm.trans hys.symm))
  intro m m' hm hm' hle hge
  exact List.inj_on_of_nodup_map hdistinct ((hxs.trans hperm).mem_iff.mp hm)
    (hys.mem_iff.mp hm') (textLe_antisymm hle hge)

mutual

/-- **One sorted form.**  Documents that differ in the order of keys sort alike. -/
theorem Reordered.sorted_eq {x y : JsonValue} (h : Reordered x y) (hy : distinct y = true) :
    sorted x = sorted y := by
  cases h with
  | refl => rfl
  | array hitems => exact congrArg JsonValue.array (hitems.sorted_eq hy)
  | @object xs ys zs hmembers hperm =>
      obtain ⟨hkeys, hvalues⟩ := distinctMembers_iff.mp hy
      have hys : distinctMembers ys = true := distinctMembers_iff.mpr
        ⟨((hperm.map (·.1)).nodup_iff).mpr hkeys, fun m hm => hvalues m (hperm.mem_iff.mp hm)⟩
      rw [sorted, sorted, hmembers.sorted_eq hys]
      refine congrArg JsonValue.object (insertionSort_eq_of_perm ?_ ?_)
      · rw [sortedMembers_eq, sortedMembers_eq]
        exact hperm.map _
      · rw [sortedMembers_keys]
        exact hkeys

theorem ReorderedItems.sorted_eq {xs ys : List JsonValue} (h : ReorderedItems xs ys)
    (hys : distinctItems ys = true) : sortedItems xs = sortedItems ys := by
  cases h with
  | nil => rfl
  | cons hitem hrest =>
      simp only [distinctItems, Bool.and_eq_true] at hys
      rw [sortedItems, sortedItems, hitem.sorted_eq hys.1, hrest.sorted_eq hys.2]

theorem ReorderedMembers.sorted_eq {xs ys : Members} (h : ReorderedMembers xs ys)
    (hys : distinctMembers ys = true) : sortedMembers xs = sortedMembers ys := by
  cases h with
  | nil => rfl
  | cons hvalue hrest =>
      obtain ⟨-, hy, hrest'⟩ := distinctMembers_cons.mp hys
      rw [sortedMembers, sortedMembers, hvalue.sorted_eq hy, hrest.sorted_eq hrest']

end

end JsonValue
