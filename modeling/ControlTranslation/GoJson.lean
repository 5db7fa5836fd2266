import ControlTranslation.JsonSame
import ControlTranslation.JsonText
import ControlTranslation.ProofLoop

/-!
# Another program's struct layout

The producers hash the JSON their own structs encode to.  The reader rebuilds
those bytes from the stored document: it walks the fields of a schema in order,
leaves out what the struct's tags leave out, sorts what the struct keeps as a
map, and writes the result with the other encoder's escaping.

The recursion is on the stored value, and a field is found in the members it is
read from.  `goMember_eq` is the loop body as the source has it: whatever is not
a field of the schema takes no part, which is `goStructValue_setMember`.
-/

namespace GoJson

open PyText JsonValue ProofLoop

/-- The `omitempty` tags. -/
inductive OmitEmpty
  | pointer
  | raw
  | string
  | slice
  | number
  | time
  deriving DecidableEq, Repr

/-- A layout: no schema, or fields in order. -/
inductive GoSchema
  | leaf
  | struct (fields : List (Str × GoSchema × Option OmitEmpty))

/-- A field with its layout and its tag. -/
abbrev GoField := Str × GoSchema × Option OmitEmpty

/-- `_field`. -/
def goField (name : String) (schema : GoSchema) (omitEmpty : Option OmitEmpty) : GoField :=
  (name.toList, schema, omitEmpty)

/-- A field without a layout. -/
def plain (name : String) : GoField := goField name .leaf none

/-- A field without a layout that may be left out. -/
def omitted (name : String) (omitEmpty : OmitEmpty) : GoField :=
  goField name .leaf (some omitEmpty)

/-- `value == 0`; `False` is a zero too. -/
def isZero : JsonValue → Bool
  | .number literal => isZeroLiteral literal
  | .bool b => !b
  | _ => false

/-- Whether a value is the empty array. -/
def isEmptyArray : JsonValue → Bool
  | .array [] => true
  | _ => false

/-- `_go_omit_empty`. -/
def goOmitEmpty (value : JsonValue) : Option OmitEmpty → Bool
  | some .pointer => value.isNull
  | some .raw => value.isNull
  | some .string => value.asText == some []
  | some .slice => value.isNull || isEmptyArray value
  | some .number => isZero value
  | some .time => false
  | none => false

/-- Members in the order of their keys. -/
def sortMembers (members : Members) : Members :=
  members.insertionSort fun m m' => textLe m.1 m'.1 = true

mutual

/-- `_go_nested_value`. -/
def goNestedValue (schema : GoSchema) : JsonValue → JsonValue
  | .array items => .array (goItems schema items)
  | .object members =>
      match schema with
      | .leaf => .object (sortMembers (goLeafMembers members))
      | .struct fields => .object (fields.filterMap fun field => goMember field members)
  | value => value

/-- The items of an array, each read under its schema. -/
def goItems (schema : GoSchema) : List JsonValue → List JsonValue
  | [] => []
  | item :: rest => goNestedValue schema item :: goItems schema rest

/-- The members of a map, each encoded. -/
def goLeafMembers : List (Str × JsonValue) → List (Str × JsonValue)
  | [] => []
  | (name, value) :: rest => (name, goNestedValue .leaf value) :: goLeafMembers rest

/-- One field of a struct: the first member of its name, unless it is left out. -/
def goMember (field : GoField) : List (Str × JsonValue) → Option (Str × JsonValue)
  | [] => none
  | (name, child) :: rest =>
      if name = field.1 then
        if goOmitEmpty child field.2.2 then none
        else some (field.1, if field.2.2 = some .raw then child
          else goNestedValue field.2.1 child)
      else goMember field rest

end

/-- `_go_struct_value`. -/
def goStructValue (fields : List GoField) (members : Members) : Members :=
  fields.filterMap fun field => goMember field members

/-- The fields a document has to have. -/
def missingFields (fields : List GoField) (members : Members) : List Str :=
  (fields.filter fun field => !hasKey members field.1 && field.2.2.isNone).map (·.1)

/-- `_go_ordered_json`. -/
def goOrderedJson (members : Members) (fields : List GoField) : Resolution Str := do
  let missing := missingFields fields members
  require missing.isEmpty ("canonical producer result is missing required fields: " ++
    ", ".intercalate (missing.map String.ofList))
  let ordered := JsonValue.object (goStructValue fields members)
  if finite ordered then pure (goReplaceText (dumps ordered))
  else throw (.other "ValueError")

/-- **The loop body.**  A field depends on its own member only. -/
theorem goMember_eq (field : GoField) (members : Members) :
    goMember field members =
      if hasKey members field.1 then
        let child := get members field.1
        if goOmitEmpty child field.2.2 then none
        else some (field.1, if field.2.2 = some .raw then child
          else goNestedValue field.2.1 child)
      else none := by
  induction members with
  | nil => rfl
  | cons member rest ih =>
      obtain ⟨name, child⟩ := member
      by_cases hname : name = field.1
      · simp [goMember, hasKey, get_cons, hname]
      · have hkey : hasKey ((name, child) :: rest) field.1 = hasKey rest field.1 := by
          simp [hasKey, hname]
        rw [goMember, if_neg hname, ih, hkey, get_cons, if_neg hname]

theorem goMember_name {field : GoField} {members : Members} {member : Str × JsonValue}
    (h : goMember field members = some member) : member.1 = field.1 := by
  rw [goMember_eq] at h
  by_cases hkey : hasKey members field.1 = true
  · rw [if_pos hkey] at h
    by_cases homit : goOmitEmpty (get members field.1) field.2.2 = true
    · simp [homit] at h
    · simp only [homit] at h
      rw [← Option.some.inj h]
  · rw [if_neg hkey] at h
    cases h

section

variable {fields : List GoField} {members other : Members}

/-- Members that are no field of the schema take no part. -/
theorem goStructValue_congr
    (h : ∀ field ∈ fields, get members field.1 = get other field.1 ∧
      hasKey members field.1 = hasKey other field.1) :
    goStructValue fields members = goStructValue fields other := by
  refine List.filterMap_congr fun field hfield => ?_
  rw [goMember_eq, goMember_eq, (h field hfield).1, (h field hfield).2]

/-- The encoded text does not depend on members outside the schema. -/
theorem goOrderedJson_congr
    (h : ∀ field ∈ fields, get members field.1 = get other field.1 ∧
      hasKey members field.1 = hasKey other field.1) :
    goOrderedJson members fields = goOrderedJson other fields := by
  have hmissing : missingFields fields members = missingFields fields other := by
    refine congrArg (List.map _) (List.filter_congr fun field hfield => ?_)
    rw [(h field hfield).2]
  rw [goOrderedJson, goOrderedJson, hmissing, goStructValue_congr h]

end

/-- A struct holds under a field what the loop put there. -/
theorem get_goStructValue {fields : List GoField} (hnames : (fields.map (·.1)).Nodup)
    {field : GoField} (hfield : field ∈ fields) (members : Members) :
    get (goStructValue fields members) field.1 =
      ((goMember field members).map (·.2)).getD .null := by
  have hother : ∀ rest : List GoField, (∀ f ∈ rest, f.1 ≠ field.1) →
      get (goStructValue rest members) field.1 = .null := by
    intro rest hrest
    refine get_of_not_mem fun m hm => ?_
    obtain ⟨f, hf, hfm⟩ := List.mem_filterMap.mp hm
    rw [goMember_name hfm]
    exact hrest f hf
  induction fields with
  | nil => cases hfield
  | cons first rest ih =>
      rw [List.map_cons, List.nodup_cons] at hnames
      have hcons : goStructValue (first :: rest) members =
          (goMember first members).toList ++ goStructValue rest members := by
        unfold goStructValue
        rw [List.filterMap_cons]
        cases goMember first members with
        | none => rfl
        | some m => rfl
      rw [hcons]
      rcases List.mem_cons.mp hfield with rfl | hmem
      · have hrest := hother rest fun f hf heq =>
          hnames.1 (heq ▸ List.mem_map.mpr ⟨f, hf, rfl⟩)
        cases hmember : goMember field members with
        | none => exact hrest
        | some m =>
            have hname := goMember_name hmember
            rw [Option.toList_some, List.singleton_append, get_cons, if_pos hname]
            rfl
      · have hne : first.1 ≠ field.1 := fun heq =>
          hnames.1 (heq ▸ List.mem_map.mpr ⟨field, hmem, rfl⟩)
        cases hmember : goMember first members with
        | none => exact ih hnames.2 hmem
        | some m =>
            have hname := goMember_name hmember
            rw [Option.toList_some, List.singleton_append, get_cons,
              if_neg (by rw [hname]; exact hne)]
            exact ih hnames.2 hmem

/-- What is left out is empty. -/
theorem truthy_of_goOmitEmpty {value : JsonValue} {tag : Option OmitEmpty}
    (h : goOmitEmpty value tag = true) : value.truthy = false := by
  cases tag with
  | none => cases h
  | some kind =>
      cases value with
      | null => rfl
      | bool b => cases kind <;> simp_all [goOmitEmpty, isNull, asText, isEmptyArray, isZero,
          truthy]
      | number literal => cases kind <;> simp_all [goOmitEmpty, isNull, asText, isEmptyArray,
          isZero, truthy]
      | text s => cases kind <;> simp_all [goOmitEmpty, isNull, asText, isEmptyArray, isZero,
          truthy]
      | array items =>
          cases items with
          | nil => rfl
          | cons item rest => cases kind <;> cases h
      | object members => cases kind <;> cases h

/-- A value without a layout keeps its truth. -/
theorem truthy_goNestedValue (value : JsonValue) :
    (goNestedValue .leaf value).truthy = value.truthy := by
  cases value with
  | array items =>
      cases items with
      | nil => rfl
      | cons item rest => rfl
  | object members =>
      have hlength : (sortMembers (goLeafMembers members)).length = members.length := by
        have hleaf : (goLeafMembers members).length = members.length := by
          induction members with
          | nil => rfl
          | cons member rest ih =>
              obtain ⟨name, value⟩ := member
              rw [goLeafMembers, List.length_cons, List.length_cons, ih]
        rw [sortMembers, List.length_insertionSort, hleaf]
      have hempty : (sortMembers (goLeafMembers members)).isEmpty = members.isEmpty := by
        rw [Bool.eq_iff_iff, List.isEmpty_iff_length_eq_zero, List.isEmpty_iff_length_eq_zero,
          hlength]
      rw [goNestedValue, truthy, truthy, hempty]
  | _ => rfl

/-- **Truth of a field.**  A field without a layout is true in the encoding when
it is true in the document. -/
theorem truthy_get_goStructValue {fields : List GoField} (hnames : (fields.map (·.1)).Nodup)
    {name : Str} {tag : Option OmitEmpty} (hfield : (name, .leaf, tag) ∈ fields)
    (members : Members) :
    (get (goStructValue fields members) name).truthy = (get members name).truthy := by
  have hget := get_goStructValue hnames hfield members
  rw [hget, goMember_eq]
  by_cases hkey : hasKey members name = true
  · rw [if_pos hkey]
    by_cases homit : goOmitEmpty (get members name) tag = true
    · simp only [homit, if_true]
      exact (truthy_of_goOmitEmpty homit).symm
    · simp only [homit]
      by_cases hraw : tag = some .raw
      · simp [hraw]
      · simp [hraw, truthy_goNestedValue]
  · have hmissing : get members name = .null := by
      refine get_of_not_mem fun m hm hname => hkey ?_
      exact List.any_eq_true.mpr ⟨m, hm, by simpa using hname⟩
    rw [if_neg hkey, hmissing]
    rfl

mutual

/-- A value without a layout is written as the same document. -/
theorem same_goNestedValue : ∀ value : JsonValue, Same value (goNestedValue .leaf value)
  | .null => .null
  | .bool b => .bool b
  | .number _ => .number rfl
  | .text s => .text s
  | .array items => .array (same_goItems items)
  | .object members => .object (same_goLeafMembers members) (List.perm_insertionSort _ _).symm

theorem same_goItems : ∀ items : List JsonValue, SameItems items (goItems .leaf items)
  | [] => .nil
  | item :: rest => .cons (same_goNestedValue item) (same_goItems rest)

theorem same_goLeafMembers : ∀ members : List (Str × JsonValue),
    SameMembers members (goLeafMembers members)
  | [] => .nil
  | (_, value) :: rest => .cons (same_goNestedValue value) (same_goLeafMembers rest)

end

end GoJson
