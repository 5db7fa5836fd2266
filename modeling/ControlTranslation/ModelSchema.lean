import ControlTranslation.KeyOrder

/-!
# Strict models over JSON

A model is a list of typed fields that reads one member of an object each and
refuses every other member; models nest in lists and behind `null`.  What a
scalar field accepts, and what a model demands of its fields together, is left
open: a reader of scalars and a judge of field values stand for both.

Fields are read by key and kept in the order they are declared in, so a
validated value knows nothing of the order of the document
(`validate_reordered`).  Writing it back is `dump`, under names or aliases, with
or without the fields that are null.
-/

namespace ModelSchema

open PyText JsonValue

/-- A validated value.  A record keeps name, alias and value of its fields; one that
drops nulls itself never writes them. -/
inductive Tree
  | scalar (value : JsonValue)
  | items (values : List Tree)
  | record (dropsNull : Bool) (fields : List (Str × Str × Tree))

/-- Declared fields with their values. -/
abbrev FieldValues := List (Str × Str × Tree)

namespace Tree

/-- `value is None`. -/
def isNone : Tree → Bool
  | .scalar .null => true
  | _ => false

/-- The value of a declared field. -/
def field (fields : FieldValues) (name : Str) : Tree :=
  ((fields.find? fun f => f.1 = name).map (·.2.2)).getD (.scalar .null)

/-- An attribute of a record. -/
def attr (name : Str) : Tree → Tree
  | .record _ fields => field fields name
  | _ => .scalar .null

/-- The text of a scalar. -/
def text? : Tree → Option Str
  | .scalar value => value.asText
  | _ => none

/-- The elements of a list. -/
def elements : Tree → List Tree
  | .items values => values
  | _ => []

mutual

/-- `model_dump(mode="json", by_alias=…, exclude_none=…)`. -/
def dump (byAlias excludeNone : Bool) : Tree → JsonValue
  | .scalar value => value
  | .items values => .array (dumpItems byAlias excludeNone values)
  | .record dropsNull fields =>
      .object (dumpFields byAlias excludeNone (excludeNone || dropsNull) fields)

/-- `dump` over the items of a list. -/
def dumpItems (byAlias excludeNone : Bool) : List Tree → List JsonValue
  | [] => []
  | value :: rest => dump byAlias excludeNone value :: dumpItems byAlias excludeNone rest

/-- The members of a record; `drop` leaves out the fields that are null. -/
def dumpFields (byAlias excludeNone drop : Bool) : List (Str × Str × Tree) → Members
  | [] => []
  | (name, label, value) :: rest =>
      if drop && value.isNone then dumpFields byAlias excludeNone drop rest
      else (if byAlias then label else name, dump byAlias excludeNone value) ::
        dumpFields byAlias excludeNone drop rest

end

end Tree

mutual

/-- A type of values; `κ` are the kinds of scalars. -/
inductive Schema (κ : Type)
  | leaf (kind : κ)
  | nullable (schema : Schema κ)
  | list (length : Option Nat) (schema : Schema κ)
  | model (name : Str) (dropsNull : Bool) (fields : Fields κ)

/-- Declared fields: name, alias, the default where there is one, and the type. -/
inductive Fields (κ : Type)
  | nil
  | cons (name label : Str) (default : Option Tree) (schema : Schema κ) (rest : Fields κ)

end

variable {κ : Type}

/-- What scalars a kind accepts and as what, and what a model accepts of its fields. -/
structure Validators (κ : Type) where
  read : κ → JsonValue → Option JsonValue
  accepts : Str → FieldValues → Bool

/-- The member a field is read from: its alias, or else its name. -/
def source (members : Members) (name label : Str) : Option JsonValue :=
  (member? members label).or (member? members name)

/-- Whether some field is read from the member of a key. -/
def Fields.takes (members : Members) (key : Str) : Fields κ → Bool
  | .nil => false
  | .cons name label _ _ rest =>
      key == label || (key == name && (member? members label).isNone) || rest.takes members key

mutual

/-- Lax validation of a decoded value. -/
def Schema.validate (V : Validators κ) : Schema κ → JsonValue → Option Tree
  | .leaf _, .array _ => none
  | .leaf _, .object _ => none
  | .leaf kind, value => (V.read kind value).map .scalar
  | .nullable _, .null => some (.scalar .null)
  | .nullable schema, value => schema.validate V value
  | .list length schema, .array items =>
      if length.all (· == items.length) then (items.mapM (schema.validate V)).map .items else none
  | .list _ _, _ => none
  | .model name dropsNull fields, .object members =>
      if members.all fun m => fields.takes members m.1 then
        ((fields.validate V members).filter (V.accepts name)).map (.record dropsNull)
      else none
  | .model _ _ _, _ => none

/-- The declared fields, each read from its member or left at its default. -/
def Fields.validate (V : Validators κ) : Fields κ → Members → Option FieldValues
  | .nil, _ => some []
  | .cons name label default schema rest, members =>
      (match source members name label with
        | some value => schema.validate V value
        | none => default).bind fun value =>
          (rest.validate V members).map fun values => (name, label, value) :: values

end

/-- The names and aliases of declared fields. -/
def Fields.labels : Fields κ → List (Str × Str)
  | .nil => []
  | .cons name label _ _ rest => (name, label) :: rest.labels

/-- Validated fields are the declared ones. -/
theorem Fields.labels_validate (V : Validators κ) : ∀ (fields : Fields κ) {members : Members}
    {values : FieldValues}, fields.validate V members = some values →
      values.map (fun f => (f.1, f.2.1)) = fields.labels
  | .nil, _, _, h => by
      obtain rfl := Option.some.inj h
      rfl
  | .cons name label default schema rest, members, values, h => by
      rw [Fields.validate] at h
      obtain ⟨value, -, h⟩ := Option.bind_eq_some_iff.mp h
      obtain ⟨values', hrest, h⟩ := Option.map_eq_some_iff.mp h
      rw [← h, List.map_cons, rest.labels_validate V hrest, Fields.labels]

/-- A field finds related values in both orders. -/
theorem source_reordered {xs zs : Members} (h : Reordered (.object xs) (.object zs))
    (hdistinct : distinctMembers zs = true) (name label : Str) :
    Option.Rel Reordered (source xs name label) (source zs name label) := by
  have hlabel := h.member? hdistinct label
  unfold source
  generalize member? xs label = found, member? zs label = found' at hlabel ⊢
  cases hlabel with
  | none =>
      rw [Option.none_or, Option.none_or]
      exact h.member? hdistinct name
  | some hvalue =>
      rw [Option.some_or, Option.some_or]
      exact .some hvalue

/-- What a model takes does not depend on the order of members. -/
theorem takes_reordered {xs zs : Members} (h : Reordered (.object xs) (.object zs))
    (hdistinct : distinctMembers zs = true) (key : Str) :
    ∀ fields : Fields κ, fields.takes xs key = fields.takes zs key
  | .nil => rfl
  | .cons name label _ _ rest => by
      have hlabel : (member? xs label).isNone = (member? zs label).isNone := by
        have hrel := h.member? hdistinct label
        generalize member? xs label = found, member? zs label = found' at hrel ⊢
        cases hrel with
        | none => rfl
        | some => rfl
      rw [Fields.takes, Fields.takes, hlabel, takes_reordered h hdistinct key rest]

/-- The members of either order are all taken, or neither's are. -/
theorem all_takes_reordered {xs zs : Members} (h : Reordered (.object xs) (.object zs))
    (hdistinct : distinctMembers zs = true) (fields : Fields κ) :
    (xs.all fun m => fields.takes xs m.1) = zs.all fun m => fields.takes zs m.1 := by
  simp only [takes_reordered h hdistinct]
  exact h.all_keys fun key => fields.takes zs key

/-- A value under a key of a document without repeated keys repeats none. -/
theorem distinct_source {members : Members} (h : distinctMembers members = true)
    {name label : Str} {value : JsonValue} (hvalue : source members name label = some value) :
    distinct value = true := by
  rcases Option.or_eq_some_iff.mp hvalue with hfound | ⟨-, hfound⟩
  · exact distinct_of_mem h (mem_of_member? hfound)
  · exact distinct_of_mem h (mem_of_member? hfound)

theorem ReorderedItems.length_eq : ∀ {xs ys : List JsonValue}, ReorderedItems xs ys →
    xs.length = ys.length
  | _, _, .nil => rfl
  | _, _, .cons _ hrest => by
      rw [List.length_cons, List.length_cons, ReorderedItems.length_eq hrest]

/-- Elements that are read alike are read alike together. -/
theorem mapM_reordered {read : JsonValue → Option Tree}
    (hread : ∀ x y, Reordered x y → distinct y = true → read x = read y) :
    ∀ {xs ys : List JsonValue}, ReorderedItems xs ys → distinctItems ys = true →
      xs.mapM read = ys.mapM read
  | _, _, .nil, _ => rfl
  | _, _, .cons (x := x) (y := y) hitem hrest, hdistinct => by
      simp only [distinctItems, Bool.and_eq_true] at hdistinct
      rw [List.mapM_cons, List.mapM_cons, hread x y hitem hdistinct.1,
        mapM_reordered hread hrest hdistinct.2]

mutual

/-- **Order does not matter.**  A schema reads the same value from two documents that
differ in the order of keys. -/
theorem Schema.validate_reordered (V : Validators κ) : ∀ (schema : Schema κ) (x y : JsonValue),
    Reordered x y → distinct y = true → schema.validate V x = schema.validate V y
  | schema, x, _, .refl _, _ => rfl
  | .leaf _, _, _, .array _, _ | .leaf _, _, _, .object _ _, _ => by
      rw [Schema.validate, Schema.validate]
  | .nullable schema, _, _, .array h, hdistinct => by
      rw [Schema.validate, Schema.validate]
      · exact schema.validate_reordered V _ _ (.array h) hdistinct
      · exact nofun
      · exact nofun
  | .nullable schema, _, _, .object h hperm, hdistinct => by
      rw [Schema.validate, Schema.validate]
      · exact schema.validate_reordered V _ _ (.object h hperm) hdistinct
      · exact nofun
      · exact nofun
  | .list length schema, _, _, .array h, hdistinct => by
      rw [Schema.validate, Schema.validate, ReorderedItems.length_eq h,
        mapM_reordered (schema.validate_reordered V) h hdistinct]
  | .list _ _, _, _, .object _ _, _ | .model _ _ _, _, _, .array _, _ => by
      rw [Schema.validate, Schema.validate]
      · exact nofun
      · exact nofun
  | .model name dropsNull fields, _, _, .object h hperm, hdistinct => by
      rw [Schema.validate, Schema.validate,
        all_takes_reordered (.object h hperm) hdistinct fields,
        fields.validate_reordered V _ _ (.object h hperm) hdistinct]

/-- Declared fields read the same values in either order. -/
theorem Fields.validate_reordered (V : Validators κ) : ∀ (fields : Fields κ) (xs zs : Members),
    Reordered (.object xs) (.object zs) → distinctMembers zs = true →
      fields.validate V xs = fields.validate V zs
  | .nil, _, _, _, _ => rfl
  | .cons name label default schema rest, xs, zs, h, hdistinct => by
      rw [Fields.validate, Fields.validate, rest.validate_reordered V xs zs h hdistinct]
      cases hxs : source xs name label with
      | none =>
          cases hzs : source zs name label with
          | none => rfl
          | some y => exact absurd (hxs ▸ hzs ▸ source_reordered h hdistinct name label) nofun
      | some x =>
          cases hzs : source zs name label with
          | none => exact absurd (hxs ▸ hzs ▸ source_reordered h hdistinct name label) nofun
          | some y =>
              have hrel := source_reordered h hdistinct name label
              rw [hxs, hzs] at hrel
              obtain ⟨hvalue⟩ := hrel
              simp only [schema.validate_reordered V x y hvalue (distinct_source hdistinct hzs)]

end

end ModelSchema
