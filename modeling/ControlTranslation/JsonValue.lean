import ControlTranslation.PyText

/-!
# JSON values

What `json.loads` returns.  An object keeps its members in insertion order, a
number keeps the text it is written with, and a missing key reads as `null`,
as `dict.get` answers.  The recursive searches of the service visit every
member and every item; they are written over values, item lists and member
lists together.
-/

open PyText

/-- A decoded JSON document. -/
inductive JsonValue
  | null
  | bool (b : Bool)
  | number (literal : Str)
  | text (s : Str)
  | array (items : List JsonValue)
  | object (members : List (Str × JsonValue))

/-- The members of an object, in insertion order. -/
abbrev Members := List (Str × JsonValue)

namespace JsonValue

/-- `dict.get`. -/
def get (members : Members) (key : Str) : JsonValue :=
  ((members.find? fun member => member.1 = key).map (·.2)).getD .null

/-- `isinstance(value, str)`. -/
def asText : JsonValue → Option Str
  | .text s => some s
  | _ => none

/-- `isinstance(value, str) and value`. -/
def asNonemptyText (value : JsonValue) : Option Str := value.asText.filter (· ≠ [])

/-- `isinstance(value, dict)`. -/
def asObject : JsonValue → Option Members
  | .object members => some members
  | _ => none

/-- `isinstance(value, list)`. -/
def asArray : JsonValue → Option (List JsonValue)
  | .array items => some items
  | _ => none

/-- Whether a value is `null`. -/
def isNull : JsonValue → Bool
  | .null => true
  | _ => false

/-- The numbers equal to zero, as the language writes them. -/
def isZeroLiteral (literal : Str) : Bool :=
  literal == "0".toList || literal == "0.0".toList || literal == "-0.0".toList

/-- `bool(value)`. -/
def truthy : JsonValue → Bool
  | .null => false
  | .bool b => b
  | .number literal => !isZeroLiteral literal
  | .text s => !s.isEmpty
  | .array items => !items.isEmpty
  | .object members => !members.isEmpty

/-- `value or other`. -/
def orElse (value other : JsonValue) : JsonValue := if value.truthy then value else other

/-- The text a member contributes to the search for `key`. -/
def textUnder (key : Str) (member : Str × JsonValue) : List Str :=
  if member.1 = key then member.2.asNonemptyText.toList else []

mutual

/-- Every non-empty text stored under `key`, at any depth. -/
def occurrences (key : Str) : JsonValue → List Str
  | .array items => occurrencesInItems key items
  | .object members => occurrencesInMembers key members
  | _ => []

/-- `occurrences` in the items of an array, in order. -/
def occurrencesInItems (key : Str) : List JsonValue → List Str
  | [] => []
  | item :: rest => occurrences key item ++ occurrencesInItems key rest

/-- `occurrences` in the members of an object, in order. -/
def occurrencesInMembers (key : Str) : List (Str × JsonValue) → List Str
  | [] => []
  | (name, value) :: rest =>
      textUnder key (name, value) ++ occurrences key value ++ occurrencesInMembers key rest

end

/-- `_one_value`: the one text stored under a key, or none. -/
def oneValue (document : JsonValue) (key : Str) : Option Str :=
  match unique (occurrences key document) with
  | [value] => some value
  | _ => none

/-- At most one text is stored under `key`. -/
def Unambiguous (document : JsonValue) (key : Str) : Prop :=
  ∀ v ∈ occurrences key document, ∀ w ∈ occurrences key document, v = w

/-- One value found is the only one. -/
theorem eq_of_oneValue {document : JsonValue} {key value : Str}
    (h : oneValue document key = some value) :
    value ∈ occurrences key document ∧ ∀ v ∈ occurrences key document, v = value := by
  unfold oneValue at h
  split at h
  · rename_i only hunique
    obtain rfl := Option.some.inj h
    have hmem : ∀ v, v ∈ occurrences key document ↔ v = only := by
      intro v
      rw [← mem_unique, hunique, List.mem_singleton]
    exact ⟨(hmem only).mpr rfl, fun v hv => (hmem v).mp hv⟩
  · cases h

/-- A list with a member and no two distinct ones reduces to it. -/
theorem unique_eq_singleton {α : Type} [DecidableEq α] {a : α} {l : List α} (ha : a ∈ l)
    (h : ∀ b ∈ l, b = a) : unique l = [a] := by
  cases l with
  | nil => simp at ha
  | cons b rest =>
      obtain rfl := h b List.mem_cons_self
      have hrest : (rest.filter fun x => !x == b) = [] := by
        rw [List.filter_eq_nil_iff]
        intro x hx
        simp [h x (List.mem_cons_of_mem _ hx)]
      rw [unique, List.eraseDups_cons, hrest]
      rfl

/-- Where something is found and nothing else is, it is the one value. -/
theorem oneValue_of_unambiguous {document : JsonValue} {key value : Str}
    (hmem : value ∈ occurrences key document) (h : Unambiguous document key) :
    oneValue document key = some value := by
  have hunique : unique (occurrences key document) = [value] :=
    unique_eq_singleton hmem fun b hb => h b hb value hmem
  unfold oneValue
  rw [hunique]

example : oneValue (.object [(['a'], .text ['x']), (['b'], .array
    [.object [(['a'], .text ['x']), (['c'], .text ['y'])]])]) ['a'] = some ['x'] := by
  decide

end JsonValue
