import Mathlib.Data.Rat.Defs
import ControlTranslation.AkamaiAdapter

/-!
# Shared contracts

What the checks of the shared contracts are made of.  A check fails closed, with
a code and a detail, or with an exception of the language that no code names.
Documents are read with strict JSON, written in the canonical form of RFC 8785
and signed with SHA-256; these three, the numbers that literals denote and the
casing of texts are the services the checks run on.
-/

namespace SharedContracts

open PyText JsonValue

/-- The bytes of a document. -/
abbrev Bytes := List UInt8

/-- `text.encode()`. -/
def encodeText (text : Str) : Bytes := text.flatMap String.utf8EncodeChar

/-- What `json.loads` makes of some bytes, with the hooks that refuse a repeated
key and a constant that is no number. -/
inductive Decoded
  | duplicate (key : Str)
  | invalid
  | value (document : JsonValue)

/-- What the checks use and do not define. -/
structure Services where
  strictLoads : Bytes → Decoded
  /-- `json.loads` without hooks, or what it says is wrong. -/
  loads : Str → Except Str JsonValue
  /-- `rfc8785.dumps`; it refuses what has no canonical form. -/
  rfc8785 : JsonValue → Option Str
  /-- The digest of some bytes, in hexadecimal. -/
  sha256 : Bytes → Str
  /-- The number a literal denotes. -/
  number : Str → ℚ
  repr : JsonValue → Str
  casefold : Str → Str
  tables : CharTables

/-- A value under `str`, or inside an f-string. -/
def format (s : Services) : JsonValue → Str
  | .text t => t
  | other => s.repr other

/-- How a check fails. -/
inductive Failure
  | contract (code : String) (detail : Str)
  | crash

/-- What a check answers, or how it fails. -/
abbrev Checked := Except Failure

/-- `raise SharedContractV2Error(code, detail)`. -/
def refuse {α : Type} (code : String) (detail : Str) : Checked α :=
  .error (.contract code detail)

/-- `a or b or …`; a check that raises is `none`. -/
def anyOf : List (Option Bool) → Option Bool
  | [] => some false
  | some false :: rest => anyOf rest
  | first :: _ => first

/-- `if a or b or …: raise SharedContractV2Error(code, detail)`. -/
def raiseIf (checks : List (Option Bool)) (code : String) (detail : Str) : Checked Unit :=
  match anyOf checks with
  | some false => .ok ()
  | some true => refuse code detail
  | none => .error .crash

section Outcomes

variable {α β : Type}

theorem bind_eq_ok {x : Checked α} {f : α → Checked β} {b : β} :
    (x >>= f) = .ok b ↔ ∃ a, x = .ok a ∧ f a = .ok b := by
  cases x with
  | error e => simp [bind, Except.bind]
  | ok a => simp [bind, Except.bind]

theorem pure_eq_ok {a b : α} : (pure a : Checked α) = .ok b ↔ a = b := by
  simp [pure, Except.pure]

theorem refuse_ne_ok {code : String} {detail : Str} {a : α} :
    (refuse code detail : Checked α) = .ok a ↔ False := by
  simp [refuse]

theorem anyOf_eq_false {checks : List (Option Bool)} :
    anyOf checks = some false ↔ ∀ check ∈ checks, check = some false := by
  induction checks with
  | nil => simp [anyOf]
  | cons first rest ih =>
      rw [List.forall_mem_cons, ← ih]
      match first with
      | none => simp [anyOf]
      | some true => simp [anyOf]
      | some false => simp [anyOf]

/-- A check that goes on found nothing wrong. -/
theorem raiseIf_eq_ok {checks : List (Option Bool)} {code : String} {detail : Str} {u : Unit} :
    raiseIf checks code detail = .ok u ↔ ∀ check ∈ checks, check = some false := by
  rw [← anyOf_eq_false]
  unfold raiseIf
  split
  · rename_i h
    simp [h]
  · rename_i h
    simp [h, refuse]
  · rename_i h
    simp [h]

end Outcomes

theorem asText_eq_some {value : JsonValue} {t : Str} : value.asText = some t ↔ value = .text t := by
  cases value <;> simp [asText]

theorem asArray_eq_some {value : JsonValue} {items : List JsonValue} :
    value.asArray = some items ↔ value = .array items := by
  cases value <;> simp [asArray]

/-- `document[key]`. -/
def need (members : Members) (key : String) : Checked JsonValue :=
  if hasField members key then .ok (field members key) else .error .crash

theorem need_eq_ok {members : Members} {key : String} {value : JsonValue} :
    need members key = .ok value ↔ hasField members key = true ∧ field members key = value := by
  unfold need
  split
  · rename_i h
    simp [h]
  · rename_i h
    simp [h]

/-- A value used as a dictionary. -/
def dictionary : JsonValue → Checked Members
  | .object members => .ok members
  | _ => .error .crash

theorem dictionary_eq_ok {value : JsonValue} {members : Members} :
    dictionary value = .ok members ↔ value = .object members := by
  cases value <;> simp [dictionary]

/-- A value that a set or a dictionary is asked for; lists and dictionaries cannot be. -/
def hashed : JsonValue → Checked JsonValue
  | .array _ => .error .crash
  | .object _ => .error .crash
  | value => .ok value

theorem eq_of_hashed {value key : JsonValue} (h : hashed value = .ok key) : key = value := by
  cases value with
  | array items => cases h
  | object members => cases h
  | _ => exact (Except.ok.inj h).symm

/-- What a loop over a value visits. -/
def iterate : JsonValue → Checked (List JsonValue)
  | .array items => .ok items
  | .object members => .ok (members.map fun member => .text member.1)
  | .text s => .ok (s.map fun c => .text [c])
  | _ => .error .crash

/-- The items of an array; nothing else has any. -/
def arrayItems (value : JsonValue) : List JsonValue := value.asArray.getD []

/-- A loop that visits dictionaries visits the items of an array. -/
theorem iterate_eq_arrayItems {items : JsonValue} {listed : List JsonValue}
    (h : iterate items = .ok listed) (hall : ∀ item ∈ listed, ∃ members, item = .object members) :
    listed = arrayItems items := by
  cases items with
  | array all => exact (Except.ok.inj h).symm
  | object members =>
      obtain rfl := Except.ok.inj h
      cases members with
      | nil => rfl
      | cons member rest =>
          obtain ⟨_, hobject⟩ := hall _ List.mem_cons_self
          cases hobject
  | text t =>
      obtain rfl := Except.ok.inj h
      cases t with
      | nil => rfl
      | cons c rest =>
          obtain ⟨_, hobject⟩ := hall _ List.mem_cons_self
          cases hobject
  | _ => cases h

/-- `document[key]` used as a dictionary. -/
def needDictionary (members : Members) (key : String) : Checked Members :=
  need members key >>= dictionary

/-- A member that is needed as an object is one. -/
theorem needDictionary_eq_ok {members : Members} {key : String} {found : Members}
    (h : needDictionary members key = .ok found) : field members key = .object found := by
  obtain ⟨value, hvalue, h⟩ := bind_eq_ok.mp h
  rw [(need_eq_ok.mp hvalue).2, dictionary_eq_ok.mp h]

/-- `document[key]` used as a text. -/
def needText (members : Members) (key : String) : Checked Str := do
  match ← need members key with
  | .text s => .ok s
  | _ => .error .crash

mutual

/-- `left == right`: numbers compare by value, a Boolean is the number it
converts to, and dictionaries compare as sets of members. -/
def equal (s : Services) : JsonValue → JsonValue → Bool
  | .null, .null => true
  | .bool a, .bool b => a == b
  | .bool a, .number b => decide ((if a then 1 else 0) = s.number b)
  | .number a, .bool b => decide (s.number a = if b then 1 else 0)
  | .number a, .number b => decide (s.number a = s.number b)
  | .text a, .text b => a == b
  | .array a, .array b => equalItems s a b
  | .object a, .object b => a.length == b.length && equalMembers s a b
  | _, _ => false

/-- `equal`, item by item. -/
def equalItems (s : Services) : List JsonValue → List JsonValue → Bool
  | [], [] => true
  | a :: as, b :: bs => equal s a b && equalItems s as bs
  | _, _ => false

/-- `equal` of every member with the one of its name. -/
def equalMembers (s : Services) : List (Str × JsonValue) → List (Str × JsonValue) → Bool
  | [], _ => true
  | (name, value) :: rest, other =>
      hasKey other name && equal s value (get other name) && equalMembers s rest other

end

/-- `canonical_bytes`, as the text they encode. -/
def canonicalText (s : Services) (value : JsonValue) : Checked Str :=
  match s.rfc8785 value with
  | some canonical => .ok canonical
  | none => refuse "canonical-json-invalid" "value cannot be serialized under RFC 8785".toList

/-- The digest of a text in UTF-8. -/
def digestText (s : Services) (text : Str) : Str :=
  "sha256:".toList ++ s.sha256 (encodeText text)

/-- `digest`. -/
def digest (s : Services) (value : JsonValue) : Checked Str := do
  return digestText s (← canonicalText s value)

/-- A document without some of its members. -/
def without (members : Members) (fields : List String) : Members :=
  members.filter fun member => !(fields.map String.toList).contains member.1

/-- `digest_without`. -/
def digestWithout (s : Services) (members : Members) (fields : List String) : Checked Str :=
  digest s (.object (without members fields))

/-- The largest result that is fetched. -/
def maxResultBytes : Nat := 200 * 1024 * 1024

/-- `strict_json_bytes`. -/
def strictJsonBytes (s : Services) (raw : Bytes) (context : Str) : Checked Members := do
  raiseIf [raw.isEmpty || decide (maxResultBytes < raw.length)] "invalid-result-size"
    (context ++ " bytes are empty or exceed the bound".toList)
  match s.strictLoads raw with
  | .duplicate key => refuse "duplicate-json-key" ("duplicate JSON key: ".toList ++ key)
  | .invalid => refuse "invalid-json" (context ++ " is not strict JSON".toList)
  | .value (.object members) => .ok members
  | .value _ => refuse "invalid-json" (context ++ " must be one JSON object".toList)

/-- A dictionary, in insertion order. -/
abbrev Table (β : Type) := List (Str × β)

/-- `table.get(key)`. -/
def lookup {β : Type} (table : Table β) (key : Str) : Option β :=
  (table.find? fun entry => entry.1 = key).map (·.2)

/-- `list(table)`. -/
def keys {β : Type} (table : Table β) : List Str := table.map (·.1)

/-- The rest of an index, after some items. -/
def indexFrom (key code : String) (indexed : Table Members) :
    List JsonValue → Checked (Table Members)
  | [] => .ok indexed
  | .object item :: rest =>
      match (field item key).asNonemptyText with
      | some identity =>
          if (keys indexed).contains identity then
            refuse code ("duplicate or invalid " ++ key).toList
          else indexFrom key code (indexed ++ [(identity, item)]) rest
      | none => refuse code ("duplicate or invalid " ++ key).toList
  | _ :: _ => refuse code ("duplicate or invalid " ++ key).toList

/-- `_index`: the items of a collection under their identities. -/
def index (items : JsonValue) (key code : String) : Checked (Table Members) :=
  match items with
  | .array items => indexFrom key code [] items
  | _ => refuse code (key ++ " collection is absent").toList

/-- `set(members) == names`. -/
def hasExactly (members : Members) (names : List String) : Bool :=
  names.all (hasField members) &&
    members.all fun member => (names.map String.toList).contains member.1

/-- The identity a typed reference carries, if it is one of `known` under the
right kind and scope. -/
def refIdentity (s : Services) (kind : String) (scope : JsonValue) (known : List Str)
    (ref : JsonValue) : Option Str :=
  match ref with
  | .object members =>
      if hasExactly members ["kind", "scope", "id"] && isText (field members "kind") kind &&
          equal s (field members "scope") scope then
        (field members "id").asText.filter fun identity => known.contains identity
      else none
  | _ => none

/-- The rest of the identities, after some. -/
def refIdsFrom (s : Services) (kind : String) (scope : JsonValue) (known : List Str)
    (code : String) (found : List Str) : List JsonValue → Checked (List Str)
  | [] => .ok found
  | ref :: rest =>
      match (refIdentity s kind scope known ref).filter fun identity => !found.contains identity with
      | some identity => refIdsFrom s kind scope known code (found ++ [identity]) rest
      | none =>
          refuse code
            "typed reference is invented, duplicated, or has the wrong scope".toList

/-- `_ref_ids`: the identities of typed references. -/
def refIds (s : Services) (refs : JsonValue) (kind : String) (scope : JsonValue)
    (known : List Str) (code : String) (allowEmpty : Bool) : Checked (List Str) :=
  match refs with
  | .array items =>
      if items.isEmpty && !allowEmpty then
        refuse code "typed references must be a nonempty array".toList
      else refIdsFrom s kind scope known code [] items
  | _ => refuse code "typed references must be a nonempty array".toList

section Tables

variable {β : Type}

theorem mem_of_lookup {table : Table β} {key : Str} {value : β}
    (h : lookup table key = some value) : (key, value) ∈ table := by
  obtain ⟨entry, hentry, rfl⟩ := Option.map_eq_some_iff.mp h
  have hkey : entry.1 = key := by simpa using List.find?_some hentry
  rw [← hkey]
  exact List.mem_of_find?_eq_some hentry

/-- What is in a table without repeats is found. -/
theorem lookup_of_mem {table : Table β} (hnodup : (keys table).Nodup) {key : Str} {value : β}
    (h : (key, value) ∈ table) : lookup table key = some value := by
  induction table with
  | nil => cases h
  | cons entry rest ih =>
      obtain ⟨name, other⟩ := entry
      rw [keys, List.map_cons, List.nodup_cons] at hnodup
      rcases List.mem_cons.mp h with heq | h
      · obtain ⟨rfl, rfl⟩ := Prod.mk.inj heq
        simp [lookup]
      · have hne : name ≠ key := by
          rintro rfl
          exact hnodup.1 (List.mem_map.mpr ⟨(name, value), h, rfl⟩)
        have hrest := ih hnodup.2 h
        simpa [lookup, hne] using hrest

theorem nodup_snoc {α : Type} {names : List α} {name : α} (hnodup : names.Nodup)
    (h : name ∉ names) : (names ++ [name]).Nodup := by
  refine List.nodup_append.mpr ⟨hnodup, List.pairwise_singleton _ name, ?_⟩
  intro a ha b hb
  rw [List.mem_singleton.mp hb]
  rintro rfl
  exact h ha

theorem keys_append (table more : Table β) : keys (table ++ more) = keys table ++ keys more :=
  List.map_append

theorem lookup_isSome {table : Table β} {key : Str} :
    (lookup table key).isSome = true ↔ key ∈ keys table := by
  simp [lookup, keys, List.find?_isSome]

end Tables

/-- An index lists items under distinct identities. -/
structure Indexed (items : JsonValue) (key : String) (table : Table Members) : Prop where
  items : items = .array (table.map fun entry => .object entry.2)
  nodup : (keys table).Nodup
  identity : ∀ entry ∈ table, field entry.2 key = .text entry.1 ∧ entry.1 ≠ []

theorem asNonemptyText_eq_some {value : JsonValue} {text : Str}
    (h : value.asNonemptyText = some text) : value = .text text ∧ text ≠ [] := by
  cases value with
  | text s =>
      obtain ⟨hs, hne⟩ := Option.filter_eq_some_iff.mp h
      obtain rfl := Option.some.inj hs
      exact ⟨rfl, by simpa using hne⟩
  | _ => cases h

/-- A table that is made lists every item under its identity, once. -/
theorem indexFrom_eq_ok {key code : String} {items : List JsonValue} :
    ∀ {indexed table : Table Members}, indexFrom key code indexed items = .ok table →
      (keys indexed).Nodup → (∀ entry ∈ indexed, field entry.2 key = .text entry.1 ∧ entry.1 ≠ []) →
      ∃ found, table = indexed ++ found ∧ items = found.map (fun entry => .object entry.2) ∧
        (keys table).Nodup ∧ ∀ entry ∈ table, field entry.2 key = .text entry.1 ∧ entry.1 ≠ [] := by
  induction items with
  | nil =>
      intro indexed table h hnodup hidentity
      obtain rfl := Except.ok.inj h
      exact ⟨[], (List.append_nil _).symm, rfl, hnodup, hidentity⟩
  | cons item rest ih =>
      intro indexed table h hnodup hidentity
      cases item with
      | object members =>
          simp only [indexFrom] at h
          split at h
          · rename_i identity hfield
            split at h
            · cases h
            · rename_i hnew
              obtain ⟨hvalue, hne⟩ := asNonemptyText_eq_some hfield
              have hfresh : identity ∉ keys indexed := by simpa using hnew
              obtain ⟨found, rfl, rfl, htable, hall⟩ := ih h
                (by rw [keys_append]; exact nodup_snoc hnodup hfresh)
                (by
                  intro entry hentry
                  rcases List.mem_append.mp hentry with hentry | hentry
                  · exact hidentity entry hentry
                  · rw [List.mem_singleton.mp hentry]
                    exact ⟨hvalue, hne⟩)
              exact ⟨(identity, members) :: found, by simp, rfl, htable, hall⟩
          · cases h
      | _ => cases h

/-- What `_index` accepts. -/
theorem index_eq_ok {items : JsonValue} {key code : String} {table : Table Members}
    (h : index items key code = .ok table) : Indexed items key table := by
  cases items with
  | array items =>
      obtain ⟨found, rfl, rfl, hnodup, hidentity⟩ :=
        indexFrom_eq_ok h List.nodup_nil (fun _ hentry => absurd hentry List.not_mem_nil)
      exact ⟨rfl, hnodup, hidentity⟩
  | _ => cases h

namespace Indexed

variable {items : JsonValue} {key : String} {table : Table Members}

/-- An item of the collection is found under its identity. -/
theorem lookup_identity (h : Indexed items key table) {entry : Str × Members}
    (hentry : entry ∈ table) : lookup table entry.1 = some entry.2 :=
  lookup_of_mem h.nodup hentry

/-- What is found carries the identity asked for. -/
theorem field_of_lookup (h : Indexed items key table) {identity : Str} {item : Members}
    (hitem : lookup table identity = some item) :
    field item key = .text identity ∧ identity ≠ [] :=
  h.identity _ (mem_of_lookup hitem)

/-- A collection has one index. -/
theorem unique {other : Table Members} (h : Indexed items key table)
    (hother : Indexed items key other) : table = other := by
  have hsame : (table.map fun entry => entry.2) = other.map fun entry => entry.2 := by
    have hitems := JsonValue.array.inj (h.items.symm.trans hother.items)
    have hobjects := congrArg (List.filterMap asObject) hitems
    simpa [List.filterMap_map, Function.comp_def, asObject] using hobjects
  have hkeys : ∀ {t : Table Members}, Indexed items key t →
      t = (t.map fun entry => entry.2).map fun item => ((field item key).asText.getD [], item) := by
    intro t ht
    rw [List.map_map]
    refine (List.map_id t).symm.trans (List.map_congr_left fun entry hentry => ?_)
    rw [Function.comp_apply, (ht.identity entry hentry).1]
    rfl
  rw [hkeys h, hkeys hother, hsame]

end Indexed

/-- The identity of an item. -/
def identityOf (key : String) (item : JsonValue) : Option Str :=
  item.asObject.bind fun members => (field members key).asText

/-- The identities of listed items. -/
def identities (items : JsonValue) (key : String) : List Str :=
  (arrayItems items).filterMap (identityOf key)

/-- The identities of an indexed collection are the keys of its index. -/
theorem identities_of_indexed {items : JsonValue} {key : String} {table : Table Members}
    (h : Indexed items key table) : identities items key = keys table := by
  have hitem : ∀ entry ∈ table, identityOf key (.object entry.2) = some entry.1 := by
    intro entry hentry
    rw [identityOf, asObject, Option.bind_some, (h.identity entry hentry).1]
    rfl
  rw [identities, h.items]
  clear h
  induction table with
  | nil => rfl
  | cons entry rest ih =>
      have hrest := ih fun other hother => hitem other (List.mem_cons_of_mem _ hother)
      rw [arrayItems, asArray, Option.getD_some] at hrest ⊢
      rw [List.map_cons, List.filterMap_cons, hitem entry List.mem_cons_self, hrest]
      rfl

/-- A typed reference carries its identity. -/
structure TypedRef (s : Services) (kind : String) (scope : JsonValue) (ref : JsonValue)
    (identity : Str) : Prop where
  id : ∃ members, ref = .object members ∧ field members "id" = .text identity ∧
    isText (field members "kind") kind = true ∧ equal s (field members "scope") scope = true

/-- A typed reference that is accepted names a known thing. -/
theorem refIdentity_eq_some {s : Services} {kind : String} {scope : JsonValue} {known : List Str}
    {ref : JsonValue} {identity : Str} (h : refIdentity s kind scope known ref = some identity) :
    TypedRef s kind scope ref identity ∧ identity ∈ known := by
  cases ref with
  | object members =>
      simp only [refIdentity] at h
      split at h
      · rename_i hshape
        simp only [Bool.and_eq_true] at hshape
        obtain ⟨htext, hknown⟩ := Option.filter_eq_some_iff.mp h
        have hid : field members "id" = .text identity := by
          cases hvalue : field members "id" with
          | text t =>
              rw [hvalue] at htext
              rw [Option.some.inj htext]
          | _ =>
              rw [hvalue] at htext
              cases htext
        exact ⟨⟨members, rfl, hid, hshape.1.2, hshape.2⟩, by simpa using hknown⟩
      · cases h
  | _ => cases h

/-- Typed references that are accepted name distinct known things. -/
theorem refIdsFrom_eq_ok {s : Services} {kind : String} {scope : JsonValue} {known : List Str}
    {code : String} {refs : List JsonValue} :
    ∀ {found identities : List Str},
      refIdsFrom s kind scope known code found refs = .ok identities →
      found.Nodup →
      ∃ more, identities = found ++ more ∧ identities.Nodup ∧ (∀ i ∈ more, i ∈ known) ∧
        List.Forall₂ (TypedRef s kind scope) refs more := by
  induction refs with
  | nil =>
      intro found identities h hnodup
      obtain rfl := Except.ok.inj h
      exact ⟨[], (List.append_nil _).symm, hnodup, fun _ hi => absurd hi List.not_mem_nil, .nil⟩
  | cons ref rest ih =>
      intro found identities h hnodup
      simp only [refIdsFrom] at h
      split at h
      · rename_i identity hidentity
        obtain ⟨href, hnew⟩ := Option.filter_eq_some_iff.mp hidentity
        have hfresh : identity ∉ found := by simpa using hnew
        obtain ⟨htyped, hknown⟩ := refIdentity_eq_some href
        obtain ⟨more, rfl, hall, hmore, hforall⟩ := ih h (nodup_snoc hnodup hfresh)
        refine ⟨identity :: more, by simp, hall, ?_, .cons htyped hforall⟩
        intro i hi
        rcases List.mem_cons.mp hi with rfl | hi
        · exact hknown
        · exact hmore i hi
      · cases h

/-- What `_ref_ids` accepts: distinct known identities, one for each reference. -/
theorem refIds_eq_ok {s : Services} {refs : JsonValue} {kind : String} {scope : JsonValue}
    {known : List Str} {code : String} {allowEmpty : Bool} {identities : List Str}
    (h : refIds s refs kind scope known code allowEmpty = .ok identities) :
    ∃ items, refs = .array items ∧ (allowEmpty = false → identities ≠ []) ∧ identities.Nodup ∧
      (∀ i ∈ identities, i ∈ known) ∧ List.Forall₂ (TypedRef s kind scope) items identities := by
  cases refs with
  | array items =>
      simp only [refIds] at h
      split at h
      · cases h
      · rename_i hempty
        obtain ⟨more, rfl, hnodup, hknown, hforall⟩ := refIdsFrom_eq_ok h List.nodup_nil
        refine ⟨items, rfl, ?_, hnodup, hknown, hforall⟩
        intro hallowed hnil
        rw [hnil] at hforall
        cases hforall
        exact hempty (by rw [hallowed]; rfl)
  | _ => cases h

/-- What is accepted of each item is listed in their order. -/
theorem mapM_eq_ok {α β : Type} {f : α → Checked β} {items : List α} :
    ∀ {found : List β},
      items.mapM f = .ok found ↔ List.Forall₂ (fun a b => f a = .ok b) items found := by
  induction items with
  | nil =>
      intro found
      rw [List.mapM_nil, pure_eq_ok]
      constructor
      · rintro rfl
        exact .nil
      · rintro ⟨⟩
        rfl
  | cons item rest ih =>
      intro found
      simp only [List.mapM_cons, bind_eq_ok, pure_eq_ok]
      constructor
      · rintro ⟨b, hb, others, hothers, rfl⟩
        exact .cons hb (ih.mp hothers)
      · rintro (_ | ⟨hb, hrest⟩)
        exact ⟨_, hb, _, ih.mpr hrest, rfl⟩

/-- `PreTranslationVerification`. -/
structure PreTranslationVerification where
  allRequiredObligationsHaveDgMapping : Bool
  allRequiredObligationsHaveMcDisposition : Bool
  allRequiredObligationsHaveRequiredBvDisposition : Bool
  candidateAttestationVerified : Bool
  sourceMemberPartitionComplete : Bool
  lineageVerified : Bool
  requiredObligationCount : Nat
  dgMappingCount : Nat
  mcDispositionCount : Nat
  bvCampaignCount : Nat
  unaccountedRequiredObligationCount : Nat
  deriving DecidableEq

/-- `CoverageAccounting`. -/
structure CoverageAccounting where
  requiredObligationCount : Nat
  accountedObligationCount : Nat
  unaccountedRequiredObligationCount : Nat
  sourceMemberCount : Nat
  representedSourceMemberCount : Nat
  unsupportedSourceMemberCount : Nat
  unaccountedSourceMemberCount : Nat
  requiredWorkItemCount : Nat
  disposedWorkItemCount : Nat
  unaccountedRequiredWorkItemCount : Nat
  deriving DecidableEq

/-- `VerifiedSharedContractV2`. -/
structure VerifiedSharedContractV2 where
  semantics : Members
  bundle : Members
  artifactContents : Table Bytes
  verification : PreTranslationVerification
  accounting : CoverageAccounting
  vulnerabilityId : Str
  profileId : Str

/-- `_escape_path_payload`: `quote` with some more characters left alone. -/
def escapePathPayload (payload : Str) : Str :=
  payload.flatMap fun c => if "$&+:-=@".toList.contains c then [c] else quoteChar c

example : escapePathPayload "a/b@c d".toList = "a%2Fb@c%20d".toList := by decide

end SharedContracts
