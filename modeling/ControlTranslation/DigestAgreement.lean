import ControlTranslation.RequestDigests

/-!
# Where the two digests of a request agree

The canonical hash of an envelope begins with its input, and the normalized
digest with the first key in order, which is another: the two texts of an
envelope differ.  Of a shared-contract request both texts have their keys
sorted, and only the second leaves out what is null.  Leaving something out
makes a text shorter, and sorting keeps its length.
-/

namespace SharedKeySpace

open PyText JsonValue ModelSchema RequestDigests

mutual

/-- Whether a field of a value is written as null. -/
def writesNone : Tree → Bool
  | .scalar _ => false
  | .items values => itemsWriteNone values
  | .record dropsNull fields => fieldsWriteNone dropsNull fields

/-- Whether some item writes nothing. -/
def itemsWriteNone : List Tree → Bool
  | [] => false
  | value :: rest => writesNone value || itemsWriteNone rest

/-- Whether a field is null, where nulls are written, or holds a null that is written. -/
def fieldsWriteNone (dropsNull : Bool) : List (Str × Str × Tree) → Bool
  | [] => false
  | (_, _, value) :: rest =>
      (value.isNone && !dropsNull) || writesNone value || fieldsWriteNone dropsNull rest

end

mutual

/-- Where nothing null is written, leaving out nulls changes nothing. -/
theorem dump_eq (byAlias : Bool) : ∀ value : Tree, writesNone value = false →
    value.dump byAlias true = value.dump byAlias false
  | .scalar _, _ => rfl
  | .items values, h => congrArg JsonValue.array (dumpItems_eq byAlias values h)
  | .record dropsNull fields, h => congrArg JsonValue.object
      (dumpFields_eq byAlias dropsNull fields h)

/-- Items that write nothing are all that separates the two dumps of a list. -/
theorem dumpItems_eq (byAlias : Bool) : ∀ values : List Tree, itemsWriteNone values = false →
    Tree.dumpItems byAlias true values = Tree.dumpItems byAlias false values
  | [], _ => rfl
  | value :: rest, h => by
      simp only [itemsWriteNone, Bool.or_eq_false_iff] at h
      rw [Tree.dumpItems, Tree.dumpItems, dump_eq byAlias value h.1, dumpItems_eq byAlias rest h.2]

/-- Without such fields the two dumps of a model agree. -/
theorem dumpFields_eq (byAlias dropsNull : Bool) : ∀ fields : List (Str × Str × Tree),
    fieldsWriteNone dropsNull fields = false →
      Tree.dumpFields byAlias true true fields = Tree.dumpFields byAlias false dropsNull fields
  | [], _ => rfl
  | (name, label, value) :: rest, h => by
      simp only [fieldsWriteNone, Bool.or_eq_false_iff] at h
      obtain ⟨⟨hnull, hvalue⟩, hrest⟩ := h
      rw [Tree.dumpFields, Tree.dumpFields, dump_eq byAlias value hvalue,
        dumpFields_eq byAlias dropsNull rest hrest]
      cases hnone : value.isNone with
      | false => rw [Bool.and_false, Bool.and_false]
      | true =>
          rw [hnone] at hnull
          cases dropsNull with
          | true => rfl
          | false => cases hnull

end

/-- The text of an object is longer, the longer its members are together. -/
theorem length_print_object_mono {xs ys : Members}
    (h : (xs.map (memberLength escapeChar)).sum ≤ (ys.map (memberLength escapeChar)).sum) :
    (print escapeChar (.object xs)).length ≤ (print escapeChar (.object ys)).length ∧
      ((xs.map (memberLength escapeChar)).sum < (ys.map (memberLength escapeChar)).sum →
        (print escapeChar (.object xs)).length < (print escapeChar (.object ys)).length) := by
  have hlong : ∀ members : Members, members ≠ [] →
      2 ≤ (members.map (memberLength escapeChar)).sum := by
    intro members hne
    obtain ⟨first, rest, rfl⟩ := List.exists_cons_of_ne_nil hne
    rw [List.map_cons, List.sum_cons, memberLength]
    omega
  have hnil : ∀ members : Members, members = [] →
      (members.map (memberLength escapeChar)).sum = 0 := by
    rintro _ rfl
    rfl
  rw [length_print_object, length_print_object]
  by_cases hxs : xs = []
  · by_cases hys : ys = []
    · rw [if_pos hxs, if_pos hys, hnil xs hxs, hnil ys hys]
      omega
    · have hys' := hlong ys hys
      rw [if_pos hxs, if_neg hys, hnil xs hxs]
      omega
  · have hxs' := hlong xs hxs
    by_cases hys : ys = []
    · rw [hnil ys hys] at h
      omega
    · rw [if_neg hxs, if_neg hys]
      omega

mutual

/-- Leaving out nulls never makes a text longer, and where one was written it makes it
shorter. -/
theorem length_dump (byAlias : Bool) : ∀ value : Tree,
    (print escapeChar (value.dump byAlias true)).length ≤
        (print escapeChar (value.dump byAlias false)).length ∧
      (writesNone value = true → (print escapeChar (value.dump byAlias true)).length <
        (print escapeChar (value.dump byAlias false)).length)
  | .scalar _ => ⟨Nat.le_refl _, nofun⟩
  | .items values => by
      obtain ⟨hle, hlt⟩ := length_dumpItems byAlias values
      have hempty : Tree.dumpItems byAlias true values = [] ↔
          Tree.dumpItems byAlias false values = [] := by
        cases values with
        | nil => rfl
        | cons value rest => simp [Tree.dumpItems]
      rw [Tree.dump, Tree.dump, length_print_array, length_print_array, writesNone]
      simp only [hempty]
      exact ⟨by omega, fun h => by have := hlt h; omega⟩
  | .record dropsNull fields => by
      obtain ⟨hle, hlt⟩ := length_dumpFields byAlias dropsNull fields
      obtain ⟨hmono, hstrict⟩ := length_print_object_mono hle
      rw [Tree.dump, Tree.dump, writesNone]
      exact ⟨hmono, fun h => hstrict (hlt h)⟩

/-- The dump without nulls is never the longer one, over a list. -/
theorem length_dumpItems (byAlias : Bool) : ∀ values : List Tree,
    ((Tree.dumpItems byAlias true values).map fun item =>
          (print escapeChar item).length + 1).sum ≤
        ((Tree.dumpItems byAlias false values).map fun item =>
          (print escapeChar item).length + 1).sum ∧
      (itemsWriteNone values = true →
        ((Tree.dumpItems byAlias true values).map fun item =>
            (print escapeChar item).length + 1).sum <
          ((Tree.dumpItems byAlias false values).map fun item =>
            (print escapeChar item).length + 1).sum)
  | [] => ⟨Nat.le_refl _, nofun⟩
  | value :: rest => by
      obtain ⟨hle, hlt⟩ := length_dump byAlias value
      obtain ⟨hrest, hrest'⟩ := length_dumpItems byAlias rest
      simp only [Tree.dumpItems, List.map_cons, List.sum_cons, itemsWriteNone, Bool.or_eq_true]
      refine ⟨by omega, ?_⟩
      rintro (h | h)
      · have := hlt h
        omega
      · have := hrest' h
        omega

/-- The dump without nulls is never the longer one, over a model. -/
theorem length_dumpFields (byAlias dropsNull : Bool) : ∀ fields : List (Str × Str × Tree),
    ((Tree.dumpFields byAlias true true fields).map (memberLength escapeChar)).sum ≤
        ((Tree.dumpFields byAlias false dropsNull fields).map (memberLength escapeChar)).sum ∧
      (fieldsWriteNone dropsNull fields = true →
        ((Tree.dumpFields byAlias true true fields).map (memberLength escapeChar)).sum <
          ((Tree.dumpFields byAlias false dropsNull fields).map (memberLength escapeChar)).sum)
  | [] => ⟨Nat.le_refl _, nofun⟩
  | (name, label, value) :: rest => by
      obtain ⟨hle, hlt⟩ := length_dump byAlias value
      obtain ⟨hrest, hrest'⟩ := length_dumpFields byAlias dropsNull rest
      simp only [Tree.dumpFields, fieldsWriteNone, Bool.or_eq_true]
      cases hnone : value.isNone with
      | false =>
          simp only [Bool.and_false, Bool.false_eq_true, if_false, List.map_cons, List.sum_cons,
            memberLength, Bool.false_and, false_or]
          refine ⟨by omega, ?_⟩
          rintro (h | h)
          · have := hlt h
            omega
          · have := hrest' h
            omega
      | true =>
          have hvalue : writesNone value = false := by
            cases value with
            | scalar v => rfl
            | items vs => cases hnone
            | record d fs => cases hnone
          cases dropsNull with
          | true =>
              simp only [Bool.and_true, if_true, Bool.not_true, Bool.and_false, hvalue,
                Bool.false_eq_true, false_or]
              exact ⟨hrest, hrest'⟩
          | false =>
              simp only [Bool.and_true, if_true, Bool.false_eq_true, if_false, List.map_cons,
                List.sum_cons, memberLength]
              exact ⟨by omega, fun _ => by omega⟩

end

/-- A text attribute of a request. -/
def textField (name : String) : InvocationRequest → Option Str
  | .envelope e => (Tree.field (e.leading ++ e.trailing) name.toList).text?
  | .sharedContractV2 values => (Tree.field values name.toList).text?

/-- Whether a request leaves nothing null: a shared-contract request without null fields. -/
def nothingNull : InvocationRequest → Bool
  | .envelope _ => false
  | .sharedContractV2 values => !fieldsWriteNone false values

/-- A field that is found is one of the fields. -/
theorem mem_of_field {values : FieldValues} {name s : Str}
    (h : (Tree.field values name).text? = some s) :
    ∃ label, (name, label, .scalar (.text s)) ∈ values := by
  unfold Tree.field at h
  cases hfind : values.find? fun f => f.1 = name with
  | none =>
      rw [hfind] at h
      cases h
  | some f =>
      obtain ⟨found, label, value⟩ := f
      have hname : found = name := by simpa using List.find?_some hfind
      subst hname
      rw [hfind] at h
      have hvalue : value = .scalar (.text s) := by
        cases value with
        | scalar v =>
            cases v with
            | text t =>
                obtain rfl := Option.some.inj h
                rfl
            | _ => cases h
        | _ => cases h
      rw [hvalue] at hfind
      exact ⟨label, List.mem_of_find?_eq_some hfind⟩

/-- A field that is not null is written under its label. -/
theorem mem_dumpFields {byAlias excludeNone drop : Bool} {values : FieldValues}
    {f : Str × Str × Tree} (hf : f ∈ values) (hvalue : f.2.2.isNone = false) :
    (if byAlias then f.2.1 else f.1, f.2.2.dump byAlias excludeNone) ∈
      Tree.dumpFields byAlias excludeNone drop values := by
  induction values with
  | nil => cases hf
  | cons first rest ih =>
      obtain ⟨name, label, value⟩ := first
      rw [Tree.dumpFields]
      rcases List.mem_cons.mp hf with rfl | hf
      · rw [hvalue, Bool.and_false, if_neg Bool.false_ne_true]
        exact List.mem_cons_self
      · by_cases hskip : (drop && value.isNone) = true
        · rw [if_pos hskip]
          exact ih hf
        · rw [if_neg hskip]
          exact List.mem_cons_of_mem _ (ih hf)

/-- **The second text.**  It begins with a key that comes no later than any that is
written. -/
theorem sorted_text {members : Members} {m : Str × JsonValue} (hm : m ∈ members) :
    ∃ key rest, dumps (sorted (.object members)) = '{' :: (printText escapeChar key ++ rest) ∧
      textLe key m.1 = true := by
  have hkey : m.1 ∈ (sortedMembers members).map (·.1) := by
    rw [sortedMembers_keys]
    exact List.mem_map_of_mem hm
  obtain ⟨m', hm', hsame⟩ := List.mem_map.mp hkey
  rw [sorted, dumps]
  cases hsorted : (sortedMembers members).insertionSort fun m m' => textLe m.1 m'.1 = true with
  | nil =>
      have hmem := (List.perm_insertionSort (fun m m' : Str × JsonValue => textLe m.1 m'.1 = true)
        (sortedMembers members)).mem_iff.mpr hm'
      rw [hsorted] at hmem
      cases hmem
  | cons first rest =>
      refine ⟨first.1, ':' :: (print escapeChar first.2 ++ printMembers escapeChar rest),
        ?_, ?_⟩
      · obtain ⟨name, value⟩ := first
        rw [print]
      · rw [← hsame]
        exact textLe_head hsorted hm'

section

variable {V : Validators Kind} {trim : Str → Str}

/-- Routing keeps the declared fields. -/
theorem routedField_name (all : FieldValues) (f : Str × Str × Tree) :
    (routedField all f).1 = f.1 ∧ (routedField all f).2.1 = f.2.1 := by
  obtain ⟨name, label, value⟩ := f
  rw [routedField]
  split_ifs
  · exact ⟨rfl, rfl⟩
  · exact ⟨rfl, rfl⟩
  · exact ⟨rfl, rfl⟩
  · exact ⟨rfl, rfl⟩

theorem labels_routed (leading trailing : FieldValues) :
    (routed leading trailing).1.map (fun f => (f.1, f.2.1)) =
        leading.map (fun f => (f.1, f.2.1)) ∧
      (routed leading trailing).2.map (fun f => (f.1, f.2.1)) =
        trailing.map (fun f => (f.1, f.2.1)) := by
  unfold routed
  dsimp only
  split_ifs
  · exact ⟨rfl, rfl⟩
  · simp only [List.map_map]
    constructor
    · refine List.map_congr_left fun f _ => ?_
      exact Prod.ext (routedField_name _ f).1 (routedField_name _ f).2
    · refine List.map_congr_left fun f _ => ?_
      exact Prod.ext (routedField_name _ f).1 (routedField_name _ f).2

/-- What an envelope was read from. -/
theorem exists_read {members : Members} {e : InvokeRequestEnvelope}
    (h : readEnvelope V trim members = some e) :
    ∃ leading trailing, (fields leadingFields).validate V members = some leading ∧
      (fields trailingFields).validate V members = some trailing ∧
      e.leading = (routed leading trailing).1 ∧ e.trailing = (routed leading trailing).2 := by
  unfold readEnvelope at h
  generalize (fields leadingFields).validate V members = first,
    (fields trailingFields).validate V members = last at h ⊢
  split_ifs at h
  obtain ⟨leading, hleading, hread⟩ := Option.bind_eq_some_iff.mp h
  obtain ⟨scope, -, hread⟩ := Option.bind_eq_some_iff.mp hread
  obtain ⟨trailing, htrailing, hread⟩ := Option.bind_eq_some_iff.mp hread
  split_ifs at hread
  obtain rfl := Option.some.inj hread
  exact ⟨leading, trailing, hleading, htrailing, rfl, rfl⟩

/-- The fields of an envelope carry their names as labels. -/
theorem label_eq_name {members : Members} {e : InvokeRequestEnvelope}
    (h : readEnvelope V trim members = some e) {f : Str × Str × Tree}
    (hf : f ∈ e.leading ++ e.trailing) : f.2.1 = f.1 := by
  obtain ⟨leading, trailing, hleading, htrailing, hfirst, hlast⟩ := exists_read h
  have hlabels : ∀ l ∈ (fields leadingFields).labels ++ (fields trailingFields).labels,
      l.2 = l.1 := by
    decide
  have hmem : (f.1, f.2.1) ∈ (fields leadingFields).labels ++ (fields trailingFields).labels := by
    rw [← (fields leadingFields).labels_validate V hleading,
      ← (fields trailingFields).labels_validate V htrailing,
      ← (labels_routed leading trailing).1, ← (labels_routed leading trailing).2, ← hfirst,
      ← hlast, ← List.map_append]
    exact List.mem_map_of_mem hf
  exact hlabels _ hmem

/-- The first declared field and its value come first. -/
theorem validate_cons {spec : FieldSpec} {rest : List FieldSpec} {members : Members}
    {values : FieldValues} (h : (fields (spec :: rest)).validate V members = some values) :
    ∃ value values', values = (spec.1, spec.2.1, value) :: values' ∧
      (fields rest).validate V members = some values' ∧
      (spec.2.2.1 = some value ∨ ∃ v, spec.2.2.2.validate V v = some value) := by
  obtain ⟨name, label, default, schema⟩ := spec
  rw [fields, Fields.validate] at h
  obtain ⟨value, hvalue, h⟩ := Option.bind_eq_some_iff.mp h
  obtain ⟨values', hrest, h⟩ := Option.map_eq_some_iff.mp h
  refine ⟨value, values', h.symm, hrest, ?_⟩
  cases hsource : source members name label with
  | none =>
      rw [hsource] at hvalue
      exact .inl hvalue
  | some v =>
      rw [hsource] at hvalue
      exact .inr ⟨v, hvalue⟩

/-- A model is read as a record. -/
theorem isNone_of_model {name : Str} {dropsNull : Bool} {specs : Fields Kind} {v : JsonValue}
    {value : Tree} (h : (Schema.model name dropsNull specs).validate V v = some value) :
    value.isNone = false := by
  cases v with
  | object members =>
      rw [Schema.validate] at h
      split_ifs at h
      obtain ⟨values, -, rfl⟩ := Option.map_eq_some_iff.mp h
      rfl
  | _ => cases h

/-- The text an envelope's hash covers begins with its input. -/
theorem canonical_text {members : Members} {e : InvokeRequestEnvelope}
    (h : readEnvelope V trim members = some e) :
    ∃ rest, (InvocationRequest.envelope e).canonicalText =
      '{' :: (printText escapeChar "input".toList ++ rest) := by
  obtain ⟨leading, trailing, hleading, -, hfirst, -⟩ := exists_read h
  obtain ⟨contract, others, rfl, hothers, -⟩ := validate_cons hleading
  obtain ⟨input, others, rfl, -, hinput⟩ := validate_cons hothers
  have hsome : input.isNone = false := by
    rcases hinput with hdefault | ⟨v, hv⟩
    · obtain rfl := Option.some.inj hdefault
      rfl
    · exact isNone_of_model hv
  obtain ⟨contract', others', hshape⟩ : ∃ contract' others',
      e.leading = ("contract_id".toList, "contract_id".toList, contract') ::
        ("input".toList, "input".toList, input) :: others' := by
    rw [hfirst, routed]
    split_ifs
    · exact ⟨contract, others, rfl⟩
    · exact ⟨contract, _, rfl⟩
  have hcontract : semanticFields.contains "contract_id".toList = false := by decide
  have hkept : semanticFields.contains "input".toList = true := by decide
  rw [InvocationRequest.canonicalText, members_semantic, hshape,
    List.filter_cons_of_neg (by simp only [hcontract, Bool.false_eq_true, not_false_eq_true]),
    List.filter_cons_of_pos (by simp only [hkept]), Tree.dumpFields, hsome, Bool.and_false,
    if_neg Bool.false_ne_true, dumps, List.cons_append, print]
  exact ⟨_, rfl⟩

/-- **An envelope's digests.**  The text with sorted keys begins with a key that is not
`input`, once a correlation is given. -/
theorem canonicalText_ne {members : Members} {e : InvokeRequestEnvelope}
    (h : readEnvelope V trim members = some e) {correlation : Str}
    (hcorrelation : textField "correlation_id" (.envelope e) = some correlation) :
    (InvocationRequest.envelope e).canonicalText ≠
      (InvocationRequest.envelope e).normalizedText := by
  intro htext
  obtain ⟨rest, hcanonical⟩ := canonical_text h
  obtain ⟨label, hfield⟩ := mem_of_field hcorrelation
  obtain rfl : label = "correlation_id".toList := label_eq_name h hfield
  have hkeep : ("correlation_id".toList != "idempotency_key".toList) = true := by decide
  have hwritten : ("correlation_id".toList, JsonValue.text correlation) ∈
      e.members true true fun name => name != "idempotency_key".toList := by
    rw [InvokeRequestEnvelope.members]
    rcases List.mem_append.mp hfield with hleading | htrailing
    · refine List.mem_append_left _ (List.mem_append_left _ ?_)
      exact mem_dumpFields (List.mem_filter.mpr ⟨hleading, hkeep⟩) rfl
    · refine List.mem_append_right _ ?_
      exact mem_dumpFields (List.mem_filter.mpr ⟨htrailing, hkeep⟩) rfl
  obtain ⟨key, rest', hnormalized, hle⟩ := sorted_text hwritten
  rw [hcanonical, InvocationRequest.normalizedText, InvocationRequest.modelDump, hnormalized]
    at htext
  obtain ⟨rfl, -⟩ := printText_inj readable_escapeChar readable_escapeChar
    (List.cons.inj htext).2
  have hafter : textLe "input".toList "correlation_id".toList = false := by decide
  exact Bool.false_ne_true (hafter.symm.trans hle)

/-- **A shared-contract request's digests.**  They are one where nothing null is written. -/
theorem canonicalText_eq_iff {members : Members} {values : FieldValues}
    (h : readSharedContractV2 V members = some values) :
    (InvocationRequest.sharedContractV2 values).canonicalText =
        (InvocationRequest.sharedContractV2 values).normalizedText ↔
      fieldsWriteNone false values = false := by
  have hlabels : values.map (fun f => (f.1, f.2.1)) = (fields sharedContractV2Fields).labels := by
    unfold readSharedContractV2 at h
    split_ifs at h
    obtain ⟨hvalues, -⟩ := Option.filter_eq_some_iff.mp h
    exact (fields sharedContractV2Fields).labels_validate V hvalues
  have hnames : ∀ l ∈ (fields sharedContractV2Fields).labels,
      (l.1 != "idempotency_key".toList) = true := by decide
  have hkept : values.filter (fun f => f.1 != "idempotency_key".toList) = values := by
    refine List.filter_eq_self.mpr fun f hf => hnames (f.1, f.2.1) ?_
    rw [← hlabels]
    exact List.mem_map_of_mem hf
  have hall : values.filter (fun _ => true) = values := List.filter_eq_self.mpr fun _ _ => rfl
  rw [InvocationRequest.canonicalText, InvocationRequest.normalizedText,
    InvocationRequest.modelDump, InvocationRequest.modelDump, hkept, hall]
  constructor
  · intro htext
    by_contra hnull
    rw [Bool.not_eq_false] at hnull
    obtain ⟨hle, hlt⟩ := length_dumpFields true false values
    have hshorter := (length_print_object_mono hle).2 (hlt hnull)
    rw [← length_print_sorted, ← length_print_sorted escapeChar (.object
      (Tree.dumpFields true false false values))] at hshorter
    exact absurd (congrArg List.length htext).symm (Nat.ne_of_lt hshorter)
  · intro hnull
    rw [dumpFields_eq true false values hnull]

/-- **One digest for both sides.**  Of a request with a correlation the two digests agree
exactly where it is a shared-contract request that leaves nothing null. -/
theorem digests_eq_iff {sha256 : Str → Str} (hsha : Function.Injective sha256) {body : JsonValue}
    {request : InvocationRequest} (h : readRequest V trim body = some request)
    (hcorrelation : (textField "correlation_id" request).isSome = true) :
    canonicalRequestHash sha256 request = normalizedRequestDigest sha256 request ↔
      nothingNull request = true := by
  rw [canonicalRequestHash, normalizedRequestDigest, hsha.eq_iff]
  cases body with
  | object members =>
      rcases Option.or_eq_some_iff.mp h with hread | ⟨-, hread⟩
      · obtain ⟨e, he, rfl⟩ := Option.map_eq_some_iff.mp hread
        obtain ⟨correlation, hcorrelation⟩ := Option.isSome_iff_exists.mp hcorrelation
        exact iff_of_false (canonicalText_ne he hcorrelation) nofun
      · obtain ⟨values, hvalues, rfl⟩ := Option.map_eq_some_iff.mp hread
        rw [canonicalText_eq_iff hvalues, nothingNull, Bool.not_eq_true']
  | _ => cases h

end

end SharedKeySpace
