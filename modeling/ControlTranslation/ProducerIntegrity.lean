import Mathlib.Data.Set.Basic
import Mathlib.Data.Multiset.Basic
import ControlTranslation.ResultReader

/-!
# What the producer's digest covers

The resolver reads a stored result in several places, and the reader accepts the
result when the digest of its signed bytes is the locator's.  The two are
compared over pairs of documents accepted under one locator: a result signed
whole fixes everything the resolver reads from it, up to the order of members,
and a result signed as its producer's struct does not, because the resolver also
searches where the struct has no field.
-/

namespace ResultReader

open PyText JsonValue ProofLoop GoJson

/-- The texts a search of a result finds under a key. -/
def textsUnder (key : String) (result : Members) : Set Str :=
  {v | v ∈ occurrences key.toList (.object result)}

/-- The texts found under the four lineage names, anywhere in a result. -/
structure LineageReads where
  correlationIds : Set Str
  subjectRevisionIds : Set Str
  vulnerabilityIds : Set Str
  candidateIds : Set Str

/-- What resolving reads of a result's lineage. -/
def lineageReads (result : Members) : LineageReads :=
  ⟨textsUnder "correlation_id" result, textsUnder "subject_record_revision_id" result,
    textsUnder "vulnerability_id" result, textsUnder "candidate_id" result⟩

/-- What `value or other` and the check for a text see of `value`: nothing when
the other is taken, else its text. -/
def preferredText (value : JsonValue) : Option (Option Str) :=
  if value.truthy then some value.asText else none

/-- What resolution reads from a Defense Generation result. -/
structure DefenseReads where
  hasCandidate : Bool
  discriminator : Option (Option Str)
  selectedControlClass : Option (Option Str)
  artifactContent : Option Str
  primaryVulnerabilityId : Option Str
  primaryCandidateId : Option Str
  targetTechnology : Option Str
  targetPolicyContextId : Option Str
  lineage : LineageReads

/-- What resolving reads of a defense result. -/
def defenseReads (result : Members) : DefenseReads :=
  let primary := nested result "primary_candidate"
  { hasCandidate := (get result "primary_candidate".toList).asObject.isSome
    discriminator := preferredText (get primary "discriminator".toList)
    selectedControlClass := preferredText (get primary "selected_control_class".toList)
    artifactContent := (get primary "artifact_content".toList).asText
    primaryVulnerabilityId := (get primary "vulnerability_id".toList).asNonemptyText
    primaryCandidateId := (get primary "candidate_id".toList).asNonemptyText
    targetTechnology := preferredString [result] "target_technology"
    targetPolicyContextId := preferredString [result] "target_policy_context_id"
    lineage := lineageReads result }

/-- A request context without the order of its headers. -/
structure ContextReads where
  method : Str
  path : Str
  headers : Multiset (Str × Str)
  body : Str

/-- What resolution reads from a Mitigation Check result. -/
structure MitigationReads where
  requestContext : Option ContextReads
  lineage : LineageReads

/-- What it reads of the request a mitigation was checked against. -/
def contextReads (result : Members) : Option ContextReads :=
  (mitigationRequestContext result).map fun context =>
    ⟨context.method, context.path, context.headers, context.body⟩

/-- What it reads of a mitigation result. -/
def mitigationReads (result : Members) : MitigationReads :=
  ⟨contextReads result, lineageReads result⟩

/-- What resolving reads of a result, by its role. -/
inductive Reads
  | defense (reads : DefenseReads)
  | mitigation (reads : MitigationReads)

/-- What resolution reads from a result. -/
def reads : Shape → Members → Reads
  | .defense, result => .defense (defenseReads result)
  | .mitigation, result => .mitigation (mitigationReads result)

/-- A header table of one more member. -/
theorem headerTable_cons (name : Str) (value : JsonValue) (rest : Members) :
    headerTable ((name, value) :: rest) =
      value.asText.bind fun s => (headerTable rest).map ((name, s) :: ·) := by
  cases value <;> rfl

theorem headerTable_of_sameMembers : ∀ {xs ys : Members}, SameMembers xs ys →
    headerTable xs = headerTable ys
  | _, _, .nil => rfl
  | _, _, .cons h hrest => by
      rw [headerTable_cons, headerTable_cons, h.asText_eq, headerTable_of_sameMembers hrest]

/-- A header table without its order. -/
def headerReads (members : Members) : Option (Multiset (Str × Str)) :=
  (headerTable members).map fun table => (table : Multiset (Str × Str))

theorem headerReads_cons (name : Str) (value : JsonValue) (rest : Members) :
    headerReads ((name, value) :: rest) =
      value.asText.bind fun s => (headerReads rest).map ((name, s) ::ₘ ·) := by
  rw [headerReads, headerReads, headerTable_cons]
  cases value.asText with
  | none => rfl
  | some s => cases headerTable rest <;> rfl

theorem headerReads_of_perm {xs ys : Members} (h : xs.Perm ys) :
    headerReads xs = headerReads ys := by
  induction h with
  | nil => rfl
  | cons member _ ih =>
      obtain ⟨name, value⟩ := member
      rw [headerReads_cons, headerReads_cons, ih]
  | swap member member' rest =>
      obtain ⟨name, value⟩ := member
      obtain ⟨name', value'⟩ := member'
      rw [headerReads_cons, headerReads_cons, headerReads_cons, headerReads_cons]
      cases value.asText with
      | none => cases value'.asText <;> rfl
      | some s =>
          cases value'.asText with
          | none => rfl
          | some s' =>
              cases headerReads rest with
              | none => rfl
              | some table => exact congrArg some (Multiset.cons_swap _ _ table)
  | trans _ _ ih ih' => exact ih.trans ih'

theorem headerReads_of_same {xs zs : Members} (h : Same (.object xs) (.object zs)) :
    headerReads xs = headerReads zs := by
  cases h with
  | object h hperm =>
      rw [headerReads, headerTable_of_sameMembers h]
      exact headerReads_of_perm hperm

/-- What a request contributes to the context. -/
def requestReads (request : Members) : Option ContextReads :=
  (get request "method".toList).asNonemptyText.bind fun method =>
    (get request "path".toList).asNonemptyText.bind fun path =>
      (get request "body".toList).asNonemptyText.bind fun body =>
        (((get request "headers".toList).orElse (.object [])).asObject).bind fun headers =>
          (headerReads headers).map fun table => ⟨method, path, table, body⟩

/-- The context is read off the request of the test basis. -/
theorem contextReads_eq (result : Members) :
    contextReads result = (get result "test_basis".toList).asObject.bind fun testBasis =>
      (get testBasis "request".toList).asObject.bind requestReads := by
  unfold contextReads mitigationRequestContext requestReads headerReads
  simp only [Option.bind_eq_bind, Option.pure_def, Option.map_bind, Function.comp_def,
    Option.map_some]

theorem requestReads_of_same {xs zs : Members} (h : Same (.object xs) (.object zs))
    (hd : distinctMembers xs = true) : requestReads xs = requestReads zs := by
  have htext : ∀ key, (get xs key).asNonemptyText = (get zs key).asNonemptyText :=
    fun key => (h.get hd key).asNonemptyText_eq
  unfold requestReads
  rw [htext, htext, htext]
  have hheaders := (h.get hd "headers".toList).orElse (.object [])
  rcases hheaders.asObject_cases with ⟨hx, hz⟩ | ⟨headers, headers', hx, hz, hsame⟩
  · rw [hx, hz]
  · rw [hx, hz]
    simp only [Option.bind_some, headerReads_of_same hsame]

theorem contextReads_of_same {a b : Members}
    (h : Same (get a "test_basis".toList) (get b "test_basis".toList))
    (hd : distinctMembers a = true) : contextReads a = contextReads b := by
  rw [contextReads_eq, contextReads_eq]
  rcases h.asObject_cases with ⟨ha, hb⟩ | ⟨basis, basis', ha, hb, hsame⟩
  · rw [ha, hb]
  · have hbasis := distinctMembers_of_asObject (distinct_get hd _) ha
    rw [ha, hb, Option.bind_some, Option.bind_some]
    have hrequest := hsame.get hbasis "request".toList
    rcases hrequest.asObject_cases with ⟨hr, hr'⟩ | ⟨request, request', hr, hr', hsame'⟩
    · rw [hr, hr']
    · rw [hr, hr', Option.bind_some, Option.bind_some]
      exact requestReads_of_same hsame'
        (distinctMembers_of_asObject (distinct_get hbasis _) hr)

/-- The members a result's reader looks up. -/
def readKeys : List Str :=
  ["primary_candidate".toList, "target_context".toList, "target_technology".toList,
    "target_policy_context_id".toList, "test_basis".toList]

/-- Two results that are the same where the reader looks, and hold the same
texts. -/
structure LooksSame (a b : Members) : Prop where
  members : ∀ key ∈ readKeys, Same (get a key) (get b key)
  texts : lineageReads a = lineageReads b

section

variable {a b : Members}

/-- The text of a member of an object in the result. -/
theorem nested_same {key : String} (h : Same (get a key.toList) (get b key.toList))
    (hd : distinctMembers a = true) (name : Str) :
    Same (get (nested a key) name) (get (nested b key) name) := by
  unfold nested
  rcases h.asObject_cases with ⟨ha, hb⟩ | ⟨xs, zs, ha, hb, hsame⟩
  · rw [ha, hb]
    exact .refl _
  · rw [ha, hb]
    exact hsame.get (distinctMembers_of_asObject (distinct_get hd _) ha) name

/-- A preferred text is the same in documents that look the same. -/
theorem preferredString_of_looksSame (h : LooksSame a b) (hd : distinctMembers a = true)
    {key : String} (hkey : key.toList ∈ readKeys) :
    preferredString [a] key = preferredString [b] key := by
  have htop := (h.members _ hkey).asNonemptyText_eq
  have hprimary := (nested_same (h.members _ (by decide)) hd key.toList :
    Same (get (nested a "primary_candidate") key.toList) _).asNonemptyText_eq
  have htarget := (nested_same (h.members _ (by decide)) hd key.toList :
    Same (get (nested a "target_context") key.toList) _).asNonemptyText_eq
  simp only [preferredString, List.findSome?_cons, List.findSome?_nil, htop, hprimary, htarget]

theorem preferredText_of_same {x y : JsonValue} (h : Same x y) :
    preferredText x = preferredText y := by
  rw [preferredText, preferredText, h.truthy_eq, h.asText_eq]

/-- **The reads.**  They are determined by where the reader looks. -/
theorem reads_of_looksSame (h : LooksSame a b) (hd : distinctMembers a = true) (shape : Shape) :
    reads shape a = reads shape b := by
  cases shape with
  | defense =>
      have hprimary : Same (get a "primary_candidate".toList)
          (get b "primary_candidate".toList) := h.members _ (by decide)
      have hfield := nested_same hprimary hd
      refine congrArg Reads.defense ?_
      unfold defenseReads
      dsimp only
      rw [hprimary.asObject_isSome_eq, preferredText_of_same (hfield _),
        preferredText_of_same (hfield _), (hfield _).asText_eq, (hfield _).asNonemptyText_eq,
        (hfield _).asNonemptyText_eq, preferredString_of_looksSame h hd (by decide),
        preferredString_of_looksSame h hd (by decide), h.texts]
  | mitigation =>
      refine congrArg Reads.mitigation ?_
      rw [mitigationReads, mitigationReads, h.texts,
        contextReads_of_same (h.members _ (by decide)) hd]

/-- The same document looks the same. -/
theorem looksSame_of_same (h : Same (.object a) (.object b)) (hd : distinctMembers a = true) :
    LooksSame a b := by
  have htexts : ∀ key : String, textsUnder key a = textsUnder key b := fun key =>
    Set.ext fun v => mem_occurrences_of_same key.toList v _ _ h
  refine ⟨fun key _ => h.get hd key, ?_⟩
  simp only [lineageReads, htexts]

end

/-- What an accepted result went through. -/
structure Signed (producer : Producer) (shape : Shape) (locator : Locator) (result : Members)
    (payload : Str) : Prop where
  bytes : producerIntegrityBytes producer shape result = .ok payload
  declared : (get result "content_sha256".toList).asText = some (digestOf producer payload)
  size : equalsSize (utf8 payload).size (get result "size_bytes".toList) = true
  located : locator.contentSha256 = some (digestOf producer payload)

/-- An accepted document has the digest its locator names. -/
theorem Accepted.signed {producer : Producer} {shape : Shape} {reference : Reference}
    {locator : Locator} {stored : StoredResult}
    (h : Accepted producer shape reference locator stored) :
    ∃ payload, Signed producer shape locator stored.document.members payload := by
  obtain ⟨hstrict, h⟩ := h
  have hany : (some locator).any isStrict = true := hstrict
  have hfilter : (some locator).filter isStrict = some locator := by simp [hstrict]
  simp only [verifyImmutableResult, bind_eq_ok, hany, Bool.true_or, if_true, hfilter,
    Option.elim_some] at h
  obtain ⟨-, -, ⟨digest, size⟩, hdeclared, hlocator⟩ := h
  simp only [verifyDeclared, producerIntegrity, bind_eq_ok, require_eq_ok, pure_eq_ok,
    Bool.and_eq_true, beq_iff_eq] at hdeclared
  obtain ⟨_, ⟨payload, hbytes, rfl⟩, -, ⟨hdigest, hsize⟩, heq⟩ := hdeclared
  obtain ⟨rfl, rfl⟩ := Prod.mk.inj heq
  simp only [verifyLocator, bind_eq_ok, require_eq_ok, Bool.and_eq_true, beq_iff_eq] at hlocator
  obtain ⟨-, -, -, ⟨hlocated, -⟩, -⟩ := hlocator
  exact ⟨payload, hbytes, hdigest, hsize, hlocated.symm⟩

/-- The encoding of a text as a string of the language. -/
theorem utf8_eq (text : Str) : utf8 text = (String.ofList text).toByteArray := by
  refine ByteArray.ext ?_
  rw [String.toByteArray_ofList, List.utf8Encode, List.data_toByteArray]
  rfl

theorem utf8_injective : Function.Injective utf8 := by
  intro a b h
  rw [utf8_eq, utf8_eq] at h
  exact String.ofList_inj.mp (String.toByteArray_inj.mp h)

/-- One digest, one text. -/
theorem payload_unique {producer : Producer} (hsha : Function.Injective producer.sha256)
    {shape : Shape} {locator : Locator} {result result' : Members} {payload payload' : Str}
    (h : Signed producer shape locator result payload)
    (h' : Signed producer shape locator result' payload') : payload = payload' := by
  have hdigest : digestOf producer payload = digestOf producer payload' :=
    Option.some.inj (h.located.symm.trans h'.located)
  exact utf8_injective (hsha (List.append_cancel_left hdigest))

/-- The digest and size of a signed result hold no text under another key. -/
theorem looksSame_withoutIntegrity {producer : Producer} {shape : Shape} {locator : Locator}
    {result : Members} {payload : Str} (h : Signed producer shape locator result payload)
    (hd : distinctMembers result = true) : LooksSame (withoutIntegrity result) result := by
  have hget : ∀ key : Str, key ≠ "content_sha256".toList → key ≠ "size_bytes".toList →
      get (withoutIntegrity result) key = get result key := by
    intro key hdigest hsize
    refine get_filter fun m _ hm => ?_
    rw [hm, beq_eq_false_iff_ne.mpr hdigest, beq_eq_false_iff_ne.mpr hsize]
    rfl
  have hnone : ∀ (key : Str) (m : Str × JsonValue), m ∈ result →
      (m.1 = "content_sha256".toList ∨ m.1 = "size_bytes".toList) →
      occurrences key m.2 = [] := by
    intro key m hm hname
    have hvalue := get_of_mem (nodup_of_distinctMembers hd) hm
    rcases hname with hname | hname
    · have hdeclared := h.declared
      rw [← hname, hvalue] at hdeclared
      cases hm2 : m.2 with
      | text s => rfl
      | _ => simp [hm2, asText] at hdeclared
    · have hsize := h.size
      rw [← hname, hvalue] at hsize
      cases hm2 : m.2 with
      | number literal => rfl
      | bool b => rfl
      | _ => simp [hm2, equalsSize] at hsize
  have htexts : ∀ key : String, key.toList ≠ "content_sha256".toList →
      key.toList ≠ "size_bytes".toList →
      textsUnder key (withoutIntegrity result) = textsUnder key result := by
    intro key hdigest hsize
    refine Set.ext fun v => ?_
    change v ∈ occurrencesInMembers key.toList (withoutIntegrity result) ↔
      v ∈ occurrencesInMembers key.toList result
    rw [mem_occurrencesInMembers, mem_occurrencesInMembers]
    refine ⟨fun hfound => ?_, fun hfound => ?_⟩
    · obtain ⟨m, hm, hv⟩ := hfound
      exact ⟨m, List.mem_of_mem_filter hm, hv⟩
    obtain ⟨m, hm, hv⟩ := hfound
    by_cases hname : m.1 = "content_sha256".toList ∨ m.1 = "size_bytes".toList
    · have hother : m.1 ≠ key.toList := by
        rcases hname with hname | hname
        · exact fun heq => hdigest (heq.symm.trans hname)
        · exact fun heq => hsize (heq.symm.trans hname)
      rw [textUnder, if_neg hother, hnone _ m hm hname] at hv
      rcases hv with hv | hv
      · cases hv
      · cases hv
    · refine ⟨m, List.mem_filter.mpr ⟨hm, ?_⟩, hv⟩
      obtain ⟨hdigest', hsize'⟩ := not_or.mp hname
      rw [beq_eq_false_iff_ne.mpr hdigest', beq_eq_false_iff_ne.mpr hsize']
      rfl
  constructor
  · intro key hkey
    have hdigest : key ≠ "content_sha256".toList := by
      rintro rfl
      exact absurd hkey (by decide)
    have hsize : key ≠ "size_bytes".toList := by
      rintro rfl
      exact absurd hkey (by decide)
    rw [hget key hdigest hsize]
    exact .refl _
  · unfold lineageReads
    rw [htexts _ (by decide) (by decide), htexts _ (by decide) (by decide),
      htexts _ (by decide) (by decide), htexts _ (by decide) (by decide)]

/-- What canonical JSON fixes: the text is the compact text of the same document
with its members in some order and its numbers in some spelling. -/
def Canonical (encode : JsonValue → Option Str) : Prop :=
  ∀ value text, encode value = some text →
    ∃ written, Same value written ∧ finite written = true ∧ text = dumps written

/-- A result signed whole is written as the same document. -/
theorem written_of_signedWhole {producer : Producer} (hrfc : Canonical producer.rfc8785)
    {shape : Shape} {result : Members} {payload : Str}
    (hbytes : producerIntegrityBytes producer shape result = .ok payload)
    (hwhole : signedWhole shape result = true) :
    ∃ written, Same (.object (withoutIntegrity result)) (.object written) ∧
      finite (.object written) = true ∧ payload = dumps (.object written) := by
  rw [producerIntegrityBytes, if_pos hwhole] at hbytes
  split at hbytes
  · rename_i text htext
    obtain rfl := Except.ok.inj hbytes
    obtain ⟨written, hsame, hfinite, htext⟩ := hrfc _ _ htext
    obtain ⟨members, rfl⟩ : ∃ members, written = .object members := by
      cases hsame with
      | object _ _ => exact ⟨_, rfl⟩
    exact ⟨members, hsame, hfinite, htext⟩
  · cases hbytes

/-- An older result is written as its producer's struct. -/
theorem written_of_struct {producer : Producer} {shape : Shape} {result : Members}
    {payload : Str} (hbytes : producerIntegrityBytes producer shape result = .ok payload)
    (hwhole : signedWhole shape result = false) :
    finite (.object (goStructValue shape.schema (blankIntegrity result))) = true ∧
      payload = print goEscapeChar
        (.object (goStructValue shape.schema (blankIntegrity result))) := by
  rw [producerIntegrityBytes, if_neg (by simp [hwhole])] at hbytes
  simp only [goOrderedJson, bind_eq_ok, require_eq_ok] at hbytes
  obtain ⟨-, -, hbytes⟩ := hbytes
  by_cases hfinite : finite (.object (goStructValue shape.schema (blankIntegrity result))) = true
  · rw [if_pos hfinite, pure_eq_ok] at hbytes
    exact ⟨hfinite, hbytes.symm.trans (goReplaceText_print _ hfinite)⟩
  · rw [if_neg hfinite] at hbytes
    cases hbytes

theorem schema_names_nodup (shape : Shape) : (shape.schema.map (·.1)).Nodup := by
  cases shape with
  | defense => decide +kernel
  | mitigation => decide +kernel

/-- The marker is a field of the struct. -/
theorem marker_mem_schema (shape : Shape) :
    ∃ tag, (shape.marker, .leaf, tag) ∈ shape.schema := by
  cases shape with
  | defense => exact ⟨some .raw, List.mem_of_getElem? (i := 12) rfl⟩
  | mitigation => exact ⟨some .string, List.mem_of_getElem? (i := 13) rfl⟩

/-- Whether a struct is signed whole can be read off its encoding. -/
theorem marker_of_struct (shape : Shape) (result : Members) :
    (get (goStructValue shape.schema (blankIntegrity result)) shape.marker).truthy =
      signedWhole shape result := by
  obtain ⟨tag, hmem⟩ := marker_mem_schema shape
  have hdigest : shape.marker ≠ "content_sha256".toList := by cases shape <;> decide
  have hsize : shape.marker ≠ "size_bytes".toList := by cases shape <;> decide
  rw [truthy_get_goStructValue (schema_names_nodup shape) hmem, blankIntegrity,
    get_setMember_of_ne hsize, get_setMember_of_ne hdigest, signedWhole]

/-- Of two results with one signature, both or neither are signed whole. -/
theorem signedWhole_of_payload {producer : Producer} (hrfc : Canonical producer.rfc8785)
    {shape : Shape} {result result' : Members} {payload : Str}
    (hd : distinctMembers result = true)
    (hbytes : producerIntegrityBytes producer shape result = .ok payload)
    (hbytes' : producerIntegrityBytes producer shape result' = .ok payload)
    (hwhole : signedWhole shape result = true) : signedWhole shape result' = true := by
  by_contra hnot
  obtain ⟨written, hsame, hfinite, rfl⟩ := written_of_signedWhole hrfc hbytes hwhole
  obtain ⟨hfinite', htext⟩ := written_of_struct hbytes' (by simpa using hnot)
  have heq := eq_of_print_eq readable_escapeChar readable_goEscapeChar hfinite hfinite' htext
  have hmarker : (get written shape.marker).truthy = true := by
    have hdigest : shape.marker ≠ "content_sha256".toList := by cases shape <;> decide
    have hsize : shape.marker ≠ "size_bytes".toList := by cases shape <;> decide
    have hkept : get (withoutIntegrity result) shape.marker = get result shape.marker := by
      refine get_filter fun m _ hm => ?_
      rw [hm, beq_eq_false_iff_ne.mpr hdigest, beq_eq_false_iff_ne.mpr hsize]
      rfl
    have htruthy := (hsame.get (distinctMembers_filter hd _) shape.marker).truthy_eq
    rw [← htruthy, hkept]
    exact hwhole
  rw [JsonValue.object.inj heq, marker_of_struct] at hmarker
  exact hnot hmarker

/-- **Coverage.**  Results signed whole with one text read the same. -/
theorem reads_of_signedWhole {producer : Producer} (hrfc : Canonical producer.rfc8785)
    {shape : Shape} {locator : Locator} {result result' : Members} {payload : Str}
    (hd : distinctMembers result = true) (hd' : distinctMembers result' = true)
    (h : Signed producer shape locator result payload)
    (h' : Signed producer shape locator result' payload)
    (hwhole : signedWhole shape result = true) :
    reads shape result = reads shape result' := by
  have hwhole' := signedWhole_of_payload hrfc hd h.bytes h'.bytes hwhole
  obtain ⟨written, hsame, hfinite, htext⟩ := written_of_signedWhole hrfc h.bytes hwhole
  obtain ⟨written', hsame', hfinite', htext'⟩ := written_of_signedWhole hrfc h'.bytes hwhole'
  have heq := eq_of_print_eq readable_escapeChar readable_escapeChar hfinite hfinite'
    (htext.symm.trans htext')
  obtain rfl := JsonValue.object.inj heq
  have hcore := distinctMembers_filter hd
    fun member => !(member.1 == "content_sha256".toList || member.1 == "size_bytes".toList)
  have hcore' := distinctMembers_filter hd'
    fun member => !(member.1 == "content_sha256".toList || member.1 == "size_bytes".toList)
  calc reads shape result = reads shape (withoutIntegrity result) :=
        (reads_of_looksSame (looksSame_withoutIntegrity h hd) hcore shape).symm
    _ = reads shape written := reads_of_looksSame (looksSame_of_same hsame hcore) hcore shape
    _ = reads shape (withoutIntegrity result') :=
        (reads_of_looksSame (looksSame_of_same hsame' hcore') hcore' shape).symm
    _ = reads shape result' :=
        reads_of_looksSame (looksSame_withoutIntegrity h' hd') hcore' shape

/-- The members a reader checks. -/
def checkedKeys (shape : Shape) : List Str := "produced_at".toList :: shape.schema.map (·.1)

/-- What the identity checks look up. -/
def identityNames : List String :=
  ["capability", "contract_id", "run_id", "result_id", "terminal_state", "result_ref", "status"]

/-- What the checks against a locator look up. -/
def locatorNames : List String :=
  ["run_id", "result_id", "terminal_state", "result_ref", "request_id", "correlation_id",
    "status", "created_at", "produced_at"]

section

variable {shape : Shape} {result : Members} {key : Str} {value : JsonValue}

theorem get_of_unchecked (h : ∀ name ∈ checkedKeys shape, name ≠ key) {name : Str}
    (hname : name ∈ checkedKeys shape) :
    get (setMember result key value) name = get result name :=
  get_setMember_of_ne (h name hname)

theorem checkFields_setMember {all : Bool} {role problem : String}
    {entries : List (String × Expected)} (h : ∀ entry ∈ entries, entry.1.toList ≠ key) :
    checkFields all role problem (setMember result key value) entries =
      checkFields all role problem result entries := by
  induction entries with
  | nil => rfl
  | cons entry rest ih =>
      obtain ⟨name, expected⟩ := entry
      have hname := h (name, expected) List.mem_cons_self
      have hrest := ih fun entry hentry => h entry (List.mem_cons_of_mem _ hentry)
      rw [checkFields, checkFields, hrest, get_setMember_of_ne hname, hasKey_setMember,
        decide_eq_false hname, Bool.false_or]

/-- The struct does not see a member outside its schema. -/
theorem producerIntegrityBytes_setMember {producer : Producer}
    (h : ∀ name ∈ checkedKeys shape, name ≠ key) (hwhole : signedWhole shape result = false) :
    producerIntegrityBytes producer shape (setMember result key value) =
      producerIntegrityBytes producer shape result := by
  have hmarker : shape.marker ∈ checkedKeys shape := by
    obtain ⟨tag, hmem⟩ := marker_mem_schema shape
    exact List.mem_cons_of_mem _ (List.mem_map.mpr ⟨_, hmem, rfl⟩)
  have hwhole' : signedWhole shape (setMember result key value) = false := by
    rw [signedWhole, get_of_unchecked h hmarker]
    exact hwhole
  rw [producerIntegrityBytes, producerIntegrityBytes, if_neg (by rw [hwhole']; decide),
    if_neg (by rw [hwhole]; decide)]
  refine goOrderedJson_congr fun field hfield => ?_
  have hname := h field.1 (List.mem_cons_of_mem _ (List.mem_map.mpr ⟨field, hfield, rfl⟩))
  unfold blankIntegrity
  simp only [get_setMember, hasKey_setMember, if_neg hname, decide_eq_false hname, Bool.false_or,
    and_self]

theorem verifyIdentity_setMember {reference : Reference} {strict : Bool} {row : Row}
    (h : ∀ name ∈ identityNames, name.toList ≠ key) :
    verifyIdentity shape reference strict row (setMember result key value) =
      verifyIdentity shape reference strict row result := by
  have hkept : ∀ name ∈ identityNames,
      get (setMember result key value) name.toList = get result name.toList :=
    fun name hname => get_setMember_of_ne (h name hname)
  have hterminal : rowTerminalState shape row (setMember result key value) =
      rowTerminalState shape row result := by
    cases shape with
    | defense => rfl
    | mitigation => rw [rowTerminalState, rowTerminalState, hkept "terminal_state" (by decide)]
  have hrow : identities shape reference row (setMember result key value) =
      identities shape reference row result := by
    rw [identities, identities, hterminal]
  have hentries : ∀ entry ∈ identities shape reference row result, entry.1.toList ≠ key := by
    intro entry hentry
    have hname : entry.1 ∈ ["run_id", "result_id", "terminal_state", "result_ref", "status"] :=
      List.mem_map_of_mem (f := Prod.fst) hentry
    have hread : ∀ name ∈ ["run_id", "result_id", "terminal_state", "result_ref", "status"],
        name ∈ identityNames := by decide
    exact h _ (hread _ hname)
  unfold verifyIdentity
  rw [hrow, checkFields_setMember hentries, hkept "capability" (by decide),
    hkept "contract_id" (by decide)]

theorem verifyLocator_setMember {producer : Producer} {reference : Reference}
    {locator : Locator} {row : Row} {integrity : Str × Nat}
    (h : ∀ name ∈ locatorNames, name.toList ≠ key) :
    verifyLocator producer shape reference locator row (setMember result key value) integrity =
      verifyLocator producer shape reference locator row result integrity := by
  have hkept : ∀ name ∈ locatorNames,
      get (setMember result key value) name.toList = get result name.toList :=
    fun name hname => get_setMember_of_ne (h name hname)
  have hentries : ∀ entry ∈ locatorValues reference locator, entry.1.toList ≠ key := by
    intro entry hentry
    have hname : entry.1 ∈ ["run_id", "result_id", "terminal_state", "result_ref", "request_id",
        "correlation_id", "status"] := List.mem_map_of_mem (f := Prod.fst) hentry
    have hread : ∀ name ∈ ["run_id", "result_id", "terminal_state", "result_ref", "request_id",
        "correlation_id", "status"], name ∈ locatorNames := by decide
    exact h _ (hread _ hname)
  unfold verifyLocator
  rw [checkFields_setMember hentries, hkept "created_at" (by decide),
    hkept "produced_at" (by decide)]

/-- **Frame.**  A member the reader does not check leaves its answer as it was. -/
theorem verifyImmutableResult_setMember {producer : Producer} {reference : Reference}
    {locator : Option Locator} {row : Row} (h : ∀ name ∈ checkedKeys shape, name ≠ key)
    (hwhole : signedWhole shape result = false) :
    verifyImmutableResult producer shape reference locator row (setMember result key value) =
      verifyImmutableResult producer shape reference locator row result := by
  have hnames : ∀ name ∈ identityNames ++ locatorNames ++ ["content_sha256", "size_bytes"],
      name.toList ∈ checkedKeys shape := by
    cases shape with
    | defense => decide +kernel
    | mitigation => decide +kernel
  have hne : ∀ name ∈ identityNames ++ locatorNames ++ ["content_sha256", "size_bytes"],
      name.toList ≠ key := fun name hname => h _ (hnames name hname)
  have hidentity : ∀ name ∈ identityNames, name.toList ≠ key := fun name hname =>
    hne name (List.mem_append_left _ (List.mem_append_left _ hname))
  have hlocator : ∀ name ∈ locatorNames, name.toList ≠ key := fun name hname =>
    hne name (List.mem_append_left _ (List.mem_append_right _ hname))
  have hbytes := @producerIntegrityBytes_setMember shape result key value producer h hwhole
  have hdigest := @get_setMember_of_ne result key "content_sha256".toList value
    (hne "content_sha256" (by decide))
  have hsize := @get_setMember_of_ne result key "size_bytes".toList value
    (hne "size_bytes" (by decide))
  unfold verifyImmutableResult verifyDeclared producerIntegrity
  simp only [verifyIdentity_setMember hidentity, verifyLocator_setMember hlocator, hbytes,
    hdigest, hsize]

end

/-- A text that is not found. -/
theorem fresh_not_mem (texts : List Str) : 'x' :: texts.flatten ∉ texts := by
  intro hmem
  have hlength := (List.sublist_flatten_of_mem hmem).length_le
  rw [List.length_cons] at hlength
  omega

/-- A text written under a key is found there. -/
theorem mem_textsUnder_setMember {key : String} {s : Str} (hs : s ≠ []) (members : Members) :
    s ∈ textsUnder key (setMember members key.toList (.text s)) := by
  have hunder : s ∈ textUnder key.toList (key.toList, .text s) := by
    simp [textUnder, asNonemptyText, asText, hs]
  have hmem := @mem_setMember members key.toList (.text s)
  change s ∈ occurrencesInMembers key.toList (setMember members key.toList (.text s))
  exact mem_occurrencesInMembers.mpr ⟨_, hmem, .inl hunder⟩

/-- A text at the top is preferred. -/
theorem preferredString_of_get {result : Members} {key : String} {s : Str}
    (h : get result key.toList = .text s) (hs : s ≠ []) :
    preferredString [result] key = some s := by
  have htext : (JsonValue.text s).asNonemptyText = some s := by simp [asNonemptyText, asText, hs]
  unfold preferredString
  rw [List.findSome?_cons, h, htext]
  rfl

/-- **Outside the struct.**  A result signed as a struct is accepted with another
value where the struct has no field and the resolver looks. -/
theorem exists_other_reads {producer : Producer} {shape : Shape} {reference : Reference}
    {locator : Locator} {stored : StoredResult}
    (h : Accepted producer shape reference locator stored)
    (hwhole : signedWhole shape stored.document.members = false) :
    ∃ other, Accepted producer shape reference locator other ∧
      reads shape other.document.members ≠ reads shape stored.document.members := by
  obtain ⟨row, members, hd⟩ := stored
  cases shape with
  | defense =>
      let old := preferredString [members] "target_technology"
      let value := JsonValue.text ('x' :: old.getD [])
      refine ⟨⟨row, setMember members "target_technology".toList value,
        distinctMembers_setMember hd rfl⟩, ⟨h.1, ?_⟩, ?_⟩
      · rw [verifyImmutableResult_setMember (by decide +kernel) hwhole]
        exact h.2
      · intro heq
        have htarget : preferredString
            [setMember members "target_technology".toList value] "target_technology" = old :=
          congrArg DefenseReads.targetTechnology (Reads.defense.inj heq)
        have hnew : preferredString
            [setMember members "target_technology".toList value] "target_technology" =
              some ('x' :: old.getD []) :=
          preferredString_of_get (by rw [get_setMember, if_pos rfl]) (by simp)
        rw [hnew] at htarget
        have hlength := congrArg (fun s => (s.getD []).length) htarget
        simp at hlength
  | mitigation =>
      let texts := occurrences "vulnerability_id".toList (.object members)
      let value := JsonValue.text ('x' :: texts.flatten)
      refine ⟨⟨row, setMember members "vulnerability_id".toList value,
        distinctMembers_setMember hd rfl⟩, ⟨h.1, ?_⟩, ?_⟩
      · rw [verifyImmutableResult_setMember (by decide +kernel) hwhole]
        exact h.2
      · intro heq
        have hlineage := congrArg MitigationReads.lineage (Reads.mitigation.inj heq)
        have hids : textsUnder "vulnerability_id"
            (setMember members "vulnerability_id".toList value) =
              textsUnder "vulnerability_id" members :=
          congrArg LineageReads.vulnerabilityIds hlineage
        have hnew : 'x' :: texts.flatten ∈ textsUnder "vulnerability_id"
            (setMember members "vulnerability_id".toList value) :=
          mem_textsUnder_setMember (by simp) members
        rw [hids] at hnew
        exact fresh_not_mem texts hnew

/-- **Integrity.**  All results accepted under the locator of an accepted one read
the same exactly when that one is signed whole. -/
theorem accepted_reads_agree_iff {producer : Producer}
    (hsha : Function.Injective producer.sha256) (hrfc : Canonical producer.rfc8785)
    {shape : Shape} {reference : Reference} {locator : Locator} {stored : StoredResult}
    (h : Accepted producer shape reference locator stored) :
    (∀ other, Accepted producer shape reference locator other →
        reads shape other.document.members = reads shape stored.document.members) ↔
      signedWhole shape stored.document.members = true := by
  constructor
  · intro hall
    by_contra hnot
    obtain ⟨other, hother, hne⟩ := exists_other_reads h (by simpa using hnot)
    exact hne (hall other hother)
  · intro hwhole other hother
    obtain ⟨payload, hsigned⟩ := h.signed
    obtain ⟨payload', hsigned'⟩ := hother.signed
    obtain rfl := payload_unique hsha hsigned hsigned'
    exact (reads_of_signedWhole hrfc stored.document.distinct other.document.distinct hsigned
      hsigned' hwhole).symm

/-! ## Declaring a digest

A producer writes the digest and the size of a result into the result itself;
neither is signed, so any result whose identity fits can be declared.
-/

/-- A result with its digest and size written into it. -/
def declare (base : Members) (digest : Str) (size : Nat) : Members :=
  setMember (setMember base "content_sha256".toList (.text digest)) "size_bytes".toList
    (.number (Nat.toDigits 10 size))

theorem distinctMembers_declare {base : Members} (hd : distinctMembers base = true)
    (digest : Str) (size : Nat) : distinctMembers (declare base digest size) = true :=
  distinctMembers_setMember (distinctMembers_setMember hd rfl) rfl

/-- Leaving out a member that was just written. -/
theorem filter_setMember {members : Members} {key : Str} {value : JsonValue}
    {p : Str × JsonValue → Bool} (h : ∀ m : Str × JsonValue, m.1 = key → p m = false) :
    (setMember members key value).filter p = members.filter p := by
  unfold setMember
  by_cases hkey : hasKey members key = true
  · rw [if_pos hkey]
    clear hkey
    induction members with
    | nil => rfl
    | cons member rest ih =>
        rw [List.map_cons]
        by_cases hname : member.1 = key
        · rw [if_pos hname, List.filter_cons_of_neg (by simp [h (key, value) rfl]),
            List.filter_cons_of_neg (by simp [h member hname]), ih]
        · rw [if_neg hname]
          by_cases hp : p member = true
          · rw [List.filter_cons_of_pos hp, List.filter_cons_of_pos hp, ih]
          · rw [List.filter_cons_of_neg hp, List.filter_cons_of_neg hp, ih]
  · rw [if_neg hkey, List.filter_append, List.filter_cons_of_neg (by simp [h (key, value) rfl]),
      List.filter_nil, List.append_nil]

/-- Declaring the integrity of a document changes nothing else. -/
theorem withoutIntegrity_declare (base : Members) (digest : Str) (size : Nat) :
    withoutIntegrity (declare base digest size) = withoutIntegrity base := by
  unfold withoutIntegrity declare
  rw [filter_setMember, filter_setMember]
  · intro m hm
    rw [hm]
    rfl
  · intro m hm
    rw [hm, beq_self_eq_true, Bool.or_true, Bool.not_true]

/-- What is declared is not signed. -/
theorem producerIntegrityBytes_declare (producer : Producer) (shape : Shape) (base : Members)
    (digest : Str) (size : Nat) :
    producerIntegrityBytes producer shape (declare base digest size) =
      producerIntegrityBytes producer shape base := by
  have hdigest : shape.marker ≠ "content_sha256".toList := by cases shape <;> decide
  have hsize : shape.marker ≠ "size_bytes".toList := by cases shape <;> decide
  have hwhole : signedWhole shape (declare base digest size) = signedWhole shape base := by
    unfold signedWhole declare
    rw [get_setMember_of_ne hsize, get_setMember_of_ne hdigest]
  have hblank : goOrderedJson (blankIntegrity (declare base digest size)) shape.schema =
      goOrderedJson (blankIntegrity base) shape.schema := by
    refine goOrderedJson_congr fun field _ => ?_
    unfold blankIntegrity declare
    simp only [get_setMember, hasKey_setMember]
    by_cases hs : field.1 = "size_bytes".toList
    · simp only [hs, if_true, decide_true, Bool.true_or, and_self]
    · by_cases hc : field.1 = "content_sha256".toList
      · simp only [hc, if_true, decide_true, Bool.true_or, Bool.or_true, and_self]
      · simp only [hs, hc, if_false, decide_false, Bool.false_or, and_self]
  rw [producerIntegrityBytes, producerIntegrityBytes, withoutIntegrity_declare, hwhole, hblank]

/-- What a result has to say for a locator to accept it, besides its digest. -/
structure Fits (producer : Producer) (shape : Shape) (reference : Reference)
    (locator : Locator) (row : Row) (base : Members) : Prop where
  identity : (verifyIdentity shape reference true row base).isOk = true
  values : (checkFields true shape.role " differs from the immutable locator" base
    (locatorValues reference locator)).isOk = true
  requested : locator.requestId.isSome = true
  createdAt : ∃ t, parseCreatedAt producer shape.role
      ((get base "created_at".toList).orElse (get base "produced_at".toList)) = .ok t ∧
    locator.createdAt = some t ∧
    (verifyProducedAt producer shape.role t row.producedAt).isOk = true

theorem eq_ok_of_isOk {x : Resolution Unit} (h : x.isOk = true) : x = .ok () := by
  cases x with
  | error e => cases h
  | ok u => rfl

theorem equalsSize_toDigits (size : Nat) :
    equalsSize size (.number (Nat.toDigits 10 size)) = true := by
  rw [equalsSize, beq_self_eq_true, Bool.true_or]

/-- **Declared results are accepted.** -/
theorem accepted_declare {producer : Producer} {shape : Shape} {reference : Reference}
    {locator : Locator} {row : Row} {base : Members} {payload : Str}
    (hfits : Fits producer shape reference locator row base)
    (hd : distinctMembers base = true)
    (hbytes : producerIntegrityBytes producer shape base = .ok payload)
    (hdigest : locator.contentSha256 = some (digestOf producer payload))
    (hsize : locator.sizeBytes = some (utf8 payload).size) :
    Accepted producer shape reference locator ⟨row, ⟨_,
      distinctMembers_declare hd (digestOf producer payload) (utf8 payload).size⟩⟩ := by
  obtain ⟨hidentity, hvalues, hrequested, t, hparsed, htime, hrow⟩ := hfits
  have hstrict : isStrict locator = true := by
    simp [isStrict, hrequested, hdigest, hsize, htime]
  have hany : (some locator).any isStrict = true := hstrict
  have hfilter : (some locator).filter isStrict = some locator := by simp [hstrict]
  have hdeclared : verifyDeclared producer shape
      (declare base (digestOf producer payload) (utf8 payload).size) =
        .ok (digestOf producer payload, (utf8 payload).size) := by
    have hname : "content_sha256".toList ≠ "size_bytes".toList := by decide
    unfold verifyDeclared producerIntegrity
    simp only [bind_eq_ok, require_eq_ok, pure_eq_ok, producerIntegrityBytes_declare]
    refine ⟨_, ⟨payload, hbytes, rfl⟩, (), ?_, rfl⟩
    rw [declare, get_setMember_of_ne hname, get_setMember, if_pos rfl, get_setMember, if_pos rfl,
      equalsSize_toDigits, Bool.and_true, asText, beq_self_eq_true]
  have hidentity' : verifyIdentity shape reference true row
      (declare base (digestOf producer payload) (utf8 payload).size) = .ok () := by
    rw [declare, verifyIdentity_setMember (by decide), verifyIdentity_setMember (by decide)]
    exact eq_ok_of_isOk hidentity
  have hlocator : verifyLocator producer shape reference locator row
      (declare base (digestOf producer payload) (utf8 payload).size)
      (digestOf producer payload, (utf8 payload).size) = .ok () := by
    rw [declare, verifyLocator_setMember (by decide), verifyLocator_setMember (by decide)]
    simp only [verifyLocator, eq_ok_of_isOk hvalues, hparsed, hdigest, hsize, htime, ok_bind,
      require, beq_self_eq_true, Bool.and_self, Option.isSome_some, if_true,
      eq_ok_of_isOk hrow]
  refine ⟨hstrict, ?_⟩
  unfold verifyImmutableResult
  simp only [hany, hidentity', hdeclared, hfilter, ok_bind, Bool.true_or, if_true,
    Option.elim_some, hlocator]

/-- Where the sample result is stored. -/
def sampleReference : Reference :=
  { system := "databricks".toList
    catalog := some "36889_janus_dev".toList
    schemaName := some "defense_generation".toList
    table := some "defense_generation_results".toList
    key := "defense-generation-result:1".toList }

/-- A text member of the sample. -/
def textMember (name value : String) : Str × JsonValue := (name.toList, .text value.toList)

/-- A Defense Generation result before its digest is declared. -/
def sampleBase : Members :=
  [textMember "capability" "defense-generation",
    textMember "contract_id" "defense-generation@1.0", textMember "request_id" "request",
    textMember "correlation_id" "corr", textMember "run_id" "run",
    textMember "result_id" "defense-generation-result:1", textMember "status" "completed",
    textMember "terminal_state" "candidate-produced",
    ("result_ref".toList, .object ((referenceTexts sampleReference).map fun entry =>
      (entry.1, .text entry.2))),
    ("evidence_refs".toList, .array []), ("outcome_reason".toList, .object []),
    ("primary_candidate".toList, .object [textMember "candidate_id" "candidate",
      textMember "selected_control_class" "waf-rule", textMember "discriminator" "marker",
      textMember "artifact_content" "deny"]),
    ("attempt_history".toList, .array []), textMember "prose_summary" "",
    textMember "request_digest" "", ("upstream_result_refs".toList, .array []),
    textMember "created_at" "2026-01-01T00:00:00Z"]

/-- The sample result with a target technology, for which the struct has no
field. -/
def sampleTargeted (target : String) : Members :=
  setMember sampleBase "target_technology".toList (.text target.toList)

/-- The sample result with the marker of the newer form. -/
def sampleBundled : Members :=
  setMember sampleBase "candidate_bundle".toList (.object [textMember "kind" "bundle"])

/-- The text of the sample struct. -/
def structText : Str := print goEscapeChar
  (.object (goStructValue defenseResultSchema (blankIntegrity sampleBase)))

/-- The text of the sample result signed whole. -/
def wholeText : Str := dumps (goNestedValue .leaf (.object (withoutIntegrity sampleBundled)))

/-- The SHA-256 of the struct of the sample result. -/
def structDigest : Str :=
  "98e8422f7fca7f2e".toList ++ "07204f4991a92140".toList ++ "d658a6067fcd8776".toList ++
    "a4b2ea69e5bd59a5".toList

/-- The SHA-256 of the sample result signed whole. -/
def wholeDigest : Str :=
  "1f7d899a449f6087".toList ++ "8eacc1bdb9cbe5d2".toList ++ "9167912d4384d969".toList ++
    "937bf32cc08bf57d".toList

/-- A byte as a character. -/
def byteChar (b : UInt8) : Char := ⟨b.toUInt32, .inl (by
  have hlt := b.toNat_lt
  rw [UInt8.toNat_toUInt32]
  omega)⟩

/-- SHA-256 on the two sample texts, and something else on every other. -/
def sampleSha256 (bytes : ByteArray) : Str :=
  if bytes.data.toList = (utf8 structText).data.toList then structDigest
  else if bytes.data.toList = (utf8 wholeText).data.toList then wholeDigest
  else 'x' :: bytes.data.toList.map byteChar

/-- Canonical JSON of documents whose numbers are plain integers. -/
def sampleRfc8785 (value : JsonValue) : Option Str :=
  let written := goNestedValue .leaf value
  if finite written then some (dumps written) else none

/-- A producer that answers what signing the sample asks. -/
def sampleProducer : Producer :=
  { sha256 := sampleSha256
    rfc8785 := sampleRfc8785
    fromisoformat := fun s =>
      if s = "2026-01-01T00:00:00Z".toList then some 1767225600000000 else none }

/-- The locator of a result signed as a text. -/
def sampleLocator (payload : Str) : Locator :=
  { capability := "defense-generation".toList
    runId := "run".toList
    resultId := "defense-generation-result:1".toList
    terminalState := "candidate-produced".toList
    status := "completed".toList
    requestId := some "request".toList
    correlationId := "corr".toList
    contentSha256 := some (digestOf sampleProducer payload)
    sizeBytes := some (utf8 payload).size
    createdAt := some 1767225600000000 }

/-- The row the sample was stored in. -/
def sampleRow : Row :=
  { runId := "run".toList
    resultId := "defense-generation-result:1".toList
    terminalState := "candidate-produced".toList
    producedAt := some (.inl 1767225600000000) }

theorem sampleSha256_injective : Function.Injective sampleSha256 := by
  have hstruct : structDigest.head? ≠ some 'x' := by decide
  have hwhole : wholeDigest.head? ≠ some 'x' := by decide
  have hne : structDigest ≠ wholeDigest := by decide
  have hbyte : Function.Injective byteChar := fun b c hbc =>
    UInt8.toUInt32_inj.mp (congrArg Char.val hbc)
  intro a b hab
  unfold sampleSha256 at hab
  split_ifs at hab with h₁ h₂ h₃ h₄ h₅ h₆ h₇ h₈
  · exact ByteArray.ext (Array.toList_inj.mp (h₁.trans h₂.symm))
  · exact absurd hab hne
  · rw [hab] at hstruct
    exact absurd rfl hstruct
  · exact absurd hab.symm hne
  · exact ByteArray.ext (Array.toList_inj.mp (h₄.trans h₆.symm))
  · rw [hab] at hwhole
    exact absurd rfl hwhole
  · rw [← hab] at hstruct
    exact absurd rfl hstruct
  · rw [← hab] at hwhole
    exact absurd rfl hwhole
  · exact ByteArray.ext (Array.toList_inj.mp
      (List.map_injective_iff.mpr hbyte (List.cons.inj hab).2))

theorem sampleRfc8785_canonical : Canonical sampleRfc8785 := by
  intro value text h
  unfold sampleRfc8785 at h
  by_cases hfinite : finite (goNestedValue .leaf value) = true
  · rw [if_pos hfinite] at h
    exact ⟨_, same_goNestedValue value, hfinite, (Option.some.inj h).symm⟩
  · rw [if_neg hfinite] at h
    cases h

/-- What the reader computes on the two samples. -/
theorem sample_computed :
    (producerIntegrityBytes sampleProducer .defense sampleBase).isOk = true ∧
      signedWhole .defense sampleBase = false ∧ signedWhole .defense sampleBundled = true ∧
      finite (goNestedValue .leaf (.object (withoutIntegrity sampleBundled))) = true ∧
      distinctMembers sampleBase = true := by
  refine ⟨?_, ?_, ?_, ?_, ?_⟩ <;> decide +kernel

/-- The members the samples add are not checked. -/
theorem sample_keys_unchecked :
    (∀ name ∈ checkedKeys .defense, name ≠ "target_technology".toList) ∧
      ∀ name ∈ identityNames ++ locatorNames, name.toList ≠ "target_technology".toList ∧
        name.toList ≠ "candidate_bundle".toList := by
  constructor <;> decide +kernel

theorem sampleBase_bytes :
    producerIntegrityBytes sampleProducer .defense sampleBase = .ok structText := by
  obtain ⟨hok, hwhole, -⟩ := sample_computed
  cases hbytes : producerIntegrityBytes sampleProducer .defense sampleBase with
  | error e =>
      rw [hbytes] at hok
      cases hok
  | ok payload =>
      rw [(written_of_struct hbytes hwhole).2]
      rfl

theorem sampleTargeted_bytes (target : String) :
    producerIntegrityBytes sampleProducer .defense (sampleTargeted target) = .ok structText := by
  obtain ⟨-, hwhole, -⟩ := sample_computed
  rw [sampleTargeted, producerIntegrityBytes_setMember sample_keys_unchecked.1 hwhole,
    sampleBase_bytes]

theorem sampleBundled_bytes :
    producerIntegrityBytes sampleProducer .defense sampleBundled = .ok wholeText := by
  obtain ⟨-, -, hwhole, hfinite, -⟩ := sample_computed
  have htext : sampleProducer.rfc8785 (.object (withoutIntegrity sampleBundled)) =
      some wholeText := by
    change sampleRfc8785 (.object (withoutIntegrity sampleBundled)) = some wholeText
    rw [sampleRfc8785, if_pos hfinite]
    rfl
  rw [producerIntegrityBytes, if_pos hwhole, htext]

/-- The sample result fits its locator. -/
theorem sampleBase_fits (payload : Str) {key : Str} (value : JsonValue)
    (hidentity : ∀ name ∈ identityNames, name.toList ≠ key)
    (hlocator : ∀ name ∈ locatorNames, name.toList ≠ key) :
    Fits sampleProducer .defense sampleReference (sampleLocator payload) sampleRow
      (setMember sampleBase key value) := by
  have hcreated : ∀ name ∈ ["created_at", "produced_at"], name ∈ locatorNames := by decide
  constructor
  · rw [verifyIdentity_setMember hidentity]
    decide +kernel
  · have hentries : ∀ entry ∈ locatorValues sampleReference (sampleLocator payload),
        entry.1.toList ≠ key := by
      intro entry hentry
      have hname : entry.1 ∈ ["run_id", "result_id", "terminal_state", "result_ref",
          "request_id", "correlation_id", "status"] := List.mem_map_of_mem (f := Prod.fst) hentry
      have hread : ∀ name ∈ ["run_id", "result_id", "terminal_state", "result_ref",
          "request_id", "correlation_id", "status"], name ∈ locatorNames := by decide
      exact hlocator _ (hread _ hname)
    have hvalues : locatorValues sampleReference (sampleLocator payload) =
        locatorValues sampleReference (sampleLocator []) := rfl
    rw [checkFields_setMember hentries, hvalues]
    decide +kernel
  · rfl
  · refine ⟨1767225600000000, ?_, rfl, rfl⟩
    rw [get_setMember_of_ne (hlocator _ (hcreated "created_at" (by decide))),
      get_setMember_of_ne (hlocator _ (hcreated "produced_at" (by decide)))]
    decide +kernel

theorem sampleTargeted_distinct (target : String) :
    distinctMembers (sampleTargeted target) = true :=
  distinctMembers_setMember sample_computed.2.2.2.2 rfl

theorem sampleBundled_distinct : distinctMembers sampleBundled = true :=
  distinctMembers_setMember sample_computed.2.2.2.2 rfl

/-- A sample result signed as a text, with its digest and size. -/
def sampleStored (payload : Str) {base : Members} (hd : distinctMembers base = true) :
    StoredResult :=
  ⟨sampleRow, ⟨declare base (digestOf sampleProducer payload) (utf8 payload).size,
    distinctMembers_declare hd _ _⟩⟩

theorem sampleTargeted_accepted (target : String) :
    Accepted sampleProducer .defense sampleReference (sampleLocator structText)
      (sampleStored structText (sampleTargeted_distinct target)) :=
  accepted_declare
    (sampleBase_fits _ _
      (fun name hname => (sample_keys_unchecked.2 name (List.mem_append_left _ hname)).1)
      (fun name hname => (sample_keys_unchecked.2 name (List.mem_append_right _ hname)).1))
    (sampleTargeted_distinct target) (sampleTargeted_bytes target) rfl rfl

theorem sampleBundled_accepted :
    Accepted sampleProducer .defense sampleReference (sampleLocator wholeText)
      (sampleStored wholeText sampleBundled_distinct) :=
  accepted_declare
    (sampleBase_fits _ _
      (fun name hname => (sample_keys_unchecked.2 name (List.mem_append_left _ hname)).2)
      (fun name hname => (sample_keys_unchecked.2 name (List.mem_append_right _ hname)).2))
    sampleBundled_distinct sampleBundled_bytes rfl rfl

/-- Two results under one locator that name different target technologies. -/
theorem accepted_reads_differ_beyond_struct :
    ¬ ∀ producer : Producer, Function.Injective producer.sha256 →
        Canonical producer.rfc8785 → ∀ (shape : Shape) (reference : Reference)
          (locator : Locator) (stored other : StoredResult),
          Accepted producer shape reference locator stored →
          Accepted producer shape reference locator other →
          reads shape other.document.members = reads shape stored.document.members := by
  intro h
  have heq := h sampleProducer sampleSha256_injective sampleRfc8785_canonical .defense
    sampleReference (sampleLocator structText) _ _ (sampleTargeted_accepted "ModSecurity")
    (sampleTargeted_accepted "Akamai")
  have htarget := congrArg DefenseReads.targetTechnology (Reads.defense.inj heq)
  have hread : ∀ target : String, target.toList ≠ [] → preferredString
      [(sampleStored structText (sampleTargeted_distinct target)).document.members]
        "target_technology" = some target.toList := by
    intro target hne
    have hdigest : "target_technology".toList ≠ "content_sha256".toList := by decide
    have hsize : "target_technology".toList ≠ "size_bytes".toList := by decide
    refine preferredString_of_get ?_ hne
    simp only [sampleStored, declare, sampleTargeted]
    rw [get_setMember_of_ne hsize, get_setMember_of_ne hdigest, get_setMember, if_pos rfl]
  have hnames : some "Akamai".toList = some "ModSecurity".toList :=
    (hread "Akamai" (by decide)).symm.trans (htarget.trans (hread "ModSecurity" (by decide)))
  exact absurd hnames (by decide)

/-- The bundled sample is signed whole, and nothing else is accepted under its digest. -/
theorem accepted_reads_agree_bundled_sample :
    signedWhole .defense (sampleStored wholeText sampleBundled_distinct).document.members =
        true ∧
      ∀ other, Accepted sampleProducer .defense sampleReference (sampleLocator wholeText)
          other →
        reads .defense other.document.members =
          reads .defense (sampleStored wholeText sampleBundled_distinct).document.members := by
  have hwhole : signedWhole .defense
      (sampleStored wholeText sampleBundled_distinct).document.members = true := by
    have hdigest : Shape.defense.marker ≠ "content_sha256".toList := by decide
    have hsize : Shape.defense.marker ≠ "size_bytes".toList := by decide
    simp only [signedWhole, sampleStored, declare]
    rw [get_setMember_of_ne hsize, get_setMember_of_ne hdigest]
    exact sample_computed.2.2.1
  exact ⟨hwhole, (accepted_reads_agree_iff sampleSha256_injective sampleRfc8785_canonical
    sampleBundled_accepted).mpr hwhole⟩

end ResultReader
