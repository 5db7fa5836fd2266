import ControlTranslation.JsonxRoundTrip

/-!
# The nesting limit

The package refuses text whose containers nest deeper than it allows.  The limit
only refuses: the encoder and the decoder answer under a smaller limit what they
answer under a larger one, or fail.  So an answer for a tree that nests too deep
is still the right one, and a chain of objects one longer than the limit shows
that there is not always an answer.
-/

namespace Jsonx

open PyText GoScanner JsonValue

mutual

/-- What is written within a depth is written within a greater one. -/
theorem marshalWithin_of_le {limit limit' : Nat} (hle : limit ≤ limit') :
    ∀ (v : JsonValue) {found : Str},
    marshalWithin limit v = some found → marshalWithin limit' v = some found
  | .null, _, h => h
  | .bool true, _, h => h
  | .bool false, _, h => h
  | .number _, _, h => h
  | .text _, _, h => h
  | .array items, _, h => by
      simp only [marshalWithin, Option.bind_eq_bind, Option.bind_eq_some_iff] at h ⊢
      obtain ⟨texts, htexts, h⟩ := h
      exact ⟨texts, marshalItems_of_le hle items htexts, h⟩
  | .object members, _, h => by
      simp only [marshalWithin, Option.bind_eq_bind, Option.bind_eq_some_iff] at h ⊢
      obtain ⟨texts, htexts, h⟩ := h
      exact ⟨texts, marshalMembers_of_le hle members htexts, compact_of_le hle h⟩

theorem marshalItems_of_le {limit limit' : Nat} (hle : limit ≤ limit') :
    ∀ (items : List JsonValue) {texts : List Str},
    marshalItems limit items = some texts → marshalItems limit' items = some texts
  | [], _, h => h
  | item :: rest, _, h => by
      simp only [marshalItems, Option.bind_eq_bind, Option.bind_eq_some_iff] at h ⊢
      obtain ⟨first, hfirst, others, hothers, h⟩ := h
      exact ⟨first, marshalWithin_of_le hle item hfirst, others,
        marshalItems_of_le hle rest hothers, h⟩

theorem marshalMembers_of_le {limit limit' : Nat} (hle : limit ≤ limit') :
    ∀ (members : List (Str × JsonValue)) {texts : List Str},
    marshalMembers limit members = some texts → marshalMembers limit' members = some texts
  | [], _, h => h
  | (key, value) :: rest, _, h => by
      simp only [marshalMembers, Option.bind_eq_bind, Option.bind_eq_some_iff] at h ⊢
      obtain ⟨first, hfirst, others, hothers, h⟩ := h
      exact ⟨first, marshalWithin_of_le hle value hfirst, others,
        marshalMembers_of_le hle rest hothers, h⟩

end

section

variable {limit limit' : Nat} (hle : limit ≤ limit')

include hle

section

variable {decode decode' : Str → Option JsonValue}
  (hdecode : ∀ text value, decode text = some value → decode' text = some value)

include hdecode

theorem readMember_of_le {text : Str} {found : (Str × JsonValue) × Str}
    (h : readMember limit decode text = some found) :
    readMember limit' decode' text = some found := by
  simp only [readMember, Option.bind_eq_bind, Option.bind_eq_some_iff] at h ⊢
  obtain ⟨literal, hliteral, key, hkey, h⟩ := h
  refine ⟨literal, readValue_of_le hle hliteral, key, hkey, ?_⟩
  split at h
  · rename_i afterColon _
    simp only [Option.bind_eq_some_iff] at h ⊢
    obtain ⟨raw, hraw, value, hvalue, h⟩ := h
    exact ⟨raw, readValue_of_le hle hraw, value, hdecode _ _ hvalue, h⟩
  · cases h

theorem readMembers_of_le {fuel : Nat} {first : Bool} {text : Str} {members : Members}
    (h : readMembers limit decode fuel first text = some members) :
    readMembers limit' decode' fuel first text = some members := by
  induction fuel generalizing first text members with
  | zero => cases h
  | succ fuel ih =>
      rw [readMembers.eq_def] at h ⊢
      dsimp only at h ⊢
      have hturn : ∀ {rest : Str},
          ((readMember limit decode rest).bind fun turn =>
            (readMembers limit decode fuel false turn.2).bind fun members =>
              some (turn.1 :: members)) = some members →
          ((readMember limit' decode' rest).bind fun turn =>
            (readMembers limit' decode' fuel false turn.2).bind fun members =>
              some (turn.1 :: members)) = some members := by
        intro rest hturn
        simp only [Option.bind_eq_some_iff] at hturn ⊢
        obtain ⟨found, hfound, others, hothers, hturn⟩ := hturn
        exact ⟨found, readMember_of_le hle hdecode hfound, others, ih hothers, hturn⟩
      split at h
      · exact h
      · exact hturn h
      · split at h
        · exact hturn h
        · cases h
      · cases h

/-- What is read within a depth is read within a greater one. -/
theorem unmarshalJSON_of_le {data : Str} {members : Members}
    (h : unmarshalJSON limit decode data = some members) :
    unmarshalJSON limit' decode' data = some members := by
  unfold unmarshalJSON at h ⊢
  split at h
  · exact readMembers_of_le hle hdecode h
  · cases h

end

theorem readItems_of_le {fuel : Nat} {first : Bool} {text : Str} {raws : List Str}
    (h : readItems limit fuel first text = some raws) :
    readItems limit' fuel first text = some raws := by
  induction fuel generalizing first text raws with
  | zero => cases h
  | succ fuel ih =>
      rw [readItems.eq_def] at h ⊢
      dsimp only at h ⊢
      have hturn : ∀ {rest : Str},
          ((readValue limit rest).bind fun turn =>
            (readItems limit fuel false turn.2).bind fun raws => some (turn.1 :: raws)) =
              some raws →
          ((readValue limit' rest).bind fun turn =>
            (readItems limit' fuel false turn.2).bind fun raws => some (turn.1 :: raws)) =
              some raws := by
        intro rest hturn
        simp only [Option.bind_eq_some_iff] at hturn ⊢
        obtain ⟨found, hfound, others, hothers, hturn⟩ := hturn
        exact ⟨found, readValue_of_le hle hfound, others, ih hothers, hturn⟩
      split at h
      · exact h
      · exact hturn h
      · exact hturn h
      · cases h

theorem unmarshalRaws_of_le {data : Str} {raws : List Str}
    (h : unmarshalRaws limit data = some raws) : unmarshalRaws limit' data = some raws := by
  unfold unmarshalRaws at h ⊢
  by_cases hvalid : checkValid limit data = true
  · rw [if_pos hvalid] at h
    rw [if_pos (checkValid_of_le hle hvalid)]
    split at h
    · exact readItems_of_le hle h
    · cases h
  · rw [if_neg hvalid] at h
    cases h

omit hle in
theorem mapM_of_le {decode decode' : Str → Option JsonValue}
    (hdecode : ∀ text value, decode text = some value → decode' text = some value)
    {raws : List Str} {items : List JsonValue} (h : raws.mapM decode = some items) :
    raws.mapM decode' = some items := by
  induction raws generalizing items with
  | nil => exact h
  | cons raw rest ih =>
      simp only [List.mapM_cons, Option.bind_eq_bind, Option.bind_eq_some_iff] at h ⊢
      obtain ⟨value, hvalue, others, hothers, h⟩ := h
      exact ⟨value, hdecode raw value hvalue, others, ih hothers, h⟩

/-- **A limit only refuses.**  What is decoded under a limit is decoded under a
larger one. -/
theorem decodeWithin_of_le {levels : Nat} {raw : Str} {value : JsonValue}
    (h : decodeWithin limit levels raw = some value) :
    decodeWithin limit' levels raw = some value := by
  induction levels generalizing raw value with
  | zero => cases h
  | succ levels ih =>
      rw [decodeWithin] at h ⊢
      split at h
      · exact h
      · obtain ⟨members, hmembers, rfl⟩ := Option.map_eq_some_iff.mp h
        exact Option.map_eq_some_iff.mpr
          ⟨members, unmarshalJSON_of_le hle (fun _ _ => ih) hmembers, rfl⟩
      · simp only [Option.bind_eq_bind, Option.bind_eq_some_iff] at h ⊢
        obtain ⟨raws, hraws, h⟩ := h
        refine ⟨raws, unmarshalRaws_of_le hle hraws, ?_⟩
        obtain ⟨items, hitems, rfl⟩ := Option.map_eq_some_iff.mp h
        refine Option.map_eq_some_iff.mpr ⟨items, ?_, rfl⟩
        exact mapM_of_le (fun _ _ => ih) hitems
      · simp only [Option.bind_eq_bind, Option.bind_eq_some_iff] at h ⊢
        obtain ⟨found, hfound, h⟩ := h
        exact ⟨found, readValue_of_le hle hfound, h⟩

end

mutual

/-- Every level of an encoded tree has brackets of its own. -/
theorem depth_le_length : ∀ v : JsonValue, depth v ≤ (encode v).length
  | .array [] => by decide
  | .array (item :: rest) => by
      have hitem := depth_le_length item
      have hrest := depthItems_le_length rest
      simp only [encode_array, itemsBody, depth, depthItems, List.length_cons, List.length_append,
        List.length_nil]
      omega
  | .object [] => by decide
  | .object ((key, value) :: rest) => by
      have hvalue := depth_le_length value
      have hrest := depthMembers_le_length rest
      simp only [encode_object, membersBody, memberText, depth, depthMembers, List.length_cons,
        List.length_append, List.length_nil]
      omega
  | .null => Nat.zero_le _
  | .bool _ => Nat.zero_le _
  | .number _ => Nat.zero_le _
  | .text _ => Nat.zero_le _

/-- An array is no deeper than its text is long. -/
theorem depthItems_le_length : ∀ items : List JsonValue,
    depthItems items ≤ (itemsTail items).length
  | [] => Nat.le_refl _
  | item :: rest => by
      have hitem := depth_le_length item
      have hrest := depthItems_le_length rest
      simp only [itemsTail, List.flatMap_cons, depthItems, List.length_cons,
        List.length_append] at hrest ⊢
      omega

/-- An object is no deeper than its text is long. -/
theorem depthMembers_le_length : ∀ members : List (Str × JsonValue),
    depthMembers members ≤ (membersTail members).length
  | [] => Nat.le_refl _
  | (key, value) :: rest => by
      have hvalue := depth_le_length value
      have hrest := depthMembers_le_length rest
      simp only [membersTail, memberText, List.flatMap_cons, depthMembers, List.length_cons,
        List.length_append] at hrest ⊢
      omega

end

section

variable {v : JsonValue} (hv : wellNumbered v = true)

include hv

/-- Whatever the encoder answers is the encoding. -/
theorem eq_encode_of_marshalWithin {limit : Nat} {found : Str}
    (h : marshalWithin limit v = some found) : found = encode v := by
  have hlarge := marshalWithin_of_le (Nat.le_max_left limit (depth v)) v h
  rw [marshalWithin_eq v hv (Nat.le_max_right limit (depth v))] at hlarge
  exact (Option.some.inj hlarge).symm

/-- Whatever the decoder answers for an encoded tree is the tree. -/
theorem eq_of_decodeAny {w : JsonValue} (h : decodeAny (encode v) = some w) : w = v := by
  have hlarge := decodeWithin_of_le (Nat.le_max_left maxNestingDepth (depth v)) h
  rw [decodeWithin_encode hv (Nat.le_max_right maxNestingDepth (depth v))
    (Nat.lt_succ_of_le (depth_le_length v))] at hlarge
  exact (Option.some.inj hlarge).symm

end

section

variable {members : Members} (hv : wellNumberedMembers members = true)

include hv

/-- An object is read back under any limit it nests within. -/
theorem unmarshalJSON_object {limit : Nat} (hdepth : depthMembers members < limit) :
    unmarshalJSON limit (decodeWithin limit (encode (.object members)).length)
      (encode (.object members)) = some members := by
  refine unmarshalJSON_encode hv (Nat.le_of_lt hdepth) fun member hmember => ?_
  obtain ⟨hnumbers, hless⟩ := mem_members hv hmember
  refine decodeWithin_encode hnumbers (by omega) ?_
  exact Nat.lt_of_lt_of_le (Nat.lt_succ_of_le hless) (depth_le_length (.object members))

theorem unmarshal_encode (hdepth : depthMembers members < maxNestingDepth) :
    unmarshal (encode (.object members)) = some members := by
  unfold unmarshal
  rw [if_pos (whole_object hv hdepth).valid]
  exact unmarshalJSON_object hv hdepth

/-- Whatever is read back is the object that was written. -/
theorem eq_of_unmarshal {found : Members}
    (h : unmarshal (encode (.object members)) = some found) : found = members := by
  unfold unmarshal at h
  split_ifs at h
  have hle := Nat.le_max_left maxNestingDepth (depthMembers members + 1)
  have hlarge := unmarshalJSON_of_le hle
    (fun _ _ => @decodeWithin_of_le _ _ hle (encode (.object members)).length _ _) h
  rw [unmarshalJSON_object hv (Nat.le_max_right maxNestingDepth _)] at hlarge
  exact (Option.some.inj hlarge).symm

end

/-- **Ordered JSON round trip.**  A tree whose numbers are valid literals and whose
containers nest no deeper than the package allows is encoded, its text is decoded
to the same tree, by `decodeAny` and for an object by `json.Unmarshal`, and that
tree encodes to the same text.  For a tree of any depth, whatever the encoder and
the decoders answer is that: they never answer another text or tree. -/
theorem ordered_round_trip {v : JsonValue} (hv : wellNumbered v = true) :
    (depth v ≤ maxNestingDepth → ∃ found, marshal v = some found ∧ decodeAny found = some v ∧
      ∀ members, v = .object members → unmarshal found = some members) ∧
    ∀ found, marshal v = some found →
      (∀ w, decodeAny found = some w → w = v ∧ marshal w = some found) ∧
      ∀ members others, v = .object members → unmarshal found = some others →
        others = members ∧ marshal (.object others) = some found := by
  constructor
  · intro hdepth
    refine ⟨encode v, marshalWithin_eq v hv hdepth, ?_, ?_⟩
    · exact decodeWithin_encode hv hdepth (Nat.lt_succ_of_le (depth_le_length v))
    · rintro members rfl
      exact unmarshal_encode hv hdepth
  · intro found hfound
    obtain rfl := eq_encode_of_marshalWithin hv hfound
    refine ⟨fun w hw => ?_, ?_⟩
    · obtain rfl := eq_of_decodeAny hv hw
      exact ⟨rfl, hfound⟩
    · rintro members others rfl hothers
      obtain rfl := eq_of_unmarshal hv hothers
      exact ⟨rfl, hfound⟩

/-- An object with a repeated key, a separator and a number as it was written. -/
theorem ordered_round_trip_repeated :
    ∃ found, marshal (.object [(['b'], .number ['1', '.', '0']), (['a'], .array []),
        (['b'], .text ['\u2028', '<'])]) = some found ∧
      unmarshal found = some [(['b'], .number ['1', '.', '0']), (['a'], .array []),
        (['b'], .text ['\u2028', '<'])] := by
  obtain ⟨found, hfound, -, hread⟩ := (@ordered_round_trip (.object
    [(['b'], .number ['1', '.', '0']), (['a'], .array []), (['b'], .text ['\u2028', '<'])])
    (by decide)).1 (by decide)
  exact ⟨found, hfound, hread _ rfl⟩

/-- Objects within objects, under the empty key. -/
def chain : Nat → JsonValue
  | 0 => .object []
  | n + 1 => .object [([], chain n)]

theorem wellNumbered_chain (n : Nat) : wellNumbered (chain n) = true := by
  induction n with
  | zero => rfl
  | succ n ih => simp [chain, wellNumbered, wellNumberedMembers, ih]

/-- Without room the scanner refuses an object. -/
theorem compactFrom_full {limit : Nat} {stack : List ParseState} (hle : limit ≤ stack.length)
    (rest : Str) : compactFrom limit ⟨.beginValue, stack⟩ ('{' :: rest) = none := by
  have hopen : step limit ⟨.beginValue, stack⟩ '{' =
      (⟨.error, .objectKey :: stack⟩, .scanError) := if_neg (by dsimp only; omega)
  rw [compactFrom, hopen]

/-- The scanner does not reach the end of a chain that is longer than the room the
limit leaves. -/
theorem compactFrom_chain {limit n : Nat} {stack : List ParseState}
    (h : limit < stack.length + n + 1) (rest : Str) :
    compactFrom limit ⟨.beginValue, stack⟩ (encode (chain n) ++ rest) = none := by
  induction n generalizing stack rest with
  | zero => exact compactFrom_full (by omega) _
  | succ n ih =>
      rw [chain, encode_object]
      by_cases hroom : stack.length < limit
      · have hopen : step limit ⟨.beginValue, stack⟩ '{' =
            (⟨.beginStringOrEmpty, .objectKey :: stack⟩, .scanBeginObject) := if_pos hroom
        have hquote : step limit ⟨.beginStringOrEmpty, .objectKey :: stack⟩ '"' =
            (⟨.inString, .objectKey :: stack⟩, .scanBeginLiteral) := rfl
        have hsplit : membersBody [([], chain n)] ++ ['}'] ++ rest =
            (printText GoText.encodeChar [] ++ [':']) ++
              (encode (chain n) ++ '}' :: rest) := by
          simp [membersBody, memberText, membersTail]
        rw [List.cons_append, hsplit, compactFrom, hopen]
        dsimp only
        rw [compactFrom_through (through_key hquote []), ih (by rw [List.length_cons]; omega)]
        rfl
      · exact compactFrom_full (by omega) _

/-- An object's encoding was compacted. -/
theorem compact_of_marshalWithin {limit : Nat} {members : Members}
    (hv : wellNumberedMembers members = true) {found : Str}
    (h : marshalWithin limit (.object members) = some found) :
    compact limit (encode (.object members)) = some found := by
  simp only [marshalWithin, Option.bind_eq_bind, Option.bind_eq_some_iff] at h
  obtain ⟨texts, htexts, h⟩ := h
  have hle := Nat.le_max_left limit (depthMembers members)
  have hlarge := marshalMembers_of_le hle members htexts
  rw [marshalMembers_eq members hv (Nat.le_max_right _ _)] at hlarge
  rwa [← Option.some.inj hlarge, joined_members, ← encode_object] at h

/-- The encoder refuses a chain that is longer than the limit. -/
theorem marshalWithin_chain (limit : Nat) : marshalWithin limit (chain limit) = none := by
  cases h : marshalWithin limit (chain limit) with
  | none => rfl
  | some found =>
      have hnumbers := wellNumbered_chain limit
      obtain ⟨members, hmembers⟩ : ∃ members, chain limit = .object members := by
        cases limit with
        | zero => exact ⟨_, rfl⟩
        | succ n => exact ⟨_, rfl⟩
      rw [hmembers] at h hnumbers
      have hcompact := compact_of_marshalWithin hnumbers h
      have hchain := @compactFrom_chain limit limit [] (by simp) []
      rw [List.append_nil, hmembers] at hchain
      rw [compact, Scanner.new, hchain] at hcompact
      cases hcompact

/-- A chain one longer than the package allows has no encoding, so it does not come
back. -/
theorem chain_not_encoded :
    ¬∀ v : JsonValue, wellNumbered v = true →
      ∃ found, marshal v = some found ∧ decodeAny found = some v := by
  intro h
  obtain ⟨found, hfound, -⟩ := h (chain maxNestingDepth) (wellNumbered_chain _)
  rw [marshal, marshalWithin_chain] at hfound
  cases hfound

end Jsonx
