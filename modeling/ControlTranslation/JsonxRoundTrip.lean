import ControlTranslation.JsonxScanning

/-!
# Ordered JSON comes back

Within the nesting the package allows, what the encoder writes the decoder reads
back as the same tree, member by member, and encodes to the same text again.  A
tree that nests deeper is an error of the encoder or of the decoder: no answer of
either depends on the limit, so none is wrong.
-/

namespace Jsonx

open PyText GoScanner JsonValue

theorem joined_cons (text : Str) (texts : List Str) :
    joined (text :: texts) = text ++ texts.flatMap fun other => ',' :: other := by
  induction texts generalizing text with
  | nil => simp [joined]
  | cons other rest ih =>
      rw [joined, ih]
      · simp
      · simp

theorem joined_items (items : List JsonValue) : joined (items.map encode) = itemsBody items := by
  cases items with
  | nil => rfl
  | cons item rest => rw [List.map_cons, joined_cons, List.flatMap_map, itemsBody, itemsTail]

theorem joined_members (members : Members) :
    joined (members.map memberText) = membersBody members := by
  cases members with
  | nil => rfl
  | cons member rest =>
      rw [List.map_cons, joined_cons, List.flatMap_map, membersBody, membersTail]

theorem encodeNumber_eq {literal : Str} (h : isValidNumber literal = true) :
    encodeNumber literal = some literal := by
  cases literal with
  | nil => cases h
  | cons c rest => exact (if_neg Bool.false_ne_true).trans (if_pos h)

section

variable {limit : Nat}

mutual

/-- Within the limit a tree is encoded. -/
theorem marshalWithin_eq : ∀ v : JsonValue, wellNumbered v = true → depth v ≤ limit →
    marshalWithin limit v = some (encode v)
  | .null, _, _ => rfl
  | .bool true, _, _ => rfl
  | .bool false, _, _ => rfl
  | .number _, hv, _ => encodeNumber_eq hv
  | .text _, _, _ => rfl
  | .array items, hv, hdepth => by
      simp only [wellNumbered, depth] at hv hdepth
      rw [marshalWithin, marshalItems_eq items hv (by omega), encode_array, ← joined_items]
      rfl
  | .object members, hv, hdepth => by
      simp only [wellNumbered, depth] at hv hdepth
      have hwhole := (whole_object hv hdepth).compact
      rw [marshalWithin, marshalMembers_eq members hv (by omega)]
      rw [encode_object, ← joined_members] at hwhole ⊢
      exact hwhole

/-- Items within the depth are written as their texts. -/
theorem marshalItems_eq : ∀ items : List JsonValue, wellNumberedItems items = true →
    depthItems items ≤ limit → marshalItems limit items = some (items.map encode)
  | [], _, _ => rfl
  | item :: rest, hv, hdepth => by
      simp only [wellNumberedItems, Bool.and_eq_true, depthItems] at hv hdepth
      rw [marshalItems, marshalWithin_eq item hv.1 (by omega),
        marshalItems_eq rest hv.2 (by omega)]
      rfl

/-- Members within the depth are written as their texts. -/
theorem marshalMembers_eq : ∀ members : List (Str × JsonValue),
    wellNumberedMembers members = true → depthMembers members ≤ limit →
      marshalMembers limit members = some (members.map memberText)
  | [], _, _ => rfl
  | (key, value) :: rest, hv, hdepth => by
      simp only [wellNumberedMembers, Bool.and_eq_true, depthMembers] at hv hdepth
      rw [marshalMembers, marshalWithin_eq value hv.1 (by omega),
        marshalMembers_eq rest hv.2 (by omega)]
      rfl

end

end

theorem hex4_zero {a b : Nat} (ha : a < 16) (hb : b < 16) :
    hex4 '0' '0' (hexLower a) (hexLower b) = some (16 * a + b) := by
  have hzero : isHexDigit '0' = true := rfl
  have hvalue : hexValue '0' = 0 := rfl
  simp only [hex4, hzero, isHexDigit_hexLower a ha, isHexDigit_hexLower b hb, hvalue,
    hexValue_hexLower a ha, hexValue_hexLower b hb, Bool.and_self, if_true]
  congr 1
  omega

/-- A character that needs no escape is read as itself. -/
theorem unquoteBody_plain {c : Char} (hslash : c ≠ '\\') (hquote : c ≠ '"')
    (hcontrol : ¬c.toNat < 32) (rest : Str) :
    unquoteBody 0 (c :: rest) = (unquoteBody 0 rest).map (c :: ·) := by
  rw [unquoteBody.eq_def]
  split
  · rename_i heq
    cases heq
  · rename_i hskip _
    cases hskip
  · rename_i heq
    exact absurd (List.cons.inj heq).1 hslash
  · rename_i heq
    exact absurd (List.cons.inj heq).1 hslash
  · rename_i heq
    obtain ⟨rfl, rfl⟩ := List.cons.inj heq
    exact if_neg (by simp [hslash, hquote, hcontrol])

/-- A character is read back from what the encoder writes for it. -/
theorem unquoteBody_char (c : Char) (rest : Str) :
    unquoteBody 0 (GoText.encodeChar c ++ rest) = (unquoteBody 0 rest).map (c :: ·) := by
  unfold GoText.encodeChar
  split_ifs with h₁ h₂
  · rw [h₁]
    rfl
  · rw [h₂]
    rfl
  unfold escapeChar
  split_ifs with hquote hslash h₃ h₄ h₅ h₆ h₇ hcontrol
  · rw [hquote]
    rfl
  · rw [hslash]
    rfl
  · rw [h₃]
    rfl
  · rw [h₄]
    rfl
  · rw [h₅]
    rfl
  · rw [h₆]
    rfl
  · rw [h₇]
    rfl
  · have hhex := @hex4_zero (c.toNat / 16) (c.toNat % 16) (by omega) (by omega)
    have hvalue : 16 * (c.toNat / 16) + c.toNat % 16 = c.toNat := by omega
    have hrune : isSurrogate c.toNat = false := by
      simp only [isSurrogate, Bool.and_eq_false_iff, decide_eq_false_iff_not]
      omega
    rw [hvalue] at hhex
    change unquoteBody 0 ('\\' :: 'u' :: '0' :: '0' :: hexLower (c.toNat / 16) ::
      hexLower (c.toNat % 16) :: rest) = _
    rw [unquoteBody, hhex]
    simp only [hrune, Bool.false_eq_true, if_false, Char.ofNat_toNat]
  · exact unquoteBody_plain hslash hquote hcontrol rest

/-- A string is read back from its literal. -/
theorem unquote_printText (s : Str) : unquote (printText GoText.encodeChar s) = some s := by
  have hbody : unquoteBody 0 (s.flatMap GoText.encodeChar) = some s := by
    induction s with
    | nil => rfl
    | cons c rest ih => rw [List.flatMap_cons, unquoteBody_char, ih, Option.map_some]
  change (if (s.flatMap GoText.encodeChar ++ ['"']).getLast? = some '"' then
    unquoteBody 0 (s.flatMap GoText.encodeChar ++ ['"']).dropLast else none) = some s
  rw [List.getLast?_concat, List.dropLast_concat, if_pos rfl, hbody]

/-- The first character of a valid number. -/
theorem head_number {c : Char} {rest : Str} (h : isValidNumber (c :: rest) = true) :
    c = '-' ∨ c.isDigit = true := by
  by_cases hminus : c = '-'
  · exact .inl hminus
  · right
    have hafter : afterMinus (c :: rest) = c :: rest := by
      unfold afterMinus
      split
      · rename_i heq
        exact absurd (List.cons.inj heq).1 hminus
      · rfl
    rw [isValidNumber, hafter, afterInteger] at h
    by_cases hzero : c = '0'
    · rw [hzero]
      rfl
    · rw [if_neg hzero] at h
      by_cases hpositive : isPositiveDigit c = true
      · simp only [isPositiveDigit, Bool.and_eq_true] at hpositive
        exact hpositive.1
      · rw [if_neg hpositive] at h
        cases h

/-- A literal is decoded to the scalar it encodes. -/
theorem literalValue_encode {v : JsonValue} (hscalar : isScalar v = true)
    (hv : wellNumbered v = true) : literalValue (encode v) = some v := by
  cases v with
  | null => rfl
  | bool b => cases b <;> rfl
  | text s =>
      change (unquote (printText GoText.encodeChar s)).map JsonValue.text = _
      rw [unquote_printText]
      rfl
  | number literal =>
      cases literal with
      | nil => cases hv
      | cons c rest =>
          have hhead := head_number hv
          change literalValue (c :: rest) = _
          unfold literalValue
          split
          · rename_i heq
            obtain ⟨rfl, -⟩ := List.cons.inj heq
            rcases hhead with h | h <;> cases h
          · rename_i heq
            obtain ⟨rfl, -⟩ := List.cons.inj heq
            rcases hhead with h | h <;> cases h
          · rename_i heq
            obtain ⟨rfl, -⟩ := List.cons.inj heq
            rcases hhead with h | h <;> cases h
          · rename_i heq
            obtain ⟨rfl, -⟩ := List.cons.inj heq
            rcases hhead with h | h <;> cases h
          · rfl
  | array items => cases hscalar
  | object members => cases hscalar

theorem isNumberChar_digit {c : Char} (h : c.isDigit = true) : isNumberChar c = true := by
  simp [isNumberChar, h]

theorem all_of_afterDigits {s : Str}
    (h : (s.dropWhile Char.isDigit).all isNumberChar = true) : s.all isNumberChar = true := by
  induction s with
  | nil => rfl
  | cons c rest ih =>
      by_cases hc : c.isDigit = true
      · rw [List.dropWhile_cons_of_pos hc] at h
        rw [List.all_cons, isNumberChar_digit hc, ih h]
        rfl
      · rwa [List.dropWhile_cons_of_neg hc] at h

theorem all_of_afterExponent {s : Str} (h : afterExponent s = some []) :
    s.all isNumberChar = true := by
  unfold afterExponent at h
  split at h
  · rename_i e c rest
    have hrest : ∀ t : Str, t.dropWhile Char.isDigit = [] → t.all isNumberChar = true := by
      intro t ht
      exact all_of_afterDigits (by rw [ht]; rfl)
    by_cases he : e = 'e' ∨ e = 'E'
    · rw [if_pos he] at h
      have hhead : isNumberChar e = true := by rcases he with rfl | rfl <;> rfl
      by_cases hsign : c = '+' ∨ c = '-'
      · have hnext : isNumberChar c = true := by rcases hsign with rfl | rfl <;> rfl
        rw [if_pos hsign] at h
        split_ifs at h
        rw [List.all_cons, List.all_cons, hhead, hnext, hrest rest (Option.some.inj h)]
        rfl
      · rw [if_neg hsign] at h
        rw [List.all_cons, hhead, hrest _ (Option.some.inj h)]
        rfl
    · rw [if_neg he] at h
      cases h
  · obtain rfl := Option.some.inj h
    rfl

theorem all_of_afterFraction {s : Str} (h : afterExponent (afterFraction s) = some []) :
    s.all isNumberChar = true := by
  unfold afterFraction at h
  split at h
  · rename_i d rest
    by_cases hd : d.isDigit = true
    · rw [if_pos hd] at h
      rw [List.all_cons, List.all_cons, isNumberChar_digit hd,
        all_of_afterDigits (all_of_afterExponent h)]
      rfl
    · rw [if_neg hd] at h
      exact all_of_afterExponent h
  · exact all_of_afterExponent h

theorem all_of_afterInteger {s rest : Str} (h : afterInteger s = some rest)
    (hrest : rest.all isNumberChar = true) : s.all isNumberChar = true := by
  cases s with
  | nil => rfl
  | cons c s =>
      simp only [afterInteger] at h
      split_ifs at h with hzero hpositive
      · obtain rfl := Option.some.inj h
        rw [List.all_cons, hzero, hrest]
        rfl
      · obtain rfl := Option.some.inj h
        simp only [isPositiveDigit, Bool.and_eq_true] at hpositive
        rw [List.all_cons, isNumberChar_digit hpositive.1, all_of_afterDigits hrest]
        rfl

/-- The characters of a valid number. -/
theorem all_of_validNumber {literal : Str} (h : isValidNumber literal = true) :
    literal.all isNumberChar = true := by
  unfold isValidNumber at h
  split at h
  · cases h
  · rename_i rest hinteger
    have hall := all_of_afterInteger hinteger (all_of_afterFraction (eq_of_beq h))
    unfold afterMinus at hall
    split at hall
    · rw [List.all_cons, hall]
      rfl
    · exact hall

theorem isSpace_number {c : Char} (h : isNumberChar c = true) : GoText.isSpace c = false := by
  simp only [isNumberChar, Bool.or_eq_true, beq_iff_eq] at h
  rcases h with ((((h | rfl) | rfl) | rfl) | rfl) | rfl
  · have hrange : 48 ≤ c.toNat ∧ c.toNat ≤ 57 := by
      simpa [Char.isDigit, UInt32.le_iff_toNat_le] using h
    simp only [GoText.isSpace, Bool.or_eq_false_iff, Bool.and_eq_false_iff,
      decide_eq_false_iff_not, beq_eq_false_iff_ne]
    omega
  · rfl
  · rfl
  · rfl
  · rfl
  · rfl

/-- A text that neither begins nor ends with white space. -/
def Trimmed (text : Str) : Prop :=
  ∃ first rest last, text = first :: rest ∧ text.getLast? = some last ∧
    GoText.isSpace first = false ∧ GoText.isSpace last = false

theorem trimmed_of_ends {first last : Char} {body : Str} (hfirst : GoText.isSpace first = false)
    (hlast : GoText.isSpace last = false) : Trimmed (first :: (body ++ [last])) :=
  ⟨first, _, last, rfl, List.getLast?_concat (l := first :: body), hfirst, hlast⟩

theorem trimSpace_eq {text : Str} (h : Trimmed text) : GoText.trimSpace text = text := by
  obtain ⟨first, rest, last, rfl, hlast, hfirst, hend⟩ := h
  unfold GoText.trimSpace
  rw [List.dropWhile_cons_of_neg (by simp [hfirst]), List.rdropWhile_eq_self_iff]
  intro hne
  have hget := List.getLast?_eq_some_getLast hne
  rw [hlast] at hget
  rw [← Option.some.inj hget]
  simp [hend]

/-- White space between tokens is white space. -/
theorem isSpace_scanner {c : Char} (h : GoText.isSpace c = false) :
    GoScanner.isSpace c = false := by
  simp only [GoScanner.isSpace, Bool.or_eq_false_iff, beq_eq_false_iff_ne]
  refine ⟨⟨⟨?_, ?_⟩, ?_⟩, ?_⟩ <;> rintro rfl <;> cases h

/-- The text of a value has no space at its ends. -/
theorem trimmed_encode {v : JsonValue} (hv : wellNumbered v = true) : Trimmed (encode v) := by
  cases v with
  | null => exact ⟨'n', _, 'l', rfl, rfl, rfl, rfl⟩
  | bool b =>
      cases b with
      | true => exact ⟨'t', _, 'e', rfl, rfl, rfl, rfl⟩
      | false => exact ⟨'f', _, 'e', rfl, rfl, rfl, rfl⟩
  | number literal =>
      have hall := List.all_eq_true.mp (all_of_validNumber hv)
      cases hliteral : literal with
      | nil =>
          rw [hliteral] at hv
          cases hv
      | cons first rest =>
          rw [hliteral] at hall
          have hne : first :: rest ≠ [] := List.cons_ne_nil _ _
          refine ⟨first, rest, _, rfl, List.getLast?_eq_some_getLast hne, ?_, ?_⟩
          · exact isSpace_number (hall _ List.mem_cons_self)
          · exact isSpace_number (hall _ (List.getLast_mem hne))
  | text s => exact trimmed_of_ends rfl rfl
  | array items =>
      rw [encode_array]
      exact trimmed_of_ends rfl rfl
  | object members =>
      rw [encode_object]
      exact trimmed_of_ends rfl rfl

theorem peek_encode {v : JsonValue} (hv : wellNumbered v = true) (rest : Str) :
    peek (encode v ++ rest) = encode v ++ rest := by
  obtain ⟨first, _, _, heq, -, hfirst, -⟩ := trimmed_encode hv
  rw [heq, List.cons_append]
  exact List.dropWhile_cons_of_neg (by simp [isSpace_scanner hfirst])

section

variable {limit : Nat} {decode : Str → Option JsonValue}

/-- A member is read back, with what follows it. -/
theorem readMember_eq (key : Str) {value : JsonValue} (hv : wellNumbered value = true)
    (hdepth : depth value ≤ limit) (hdecode : decode (encode value) = some value) {rest : Str}
    (hrest : Stops rest) :
    readMember limit decode (memberText (key, value) ++ rest) = some ((key, value), rest) := by
  have hkey : readValue limit (printText GoText.encodeChar key ++ ':' :: (encode value ++ rest)) =
      some (printText GoText.encodeChar key, ':' :: (encode value ++ rest)) :=
    readValue_encode (v := .text key) rfl (Nat.zero_le _) (stops_cons rfl)
  have hcolon : peek (':' :: (encode value ++ rest)) = ':' :: (encode value ++ rest) := rfl
  have hsplit : memberText (key, value) ++ rest =
      printText GoText.encodeChar key ++ ':' :: (encode value ++ rest) := by
    simp [memberText]
  rw [readMember, hsplit, hkey]
  simp only [Option.bind_eq_bind, Option.bind_some, unquote_printText, hcolon, peek_encode hv,
    readValue_encode hv hdepth hrest, hdecode]
  rfl

theorem stops_membersTail (members : Members) (rest : Str) :
    Stops (membersTail members ++ '}' :: rest) := by
  cases members with
  | nil => exact stops_cons rfl
  | cons member others => exact stops_cons rfl

theorem stops_itemsTail (items : List JsonValue) (rest : Str) :
    Stops (itemsTail items ++ ']' :: rest) := by
  cases items with
  | nil => exact stops_cons rfl
  | cons item others => exact stops_cons rfl

/-- A member's text begins with the quote of its key. -/
theorem memberText_cons (key : Str) (value : JsonValue) (rest : Str) :
    ∃ after, memberText (key, value) ++ rest = '"' :: after :=
  ⟨_, rfl⟩

/-- The members after the first are read back. -/
theorem readMembers_tail (members : List (Str × JsonValue))
    (hv : wellNumberedMembers members = true) (hdepth : depthMembers members ≤ limit)
    (hdecode : ∀ member ∈ members, decode (encode member.2) = some member.2) {fuel : Nat}
    (hfuel : members.length < fuel) (rest : Str) :
    readMembers limit decode fuel false (membersTail members ++ '}' :: rest) = some members := by
  induction members generalizing fuel with
  | nil =>
      cases fuel with
      | zero => cases hfuel
      | succ fuel => rfl
  | cons member others ih =>
      obtain ⟨key, value⟩ := member
      simp only [wellNumberedMembers, Bool.and_eq_true, depthMembers] at hv hdepth
      cases fuel with
      | zero => cases hfuel
      | succ fuel =>
          obtain ⟨hfirst, hlater⟩ := Nat.max_le.mp hdepth
          have hothers := ih hv.2 hlater
            (fun member hmember => hdecode member (List.mem_cons_of_mem _ hmember))
            (Nat.lt_of_succ_lt_succ hfuel)
          have hmember := readMember_eq key hv.1 hfirst
            (hdecode (key, value) List.mem_cons_self) (stops_membersTail others rest)
          have hsplit : membersTail ((key, value) :: others) ++ '}' :: rest =
              ',' :: (memberText (key, value) ++ (membersTail others ++ '}' :: rest)) := by
            simp [membersTail]
          obtain ⟨after, hafter⟩ := memberText_cons key value (membersTail others ++ '}' :: rest)
          rw [hsplit]
          rw [hafter] at hmember ⊢
          change ((readMember limit decode ('"' :: after)).bind fun turn =>
            (readMembers limit decode fuel false turn.2).bind fun members =>
              some (turn.1 :: members)) = _
          rw [hmember]
          simp only [Option.bind_some, hothers]

/-- The members of an object are read back. -/
theorem readMembers_body (members : List (Str × JsonValue))
    (hv : wellNumberedMembers members = true) (hdepth : depthMembers members ≤ limit)
    (hdecode : ∀ member ∈ members, decode (encode member.2) = some member.2) {fuel : Nat}
    (hfuel : members.length < fuel) (rest : Str) :
    readMembers limit decode fuel true (membersBody members ++ '}' :: rest) = some members := by
  cases fuel with
  | zero => cases hfuel
  | succ fuel =>
      cases members with
      | nil => rfl
      | cons member others =>
          obtain ⟨key, value⟩ := member
          simp only [wellNumberedMembers, Bool.and_eq_true, depthMembers] at hv hdepth
          obtain ⟨hfirst, hlater⟩ := Nat.max_le.mp hdepth
          have hothers := readMembers_tail others hv.2 hlater
            (fun member hmember => hdecode member (List.mem_cons_of_mem _ hmember))
            (Nat.lt_of_succ_lt_succ hfuel) rest
          have hmember := readMember_eq key hv.1 hfirst
            (hdecode (key, value) List.mem_cons_self) (stops_membersTail others rest)
          obtain ⟨after, hafter⟩ := memberText_cons key value (membersTail others ++ '}' :: rest)
          rw [membersBody, List.append_assoc]
          rw [hafter] at hmember ⊢
          change ((readMember limit decode ('"' :: after)).bind fun turn =>
            (readMembers limit decode fuel false turn.2).bind fun members =>
              some (turn.1 :: members)) = _
          rw [hmember]
          simp only [Option.bind_some, hothers]

/-- An object's text is no shorter than its members are many. -/
theorem length_membersBody (members : Members) : members.length ≤ (membersBody members).length := by
  have htail : ∀ others : Members, others.length ≤ (membersTail others).length := by
    intro others
    induction others with
    | nil => exact Nat.le_refl _
    | cons member rest ih =>
        simp only [membersTail, List.flatMap_cons, List.length_append, List.length_cons] at ih ⊢
        omega
  cases members with
  | nil => exact Nat.le_refl _
  | cons member rest =>
      have hrest := htail rest
      simp only [membersBody, memberText, List.length_append, List.length_cons]
      omega

/-- **An object is read back member by member.** -/
theorem unmarshalJSON_encode {members : Members} (hv : wellNumberedMembers members = true)
    (hdepth : depthMembers members ≤ limit)
    (hdecode : ∀ member ∈ members, decode (encode member.2) = some member.2) :
    unmarshalJSON limit decode (encode (.object members)) = some members := by
  have hlength := length_membersBody members
  rw [encode_object]
  change readMembers limit decode ((membersBody members ++ ['}']).length + 1) true
    (membersBody members ++ ['}']) = _
  refine readMembers_body members hv hdepth hdecode ?_ []
  rw [List.length_append]
  omega

end

section

variable {limit : Nat}

/-- The items after the first are cut out. -/
theorem readItems_tail (items : List JsonValue) (hv : wellNumberedItems items = true)
    (hdepth : depthItems items ≤ limit) {fuel : Nat} (hfuel : items.length < fuel) (rest : Str) :
    readItems limit fuel false (itemsTail items ++ ']' :: rest) = some (items.map encode) := by
  induction items generalizing fuel with
  | nil =>
      cases fuel with
      | zero => cases hfuel
      | succ fuel => rfl
  | cons item others ih =>
      simp only [wellNumberedItems, Bool.and_eq_true, depthItems] at hv hdepth
      obtain ⟨hfirst, hlater⟩ := Nat.max_le.mp hdepth
      cases fuel with
      | zero => cases hfuel
      | succ fuel =>
          have hothers := ih hv.2 hlater (Nat.lt_of_succ_lt_succ hfuel)
          have hitem := readValue_encode hv.1 hfirst (stops_itemsTail others rest)
          have hsplit : itemsTail (item :: others) ++ ']' :: rest =
              ',' :: (encode item ++ (itemsTail others ++ ']' :: rest)) := by
            simp [itemsTail]
          rw [hsplit]
          change ((readValue limit (peek (encode item ++ (itemsTail others ++ ']' :: rest)))).bind
            fun turn => (readItems limit fuel false turn.2).bind fun raws =>
              some (turn.1 :: raws)) = _
          rw [peek_encode hv.1, hitem]
          simp only [Option.bind_some, hothers]
          rfl

/-- The first item of an array begins with anything but a closing bracket. -/
theorem readItems_first {c : Char} {rest : Str} (hbracket : c ≠ ']')
    (hpeek : peek (c :: rest) = c :: rest) (fuel : Nat) :
    readItems limit (fuel + 1) true (c :: rest) = (do
      let (raw, left) ← readValue limit (c :: rest)
      let raws ← readItems limit fuel false left
      return raw :: raws) := by
  rw [readItems.eq_def]
  simp only [hpeek]

/-- The items of an array are cut out. -/
theorem readItems_body (items : List JsonValue) (hv : wellNumberedItems items = true)
    (hdepth : depthItems items ≤ limit) {fuel : Nat} (hfuel : items.length < fuel) (rest : Str) :
    readItems limit fuel true (itemsBody items ++ ']' :: rest) = some (items.map encode) := by
  cases fuel with
  | zero => cases hfuel
  | succ fuel =>
      cases items with
      | nil => rfl
      | cons item others =>
          simp only [wellNumberedItems, Bool.and_eq_true, depthItems] at hv hdepth
          obtain ⟨hfirst, hlater⟩ := Nat.max_le.mp hdepth
          have hothers := readItems_tail others hv.2 hlater (Nat.lt_of_succ_lt_succ hfuel) rest
          have hitem := readValue_encode hv.1 hfirst (stops_itemsTail others rest)
          have hpeek := peek_encode hv.1 (itemsTail others ++ ']' :: rest)
          rw [itemsBody, List.append_assoc]
          obtain ⟨c, cs, _, heq, -⟩ := trimmed_encode hv.1
          rw [heq, List.cons_append] at hitem hpeek ⊢
          have hbracket : c ≠ ']' := by
            rintro rfl
            cases hitem
          rw [readItems_first hbracket hpeek, hitem]
          simp only [Option.bind_eq_bind, Option.bind_some, hothers, List.map_cons, heq]
          rfl

/-- An array's text is no shorter than its items are many. -/
theorem length_itemsBody {items : List JsonValue} (hv : wellNumberedItems items = true) :
    items.length ≤ (itemsBody items).length := by
  have htail : ∀ others : List JsonValue, others.length ≤ (itemsTail others).length := by
    intro others
    induction others with
    | nil => exact Nat.le_refl _
    | cons item rest ih =>
        simp only [itemsTail, List.flatMap_cons, List.length_append, List.length_cons] at ih ⊢
        omega
  cases items with
  | nil => exact Nat.le_refl _
  | cons item rest =>
      simp only [wellNumberedItems, Bool.and_eq_true] at hv
      have hrest := htail rest
      have hitem := List.length_pos_iff.mpr (encode_ne_nil hv.1)
      simp only [itemsBody, List.length_append, List.length_cons]
      omega

/-- The items of a written array are read back raw. -/
theorem unmarshalRaws_encode {items : List JsonValue} (hv : wellNumberedItems items = true)
    (hdepth : depthItems items + 1 ≤ limit) :
    unmarshalRaws limit (encode (.array items)) = some (items.map encode) := by
  have hlength := length_itemsBody hv
  rw [unmarshalRaws, if_pos (whole_array hv hdepth).valid, encode_array]
  change readItems limit ((itemsBody items ++ [']']).length + 1) true
    (itemsBody items ++ [']']) = _
  refine readItems_body items hv (by omega) ?_ []
  rw [List.length_append]
  omega

/-- A literal is decoded by reading it. -/
theorem decodeWithin_scalar {v : JsonValue} (hscalar : isScalar v = true)
    (hv : wellNumbered v = true) (levels : Nat) :
    decodeWithin limit (levels + 1) (encode v) = some v := by
  have hread : readValue limit (encode v) = some (encode v, []) := by
    have hread := @readValue_encode limit v hv ?_ [] stops_nil
    · rwa [List.append_nil] at hread
    · cases v with
      | array items => cases hscalar
      | object members => cases hscalar
      | _ => exact Nat.zero_le _
  have hliteral := literalValue_encode hscalar hv
  rw [decodeWithin, trimSpace_eq (trimmed_encode hv)]
  split
  · rename_i heq
    exact absurd heq (encode_ne_nil hv)
  · rename_i heq
    rw [heq] at hliteral
    obtain rfl := Option.some.inj hliteral
    rw [wellNumbered] at hv
    rcases head_number hv with h | h <;> cases h
  · rename_i heq
    rw [heq] at hliteral
    obtain rfl := Option.some.inj hliteral
    rw [wellNumbered] at hv
    rcases head_number hv with h | h <;> cases h
  · rw [hread]
    simp only [Option.bind_eq_bind, Option.bind_some, hliteral]

/-- A member is well numbered and no deeper than all members. -/
theorem mem_members {members : Members} (hv : wellNumberedMembers members = true)
    {member : Str × JsonValue} (hmember : member ∈ members) :
    wellNumbered member.2 = true ∧ depth member.2 ≤ depthMembers members := by
  induction members with
  | nil => cases hmember
  | cons first rest ih =>
      simp only [wellNumberedMembers, Bool.and_eq_true] at hv
      rw [depthMembers]
      rcases List.mem_cons.mp hmember with rfl | hmember
      · exact ⟨hv.1, Nat.le_max_left _ _⟩
      · obtain ⟨hnumbers, hdepth⟩ := ih hv.2 hmember
        exact ⟨hnumbers, Nat.le_trans hdepth (Nat.le_max_right _ _)⟩

/-- An item is well numbered and no deeper than all items. -/
theorem mem_items {items : List JsonValue} (hv : wellNumberedItems items = true)
    {item : JsonValue} (hitem : item ∈ items) :
    wellNumbered item = true ∧ depth item ≤ depthItems items := by
  induction items with
  | nil => cases hitem
  | cons first rest ih =>
      simp only [wellNumberedItems, Bool.and_eq_true] at hv
      rw [depthItems]
      rcases List.mem_cons.mp hitem with rfl | hitem
      · exact ⟨hv.1, Nat.le_max_left _ _⟩
      · obtain ⟨hnumbers, hdepth⟩ := ih hv.2 hitem
        exact ⟨hnumbers, Nat.le_trans hdepth (Nat.le_max_right _ _)⟩

theorem mapM_decode {decode : Str → Option JsonValue} {items : List JsonValue}
    (h : ∀ item ∈ items, decode (encode item) = some item) :
    (items.map encode).mapM decode = some items := by
  induction items with
  | nil => rfl
  | cons item rest ih =>
      rw [List.map_cons, List.mapM_cons, h item List.mem_cons_self,
        ih fun other hother => h other (List.mem_cons_of_mem _ hother)]
      rfl

/-- **Trees are read back.**  Within the limit, and with a level for each container
on the way down, decoding an encoded tree is the tree. -/
theorem decodeWithin_encode {levels : Nat} : ∀ {v : JsonValue}, wellNumbered v = true →
    depth v ≤ limit → depth v < levels → decodeWithin limit levels (encode v) = some v := by
  induction levels with
  | zero => exact fun _ _ h => absurd h (Nat.not_lt_zero _)
  | succ levels ih =>
      intro v hv hdepth hlevels
      cases v with
      | object members =>
          simp only [wellNumbered, depth] at hv hdepth hlevels
          have hread := unmarshalJSON_encode hv (Nat.le_of_succ_le hdepth) fun member hmember => by
            obtain ⟨hnumbers, hless⟩ := mem_members hv hmember
            exact ih hnumbers (by omega) (by omega)
          rw [decodeWithin, trimSpace_eq (trimmed_encode (v := .object members) hv)]
          rw [encode_object] at hread ⊢
          exact congrArg (Option.map JsonValue.object) hread
      | array items =>
          simp only [wellNumbered, depth] at hv hdepth hlevels
          have hread := unmarshalRaws_encode hv hdepth
          have hitems := mapM_decode fun item hitem => by
            obtain ⟨hnumbers, hless⟩ := mem_items hv hitem
            exact ih hnumbers (by omega) (by omega)
          rw [decodeWithin, trimSpace_eq (trimmed_encode (v := .array items) hv)]
          rw [encode_array] at hread ⊢
          change (unmarshalRaws limit _ >>= fun raws =>
            (raws.mapM (decodeWithin limit levels)).map JsonValue.array) = _
          rw [hread]
          simp only [Option.bind_eq_bind, Option.bind_some, hitems]
          rfl
      | _ => exact decodeWithin_scalar rfl hv levels

end

end Jsonx
