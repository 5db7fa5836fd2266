import ControlTranslation.JoinRecords

/-!
# JSON pointers

Two resolvers follow a pointer into a document: the one for content inside a result, and
the one for objects of the workflow lab.  Both split at the slashes, decode the escapes
and index with what `int` makes of a token where they meet a list.  That is more than the
standard allows: `int` reads signs, blanks, underscores, leading zeros and the digits of
other scripts, a negative number counts from the end, and a stray tilde stands for
itself; and one resolver does not ask for the leading slash.
-/

namespace JsonPointer

open PyText JsonValue SharedContracts

/-- A token, decoded; a tilde stands before `0` or `1` only. -/
def decodeToken : Str → Option Str
  | [] => some []
  | [c] => if c = '~' then none else some [c]
  | c :: d :: rest =>
      if c = '~' then
        if d = '0' then (decodeToken rest).map ('~' :: ·)
        else if d = '1' then (decodeToken rest).map ('/' :: ·)
        else none
      else (decodeToken (d :: rest)).map (c :: ·)

/-- The value of ASCII digits. -/
def digitsValue (digits : Str) : Nat := digits.foldl (fun n c => 10 * n + (c.toNat - 48)) 0

/-- Digits without a leading zero, or a single zero. -/
def isArrayIndex (name : Str) : Bool :=
  name == ['0'] || (name.all Char.isDigit && name != [] && name.head? != some '0')

/-- What a token names in a value. -/
def child (value : JsonValue) (token : Str) : Option JsonValue :=
  (decodeToken token).bind fun name =>
    match value with
    | .array items => if isArrayIndex name then items[digitsValue name]? else none
    | .object members => if hasKey members name then some (get members name) else none
    | .null => none
    | .bool _ => none
    | .number _ => none
    | .text _ => none

/-- Follow the tokens. -/
def evaluate : JsonValue → List Str → Option JsonValue
  | value, [] => some value
  | value, token :: rest => (child value token).bind fun found => evaluate found rest

/-- What a pointer refers to under RFC 6901: the whole document, or what follows the
tokens behind its slashes. -/
def referenced (document : JsonValue) (pointer : Str) : Option JsonValue :=
  if pointer = [] then some document
  else if pointer.head? = some '/' then evaluate document (pointer.tail.splitOn '/')
  else none

/-- `str.replace` of two characters by one. -/
def replacePair (first second new : Char) : Str → Str
  | [] => []
  | [c] => [c]
  | c :: d :: rest =>
      if c = first ∧ d = second then new :: replacePair first second new rest
      else c :: replacePair first second new (d :: rest)

/-- `raw_token.replace("~1", "/").replace("~0", "~")`. -/
def unescape (token : Str) : Str := replacePair '~' '0' '~' (replacePair '~' '1' '/' token)

section

variable (t : CharTables)

/-- The digits of an integer; single underscores may stand between them. -/
def readDigits : Str → Option (List Nat)
  | [] => none
  | [c] => (t.decimal c).map fun n => [n]
  | c :: d :: rest =>
      (t.decimal c).bind fun n =>
        (if d = '_' then readDigits rest else readDigits (d :: rest)).map (n :: ·)

/-- The most digits `int` reads. -/
def maxStrDigits : Nat := 4300

/-- A run of digits as a number, refused past the digit limit. -/
def readNat (s : Str) : Option Nat :=
  (readDigits t s).bind fun digits =>
    if maxStrDigits < digits.length then none
    else some (digits.foldl (fun n d => 10 * n + d) 0)

/-- White space to `int`; the separators U+001C to U+001F, which `str.strip` drops, are none. -/
def isIntSpace (c : Char) : Bool := isSpace c && !(28 ≤ c.toNat && c.toNat ≤ 31)

/-- `int(token)`. -/
def readInt (token : Str) : Option Int :=
  let body := (token.dropWhile isIntSpace).rdropWhile isIntSpace
  if body.head? = some '-' then (readNat t body.tail).map fun n => -(n : Int)
  else if body.head? = some '+' then (readNat t body.tail).map fun n => (n : Int)
  else (readNat t body).map fun n => (n : Int)

/-- `items[index]`: a negative index counts from the end. -/
def listItem (items : List JsonValue) (index : Int) : Option JsonValue :=
  let position := if index < 0 then index + items.length else index
  if position < 0 then none else items[position.toNat]?

/-- `current[int(token)] if isinstance(current, list) else current[token]`. -/
def subscript (current : JsonValue) (token : Str) : Option JsonValue :=
  match current with
  | .array items => (readInt t token).bind (listItem items)
  | .object members => if hasKey members token then some (get members token) else none
  | .null => none
  | .bool _ => none
  | .number _ => none
  | .text _ => none

/-- The loop of both resolvers. -/
def walk : JsonValue → List Str → Option JsonValue
  | current, [] => some current
  | current, token :: rest =>
      (subscript t current (unescape token)).bind fun found => walk found rest

/-- Where `_resolve_result_internal_content` arrives. -/
def internalValue (enclosing : JsonValue) (pointer : Str) : Option JsonValue :=
  if pointer.head? = some '/' then walk t enclosing (pointer.tail.splitOn '/') else none

/-- Where `WorkflowLabClient.resolve` arrives. -/
def labValue (document : JsonValue) (pointer : Str) : Option JsonValue :=
  if pointer = [] then some document
  else walk t document ((removePrefix '/' pointer).splitOn '/')

end

/-- `_resolve_result_internal_content`: the bytes a locator of an artifact names inside
its result. -/
def resolveResultInternalContent (s : JoinServices) (enclosing locator : Members) :
    Checked Bytes := do
  let invalid := fun (detail : String) =>
    (refuse "result-internal-locator-invalid" detail.toList : Checked JsonValue)
  let prefixText := "janus-result-internal:".toList
  match (field locator "uri").asText.filter fun uri => prefixText.isPrefixOf uri with
  | none =>
      refuse "result-internal-locator-invalid"
        "CG artifact locator is not result-internal".toList
  | some uri => do
      let named := uri.drop prefixText.length
      let (identity, pointer) := partition '#' named
      raiseIf [!named.contains '#', !hasText (field enclosing "result_id") (s.unquote identity),
          pointer.head? != some '/'] "result-internal-locator-invalid"
        "CG artifact locator identity or pointer differs".toList
      let current ← match internalValue s.tables (.object enclosing) pointer with
        | some found => pure found
        | none => invalid "CG artifact locator does not resolve exactly"
      let content ← match current with
        | .text written => pure written
        | value => canonicalText s.toServices value
      let raw := encodeText content
      raiseIf [!isTrue (field locator "immutable"),
          !equal s.toServices (field locator "byte_length") (natNumber raw.length),
          !hasText (field locator "digest") (digestBytes s.toServices raw)]
        "result-internal-locator-integrity-failed" "CG artifact locator bytes differ".toList
      return raw

section

variable {t : CharTables}

theorem replacePair_cons {first second new c : Char} (h : c ≠ first) (s : Str) :
    replacePair first second new (c :: s) = c :: replacePair first second new s := by
  cases s with
  | nil => rfl
  | cons d rest => rw [replacePair, if_neg fun hpair => h hpair.1]

/-- Another character is left alone by unescaping. -/
theorem unescape_cons {c : Char} (h : c ≠ '~') (s : Str) : unescape (c :: s) = c :: unescape s := by
  unfold unescape
  rw [replacePair_cons h, replacePair_cons h]

/-- A token the standard reads decodes alike. -/
theorem unescape_of_decodeToken {token name : Str} (h : decodeToken token = some name) :
    unescape token = name := by
  fun_induction decodeToken token generalizing name with
  | case1 => exact Option.some.inj h
  | case2 => cases h
  | case3 c hc => exact Option.some.inj h
  | case4 rest ih =>
      obtain ⟨decoded, hdecoded, rfl⟩ := Option.map_eq_some_iff.mp h
      have hzero : ('0' : Char) ≠ '~' := by decide
      rw [← ih hdecoded]
      unfold unescape
      rw [replacePair, if_neg fun hpair => absurd hpair.2 (by decide), replacePair_cons hzero,
        replacePair, if_pos ⟨rfl, rfl⟩]
  | case5 rest hzero ih =>
      obtain ⟨decoded, hdecoded, rfl⟩ := Option.map_eq_some_iff.mp h
      have hslash : ('/' : Char) ≠ '~' := by decide
      rw [← ih hdecoded]
      unfold unescape
      rw [replacePair, if_pos ⟨rfl, rfl⟩, replacePair_cons hslash]
  | case6 => cases h
  | case7 c d rest hc ih =>
      obtain ⟨decoded, hdecoded, rfl⟩ := Option.map_eq_some_iff.mp h
      rw [unescape_cons hc, ih hdecoded]

theorem isDigit_bounds {c : Char} (h : c.isDigit = true) : 48 ≤ c.toNat ∧ c.toNat ≤ 57 :=
  Char.isDigit_iff_toNat.mp h

theorem decimal_of_isDigit {c : Char} (h : c.isDigit = true) :
    t.decimal c = some (c.toNat - 48) := by
  have hascii : c.toNat < 128 := by
    have hbound := (isDigit_bounds h).2
    omega
  rw [t.decimal_ascii c hascii, if_pos h]

/-- ASCII digits are read one by one. -/
theorem readDigits_of_isDigit {digits : Str} (hne : digits ≠ [])
    (h : ∀ c ∈ digits, c.isDigit = true) :
    readDigits t digits = some (digits.map fun c => c.toNat - 48) := by
  induction digits with
  | nil => exact absurd rfl hne
  | cons c rest ih =>
      have hfirst := @decimal_of_isDigit t c (h c List.mem_cons_self)
      cases rest with
      | nil => rw [readDigits, hfirst, List.map_singleton, Option.map_some]
      | cons d rest =>
          have hnext : d ≠ '_' := by
            intro heq
            have hdigit := h d (List.mem_cons_of_mem c List.mem_cons_self)
            rw [heq] at hdigit
            exact absurd hdigit (by decide)
          rw [readDigits, hfirst, Option.bind_some, if_neg hnext,
            ih (List.cons_ne_nil d rest) fun e he => h e (List.mem_cons_of_mem c he)]
          rfl

/-- The characters of an array index. -/
theorem isDigit_of_isArrayIndex {name : Str} (h : isArrayIndex name = true) :
    name ≠ [] ∧ ∀ c ∈ name, c.isDigit = true := by
  unfold isArrayIndex at h
  rcases Bool.or_eq_true_iff.mp h with hzero | hdigits
  · rw [eq_of_beq hzero]
    refine ⟨List.cons_ne_nil _ _, fun c hc => ?_⟩
    rw [List.mem_singleton.mp hc]
    rfl
  · simp only [Bool.and_eq_true, List.all_eq_true, bne_iff_ne] at hdigits
    exact ⟨hdigits.1.2, hdigits.1.1⟩

theorem intBody_of_isDigit {s : Str} (h : ∀ c ∈ s, c.isDigit = true) :
    (s.dropWhile isIntSpace).rdropWhile isIntSpace = s := by
  have hkept : ∀ c ∈ s, ¬ isIntSpace c = true := by
    intro c hc hspace
    have hdigit := isDigit_bounds (h c hc)
    unfold isIntSpace isSpace at hspace
    simp at hspace
    omega
  have hleft : s.dropWhile isIntSpace = s := by
    cases s with
    | nil => rfl
    | cons c rest => rw [List.dropWhile_cons_of_neg (hkept c List.mem_cons_self)]
  rw [hleft]
  exact List.rdropWhile_eq_self_iff.mpr fun hne => hkept _ (List.getLast_mem hne)

/-- `int` reads an array index as the number it is, or not at all. -/
theorem readInt_of_isArrayIndex {name : Str} (h : isArrayIndex name = true) :
    readInt t name = none ∨ readInt t name = some (digitsValue name : Int) := by
  obtain ⟨hne, hdigits⟩ := isDigit_of_isArrayIndex h
  have hsign : ∀ c, c.isDigit = false → name.head? ≠ some c := by
    intro c hc heq
    have hdigit := hdigits c (List.mem_of_mem_head? heq)
    rw [hc] at hdigit
    cases hdigit
  have hvalue : (name.map fun c => c.toNat - 48).foldl (fun n d => 10 * n + d) 0 =
      digitsValue name := by
    unfold digitsValue
    rw [List.foldl_map]
  unfold readInt
  dsimp only
  rw [intBody_of_isDigit hdigits, if_neg (hsign '-' (by decide)), if_neg (hsign '+' (by decide))]
  unfold readNat
  rw [readDigits_of_isDigit hne hdigits, Option.bind_some, hvalue]
  split_ifs
  · exact .inl rfl
  · exact .inr rfl

/-- A token the standard reads where it is used: its escapes are the two there are, and
before a list it is an array index. -/
def PlainToken (value : JsonValue) (token : Str) : Prop :=
  ∃ name, decodeToken token = some name ∧
    ∀ items, value = .array items → isArrayIndex name = true

/-- A token that selects a child is a plain one for it. -/
theorem plainToken_of_child {value found : JsonValue} {token : Str}
    (h : child value token = some found) : PlainToken value token := by
  obtain ⟨name, hname, hfound⟩ := Option.bind_eq_some_iff.mp h
  refine ⟨name, hname, ?_⟩
  rintro items rfl
  dsimp only at hfound
  split_ifs at hfound with hindex
  exact hindex

/-- **One token.**  Where the standard reads a token, a resolver goes where it goes. -/
theorem child_of_subscript {value found : JsonValue} {token : Str} (hplain : PlainToken value token)
    (h : subscript t value (unescape token) = some found) : child value token = some found := by
  obtain ⟨name, hname, hindex⟩ := hplain
  rw [unescape_of_decodeToken hname] at h
  unfold child
  rw [hname, Option.bind_some]
  cases value with
  | array items =>
      have hread := hindex items rfl
      dsimp only
      rw [if_pos hread]
      rcases @readInt_of_isArrayIndex t name hread with hnone | hsome
      · rw [subscript, hnone] at h
        cases h
      · rw [subscript, hsome, Option.bind_some] at h
        have hposition : ¬ (digitsValue name : Int) < 0 := by omega
        unfold listItem at h
        dsimp only at h
        rw [if_neg hposition, if_neg hposition, Int.toNat_natCast] at h
        exact h
  | object members => exact h
  | null => cases h
  | bool b => cases h
  | number literal => cases h
  | text s => cases h

/-- Some token on the way names nothing. -/
def DeadEnd (t : CharTables) : JsonValue → List Str → Prop
  | _, [] => False
  | value, token :: rest =>
      subscript t value (unescape token) = none ∨
        ∃ found, subscript t value (unescape token) = some found ∧ DeadEnd t found rest

/-- Every token on the way is one the standard reads there. -/
def Plain (t : CharTables) : JsonValue → List Str → Prop
  | _, [] => True
  | value, token :: rest =>
      PlainToken value token ∧
        ∀ found, subscript t value (unescape token) = some found → Plain t found rest

theorem deadEnd_iff {value : JsonValue} {tokens : List Str} :
    DeadEnd t value tokens ↔ walk t value tokens = none := by
  induction tokens generalizing value with
  | nil => exact ⟨False.elim, nofun⟩
  | cons token rest ih =>
      rw [DeadEnd, walk, Option.bind_eq_none_iff]
      constructor
      · rintro (hnone | ⟨found, hfound, hdead⟩) other hother
        · rw [hnone] at hother
          cases hother
        · obtain rfl := Option.some.inj (hfound.symm.trans hother)
          exact ih.mp hdead
      · intro h
        cases hfound : subscript t value (unescape token) with
        | none => exact .inl rfl
        | some found => exact .inr ⟨found, rfl, ih.mpr (h found hfound)⟩

/-- **A path.**  Where a resolver arrives, the standard arrives there too exactly when it
reads every token on the way. -/
theorem evaluate_of_walk {value found : JsonValue} {tokens : List Str}
    (h : walk t value tokens = some found) :
    evaluate value tokens = some found ↔ Plain t value tokens := by
  induction tokens generalizing value with
  | nil => exact ⟨fun _ => trivial, fun _ => h⟩
  | cons token rest ih =>
      obtain ⟨next, hnext, hrest⟩ := Option.bind_eq_some_iff.mp h
      rw [evaluate, Plain]
      constructor
      · intro hevaluated
        obtain ⟨other, hother, hlater⟩ := Option.bind_eq_some_iff.mp hevaluated
        have hplain := plainToken_of_child hother
        refine ⟨hplain, fun found' hfound' => ?_⟩
        obtain rfl := Option.some.inj (hnext.symm.trans hfound')
        obtain rfl := Option.some.inj (hother.symm.trans (child_of_subscript hplain hnext))
        exact (ih hrest).mp hlater
      · rintro ⟨hplain, hlater⟩
        rw [child_of_subscript hplain hnext, Option.bind_some]
        exact (ih hrest).mpr (hlater next hnext)

/-- The walk agrees with the standard at a dead end and on plain tokens. -/
theorem walk_agrees_iff {value : JsonValue} {tokens : List Str} :
    (∀ found, walk t value tokens = some found → evaluate value tokens = some found) ↔
      DeadEnd t value tokens ∨ Plain t value tokens := by
  constructor
  · intro h
    cases hwalk : walk t value tokens with
    | none => exact .inl (deadEnd_iff.mpr hwalk)
    | some found => exact .inr ((evaluate_of_walk hwalk).mp (h found hwalk))
  · rintro (hdead | hplain) found hfound
    · rw [deadEnd_iff.mp hdead] at hfound
      cases hfound
    · exact (evaluate_of_walk hfound).mpr hplain

/-- The resolvers and the standard on a pointer with a slash in front. -/
theorem resolvers_slash (t : CharTables) (document : JsonValue) (rest : Str) :
    internalValue t document ('/' :: rest) = walk t document (rest.splitOn '/') ∧
      labValue t document ('/' :: rest) = walk t document (rest.splitOn '/') ∧
      referenced document ('/' :: rest) = evaluate document (rest.splitOn '/') := by
  unfold internalValue labValue referenced
  rw [if_pos List.head?_cons, if_neg (List.cons_ne_nil _ _), if_neg (List.cons_ne_nil _ _),
    if_pos List.head?_cons, List.tail_cons, removePrefix, if_pos rfl]
  exact ⟨rfl, rfl, rfl⟩

/-- On any other pointer that is not empty. -/
theorem resolvers_other (t : CharTables) (document : JsonValue) {c : Char} (h : c ≠ '/')
    (rest : Str) :
    internalValue t document (c :: rest) = none ∧
      labValue t document (c :: rest) = walk t document ((c :: rest).splitOn '/') ∧
      referenced document (c :: rest) = none := by
  have hhead : ¬ (c :: rest).head? = some '/' := fun heq => h (Option.some.inj heq)
  unfold internalValue labValue referenced
  rw [if_neg hhead, if_neg (List.cons_ne_nil _ _), if_neg (List.cons_ne_nil _ _), if_neg hhead,
    removePrefix, if_neg h]
  exact ⟨rfl, rfl, rfl⟩

/-- **Pointers.**  The resolver for content inside a result arrives only where the
standard does exactly when the pointer leads nowhere or the standard reads each of its
tokens; so does the other, for pointers that begin with a slash; and the two never
arrive at different values. -/
theorem pointers_resolved (t : CharTables) (document : JsonValue) (pointer : Str) :
    ((∀ found, internalValue t document pointer = some found →
        referenced document pointer = some found) ↔
      (pointer.head? = some '/' → DeadEnd t document (pointer.tail.splitOn '/') ∨
        Plain t document (pointer.tail.splitOn '/'))) ∧
    ((∀ found, labValue t document pointer = some found →
        referenced document pointer = some found) ↔
      (pointer ≠ [] → DeadEnd t document ((removePrefix '/' pointer).splitOn '/') ∨
        (pointer.head? = some '/' ∧ Plain t document ((removePrefix '/' pointer).splitOn '/')))) ∧
    ∀ found found', internalValue t document pointer = some found →
      labValue t document pointer = some found' → found = found' := by
  cases pointer with
  | nil =>
      refine ⟨⟨fun _ hslash => (by cases hslash), fun _ found hfound => (by cases hfound)⟩,
        ⟨fun _ hne => absurd rfl hne, fun _ found hfound => hfound⟩,
        fun found found' hfound _ => (by cases hfound)⟩
  | cons c rest =>
      by_cases hslash : c = '/'
      · subst hslash
        obtain ⟨hinternal, hlab, hstandard⟩ := resolvers_slash t document rest
        have hdropped : removePrefix '/' ('/' :: rest) = rest := by rw [removePrefix, if_pos rfl]
        rw [hinternal, hlab, hstandard, hdropped, List.tail_cons]
        refine ⟨walk_agrees_iff.trans ⟨fun h _ => h, fun h => h rfl⟩,
          walk_agrees_iff.trans ⟨fun h _ => h.imp_right fun hplain => ⟨rfl, hplain⟩,
            fun h => (h (List.cons_ne_nil _ _)).imp_right And.right⟩, ?_⟩
        intro found found' hfound hfound'
        exact Option.some.inj (hfound.symm.trans hfound')
      · obtain ⟨hinternal, hlab, hstandard⟩ := resolvers_other t document hslash rest
        have hhead : (c :: rest).head? ≠ some '/' := fun heq => hslash (Option.some.inj heq)
        have hdropped : removePrefix '/' (c :: rest) = c :: rest := by
          rw [removePrefix, if_neg hslash]
        rw [hinternal, hlab, hstandard, hdropped]
        refine ⟨⟨fun _ hbegins => absurd hbegins hhead, fun _ found hfound => (by cases hfound)⟩,
          ⟨fun h _ => .inl ?_, fun h found hfound => ?_⟩,
          fun found found' hfound _ => (by cases hfound)⟩
        · rw [deadEnd_iff]
          cases hwalk : walk t document ((c :: rest).splitOn '/') with
          | none => rfl
          | some found => cases h found hwalk
        · rcases h (List.cons_ne_nil _ _) with hdead | hbegins
          · rw [deadEnd_iff.mp hdead] at hfound
            cases hfound
          · exact absurd hbegins.1 hhead

end

/-- A negative index counts from the end, and a pointer needs no slash in the workflow
lab; the standard reads neither. -/
theorem pointers_resolved_negative :
    (internalValue asciiTables (.object [(['a'], .array [.null, .bool true])])
        ['/', 'a', '/', '-', '1'] = some (.bool true) ∧
      referenced (.object [(['a'], .array [.null, .bool true])]) ['/', 'a', '/', '-', '1'] =
        none) ∧
    labValue asciiTables (.object [(['a'], .null)]) ['a'] = some .null ∧
      referenced (.object [(['a'], .null)]) ['a'] = none :=
  ⟨⟨rfl, rfl⟩, rfl, rfl⟩

end JsonPointer
