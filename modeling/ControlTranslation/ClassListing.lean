import ControlTranslation.FaithfulSource

/-!
# Listed character classes

The translator lists the members of a small bracket expression with a scanner
of its own; the reference reads the same text in two passes, first into lexical
units and then into ranges.  Where no range has an escaped end, the two agree
on every character, up to letter case.
-/

namespace ModSecurity

open PyText Pcre Glob

/-- ASCII letters and digits are alphanumeric in every Unicode table. -/
theorem isalnum_of_isAlphanum (t : CharTables) {c : Char} (h : c.isAlphanum = true) :
    t.isalnum c = true := by
  have hlt : c.toNat < 128 := by
    have hranges : (decide ('A'.val ≤ c.val ∧ c.val ≤ 'Z'.val) ||
        (decide ('a'.val ≤ c.val) && decide (c.val ≤ 'z'.val)) ||
        (decide ('0'.val ≤ c.val) && decide (c.val ≤ '9'.val))) = true := h
    simp only [UInt32.le_iff_toNat_le, Bool.or_eq_true, Bool.and_eq_true,
      decide_eq_true_eq, Char.reduceVal, UInt32.reduceToNat, Char.toNat_val] at hranges
    omega
  rw [t.isalnum_ascii c hlt, h]

theorem toNat_ofNat {n : Nat} (h : n.isValidChar) : (Char.ofNat n).toNat = n := by
  rw [Char.ofNat, dif_pos h]
  rfl

/-- The members of a short range are the characters between its ends. -/
theorem mem_charRange {lo hi c : Char} (hle : lo.toNat ≤ hi.toNat)
    (hshort : hi.toNat - lo.toNat < maxClassMembers) :
    c ∈ charRange lo hi ↔ lo ≤ c ∧ c ≤ hi := by
  have hle' : ∀ a b : Char, a ≤ b ↔ a.toNat ≤ b.toNat := fun a b => by
    rw [Char.le_def, UInt32.le_iff_toNat_le]
    rfl
  have hmax : maxClassMembers = 8 := rfl
  simp only [charRange, List.mem_map, List.mem_range, hle']
  constructor
  · rintro ⟨k, hk, rfl⟩
    -- A gap of code points is wider than a listed range.
    have hvalid : (lo.toNat + k).isValidChar := by
      have hlo := lo.valid
      have hhi := hi.valid
      have e₁ : lo.toNat = lo.val.toNat := rfl
      have e₂ : hi.toNat = hi.val.toNat := rfl
      simp only [UInt32.isValidChar, Nat.isValidChar] at hlo hhi ⊢
      omega
    rw [toNat_ofNat hvalid]
    omega
  · rintro ⟨h₁, h₂⟩
    refine ⟨c.toNat - lo.toNat, by omega, ?_⟩
    rw [Nat.add_sub_cancel' h₁, Char.ofNat_toNat]

/-- A range accepts the characters that compare equal to one of its members. -/
theorem range_mem_iff {ci escaped : Bool} {lo hi c : Char} :
    ClassItem.mem ci (.range lo hi escaped) c = true ↔
      ∃ m, (lo ≤ m ∧ m ≤ hi) ∧ sameChar ci m c = true := by
  simp only [ClassItem.mem, ClassItem.mem.inRange, Bool.or_eq_true, Bool.and_eq_true,
    decide_eq_true_eq]
  cases ci with
  | false =>
      simp only [sameChar, Bool.false_eq_true, false_and, or_false, if_false, beq_iff_eq]
      constructor
      · intro h
        exact ⟨c, h, rfl⟩
      · rintro ⟨m, h, rfl⟩
        exact h
  | true =>
      simp only [sameChar, true_and, if_true, beq_iff_eq]
      constructor
      · rintro (h | h | h)
        · exact ⟨c, h, rfl⟩
        · exact ⟨c.toLower, h, toLower_toLower c⟩
        · exact ⟨c.toUpper, h, toLower_toUpper c⟩
      · rintro ⟨m, h, hm⟩
        rcases eq_of_toLower_eq hm with rfl | rfl | rfl
        · exact Or.inl h
        · exact Or.inr (Or.inl h)
        · exact Or.inr (Or.inr h)

/-- Some listed member compares equal to a character. -/
def listed (ci : Bool) (members : List Char) (c : Char) : Prop :=
  ∃ m ∈ members, sameChar ci m c = true

/-- Some item accepts a character. -/
def accepted (ci : Bool) (items : List ClassItem) (c : Char) : Prop :=
  ∃ i ∈ items, i.mem ci c = true

/-- The items of a class body, none of them a range with an escaped end. -/
def PlainItems (body : Str) (items : List ClassItem) : Prop :=
  classItems body = some items ∧ plainRanges (some items) = true

/-- The item of a lexical unit standing alone. -/
def tokenItem : ClassToken → ClassItem
  | .char c _ => .char c
  | .set letter => .shorthand letter

theorem plainRanges_cons {i : ClassItem} {items : List ClassItem}
    (h : plainRanges (some (i :: items)) = true) : plainRanges (some items) = true := by
  simp only [plainRanges, List.all_cons, Bool.and_eq_true] at h ⊢
  exact h.2

/-- A unit that begins no range is an item of its own. -/
theorem classRanges_single {tok : ClassToken} {toks : List ClassToken}
    {items : List ClassItem} (h : classRanges (tok :: toks) = some items)
    (hplain : plainRanges (some items) = true)
    (hsingle : ∀ c x rest, tok = .char c false → toks ≠ .char '-' false :: x :: rest) :
    ∃ items', classRanges toks = some items' ∧ items = tokenItem tok :: items' := by
  unfold classRanges at h
  split at h
  · cases ‹_ = []›
  · rename_i heq
    obtain ⟨rfl, rfl⟩ := List.cons.inj heq
    obtain ⟨items', hitems', rfl⟩ := Option.map_eq_some_iff.mp h
    exact ⟨items', hitems', rfl⟩
  · rename_i lo e hi e' rest heq
    obtain ⟨rfl, rfl⟩ := List.cons.inj heq
    cases e with
    | false => exact absurd rfl (hsingle lo _ _ rfl)
    | true =>
        obtain ⟨items', -, rfl⟩ := Option.map_eq_some_iff.mp h
        simp [plainRanges] at hplain
  · cases h
  · rename_i heq
    obtain ⟨rfl, rfl⟩ := List.cons.inj heq
    obtain ⟨items', hitems', rfl⟩ := Option.map_eq_some_iff.mp h
    exact ⟨items', hitems', rfl⟩

theorem plainItems_nil {items : List ClassItem} (h : PlainItems [] items) : items = [] := by
  have := h.1
  simpa [classItems, classTokens, classRanges] using this.symm

/-- A unit written with a backslash is marked as escaped. -/
theorem classEscape_escaped {f c : Char} {e : Bool}
    (h : classEscape f = some (.char c e)) : e = true := by
  simp only [classEscape] at h
  split at h
  · simpa using (ClassToken.char.inj (Option.some.inj h)).2.symm
  · split at h
    · exact (ClassToken.char.inj (Option.some.inj h)).2.symm
    · split at h
      · cases h
      · split at h
        · cases h
        · exact (ClassToken.char.inj (Option.some.inj h)).2.symm

theorem classTokens_escape {f : Char} {rest : Str} {toks : List ClassToken}
    (h : classTokens ('\\' :: f :: rest) = some toks) :
    ∃ tok toks', classEscape f = some tok ∧ classTokens rest = some toks' ∧
      toks = tok :: toks' := by
  simp only [classTokens, if_true] at h
  cases htok : classEscape f with
  | none => simp [htok] at h
  | some tok =>
      rw [htok] at h
      obtain ⟨toks', htoks', rfl⟩ := Option.map_eq_some_iff.mp h
      exact ⟨tok, toks', rfl, htoks', rfl⟩

theorem classTokens_cons {c : Char} {rest : Str} {toks : List ClassToken}
    (hc : c ≠ '\\') (h : classTokens (c :: rest) = some toks) :
    ∃ toks', classTokens rest = some toks' ∧ toks = .char c false :: toks' := by
  rw [classTokens.eq_def] at h
  simp only [if_neg hc] at h
  split at h
  · cases h
  · obtain ⟨toks', htoks', rfl⟩ := Option.map_eq_some_iff.mp h
    exact ⟨toks', htoks', rfl⟩

/-- The units of a text that does not begin with a literal hyphen and more. -/
theorem classTokens_hyphen {rest : Str} {toks : List ClassToken}
    (h : classTokens rest = some toks)
    (hrest : ∀ stop rest', rest ≠ '-' :: stop :: rest') :
    ∀ x toks', toks ≠ .char '-' false :: x :: toks' := by
  rintro x toks' rfl
  cases rest with
  | nil => simp [classTokens] at h
  | cons c rest =>
      by_cases hc : c = '\\'
      · subst hc
        cases rest with
        | nil => simp [classTokens] at h
        | cons f rest' =>
            obtain ⟨tok, toks, htok, -, heq⟩ := classTokens_escape h
            obtain ⟨rfl, -⟩ := List.cons.inj heq
            exact absurd (classEscape_escaped htok) (by decide)
      · obtain ⟨toks, htoks, heq⟩ := classTokens_cons hc h
        obtain ⟨hhyphen, rfl⟩ := List.cons.inj heq
        obtain rfl : c = '-' := by simpa using hhyphen.symm
        cases rest with
        | nil => simp [classTokens] at htoks
        | cons stop rest' => exact hrest stop rest' rfl

/-- What an escape at the head of a plain class reads as. -/
theorem plainItems_escape {f : Char} {rest : Str} {items : List ClassItem}
    (h : PlainItems ('\\' :: f :: rest) items) :
    ∃ tok items', classEscape f = some tok ∧ PlainItems rest items' ∧
      items = tokenItem tok :: items' := by
  obtain ⟨hitems, hplain⟩ := h
  obtain ⟨toks, htoks, hranges⟩ := Option.bind_eq_some_iff.mp hitems
  obtain ⟨tok, toks', htok, htoks', rfl⟩ := classTokens_escape htoks
  obtain ⟨items', hitems', rfl⟩ := classRanges_single hranges hplain fun c _ _ hc => by
    subst hc
    exact absurd (classEscape_escaped htok) (by decide)
  exact ⟨tok, items', htok, ⟨by simp [classItems, htoks', hitems'],
    plainRanges_cons hplain⟩, rfl⟩

/-- What a character at the head of a plain class reads as. -/
theorem plainItems_char {c : Char} {rest : Str} {items : List ClassItem}
    (hc : c ≠ '\\') (hrest : ∀ stop rest', rest ≠ '-' :: stop :: rest')
    (h : PlainItems (c :: rest) items) :
    ∃ items', PlainItems rest items' ∧ items = .char c :: items' := by
  obtain ⟨hitems, hplain⟩ := h
  obtain ⟨toks, htoks, hranges⟩ := Option.bind_eq_some_iff.mp hitems
  obtain ⟨toks', htoks', rfl⟩ := classTokens_cons hc htoks
  obtain ⟨items', hitems', rfl⟩ := classRanges_single hranges hplain
    fun _ x rest _ => classTokens_hyphen htoks' hrest x rest
  exact ⟨items', ⟨by simp [classItems, htoks', hitems'], plainRanges_cons hplain⟩, rfl⟩

/-- What a range at the head of a plain class reads as. -/
theorem plainItems_range {c stop : Char} {rest : Str} {items : List ClassItem}
    (hc : c ≠ '\\') (h : PlainItems (c :: '-' :: stop :: rest) items) :
    ∃ items', PlainItems rest items' ∧ items = .range c stop false :: items' := by
  obtain ⟨hitems, hplain⟩ := h
  obtain ⟨toks, htoks, hranges⟩ := Option.bind_eq_some_iff.mp hitems
  obtain ⟨toks₁, htoks₁, rfl⟩ := classTokens_cons hc htoks
  obtain ⟨toks₂, htoks₂, rfl⟩ := classTokens_cons (by decide) htoks₁
  by_cases hstop : stop = '\\'
  · -- The reference reads an escape here: a range with an escaped end, or none.
    subst hstop
    cases rest with
    | nil => simp [classTokens] at htoks₂
    | cons f rest' =>
        obtain ⟨tok, toks₃, htok, -, rfl⟩ := classTokens_escape htoks₂
        cases tok with
        | set letter => simp [classRanges] at hranges
        | char d e =>
            obtain rfl := classEscape_escaped htok
            simp only [classRanges] at hranges
            obtain ⟨items', -, rfl⟩ := Option.map_eq_some_iff.mp hranges
            simp [plainRanges] at hplain
  · obtain ⟨toks₃, htoks₃, rfl⟩ := classTokens_cons hstop htoks₂
    simp only [classRanges] at hranges
    obtain ⟨items', hitems', rfl⟩ := Option.map_eq_some_iff.mp hranges
    exact ⟨items', ⟨by simp [classItems, htoks₃, hitems'], plainRanges_cons hplain⟩, rfl⟩

/-- The character of an escape the translator lists. -/
theorem classEscape_of_literal {f member : Char} (h : escapeLiteral f = some member) :
    classEscape f = some (.char member true) ∨ f = 'v' ∧ member = '\x0b' := by
  unfold escapeLiteral at h
  split at h <;> cases h
  · exact Or.inl rfl
  · exact Or.inl rfl
  · exact Or.inl rfl
  · exact Or.inl rfl
  · exact Or.inr ⟨rfl, rfl⟩

/-- A character that is not alphanumeric has no special escape. -/
theorem plain_of_not_alnum (t : CharTables) {f : Char} (h : t.isalnum f = false) :
    controlEscape f = none ∧ isShorthand f = false ∧ f.isAlphanum = false ∧
      ∀ c : Char, c.isAlphanum = true → f ≠ c := by
  have hne : ∀ c : Char, c.isAlphanum = true → f ≠ c := by
    rintro c hc rfl
    rw [isalnum_of_isAlphanum t hc] at h
    cases h
  have hf : f.isAlphanum = false := by
    by_contra hf
    exact hne f (by simpa using hf) rfl
  refine ⟨?_, ?_, hf, hne⟩
  · unfold controlEscape
    split
    · exact absurd rfl (hne 'n' (by decide))
    · exact absurd rfl (hne 'r' (by decide))
    · exact absurd rfl (hne 't' (by decide))
    · exact absurd rfl (hne 'f' (by decide))
    · rfl
  · by_contra hset
    have hmem : f ∈ ['d', 'D', 'w', 'W', 's', 'S', 'h', 'H', 'v', 'V'] :=
      of_decide_eq_true (Bool.eq_true_of_not_eq_false hset)
    have : f.isAlphanum = true := by
      simp only [List.mem_cons, List.not_mem_nil, or_false] at hmem
      rcases hmem with rfl | rfl | rfl | rfl | rfl | rfl | rfl | rfl | rfl | rfl <;> decide
    rw [hf] at this
    cases this

/-- Inside a bracket expression such an escape stands for its character. -/
theorem classEscape_of_not_alnum (t : CharTables) {f : Char} (h : t.isalnum f = false) :
    classEscape f = some (.char f true) := by
  obtain ⟨hcontrol, hset, hf, hne⟩ := plain_of_not_alnum t h
  simp [classEscape, hcontrol, hset, hf, hne 'b' (by decide)]

theorem accepted_cons {ci : Bool} {i : ClassItem} {items : List ClassItem} {c : Char} :
    accepted ci (i :: items) c ↔ i.mem ci c = true ∨ accepted ci items c := by
  simp [accepted]

theorem listed_cons {ci : Bool} {m : Char} {members : List Char} {c : Char} :
    listed ci (m :: members) c ↔ sameChar ci m c = true ∨ listed ci members c := by
  simp [listed]

theorem listed_append {ci : Bool} {xs ys : List Char} {c : Char} :
    listed ci (xs ++ ys) c ↔ listed ci xs c ∨ listed ci ys c := by
  simp [listed, or_and_right, exists_or]

theorem plainMembers_cons {i : ClassItem} {items : List ClassItem}
    (h : plainMembers (some (i :: items)) = true) : plainMembers (some items) = true := by
  simp only [plainMembers, Option.getD_some, List.all_cons, Bool.and_eq_true] at h ⊢
  exact h.2

/-- The vertical tab is vertical whitespace. -/
theorem shorthandMem_v {ci : Bool} {c : Char} (h : sameChar ci '\x0b' c = true) :
    shorthandMem 'v' c = true := by
  have hc : c = '\x0b' := by
    cases ci with
    | false => exact (by simpa [sameChar] using h : '\x0b' = c).symm
    | true =>
        have h' : c.toLower.toNat = 11 := by
          have : ('\x0b' : Char).toLower = c.toLower := by simpa [sameChar] using h
          rw [← this]
          rfl
        rw [toNat_toLower] at h'
        rw [← Char.toNat_inj]
        change c.toNat = 11
        split_ifs at h' <;> omega
  rw [hc]
  decide

/-- **The two scanners agree.**  Every listed member is accepted, and when no
set is named nothing else is. -/
theorem listing_agrees (t : CharTables) (ci : Bool) (c : Char) {body : Str}
    {members : List Char} {items : List ClassItem}
    (hmembers : enumerateMembers t body = some members) (hitems : PlainItems body items) :
    (listed ci members c → accepted ci items c) ∧
      (plainMembers (some items) = true → accepted ci items c → listed ci members c) := by
  induction body using enumerateMembers.induct t generalizing members items with
  | case1 =>
      obtain rfl := plainItems_nil hitems
      simp [listed, accepted, (by simpa [enumerateMembers] using hmembers : [] = members).symm]
  | case2 => simp [enumerateMembers] at hmembers
  | case3 f rest halnum hnone => simp [enumerateMembers, halnum, hnone] at hmembers
  | case4 f rest halnum member hliteral ih =>
      simp only [enumerateMembers, halnum, if_true, hliteral] at hmembers
      obtain ⟨members', hmembers', rfl⟩ := Option.map_eq_some_iff.mp hmembers
      obtain ⟨tok, items', htok, hitems', rfl⟩ := plainItems_escape hitems
      obtain ⟨ihl, ihu⟩ := ih hmembers' hitems'
      rw [listed_cons, accepted_cons]
      rcases classEscape_of_literal hliteral with hchar | ⟨rfl, rfl⟩
      · obtain rfl : ClassToken.char member true = tok := by
          simpa [hchar] using htok
        exact ⟨Or.imp id ihl, fun hset => Or.imp id (ihu (plainMembers_cons hset))⟩
      · obtain rfl : ClassToken.set 'v' = tok := Option.some.inj htok
        refine ⟨Or.imp shorthandMem_v ihl, fun hset => ?_⟩
        simp [plainMembers, tokenItem] at hset
  | case5 f rest halnum ih =>
      have hf : t.isalnum f = false := by
        simp only [Bool.or_eq_true, not_or] at halnum
        simpa using halnum.2
      simp only [enumerateMembers, if_neg halnum] at hmembers
      obtain ⟨members', hmembers', rfl⟩ := Option.map_eq_some_iff.mp hmembers
      obtain ⟨tok, items', htok, hitems', rfl⟩ := plainItems_escape hitems
      obtain ⟨ihl, ihu⟩ := ih hmembers' hitems'
      obtain rfl : ClassToken.char f true = tok := by
        simpa [classEscape_of_not_alnum t hf] using htok
      rw [listed_cons, accepted_cons]
      exact ⟨Or.imp id ihl, fun hset => Or.imp id (ihu (plainMembers_cons hset))⟩
  | case6 lo stop rest hlo hwide =>
      rw [enumerateMembers, if_pos hwide] at hmembers
      · cases hmembers
      · exact hlo
  | case7 lo stop rest hlo hshort ih =>
      rw [enumerateMembers, if_neg hshort] at hmembers
      · obtain ⟨members', hmembers', rfl⟩ := Option.map_eq_some_iff.mp hmembers
        obtain ⟨items', hitems', rfl⟩ := plainItems_range hlo hitems
        obtain ⟨ihl, ihu⟩ := ih hmembers' hitems'
        have hrange : listed ci (charRange lo stop) c ↔
            ClassItem.mem ci (.range lo stop false) c = true := by
          rw [range_mem_iff, listed]
          simp only [mem_charRange (by omega : lo.toNat ≤ stop.toNat) (by omega)]
        rw [listed_append, accepted_cons, hrange]
        exact ⟨Or.imp id ihl, fun hset => Or.imp id (ihu (plainMembers_cons hset))⟩
      · exact hlo
  | case8 char rest hescape hescape' hrange ih =>
      have hchar : char ≠ '\\' := by
        rintro rfl
        cases rest with
        | nil => exact hescape rfl rfl
        | cons f rest' => exact hescape' f rest' rfl rfl
      rw [enumerateMembers] at hmembers
      · obtain ⟨members', hmembers', rfl⟩ := Option.map_eq_some_iff.mp hmembers
        obtain ⟨items', hitems', rfl⟩ :=
          plainItems_char hchar (fun stop rest' h => hrange stop rest' h) hitems
        obtain ⟨ihl, ihu⟩ := ih hmembers' hitems'
        rw [listed_cons, accepted_cons]
        exact ⟨Or.imp id ihl, fun hset => Or.imp id (ihu (plainMembers_cons hset))⟩
      all_goals assumption

/-- A class body that is listed has no quoting at its start. -/
theorem classBody_of_listed (t : CharTables) {body : Str} {members : List Char}
    (h : enumerateMembers t body = some members) (hneg : body.head? ≠ some '^') :
    classBody body = (false, body) := by
  have hdrop : dropQuoteEnds body = body := by
    cases body with
    | nil => rfl
    | cons c rest =>
        rw [dropQuoteEnds.eq_def]
        simp only
        split
        · rename_i hc
          subst hc
          -- `\E` and `\Q` are alphanumeric escapes without a literal.
          have hnone : ∀ f rest', f.isAlphanum = true → escapeLiteral f = none →
              rest ≠ f :: rest' := by
            rintro f rest' hf hnone rfl
            rw [enumerateMembers, isalnum_of_isAlphanum t hf, Bool.or_true, if_pos rfl,
              hnone] at h
            cases h
          split
          · exact absurd rfl (hnone 'E' _ (by decide) (by decide))
          · exact absurd rfl (hnone 'Q' _ (by decide) (by decide))
          · rfl
        · rfl
  simp [classBody, hdrop, hneg]

/-- The members the translator lists against those of the bracket expression. -/
theorem listsClass_agrees (t : CharTables) (env : Env) (c : Char) {raw : Str}
    {members : List Char} (hmembers : listsClass t raw = some members)
    (hplain : plainRanges (classItems (classBody raw).2) = true) :
    (listed env.caseInsensitive members c →
        bracketMem env raw (classBody raw).1 (classItems (classBody raw).2) c = true) ∧
      (plainMembers (classItems (classBody raw).2) = true →
        bracketMem env raw (classBody raw).1 (classItems (classBody raw).2) c = true →
        listed env.caseInsensitive members c) := by
  simp only [listsClass] at hmembers
  split at hmembers
  · cases hmembers
  · rename_i hraw
    split at hmembers
    · cases hmembers
    · rename_i all hall
      split at hmembers
      · cases hmembers
      · obtain rfl := Option.some.inj hmembers
        simp only [enumerateClass] at hall
        split at hall
        · cases hall
        · rename_i found hfound
          split at hall
          · cases hall
          · obtain rfl := Option.some.inj hall
            rw [classBody_of_listed t hfound (fun h => hraw (Or.inl h))] at hplain ⊢
            cases hitems : classItems raw with
            | none => simp [hitems, plainRanges] at hplain
            | some items =>
                rw [hitems] at hplain
                have hlisted : listed env.caseInsensitive (unique found) c ↔
                    listed env.caseInsensitive found c := by
                  simp [listed]
                have haccepted :
                    bracketMem env raw false (some items) c = true ↔
                      accepted env.caseInsensitive items c := by
                  simp [bracketMem, accepted]
                rw [hlisted, haccepted]
                exact listing_agrees t _ c hfound ⟨hitems, hplain⟩

end ModSecurity
