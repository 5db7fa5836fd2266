import ControlTranslation.SecRule

/-!
# Quoted tokens

A token of any characters is written between double quotes, with a backslash before
every quote and every backslash.  The scanner treats just these two escapes, so what is
written is read back, whatever runs of backslashes a token has and however the tokens
are spaced.  On any text the scanner ends, since each of its rounds reads on, and the
only way it fails is a quote that is not closed.
-/

namespace ModSecurity

open PyText

/-- White space between tokens. -/
structure Gap where
  text : Str
  nonempty : text ≠ []
  blank : ∀ c ∈ text, isSpace c = true

/-- A character of a quoted token. -/
def escapeQuoted (c : Char) : Str := if c = '"' ∨ c = '\\' then ['\\', c] else [c]

/-- A token between quotes. -/
def quoteToken (token : Str) : Str := '"' :: token.flatMap escapeQuoted ++ ['"']

/-- Tokens, each behind its white space. -/
def writeTokens (words : List (Gap × Str)) : Str :=
  words.flatMap fun word => word.1.text ++ quoteToken word.2

/-- A directive of quoted tokens; only one without tokens has need of white space at its
end. -/
def writeDirective (words : List (Gap × Str)) (trailing : Option Gap) : Str :=
  "SecRule".toList ++ writeTokens words ++ (trailing.map (·.text)).getD []

/-- White space between tokens is passed over. -/
theorem tokenizeFrom_blank {blank : Str} (h : ∀ c ∈ blank, isSpace c = true) (s : Str) :
    tokenizeFrom .between (blank ++ s) = tokenizeFrom .between s := by
  induction blank with
  | nil => rfl
  | cons c rest ih =>
      rw [List.cons_append, tokenizeFrom, if_pos (h c List.mem_cons_self)]
      exact ih fun d hd => h d (List.mem_cons_of_mem c hd)

/-- One written character is one character of the chunk. -/
theorem tokenizeFrom_escapeQuoted (chunk : Str) (c : Char) (s : Str) :
    tokenizeFrom (.quoted chunk) (escapeQuoted c ++ s) = tokenizeFrom (.quoted (c :: chunk)) s := by
  unfold escapeQuoted
  split_ifs with hescape
  · rw [List.cons_append, List.singleton_append, tokenizeFrom, if_pos hescape]
  · rw [not_or] at hescape
    rw [List.singleton_append, tokenizeFrom, if_neg hescape.1]
    · intro heq
      exact absurd heq hescape.2
    · intro _ _ heq
      exact absurd heq hescape.2

/-- **One token.**  What is written between quotes is read as it was. -/
theorem tokenizeFrom_quoted (token chunk s : Str) :
    tokenizeFrom (.quoted chunk) (token.flatMap escapeQuoted ++ '"' :: s) =
      (tokenizeFrom .between s).map ((chunk.reverse ++ token) :: ·) := by
  induction token generalizing chunk with
  | nil =>
      rw [List.flatMap_nil, List.nil_append, tokenizeFrom, if_pos rfl, List.append_nil]
      · intro heq
        cases heq
      · intro _ _ heq
        cases heq
  | cons c rest ih =>
      rw [List.flatMap_cons, List.append_assoc, tokenizeFrom_escapeQuoted, ih,
        List.reverse_cons, List.append_assoc, List.singleton_append]

/-- A quoted token is read, and then what follows it. -/
theorem tokenizeFrom_quoteToken (token s : Str) :
    tokenizeFrom .between (quoteToken token ++ s) = (tokenizeFrom .between s).map (token :: ·) := by
  have hquote : ¬ isSpace '"' = true := by decide
  unfold quoteToken
  rw [List.cons_append, List.cons_append, tokenizeFrom, if_neg hquote, if_pos rfl,
    List.append_assoc, List.singleton_append, tokenizeFrom_quoted, List.reverse_nil,
    List.nil_append]

theorem tokenizeFrom_writeTokens (words : List (Gap × Str)) :
    tokenizeFrom .between (writeTokens words) = .ok (words.map (·.2)) := by
  induction words with
  | nil => rfl
  | cons word rest ih =>
      unfold writeTokens at ih ⊢
      rw [List.flatMap_cons, List.append_assoc, tokenizeFrom_blank word.1.blank,
        tokenizeFrom_quoteToken, ih]
      rfl

/-- What ends with a quote keeps its end. -/
theorem rstrip_writeTokens (words : List (Gap × Str)) {blank : Str}
    (h : ∀ c ∈ blank, isSpace c = true) :
    rstrip ("SecRule".toList ++ writeTokens words ++ blank) =
      "SecRule".toList ++ writeTokens words := by
  have hblank : blank.reverse.dropWhile isSpace = [] :=
    List.dropWhile_eq_nil_iff.mpr fun c hc => h c (List.mem_reverse.mp hc)
  have hend : ∃ front last, "SecRule".toList ++ writeTokens words = front ++ [last] ∧
      isSpace last = false := by
    rcases List.eq_nil_or_concat words with rfl | ⟨first, word, rfl⟩
    · exact ⟨"SecRul".toList, 'e', by decide, by decide⟩
    · refine ⟨"SecRule".toList ++ writeTokens first ++ word.1.text ++
        '"' :: word.2.flatMap escapeQuoted, '"', ?_, by decide⟩
      simp [writeTokens, quoteToken]
  obtain ⟨front, last, hfront, hlast⟩ := hend
  rw [hfront]
  have hkept : ¬ isSpace last = true := by rw [hlast]; exact Bool.false_ne_true
  have hdropped : (front ++ [last]).reverse.dropWhile isSpace = (front ++ [last]).reverse := by
    rw [List.reverse_append, List.reverse_singleton, List.singleton_append,
      List.dropWhile_cons_of_neg hkept]
  unfold rstrip List.rdropWhile
  rw [@List.reverse_append _ (front ++ [last]), List.dropWhile_append, hblank, hdropped,
    List.isEmpty_nil, if_pos rfl, List.reverse_reverse]

theorem strip_writeDirective (words : List (Gap × Str)) (trailing : Option Gap) :
    strip (writeDirective words trailing) = "SecRule".toList ++ writeTokens words := by
  have hblank : ∀ c ∈ (trailing.map (·.text)).getD [], isSpace c = true := by
    cases trailing with
    | none => exact fun _ hc => absurd hc List.not_mem_nil
    | some gap => exact gap.blank
  have hkeyword : "SecRule".toList = ['S', 'e', 'c', 'R', 'u', 'l', 'e'] := rfl
  have hletter : ¬ isSpace 'S' = true := by decide
  have hstart : lstrip (writeDirective words trailing) = writeDirective words trailing := by
    obtain ⟨rest, hrest⟩ : ∃ rest, writeDirective words trailing = 'S' :: rest := by
      unfold writeDirective
      rw [hkeyword, List.append_assoc]
      exact ⟨_, List.cons_append⟩
    unfold lstrip
    rw [hrest, List.dropWhile_cons_of_neg hletter]
  unfold strip
  rw [hstart]
  exact rstrip_writeTokens words hblank

/-- One round of the loop of `_tokenize`: past the white space, one token and what is
unread behind it. -/
def readToken : TokenMode → Str → Attempt (Option (Str × Str))
  | .between, [] => .ok none
  | .between, c :: rest =>
      if isSpace c then readToken .between rest
      else if c = '"' then readToken (.quoted []) rest
      else readToken (.bare [c]) rest
  | .quoted _, [] => .error "unterminated quoted token"
  | .quoted chunk, ['\\'] => readToken (.quoted ('\\' :: chunk)) []
  | .quoted chunk, '\\' :: following :: rest =>
      if following = '"' ∨ following = '\\' then readToken (.quoted (following :: chunk)) rest
      else readToken (.quoted ('\\' :: chunk)) (following :: rest)
  | .quoted chunk, c :: rest =>
      if c = '"' then .ok (some (chunk.reverse, rest))
      else readToken (.quoted (c :: chunk)) rest
  | .bare chunk, [] => .ok (some (chunk.reverse, []))
  | .bare chunk, c :: rest =>
      if isSpace c then .ok (some (chunk.reverse, rest)) else readToken (.bare (c :: chunk)) rest

/-- The scanner repeats its rounds. -/
theorem tokenizeFrom_eq_readToken (mode : TokenMode) (s : Str) :
    tokenizeFrom mode s =
      match readToken mode s with
      | .error e => .error e
      | .ok none => .ok []
      | .ok (some (token, rest)) => (tokenizeFrom .between rest).map (token :: ·) := by
  fun_induction readToken mode s with
  | case1 => rfl
  | case2 c rest hspace ih => rw [tokenizeFrom, if_pos hspace, ih]
  | case3 rest hspace ih => rw [tokenizeFrom, if_neg hspace, if_pos rfl, ih]
  | case4 c rest hspace hquote ih => rw [tokenizeFrom, if_neg hspace, if_neg hquote, ih]
  | case5 => rfl
  | case6 chunk ih => rw [tokenizeFrom, ih]
  | case7 chunk following rest hescape ih => rw [tokenizeFrom, if_pos hescape, ih]
  | case8 chunk following rest hescape ih => rw [tokenizeFrom, if_neg hescape, ih]
  | case9 chunk rest hlast hmore => rw [tokenizeFrom, if_pos rfl] <;> assumption
  | case10 chunk c rest hlast hmore hquote ih =>
      rw [tokenizeFrom, if_neg hquote, ih] <;> assumption
  | case11 => rfl
  | case12 chunk c rest hspace => rw [tokenizeFrom, if_pos hspace]
  | case13 chunk c rest hspace ih => rw [tokenizeFrom, if_neg hspace, ih]

theorem readToken_le {mode : TokenMode} {s token rest : Str}
    (h : readToken mode s = .ok (some (token, rest))) : rest.length ≤ s.length := by
  fun_induction readToken mode s with
  | case1 => cases h
  | case2 c s hspace ih => exact (ih h).trans (Nat.le_succ _)
  | case3 s hspace ih => exact (ih h).trans (Nat.le_succ _)
  | case4 c s hspace hquote ih => exact (ih h).trans (Nat.le_succ _)
  | case5 => cases h
  | case6 chunk ih => exact (ih h).trans (Nat.zero_le _)
  | case7 chunk following s hescape ih =>
      exact (ih h).trans ((Nat.le_succ _).trans (Nat.le_succ _))
  | case8 chunk following s hescape ih => exact (ih h).trans (Nat.le_succ _)
  | case9 chunk s hlast hmore =>
      cases h
      exact Nat.le_succ _
  | case10 chunk c s hlast hmore hquote ih => exact (ih h).trans (Nat.le_succ _)
  | case11 =>
      cases h
      exact le_rfl
  | case12 chunk c s hspace =>
      cases h
      exact Nat.le_succ _
  | case13 chunk c s hspace ih => exact (ih h).trans (Nat.le_succ _)

/-- **Progress.**  What a round leaves unread is shorter than what it was given. -/
theorem readToken_shorter {s token rest : Str}
    (h : readToken .between s = .ok (some (token, rest))) : rest.length < s.length := by
  induction s with
  | nil => cases h
  | cons c s ih =>
      rw [readToken] at h
      rw [List.length_cons, Nat.lt_succ_iff]
      split_ifs at h with hspace hquote
      · exact (ih h).le
      · exact readToken_le h
      · exact readToken_le h

theorem tokenizeFrom_error {mode : TokenMode} {s : Str} {e : String}
    (h : tokenizeFrom mode s = .error e) : e = "unterminated quoted token" := by
  have hmap : ∀ (x : Attempt (List Str)) (token : Str), x.map (token :: ·) = .error e →
      x = .error e := by
    intro x token hx
    cases x with
    | error e' => exact hx
    | ok tokens => cases hx
  fun_induction tokenizeFrom mode s with
  | case5 => exact (Except.error.inj h).symm
  | case1 | case11 => cases h
  | case2 | case3 | case4 | case6 | case7 | case8 | case10 | case13 =>
      rename_i ih
      exact ih h
  | case9 chunk s hlast hmore ih => exact ih (hmap _ _ h)
  | case12 chunk c s hspace ih => exact ih (hmap _ _ h)

/-- **Quoting.**  Quoted tokens are read back as they were, whatever their characters and
the white space between them; every directive is read or refused for a quote that is not
closed; and every round reads on. -/
theorem tokenize_quoted :
    (∀ (words : List (Gap × Str)) (trailing : Option Gap),
      tokenize (writeDirective words trailing) = .ok (words.map (·.2))) ∧
    (∀ directive, (∃ tokens, tokenize directive = .ok tokens) ∨
      tokenize directive = .error "unterminated quoted token") ∧
    ∀ s token rest, readToken .between s = .ok (some (token, rest)) → rest.length < s.length := by
  refine ⟨fun words trailing => ?_, fun directive => ?_, fun _ _ _ h => readToken_shorter h⟩
  · have hkeyword : "SecRule".toList.length = 7 := by decide
    unfold tokenize
    rw [strip_writeDirective, List.drop_append_of_le_length hkeyword.ge, ← hkeyword,
      List.drop_length, List.nil_append, tokenizeFrom_writeTokens]
  · cases h : tokenize directive with
    | ok tokens => exact .inl ⟨tokens, rfl⟩
    | error e => exact .inr (by rw [tokenizeFrom_error h])

theorem isSpace_blank : ∀ c ∈ [' '], isSpace c = true := by
  intro c hc
  rw [List.mem_singleton.mp hc]
  rfl

/-- One blank. -/
def blankGap : Gap := ⟨[' '], List.cons_ne_nil _ _, isSpace_blank⟩

/-- Two backslashes and a quote, read back; and a bare character, after which nothing is
unread. -/
theorem tokenize_quoted_backslashes :
    tokenize (writeDirective [(blankGap, ['\\', '\\', '"'])] none) = .ok [['\\', '\\', '"']] ∧
      ([] : Str).length < ['a'].length :=
  ⟨tokenize_quoted.1 [(blankGap, ['\\', '\\', '"'])] none, tokenize_quoted.2.2 ['a'] ['a'] [] rfl⟩

end ModSecurity
