import ControlTranslation.GoCompiler

/-!
# Lines and tokens both programs find

A text has the same directives in both programs when its lines end in line feeds,
with or without a carriage return, and a continued line has only blanks around its
backslash.  The one character both count as white space and only one as a line end
is then out of the way, and so are those that only one counts as white space.
-/

namespace GoCompiler

open PyText GoText ModSecurity

/-- Whether every carriage return is before a line feed or at the end. -/
def returnsAtEnds : Str → Bool
  | [] => true
  | '\r' :: rest => (rest.head?.all (· == '\n')) && returnsAtEnds rest
  | _ :: rest => returnsAtEnds rest

/-- Whether a continued line has only blanks after its backslash and before it. -/
def blanksAtBackslash (line : Str) : Bool :=
  (rstrip line).getLast? ≠ some '\\' ||
    (trimRightBlanks line = rstrip line &&
      trimRightBlanks (rstrip line).dropLast = rstrip (rstrip line).dropLast)

/-- Whether the line ends and the white space of a text are read alike. -/
def linesAlike (text : Str) : Bool :=
  (text.all fun c => !isInfoSeparator c && (!isLineBreak c || c == '\n' || c == '\r')) &&
    returnsAtEnds text && (splitLines text).all blanksAtBackslash

/-- Whether both take the same lines of a text for directives, and none begins with
the long s that stands for two bytes. -/
def directivesAlike (t : CharTables) (text : Str) : Bool :=
  (ModSecurity.joinLines [] (splitLines text)).all fun line =>
    isSecRuleLine line == ModSecurity.isSecRuleLine t line &&
      (!ModSecurity.isSecRuleLine t line || (lstrip line).head? ≠ some 'ſ')

theorem rstrip_subset {s : Str} {c : Char} (h : c ∈ rstrip s) : c ∈ s :=
  (List.rdropWhile_prefix _ _).subset h

theorem lstrip_subset {s : Str} {c : Char} (h : c ∈ lstrip s) : c ∈ s :=
  (List.dropWhile_sublist _).subset h

theorem strip_subset {s : Str} {c : Char} (h : c ∈ strip s) : c ∈ s :=
  lstrip_subset (rstrip_subset h)

/-- White space at the end is stripped. -/
theorem strip_append_spaces (s : Str) {spaces : Str}
    (h : ∀ c ∈ spaces, PyText.isSpace c = true) : strip (s ++ spaces) = strip s := by
  unfold strip lstrip rstrip
  rw [List.dropWhile_append]
  split_ifs with hempty
  · rw [List.isEmpty_iff.mp hempty, List.dropWhile_eq_nil_iff.mpr h]
  · unfold List.rdropWhile
    rw [List.reverse_append, List.dropWhile_append_of_pos]
    exact fun c hc => h c (List.mem_reverse.mp hc)

/-- Spaces cut at the end of a line are cut from the whole. -/
theorem strip_append_rdropWhile {p : Char → Bool} (hp : ∀ c, p c = true → PyText.isSpace c = true)
    (buffer line : Str) : strip (buffer ++ line.rdropWhile p) = strip (buffer ++ line) := by
  have hline : line.rdropWhile p ++ line.rtakeWhile p = line :=
    List.rdropWhile_append_rtakeWhile
  have hspaces : ∀ c ∈ line.rtakeWhile p, PyText.isSpace c = true :=
    fun c hc => hp c (List.mem_rtakeWhile_imp hc)
  calc strip (buffer ++ line.rdropWhile p)
      = strip ((buffer ++ line.rdropWhile p) ++ line.rtakeWhile p) :=
        (strip_append_spaces _ hspaces).symm
    _ = strip (buffer ++ line) := by rw [List.append_assoc, hline]

theorem space_of_blank {c : Char} (h : isBlank c = true) : PyText.isSpace c = true := by
  simp only [isBlank, Bool.or_eq_true, beq_iff_eq] at h
  rcases h with rfl | rfl <;> decide

/-- A line that is not continued for one is not for the other. -/
theorem getLast?_trimRightBlanks {line : Str} (h : (rstrip line).getLast? ≠ some '\\') :
    (trimRightBlanks line).getLast? ≠ some '\\' := by
  intro hlast
  apply h
  have hline : line.rdropWhile isBlank ++ line.rtakeWhile isBlank = line :=
    List.rdropWhile_append_rtakeWhile
  have hspaces : ∀ c ∈ line.rtakeWhile isBlank, PyText.isSpace c = true :=
    fun c hc => space_of_blank (List.mem_rtakeWhile_imp hc)
  have hself : rstrip (trimRightBlanks line) = trimRightBlanks line := by
    refine List.rdropWhile_eq_self_iff.mpr fun hne => ?_
    rw [List.getLast?_eq_some_getLast hne] at hlast
    rw [Option.some.inj hlast]
    decide
  have hstrip : rstrip line = rstrip (trimRightBlanks line) := by
    conv_lhs => rw [← hline]
    unfold rstrip List.rdropWhile
    rw [List.reverse_append, List.dropWhile_append_of_pos]
    · rfl
    · exact fun c hc => hspaces c (List.mem_reverse.mp hc)
  rw [hstrip, hself, hlast]

/-- One line: both continue it with the same text, or both end it. -/
theorem joinLines_cons {buffer raw line : Str} {lines lines' : List Str}
    (hraw : removeSuffix '\r' raw = line) (hbuffer : Spaced buffer) (hline : Spaced line)
    (halike : blanksAtBackslash line = true)
    (hrest : ∀ buffer, Spaced buffer →
      joinLines buffer lines = ModSecurity.joinLines buffer lines') :
    joinLines buffer (raw :: lines) = ModSecurity.joinLines buffer (line :: lines') := by
  unfold joinLines ModSecurity.joinLines
  simp only [hraw]
  by_cases hlast : (rstrip line).getLast? = some '\\'
  · have hsame : trimRightBlanks line = rstrip line ∧
        trimRightBlanks (rstrip line).dropLast = rstrip (rstrip line).dropLast := by
      simpa [blanksAtBackslash, hlast] using halike
    rw [hsame.1, if_pos hlast, if_pos hlast, hsame.2]
    refine hrest _ (Spaced.append (hbuffer.append (hline.of_subset fun c hc => ?_)) ?_)
    · exact rstrip_subset ((List.dropLast_sublist _).subset (rstrip_subset hc))
    · intro c hc
      rw [List.mem_singleton.mp hc]
      decide
  · rw [if_neg hlast, if_neg (getLast?_trimRightBlanks hlast)]
    have hspaced : Spaced (buffer ++ trimRightBlanks line) :=
      hbuffer.append (hline.of_subset fun c hc => (List.rdropWhile_prefix _ _).subset hc)
    have hjoined : trimSpace (buffer ++ trimRightBlanks line) = strip (buffer ++ rstrip line) := by
      rw [trimSpace_eq hspaced]
      unfold trimRightBlanks rstrip
      rw [strip_append_rdropWhile (fun c => space_of_blank),
        strip_append_rdropWhile (fun c hc => hc)]
    rw [hjoined, hrest [] spaced_nil]

/-- The lines between line feeds, with the current one in reverse. -/
def feedLines (line : Str) : Str → List Str
  | [] => [line.reverse]
  | c :: rest => if c = '\n' then line.reverse :: feedLines [] rest else feedLines (c :: line) rest

/-- Lines fed one character at a time are the text split at line feeds. -/
theorem feedLines_eq : ∀ (s line : Str),
    feedLines line s = (s.splitOn '\n').modifyHead (line.reverse ++ ·) := by
  intro s
  induction s with
  | nil => 
      intro line
      simp [feedLines, List.splitOn]
  | cons c rest ih =>
      intro line
      have hne : rest.splitOn '\n' ≠ [] := List.splitOnP_ne_nil _ _
      unfold feedLines List.splitOn
      rw [List.splitOnP_cons_eq_if_modifyHead]
      by_cases hc : c = '\n'
      · rw [if_pos hc, if_pos (beq_iff_eq.mpr hc), ih []]
        change line.reverse :: List.modifyHead id (rest.splitOn '\n') = _
        rw [List.modifyHead_id]
        simp [List.splitOn]
      · rw [if_neg hc, if_neg (by simpa using hc), ih (c :: line)]
        cases hsplit : rest.splitOn '\n' with
        | nil => exact absurd hsplit hne
        | cons head tail =>
            have hsplit' : rest.splitOnP (· == '\n') = head :: tail := hsplit
            simp [hsplit']

theorem removeSuffix_return {line : Str} : removeSuffix '\r' (line ++ ['\r']) = line := by
  simp [removeSuffix]

theorem removeSuffix_of_notMem {line : Str} (h : '\r' ∉ line) : removeSuffix '\r' line = line := by
  unfold removeSuffix
  rw [if_neg]
  intro hlast
  exact h (List.mem_of_getLast? hlast)

/-- An empty last line adds nothing. -/
theorem joinLines_empty {buffer : Str} (hbuffer : Spaced buffer) :
    joinLines buffer [[]] = ModSecurity.joinLines buffer [] := by
  have hrun : joinLines buffer [[]] =
      if trimSpace (buffer ++ []) = [] then [] else [trimSpace (buffer ++ [])] := rfl
  rw [hrun, List.append_nil, trimSpace_eq hbuffer]
  rfl

/-- Both end with what is left in the buffer. -/
theorem joinLines_nil {buffer : Str} (hbuffer : Spaced buffer) :
    joinLines buffer [] = ModSecurity.joinLines buffer [] := by
  unfold joinLines ModSecurity.joinLines
  rw [trimSpace_eq hbuffer]

/-- **Lines.**  From any line on both join the same lines: an induction on the text,
in which a carriage return goes with the line feed after it. -/
theorem joinLines_feedLines : ∀ (s line buffer : Str), Spaced s → Spaced line → Spaced buffer →
    '\r' ∉ line → (∀ c ∈ s, isLineBreak c = true → c = '\n' ∨ c = '\r') →
    returnsAtEnds s = true → (∀ l ∈ splitLinesFrom line false s, blanksAtBackslash l = true) →
    joinLines buffer (feedLines line s) =
      ModSecurity.joinLines buffer (splitLinesFrom line false s) := by
  intro s
  induction hn : s.length using Nat.strong_induction_on generalizing s with
  | _ n ih =>
      intro line buffer hs hline hbuffer hreturn hbreaks hreturns halike
      have hreverse : Spaced line.reverse := hline.of_subset fun c hc => List.mem_reverse.mp hc
      have hnone : '\r' ∉ line.reverse := fun h => hreturn (List.mem_reverse.mp h)
      cases s with
      | nil =>
          simp only [splitLinesFrom, feedLines] at halike ⊢
          by_cases hempty : line = []
          · rw [if_pos hempty, hempty]
            exact joinLines_empty hbuffer
          · rw [if_neg hempty] at halike ⊢
            exact joinLines_cons (removeSuffix_of_notMem hnone) hbuffer hreverse
              (halike _ List.mem_cons_self) fun buffer hspaced => joinLines_nil hspaced
      | cons c rest =>
          have hrest : Spaced rest := fun d hd => hs d (List.mem_cons_of_mem _ hd)
          have hbreaks' := fun d hd => hbreaks d (List.mem_cons_of_mem _ hd)
          by_cases hfeed : c = '\n'
          · subst hfeed
            have hpy : splitLinesFrom line false ('\n' :: rest) =
                line.reverse :: splitLinesFrom [] false rest := rfl
            have hgo : feedLines line ('\n' :: rest) = line.reverse :: feedLines [] rest := rfl
            rw [hpy] at halike ⊢
            rw [hgo]
            refine joinLines_cons (removeSuffix_of_notMem hnone) hbuffer hreverse
              (halike _ List.mem_cons_self) fun buffer hspaced => ?_
            exact ih rest.length (by simp at hn; omega) rest rfl [] buffer hrest spaced_nil hspaced
              List.not_mem_nil hbreaks' hreturns
              fun l hl => halike l (List.mem_cons_of_mem _ hl)
          · by_cases hcr : c = '\r'
            · subst hcr
              have hraw : ('\r' :: line).reverse = line.reverse ++ ['\r'] := List.reverse_cons
              cases rest with
              | nil =>
                  have hpy : splitLinesFrom line false ['\r'] = [line.reverse] := rfl
                  have hgo : feedLines line ['\r'] = [('\r' :: line).reverse] := rfl
                  rw [hpy] at halike ⊢
                  rw [hgo]
                  exact joinLines_cons (hraw ▸ removeSuffix_return) hbuffer hreverse
                    (halike _ List.mem_cons_self) fun buffer hspaced => joinLines_nil hspaced
              | cons d rest =>
                  simp only [returnsAtEnds, List.head?_cons, Option.all_some, Bool.and_eq_true,
                    beq_iff_eq] at hreturns
                  obtain ⟨rfl, hreturns⟩ := hreturns
                  have hpy : splitLinesFrom line false ('\r' :: '\n' :: rest) =
                      line.reverse :: splitLinesFrom [] false rest := rfl
                  have hgo : feedLines line ('\r' :: '\n' :: rest) =
                      ('\r' :: line).reverse :: feedLines [] rest := rfl
                  rw [hpy] at halike ⊢
                  rw [hgo]
                  refine joinLines_cons (hraw ▸ removeSuffix_return) hbuffer hreverse
                    (halike _ List.mem_cons_self) fun buffer hspaced => ?_
                  exact ih rest.length (by simp at hn; omega) rest rfl [] buffer
                    (fun d hd => hrest d (List.mem_cons_of_mem _ hd)) spaced_nil hspaced
                    List.not_mem_nil (fun d hd => hbreaks' d (List.mem_cons_of_mem _ hd)) hreturns
                    fun l hl => halike l (List.mem_cons_of_mem _ hl)
            · have hplain : isLineBreak c = false := by
                by_contra hbreak
                rcases hbreaks c List.mem_cons_self (Bool.of_not_eq_false hbreak) with h | h
                · exact hfeed h
                · exact hcr h
              have hpy : splitLinesFrom line false (c :: rest) =
                  splitLinesFrom (c :: line) false rest := by
                simp [splitLinesFrom, hplain]
              have hgo : feedLines line (c :: rest) = feedLines (c :: line) rest := if_neg hfeed
              rw [hpy] at halike ⊢
              rw [hgo]
              have hspaced : Spaced (c :: line) :=
                (Spaced.append (fun d hd => hs d (List.mem_singleton.mp hd ▸ List.mem_cons_self))
                  hline : Spaced ([c] ++ line))
              have hreturn' : '\r' ∉ c :: line := by
                rw [List.mem_cons]
                rintro (h | h)
                · exact hcr h.symm
                · exact hreturn h
              have hreturns' : returnsAtEnds rest = true := by
                simpa [returnsAtEnds, hcr] using hreturns
              exact ih rest.length (by simp at hn; omega) rest rfl (c :: line) buffer hrest hspaced
                hbuffer hreturn' hbreaks' hreturns' halike

/-- **Directives.**  A text whose lines are alike has the same directives in both. -/
theorem splitDirectives_eq {t : CharTables} {text : Str} (hlines : linesAlike text = true)
    (hdirectives : directivesAlike t text = true) :
    splitDirectives text = ModSecurity.splitDirectives t text := by
  simp only [linesAlike, Bool.and_eq_true, List.all_eq_true, Bool.not_eq_true', Bool.or_eq_true,
    beq_iff_eq] at hlines
  obtain ⟨⟨hchars, hreturns⟩, hcontinued⟩ := hlines
  have hjoined : joinLines [] (text.splitOn '\n') =
      ModSecurity.joinLines [] (splitLines text) := by
    have hsplit : text.splitOn '\n' = feedLines [] text := by
      rw [feedLines_eq]
      exact (congrFun List.modifyHead_id _).symm
    rw [hsplit]
    refine joinLines_feedLines text [] [] (fun c hc => (hchars c hc).1) spaced_nil spaced_nil
      List.not_mem_nil (fun c hc hbreak => ?_) hreturns hcontinued
    rcases (hchars c hc).2 with (h | h) | h
    · rw [h] at hbreak
      cases hbreak
    · exact Or.inl h
    · exact Or.inr h
  unfold splitDirectives ModSecurity.splitDirectives
  rw [hjoined]
  refine List.filter_congr fun line hline => ?_
  have halike := List.all_eq_true.mp hdirectives line hline
  simp only [Bool.and_eq_true, beq_iff_eq] at halike
  exact halike.1

theorem mem_splitLines {c : Char} : ∀ {s line : Str} {after : Bool} {l : Str},
    l ∈ splitLinesFrom line after s → c ∈ l → c ∈ line ∨ c ∈ s := by
  intro s
  induction s with
  | nil =>
      intro line after l hl hc
      unfold splitLinesFrom at hl
      split_ifs at hl
      · cases hl
      · rw [List.mem_singleton.mp hl] at hc
        exact Or.inl (List.mem_reverse.mp hc)
  | cons d rest ih =>
      intro line after l hl hc
      unfold splitLinesFrom at hl
      split_ifs at hl
      · rcases ih hl hc with h | h
        · cases h
        · exact Or.inr (List.mem_cons_of_mem _ h)
      · rcases List.mem_cons.mp hl with rfl | hl
        · exact Or.inl (List.mem_reverse.mp hc)
        · rcases ih hl hc with h | h
          · cases h
          · exact Or.inr (List.mem_cons_of_mem _ h)
      · rcases ih hl hc with h | h
        · rcases List.mem_cons.mp h with rfl | h
          · exact Or.inr List.mem_cons_self
          · exact Or.inl h
        · exact Or.inr (List.mem_cons_of_mem _ h)

/-- A joined line has the characters of its lines and blanks. -/
theorem mem_joinLines {c : Char} (hc : c ≠ ' ') : ∀ {lines : List Str} {buffer d : Str},
    d ∈ ModSecurity.joinLines buffer lines → c ∈ d → c ∈ buffer ∨ ∃ l ∈ lines, c ∈ l := by
  intro lines
  induction lines with
  | nil =>
      intro buffer d hd hmem
      unfold ModSecurity.joinLines at hd
      split_ifs at hd
      · cases hd
      · rw [List.mem_singleton.mp hd] at hmem
        exact Or.inl (strip_subset hmem)
  | cons line lines ih =>
      intro buffer d hd hmem
      have hmore : (∃ l ∈ lines, c ∈ l) → ∃ l ∈ line :: lines, c ∈ l := by
        intro h
        obtain ⟨l, hl, hcl⟩ := h
        exact ⟨l, List.mem_cons_of_mem _ hl, hcl⟩
      have hline : c ∈ line → ∃ l ∈ line :: lines, c ∈ l := fun h => ⟨line, List.mem_cons_self, h⟩
      simp only [ModSecurity.joinLines] at hd
      split_ifs at hd
      · rcases ih hd hmem with h | h
        · rw [List.mem_append, List.mem_append, List.mem_singleton] at h
          rcases h with (h | h) | h
          · exact Or.inl h
          · exact Or.inr (hline (rstrip_subset ((List.dropLast_sublist _).subset
              (rstrip_subset h))))
          · exact absurd h hc
        · exact Or.inr (hmore h)
      · rcases ih hd hmem with h | h
        · cases h
        · exact Or.inr (hmore h)
      · rcases List.mem_cons.mp hd with rfl | hd
        · rcases List.mem_append.mp (strip_subset hmem) with h | h
          · exact Or.inl h
          · exact Or.inr (hline (rstrip_subset h))
        · rcases ih hd hmem with h | h
          · cases h
          · exact Or.inr (hmore h)

/-- A character that both count as white space or neither, and that both encode. -/
def ordinary (c : Char) : Bool := !isInfoSeparator c && !isSeparator c

/-- The characters of a directive are ordinary. -/
theorem directive_ordinary {t : CharTables} {text d : Str} (hlines : linesAlike text = true)
    (hd : d ∈ ModSecurity.splitDirectives t text) : ∀ c ∈ d, ordinary c = true := by
  intro c hc
  by_cases hblank : c = ' '
  · rw [hblank]
    decide
  · simp only [linesAlike, Bool.and_eq_true, List.all_eq_true, Bool.not_eq_true', Bool.or_eq_true,
      beq_iff_eq] at hlines
    obtain ⟨⟨hchars, -⟩, -⟩ := hlines
    have hjoined := List.mem_of_mem_filter hd
    have hmem : c ∈ text := by
      rcases mem_joinLines hblank hjoined hc with h | ⟨l, hl, hcl⟩
      · cases h
      · rcases mem_splitLines hl hcl with h | h
        · cases h
        · exact h
    have hc := hchars c hmem
    have hseparator : isSeparator c = false := by
      by_contra hsep
      have hcases := Bool.of_not_eq_false hsep
      simp only [isSeparator, Bool.or_eq_true, beq_iff_eq] at hcases
      rcases hcases with rfl | rfl
      · exact absurd hc (by decide)
      · exact absurd hc (by decide)
    rw [ordinary, hc.1, hseparator]
    rfl

theorem Spaced.tail {c : Char} {s : Str} (h : Spaced (c :: s)) : Spaced s :=
  fun d hd => h d (List.mem_cons_of_mem _ hd)

/-- The tokenizers read the same tokens where white space is the same. -/
theorem tokenizeFrom_eq (mode : TokenMode) (s : Str) (h : Spaced s) :
    tokenizeFrom mode s = ModSecurity.tokenizeFrom mode s := by
  fun_induction ModSecurity.tokenizeFrom mode s with
  | case1 => rfl
  | case2 c rest hspace ih =>
      have hgo := (h.isSpace_eq List.mem_cons_self).trans hspace
      rw [tokenizeFrom, if_pos hgo, ih (Spaced.tail h)]
  | case3 rest hspace ih =>
      rw [tokenizeFrom, if_neg (by decide), if_pos rfl, ih (Spaced.tail h)]
  | case4 c rest hspace hquote ih =>
      have hgo : ¬GoText.isSpace c = true := by
        rw [h.isSpace_eq List.mem_cons_self]
        exact hspace
      rw [tokenizeFrom, if_neg hgo, if_neg hquote, ih (Spaced.tail h)]
  | case5 => rfl
  | case6 chunk ih => rw [tokenizeFrom, ih spaced_nil]
  | case7 chunk following rest hescape ih =>
      rw [tokenizeFrom, if_pos hescape, ih (Spaced.tail (Spaced.tail h))]
  | case8 chunk following rest hescape ih =>
      rw [tokenizeFrom, if_neg hescape, ih (Spaced.tail h)]
  | case9 chunk rest hlast hmore ih =>
      rw [tokenizeFrom, if_pos rfl, ih (Spaced.tail h)]
      · exact hlast
      · exact hmore
  | case10 chunk c rest hlast hmore hquote ih =>
      rw [tokenizeFrom, if_neg hquote, ih (Spaced.tail h)]
      · exact hlast
      · exact hmore
  | case11 => rfl
  | case12 chunk c rest hspace ih =>
      have hgo := (h.isSpace_eq List.mem_cons_self).trans hspace
      rw [tokenizeFrom, if_pos hgo, ih (Spaced.tail h)]
  | case13 chunk c rest hspace ih =>
      have hgo : ¬GoText.isSpace c = true := by
        rw [h.isSpace_eq List.mem_cons_self]
        exact hspace
      rw [tokenizeFrom, if_neg hgo, ih (Spaced.tail h)]

theorem map_ok {α β : Type} {f : α → β} {x : Attempt α} {b : β} (h : x.map f = .ok b) :
    ∃ a, x = .ok a ∧ f a = b := by
  cases x with
  | error e => cases h
  | ok a => exact ⟨a, rfl, Except.ok.inj h⟩

/-- The characters read so far. -/
def chunkOf : TokenMode → Str
  | .between => []
  | .quoted chunk => chunk
  | .bare chunk => chunk

/-- A character read goes from the text to the chunk. -/
theorem mem_chunk_cons {c d : Char} {chunk rest : Str} (h : c ∈ d :: chunk ∨ c ∈ rest) :
    c ∈ chunk ∨ c ∈ d :: rest := by
  rcases h with hchunk | hrest
  · rcases List.mem_cons.mp hchunk with rfl | hchunk
    · exact Or.inr List.mem_cons_self
    · exact Or.inl hchunk
  · exact Or.inr (List.mem_cons_of_mem _ hrest)

/-- A token has characters of the text only. -/
theorem mem_tokenizeFrom {c : Char} (mode : TokenMode) (s : Str) : ∀ {tokens : List Str},
    ModSecurity.tokenizeFrom mode s = .ok tokens → ∀ token ∈ tokens, c ∈ token →
      c ∈ chunkOf mode ∨ c ∈ s := by
  fun_induction ModSecurity.tokenizeFrom mode s with
  | case1 =>
      intro tokens h token htoken
      obtain rfl := Except.ok.inj h
      cases htoken
  | case2 d rest _ ih =>
      intro tokens h token htoken hc
      exact (ih h token htoken hc).imp_right (List.mem_cons_of_mem _)
  | case3 rest _ ih =>
      intro tokens h token htoken hc
      exact (ih h token htoken hc).imp_right (List.mem_cons_of_mem _)
  | case4 d rest _ _ ih =>
      intro tokens h token htoken hc
      exact mem_chunk_cons (ih h token htoken hc)
  | case5 => 
      intro tokens h
      cases h
  | case6 chunk ih =>
      intro tokens h token htoken hc
      exact mem_chunk_cons (ih h token htoken hc)
  | case7 chunk following rest _ ih =>
      intro tokens h token htoken hc
      exact (mem_chunk_cons (ih h token htoken hc)).imp_right (List.mem_cons_of_mem _)
  | case8 chunk following rest _ ih =>
      intro tokens h token htoken hc
      exact mem_chunk_cons (ih h token htoken hc)
  | case9 chunk rest _ _ ih =>
      intro tokens h token htoken hc
      obtain ⟨tokens', hrun, rfl⟩ := map_ok h
      rcases List.mem_cons.mp htoken with rfl | htoken
      · exact Or.inl (List.mem_reverse.mp hc)
      · rcases ih hrun token htoken hc with hchunk | hrest
        · cases hchunk
        · exact Or.inr (List.mem_cons_of_mem _ hrest)
  | case10 chunk d rest _ _ _ ih =>
      intro tokens h token htoken hc
      exact mem_chunk_cons (ih h token htoken hc)
  | case11 chunk =>
      intro tokens h token htoken hc
      obtain rfl := Except.ok.inj h
      rw [List.mem_singleton.mp htoken] at hc
      exact Or.inl (List.mem_reverse.mp hc)
  | case12 chunk d rest _ ih =>
      intro tokens h token htoken hc
      obtain ⟨tokens', hrun, rfl⟩ := map_ok h
      rcases List.mem_cons.mp htoken with rfl | htoken
      · exact Or.inl (List.mem_reverse.mp hc)
      · rcases ih hrun token htoken hc with hchunk | hrest
        · cases hchunk
        · exact Or.inr (List.mem_cons_of_mem _ hrest)
  | case13 chunk d rest _ ih =>
      intro tokens h token htoken hc
      exact mem_chunk_cons (ih h token htoken hc)

/-- A character that folds with a letter is one of ASCII, but for the long s. -/
theorem letter_of_folds {k c : Char}
    (hk : (65 ≤ k.toNat ∧ k.toNat ≤ 90) ∨ (97 ≤ k.toNat ∧ k.toNat ≤ 122))
    (h : foldsWith k c = true) (hc : ¬(k.toLower = 's' ∧ c = 'ſ')) :
    64 < c.toNat ∧ c.toNat < 128 := by
  simp only [foldsWith, Bool.or_eq_true, Bool.and_eq_true, beq_iff_eq] at h
  have hlower : k.toLower.toNat = c.toLower.toNat := congrArg Char.toNat (h.resolve_right hc)
  rw [Glob.toNat_toLower, Glob.toNat_toLower] at hlower
  split_ifs at hlower <;> omega

/-- What folds with a word of other letters than `s` is made of letters. -/
theorem letters_of_folds : ∀ {word body : Str},
    (∀ k ∈ word, ((65 ≤ k.toNat ∧ k.toNat ≤ 90) ∨ (97 ≤ k.toNat ∧ k.toNat ≤ 122)) ∧
      k.toLower ≠ 's') →
    word.length ≤ body.length → (List.zipWith foldsWith word body).all id = true →
    ∃ u v, body = u ++ v ∧ u.length = word.length ∧ ∀ c ∈ u, 64 < c.toNat ∧ c.toNat < 128 := by
  intro word
  induction word with
  | nil => exact fun _ _ _ => ⟨[], _, rfl, rfl, fun _ hc => absurd hc List.not_mem_nil⟩
  | cons k word ih =>
      intro body hword hlength hfolds
      cases body with
      | nil => simp at hlength
      | cons c body =>
          simp only [List.zipWith_cons_cons, List.all_cons, id_eq, Bool.and_eq_true] at hfolds
          obtain ⟨u, v, rfl, hu, hletters⟩ := ih (fun k hk => hword k (List.mem_cons_of_mem _ hk))
            (by simpa using hlength) hfolds.2
          obtain ⟨hk, hne⟩ := hword k List.mem_cons_self
          have hc := letter_of_folds hk hfolds.1 fun hlong => hne hlong.1
          refine ⟨c :: u, v, rfl, by simp [hu], ?_⟩
          intro d hd
          rcases List.mem_cons.mp hd with rfl | hd
          · exact hc
          · exact hletters d hd

/-- A directive begins with seven letters. -/
theorem directive_letters {t : CharTables} {d : Str}
    (hkeyword : ModSecurity.isSecRuleLine t d = true) (hlong : (lstrip d).head? ≠ some 'ſ') :
    ∃ u v, lstrip d = u ++ v ∧ u.length = 7 ∧ ∀ c ∈ u, 64 < c.toNat ∧ c.toNat < 128 := by
  simp only [ModSecurity.isSecRuleLine, Bool.and_eq_true, beq_iff_eq] at hkeyword
  obtain ⟨⟨hlength, hfolds⟩, -⟩ := hkeyword
  cases hbody : lstrip d with
  | nil => simp [hbody] at hlength
  | cons c body =>
      have hkeyword : "SecRule".toList = 'S' :: "ecRule".toList := by decide
      rw [hbody] at hlength hfolds hlong
      rw [hkeyword, List.zipWith_cons_cons, List.all_cons, Bool.and_eq_true] at hfolds
      have hc := letter_of_folds (by decide) hfolds.1 fun h => hlong (congrArg some h.2)
      have hsix : "ecRule".toList.length ≤ body.length := by
        have hcount : "ecRule".toList.length = 6 := by decide
        rw [List.length_take, List.length_cons] at hlength
        omega
      have hword : ("ecRule".toList.all fun k =>
          decide (((65 ≤ k.toNat ∧ k.toNat ≤ 90) ∨ (97 ≤ k.toNat ∧ k.toNat ≤ 122)) ∧
            k.toLower ≠ 's')) = true := by decide
      obtain ⟨u, v, rfl, hu, hletters⟩ := letters_of_folds
        (fun k hk => of_decide_eq_true (List.all_eq_true.mp hword k hk)) hsix hfolds.2
      refine ⟨c :: u, v, rfl, by rw [List.length_cons, hu]; decide, ?_⟩
      intro d hd
      rcases List.mem_cons.mp hd with rfl | hd
      · exact hc
      · exact hletters d hd

/-- Dropping the bytes of an ASCII text drops that text. -/
theorem dropBytes_ascii {u : Str} (h : ∀ c ∈ u, c.toNat < 128) (v : Str) :
    dropBytes u.length (u ++ v) = v := by
  induction u with
  | nil => cases v <;> rfl
  | cons c u ih =>
      have hone : (utf8 c).length = 1 := by rw [utf8_ascii (h c List.mem_cons_self)]; rfl
      have hrest := ih fun d hd => h d (List.mem_cons_of_mem _ hd)
      rw [List.length_cons, List.cons_append, dropBytes, hone, Nat.add_sub_cancel]
      exact hrest

theorem rstrip_append {u : Str} (h : ∀ c ∈ u, PyText.isSpace c = false) (v : Str) :
    rstrip (u ++ v) = u ++ rstrip v := by
  have hself : u.reverse.dropWhile PyText.isSpace = u.reverse := by
    cases hu : u.reverse with
    | nil => rfl
    | cons c rest =>
        have hc : c ∈ u := by
          rw [← List.mem_reverse, hu]
          exact List.mem_cons_self
        rw [List.dropWhile_cons, h c hc, if_neg Bool.false_ne_true]
  unfold rstrip List.rdropWhile
  rw [List.reverse_append, List.dropWhile_append, hself]
  split_ifs with hempty
  · rw [List.isEmpty_iff.mp hempty, List.reverse_reverse, List.reverse_nil, List.append_nil]
  · rw [List.reverse_append, List.reverse_reverse]

/-- **Tokens.**  An ordinary directive has the same tokens in both. -/
theorem tokenize_eq {t : CharTables} {d : Str}
    (hkeyword : ModSecurity.isSecRuleLine t d = true) (hlong : (lstrip d).head? ≠ some 'ſ')
    (hspaced : Spaced d) : tokenize d = ModSecurity.tokenize d := by
  obtain ⟨u, v, hbody, hseven, hletters⟩ := directive_letters hkeyword hlong
  have hspace : ∀ c ∈ u, PyText.isSpace c = false := by
    intro c hc
    have hrange := hletters c hc
    simp only [PyText.isSpace, Bool.or_eq_false_iff, Bool.and_eq_false_iff, decide_eq_false_iff_not,
      beq_eq_false_iff_ne]
    omega
  have hstrip : strip d = u ++ rstrip v := by
    unfold strip
    rw [hbody]
    exact rstrip_append hspace v
  have hdrop : (u ++ rstrip v).drop 7 = rstrip v := by
    rw [← hseven, List.drop_left]
  have hbytes : dropBytes 7 (u ++ rstrip v) = rstrip v := by
    rw [← hseven]
    exact dropBytes_ascii (fun c hc => (hletters c hc).2) _
  have hrest : Spaced (rstrip v) := by
    refine hspaced.of_subset fun c hc => lstrip_subset ?_
    rw [hbody]
    exact List.mem_append_right _ (rstrip_subset hc)
  unfold tokenize ModSecurity.tokenize
  rw [trimSpace_eq hspaced, hstrip, hdrop, hbytes]
  exact tokenizeFrom_eq .between _ hrest

/-- A token has characters of its directive only. -/
theorem mem_token {c : Char} {d : Str} {tokens : List Str}
    (h : ModSecurity.tokenize d = .ok tokens) {token : Str} (htoken : token ∈ tokens)
    (hc : c ∈ token) : c ∈ d := by
  rcases mem_tokenizeFrom .between _ h token htoken hc with hchunk | hmem
  · cases hchunk
  · exact strip_subset ((List.drop_sublist _ _).subset hmem)

end GoCompiler
