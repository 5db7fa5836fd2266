import Mathlib.Data.List.GetD
import ControlTranslation.ParserAgreement
import ControlTranslation.PcreFuel

/-!
# What a translated regex matches

The emitted values against the regex search.  Rendering writes every
alternative as one value per depth and alias of its ladders; the language of
the values is the framed language of the alternatives, where each ladder is
read at the chosen depth.  With the parser agreement this gives the three
guarantees of the translator: exactness, coverage, and no over-blocking.
-/

namespace ModSecurity

open PyText Pcre Glob

/-- Whether an emitted value matches the whole of a subject. -/
def RegexResult.accepts (result : RegexResult) (subject : Str) : Bool :=
  result.values.any fun value =>
    Glob.accepts (sameChar result.caseInsensitive)
      (if result.wildcard then ofText value else value.map .lit) subject

section

variable (same : Char → Char → Bool)

/-- The text of a ladder at one depth and alias. -/
def ladderPiece (depth variant : Nat) (depths : List (List Str)) : Str :=
  (depths.getD depth []).getD variant ((depths.getD depth []).getD 0 [])

/-- The language of a part whose ladders are read at one depth and alias. -/
def Part.selected (depth variant : Nat) : Part → Language Char
  | .ladder depths => wordLang same (ladderPiece depth variant depths)
  | part => part.lang same

/-- The language of an alternative whose ladders are read at one depth. -/
def selectedLang (depth variant : Nat) (parts : Parts) : Language Char :=
  (parts.map (Part.selected same depth variant)).prod

@[simp] theorem selectedLang_nil (depth variant : Nat) :
    selectedLang same depth variant [] = 1 := rfl

@[simp] theorem selectedLang_cons (depth variant : Nat) (part : Part) (parts : Parts) :
    selectedLang same depth variant (part :: parts) =
      part.selected same depth variant * selectedLang same depth variant parts := by
  simp [selectedLang]

/-- A run just written, which a following run would repeat. -/
def afterRun (previous : Option Str) : Language Char :=
  if previous = some ['*'] then ⊤ else 1

/-- The text of a ladder is one of its branches. -/
theorem ladderPiece_mem {depth variant : Nat} {depths : List (List Str)}
    (hfull : [] ∉ depths) (hlt : depth < depths.length) :
    ladderPiece depth variant depths ∈ depths.flatten := by
  have hmem : depths.getD depth [] ∈ depths := by
    rw [List.getD_eq_getElem _ _ hlt]
    exact List.getElem_mem hlt
  have hpos : 0 < (depths.getD depth []).length := by
    rw [List.length_pos_iff]
    intro h
    exact hfull (h ▸ hmem)
  refine List.mem_flatten.mpr ⟨depths.getD depth [], hmem, ?_⟩
  unfold ladderPiece
  generalize depths.getD depth [] = variants at hpos ⊢
  by_cases hv : variant < variants.length
  · rw [List.getD_eq_getElem _ _ hv]
    exact List.getElem_mem hv
  · rw [List.getD_eq_default _ _ (Nat.le_of_not_lt hv), List.getD_eq_getElem _ _ hpos]
    exact List.getElem_mem hpos

/-- A text without wildcard characters is read literally. -/
theorem lang_ofText_literal {text : Str} (h : ∀ c ∈ text, isWildcardChar c = false) :
    lang same (ofText text) = wordLang same text := by
  rw [ofText_literal, lang_map_lit]
  intro c hc
  have := h c hc
  simpa [isWildcardChar] using this

theorem wordLang_append (u v : Str) :
    wordLang same (u ++ v) = wordLang same u * wordLang same v := by
  rw [← lang_map_lit, ← lang_map_lit, ← lang_map_lit, List.map_append, lang_append]

theorem wordLang_singleton (c : Char) : wordLang same [c] = charLang (same c) := by
  rw [← lang_map_lit]
  simp [Item.lang]

/-- A leading star is any text. -/
theorem lang_run (text : Str) : lang same (ofText ('*' :: text)) = ⊤ * lang same (ofText text) := by
  change lang same (.many :: ofText text) = _
  rw [lang_cons]
  rfl

/-- Reading a rendered alternative as a wildcard value. -/
theorem lang_renderAfter (depth variant : Nat) {parts : Parts}
    (hplain : ∀ part ∈ parts, part.mentions = false)
    (hladder : ∀ depths, .ladder depths ∈ parts → [] ∉ depths ∧ depth < depths.length) :
    ∀ previous, afterRun previous *
        lang same (ofText (renderAfter depth variant previous parts).1) =
      afterRun previous * selectedLang same depth variant parts := by
  induction parts with
  | nil => intro previous; rfl
  | cons part parts ih =>
      intro previous
      have ih := ih (fun p hp => hplain p (List.mem_cons_of_mem _ hp))
        fun depths hd => hladder depths (List.mem_cons_of_mem _ hd)
      have hpart := hplain part List.mem_cons_self
      -- After a piece without a run the rest is rendered on its own.
      have hrest : ∀ piece : Str, (∀ c ∈ piece, c ≠ '*') →
          lang same (ofText (renderAfter depth variant (some piece) parts).1) =
            selectedLang same depth variant parts := by
        intro piece hpiece
        have h := ih (some piece)
        have hne : piece ≠ ['*'] := by
          rintro rfl
          exact hpiece '*' (List.mem_singleton_self _) rfl
        simpa [afterRun, hne] using h
      cases part with
      | any =>
          by_cases hprev : previous = some ['*']
          · have h := ih previous
            simp only [renderAfter, if_pos hprev, selectedLang_cons, Part.selected, Part.lang]
            rw [h, ← mul_assoc]
            simp [afterRun, hprev, top_mul_top]
          · have h := ih (some ['*'])
            simp only [afterRun, if_true] at h
            simp only [renderAfter, if_neg hprev, selectedLang_cons, Part.selected, Part.lang,
              lang_run, h]
      | one =>
          simp only [renderAfter, selectedLang_cons, Part.selected, Part.lang]
          rw [← hrest ['?'] (by simp)]
          change _ * lang same (.one :: ofText _) = _
          rw [lang_cons]
          rfl
      | lit c =>
          have hc : ∀ d ∈ [c], isWildcardChar d = false := by
            simpa [Part.mentions] using hpart
          simp only [renderAfter, selectedLang_cons, Part.selected, Part.lang]
          rw [← hrest [c] (fun d hd => by
            rintro rfl
            exact absurd (hc _ hd) (by decide)), ← wordLang_singleton,
            ← lang_ofText_literal same hc, ← lang_append, ← ofText_append]
          rfl
      | ladder depths =>
          obtain ⟨hfull, hlt⟩ := hladder depths List.mem_cons_self
          have hc : ∀ d ∈ ladderPiece depth variant depths, isWildcardChar d = false := by
            intro d hd
            by_contra hwild
            have hmentions : Part.mentions (.ladder depths) = true :=
              List.any_eq_true.mpr ⟨_, ladderPiece_mem hfull hlt,
                List.any_eq_true.mpr ⟨d, hd, by simpa using hwild⟩⟩
            rw [hpart] at hmentions
            cases hmentions
          simp only [renderAfter, selectedLang_cons, Part.selected]
          change _ * lang same (ofText (ladderPiece depth variant depths ++ _)) = _
          rw [ofText_append, lang_append, lang_ofText_literal same hc]
          congr 2
          exact hrest _ fun d hd => by
            rintro rfl
            exact absurd (hc _ hd) (by decide)

/-- Whether rendering used a wildcard. -/
theorem renderAfter_wild (depth variant : Nat) (parts : Parts) :
    ∀ previous, (renderAfter depth variant previous parts).2 = false →
      ∀ part ∈ parts, part ≠ .any ∧ part ≠ .one := by
  induction parts with
  | nil => simp
  | cons part parts ih =>
      intro previous h p hp
      cases part with
      | any =>
          simp only [renderAfter] at h
          split at h <;> cases h
      | one => cases h
      | lit c =>
          rcases List.mem_cons.mp hp with rfl | hp
          · exact ⟨by simp, by simp⟩
          · exact ih _ h p hp
      | ladder depths =>
          rcases List.mem_cons.mp hp with rfl | hp
          · exact ⟨by simp, by simp⟩
          · exact ih _ h p hp

theorem renderAfter_literal (depth variant : Nat) {parts : Parts}
    (hparts : ∀ part ∈ parts, part ≠ .any ∧ part ≠ .one) :
    ∀ previous, (renderAfter depth variant previous parts).2 = false ∧
      wordLang same (renderAfter depth variant previous parts).1 =
        selectedLang same depth variant parts := by
  induction parts with
  | nil =>
      intro previous
      refine ⟨rfl, ?_⟩
      rw [← lang_map_lit]
      rfl
  | cons part parts ih =>
      intro previous
      have ih := ih fun p hp => hparts p (List.mem_cons_of_mem _ hp)
      have hpart := hparts part List.mem_cons_self
      cases part with
      | any => exact absurd rfl hpart.1
      | one => exact absurd rfl hpart.2
      | lit c =>
          obtain ⟨hwild, hlang⟩ := ih (some [c])
          refine ⟨hwild, ?_⟩
          simp only [renderAfter, selectedLang_cons, Part.selected, Part.lang]
          rw [← hlang, ← wordLang_singleton, ← wordLang_append]
          rfl
      | ladder depths =>
          obtain ⟨hwild, hlang⟩ := ih (some (ladderPiece depth variant depths))
          refine ⟨hwild, ?_⟩
          rw [selectedLang_cons, ← hlang]
          change wordLang same (ladderPiece depth variant depths ++ _) = _
          rw [wordLang_append]
          rfl

/-- A language completed at its edges: one that is not anchored allows
anything. -/
def framed (anchoredStart anchoredEnd : Bool) (X : Language Char) : Language Char :=
  (if anchoredStart then 1 else ⊤) * X * if anchoredEnd then 1 else ⊤

theorem mem_framed {anchoredStart anchoredEnd : Bool} {X : Language Char} {s : Str} :
    s ∈ framed anchoredStart anchoredEnd X ↔
      ∃ u w v, s = u ++ w ++ v ∧ (anchoredStart = true → u = []) ∧
        (anchoredEnd = true → v = []) ∧ w ∈ X := by
  have hedge : ∀ (anchored : Bool) (x : Str),
      x ∈ (if anchored then (1 : Language Char) else ⊤) ↔ (anchored = true → x = []) := by
    intro anchored x
    cases anchored <;> simp [Language.mem_one]
  simp only [framed, Language.mem_mul, hedge]
  constructor
  · rintro ⟨_, ⟨u, hu, w, hw, rfl⟩, v, hv, rfl⟩
    exact ⟨u, w, v, rfl, hu, hv, hw⟩
  · rintro ⟨u, w, v, rfl, hu, hv, hw⟩
    exact ⟨_, ⟨u, hu, w, hw, rfl⟩, v, hv, rfl⟩

theorem lang_frame (anchoredStart anchoredEnd : Bool) (rendered : Str) :
    lang same (ofText (frame anchoredStart anchoredEnd rendered)) =
      framed anchoredStart anchoredEnd (lang same (ofText rendered)) := by
  have hrun : lang same (ofText ['*']) = ⊤ := by
    rw [lang_run, ofText_nil, lang_nil, mul_one]
  cases anchoredStart <;> cases anchoredEnd <;>
    simp [frame, framed, hrun, lang_run, mul_assoc]

end

/-- Everything an accepted translation went through. -/
structure Accepted (t : CharTables) (source : Str) (result : RegexResult) (src : Str)
    (alts : List Parts) (s : Scan) (depths : Nat) : Prop where
  flags : readInlineFlags source = .ok (result.caseInsensitive, src)
  parsed : parseAlternation t 9 ⟨innerText src, false, false⟩ = .ok (alts, s)
  rest : s.rest = []
  lossy : s.lossy = result.lossy
  narrowed : s.narrowed = result.narrowed
  depth : ladderDepth alts = some depths
  values : result.values = emittedValues src (renderAll alts depths)
  wildcard : result.wildcard = (!startAnchored src || !endAnchored src ||
    (renderAll alts depths).any fun r => r.2)
  plain : result.wildcard = true → alts.any hasLiteralWildcard = false

/-- What a translation that is accepted went through. -/
theorem translate_ok {t : CharTables} {source : Str} {result : RegexResult}
    (h : translate t source = .ok result) :
    ∃ src alts s depths, Accepted t source result src alts s depths := by
  simp only [translate] at h
  split at h
  · cases h
  · split at h
    · cases h
    · rename_i ci src hflags
      split at h
      · cases h
      · rename_i alts s hparsed
        split at h
        · cases h
        · rename_i hrest
          split at h
          · cases h
          · rename_i depths hdepth
            split at h
            · cases h
            · split at h
              · cases h
              · split at h
                · cases h
                · rename_i hwild
                  cases h
                  exact ⟨src, alts, s, depths, hflags, hparsed, not_not.mp hrest, rfl, rfl,
                    hdepth, rfl, rfl, fun hw => by
                      by_contra hplain
                      exact hwild ⟨hw, by simpa using hplain⟩⟩

/-- The source is its inner text between its anchors. -/
theorem source_eq (src : Str) :
    src = (if startAnchored src then ['^'] else []) ++
      (innerText src ++ if endAnchored src then ['$'] else []) := by
  have hbody : src = (if startAnchored src then ['^'] else []) ++ bodyText src := by
    unfold bodyText
    by_cases h : startAnchored src = true
    · cases src with
      | nil => simp [startAnchored] at h
      | cons c rest =>
          have hc : c = '^' := by simpa [startAnchored] using h
          rw [if_pos h, if_pos h, hc]
          rfl
    · simp [h]
  have hinner : bodyText src = innerText src ++ if endAnchored src then ['$'] else [] := by
    unfold innerText
    by_cases h : endAnchored src = true
    · have hsuffix : "$".toList <:+ bodyText src := by
        have h' := h
        simp only [endAnchored, Bool.and_eq_true, List.isSuffixOf_iff_suffix] at h'
        exact h'.1
      obtain ⟨x, hx⟩ := hsuffix
      have hx' : bodyText src = x ++ ['$'] := hx.symm
      simp [h, hx']
    · simp [h]
  rw [← hinner]
  exact hbody

/-- The reference reads the same flags. -/
theorem parse_ok {source : Str} {ci ci' : Bool} {src : Str} {r : Regex}
    (hflags : readInlineFlags source = .ok (ci, src))
    (h : Pcre.parse source = some (ci', r)) :
    ci' = ci ∧ ∃ fuel, Pcre.parseAlt fuel src = some (r, []) := by
  have hread : ∃ letters, readFlags source = (letters, src) ∧ ci = decide ('i' ∈ letters) := by
    simp only [readInlineFlags] at hflags
    split at hflags
    · rename_i hprefix
      split at hflags
      · cases hflags
        exact ⟨_, by rw [readFlags, if_pos hprefix], rfl⟩
      · cases hflags
    · rename_i hprefix
      cases hflags
      exact ⟨[], by rw [readFlags, if_neg hprefix], rfl⟩
  obtain ⟨letters, hread, rfl⟩ := hread
  simp only [Pcre.parse, hread] at h
  split at h
  · split at h
    · rename_i r' hparse
      cases h
      exact ⟨rfl, _, hparse⟩
    · cases h
  · cases h

end ModSecurity
