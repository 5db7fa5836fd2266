import ControlTranslation.RegexTranslation

/-!
# The guarantees of the regex translator

The three promises attached to the flags of a translation: with neither flag
the values match exactly what the regex finds, with `lossy` they match at least
that, and with `narrowed` at most that.  Each holds under the conditions of
`FaithfulSource` that concern it, and each condition is shown to be needed by a
source the translator accepts.
-/

namespace ModSecurity

open PyText Pcre Glob

section

variable {t : CharTables}

theorem mem_ladders {alts : List Parts} {parts : Parts} {depths : List (List Str)}
    (hparts : parts ∈ alts) (h : .ladder depths ∈ parts) : depths ∈ ladders alts :=
  List.mem_flatMap.mpr ⟨parts, hparts, List.mem_filterMap.mpr ⟨.ladder depths, h, rfl⟩⟩

/-- Every ladder has the depth shared by all. -/
theorem ladder_length {alts : List Parts} {n : Nat} (h : ladderDepth alts = some n)
    {depths : List (List Str)} (hmem : depths ∈ ladders alts) : depths.length = n := by
  unfold ladderDepth at h
  split at h
  · rename_i hnil
    rw [hnil] at hmem
    cases hmem
  · rename_i first rest hcons
    split at h
    · rename_i hall
      obtain rfl := Option.some.inj h
      rw [hcons] at hmem
      rcases List.mem_cons.mp hmem with rfl | hmem
      · rfl
      · simpa using List.all_eq_true.mp hall depths hmem
    · cases h

/-- A rendering: a depth, an alias and an alternative. -/
theorem mem_renderAll {alts : List Parts} {depths : Nat} {rendered : Str × Bool} :
    rendered ∈ renderAll alts depths ↔ ∃ depth < depths,
      ∃ variant < ladderVariants alts depth, ∃ parts ∈ alts,
        rendered = render depth variant parts := by
  simp only [renderAll, List.mem_flatMap, List.mem_range, List.mem_map, eq_comm]

/-- **What the values match**: at some depth and alias, a framed alternative. -/
theorem accepts_iff_selected {source : Str} {result : RegexResult} {src : Str}
    {alts : List Parts} {s : Scan} {depths : Nat}
    (h : Accepted t source result src alts s depths)
    (hfull : ∀ parts ∈ alts, ∀ d, .ladder d ∈ parts → [] ∉ d)
    (hplain : result.wildcard = true → ∀ parts ∈ alts, ∀ part ∈ parts, part.mentions = false)
    {subject : Str} :
    result.accepts subject = true ↔ ∃ depth < depths,
      ∃ variant < ladderVariants alts depth, ∃ parts ∈ alts,
        subject ∈ framed (startAnchored src) (endAnchored src)
          (selectedLang (sameChar result.caseInsensitive) depth variant parts) := by
  have hladder : ∀ depth < depths, ∀ parts ∈ alts, ∀ d, .ladder d ∈ parts →
      [] ∉ d ∧ depth < d.length := by
    intro depth hdepth parts hparts d hd
    rw [ladder_length h.depth (mem_ladders hparts hd)]
    exact ⟨hfull parts hparts d hd, hdepth⟩
  have hvalue : ∀ depth < depths, ∀ variant < ladderVariants alts depth, ∀ parts ∈ alts,
      (Glob.accepts (sameChar result.caseInsensitive)
        (if result.wildcard then
          ofText (frame (startAnchored src) (endAnchored src) (render depth variant parts).1)
        else (frame (startAnchored src) (endAnchored src)
          (render depth variant parts).1).map .lit) subject = true ↔
        subject ∈ framed (startAnchored src) (endAnchored src)
          (selectedLang (sameChar result.caseInsensitive) depth variant parts)) := by
    intro depth hdepth variant hvariant parts hparts
    rw [Glob.accepts_iff]
    cases hwild : result.wildcard with
    | true =>
        have hrender := lang_renderAfter (sameChar result.caseInsensitive) depth variant
          (hplain hwild parts hparts) (hladder depth hdepth parts hparts) none
        simp only [afterRun, reduceCtorEq, if_false, one_mul] at hrender
        rw [if_pos rfl, lang_frame, render, hrender]
    | false =>
        have hnone := h.wildcard
        rw [hwild, eq_comm, Bool.or_eq_false_iff, Bool.or_eq_false_iff,
          Bool.not_eq_false', Bool.not_eq_false'] at hnone
        obtain ⟨⟨hstart, hend⟩, hrendered⟩ := hnone
        have hlit : (render depth variant parts).2 = false := by
          have := List.any_eq_false.mp hrendered _
            (mem_renderAll.mpr ⟨depth, hdepth, variant, hvariant, parts, hparts, rfl⟩)
          simpa using this
        have hrender := (renderAfter_literal (sameChar result.caseInsensitive) depth variant
          (renderAfter_wild depth variant parts none hlit) none).2
        rw [if_neg (by simp), lang_map_lit, hstart, hend]
        simp only [frame, if_true, List.append_nil, framed, one_mul, mul_one]
        rw [render, hrender]
  simp only [RegexResult.accepts, List.any_eq_true, h.values, emittedValues, mem_unique,
    List.mem_map]
  constructor
  · rintro ⟨_, ⟨rendered, hrendered, rfl⟩, hacc⟩
    obtain ⟨depth, hdepth, variant, hvariant, parts, hparts, rfl⟩ :=
      mem_renderAll.mp hrendered
    exact ⟨depth, hdepth, variant, hvariant, parts, hparts,
      (hvalue depth hdepth variant hvariant parts hparts).mp hacc⟩
  · rintro ⟨depth, hdepth, variant, hvariant, parts, hparts, hmem⟩
    exact ⟨_, ⟨_, mem_renderAll.mpr ⟨depth, hdepth, variant, hvariant, parts, hparts, rfl⟩,
      rfl⟩, (hvalue depth hdepth variant hvariant parts hparts).mpr hmem⟩

theorem framed_mono {a e : Bool} {X Y : Language Char} (h : X ≤ Y) :
    framed a e X ≤ framed a e Y := by
  intro s hs
  obtain ⟨u, w, v, rfl, hu, hv, hw⟩ := mem_framed.mp hs
  exact mem_framed.mpr ⟨u, w, v, rfl, hu, hv, h hw⟩

/-- Reading the ladders at one depth only drops words. -/
theorem selectedLang_le {same : Char → Char → Bool} {depth variant : Nat} {parts : Parts}
    (hladder : ∀ d, .ladder d ∈ parts → [] ∉ d ∧ depth < d.length) :
    selectedLang same depth variant parts ≤ partsLang same parts := by
  induction parts with
  | nil => exact le_refl _
  | cons part parts ih =>
      have ih := ih fun d hd => hladder d (List.mem_cons_of_mem _ hd)
      rw [selectedLang_cons, partsLang_cons]
      have hpart : part.selected same depth variant ≤ part.lang same := by
        cases part with
        | ladder depths =>
            obtain ⟨hfull, hlt⟩ := hladder depths List.mem_cons_self
            exact fun w hw => mem_sumLang.mpr ⟨_, ladderPiece_mem hfull hlt, hw⟩
        | _ => exact le_refl _
      intro w hw
      obtain ⟨u, hu, v, hv, rfl⟩ := Language.mem_mul.mp hw
      exact Language.mem_mul.mpr ⟨u, hpart hu, v, ih hv, rfl⟩

/-- Without ladders nothing is selected away. -/
theorem selectedLang_eq {same : Char → Char → Bool} {depth variant : Nat} {parts : Parts}
    (hladder : ∀ part ∈ parts, part.isLadder = false) :
    selectedLang same depth variant parts = partsLang same parts := by
  induction parts with
  | nil => rfl
  | cons part parts ih =>
      rw [selectedLang_cons, partsLang_cons,
        ih fun p hp => hladder p (List.mem_cons_of_mem _ hp)]
      cases part with
      | ladder depths => cases hladder _ List.mem_cons_self
      | _ => rfl

/-- Without ladders the values match the framed alternatives. -/
theorem accepts_iff_of_noLadder {source : Str} {result : RegexResult} {src : Str}
    {alts : List Parts} {s : Scan} {depths : Nat}
    (h : Accepted t source result src alts s depths)
    (hladder : ∀ parts ∈ alts, ∀ part ∈ parts, part.isLadder = false) {subject : Str} :
    result.accepts subject = true ↔
      subject ∈ framed (startAnchored src) (endAnchored src)
        (altLang (sameChar result.caseInsensitive) alts) := by
  have hnone : ladders alts = [] := by
    rw [ladders, List.flatMap_eq_nil_iff]
    intro parts hparts
    rw [List.filterMap_eq_nil_iff]
    intro part hpart
    have := hladder parts hparts part hpart
    cases part with
    | ladder depths => cases this
    | _ => rfl
  have hdepth : depths = 1 := by
    have hd := h.depth
    rw [ladderDepth, hnone] at hd
    exact (Option.some.inj hd).symm
  have hvariants : ∀ depth, ladderVariants alts depth = 1 := by
    intro depth
    rw [ladderVariants, hnone]
  have hplain : result.wildcard = true →
      ∀ parts ∈ alts, ∀ part ∈ parts, part.mentions = false := by
    intro hw parts hparts part hpart
    have hlit := List.any_eq_false.mp (h.plain hw) parts hparts
    rw [hasLiteralWildcard, Bool.not_eq_true, List.any_eq_false] at hlit
    have hpart' := hlit part hpart
    cases part with
    | lit c => simpa [Part.mentions, isWildcardChar] using hpart'
    | ladder depths => cases hladder parts hparts _ hpart
    | _ => rfl
  rw [accepts_iff_selected h
    (fun parts hparts d hd => by cases hladder parts hparts _ hd) hplain]
  constructor
  · rintro ⟨depth, -, variant, -, parts, hparts, hmem⟩
    rw [selectedLang_eq (hladder parts hparts)] at hmem
    exact framed_mono (fun w hw => mem_sumLang.mpr ⟨parts, hparts, hw⟩) hmem
  · intro hmem
    obtain ⟨u, w, v, rfl, hu, hv, hw⟩ := mem_framed.mp hmem
    obtain ⟨parts, hparts, hw⟩ := mem_sumLang.mp hw
    refine ⟨0, by omega, 0, by rw [hvariants]; omega, parts, hparts, ?_⟩
    rw [selectedLang_eq (hladder parts hparts)]
    exact mem_framed.mpr ⟨u, w, v, rfl, hu, hv, hw⟩

/-- A branch is a chain of items, never an alternation. -/
theorem addBol_of_parseCat {fuel : Nat} {x y : Str} {r : Regex}
    (h : Pcre.parseCat fuel x = some (r, y)) : r.addBol = .cat .bol r := by
  cases fuel with
  | zero => cases h
  | succ fuel =>
      simp only [Pcre.parseCat] at h
      split at h
      · cases h
        rfl
      · split at h
        · cases h
          rfl
        · split at h
          · cases h
          · obtain ⟨p, -, heq⟩ := Option.map_eq_some_iff.mp h
            cases heq
            rfl

/-- A start anchor joins the first branch of what follows it. -/
theorem parseAlt_bol {fuel : Nat} {x y : Str} {r : Regex}
    (h : Pcre.parseAlt fuel ('^' :: x) = some (r, y)) :
    ∃ fuel' r₀, Pcre.parseAlt fuel' x = some (r₀, y) ∧ r = r₀.addBol := by
  match fuel with
  | 0 => cases h
  | 1 => simp [Pcre.parseAlt, Pcre.parseCat] at h
  | 2 => simp [Pcre.parseAlt, Pcre.parseCat, Pcre.parseAtom] at h
  | fuel + 3 =>
      have hatom : Pcre.parseAtom (fuel + 1) ('^' :: x) = some (.bol, x) := by
        simp [Pcre.parseAtom]
      have hquant : quantify .bol x = (.bol, x) := rfl
      have hcat : Pcre.parseCat (fuel + 2) ('^' :: x) =
          (Pcre.parseCat (fuel + 1) x).map fun p => (.cat .bol p.1, p.2) := by
        simp [Pcre.parseCat, hatom, hquant]
      rw [Pcre.parseAlt, hcat] at h
      cases hfirst : Pcre.parseCat (fuel + 1) x with
      | none =>
          rw [hfirst] at h
          cases h
      | some first =>
          obtain ⟨r₁, rest⟩ := first
          rw [hfirst] at h
          -- Enough fuel for what follows the anchor and for the other branches.
          have hfirst' := (parse_fuel _).2.1 hfirst
            (le_max_left (3 * x.length + 2) (3 * rest.tail.length + 3))
          refine ⟨max (3 * x.length + 2) (3 * rest.tail.length + 3) + 1, ?_⟩
          simp only [Option.map_some] at h
          rw [Pcre.parseAlt, hfirst']
          split at h
          · rename_i hbar
            obtain ⟨⟨r₂, y₂⟩, hrest, heq⟩ := Option.map_eq_some_iff.mp h
            cases heq
            refine ⟨.alt r₁ r₂, ?_, rfl⟩
            simp only [if_pos hbar]
            rw [(parse_fuel _).1 hrest (le_max_right _ _)]
            rfl
          · rename_i hbar
            cases h
            exact ⟨r₁, by simp only [if_neg hbar], (addBol_of_parseCat hfirst).symm⟩

/-- The tree of a source, from that of its inner text. -/
def anchoredTree (src : Str) (r : Regex) : Regex :=
  if startAnchored src then (if endAnchored src then r.addEol else r).addBol
  else if endAnchored src then r.addEol else r

/-- What holds of every node of the anchored pattern holds of the pattern. -/
theorem every_of_anchoredTree {src : Str} {r : Regex} {p : Regex → Bool}
    (h : (anchoredTree src r).every p = true) : r.every p = true := by
  unfold anchoredTree at h
  split at h <;> split at h
  · exact every_of_addEol (every_of_addBol h)
  · exact every_of_addBol h
  · exact every_of_addEol h
  · exact h

theorem alternates_anchoredTree (src : Str) (r : Regex) :
    (anchoredTree src r).alternates = r.alternates := by
  unfold anchoredTree
  split <;> split <;> simp

/-- A match of the anchored pattern is one of the pattern. -/
theorem mem_run_of_anchoredTree {env : Env} {src : Str} {r : Regex} {c c' : Cursor}
    (h : c' ∈ run env (anchoredTree src r) c) : c' ∈ run env r c := by
  unfold anchoredTree at h
  split at h <;> split at h
  · exact mem_run_of_addEol (mem_run_of_addBol h)
  · exact mem_run_of_addBol h
  · exact mem_run_of_addEol h
  · exact h

/-- A match of the pattern at the edges is one of the anchored pattern. -/
theorem mem_run_anchoredTree {env : Env} {src : Str} {r : Regex} {c c' : Cursor}
    (h : c' ∈ run env r c) (hstart : startAnchored src = true → c.before = [])
    (hend : endAnchored src = true → c'.after = []) :
    c' ∈ run env (anchoredTree src r) c := by
  unfold anchoredTree
  split <;> split
  · exact mem_run_addBol (mem_run_addEol h (hend ‹_›)) (hstart ‹_›)
  · exact mem_run_addBol h (hstart ‹_›)
  · exact mem_run_addEol h (hend ‹_›)
  · exact h

/-- Without a top-level alternation both anchors bind. -/
theorem edges_of_anchoredTree {env : Env} {src : Str} {r : Regex} {c c' : Cursor}
    (hr : r.alternates = false) (h : c' ∈ run env (anchoredTree src r) c) :
    (startAnchored src = true → c.before = []) ∧
      (endAnchored src = true → c'.after = []) := by
  unfold anchoredTree at h
  constructor
  · intro hstart
    rw [if_pos hstart] at h
    refine before_of_run_addBol ?_ h
    split <;> simp [hr]
  · intro hend
    rw [if_pos hend] at h
    split at h
    · exact after_of_run_addEol hr (mem_run_of_addBol h)
    · exact after_of_run_addEol hr h

/-- The tree of an accepted source and the alternatives of its translation. -/
theorem tree_of_accepted {source : Str} {result : RegexResult} {src : Str}
    {alts : List Parts} {s : Scan} {depths : Nat} {ci : Bool} {r : Regex}
    (oracle : List Char → Char → Bool)
    (h : Accepted t source result src alts s depths)
    (hparse : Pcre.parse source = some (ci, r)) (hlex : r.every sameLexeme = true) :
    ci = result.caseInsensitive ∧ ∃ r₀, r = anchoredTree src r₀ ∧
      Image t ⟨ci, oracle⟩ r₀ alts result.lossy result.narrowed := by
  obtain ⟨rfl, fuel, hfuel⟩ := parse_ok h.flags hparse
  refine ⟨rfl, ?_⟩
  let sfx : Str := if endAnchored src then ['$'] else []
  have hsfx : sfx = [] ∨ sfx = ['$'] := by
    by_cases hend : endAnchored src = true
    · exact Or.inr (if_pos hend)
    · exact Or.inl (if_neg hend)
  have hinner : ∃ fuel' r', Pcre.parseAlt fuel' (innerText src ++ sfx) = some (r', []) ∧
      r = if startAnchored src then r'.addBol else r' := by
    rw [source_eq src] at hfuel
    by_cases hstart : startAnchored src = true
    · rw [if_pos hstart] at hfuel
      obtain ⟨fuel', r', hr', rfl⟩ := parseAlt_bol hfuel
      exact ⟨fuel', r', hr', (if_pos hstart).symm⟩
    · rw [if_neg hstart] at hfuel
      exact ⟨fuel, r, hfuel, (if_neg hstart).symm⟩
  obtain ⟨fuel', r', hr', rfl⟩ := hinner
  have hlex' : r'.every sameLexeme = true := by
    split at hlex
    · exact every_of_addBol hlex
    · exact hlex
  have hagrees : ParserAgrees t ⟨result.caseInsensitive, oracle⟩ sfx
      (parseAlternation t 9) Pcre.parseAlt := alternation_agrees hsfx 9
  obtain ⟨r₀, hends, himage, -⟩ := hagrees h.parsed hr' hlex'
  rw [h.lossy, h.narrowed] at himage
  refine ⟨r₀, ?_, himage⟩
  have hr₀ : r' = if endAnchored src then r₀.addEol else r₀ := by
    rcases hends with ⟨hrest, rfl, -⟩ | ⟨-, hne, rfl, -⟩
    · have hnil : sfx = [] := hrest.elim (fun hrest => absurd h.rest hrest) id
      by_cases hend : endAnchored src = true
      · rw [show sfx = ['$'] from if_pos hend] at hnil
        cases hnil
      · rw [if_neg hend]
    · by_cases hend : endAnchored src = true
      · rw [if_pos hend]
      · exact absurd (if_neg hend) hne
  rw [hr₀]
  unfold anchoredTree
  rfl

/-- The search, as a split of the subject. -/
theorem search_iff {oracle : List Char → Char → Bool} {source subject : Str} {ci : Bool}
    {r : Regex} (hparse : Pcre.parse source = some (ci, r)) :
    Pcre.search oracle source subject = true ↔
      ∃ u v c', subject = u ++ v ∧ c' ∈ run ⟨ci, oracle⟩ r ⟨u.reverse, v⟩ := by
  simp only [Pcre.search, hparse, List.any_eq_true, List.mem_range, Bool.not_eq_true',
    List.isEmpty_eq_false_iff_exists_mem]
  constructor
  · rintro ⟨n, -, c', hc'⟩
    exact ⟨subject.take n, subject.drop n, c', (List.take_append_drop n subject).symm, hc'⟩
  · rintro ⟨u, v, c', rfl, hc'⟩
    refine ⟨u.length, by rw [List.length_append]; omega, c', ?_⟩
    rwa [List.take_left, List.drop_left]

end

/-- An edge anchor binds the whole source: there is none, or no alternation at
top level. -/
def edgesBind (source : Str) (r : Regex) : Bool :=
  let src := (readFlags source).2
  !(startAnchored src || endAnchored src) || !r.alternates

/-- Nothing in a value can be read as a wildcard by mistake: the source has no
literal `*` or `?`, or it has no wildcard because it is anchored at both edges
and has no dot. -/
def wildcardsApart (t : CharTables) (source : Str) (r : Regex) : Bool :=
  let src := (readFlags source).2
  !mentionsWildcard t r || (startAnchored src && endAnchored src && !r.hasDot)

section

variable {t : CharTables}

/-- The source that is translated is the one without its flags. -/
theorem readFlags_of_accepted {source : Str} {result : RegexResult} {src : Str}
    {alts : List Parts} {s : Scan} {depths : Nat}
    (h : Accepted t source result src alts s depths) : (readFlags source).2 = src := by
  have hflags := h.flags
  simp only [readInlineFlags] at hflags
  split at hflags
  · rename_i hprefix
    split at hflags
    · rw [readFlags, if_pos hprefix]
      exact (Prod.mk.inj (Except.ok.inj hflags)).2
    · cases hflags
  · rename_i hprefix
    rw [readFlags, if_neg hprefix]
    exact (Prod.mk.inj (Except.ok.inj hflags)).2

/-- Whatever the search finds lies in the framed language of the alternatives. -/
theorem framed_of_search {source subject : Str} {src : Str} {alts : List Parts} {ci : Bool}
    {r₀ : Regex} {lossy narrowed : Bool} {oracle : List Char → Char → Bool}
    (hparse : Pcre.parse source = some (ci, anchoredTree src r₀))
    (himage : Image t ⟨ci, oracle⟩ r₀ alts lossy narrowed)
    (hcovered : r₀.every (covered t) = true)
    (hedge : startAnchored src = true ∨ endAnchored src = true → r₀.alternates = false)
    (h : Pcre.search oracle source subject = true) :
    subject ∈ framed (startAnchored src) (endAnchored src) (altLang (sameChar ci) alts) := by
  obtain ⟨u, v, c', rfl, hc'⟩ := (search_iff hparse).mp h
  obtain ⟨w, hw, hv, -⟩ := himage.upper hcovered _ _ (mem_run_of_anchoredTree hc')
  rw [mem_framed]
  refine ⟨u, w, c'.after, by rw [List.append_assoc]; exact congrArg (u ++ ·) hv, ?_, ?_, hw⟩
  · intro hstart
    have := (edges_of_anchoredTree (hedge (Or.inl hstart)) hc').1 hstart
    simpa using this
  · intro hend
    exact (edges_of_anchoredTree (hedge (Or.inr hend)) hc').2 hend

/-- Whatever lies in the framed language of the alternatives is found. -/
theorem search_of_framed {source subject : Str} {src : Str} {alts : List Parts} {ci : Bool}
    {r₀ : Regex} {narrowed : Bool} {oracle : List Char → Char → Bool}
    (hparse : Pcre.parse source = some (ci, anchoredTree src r₀))
    (himage : Image t ⟨ci, oracle⟩ r₀ alts false narrowed)
    (hexact : r₀.every (exact t) = true)
    (h : subject ∈ framed (startAnchored src) (endAnchored src)
      (altLang (sameChar ci) alts)) :
    Pcre.search oracle source subject = true := by
  obtain ⟨u, w, v, rfl, hu, hv, hw⟩ := mem_framed.mp h
  rw [search_iff hparse]
  refine ⟨u, w ++ v, ⟨w.reverse ++ u.reverse, v⟩, by simp, ?_⟩
  refine mem_run_anchoredTree (himage.lower rfl hexact _ _ w hw ⟨rfl, rfl⟩) ?_ ?_
  · intro hstart
    simp [hu hstart]
  · exact hv

/-- Where the anchors bind, the pattern has no alternatives beside them. -/
theorem alternates_of_edgesBind {source : Str} {src : Str} {r₀ : Regex}
    (hsrc : (readFlags source).2 = src)
    (hedge : edgesBind source (anchoredTree src r₀) = true) :
    startAnchored src = true ∨ endAnchored src = true → r₀.alternates = false := by
  intro h
  simp only [edgesBind, hsrc, alternates_anchoredTree, Bool.or_eq_true,
    Bool.not_eq_true'] at hedge
  rcases hedge with hedge | hedge
  · rcases h with h | h <;> simp [h] at hedge
  · exact hedge

/-- **Exactness.**  A translation with neither flag matches exactly what the
search finds, when both readers see the same tokens, every item is kept as it
is, and the anchors bind the whole source. -/
theorem translate_exact {source : Str} {result : RegexResult} {ci : Bool} {r : Regex}
    (oracle : List Char → Char → Bool) (h : translate t source = .ok result)
    (hlossy : result.lossy = false) (hnarrowed : result.narrowed = false)
    (hparse : Pcre.parse source = some (ci, r)) (hedge : edgesBind source r = true)
    (hlex : r.every sameLexeme = true) (hcovered : r.every (covered t) = true)
    (hexact : r.every (exact t) = true) (subject : Str) :
    result.accepts subject = Pcre.search oracle source subject := by
  obtain ⟨src, alts, s, depths, hacc⟩ := translate_ok h
  obtain ⟨rfl, r₀, rfl, himage⟩ := tree_of_accepted oracle hacc hparse hlex
  rw [hlossy, hnarrowed] at himage
  rw [Bool.eq_iff_iff, accepts_iff_of_noLadder hacc
    fun parts hp part hpart => (himage.parts parts hp part hpart).noLadder rfl]
  exact ⟨search_of_framed hparse himage (every_of_anchoredTree hexact),
    framed_of_search hparse himage (every_of_anchoredTree hcovered)
      (alternates_of_edgesBind (readFlags_of_accepted hacc) hedge)⟩

/-- `^a|b` is emitted as if the anchor bound both branches. -/
theorem translate_inexact_at_branch_anchor :
    ¬ ∀ (t : CharTables) (oracle : List Char → Char → Bool) (source : Str)
        (result : RegexResult), translate t source = .ok result → result.lossy = false →
      result.narrowed = false → (Pcre.parse source).isSome = true →
      ∀ subject, result.accepts subject = Pcre.search oracle source subject := by
  intro h
  have hbad := h asciiTables (fun _ _ => false) "^a|b".toList
    ⟨["a*".toList, "b*".toList], true, false, false, false⟩ (by decide +kernel) rfl rfl
    (by decide +kernel) "xb".toList
  exact absurd hbad (by decide +kernel)

/-- A dot, repeated, is translated exactly. -/
theorem translate_exact_dot_plus :
    RegexResult.accepts ⟨["a?*c*".toList], true, false, false, false⟩ "abcd".toList =
      Pcre.search (fun _ _ => false) "^a.+c".toList "abcd".toList := by
  have htranslate : translate asciiTables "^a.+c".toList =
      .ok ⟨["a?*c*".toList], true, false, false, false⟩ := by decide +kernel
  have hparse : Pcre.parse "^a.+c".toList =
      some (false, .cat .bol (.cat (.char 'a') (.cat (.rep .dot .plus .greedy)
        (.cat (.char 'c') .empty)))) := by decide +kernel
  exact translate_exact _ htranslate rfl rfl hparse (by decide +kernel) (by decide +kernel)
    (by decide +kernel) (by decide +kernel) "abcd".toList

/-- **Coverage.**  A widened translation matches whatever the search finds. -/
theorem translate_covers {source : Str} {result : RegexResult} {ci : Bool} {r : Regex}
    (oracle : List Char → Char → Bool) (h : translate t source = .ok result)
    (hlossy : result.lossy = true) (hnarrowed : result.narrowed = false)
    (hparse : Pcre.parse source = some (ci, r)) (hedge : edgesBind source r = true)
    (hlex : r.every sameLexeme = true) (hcovered : r.every (covered t) = true)
    (subject : Str) (hfound : Pcre.search oracle source subject = true) :
    result.accepts subject = true := by
  obtain ⟨src, alts, s, depths, hacc⟩ := translate_ok h
  obtain ⟨rfl, r₀, rfl, himage⟩ := tree_of_accepted oracle hacc hparse hlex
  rw [hlossy, hnarrowed] at himage
  rw [accepts_iff_of_noLadder hacc
    fun parts hp part hpart => (himage.parts parts hp part hpart).noLadder rfl]
  exact framed_of_search hparse himage (every_of_anchoredTree hcovered)
    (alternates_of_edgesBind (readFlags_of_accepted hacc) hedge) hfound

/-- The class of `[]a]\d` ends at its second bracket, not at its first. -/
theorem translate_uncovered_at_leading_bracket :
    ¬ ∀ (t : CharTables) (oracle : List Char → Char → Bool) (source : Str)
        (result : RegexResult), translate t source = .ok result → result.lossy = true →
      result.narrowed = false → ∀ subject, Pcre.search oracle source subject = true →
      result.accepts subject = true := by
  intro h
  have hbad := h asciiTables (fun _ _ => false) "[]a]\\d".toList
    ⟨["*?a]?*".toList], true, false, true, false⟩ (by decide +kernel) rfl rfl
    "a1".toList (by decide +kernel)
  exact absurd hbad (by decide +kernel)

/-- Digits are covered. -/
theorem translate_covers_digits :
    RegexResult.accepts ⟨["*?*?*".toList], true, false, true, false⟩ "id=12".toList = true := by
  have htranslate : translate asciiTables "\\d+[^&]".toList =
      .ok ⟨["*?*?*".toList], true, false, true, false⟩ := by decide +kernel
  have hparse : Pcre.parse "\\d+[^&]".toList =
      some (false, .cat (.rep (.shorthand 'd') .plus .greedy)
        (.cat (.bracket ['^', '&'] true (some [.char '&'])) .empty)) := by decide +kernel
  exact translate_covers (fun _ _ => false) htranslate rfl rfl hparse (by decide +kernel)
    (by decide +kernel) (by decide +kernel) "id=12".toList (by decide +kernel)

/-- **No over-blocking.**  A translation narrowed by aligning encoding ladders
matches only what the search finds. -/
theorem translate_within {source : Str} {result : RegexResult} {ci : Bool} {r : Regex}
    (oracle : List Char → Char → Bool) (h : translate t source = .ok result)
    (hlossy : result.lossy = false) (hnarrowed : result.narrowed = true)
    (hparse : Pcre.parse source = some (ci, r)) (hlex : r.every sameLexeme = true)
    (hexact : r.every (exact t) = true) (hapart : wildcardsApart t source r = true)
    (subject : Str) (haccepts : result.accepts subject = true) :
    Pcre.search oracle source subject = true := by
  obtain ⟨src, alts, s, depths, hacc⟩ := translate_ok h
  obtain ⟨rfl, r₀, rfl, himage⟩ := tree_of_accepted oracle hacc hparse hlex
  rw [hlossy, hnarrowed] at himage
  have hfull : ∀ parts ∈ alts, ∀ d, .ladder d ∈ parts → [] ∉ d :=
    fun parts hp d hd => (himage.parts parts hp _ hd).fullLadder d rfl
  have hplain : result.wildcard = true →
      ∀ parts ∈ alts, ∀ part ∈ parts, part.mentions = false := by
    intro hw parts hparts part hpart
    simp only [wildcardsApart, readFlags_of_accepted hacc, Bool.or_eq_true,
      Bool.and_eq_true, Bool.not_eq_true'] at hapart
    rcases hapart with hliteral | ⟨⟨hstart, hend⟩, hdot⟩
    · by_contra hmentions
      have hr₀ := (himage.parts parts hparts part hpart).literal (by simpa using hmentions)
      rw [mentionsWildcard, Bool.not_eq_true'] at hr₀
      rw [mentionsWildcard, Bool.not_eq_false'] at hliteral
      rw [every_of_anchoredTree hliteral] at hr₀
      cases hr₀
    · -- Fully anchored and without a dot, no rendering uses a wildcard.
      rw [hacc.wildcard, hstart, hend, Bool.not_true, Bool.false_or, Bool.false_or,
        List.any_eq_true] at hw
      obtain ⟨rendered, hrendered, hwild⟩ := hw
      obtain ⟨depth, -, variant, -, q, hq, rfl⟩ := mem_renderAll.mp hrendered
      have hnone : ∀ p ∈ q, p ≠ .any ∧ p ≠ .one := by
        intro p hp
        have hnot : ¬(p = .any ∨ p = .one) := by
          intro hp'
          have hr₀ := (himage.parts q hq p hp).wild rfl hp'
          rw [Regex.hasDot, Bool.not_eq_true'] at hr₀
          rw [Regex.hasDot, Bool.not_eq_false'] at hdot
          rw [every_of_anchoredTree hdot] at hr₀
          cases hr₀
        exact not_or.mp hnot
      rw [render, (renderAfter_literal (sameChar true) depth variant hnone none).1] at hwild
      cases hwild
  obtain ⟨depth, hdepth, variant, -, parts, hparts, hmem⟩ :=
    (accepts_iff_selected hacc hfull hplain).mp haccepts
  have hladder : ∀ d, .ladder d ∈ parts → [] ∉ d ∧ depth < d.length := by
    intro d hd
    rw [ladder_length hacc.depth (mem_ladders hparts hd)]
    exact ⟨hfull parts hparts d hd, hdepth⟩
  refine search_of_framed hparse himage (every_of_anchoredTree hexact) (framed_mono ?_ hmem)
  exact fun w hw => mem_sumLang.mpr ⟨parts, hparts, selectedLang_le hladder hw⟩

/-- The star that `(?:\*|%2A)` spells out is emitted as a run. -/
theorem translate_beyond_at_literal_star :
    ¬ ∀ (t : CharTables) (oracle : List Char → Char → Bool) (source : Str)
        (result : RegexResult), translate t source = .ok result → result.lossy = false →
      result.narrowed = true → (Pcre.parse source).isSome = true →
      ∀ subject, result.accepts subject = true → Pcre.search oracle source subject = true := by
  intro h
  have hbad := h asciiTables (fun _ _ => false) "(?:\\*|%2A)x".toList
    ⟨["**x*".toList, "*%2Ax*".toList], true, false, false, true⟩ (by decide +kernel) rfl rfl
    (by decide +kernel) "ax".toList (by decide +kernel)
  exact absurd hbad (by decide +kernel)

/-- A ladder of an angle bracket stays within the pattern. -/
theorem translate_within_angle_ladder :
    Pcre.search (fun _ _ => false) "(?:<|%3C)a".toList "x%3Cab".toList = true := by
  have htranslate : translate asciiTables "(?:<|%3C)a".toList =
      .ok ⟨["*<a*".toList, "*%3Ca*".toList], true, false, false, true⟩ := by decide +kernel
  have hparse : Pcre.parse "(?:<|%3C)a".toList =
      some (false, .cat (.group (.alt (.cat (.char '<') .empty)
        (.cat (.char '%') (.cat (.char '3') (.cat (.char 'C') .empty)))))
        (.cat (.char 'a') .empty)) := by decide +kernel
  exact translate_within _ htranslate rfl rfl hparse (by decide +kernel) (by decide +kernel)
    (by decide +kernel) "x%3Cab".toList (by decide +kernel)

end

end ModSecurity
