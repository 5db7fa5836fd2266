import ControlTranslation.PcreBounds

/-!
# Expressions in outline

The outline of an expression is a list of wildcard patterns that together accept
every word it can match: characters and alternatives are kept, a class of plain
characters is one pattern for each of them, and a repetition is one copy followed
by anything.  Whether one wildcard pattern takes every word of another is decided
by reading the second as a word over pattern items, so a bound on an expression is
a finite check on its outline.

The second half is about where a match happens.  Without assertions, and with
every bracket expression spelled out, neither what lies before the match nor the
oracle is looked at.
-/

namespace Glob

section

variable {α : Type} [DecidableEq α]

/-- An item read as a letter: a run is no letter at all. -/
def takesItem : Item α → Item α → Bool
  | .one, i => i ≠ .many
  | .lit a, i => i = .lit a
  | .many, _ => false

/-- The letters of a pattern are its items; a run stays a run. -/
def asItem : Item α → Item (Item α)
  | .many => .many
  | i => .lit i

/-- Whether a pattern takes every word of another, item by item. -/
def covers (pattern outline : List (Item α)) : Bool :=
  accepts takesItem (pattern.map asItem) outline

/-- **A pattern that covers another one takes all its words.** -/
theorem lang_le_of_covers {same : α → α → Bool} {pattern outline : List (Item α)}
    (h : covers pattern outline = true) : lang same outline ≤ lang same pattern := by
  rw [covers, accepts_iff] at h
  induction pattern generalizing outline with
  | nil =>
      rw [List.map_nil, lang_nil, Language.mem_one] at h
      exact le_of_eq (by rw [h])
  | cons i pattern ih =>
      rw [List.map_cons, lang_cons, Language.mem_mul] at h
      obtain ⟨u, hu, v, hv, rfl⟩ := h
      rw [lang_append, lang_cons]
      have hfirst : lang same u ≤ i.lang same := by
        cases i with
        | many => exact le_top_lang _
        | lit a =>
            obtain ⟨x, hx, rfl⟩ := hu
            obtain rfl : x = .lit a := by simpa [takesItem] using hx
            simp [lang]
        | one =>
            obtain ⟨x, hx, rfl⟩ := hu
            cases x with
            | many => simp [takesItem] at hx
            | one => simp [lang]
            | lit b =>
                intro w hw
                have hchar : w ∈ charLang (same b) := by
                  rwa [lang_cons, lang_nil, mul_one] at hw
                obtain ⟨y, -, rfl⟩ := hchar
                exact ⟨y, rfl, rfl⟩
      exact mul_le_mul' hfirst (ih hv)

end

end Glob

namespace Pcre

open Glob (Item lang sumLang charLang sameChar)

/-- The characters of a class that lists plain characters only. -/
def listedChars : List ClassItem → Option (List Char)
  | [] => some []
  | .char c :: rest => (listedChars rest).map (c :: ·)
  | _ :: _ => none

/-- The wildcard patterns that bound an expression. -/
def Regex.outlines : Regex → List (List (Item Char))
  | .char c => [[.lit c]]
  | .brace c => [[.lit c]]
  | .dot => [[.one]]
  | .shorthand _ => [[.one]]
  | .bracket _ negated items =>
      match items.bind listedChars with
      | some cs => if negated then [[.one]] else cs.map fun c => [.lit c]
      | none => [[.one]]
  | .cat a b => a.outlines.flatMap fun p => b.outlines.map fun q => p ++ q
  | .alt a b => a.outlines ++ b.outlines
  | .group r => r.outlines
  | .rep r q _ => if q.min = 0 then [[.many]] else r.outlines.map fun p => p ++ [.many]
  | .empty => [[]]
  | .bol => [[]]
  | .eol => [[]]
  | .boundary _ => [[]]

/-- The words of an outline. -/
def Regex.outlineLang (ci : Bool) (r : Regex) : Language Char :=
  sumLang (lang (sameChar ci)) r.outlines

/-- A character of the class is one of those listed. -/
theorem listedChars_mem {ci : Bool} {items : List ClassItem} {cs : List Char}
    (h : listedChars items = some cs) {x : Char} (hx : (items.any fun i => i.mem ci x) = true) :
    ∃ c ∈ cs, sameChar ci c x = true := by
  induction items generalizing cs with
  | nil => simp at hx
  | cons i items ih =>
      cases i with
      | char c =>
          obtain ⟨cs', hcs', rfl⟩ := Option.map_eq_some_iff.mp h
          rcases Bool.or_eq_true_iff.mp hx with hx | hx
          · exact ⟨c, List.mem_cons_self, hx⟩
          · obtain ⟨d, hd, hsame⟩ := ih hcs' hx
            exact ⟨d, List.mem_cons_of_mem c hd, hsame⟩
      | range lo hi escaped => cases h
      | shorthand letter => cases h

/-- The language of the outlines, outline by outline. -/
theorem mem_outlineLang {ci : Bool} {r : Regex} {w : List Char} :
    w ∈ r.outlineLang ci ↔ ∃ p ∈ r.outlines, w ∈ lang (sameChar ci) p :=
  Glob.mem_sumLang

/-- The outlines of a sequence are those of its parts put together. -/
theorem outlineLang_cat (ci : Bool) (a b : Regex) :
    a.outlineLang ci * b.outlineLang ci ≤ (Regex.cat a b).outlineLang ci := by
  intro w hw
  obtain ⟨u, hu, v, hv, rfl⟩ := Language.mem_mul.mp hw
  obtain ⟨p, hp, hu⟩ := mem_outlineLang.mp hu
  obtain ⟨q, hq, hv⟩ := mem_outlineLang.mp hv
  refine mem_outlineLang.mpr ⟨p ++ q, ?_, ?_⟩
  · exact List.mem_flatMap.mpr ⟨p, hp, List.mem_map.mpr ⟨q, hq, rfl⟩⟩
  · rw [Glob.lang_append]
    exact Language.mem_mul.mpr ⟨u, hu, v, hv, rfl⟩

/-- One copy, and then anything. -/
theorem outlineLang_rep (ci : Bool) (r : Regex) (q : Quant) (m : Marker) :
    r.outlineLang ci ^ q.min * ⊤ ≤ (Regex.rep r q m).outlineLang ci := by
  cases hmin : q.min with
  | zero =>
      have htop : (Regex.rep r q m).outlineLang ci = ⊤ := by
        simp [Regex.outlineLang, Regex.outlines, hmin, Item.lang]
      rw [htop]
      exact Glob.le_top_lang _
  | succ n =>
      intro w hw
      rw [pow_succ', mul_assoc] at hw
      obtain ⟨u, hu, v, -, rfl⟩ := Language.mem_mul.mp hw
      obtain ⟨p, hp, hu⟩ := mem_outlineLang.mp hu
      refine mem_outlineLang.mpr ⟨p ++ [.many], ?_, ?_⟩
      · simpa [Regex.outlines, hmin] using hp
      · rw [Glob.lang_append]
        exact Language.mem_mul.mpr ⟨u, hu, v, by simp [lang, Item.lang], rfl⟩

/-- The outlines of a class have every character of it. -/
theorem outlineLang_bracket {env : Env} {raw : List Char} {negated : Bool}
    {items : Option (List ClassItem)} {x : Char}
    (hx : bracketMem env raw negated items x = true) :
    [x] ∈ (Regex.bracket raw negated items).outlineLang env.caseInsensitive := by
  have hone : [x] ∈ lang (sameChar env.caseInsensitive) [.one] := by
    simp [lang, Item.lang]
  cases hlisted : items.bind listedChars with
  | none => exact mem_outlineLang.mpr ⟨[.one], by simp [Regex.outlines, hlisted], hone⟩
  | some cs =>
      cases negated with
      | true => exact mem_outlineLang.mpr ⟨[.one], by simp [Regex.outlines, hlisted], hone⟩
      | false =>
          obtain ⟨is, rfl, his⟩ := Option.bind_eq_some_iff.mp hlisted
          obtain ⟨c, hc, hsame⟩ := listedChars_mem his (by simpa [bracketMem] using hx)
          refine mem_outlineLang.mpr ⟨[.lit c], ?_, ?_⟩
          · simpa [Regex.outlines, his] using hc
          · simpa [lang, Item.lang] using hsame

/-- **Every match of an expression is in its outline.** -/
theorem upper_outline (env : Env) (r : Regex) :
    Upper (run env r) (r.outlineLang env.caseInsensitive) := by
  have hchar : ∀ a : Char, charLang (sameChar env.caseInsensitive a) ≤
      sumLang (lang (sameChar env.caseInsensitive)) [[.lit a]] := by
    intro a w hw
    simpa [lang, Item.lang] using hw
  have hone : ∀ p : Char → Bool,
      Upper (step p) (sumLang (lang (sameChar env.caseInsensitive)) [[.one]]) := by
    intro p c c' hc
    obtain ⟨x, -, hs⟩ := mem_step.mp hc
    exact ⟨[x], by simp [lang, Item.lang], hs⟩
  have hpure : Upper (fun c => [c])
      (sumLang (lang (sameChar env.caseInsensitive)) [[]]) := by
    intro c c' hc
    exact ⟨[], by simp [Language.mem_one], by simpa using hc⟩
  have hguard : ∀ p : Cursor → Prop, ∀ [DecidablePred p],
      Upper (fun c => if p c then [c] else [])
        (sumLang (lang (sameChar env.caseInsensitive)) [[]]) := by
    intro p _
    refine hpure.sub fun c => ?_
    by_cases hp : p c <;> simp [hp]
  induction r with
  | empty => exact hpure
  | char a => exact (upper_step fun _ h => h).mono (hchar a)
  | brace a => exact (upper_step fun _ h => h).mono (hchar a)
  | dot => exact hone _
  | shorthand letter => exact hone _
  | bracket raw negated items =>
      intro c c' hc
      obtain ⟨x, hx, hs⟩ := mem_step.mp hc
      exact ⟨[x], outlineLang_bracket hx, hs⟩
  | bol => exact hguard fun c => c.before = []
  | eol => exact hguard fun c => c.after = []
  | boundary negated => exact hguard fun c => (atBoundary c != negated) = true
  | cat a b iha ihb => exact (iha.bind ihb).mono (outlineLang_cat _ a b)
  | alt a b iha ihb =>
      refine (iha.append ihb).mono (le_of_eq ?_)
      simp only [Regex.outlineLang, Regex.outlines, Glob.sumLang_append]
  | group r ih => exact ih
  | rep r q m ih =>
      intro c c' hc
      obtain ⟨isLazy, hc⟩ := mem_run_rep hc
      obtain ⟨w, hw, hs⟩ := ih.repeatRun q isLazy c c' hc
      exact ⟨w, outlineLang_rep _ r q m hw, hs⟩

/-- An item that looks at the text ahead only, and not at the oracle. -/
def Regex.looksAhead : Regex → Bool
  | .bol => false
  | .boundary _ => false
  | .bracket _ _ items => items.isSome
  | _ => true

/-- A cursor with more text before it. -/
def Cursor.behind (past : List Char) (c : Cursor) : Cursor := ⟨c.before ++ past, c.after⟩

/-- Two matchers make the same moves, the first with more text before it. -/
def Agree (past : List Char) (f g : Cursor → List Cursor) : Prop :=
  ∀ c, f (c.behind past) = (g c).map (Cursor.behind past)

section

variable {past : List Char} {f g : Cursor → List Cursor}

theorem agree_step {p : Char → Bool} : Agree past (step p) (step p) := by
  intro c
  cases hc : c.after with
  | nil => simp [step, Cursor.behind, hc]
  | cons x rest => by_cases hp : p x = true <;> simp [step, Cursor.behind, hc, hp]

theorem Agree.bind {f' g' : Cursor → List Cursor} (h : Agree past f g) (h' : Agree past f' g') :
    Agree past (fun c => (f c).flatMap f') (fun c => (g c).flatMap g') := by
  intro c
  simp only [h c, List.flatMap_map, List.map_flatMap]
  exact List.flatMap_congr fun d _ => h' d

theorem Agree.power (h : Agree past f g) : ∀ n, Agree past (Pcre.power f n) (Pcre.power g n)
  | 0 => fun _ => rfl
  | n + 1 => h.bind (h.power n)

/-- Runs that agree agree when repeated at most so often. -/
theorem Agree.upTo (h : Agree past f g) (isLazy : Bool) :
    ∀ n, Agree past (Pcre.upTo f isLazy n) (Pcre.upTo g isLazy n)
  | 0 => fun _ => rfl
  | n + 1 => by
      intro c
      have hmore := h.bind (h.upTo isLazy n) c
      cases isLazy with
      | true => simpa [Pcre.upTo] using hmore
      | false => simpa [Pcre.upTo] using hmore

theorem Agree.progress (h : Agree past f g) :
    Agree past (Pcre.progress f) (Pcre.progress g) := by
  intro c
  simp only [Pcre.progress, h c, List.filter_map]
  rfl

theorem Agree.repeatRun (h : Agree past f g) (q : Quant) (isLazy : Bool) :
    Agree past (Pcre.repeatRun f q isLazy) (Pcre.repeatRun g q isLazy) := by
  refine (h.power q.min).bind fun d => ?_
  cases hmax : q.max with
  | some n => exact h.upTo isLazy (n - q.min) d
  | none => exact h.progress.upTo isLazy d.after.length d

end

/-- **A match depends on the text ahead only**: with another oracle and more text
before it, an expression makes the same moves. -/
theorem agree_run {past : List Char} {ci : Bool} {o o' : List Char → Char → Bool} {r : Regex}
    (hr : r.every Regex.looksAhead = true) :
    Agree past (run ⟨ci, o⟩ r) (run ⟨ci, o'⟩ r) := by
  induction r with
  | empty => exact fun _ => rfl
  | char a => exact agree_step
  | brace a => exact agree_step
  | dot => exact agree_step
  | shorthand letter => exact agree_step
  | bracket raw negated items =>
      obtain ⟨is, rfl⟩ := Option.isSome_iff_exists.mp hr
      exact agree_step
  | bol => cases hr
  | eol =>
      intro c
      by_cases hc : c.after = [] <;> simp [run, Cursor.behind, hc]
  | boundary negated => cases hr
  | cat a b iha ihb =>
      obtain ⟨ha, hb⟩ := Bool.and_eq_true_iff.mp hr
      exact (iha ha).bind (ihb hb)
  | alt a b iha ihb =>
      obtain ⟨ha, hb⟩ := Bool.and_eq_true_iff.mp hr
      intro c
      simp only [run, iha ha c, ihb hb c, List.map_append]
  | group r ih => exact ih hr
  | rep r q m ih =>
      have hrep := (ih (Bool.and_eq_true_iff.mp hr).2).repeatRun q
      intro c
      by_cases hm : m = .possessive
      · simp only [run, if_pos hm, hrep false c, List.map_take]
      · simp only [run, if_neg hm, hrep _ c]

/-- A match of a text is a match of it wherever it stands. -/
theorem mem_run_behind {past : List Char} {ci : Bool} {o o' : List Char → Char → Bool} {r : Regex}
    (hr : r.every Regex.looksAhead = true) {c c' : Cursor} (h : c' ∈ run ⟨ci, o'⟩ r c) :
    c'.behind past ∈ run ⟨ci, o⟩ r (c.behind past) := by
  rw [agree_run hr c]
  exact List.mem_map_of_mem h

end Pcre
