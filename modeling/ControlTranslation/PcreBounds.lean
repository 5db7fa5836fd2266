import ControlTranslation.Pcre

/-!
# Bounding a matcher by a language

A matcher moves a cursor; a language says which words it may consume.  `Upper`
says every move consumes a word of the language, `Lower` that every word of the
language is a possible move.  Both are preserved by the operations of the
matcher, each of which acts on languages as an operation of their Kleene
algebra: concatenation is multiplication, alternation addition, and `n` copies
the `n`-th power.
-/

namespace Pcre

open Glob (charLang)

/-- Moving from `c` to `c'` consumes the word `w`. -/
def Spans (w : List Char) (c c' : Cursor) : Prop :=
  c.after = w ++ c'.after ∧ c'.before = w.reverse ++ c.before

/-- Every move of `f` consumes a word of `X`. -/
def Upper (f : Cursor → List Cursor) (X : Language Char) : Prop :=
  ∀ c c', c' ∈ f c → ∃ w ∈ X, Spans w c c'

/-- Every word of `X` is a possible move of `f`. -/
def Lower (f : Cursor → List Cursor) (X : Language Char) : Prop :=
  ∀ c c' w, w ∈ X → Spans w c c' → c' ∈ f c

@[simp] theorem spans_nil {c c' : Cursor} : Spans [] c c' ↔ c' = c := by
  cases c
  cases c'
  simp only [Spans, List.nil_append, List.reverse_nil, Cursor.mk.injEq]
  constructor
  · rintro ⟨h₁, h₂⟩
    exact ⟨h₂, h₁.symm⟩
  · rintro ⟨h₁, h₂⟩
    exact ⟨h₂.symm, h₁⟩

/-- Consuming a word in two parts passes through a cursor in between. -/
theorem spans_append {u v : List Char} {c c' : Cursor} :
    Spans (u ++ v) c c' ↔ ∃ d, Spans u c d ∧ Spans v d c' := by
  constructor
  · rintro ⟨h₁, h₂⟩
    exact ⟨⟨u.reverse ++ c.before, v ++ c'.after⟩,
      ⟨by simpa using h₁, rfl⟩, ⟨rfl, by simpa using h₂⟩⟩
  · rintro ⟨d, ⟨h₁, h₂⟩, h₃, h₄⟩
    exact ⟨by simp [h₁, h₃], by simp [h₄, h₂]⟩

/-- Consuming one character. -/
theorem spans_singleton {x : Char} {c c' : Cursor} :
    Spans [x] c c' ↔ ∃ rest, c.after = x :: rest ∧ c' = ⟨x :: c.before, rest⟩ := by
  cases c'
  simp [Spans, Cursor.mk.injEq]

theorem mem_step {p : Char → Bool} {c c' : Cursor} :
    c' ∈ step p c ↔ ∃ x, p x = true ∧ Spans [x] c c' := by
  simp only [step, spans_singleton]
  cases hc : c.after with
  | nil => simp
  | cons y rest =>
      by_cases hp : p y = true
      · simp [hp]
      · simp [hp]

theorem Upper.mono {f : Cursor → List Cursor} {X Y : Language Char}
    (h : Upper f X) (hXY : X ≤ Y) : Upper f Y := by
  intro c c' hc
  obtain ⟨w, hw, hs⟩ := h c c' hc
  exact ⟨w, hXY hw, hs⟩

theorem Lower.mono {f : Cursor → List Cursor} {X Y : Language Char}
    (h : Lower f Y) (hXY : X ≤ Y) : Lower f X :=
  fun c c' w hw hs => h c c' w (hXY hw) hs

/-- A matcher that only makes moves of another one keeps its upper bound. -/
theorem Upper.sub {f g : Cursor → List Cursor} {X : Language Char}
    (h : Upper f X) (hsub : ∀ c, g c ⊆ f c) : Upper g X :=
  fun c c' hc => h c c' (hsub c hc)

theorem upper_pure : Upper (fun c => [c]) 1 := by
  intro c c' hc
  exact ⟨[], Language.nil_mem_one, by simpa using hc⟩

theorem lower_pure : Lower (fun c => [c]) 1 := by
  intro c c' w hw hs
  rw [Language.mem_one] at hw
  subst hw
  simpa using hs

/-- A step is bounded above by the characters it may read. -/
theorem upper_step {p q : Char → Bool} (h : ∀ x, p x = true → q x = true) :
    Upper (step p) (charLang q) := by
  intro c c' hc
  obtain ⟨x, hx, hs⟩ := mem_step.mp hc
  exact ⟨[x], ⟨x, h x hx, rfl⟩, hs⟩

/-- A step is bounded below by the characters it must read. -/
theorem lower_step {p q : Char → Bool} (h : ∀ x, q x = true → p x = true) :
    Lower (step p) (charLang q) := by
  rintro c c' w ⟨x, hx, rfl⟩ hs
  exact mem_step.mpr ⟨x, h x hx, hs⟩

/-- One run after the other, bounded above by the product. -/
theorem Upper.bind {f g : Cursor → List Cursor} {X Y : Language Char}
    (hf : Upper f X) (hg : Upper g Y) : Upper (fun c => (f c).flatMap g) (X * Y) := by
  intro c c' hc
  obtain ⟨d, hd, hd'⟩ := List.mem_flatMap.mp hc
  obtain ⟨u, hu, hus⟩ := hf c d hd
  obtain ⟨v, hv, hvs⟩ := hg d c' hd'
  exact ⟨u ++ v, Language.mem_mul.mpr ⟨u, hu, v, hv, rfl⟩, spans_append.mpr ⟨d, hus, hvs⟩⟩

/-- One run after the other, bounded below by the product. -/
theorem Lower.bind {f g : Cursor → List Cursor} {X Y : Language Char}
    (hf : Lower f X) (hg : Lower g Y) : Lower (fun c => (f c).flatMap g) (X * Y) := by
  intro c c' w hw hs
  obtain ⟨u, hu, v, hv, rfl⟩ := Language.mem_mul.mp hw
  obtain ⟨d, hd, hd'⟩ := spans_append.mp hs
  exact List.mem_flatMap.mpr ⟨d, hf c d u hu hd, hg d c' v hv hd'⟩

/-- Either of two runs, bounded above by the sum. -/
theorem Upper.append {f g : Cursor → List Cursor} {X Y : Language Char}
    (hf : Upper f X) (hg : Upper g Y) : Upper (fun c => f c ++ g c) (X + Y) := by
  intro c c' hc
  rcases List.mem_append.mp hc with hc | hc
  · obtain ⟨w, hw, hs⟩ := hf c c' hc
    exact ⟨w, (Language.mem_add _ _ _).mpr (Or.inl hw), hs⟩
  · obtain ⟨w, hw, hs⟩ := hg c c' hc
    exact ⟨w, (Language.mem_add _ _ _).mpr (Or.inr hw), hs⟩

/-- Either of two runs, bounded below by the sum. -/
theorem Lower.append {f g : Cursor → List Cursor} {X Y : Language Char}
    (hf : Lower f X) (hg : Lower g Y) : Lower (fun c => f c ++ g c) (X + Y) := by
  intro c c' w hw hs
  rcases (Language.mem_add _ _ _).mp hw with hw | hw
  · exact List.mem_append_left _ (hf c c' w hw hs)
  · exact List.mem_append_right _ (hg c c' w hw hs)

theorem Upper.power {f : Cursor → List Cursor} {X : Language Char} (h : Upper f X) :
    ∀ n, Upper (Pcre.power f n) (X ^ n)
  | 0 => by rw [pow_zero]; exact upper_pure
  | n + 1 => by rw [pow_succ']; exact h.bind (h.power n)

theorem Lower.power {f : Cursor → List Cursor} {X : Language Char} (h : Lower f X) :
    ∀ n, Lower (Pcre.power f n) (X ^ n)
  | 0 => by rw [pow_zero]; exact lower_pure
  | n + 1 => by rw [pow_succ']; exact h.bind (h.power n)

/-- The members of a bounded repetition do not depend on the preference. -/
theorem mem_upTo_succ {f : Cursor → List Cursor} {isLazy : Bool} {n : Nat} {c c' : Cursor} :
    c' ∈ upTo f isLazy (n + 1) c ↔
      c' ∈ (f c).flatMap (upTo f isLazy n) ∨ c' = c := by
  cases isLazy
  · simp [upTo]
  · simp only [upTo, if_true, List.mem_cons]
    exact or_comm

/-- Optional copies consume some word. -/
theorem Upper.upTo {f : Cursor → List Cursor} {X : Language Char} {isLazy : Bool}
    (h : Upper f X) : ∀ n, Upper (Pcre.upTo f isLazy n) ⊤
  | 0 => upper_pure.mono (Glob.le_top_lang _)
  | n + 1 => by
      intro c c' hc
      rcases mem_upTo_succ.mp hc with hc | rfl
      · obtain ⟨w, -, hs⟩ := (h.bind (h.upTo n)) c c' hc
        exact ⟨w, Glob.mem_top_lang w, hs⟩
      · exact ⟨[], Glob.mem_top_lang [], spans_nil.mpr rfl⟩

theorem progress_sub (f : Cursor → List Cursor) (c : Cursor) : progress f c ⊆ f c :=
  List.filter_subset_self _

/-- Counting exactly `n` copies. -/
theorem repeatRun_exact (f : Cursor → List Cursor) (n : Nat) (isLazy : Bool) (c : Cursor) :
    repeatRun f (.counted n (some n)) isLazy c = Pcre.power f n c := by
  simp [repeatRun, Quant.min, Quant.max, Pcre.upTo]

/-- Whatever the quantifier, the least number of copies comes first. -/
theorem Upper.repeatRun {f : Cursor → List Cursor} {X : Language Char} (h : Upper f X)
    (q : Quant) (isLazy : Bool) : Upper (Pcre.repeatRun f q isLazy) (X ^ q.min * ⊤) := by
  intro c c' hc
  obtain ⟨d, hd, hd'⟩ := List.mem_flatMap.mp hc
  obtain ⟨u, hu, hus⟩ := h.power q.min c d hd
  have htail : ∃ v, Spans v d c' := by
    cases hq : q.max with
    | some n =>
        rw [hq] at hd'
        obtain ⟨v, -, hv⟩ := h.upTo (n - q.min) d c' hd'
        exact ⟨v, hv⟩
    | none =>
        rw [hq] at hd'
        obtain ⟨v, -, hv⟩ := (h.sub (progress_sub f)).upTo d.after.length d c' hd'
        exact ⟨v, hv⟩
  obtain ⟨v, hv⟩ := htail
  exact ⟨u ++ v, Language.mem_mul.mpr ⟨u, hu, v, Glob.mem_top_lang v, rfl⟩,
    spans_append.mpr ⟨d, hus, hv⟩⟩

/-- An optional item. -/
theorem mem_repeatRun_opt {f : Cursor → List Cursor} {isLazy : Bool} {c c' : Cursor} :
    c' ∈ repeatRun f .opt isLazy c ↔ c' ∈ f c ∨ c' = c := by
  have h : repeatRun f .opt isLazy c = upTo f isLazy 1 c := by
    simp [repeatRun, Quant.min, Quant.max, power]
  rw [h, mem_upTo_succ]
  simp [upTo]

theorem Upper.opt {f : Cursor → List Cursor} {X : Language Char} (h : Upper f X)
    (isLazy : Bool) : Upper (Pcre.repeatRun f .opt isLazy) (1 + X) := by
  intro c c' hc
  rcases mem_repeatRun_opt.mp hc with hc | rfl
  · obtain ⟨w, hw, hs⟩ := h c c' hc
    exact ⟨w, (Language.mem_add _ _ _).mpr (Or.inr hw), hs⟩
  · exact ⟨[], (Language.mem_add _ _ _).mpr (Or.inl Language.nil_mem_one), spans_nil.mpr rfl⟩

theorem Lower.opt {f : Cursor → List Cursor} {X : Language Char} (h : Lower f X)
    (isLazy : Bool) : Lower (Pcre.repeatRun f .opt isLazy) (1 + X) := by
  intro c c' w hw hs
  rcases (Language.mem_add _ _ _).mp hw with hw | hw
  · rw [Language.mem_one] at hw
    subst hw
    exact mem_repeatRun_opt.mpr (Or.inr (spans_nil.mp hs))
  · exact mem_repeatRun_opt.mpr (Or.inl (h c c' w hw hs))

/-- Unbounded copies of one arbitrary character reach every later position. -/
theorem lower_upTo_any {f : Cursor → List Cursor} {isLazy : Bool}
    (h : Lower f (charLang fun _ => true)) :
    ∀ (n : Nat) (c c' : Cursor) (w : List Char), w.length ≤ n → Spans w c c' →
      c' ∈ upTo (progress f) isLazy n c := by
  intro n
  induction n with
  | zero =>
      intro c c' w hw hs
      have hnil : w = [] := List.length_eq_zero_iff.mp (by omega)
      subst hnil
      simpa [upTo] using hs
  | succ n ih =>
      intro c c' w hw hs
      cases w with
      | nil => exact mem_upTo_succ.mpr (Or.inr (spans_nil.mp hs))
      | cons x w =>
          obtain ⟨d, hd, hd'⟩ := spans_append (u := [x]) (v := w) |>.mp hs
          have hfd : d ∈ f c := h c d [x] ⟨x, rfl, rfl⟩ hd
          have hlt : d.after.length < c.after.length := by
            have := hd.1
            simp [this]
          have hmem : d ∈ progress f c := List.mem_filter.mpr ⟨hfd, by simpa using hlt⟩
          exact mem_upTo_succ.mpr (Or.inl (List.mem_flatMap.mpr
            ⟨d, hmem, ih d c' w (by simpa using hw) hd'⟩))

/-- At least `q.min` copies of one arbitrary character, without upper limit. -/
theorem Lower.repeatAny {f : Cursor → List Cursor} {q : Quant} {isLazy : Bool}
    (h : Lower f (charLang fun _ => true)) (hq : q.max = none) :
    Lower (Pcre.repeatRun f q isLazy) (charLang (fun _ => true) ^ q.min * ⊤) := by
  intro c c' w hw hs
  obtain ⟨u, hu, v, -, rfl⟩ := Language.mem_mul.mp hw
  obtain ⟨d, hd, hd'⟩ := spans_append.mp hs
  refine List.mem_flatMap.mpr ⟨d, h.power q.min c d u hu hd, ?_⟩
  rw [hq]
  exact lower_upTo_any h _ d c' v (by simp [hd'.1]) hd'

/-- Every match consumes a word: no expression moves the cursor back. -/
theorem run_upper_top (env : Env) (r : Regex) : Upper (run env r) ⊤ := by
  have htop : ∀ {f : Cursor → List Cursor} {X : Language Char}, Upper f X → Upper f ⊤ :=
    fun h => h.mono (Glob.le_top_lang _)
  have hguard : ∀ p : Cursor → Prop, ∀ [DecidablePred p],
      Upper (fun c => if p c then [c] else []) ⊤ := by
    intro p _
    refine (htop upper_pure).sub fun c => ?_
    by_cases hp : p c <;> simp [hp]
  induction r with
  | empty => exact htop upper_pure
  | char a => exact htop (upper_step fun _ h => h)
  | brace a => exact htop (upper_step fun _ h => h)
  | dot => exact htop (upper_step fun _ h => h)
  | shorthand letter => exact htop (upper_step fun _ h => h)
  | bracket raw negated items => exact htop (upper_step fun _ h => h)
  | bol => exact hguard fun c => c.before = []
  | eol => exact hguard fun c => c.after = []
  | boundary negated => exact hguard fun c => (atBoundary c != negated) = true
  | cat a b iha ihb => exact htop (iha.bind ihb)
  | alt a b iha ihb => exact htop (iha.append ihb)
  | group r ih => exact ih
  | rep r q m ih =>
      intro c c' hc
      by_cases hm : m = .possessive
      · simp only [run, hm, if_true] at hc
        exact htop (ih.repeatRun q false) c c' (List.mem_of_mem_take hc)
      · simp only [run, hm, if_false] at hc
        exact htop (ih.repeatRun q _) c c' hc

/-- A quantified item makes only moves of the plain repetition. -/
theorem mem_run_rep {env : Env} {r : Regex} {q : Quant} {m : Marker} {c c' : Cursor}
    (h : c' ∈ run env (.rep r q m) c) :
    ∃ isLazy, c' ∈ repeatRun (run env r) q isLazy c := by
  by_cases hm : m = .possessive
  · simp only [run, hm, if_true] at h
    exact ⟨false, List.mem_of_mem_take h⟩
  · simp only [run, hm, if_false] at h
    exact ⟨_, h⟩

end Pcre
