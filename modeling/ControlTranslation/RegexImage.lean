import ControlTranslation.ClassListing
import ControlTranslation.PartLanguage
import ControlTranslation.PcreBounds

/-!
# Images of syntax trees

`Image t env r alts lossy narrowed` relates a syntax tree to the alternatives
the translator builds for the same text.  Its two halves bound the matcher by
the language of the alternatives; the rest tracks what rendering needs to know
about single parts.  Every construction of the parser has one lemma here, and
each states the flags the construction leaves behind.
-/

namespace ModSecurity

open PyText Pcre Glob

/-- Whether a part holds a character that a wildcard value would misread. -/
def Part.mentions : Part → Bool
  | .lit c => isWildcardChar c
  | .ladder depths => depths.flatten.any fun text => text.any isWildcardChar
  | _ => false

/-- What is known of one part of an alternative. -/
structure PartImage (t : CharTables) (r : Regex) (lossy narrowed : Bool) (part : Part) :
    Prop where
  noLadder : narrowed = false → part.isLadder = false
  fullLadder : ∀ depths, part = .ladder depths → [] ∉ depths
  wild : lossy = false → part = .any ∨ part = .one → r.hasDot = true
  literal : part.mentions = true → mentionsWildcard t r = true

/-- The relation between a tree and its alternatives. -/
structure Image (t : CharTables) (env : Env) (r : Regex) (alts : List Parts)
    (lossy narrowed : Bool) : Prop where
  nonempty : alts ≠ []
  upper : r.every (covered t) = true →
    Upper (run env r) (altLang (sameChar env.caseInsensitive) alts)
  lower : lossy = false → r.every (exact t) = true →
    Lower (run env r) (altLang (sameChar env.caseInsensitive) alts)
  eps : lossy = false → alts = [[]] → r.isEps = true
  dot : lossy = false → alts = [[.one]] → r.isDot = true
  parts : ∀ parts ∈ alts, ∀ part ∈ parts, PartImage t r lossy narrowed part

section

variable {t : CharTables} {env : Env}

/-- A part stays described when the tree grows and flags are only raised. -/
theorem PartImage.mono {r r' : Regex} {l l' n n' : Bool} {part : Part}
    (h : PartImage t r l n part) (hdot : r.hasDot = true → r'.hasDot = true)
    (hlit : mentionsWildcard t r = true → mentionsWildcard t r' = true)
    (hl : l' = false → l = false) (hn : n' = false → n = false) :
    PartImage t r' l' n' part where
  noLadder := fun h' => h.noLadder (hn h')
  fullLadder := h.fullLadder
  wild := fun h' hpart => hdot (h.wild (hl h') hpart)
  literal := fun h' => hlit (h.literal h')

theorem partImage_lit {r : Regex} {l n : Bool} {c : Char}
    (h : isWildcardChar c = true → mentionsWildcard t r = true) :
    PartImage t r l n (.lit c) where
  noLadder := fun _ => rfl
  fullLadder := fun _ hpart => by cases hpart
  wild := fun _ hpart => by rcases hpart with hpart | hpart <;> cases hpart
  literal := h

/-- A wildcard part needs a dot, or a widening that has been recorded. -/
theorem partImage_wild {r : Regex} {l n : Bool} {part : Part}
    (hpart : part = .any ∨ part = .one) (h : l = false → r.hasDot = true) :
    PartImage t r l n part where
  noLadder := fun _ => by rcases hpart with rfl | rfl <;> rfl
  fullLadder := fun _ heq => by rcases hpart with rfl | rfl <;> cases heq
  wild := fun hl _ => h hl
  literal := fun hm => by rcases hpart with rfl | rfl <;> cases hm

theorem image_empty {l n : Bool} : Image t env .empty [[]] l n where
  nonempty := by simp
  upper := fun _ => by rw [altLang_singleton, partsLang_nil]; exact upper_pure
  lower := fun _ _ => by rw [altLang_singleton, partsLang_nil]; exact lower_pure
  eps := fun _ _ => rfl
  dot := fun _ h => by simp at h
  parts := by simp

/-- Concatenation is the cross product. -/
theorem Image.cat {a b : Regex} {x y : List Parts} {l l' n n' : Bool}
    (ha : Image t env a x l n) (hb : Image t env b y l' n')
    (hl : l' = false → l = false) (hn : n' = false → n = false) :
    Image t env (.cat a b) (cross x y) l' n' where
  nonempty := cross_ne_nil ha.nonempty hb.nonempty
  upper := fun h => by
    rw [altLang_cross]
    simp only [Regex.every, Bool.and_eq_true] at h
    exact (ha.upper h.1).bind (hb.upper h.2)
  lower := fun h' h => by
    rw [altLang_cross]
    simp only [Regex.every, Bool.and_eq_true] at h
    exact (ha.lower (hl h') h.1).bind (hb.lower h' h.2)
  eps := fun h' h => by
    obtain ⟨p, q, rfl, rfl, hpq⟩ := cross_eq_singleton h
    obtain ⟨rfl, rfl⟩ := List.append_eq_nil_iff.mp hpq.symm
    simp [Regex.isEps, ha.eps (hl h') rfl, hb.eps h' rfl]
  dot := fun h' h => by
    obtain ⟨p, q, rfl, rfl, hpq⟩ := cross_eq_singleton h
    rcases List.append_eq_singleton_iff.mp hpq.symm with ⟨rfl, rfl⟩ | ⟨rfl, rfl⟩
    · simp [Regex.isDot, ha.eps (hl h') rfl, hb.dot h' rfl]
    · simp [Regex.isDot, ha.dot (hl h') rfl, hb.eps h' rfl]
  parts := by
    intro parts hparts part hpart
    obtain ⟨p, hp, q, hq, rfl⟩ := mem_cross.mp hparts
    rcases List.mem_append.mp hpart with hpart | hpart
    · refine (ha.parts p hp part hpart).mono ?_ ?_ hl hn
      · simp only [Regex.hasDot, Regex.every, Bool.not_and, Bool.or_eq_true]
        exact Or.inl
      · simp only [mentionsWildcard, Regex.every, Bool.not_and, Bool.or_eq_true]
        exact Or.inl
    · refine (hb.parts q hq part hpart).mono ?_ ?_ id id
      · simp only [Regex.hasDot, Regex.every, Bool.not_and, Bool.or_eq_true]
        exact Or.inr
      · simp only [mentionsWildcard, Regex.every, Bool.not_and, Bool.or_eq_true]
        exact Or.inr

/-- Alternation is concatenation of the lists. -/
theorem Image.alt {a b : Regex} {x y : List Parts} {l l' n n' : Bool}
    (ha : Image t env a x l n) (hb : Image t env b y l' n')
    (hl : l' = false → l = false) (hn : n' = false → n = false) :
    Image t env (.alt a b) (x ++ y) l' n' := by
  have htwo : ∀ p : Parts, x ++ y ≠ [p] := by
    intro p h
    rcases List.append_eq_singleton_iff.mp h with ⟨h, -⟩ | ⟨-, h⟩
    · exact ha.nonempty h
    · exact hb.nonempty h
  exact {
    nonempty := by simp [ha.nonempty]
    upper := fun h => by
      rw [altLang_append]
      simp only [Regex.every, Bool.and_eq_true] at h
      exact (ha.upper h.1).append (hb.upper h.2)
    lower := fun h' h => by
      rw [altLang_append]
      simp only [Regex.every, Bool.and_eq_true] at h
      exact (ha.lower (hl h') h.1).append (hb.lower h' h.2)
    eps := fun _ h => absurd h (htwo _)
    dot := fun _ h => absurd h (htwo _)
    parts := by
      intro parts hp part hpart
      rcases List.mem_append.mp hp with hp | hp
      · refine (ha.parts parts hp part hpart).mono ?_ ?_ hl hn
        · simp only [Regex.hasDot, Regex.every, Bool.not_and, Bool.or_eq_true]
          exact Or.inl
        · simp only [mentionsWildcard, Regex.every, Bool.not_and, Bool.or_eq_true]
          exact Or.inl
      · refine (hb.parts parts hp part hpart).mono ?_ ?_ id id
        · simp only [Regex.hasDot, Regex.every, Bool.not_and, Bool.or_eq_true]
          exact Or.inr
        · simp only [mentionsWildcard, Regex.every, Bool.not_and, Bool.or_eq_true]
          exact Or.inr }

theorem Image.group {r : Regex} {x : List Parts} {l n : Bool} (h : Image t env r x l n) :
    Image t env (.group r) x l n where
  nonempty := h.nonempty
  upper := h.upper
  lower := h.lower
  eps := h.eps
  dot := h.dot
  parts := fun parts hp part hpart => (h.parts parts hp part hpart).mono id id id id

/-- An item that accepts one of finitely many listed characters. -/
theorem image_members {r : Regex} {p : Char → Bool} {l n : Bool} (members : List Char)
    (hne : members ≠ []) (hrun : run env r = step p)
    (hupper : r.every (covered t) = true →
      ∀ c, p c = true → listed env.caseInsensitive members c)
    (hlower : l = false → r.every (exact t) = true →
      ∀ c, listed env.caseInsensitive members c → p c = true)
    (hlit : ∀ c ∈ members, isWildcardChar c = true → mentionsWildcard t r = true) :
    Image t env r (members.map fun c => [.lit c]) l n := by
  have hlang : altLang (sameChar env.caseInsensitive) (members.map fun c => [Part.lit c]) =
      {w | ∃ x, listed env.caseInsensitive members x ∧ w = [x]} := by
    ext w
    simp only [altLang, mem_sumLang, List.mem_map, listed]
    constructor
    · rintro ⟨_, ⟨m, hm, rfl⟩, hw⟩
      obtain ⟨x, hx, rfl⟩ : ∃ x, sameChar env.caseInsensitive m x = true ∧ w = [x] := by
        simpa [Part.lang] using hw
      exact ⟨x, ⟨m, hm, hx⟩, rfl⟩
    · rintro ⟨x, ⟨m, hm, hx⟩, rfl⟩
      exact ⟨_, ⟨m, hm, rfl⟩, by simpa [Part.lang] using hx⟩
  have hlits : ∀ {parts : Parts}, parts ∈ members.map (fun c => [Part.lit c]) →
      ∃ c ∈ members, parts = [.lit c] := by
    intro parts hp
    obtain ⟨c, hc, rfl⟩ := List.mem_map.mp hp
    exact ⟨c, hc, rfl⟩
  exact {
    nonempty := by simpa using hne
    upper := fun h => by
      rw [hlang, hrun]
      intro c c' hc
      obtain ⟨x, hx, hs⟩ := mem_step.mp hc
      exact ⟨[x], ⟨x, hupper h x hx, rfl⟩, hs⟩
    lower := fun h' h => by
      rw [hlang, hrun]
      rintro c c' w ⟨x, hx, rfl⟩ hs
      exact mem_step.mpr ⟨x, hlower h' h x hx, hs⟩
    eps := fun _ h => by
      obtain ⟨c, -, hc⟩ := hlits (h ▸ List.mem_singleton_self [])
      cases hc
    dot := fun _ h => by
      obtain ⟨c, -, hc⟩ := hlits (h ▸ List.mem_singleton_self [Part.one])
      cases hc
    parts := by
      intro parts hp part hpart
      obtain ⟨c, hc, rfl⟩ := hlits hp
      obtain rfl := List.mem_singleton.mp hpart
      exact partImage_lit (hlit c hc) }

/-- A literal character. -/
theorem image_char {c : Char} {l n : Bool} : Image t env (.char c) [[.lit c]] l n :=
  image_members [c] (by simp) rfl (fun _ x hx => ⟨c, by simp, hx⟩)
    (fun _ _ x hx => by
      obtain ⟨m, hm, hx⟩ := hx
      rwa [List.mem_singleton.mp hm] at hx)
    fun d hd hwild => by
      obtain rfl := List.mem_singleton.mp hd
      simp [mentionsWildcard, Regex.every, hwild]

/-- The dot, and with a recorded widening any single character. -/
theorem image_one {r : Regex} {p : Char → Bool} {l n : Bool} (hrun : run env r = step p)
    (hdot : l = false → r.isDot = true ∧ r.hasDot = true ∧ ∀ c, p c = true) :
    Image t env r [[.one]] l n where
  nonempty := by simp
  upper := fun _ => by
    rw [hrun, altLang_singleton, partsLang_singleton]
    exact upper_step fun _ _ => rfl
  lower := fun h' _ => by
    rw [hrun, altLang_singleton, partsLang_singleton]
    exact lower_step fun c _ => (hdot h').2.2 c
  eps := fun _ h => by simp at h
  dot := fun h' _ => (hdot h').1
  parts := by
    intro parts hp part hpart
    obtain rfl := List.mem_singleton.mp hp
    obtain rfl := List.mem_singleton.mp hpart
    exact partImage_wild (Or.inr rfl) fun h' => (hdot h').2.1

/-- A dropped word boundary. -/
theorem image_boundary {negated n : Bool} :
    Image t env (.boundary negated) [[]] true n where
  nonempty := by simp
  upper := fun _ => by
    rw [altLang_singleton, partsLang_nil]
    refine upper_pure.sub fun c => ?_
    simp only [run]
    split
    · exact List.Subset.refl _
    · exact List.nil_subset _
  lower := fun h => by cases h
  eps := fun h => by cases h
  dot := fun h => by cases h
  parts := by simp

/-- A bracket expression: listed members, or any character. -/
theorem image_bracket_listed {raw : Str} {members : List Char} {l n : Bool}
    (h : listsClass t raw = some members) :
    Image t env (.bracket raw (classBody raw).1 (classItems (classBody raw).2))
      (members.map fun c => [.lit c]) l n := by
  have hne : members ≠ [] := by
    rintro rfl
    simp only [listsClass, enumerateClass] at h
    split at h
    · cases h
    · split at h
      · cases h
      · rename_i all hall
        split at h
        · cases h
        · obtain rfl := Option.some.inj h
          split at hall
          · cases hall
          · split at hall
            · cases hall
            · rename_i found _ hfound
              exact hfound ((unique_eq_nil found).mp (Option.some.inj hall))
  refine image_members members hne rfl ?_ ?_ ?_
  · intro hcovered c
    simp only [Regex.every, covered, h, Option.isNone_some, Bool.false_or,
      Bool.and_eq_true] at hcovered
    exact (listsClass_agrees t env c h hcovered.1).2 hcovered.2
  · intro _ hexact c
    simp only [Regex.every, exact, h, Option.isNone_some, Bool.false_or] at hexact
    exact (listsClass_agrees t env c h hexact).1
  · intro c hc hwild
    simp only [mentionsWildcard, Regex.every, h, Option.getD_some, Bool.not_not,
      List.any_eq_true]
    exact ⟨c, hc, hwild⟩

/-- A recognised encoding ladder. -/
theorem Image.ladder {r : Regex} {x : List Parts} {depths : List (List Str)} {l n : Bool}
    (h : Image t env r x l n) (hladder : asEncodingLadder x = some depths) :
    Image t env (.group r) [[.ladder depths]] l true where
  nonempty := by simp
  upper := fun hr => by
    rw [altLang_ladder _ hladder]
    exact h.upper hr
  lower := fun h' hr => by
    rw [altLang_ladder _ hladder]
    exact h.lower h' hr
  eps := fun _ heq => by simp at heq
  dot := fun _ heq => by simp at heq
  parts := by
    intro parts hp part hpart
    obtain rfl := List.mem_singleton.mp hp
    obtain rfl := List.mem_singleton.mp hpart
    exact {
      noLadder := fun h' => by cases h'
      fullLadder := fun depths' heq => by
        cases heq
        exact asEncodingLadder_full hladder
      wild := fun _ heq => by rcases heq with heq | heq <;> cases heq
      literal := fun hm => by
        obtain ⟨text, htext, hchar⟩ := List.any_eq_true.mp hm
        obtain ⟨c, hc, hwild⟩ := List.any_eq_true.mp hchar
        obtain ⟨p, hp, hlit⟩ := mem_of_literalBranches (asEncodingLadder_flatten hladder)
          htext hc
        exact (h.parts p hp _ hlit).literal hwild }

/-- What a quantified item may do is bounded by the plain repetition. -/
theorem upper_rep {r : Regex} {q : Quant} {m : Marker} {X : Language Char}
    (h : ∀ isLazy, Upper (repeatRun (run env r) q isLazy) X) :
    Upper (run env (.rep r q m)) X := by
  intro c c' hc
  obtain ⟨isLazy, hc⟩ := mem_run_rep hc
  exact h isLazy c c' hc

/-- Unless it is possessive, a quantified item does all the repetition does. -/
theorem lower_rep {r : Regex} {q : Quant} {m : Marker} {X : Language Char}
    (hm : m ≠ .possessive) (h : ∀ isLazy, Lower (repeatRun (run env r) q isLazy) X) :
    Lower (run env (.rep r q m)) X := by
  intro c c' w hw hs
  simp only [run, if_neg hm]
  exact h _ c c' w hw hs

theorem exact_rep {r : Regex} {q : Quant} {m : Marker}
    (h : (Regex.rep r q m).every (exact t) = true) :
    m ≠ .possessive ∧ ¬ (q = .opt ∧ r.isDot = true) ∧ r.every (exact t) = true := by
  simp only [Regex.every, exact, Bool.and_eq_true, decide_eq_true_eq] at h
  refine ⟨h.1.1, ?_, h.2⟩
  rintro ⟨rfl, hdot⟩
  simp [hdot] at h

theorem PartImage.rep {r : Regex} {q : Quant} {m : Marker} {l n : Bool} {part : Part}
    (h : PartImage t r l n part) : PartImage t (.rep r q m) l n part := by
  refine h.mono ?_ ?_ id id <;>
    simp [Regex.hasDot, mentionsWildcard, Regex.every]

/-- An optional group keeps its alternatives and adds the empty one. -/
theorem Image.opt {r : Regex} {x : List Parts} {m : Marker} {l n : Bool}
    (h : Image t env r x l n) : Image t env (.rep r .opt m) ([] :: x) l n := by
  have htwo : ∀ p : Parts, [] :: x ≠ [p] := by
    intro p heq
    exact h.nonempty (List.cons.inj heq).2
  exact {
    nonempty := by simp
    upper := fun hr => by
      simp only [Regex.every, Bool.and_eq_true] at hr
      rw [altLang_cons, partsLang_nil]
      exact upper_rep fun isLazy => (h.upper hr.2).opt isLazy
    lower := fun h' hr => by
      obtain ⟨hm, -, hr⟩ := exact_rep hr
      rw [altLang_cons, partsLang_nil]
      exact lower_rep hm fun isLazy => (h.lower h' hr).opt isLazy
    eps := fun _ heq => absurd heq (htwo _)
    dot := fun _ heq => absurd heq (htwo _)
    parts := by
      intro parts hp part hpart
      rcases List.mem_cons.mp hp with rfl | hp
      · cases hpart
      · exact (h.parts parts hp part hpart).rep }

/-- A quantifier generalized to a run; only a quantified dot is not widened. -/
theorem Image.generalize {r : Regex} {x : List Parts} {q : Quant} {m : Marker} {l l' n : Bool}
    (h : Image t env r x l n) (hl : l' = false → l = false ∧ x = [[.one]] ∧
      (q = .opt ∨ q.max = none ∧ q.min = 0)) :
    Image t env (.rep r q m) [[.any]] l' n where
  nonempty := by simp
  upper := fun _ => by
    rw [altLang_singleton, partsLang_singleton]
    exact (run_upper_top env _).mono (le_refl _)
  lower := fun h' hr => by
    obtain ⟨hl₀, rfl, hq⟩ := hl h'
    obtain ⟨hm, hopt, hr⟩ := exact_rep hr
    rcases hq with rfl | ⟨hmax, hmin⟩
    · exact absurd ⟨rfl, h.dot hl₀ rfl⟩ hopt
    · have hone := h.lower hl₀ hr
      rw [altLang_singleton, partsLang_singleton] at hone ⊢
      refine lower_rep hm fun isLazy => (Lower.repeatAny hone hmax).mono ?_
      simp [hmin, Part.lang]
  eps := fun _ heq => by simp at heq
  dot := fun _ heq => by simp at heq
  parts := by
    intro parts hp part hpart
    obtain rfl := List.mem_singleton.mp hp
    obtain rfl := List.mem_singleton.mp hpart
    refine partImage_wild (Or.inl rfl) fun h' => ?_
    obtain ⟨hl₀, rfl, -⟩ := hl h'
    have := (h.parts _ (List.mem_singleton_self _) _ (List.mem_singleton_self _)).wild hl₀
      (Or.inr rfl)
    simpa [Regex.hasDot, Regex.every] using this

/-- At least one copy: the alternatives followed by a run. -/
theorem Image.plus {r : Regex} {x : List Parts} {m : Marker} {l l' n : Bool}
    (h : Image t env r x l n) (hl : l' = false → l = false ∧ x = [[.one]]) :
    Image t env (.rep r .plus m) (x.map (· ++ [.any])) l' n where
  nonempty := by simpa using h.nonempty
  upper := fun hr => by
    simp only [Regex.every, Bool.and_eq_true] at hr
    rw [altLang_map_any]
    refine upper_rep fun isLazy => ?_
    simpa [Quant.min] using (h.upper hr.2).repeatRun .plus isLazy
  lower := fun h' hr => by
    obtain ⟨hl₀, rfl⟩ := hl h'
    obtain ⟨hm, -, hr⟩ := exact_rep hr
    have hone := h.lower hl₀ hr
    rw [altLang_singleton, partsLang_singleton] at hone
    rw [altLang_map_any, altLang_singleton, partsLang_singleton]
    refine lower_rep hm fun isLazy => ?_
    have hrepeat : Lower (repeatRun (run env r) .plus isLazy) _ := Lower.repeatAny hone rfl
    simpa [Quant.min, Part.lang] using hrepeat
  eps := fun _ heq => by
    obtain ⟨p, -, hp⟩ := List.mem_map.mp (heq ▸ List.mem_singleton_self [])
    simp at hp
  dot := fun _ heq => by
    obtain ⟨p, -, hp⟩ := List.mem_map.mp (heq ▸ List.mem_singleton_self [Part.one])
    rcases List.append_eq_singleton_iff.mp hp with ⟨-, hp⟩ | ⟨-, hp⟩ <;> cases hp
  parts := by
    intro parts hparts part hpart
    obtain ⟨p, hp, rfl⟩ := List.mem_map.mp hparts
    rcases List.mem_append.mp hpart with hpart | hpart
    · exact (h.parts p hp part hpart).rep.mono id id (fun h' => (hl h').1) id
    · obtain rfl := List.mem_singleton.mp hpart
      refine partImage_wild (Or.inl rfl) fun h' => ?_
      obtain ⟨hl₀, rfl⟩ := hl h'
      have := (h.parts _ (List.mem_singleton_self _) _ (List.mem_singleton_self _)).wild hl₀
        (Or.inr rfl)
      simpa [Regex.hasDot, Regex.every] using this

/-- Counted repetition with equal bounds: the power of the alternatives. -/
theorem Image.counted {r : Regex} {x y : List Parts} {k : Nat} {m : Marker} {l n : Bool}
    (h : Image t env r x l n) (hy : repeatCross x (k + 1) [[]] = .ok y) :
    Image t env (.rep r (.counted (k + 1) (some (k + 1))) m) y l n where
  nonempty := repeatCross_ne_nil h.nonempty (by simp) hy
  upper := fun hr => by
    simp only [Regex.every, Bool.and_eq_true] at hr
    rw [altLang_repeatCross _ hy, altLang_singleton, partsLang_nil, one_mul]
    refine upper_rep fun isLazy => ?_
    intro c c' hc
    rw [repeatRun_exact] at hc
    exact (h.upper hr.2).power (k + 1) c c' hc
  lower := fun h' hr => by
    obtain ⟨hm, -, hr⟩ := exact_rep hr
    rw [altLang_repeatCross _ hy, altLang_singleton, partsLang_nil, one_mul]
    refine lower_rep hm fun isLazy => ?_
    intro c c' w hw hs
    rw [repeatRun_exact]
    exact (h.lower h' hr).power (k + 1) c c' w hw hs
  eps := fun h' heq => by
    subst heq
    obtain ⟨s, e, hs, rfl, hp⟩ := repeatCross_eq_singleton hy
    obtain rfl : [] = s := (List.cons.inj hs).1
    obtain rfl : e = [] := by
      simp only [List.nil_append, List.replicate_succ, List.flatten_cons] at hp
      exact (List.append_eq_nil_iff.mp hp.symm).1
    exact h.eps h' rfl
  dot := fun h' heq => by
    subst heq
    obtain ⟨s, e, hs, rfl, hp⟩ := repeatCross_eq_singleton hy
    obtain rfl : [] = s := (List.cons.inj hs).1
    have hlen := congrArg List.length hp
    simp only [List.length_singleton, List.nil_append, List.length_flatten,
      List.map_replicate, List.sum_replicate_nat] at hlen
    obtain rfl : k = 0 := by
      have := Nat.eq_one_of_mul_eq_one_right hlen.symm
      omega
    obtain rfl : e = [.one] := by simpa using hp.symm
    exact h.dot h' rfl
  parts := by
    intro parts hp part hpart
    rcases mem_repeatCross hy parts hp hpart with ⟨p, hp, hpart⟩ | ⟨p, hp, hpart⟩
    · obtain rfl := List.mem_singleton.mp hp
      cases hpart
    · exact (h.parts p hp part hpart).rep

/-- Counted repetition with a range of counts: the least one, then a run. -/
theorem Image.countedRange {r : Regex} {x y : List Parts} {k : Nat} {upper : Option Nat}
    {m : Marker} {l n : Bool} (h : Image t env r x l n)
    (hy : repeatCross x (k + 1) [[]] = .ok y) :
    Image t env (.rep r (.counted (k + 1) upper) m) (y.map (· ++ [.any])) true n where
  nonempty := by simpa using repeatCross_ne_nil h.nonempty (by simp) hy
  upper := fun hr => by
    simp only [Regex.every, Bool.and_eq_true] at hr
    rw [altLang_map_any, altLang_repeatCross _ hy, altLang_singleton, partsLang_nil, one_mul]
    exact upper_rep fun isLazy => (h.upper hr.2).repeatRun _ isLazy
  lower := fun h' => by cases h'
  eps := fun h' => by cases h'
  dot := fun h' => by cases h'
  parts := by
    intro parts hparts part hpart
    obtain ⟨p, hp, rfl⟩ := List.mem_map.mp hparts
    rcases List.mem_append.mp hpart with hpart | hpart
    · rcases mem_repeatCross hy p hp hpart with ⟨q, hq, hpart⟩ | ⟨q, hq, hpart⟩
      · obtain rfl := List.mem_singleton.mp hq
        cases hpart
      · exact (h.parts q hq part hpart).rep.mono id id (fun h' => by cases h') id
    · obtain rfl := List.mem_singleton.mp hpart
      exact partImage_wild (Or.inl rfl) fun h' => by cases h'

end

end ModSecurity
