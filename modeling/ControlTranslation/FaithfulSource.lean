import ControlTranslation.Pcre
import ControlTranslation.RegexTranslator

/-!
# Faithful sources

The translator reads a regex subset whose edges differ from the syntax the rule
engine uses.  The predicates here are about the syntax tree of the source, and
each names one kind of difference.

* `sameLexeme`: both readers see the same tokens.  A bracket expression may not
  contain `]`, a brace must begin a quantifier, and a counted quantifier may
  not carry a lazy or possessive marker.
* `covered`: every character the tree accepts is among those the translator
  lists.
* `exact`: every character the translator lists is accepted by the tree, and
  every quantifier keeps its meaning.
-/

namespace Pcre

/-- A tree of the empty word only. -/
def Regex.isEps : Regex → Bool
  | .empty => true
  | .cat a b => a.isEps && b.isEps
  | .group r => r.isEps
  | .rep r (.counted _ _) _ => r.isEps
  | _ => false

/-- A tree that is one dot, up to grouping. -/
def Regex.isDot : Regex → Bool
  | .dot => true
  | .cat a b => (a.isDot && b.isEps) || (a.isEps && b.isDot)
  | .group r => r.isDot
  | .rep r (.counted 1 (some 1)) _ => r.isDot
  | _ => false

/-- Whether a dot occurs. -/
def Regex.hasDot (r : Regex) : Bool :=
  !r.every fun
    | .dot => false
    | _ => true

/-- Whether a tree is an alternation at top level. -/
def Regex.alternates : Regex → Bool
  | .alt _ _ => true
  | .cat _ b => b.alternates
  | _ => false

/-- The tree of `^` followed by a source: the anchor joins the first branch. -/
def Regex.addBol : Regex → Regex
  | .alt a b => .alt (.cat .bol a) b
  | r => .cat .bol r

/-- The tree of a source followed by `$`: the anchor joins the last branch. -/
def Regex.addEol : Regex → Regex
  | .alt a b => .alt a b.addEol
  | .cat a b => .cat a b.addEol
  | .empty => .cat .eol .empty
  | r => .cat r .eol

/-- An end anchor after an item keeps the matches that reach the end. -/
theorem mem_run_cat_eol {env : Env} {r : Regex} {c c' : Cursor} :
    c' ∈ run env (.cat r .eol) c ↔ c' ∈ run env r c ∧ c'.after = [] := by
  simp only [run, List.mem_flatMap]
  constructor
  · rintro ⟨d, hd, hd'⟩
    split at hd'
    · obtain rfl := List.mem_singleton.mp hd'
      exact ⟨hd, by assumption⟩
    · cases hd'
  · rintro ⟨h, hend⟩
    exact ⟨c', h, by simp [hend]⟩

/-- A pattern that is only an anchor at the end matches there alone. -/
theorem mem_run_eol_empty {env : Env} {c c' : Cursor} :
    c' ∈ run env (.cat .eol .empty) c ↔ c' ∈ run env .empty c ∧ c'.after = [] := by
  by_cases hc : c.after = []
  · simp only [run, hc, if_true, List.flatMap_singleton, List.mem_singleton]
    constructor
    · rintro rfl
      exact ⟨rfl, hc⟩
    · exact fun h => h.1
  · simp only [run, hc, if_false, List.flatMap_nil, List.not_mem_nil, List.mem_singleton,
      false_iff, not_and]
    rintro rfl
    exact hc

/-- An end anchor only removes matches. -/
theorem mem_run_of_addEol {env : Env} {r : Regex} {c c' : Cursor}
    (h : c' ∈ run env r.addEol c) : c' ∈ run env r c := by
  induction r generalizing c with
  | empty => exact (mem_run_eol_empty.mp h).1
  | cat a b _ ihb =>
      obtain ⟨d, hd, hd'⟩ := List.mem_flatMap.mp h
      exact List.mem_flatMap.mpr ⟨d, hd, ihb hd'⟩
  | alt a b _ ihb =>
      rcases List.mem_append.mp h with h | h
      · exact List.mem_append_left _ h
      · exact List.mem_append_right _ (ihb h)
  | _ => exact (mem_run_cat_eol.mp h).1

/-- An end anchor keeps the matches that reach the end. -/
theorem mem_run_addEol {env : Env} {r : Regex} {c c' : Cursor}
    (h : c' ∈ run env r c) (hend : c'.after = []) : c' ∈ run env r.addEol c := by
  induction r generalizing c with
  | empty => exact mem_run_eol_empty.mpr ⟨h, hend⟩
  | cat a b _ ihb =>
      obtain ⟨d, hd, hd'⟩ := List.mem_flatMap.mp h
      exact List.mem_flatMap.mpr ⟨d, hd, ihb hd'⟩
  | alt a b _ ihb =>
      rcases List.mem_append.mp h with h | h
      · exact List.mem_append_left _ h
      · exact List.mem_append_right _ (ihb h)
  | _ => exact mem_run_cat_eol.mpr ⟨h, hend⟩

/-- Without a top-level alternation an end anchor binds every match. -/
theorem after_of_run_addEol {env : Env} {r : Regex} {c c' : Cursor}
    (hr : r.alternates = false) (h : c' ∈ run env r.addEol c) : c'.after = [] := by
  induction r generalizing c with
  | empty => exact (mem_run_eol_empty.mp h).2
  | cat a b _ ihb =>
      obtain ⟨d, -, hd'⟩ := List.mem_flatMap.mp h
      exact ihb hr hd'
  | alt a b _ _ => cases hr
  | _ => exact (mem_run_cat_eol.mp h).2

/-- A start anchor before an item keeps the matches from the start. -/
theorem mem_run_bol_cat {env : Env} {r : Regex} {c c' : Cursor} :
    c' ∈ run env (.cat .bol r) c ↔ c.before = [] ∧ c' ∈ run env r c := by
  by_cases hc : c.before = [] <;> simp [run, hc]

/-- A start anchor only removes matches. -/
theorem mem_run_of_addBol {env : Env} {r : Regex} {c c' : Cursor}
    (h : c' ∈ run env r.addBol c) : c' ∈ run env r c := by
  cases r with
  | alt a b =>
      rcases List.mem_append.mp h with h | h
      · exact List.mem_append_left _ (mem_run_bol_cat.mp h).2
      · exact List.mem_append_right _ h
  | _ => exact (mem_run_bol_cat.mp h).2

/-- A start anchor keeps the matches from the start. -/
theorem mem_run_addBol {env : Env} {r : Regex} {c c' : Cursor}
    (h : c' ∈ run env r c) (hstart : c.before = []) : c' ∈ run env r.addBol c := by
  cases r with
  | alt a b =>
      rcases List.mem_append.mp h with h | h
      · exact List.mem_append_left _ (mem_run_bol_cat.mpr ⟨hstart, h⟩)
      · exact List.mem_append_right _ h
  | _ => exact mem_run_bol_cat.mpr ⟨hstart, h⟩

/-- Without a top-level alternation a start anchor binds every match. -/
theorem before_of_run_addBol {env : Env} {r : Regex} {c c' : Cursor}
    (hr : r.alternates = false) (h : c' ∈ run env r.addBol c) : c.before = [] := by
  cases r with
  | alt a b => cases hr
  | _ => exact (mem_run_bol_cat.mp h).1

@[simp] theorem alternates_addEol (r : Regex) : r.addEol.alternates = r.alternates := by
  induction r with
  | cat a b _ ihb => exact ihb
  | _ => rfl

@[simp] theorem alternates_addBol (r : Regex) : r.addBol.alternates = r.alternates := by
  cases r <;> rfl

/-- What holds of every item holds of every item before an end anchor. -/
theorem every_of_addEol {p : Regex → Bool} {r : Regex} (h : r.addEol.every p = true) :
    r.every p = true := by
  induction r with
  | empty => rfl
  | cat a b _ ihb =>
      simp only [Regex.addEol, Regex.every, Bool.and_eq_true] at h ⊢
      exact ⟨h.1, ihb h.2⟩
  | alt a b _ ihb =>
      simp only [Regex.addEol, Regex.every, Bool.and_eq_true] at h ⊢
      exact ⟨h.1, ihb h.2⟩
  | _ =>
      simp only [Regex.addEol, Regex.every, Bool.and_eq_true] at h ⊢
      exact h.1

/-- What holds of every item holds of every item after a start anchor. -/
theorem every_of_addBol {p : Regex → Bool} {r : Regex} (h : r.addBol.every p = true) :
    r.every p = true := by
  cases r with
  | alt a b =>
      simp only [Regex.addBol, Regex.every, Bool.and_eq_true] at h ⊢
      exact ⟨h.1.2, h.2⟩
  | empty => rfl
  | _ =>
      simp only [Regex.addBol, Regex.every, Bool.and_eq_true] at h ⊢
      exact h.2

end Pcre

namespace ModSecurity

open PyText Pcre

/-- The members the translator lists for a bracket expression, where it does
not fall back to any character. -/
def listsClass (t : CharTables) (raw : Str) : Option (List Char) :=
  if raw.head? = some '^' ∨ raw = [] then none
  else
    match enumerateClass t raw with
    | none => none
    | some members => if maxClassMembers < members.length then none else some members

/-- No range of a bracket expression has an end written with a backslash. -/
def plainRanges (items : Option (List ClassItem)) : Bool :=
  match items with
  | none => false
  | some is => is.all fun
      | .range _ _ escaped => !escaped
      | _ => true

/-- No member of a bracket expression names a set. -/
def plainMembers (items : Option (List ClassItem)) : Bool :=
  (items.getD []).all fun
    | .shorthand _ => false
    | _ => true

/-- Both readers take the same tokens for this item. -/
def sameLexeme : Regex → Bool
  | .brace _ => false
  | .bracket raw _ _ => ']' ∉ raw
  | .rep _ (.counted _ _) m => m = .greedy
  | _ => true

/-- The translator keeps every character this item accepts. -/
def covered (t : CharTables) : Regex → Bool
  | .shorthand letter => letter ≠ 'v'
  | .bracket raw _ items =>
      (listsClass t raw).isNone || (plainRanges items && plainMembers items)
  | _ => true

/-- The translator adds no character to this item and keeps its quantifier. -/
def exact (t : CharTables) : Regex → Bool
  | .bracket raw _ items => (listsClass t raw).isNone || plainRanges items
  | .rep r q m => m ≠ .possessive && !(q = .opt && r.isDot)
  | _ => true

/-- A character that a wildcard value would read as a wildcard. -/
def isWildcardChar (c : Char) : Bool := c = '*' || c = '?'

/-- Whether `*` or `?` occurs as a literal. -/
def mentionsWildcard (t : CharTables) (r : Regex) : Bool :=
  !r.every fun
    | .char c => !isWildcardChar c
    | .bracket raw _ _ => !((listsClass t raw).getD []).any isWildcardChar
    | _ => true

end ModSecurity
