import Mathlib.Data.List.Sort
import ControlTranslation.OperatorMatch
import ControlTranslation.RegexTranslation

/-!
# Rewriting match values

Before a condition is emitted its values are rewritten: literals gain the
transport encodings an edge may observe, generic wildcards gain the percent and
hexadecimal forms some literal sample shows evidence of, and literal samples a
generic wildcard already matches are dropped.  The last section says what these
steps do to the set of matched subjects: growing the list never loses one, and
dropping keeps the set when the generic value reaches as far as the dropped one
at both edges.
-/

namespace ModSecurity

open PyText Glob

/-- `_encoding_variants`. -/
def encodingVariants (values : List Str) : List Str :=
  unique (values.flatMap fun value =>
    [value, quote value, quotePlus value, quote (quote value)])

/-- A value without one run at either edge. -/
def literalCore (value : Str) : Str := removeSuffix '*' (removePrefix '*' value)

/-- `re.fullmatch` of a wildcard pattern against a text. -/
def globMatches (pattern value : Str) : Bool := accepts (sameChar false) (ofText pattern) value

/-- Whether a wildcard stands inside a value. -/
def isGeneric (value : Str) : Bool := '*' ∈ literalCore value || '?' ∈ value

/-- Whether the core of a value is literal. -/
def isLiteralCore (value : Str) : Bool := !(literalCore value).any isWildcardChar

/-- Whether `other` makes a literal value redundant. -/
def subsumes (other value : Str) : Bool :=
  other ≠ value && isGeneric other && globMatches other (literalCore value)

/-- `_remove_subsumed_literal_wildcards`. -/
def removeSubsumedLiteralWildcards (values : List Str) : List Str :=
  unique (values.filter fun value =>
    !isLiteralCore value || !values.any fun other => subsumes other value)

/-- A text made of hex digits. -/
def isHexText (text : Str) : Bool := text ≠ [] && text.all isHexDigit

/-- A value that is neither percent-encoded nor hexadecimal. -/
def isPlain (value : Str) : Bool := '%' ∉ value && !isHexText (literalCore value)

/-- The number of leading `25` pairs and the text after them. -/
def leadingPairs : Str → Nat × Str
  | '2' :: '5' :: rest => ((leadingPairs rest).1 + 1, (leadingPairs rest).2)
  | text => (0, text)

/-- The encoding depth of the escape whose text after the percent sign is given:
one level for each `25` pair before its two digits. -/
def percentDepth (text : Str) : Option Nat :=
  match leadingPairs text with
  | (n, high :: low :: _) =>
      if isHexDigit high && isHexDigit low then some (n + 1)
      else if n = 0 then none else some n
  | (n, _) => if n = 0 then none else some n

/-- The depths of the escapes in one value. -/
def valueDepths (value : Str) : List Nat :=
  value.tails.filterMap fun suffix =>
    match suffix with
    | '%' :: rest => percentDepth rest
    | _ => none

/-- The depths of the escapes in all values, in increasing order. -/
def percentDepths (values : List Str) : List Nat :=
  (unique (values.flatMap valueDepths)).insertionSort (· ≤ ·)

/-- Whether some value shows a hexadecimal form. -/
def hasHexForm (values : List Str) : Bool :=
  values.any fun value =>
    (literalCore value).length % 2 == 0 && 8 ≤ (literalCore value).length &&
      isHexText (literalCore value)

/-- `transform_literals`: apply `transform` between the wildcards; `literal` is
the literal read so far, in reverse. -/
def transformLiterals (transform : Str → Str) (oneWildcard literal : Str) : Str → Str
  | [] => if literal = [] then [] else transform literal.reverse
  | c :: rest =>
      if isWildcardChar c then
        (if literal = [] then [] else transform literal.reverse) ++
          (if c = '?' then oneWildcard else [c]) ++
          transformLiterals transform oneWildcard [] rest
      else transformLiterals transform oneWildcard (c :: literal) rest

/-- `_quote_depth`. -/
def quoteDepth (value : Str) : Nat → Str
  | 0 => value
  | depth + 1 => quoteDepth (quote value) depth

/-- The transport forms derived from the generic values. -/
def derivedForms (values : List Str) : List Str :=
  (values.filter fun value => isPlain value && isGeneric value).flatMap fun value =>
    (percentDepths values).map (fun depth =>
      transformLiterals (fun literal => quoteDepth literal depth) ['?'] [] value) ++
    if hasHexForm values then [transformLiterals encodeHex ['?', '?'] [] value] else []

/-- Whether a generic value matches one of the literal samples. -/
def hasEvidence (values : List Str) : Bool :=
  values.any fun pattern => isPlain pattern && isGeneric pattern &&
    values.any fun value => isPlain value && isLiteralCore value &&
      globMatches pattern (literalCore value)

/-- `_generalize_wildcard_transport_forms`. -/
def generalizeWildcardTransportForms (values : List Str) : List Str :=
  if hasEvidence values then unique (values ++ derivedForms values) else values

/-- Whether one value matches the whole of a subject. -/
def matchesValue (caseInsensitive wildcard : Bool) (value subject : Str) : Bool :=
  accepts (sameChar caseInsensitive)
    (if wildcard then ofText value else value.map .lit) subject

/-- Whether one of the values does. -/
def matchesAny (caseInsensitive wildcard : Bool) (values : List Str) (subject : Str) :
    Bool :=
  values.any fun value => matchesValue caseInsensitive wildcard value subject

theorem matchesAny_iff {ci wildcard : Bool} {values : List Str} {s : Str} :
    matchesAny ci wildcard values s = true ↔
      ∃ value ∈ values, matchesValue ci wildcard value s = true := by
  simp [matchesAny]

theorem matchesAny_mono {ci wildcard : Bool} {values more : List Str}
    (h : ∀ value ∈ values, value ∈ more) {s : Str}
    (hs : matchesAny ci wildcard values s = true) :
    matchesAny ci wildcard more s = true := by
  obtain ⟨value, hvalue, hmatch⟩ := matchesAny_iff.mp hs
  exact matchesAny_iff.mpr ⟨value, h value hvalue, hmatch⟩

/-- With case, characters are the same when they are equal. -/
theorem sameChar_false {a b : Char} : sameChar false a b = true ↔ a = b := by
  simp [sameChar]

theorem mem_wordLang_exact {word w : Str} : w ∈ wordLang (sameChar false) word ↔ w = word := by
  rw [mem_wordLang]
  constructor
  · intro h
    induction h with
    | nil => rfl
    | cons hc _ ih => rw [ih, sameChar_false.mp hc]
  · rintro rfl
    exact List.forall₂_same.mpr fun c _ => sameChar_refl false c

/-- A literal between runs at the edges that are not anchored. -/
theorem matchesValue_frame {ci anchoredStart anchoredEnd : Bool} {word : Str}
    (hplain : ∀ c ∈ word, isWildcardChar c = false) {s : Str} :
    matchesValue ci true (frame anchoredStart anchoredEnd word) s = true ↔
      s ∈ framed anchoredStart anchoredEnd (wordLang (sameChar ci) word) := by
  rw [← lang_ofText_literal _ hplain, ← lang_frame]
  exact accepts_iff _

/-- Deriving transport forms keeps every value. -/
theorem mem_generalize {values : List Str} {value : Str} (h : value ∈ values) :
    value ∈ generalizeWildcardTransportForms values := by
  unfold generalizeWildcardTransportForms
  split
  · simp [h]
  · exact h

/-- Every value is an old one or a derived form. -/
theorem mem_of_mem_generalize {values : List Str} {value : Str}
    (h : value ∈ generalizeWildcardTransportForms values) :
    value ∈ values ∨ (hasEvidence values = true ∧ value ∈ derivedForms values) := by
  unfold generalizeWildcardTransportForms at h
  split at h
  · rename_i hevidence
    have hmem : value ∈ values ∨ value ∈ derivedForms values := by simpa using h
    exact hmem.imp_right fun hd => ⟨hevidence, hd⟩
  · exact Or.inl h

/-- Dropping keeps only old values. -/
theorem mem_of_mem_remove {values : List Str} {value : Str}
    (h : value ∈ removeSubsumedLiteralWildcards values) : value ∈ values := by
  unfold removeSubsumedLiteralWildcards at h
  rw [mem_unique] at h
  exact List.mem_of_mem_filter h

/-- A dropped value has a literal core and a generic value matching it. -/
theorem dropped {values : List Str} {value : Str} (h : value ∈ values)
    (hdropped : value ∉ removeSubsumedLiteralWildcards values) :
    isLiteralCore value = true ∧ ∃ other ∈ values, subsumes other value = true := by
  unfold removeSubsumedLiteralWildcards at hdropped
  rw [mem_unique, List.mem_filter] at hdropped
  have hkept := not_and.mp hdropped h
  simpa [List.any_eq_true] using hkept

/-- Only runs are taken off the edges of a value. -/
theorem mem_literalCore {value : Str} {c : Char} (hc : c ≠ '*') (h : c ∈ value) :
    c ∈ literalCore value := by
  have hprefix : c ∈ removePrefix '*' value := by
    cases value with
    | nil => simp at h
    | cons x rest =>
        by_cases hx : x = '*'
        · have hrest : c ∈ rest := by simpa [hx, hc] using h
          simpa [removePrefix, hx] using hrest
        · simpa [removePrefix, hx] using h
  unfold literalCore removeSuffix
  split
  · rename_i hlast
    rw [← List.dropLast_append_getLast? _ hlast] at hprefix
    simpa [hc] using hprefix
  · exact hprefix

/-- A generic value has a wildcard in its core, so it is never dropped. -/
theorem not_literal_of_generic {value : Str} (h : isGeneric value = true) :
    isLiteralCore value = false := by
  simp only [isGeneric, Bool.or_eq_true, decide_eq_true_eq] at h
  rw [isLiteralCore, Bool.not_eq_false', List.any_eq_true]
  rcases h with hstar | hquestion
  · exact ⟨'*', hstar, by decide⟩
  · exact ⟨'?', mem_literalCore (by decide) hquestion, by decide⟩

theorem generic_kept {values : List Str} {value : Str} (h : value ∈ values)
    (hgeneric : isGeneric value = true) :
    value ∈ removeSubsumedLiteralWildcards values := by
  by_contra hdropped
  have hliteral := (dropped h hdropped).1
  rw [not_literal_of_generic hgeneric] at hliteral
  cases hliteral

/-- Whether `other` has a run at each edge where `value` has one. -/
def reaches (other value : Str) : Bool :=
  (value.head? ≠ some '*' || other.head? = some '*') &&
    (value.getLast? ≠ some '*' || other.getLast? = some '*')

/-- An exact match is a match under any comparison coarser than equality. -/
theorem lang_of_exact {ci : Bool} {pattern : List (Item Char)} {core w : Str}
    (hcore : core ∈ lang (sameChar false) pattern)
    (hw : w ∈ wordLang (sameChar ci) core) : w ∈ lang (sameChar ci) pattern := by
  have hflip : List.Forall₂ (fun y x => sameChar ci x y = true) w core := List.Forall₂.flip hw
  refine lang_rel (sameChar false) ?_ hflip hcore
  intro a _ x y hxy hax
  have heq : a = x := by simpa [sameChar] using hax
  rw [heq]
  exact hxy

/-- A value with a run at its start matches the same with anything in front. -/
theorem lang_of_head {same : Char → Char → Bool} {value : Str}
    (h : value.head? = some '*') :
    ⊤ * lang same (ofText value) = lang same (ofText value) := by
  cases value with
  | nil => simp at h
  | cons c rest =>
      have hc : c = '*' := by simpa using h
      rw [hc, lang_run, ← mul_assoc, top_mul_top]

/-- A value that ends in a star may be gone on with. -/
theorem lang_of_last {same : Char → Char → Bool} {value : Str}
    (h : value.getLast? = some '*') :
    lang same (ofText value) * ⊤ = lang same (ofText value) := by
  have hrun : lang same (ofText ['*']) = ⊤ := by
    rw [lang_run, ofText_nil, lang_nil, mul_one]
  rw [← List.dropLast_append_getLast? _ h, ofText_append, lang_append, hrun, mul_assoc,
    top_mul_top]

/-- A value lies in its core, completed by the runs at its edges. -/
theorem lang_le_core {same : Char → Char → Bool} (value : Str) :
    lang same (ofText value) ≤
      framed (value.head? ≠ some '*') (value.getLast? ≠ some '*')
        (lang same (ofText (literalCore value))) := by
  intro w hmem
  have hw : w ∈ lang same (ofText value) := hmem
  have hprefix : ∃ u w', w = u ++ w' ∧ (value.head? ≠ some '*' → u = []) ∧
      w' ∈ lang same (ofText (removePrefix '*' value)) := by
    cases value with
    | nil => exact ⟨[], w, rfl, fun _ => rfl, hw⟩
    | cons c rest =>
        by_cases hc : c = '*'
        · rw [hc, lang_run, Language.mem_mul] at hw
          obtain ⟨u, -, w', hw', rfl⟩ := hw
          exact ⟨u, w', rfl, by simp [hc], by simpa [removePrefix, hc] using hw'⟩
        · exact ⟨[], w, rfl, fun _ => rfl, by simpa [removePrefix, hc] using hw⟩
  obtain ⟨u, w', rfl, hu, hw'⟩ := hprefix
  have hlast : (removePrefix '*' value).getLast? = some '*' → value.getLast? = some '*' := by
    intro h
    cases value with
    | nil => exact h
    | cons c rest =>
        by_cases hc : c = '*'
        · have hrest : rest.getLast? = some '*' := by simpa [removePrefix, hc] using h
          simp [List.getLast?_cons, hrest]
        · simpa [removePrefix, hc] using h
  by_cases h : (removePrefix '*' value).getLast? = some '*'
  · have hcore : literalCore value = (removePrefix '*' value).dropLast := by
      simp [literalCore, removeSuffix, h]
    rw [← List.dropLast_append_getLast? _ h, ofText_append, lang_append,
      Language.mem_mul] at hw'
    obtain ⟨m, hm, v, -, rfl⟩ := hw'
    exact mem_framed.mpr ⟨u, m, v, by simp, by simpa using hu, by simp [hlast h],
      hcore ▸ hm⟩
  · have hcore : literalCore value = removePrefix '*' value := by
      simp [literalCore, removeSuffix, h]
    exact mem_framed.mpr ⟨u, w', [], by simp, by simpa using hu, fun _ => rfl, hcore ▸ hw'⟩

/-- **Covering.**  A generic value that reaches as far matches whatever the
literal value it makes redundant matches. -/
theorem lang_le_of_subsumes {ci : Bool} {other value : Str}
    (hliteral : isLiteralCore value = true) (hsubsumes : subsumes other value = true)
    (hreaches : reaches other value = true) :
    lang (sameChar ci) (ofText value) ≤ lang (sameChar ci) (ofText other) := by
  intro w hw
  obtain ⟨u, m, v, rfl, hu, hv, hm⟩ := mem_framed.mp (lang_le_core value hw)
  have hplain : ∀ c ∈ literalCore value, isWildcardChar c = false := by
    simpa [isLiteralCore] using hliteral
  rw [lang_ofText_literal _ hplain] at hm
  have hcore : literalCore value ∈ lang (sameChar false) (ofText other) := by
    simp only [subsumes, Bool.and_eq_true] at hsubsumes
    exact (accepts_iff _).mp hsubsumes.2
  have hother := lang_of_exact hcore hm
  simp only [reaches, Bool.and_eq_true, Bool.or_eq_true, decide_eq_true_eq] at hreaches
  have hstart : u ++ m ∈ lang (sameChar ci) (ofText other) := by
    rcases hreaches.1 with hhead | hhead
    · rw [hu (by simpa using hhead)]
      exact hother
    · rw [← lang_of_head hhead]
      exact Language.mem_mul.mpr ⟨u, mem_top_lang u, m, hother, rfl⟩
  rcases hreaches.2 with hlast | hlast
  · rw [hv (by simpa using hlast), List.append_nil]
    exact hstart
  · rw [← lang_of_last hlast]
    exact Language.mem_mul.mpr ⟨u ++ m, hstart, v, mem_top_lang v, rfl⟩

/-- Whether every dropped value is covered by a generic one. -/
def dropsCovered (values : List Str) : Bool :=
  values.all fun value =>
    !isLiteralCore value || !(values.any fun other => subsumes other value) ||
      values.any fun other => subsumes other value && reaches other value

/-- Dropping covered values loses no subject. -/
theorem matchesAny_remove {ci : Bool} {values : List Str}
    (hcovered : dropsCovered values = true) (s : Str) :
    matchesAny ci true (removeSubsumedLiteralWildcards values) s =
      matchesAny ci true values s := by
  rw [Bool.eq_iff_iff]
  refine ⟨matchesAny_mono fun value => mem_of_mem_remove, fun h => ?_⟩
  obtain ⟨value, hvalue, hmatch⟩ := matchesAny_iff.mp h
  by_cases hkept : value ∈ removeSubsumedLiteralWildcards values
  · exact matchesAny_iff.mpr ⟨value, hkept, hmatch⟩
  · obtain ⟨hliteral, hexists⟩ := dropped hvalue hkept
    have hany : (values.any fun other => subsumes other value) = true :=
      List.any_eq_true.mpr hexists
    have hcover : ∃ other ∈ values, subsumes other value = true ∧
        reaches other value = true := by
      have := List.all_eq_true.mp hcovered value hvalue
      simpa [hliteral, hany] using this
    obtain ⟨other, hother, hsubsumes, hreaches⟩ := hcover
    have hgeneric : isGeneric other = true := by
      simp only [subsumes, Bool.and_eq_true] at hsubsumes
      exact hsubsumes.1.2
    refine matchesAny_iff.mpr ⟨other, generic_kept hother hgeneric, ?_⟩
    have hlang := (accepts_iff _).mp hmatch
    exact (accepts_iff _).mpr (lang_le_of_subsumes hliteral hsubsumes hreaches hlang)

/-- Dropping leaves a value out: it has a literal core and a generic value
matches that core. -/
def Redundant (values : List Str) (value : Str) : Prop :=
  isLiteralCore value = true ∧ ∃ other ∈ values, subsumes other value = true

/-- Where each redundant value has a generic one that reaches as far, every drop is covered. -/
theorem dropsCovered_of_reached {values : List Str}
    (h : ∀ value ∈ values, Redundant values value →
      ∃ other ∈ values, subsumes other value = true ∧ reaches other value = true) :
    dropsCovered values = true := by
  apply List.all_eq_true.mpr
  intro value hvalue
  by_cases hredundant : Redundant values value
  · obtain ⟨other, hother, hsubsumes, hreaches⟩ := h value hvalue hredundant
    have hany : (values.any fun other => subsumes other value && reaches other value) = true :=
      List.any_eq_true.mpr ⟨other, hother, by rw [hsubsumes, hreaches]; rfl⟩
    rw [hany, Bool.or_true]
  · rcases not_and_or.mp hredundant with hliteral | hnone
    · rw [Bool.eq_false_of_not_eq_true hliteral]
      rfl
    · have hany : (values.any fun other => subsumes other value) = false :=
        Bool.eq_false_of_not_eq_true fun hany => hnone (List.any_eq_true.mp hany)
      rw [hany, Bool.not_false, Bool.or_true, Bool.true_or]

/-- **Pruning.**  Where every redundant value has a generic one that matches its core and
has a run at each edge where it has one, dropping the redundant values keeps the set of
matched subjects.  The test itself compares cores only, so a value with a run at an edge
where no generic one has it is dropped although it matches more. -/
theorem remove_keeps_language {ci : Bool} {values : List Str}
    (hreached : ∀ value ∈ values, Redundant values value →
      ∃ other ∈ values, subsumes other value = true ∧ reaches other value = true) (s : Str) :
    matchesAny ci true (removeSubsumedLiteralWildcards values) s =
      matchesAny ci true values s :=
  matchesAny_remove (dropsCovered_of_reached hreached) s

/-- `foo` on both sides, once with a run inside: the literal value is dropped and its
generic companion matches what it matched. -/
theorem remove_keeps_language_foo :
    removeSubsumedLiteralWildcards ["*foo*".toList, "*f?o*".toList] = ["*f?o*".toList] ∧
      ∀ s, matchesAny false true ["*f?o*".toList] s =
        matchesAny false true ["*foo*".toList, "*f?o*".toList] s := by
  have hpruned : removeSubsumedLiteralWildcards ["*foo*".toList, "*f?o*".toList] =
      ["*f?o*".toList] := by decide +kernel
  refine ⟨hpruned, fun s => ?_⟩
  have hkeeps := @remove_keeps_language false ["*foo*".toList, "*f?o*".toList] (by
    intro value hvalue hredundant
    refine ⟨"*f?o*".toList, by decide +kernel, ?_⟩
    rcases List.mem_cons.mp hvalue with rfl | hother
    · exact ⟨by decide +kernel, by decide +kernel⟩
    · rw [List.mem_singleton.mp hother] at hredundant
      exact absurd hredundant.1 (by decide +kernel)) s
  rwa [hpruned] at hkeeps

/-- `*abc*` is dropped for `?bc`, which does not match `xabc`. -/
theorem remove_loses_subject :
    ¬ ∀ (values : List Str) (s : Str),
      matchesAny false true (removeSubsumedLiteralWildcards values) s =
        matchesAny false true values s := by
  intro h
  exact absurd (h ["*abc*".toList, "?bc".toList] "xabc".toList) (by decide +kernel)

/- No generic value below reaches as far as `*abc`, yet the two that are kept match
between them all that it matches: what a list matches together no one value shows. -/
example :
    removeSubsumedLiteralWildcards ["*abc".toList, "?bc".toList, "?*abc".toList] =
      ["?bc".toList, "?*abc".toList] ∧
    ["?bc", "?*abc"].all (fun other => !reaches other.toList "*abc".toList) = true := by
  decide +kernel

end ModSecurity
