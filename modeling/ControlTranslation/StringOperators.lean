import ControlTranslation.FnMatch
import ControlTranslation.LabelSoundness

/-!
# String operators

Four operators compare the field value with their argument as it stands, one
looks for phrases without letter case.  The compiler writes the argument into a
wildcard value, folds letter case as soon as `lowercase` is named anywhere, and
rewrites the values afterwards.  This file says for which arguments and
transformations the emitted condition still has the verdict of the operator.
-/

namespace ModSecurity

open PyText Glob

/-- The operators whose argument is a plain text. -/
inductive StringOperator
  | contains
  | beginsWith
  | endsWith
  | streq
  | pm
  deriving DecidableEq, Repr

/-- The operator as it is written in a directive. -/
def StringOperator.name : StringOperator → Str
  | .contains => "contains".toList
  | .beginsWith => "beginsWith".toList
  | .endsWith => "endsWith".toList
  | .streq => "streq".toList
  | .pm => "pm".toList

/-- The verdict of an operator with its argument on a transformed value. -/
def StringOperator.holds : StringOperator → Str → Str → Bool
  | .contains, argument, s => isSubstring argument s
  | .beginsWith, argument, s => argument.isPrefixOf s
  | .endsWith, argument, s => argument.isSuffixOf s
  | .streq, argument, s => s == argument
  | .pm, argument, s => (splitWhitespace argument).any fun phrase =>
      isSubstring (phrase.map Char.toLower) (s.map Char.toLower)

/-- Whether a match starts where the value does. -/
def StringOperator.anchoredStart (op : StringOperator) : Bool := op = .beginsWith || op = .streq

/-- Whether it ends where the value does. -/
def StringOperator.anchoredEnd (op : StringOperator) : Bool := op = .endsWith || op = .streq

/-- The value an operator sees when only lower-casing transforms it. -/
def lowered (rule : SecRule) (s : Str) : Str :=
  transform (fun _ s => s) (effective rule.transformations) s

/-- The verdict of the source condition. -/
def operatorVerdict (op : StringOperator) (rule : SecRule) (s : Str) : Prop :=
  op.holds rule.argument (lowered rule s) = true ↔ rule.negated = false

/-- The transformations of a directive are among `none` and `lowercase`. -/
def LowercaseOnly (rule : SecRule) : Prop :=
  ∀ name ∈ rule.transformations, name = "none".toList ∨ name = "lowercase".toList

/-- `none` itself is never in force. -/
theorem ne_none_of_mem_effective {transformations : List Str} {name : Str}
    (h : name ∈ effective transformations) : name ≠ "none".toList := by
  have hfold : ∀ (names kept : List Str), (∀ n ∈ kept, n ≠ "none".toList) →
      ∀ n ∈ names.foldl
        (fun kept name => if name = "none".toList then [] else kept ++ [name]) kept,
        n ≠ "none".toList := by
    intro names
    induction names with
    | nil => exact fun _ hkept => hkept
    | cons first rest ih =>
        intro kept hkept
        rw [List.foldl_cons]
        apply ih
        by_cases hfirst : first = "none".toList
        · simp [hfirst]
        · intro n hn
          rw [if_neg hfirst, List.mem_append, List.mem_singleton] at hn
          rcases hn with hn | rfl
          · exact hkept n hn
          · exact hfirst
  exact hfold transformations [] (by simp) name h

/-- Lower-casing alone is in force. -/
theorem onlyLowercase_of {rule : SecRule} (h : LowercaseOnly rule) :
    onlyLowercase rule = true := by
  apply List.all_eq_true.mpr
  intro name hname
  rcases h name (mem_of_mem_effective hname) with hnone | hlower
  · exact absurd hnone (ne_none_of_mem_effective hname)
  · exact decide_eq_true hlower

theorem lowered_of_cleared {rule : SecRule} (h : effective rule.transformations = []) (s : Str) :
    lowered rule s = s := by
  rw [lowered, h]
  rfl

theorem lowered_of_effective {rule : SecRule} (honly : LowercaseOnly rule)
    (h : effective rule.transformations ≠ []) (s : Str) :
    lowered rule s = s.map Char.toLower :=
  transform_lowercase (onlyLowercase_of honly) h s

/-- What lower-casing leaves in lower case. -/
theorem map_lowered {rule : SecRule} (honly : LowercaseOnly rule) (s : Str) :
    (lowered rule s).map Char.toLower = s.map Char.toLower := by
  by_cases h : effective rule.transformations = []
  · rw [lowered_of_cleared h]
  · rw [lowered_of_effective honly h, List.map_map]
    exact List.map_congr_left fun c _ => toLower_toLower c

/-- A word matched without case is one with the same lower case. -/
theorem mem_wordLang_folded {word w : Str} :
    w ∈ wordLang (sameChar true) word ↔ w.map Char.toLower = word.map Char.toLower := by
  rw [mem_wordLang]
  constructor
  · intro h
    induction h with
    | nil => rfl
    | cons hc _ ih => rw [List.map_cons, List.map_cons, ih, sameChar_true.mp hc]
  · intro h
    induction word generalizing w with
    | nil =>
        rw [List.map_nil, List.map_eq_nil_iff] at h
        rw [h]
        exact .nil
    | cons c word ih =>
        cases w with
        | nil => cases h
        | cons d w =>
            obtain ⟨hhead, htail⟩ := List.cons.inj h
            exact .cons (sameChar_true.mpr hhead.symm) (ih htail)

/-- The four operators that compare the argument as it stands. -/
theorem holds_iff {op : StringOperator} (hop : op ≠ .pm) {argument s : Str} :
    op.holds argument s = true ↔
      s ∈ framed op.anchoredStart op.anchoredEnd (wordLang (sameChar false) argument) := by
  simp only [mem_framed, mem_wordLang_exact]
  cases op with
  | contains =>
      simp [StringOperator.holds, StringOperator.anchoredStart, StringOperator.anchoredEnd,
        isSubstring_iff]
  | beginsWith =>
      simp only [StringOperator.holds, List.isPrefixOf_iff_prefix]
      simp [StringOperator.anchoredStart, StringOperator.anchoredEnd, List.IsPrefix, eq_comm]
  | endsWith =>
      simp only [StringOperator.holds, List.isSuffixOf_iff_suffix]
      simp [StringOperator.anchoredStart, StringOperator.anchoredEnd, List.IsSuffix, eq_comm]
  | streq =>
      simp [StringOperator.holds, StringOperator.anchoredStart, StringOperator.anchoredEnd]
  | pm => exact absurd rfl hop

/-- A subject as long as the word in it is that word. -/
theorem eq_of_framed {anchoredStart anchoredEnd : Bool} {word s : Str}
    (h : s ∈ framed anchoredStart anchoredEnd (wordLang (sameChar false) word))
    (hlength : s.length = word.length) : s = word := by
  obtain ⟨u, w, v, rfl, -, -, hw⟩ := mem_framed.mp h
  obtain rfl := mem_wordLang_exact.mp hw
  simp only [List.length_append] at hlength
  have hu : u = [] := List.length_eq_zero_iff.mp (by omega)
  have hv : v = [] := List.length_eq_zero_iff.mp (by omega)
  rw [hu, hv, List.nil_append, List.append_nil]

/-- What an accepted literal operator gives. -/
structure LiteralMatch (op : StringOperator) (rule : SecRule) (m : Match) : Prop where
  argument : rule.argument ≠ []
  values : m.values = [frame op.anchoredStart op.anchoredEnd rule.argument]
  wildcard : m.wildcard = decide (op ≠ .streq)
  caseInsensitive : m.caseInsensitive = false

theorem literalMatch_ok {before after : Str} {wildcard : Bool} {argument : Str} {m : Match}
    (h : literalMatch before after wildcard argument = .ok m) :
    argument ≠ [] ∧ m.values = [before ++ argument ++ after] ∧ m.wildcard = wildcard ∧
      m.caseInsensitive = false := by
  unfold literalMatch at h
  split at h
  · cases h
  · rename_i hne
    cases h
    exact ⟨hne, rfl, rfl, rfl⟩

/-- The four literal operators become a literal match. -/
theorem operatorMatch_literal {t : CharTables} {op : StringOperator} {rule : SecRule} {m : Match}
    (hop : op ≠ .pm) (hname : rule.operator = op.name) (h : operatorMatch t rule = .ok m) :
    LiteralMatch op rule m := by
  unfold operatorMatch at h
  rw [hname] at h
  cases op with
  | contains =>
      rw [if_neg (by decide), if_pos (by decide)] at h
      obtain ⟨hne, hvalues, hwildcard, hcase⟩ := literalMatch_ok h
      exact ⟨hne, hvalues, hwildcard, hcase⟩
  | beginsWith =>
      rw [if_neg (by decide), if_neg (by decide), if_pos (by decide)] at h
      obtain ⟨hne, hvalues, hwildcard, hcase⟩ := literalMatch_ok h
      exact ⟨hne, hvalues, hwildcard, hcase⟩
  | endsWith =>
      rw [if_neg (by decide), if_neg (by decide), if_neg (by decide), if_pos (by decide)] at h
      obtain ⟨hne, hvalues, hwildcard, hcase⟩ := literalMatch_ok h
      refine ⟨hne, ?_, hwildcard, hcase⟩
      rw [hvalues]
      simp [frame, StringOperator.anchoredStart, StringOperator.anchoredEnd]
  | streq =>
      rw [if_neg (by decide), if_neg (by decide), if_neg (by decide), if_neg (by decide),
        if_pos (by decide)] at h
      obtain ⟨hne, hvalues, hwildcard, hcase⟩ := literalMatch_ok h
      exact ⟨hne, hvalues, hwildcard, hcase⟩
  | pm => exact absurd rfl hop

/-- The verdict of the emitted values. -/
def valuesMatch (rule : SecRule) (m : Match) (s : Str) : Prop :=
  matchesAny (m.caseInsensitive || namesLowercase rule) m.wildcard (finalValues m) s = true

/-- One value is rewritten to itself. -/
theorem finalValues_single {m : Match} {value : Str} (h : m.values = [value]) :
    finalValues m = [value] := by
  have hevidence : hasEvidence [value] = false := by
    by_contra hsome
    have hboth : (isPlain value && isGeneric value) = true ∧
        (isPlain value && isLiteralCore value) = true := by
      simp only [hasEvidence, List.any_cons, List.any_nil, Bool.or_false, Bool.not_eq_false,
        Bool.and_eq_true] at hsome ⊢
      exact ⟨hsome.1, hsome.2.1⟩
    simp only [Bool.and_eq_true] at hboth
    rw [not_literal_of_generic hboth.1.2] at hboth
    cases hboth.2.2
  have hself : subsumes value value = false := by simp [subsumes]
  have hgeneralized : generalizeWildcardTransportForms [value] = [value] := by
    simp [generalizeWildcardTransportForms, hevidence]
  have hremoved : removeSubsumedLiteralWildcards [value] = [value] := by
    simp [removeSubsumedLiteralWildcards, hself, unique, List.eraseDups_cons]
  unfold finalValues
  rw [h]
  split
  · rw [hgeneralized, hremoved]
  · rfl

/-- An argument without wildcard characters, or one compared whole, is matched as
the operator matches it, up to the letter case the condition compares. -/
theorem valuesMatch_literal {op : StringOperator} {rule : SecRule} {m : Match}
    (hm : LiteralMatch op rule m)
    (hplain : op = .streq ∨ ∀ c ∈ rule.argument, isWildcardChar c = false) (s : Str) :
    valuesMatch rule m s ↔
      s ∈ framed op.anchoredStart op.anchoredEnd
        (wordLang (sameChar (namesLowercase rule)) rule.argument) := by
  rw [valuesMatch, finalValues_single hm.values, hm.caseInsensitive, Bool.false_or, hm.wildcard]
  simp only [matchesAny, List.any_cons, List.any_nil, Bool.or_false]
  by_cases hop : op = .streq
  · subst hop
    have hword : frame StringOperator.streq.anchoredStart StringOperator.streq.anchoredEnd
        rule.argument = rule.argument := List.append_nil _
    have hedges : ∀ X : Language Char, framed StringOperator.streq.anchoredStart
        StringOperator.streq.anchoredEnd X = X := by
      intro X
      change (1 : Language Char) * X * 1 = X
      rw [one_mul, mul_one]
    rw [hword, hedges, ← lang_map_lit]
    exact accepts_iff _
  · rw [decide_eq_true hop]
    exact matchesValue_frame (hplain.resolve_left hop)

/-- Folding letter case changes nothing about an argument: it is in lower case, and
has no letters where lower-casing was cleared. -/
def caseKeptIn (rule : SecRule) (argument : Str) : Prop :=
  namesLowercase rule = true → ∀ c ∈ argument,
    c.toLower = c ∧ (effective rule.transformations = [] → c.toUpper = c)

/-- The argument is matched as it stands. -/
def LiteralKept (op : StringOperator) (rule : SecRule) : Prop :=
  (op = .streq ∨ ∀ c ∈ rule.argument, isWildcardChar c = false) ∧ caseKeptIn rule rule.argument

theorem mem_framed_imp {anchoredStart anchoredEnd : Bool} {X Y : Language Char} {s : Str}
    (h : ∀ w ∈ X, w ∈ Y) (hs : s ∈ framed anchoredStart anchoredEnd X) :
    s ∈ framed anchoredStart anchoredEnd Y := by
  obtain ⟨u, w, v, rfl, hu, hv, hw⟩ := mem_framed.mp hs
  exact mem_framed.mpr ⟨u, w, v, rfl, hu, hv, h w hw⟩

/-- Lower-casing the subject is folding, when the word is in lower case. -/
theorem mem_framed_lowered {anchoredStart anchoredEnd : Bool} {word s : Str}
    (h : word.map Char.toLower = word) :
    s ∈ framed anchoredStart anchoredEnd (wordLang (sameChar true) word) ↔
      s.map Char.toLower ∈ framed anchoredStart anchoredEnd (wordLang (sameChar false) word) := by
  constructor
  · intro hs
    obtain ⟨u, w, v, rfl, hu, hv, hw⟩ := mem_framed.mp hs
    rw [mem_wordLang_folded, h] at hw
    refine mem_framed.mpr ⟨u.map Char.toLower, w.map Char.toLower, v.map Char.toLower,
      by simp, ?_, ?_, mem_wordLang_exact.mpr hw⟩
    · intro ha
      rw [hu ha]
      rfl
    · intro ha
      rw [hv ha]
      rfl
  · intro hs
    obtain ⟨u, w, v, hsplit, hu, hv, hw⟩ := mem_framed.mp hs
    obtain rfl := mem_wordLang_exact.mp hw
    obtain ⟨front, v', rfl, hfront, rfl⟩ := List.map_eq_append_iff.mp hsplit
    obtain ⟨u', w', rfl, rfl, hw'⟩ := List.map_eq_append_iff.mp hfront
    refine mem_framed.mpr ⟨u', w', v', rfl, ?_, ?_, ?_⟩
    · intro ha
      exact List.map_eq_nil_iff.mp (hu ha)
    · intro ha
      exact List.map_eq_nil_iff.mp (hv ha)
    · rw [mem_wordLang_folded, hw', h]

/-- What the emitted values match is what the operator matches, when folding
changes nothing about the argument. -/
theorem framed_lowered_iff {op : StringOperator} {rule : SecRule} (honly : LowercaseOnly rule)
    (hcase : caseKeptIn rule rule.argument) (s : Str) :
    s ∈ framed op.anchoredStart op.anchoredEnd
        (wordLang (sameChar (namesLowercase rule)) rule.argument) ↔
      lowered rule s ∈ framed op.anchoredStart op.anchoredEnd
        (wordLang (sameChar false) rule.argument) := by
  have hlower : namesLowercase rule = true → rule.argument.map Char.toLower = rule.argument := by
    intro hnamed
    have hmap := List.map_congr_left fun c hc => (hcase hnamed c hc).1
    rwa [List.map_id'] at hmap
  by_cases hcleared : effective rule.transformations = []
  · rw [lowered_of_cleared hcleared]
    cases hnamed : namesLowercase rule with
    | false => rfl
    | true =>
        have hsame : ∀ w : Str, w ∈ wordLang (sameChar true) rule.argument →
            w ∈ wordLang (sameChar false) rule.argument := by
          intro w hw
          rw [mem_wordLang] at hw ⊢
          have hcaseless := fun c hc => hcase hnamed c hc
          generalize rule.argument = word at hw hcaseless
          induction hw with
          | nil => exact .nil
          | @cons a b _ _ hab _ ih =>
              obtain ⟨ha, ha'⟩ := hcaseless a List.mem_cons_self
              refine .cons ?_ (ih fun c hc => hcaseless c (List.mem_cons_of_mem _ hc))
              rcases eq_of_toLower_eq (sameChar_true.mp hab).symm with rfl | rfl | rfl
              · exact sameChar_refl false b
              · exact sameChar_false.mpr ha.symm
              · exact sameChar_false.mpr (ha' hcleared).symm
        have hwider : ∀ w : Str, w ∈ wordLang (sameChar false) rule.argument →
            w ∈ wordLang (sameChar true) rule.argument := by
          intro w hw
          rw [mem_wordLang_exact.mp hw, mem_wordLang_folded]
        exact ⟨mem_framed_imp hsame, mem_framed_imp hwider⟩
  · have hnamed := namesLowercase_of_effective (onlyLowercase_of honly) hcleared
    rw [lowered_of_effective honly hcleared, hnamed]
    exact mem_framed_lowered (hlower hnamed)

/-- A pattern with every wildcard replaced by one character. -/
def filled (x : Char) (pattern : Str) : Str :=
  pattern.map fun c => if isWildcardChar c then x else c

/-- A pattern matches itself filled in. -/
theorem filled_mem_lang (ci : Bool) (x : Char) (pattern : Str) :
    filled x pattern ∈ lang (sameChar ci) (ofText pattern) := by
  induction pattern with
  | nil => exact rfl
  | cons c pattern ih =>
      by_cases hrun : c = '*'
      · rw [hrun, lang_run]
        exact Language.mem_mul.mpr ⟨[x], mem_top_lang _, _, ih, rfl⟩
      · by_cases hone : c = '?'
        · have hitem : ofText (c :: pattern) = .one :: ofText pattern := by simp [ofText, hone]
          rw [hitem, lang_cons]
          exact Language.mem_mul.mpr ⟨[x], ⟨x, rfl, rfl⟩, _, ih, by simp [filled, hone,
            isWildcardChar]⟩
        · have hitem : ofText (c :: pattern) = .lit c :: ofText pattern := by
            simp [ofText, hrun, hone]
          rw [hitem, lang_cons]
          exact Language.mem_mul.mpr ⟨[c], ⟨c, sameChar_refl ci c, rfl⟩, _, ih, by
            simp [filled, hrun, hone, isWildcardChar]⟩

/-- Lower-casing makes no wildcard character. -/
theorem isWildcardChar_toLower (c : Char) : isWildcardChar c.toLower = isWildcardChar c := by
  have hback : ∀ d : Char, d.toLower = d → d.toUpper = d → c.toLower = d → c = d := by
    intro d hlower hupper hc
    rcases eq_of_toLower_eq (hc.trans hlower.symm) with h | h | h
    · exact h
    · exact h.trans hlower
    · exact h.trans hupper
  cases hwild : isWildcardChar c with
  | true => rw [FnMatch.toLower_wildcard hwild, hwild]
  | false =>
      simp only [isWildcardChar, Bool.or_eq_false_iff, decide_eq_false_iff_not] at hwild ⊢
      exact ⟨fun h => hwild.1 (hback '*' (by decide) (by decide) h),
        fun h => hwild.2 (hback '?' (by decide) (by decide) h)⟩

/-- Filled in with a letter, a pattern has no wildcards left. -/
theorem filled_plain {x : Char} (hx : isWildcardChar x = false) (pattern : Str) :
    ∀ c ∈ filled x pattern, isWildcardChar c = false := by
  intro c hc
  obtain ⟨d, -, rfl⟩ := List.mem_map.mp hc
  split
  · exact hx
  · rename_i hwild
    simpa using hwild

/-- The value an operator sees has no wildcard characters when the subject has none. -/
theorem lowered_plain {rule : SecRule} (honly : LowercaseOnly rule) {s : Str}
    (h : ∀ c ∈ s, isWildcardChar c = false) : ∀ c ∈ lowered rule s, isWildcardChar c = false := by
  by_cases hcleared : effective rule.transformations = []
  · rw [lowered_of_cleared hcleared]
    exact h
  · rw [lowered_of_effective honly hcleared]
    intro c hc
    obtain ⟨d, hd, rfl⟩ := List.mem_map.mp hc
    rw [isWildcardChar_toLower, h d hd]

/-- A wildcard in the argument is matched by other texts. -/
theorem plain_of_exact {op : StringOperator} {rule : SecRule} {m : Match} (hop : op ≠ .pm)
    (hm : LiteralMatch op rule m) (honly : LowercaseOnly rule)
    (hexact : ∀ s, valuesMatch rule m s ↔ op.holds rule.argument (lowered rule s) = true) :
    op = .streq ∨ ∀ c ∈ rule.argument, isWildcardChar c = false := by
  by_contra hneither
  obtain ⟨hstreq, hwild⟩ := not_or.mp hneither
  have hvalues : valuesMatch rule m (filled 'x' rule.argument) := by
    rw [valuesMatch, finalValues_single hm.values, hm.wildcard, decide_eq_true hstreq]
    refine matchesAny_iff.mpr ⟨_, List.mem_singleton_self _, (accepts_iff _).mpr ?_⟩
    rw [if_pos rfl, lang_frame]
    exact mem_framed.mpr ⟨[], _, [], by simp, fun _ => rfl, fun _ => rfl,
      filled_mem_lang _ 'x' rule.argument⟩
  obtain ⟨u, w, v, hsplit, -, -, hw⟩ :=
    mem_framed.mp ((holds_iff hop).mp ((hexact _).mp hvalues))
  obtain rfl := mem_wordLang_exact.mp hw
  apply hwild
  intro c hc
  refine lowered_plain honly (@filled_plain 'x' (by decide) rule.argument) c ?_
  rw [hsplit]
  exact List.mem_append_left _ (List.mem_append_right _ hc)

/-- A letter that folding changes is matched by other texts. -/
theorem caseKept_of_exact {op : StringOperator} {rule : SecRule} {m : Match} (hop : op ≠ .pm)
    (hm : LiteralMatch op rule m) (honly : LowercaseOnly rule)
    (hplain : op = .streq ∨ ∀ c ∈ rule.argument, isWildcardChar c = false)
    (hexact : ∀ s, valuesMatch rule m s ↔ op.holds rule.argument (lowered rule s) = true) :
    caseKeptIn rule rule.argument := by
  intro hnamed
  -- A subject that folds to the argument is matched, so the operator sees the argument.
  have hsubject : ∀ s : Str, s.map Char.toLower = rule.argument.map Char.toLower →
      lowered rule s = rule.argument := by
    intro s hs
    have hvalues : valuesMatch rule m s := by
      rw [valuesMatch_literal hm hplain, hnamed]
      exact mem_framed.mpr ⟨[], s, [], by simp, fun _ => rfl, fun _ => rfl,
        mem_wordLang_folded.mpr hs⟩
    apply eq_of_framed ((holds_iff hop).mp ((hexact s).mp hvalues))
    rw [← List.length_map Char.toLower, map_lowered honly, hs, List.length_map]
  have hlower : rule.argument.map Char.toLower = rule.argument := by
    by_cases hcleared : effective rule.transformations = []
    · have hsame := hsubject (rule.argument.map Char.toLower) (by
        rw [List.map_map]
        exact List.map_congr_left fun c _ => toLower_toLower c)
      rwa [lowered_of_cleared hcleared] at hsame
    · have hsame := hsubject rule.argument rfl
      rwa [lowered_of_effective honly hcleared] at hsame
  have hupper : effective rule.transformations = [] →
      rule.argument.map Char.toUpper = rule.argument := by
    intro hcleared
    have hsame := hsubject (rule.argument.map Char.toUpper) (by
      rw [List.map_map]
      exact List.map_congr_left fun c _ => toLower_toUpper c)
    rwa [lowered_of_cleared hcleared] at hsame
  have hfixed : ∀ {f : Char → Char}, rule.argument.map f = rule.argument →
      ∀ c ∈ rule.argument, f c = c := by
    intro f hmap
    exact List.map_inj_left.mp (hmap.trans (List.map_id' _).symm)
  intro c hc
  exact ⟨hfixed hlower c hc, fun hcleared => hfixed (hupper hcleared) c hc⟩

/-- **Literal operators.**  The emitted values have the verdict of the operator on
every subject exactly when the argument is matched as it stands. -/
theorem literal_exact_iff {op : StringOperator} {rule : SecRule} {m : Match} (hop : op ≠ .pm)
    (hm : LiteralMatch op rule m) (honly : LowercaseOnly rule) :
    (∀ s, valuesMatch rule m s ↔ op.holds rule.argument (lowered rule s) = true) ↔
      LiteralKept op rule := by
  constructor
  · intro hexact
    have hplain := plain_of_exact hop hm honly hexact
    exact ⟨hplain, caseKept_of_exact hop hm honly hplain hexact⟩
  · intro hkept s
    rw [valuesMatch_literal hm hkept.1, holds_iff hop]
    exact framed_lowered_iff honly hkept.2 s

/-- What an accepted `@pm` gives. -/
structure PhraseMatch (rule : SecRule) (m : Match) : Prop where
  values : m.values = (unique (splitWhitespace rule.argument)).map fun phrase =>
    '*' :: phrase ++ ['*']
  wildcard : m.wildcard = true
  caseInsensitive : m.caseInsensitive = true

theorem operatorMatch_phrases {t : CharTables} {rule : SecRule} {m : Match}
    (hname : rule.operator = StringOperator.pm.name) (h : operatorMatch t rule = .ok m) :
    PhraseMatch rule m := by
  unfold operatorMatch at h
  rw [hname, if_neg (by decide), if_neg (by decide), if_neg (by decide), if_neg (by decide),
    if_neg (by decide), if_neg (by decide), if_pos (by decide)] at h
  simp only [phraseMatch] at h
  split at h
  · cases h
  · split at h
    · cases h
    · cases h
      exact ⟨rfl, rfl, rfl⟩

/-- A value with a run at both edges. -/
def Starred (value : Str) : Prop := value.head? = some '*' ∧ value.getLast? = some '*'

theorem getLast?_transformLiterals {transform : Str → Str} {oneWildcard : Str} :
    ∀ (value literal : Str),
      (transformLiterals transform oneWildcard literal (value ++ ['*'])).getLast? = some '*' := by
  intro value
  induction value with
  | nil =>
      intro literal
      simp [transformLiterals, isWildcardChar]
  | cons c value ih =>
      intro literal
      rw [List.cons_append, transformLiterals]
      split
      · rw [List.getLast?_append, ih]
        rfl
      · exact ih _

/-- A transport form keeps the runs at the edges. -/
theorem starred_transformLiterals {transform : Str → Str} {oneWildcard value : Str}
    (h : Starred value) : Starred (transformLiterals transform oneWildcard [] value) := by
  obtain ⟨hhead, hlast⟩ := h
  refine ⟨?_, ?_⟩
  · cases value with
    | nil => cases hhead
    | cons c rest =>
        obtain rfl := Option.some.inj hhead
        simp [transformLiterals, isWildcardChar]
  · rw [← List.dropLast_append_getLast? _ hlast]
    exact getLast?_transformLiterals _ _

theorem starred_generalize {values : List Str} (h : ∀ value ∈ values, Starred value) :
    ∀ value ∈ generalizeWildcardTransportForms values, Starred value := by
  intro value hvalue
  rcases mem_of_mem_generalize hvalue with hold | ⟨-, hderived⟩
  · exact h value hold
  · obtain ⟨source, hsource, hform⟩ := List.mem_flatMap.mp hderived
    have hstarred := h source (List.mem_of_mem_filter hsource)
    rcases List.mem_append.mp hform with hpercent | hhex
    · obtain ⟨depth, -, rfl⟩ := List.mem_map.mp hpercent
      exact starred_transformLiterals hstarred
    · split at hhex
      · obtain rfl := List.mem_singleton.mp hhex
        exact starred_transformLiterals hstarred
      · cases hhex

/-- Among values with runs at both edges every subsuming one reaches. -/
theorem dropsCovered_of_starred {values : List Str} (h : ∀ value ∈ values, Starred value) :
    dropsCovered values = true := by
  apply List.all_eq_true.mpr
  intro value _
  cases hany : values.any fun other => subsumes other value with
  | false => simp
  | true =>
      obtain ⟨other, hother, hsubsumes⟩ := List.any_eq_true.mp hany
      have hreaches : reaches other value = true := by
        simp [reaches, (h other hother).1, (h other hother).2]
      have hcovered : (values.any fun other => subsumes other value && reaches other value) =
          true := List.any_eq_true.mpr ⟨other, hother, by rw [hsubsumes, hreaches]; rfl⟩
      rw [hcovered, Bool.or_true]

/-- The emitted values of `@pm`, before rewriting drops any. -/
theorem valuesMatch_phrases {rule : SecRule} {m : Match} (hm : PhraseMatch rule m) (s : Str) :
    valuesMatch rule m s ↔
      ∃ value ∈ generalizeWildcardTransportForms m.values,
        s ∈ lang (sameChar true) (ofText value) := by
  have hstarred : ∀ value ∈ m.values, Starred value := by
    intro value hvalue
    rw [hm.values] at hvalue
    obtain ⟨phrase, -, rfl⟩ := List.mem_map.mp hvalue
    exact ⟨rfl, List.getLast?_concat⟩
  rw [valuesMatch, hm.caseInsensitive, Bool.true_or, hm.wildcard, finalValues, if_pos hm.wildcard,
    matchesAny_remove (dropsCovered_of_starred (starred_generalize hstarred)), matchesAny_iff]
  constructor
  · rintro ⟨value, hvalue, hmatch⟩
    exact ⟨value, hvalue, (accepts_iff _).mp hmatch⟩
  · rintro ⟨value, hvalue, hmatch⟩
    exact ⟨value, hvalue, (accepts_iff _).mpr hmatch⟩

/-- The phrases of an argument are made of its characters. -/
theorem mem_of_mem_phrase {argument phrase : Str} (h : phrase ∈ splitWhitespace argument) :
    ∀ c ∈ phrase, c ∈ argument := by
  have hpiece : phrase ∈ argument.splitOnP isSpace := List.mem_of_mem_filter h
  clear h
  induction argument generalizing phrase with
  | nil =>
      rw [List.splitOnP_nil, List.mem_singleton] at hpiece
      simp [hpiece]
  | cons d argument ih =>
      intro c hc
      rw [List.splitOnP_cons_eq_if_modifyHead] at hpiece
      split at hpiece
      · rcases List.mem_cons.mp hpiece with rfl | hpiece
        · cases hc
        · exact List.mem_cons_of_mem _ (ih hpiece c hc)
      · cases hsplit : argument.splitOnP isSpace with
        | nil => exact absurd hsplit (List.splitOnP_ne_nil _ _)
        | cons first rest =>
            rw [hsplit] at hpiece ih
            rcases List.mem_cons.mp hpiece with rfl | hrest
            · rcases List.mem_cons.mp hc with rfl | hc
              · exact List.mem_cons_self
              · exact List.mem_cons_of_mem _ (ih List.mem_cons_self c hc)
            · exact List.mem_cons_of_mem _ (ih (List.mem_cons_of_mem _ hrest) c hc)

/-- A character that an argument does not have and no letter folds to. -/
structure Fresh (argument : Str) (x : Char) : Prop where
  absent : x ∉ argument
  plain : isWildcardChar x = false
  lower : x.toLower = x
  alone : ∀ c : Char, c.toLower = x → c = x

/-- An argument within its bound leaves a character fresh. -/
theorem exists_fresh {argument : Str} (h : argument.length ≤ maxArgumentLength) :
    ∃ x, Fresh argument x := by
  -- More caseless characters than the argument has places.
  have hlist : ∃ x ∈ (List.range 4097).map fun i => Char.ofNat (19968 + i), x ∉ argument := by
    by_contra hnone
    have hsubset : ((List.range 4097).map fun i => Char.ofNat (19968 + i)) ⊆ argument := by
      intro x hx
      by_contra habsent
      exact hnone ⟨x, hx, habsent⟩
    have hnodup : ((List.range 4097).map fun i => Char.ofNat (19968 + i)).Nodup := by
      apply List.Nodup.map_on _ List.nodup_range
      intro i hi j hj hsame
      have hi' := List.mem_range.mp hi
      have hj' := List.mem_range.mp hj
      have hcode := congrArg Char.toNat hsame
      rw [toNat_ofNat (Or.inl (by omega)), toNat_ofNat (Or.inl (by omega))] at hcode
      omega
    have hlength := (hnodup.subperm hsubset).length_le
    rw [List.length_map, List.length_range] at hlength
    have hmax : maxArgumentLength = 4096 := rfl
    omega
  obtain ⟨x, hx, habsent⟩ := hlist
  obtain ⟨i, hi, rfl⟩ := List.mem_map.mp hx
  have hcode : (Char.ofNat (19968 + i)).toNat = 19968 + i :=
    toNat_ofNat (Or.inl (by have := List.mem_range.mp hi; omega))
  refine ⟨_, habsent, ?_, ?_, ?_⟩
  · simp only [isWildcardChar, Bool.or_eq_false_iff, decide_eq_false_iff_not, ← Char.toNat_inj,
      hcode]
    have hstar : '*'.toNat = 42 := rfl
    have hquestion : '?'.toNat = 63 := rfl
    omega
  · rw [← Char.toNat_inj, toNat_toLower, hcode]
    split <;> omega
  · intro c hc
    have hnat := congrArg Char.toNat hc
    rw [toNat_toLower, hcode] at hnat
    rw [← Char.toNat_inj, hcode]
    split at hnat <;> omega

/-- The values `@pm` is written into. -/
def phraseValues (argument : Str) : List Str :=
  (unique (splitWhitespace argument)).map fun phrase => '*' :: phrase ++ ['*']

/-- Every emitted value has, whatever its wildcards stand for, a phrase of the
list in it: one without wildcard characters. -/
def PhrasesKept (argument : Str) : Prop :=
  ∀ value ∈ generalizeWildcardTransportForms (phraseValues argument),
    ∃ phrase ∈ splitWhitespace argument, (∀ c ∈ phrase, isWildcardChar c = false) ∧
      isSubstring (phrase.map Char.toLower) (value.map Char.toLower) = true

/-- A value with a phrase between its wildcards matches only subjects that have it. -/
theorem phrase_of_mem_lang {phrase value s : Str}
    (hplain : ∀ c ∈ phrase, isWildcardChar c = false)
    (hphrase : isSubstring (phrase.map Char.toLower) (value.map Char.toLower) = true)
    (hs : s ∈ lang (sameChar true) (ofText value)) :
    isSubstring (phrase.map Char.toLower) (s.map Char.toLower) = true := by
  obtain ⟨u, v, hsplit⟩ := isSubstring_iff.mp hphrase
  obtain ⟨front, b, rfl, hfront, -⟩ := List.map_eq_append_iff.mp hsplit
  obtain ⟨a, piece, rfl, -, hpiece⟩ := List.map_eq_append_iff.mp hfront
  have hliteral : ∀ c ∈ piece, isWildcardChar c = false := by
    intro c hc
    have hlower : c.toLower ∈ phrase.map Char.toLower := by
      rw [← hpiece]
      exact List.mem_map_of_mem hc
    obtain ⟨d, hd, hsame⟩ := List.mem_map.mp hlower
    rw [← isWildcardChar_toLower c, ← hsame, isWildcardChar_toLower, hplain d hd]
  rw [ofText_append, ofText_append, lang_append, lang_append, Language.mem_mul] at hs
  obtain ⟨front', hfront', b', -, rfl⟩ := hs
  obtain ⟨a', -, w, hw, rfl⟩ := Language.mem_mul.mp hfront'
  rw [lang_ofText_literal _ hliteral, mem_wordLang_folded, hpiece] at hw
  exact isSubstring_iff.mpr ⟨a'.map Char.toLower, b'.map Char.toLower, by simp [hw]⟩

/-- A text that fills the wildcards of a value with a fresh character has only the
phrases the value has. -/
theorem phrase_of_filled {argument phrase value : Str} {x : Char} (hx : Fresh argument x)
    (hphrase : ∀ c ∈ phrase, c ∈ argument)
    (h : isSubstring (phrase.map Char.toLower) ((filled x value).map Char.toLower) = true) :
    (∀ c ∈ phrase, isWildcardChar c = false) ∧
      isSubstring (phrase.map Char.toLower) (value.map Char.toLower) = true := by
  obtain ⟨u, v, hsplit⟩ := isSubstring_iff.mp h
  rw [filled, List.map_map] at hsplit
  obtain ⟨front, b, rfl, hfront, -⟩ := List.map_eq_append_iff.mp hsplit
  obtain ⟨a, piece, rfl, -, hpiece⟩ := List.map_eq_append_iff.mp hfront
  have hfolded : x ∉ phrase.map Char.toLower := by
    intro hmem
    obtain ⟨c, hc, hlower⟩ := List.mem_map.mp hmem
    exact hx.absent (hx.alone c hlower ▸ hphrase c hc)
  have hliteral : ∀ c ∈ piece, isWildcardChar c = false := by
    intro c hc
    by_contra hwild
    apply hfolded
    rw [← hpiece]
    refine List.mem_map.mpr ⟨c, hc, ?_⟩
    simp only [Function.comp_apply, if_pos (Bool.eq_true_of_not_eq_false hwild), hx.lower]
  have hsame : piece.map Char.toLower = phrase.map Char.toLower := by
    rw [← hpiece]
    apply List.map_congr_left
    intro c hc
    simp [hliteral c hc]
  refine ⟨?_, isSubstring_iff.mpr ⟨a.map Char.toLower, b.map Char.toLower, by simp [hsame]⟩⟩
  intro c hc
  have hlower : c.toLower ∈ piece.map Char.toLower := by
    rw [hsame]
    exact List.mem_map_of_mem hc
  obtain ⟨d, hd, hd'⟩ := List.mem_map.mp hlower
  rw [← isWildcardChar_toLower c, ← hd', isWildcardChar_toLower, hliteral d hd]

/-- **Phrases.**  The emitted values have the verdict of `@pm` on every subject
exactly when each of them has a phrase of the list in it. -/
theorem phrases_exact_iff {rule : SecRule} {m : Match} (hm : PhraseMatch rule m)
    (honly : LowercaseOnly rule) (hbound : rule.argument.length ≤ maxArgumentLength) :
    (∀ s, valuesMatch rule m s ↔
        StringOperator.pm.holds rule.argument (lowered rule s) = true) ↔
      PhrasesKept rule.argument := by
  have hvalues : m.values = phraseValues rule.argument := hm.values
  have hholds : ∀ s, StringOperator.pm.holds rule.argument (lowered rule s) = true ↔
      ∃ phrase ∈ splitWhitespace rule.argument,
        isSubstring (phrase.map Char.toLower) (s.map Char.toLower) = true := by
    intro s
    rw [StringOperator.holds, List.any_eq_true, map_lowered honly]
  simp only [valuesMatch_phrases hm, hholds, hvalues]
  constructor
  · intro hexact value hvalue
    obtain ⟨x, hx⟩ := exists_fresh hbound
    obtain ⟨phrase, hphrase, hfound⟩ :=
      (hexact (filled x value)).mp ⟨value, hvalue, filled_mem_lang true x value⟩
    exact ⟨phrase, hphrase, phrase_of_filled hx (mem_of_mem_phrase hphrase) hfound⟩
  · intro hkept s
    constructor
    · rintro ⟨value, hvalue, hs⟩
      obtain ⟨phrase, hphrase, hplain, hin⟩ := hkept value hvalue
      exact ⟨phrase, hphrase, phrase_of_mem_lang hplain hin hs⟩
    · rintro ⟨phrase, hphrase, hfound⟩
      have hvalue : frame false false phrase ∈ phraseValues rule.argument :=
        List.mem_map.mpr ⟨phrase, (mem_unique _ _).mpr hphrase, rfl⟩
      refine ⟨frame false false phrase, mem_generalize hvalue, ?_⟩
      obtain ⟨u, v, hsplit⟩ := isSubstring_iff.mp hfound
      obtain ⟨front, b, rfl, hfront, -⟩ := List.map_eq_append_iff.mp hsplit
      obtain ⟨a, piece, rfl, -, hpiece⟩ := List.map_eq_append_iff.mp hfront
      rw [lang_frame]
      refine mem_framed.mpr ⟨a, piece, b, rfl, by simp, by simp, ?_⟩
      -- A phrase, read as a pattern, matches the texts that spell it.
      have hself : ∀ word w : Str, w.map Char.toLower = word.map Char.toLower →
          w ∈ lang (sameChar true) (ofText word) := by
        intro word
        induction word with
        | nil =>
            intro w hw
            rw [List.map_nil, List.map_eq_nil_iff] at hw
            rw [hw]
            exact rfl
        | cons c word ih =>
            intro w hw
            cases w with
            | nil => cases hw
            | cons d w =>
                obtain ⟨hhead, htail⟩ := List.cons.inj hw
                have hrest := ih w htail
                by_cases hrun : c = '*'
                · rw [hrun, lang_run]
                  exact Language.mem_mul.mpr ⟨[d], mem_top_lang _, w, hrest, rfl⟩
                · by_cases hone : c = '?'
                  · have hitem : ofText (c :: word) = .one :: ofText word := by
                      simp [ofText, hone]
                    rw [hitem, lang_cons]
                    exact Language.mem_mul.mpr ⟨[d], ⟨d, rfl, rfl⟩, w, hrest, rfl⟩
                  · have hitem : ofText (c :: word) = .lit c :: ofText word := by
                      simp [ofText, hrun, hone]
                    rw [hitem, lang_cons]
                    exact Language.mem_mul.mpr
                      ⟨[d], ⟨d, sameChar_true.mpr hhead.symm, rfl⟩, w, hrest, rfl⟩
      exact hself phrase piece hpiece

/-- The argument is matched as the operator matches it. -/
def ArgumentKept (op : StringOperator) (rule : SecRule) : Prop :=
  if op = .pm then PhrasesKept rule.argument else LiteralKept op rule

/-- A header or a cookie. -/
def OverField (v : Variable) : Prop :=
  v.collection = "REQUEST_HEADERS".toList ∨ v.collection = "REQUEST_COOKIES".toList

/-- The verdict of a condition over a header or a cookie. -/
theorem built_matches_iff {t : CharTables} {v : Variable} {rule : SecRule} {m : Match}
    {cc : CompiledCondition} (hfield : OverField v)
    (h : buildCondition t v rule m (caseSensitiveOf rule m) = .ok cc) (s : Str) :
    cc.condition.matches s = true ↔ (valuesMatch rule m s ↔ rule.negated = false) := by
  obtain ⟨c, hb⟩ := buildCondition_ok h
  have hplain : c.literalOnly = false ∧ c.encodable = false := by
    have hknown := hb.known
    rcases hfield with hv | hv
    · rw [hv] at hknown
      have hrow : component "REQUEST_HEADERS".toList = some c := hknown
      obtain rfl := Option.some.inj hrow
      exact ⟨rfl, rfl⟩
    · rw [hv] at hknown
      have hrow : component "REQUEST_COOKIES".toList = some c := hknown
      obtain rfl := Option.some.inj hrow
      exact ⟨rfl, rfl⟩
  obtain ⟨hflags, hmethod⟩ := hasValueFlags_of_component hb.known hplain.1
  have hvalues : conditionValues t c v m = finalValues m := by
    have hold : componentValues t c v m = m.values := by
      rw [componentValues, if_neg hmethod, if_neg]
      simp [hplain.2]
    rw [conditionValues, hold]
    rfl
  rw [Condition.matches, hb.valueCase, if_pos hflags, hb.valueWildcard, if_pos hflags, hb.value,
    hvalues, hb.positiveMatch, caseSensitiveOf_eq, Option.getD_some, Option.getD_some,
    Bool.not_not, beq_iff_eq, valuesMatch]
  generalize matchesAny _ _ _ _ = verdict
  cases verdict <;> cases rule.negated <;> simp

/-- A condition over a header or a cookie has the verdict of its directive on every
value exactly when the argument is kept. -/
theorem built_exact_iff {t : CharTables} {op : StringOperator} {v : Variable} {rule : SecRule}
    {m : Match} {cc : CompiledCondition} (hname : rule.operator = op.name)
    (honly : LowercaseOnly rule) (hbound : rule.argument.length ≤ maxArgumentLength)
    (hfield : OverField v) (hmatch : operatorMatch t rule = .ok m)
    (h : buildCondition t v rule m (caseSensitiveOf rule m) = .ok cc) :
    (∀ s, cc.condition.matches s = true ↔ operatorVerdict op rule s) ↔ ArgumentKept op rule := by
  have hvalues : (∀ s, cc.condition.matches s = true ↔ operatorVerdict op rule s) ↔
      ∀ s, valuesMatch rule m s ↔ op.holds rule.argument (lowered rule s) = true := by
    apply forall_congr'
    intro s
    rw [built_matches_iff hfield h, operatorVerdict]
    cases rule.negated with
    | false => simp only [iff_true]
    | true => simp only [Bool.true_eq_false, iff_false, not_iff_not]
  rw [hvalues, ArgumentKept]
  by_cases hop : op = .pm
  · subst hop
    rw [if_pos rfl]
    exact phrases_exact_iff (operatorMatch_phrases hname hmatch) honly hbound
  · rw [if_neg hop]
    exact literal_exact_iff hop (operatorMatch_literal hop hname hmatch) honly

/-- A parsed argument is within its bound. -/
theorem argument_bounded {t : CharTables} {directive : Str} {rule : SecRule}
    (h : parseSecrule t directive = .ok rule) : rule.argument.length ≤ maxArgumentLength := by
  simp only [parseSecrule] at h
  split at h
  · cases h
  · split at h
    · cases h
    · split at h
      · cases h
      · split at h
        · cases h
        · rename_i hbound
          cases h
          exact Nat.le_of_not_lt hbound
  · cases h

/-- **String operators.**  Every variable of a compiled directive has its condition.
Where a string operator looks at a header or a cookie through `none` and
`lowercase`, the condition has the verdict of the operator on every value exactly
when the argument is kept: it has no wildcard character (unless it is compared
whole), and folding letter case, once it is named, changes nothing about it; of a
phrase list every emitted value has a phrase in it. -/
theorem compile_string_exact_iff {t : CharTables} {pattern : Pattern} {proposal : Proposal}
    {rules : List SecRule} {op : StringOperator} {i : Nat} {rule : SecRule} {v : Variable}
    (hparsed : (splitDirectives t pattern.patternSummary).mapM (parseSecrule t) = .ok rules)
    (h : compile t pattern none = .ok (some proposal))
    (hi : (inspected rules)[i]? = some (rule, v)) (hname : rule.operator = op.name)
    (honly : LowercaseOnly rule) (hfield : OverField v) :
    ∃ condition, proposal.candidateContent.conditions[i]? = some condition ∧
      ((∀ s, condition.matches s = true ↔ operatorVerdict op rule s) ↔ ArgumentKept op rule) := by
  obtain ⟨rules', compiled, conditions, notes, hcompilation⟩ := compile_ok h
  obtain rfl : rules' = rules := Except.ok.inj (hcompilation.parsed.symm.trans hparsed)
  have happlied : (compiled.conditions, ([] : List Str)) = (conditions, notes) :=
    Except.ok.inj hcompilation.applied
  obtain ⟨rfl, rfl⟩ := Prod.mk.inj happlied
  have hbuilt := compileRules_from hcompilation.loop
  obtain ⟨hlt, hat⟩ := List.getElem?_eq_some_iff.mp hi
  have hlt' : i < compiled.conditions.length := hbuilt.length_eq ▸ hlt
  obtain ⟨m, cc, hmatch, hcc, hcondition⟩ := hbuilt.get hlt hlt'
  rw [List.get_eq_getElem, hat] at hmatch hcc
  have hrule : rule ∈ rules' := by
    obtain ⟨rule', hmem, hpair⟩ := List.mem_flatMap.mp (List.mem_of_getElem? hi)
    obtain ⟨v', -, hsame⟩ := List.mem_map.mp hpair
    rw [← (Prod.mk.inj hsame).1]
    exact hmem
  obtain ⟨directive, -, hdirective⟩ := mapM_ok_right hparsed hrule
  refine ⟨cc.condition, ?_, ?_⟩
  · rw [hcompilation.proposed, ← hcondition]
    exact List.getElem?_eq_getElem hlt'
  · exact built_exact_iff hname honly (argument_bounded hdirective) hfield hmatch hcc

/-- A header that has to contain a text. -/
def containsHeader (argument : Str) : Pattern :=
  { patternSummary := headerDirective ['A'] ("contains ".toList ++ argument) "id:1".toList
    vulnerabilityId := "CVE-1".toList }

/-- A directive that looks for a text in a header. -/
def containsRule (argument : Str) : SecRule :=
  { vars := [⟨"REQUEST_HEADERS".toList, some ['A']⟩], negated := false,
    operator := "contains".toList, argument := argument, transformations := [],
    message := none, tags := [], chained := false }

/-- The condition it compiles to. -/
def containsCondition (argument : Str) : Condition :=
  { type := .requestHeaderValueMatch, positiveMatch := true, selector := some (.header, ['A']),
    valueCase := some true, valueWildcard := some true, value := ['*' :: argument ++ ['*']] }

/-- `@contains a*b` becomes a condition that matches `axb`. -/
theorem compile_string_inexact_star :
    ¬ ∀ (t : CharTables) (pattern : Pattern) (proposal : Proposal) (rules : List SecRule)
        (op : StringOperator) (i : Nat) (rule : SecRule) (v : Variable) (condition : Condition),
      (splitDirectives t pattern.patternSummary).mapM (parseSecrule t) = .ok rules →
      compile t pattern none = .ok (some proposal) →
      (inspected rules)[i]? = some (rule, v) → rule.operator = op.name →
      LowercaseOnly rule → OverField v →
      proposal.candidateContent.conditions[i]? = some condition →
      ∀ s, condition.matches s = true ↔ operatorVerdict op rule s := by
  intro h
  obtain ⟨proposal, hcompile, -, hconditions⟩ :
      ∃ proposal, compile asciiTables (containsHeader "a*b".toList) none =
          .ok (some proposal) ∧
        proposal.candidateContent.operation = .and ∧
        proposal.candidateContent.conditions = [containsCondition "a*b".toList] :=
    exists_proposal (by decide +kernel)
  have hexact := h asciiTables (containsHeader "a*b".toList) proposal
    [containsRule "a*b".toList] .contains 0 (containsRule "a*b".toList)
    ⟨"REQUEST_HEADERS".toList, some ['A']⟩ (containsCondition "a*b".toList)
    (by decide +kernel) hcompile rfl rfl (by simp [LowercaseOnly, containsRule]) (Or.inl rfl)
    (by rw [hconditions]; rfl) "axb".toList
  have hverdict := hexact.mp (by decide +kernel)
  have hfound := hverdict.mpr rfl
  exact absurd hfound (by decide +kernel)

/-- The rule that looks for `select` is compiled exactly. -/
theorem compile_string_exact_select :
    ∃ proposal, compile asciiTables (containsHeader "select".toList) none =
        .ok (some proposal) ∧
      ∃ condition, proposal.candidateContent.conditions[0]? = some condition ∧
        ∀ s, condition.matches s = true ↔
          operatorVerdict .contains (containsRule "select".toList) s := by
  obtain ⟨proposal, hcompile, -, -⟩ :
      ∃ proposal, compile asciiTables (containsHeader "select".toList) none =
          .ok (some proposal) ∧
        proposal.candidateContent.operation = .and ∧
        proposal.candidateContent.conditions = [containsCondition "select".toList] :=
    exists_proposal (by decide +kernel)
  obtain ⟨condition, hat, hiff⟩ := @compile_string_exact_iff asciiTables
    (containsHeader "select".toList) proposal [containsRule "select".toList] .contains 0
    (containsRule "select".toList) ⟨"REQUEST_HEADERS".toList, some ['A']⟩ (by decide +kernel)
    hcompile rfl rfl (by simp [LowercaseOnly, containsRule]) (Or.inl rfl)
  refine ⟨proposal, hcompile, condition, hat, hiff.mpr ?_⟩
  have hrun : ((containsRule "select".toList).argument.all fun c => !isWildcardChar c) = true := by
    decide +kernel
  rw [ArgumentKept, if_neg (by decide)]
  refine ⟨Or.inr fun c hc => by simpa using List.all_eq_true.mp hrun c hc, ?_⟩
  intro hnamed
  exact absurd hnamed (by decide +kernel)

end ModSecurity
