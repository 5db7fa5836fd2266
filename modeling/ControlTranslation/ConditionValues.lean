import ControlTranslation.Alternatives
import ControlTranslation.PayloadFolding

/-!
# The values of a compiled condition

Every path of the compiler that makes a condition leaves it with values, none of
them twice and none of them empty: the operators do, and so does every rewriting
after them.  The number of values is another matter.  The translator, the phrase
lists, the wildcard rewriting and the folding of payloads count; the two operators
that compare whole words do not, nor does the expansion into transport forms, so a
condition of literals is within the limit exactly when its forms happen to be few.
-/

namespace ModSecurity

open PyText

/-- Some values, none twice and none empty. -/
structure Proper (values : List Str) : Prop where
  nonempty : values ≠ []
  nodup : values.Nodup
  nonblank : [] ∉ values

/-- Values without a blank one are proper once repeats are dropped. -/
theorem proper_unique {values : List Str} (hne : values ≠ []) (hblank : [] ∉ values) :
    Proper (unique values) where
  nonempty := by rwa [Ne, unique_eq_nil]
  nodup := nodup_unique values
  nonblank := by rwa [mem_unique]

theorem proper_singleton {value : Str} (h : value ≠ []) : Proper [value] :=
  ⟨List.cons_ne_nil _ _, List.nodup_singleton _, by simpa using h.symm⟩

/-- The translator refuses an empty value. -/
theorem translate_proper {t : CharTables} {source : Str} {result : RegexResult}
    (h : translate t source = .ok result) : Proper result.values := by
  simp only [translate] at h
  split at h
  · cases h
  · split at h
    · cases h
    · split at h
      · cases h
      · split at h
        · cases h
        · split at h
          · cases h
          · split_ifs at h with hcount hempty hliteral
            obtain rfl := Except.ok.inj h
            obtain ⟨hne, hblank⟩ := not_or.mp hempty
            exact ⟨hne, nodup_unique _, hblank⟩

theorem compactValues_nonblank (carriers : Carriers) (protocol : Str) :
    [] ∉ compactValues carriers protocol := by
  simp [compactValues]

/-- A compacted pattern has proper wildcard values. -/
theorem compact_proper {source : Str} {m : Match} (h : compactStructuredJndiRegex source = .ok m) :
    Proper m.values ∧ m.wildcard = true := by
  simp only [compactStructuredJndiRegex] at h
  split at h
  · cases h
  · split at h
    · cases h
    · split_ifs at h with hknown hcount
      obtain rfl := Except.ok.inj h
      refine ⟨proper_unique ?_ ?_, rfl⟩
      · simp [compactValues]
      · rw [List.mem_append, not_or]
        exact ⟨compactValues_nonblank _ _, compactValues_nonblank _ _⟩

theorem literalMatch_proper {before after argument : Str} {wildcard : Bool} {m : Match}
    (h : literalMatch before after wildcard argument = .ok m) : Proper m.values := by
  unfold literalMatch at h
  split_ifs at h with hne
  obtain rfl := Except.ok.inj h
  exact proper_singleton (by simp [hne])

theorem memberMatch_proper {emptyText : String} {members : List Str} {m : Match}
    (h : memberMatch emptyText (unique members) = .ok m) (hblank : [] ∉ members) :
    Proper m.values := by
  unfold memberMatch at h
  split_ifs at h with hne
  obtain rfl := Except.ok.inj h
  exact ⟨hne, nodup_unique _, by rwa [mem_unique]⟩

theorem splitWhitespace_nonblank (s : Str) : [] ∉ splitWhitespace s := by
  simp [splitWhitespace]

theorem splitAddresses_nonblank (argument : Str) : [] ∉ splitAddresses argument := by
  intro h
  obtain ⟨item, hitem, hstrip⟩ := List.mem_map.mp h
  have hne := (List.mem_filter.mp hitem).2
  simp [hstrip] at hne

theorem phraseMatch_proper {argument : Str} {m : Match} (h : phraseMatch argument = .ok m) :
    Proper m.values := by
  simp only [phraseMatch] at h
  split_ifs at h with hne hcount
  obtain rfl := Except.ok.inj h
  have hinj : Function.Injective fun item : Str => '*' :: item ++ ['*'] := fun a b hab =>
    List.append_cancel_right (List.cons.inj hab).2
  refine ⟨by simpa using hne, (nodup_unique _).map hinj, ?_⟩
  simp

/-- **Operators** leave values, none twice and none empty. -/
theorem operatorMatch_proper {t : CharTables} {rule : SecRule} {m : Match}
    (h : operatorMatch t rule = .ok m) : Proper m.values := by
  unfold operatorMatch at h
  split at h
  · unfold regexMatch at h
    split at h
    · rename_i result hresult
      obtain rfl := Except.ok.inj h
      exact translate_proper hresult
    · split_ifs at h
      exact (compact_proper h).1
  · split at h
    · exact literalMatch_proper h
    · split at h
      · exact literalMatch_proper h
      · split at h
        · exact literalMatch_proper h
        · split at h
          · exact literalMatch_proper h
          · split at h
            · exact memberMatch_proper h (splitWhitespace_nonblank _)
            · split at h
              · exact phraseMatch_proper h
              · split at h
                · exact memberMatch_proper h (splitAddresses_nonblank _)
                · cases h

theorem quoteChar_ne_nil (c : Char) : quoteChar c ≠ [] := by
  unfold quoteChar
  split
  · exact List.cons_ne_nil _ _
  · have hbytes : utf8 c ≠ [] := by
      simp [utf8, String.utf8EncodeChar_ne_nil]
    obtain ⟨b, rest, hcons⟩ := List.exists_cons_of_ne_nil hbytes
    rw [hcons]
    simp

theorem quote_ne_nil {value : Str} (h : value ≠ []) : quote value ≠ [] := by
  obtain ⟨c, rest, rfl⟩ := List.exists_cons_of_ne_nil h
  simp [quote, quoteChar_ne_nil]

theorem quotePlus_ne_nil {value : Str} (h : value ≠ []) : quotePlus value ≠ [] := by
  obtain ⟨c, rest, rfl⟩ := List.exists_cons_of_ne_nil h
  rw [quotePlus, List.flatMap_cons]
  split
  · exact List.cons_ne_nil _ _
  · simp [quoteChar_ne_nil]

/-- The encoded variants of proper values are proper. -/
theorem encodingVariants_proper {values : List Str} (h : Proper values) :
    Proper (encodingVariants values) := by
  apply proper_unique
  · obtain ⟨value, rest, hcons⟩ := List.exists_cons_of_ne_nil h.nonempty
    rw [hcons]
    simp
  · intro hmem
    obtain ⟨value, hvalue, hform⟩ := List.mem_flatMap.mp hmem
    have hne : value ≠ [] := fun heq => h.nonblank (heq ▸ hvalue)
    simp only [List.mem_cons, List.not_mem_nil, or_false] at hform
    rcases hform with heq | heq | heq | heq
    · exact hne heq.symm
    · exact quote_ne_nil hne heq.symm
    · exact quotePlus_ne_nil hne heq.symm
    · exact quote_ne_nil (quote_ne_nil hne) heq.symm

/-- A text with a wildcard leaves one in its transport form. -/
theorem transformLiterals_ne_nil {transform : Str → Str} {oneWildcard : Str}
    (hone : oneWildcard ≠ []) {text : Str} (h : ∃ c ∈ text, isWildcardChar c = true) :
    ∀ literal, transformLiterals transform oneWildcard literal text ≠ [] := by
  induction text with
  | nil =>
      obtain ⟨c, hc, -⟩ := h
      cases hc
  | cons c rest ih =>
      intro literal
      rw [transformLiterals]
      by_cases hwild : isWildcardChar c = true
      · rw [if_pos hwild]
        by_cases hquestion : c = '?'
        · simp [hquestion, hone]
        · simp [hquestion]
      · rw [if_neg hwild]
        apply ih
        obtain ⟨d, hd, hdwild⟩ := h
        rcases List.mem_cons.mp hd with rfl | hd
        · exact absurd hdwild hwild
        · exact ⟨d, hd, hdwild⟩

theorem mem_of_mem_literalCore {value : Str} {c : Char} (h : c ∈ literalCore value) :
    c ∈ value := by
  unfold literalCore removeSuffix at h
  have hprefix : c ∈ removePrefix '*' value := by
    split at h
    · exact List.mem_of_mem_dropLast h
    · exact h
  cases value with
  | nil => simp [removePrefix] at hprefix
  | cons d rest =>
      simp only [removePrefix] at hprefix
      split at hprefix
      · exact List.mem_cons_of_mem _ hprefix
      · exact hprefix

theorem exists_wildcard_of_generic {value : Str} (h : isGeneric value = true) :
    ∃ c ∈ value, isWildcardChar c = true := by
  simp only [isGeneric, Bool.or_eq_true, decide_eq_true_eq] at h
  rcases h with hstar | hquestion
  · exact ⟨'*', mem_of_mem_literalCore hstar, by decide⟩
  · exact ⟨'?', hquestion, by decide⟩

theorem derivedForms_nonblank (values : List Str) : [] ∉ derivedForms values := by
  intro hmem
  obtain ⟨value, hvalue, hform⟩ := List.mem_flatMap.mp hmem
  have hgeneric : isGeneric value = true := by
    have hboth := (List.mem_filter.mp hvalue).2
    simp only [Bool.and_eq_true] at hboth
    exact hboth.2
  have hwild := exists_wildcard_of_generic hgeneric
  rcases List.mem_append.mp hform with hdepth | hhex
  · obtain ⟨depth, -, heq⟩ := List.mem_map.mp hdepth
    exact transformLiterals_ne_nil (List.cons_ne_nil _ _) hwild [] heq
  · split at hhex
    · exact transformLiterals_ne_nil (List.cons_ne_nil _ _) hwild []
        (List.mem_singleton.mp hhex).symm
    · cases hhex

theorem generalize_proper {values : List Str} (h : Proper values) :
    Proper (generalizeWildcardTransportForms values) := by
  unfold generalizeWildcardTransportForms
  split
  · apply proper_unique
    · simp [h.nonempty]
    · rw [List.mem_append, not_or]
      exact ⟨h.nonblank, derivedForms_nonblank values⟩
  · exact h

/-- What makes a value redundant is generic, and stays. -/
theorem remove_proper {values : List Str} (h : Proper values) :
    Proper (removeSubsumedLiteralWildcards values) := by
  refine ⟨?_, nodup_unique _, fun hmem => h.nonblank (mem_of_mem_remove hmem)⟩
  obtain ⟨value, hvalue⟩ := List.exists_mem_of_ne_nil values h.nonempty
  by_cases hkept : value ∈ removeSubsumedLiteralWildcards values
  · exact List.ne_nil_of_mem hkept
  · obtain ⟨-, other, hother, hsubsumes⟩ := dropped hvalue hkept
    simp only [subsumes, Bool.and_eq_true] at hsubsumes
    exact List.ne_nil_of_mem (generic_kept hother hsubsumes.1.2)

section Conditions

variable {t : CharTables} (hupper : ∀ s, s ≠ [] → t.upper s ≠ [])

include hupper

theorem componentValues_proper (c : Component) (v : Variable) {m : Match} (h : Proper m.values) :
    Proper (componentValues t c v m) := by
  unfold componentValues
  split
  · apply proper_unique
    · simp [h.nonempty]
    · intro hmem
      obtain ⟨value, hvalue, heq⟩ := List.mem_map.mp hmem
      exact hupper value (fun hnil => h.nonblank (hnil ▸ hvalue)) heq
  · split
    · exact encodingVariants_proper h
    · exact h

theorem conditionValues_proper (c : Component) (v : Variable) {m : Match} (h : Proper m.values) :
    Proper (conditionValues t c v m) := by
  have hvalues := componentValues_proper hupper c v h
  unfold conditionValues
  split
  · exact remove_proper (generalize_proper hvalues)
  · exact hvalues

/-- **Conditions** have values, none twice and none empty. -/
theorem compileRules_proper {rules : List SecRule} {compiled : Compiled}
    (h : compileRules t rules = .ok compiled) :
    ∀ condition ∈ compiled.conditions, Proper condition.value := by
  intro condition hcondition
  obtain ⟨entry, -, m, cc, hmatch, hbuilt, rfl⟩ :=
    Alternatives.exists_right_of_forall₂ (compileRules_from h).flip hcondition
  obtain ⟨c, hc⟩ := buildCondition_ok hbuilt
  rw [hc.value]
  exact conditionValues_proper hupper c entry.2 (operatorMatch_proper hmatch)

end Conditions

/-- The words an operator compares as they are; there are none for one that compiles to
wildcards. -/
def literalValues (t : CharTables) (rule : SecRule) : List Str :=
  if rule.operator = "rx".toList then
    match translate t rule.argument with
    | .ok result => if result.wildcard then [] else result.values
    | .error _ => []
  else if rule.operator = "streq".toList ∨ rule.operator = "eq".toList then [rule.argument]
  else if rule.operator = "within".toList then unique (splitWhitespace rule.argument)
  else if rule.operator = "ipMatch".toList then unique (splitAddresses rule.argument)
  else []

/-- The forms in which a component may carry some words. -/
def transportForms (t : CharTables) (c : Component) (v : Variable) (values : List Str) : List Str :=
  if v.collection = "REQUEST_METHOD".toList then unique (values.map t.upper)
  else if c.encodable then encodingVariants values
  else values

/-- Every variable's words come in few enough forms. -/
def FewForms (t : CharTables) (rules : List SecRule) : Prop :=
  ∀ rule ∈ rules, ∀ v ∈ rule.vars, ∀ c, component v.collection = some c →
    (transportForms t c v (literalValues t rule)).length ≤ maxValues

theorem transportForms_nil (t : CharTables) (c : Component) (v : Variable) :
    transportForms t c v [] = [] := by
  unfold transportForms
  split
  · rfl
  · split <;> rfl

/-- An operator compiles to wildcards, or to its words. -/
theorem literalValues_eq {t : CharTables} {rule : SecRule} {m : Match}
    (h : operatorMatch t rule = .ok m) :
    literalValues t rule = if m.wildcard then [] else m.values := by
  have hliteral : ∀ {before after : Str} {wildcard : Bool},
      literalMatch before after wildcard rule.argument = .ok m →
        m.wildcard = wildcard ∧ m.values = [before ++ rule.argument ++ after] := by
    intro before after wildcard hm
    unfold literalMatch at hm
    split_ifs at hm
    obtain rfl := Except.ok.inj hm
    exact ⟨rfl, rfl⟩
  have hmember : ∀ {emptyText : String} {members : List Str},
      memberMatch emptyText members = .ok m → m.wildcard = false ∧ m.values = members := by
    intro emptyText members hm
    unfold memberMatch at hm
    split_ifs at hm
    obtain rfl := Except.ok.inj hm
    exact ⟨rfl, rfl⟩
  unfold operatorMatch at h
  unfold literalValues
  by_cases hrx : rule.operator = "rx".toList
  · rw [if_pos hrx] at h
    rw [if_pos hrx]
    unfold regexMatch at h
    cases htranslate : translate t rule.argument with
    | ok result =>
        rw [htranslate] at h
        obtain rfl := Except.ok.inj h
        rfl
    | error e =>
        rw [htranslate] at h
        dsimp only at h
        split_ifs at h
        rw [(compact_proper h).2]
        rfl
  · rw [if_neg hrx] at h
    rw [if_neg hrx]
    -- The operators name each other's texts apart, so each keeps its own branch.
    by_cases hcontains : rule.operator = "contains".toList
    · rw [if_pos hcontains] at h
      rw [(hliteral h).1, hcontains]
      rfl
    · rw [if_neg hcontains] at h
      by_cases hbegins : rule.operator = "beginsWith".toList
      · rw [if_pos hbegins] at h
        rw [(hliteral h).1, hbegins]
        rfl
      · rw [if_neg hbegins] at h
        by_cases hends : rule.operator = "endsWith".toList
        · rw [if_pos hends] at h
          rw [(hliteral h).1, hends]
          rfl
        · rw [if_neg hends] at h
          by_cases heq : rule.operator = "streq".toList ∨ rule.operator = "eq".toList
          · rw [if_pos heq] at h
            rw [if_pos heq, (hliteral h).1, (hliteral h).2, if_neg Bool.false_ne_true]
            simp
          · rw [if_neg heq] at h
            rw [if_neg heq]
            by_cases hwithin : rule.operator = "within".toList
            · rw [if_pos hwithin] at h
              rw [if_pos hwithin, (hmember h).1, (hmember h).2, if_neg Bool.false_ne_true]
            · rw [if_neg hwithin] at h
              rw [if_neg hwithin]
              by_cases hpm : rule.operator = "pm".toList
              · rw [if_pos hpm] at h
                simp only [phraseMatch] at h
                split_ifs at h
                obtain rfl := Except.ok.inj h
                rw [hpm]
                rfl
              · rw [if_neg hpm] at h
                by_cases hip : rule.operator = "ipMatch".toList
                · rw [if_pos hip] at h
                  rw [if_pos hip, (hmember h).1, (hmember h).2, if_neg Bool.false_ne_true]
                · rw [if_neg hip] at h
                  cases h

/-- A condition is within the limit if its words come in few enough forms. -/
theorem conditionValues_few_iff {t : CharTables} {v : Variable} {rule : SecRule} {m : Match}
    {caseSensitive : Bool} {c : Component} {cc : CompiledCondition}
    (hmatch : operatorMatch t rule = .ok m)
    (hc : ConditionBuilt t v rule m caseSensitive c cc) :
    cc.condition.value.length ≤ maxValues ↔
      (transportForms t c v (literalValues t rule)).length ≤ maxValues := by
  rw [literalValues_eq hmatch, hc.value]
  cases hwild : m.wildcard with
  | true =>
      rw [if_pos rfl, transportForms_nil]
      exact iff_of_true (hc.bounded hwild) (Nat.zero_le _)
  | false =>
      have hsame : conditionValues t c v m = transportForms t c v m.values := by
        rw [conditionValues, hwild, if_neg Bool.false_ne_true, componentValues, transportForms,
          hwild]
        by_cases hmethod : v.collection = "REQUEST_METHOD".toList
        · rw [if_pos hmethod, if_pos hmethod]
        · rw [if_neg hmethod, if_neg hmethod]
          by_cases hencodable : c.encodable = true
          · rw [if_pos ⟨hencodable, rfl⟩, if_pos hencodable]
          · rw [if_neg fun hboth => hencodable hboth.1, if_neg hencodable]
      rw [if_neg Bool.false_ne_true, hsame]

/-- The conditions of a rule set are within the limit if all its words come in few
enough forms. -/
theorem compileRules_few_iff {t : CharTables} {rules : List SecRule} {compiled : Compiled}
    (h : compileRules t rules = .ok compiled) :
    (∀ condition ∈ compiled.conditions, condition.value.length ≤ maxValues) ↔
      FewForms t rules := by
  have hall := compileRules_from h
  constructor
  · intro hfew rule hrule v hv c hc
    have hentry : (rule, v) ∈ inspected rules :=
      List.mem_flatMap.mpr ⟨rule, hrule, List.mem_map_of_mem hv⟩
    obtain ⟨condition, hcondition, m, cc, hmatch, hbuilt, rfl⟩ :=
      Alternatives.exists_right_of_forall₂ hall hentry
    obtain ⟨c', hc'⟩ := buildCondition_ok hbuilt
    obtain rfl := Option.some.inj (hc.symm.trans hc'.known)
    exact (conditionValues_few_iff hmatch hc').mp (hfew _ hcondition)
  · intro hfew condition hcondition
    obtain ⟨⟨rule, v⟩, hentry, m, cc, hmatch, hbuilt, rfl⟩ :=
      Alternatives.exists_right_of_forall₂ hall.flip hcondition
    obtain ⟨rule', hrule, hvar⟩ := List.mem_flatMap.mp hentry
    obtain ⟨v', hv, heq⟩ := List.mem_map.mp hvar
    obtain ⟨rfl, rfl⟩ := Prod.mk.inj heq
    obtain ⟨c, hc⟩ := buildCondition_ok hbuilt
    exact (conditionValues_few_iff hmatch hc).mpr (hfew rule' hrule v' hv c hc.known)

/-- A condition with payloads among its values, or one that stayed. -/
inductive Filled (payloads : List Str) (before : Condition) : Condition → Prop
  | kept : Filled payloads before before
  | filled (h : (before.withValues payloads).value.length ≤ maxValues) :
      Filled payloads before (before.withValues payloads)

/-- Folding fills one condition and counts its values. -/
theorem foldPayloads_filled {types : List ConditionType} {payloads : List Str}
    {conditions folded : List Condition}
    (h : foldPayloads types payloads conditions = .ok folded) :
    List.Forall₂ (Filled payloads) conditions folded := by
  induction conditions generalizing folded with
  | nil => cases h
  | cons c rest ih =>
      simp only [foldPayloads] at h
      split at h
      · split at h
        · cases h
        · rename_i hcount
          obtain rfl := Except.ok.inj h
          exact .cons (.filled (Nat.le_of_not_lt hcount))
            (List.forall₂_same.mpr fun _ _ => .kept)
      · cases hrest : foldPayloads types payloads rest with
        | error e =>
            rw [hrest] at h
            cases h
        | ok folded' =>
            rw [hrest] at h
            obtain rfl := Except.ok.inj h
            exact .cons .kept (ih hrest)

/-- Payloads keep values proper. -/
theorem Filled.proper {payloads : List Str} {before after : Condition}
    (h : Filled payloads before after) (hblank : [] ∉ payloads) (hproper : Proper before.value) :
    Proper after.value := by
  cases h with
  | kept => exact hproper
  | filled =>
      apply proper_unique
      · simp [hproper.nonempty]
      · rw [List.mem_append, not_or]
        exact ⟨hproper.nonblank, hblank⟩

/-- A condition is within the limit after the folding if it was before. -/
theorem Filled.few_iff {payloads : List Str} {before after : Condition}
    (h : Filled payloads before after) (hproper : Proper before.value) :
    before.value.length ≤ maxValues ↔ after.value.length ≤ maxValues := by
  cases h with
  | kept => exact Iff.rfl
  | filled hcount =>
      refine iff_of_true ?_ hcount
      have hsubset : before.value ⊆ (before.withValues payloads).value := fun value hvalue => by
        simp [Condition.withValues, hvalue]
      exact (List.subperm_of_subset hproper.nodup hsubset).length_le.trans hcount

theorem requiredPayloads_nonblank (r : Requirements) : [] ∉ r.requiredPayloads := by
  simp [Requirements.requiredPayloads]

/-- The path a rule gains is one proper value. -/
theorem pathScope_proper {conditions : List Condition} {r : Requirements} :
    ∀ condition ∈ pathScope conditions r,
      Proper condition.value ∧ condition.value.length ≤ maxValues := by
  intro condition hcondition
  unfold pathScope at hcondition
  split at hcondition
  · cases hcondition
  · rename_i path hpath
    split at hcondition
    · cases hcondition
    · rw [List.mem_singleton.mp hcondition]
      have hne := (Option.filter_eq_some_iff.mp hpath).2
      exact ⟨proper_singleton (by simpa using hne), (by decide : 1 ≤ maxValues)⟩

/-- The requirements fill conditions and add a path. -/
theorem applyOptional_filled {t : CharTables} {conditions final : List Condition}
    {requirements : Option Requirements} {notes : List Str}
    (h : applyOptional t conditions requirements = .ok (final, notes)) :
    ∃ payloads folded added, [] ∉ payloads ∧ List.Forall₂ (Filled payloads) conditions folded ∧
      final = folded ++ added ∧
      ∀ condition ∈ added, Proper condition.value ∧ condition.value.length ≤ maxValues := by
  have hsame : List.Forall₂ (Filled []) conditions conditions :=
    List.forall₂_same.mpr fun _ _ => .kept
  cases requirements with
  | none =>
      cases h
      exact ⟨[], conditions, [], List.not_mem_nil, hsame, (List.append_nil _).symm, by simp⟩
  | some r =>
      simp only [applyOptional, applyRequirements] at h
      by_cases hpayloads : r.requiredPayloads = []
      · simp only [hpayloads, if_true] at h
        cases h
        exact ⟨[], conditions, _, List.not_mem_nil, hsame, rfl, pathScope_proper⟩
      · simp only [if_neg hpayloads] at h
        split at h
        · cases h
        · rename_i folded hfold
          cases h
          exact ⟨r.requiredPayloads, folded, _, requiredPayloads_nonblank r,
            foldPayloads_filled hfold, rfl, pathScope_proper⟩

/-- Between one and `maxValues` values, none twice and none empty. -/
structure WithinLimit (values : List Str) : Prop extends Proper values where
  few : values.length ≤ maxValues

/-- **The value limit.**  Every condition of a compiled rule has values, none twice and
none empty, and they are within the limit if and only if the words that the rule set
compares as they are come in few enough forms. -/
theorem compile_values {t : CharTables} (hupper : ∀ s, s ≠ [] → t.upper s ≠ [])
    {pattern : Pattern} {requirements : Option Requirements} {proposal : Proposal}
    {rules : List SecRule}
    (hparsed : (splitDirectives t pattern.patternSummary).mapM (parseSecrule t) = .ok rules)
    (h : compile t pattern requirements = .ok (some proposal)) :
    (∀ condition ∈ proposal.candidateContent.conditions, Proper condition.value) ∧
      ((∀ condition ∈ proposal.candidateContent.conditions, WithinLimit condition.value) ↔
        FewForms t rules) := by
  obtain ⟨rules', compiled, conditions, notes, hcompilation⟩ := compile_ok h
  obtain rfl : rules' = rules :=
    Except.ok.inj (hcompilation.parsed.symm.trans hparsed)
  have hbuilt := compileRules_proper hupper hcompilation.loop
  obtain ⟨payloads, folded, added, hblank, hfilled, rfl, hadded⟩ :=
    applyOptional_filled hcompilation.applied
  rw [hcompilation.proposed, ← compileRules_few_iff hcompilation.loop]
  change (∀ condition ∈ folded ++ added, _) ∧ ((∀ condition ∈ folded ++ added, _) ↔ _)
  have hproper : ∀ condition ∈ folded ++ added, Proper condition.value := by
    intro condition hcondition
    rcases List.mem_append.mp hcondition with hfolded | hpath
    · obtain ⟨before, hbefore, hfill⟩ :=
        Alternatives.exists_right_of_forall₂ hfilled.flip hfolded
      exact hfill.proper hblank (hbuilt before hbefore)
    · exact (hadded condition hpath).1
  refine ⟨hproper, fun hlimit before hbefore => ?_, fun hfew condition hcondition => ?_⟩
  · obtain ⟨after, hafter, hfill⟩ := Alternatives.exists_right_of_forall₂ hfilled hbefore
    exact (hfill.few_iff (hbuilt before hbefore)).mpr
      (hlimit after (List.mem_append_left _ hafter)).few
  · refine ⟨hproper condition hcondition, ?_⟩
    rcases List.mem_append.mp hcondition with hfolded | hpath
    · obtain ⟨before, hbefore, hfill⟩ :=
        Alternatives.exists_right_of_forall₂ hfilled.flip hfolded
      exact (hfill.few_iff (hbuilt before hbefore)).mp (hfew before hbefore)
    · exact (hadded condition hpath).2

/-- As many words as asked for. -/
def words (count : Nat) : List Str := (List.range count).map fun n => [Char.ofNat (192 + n)]

/-- A header that must be one of some words. -/
def withinWords (count : Nat) : Pattern :=
  { patternSummary := headerDirective ['A'] ("within ".toList ++ join [' '] (words count))
      "id:1".toList
    vulnerabilityId := "CVE-1".toList }

/-- A list of 33 words is emitted whole. -/
theorem compile_values_over_limit :
    ¬ ∀ (t : CharTables) (pattern : Pattern) (requirements : Option Requirements)
        (proposal : Proposal), (∀ s, s ≠ [] → t.upper s ≠ []) →
      compile t pattern requirements = .ok (some proposal) →
      ∀ condition ∈ proposal.candidateContent.conditions, WithinLimit condition.value := by
  intro h
  obtain ⟨proposal, hcompile, -, hconditions⟩ :
      ∃ proposal, compile asciiTables (withinWords 33) none = .ok (some proposal) ∧
        proposal.candidateContent.operation = .and ∧
        proposal.candidateContent.conditions =
          [{ headerCondition ['A'] [] with value := words 33 }] :=
    exists_proposal (by decide +kernel)
  have hupper : ∀ s, s ≠ [] → asciiTables.upper s ≠ [] := fun s hs => by
    simpa [asciiTables] using hs
  have hlimit := h asciiTables (withinWords 33) none proposal hupper hcompile
    { headerCondition ['A'] [] with value := words 33 } (by rw [hconditions]; simp)
  exact absurd hlimit.few (by decide)

/-- A value and a payload. -/
theorem compile_values_neverA :
    ∃ proposal, compile asciiTables neverA (some bypassB) = .ok (some proposal) ∧
      ∀ condition ∈ proposal.candidateContent.conditions, WithinLimit condition.value := by
  obtain ⟨⟨proposal, hcompile, -, -⟩, hparsed⟩ :
      (∃ proposal, compile asciiTables neverA (some bypassB) = .ok (some proposal) ∧
        proposal.candidateContent.operation = .and ∧
        proposal.candidateContent.conditions =
          [{ headerCondition ['A'] ['a'] with value := [['a'], ['b']] }]) ∧
      (splitDirectives asciiTables neverA.patternSummary).mapM (parseSecrule asciiTables) =
        .ok [headerRule ['A'] ['a'] false] :=
    ⟨exists_proposal (by decide +kernel), by decide +kernel⟩
  have hupper : ∀ s, s ≠ [] → asciiTables.upper s ≠ [] := fun s hs => by
    simpa [asciiTables] using hs
  refine ⟨proposal, hcompile, (compile_values hupper hparsed hcompile).2.mpr ?_⟩
  intro rule hrule v hv c hc
  rw [List.mem_singleton.mp hrule] at hv ⊢
  rw [List.mem_singleton.mp hv] at hc ⊢
  obtain rfl : headerComponent = c := Option.some.inj hc
  decide

end ModSecurity
