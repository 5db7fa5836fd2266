import ControlTranslation.EngineGates

/-!
# Authoritative rules and the doer

Two recognizers look for a `SecRule` in the proven artifact.  The compiler joins
continued lines, takes every separator of `str.splitlines` for the end of a line,
and wants no word character behind the keyword.  The engine, before it asks a doer,
searches the raw text: a line starts behind a line feed only, and white space has
to follow the keyword.

So a text may have a directive that the engine does not see, and then the doer is
asked.  This file says which texts those are.
-/

namespace TranslationEngine

open PyText JsonValue ModSecurity FnMatch SemanticGates

/-- A spelling of `SecRule` that the expressions take for the keyword. -/
def IsKeyword (word : Str) : Prop :=
  List.Forall₂ (fun letter c => foldsWith letter c = true) "SecRule".toList word

/-- White space up to the keyword and a white-space character behind it. -/
def KeywordAhead (text : Str) : Prop :=
  ∃ space word c after, text = space ++ word ++ c :: after ∧
    (∀ x ∈ space, isSpace x = true) ∧ IsKeyword word ∧ isSpace c = true

/-- At the start of the text or behind a line feed, the keyword is ahead. -/
def StandsAlone (text : Str) : Prop :=
  ∃ head body, text = head ++ body ∧ (head = [] ∨ head.getLast? = some '\n') ∧ KeywordAhead body

/-- A folded comparison with a word, letter by letter. -/
theorem folds_take_iff {word body : Str} :
    (body.take word.length).length = word.length ∧
        (List.zipWith foldsWith word body).all id = true ↔
      ∃ u v, body = u ++ v ∧ List.Forall₂ (fun letter c => foldsWith letter c = true) word u := by
  induction word generalizing body with
  | nil => simp
  | cons letter word ih =>
      cases body with
      | nil =>
          refine iff_of_false (fun h => by simp at h) ?_
          rintro ⟨u, v, hbody, hu⟩
          obtain ⟨rfl, rfl⟩ := List.append_eq_nil_iff.mp hbody.symm
          cases hu
      | cons c body =>
          have hstep : ((c :: body).take (letter :: word).length).length =
              (letter :: word).length ∧
              (List.zipWith foldsWith (letter :: word) (c :: body)).all id = true ↔
              foldsWith letter c = true ∧ (body.take word.length).length = word.length ∧
                (List.zipWith foldsWith word body).all id = true := by
            simp only [List.length_cons, List.take_succ_cons, Nat.add_right_cancel_iff,
              List.zipWith_cons_cons, List.all_cons, id_eq, Bool.and_eq_true]
            exact and_left_comm
          rw [hstep, ih]
          constructor
          · rintro ⟨hc, u, v, rfl, hu⟩
            exact ⟨c :: u, v, rfl, .cons hc hu⟩
          · rintro ⟨u, v, hbody, hu⟩
            cases hu with
            | cons hc hrest =>
                obtain ⟨rfl, rfl⟩ := List.cons.inj hbody
                exact ⟨hc, _, v, rfl, hrest⟩

/-- The keyword has seven letters, the first of which is no white space. -/
theorem keyword_shape {word : Str} (h : IsKeyword word) :
    word.length = 7 ∧ ∃ c rest, word = c :: rest ∧ isSpace c = false := by
  refine ⟨h.length_eq.symm, ?_⟩
  cases h with
  | @cons _ c _ rest hfolds _ =>
      refine ⟨c, rest, rfl, ?_⟩
      by_contra hspace
      rw [Bool.not_eq_false] at hspace
      simp only [foldsWith, Bool.or_eq_true, Bool.and_eq_true, beq_iff_eq] at hfolds
      rcases hfolds with hlower | ⟨-, rfl⟩
      · have hcode : c.toLower.toNat = 115 := congrArg Char.toNat hlower.symm
        rw [Glob.toNat_toLower] at hcode
        simp only [isSpace, Bool.or_eq_true, Bool.and_eq_true, decide_eq_true_eq, beq_iff_eq]
          at hspace
        split_ifs at hcode <;> omega
      · exact absurd hspace (by decide)

/-- Space in front of a text that starts with none. -/
theorem lstrip_append {space body : Str} (hspace : ∀ x ∈ space, isSpace x = true) :
    lstrip (space ++ body) = lstrip body := by
  induction space with
  | nil => rfl
  | cons c rest ih =>
      rw [List.cons_append, lstrip, List.dropWhile_cons_of_pos (hspace c List.mem_cons_self)]
      exact ih fun x hx => hspace x (List.mem_cons_of_mem _ hx)

/-- The search at one position. -/
theorem secRuleHere_iff {text : Str} : secRuleHere text = true ↔ KeywordAhead text := by
  have hbody : secRuleHere text = true ↔
      (∃ u v, lstrip text = u ++ v ∧ IsKeyword u) ∧
        ((lstrip text).drop 7).head?.any isSpace = true := by
    simp only [secRuleHere, Bool.and_eq_true, beq_iff_eq]
    exact and_congr_left' (@folds_take_iff "SecRule".toList (lstrip text))
  rw [hbody]
  constructor
  · rintro ⟨⟨u, v, hstrip, hword⟩, hbehind⟩
    rw [hstrip, ← (keyword_shape hword).1, List.drop_left] at hbehind
    cases v with
    | nil => cases hbehind
    | cons c after =>
        refine ⟨text.takeWhile isSpace, u, c, after, ?_, fun x hx => ?_, hword, hbehind⟩
        · rw [List.append_assoc, ← hstrip, lstrip, List.takeWhile_append_dropWhile]
        · exact List.mem_takeWhile_imp hx
  · rintro ⟨space, word, c, after, rfl, hspace, hword, hc⟩
    obtain ⟨hlength, first, rest, rfl, hfirst⟩ := keyword_shape hword
    have hstrip : lstrip (space ++ first :: rest ++ c :: after) = first :: rest ++ c :: after := by
      rw [List.append_assoc, lstrip_append hspace, lstrip, List.cons_append,
        List.dropWhile_cons_of_neg (by rw [hfirst]; exact Bool.noConfusion)]
    refine ⟨⟨first :: rest, c :: after, hstrip, hword⟩, ?_⟩
    rw [hstrip, ← hlength, List.drop_left]
    exact hc

/-- The search below the first line: behind some line feed. -/
theorem secRuleBelow_iff {text : Str} : secRuleBelow text = true ↔
    ∃ head body, text = head ++ '\n' :: body ∧ KeywordAhead body := by
  induction text with
  | nil => simp [secRuleBelow]
  | cons c rest ih =>
      simp only [secRuleBelow, Bool.or_eq_true, Bool.and_eq_true, beq_iff_eq, secRuleHere_iff, ih]
      constructor
      · rintro (⟨rfl, hahead⟩ | ⟨head, body, rfl, hahead⟩)
        · exact ⟨[], rest, rfl, hahead⟩
        · exact ⟨c :: head, body, rfl, hahead⟩
      · rintro ⟨head, body, htext, hahead⟩
        cases head with
        | nil =>
            obtain ⟨rfl, rfl⟩ := List.cons.inj htext
            exact Or.inl ⟨rfl, hahead⟩
        | cons d head =>
            obtain ⟨rfl, rfl⟩ := List.cons.inj htext
            exact Or.inr ⟨head, body, rfl, hahead⟩

/-- The engine sees an authoritative rule exactly where a keyword stands alone. -/
theorem hasAuthoritativeSecrule_iff {text : Str} :
    hasAuthoritativeSecrule text = true ↔ StandsAlone text := by
  rw [hasAuthoritativeSecrule, Bool.or_eq_true, secRuleHere_iff, secRuleBelow_iff]
  constructor
  · rintro (hahead | ⟨head, body, rfl, hahead⟩)
    · exact ⟨[], text, rfl, Or.inl rfl, hahead⟩
    · exact ⟨head ++ ['\n'], body, by simp, Or.inr (by simp), hahead⟩
  · rintro ⟨head, body, rfl, rfl | hfeed, hahead⟩
    · exact Or.inl hahead
    · obtain ⟨before, rfl⟩ := List.getLast?_eq_some_iff.mp hfeed
      exact Or.inr ⟨before, body, by simp, hahead⟩

/-- Content from code is never repaired. -/
theorem checkContent_repairs {sv : Services} {r : Request} {doer : Doer} {j : Judged}
    (h : j.fromDoer = false) : (checkContent sv r doer j).2 = 0 := by
  unfold checkContent
  rw [h]
  cases validate r.adapter j.content with
  | none => split_ifs <;> rfl
  | some result =>
      simp only [Bool.false_eq_true, if_false]
      split_ifs <;> rfl

/-- A deterministic proposal is never repaired. -/
theorem checkProposal_repairs (sv : Services) (r : Request) (doer : Doer) (proposal : Proposal)
    (source : Str) : (checkProposal sv r doer proposal source false).2 = 0 := by
  unfold checkProposal
  cases proposalPolicyFailure sv r proposal.translationLabel with
  | some refusal => rfl
  | none =>
      cases normalizeCandidateContent sv proposal.candidateContent with
      | text content => exact checkContent_repairs rfl
      | refused detail => rfl
      | raised detail => rfl

/-- No call for the Akamai target with this artifact asks a doer for anything, whatever
the deterministic paths and the rest of the request are. -/
def NeverAsks (text : Str) : Prop :=
  ∀ (sv : Services) (r : Request) (doer : Doer), r.targetTechnology = akamaiWaf →
    r.pattern.patternSummary = text →
      (translate sv r doer).proposeCalls = 0 ∧ (translate sv r doer).repairCalls = 0

/-- What the engine sees keeps the doer out. -/
theorem neverAsks_of_authoritative {text : Str} (h : hasAuthoritativeSecrule text = true) :
    NeverAsks text := by
  rintro sv r doer htarget rfl
  unfold translate
  cases r.signal .start with
  | true => exact ⟨rfl, rfl⟩
  | false =>
      simp only [Bool.false_eq_true, if_false]
      cases deterministicProposal sv r with
      | some found => exact ⟨rfl, checkProposal_repairs sv r doer found.1 found.2⟩
      | none =>
          rw [translateByDoer, if_pos ⟨htarget, h⟩]
          exact ⟨rfl, rfl⟩

/-- A request for the Akamai target with an artifact, which an adapter finds
expressible and nobody cancels. -/
def plainRequest (text : Str) : Request :=
  { userRequest with pattern := { userRequest.pattern with patternSummary := text } }

/-- Where no deterministic path has a proposal, an artifact the engine does not see is
handed to the doer. -/
theorem asks_of_not_authoritative {text : Str} (h : hasAuthoritativeSecrule text = false)
    (doer : Doer) : (translate userServices (plainRequest text) doer).proposeCalls = 1 := by
  have hunseen : ¬((plainRequest text).targetTechnology = akamaiWaf ∧
      hasAuthoritativeSecrule (plainRequest text).pattern.patternSummary = true) := by
    rintro ⟨-, hseen⟩
    exact absurd (h.symm.trans hseen) Bool.noConfusion
  have hasked : translate userServices (plainRequest text) doer =
      askDoer userServices (plainRequest text) doer := by
    change translateByDoer userServices (plainRequest text) doer = _
    rw [translateByDoer, if_neg hunseen]
    rfl
  have hgoes : (plainRequest text).signal .beforePropose ≠ true := Bool.false_ne_true
  rw [hasked, askDoer, if_neg hgoes]
  cases doer.propose <;> rfl

/-- The engine sees the authoritative rule of a text with a directive, and asks no
doer about it. -/
def KeepsDoerOut (t : CharTables) (text : Str) : Prop :=
  splitDirectives t text ≠ [] → hasAuthoritativeSecrule text = true ∧ NeverAsks text

/-- **Authoritative rules.**  The doer is kept out of exactly those texts with a
directive in which a keyword stands alone. -/
theorem keepsDoerOut_iff {t : CharTables} {text : Str} :
    KeepsDoerOut t text ↔ splitDirectives t text = [] ∨ StandsAlone text := by
  constructor
  · intro h
    by_cases hdirectives : splitDirectives t text = []
    · exact Or.inl hdirectives
    · exact Or.inr (hasAuthoritativeSecrule_iff.mp (h hdirectives).1)
  · rintro (hnone | halone) hdirectives
    · exact absurd hnone hdirectives
    · have hseen := hasAuthoritativeSecrule_iff.mpr halone
      exact ⟨hseen, neverAsks_of_authoritative hseen⟩

/-- The doer alone: it is asked in some call unless a keyword stands alone. -/
theorem neverAsks_iff {text : Str} : NeverAsks text ↔ StandsAlone text := by
  constructor
  · intro hnever
    by_contra hcrowded
    rw [← hasAuthoritativeSecrule_iff, Bool.not_eq_true] at hcrowded
    have hasked := asks_of_not_authoritative hcrowded draftingDoer
    rw [(hnever userServices (plainRequest text) draftingDoer rfl rfl).1] at hasked
    cases hasked
  · intro halone
    exact neverAsks_of_authoritative (hasAuthoritativeSecrule_iff.mpr halone)

/-- A rule that does not compile, with a quoted variable directly behind the keyword. -/
def quotedRule : Str := "SecRule\"ARGS:u\" \"@rx ^a\\s{2,}b$\" \"id:8,deny\"".toList

/-- The compiler finds a directive in it and refuses it; the doer is asked. -/
theorem quotedRule_asks :
    (¬ ∀ (t : CharTables) (text : Str), KeepsDoerOut t text) ∧
      splitDirectives asciiTables quotedRule = [quotedRule] ∧
      (∀ proposal, compile asciiTables ⟨quotedRule, "CVE-1".toList⟩ none ≠ .ok proposal) ∧
      (translate userServices (plainRequest quotedRule) draftingDoer).proposeCalls = 1 := by
  have hsplit : splitDirectives asciiTables quotedRule = [quotedRule] := by decide +kernel
  have hunseen : hasAuthoritativeSecrule quotedRule = false := by decide +kernel
  refine ⟨fun h => ?_, hsplit, ?_, asks_of_not_authoritative hunseen draftingDoer⟩
  · have hseen := (h asciiTables quotedRule (by rw [hsplit]; exact List.cons_ne_nil _ _)).1
    rw [hunseen] at hseen
    cases hseen
  · intro proposal hcompiled
    have hrefused : (compile asciiTables ⟨quotedRule, "CVE-1".toList⟩ none).toOption.isNone =
        true := by decide +kernel
    rw [hcompiled] at hrefused
    cases hrefused

end TranslationEngine
