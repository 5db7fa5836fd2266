import ControlTranslation.RegexGuarantees
import ControlTranslation.SharedRegex

/-!
# Translations both programs give

A shared scan becomes the same values in both programs when no ladder ends in the
star that a run follows, which only one of them merges, and when the number of
values is within the bound before repetitions are removed, where the port counts
them.  A literal wildcard among wildcards is declined by both whatever the values.
-/

namespace GoCompiler

open PyText GoText ModSecurity

/-- A part that may be rendered as a star. -/
def rendersStar : Part → Bool
  | .lit c => c = '*'
  | .ladder depths => depths.any fun texts => texts.any fun text => text = ['*']
  | _ => false

/-- Whether such a part stands right before a run. -/
def starBeforeRun : Parts → Bool
  | [] => false
  | part :: parts => rendersStar part && parts.head? = some .any || starBeforeRun parts

/-- Whether the values of a scan are rendered and counted alike. -/
def valuesAlike (source : Str) (alternatives : List Parts) : Bool :=
  if alternatives.any starBeforeRun then alternatives.any hasLiteralWildcard
  else
    match ModSecurity.ladderDepth alternatives with
    | none => true
    | some depths =>
        (renderAll alternatives depths).length ≤ maxValues ||
          maxValues < (emittedValues source (renderAll alternatives depths)).length

/-- Whether both programs read a regex alike. -/
def regexAlike (t : CharTables) (g : GoText.Tables) (source : Str) : Bool :=
  match readInlineFlags source with
  | .error _ => true
  | .ok (_, source) =>
      match sharedAlternation t g 9 ⟨innerText source, false, false⟩ with
      | .error e => e ≠ parted
      | .ok (alternatives, s) =>
          s.rest ≠ [] || valuesAlike source alternatives

/-- The text of one depth is one of the ladder's, or there is none. -/
theorem headD_getD_ne {depths : List (List Str)} {text : Str}
    (h : ∀ texts ∈ depths, text ∉ texts) (hne : text ≠ []) {depth : Nat} :
    (depths.getD depth []).headD [] ≠ text := by
  intro heq
  by_cases hlt : depth < depths.length
  · have hmem : depths.getD depth [] ∈ depths := by
      rw [List.getD_eq_getElem _ _ hlt]
      exact List.getElem_mem hlt
    cases hget : depths.getD depth [] with
    | nil =>
        rw [hget] at heq
        exact hne heq.symm
    | cons first texts =>
        rw [hget] at heq hmem
        obtain rfl : first = text := heq
        exact h _ hmem List.mem_cons_self
  · rw [List.getD_eq_default _ _ (Nat.le_of_not_lt hlt)] at heq
    exact hne heq.symm

/-- Without a star before a run the last piece is a star exactly after a run. -/
theorem renderFrom_eq (depth : Nat) : ∀ {parts : Parts} (previous : Option Str) (lastWasAny : Bool),
    starBeforeRun parts = false →
    (parts.head? = some .any → (previous = some ['*'] ↔ lastWasAny = true)) →
    renderFrom depth lastWasAny parts = renderAfter depth 0 previous parts := by
  intro parts
  induction parts with
  | nil => exact fun _ _ _ _ => rfl
  | cons part parts ih =>
      intro previous lastWasAny hstar hlast
      simp only [starBeforeRun, Bool.or_eq_false_iff, Bool.and_eq_false_iff,
        decide_eq_false_iff_not] at hstar
      obtain ⟨hhead, hstar⟩ := hstar
      cases part with
      | any =>
          have hany : previous = some ['*'] ↔ lastWasAny = true := hlast rfl
          have hnext := ih (some ['*']) true hstar fun _ => by simp
          simp only [renderFrom, renderAfter]
          cases lastWasAny with
          | true =>
              obtain rfl := hany.mpr rfl
              simp only [if_true, hnext]
          | false =>
              have hnot : previous ≠ some ['*'] := fun h => by
                cases hany.mp h
              simp only [if_neg hnot, Bool.false_eq_true, if_false, hnext]
      | one =>
          have hnext := ih (some ['?']) false hstar fun _ => by simp
          simp only [renderFrom, renderAfter, hnext]
      | lit c =>
          have hnext := ih (some [c]) false hstar fun hany => by
            have hc : c ≠ '*' := by
              simpa [rendersStar, hany] using hhead
            simpa using hc
          simp only [renderFrom, renderAfter, hnext]
      | ladder depths =>
          have hpiece : (depths.getD depth []).headD [] =
              (depths.getD depth []).getD 0 ((depths.getD depth []).getD 0 []) := by
            cases depths.getD depth [] with
            | nil => rfl
            | cons text texts => rfl
          have hnext := ih (some ((depths.getD depth []).headD [])) false hstar fun hany => by
            have hnone : ∀ texts ∈ depths, ['*'] ∉ texts := by
              simpa [rendersStar, hany, List.any_eq_false] using hhead
            simpa using headD_getD_ne hnone (by simp)
          simp only [renderFrom, renderAfter, hnext, hpiece]

/-- A run counts as a wildcard wherever it stands. -/
theorem renderFrom_wild (depth : Nat) {parts : Parts} (h : .any ∈ parts) (lastWasAny : Bool) :
    (renderFrom depth lastWasAny parts).2 = true := by
  induction parts generalizing lastWasAny with
  | nil => cases h
  | cons part parts ih =>
      cases part with
      | any => rfl
      | one => rfl
      | lit c =>
          have hrest : .any ∈ parts := by simpa using h
          exact ih hrest false
      | ladder depths =>
          have hrest : .any ∈ parts := by simpa using h
          exact ih hrest false

theorem run_of_starBeforeRun {parts : Parts} (h : starBeforeRun parts = true) :
    .any ∈ parts := by
  induction parts with
  | nil => cases h
  | cons part parts ih =>
      simp only [starBeforeRun, Bool.or_eq_true, Bool.and_eq_true, decide_eq_true_eq] at h
      rcases h with ⟨_, hhead⟩ | hrest
      · exact List.mem_cons_of_mem _ (List.mem_of_head? hhead)
      · exact List.mem_cons_of_mem _ (ih hrest)

theorem foldl_max_of_all {l : List Nat} {n : Nat} (h : ∀ k ∈ l, k = n) (hne : l ≠ []) :
    l.foldl max 0 = n := by
  have hrun : ∀ (l : List Nat) (a : Nat), (∀ k ∈ l, k = n) → a ≤ n →
      l.foldl max a = if l = [] then a else n := by
    intro l
    induction l with
    | nil => exact fun _ _ _ => rfl
    | cons k rest ih =>
        intro a h ha
        have hk := h k List.mem_cons_self
        have hmax : max a k = n := by omega
        rw [List.foldl_cons, hmax,
          ih n (fun k hk => h k (List.mem_cons_of_mem _ hk)) (Nat.le_refl n), ite_self,
          if_neg (List.cons_ne_nil k rest)]
  rw [hrun l 0 h (Nat.zero_le _), if_neg hne]

/-- Plain ladders have one text at every depth they share. -/
theorem ladderVariants_eq_one {alternatives : List Parts} {n depth : Nat}
    (hplain : plainAlternatives alternatives = true)
    (hdepth : ModSecurity.ladderDepth alternatives = some n) (hlt : depth < n) :
    ladderVariants alternatives depth = 1 := by
  unfold ladderVariants
  cases hladders : ladders alternatives with
  | nil => rfl
  | cons first rest =>
      refine foldl_max_of_all ?_ (by simp)
      intro k hk
      obtain ⟨depths, hdepths, rfl⟩ := List.mem_map.mp hk
      rw [← hladders] at hdepths
      have hlength := ladder_length hdepth hdepths
      obtain ⟨parts, hparts, hpart⟩ := List.mem_flatMap.mp hdepths
      obtain ⟨part, hmem, hsome⟩ := List.mem_filterMap.mp hpart
      have hladder : part = .ladder depths := by
        cases part with
        | ladder depths' => exact congrArg Part.ladder (Option.some.inj hsome)
        | any => cases hsome
        | one => cases hsome
        | lit c => cases hsome
      have hone := plainAlternatives_iff.mp hplain parts hparts part hmem
      rw [hladder] at hone
      simp only [plainPart, List.all_eq_true, Bool.and_eq_true, beq_iff_eq] at hone
      have hlt' : depth < depths.length := by omega
      rw [List.getD_eq_getElem _ _ hlt']
      exact (hone _ (List.getElem_mem hlt')).1

/-- The two programs render the same texts with the same flags. -/
theorem renderDepths_eq {alternatives : List Parts} {n : Nat}
    (hplain : plainAlternatives alternatives = true)
    (hdepth : ModSecurity.ladderDepth alternatives = some n)
    (hstar : alternatives.any starBeforeRun = false) :
    renderDepths alternatives n = renderAll alternatives n := by
  unfold renderDepths renderAll
  refine List.flatMap_congr fun depth hmem => ?_
  rw [ladderVariants_eq_one hplain hdepth (List.mem_range.mp hmem), List.range_one,
    List.flatMap_singleton]
  refine List.map_congr_left fun parts hparts => ?_
  have hnone : starBeforeRun parts = false := by
    simpa using List.any_eq_false.mp hstar parts hparts
  exact renderFrom_eq depth none false hnone fun _ => by simp

/-- There is a ladder when the ladders are some. -/
theorem hasLadder_iff {alternatives : List Parts} :
    hasLadder alternatives = true ↔ ladders alternatives ≠ [] := by
  constructor
  · intro h hnil
    obtain ⟨parts, hparts, hpart⟩ := List.any_eq_true.mp h
    obtain ⟨part, hmem, hladder⟩ := List.any_eq_true.mp hpart
    cases part with
    | ladder depths => 
        have hfound := mem_ladders hparts hmem
        rw [hnil] at hfound
        cases hfound
    | any => cases hladder
    | one => cases hladder
    | lit c => cases hladder
  · intro h
    obtain ⟨depths, hdepths⟩ := List.exists_mem_of_ne_nil _ h
    obtain ⟨parts, hparts, hpart⟩ := List.mem_flatMap.mp hdepths
    obtain ⟨part, hmem, hsome⟩ := List.mem_filterMap.mp hpart
    refine List.any_eq_true.mpr ⟨parts, hparts, List.any_eq_true.mpr ⟨part, hmem, ?_⟩⟩
    cases part with
    | ladder depths' => rfl
    | any => cases hsome
    | one => cases hsome
    | lit c => cases hsome

/-- The port aligns ladders where the original does, and then at the same depth. -/
theorem ladderDepth_cases (alternatives : List Parts) :
    (ModSecurity.ladderDepth alternatives = none ∧
      (ladderDepth alternatives = none ∧ hasLadder alternatives = true)) ∨
    ∃ n, ModSecurity.ladderDepth alternatives = some n ∧
      ¬(ladderDepth alternatives = none ∧ hasLadder alternatives = true) ∧
      (ladderDepth alternatives).getD 1 = n := by
  unfold ModSecurity.ladderDepth ladderDepth
  rw [hasLadder_iff]
  cases hladders : ladders alternatives with
  | nil => exact Or.inr ⟨1, rfl, by simp, rfl⟩
  | cons depths rest =>
      simp only
      split_ifs with hall
      · exact Or.inr ⟨depths.length, rfl, by simp, rfl⟩
      · exact Or.inl ⟨rfl, rfl, by simp⟩

theorem length_unique_le {α : Type} [DecidableEq α] : ∀ values : List α,
    (unique values).length ≤ values.length := by
  intro values
  unfold unique
  induction hn : values.length using Nat.strong_induction_on generalizing values with
  | _ n ih =>
      cases values with
      | nil => simp
      | cons a rest =>
          have hlt := List.length_filter_le (fun x => !x == a) rest
          simp only [List.length_cons] at hn
          have hrest := ih _ (by omega) (rest.filter fun x => !x == a) rfl
          rw [List.eraseDups_cons, List.length_cons]
          omega

theorem length_le_byteLength (s : Str) : s.length ≤ byteLength s := by
  unfold byteLength
  induction s with
  | nil => exact Nat.le_refl 0
  | cons c rest ih =>
      have hchar : 0 < (utf8 c).length := by
        unfold utf8
        rw [List.length_map]
        exact String.length_utf8EncodeChar c ▸ Char.utf8Size_pos c
      rw [List.flatMap_cons, List.length_append, List.length_cons]
      omega

/-- A run leaves a wildcard among the values of the port, -/
theorem wild_of_star_port {alternatives : List Parts} {n : Nat}
    (hstar : alternatives.any starBeforeRun = true) (hn : 0 < n) :
    ((renderDepths alternatives n).any fun r => r.2) = true := by
  obtain ⟨parts, hparts, hpart⟩ := List.any_eq_true.mp hstar
  have hmem : render 0 parts ∈ renderDepths alternatives n :=
    List.mem_flatMap.mpr ⟨0, List.mem_range.mpr hn, List.mem_map.mpr ⟨parts, hparts, rfl⟩⟩
  exact List.any_eq_true.mpr ⟨_, hmem, renderFrom_wild 0 (run_of_starBeforeRun hpart) false⟩

/-- and among those of the original. -/
theorem wild_of_star_original {alternatives : List Parts} {n : Nat}
    (hplain : plainAlternatives alternatives = true)
    (hdepth : ModSecurity.ladderDepth alternatives = some n)
    (hstar : alternatives.any starBeforeRun = true) (hn : 0 < n) :
    ((renderAll alternatives n).any fun r => r.2) = true := by
  obtain ⟨parts, hparts, hpart⟩ := List.any_eq_true.mp hstar
  have hvariants : 0 < ladderVariants alternatives 0 := by
    rw [ladderVariants_eq_one hplain hdepth hn]
    exact Nat.one_pos
  have hmem : ModSecurity.render 0 0 parts ∈ renderAll alternatives n :=
    mem_renderAll.mpr ⟨0, hn, 0, hvariants, parts, hparts, rfl⟩
  refine List.any_eq_true.mpr ⟨_, hmem, ?_⟩
  by_contra hwild
  have hparts := renderAfter_wild 0 0 parts none (Bool.eq_false_of_not_eq_true hwild)
  exact (hparts _ (run_of_starBeforeRun hpart)).1 rfl

theorem three_errors {α : Type} (p q : Prop) [Decidable p] [Decidable q] (e e' e'' : String) :
    (if p then .error e else if q then .error e' else .error e'' : Attempt α).toOption = none := by
  split_ifs <;> rfl

/-- **Shared translations.**  A regex that both read alike has the same image in
both, or none in either. -/
theorem translateRegex_eq {t : CharTables} {g : GoText.Tables} {source : Str}
    (halike : regexAlike t g source = true) (hbytes : byteLength source ≤ maxRegexLength) :
    (translateRegex g source).toOption = (translate t source).toOption := by
  have hlength : ¬maxRegexLength < source.length := by
    have := length_le_byteLength source
    omega
  unfold translateRegex ModSecurity.translate regexAlike at *
  rw [if_neg (Nat.not_lt.mpr hbytes), if_neg hlength]
  cases hflags : readInlineFlags source with
  | error e => rfl
  | ok flags =>
      obtain ⟨ci, src⟩ := flags
      simp only [hflags] at halike ⊢
      have horiginal := sharedAlternation_follows_original t g 9 ⟨innerText src, false, false⟩
      have hport := sharedAlternation_follows_port t g 9 ⟨innerText src, false, false⟩
      cases hshared : sharedAlternation t g 9 ⟨innerText src, false, false⟩ with
      | error e =>
          rw [hshared] at horiginal hport
          have hne : e ≠ parted := by simpa [hshared] using halike
          obtain ⟨e₁, he₁⟩ := horiginal.of_error hne
          obtain ⟨e₂, he₂⟩ := hport.of_error hne
          simp only [he₁, he₂]
          rfl
      | ok result =>
          obtain ⟨alternatives, s⟩ := result
          rw [hshared] at horiginal hport
          simp only [hshared, Bool.or_eq_true, decide_eq_true_eq] at halike
          simp only [horiginal.of_ok, hport.of_ok]
          by_cases hrest : s.rest ≠ []
          · simp only [if_pos hrest]
          · simp only [if_neg hrest]
            have hplain := sharedAlternation_plain t g 9 _ _ _ hshared
            have hvalues := halike.resolve_left hrest
            unfold valuesAlike at hvalues
            rcases ladderDepth_cases alternatives with ⟨hnone, hport⟩ | ⟨n, hn, hport, hdepth⟩
            · simp only [hnone, if_pos hport]
            · simp only [hn, if_neg hport, hdepth]
              by_cases hstar : alternatives.any starBeforeRun = true
              · -- A literal wildcard and a run: neither program has an image.
                rw [if_pos hstar] at hvalues
                rcases Nat.eq_zero_or_pos n with rfl | hpos
                · rfl
                · simp only [wild_of_star_port hstar hpos,
                    wild_of_star_original hplain hn hstar hpos, hvalues, Bool.or_true, and_self,
                    if_true]
                  exact (three_errors _ _ _ _ _).trans (three_errors _ _ _ _ _).symm
              · rw [if_neg hstar, hn] at hvalues
                rw [renderDepths_eq hplain hn (Bool.eq_false_of_not_eq_true hstar)]
                simp only [Bool.or_eq_true, decide_eq_true_eq] at hvalues
                have hunique := length_unique_le ((renderAll alternatives n).map fun r =>
                  frame (startAnchored src) (endAnchored src) r.1)
                have hcount : maxValues < ((renderAll alternatives n).map fun r =>
                    frame (startAnchored src) (endAnchored src) r.1).length ↔
                    maxValues < (emittedValues src (renderAll alternatives n)).length := by
                  unfold emittedValues at hvalues ⊢
                  rw [List.length_map] at hunique ⊢
                  omega
                simp only [hcount]
                unfold emittedValues
                simp only [unique_eq_nil, List.contains_iff_mem]

/-- A translation has no more values than the limit. -/
theorem length_values_le {t : CharTables} {source : Str} {result : RegexResult}
    (h : translate t source = .ok result) : result.values.length ≤ maxValues := by
  simp only [ModSecurity.translate] at h
  split at h
  · cases h
  · split at h
    · cases h
    · split at h
      · cases h
      · split at h
        · cases h
        · split at h
          · cases h
          · split_ifs at h with hcount hempty hliteral
            obtain rfl := Except.ok.inj h
            exact Nat.le_of_not_lt hcount

theorem getD_mem_or {α : Type} (l : List α) (i : Nat) (d : α) :
    l.getD i d ∈ l ∨ l.getD i d = d := by
  by_cases hlt : i < l.length
  · rw [List.getD_eq_getElem _ _ hlt]
    exact Or.inl (List.getElem_mem hlt)
  · exact Or.inr (List.getD_eq_default _ _ (Nat.le_of_not_lt hlt))

/-- The characters of a rendered ladder are those of one of its texts. -/
theorem mem_text_of_mem_piece {depths : List (List Str)} {depth variant : Nat} {c : Char}
    (h : c ∈ ladderPiece depth variant depths) : ∃ texts ∈ depths, ∃ text ∈ texts, c ∈ text := by
  unfold ladderPiece at h
  rcases getD_mem_or depths depth [] with hdepth | hdepth
  · refine ⟨_, hdepth, ?_⟩
    rcases getD_mem_or (depths.getD depth []) variant ((depths.getD depth []).getD 0 [])
      with hvariant | hvariant
    · exact ⟨_, hvariant, h⟩
    · rw [hvariant] at h
      rcases getD_mem_or (depths.getD depth []) 0 [] with hzero | hzero
      · exact ⟨_, hzero, h⟩
      · rw [hzero] at h
        cases h
  · rw [hdepth] at h
    cases h

/-- Plain parts are rendered without separators. -/
theorem renderAfter_plain (depth variant : Nat) : ∀ {parts : Parts} (previous : Option Str),
    (∀ part ∈ parts, plainPart part = true) →
    ∀ c ∈ (renderAfter depth variant previous parts).1, isSeparator c = false := by
  intro parts
  induction parts with
  | nil => exact fun _ _ c hc => absurd hc (List.not_mem_nil)
  | cons part parts ih =>
      intro previous hplain c hc
      have hpart := hplain part List.mem_cons_self
      have ih := fun previous => ih previous fun p hp => hplain p (List.mem_cons_of_mem _ hp)
      cases part with
      | any =>
          simp only [renderAfter] at hc
          split_ifs at hc
          · exact ih _ c hc
          · rcases List.mem_cons.mp hc with rfl | hc
            · decide
            · exact ih _ c hc
      | one =>
          rcases List.mem_cons.mp hc with rfl | hc
          · decide
          · exact ih _ c hc
      | lit d =>
          rcases List.mem_cons.mp hc with rfl | hc
          · simpa [plainPart] using hpart
          · exact ih _ c hc
      | ladder depths =>
          rcases List.mem_append.mp hc with hc | hc
          · obtain ⟨texts, htexts, text, htext, hmem⟩ := mem_text_of_mem_piece hc
            simp only [plainPart, List.all_eq_true, Bool.and_eq_true, Bool.not_eq_true'] at hpart
            exact (hpart texts htexts).2 text htext c hmem
          · exact ih _ c hc

/-- **The values of a shared translation** need no escape of a separator. -/
theorem values_alike {t : CharTables} {g : GoText.Tables} {source : Str} {result : RegexResult}
    (halike : regexAlike t g source = true) (h : translate t source = .ok result) :
    ∀ value ∈ result.values, ∀ c ∈ value, isSeparator c = false := by
  obtain ⟨src, alternatives, s, depths, accepted⟩ := translate_ok h
  have hfollows := sharedAlternation_follows_original t g 9 ⟨innerText src, false, false⟩
  unfold regexAlike at halike
  simp only [accepted.flags] at halike
  cases hshared : sharedAlternation t g 9 ⟨innerText src, false, false⟩ with
  | error e =>
      rw [hshared] at hfollows
      have hne : e ≠ parted := by simpa [hshared] using halike
      obtain ⟨e', he'⟩ := hfollows.of_error hne
      rw [accepted.parsed] at he'
      cases he'
  | ok r =>
      rw [hshared] at hfollows
      obtain rfl : (alternatives, s) = r := Except.ok.inj (accepted.parsed ▸ hfollows.of_ok)
      intro value hvalue c hc
      rw [accepted.values, emittedValues, mem_unique] at hvalue
      obtain ⟨rendered, hrendered, rfl⟩ := List.mem_map.mp hvalue
      obtain ⟨depth, -, variant, -, parts, hparts, rfl⟩ := mem_renderAll.mp hrendered
      have hplain := plainAlternatives_iff.mp (sharedAlternation_plain t g 9 _ _ _ hshared)
        parts hparts
      have hbody := renderAfter_plain depth variant none hplain
      unfold frame at hc
      rcases List.mem_append.mp hc with hc | hc
      · split_ifs at hc
        · exact hbody c hc
        · rcases List.mem_cons.mp hc with rfl | hc
          · decide
          · exact hbody c hc
      · split_ifs at hc
        · cases hc
        · rw [List.mem_singleton.mp hc]
          decide

end GoCompiler
