import ControlTranslation.OperatorMatch
import ControlTranslation.PcreContext

/-!
# The branches of a structured JNDI expression

An expression the compaction accepts is one group of three branches, one for each
representation, in some order; each is a carrier followed by the exact grammar of
its representation.  The reference parser reads such an expression as the
alternation of the three grammars, each after the characters of its carrier.
-/

namespace ModSecurity

open PyText Pcre

/-- The text a scan has read so far. -/
def BranchScan.scanned (s : BranchScan) : Str :=
  s.branches.flatMap (· ++ ['|']) ++ s.current.reverse

theorem scanBranch_scanned {s s' : BranchScan} {c : Char} (h : scanBranch s c = .ok s') :
    s'.scanned = s.scanned ++ [c] := by
  have hnext : ∀ {s' : BranchScan}, s'.branches = s.branches → s'.current = c :: s.current →
      s'.scanned = s.scanned ++ [c] := by
    intro s' hbranches hcurrent
    simp [BranchScan.scanned, hbranches, hcurrent]
  simp only [scanBranch] at h
  split at h
  · cases h
    exact hnext rfl rfl
  · split at h
    · cases h
      exact hnext rfl rfl
    · split at h
      · cases h
        split <;> exact hnext rfl rfl
      · split at h
        · cases h
          exact hnext rfl rfl
        · split at h
          · split at h
            · cases h
            · cases h
              exact hnext rfl rfl
          · split at h
            · split at h
              · cases h
              · cases h
                exact hnext rfl rfl
            · split at h
              · rename_i hbar
                split at h
                · cases h
                · cases h
                  simp [BranchScan.scanned, hbar.1]
              · cases h
                exact hnext rfl rfl

theorem foldlM_scanBranch {text : Str} {s s' : BranchScan}
    (h : text.foldlM scanBranch s = .ok s') : s'.scanned = s.scanned ++ text := by
  induction text generalizing s with
  | nil =>
      cases h
      rw [List.append_nil]
  | cons c text ih =>
      rw [List.foldlM_cons] at h
      cases hstep : scanBranch s c with
      | error e =>
          rw [hstep] at h
          cases h
      | ok t =>
          rw [hstep] at h
          rw [ih h, scanBranch_scanned hstep, List.append_assoc]
          rfl

/-- An accepted source is one group of three branches. -/
theorem topLevelGroupBranches_eq {source : Str} {branches : List Str}
    (h : topLevelGroupBranches source = .ok branches) :
    ∃ a b c, branches = [a, b, c] ∧
      source = '(' :: '?' :: ':' :: (a ++ '|' :: (b ++ '|' :: (c ++ [')']))) := by
  unfold topLevelGroupBranches at h
  split at h
  · cases h
  · rename_i hform
    simp only [not_or, Bool.not_eq_false, ne_eq, Decidable.not_not] at hform
    obtain ⟨-, hopen, hclose⟩ := hform
    obtain ⟨rest, hrest⟩ := List.isPrefixOf_iff_prefix.mp hopen
    obtain ⟨body, hbody⟩ : ∃ body, rest = body ++ [')'] := by
      cases rest using List.reverseRecOn with
      | nil =>
          rw [List.append_nil] at hrest
          rw [← hrest] at hclose
          cases hclose
      | append_singleton body d =>
          rw [← hrest, ← List.append_assoc, List.getLast?_append_cons] at hclose
          obtain rfl : d = ')' := by simpa using hclose
          exact ⟨body, rfl⟩
    have hsource : source = '(' :: '?' :: ':' :: (body ++ [')']) := by
      rw [← hrest, hbody]
      rfl
    have hinner : (source.drop 3).dropLast = body := by
      rw [hsource]
      simp
    rw [hinner] at h
    split at h
    · cases h
    · rename_i s hscan
      have hscanned := foldlM_scanBranch hscan
      dsimp only at h
      split at h
      · cases h
      · split at h
        · cases h
        · rename_i hthree
          cases h
          simp only [not_or, ne_eq, Decidable.not_not] at hthree
          obtain ⟨a, b, c, habc⟩ := List.length_eq_three.mp hthree.1
          refine ⟨a, b, c, habc, ?_⟩
          have hbranches : s.branches = [a, b] ∧ s.current.reverse = c := by
            have := List.append_inj' (habc.trans (rfl : _ = [a, b] ++ [c])) rfl
            exact ⟨this.1, (List.cons.inj this.2).1⟩
          have htext : body = a ++ '|' :: (b ++ '|' :: c) := by
            simpa [BranchScan.scanned, hbranches.1, hbranches.2] using hscanned.symm
          rw [hsource, htext]
          simp

/-- The grammar of a representation. -/
def bodyOf : Representation → Str
  | .raw => jndiRawBranch
  | .url => jndiUrlBranch
  | .hex => jndiHexBranch

theorem eq_bodyOf {e : Representation × Str} (h : e ∈ expectedBranches) : e.2 = bodyOf e.1 := by
  simp only [expectedBranches, List.mem_cons, List.not_mem_nil, or_false] at h
  rcases h with rfl | rfl | rfl <;> rfl

/-- A carrier and the grammar after it. -/
structure ReadAs (branch : Str) (e : Representation × Str) : Prop where
  text : branch = e.2 ++ bodyOf e.1
  valid : validateJndiCarrier e.2 e.1 = .ok ()

/-- A branch that is read is one of the three, and new. -/
theorem readBranch_ok {carriers carriers' : Carriers} {branch : Str}
    (h : readBranch carriers branch = .ok carriers') :
    ∃ e, carriers' = carriers ++ [e] ∧ ReadAs branch e ∧ ∀ d ∈ carriers, d.1 ≠ e.1 := by
  unfold readBranch at h
  split at h
  · rename_i representation body hfilter
    have hmem : (representation, body) ∈
        expectedBranches.filter fun e => e.2.isSuffixOf branch := by
      rw [hfilter]
      exact List.mem_singleton_self _
    obtain ⟨hexpected, hsuffix⟩ := List.mem_filter.mp hmem
    have hbody : body = bodyOf representation := eq_bodyOf hexpected
    obtain ⟨carrier, hcarrier⟩ := List.isSuffixOf_iff_suffix.mp hsuffix
    have htake : branch.take (branch.length - body.length) = carrier := by
      rw [← hcarrier]
      simp
    split at h
    · cases h
    · rename_i hnew
      dsimp only at h
      rw [htake] at h
      cases hvalid : validateJndiCarrier carrier representation with
      | error e =>
          rw [hvalid] at h
          cases h
      | ok checked =>
          rw [hvalid] at h
          cases h
          refine ⟨(representation, carrier), rfl, ⟨?_, hvalid⟩, ?_⟩
          · rw [← hcarrier, hbody]
          · intro d hd heq
            exact hnew (List.any_eq_true.mpr ⟨d, hd, by simpa using heq⟩)
  · cases h

/-- Branches that are read are read each as one of the three. -/
theorem foldlM_readBranch {branches : List Str} {carriers carriers' : Carriers}
    (h : branches.foldlM readBranch carriers = .ok carriers')
    (hnew : (carriers.map (·.1)).Nodup) :
    ∃ read, carriers' = carriers ++ read ∧ List.Forall₂ ReadAs branches read ∧
      (carriers'.map (·.1)).Nodup := by
  induction branches generalizing carriers with
  | nil =>
      cases h
      exact ⟨[], (List.append_nil _).symm, .nil, hnew⟩
  | cons branch branches ih =>
      rw [List.foldlM_cons] at h
      cases hstep : readBranch carriers branch with
      | error e =>
          rw [hstep] at h
          cases h
      | ok next =>
          rw [hstep] at h
          obtain ⟨e, rfl, hread, hfresh⟩ := readBranch_ok hstep
          have hnext : ((carriers ++ [e]).map (·.1)).Nodup := by
            rw [List.map_append, List.nodup_append]
            refine ⟨hnew, by simp, ?_⟩
            intro a ha b hb
            obtain ⟨d, hd, rfl⟩ := List.mem_map.mp ha
            obtain rfl : b = e.1 := by simpa using hb
            exact hfresh d hd
          obtain ⟨read, rfl, hrest, hnodup⟩ := ih h hnext
          exact ⟨e :: read, by rw [List.append_assoc]; rfl, .cons hread hrest, hnodup⟩

theorem isLiteral_of_isCarrierChar {c : Char} (h : isCarrierChar c = true) :
    c = '.' ∨ isLiteral c = true := by
  by_contra hnot
  obtain ⟨hdot, hliteral⟩ := not_or.mp hnot
  simp only [isLiteral, Bool.not_eq_true, Bool.not_eq_false', List.contains_eq_mem,
    List.mem_cons, List.not_mem_nil, or_false, decide_eq_true_eq] at hliteral
  rcases hliteral with rfl | rfl | rfl | rfl | rfl | rfl | rfl | rfl | rfl | rfl | rfl | rfl | rfl
  all_goals first
    | exact hdot rfl
    | cases h

theorem isLiteral_of_isHexDigit {c : Char} (h : isHexDigit c = true) : isLiteral c = true := by
  by_contra hliteral
  simp only [isLiteral, Bool.not_eq_true, Bool.not_eq_false', List.contains_eq_mem,
    List.mem_cons, List.not_mem_nil, or_false, decide_eq_true_eq] at hliteral
  rcases hliteral with rfl | rfl | rfl | rfl | rfl | rfl | rfl | rfl | rfl | rfl | rfl | rfl | rfl
  all_goals cases h

/-- The carrier of a hexadecimal branch is spelled in digits. -/
theorem hex_carrier {carrier : Str} (h : validateJndiCarrier carrier .hex = .ok ()) :
    ∀ c ∈ carrier, isHexDigit c = true := by
  by_cases hnil : carrier = []
  · simp [hnil]
  · rw [validateJndiCarrier, if_neg hnil, if_neg (by simp)] at h
    split at h
    · cases h
    · rename_i hform
      simp only [not_or, Bool.not_eq_false] at hform
      exact List.all_eq_true.mp hform.1

/-- An accepted carrier is a word: it reads as its characters. -/
theorem carrier_word {carrier : Str} {representation : Representation}
    (h : validateJndiCarrier carrier representation = .ok ()) :
    ∀ c ∈ carrier, c = '.' ∨ isLiteral c = true := by
  by_cases hhex : representation = .hex
  · subst hhex
    exact fun c hc => Or.inr (isLiteral_of_isHexDigit (hex_carrier h c hc))
  by_cases hnil : carrier = []
  · simp [hnil]
  · rw [validateJndiCarrier, if_neg hnil, if_pos hhex] at h
    split at h
    · rename_i hliteral
      simp only [isLiteralCarrier, Bool.and_eq_true, List.contains_eq_mem,
        decide_eq_true_eq] at hliteral
      intro c hc
      rw [← List.takeWhile_append_dropWhile (p := isCarrierChar) (l := carrier)] at hc
      rcases List.mem_append.mp hc with hc | hc
      · exact isLiteral_of_isCarrierChar (List.mem_takeWhile_imp hc)
      · have hend : ∀ text ∈ ["=".toList, "%3D".toList, "%3d".toList],
            text.all isLiteral = true := by decide
        exact Or.inr (List.all_eq_true.mp (hend _ hliteral.2) c hc)
    · cases h

end ModSecurity
