import ControlTranslation.RuleCompiler

/-!
# How a rule composes its conditions

A custom rule carries one operation over all its conditions, while a rule set
fires run by run: directives linked by `chain` must hold together, the others
fire on their own, and the alternatives of one directive are its variables.
The compiler chooses the operation from a single question, whether some
directive before the last is chained.  This file compares the two for every
assignment of truth values to the conditions, with and without the condition on
the proven request path.
-/

namespace ModSecurity

open PyText

/-- Accumulating keeps every condition of every directive, in order. -/
theorem conditions_foldl (parts : List Compiled) :
    ∀ start, (parts.foldl Compiled.append start).conditions =
      start.conditions ++ parts.flatMap (·.conditions) := by
  induction parts with
  | nil => simp
  | cons part parts ih =>
      intro start
      rw [List.foldl_cons, ih]
      simp [Compiled.append]

/-- The variables of the directives, each with its directive. -/
def inspected (rules : List SecRule) : List (SecRule × Variable) :=
  rules.flatMap fun rule => rule.vars.map (rule, ·)

/-- A condition was compiled from a directive and one of its variables. -/
def CompiledFrom (t : CharTables) (entry : SecRule × Variable) (condition : Condition) : Prop :=
  ∃ m cc, operatorMatch t entry.1 = .ok m ∧
    buildCondition t entry.2 entry.1 m (caseSensitiveOf entry.1 m) = .ok cc ∧
      condition = cc.condition

/-- Every variable of every directive has its condition, in order. -/
theorem compileRules_from {t : CharTables} {rules : List SecRule} {compiled : Compiled}
    (h : compileRules t rules = .ok compiled) :
    List.Forall₂ (CompiledFrom t) (inspected rules) compiled.conditions := by
  simp only [compileRules] at h
  split at h
  · cases h
  · rename_i parts hparts
    cases h
    rw [conditions_foldl, List.nil_append]
    apply List.rel_flatMap (mapM_ok hparts)
    intro rule part hpart
    obtain ⟨m, built, hrule⟩ := compileRule_ok hpart
    change List.Forall₂ (CompiledFrom t) (rule.vars.map (rule, ·)) part.conditions
    rw [hrule.emitted, List.forall₂_map_left_iff, List.forall₂_map_right_iff]
    exact hrule.conditions.imp fun v cc hcc => ⟨m, cc, hrule.matched, hcc, rfl⟩

/-- The number of conditions a list of directives asks for. -/
def sourceCount : List SecRule → Nat
  | [] => 0
  | rule :: rules => rule.vars.length + sourceCount rules

/-- Every variable of every directive is inspected. -/
theorem length_inspected (rules : List SecRule) :
    (inspected rules).length = sourceCount rules := by
  induction rules with
  | nil => rfl
  | cons rule rules ih =>
      rw [inspected, List.flatMap_cons, List.length_append, List.length_map, sourceCount]
      exact congrArg (rule.vars.length + ·) ih

/-- Every variable of every directive becomes one condition. -/
theorem length_conditions {t : CharTables} {rules : List SecRule} {compiled : Compiled}
    (h : compileRules t rules = .ok compiled) :
    compiled.conditions.length = sourceCount rules := by
  rw [← (compileRules_from h).length_eq, length_inspected]

/-- Among several directives each has at most one variable. -/
theorem single_variable {t : CharTables} {rules : List SecRule} {compiled : Compiled}
    (h : compileRules t rules = .ok compiled) (hseveral : 1 < rules.length) :
    ∀ rule ∈ rules, rule.vars.length ≤ 1 := by
  simp only [compileRules] at h
  split at h
  · cases h
  · rename_i parts hparts
    intro rule hrule
    obtain ⟨part, -, hpart⟩ := mapM_ok_left hparts hrule
    obtain ⟨m, built, hcompiled⟩ := compileRule_ok hpart
    exact hcompiled.single (by simpa using hseveral)

/-- A parsed directive has a variable. -/
theorem vars_ne_nil {t : CharTables} {directive : Str} {rule : SecRule}
    (h : parseSecrule t directive = .ok rule) : rule.vars ≠ [] := by
  have hvars : ∀ {token : Str} {vars : List Variable},
      parseVariables t token = .ok vars → vars ≠ [] := by
    intro token vars hv
    simp only [parseVariables] at hv
    split at hv
    · cases hv
    · split at hv
      · cases hv
      · cases hv
        assumption
  simp only [parseSecrule] at h
  split at h
  · cases h
  · split at h
    · cases h
    · rename_i vars hparsed
      split at h
      · cases h
      · split at h
        · cases h
        · cases h
          exact hvars hparsed
  · cases h

/-- Among several directives each has exactly one. -/
theorem one_variable {t : CharTables} {directives : List Str} {rules : List SecRule}
    {compiled : Compiled} (hparsed : directives.mapM (parseSecrule t) = .ok rules)
    (hloop : compileRules t rules = .ok compiled) (hseveral : 1 < rules.length) :
    ∀ rule ∈ rules, rule.vars.length = 1 := by
  intro rule hrule
  have hle := single_variable hloop hseveral rule hrule
  obtain ⟨directive, -, hdirective⟩ := mapM_ok_right hparsed hrule
  have hpos := List.length_pos_iff.mpr (vars_ne_nil hdirective)
  omega

theorem sourceCount_of_one {rules : List SecRule}
    (h : ∀ rule ∈ rules, rule.vars.length = 1) : sourceCount rules = rules.length := by
  induction rules with
  | nil => rfl
  | cons rule rest ih =>
      have hrest := ih fun r hr => h r (List.mem_cons_of_mem _ hr)
      have hrule := h rule List.mem_cons_self
      simp only [sourceCount, List.length_cons]
      omega

/-- The verdict of a rule on a request, from the verdicts of its conditions. -/
def Operation.eval : Operation → List Bool → Bool
  | .and, verdicts => verdicts.all id
  | .or, verdicts => verdicts.any id

/-- A verdict in front of the runs after it: a chained one joins the first. -/
def joinRun (chained verdict : Bool) : List (List Bool) → List (List Bool)
  | run :: runs => if chained then (verdict :: run) :: runs else [verdict] :: run :: runs
  | [] => [[verdict]]

/-- The maximal runs of directives linked by `chain`; the last directive ends
its run whatever it carries. -/
def chainRuns : List (Bool × Bool) → List (List Bool)
  | [] => []
  | (chained, verdict) :: rest => joinRun chained verdict (chainRuns rest)

/-- The chain flag and the verdict of every directive; a directive holds when
one of its variables does. -/
def directiveVerdicts : List SecRule → List Bool → List (Bool × Bool)
  | [], _ => []
  | rule :: rules, verdicts =>
      (rule.chained, (verdicts.take rule.vars.length).any id) ::
        directiveVerdicts rules (verdicts.drop rule.vars.length)

/-- Whether the rule set fires: some run holds entirely. -/
def ruleSetFires (rules : List SecRule) (verdicts : List Bool) : Bool :=
  (chainRuns (directiveVerdicts rules verdicts)).any fun run => run.all id

/-- Whether every directive but the last carries `chain`. -/
def FullyChained (rules : List SecRule) : Prop := ∀ rule ∈ rules.dropLast, rule.chained = true

/-- Directives of one variable take one verdict each. -/
theorem directiveVerdicts_of_one {rules : List SecRule}
    (h : ∀ rule ∈ rules, rule.vars.length = 1) {verdicts : List Bool}
    (hlength : verdicts.length = rules.length) :
    directiveVerdicts rules verdicts = List.zip (rules.map (·.chained)) verdicts := by
  induction rules generalizing verdicts with
  | nil => rfl
  | cons rule rest ih =>
      cases verdicts with
      | nil => simp at hlength
      | cons v vs =>
          have hrest := ih (fun r hr => h r (List.mem_cons_of_mem _ hr))
            (by simpa using hlength)
          have hrule := h rule List.mem_cons_self
          simp [directiveVerdicts, hrule, hrest]

/-- Chained throughout, the directives are one run. -/
theorem chainRuns_of_chained {l : List (Bool × Bool)} (hne : l ≠ [])
    (h : ∀ x ∈ l.dropLast, x.1 = true) : chainRuns l = [l.map (·.2)] := by
  induction l with
  | nil => exact absurd rfl hne
  | cons x rest ih =>
      obtain ⟨chained, verdict⟩ := x
      cases rest with
      | nil => cases chained <;> rfl
      | cons y rest =>
          have hx : chained = true := h (chained, verdict) (by simp)
          have hrest := ih (by simp) fun z hz => h z (by simp [hz])
          rw [chainRuns, hrest, hx]
          rfl

/-- A directive before the last that is not chained ends a run, and the rule
set fires when that run holds although a later directive does not. -/
theorem exists_early_run (flags : List Bool) (h : ∃ flag ∈ flags.dropLast, flag = false) :
    ∃ verdicts : List Bool, verdicts.length = flags.length ∧ verdicts.all id = false ∧
      ((chainRuns (List.zip flags verdicts)).any fun run => run.all id) = true := by
  induction flags with
  | nil => simp at h
  | cons flag rest ih =>
      cases rest with
      | nil => simp at h
      | cons next rest =>
          by_cases hflag : flag = false
          · -- The run ends here: it holds, and everything after it does not.
            refine ⟨true :: List.replicate (next :: rest).length false, by simp, by simp, ?_⟩
            rw [List.zip_cons_cons, chainRuns, hflag]
            unfold joinRun
            split <;> simp
          · have hlater : ∃ flag ∈ (next :: rest).dropLast, flag = false := by
              obtain ⟨f, hf, hfalse⟩ := h
              have hf' : f = flag ∨ f ∈ (next :: rest).dropLast := by simpa using hf
              rcases hf' with rfl | hf'
              · exact absurd hfalse hflag
              · exact ⟨f, hf', hfalse⟩
            obtain ⟨verdicts, hlength, hall, hany⟩ := ih hlater
            have hchained : flag = true := by simpa using hflag
            refine ⟨true :: verdicts, by simp [hlength], by simpa using hall, ?_⟩
            rw [List.zip_cons_cons, chainRuns, hchained]
            unfold joinRun
            split
            · rename_i run runs hruns
              rw [hruns] at hany
              simpa using hany
            · rename_i hruns
              rw [hruns] at hany
              cases hany

/-- **One run or many.**  Over directives of one variable, the conjunction of
all verdicts is the verdict of the rule set exactly when the directives are one
chain. -/
theorem all_eq_ruleSetFires_iff {rules : List SecRule} (hne : rules ≠ [])
    (hone : ∀ rule ∈ rules, rule.vars.length = 1) :
    (∀ verdicts : List Bool, verdicts.length = rules.length →
      verdicts.all id = ruleSetFires rules verdicts) ↔ FullyChained rules := by
  constructor
  · intro h rule hrule
    by_contra hflag
    have hearly : ∃ flag ∈ (rules.map (·.chained)).dropLast, flag = false := by
      rw [← List.map_dropLast]
      exact ⟨rule.chained, List.mem_map_of_mem hrule, by simpa using hflag⟩
    obtain ⟨verdicts, hlength, hall, hany⟩ := exists_early_run _ hearly
    have hlength' : verdicts.length = rules.length := by simpa using hlength
    have hverdict := h verdicts hlength'
    rw [ruleSetFires, directiveVerdicts_of_one hone hlength', hany, hall] at hverdict
    cases hverdict
  · intro h verdicts hlength
    have hzip : (List.zip (rules.map (·.chained)) verdicts).map (·.2) = verdicts := by
      rw [List.map_snd_zip (by simp [hlength])]
    have hne' : List.zip (rules.map (·.chained)) verdicts ≠ [] := by
      intro hnil
      have := congrArg List.length hnil
      simp [hlength] at this
      exact hne this
    rw [ruleSetFires, directiveVerdicts_of_one hone hlength,
      chainRuns_of_chained hne' ?_, hzip]
    · simp
    · intro x hx
      have hfirst : x.1 ∈ (rules.map (·.chained)).dropLast := by
        have hmap : x.1 ∈ (List.zip (rules.map (·.chained)) verdicts).dropLast.map (·.1) :=
          List.mem_map_of_mem hx
        rwa [List.map_dropLast, List.map_fst_zip (by simp [hlength])] at hmap
      rw [← List.map_dropLast] at hfirst
      obtain ⟨rule, hrule, heq⟩ := List.mem_map.mp hfirst
      rw [← heq]
      exact h rule hrule

theorem operation_of_chained {rules : List SecRule} {conditions : List Condition}
    (h : anyChained rules = true) : operationOf conditions (anyChained rules) = .and := by
  rw [operationOf, if_pos (Or.inr h)]

/-- The operation and the conditions of a compilation, read off by running it. -/
theorem exists_proposal {t : CharTables} {pattern : Pattern} {r : Option Requirements}
    {op : Operation} {conditions : List Condition}
    (h : ((compile t pattern r).toOption.join.map fun p =>
      (p.candidateContent.operation, p.candidateContent.conditions)) = some (op, conditions)) :
    ∃ proposal, compile t pattern r = .ok (some proposal) ∧
      proposal.candidateContent.operation = op ∧
      proposal.candidateContent.conditions = conditions := by
  cases hcompile : compile t pattern r with
  | error e => simp [hcompile, Except.toOption] at h
  | ok result =>
      cases result with
      | none => simp [hcompile, Except.toOption] at h
      | some proposal =>
          have hpair : (proposal.candidateContent.operation,
              proposal.candidateContent.conditions) = (op, conditions) := by
            simpa [hcompile, Except.toOption] using h
          obtain ⟨hop, hconditions⟩ := Prod.mk.inj hpair
          exact ⟨proposal, rfl, hop, hconditions⟩

/-- The text of a directive on one header. -/
def headerDirective (header operator actions : Str) : Str :=
  "SecRule ".toList ++ "REQUEST_HEADERS:".toList ++ header ++ " \"@".toList ++ operator ++
    "\" \"".toList ++ actions ++ ['"']

/-- A header comparison as a condition. -/
def headerCondition (header value : Str) : Condition :=
  { type := .requestHeaderValueMatch, positiveMatch := true,
    selector := some (.header, header), valueCase := some true, valueWildcard := some false,
    value := [value] }

/-- A header comparison as a directive. -/
def headerRule (header value : Str) (chained : Bool) : SecRule :=
  { vars := [⟨"REQUEST_HEADERS".toList, some header⟩], negated := false,
    operator := "streq".toList, argument := value, transformations := [], message := none,
    tags := [], chained := chained }

/-- **Chains.**  Without requirements, several directives compile to the
conjunction of their conditions; that is the verdict of the rule set exactly
when every directive but the last carries `chain`. -/
theorem compile_fires_iff {t : CharTables} {pattern : Pattern} {proposal : Proposal}
    {rules : List SecRule}
    (hparsed : (splitDirectives t pattern.patternSummary).mapM (parseSecrule t) = .ok rules)
    (hseveral : 1 < rules.length) (h : compile t pattern none = .ok (some proposal)) :
    (∀ verdicts : List Bool,
        verdicts.length = proposal.candidateContent.conditions.length →
      proposal.candidateContent.operation.eval verdicts = ruleSetFires rules verdicts) ↔
      FullyChained rules := by
  obtain ⟨rules', compiled, conditions, notes, hc⟩ := compile_ok h
  obtain rfl : rules = rules' := Except.ok.inj (hparsed.symm.trans hc.parsed)
  have hone := one_variable hparsed hc.loop hseveral
  have happlied : (compiled.conditions, ([] : List Str)) = (conditions, notes) :=
    Except.ok.inj hc.applied
  obtain ⟨rfl, rfl⟩ := Prod.mk.inj happlied
  have hlength : compiled.conditions.length = rules.length := by
    rw [length_conditions hc.loop, sourceCount_of_one hone]
  have hop : proposal.candidateContent.operation = .and := by
    rw [hc.proposed]
    exact operation_of_chained (hc.linked hseveral)
  have hconditions : proposal.candidateContent.conditions = compiled.conditions := by
    rw [hc.proposed]
    rfl
  have hne : rules ≠ [] := by
    rintro rfl
    simp at hseveral
  rw [hop, hconditions, hlength]
  exact all_eq_ruleSetFires_iff hne hone

/-- Of three directives only the first is chained: the first two form a run,
which fires although the third does not hold. -/
def brokenChain : Pattern :=
  { patternSummary := join ['\n']
      [headerDirective ['A'] "streq a".toList "id:1,chain".toList,
        headerDirective ['B'] "streq b".toList "id:2".toList,
        headerDirective ['C'] "streq c".toList "id:3".toList]
    vulnerabilityId := "CVE-1".toList }

/-- A chain that ends in the middle is not noticed. -/
theorem compile_silent_at_broken_chain :
    ¬ ∀ (t : CharTables) (pattern : Pattern) (proposal : Proposal) (rules : List SecRule),
      (splitDirectives t pattern.patternSummary).mapM (parseSecrule t) = .ok rules →
      1 < rules.length → compile t pattern none = .ok (some proposal) →
      ∀ verdicts : List Bool,
        verdicts.length = proposal.candidateContent.conditions.length →
        proposal.candidateContent.operation.eval verdicts = ruleSetFires rules verdicts := by
  intro h
  obtain ⟨proposal, hcompile, hop, hconditions⟩ :
      ∃ proposal, compile asciiTables brokenChain none = .ok (some proposal) ∧
        proposal.candidateContent.operation = .and ∧
        proposal.candidateContent.conditions =
          [headerCondition ['A'] ['a'], headerCondition ['B'] ['b'],
            headerCondition ['C'] ['c']] := exists_proposal (by decide +kernel)
  have hbad := h asciiTables brokenChain proposal
    [headerRule ['A'] ['a'] true, headerRule ['B'] ['b'] false, headerRule ['C'] ['c'] false]
    (by decide +kernel) (by decide) hcompile [true, true, false] (by rw [hconditions]; rfl)
  rw [hop] at hbad
  exact absurd hbad (by decide)

/-- Two directives linked by `chain`. -/
def linkedPair : Pattern :=
  { patternSummary := join ['\n']
      [headerDirective ['A'] "streq a".toList "id:1,chain".toList,
        headerDirective ['B'] "streq b".toList "id:2".toList]
    vulnerabilityId := "CVE-1".toList }

/-- A chain whose first rule reads one header and whose second another. -/
def linkedRules : List SecRule :=
  [headerRule ['A'] ['a'] true, headerRule ['B'] ['b'] false]

theorem linkedPair_parsed :
    (splitDirectives asciiTables linkedPair.patternSummary).mapM (parseSecrule asciiTables) =
      .ok linkedRules := by decide +kernel

theorem linkedPair_chained : FullyChained linkedRules := by
  simp [FullyChained, linkedRules, headerRule]

/-- The linked pair fires when both of it do. -/
theorem compile_fires_linked_pair :
    ∃ proposal, compile asciiTables linkedPair none = .ok (some proposal) ∧
      proposal.candidateContent.operation.eval [true, false] =
        ruleSetFires linkedRules [true, false] := by
  obtain ⟨proposal, hcompile, -, hconditions⟩ :
      ∃ proposal, compile asciiTables linkedPair none = .ok (some proposal) ∧
        proposal.candidateContent.operation = .and ∧
        proposal.candidateContent.conditions =
          [headerCondition ['A'] ['a'], headerCondition ['B'] ['b']] :=
    exists_proposal (by decide +kernel)
  have hfires := (compile_fires_iff linkedPair_parsed (by decide) hcompile).mpr
    linkedPair_chained
  exact ⟨proposal, hcompile, hfires [true, false] (by rw [hconditions]; rfl)⟩

/-- **Path scoping.**  A rule that gained the condition on the request path
fires on that path with its source and nowhere else exactly when the source has
several directives and every one but the last carries `chain`. -/
theorem compile_scoped_iff {t : CharTables} {pattern : Pattern} {r : Requirements}
    {proposal : Proposal} {rules : List SecRule} {sources : List Condition} {path : Str}
    (hparsed : (splitDirectives t pattern.patternSummary).mapM (parseSecrule t) = .ok rules)
    (h : compile t pattern (some r) = .ok (some proposal))
    (hsources : sources.length = sourceCount rules)
    (hscoped : proposal.candidateContent.conditions = sources ++ [pathCondition path]) :
    (∀ (verdicts : List Bool) (onPath : Bool), verdicts.length = sources.length →
      proposal.candidateContent.operation.eval (verdicts ++ [onPath]) =
        (onPath && ruleSetFires rules verdicts)) ↔
      1 < rules.length ∧ FullyChained rules := by
  obtain ⟨rules', compiled, conditions, notes, hc⟩ := compile_ok h
  obtain rfl : rules = rules' := Except.ok.inj (hparsed.symm.trans hc.parsed)
  have hconditions : conditions = sources ++ [pathCondition path] := by
    rw [hc.proposed] at hscoped
    exact hscoped
  have hop : proposal.candidateContent.operation =
      operationOf (sources ++ [pathCondition path]) (anyChained rules) := by
    rw [hc.proposed, ← hconditions]
    rfl
  have hne : rules ≠ [] := by
    rintro rfl
    exact hc.produced (List.length_eq_zero_iff.mp (length_conditions hc.loop))
  by_cases hseveral : 1 < rules.length
  · have hone := one_variable hparsed hc.loop hseveral
    rw [sourceCount_of_one hone] at hsources
    rw [hop, operation_of_chained (hc.linked hseveral), hsources]
    have hcomm : ∀ (a b c : Bool), ((a && b) = (b && c)) ↔ (b = true → a = c) := by decide
    have hscope : (∀ (verdicts : List Bool) (onPath : Bool),
        verdicts.length = rules.length →
          Operation.and.eval (verdicts ++ [onPath]) =
            (onPath && ruleSetFires rules verdicts)) ↔
        ∀ verdicts : List Bool, verdicts.length = rules.length →
          verdicts.all id = ruleSetFires rules verdicts := by
      simp only [Operation.eval, List.all_append, List.all_cons, List.all_nil, Bool.and_true,
        id_eq, hcomm]
      exact ⟨fun h verdicts hlength => h verdicts true hlength rfl,
        fun h verdicts _ hlength _ => h verdicts hlength⟩
    rw [hscope, all_eq_ruleSetFires_iff hne hone]
    exact ⟨fun hchained => ⟨hseveral, hchained⟩, And.right⟩
  · -- One directive: the path is an alternative, not a restriction.
    refine ⟨fun h => ?_, fun h => absurd h.1 hseveral⟩
    obtain ⟨rule, rfl⟩ : ∃ rule, rules = [rule] := by
      cases rules with
      | nil => exact absurd rfl hne
      | cons rule rest =>
          cases rest with
          | nil => exact ⟨rule, rfl⟩
          | cons next rest =>
              simp only [List.length_cons] at hseveral
              omega
    have hpos : 0 < sources.length := by
      obtain ⟨directive, -, hdirective⟩ := mapM_ok_right hparsed List.mem_cons_self
      have := List.length_pos_iff.mpr (vars_ne_nil hdirective)
      simpa [hsources, sourceCount] using this
    have hor : proposal.candidateContent.operation = .or := by
      rw [hop, operationOf, if_neg]
      simp only [List.length_append, List.length_singleton, anyChained]
      rintro (hlength | hchained)
      · omega
      · cases hchained
    have hoff := h (List.replicate sources.length false) true (by simp)
    have hquiet : ruleSetFires [rule] (List.replicate sources.length false) = false := by
      simp [ruleSetFires, directiveVerdicts, chainRuns, joinRun]
    rw [hor, hquiet] at hoff
    simp [Operation.eval] at hoff

/-- One directive on one header. -/
def singleHeader : Pattern :=
  { patternSummary := headerDirective ['A'] "streq a".toList "id:1".toList
    vulnerabilityId := "CVE-1".toList }

/-- Requirements that name the request path only. -/
def onPath (path : Str) : Requirements :=
  { originalPayload := none, bypassPayload := none, postWafCanonicalForms := [],
    effectivePath := some path, mutationLocation := [] }

/-- A single directive and the request path are alternatives. -/
theorem compile_fires_beyond_source :
    ¬ ∀ (t : CharTables) (pattern : Pattern) (r : Requirements) (proposal : Proposal)
        (rules : List SecRule) (sources : List Condition) (path : Str),
      (splitDirectives t pattern.patternSummary).mapM (parseSecrule t) = .ok rules →
      compile t pattern (some r) = .ok (some proposal) →
      sources.length = sourceCount rules →
      proposal.candidateContent.conditions = sources ++ [pathCondition path] →
      ∀ (verdicts : List Bool) (onPath : Bool), verdicts.length = sources.length →
        proposal.candidateContent.operation.eval (verdicts ++ [onPath]) =
          (onPath && ruleSetFires rules verdicts) := by
  intro h
  obtain ⟨proposal, hcompile, hop, hconditions⟩ :
      ∃ proposal, compile asciiTables singleHeader (some (onPath "/login".toList)) =
          .ok (some proposal) ∧
        proposal.candidateContent.operation = .or ∧
        proposal.candidateContent.conditions =
          [headerCondition ['A'] ['a'], pathCondition "/login".toList] :=
    exists_proposal (by decide +kernel)
  have hbad := h asciiTables singleHeader _ proposal [headerRule ['A'] ['a'] false]
    [headerCondition ['A'] ['a']] _ (by decide +kernel) hcompile rfl hconditions
    [true] false rfl
  rw [hop] at hbad
  exact absurd hbad (by decide)

/-- Scoped to a path, it does not fire without the path. -/
theorem compile_scoped_linked_pair :
    ∃ proposal, compile asciiTables linkedPair (some (onPath "/login".toList)) =
        .ok (some proposal) ∧
      proposal.candidateContent.operation.eval [true, true, false] = false := by
  obtain ⟨proposal, hcompile, -, hconditions⟩ :
      ∃ proposal, compile asciiTables linkedPair (some (onPath "/login".toList)) =
          .ok (some proposal) ∧
        proposal.candidateContent.operation = .and ∧
        proposal.candidateContent.conditions =
          [headerCondition ['A'] ['a'], headerCondition ['B'] ['b'],
            pathCondition "/login".toList] := exists_proposal (by decide +kernel)
  have hsources : proposal.candidateContent.conditions =
      [headerCondition ['A'] ['a'], headerCondition ['B'] ['b']] ++
        [pathCondition "/login".toList] := hconditions
  have hfires := (compile_scoped_iff linkedPair_parsed hcompile rfl hsources).mpr
    ⟨by decide, linkedPair_chained⟩
  exact ⟨proposal, hcompile, hfires [true, true] false rfl⟩

end ModSecurity
