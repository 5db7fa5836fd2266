import Mathlib.Algebra.GroupWithZero.Nat
import ControlTranslation.JoinBundle

/-!
# The mitigation check of a join

The Mitigation Check result lists a result for every obligation, and in it a case
for every input the obligation requires.  A case carries evidence that agrees
with its disposition, and the request a template was rendered to.
-/

namespace SharedContracts

open PyText JsonValue Alternatives

/-- Who resolved a template, under which profile. -/
structure Resolver where
  resolverId : String
  profileId : Str
  profileDigest : Str

/-- The path a template is rendered to. -/
def templatePath (path payload : JsonValue) : Checked JsonValue :=
  match payload with
  | .null => .ok path
  | .text (c :: rest) =>
      match path with
      | .text path => .ok (.text (renderedPath path (some (c :: rest))))
      | _ => .error .crash
  | _ => refuse "mc-template-resolution-invalid" "MC template path_payload is invalid".toList

/-- `_expected_template_resolution`. -/
def expectedTemplateResolution (item template : Members) (resolver : Resolver)
    (route : Members) : Checked Members := do
  let path ← templatePath (← need route "path") (field template "path_payload")
  let rendered := [("modality", JsonValue.text "http-request".toList),
    ("scheme", ← need route "scheme"), ("authority", ← need route "authority"),
    ("path", path)].foldl (fun request entry => setMember request entry.1.toList entry.2)
    (without template ["path_key", "path_payload"])
  return [("template_id".toList, ← need item "input_id"),
    ("path_key".toList, ← need template "path_key"),
    ("resolver_id".toList, .text resolver.resolverId.toList),
    ("profile_id".toList, .text resolver.profileId),
    ("resolver_profile_digest".toList, .text resolver.profileDigest),
    ("rendered_request".toList, .object rendered)]

/-- A number that is an integer, by its literal. -/
def intLiteral : JsonValue → Option Str
  | .number literal => if literal.any ".eE".toList.contains then none else some literal
  | _ => none

/-- Whether evidence agrees with a disposition. -/
def validEvidence (s : Services) (evidence : Members) (disposition : JsonValue) : Bool :=
  if isText disposition "blocked" then
    isTrue (field evidence "blocked") &&
      equal s (field evidence "status_code") (natNumber 403) &&
      !hasField evidence "reached_app" && (field evidence "matched_rule_id").asNonemptyText.isSome
  else if isText disposition "not-blocked" then
    !hasField evidence "blocked" &&
      (intLiteral (field evidence "status_code")).any
        (fun literal => decide (100 ≤ s.number literal ∧ s.number literal ≤ 599)) &&
      isTrue (field evidence "reached_app") && !hasField evidence "matched_rule_id"
  else hasExactly evidence ["detail"]

/-- Whether every member of a document has one of these names. -/
def onlyMembers (members : Members) (names : List String) : Bool :=
  members.all fun member => (names.map String.toList).contains member.1

/-- `_validate_mc_evidence`. -/
def validateMcEvidence (s : Services) (caseResult : Members) (obligationId : Str) :
    Checked Unit := do
  let code := "mc-case-evidence-invalid"
  let disposition ← need caseResult "disposition"
  match field caseResult "evidence" with
  | .object evidence => do
      raiseIf [evidence.isEmpty, !onlyMembers evidence
          ["blocked", "status_code", "reached_app", "matched_rule_id", "detail"]] code
        ("MC evidence differs: ".toList ++ obligationId)
      raiseIf [(field evidence "detail").asNonemptyText.isNone] code
        ("MC evidence detail is absent: ".toList ++ obligationId)
      raiseIf [!validEvidence s evidence disposition] code
        ("MC evidence contradicts disposition: ".toList ++ obligationId)
  | _ => refuse code ("MC evidence differs: ".toList ++ obligationId)

/-- The resolver every accepted mitigation case names. -/
def mcResolverId : String := "mc-approved-route-adapter"

/-- The digest of the packaged mitigation profile as a file. -/
def mcProfileFileDigest : String :=
  "sha256:a49bc4e962985f5bd6aa117228e44002a1a617e62544fb87757aa261d4a6f404"

/-- The length of that file. -/
def mcProfileByteLength : Nat := 441

/-- The routes of the first profile. -/
def legacyMcRoutes : Members :=
  [("inventory-item-detail".toList, .object
    [("scheme".toList, .text "https".toList),
      ("authority".toList, .text "approved-mc-target.internal".toList),
      ("path".toList, .text "/inventory/items/42".toList)])]

/-- The routes of the embedded second profile. -/
def embeddedMcRoutes (s : JoinServices) (profileDigest : Str) : Checked JsonValue := do
  let raw := s.profileFile "mc-http-route-profile-v2.json"
  let code := "mc-profile-integrity-failed"
  raiseIf [raw.length != mcProfileByteLength,
      digestBytes s.toServices raw != mcProfileFileDigest.toList] code
    "embedded waf-standard@2 profile bytes differ".toList
  let profile ← strictJsonBytes s.toServices raw "waf-standard@2 profile".toList
  let refusal := "embedded waf-standard@2 profile identity differs".toList
  raiseIf [!isText (field profile "profile_id") ctProfileId,
    !isText (field profile "resolver_id") mcResolverId] code refusal
  let own ← digest s.toServices (.object profile)
  raiseIf [own != profileDigest] code refusal
  return fieldOr profile "routes" (.object [])

/-- The routes of a profile. -/
def mcRoutes (s : JoinServices) (resolver : Resolver) : Checked JsonValue :=
  if resolver.profileId = ctProfileId.toList then embeddedMcRoutes s resolver.profileDigest
  else .ok (.object legacyMcRoutes)

/-- `routes.get(key)`, where it is there. -/
def routeUnder (routes key : JsonValue) : Checked (Option JsonValue) := do
  let table ← dictionary routes
  let name ← hashed key
  return name.asText.bind fun name => if hasKey table name then some (get table name) else none

/-- `_validate_mc_resolution`. -/
def validateMcResolution (s : JoinServices) (caseResult item : Members) (obligationId : Str)
    (resolver : Resolver) : Checked Unit := do
  let code := "mc-template-resolution-invalid"
  let template ← needDictionary item "input"
  if !isText (field template "modality") "http-request-template" then
    raiseIf [!(field caseResult "resolution").isNull] code
      ("MC invented a template resolution: ".toList ++ obligationId)
  else do
    let routes ← mcRoutes s resolver
    match ← routeUnder routes (field template "path_key") with
    | some (.object route) => do
        let expected ← expectedTemplateResolution item template resolver route
        raiseIf [!equal s.toServices (field caseResult "resolution") (.object expected)] code
          ("MC template resolution differs: ".toList ++ obligationId)
    | some .null => refuse code ("MC accepted an unknown path key: ".toList ++ obligationId)
    | none => refuse code ("MC accepted an unknown path key: ".toList ++ obligationId)
    | some _ => .error .crash

/-- What the result says of itself, and of the results it was made from. -/
def checkMcIdentity (s : JoinServices) (mc : Members) (locators : Capability → Locator)
    (profileId : Str) : Checked Unit := do
  raiseIf [!isText (field mc "capability") "mitigation-check",
      !isText (field mc "contract_id") "mitigation-check@1.0",
      !isText (field mc "terminal_state") "blocked", !isText (field mc "status") "completed",
      !hasText (field mc "profile_id") profileId] "mc-identity-invalid"
    "MC identity, state, or profile differs".toList
  raiseIf [!isTrue (field mc "match")] "mc-aggregate-outcome-invalid"
    "MC blocked aggregate must report match true".toList
  let code := "mc-chain-provenance-mismatch"
  match field mc "input_provenance" with
  | .object provenance => do
      raiseIf [!isText (field provenance "route_policy") "shared-attack-contracts-v2",
          (inTexts ["physical-and-logical-sha256-verified".toList,
            "workflow-lab-physical-and-logical-sha256-verified".toList]
            (field provenance "verification")).map (!·)] code
        "MC chain provenance differs".toList
      raiseIf [!sameLocatorDocument s (field provenance "check_result")
        (locators .checkGeneration)] code "MC check_result differs".toList
      raiseIf [!sameLocatorDocument s (field provenance "defense_result")
        (locators .defenseGeneration)] code "MC defense_result differs".toList
  | _ => refuse code "MC chain provenance differs".toList

/-- The whole application unit was read back. -/
def checkMcUnit (s : Services) (mc bundle : Members) : Checked Unit := do
  let unit ← needDictionary bundle "application_unit"
  let artifactIds ← idsOf (← need unit "artifact_refs")
  let unitId ← need unit "application_unit_id"
  raiseIf [!equal s (field mc "application_unit")
      (.object [("application_unit_id".toList, unitId),
        ("artifact_ids".toList, .array (artifactIds.map .text)),
        ("readback_verified".toList, .bool true)])] "mc-application-attestation-mismatch"
    "MC complete application unit differs".toList

/-- Whether a case was not blocked, or is not a case at all. -/
def unblocked (caseResult : Members) : Bool :=
  !onlyMembers caseResult ["input_id", "disposition", "resolution", "evidence"] ||
    !(["input_id", "disposition", "evidence"].all (hasField caseResult)) ||
    !isText (field caseResult "disposition") "blocked"

/-- One case of an obligation. -/
def checkCase (s : JoinServices) (inputs : Table Members) (obligationId : Str)
    (resolver : Resolver) (entry : Str × Members) : Checked Unit := do
  validateMcEvidence s.toServices entry.2 obligationId
  let item ← needEntry inputs entry.1
  validateMcResolution s entry.2 item obligationId resolver

/-- The result of one obligation, and how many cases it lists. -/
def checkObligationResult (s : JoinServices) (results inputs : Table Members)
    (resolver : Resolver) (entry : Str × Members) : Checked Nat := do
  let (id, obligation) := entry
  let result ← needEntry results id
  let cases ← index (field result "case_results") "input_id" "mc-case-results-invalid"
  let expected ← idsOf (← need obligation "required_input_refs")
  raiseIf [!sameSet (keys cases) expected, cases.any fun found => unblocked found.2]
    "mc-translation-outcome-invalid"
    ("MC required cases must all be blocked: ".toList ++ id)
  cases.forM (checkCase s inputs id resolver)
  return cases.length

/-- `_validate_mc`. -/
def validateMc (s : JoinServices) (mc semantics bundle : Members)
    (locators : Capability → Locator) (resolver : Resolver) : Checked Unit := do
  checkMcIdentity s mc locators resolver.profileId
  checkMcUnit s.toServices mc bundle
  let obligations ←
    index (← need semantics "obligations") "obligation_id" "obligations-invalid"
  let results ←
    index (field mc "obligation_results") "obligation_id" "mc-obligation-results-invalid"
  raiseIf [!sameSet (keys results) (keys obligations)] "mc-obligation-accounting-invalid"
    "MC obligation IDs differ".toList
  let inputs ← index (← need semantics "test_inputs") "input_id" "semantics-inputs-invalid"
  let work ← obligations.mapM (checkObligationResult s results inputs resolver)
  let accounting ← accountingOf semantics work.sum work.sum
  raiseIf [!equal s.toServices (field mc "accounting") accounting.json] "mc-accounting-invalid"
    "MC CoverageAccounting differs".toList

/-- The inputs an obligation requires, each once. -/
def requiredInputs (obligation : Members) : List Str :=
  unique (identities (field obligation "required_input_refs") "id")

/-- A case was blocked, with evidence of a rule that matched. -/
structure BlockedCase (s : Services) (caseResult : Members) : Prop where
  disposition : field caseResult "disposition" = .text "blocked".toList
  evidence : ∃ evidence, field caseResult "evidence" = .object evidence ∧
    field evidence "blocked" = .bool true ∧
    equal s (field evidence "status_code") (natNumber 403) = true ∧
    hasField evidence "reached_app" = false ∧
    ∃ rule, field evidence "matched_rule_id" = .text rule ∧ rule ≠ []

/-- A result has one case for every input its obligation requires, and all are blocked. -/
structure BlocksInputs (s : Services) (result obligation : Members) : Prop where
  inputs : (identities (field result "case_results") "input_id").Perm (requiredInputs obligation)
  cases : ∀ caseResult, .object caseResult ∈ arrayItems (field result "case_results") →
    BlockedCase s caseResult

/-- What an accepted result says of the semantics. -/
structure AcceptedMitigation (s : Services) (mc semantics : Members) : Prop where
  /-- There is one result for every obligation, and for nothing else. -/
  reported : OneForEach (field mc "obligation_results") (field semantics "obligations")
  blocked : ∀ result obligation, .object result ∈ arrayItems (field mc "obligation_results") →
    .object obligation ∈ arrayItems (field semantics "obligations") →
    field result "obligation_id" = field obligation "obligation_id" →
      BlocksInputs s result obligation
  /-- The work is a case for every required input, and all of it is disposed. -/
  accounted : ∃ accounting : CoverageAccounting,
    equal s (field mc "accounting") accounting.json = true ∧
    accounting.requiredWorkItemCount = (((arrayItems (field semantics "obligations")).filterMap
      asObject).map fun obligation => (requiredInputs obligation).length).sum ∧
    accounting.disposedWorkItemCount = accounting.requiredWorkItemCount

variable {s : JoinServices}

theorem isTrue_iff {value : JsonValue} : isTrue value = true ↔ value = .bool true := by
  cases value <;> simp [isTrue]

/-- The evidence of a blocked case names a rule that matched. -/
theorem blockedCase_of_evidence {caseResult : Members} {id : Str}
    (hblocked : field caseResult "disposition" = .text "blocked".toList)
    (h : validateMcEvidence s.toServices caseResult id = .ok ()) :
    BlockedCase s.toServices caseResult := by
  simp only [validateMcEvidence, bind_eq_ok] at h
  obtain ⟨disposition, hdisposition, h⟩ := h
  obtain rfl : field caseResult "disposition" = disposition := (need_eq_ok.mp hdisposition).2
  split at h
  · rename_i evidence hevidence
    simp only [bind_eq_ok, raiseIf_eq_ok, List.forall_mem_cons, Option.some.injEq,
      Bool.not_eq_false'] at h
    obtain ⟨-, -, -, -, hvalid, -⟩ := h
    rw [validEvidence, hblocked, if_pos (isText_iff.mpr rfl)] at hvalid
    simp only [Bool.and_eq_true, Bool.not_eq_true'] at hvalid
    obtain ⟨⟨⟨hflag, hstatus⟩, hreached⟩, hrule⟩ := hvalid
    obtain ⟨rule, hrule⟩ := Option.isSome_iff_exists.mp hrule
    exact ⟨hblocked, evidence, hevidence, isTrue_iff.mp hflag, hstatus, hreached, rule,
      asNonemptyText_eq_some hrule⟩
  · exact absurd h refuse_ne_ok.mp

/-- The check of one obligation: all of its inputs are blocked. -/
theorem checkObligationResult_eq_ok {results inputs : Table Members} {resolver : Resolver}
    {entry : Str × Members} {work : Nat} {result : Members}
    (hresult : lookup results entry.1 = some result)
    (h : checkObligationResult s results inputs resolver entry = .ok work) :
    BlocksInputs s.toServices result entry.2 ∧ work = (requiredInputs entry.2).length := by
  simp only [checkObligationResult, bind_eq_ok, raiseIf_eq_ok, pure_eq_ok, forM_eq_ok,
    needEntry_eq_ok, List.forall_mem_cons, Option.some.injEq, Bool.not_eq_false'] at h
  obtain ⟨found, hfound, cases, hcases, refs, hrefs, expected, hexpected, -,
    ⟨hsame, hblocked, -⟩, -, hchecked, rfl⟩ := h
  obtain rfl := Option.some.inj (hfound.symm.trans hresult)
  obtain rfl : field entry.2 "required_input_refs" = refs := (need_eq_ok.mp hrefs).2
  obtain rfl := idsOf_eq_ok hexpected
  have hindex := index_eq_ok hcases
  have hperm : (keys cases).Perm (requiredInputs entry.2) := by
    refine (List.perm_ext_iff_of_nodup hindex.nodup (nodup_unique _)).mpr fun id => ?_
    rw [mem_unique, sameSet_iff.mp hsame]
  refine ⟨⟨?_, fun caseResult hcase => ?_⟩, ?_⟩
  · rwa [identities_of_indexed hindex]
  · obtain ⟨other, hother, rfl⟩ := hindex.entry_of_mem hcase
    have hcaseBlocked := List.any_eq_false.mp hblocked other hother
    simp only [unblocked, Bool.or_eq_true, not_or, Bool.not_eq_true, Bool.not_eq_false']
      at hcaseBlocked
    have hevidence := hchecked other hother
    simp only [checkCase, bind_eq_ok] at hevidence
    obtain ⟨⟨⟩, hevidence, -⟩ := hevidence
    exact blockedCase_of_evidence (isText_iff.mp hcaseBlocked.2) hevidence
  · rw [← hperm.length_eq, keys, List.length_map]

/-- The objects of an indexed collection are those of its index. -/
theorem Indexed.objects {items : JsonValue} {key : String} {table : Table Members}
    (h : Indexed items key table) : (arrayItems items).filterMap asObject = table.map (·.2) := by
  rw [h.items]
  change (table.map fun entry => JsonValue.object entry.2).filterMap asObject = _
  rw [List.filterMap_map, ← List.filterMap_eq_map]
  rfl

/-- Accounting that is accepted counts what was required and what was done. -/
theorem accountingOf_eq_ok {semantics : Members} {required disposed : Nat}
    {accounting : CoverageAccounting}
    (h : accountingOf semantics required disposed = .ok accounting) :
    accounting.requiredWorkItemCount = required ∧ accounting.disposedWorkItemCount = disposed ∧
      accounting.unaccountedRequiredWorkItemCount = required - disposed ∧ disposed ≤ required ∧
      ∃ obligations, iterate (field semantics "obligations") = .ok obligations ∧
        accounting.requiredObligationCount = obligations.length ∧
        accounting.accountedObligationCount = obligations.length ∧
        accounting.unaccountedRequiredObligationCount = 0 := by
  simp only [accountingOf, bind_eq_ok, raiseIf_eq_ok, List.forall_mem_cons, pure_eq_ok,
    Option.some.injEq, decide_eq_false_iff_not, not_lt] at h
  obtain ⟨source, -, _, -, members, -, _, -, represented, -, _, -, unsupported, -, -, -, -,
    ⟨hless, -⟩, items, hitems, obligations, hobligations, rfl⟩ := h
  obtain rfl : field semantics "obligations" = items := (need_eq_ok.mp hitems).2
  exact ⟨rfl, rfl, rfl, hless, obligations, hobligations, rfl, rfl, rfl⟩

/-- What a loop answers is known where every turn's answer is. -/
theorem eq_map_of_mapM {α β : Type} {f : α → Checked β} {g : α → β} {items : List α}
    {found : List β} (h : items.mapM f = .ok found)
    (hturn : ∀ item ∈ items, ∀ b, f item = .ok b → b = g item) : found = items.map g := by
  have hforall := mapM_eq_ok.mp h
  clear h
  induction hforall with
  | nil => rfl
  | @cons item b items found hitem _ ih =>
      rw [List.map_cons, hturn item List.mem_cons_self b hitem,
        ih fun other hother => hturn other (List.mem_cons_of_mem _ hother)]

/-- **An accepted mitigation check** blocks every input that an obligation requires. -/
theorem acceptedMitigation_of_validateMc {mc semantics bundle : Members}
    {locators : Capability → Locator} {resolver : Resolver}
    (h : validateMc s mc semantics bundle locators resolver = .ok ()) :
    AcceptedMitigation s.toServices mc semantics := by
  simp only [validateMc, bind_eq_ok, raiseIf_eq_ok, List.forall_mem_cons, Option.some.injEq,
    Bool.not_eq_false'] at h
  obtain ⟨-, -, -, -, items, hitems, obligations, hobligations, results, hresults, -, ⟨hsame, -⟩,
    _, -, inputs, -, work, hwork, accounting, haccounting, hequal, -⟩ := h
  have hobligationIndex := index_need hitems hobligations
  have hresultIndex := index_eq_ok hresults
  have hforall := mapM_eq_ok.mp hwork
  have hlookup : ∀ entry ∈ obligations, ∃ result, lookup results entry.1 = some result := by
    intro entry hentry
    have hkey : entry.1 ∈ keys results :=
      (sameSet_iff.mp hsame entry.1).mpr (List.mem_map_of_mem hentry)
    exact Option.isSome_iff_exists.mp (lookup_isSome.mpr hkey)
  refine ⟨oneForEach_of_indexed hresultIndex hobligationIndex hsame,
    fun result obligation hresult hobligation hid => ?_, accounting, hequal, ?_⟩
  · obtain ⟨entry, hentry, rfl⟩ := hobligationIndex.entry_of_mem hobligation
    obtain ⟨count, -, hcount⟩ := exists_right_of_forall₂ hforall hentry
    have hentryId := (hobligationIndex.identity entry hentry).1
    exact (checkObligationResult_eq_ok
      (hresultIndex.lookup_of_field hresult (hid.trans hentryId)) hcount).1
  · obtain ⟨hrequired, hdisposed, -⟩ := accountingOf_eq_ok haccounting
    refine ⟨?_, hdisposed.trans hrequired.symm⟩
    have hcounts : work = obligations.map fun entry => (requiredInputs entry.2).length := by
      refine eq_map_of_mapM hwork fun entry hentry count hcount => ?_
      obtain ⟨result, hresult⟩ := hlookup entry hentry
      exact (checkObligationResult_eq_ok hresult hcount).2
    rw [hrequired, hobligationIndex.objects, List.map_map, hcounts]
    rfl

end SharedContracts
