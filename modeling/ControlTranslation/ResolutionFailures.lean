import ControlTranslation.JsonFieldRule
import ControlTranslation.Lineage
import ControlTranslation.Failures

/-!
# What a resolution raises

Bad upstream data is answered by a resolution error; anything else that is raised
on the way leaves the service.  The resolver does two things that can raise
something else.  It asks a set for the contract of a record, and a list or an
object cannot be asked for.  And it puts the assembled pattern to a contract with
rules of its own for the proof records, which no check of the resolver implies.
Deriving the field feature raises nothing: every value that the walk keeps and the
evidence corroborates is within the bounds of the feature's contract.

Texts are sequences of Unicode scalar values, so every text can be encoded; how
deep the interpreter recurses is not modelled.
-/

namespace ProofLoop

open PyText JsonValue FnMatch Failures
open JsonFieldInference (Walk visit visitMembers isFieldKey isFieldChar isTokenChar readToken
  findTokens sharedTokens tokenOf evidenceOf corroborate contractStrip isContractSpace buildFeature
  maxJsonDepth maxJsonNodes jsonBodyFieldFeature postsJson)

variable {t : CharTables} (cs : Casing t)

/-- The request as the inference reads it. -/
def RequestContext.posted (context : RequestContext) : JsonFieldInference.RequestContext :=
  ⟨context.method, context.headers, context.body⟩

/-- The same word in the resolver's own enumeration. -/
def ValueMatch.ofGate : SemanticGates.ValueMatch → ValueMatch
  | .exact => .exact
  | .containsToken => .containsToken
  | .fieldPresent => .fieldPresent

/-- The same feature in the resolver's own record. -/
def JsonBodyFieldFeature.ofGate (feature : SemanticGates.JsonBodyFieldFeature) :
    JsonBodyFieldFeature :=
  ⟨feature.fieldPath, feature.value, .ofGate feature.valueMatch⟩

/-- The one leaf of the document that all evidence corroborates. -/
def provenLeaf (loads : Str → Option JsonValue) (body discriminator artifact : Str) :
    Option (List Str × Str × SemanticGates.ValueMatch) :=
  match loads body with
  | some (.object members) =>
      let walk := visit [] 0 ⟨0, false, []⟩ (.object members)
      if walk.exceeded ∨ walk.leaves = [] then none
      else
        match walk.leaves.filterMap
            (corroborate cs (evidenceOf cs discriminator artifact) artifact) with
        | [proven] => some proven
        | _ => none
  | _ => none

/-- `_json_body_field_feature`, with what its contract raises. -/
def deriveFeature (loads : Str → Option JsonValue) :
    Option RequestContext → Str → Str → Resolution (Option JsonBodyFieldFeature)
  | none, _, _ => .ok none
  | some context, discriminator, artifact =>
      if postsJson t context.posted = false then .ok none
      else
        match provenLeaf cs loads context.body discriminator artifact with
        | none => .ok none
        | some (path, value, how) =>
            match buildFeature path value how with
            | some feature => .ok (some (.ofGate feature))
            | none => .error (.other "ValidationError")

/-- The feature derived before is the proven leaf, where its contract takes it. -/
theorem jsonBodyFieldFeature_eq (loads : Str → Option JsonValue)
    (context : JsonFieldInference.RequestContext) (discriminator artifact : Str) :
    jsonBodyFieldFeature cs loads context discriminator artifact =
      if postsJson t context = false then none
      else (provenLeaf cs loads context.body discriminator artifact).bind fun proven =>
        buildFeature proven.1 proven.2.1 proven.2.2 := by
  unfold jsonBodyFieldFeature provenLeaf
  split
  · rfl
  · cases loads context.body with
    | none => rfl
    | some document =>
        cases document with
        | object members =>
            dsimp only
            split
            · rfl
            · generalize (visit [] 0 ⟨0, false, []⟩ (.object members)).leaves.filterMap
                (corroborate cs (evidenceOf cs discriminator artifact) artifact) = found
              match found with
              | [] => rfl
              | [proven] => rfl
              | _ :: _ :: _ => rfl
        | _ => rfl

/-- What a leaf the walk keeps looks like. -/
structure LeafBounds (leaf : List Str × Str) : Prop where
  path_ne : leaf.1 ≠ []
  depth : leaf.1.length ≤ maxJsonDepth
  keys : ∀ key ∈ leaf.1, isFieldKey key = true
  value : strip leaf.2 ≠ []
  length : leaf.2.length ≤ 4096

/-- Every leaf seen so far is within bounds. -/
def Bounded (w : Walk) : Prop := ∀ leaf ∈ w.leaves, LeafBounds leaf

theorem bounded_leaf {w : Walk} {path : List Str} {s : Str} (hw : Bounded w) (hne : path ≠ [])
    (hdepth : path.length ≤ maxJsonDepth) (hkeys : ∀ key ∈ path, isFieldKey key = true) :
    Bounded (w.leaf path s) := by
  unfold Walk.leaf
  split
  · rename_i hkept
    intro leaf hleaf
    rcases List.mem_append.mp hleaf with hleaf | hleaf
    · exact hw leaf hleaf
    · rw [List.mem_singleton.mp hleaf]
      exact ⟨hne, hdepth, hkeys, hkept.1, hkept.2⟩
  · exact hw

mutual

/-- A visit keeps the leaves within bounds; only the document has no path. -/
theorem visit_bounded : ∀ (value : JsonValue) {path : List Str} {depth : Nat} {w : Walk},
    Bounded w → path.length = depth → (∀ key ∈ path, isFieldKey key = true) →
      (path ≠ [] ∨ value.asObject.isSome) → Bounded (visit path depth w value)
  | .object members, path, depth, w, hw, hdepth, hkeys, _ => by
      rw [visit]
      split
      · exact hw
      · split
        · exact hw
        · exact visitMembers_bounded members hw hdepth hkeys
  | .text s, path, depth, w, hw, hdepth, hkeys, hne => by
      rw [visit]
      split
      · exact hw
      · split
        · exact hw
        · rename_i hshallow
          refine bounded_leaf hw ?_ (by omega) hkeys
          exact hne.resolve_right (by simp [asObject])
  | .null, _, _, _, hw, _, _, _ => by
      rw [visit]
      exact hw
      all_goals simp
  | .bool _, _, _, _, hw, _, _, _ => by
      rw [visit]
      exact hw
      all_goals simp
  | .number _, _, _, _, hw, _, _, _ => by
      rw [visit]
      exact hw
      all_goals simp
  | .array _, _, _, _, hw, _, _, _ => by
      rw [visit]
      exact hw
      all_goals simp

/-- Visiting an object keeps the walk within its bounds. -/
theorem visitMembers_bounded : ∀ (members : List (Str × JsonValue)) {path : List Str}
    {depth : Nat} {w : Walk}, Bounded w → path.length = depth →
      (∀ key ∈ path, isFieldKey key = true) → Bounded (visitMembers path depth w members)
  | [], _, _, _, hw, _, _ => hw
  | (key, child) :: rest, path, depth, w, hw, hdepth, hkeys => by
      rw [visitMembers]
      split
      · exact visitMembers_bounded rest hw hdepth hkeys
      · rename_i hkey
        have hbelow : ∀ name ∈ path ++ [key], isFieldKey name = true := by
          intro name hname
          rcases List.mem_append.mp hname with hname | hname
          · exact hkeys name hname
          · rw [List.mem_singleton.mp hname]
            simpa using hkey
        have hvisited : Bounded (visit (path ++ [key]) (depth + 1) w child) :=
          visit_bounded child hw (by simp [hdepth]) hbelow (.inl (by simp))
        dsimp only
        split
        · exact hvisited
        · exact visitMembers_bounded rest hvisited hdepth hkeys

end

theorem mem_dropWhile_of_not {p : Char → Bool} {s : Str} {c : Char} (hc : c ∈ s)
    (hp : p c = false) : c ∈ s.dropWhile p := by
  rw [← List.takeWhile_append_dropWhile (p := p) (l := s)] at hc
  rcases List.mem_append.mp hc with hc | hc
  · rw [List.mem_takeWhile_imp hc] at hp
    cases hp
  · exact hc

/-- Stripping keeps what is no white space. -/
theorem mem_contractStrip {s : Str} {c : Char} (hc : c ∈ s) (hspace : isSpace c = false) :
    c ∈ contractStrip s := by
  have hcontract : isContractSpace c = false := by
    rw [isContractSpace, hspace, Bool.false_and]
  have hleft := mem_dropWhile_of_not hc hcontract
  have hright := mem_dropWhile_of_not (List.mem_reverse.mpr hleft) hcontract
  exact List.mem_reverse.mpr hright

theorem exists_of_strip_ne {s : Str} (h : strip s ≠ []) : ∃ c ∈ s, isSpace c = false := by
  by_contra hnone
  have hall : ∀ c ∈ s, isSpace c = true := by
    intro c hc
    cases hspace : isSpace c with
    | true => rfl
    | false => exact absurd ⟨c, hc, hspace⟩ hnone
  apply h
  rw [strip, lstrip, List.dropWhile_eq_nil_iff.mpr hall]
  rfl

/-- A value that is not blank and not too long is taken, under a path of field keys. -/
theorem buildFeature_isSome {path : List Str} {value : Str} {how : SemanticGates.ValueMatch}
    (hne : path ≠ []) (hdepth : path.length ≤ maxJsonDepth)
    (hkeys : ∀ key ∈ path, isFieldKey key = true) (hvalue : strip value ≠ [])
    (hlength : value.length ≤ 4096) : (buildFeature path value how).isSome = true := by
  obtain ⟨c, hc, hspace⟩ := exists_of_strip_ne hvalue
  have hkept := mem_contractStrip hc hspace
  have hshort : (contractStrip value).length ≤ value.length :=
    ((List.rdropWhile_prefix _ _).length_le).trans (List.dropWhile_sublist _).length_le
  have hbound : maxJsonDepth ≤ 16 := by decide
  cases path with
  | nil => exact absurd rfl hne
  | cons segment rest =>
      rw [buildFeature, if_pos]
      · rfl
      · exact ⟨by omega, List.all_eq_true.mpr hkeys, List.ne_nil_of_mem hkept, by omega,
          strip_ne_nil hkept hspace⟩

theorem readToken_bounds {s token : Str} (h : readToken s = some token) :
    token ≠ [] ∧ token.length ≤ 128 := by
  cases s with
  | nil => cases h
  | cons first rest =>
      simp only [readToken] at h
      split at h
      · split at h
        · cases h
          refine ⟨List.cons_ne_nil _ _, ?_⟩
          simp only [List.length_cons, List.length_take]
          omega
        · cases h
      · split at h
        · cases h
          refine ⟨List.cons_ne_nil _ _, ?_⟩
          simp only [List.length_cons, List.length_take]
          omega
        · cases h

theorem findTokens_bounds {s : Str} : ∀ {skip : Nat}, ∀ token ∈ findTokens skip s,
    token ≠ [] ∧ token.length ≤ 128 := by
  induction s with
  | nil =>
      intro skip token htoken
      rw [findTokens] at htoken
      cases htoken
  | cons first rest ih =>
      intro skip token htoken
      cases skip with
      | succ skip => exact ih token htoken
      | zero =>
          rw [findTokens] at htoken
          split at htoken
          · rename_i read hread
            rcases List.mem_cons.mp htoken with rfl | htoken
            · exact readToken_bounds hread
            · exact ih token htoken
          · exact ih token htoken

/-- A token has no white space. -/
theorem isSpace_of_isTokenChar {c : Char} (h : isTokenChar c = true) : isSpace c = false := by
  rw [isTokenChar, Bool.or_eq_true] at h
  rcases h with h | h
  · exact JsonFieldInference.isSpace_of_isFieldChar h
  · have hmem : c ∈ ['.', ':', '+', '/'] := of_decide_eq_true h
    simp only [List.mem_cons, List.not_mem_nil, or_false] at hmem
    rcases hmem with rfl | rfl | rfl | rfl <;> rfl

theorem corroborate_some {evidence : List Str} {artifact : Str} {leaf : List Str × Str}
    {path : List Str} {value : Str} {how : SemanticGates.ValueMatch} (hleaf : LeafBounds leaf)
    (h : corroborate cs evidence artifact leaf = some (path, value, how)) :
    path = leaf.1 ∧ strip value ≠ [] ∧ value.length ≤ 4096 := by
  simp only [corroborate] at h
  split at h
  · split at h
    · cases h
      exact ⟨rfl, hleaf.value, hleaf.length⟩
    · split at h
      · obtain ⟨token, htoken, hsame⟩ := Option.map_eq_some_iff.mp h
        cases hsame
        have hfound := List.mem_of_mem_filter (List.mem_of_getLast? htoken)
        obtain ⟨hne, hlength⟩ := findTokens_bounds value hfound
        obtain ⟨c, hc⟩ := List.exists_mem_of_ne_nil value hne
        have hchar := JsonFieldInference.findTokens_chars value hfound c hc
        exact ⟨rfl, strip_ne_nil hc (isSpace_of_isTokenChar hchar), by omega⟩
      · split at h
        · cases h
          exact ⟨rfl, by decide, by decide⟩
        · cases h
  · cases h

/-- The one leaf the evidence corroborates is taken by the contract of the feature. -/
theorem buildFeature_of_provenLeaf {loads : Str → Option JsonValue}
    {body discriminator artifact : Str} {path : List Str} {value : Str}
    {how : SemanticGates.ValueMatch}
    (h : provenLeaf cs loads body discriminator artifact = some (path, value, how)) :
    (buildFeature path value how).isSome = true := by
  unfold provenLeaf at h
  split at h
  · rename_i members _
    dsimp only at h
    split at h
    · cases h
    · split at h
      · rename_i proven honly
        cases h
        have hmem := List.mem_singleton_self (path, value, how)
        rw [← honly] at hmem
        obtain ⟨leaf, hleaf, hcorroborated⟩ := List.mem_filterMap.mp hmem
        have hempty : Bounded ⟨0, false, []⟩ := fun _ hnone => absurd hnone List.not_mem_nil
        have hbounds := visit_bounded (.object members) hempty List.length_nil
          (fun _ hnone => absurd hnone List.not_mem_nil) (.inr rfl) leaf hleaf
        obtain ⟨rfl, hvalue, hlength⟩ := corroborate_some cs hbounds hcorroborated
        exact buildFeature_isSome hbounds.path_ne hbounds.depth hbounds.keys hvalue hlength
      · cases h
  · cases h

/-- **The field feature** is derived without an error, and it is the one the
inference derives. -/
theorem deriveFeature_eq (loads : Str → Option JsonValue) (context : Option RequestContext)
    (discriminator artifact : Str) :
    deriveFeature cs loads context discriminator artifact =
      .ok (context.bind fun request =>
        (jsonBodyFieldFeature cs loads request.posted discriminator artifact).map
          JsonBodyFieldFeature.ofGate) := by
  cases context with
  | none => rfl
  | some request =>
      rw [deriveFeature, Option.bind_some, jsonBodyFieldFeature_eq]
      split
      · rfl
      · have hbody : request.posted.body = request.body := rfl
        rw [hbody]
        cases hproven : provenLeaf cs loads request.body discriminator artifact with
        | none => rfl
        | some proven =>
            obtain ⟨path, value, how⟩ := proven
            obtain ⟨feature, hfeature⟩ :=
              Option.isSome_iff_exists.mp (buildFeature_of_provenLeaf cs hproven)
            simp only [hfeature, Option.bind_some, Option.map_some]

/-- An error that is neither a resolution error nor a cancellation. -/
def escapes (e : ResolveError) : Prop := ∃ kind, e = .other kind

@[simp] theorem not_escapes_resolution (message : String) : ¬ escapes (.resolution message) := by
  rintro ⟨kind, h⟩
  cases h

@[simp] theorem escapes_other (kind : String) : escapes (.other kind) := ⟨kind, rfl⟩

@[simp] theorem require_answered (check : Bool) (message : String) :
    ¬ FailsWith escapes (require check message) := by
  unfold require
  split <;> simp

theorem failsWith_require {α : Type} {check : Bool} {message : String}
    {f : Unit → Resolution α} :
    FailsWith escapes (require check message >>= f) ↔ check = true ∧ FailsWith escapes (f ()) := by
  rw [failsWith_bind]
  constructor
  · rintro (h | ⟨u, hu, h⟩)
    · exact absurd h (require_answered _ _)
    · exact ⟨require_eq_ok.mp hu, h⟩
  · rintro ⟨hcheck, h⟩
    exact .inr ⟨(), require_eq_ok.mpr hcheck, h⟩

/-- A step that only ever raises errors that are answered. -/
theorem failsWith_after {α β : Type} {x : Resolution α} {f : α → Resolution β}
    (h : ¬ FailsWith escapes x) :
    FailsWith escapes (x >>= f) ↔ ∃ a, x = .ok a ∧ FailsWith escapes (f a) := by
  rw [failsWith_bind]
  exact or_iff_right h

/-- What resolution uses and does not define: the resolver of the records and the
decoder of JSON bodies. -/
structure Service where
  fetch : Role → Reference → Option Locator → Resolution (Option UpstreamRecord)
  loads : Str → Option JsonValue

/-- The environment the service resolves in. -/
def Service.environment (sv : Service) : Environment where
  fetch := sv.fetch
  trim := contractStrip
  feature := deriveFeature cs sv.loads

/-- Whether a set can be asked for a value. -/
def isHashable : JsonValue → Bool
  | .array _ => false
  | .object _ => false
  | _ => true

/-- Whether a record names the capability of its role, or none. -/
def namesCapability (role : Role) (record : UpstreamRecord) : Bool :=
  (get record.result "capability".toList).isNull ||
    (get record.result "capability".toList).asText == some role.capability

/-- A value is looked for in a set of texts unless it cannot be hashed. -/
theorem inTextSet_escapes {texts : List Str} {value : JsonValue} :
    FailsWith escapes (inTextSet texts value) ↔ isHashable value = false := by
  cases value <;> simp [inTextSet, isHashable]

/-- The check of an identity escapes on a contract that cannot be hashed. -/
theorem validateRecordIdentity_escapes {role : Role} {record : UpstreamRecord} :
    FailsWith escapes (validateRecordIdentity role record) ↔
      namesCapability role record = true ∧
        isHashable (get record.result "contract_id".toList) = false := by
  rw [validateRecordIdentity, failsWith_require]
  refine and_congr_right fun _ => ?_
  dsimp only
  split
  · rename_i hnull
    constructor
    · intro h
      exact absurd h (failsWith_pure _)
    · intro h
      cases hvalue : get record.result "contract_id".toList <;> rw [hvalue] at hnull h <;>
        cases h <;> cases hnull
  · rw [failsWith_bind, inTextSet_escapes]
    refine or_iff_left ?_
    rintro ⟨accepted, -, h⟩
    exact require_answered _ _ h

/-- What the identifier and the state of a record have to be. -/
def ResolveRequest.reference (r : ResolveRequest) : Role → Reference
  | .defenseGeneration => r.references.defenseGeneration
  | .mitigationCheck => r.references.mitigationCheck
  | .bypassValidation => r.references.bypassValidation

/-- The terminal state each result must have ended in. -/
def ResolveRequest.requiredState (r : ResolveRequest) : Role → Str
  | .defenseGeneration => "candidate-produced".toList
  | .mitigationCheck => "blocked".toList
  | .bypassValidation => r.routingMetadata.bypassValidationTerminalState.text

/-- A fetched record that passes every check made before its contract is looked at. -/
structure Identified (sv : Service) (r : ResolveRequest) (role : Role)
    (record : UpstreamRecord) : Prop where
  located : (r.immutableLocators.isNone || (locatorOf r.immutableLocators role).isSome) = true
  fetched : sv.fetch role (r.reference role) (locatorOf r.immutableLocators role) =
    .ok (some record)
  key : record.resultId = (r.reference role).key
  state : record.terminalState = r.requiredState role
  capability : namesCapability role record = true

/-- The record of a role, fetched and checked. -/
def Service.record (sv : Service) (r : ResolveRequest) (role : Role) :
    Resolution UpstreamRecord :=
  fetchRecord (sv.environment cs) r.immutableLocators role (r.reference role) (r.requiredState role)

theorem record_escapes {sv : Service} {r : ResolveRequest} {role : Role} :
    FailsWith escapes (sv.record cs r role) ↔ ∃ record, Identified sv r role record ∧
      isHashable (get record.result "contract_id".toList) = false := by
  have hfetch : (sv.environment cs).fetch = sv.fetch := rfl
  rw [Service.record, fetchRecord, failsWith_require, hfetch]
  cases hfetched : sv.fetch role (r.reference role) (locatorOf r.immutableLocators role) with
  | error e =>
      constructor
      · rintro ⟨-, h⟩
        cases e <;> exact absurd h (by simp [fetchFailure, escapes])
      · rintro ⟨record, hrecord, -⟩
        rw [hrecord.fetched] at hfetched
        cases hfetched
  | ok found =>
      cases found with
      | none =>
          constructor
          · rintro ⟨-, h⟩
            exact absurd h (by simp)
          · rintro ⟨record, hrecord, -⟩
            rw [hrecord.fetched] at hfetched
            cases hfetched
      | some record =>
          dsimp only
          rw [failsWith_bind, checkRecord, failsWith_require, failsWith_require,
            validateRecordIdentity_escapes]
          constructor
          · rintro ⟨hlocated, ⟨hkey, hstate, hcapability, hcontract⟩ | ⟨_, -, h⟩⟩
            · exact ⟨record, ⟨hlocated, hfetched, by simpa using hkey, by simpa using hstate,
                hcapability⟩, hcontract⟩
            · exact absurd h (failsWith_pure _)
          · rintro ⟨record', hrecord, hcontract⟩
            have hsame := hrecord.fetched.symm.trans hfetched
            cases hsame
            exact ⟨hrecord.located, .inl ⟨by simpa using hrecord.key, by simpa using hrecord.state,
              hrecord.capability, hcontract⟩⟩

/-- The roles whose records are fetched before. -/
def Role.earlier : Role → List Role
  | .defenseGeneration => []
  | .mitigationCheck => [.defenseGeneration]
  | .bypassValidation => [.defenseGeneration, .mitigationCheck]

/-- The records are fetched in order, so the first bad contract decides. -/
theorem fetchRecords_escapes {sv : Service} {r : ResolveRequest} :
    FailsWith escapes (fetchRecords (sv.environment cs) r.immutableLocators r.references
        r.routingMetadata.bypassValidationTerminalState) ↔
      ∃ role, (∀ before ∈ role.earlier, ∃ record, sv.record cs r before = .ok record) ∧
        FailsWith escapes (sv.record cs r role) := by
  have hfetch : fetchRecords (sv.environment cs) r.immutableLocators r.references
      r.routingMetadata.bypassValidationTerminalState = (do
        let defense ← sv.record cs r .defenseGeneration
        let mitigation ← sv.record cs r .mitigationCheck
        let bypass ← sv.record cs r .bypassValidation
        pure ⟨defense, mitigation, bypass⟩) := rfl
  rw [hfetch, failsWith_bind]
  constructor
  · rintro (h | ⟨defense, hdefense, h⟩)
    · exact ⟨.defenseGeneration, fun _ hnone => absurd hnone List.not_mem_nil, h⟩
    · rcases failsWith_bind.mp h with h | ⟨mitigation, hmitigation, h⟩
      · refine ⟨.mitigationCheck, ?_, h⟩
        intro before hbefore
        rw [List.mem_singleton.mp hbefore]
        exact ⟨defense, hdefense⟩
      · rcases failsWith_bind.mp h with h | ⟨bypass, -, h⟩
        · refine ⟨.bypassValidation, ?_, h⟩
          intro before hbefore
          simp only [Role.earlier, List.mem_cons, List.not_mem_nil, or_false] at hbefore
          rcases hbefore with rfl | rfl
          · exact ⟨defense, hdefense⟩
          · exact ⟨mitigation, hmitigation⟩
        · exact absurd h (failsWith_pure _)
  · rintro ⟨role, hbefore, h⟩
    cases role with
    | defenseGeneration => exact .inl h
    | mitigationCheck =>
        obtain ⟨defense, hdefense⟩ := hbefore .defenseGeneration (by simp [Role.earlier])
        exact .inr ⟨defense, hdefense, failsWith_bind.mpr (.inl h)⟩
    | bypassValidation =>
        obtain ⟨defense, hdefense⟩ := hbefore .defenseGeneration (by simp [Role.earlier])
        obtain ⟨mitigation, hmitigation⟩ := hbefore .mitigationCheck (by simp [Role.earlier])
        exact .inr ⟨defense, hdefense, failsWith_bind.mpr
          (.inr ⟨mitigation, hmitigation, failsWith_bind.mpr (.inl h)⟩)⟩

/-- A fetched record has the key of its reference. -/
theorem resultId_of_record {sv : Service} {r : ResolveRequest} {role : Role}
    {record : UpstreamRecord} (h : sv.record cs r role = .ok record) :
    record.resultId = (r.reference role).key := by
  simp only [Service.record, fetchRecord, bind_eq_ok, require_eq_ok] at h
  obtain ⟨-, -, h⟩ := h
  split at h
  · cases h
  · cases h
  · simp only [checkRecord, bind_eq_ok, require_eq_ok, pure_eq_ok] at h
    obtain ⟨-, ⟨-, hkey, -⟩, rfl⟩ := h
    simpa using hkey

/-- A fetched mitigation record has the id it was asked for under. -/
theorem resultId_of_fetched {sv : Service} {r : ResolveRequest} {records : Records}
    (h : fetchRecords (sv.environment cs) r.immutableLocators r.references
      r.routingMetadata.bypassValidationTerminalState = .ok records) :
    records.mitigation.resultId = r.references.mitigationCheck.key ∧
      records.bypass.resultId = r.references.bypassValidation.key := by
  simp only [fetchRecords, bind_eq_ok, pure_eq_ok] at h
  obtain ⟨_, -, mitigation, hmitigation, bypass, hbypass, rfl⟩ := h
  exact ⟨@resultId_of_record t cs sv r .mitigationCheck mitigation hmitigation,
    @resultId_of_record t cs sv r .bypassValidation bypass hbypass⟩

theorem checkLineage_answered (correlationId : Str) (subject : Option Str) (hasSubject : Bool)
    (role : Role) (record : UpstreamRecord) :
    ¬ FailsWith escapes (checkLineage correlationId subject hasSubject role record) := by
  simp [checkLineage, failsWith_require]

theorem requiredValues_answered (key : String) (records : Records) :
    ¬ FailsWith escapes (requiredValues key records) := by
  have hone : ∀ role record, ¬ FailsWith escapes (requiredOneValue key role record) := by
    intro role record
    unfold requiredOneValue
    split <;> simp
  refine not_failsWith_bind (hone _ _) fun _ => ?_
  refine not_failsWith_bind (hone _ _) fun _ => ?_
  exact not_failsWith_bind (hone _ _) fun _ => failsWith_pure _

theorem checkSubject_answered (vulnerabilityId candidateId : Str) (role : Role)
    (record : UpstreamRecord) :
    ¬ FailsWith escapes (checkSubject vulnerabilityId candidateId role record) :=
  not_failsWith_bind (require_answered _ _) fun _ => require_answered _ _

theorem lineageOf_answered (r : ResolveRequest) (records : Records) :
    ¬ FailsWith escapes (lineageOf r records) := by
  unfold lineageOf
  split
  · refine not_failsWith_bind (checkSubject_answered _ _ _ _) fun _ => ?_
    refine not_failsWith_bind (checkSubject_answered _ _ _ _) fun _ => ?_
    refine not_failsWith_bind (checkSubject_answered _ _ _ _) fun _ => ?_
    refine not_failsWith_bind (require_answered _ _) fun _ => ?_
    exact not_failsWith_bind (require_answered _ _) fun _ => failsWith_pure _
  · refine not_failsWith_bind (requiredValues_answered _ _) fun _ => ?_
    refine not_failsWith_bind (requiredValues_answered _ _) fun _ => ?_
    refine not_failsWith_bind (require_answered _ _) fun _ => ?_
    exact not_failsWith_bind (require_answered _ _) fun _ => failsWith_pure _

/-- What the records have to say for a pattern. -/
structure PatternTexts where
  discriminator : Str
  controlClass : Str
  artifact : Str

/-- The texts a Defense Generation record gives the pattern. -/
def readTexts (defense : UpstreamRecord) : Resolution PatternTexts := do
  let primary ← requiredMapping (get defense.result "primary_candidate".toList)
    "Defense Generation primary_candidate is missing"
  let discriminator ← requiredString
    ((get primary "discriminator".toList).orElse (get defense.request "discriminator".toList))
    "Defense Generation discriminator context is missing"
  let controlClass ← requiredString
    ((get primary "selected_control_class".toList).orElse
      (get defense.request "selected_control_class".toList))
    "Defense Generation selected control class is missing"
  let artifact ← requiredString (get primary "artifact_content".toList)
    "Defense Generation candidate artifact content is missing"
  pure ⟨discriminator, controlClass, artifact⟩

theorem readTexts_answered (defense : UpstreamRecord) :
    ¬ FailsWith escapes (readTexts defense) := by
  have hmapping : ∀ value message, ¬ FailsWith escapes (requiredMapping value message) := by
    intro value message
    unfold requiredMapping
    split <;> simp
  have hstring : ∀ value message, ¬ FailsWith escapes (requiredString value message) := by
    intro value message
    unfold requiredString
    split <;> simp
  refine not_failsWith_bind (hmapping _ _) fun _ => ?_
  refine not_failsWith_bind (hstring _ _) fun _ => ?_
  refine not_failsWith_bind (hstring _ _) fun _ => ?_
  exact not_failsWith_bind (hstring _ _) fun _ => failsWith_pure _

theorem readCounterexample_answered (raw : JsonValue) :
    ¬ FailsWith escapes (readCounterexample raw) := by
  unfold readCounterexample
  split
  · simp
  · split <;> simp

/-- What the contract of the pattern asks of the keys of its two proof records. -/
structure ProofKeys (mitigation bypass : Str) : Prop where
  distinct : contractStrip mitigation ≠ contractStrip bypass
  namesCheck : ∃ key ∈ [mitigation, bypass],
    "mitigation-check-result:".toList.isPrefixOf (contractStrip key) = true
  namesValidation : ∃ key ∈ [mitigation, bypass],
    "bypass-validation-result:".toList.isPrefixOf (contractStrip key) = true

/-- The check of the pattern escapes unless its two ids are proof keys. -/
theorem validatePattern_escapes {pattern : ProvenPattern} {mitigation bypass : Str}
    (hids : pattern.proofRecordIds = [mitigation, bypass]) :
    FailsWith escapes (validatePattern contractStrip pattern) ↔ ¬ ProofKeys mitigation bypass := by
  have hunique : [contractStrip mitigation, contractStrip bypass] =
      unique [contractStrip mitigation, contractStrip bypass] ↔
        contractStrip mitigation ≠ contractStrip bypass := by
    constructor
    · intro h heq
      have hnodup := nodup_unique [contractStrip mitigation, contractStrip bypass]
      rw [← h, heq] at hnodup
      simp at hnodup
    · intro hne
      simp [unique, List.eraseDups_cons, hne.symm]
  have hkeys : ProofKeys mitigation bypass ↔
      ¬ ((pattern.proofRecordIds.map contractStrip).length < 2 ∨
        pattern.proofRecordIds.map contractStrip ≠
          unique (pattern.proofRecordIds.map contractStrip) ∨
        (pattern.proofRecordIds.map contractStrip).any
          ("mitigation-check-result:".toList.isPrefixOf ·) = false ∨
        (pattern.proofRecordIds.map contractStrip).any
          ("bypass-validation-result:".toList.isPrefixOf ·) = false) := by
    rw [hids]
    simp only [List.map_cons, List.map_nil, not_or, ne_eq, not_not, hunique, Bool.not_eq_false,
      List.any_eq_true]
    constructor
    · intro h
      refine ⟨by simp, h.distinct, ?_, ?_⟩
      · obtain ⟨key, hkey, hprefix⟩ := h.namesCheck
        exact ⟨contractStrip key, List.mem_map_of_mem hkey, hprefix⟩
      · obtain ⟨key, hkey, hprefix⟩ := h.namesValidation
        exact ⟨contractStrip key, List.mem_map_of_mem hkey, hprefix⟩
    · rintro ⟨-, hdistinct, ⟨m, hm, hmitigation⟩, ⟨b, hb, hbypass⟩⟩
      obtain ⟨key, hkey, rfl⟩ := List.mem_map.mp
        (show m ∈ [mitigation, bypass].map contractStrip from hm)
      obtain ⟨key', hkey', rfl⟩ := List.mem_map.mp
        (show b ∈ [mitigation, bypass].map contractStrip from hb)
      exact ⟨hdistinct, ⟨key, hkey, hmitigation⟩, ⟨key', hkey', hbypass⟩⟩
  rw [hkeys, not_not]
  simp only [validatePattern]
  split
  · rename_i hbad
    exact iff_of_true ((failsWith_error _).mpr (escapes_other _)) hbad
  · rename_i hgood
    exact iff_of_false (failsWith_ok _) hgood

/-- The pattern that is put to its contract. -/
def patternOf (r : ResolveRequest) (records : Records) (vulnerabilityId candidateId : Str)
    (texts : PatternTexts) (feature : Option JsonBodyFieldFeature) : ProvenPattern where
  provenPatternId :=
    (if r.routingMetadata.bypassValidationTerminalState = .noBypassFound then
      "proven-pattern:".toList else "loop-exhausted-pattern:".toList) ++ candidateId
  vulnerabilityId := vulnerabilityId
  selectedControlClass := texts.controlClass
  discriminatorId := "discriminator:".toList ++ candidateId
  discriminatorDescription := texts.discriminator
  patternSummary := texts.artifact
  proofRecordIds := [records.mitigation.resultId, records.bypass.resultId]
  jsonBodyFieldFeature := feature

/-- Assembly raises what its pattern's contract raises. -/
theorem assemble_escapes {sv : Service} {r : ResolveRequest} {records : Records}
    {vulnerabilityId candidateId : Str} :
    FailsWith escapes (assemble (sv.environment cs) r records vulnerabilityId candidateId) ↔
      (∃ texts, readTexts records.defense = .ok texts) ∧
        ¬ ProofKeys records.mitigation.resultId records.bypass.resultId := by
  have hassemble : ∃ finish : ProvenPattern → Resolution ResolvedProofLoop,
      (∀ pattern, ¬ FailsWith escapes (finish pattern)) ∧
      assemble (sv.environment cs) r records vulnerabilityId candidateId = (do
        let texts ← readTexts records.defense
        let feature ← deriveFeature cs sv.loads
          (mitigationRequestContext records.mitigation.result) texts.discriminator texts.artifact
        let pattern ← validatePattern contractStrip
          (patternOf r records vulnerabilityId candidateId texts feature)
        finish pattern) := by
    refine ⟨fun pattern => do
      let counterexample ←
        readCounterexample (get records.bypass.result "bypass_counterexample".toList)
      pure {
        pattern := pattern
        references := r.references
        qualification :=
          { route := if r.routingMetadata.bypassValidationTerminalState = .noBypassFound then
              .validated else .pocExhaustion
            bypassCleared := r.routingMetadata.bypassValidationTerminalState = .noBypassFound
            loopExhausted := r.routingMetadata.loopExhausted
            completedIterations := r.routingMetadata.completedIterations
            maxIterations := r.routingMetadata.maxIterations
            bypassValidationTerminalState := r.routingMetadata.bypassValidationTerminalState
            bypassValidationResultRef := r.routingMetadata.bypassValidationResultRef }
        targetTechnology := preferredString [records.defense.result, records.defense.request]
          "target_technology"
        targetPolicyContextId := preferredString
          [records.defense.result, records.defense.request] "target_policy_context_id"
        bypassCounterexample := counterexample
        bypassEvidenceRefs := evidenceRefs counterexample
          (get records.bypass.result "feedback".toList)
        translationRequirements := translationRequirements
          (get records.bypass.result "bypass_counterexample".toList)
          (get records.bypass.result "feedback".toList)
        requestContext := mitigationRequestContext records.mitigation.result }, ?_, ?_⟩
    · exact fun pattern => not_failsWith_bind (readCounterexample_answered _) fun _ =>
        failsWith_pure _
    · simp only [assemble, readTexts, bind_assoc, pure_bind]
      rfl
  obtain ⟨finish, hfinish, heq⟩ := hassemble
  rw [heq, failsWith_after (readTexts_answered _)]
  simp only [deriveFeature_eq, ok_bind]
  have hvalidate : ∀ texts feature, FailsWith escapes (validatePattern contractStrip
      (patternOf r records vulnerabilityId candidateId texts feature) >>= finish) ↔
        ¬ ProofKeys records.mitigation.resultId records.bypass.resultId := by
    intro texts feature
    rw [failsWith_bind, validatePattern_escapes rfl]
    refine or_iff_left ?_
    rintro ⟨pattern, -, h⟩
    exact hfinish pattern h
  simp only [hvalidate, exists_and_right]

/-- The checks of the call itself. -/
def ResolveRequest.isBound (r : ResolveRequest) : Bool :=
  given r.correlationId && (given r.subjectRecordRevisionId || r.hasSubject)

/-- The resolver gets as far as the pattern. -/
structure ReachesPattern (sv : Service) (r : ResolveRequest) (records : Records) : Prop where
  fetched : fetchRecords (sv.environment cs) r.immutableLocators r.references
    r.routingMetadata.bypassValidationTerminalState = .ok records
  lineage : ∀ role, checkLineage (r.correlationId.getD []) r.subjectRecordRevisionId
    r.hasSubject role (records.of role) = .ok ()
  ids : ∃ ids, lineageOf r records = .ok ids
  texts : ∃ texts, readTexts records.defense = .ok texts

/-- No contract of a record that is looked at is a list or an object. -/
def ContractsHashable (sv : Service) (r : ResolveRequest) : Prop :=
  ∀ role record, (∀ before ∈ role.earlier, ∃ fetched, sv.record cs r before = .ok fetched) →
    Identified sv r role record →
      isHashable (get record.result "contract_id".toList) = true

/-- After the records are fetched, a resolution raises what its pattern raises. -/
theorem afterFetch_escapes {sv : Service} {r : ResolveRequest} {records : Records}
    (hfetched : fetchRecords (sv.environment cs) r.immutableLocators r.references
      r.routingMetadata.bypassValidationTerminalState = .ok records) :
    FailsWith escapes (do
      checkLineage (r.correlationId.getD []) r.subjectRecordRevisionId r.hasSubject
        .defenseGeneration records.defense
      checkLineage (r.correlationId.getD []) r.subjectRecordRevisionId r.hasSubject
        .mitigationCheck records.mitigation
      checkLineage (r.correlationId.getD []) r.subjectRecordRevisionId r.hasSubject
        .bypassValidation records.bypass
      let (vulnerabilityId, candidateId) ← lineageOf r records
      assemble (sv.environment cs) r records vulnerabilityId candidateId) ↔
      ReachesPattern cs sv r records ∧
        ¬ ProofKeys r.references.mitigationCheck.key r.references.bypassValidation.key := by
  obtain ⟨hmitigation, hbypass⟩ := resultId_of_fetched cs hfetched
  rw [failsWith_after (checkLineage_answered _ _ _ _ _)]
  simp only [failsWith_after (checkLineage_answered _ _ _ _ _),
    failsWith_after (lineageOf_answered _ _), assemble_escapes, hmitigation, hbypass]
  constructor
  · rintro ⟨⟨⟩, hdefense, ⟨⟩, hcheck, ⟨⟩, hvalidation, ids, hids, htexts, hkeys⟩
    refine ⟨⟨hfetched, ?_, ⟨ids, hids⟩, htexts⟩, hkeys⟩
    intro role
    cases role with
    | defenseGeneration => exact hdefense
    | mitigationCheck => exact hcheck
    | bypassValidation => exact hvalidation
  · rintro ⟨hreaches, hkeys⟩
    obtain ⟨ids, hids⟩ := hreaches.ids
    exact ⟨(), hreaches.lineage .defenseGeneration, (), hreaches.lineage .mitigationCheck, (),
      hreaches.lineage .bypassValidation, ids, hids, hreaches.texts, hkeys⟩

/-- **What escapes.**  A resolution raises something other than a resolution error
or a cancellation exactly when it looks at the contract of a record that is a list
or an object, or gets as far as the pattern with proof records whose keys do not
name a Mitigation Check and a Bypass Validation result. -/
theorem resolve_escapes_iff (sv : Service) (r : ResolveRequest) :
    (∀ kind, resolveProofLoop (sv.environment cs) r ≠ .error (.other kind)) ↔
      (r.isBound = true → ContractsHashable cs sv r ∧
        ∀ records, ReachesPattern cs sv r records →
          ProofKeys r.references.mitigationCheck.key r.references.bypassValidation.key) := by
  have hfails : (∀ kind, resolveProofLoop (sv.environment cs) r ≠ .error (.other kind)) ↔
      ¬ FailsWith escapes (resolveProofLoop (sv.environment cs) r) := by
    constructor
    · rintro h ⟨e, ⟨kind, rfl⟩, heq⟩
      exact h kind heq
    · intro h kind heq
      exact h ⟨_, ⟨kind, rfl⟩, heq⟩
  have hcontracts : FailsWith escapes (fetchRecords (sv.environment cs) r.immutableLocators
      r.references r.routingMetadata.bypassValidationTerminalState) ↔
        ¬ ContractsHashable cs sv r := by
    rw [fetchRecords_escapes]
    simp only [record_escapes, ContractsHashable, not_forall, Bool.not_eq_true, exists_prop]
    constructor
    · rintro ⟨role, hbefore, record, hrecord, hcontract⟩
      exact ⟨role, record, hbefore, hrecord, hcontract⟩
    · rintro ⟨role, record, hbefore, hrecord, hcontract⟩
      exact ⟨role, hbefore, record, hrecord, hcontract⟩
  rw [hfails, resolveProofLoop, failsWith_require, failsWith_require, failsWith_bind, hcontracts,
    ResolveRequest.isBound, Bool.and_eq_true]
  constructor
  · intro h hbound
    have hnot := fun hfail => h ⟨hbound.1, hbound.2, hfail⟩
    refine ⟨Classical.byContradiction fun hbad => hnot (.inl hbad), fun records hreaches => ?_⟩
    refine Classical.byContradiction fun hkeys => hnot (.inr ⟨records, hreaches.fetched, ?_⟩)
    exact (afterFetch_escapes cs hreaches.fetched).mpr ⟨hreaches, hkeys⟩
  · rintro h ⟨hcorrelated, hbound, hfail⟩
    obtain ⟨hhashable, hkeys⟩ := h ⟨hcorrelated, hbound⟩
    rcases hfail with hbad | ⟨records, hfetched, hfail⟩
    · exact hbad hhashable
    · obtain ⟨hreaches, hnone⟩ := (afterFetch_escapes cs hfetched).mp hfail
      exact hnone (hkeys records hreaches)

end ProofLoop
