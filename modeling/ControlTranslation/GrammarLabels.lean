import Mathlib.Data.List.Nodup
import ControlTranslation.CoverageGraph
import ControlTranslation.TranslationPlan

/-!
# Grammar labels

The grammar of a component is a row of segments, literals and slots, and each
slot ranges over a domain.  A bypass campaign has to try every payload the
grammar renders: the slots are filled in every combination, the combinations are
rendered in turn, and each rendering whose canonical form is new is given a
label, the sample's own or the ordinal of the combination.  The labels are then
combined with the bypass chains of the carrier.
-/

namespace SharedContracts

open PyText JsonValue

/-! ## First occurrences

A list of pairs is read in order, and the pairs whose first half is new are kept,
each with its position. -/

section Firsts

variable {α β : Type} [DecidableEq α]

/-- The pairs with a new first half, from a position on. -/
def firstsFrom : Nat → List α → List (α × β) → List (Nat × α × β)
  | _, _, [] => []
  | position, seen, (a, b) :: rest =>
      if seen.contains a then firstsFrom (position + 1) seen rest
      else (position, a, b) :: firstsFrom (position + 1) (a :: seen) rest

/-- A pair is kept at the first position of its first half. -/
theorem mem_firstsFrom {pairs : List (α × β)} :
    ∀ {start : Nat} {seen : List α} {position : Nat} {a : α} {b : β},
      (position, a, b) ∈ firstsFrom start seen pairs ↔
        a ∉ seen ∧ ∃ offset, position = start + offset ∧ pairs[offset]? = some (a, b) ∧
          ∀ earlier < offset, ∀ b', pairs[earlier]? ≠ some (a, b') := by
  induction pairs with
  | nil => simp [firstsFrom]
  | cons pair rest ih =>
      intro start seen position a b
      obtain ⟨first, value⟩ := pair
      -- A later position of the whole list is a position of the rest, one less.
      have hlater : ∀ offset, ((first, value) :: rest)[offset + 1]? = rest[offset]? :=
        fun offset => List.getElem?_cons_succ
      have hshift : ∀ offset, start + 1 + offset = start + (offset + 1) := by omega
      rw [firstsFrom]
      by_cases hseen : first ∈ seen
      · rw [if_pos (by simpa using hseen), ih]
        constructor
        · rintro ⟨hnew, offset, rfl, hat, hfirst⟩
          refine ⟨hnew, offset + 1, hshift offset, hat, ?_⟩
          rintro (_ | earlier) hlt b' heq
          · exact hnew ((Prod.mk.inj (Option.some.inj heq)).1 ▸ hseen)
          · exact hfirst earlier (by omega) b' heq
        · rintro ⟨hnew, (_ | offset), rfl, hat, hfirst⟩
          · exact absurd ((Prod.mk.inj (Option.some.inj hat)).1 ▸ hseen) hnew
          · exact ⟨hnew, offset, (hshift offset).symm, hat, fun earlier hlt b' =>
              hfirst (earlier + 1) (by omega) b'⟩
      · rw [if_neg (by simpa using hseen), List.mem_cons, ih]
        constructor
        · rintro (heq | ⟨hnew, offset, rfl, hat, hfirst⟩)
          · obtain ⟨rfl, rfl, rfl⟩ := by simpa using heq
            exact ⟨hseen, 0, rfl, rfl, fun earlier hlt => absurd hlt (Nat.not_lt_zero _)⟩
          · rw [List.mem_cons, not_or] at hnew
            refine ⟨hnew.2, offset + 1, hshift offset, hat, ?_⟩
            rintro (_ | earlier) hlt b' heq
            · exact hnew.1 (Prod.mk.inj (Option.some.inj heq)).1.symm
            · exact hfirst earlier (by omega) b' heq
        · rintro ⟨hnew, (_ | offset), rfl, hat, hfirst⟩
          · obtain ⟨rfl, rfl⟩ := Prod.mk.inj (Option.some.inj hat)
            exact .inl rfl
          · refine .inr ⟨?_, offset, (hshift offset).symm, hat, fun earlier hlt b' =>
              hfirst (earlier + 1) (by omega) b'⟩
            rw [List.mem_cons, not_or]
            refine ⟨?_, hnew⟩
            rintro rfl
            exact hfirst 0 (Nat.succ_pos _) value rfl

/-- What is kept is kept at growing positions. -/
theorem firstsFrom_increasing (pairs : List (α × β)) : ∀ (start : Nat) (seen : List α),
    (firstsFrom start seen pairs).Pairwise (fun x y => x.1 < y.1) := by
  induction pairs with
  | nil => exact fun _ _ => .nil
  | cons pair rest ih =>
      intro start seen
      obtain ⟨first, value⟩ := pair
      rw [firstsFrom]
      split
      · exact ih _ _
      · refine List.pairwise_cons.mpr ⟨?_, ih _ _⟩
        rintro ⟨position, a, b⟩ hmem
        obtain ⟨-, offset, rfl, -⟩ := mem_firstsFrom.mp hmem
        exact Nat.lt_of_lt_of_le (Nat.lt_succ_self start) (Nat.le_add_right _ _)

/-- The first halves that are kept are distinct. -/
theorem firsts_distinct (pairs : List (α × β)) : ∀ (start : Nat) (seen : List α),
    ((firstsFrom start seen pairs).map (·.2.1)).Nodup := by
  induction pairs with
  | nil => exact fun _ _ => List.nodup_nil
  | cons pair rest ih =>
      intro start seen
      obtain ⟨first, value⟩ := pair
      rw [firstsFrom]
      split
      · exact ih _ _
      · refine List.nodup_cons.mpr ⟨?_, ih _ _⟩
        intro hmem
        obtain ⟨⟨position, a, b⟩, hkept, rfl⟩ := List.mem_map.mp hmem
        exact (mem_firstsFrom.mp hkept).1 List.mem_cons_self

/-- A first half that is new is kept once. -/
theorem mem_firsts (pairs : List (α × β)) (a : α) : ∀ (start : Nat) (seen : List α),
    a ∈ (firstsFrom start seen pairs).map (·.2.1) ↔ a ∈ pairs.map (·.1) ∧ a ∉ seen := by
  induction pairs with
  | nil => simp [firstsFrom]
  | cons pair rest ih =>
      intro start seen
      obtain ⟨first, value⟩ := pair
      rw [firstsFrom, List.map_cons, List.mem_cons]
      by_cases hseen : first ∈ seen
      · rw [if_pos (by simpa using hseen), ih]
        constructor
        · exact fun ⟨hmem, hnew⟩ => ⟨.inr hmem, hnew⟩
        · rintro ⟨rfl | hmem, hnew⟩
          · exact absurd hseen hnew
          · exact ⟨hmem, hnew⟩
      · rw [if_neg (by simpa using hseen), List.map_cons, List.mem_cons, ih, List.mem_cons]
        constructor
        · rintro (rfl | ⟨hmem, hnew⟩)
          · exact ⟨.inl rfl, hseen⟩
          · exact ⟨.inr hmem, fun h => hnew (.inr h)⟩
        · rintro ⟨rfl | hmem, hnew⟩
          · exact .inl rfl
          · by_cases heq : a = first
            · exact .inl heq
            · exact .inr ⟨hmem, fun h => h.elim heq hnew⟩

/-- As many pairs are kept as there are first halves. -/
theorem length_firsts (start : Nat) (pairs : List (α × β)) :
    (firstsFrom start [] pairs).length = (unique (pairs.map (·.1))).length := by
  have hlength : ((firstsFrom start [] pairs).map (·.2.1)).length =
      (firstsFrom start [] pairs).length := List.length_map _
  rw [← hlength]
  apply List.Perm.length_eq
  rw [List.perm_ext_iff_of_nodup (firsts_distinct pairs start []) (nodup_unique _)]
  intro a
  rw [mem_firsts, mem_unique]
  simp

end Firsts

/-- What is read of a grammar: its segments, and its slots under their identities. -/
structure Grammar where
  segments : List JsonValue
  slots : Table Members

/-- The grammar of a component, if it has slots to fill. -/
def componentGrammar (component : Members) : Checked (Option Grammar) :=
  match field component "grammar" with
  | .object grammar =>
      match (field grammar "segments").asArray, field grammar "slots" with
      | some segments, .array (slot :: others) => do
          return some
            ⟨segments, ← index (.array (slot :: others)) "slot_id" "grammar-slots-invalid"⟩
      | _, _ => .ok none
  | _ => .ok none

/-- The values a slot ranges over. -/
def slotValues (slot : Members) : Checked (List JsonValue) :=
  match field slot "allowed_domain" with
  | .null => .ok [field slot "sample"]
  | .object domain =>
      if isText (field domain "kind") "enum" then
        match field domain "values" with
        | .array (value :: others) => .ok (value :: others)
        | _ => refuse "grammar-enum-invalid" "grammar enum domain is invalid".toList
      else .ok [field slot "sample"]
  | _ => .error .crash

/-- `domains`. -/
def slotDomains (slots : Table Members) : Checked (Table (List JsonValue)) :=
  slots.mapM fun slot => do return (slot.1, ← slotValues slot.2)

/-- `itertools.product` of the domains, each value under its slot. -/
def combinations : Table (List JsonValue) → List (Table JsonValue)
  | [] => [[]]
  | (id, values) :: rest =>
      values.flatMap fun value => (combinations rest).map ((id, value) :: ·)

/-- The value of a literal segment. -/
def literalOf : JsonValue → Option JsonValue
  | .object segment =>
      if isText (field segment "kind") "literal" then some (fieldOr segment "value" (.text []))
      else none
  | _ => none

/-- The identity of the slot a segment refers to. -/
def slotIdOf : JsonValue → JsonValue
  | .object segment =>
      match field segment "slot_ref" with
      | .object ref => field ref "id"
      | _ => .null
  | _ => .null

/-- What a slot is filled with, if there is such a slot. -/
def slotValue (grammar : Grammar) (overrides : Table JsonValue) (id : JsonValue) :
    Checked (Option JsonValue) := do
  match (← hashed id).asText with
  | some id =>
      return (lookup grammar.slots id).map fun slot =>
        (lookup overrides id).getD (field slot "sample")
  | none => return none

/-- The value of a grammar that is one slot. -/
def wholeSlot (grammar : Grammar) (overrides : Table JsonValue) : Checked (Option JsonValue) :=
  match grammar.segments with
  | [.object segment] =>
      if isText (field segment "kind") "slot" then
        match field segment "slot_ref" with
        | .object ref => slotValue grammar overrides (field ref "id")
        | _ => .ok none
      else .ok none
  | _ => .ok none

/-- The text of a segment among others. -/
def segmentText (s : Services) (grammar : Grammar) (overrides : Table JsonValue)
    (segment : JsonValue) : Checked Str :=
  match literalOf segment with
  | some value => .ok (format s value)
  | none => do
      match ← slotValue grammar overrides (slotIdOf segment) with
      | some value => return format s value
      | none => refuse "grammar-slot-ref-invalid" "grammar slot reference differs".toList

/-- `render`. -/
def render (s : Services) (grammar : Grammar) (overrides : Table JsonValue) :
    Checked JsonValue := do
  match ← wholeSlot grammar overrides with
  | some value => return value
  | none =>
      return .text (join [] (← grammar.segments.mapM (segmentText s grammar overrides)))

/-- The canonical form of a rendering. -/
def renderedKey (s : Services) (grammar : Grammar) (overrides : Table JsonValue) :
    Checked Str := do
  canonicalText s (← render s grammar overrides)

/-- Whether every slot is filled with its sample. -/
def isSample (s : Services) (grammar : Grammar) (overrides : Table JsonValue) : Bool :=
  overrides.all fun entry =>
    (lookup grammar.slots entry.1).any fun slot => equal s entry.2 (field slot "sample")

/-- The label of a combination. -/
def combinationLabel (ordinal : Nat) (sample : Bool) : Str :=
  if sample then "grammar:sample".toList
  else "grammar:product:".toList ++ AkamaiAdapter.natText ordinal

/-- The labels of the combinations from an ordinal on. -/
def labelsFrom (s : Services) (grammar : Grammar) :
    Nat → List Str → List (Table JsonValue) → Checked (List Str)
  | _, _, [] => .ok []
  | ordinal, seen, overrides :: rest => do
      let key ← renderedKey s grammar overrides
      if seen.contains key then labelsFrom s grammar (ordinal + 1) seen rest
      else do
        let label := combinationLabel ordinal (isSample s grammar overrides)
        return label :: (← labelsFrom s grammar (ordinal + 1) (key :: seen) rest)

/-- `_expected_grammar_labels`. -/
def expectedGrammarLabels (s : Services) (component : Members) : Checked (List Str) := do
  match ← componentGrammar component with
  | none => return ["grammar:exact".toList]
  | some grammar => labelsFrom s grammar 0 [] (combinations (← slotDomains grammar.slots))

/-- What a profile says of bypasses, and whether it is `waf-bypass@3`. -/
structure BypassProfile where
  v3 : Bool
  document : Members

/-- A required dimension of a bypass campaign. -/
structure Dimension where
  carrier : String
  transformation : Str
  inputId : JsonValue
  componentId : Str

/-- The carrier kind each component carrier is written as. -/
def componentCarriers : List (String × String) :=
  [("http-query", "query"), ("http-header", "header"), ("http-cookie", "cookie"),
    ("http-method", "method"), ("http-body-raw", "body-raw"),
    ("http-body-structured", "body-json"), ("http-path", "path")]

/-- `_component_carrier`. -/
def componentCarrier (component : Members) : Checked String := do
  let kind ← hashed (field (← needDictionary component "location") "kind")
  return ((componentCarriers.find? fun entry => isText kind entry.1).map (·.2)).getD "unsupported"

/-- `":".join(step["operation"] for step in steps)`. -/
def operationsOf (steps : List JsonValue) : Checked Str := do
  return join [':'] (← steps.mapM fun step => do needText (← dictionary step) "operation")

/-- `bv_label`. -/
def bypassLabel (carrier : String) (position : Nat) (operations : Str) : Str :=
  "bv:".toList ++ (carrier.toList ++ ':' :: (AkamaiAdapter.natText position ++ ':' :: operations))

/-- The labels of a bypass chain, alone and after the component's own transformations. -/
def bypassLabels (s : Services) (carrier : String) (transformations : List JsonValue)
    (position : Nat) (chain : JsonValue) : Checked (List Str) := do
  let steps ← iterate chain
  let label := bypassLabel carrier position (← operationsOf steps)
  match transformations.getLast?, steps.head? with
  | some last, some first => do
      let output := field (← dictionary last) "output_stage"
      let input := field (← dictionary first) "input_stage"
      return if equal s output input then [label, "cg+".toList ++ label] else [label]
  | _, _ => return [label]

/-- `chain_labels`. -/
def chainLabels (s : Services) (profile : BypassProfile) (carrier : String)
    (transformations : List JsonValue) : Checked (List Str) := do
  let own ← if transformations.isEmpty then
      .ok (if profile.v3 then ["baseline:identity".toList] else [])
    else if profile.v3 then .ok ["baseline:authenticated-source".toList]
    else do return ["cg:".toList ++ (← operationsOf transformations)]
  let bypasses ← needDictionary profile.document "bypass_dimensions"
  let chains ← iterate (fieldOr bypasses carrier (.array []))
  let bypassed ← chains.zipIdx.mapM fun chain =>
    bypassLabels s carrier transformations chain.2 chain.1
  let labels := own ++ bypassed.flatten
  return if labels.isEmpty then ["baseline:identity".toList] else labels

/-- `grammar_labels`. -/
def grammarLabels (s : Services) (profile : BypassProfile) (component : Members)
    (transformations : List JsonValue) : Checked (List Str) :=
  if profile.v3 then
    if transformations.isEmpty then expectedGrammarLabels s component
    else .ok ["source:authenticated-representation".toList]
  else .ok ["grammar:exact".toList]

/-- The label of a grammar label under a chain. -/
def dimensionLabel (componentId : Str) (carrier : String) (grammarLabel chainLabel : Str) : Str :=
  if grammarLabel = "grammar:exact".toList then chainLabel
  else if grammarLabel = "source:authenticated-representation".toList then
    "challenge:source:authenticated-representation|component:".toList ++ componentId ++
      "|carrier:".toList ++ carrier.toList ++ "|transformation:".toList ++ chainLabel
  else grammarLabel ++ ['|'] ++ chainLabel

/-- The dimensions of a component for one of its inputs. -/
def componentDimensions (s : Services) (profile : BypassProfile) (inputId : JsonValue)
    (componentId : Str) (component : Members) : Checked (List Dimension) := do
  let carrier ← componentCarrier component
  let transformations ← iterate (← need component "transformations")
  let chains ← chainLabels s profile carrier transformations
  let labels ← grammarLabels s profile component transformations
  return labels.flatMap fun grammarLabel => chains.map fun chainLabel =>
    ⟨carrier, dimensionLabel componentId carrier grammarLabel chainLabel, inputId, componentId⟩

/-- Whether a component takes an input. -/
def takesInput (s : Services) (component : Members) (inputId : JsonValue) : Checked Bool := do
  let ids ← (← iterate (← need component "input_refs")).mapM fun ref => do
    hashed (← need (← dictionary ref) "id")
  return ids.any (equal s (← hashed inputId))

/-- `_expected_bv_dimensions`. -/
def expectedBvDimensions (s : Services) (profile : BypassProfile) (obligation semantics : Members) :
    Checked (List Dimension) := do
  let components ← index (← need semantics "components") "component_id" "components-invalid"
  let componentIds ← coverageComponentIds (← need obligation "coverage_ref") semantics
  let dimensions ← (← iterate (← need obligation "required_input_refs")).mapM fun inputRef => do
    let inputId ← need (← dictionary inputRef) "id"
    let below ← componentIds.mapM fun componentId =>
      match lookup components componentId with
      | none => .error .crash
      | some component => do
          if ← takesInput s component inputId then
            componentDimensions s profile inputId componentId component
          else return []
    return below.flatten
  return dimensions.flatten

section Combinations

variable {domains : Table (List JsonValue)} {overrides : Table JsonValue}

/-- A combination fills every slot. -/
theorem keys_of_combination (h : overrides ∈ combinations domains) :
    keys overrides = keys domains := by
  induction domains generalizing overrides with
  | nil =>
      rw [combinations, List.mem_singleton] at h
      rw [h]
      rfl
  | cons domain rest ih =>
      obtain ⟨value, -, hmem⟩ := List.mem_flatMap.mp h
      obtain ⟨others, hothers, rfl⟩ := List.mem_map.mp hmem
      exact congrArg (domain.1 :: ·) (ih hothers)

/-- A combination fills a slot with a value of its domain. -/
theorem mem_domain_of_combination (h : overrides ∈ combinations domains) {id : Str}
    {value : JsonValue} (hvalue : (id, value) ∈ overrides) :
    ∃ domain ∈ domains, value ∈ domain.2 := by
  induction domains generalizing overrides with
  | nil =>
      rw [combinations, List.mem_singleton] at h
      rw [h] at hvalue
      cases hvalue
  | cons domain rest ih =>
      obtain ⟨first, hfirst, hmem⟩ := List.mem_flatMap.mp h
      obtain ⟨others, hothers, rfl⟩ := List.mem_map.mp hmem
      rcases List.mem_cons.mp hvalue with heq | hvalue
      · obtain ⟨-, rfl⟩ := Prod.mk.inj heq
        exact ⟨domain, List.mem_cons_self, hfirst⟩
      · obtain ⟨found, hfound, hin⟩ := ih hothers hvalue
        exact ⟨found, List.mem_cons_of_mem _ hfound, hin⟩

theorem keys_slotDomains {slots : Table Members} (h : slotDomains slots = .ok domains) :
    keys domains = keys slots := by
  have hall := mapM_eq_ok.mp h
  clear h
  induction hall with
  | nil => rfl
  | cons hfirst _ ih =>
      obtain ⟨values, -, hdomain⟩ := bind_eq_ok.mp hfirst
      obtain rfl := pure_eq_ok.mp hdomain
      exact congrArg (_ :: ·) ih

end Combinations

/-- Every segment is a literal or refers to a slot. -/
def Grammar.RefersToSlots (grammar : Grammar) : Prop :=
  ∀ segment ∈ grammar.segments, (literalOf segment).isSome = true ∨
    ∃ id ∈ keys grammar.slots, slotIdOf segment = .text id

/-- Texts and the values of the slots have a canonical form. -/
def Writable (s : Services) (domains : Table (List JsonValue)) : Prop :=
  (∀ t, (s.rfc8785 (.text t)).isSome = true) ∧
    ∀ domain ∈ domains, ∀ value ∈ domain.2, (s.rfc8785 value).isSome = true

section Rendering

variable {s : Services} {grammar : Grammar} {overrides : Table JsonValue}

/-- A filled slot has the value it was filled with. -/
theorem slotValue_of_mem {id : Str} (hslot : id ∈ keys grammar.slots)
    (hfilled : (lookup overrides id).isSome = true) :
    ∃ value, (id, value) ∈ overrides ∧
      slotValue grammar overrides (.text id) = .ok (some value) := by
  obtain ⟨value, hvalue⟩ := Option.isSome_iff_exists.mp hfilled
  obtain ⟨slot, hslot⟩ := Option.isSome_iff_exists.mp (lookup_isSome.mpr hslot)
  refine ⟨value, mem_of_lookup hvalue, ?_⟩
  change Except.ok ((lookup grammar.slots id).map _) = _
  rw [hslot, Option.map_some, hvalue]
  rfl

/-- **A segment of a well-formed grammar has a text.** -/
theorem segmentText_ok (hfilled : ∀ id ∈ keys grammar.slots, (lookup overrides id).isSome = true)
    {segment : JsonValue} (h : (literalOf segment).isSome = true ∨
      ∃ id ∈ keys grammar.slots, slotIdOf segment = .text id) :
    ∃ t, segmentText s grammar overrides segment = .ok t := by
  unfold segmentText
  cases hliteral : literalOf segment with
  | some value => exact ⟨_, rfl⟩
  | none =>
      rw [hliteral] at h
      obtain ⟨id, hid, href⟩ := h.resolve_left (by simp)
      obtain ⟨value, -, hvalue⟩ := slotValue_of_mem hid (hfilled id hid)
      simp only [href, hvalue]
      exact ⟨_, rfl⟩

/-- A slot alone is its value. -/
theorem wholeSlot_ok (hrefers : grammar.RefersToSlots)
    (hfilled : ∀ id ∈ keys grammar.slots, (lookup overrides id).isSome = true) :
    wholeSlot grammar overrides = .ok none ∨
      ∃ id value, (id, value) ∈ overrides ∧ wholeSlot grammar overrides = .ok (some value) := by
  unfold wholeSlot
  split
  · rename_i segment hsegments
    split
    · rename_i hslot
      split
      · rename_i ref href
        have hsegment := hrefers (.object segment) (by rw [hsegments]; exact List.mem_cons_self)
        have hliteral : literalOf (.object segment) = none := by
          rw [isText_iff] at hslot
          have hkind : isText (field segment "kind") "literal" = false := by
            rw [hslot]
            rfl
          simp only [literalOf, hkind]
          rfl
        rw [hliteral] at hsegment
        obtain ⟨id, hid, heq⟩ := hsegment.resolve_left (by simp)
        simp only [slotIdOf, href] at heq
        obtain ⟨value, hmem, hvalue⟩ := slotValue_of_mem hid (hfilled id hid)
        exact .inr ⟨id, value, hmem, by rw [heq, hvalue]⟩
      · exact .inl rfl
    · exact .inl rfl
  · exact .inl rfl

/-- **A combination of a well-formed grammar has a canonical rendering.** -/
theorem renderedKey_ok {domains : Table (List JsonValue)} (hrefers : grammar.RefersToSlots)
    (hwritable : Writable s domains) (hdomains : slotDomains grammar.slots = .ok domains)
    (h : overrides ∈ combinations domains) :
    ∃ key, renderedKey s grammar overrides = .ok key := by
  have hfilled : ∀ id ∈ keys grammar.slots, (lookup overrides id).isSome = true := by
    intro id hid
    rw [lookup_isSome, keys_of_combination h, keys_slotDomains hdomains]
    exact hid
  have hrendered : ∃ value, render s grammar overrides = .ok value ∧
      (s.rfc8785 value).isSome = true := by
    unfold render
    rcases wholeSlot_ok hrefers hfilled with hwhole | ⟨id, value, hmem, hwhole⟩
    · have htexts : ∃ texts, grammar.segments.mapM (segmentText s grammar overrides) =
          .ok texts := by
        have hall : ∀ segment ∈ grammar.segments,
            ∃ t, segmentText s grammar overrides segment = .ok t :=
          fun segment hsegment => segmentText_ok hfilled (hrefers segment hsegment)
        choose! text htext using hall
        refine ⟨grammar.segments.map text, mapM_eq_ok.mpr ?_⟩
        rw [List.forall₂_map_right_iff]
        exact List.forall₂_same.mpr htext
      obtain ⟨texts, htexts⟩ := htexts
      rw [hwhole]
      refine ⟨.text (join [] texts), ?_, hwritable.1 _⟩
      simp only [bind, Except.bind, htexts, pure, Except.pure]
    · obtain ⟨domain, hdomain, hin⟩ := mem_domain_of_combination h hmem
      rw [hwhole]
      exact ⟨value, rfl, hwritable.2 domain hdomain value hin⟩
  obtain ⟨value, hvalue, hcanonical⟩ := hrendered
  obtain ⟨key, hkey⟩ := Option.isSome_iff_exists.mp hcanonical
  refine ⟨key, ?_⟩
  simp only [renderedKey, hvalue, bind, Except.bind, canonicalText, hkey]

end Rendering

theorem natText_inj {m n : Nat} : AkamaiAdapter.natText m = AkamaiAdapter.natText n ↔ m = n := by
  refine ⟨fun h => ?_, fun h => by rw [h]⟩
  simp only [AkamaiAdapter.natText, Nat.toList_repr] at h
  rw [← Nat.ofDigitChars_ten_toDigits (n := m), h, Nat.ofDigitChars_ten_toDigits]

/-- A character that is no digit is not in the text of a number. -/
theorem not_mem_natText {c : Char} (hc : c.isDigit = false) (n : Nat) :
    c ∉ AkamaiAdapter.natText n := by
  intro h
  simp only [AkamaiAdapter.natText, Nat.toList_repr] at h
  rw [Nat.isDigit_of_mem_toDigits (by decide) (by decide) h] at hc
  cases hc

/-- Two combinations have one label if both are the sample, or if they are the same. -/
theorem combinationLabel_eq {m n : Nat} {a b : Bool} :
    combinationLabel m a = combinationLabel n b ↔
      (a = true ∧ b = true) ∨ (a = false ∧ b = false ∧ m = n) := by
  cases a with
  | true =>
      cases b with
      | true => simp [combinationLabel]
      | false => simp [combinationLabel]
  | false =>
      cases b with
      | true => simp [combinationLabel]
      | false => simp [combinationLabel, natText_inj]

/-- No label has the separator of the dimensions. -/
theorem bar_not_mem_combinationLabel (n : Nat) (sample : Bool) :
    '|' ∉ combinationLabel n sample := by
  unfold combinationLabel
  split
  · decide
  · rw [List.mem_append, not_or]
    exact ⟨by decide, not_mem_natText (by decide) n⟩

/-- **Labels are distinct** but for those of the sample. -/
theorem labels_nodup_iff {α : Type} {kept : List (Nat × α × Bool)}
    (hincreasing : kept.Pairwise (fun x y => x.1 < y.1)) :
    (kept.map fun entry => combinationLabel entry.1 entry.2.2).Nodup ↔
      ∀ x ∈ kept, ∀ y ∈ kept, x.2.2 = true → y.2.2 = true → x.1 = y.1 := by
  have hnodup : kept.Nodup :=
    hincreasing.imp fun h heq => absurd (heq ▸ h) (Nat.lt_irrefl _)
  have hposition : ∀ x ∈ kept, ∀ y ∈ kept, x.1 = y.1 → x = y := by
    have hmap : (kept.map (·.1)).Nodup :=
      List.pairwise_map.mpr (hincreasing.imp fun h => Nat.ne_of_lt h)
    exact fun x hx y hy heq => (List.nodup_map_iff_inj_on hnodup).mp hmap x hx y hy heq
  rw [List.nodup_map_iff_inj_on hnodup]
  constructor
  · intro h x hx y hy hxs hys
    rw [h x hx y hy (combinationLabel_eq.mpr (.inl ⟨hxs, hys⟩))]
  · intro h x hx y hy heq
    rcases combinationLabel_eq.mp heq with ⟨hxs, hys⟩ | ⟨-, -, hordinal⟩
    · exact hposition x hx y hy (h x hx y hy hxs hys)
    · exact hposition x hx y hy hordinal

section Enumeration

variable (s : Services) (grammar : Grammar)

/-- A combination equal to the samples whose rendering no earlier combination has. -/
def NewSample (combos : List (Table JsonValue)) (position : Nat) : Prop :=
  ∃ overrides, combos[position]? = some overrides ∧ isSample s grammar overrides = true ∧
    ∀ earlier < position, ∀ other, combos[earlier]? = some other →
      renderedKey s grammar other ≠ renderedKey s grammar overrides

/-- At most one rendering is reached first by a combination equal to the samples. -/
def SampleOnce (combos : List (Table JsonValue)) : Prop :=
  ∀ position position', NewSample s grammar combos position →
    NewSample s grammar combos position' → position = position'

variable {s : Services} {grammar : Grammar} {keyOf : Table JsonValue → Str}

/-- **The loop** labels the combinations whose rendering is new. -/
theorem labelsFrom_eq {combos : List (Table JsonValue)} :
    ∀ {ordinal : Nat} {seen : List Str},
      (∀ overrides ∈ combos, renderedKey s grammar overrides = .ok (keyOf overrides)) →
      labelsFrom s grammar ordinal seen combos = .ok ((firstsFrom ordinal seen
        (combos.map fun o => (keyOf o, isSample s grammar o))).map fun entry =>
          combinationLabel entry.1 entry.2.2) := by
  induction combos with
  | nil => exact fun _ => rfl
  | cons overrides rest ih =>
      intro ordinal seen hkeys
      have hrest := fun o ho => hkeys o (List.mem_cons_of_mem overrides ho)
      rw [labelsFrom, hkeys overrides List.mem_cons_self, List.map_cons, firstsFrom]
      simp only [bind, Except.bind]
      by_cases hseen : keyOf overrides ∈ seen
      · rw [if_pos (by simpa using hseen), if_pos (by simpa using hseen), ih hrest]
      · rw [if_neg (by simpa using hseen), if_neg (by simpa using hseen), ih hrest]
        rfl

/-- What the loop keeps as the sample. -/
theorem newSample_iff {combos : List (Table JsonValue)}
    (hkeys : ∀ overrides ∈ combos, renderedKey s grammar overrides = .ok (keyOf overrides))
    {position : Nat} :
    NewSample s grammar combos position ↔
      ∃ key, (position, key, true) ∈ firstsFrom 0 []
        (combos.map fun o => (keyOf o, isSample s grammar o)) := by
  constructor
  · rintro ⟨overrides, hat, hsample, hfirst⟩
    refine ⟨keyOf overrides, mem_firstsFrom.mpr ⟨List.not_mem_nil, position, by omega, ?_, ?_⟩⟩
    · rw [List.getElem?_map, hat, Option.map_some, hsample]
    · intro earlier hlt sample hearlier
      rw [List.getElem?_map] at hearlier
      obtain ⟨other, hother, heq⟩ := Option.map_eq_some_iff.mp hearlier
      apply hfirst earlier hlt other hother
      rw [hkeys other (List.mem_of_getElem? hother), hkeys overrides (List.mem_of_getElem? hat),
        (Prod.mk.inj heq).1]
  · rintro ⟨key, hmem⟩
    obtain ⟨-, offset, hposition, hat, hfirst⟩ := mem_firstsFrom.mp hmem
    obtain rfl : position = offset := by omega
    rw [List.getElem?_map] at hat
    obtain ⟨overrides, hoverrides, heq⟩ := Option.map_eq_some_iff.mp hat
    obtain ⟨rfl, hsample⟩ := Prod.mk.inj heq
    refine ⟨overrides, hoverrides, hsample, fun earlier hlt other hother hsame => ?_⟩
    apply hfirst earlier hlt (isSample s grammar other)
    rw [hkeys other (List.mem_of_getElem? hother),
      hkeys overrides (List.mem_of_getElem? hoverrides)] at hsame
    rw [List.getElem?_map, hother, Option.map_some, Except.ok.inj hsame]

/-- **Enumeration.**  There are as many labels as renderings, and they are distinct if
the sample is labelled once. -/
theorem labels_of_combinations {combos : List (Table JsonValue)} {texts : List Str}
    (htexts : combos.mapM (renderedKey s grammar) = .ok texts) :
    ∃ labels, labelsFrom s grammar 0 [] combos = .ok labels ∧
      labels.length = (unique texts).length ∧
      (labels.Nodup ↔ SampleOnce s grammar combos) ∧
      ∀ label ∈ labels, ∃ ordinal sample, label = combinationLabel ordinal sample := by
  let keyOf := fun overrides => ((renderedKey s grammar overrides).toOption).getD []
  have hall := mapM_eq_ok.mp htexts
  have hkeys : ∀ overrides ∈ combos,
      renderedKey s grammar overrides = .ok (keyOf overrides) := by
    intro overrides hmem
    obtain ⟨key, -, hkey⟩ := Alternatives.exists_right_of_forall₂ hall hmem
    simp only [keyOf, hkey]
    rfl
  have hmap : texts = combos.map keyOf := by
    have hok : combos.mapM (renderedKey s grammar) = .ok (combos.map keyOf) :=
      mapM_eq_ok.mpr (List.forall₂_map_right_iff.mpr (List.forall₂_same.mpr hkeys))
    rw [hok] at htexts
    exact (Except.ok.inj htexts).symm
  refine ⟨_, labelsFrom_eq hkeys, ?_, ?_, ?_⟩
  · rw [List.length_map, length_firsts, List.map_map, hmap]
    rfl
  · rw [labels_nodup_iff (firstsFrom_increasing _ 0 [])]
    constructor
    · intro h position position' hnew hnew'
      obtain ⟨key, hkept⟩ := (newSample_iff hkeys).mp hnew
      obtain ⟨key', hkept'⟩ := (newSample_iff hkeys).mp hnew'
      exact h _ hkept _ hkept' rfl rfl
    · rintro h ⟨position, key, sample⟩ hkept ⟨position', key', sample'⟩ hkept' rfl rfl
      exact h _ _ ((newSample_iff hkeys).mpr ⟨key, hkept⟩)
        ((newSample_iff hkeys).mpr ⟨key', hkept'⟩)
  · intro label hlabel
    obtain ⟨entry, -, rfl⟩ := List.mem_map.mp hlabel
    exact ⟨_, _, rfl⟩

end Enumeration

/-- A bypass label names the position of its chain. -/
theorem bypassLabel_position {carrier : String} {m n : Nat} {operations operations' : Str}
    (h : bypassLabel carrier m operations = bypassLabel carrier n operations') : m = n := by
  have hnumber := (List.cons.inj (List.append_cancel_left (List.append_cancel_left h))).2
  have hcolon := not_mem_natText (c := ':') (by decide)
  exact natText_inj.mp (split_unique (hcolon m) (hcolon n) hnumber).1

/-- Without transformations of its own a component has one label for each chain. -/
theorem bypassLabels_of_none {s : Services} {carrier : String} {position : Nat}
    {chain : JsonValue} {labels : List Str}
    (h : bypassLabels s carrier [] position chain = .ok labels) :
    ∃ operations, labels = [bypassLabel carrier position operations] := by
  unfold bypassLabels at h
  simp only [bind_eq_ok, List.getLast?_nil, pure_eq_ok] at h
  obtain ⟨-, -, operations, -, rfl⟩ := h
  exact ⟨operations, rfl⟩

/-- The labels of the chains from a position on. -/
theorem bypassed_nodup {s : Services} {carrier : String} {chains : List JsonValue} :
    ∀ {start : Nat} {bypassed : List (List Str)},
      (chains.zipIdx start).mapM (fun chain => bypassLabels s carrier [] chain.2 chain.1) =
        .ok bypassed →
      bypassed.flatten.Nodup ∧ ∀ label ∈ bypassed.flatten, ∃ position operations,
        start ≤ position ∧ label = bypassLabel carrier position operations := by
  induction chains with
  | nil =>
      intro start bypassed h
      obtain rfl := pure_eq_ok.mp h
      exact ⟨List.nodup_nil, by simp⟩
  | cons chain rest ih =>
      intro start bypassed h
      simp only [List.zipIdx_cons, List.mapM_cons, bind_eq_ok, pure_eq_ok] at h
      obtain ⟨first, hfirst, others, hothers, rfl⟩ := h
      obtain ⟨operations, rfl⟩ := bypassLabels_of_none hfirst
      obtain ⟨hnodup, hall⟩ := ih hothers
      rw [List.flatten_cons, List.singleton_append]
      refine ⟨List.nodup_cons.mpr ⟨fun hmem => ?_, hnodup⟩, ?_⟩
      · obtain ⟨position, operations', hlt, heq⟩ := hall _ hmem
        have hsame := bypassLabel_position heq
        omega
      · rw [List.forall_mem_cons]
        refine ⟨⟨start, operations, Nat.le_refl start, rfl⟩, fun label hlabel => ?_⟩
        obtain ⟨position, operations', hlt, heq⟩ := hall label hlabel
        exact ⟨position, operations', by omega, heq⟩

/-- **Chains.**  Without transformations the chain labels are distinct. -/
theorem chainLabels_nodup {s : Services} {profile : BypassProfile} {carrier : String}
    {chains : List Str} (hv3 : profile.v3 = true)
    (h : chainLabels s profile carrier [] = .ok chains) : chains.Nodup ∧ chains ≠ [] := by
  simp only [chainLabels, hv3, List.isEmpty_nil, if_true, bind_eq_ok, pure_eq_ok] at h
  obtain ⟨own, hown, bypasses, -, values, -, bypassed, hbypassed, rfl⟩ := h
  obtain rfl := Except.ok.inj hown
  obtain ⟨hnodup, hall⟩ := bypassed_nodup hbypassed
  rw [if_neg (by simp)]
  refine ⟨List.nodup_cons.mpr ⟨fun hmem => ?_, hnodup⟩, List.cons_ne_nil _ _⟩
  obtain ⟨position, operations, -, heq⟩ := hall _ hmem
  exact absurd (congrArg (fun t => t[1]?) heq) (by simp [bypassLabel])

/-- Labels without the separator are told apart in every pair. -/
theorem pairs_nodup_iff {γ : Type} {labels chains : List Str} {pair : Str → Str → γ}
    (hinj : ∀ a ∈ labels, ∀ a' ∈ labels, ∀ c c', pair a c = pair a' c' → a = a' ∧ c = c')
    (hchains : chains.Nodup) (hne : chains ≠ []) :
    (labels.flatMap fun label => chains.map (pair label)).Nodup ↔ labels.Nodup := by
  obtain ⟨chain, hchain⟩ := List.exists_mem_of_ne_nil chains hne
  rw [List.nodup_flatMap]
  constructor
  · rintro ⟨-, hdisjoint⟩
    refine hdisjoint.imp fun {a b} hab heq => ?_
    exact hab (List.mem_map_of_mem (f := pair a) hchain)
      (heq ▸ List.mem_map_of_mem (f := pair a) hchain)
  · intro hnodup
    refine ⟨fun a ha => ?_, ?_⟩
    · exact (List.nodup_map_iff_inj_on hchains).mpr fun c _ c' _ heq => (hinj a ha a ha c c' heq).2
    · refine List.Pairwise.imp_of_mem (fun {a b} ha hb hab => ?_) hnodup
      intro x hx hx'
      obtain ⟨c, -, rfl⟩ := List.mem_map.mp hx
      obtain ⟨c', -, heq⟩ := List.mem_map.mp hx'
      exact hab (hinj b hb a ha c' c heq).1.symm

/-- The label of a dimension has that of its combination in it. -/
theorem dimensionLabel_combinationLabel (componentId : Str) (carrier : String) (ordinal : Nat)
    (sample : Bool) (chain : Str) :
    dimensionLabel componentId carrier (combinationLabel ordinal sample) chain =
      combinationLabel ordinal sample ++ '|' :: chain := by
  have hexact : combinationLabel ordinal sample ≠ "grammar:exact".toList := by
    intro h
    have hat := congrArg (fun t => t[8]?) h
    cases sample <;> simp [combinationLabel] at hat
  have hsource : combinationLabel ordinal sample ≠
      "source:authenticated-representation".toList := by
    intro h
    have hat := congrArg (fun t => t[0]?) h
    cases sample <;> simp [combinationLabel] at hat
  rw [dimensionLabel, if_neg hexact, if_neg hsource, List.append_assoc]
  rfl

/-- **Dimensions.**  A component without transformations has a dimension for each of
its labels under each chain, and they are distinct if the labels are. -/
theorem componentDimensions_of_labels {s : Services} {profile : BypassProfile}
    {inputId : JsonValue} {componentId : Str} {component : Members} {labels : List Str}
    {dimensions : List Dimension} (hv3 : profile.v3 = true)
    (hplain : field component "transformations" = .array [])
    (hlabels : expectedGrammarLabels s component = .ok labels)
    (hshape : ∀ label ∈ labels, ∃ ordinal sample, label = combinationLabel ordinal sample)
    (h : componentDimensions s profile inputId componentId component = .ok dimensions) :
    (dimensions.Nodup ↔ labels.Nodup) ∧
      ∃ carrier chains, chainLabels s profile carrier [] = .ok chains ∧ chains ≠ [] ∧
        dimensions.length = labels.length * chains.length := by
  simp only [componentDimensions, bind_eq_ok, need_eq_ok, pure_eq_ok] at h
  obtain ⟨carrier, -, value, ⟨-, rfl⟩, transformations, hiterate, chains, hchains, grammar,
    hgrammar, rfl⟩ := h
  rw [hplain] at hiterate
  obtain rfl := Except.ok.inj hiterate
  simp only [grammarLabels, hv3, List.isEmpty_nil, if_true, hlabels] at hgrammar
  obtain rfl := Except.ok.inj hgrammar
  obtain ⟨hnodup, hne⟩ := chainLabels_nodup hv3 hchains
  refine ⟨pairs_nodup_iff ?_ hnodup hne, carrier, chains, hchains, hne, ?_⟩
  · intro a ha a' ha' c c' heq
    obtain ⟨ordinal, sample, rfl⟩ := hshape a ha
    obtain ⟨ordinal', sample', rfl⟩ := hshape a' ha'
    have htext := congrArg Dimension.transformation heq
    simp only [dimensionLabel_combinationLabel] at htext
    exact split_unique (bar_not_mem_combinationLabel _ _) (bar_not_mem_combinationLabel _ _) htext
  · simp [List.length_flatMap]

/-- **The labels of a grammar.**  A well-formed grammar has as many labels as its
combinations have canonical renderings.  The labels are distinct, and so are the
dimensions built from them, if and only if at most one rendering is reached first by
a combination that is equal to the samples. -/
theorem grammar_labels_enumerate {s : Services} {component : Members} {grammar : Grammar}
    {domains : Table (List JsonValue)} (hgrammar : componentGrammar component = .ok (some grammar))
    (hdomains : slotDomains grammar.slots = .ok domains) (hrefers : grammar.RefersToSlots)
    (hwritable : Writable s domains) :
    ∃ texts labels,
      (combinations domains).mapM (renderedKey s grammar) = .ok texts ∧
      expectedGrammarLabels s component = .ok labels ∧
      labels.length = (unique texts).length ∧
      (labels.Nodup ↔ SampleOnce s grammar (combinations domains)) ∧
      ∀ profile inputId componentId dimensions, profile.v3 = true →
        field component "transformations" = .array [] →
        componentDimensions s profile inputId componentId component = .ok dimensions →
        (dimensions.Nodup ↔ SampleOnce s grammar (combinations domains)) ∧
          ∃ carrier chains, chainLabels s profile carrier [] = .ok chains ∧ chains ≠ [] ∧
            dimensions.length = (unique texts).length * chains.length := by
  have hrendered : ∀ overrides ∈ combinations domains,
      ∃ key, renderedKey s grammar overrides = .ok key :=
    fun overrides h => renderedKey_ok hrefers hwritable hdomains h
  choose! keyOf hkeyOf using hrendered
  have htexts : (combinations domains).mapM (renderedKey s grammar) =
      .ok ((combinations domains).map keyOf) :=
    mapM_eq_ok.mpr (List.forall₂_map_right_iff.mpr (List.forall₂_same.mpr hkeyOf))
  obtain ⟨labels, hloop, hlength, hnodup, hshape⟩ := labels_of_combinations htexts
  have hlabels : expectedGrammarLabels s component = .ok labels := by
    simp only [expectedGrammarLabels, hgrammar, bind, Except.bind, hdomains]
    exact hloop
  refine ⟨_, labels, htexts, hlabels, hlength, hnodup, ?_⟩
  intro profile inputId componentId dimensions hv3 hplain h
  obtain ⟨hdistinct, carrier, chains, hchains, hne, hcount⟩ :=
    componentDimensions_of_labels hv3 hplain hlabels hshape h
  exact ⟨hdistinct.trans hnodup, carrier, chains, hchains, hne, by rw [hcount, hlength]⟩

/-- Canonical JSON of plain texts, Booleans and integers. -/
def plainCanonical : JsonValue → Option Str
  | .text t => some ('"' :: t ++ ['"'])
  | .bool true => some "true".toList
  | .bool false => some "false".toList
  | .number literal => some literal
  | _ => none

/-- Services that answer what a grammar of one label asks. -/
def labelServices : Services :=
  { strictLoads := fun _ => .invalid
    loads := fun _ => .error []
    rfc8785 := plainCanonical
    sha256 := fun _ => []
    number := fun literal => if literal = ['1'] then 1 else 0
    repr := fun _ => []
    casefold := id
    tables := asciiTables }

/-- A segment that refers to a slot named `v`. -/
def slotSegment : JsonValue :=
  .object [("kind".toList, .text "slot".toList),
    ("slot_ref".toList, .object [("id".toList, .text ['v'])])]

/-- A slot over some values. -/
def enumSlot (sample : JsonValue) (values : List JsonValue) : Members :=
  [("slot_id".toList, .text ['v']), ("sample".toList, sample),
    ("allowed_domain".toList, .object [("kind".toList, .text "enum".toList),
      ("values".toList, .array values)])]

/-- A component whose grammar is one slot. -/
def slotComponent (slot : Members) : Members :=
  [("grammar".toList, .object [("segments".toList, .array [slotSegment]),
    ("slots".toList, .array [.object slot])]), ("transformations".toList, .array [])]

theorem componentGrammar_enumSlot (sample : JsonValue) (values : List JsonValue) :
    componentGrammar (slotComponent (enumSlot sample values)) =
      .ok (some ⟨[slotSegment], [(['v'], enumSlot sample values)]⟩) := rfl

theorem slotSegment_refers (slot : Members) :
    Grammar.RefersToSlots ⟨[slotSegment], [(['v'], slot)]⟩ := by
  intro segment hsegment
  rw [List.mem_singleton.mp hsegment]
  exact .inr ⟨['v'], List.mem_singleton_self _, rfl⟩

theorem writable_enum (a b : JsonValue) (ha : (plainCanonical a).isSome = true)
    (hb : (plainCanonical b).isSome = true) : Writable labelServices [(['v'], [a, b])] := by
  refine ⟨fun _ => rfl, fun domain hdomain value hvalue => ?_⟩
  rw [List.mem_singleton.mp hdomain] at hvalue
  rcases List.mem_pair.mp hvalue with rfl | rfl
  · exact ha
  · exact hb

/-- A sample text and another. -/
theorem grammar_labels_enumerate_texts :
    let slot := enumSlot (.text "sample".toList) [.text "sample".toList, .text "alternate".toList]
    ∃ texts labels,
      (combinations [(['v'], [JsonValue.text "sample".toList, .text "alternate".toList])]).mapM
        (renderedKey labelServices ⟨[slotSegment], [(['v'], slot)]⟩) = .ok texts ∧
      expectedGrammarLabels labelServices (slotComponent slot) = .ok labels ∧
      labels.length = (unique texts).length := by
  intro slot
  obtain ⟨texts, labels, htexts, hlabels, hlength, -⟩ :=
    grammar_labels_enumerate (s := labelServices) (componentGrammar_enumSlot _ _) rfl
      (slotSegment_refers slot) (writable_enum _ _ rfl rfl)
  exact ⟨texts, labels, htexts, hlabels, hlength⟩

/-- The sample is one, and the slot ranges over one and `true`, which are equal. -/
theorem grammar_labels_repeated :
    ¬ ∀ (s : Services) (component : Members) (grammar : Grammar)
        (domains : Table (List JsonValue)) (labels : List Str),
      componentGrammar component = .ok (some grammar) →
      slotDomains grammar.slots = .ok domains → grammar.RefersToSlots → Writable s domains →
      expectedGrammarLabels s component = .ok labels → labels.Nodup := by
  intro h
  have hnodup := h labelServices
    (slotComponent (enumSlot (.number ['1']) [.number ['1'], .bool true])) _ _
    ["grammar:sample".toList, "grammar:sample".toList] (componentGrammar_enumSlot _ _) rfl
    (slotSegment_refers _) (writable_enum _ _ rfl rfl) rfl
  exact absurd hnodup (by decide)

end SharedContracts
