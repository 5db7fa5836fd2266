import ControlTranslation.JndiBranches
import ControlTranslation.PcreOutline
import ControlTranslation.RegexGuarantees
import ControlTranslation.ValueRewriting

/-!
# Compacting a structured JNDI expression

When a structured JNDI expression expands to too many values, its three grammars are
replaced by six fixed wildcards.  Each grammar is compared with its wildcards through
its outline: the carrier is the same text in both, and a match of the grammar is
covered by the tail of a wildcard, unless it writes the path separator of the
hexadecimal form in a capital letter.  The source finds such a match and no wildcard
takes it.
-/

namespace ModSecurity

open PyText Pcre Glob

/-- The tree of the grammar of a representation. -/
def bodyTree (representation : Representation) : Regex :=
  ((parseCat (3 * (bodyOf representation ++ ['|']).length + 2)
    (bodyOf representation ++ ['|'])).map (·.1)).getD .empty

/-- What follows the carrier in the value of a representation and a protocol. -/
def templateTail (protocol : Str) : Representation → Str
  | .raw => "$\x7bjndi:".toList ++ protocol ++ "://?*/*\x7d".toList
  | .url => "%24%7Bjndi%3A".toList ++ protocol ++ "%3A%2F%2F?*%2F*%7D".toList
  | .hex => "247b6a6e64693a".toList ++ encodeHex protocol ++ "3a2f2f??*2f*7d".toList

/-- The path separator of the hexadecimal grammar in a capital letter. -/
def capitalSeparator : Str := ['2', 'F']

/-- A hexadecimal lookup with a capital path separator. -/
def capitalLookup : Str := "247b6a6e64693a6c6461703a2f2f612F7d".toList

/-- Whether a pattern asks for a text. -/
def spells (text : Str) (pattern : List (Item Char)) : Bool :=
  pattern.tails.any fun rest => (text.map Item.lit).isPrefixOf rest

theorem toList_eq_of {text : String} {l : Str} (h : text = String.ofList l) :
    text.toList = l := by
  rw [h, String.toList_ofList]

theorem append_eq_of {a b x y : Str} (ha : a = x) (hb : b = y) : a ++ b = x ++ y := by
  rw [ha, hb]

theorem toList_append_eq_of {a b : String} {x y : Str} (ha : a.toList = x) (hb : b.toList = y) :
    (a ++ b).toList = x ++ y := by
  rw [String.toList_append, ha, hb]

theorem eq_ok_of_toOption {ε α : Type} {x : Except ε α} {a : α} (h : x.toOption = some a) :
    x = .ok a := by
  cases x with
  | error e => cases h
  | ok b => rw [Option.some.inj h]

/-- What is read off a grammar by running the parser on it: a branch ends where its stop
is, its brackets are plain, it looks ahead only, its outline is covered up to a capital
separator, and the hexadecimal one finds the lookup above. -/
structure BodyChecked (representation : Representation) : Prop where
  reads : (['|', ')'].all fun stop =>
    parseCat (3 * (bodyOf representation ++ [stop]).length + 2)
      (bodyOf representation ++ [stop]) = some (bodyTree representation, [stop])) = true
  plain : (bodyTree representation).every Regex.plainBracket = true
  ahead : (bodyTree representation).every Regex.looksAhead = true
  covered : ((bodyTree representation).outlines.all fun p => spells capitalSeparator p ||
    covers (ofText (templateTail "ldap".toList representation)) p ||
    covers (ofText (templateTail "rmi".toList representation)) p) = true
  finds : representation = .hex →
    (run ⟨false, fun _ _ => false⟩ (bodyTree representation) ⟨[], capitalLookup⟩).isEmpty = false

/-- The three grammars without carriers. -/
def bareSource : Str :=
  "(?:".toList ++ jndiRawBranch ++ ['|'] ++ jndiUrlBranch ++ ['|'] ++ jndiHexBranch ++ [')']

set_option maxRecDepth 8000 in
/-- The three grammars run through the parser and through the reader of the branches. -/
theorem grammars_checked :
    (∀ representation, BodyChecked representation) ∧
    (topLevelGroupBranches bareSource).toOption =
      some [jndiRawBranch, jndiUrlBranch, jndiHexBranch] ∧
    ([jndiRawBranch, jndiUrlBranch, jndiHexBranch].foldlM readBranch []).toOption =
      some [(.raw, []), (.url, []), (.hex, [])] := by
  -- Evaluated on lists of characters, since reading them off the literals is slow.
  have hlabel : jndiLabel = _ := append_eq_of (toList_eq_of rfl) (toList_eq_of rfl)
  have hbyte : jndiHexResourceByte = _ :=
    toList_append_eq_of (toList_append_eq_of (toList_eq_of rfl) (toList_eq_of rfl))
      (toList_eq_of rfl)
  have hrawAuthority : jndiRawAuthority = _ := append_eq_of hlabel (toList_eq_of rfl)
  have hraw : jndiRawBranch = _ :=
    append_eq_of (append_eq_of (toList_eq_of rfl) hrawAuthority) (toList_eq_of rfl)
  have hurlAuthority : jndiUrlAuthority = _ :=
    append_eq_of hlabel (toList_append_eq_of (toList_eq_of rfl) (toList_eq_of rfl))
  have hurl : jndiUrlBranch = _ :=
    append_eq_of (append_eq_of (append_eq_of (append_eq_of (toList_eq_of rfl) hurlAuthority)
      (toList_eq_of rfl)) hbyte) (toList_eq_of rfl)
  have halnum : jndiHexAlnum = _ := toList_eq_of rfl
  have hname : jndiHexLabel = _ :=
    append_eq_of (append_eq_of (append_eq_of (append_eq_of halnum (toList_eq_of rfl)) halnum)
      (toList_eq_of rfl)) halnum
  have hhex : jndiHexBranch = _ :=
    append_eq_of (append_eq_of (append_eq_of (append_eq_of (append_eq_of (append_eq_of
      (toList_eq_of rfl) hname) (toList_eq_of rfl)) hname)
      (toList_append_eq_of (toList_append_eq_of (toList_eq_of rfl) (toList_eq_of rfl))
        (toList_eq_of rfl))) hbyte) (toList_eq_of rfl)
  have hexpected : expectedBranches =
      [(.raw, jndiRawBranch), (.url, jndiUrlBranch), (.hex, jndiHexBranch)] := rfl
  refine ⟨fun representation => ?_, ?_, ?_⟩
  · cases representation with
    | raw =>
        refine ⟨?_, ?_, ?_, ?_, nofun⟩ <;> unfold bodyTree bodyOf <;> simp only <;> rw [hraw] <;>
          decide +kernel
    | url =>
        refine ⟨?_, ?_, ?_, ?_, nofun⟩ <;> unfold bodyTree bodyOf <;> simp only <;> rw [hurl] <;>
          decide +kernel
    | hex =>
        refine ⟨?_, ?_, ?_, ?_, fun _ => ?_⟩ <;> unfold bodyTree bodyOf <;> simp only <;>
          rw [hhex] <;> decide +kernel
  · unfold bareSource
    rw [hraw, hurl, hhex]
    decide +kernel
  · unfold readBranch
    rw [hexpected, hraw, hurl, hhex]
    decide +kernel

theorem body_checked (representation : Representation) : BodyChecked representation :=
  grammars_checked.1 representation

theorem branch_body (representation : Representation) {stop : Char} (h : isStop stop = true) :
    Branch (bodyOf representation ++ [stop]) (bodyTree representation) [stop] := by
  unfold Branch
  exact of_decide_eq_true (List.all_eq_true.mp (body_checked representation).reads stop
    (by simpa [isStop] using h))

theorem readQuant_body (representation : Representation) (x : Str) :
    readQuant (bodyOf representation ++ x) = none := by
  cases representation <;> rfl

/-- A carrier and a grammar, as a branch of the source. -/
theorem ReadAs.branch {text : Str} {e : Representation × Str} (h : ReadAs text e) {stop : Char}
    (hstop : isStop stop = true) (x : Str) :
    Branch (text ++ stop :: x) ((bodyTree e.1).after e.2) (stop :: x) := by
  have hstops : stops [stop] := ⟨stop, List.mem_singleton_self stop, hstop⟩
  have hbody := (branch_body e.1 hstop).append hstops (body_checked e.1).plain x
  have hafter := hbody.after (carrier_word h.valid) (by
    rw [List.append_assoc]
    exact readQuant_body e.1 _)
  simpa [h.text] using hafter

/-- **What an accepted source is**: carriers of the three representations, such that
a search finds one of the grammars after its carrier. -/
structure Reads (source : Str) (carriers : Carriers) : Prop where
  valid : ∀ e ∈ carriers, validateJndiCarrier e.2 e.1 = .ok ()
  nodup : (carriers.map (·.1)).Nodup
  complete : ∀ representation, ∃ carrier, (representation, carrier) ∈ carriers
  search : ∀ oracle s, Pcre.search oracle source s = true ↔
    ∃ e ∈ carriers, ∃ u v c', s = u ++ v ∧
      c' ∈ run ⟨false, oracle⟩ ((bodyTree e.1).after e.2) ⟨u.reverse, v⟩

/-- The carriers read off a source. -/
def jndiCarriers (source : Str) : Carriers :=
  match topLevelGroupBranches source with
  | .error _ => []
  | .ok branches =>
      match branches.foldlM readBranch [] with
      | .error _ => []
      | .ok carriers => carriers

/-- The carriers are those the branches were read with. -/
theorem jndiCarriers_eq {source : Str} {branches : List Str} {carriers : Carriers}
    (hbranches : topLevelGroupBranches source = .ok branches)
    (hcarriers : branches.foldlM readBranch [] = .ok carriers) :
    jndiCarriers source = carriers := by
  simp only [jndiCarriers, hbranches, hcarriers]

/-- A compacted source reads as its three branches. -/
theorem compact_reads {source : Str} {m : Match}
    (h : compactStructuredJndiRegex source = .ok m) : Reads source (jndiCarriers source) := by
  unfold compactStructuredJndiRegex at h
  split at h
  · cases h
  · rename_i branches hbranches
    split at h
    · cases h
    · rename_i carriers hcarriers
      split at h
      · cases h
      · rename_i hcomplete
        obtain ⟨a, b, c, rfl, rfl⟩ := topLevelGroupBranches_eq hbranches
        obtain ⟨read, hread, hbranch, hnodup⟩ := foldlM_readBranch hcarriers (by simp)
        rw [List.nil_append] at hread
        subst hread
        rw [jndiCarriers_eq hbranches hcarriers]
        obtain ⟨x, y, z, rfl, hx, hy, hz⟩ : ∃ x y z, carriers = [x, y, z] ∧
            ReadAs a x ∧ ReadAs b y ∧ ReadAs c z := by
          obtain _ | ⟨hx, _ | ⟨hy, _ | ⟨hz, hnil⟩⟩⟩ := hbranch
          cases hnil
          exact ⟨_, _, _, rfl, hx, hy, hz⟩
        have hparse := ((hx.branch rfl _).bar
          ((hy.branch rfl _).bar (hz.branch rfl []).last)).parse_group
        refine ⟨?_, hnodup, ?_, ?_⟩
        · simp only [List.forall_mem_cons]
          exact ⟨hx.valid, hy.valid, hz.valid, by simp⟩
        · intro representation
          rw [Bool.not_eq_false, List.all_eq_true] at hcomplete
          have hmem : ∃ body, (representation, body) ∈ expectedBranches := by
            cases representation <;> simp [expectedBranches]
          obtain ⟨body, hmem⟩ := hmem
          obtain ⟨e, he, heq⟩ := List.any_eq_true.mp (hcomplete _ hmem)
          obtain rfl : e.1 = representation := by simpa using heq
          exact ⟨e.2, he⟩
        · intro oracle s
          have hrun : ∀ c c', c' ∈ run ⟨false, oracle⟩ (.cat (.group (.alt
              ((bodyTree x.1).after x.2) (.alt ((bodyTree y.1).after y.2)
                ((bodyTree z.1).after z.2)))) .empty) c ↔
              ∃ e ∈ [x, y, z], c' ∈ run ⟨false, oracle⟩ ((bodyTree e.1).after e.2) c := by
            intro c c'
            simp [run]
          rw [search_iff hparse]
          simp only [hrun]
          constructor
          · rintro ⟨u, v, c', hs, e, he, hc⟩
            exact ⟨e, he, u, v, c', hs, hc⟩
          · rintro ⟨e, he, u, v, c', hs, hc⟩
            exact ⟨u, v, c', hs, e, he, hc⟩

/-- The value of a representation and a protocol. -/
def template (carriers : Carriers) (protocol : Str) (representation : Representation) : Str :=
  '*' :: (carrierOf carriers representation ++ (templateTail protocol representation ++ ['*']))

/-- The values are one template a representation. -/
theorem compactValues_eq (carriers : Carriers) (protocol : Str) :
    compactValues carriers protocol =
      [template carriers protocol .raw, template carriers protocol .url,
        template carriers protocol .hex] := by
  have hstar : "*".toList = ['*'] := rfl
  have hraw : "://?*/*\x7d*".toList = "://?*/*\x7d".toList ++ ['*'] := by decide
  have hurl : "%3A%2F%2F?*%2F*%7D*".toList = "%3A%2F%2F?*%2F*%7D".toList ++ ['*'] := by decide
  have hhex : "3a2f2f??*2f*7d*".toList = "3a2f2f??*2f*7d".toList ++ ['*'] := by decide
  unfold compactValues template templateTail
  rw [hstar, hraw, hurl, hhex]
  -- Only how the pieces are put together matters, not what they spell.
  generalize "$\x7bjndi:".toList = raw, "%24%7Bjndi%3A".toList = url,
    "247b6a6e64693a".toList = hex, "://?*/*\x7d".toList = rawEnd,
    "%3A%2F%2F?*%2F*%7D".toList = urlEnd, "3a2f2f??*2f*7d".toList = hexEnd
  simp

/-- The protocols of the grammar. -/
def jndiProtocols : List Str := ["ldap".toList, "rmi".toList]

theorem compact_values {source : Str} {m : Match}
    (h : compactStructuredJndiRegex source = .ok m) :
    m.caseInsensitive = false ∧ m.wildcard = true ∧ ∀ value, value ∈ m.values ↔
      ∃ protocol ∈ jndiProtocols, ∃ representation,
        value = template (jndiCarriers source) protocol representation := by
  unfold compactStructuredJndiRegex at h
  split at h
  · cases h
  · rename_i branches hbranches
    split at h
    · cases h
    · rename_i carriers hcarriers
      split at h
      · cases h
      · dsimp only at h
        split at h
        · cases h
        · cases h
          refine ⟨rfl, rfl, fun value => ?_⟩
          rw [jndiCarriers_eq hbranches hcarriers]
          rw [mem_unique, List.mem_append, compactValues_eq, compactValues_eq]
          constructor
          · intro hvalue
            rcases hvalue with hvalue | hvalue
            · refine ⟨_, List.mem_cons_self, ?_⟩
              simp only [List.mem_cons, List.not_mem_nil, or_false] at hvalue
              rcases hvalue with rfl | rfl | rfl <;> exact ⟨_, rfl⟩
            · refine ⟨_, List.mem_cons_of_mem _ List.mem_cons_self, ?_⟩
              simp only [List.mem_cons, List.not_mem_nil, or_false] at hvalue
              rcases hvalue with rfl | rfl | rfl <;> exact ⟨_, rfl⟩
          · rintro ⟨protocol, hprotocol, representation, rfl⟩
            simp only [jndiProtocols, List.mem_cons, List.not_mem_nil, or_false] at hprotocol
            rcases hprotocol with rfl | rfl
            · exact Or.inl (by cases representation <;> simp)
            · exact Or.inr (by cases representation <;> simp)

/-- The carrier of a representation is the one read for it. -/
theorem carrierOf_eq {carriers : Carriers} (hnodup : (carriers.map (·.1)).Nodup)
    {e : Representation × Str} (he : e ∈ carriers) : carrierOf carriers e.1 = e.2 := by
  have hfind : carriers.find? (·.1 = e.1) = some e := by
    induction carriers with
    | nil => cases he
    | cons d carriers ih =>
        rw [List.map_cons, List.nodup_cons] at hnodup
        rcases List.mem_cons.mp he with rfl | he
        · simp
        · have hne : d.1 ≠ e.1 := fun heq =>
            hnodup.1 (heq ▸ List.mem_map.mpr ⟨e, he, rfl⟩)
          simpa [hne] using ih hnodup.2 he
  simp [carrierOf, hfind]

/-- What a value matches: its carrier, something its tail takes, and anything around. -/
theorem matches_template {carriers : Carriers} {protocol : Str} {representation : Representation}
    (hword : ∀ c ∈ carrierOf carriers representation, c = '.' ∨ isLiteral c = true) {s : Str} :
    matchesValue false true (template carriers protocol representation) s = true ↔
      ∃ u w v, s = u ++ (carrierOf carriers representation ++ (w ++ v)) ∧
        w ∈ lang (sameChar false) (ofText (templateTail protocol representation)) := by
  have hplain : ∀ c ∈ carrierOf carriers representation, isWildcardChar c = false := by
    intro c hc
    rcases hword c hc with rfl | hliteral
    · rfl
    · simp [isLiteral] at hliteral
      simp [isWildcardChar, hliteral]
  have hend : ofText ['*'] = [.many] := rfl
  have hlang : lang (sameChar false) (ofText (template carriers protocol representation)) =
      ⊤ * (wordLang (sameChar false) (carrierOf carriers representation) *
        (lang (sameChar false) (ofText (templateTail protocol representation)) * ⊤)) := by
    rw [template, lang_run, ofText_append, ofText_append, lang_append, lang_append,
      lang_ofText_literal _ hplain, hend]
    simp [Item.lang]
  rw [matchesValue, if_pos rfl, Glob.accepts_iff, hlang]
  constructor
  · intro h
    obtain ⟨u, -, x, hx, rfl⟩ := Language.mem_mul.mp h
    obtain ⟨word, hcarrier, y, hy, rfl⟩ := Language.mem_mul.mp hx
    obtain ⟨w, hw, v, -, rfl⟩ := Language.mem_mul.mp hy
    obtain rfl := mem_wordLang_exact.mp hcarrier
    exact ⟨u, w, v, rfl, hw⟩
  · rintro ⟨u, w, v, rfl, hw⟩
    exact Language.mem_mul.mpr ⟨u, mem_top_lang u, _, Language.mem_mul.mpr
      ⟨_, mem_wordLang_exact.mpr rfl, _, Language.mem_mul.mpr ⟨w, hw, v, mem_top_lang v, rfl⟩,
        rfl⟩, rfl⟩

/-- **What the compaction matches** of an accepted source. -/
theorem matchesAny_compact {source : Str} {m : Match}
    (h : compactStructuredJndiRegex source = .ok m) {s : Str} :
    matchesAny m.caseInsensitive m.wildcard m.values s = true ↔
      ∃ e ∈ jndiCarriers source, ∃ protocol ∈ jndiProtocols, ∃ u w v,
        s = u ++ (e.2 ++ (w ++ v)) ∧
          w ∈ lang (sameChar false) (ofText (templateTail protocol e.1)) := by
  obtain ⟨hci, hwild, hvalues⟩ := compact_values h
  have hreads := compact_reads h
  have hcarrier : ∀ e ∈ jndiCarriers source, carrierOf (jndiCarriers source) e.1 = e.2 :=
    fun e he => carrierOf_eq hreads.nodup he
  have hword : ∀ e ∈ jndiCarriers source, ∀ c ∈ carrierOf (jndiCarriers source) e.1,
      c = '.' ∨ isLiteral c = true :=
    fun e he => hcarrier e he ▸ carrier_word (hreads.valid e he)
  rw [matchesAny_iff, hci, hwild]
  constructor
  · rintro ⟨value, hvalue, hmatch⟩
    obtain ⟨protocol, hprotocol, representation, rfl⟩ := (hvalues value).mp hvalue
    obtain ⟨carrier, hmem⟩ := hreads.complete representation
    obtain ⟨u, w, v, hs, hw⟩ := (matches_template (hword _ hmem)).mp hmatch
    refine ⟨_, hmem, protocol, hprotocol, u, w, v, ?_, hw⟩
    rw [hs, hcarrier _ hmem]
  · rintro ⟨e, he, protocol, hprotocol, u, w, v, hs, hw⟩
    refine ⟨_, (hvalues _).mpr ⟨protocol, hprotocol, e.1, rfl⟩, ?_⟩
    exact (matches_template (hword e he)).mpr ⟨u, w, v, by rw [hs, hcarrier e he], hw⟩

/-- Whether no carrier has a dot, which the source reads as any character. -/
def dotless (source : Str) : Bool := (jndiCarriers source).all fun e => !e.2.contains '.'

theorem outlines_after {word : Str} (hword : '.' ∉ word) (r : Regex) :
    (r.after word).outlines = r.outlines.map fun p => word.map Item.lit ++ p := by
  induction word with
  | nil => simp [Regex.after]
  | cons c word ih =>
      obtain ⟨hc, hrest⟩ := List.ne_and_not_mem_of_not_mem_cons hword
      have hitem : wordItem c = .char c := if_neg (Ne.symm hc)
      have hafter : r.after (c :: word) = .cat (wordItem c) (r.after word) := rfl
      rw [hafter, hitem]
      simp [Regex.outlines, ih hrest]

/-- A pattern that asks for a text takes only words with it. -/
theorem infix_of_spells {text w : Str} {p : List (Item Char)} (h : spells text p = true)
    (hw : w ∈ lang (sameChar false) p) : text <:+: w := by
  obtain ⟨rest, hrest, hprefix⟩ := List.any_eq_true.mp h
  obtain ⟨a, rfl⟩ := (List.mem_tails _ _).mp hrest
  obtain ⟨b, rfl⟩ := List.isPrefixOf_iff_prefix.mp hprefix
  rw [lang_append, lang_append, lang_map_lit] at hw
  obtain ⟨x, -, y, hy, rfl⟩ := Language.mem_mul.mp hw
  obtain ⟨z, hz, v, -, rfl⟩ := Language.mem_mul.mp hy
  obtain rfl := mem_wordLang_exact.mp hz
  exact ⟨x, v, by rw [List.append_assoc]⟩

/-- A match of a grammar has a capital separator, or one of the tails takes it. -/
theorem outlines_covered {representation : Representation} {p : List (Item Char)}
    (hp : p ∈ (bodyTree representation).outlines) : spells capitalSeparator p = true ∨
      ∃ protocol ∈ jndiProtocols,
        covers (ofText (templateTail protocol representation)) p = true := by
  have hchecked := List.all_eq_true.mp (body_checked representation).covered p hp
  rw [Bool.or_eq_true, Bool.or_eq_true] at hchecked
  rcases hchecked with (hspells | hldap) | hrmi
  · exact Or.inl hspells
  · exact Or.inr ⟨_, List.mem_cons_self, hldap⟩
  · exact Or.inr ⟨_, List.mem_cons_of_mem _ List.mem_cons_self, hrmi⟩

/-- Without a dot in a carrier, a string without a capital separator is kept. -/
theorem kept_of_plain {source : Str} {m : Match} (h : compactStructuredJndiRegex source = .ok m)
    (hdotless : dotless source = true) {oracle : List Char → Char → Bool} {s : Str}
    (hcapital : ¬capitalSeparator <:+: s) (hsearch : Pcre.search oracle source s = true) :
    matchesAny m.caseInsensitive m.wildcard m.values s = true := by
  obtain ⟨e, he, u, v, c', rfl, hc'⟩ := ((compact_reads h).search oracle s).mp hsearch
  have hdot : '.' ∉ e.2 := by simpa using List.all_eq_true.mp hdotless e he
  obtain ⟨x, hx, hspan, -⟩ := upper_outline ⟨false, oracle⟩ _ _ _ hc'
  obtain ⟨q, hq, hx⟩ := mem_outlineLang.mp hx
  rw [outlines_after hdot] at hq
  obtain ⟨p, hp, rfl⟩ := List.mem_map.mp hq
  rw [lang_append, lang_map_lit] at hx
  obtain ⟨carrier, hcarrier, w, hw, rfl⟩ := Language.mem_mul.mp hx
  obtain rfl := mem_wordLang_exact.mp hcarrier
  have hv : v = e.2 ++ (w ++ c'.after) := by rw [← List.append_assoc]; exact hspan
  rcases outlines_covered hp with hspells | ⟨protocol, hprotocol, hcovers⟩
  · refine absurd ?_ hcapital
    refine (infix_of_spells hspells hw).trans ⟨u ++ e.2, c'.after, ?_⟩
    rw [hv]
    simp
  · refine (matchesAny_compact h).mpr ⟨e, he, protocol, hprotocol, u, w, c'.after, by rw [hv], ?_⟩
    exact lang_le_of_covers hcovers hw

theorem mem_run_after {env : Env} {word x past : Str} {r : Regex} {c' : Cursor}
    (h : c' ∈ run env r ⟨word.reverse ++ past, x⟩) :
    c' ∈ run env (r.after word) ⟨past, word ++ x⟩ := by
  induction word generalizing past with
  | nil => exact h
  | cons c word ih =>
      have hstep : run env (wordItem c) ⟨past, c :: (word ++ x)⟩ = [⟨c :: past, word ++ x⟩] := by
        unfold wordItem
        split <;> simp [run, step]
      have hafter : r.after (c :: word) = .cat (wordItem c) (r.after word) := rfl
      rw [hafter, run, List.cons_append, hstep, List.flatMap_singleton]
      exact ih (by simpa using h)

/-- The search finds the lookup with a capital separator after the carrier. -/
theorem search_capital {source : Str} {carriers : Carriers} (h : Reads source carriers)
    {carrier : Str} (hmem : (Representation.hex, carrier) ∈ carriers)
    (oracle : List Char → Char → Bool) :
    Pcre.search oracle source (carrier ++ capitalLookup) = true := by
  have hfound := (body_checked .hex).finds rfl
  obtain ⟨c', hc'⟩ := List.isEmpty_eq_false_iff_exists_mem.mp hfound
  have hbehind := @mem_run_behind carrier.reverse false oracle _ _ (body_checked .hex).ahead _ _ hc'
  refine (h.search oracle _).mpr ⟨(.hex, carrier), hmem, [], carrier ++ capitalLookup,
    c'.behind carrier.reverse, rfl, ?_⟩
  refine mem_run_after ?_
  rwa [List.reverse_nil, List.append_nil]

/-- What a tail takes has the first character of the tail. -/
theorem mem_of_literal {c : Char} (hc : isWildcardChar c = false) {rest w : Str}
    (hw : w ∈ lang (sameChar false) (ofText (c :: rest))) : c ∈ w := by
  have htext : ofText (c :: rest) = ofText [c] ++ ofText rest := ofText_append [c] rest
  rw [htext, lang_append, lang_ofText_literal _ (by simpa using hc)] at hw
  obtain ⟨x, hx, y, -, rfl⟩ := Language.mem_mul.mp hw
  obtain rfl := mem_wordLang_exact.mp hx
  exact List.mem_cons_self

/-- Wherever the tails of the hexadecimal values are put, they do not fit. -/
theorem tails_miss : ∀ protocol ∈ jndiProtocols, ∀ n < 35,
    accepts (sameChar false) (ofText (templateTail protocol .hex) ++ [.many])
      (capitalLookup.drop n) = false := by
  decide +kernel

/-- No value matches it. -/
theorem missed_capital {source : Str} {m : Match} (h : compactStructuredJndiRegex source = .ok m)
    {carrier : Str} (hmem : (Representation.hex, carrier) ∈ jndiCarriers source) :
    matchesAny m.caseInsensitive m.wildcard m.values (carrier ++ capitalLookup) = false := by
  rw [Bool.eq_false_iff]
  intro hmatch
  obtain ⟨⟨representation, carrier'⟩, he, protocol, hprotocol, u, w, v, heq, hw⟩ :=
    (matchesAny_compact h).mp hmatch
  have hdigits : ∀ c ∈ w, isHexDigit c = true := by
    have hlookup : capitalLookup.all isHexDigit = true := by decide +kernel
    intro c hc
    have hall : c ∈ carrier ++ capitalLookup := by
      rw [heq]
      simp [hc]
    rcases List.mem_append.mp hall with hcarrier | hcapital
    · exact hex_carrier ((compact_reads h).valid _ hmem) c hcarrier
    · exact List.all_eq_true.mp hlookup c hcapital
  cases representation with
  | raw =>
      have htail : templateTail protocol .raw =
          '$' :: ("\x7bjndi:".toList ++ protocol ++ "://?*/*\x7d".toList) := rfl
      rw [htail] at hw
      exact absurd (hdigits '$' (mem_of_literal rfl hw)) (by decide)
  | url =>
      have htail : templateTail protocol .url =
          '%' :: ("24%7Bjndi%3A".toList ++ protocol ++ "%3A%2F%2F?*%2F*%7D".toList) := rfl
      rw [htail] at hw
      exact absurd (hdigits '%' (mem_of_literal rfl hw)) (by decide)
  | hex =>
      have hnodup := (compact_reads h).nodup
      have hsame : carrier' = carrier :=
        (carrierOf_eq hnodup he).symm.trans (carrierOf_eq hnodup hmem)
      subst hsame
      have hlen : u.length < 35 := by
        have hlength := congrArg List.length heq
        have hcapital : capitalLookup.length = 34 := by decide +kernel
        simp only [List.length_append, hcapital] at hlength
        omega
      have hdrop : capitalLookup.drop u.length = w ++ v := by
        have hcut := congrArg (List.drop (carrier'.length + u.length)) heq
        rw [List.drop_length_add_append] at hcut
        rw [hcut, Nat.add_comm, ← List.drop_drop, List.drop_left, List.drop_left]
      have haccepts : accepts (sameChar false) (ofText (templateTail protocol .hex) ++ [.many])
          (capitalLookup.drop u.length) = true := by
        rw [hdrop, Glob.accepts_iff, lang_append]
        exact Language.mem_mul.mpr ⟨w, hw, v, by simp [Item.lang], rfl⟩
      rw [tails_miss protocol hprotocol u.length hlen] at haccepts
      cases haccepts

/-- **Compaction loses a string of every source it accepts.**  The hexadecimal grammar
writes the path separator `2[Ff]`, its values only `2f`, and they are compared case
by case: the carrier followed by a lookup with `2F` is found and not matched.  A
string without `2F` is kept as long as no carrier has a dot, which is any character to
the source and a dot to the values. -/
theorem compaction_loses_capital {source : Str} {m : Match}
    (h : compactStructuredJndiRegex source = .ok m) (oracle : List Char → Char → Bool) :
    (¬∀ s, Pcre.search oracle source s = true →
      matchesAny m.caseInsensitive m.wildcard m.values s = true) ∧
    (dotless source = true → ∀ s, ¬capitalSeparator <:+: s →
      Pcre.search oracle source s = true →
      matchesAny m.caseInsensitive m.wildcard m.values s = true) := by
  constructor
  · intro hkeeps
    have hreads := compact_reads h
    obtain ⟨carrier, hmem⟩ := hreads.complete .hex
    have hkept := hkeeps _ (search_capital hreads hmem oracle)
    rw [missed_capital h hmem] at hkept
    cases hkept
  · intro hdotless s hcapital hsearch
    exact kept_of_plain h hdotless hcapital hsearch

/-- A source is accepted once its branches are read and there are not too many values. -/
theorem accepted_of_read {source : Str} {branches : List Str} {carriers : Carriers}
    (hbranches : topLevelGroupBranches source = .ok branches)
    (hcarriers : branches.foldlM readBranch [] = .ok carriers)
    (hall : (expectedBranches.all fun e => carriers.any (·.1 = e.1)) = true)
    (hvalues : (unique (compactValues carriers "ldap".toList ++
      compactValues carriers "rmi".toList)).length ≤ maxValues) :
    (compactStructuredJndiRegex source).toOption.isSome = true := by
  unfold compactStructuredJndiRegex
  rw [hbranches]
  simp only [hcarriers]
  rw [if_neg (by rw [hall]; exact Bool.noConfusion), if_neg (Nat.not_lt.mpr hvalues)]
  rfl

theorem bareSource_accepted : (compactStructuredJndiRegex bareSource).toOption.isSome = true := by
  obtain ⟨-, hbranches, hcarriers⟩ := grammars_checked
  exact accepted_of_read (eq_ok_of_toOption hbranches) (eq_ok_of_toOption hcarriers) (by rfl)
    (by decide +kernel)

/-- The source without carriers is compacted, and loses the bare lookup. -/
theorem compaction_loses_capital_bare : ∃ m, compactStructuredJndiRegex bareSource = .ok m ∧
    ¬∀ s, Pcre.search (fun _ _ => false) bareSource s = true →
      matchesAny m.caseInsensitive m.wildcard m.values s = true := by
  cases hm : compactStructuredJndiRegex bareSource with
  | error e =>
      have haccepted := bareSource_accepted
      rw [hm] at haccepted
      cases haccepted
  | ok m => exact ⟨m, rfl, (compaction_loses_capital hm fun _ _ => false).1⟩

/-- The compaction of the source without carriers does not only broaden it. -/
theorem bareSource_not_broadened : ¬∀ (source : Str) (m : Match),
    compactStructuredJndiRegex source = .ok m →
    ∀ s, Pcre.search (fun _ _ => false) source s = true →
      matchesAny m.caseInsensitive m.wildcard m.values s = true := by
  intro hall
  cases hm : compactStructuredJndiRegex bareSource with
  | error e =>
      have haccepted := bareSource_accepted
      rw [hm] at haccepted
      cases haccepted
  | ok m =>
      obtain ⟨carrier, hmem⟩ := (compact_reads hm).complete .hex
      have hkept := hall bareSource m hm _ (search_capital (compact_reads hm) hmem _)
      rw [missed_capital hm hmem] at hkept
      cases hkept

end ModSecurity
