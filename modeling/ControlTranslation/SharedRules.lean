import ControlTranslation.SharedLines
import ControlTranslation.SharedTranslation

/-!
# Rules both programs compile

A directive is parsed to the same rule when the case mappings of the two tables agree
on the names in it, no header name is one that only the original refuses, an operator
is negated with blanks at most, its argument is within the bound in bytes or beyond it
in characters, and no empty message follows another one.  A rule becomes the same
conditions when its regex is read alike and the values are kept as they are.
-/

namespace GoCompiler

open PyText GoText ModSecurity

/-- Whether a variable is named and refused alike. -/
def variableAlike (t : CharTables) (g : GoText.Tables) (raw : Str) : Bool :=
  let collection := strip (partition ':' (strip raw)).1
  let selector := stripChars ['\'', '"'] (strip (partition ':' (strip raw)).2)
  upper g collection = t.upper collection &&
    (t.upper collection ≠ "REQUEST_HEADERS".toList || selector.head? = some '/' ||
      selector.contains '*' || selector.all isHeaderNameChar)

/-- The argument of an operator token. -/
def argumentOf (token : Str) : Str :=
  strip (partition ' ' (ModSecurity.readPolarity (strip token)).2.tail).2

/-- Whether an operator token is cut and bounded alike. -/
def operatorAlike (token : Str) : Bool :=
  ((strip token).head? ≠ some '!' ||
      trimLeftBlanks (strip token).tail = lstrip (strip token).tail) &&
    (byteLength (argumentOf token) ≤ maxArgumentLength ||
      maxArgumentLength < (argumentOf token).length)

/-- Whether an action is named alike, and a transformation's name with it. -/
def actionAlike (t : CharTables) (g : GoText.Tables) (action : Str) : Bool :=
  let name := strip (partition ':' action).1
  let value := strip (partition ':' action).2
  lower g name = t.lower name && (t.lower name ≠ "t".toList || lower g value = t.lower value)

/-- The values of the `msg` actions. -/
def messages (t : CharTables) (actions : List Str) : List Str :=
  (actions.filter fun action => t.lower (strip (partition ':' action).1) = "msg".toList).map
    fun action => strip (partition ':' action).2

/-- Whether no message is followed by an empty one at the end. -/
def lastMessageKept (values : List Str) : Bool :=
  values.getLast? ≠ some [] || values.all fun value => value = []

/-- Whether the actions of a token are read alike. -/
def actionsAlike (t : CharTables) (g : GoText.Tables) (token : Str) : Bool :=
  (ModSecurity.splitActions token).all (actionAlike t g) &&
    lastMessageKept (messages t (ModSecurity.splitActions token))

/-- Whether both programs parse a directive to the same rule. -/
def directiveAlike (t : CharTables) (g : GoText.Tables) (d : Str) : Bool :=
  match ModSecurity.tokenize d with
  | .ok (variableToken :: operatorToken :: more) =>
      (variableToken.splitOn '|').all (variableAlike t g) && operatorAlike operatorToken &&
        actionsAlike t g (more.headD [])
  | _ => true

theorem mapM_congr {α β : Type} {f h : α → Attempt β} {l : List α} (heq : ∀ a ∈ l, f a = h a) :
    l.mapM f = l.mapM h := by
  induction l with
  | nil => rfl
  | cons a rest ih =>
      have hrest := ih fun b hb => heq b (List.mem_cons_of_mem _ hb)
      rw [List.mapM_cons, List.mapM_cons, heq a List.mem_cons_self, hrest]

theorem partition_fst_subset {sep c : Char} {s : Str} (h : c ∈ (partition sep s).1) : c ∈ s :=
  (List.takeWhile_sublist _).subset h

theorem partition_snd_subset {sep c : Char} {s : Str} (h : c ∈ (partition sep s).2) : c ∈ s :=
  (List.dropWhile_sublist _).subset (List.mem_of_mem_tail h)

/-- A piece between separators has characters of the text only, -/
theorem splitOnP_subset {p : Char → Bool} {c : Char} : ∀ {s piece : Str},
    piece ∈ s.splitOnP p → c ∈ piece → c ∈ s := by
  intro s
  induction s with
  | nil =>
      intro piece hpiece hc
      rw [List.splitOnP_nil, List.mem_singleton] at hpiece
      rw [hpiece] at hc
      exact hc
  | cons d rest ih =>
      intro piece hpiece hc
      rw [List.splitOnP_cons_eq_if_modifyHead] at hpiece
      split_ifs at hpiece
      · rcases List.mem_cons.mp hpiece with rfl | hpiece
        · cases hc
        · exact List.mem_cons_of_mem _ (ih hpiece hc)
      · cases hsplit : rest.splitOnP p with
        | nil => exact absurd hsplit (List.splitOnP_ne_nil _ _)
        | cons first more =>
            rw [hsplit, List.modifyHead_cons] at hpiece
            rcases List.mem_cons.mp hpiece with rfl | hpiece
            · rcases List.mem_cons.mp hc with rfl | hc
              · exact List.mem_cons_self
              · exact List.mem_cons_of_mem _ (ih (hsplit ▸ List.mem_cons_self) hc)
            · exact List.mem_cons_of_mem _ (ih (hsplit ▸ List.mem_cons_of_mem _ hpiece) hc)

/-- and none of the separators. -/
theorem splitOnP_outside {p : Char → Bool} {c : Char} : ∀ {s piece : Str},
    piece ∈ s.splitOnP p → c ∈ piece → p c = false := by
  intro s
  induction s with
  | nil =>
      intro piece hpiece hc
      rw [List.splitOnP_nil, List.mem_singleton] at hpiece
      rw [hpiece] at hc
      cases hc
  | cons d rest ih =>
      intro piece hpiece hc
      rw [List.splitOnP_cons_eq_if_modifyHead] at hpiece
      split_ifs at hpiece with hd
      · rcases List.mem_cons.mp hpiece with rfl | hpiece
        · cases hc
        · exact ih hpiece hc
      · cases hsplit : rest.splitOnP p with
        | nil => exact absurd hsplit (List.splitOnP_ne_nil _ _)
        | cons first more =>
            rw [hsplit, List.modifyHead_cons] at hpiece
            rcases List.mem_cons.mp hpiece with rfl | hpiece
            · rcases List.mem_cons.mp hc with rfl | hc
              · exact Bool.eq_false_of_not_eq_true hd
              · exact ih (hsplit ▸ List.mem_cons_self) hc
            · exact ih (hsplit ▸ List.mem_cons_of_mem _ hpiece) hc

/-- Both parse a variable both read alike to the same one. -/
theorem parseVariable_eq {t : CharTables} {g : GoText.Tables} {raw : Str} (hspaced : Spaced raw)
    (halike : variableAlike t g raw = true) :
    parseVariable g raw = ModSecurity.parseVariable t raw := by
  have hitem : Spaced (strip raw) := hspaced.of_subset fun c hc => strip_subset hc
  have hname : Spaced (partition ':' (strip raw)).1 :=
    hitem.of_subset fun c hc => partition_fst_subset hc
  have hselector : Spaced (partition ':' (strip raw)).2 :=
    hitem.of_subset fun c hc => partition_snd_subset hc
  simp only [variableAlike, Bool.and_eq_true, Bool.or_eq_true, decide_eq_true_eq,
    List.contains_iff_mem] at halike
  obtain ⟨hupper, hheader⟩ := halike
  unfold parseVariable ModSecurity.parseVariable
  simp only [trimSpace_eq hspaced, trimSpace_eq hname, trimSpace_eq hselector, hupper]
  by_cases hempty : strip raw = []
  · rw [if_pos hempty, if_pos hempty]
  · rw [if_neg hempty, if_neg hempty]
    by_cases hexclusion : (strip raw).head? = some '!'
    · rw [if_pos hexclusion, if_pos hexclusion]
    · rw [if_neg hexclusion, if_neg hexclusion]
      generalize stripChars ['\'', '"'] (strip (partition ':' (strip raw)).2) = selector
        at hheader ⊢
      by_cases hregex : selector.head? = some '/' ∨ '*' ∈ selector
      · rw [if_pos hregex, if_pos hregex]
      · have hvalid : ¬(t.upper (strip (partition ':' (strip raw)).1) = "REQUEST_HEADERS".toList ∧
            selector ≠ [] ∧ selector.all isHeaderNameChar = false) := by
          intro hname
          rcases hheader with ((h | h) | h) | h
          · exact h hname.1
          · exact hregex (Or.inl h)
          · exact hregex (Or.inr h)
          · rw [hname.2.2] at h
            cases h
        rw [if_neg hregex, if_neg hregex, if_neg hvalid]

theorem parseVariables_eq {t : CharTables} {g : GoText.Tables} {token : Str}
    (hspaced : Spaced token)
    (halike : (token.splitOn '|').all (variableAlike t g) = true) :
    parseVariables g token = ModSecurity.parseVariables t token := by
  have hsame : (token.splitOn '|').mapM (parseVariable g) =
      (token.splitOn '|').mapM (ModSecurity.parseVariable t) :=
    mapM_congr fun raw hraw => parseVariable_eq
      (hspaced.of_subset fun c hc => splitOnP_subset hraw hc) (List.all_eq_true.mp halike raw hraw)
  unfold parseVariables ModSecurity.parseVariables
  rewrite [hsame]
  rfl

theorem splitActionsFrom_eq (current : Str) (quoted : Option Char) (s : Str)
    (hcurrent : Spaced current) (hs : Spaced s) :
    splitActionsFrom current quoted s = ModSecurity.splitActionsFrom current quoted s := by
  have hreverse : ∀ {chunk : Str}, Spaced chunk → trimSpace chunk.reverse = strip chunk.reverse :=
    fun h => trimSpace_eq (h.of_subset fun c hc => List.mem_reverse.mp hc)
  have hcons : ∀ {c : Char} {chunk rest : Str}, Spaced chunk → Spaced (c :: rest) →
      Spaced (c :: chunk) := by
    intro c chunk rest hchunk hrest d hd
    rcases List.mem_cons.mp hd with rfl | hd
    · exact hrest _ List.mem_cons_self
    · exact hchunk d hd
  fun_induction ModSecurity.splitActionsFrom current quoted s with
  | case1 current => rw [splitActionsFrom, hreverse hcurrent]
  | case2 current char rest ih =>
      rw [splitActionsFrom, if_pos rfl, ih hcurrent (Spaced.tail hs)]
  | case3 current quoteChar char rest hne ih =>
      rw [splitActionsFrom, if_neg hne, ih (hcons hcurrent hs) (Spaced.tail hs)]
  | case4 current char rest hquote ih =>
      rw [splitActionsFrom, if_pos hquote, ih hcurrent (Spaced.tail hs)]
  | case5 current rest hquote ih =>
      rw [splitActionsFrom, if_neg hquote, if_pos rfl, ih spaced_nil (Spaced.tail hs),
        hreverse hcurrent]
  | case6 current char rest hquote hcomma ih =>
      rw [splitActionsFrom, if_neg hquote, if_neg hcomma, ih (hcons hcurrent hs) (Spaced.tail hs)]

theorem splitActions_eq {token : Str} (h : Spaced token) :
    splitActions token = ModSecurity.splitActions token := by
  unfold splitActions ModSecurity.splitActions
  rw [splitActionsFrom_eq [] none token spaced_nil h]

/-- An action has characters of its token only. -/
theorem mem_splitActionsFrom {c : Char} (current : Str) (quoted : Option Char) (s : Str) :
    ∀ action ∈ ModSecurity.splitActionsFrom current quoted s, c ∈ action → c ∈ current ∨ c ∈ s := by
  fun_induction ModSecurity.splitActionsFrom current quoted s with
  | case1 current =>
      intro action haction hc
      rw [List.mem_singleton.mp haction] at hc
      exact Or.inl (List.mem_reverse.mp (strip_subset hc))
  | case2 current char rest ih =>
      intro action haction hc
      exact (ih action haction hc).imp_right (List.mem_cons_of_mem _)
  | case3 current quoteChar char rest _ ih =>
      intro action haction hc
      exact mem_chunk_cons (ih action haction hc)
  | case4 current char rest _ ih =>
      intro action haction hc
      exact (ih action haction hc).imp_right (List.mem_cons_of_mem _)
  | case5 current rest _ ih =>
      intro action haction hc
      rcases List.mem_cons.mp haction with rfl | haction
      · exact Or.inl (List.mem_reverse.mp (strip_subset hc))
      · rcases ih action haction hc with h | h
        · cases h
        · exact Or.inr (List.mem_cons_of_mem _ h)
  | case6 current char rest _ _ ih =>
      intro action haction hc
      exact mem_chunk_cons (ih action haction hc)

theorem mem_splitActions {c : Char} {token action : Str}
    (haction : action ∈ ModSecurity.splitActions token) (hc : c ∈ action) : c ∈ token := by
  rcases mem_splitActionsFrom [] none token action (List.mem_of_mem_filter haction) hc with h | h
  · cases h
  · exact h

/-- The message after some actions: the last one, or the last that is not empty. -/
theorem messages_agree {values : List Str} (h : lastMessageKept values = true) :
    values.foldl (fun m v => if v = [] then m else some v) none =
      values.foldl (fun _ v => if v = [] then none else some v) none := by
  induction values using List.reverseRecOn with
  | nil => rfl
  | append_singleton values v ih =>
      rw [List.foldl_append, List.foldl_append, List.foldl_cons, List.foldl_cons, List.foldl_nil,
        List.foldl_nil]
      by_cases hv : v = []
      · have hall : ∀ w ∈ values, w = [] := by
          simpa [lastMessageKept, hv] using h
        have hnone : ∀ (l : List Str), (∀ w ∈ l, w = []) →
            l.foldl (fun m v => if v = [] then m else some v) (none : Option Str) = none := by
          intro l
          induction l with
          | nil => exact fun _ => rfl
          | cons w l ih =>
              intro hl
              rw [List.foldl_cons, if_pos (hl w List.mem_cons_self)]
              exact ih fun w hw => hl w (List.mem_cons_of_mem _ hw)
        rw [if_pos hv, if_pos hv, hnone values hall]
      · rw [if_neg hv, if_neg hv]

/-- The original's message is the last one, if it is not empty. -/
theorem original_message {t : CharTables} : ∀ (actions : List Str) (read : Actions),
    (actions.foldl (ModSecurity.readAction t) read).message =
      (messages t actions).foldl (fun _ v => if v = [] then none else some v) read.message := by
  intro actions
  induction actions with
  | nil => exact fun _ => rfl
  | cons action rest ih =>
      intro read
      rw [List.foldl_cons, ih]
      unfold messages
      by_cases hmsg : t.lower (strip (partition ':' action).1) = "msg".toList
      · rw [List.filter_cons_of_pos (by simpa using hmsg), List.map_cons, List.foldl_cons]
        simp [ModSecurity.readAction, hmsg]
      · rw [List.filter_cons_of_neg (by simpa using hmsg)]
        congr 1
        simp only [ModSecurity.readAction, if_neg hmsg]
        split_ifs <;> rfl

/-- What two programs have read alike but for the message. -/
structure ReadAlike (read read' : Actions) : Prop where
  transformations : read.transformations = read'.transformations
  tags : read.tags = read'.tags
  chained : read.chained = read'.chained

/-- One action: read alike but for the message, which the port keeps from an empty one. -/
theorem readAction_alike {t : CharTables} {g : GoText.Tables} {action : Str} {read read' : Actions}
    (hspaced : Spaced action) (halike : actionAlike t g action = true)
    (hread : ReadAlike read read') :
    ReadAlike (readAction g read action) (ModSecurity.readAction t read' action) ∧
      (readAction g read action).message =
        (messages t [action]).foldl (fun m v => if v = [] then m else some v) read.message := by
  have hname : Spaced (partition ':' action).1 :=
    hspaced.of_subset fun c hc => partition_fst_subset hc
  have hvalue : Spaced (partition ':' action).2 :=
    hspaced.of_subset fun c hc => partition_snd_subset hc
  simp only [actionAlike, Bool.and_eq_true, Bool.or_eq_true, decide_eq_true_eq] at halike
  obtain ⟨hlower, htransformation⟩ := halike
  simp only [readAction, ModSecurity.readAction, trimSpace_eq hname, trimSpace_eq hvalue, hlower]
  by_cases ht : t.lower (strip (partition ':' action).1) = "t".toList
  · have hmessages : messages t [action] = [] := by
      simp [messages, ht]
    rw [if_pos ht, if_pos ht, hmessages, htransformation.resolve_left (not_not.mpr ht)]
    exact ⟨⟨by rw [hread.transformations], hread.tags, hread.chained⟩, rfl⟩
  · rw [if_neg ht, if_neg ht]
    by_cases hmsg : t.lower (strip (partition ':' action).1) = "msg".toList
    · have hmessages : messages t [action] = [strip (partition ':' action).2] := by
        simp [messages, hmsg]
      rw [if_pos hmsg, if_pos hmsg, hmessages, List.foldl_cons, List.foldl_nil]
      by_cases hempty : strip (partition ':' action).2 = []
      · rw [if_pos hempty, if_pos hempty]
        exact ⟨⟨hread.transformations, hread.tags, hread.chained⟩, (if_pos hempty).symm⟩
      · rw [if_neg hempty, if_neg hempty]
        exact ⟨⟨hread.transformations, hread.tags, hread.chained⟩, (if_neg hempty).symm⟩
    · have hmessages : messages t [action] = [] := by
        simpa [messages] using hmsg
      rw [if_neg hmsg, if_neg hmsg, hmessages]
      by_cases htag : t.lower (strip (partition ':' action).1) = "tag".toList
      · rw [if_pos htag, if_pos htag]
        by_cases hempty : strip (partition ':' action).2 = []
        · rw [if_pos hempty, if_pos hempty]
          exact ⟨hread, rfl⟩
        · rw [if_neg hempty, if_neg hempty]
          exact ⟨⟨hread.transformations, by rw [hread.tags], hread.chained⟩, rfl⟩
      · rw [if_neg htag, if_neg htag]
        by_cases hchain : t.lower (strip (partition ':' action).1) = "chain".toList
        · rw [if_pos hchain, if_pos hchain]
          exact ⟨⟨hread.transformations, hread.tags, rfl⟩, rfl⟩
        · rw [if_neg hchain, if_neg hchain]
          exact ⟨hread, rfl⟩

theorem messages_cons (t : CharTables) (action : Str) (rest : List Str) :
    messages t (action :: rest) = messages t [action] ++ messages t rest := by
  unfold messages
  rw [← List.map_append, ← List.filter_append]
  rfl

/-- All actions: the step above from action to action. -/
theorem foldl_readAction_alike {t : CharTables} {g : GoText.Tables} : ∀ {actions : List Str}
    {read read' : Actions}, (∀ action ∈ actions, Spaced action) →
    actions.all (actionAlike t g) = true → ReadAlike read read' →
    ReadAlike (actions.foldl (readAction g) read)
      (actions.foldl (ModSecurity.readAction t) read') ∧
      (actions.foldl (readAction g) read).message =
        (messages t actions).foldl (fun m v => if v = [] then m else some v) read.message := by
  intro actions
  induction actions with
  | nil => exact fun _ _ hread => ⟨hread, rfl⟩
  | cons action rest ih =>
      intro read read' hspaced halike hread
      rw [List.all_cons, Bool.and_eq_true] at halike
      obtain ⟨hstep, hmessage⟩ :=
        readAction_alike (hspaced action List.mem_cons_self) halike.1 hread
      obtain ⟨hrun, hmessages⟩ :=
        ih (fun a ha => hspaced a (List.mem_cons_of_mem _ ha)) halike.2 hstep
      rw [List.foldl_cons, List.foldl_cons]
      refine ⟨hrun, ?_⟩
      rw [hmessages, hmessage, messages_cons t action rest, List.foldl_append]

theorem readActions_eq {t : CharTables} {g : GoText.Tables} {token : Str} (hspaced : Spaced token)
    (halike : actionsAlike t g token = true) :
    readActions g token = ModSecurity.readActions t token := by
  rw [actionsAlike, Bool.and_eq_true] at halike
  have hactions : ∀ action ∈ ModSecurity.splitActions token, Spaced action :=
    fun action haction => hspaced.of_subset fun c hc => mem_splitActions haction hc
  obtain ⟨hread, hmessage⟩ := @foldl_readAction_alike t g _ ⟨[], none, [], false⟩
    ⟨[], none, [], false⟩ hactions halike.1 ⟨rfl, rfl, rfl⟩
  have horiginal := original_message (t := t) (ModSecurity.splitActions token) ⟨[], none, [], false⟩
  unfold readActions ModSecurity.readActions
  rw [splitActions_eq hspaced]
  generalize (ModSecurity.splitActions token).foldl (readAction g) _ = read at hread hmessage ⊢
  generalize (ModSecurity.splitActions token).foldl (ModSecurity.readAction t) _ = read'
    at hread horiginal ⊢
  obtain ⟨transformations, message, tags, chained⟩ := read
  obtain ⟨transformations', message', tags', chained'⟩ := read'
  obtain ⟨rfl, rfl, rfl⟩ := hread
  rw [messages_agree halike.2] at hmessage
  obtain rfl : message = message' := hmessage.trans horiginal.symm
  rfl

theorem readPolarity_eq {token : Str}
    (h : token.head? ≠ some '!' ∨ trimLeftBlanks token.tail = lstrip token.tail) :
    readPolarity token = ModSecurity.readPolarity token := by
  unfold readPolarity ModSecurity.readPolarity
  by_cases hnegated : token.head? = some '!'
  · rw [if_pos hnegated, if_pos hnegated, h.resolve_left (not_not.mpr hnegated)]
  · rw [if_neg hnegated, if_neg hnegated]

theorem readPolarity_subset {token : Str} {c : Char}
    (h : c ∈ (ModSecurity.readPolarity token).2) : c ∈ token := by
  unfold ModSecurity.readPolarity at h
  split_ifs at h
  · exact List.mem_of_mem_tail (lstrip_subset h)
  · exact h

/-- **Rules.**  An ordinary directive is parsed to the same rule by both. -/
theorem parseSecRule_eq {t : CharTables} {g : GoText.Tables} {d : Str}
    (hkeyword : ModSecurity.isSecRuleLine t d = true) (hlong : (lstrip d).head? ≠ some 'ſ')
    (hspaced : Spaced d) (halike : directiveAlike t g d = true) :
    parseSecRule g d = ModSecurity.parseSecrule t d := by
  unfold parseSecRule ModSecurity.parseSecrule
  unfold directiveAlike at halike
  rw [tokenize_eq hkeyword hlong hspaced]
  cases htokens : ModSecurity.tokenize d with
  | error e => rfl
  | ok tokens =>
      have htoken : ∀ token ∈ tokens, Spaced token := fun token hmem =>
        hspaced.of_subset fun c hc => mem_token htokens hmem hc
      rw [htokens] at halike
      rcases tokens with _ | ⟨variableToken, _ | ⟨operatorToken, more⟩⟩
      · rfl
      · rfl
      · simp only [Bool.and_eq_true] at halike
        obtain ⟨⟨hvariables, hoperator⟩, hactions⟩ := halike
        have hvariableToken := htoken variableToken (by simp)
        have hoperatorToken := htoken operatorToken (by simp)
        have hactionToken : Spaced (more.headD []) := by
          cases more with
          | nil => exact spaced_nil
          | cons token more => exact htoken token (by simp)
        simp only [operatorAlike, Bool.and_eq_true, Bool.or_eq_true, decide_eq_true_eq]
          at hoperator
        obtain ⟨hblanks, hbytes⟩ := hoperator
        simp only [parseVariables_eq hvariableToken hvariables, trimSpace_eq hoperatorToken,
          readActions_eq hactionToken hactions, readPolarity_eq hblanks]
        cases ModSecurity.parseVariables t variableToken with
        | error e => rfl
        | ok vars =>
            have hrest : Spaced (ModSecurity.readPolarity (strip operatorToken)).2.tail :=
              hoperatorToken.of_subset fun c hc =>
                strip_subset (readPolarity_subset (List.mem_of_mem_tail hc))
            unfold argumentOf at hbytes
            generalize ModSecurity.readPolarity (strip operatorToken) = polarity at hbytes hrest ⊢
            obtain ⟨negated, rest⟩ := polarity
            have hname : Spaced (partition ' ' rest.tail).1 :=
              hrest.of_subset fun c hc => partition_fst_subset hc
            have hargument : Spaced (partition ' ' rest.tail).2 :=
              hrest.of_subset fun c hc => partition_snd_subset hc
            simp only [trimSpace_eq hname, trimSpace_eq hargument] at hbytes ⊢
            have hbound : maxArgumentLength < byteLength (strip (partition ' ' rest.tail).2) ↔
                maxArgumentLength < (strip (partition ' ' rest.tail).2).length := by
              have hle := length_le_byteLength (strip (partition ' ' rest.tail).2)
              omega
            simp only [hbound]

/-- Whether both refuse a variable, whatever their tables. -/
def variableRefused (raw : Str) : Bool :=
  let selector := stripChars ['\'', '"'] (strip (partition ':' (strip raw)).2)
  (strip raw).isEmpty || (strip raw).head? = some '!' || selector.head? = some '/' ||
    selector.contains '*'

/-- Whether both refuse an operator token: what the original refuses, the port does. -/
def operatorRefused (token : Str) : Bool :=
  (ModSecurity.readPolarity (strip token)).2.head? ≠ some '@' ||
    maxArgumentLength < (argumentOf token).length

/-- Whether both refuse a directive for its tokens, its variables or its operator. -/
def directiveRefused (d : Str) : Bool :=
  match ModSecurity.tokenize d with
  | .ok (variableToken :: operatorToken :: _) =>
      (variableToken.splitOn '|').any variableRefused || operatorRefused operatorToken
  | _ => true

/-- The original refuses a variable that neither takes. -/
theorem parseVariable_refused {t : CharTables} {raw : Str} (h : variableRefused raw = true) :
    ∃ e, ModSecurity.parseVariable t raw = .error e := by
  simp only [variableRefused, Bool.or_eq_true, List.isEmpty_iff, decide_eq_true_eq,
    List.contains_iff_mem, or_assoc] at h
  unfold ModSecurity.parseVariable
  dsimp only
  split_ifs with hempty hexclusion hregex hvalid
  · exact ⟨_, rfl⟩
  · exact ⟨_, rfl⟩
  · exact ⟨_, rfl⟩
  · exact ⟨_, rfl⟩
  · exact absurd ((h.resolve_left hempty).resolve_left hexclusion) hregex

theorem parseVariable_refused_port {g : GoText.Tables} {raw : Str} (hspaced : Spaced raw)
    (h : variableRefused raw = true) : ∃ e, parseVariable g raw = .error e := by
  have hselector : Spaced (partition ':' (strip raw)).2 :=
    hspaced.of_subset fun c hc => strip_subset (partition_snd_subset hc)
  simp only [variableRefused, Bool.or_eq_true, List.isEmpty_iff, decide_eq_true_eq,
    List.contains_iff_mem, or_assoc] at h
  unfold parseVariable
  simp only [trimSpace_eq hspaced, trimSpace_eq hselector]
  split_ifs with hempty hexclusion hregex
  · exact ⟨_, rfl⟩
  · exact ⟨_, rfl⟩
  · exact ⟨_, rfl⟩
  · exact absurd ((h.resolve_left hempty).resolve_left hexclusion) hregex

/-- A traversal fails where one element does. -/
theorem mapM_error {α β : Type} {f : α → Attempt β} {l : List α} {a : α} (ha : a ∈ l)
    (h : ∃ e, f a = .error e) : ∃ e, l.mapM f = .error e := by
  cases hrun : l.mapM f with
  | error e => exact ⟨e, rfl⟩
  | ok r =>
      obtain ⟨b, -, hb⟩ := mapM_ok_left hrun ha
      obtain ⟨e, he⟩ := h
      rw [he] at hb
      cases hb

/-- An operator that the port finds after blanks begins where the original finds it. -/
theorem blanks_of_at {token : Str} (h : (readPolarity token).2.head? = some '@') :
    token.head? ≠ some '!' ∨ trimLeftBlanks token.tail = lstrip token.tail := by
  refine or_iff_not_imp_left.mpr fun hnegated => ?_
  rw [readPolarity, if_pos (not_not.mp hnegated)] at h
  unfold trimLeftBlanks lstrip at *
  generalize token.tail = rest at h ⊢
  induction rest with
  | nil => rfl
  | cons c rest ih =>
      cases hblank : isBlank c with
      | true =>
          have hspace : PyText.isSpace c = true := by
            simp only [isBlank, Bool.or_eq_true, beq_iff_eq] at hblank
            rcases hblank with rfl | rfl <;> decide
          simp only [List.dropWhile_cons, hblank, hspace, if_true] at h ⊢
          exact ih h
      | false =>
          simp only [List.dropWhile_cons, hblank, Bool.false_eq_true, if_false, List.head?_cons,
            Option.some.injEq] at h ⊢
          rw [h, if_neg (by decide)]

/-- **Refusals.**  The original refuses such a directive, -/
theorem parseSecrule_refused {t : CharTables} {d : Str} (h : directiveRefused d = true) :
    ∃ e, ModSecurity.parseSecrule t d = .error e := by
  unfold directiveRefused at h
  unfold ModSecurity.parseSecrule
  cases htokens : ModSecurity.tokenize d with
  | error e => exact ⟨e, rfl⟩
  | ok tokens =>
      rw [htokens] at h
      rcases tokens with _ | ⟨variableToken, _ | ⟨operatorToken, more⟩⟩
      · exact ⟨_, rfl⟩
      · exact ⟨_, rfl⟩
      · simp only [operatorRefused, Bool.or_eq_true, List.any_eq_true, decide_eq_true_eq] at h
        unfold argumentOf at h
        dsimp only
        cases hvars : ModSecurity.parseVariables t variableToken with
        | error e => exact ⟨e, rfl⟩
        | ok vars =>
            rcases h with ⟨raw, hraw, hrefused⟩ | hoperator
            · obtain ⟨e, he⟩ := mapM_error hraw (parseVariable_refused (t := t) hrefused)
              simp [ModSecurity.parseVariables, he] at hvars
            · dsimp only
              split_ifs with hat hlength
              · exact ⟨_, rfl⟩
              · exact ⟨_, rfl⟩
              · exact absurd (hoperator.resolve_left hat) hlength

/-- and the port does: an operator token it cuts otherwise begins with white space. -/
theorem parseSecRule_refused {t : CharTables} {g : GoText.Tables} {d : Str}
    (hkeyword : ModSecurity.isSecRuleLine t d = true) (hlong : (lstrip d).head? ≠ some 'ſ')
    (hspaced : Spaced d) (h : directiveRefused d = true) :
    ∃ e, parseSecRule g d = .error e := by
  unfold directiveRefused at h
  unfold parseSecRule
  rw [tokenize_eq hkeyword hlong hspaced]
  cases htokens : ModSecurity.tokenize d with
  | error e => exact ⟨e, rfl⟩
  | ok tokens =>
      have htoken : ∀ token ∈ tokens, Spaced token := fun token hmem =>
        hspaced.of_subset fun c hc => mem_token htokens hmem hc
      rw [htokens] at h
      rcases tokens with _ | ⟨variableToken, _ | ⟨operatorToken, more⟩⟩
      · exact ⟨_, rfl⟩
      · exact ⟨_, rfl⟩
      · have hvariableToken := htoken variableToken (by simp)
        have hoperatorToken := htoken operatorToken (by simp)
        simp only [operatorRefused, Bool.or_eq_true, List.any_eq_true, decide_eq_true_eq] at h
        unfold argumentOf at h
        simp only [trimSpace_eq hoperatorToken]
        cases hvars : parseVariables g variableToken with
        | error e => exact ⟨e, rfl⟩
        | ok vars =>
            rcases h with ⟨raw, hraw, hrefused⟩ | hoperator
            · obtain ⟨e, he⟩ := mapM_error hraw (parseVariable_refused_port (g := g)
                (hvariableToken.of_subset fun c hc => splitOnP_subset hraw hc) hrefused)
              simp [parseVariables, he] at hvars
            · dsimp only
              split_ifs with hat hlength
              · exact ⟨_, rfl⟩
              · exact ⟨_, rfl⟩
              · have hpolarity := readPolarity_eq (blanks_of_at (not_not.mp hat))
                rw [hpolarity] at hat hlength
                have hargument : Spaced (partition ' ' (ModSecurity.readPolarity
                    (strip operatorToken)).2.tail).2 :=
                  hoperatorToken.of_subset fun c hc => strip_subset
                    (readPolarity_subset (List.mem_of_mem_tail (partition_snd_subset hc)))
                rw [trimSpace_eq hargument] at hlength
                have hle := length_le_byteLength (strip (partition ' '
                  (ModSecurity.readPolarity (strip operatorToken)).2.tail).2)
                have hlong := hoperator.resolve_left hat
                omega

/-- The texts of a rule are pieces of its directive. -/
structure Within (d : Str) (rule : SecRule) : Prop where
  selector : ∀ v ∈ rule.vars, ∀ selector, v.selector = some selector → ∀ c ∈ selector, c ∈ d
  argument : ∀ c ∈ rule.argument, c ∈ d
  message : ∀ message, rule.message = some message → ∀ c ∈ message, c ∈ d

theorem stripChars_subset {chars s : Str} {c : Char} (h : c ∈ stripChars chars s) : c ∈ s :=
  (List.dropWhile_sublist _).subset ((List.rdropWhile_prefix _ _).subset h)

/-- A selector has characters of the variable only. -/
theorem parseVariable_within {t : CharTables} {raw : Str} {v : Variable}
    (h : ModSecurity.parseVariable t raw = .ok v) {selector : Str}
    (hselector : v.selector = some selector) : ∀ c ∈ selector, c ∈ raw := by
  intro c hc
  simp only [ModSecurity.parseVariable] at h
  split_ifs at h with h₁ h₂ h₃ h₄ h₅
  all_goals obtain rfl := Except.ok.inj h
  · cases hselector
  · obtain rfl := Option.some.inj hselector
    exact strip_subset (partition_snd_subset (strip_subset (stripChars_subset hc)))

theorem parseVariables_within {t : CharTables} {token : Str} {vars : List Variable}
    (h : ModSecurity.parseVariables t token = .ok vars) : ∀ v ∈ vars, ∀ selector,
      v.selector = some selector → ∀ c ∈ selector, c ∈ token := by
  intro v hv selector hselector c hc
  unfold ModSecurity.parseVariables at h
  cases hvars : (token.splitOn '|').mapM (ModSecurity.parseVariable t) with
  | error e => simp [hvars] at h
  | ok found =>
      simp only [hvars] at h
      split_ifs at h
      obtain rfl := Except.ok.inj h
      obtain ⟨raw, hraw, hparsed⟩ := mapM_ok_right hvars hv
      exact splitOnP_subset hraw (parseVariable_within hparsed hselector c hc)

theorem foldl_message_mem {values : List Str} {message : Str} : ∀ {first : Option Str},
    values.foldl (fun _ v => if v = [] then none else some v) first = some message →
    message ∈ values ∨ first = some message := by
  induction values with
  | nil => exact fun h => Or.inr h
  | cons value values ih =>
      intro first h
      rw [List.foldl_cons] at h
      rcases ih h with hmem | hvalue
      · exact Or.inl (List.mem_cons_of_mem _ hmem)
      · split_ifs at hvalue
        obtain rfl := Option.some.inj hvalue
        exact Or.inl List.mem_cons_self

/-- A message has characters of the actions only. -/
theorem readActions_within {t : CharTables} {token message : Str}
    (h : (ModSecurity.readActions t token).message = some message) : ∀ c ∈ message, c ∈ token := by
  intro c hc
  unfold ModSecurity.readActions at h
  rw [original_message] at h
  rcases foldl_message_mem h with hmem | hnone
  · obtain ⟨action, haction, rfl⟩ := List.mem_map.mp hmem
    exact mem_splitActions (List.mem_of_mem_filter haction)
      (partition_snd_subset (strip_subset hc))
  · cases hnone

/-- **Pieces.**  Every text of a parsed rule is a piece of its directive, and its
argument is within the bound of both when the directive is alike. -/
theorem parseSecrule_within {t : CharTables} {g : GoText.Tables} {d : Str} {rule : SecRule}
    (h : ModSecurity.parseSecrule t d = .ok rule) (halike : directiveAlike t g d = true) :
    Within d rule ∧ byteLength rule.argument ≤ maxArgumentLength := by
  unfold ModSecurity.parseSecrule at h
  unfold directiveAlike at halike
  cases htokens : ModSecurity.tokenize d with
  | error e => simp [htokens] at h
  | ok tokens =>
      rw [htokens] at h halike
      rcases tokens with _ | ⟨variableToken, _ | ⟨operatorToken, more⟩⟩
      · cases h
      · cases h
      · simp only [Bool.and_eq_true, operatorAlike, Bool.or_eq_true, decide_eq_true_eq] at halike
        obtain ⟨⟨-, -, hbytes⟩, -⟩ := halike
        cases hvars : ModSecurity.parseVariables t variableToken with
        | error e => simp [hvars] at h
        | ok vars =>
            simp only [hvars] at h
            unfold argumentOf at hbytes
            generalize hpolarity : ModSecurity.readPolarity (strip operatorToken) = polarity
              at hbytes h
            obtain ⟨negated, rest⟩ := polarity
            simp only at hbytes h
            split_ifs at h with hat hlength
            obtain rfl := Except.ok.inj h
            have hrest : ∀ c ∈ rest, c ∈ operatorToken := by
              intro c hc
              refine strip_subset (readPolarity_subset ?_)
              rw [hpolarity]
              exact hc
            refine ⟨⟨?_, ?_, ?_⟩, hbytes.resolve_right hlength⟩
            · intro v hv selector hselector c hc
              exact mem_token htokens (by simp)
                (parseVariables_within hvars v hv selector hselector c hc)
            · intro c hc
              exact mem_token htokens (by simp)
                (hrest c (List.mem_of_mem_tail (partition_snd_subset (strip_subset hc))))
            · intro message hmessage c hc
              have hmem := readActions_within hmessage c hc
              cases more with
              | nil => cases hmem
              | cons token more => exact mem_token htokens (by simp) hmem

end GoCompiler
