import FilterQuery.Proofs.Report.FlatText
import FilterQuery.Proofs.Report.Parameters

/-!
Lines of flat texts. A flat text has one line for each link of its chain, and one more for each line
feed in the quoted texts of the chain: nothing else that is written holds one. So the lines are the
entries of the flat fold exactly if no quoted text holds a line feed.
-/

namespace FilterQuery

/-- The parts of a text between its line feeds. -/
def lines (text : String) : List String :=
  (text.toList.splitOn '\n').map String.ofList

theorem length_splitOn (x : Char) (s : List Char) : (s.splitOn x).length = s.count x + 1 := by
  induction s with
  | nil => rfl
  | cons y s ih =>
    rw [List.splitOn_eq_splitOnP] at ih ⊢
    rw [List.splitOnP_cons_eq_if_modifyHead]
    by_cases h : y = x <;> simp [h, ih]

theorem length_lines (text : String) : (lines text).length = text.toList.count '\n' + 1 := by
  rw [lines, List.length_map, length_splitOn]

theorem lines_intercalate {ts : List String} (hne : ts ≠ []) (h : ∀ t ∈ ts, '\n' ∉ t.toList) :
    lines ("\n".intercalate ts) = ts := by
  have hsplit : (['\n'].intercalate (ts.map String.toList)).splitOn '\n' = ts.map String.toList :=
    List.splitOn_intercalate '\n' (List.forall_mem_map.2 h) (by simpa using hne)
  have hsep : "\n".toList = ['\n'] := by decide
  rw [lines, String.toList_intercalate, hsep, hsplit, List.map_map]
  simp [Function.comp_def]

theorem count_lineFeed_intercalate {ts : List String} (hne : ts ≠ []) :
    ("\n".intercalate ts).toList.count '\n' + 1 =
      ts.length + (ts.flatMap String.toList).count '\n' := by
  have hbelow (us : List String) : (us.flatMap fun u => '\n' :: u.toList).count '\n' =
      us.length + (us.flatMap String.toList).count '\n' := by
    induction us with
    | nil => rfl
    | cons u us ih =>
      simp only [List.flatMap_cons, List.count_append, List.count_cons_self, List.length_cons, ih]
      omega
  obtain ⟨t, ts, rfl⟩ := List.exists_cons_of_ne_nil hne
  rw [toList_intercalate_lineFeed, List.count_append, hbelow, List.flatMap_cons,
    List.count_append, List.length_cons]
  omega

/-! ## Quoted texts -/

/-- The characters that a literal writes as they are. -/
def Literal.quotedText : Literal → List Char
  | .text t => t.toList
  | _ => []

def Leaf.quotedText (l : Leaf) : List Char :=
  l.values.flatMap Literal.quotedText

def Condition.quotedText (x : Condition) : List Char :=
  x.leaves.flatMap Leaf.quotedText

/-- The quoted texts of all leaves, one behind the other. -/
def Chain.quotedText (c : Chain) : List Char :=
  (Chain.leaves c).flatMap Leaf.quotedText

theorem Chain.quotedText_cons (l : Link) (c : Chain) :
    Chain.quotedText (l :: c) = l.condition.quotedText ++ Chain.quotedText c := by
  obtain ⟨j, negated, x⟩ := l
  rw [quotedText, leaves, List.flatMap_append]
  rfl

/-! ## Line feeds in canonical texts -/

section LineFeeds

variable {d : Dialect} {dotted : Bool}

theorem IsIdentifier.count_lineFeed {name : String} (h : IsIdentifier dotted name) :
    name.toList.count '\n' = 0 := by
  rw [List.count_eq_zero]
  intro hm
  have hname := h.2 _ hm
  cases dotted <;> cases hname

theorem Operator.count_lineFeed (op : Operator) : op.text.toList.count '\n' = 0 := by
  cases op <;> decide

theorem count_lineFeed_notText (negated : Bool) : (notText negated).toList.count '\n' = 0 := by
  cases negated <;> decide

theorem IntegerLayout.lineFeed_notMem {s : List Char} {n : Int64} (h : IntegerLayout s n) :
    '\n' ∉ s := by
  cases h with
  | bare _ hs _ => exact hs.notMem rfl
  | minus _ hs _ => simp [hs.notMem (x := '\n') rfl]

/-- Of the literals that can be written only texts have line feeds. -/
theorem Literal.Writable.count_lineFeed {v : Literal} (h : v.Writable) :
    v.render.toList.count '\n' = v.quotedText.count '\n' := by
  cases v with
  | integer n =>
    rw [render]
    exact List.count_eq_zero.2 (IntegerLayout.ofInt n).lineFeed_notMem
  | text t =>
    rw [render, toList_quoted, quoted]
    simp [quotedText]
  | boolean b => cases b <;> decide
  | date t =>
    have ht := (DateLayout.text h.1 h.2).notMem (x := '\n') rfl (by decide)
    rw [render, toList_quotedDate, quoted]
    simp [quotedText, List.count_eq_zero.2 ht]
  | timestamp t =>
    have ht := (TimestampLayout.text h.1.1 h.1.2 h.2).notMem (x := '\n') rfl (by decide)
    rw [render, toList_quotedTimestamp, quoted]
    simp [quotedText, List.count_eq_zero.2 ht]
  | list => cases h

theorem Literal.count_lineFeed_renderItems {vs : List Literal}
    (h : ∀ v ∈ vs, v.WritableElement) :
    (renderItems vs).toList.count '\n' = (vs.flatMap quotedText).count '\n' := by
  induction vs with
  | nil => rfl
  | cons v vs ih =>
    obtain ⟨hv, hvs⟩ := List.forall_mem_cons.1 h
    cases vs with
    | nil => simpa [renderItems] using hv.2.count_lineFeed
    | cons w vs => simp [renderItems, hv.2.count_lineFeed, ih hvs]

theorem Leaf.WellFormed.count_lineFeed {l : Leaf} (h : l.WellFormed dotted) :
    l.render.toList.count '\n' = l.quotedText.count '\n' := by
  obtain ⟨hi, h⟩ := h
  cases l with
  | comparison f op v =>
    have hf : f.toList.count '\n' = 0 := IsIdentifier.count_lineFeed hi
    simp [render, quotedText, values, hf, op.count_lineFeed, h.2.count_lineFeed]
  | nullCheck f expectsNull =>
    have hf : f.toList.count '\n' = 0 := IsIdentifier.count_lineFeed hi
    simp [render, quotedText, values, hf, Operator.count_lineFeed]
  | membership f negated vs =>
    have hf : f.toList.count '\n' = 0 := IsIdentifier.count_lineFeed hi
    simp [render, Literal.render, quotedText, values, hf, Operator.count_lineFeed,
      Literal.count_lineFeed_renderItems h]

mutual

theorem Condition.WellFormed.count_lineFeed {negated : Bool} :
    {x : Condition} → x.WellFormed d negated →
      x.render.toList.count '\n' = x.quotedText.count '\n'
  | .leaf l, h => by
    rw [Condition.render, h.1.count_lineFeed, Condition.quotedText, Condition.leaves]
    simp
  | .group n body, h => by
    have hbody := Chain.WellFormed.count_lineFeed h.2.2
    rw [Chain.quotedText] at hbody
    rw [Condition.render, Condition.quotedText, Condition.leaves]
    simpa [count_lineFeed_notText] using hbody

theorem Chain.WellFormed.count_lineFeed :
    {c : List Link} → Chain.WellFormed d c →
      (Chain.render c).toList.count '\n' = (Chain.quotedText c).count '\n'
  | ⟨_, negated, x⟩ :: ls, ⟨rfl, hx, hls⟩ => by
    rw [Chain.render, Chain.quotedText_cons]
    simp [count_lineFeed_notText, hx.count_lineFeed, Links.WellFormed.count_lineFeed hls]

theorem Links.WellFormed.count_lineFeed :
    {ls : List Link} → Links.WellFormed d ls →
      (Chain.render ls).toList.count '\n' = (Chain.quotedText ls).count '\n'
  | [], _ => rfl
  | ⟨some j, negated, x⟩ :: ls, ⟨_, hx, hls⟩ => by
    have hj : j.text.toList.count '\n' = 0 := by cases j <;> decide
    rw [Chain.render, Chain.quotedText_cons]
    simp [count_lineFeed_notText, hj, hx.count_lineFeed, Links.WellFormed.count_lineFeed hls]

end

/-! ## Entries of the flat fold -/

theorem Tagged.count_lineFeed {t : Tagged} (h : t.condition.WellFormed d t.negated) :
    t.render.toList.count '\n' = t.condition.quotedText.count '\n' := by
  have hj : t.join.text.toList.count '\n' = 0 := by cases t.join <;> decide
  simp [render, hj, count_lineFeed_notText, h.count_lineFeed]

theorem Chain.WellFormed.condition_flatten {c : Chain} (h : Chain.WellFormed d c) :
    ∀ t ∈ c.flatten, t.condition.WellFormed d t.negated := by
  cases c with
  | nil => cases h
  | cons l ls =>
    obtain ⟨hl, hls⟩ := List.forall_mem_cons.1 h.condition
    exact List.forall_mem_cons.2 ⟨hl, List.forall_mem_map.2 hls⟩

namespace Chain

variable {c : Chain}

theorem length_flatten (c : Chain) : c.flatten.length = c.length := by
  cases c <;> simp [flatten]

theorem WellFormed.render_flatten_ne_nil (h : Chain.WellFormed d c) :
    c.flatten.map Tagged.render ≠ [] := by
  cases c with
  | nil => cases h
  | cons l ls => simp [flatten]

theorem quotedText_eq_flatMap_flatten (c : Chain) :
    quotedText c = c.flatten.flatMap fun t => t.condition.quotedText := by
  have hlinks (ls : List Link) :
      quotedText ls = (ls.map Link.tagged).flatMap fun t => t.condition.quotedText := by
    induction ls with
    | nil => rfl
    | cons l ls ih => rw [quotedText_cons, ih]; rfl
  cases c with
  | nil => rfl
  | cons l ls => rw [quotedText_cons, hlinks]; rfl

theorem WellFormed.count_lineFeed_flatten (h : Chain.WellFormed d c) :
    ((c.flatten.map Tagged.render).flatMap String.toList).count '\n' =
      (quotedText c).count '\n' := by
  have hentry : ∀ t ∈ c.flatten,
      t.render.toList.count '\n' = t.condition.quotedText.count '\n' :=
    fun t ht => Tagged.count_lineFeed (h.condition_flatten t ht)
  rw [quotedText_eq_flatMap_flatten, List.flatMap_map, List.count_flatMap, List.count_flatMap]
  exact congrArg List.sum (List.map_congr_left hentry)

/-- The lines of a flat text are as many as the links and the line feeds in quoted texts. -/
theorem WellFormed.length_lines_renderFlat (h : Chain.WellFormed d c) :
    (lines c.renderFlat).length = c.length + (quotedText c).count '\n' := by
  rw [renderFlat, length_lines, count_lineFeed_intercalate h.render_flatten_ne_nil,
    List.length_map, length_flatten, h.count_lineFeed_flatten]

/-- The lines of a flat text are the entries of the fold exactly if no quoted text has a line
feed. -/
theorem WellFormed.lines_renderFlat_eq_iff (h : Chain.WellFormed d c) :
    lines c.renderFlat = c.flatten.map Tagged.render ↔ '\n' ∉ quotedText c := by
  constructor
  · intro heq
    -- Each line feed in a quoted text makes one line more than there are entries.
    have hlength := h.length_lines_renderFlat
    rw [heq, List.length_map, length_flatten] at hlength
    exact List.count_eq_zero.1 (by omega)
  · intro hfree
    have hcount := h.count_lineFeed_flatten
    rw [List.count_eq_zero.2 hfree, List.count_eq_zero, List.mem_flatMap] at hcount
    exact lines_intercalate h.render_flatten_ne_nil fun t ht hm => hcount ⟨t, ht, hm⟩

end Chain

end LineFeeds

/-- What has a chain is rendered flat, on one line for each link and one more for each line feed in
a quoted text. The lines are the entries of the fold exactly if no quoted text has a line feed. -/
theorem lines_renderText_flat (g : Grammar) (m : Nat) (text : String) (c : Chain)
    (h : g.chain? m text = some c) :
    ∃ out, renderText g .flat m text = .ok out ∧
      (lines out).length = c.length + (Chain.quotedText c).count '\n' ∧
      (lines out = c.flatten.map Tagged.render ↔ '\n' ∉ Chain.quotedText c) := by
  obtain ⟨hwell, -⟩ := Grammar.wellFormed_of_chain? h
  exact ⟨c.renderFlat, renderText_flat_eq_ok_iff.2 ⟨c, h, rfl⟩, hwell.length_lines_renderFlat,
    hwell.lines_renderFlat_eq_iff⟩

/-- A line feed in the first of two conditions, and blanks of all kinds elsewhere. -/
theorem lines_renderText_flat_two_conditions :
    let c : Chain := [⟨none, true, .eq "a" (.text "p\nOR q")⟩, ⟨some .and, false, .isNull "b"⟩]
    Grammar.clause.chain? 0 "SELECT x\nWHERE NOT a = 'p\nOR q'\tAND\nb IS NULL LIMIT 1" = some c ∧
      ∃ out, renderText .clause .flat 0
          "SELECT x\nWHERE NOT a = 'p\nOR q'\tAND\nb IS NULL LIMIT 1" = .ok out ∧
        (lines out).length = 3 ∧ lines out ≠ c.flatten.map Tagged.render := by
  intro c
  have h : Grammar.clause.chain? 0
      "SELECT x\nWHERE NOT a = 'p\nOR q'\tAND\nb IS NULL LIMIT 1" = some c := by rfl
  obtain ⟨out, hout, hlength, hiff⟩ := lines_renderText_flat _ _ _ _ h
  exact ⟨h, out, hout, hlength, fun heq => hiff.1 heq (by decide)⟩

/-- A text of one condition that is rendered on two lines. -/
theorem lines_renderText_flat_one_condition :
    let c : Chain := [⟨none, false, .eq "a" (.text "x\ny")⟩]
    Grammar.expression.chain? 64 "a = 'x\ny'" = some c ∧
      renderText .expression .flat 64 "a = 'x\ny'" = .ok "WHERE a = 'x\ny'" ∧
      lines "WHERE a = 'x\ny'" = ["WHERE a = 'x", "y'"] ∧
      c.flatten.map Tagged.render = ["WHERE a = 'x\ny'"] := by
  intro c
  have h : Grammar.expression.chain? 64 "a = 'x\ny'" = some c := by rfl
  exact ⟨h, renderText_flat_eq_ok_iff.2 ⟨c, h, by decide⟩, by decide, by decide⟩

end FilterQuery
