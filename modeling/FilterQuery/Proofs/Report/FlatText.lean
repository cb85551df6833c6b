import FilterQuery.Proofs.RoundTrip.ClauseSet
import FilterQuery.Proofs.RoundTrip.Filter
import FilterQuery.Report.Render

/-!
Flat texts read back. A chain is written flat with its first condition behind WHERE and each further
link on a line below, behind its conjunction. A line feed is a blank like any other, so that the
text behind the first keyword is one more layout of the chain, and the whole text is a WHERE clause.
-/

namespace FilterQuery

variable {d : Dialect} {m : Nat} {text out : String} {g : Grammar} {c : Chain}

/-! ## Texts that have a chain -/

namespace Grammar

def dialect : Grammar → Dialect
  | .expression => .expression
  | .clause => .clause

/-- The chain that a text is read as, or that is the condition of the clause set it is read as. -/
def chain? (g : Grammar) (maxDepth : Nat) (text : String) : Option Chain :=
  match g with
  | .expression => (parseChain .expression maxDepth text).toOption
  | .clause => (parseClauseSet .clause maxDepth text).toOption.bind ClauseSet.whereClause

theorem chain?_expression_eq_some_iff :
    chain? .expression m text = some c ↔ parseChain .expression m text = .ok c := by
  rw [chain?]
  cases parseChain .expression m text <;> simp [Except.toOption]

theorem chain?_clause_eq_some_iff :
    chain? .clause m text = some c ↔
      ∃ s, parseClauseSet .clause m text = .ok s ∧ s.whereClause = some c := by
  rw [chain?]
  cases parseClauseSet .clause m text <;> simp [Except.toOption]

/-- A chain that is read is one of the dialect, and its groups nest within the limit. -/
theorem wellFormed_of_chain? (h : g.chain? m text = some c) :
    Chain.WellFormed g.dialect c ∧ Chain.depth c ≤ m := by
  cases g with
  | expression =>
    rw [chain?_expression_eq_some_iff, parseChain_eq_ok_iff_whole, Rule.whole_chain_eq_ok_iff] at h
    obtain ⟨_, _, _, -, -, ⟨hs, hdepth⟩, -⟩ := h
    exact ⟨hs.wellFormed, hdepth⟩
  | clause =>
    obtain ⟨s, hs, hc⟩ := chain?_clause_eq_some_iff.1 h
    rw [parseClauseSet_eq_ok_iff_whole, Rule.whole_clauseSet_eq_ok_iff] at hs
    obtain ⟨-, _, _, _, -, -, ht, -⟩ := hs
    exact ht.wellFormed.whereClause c hc

end Grammar

/-- A text is rendered flat exactly if it has a chain, and then as the flat text of the chain. -/
theorem renderText_flat_eq_ok_iff :
    renderText g .flat m text = .ok out ↔ ∃ c, g.chain? m text = some c ∧ c.renderFlat = out := by
  cases g with
  | expression =>
    rw [renderText, Grammar.chain?]
    cases parseChain .expression m text <;> simp [Except.toOption, Chain.renderIn]
  | clause =>
    rw [renderText, Grammar.chain?]
    cases parseClauseSet .clause m text with
    | error e => simp [Except.toOption]
    | ok s =>
      cases h : s.whereClause <;>
        simp [Except.toOption, h, ClauseSet.renderIn, ClauseSet.renderFold]

/-! ## Lines -/

theorem toList_intercalate_lineFeed (s : String) (ts : List String) :
    ("\n".intercalate (s :: ts)).toList = s.toList ++ ts.flatMap fun t => '\n' :: t.toList := by
  induction ts generalizing s with
  | nil => simp
  | cons t ts ih => simp [String.intercalate_cons_cons, ih]

namespace Chain

/-- The lines below the first one, each behind its line feed. -/
def linesBelow (ls : List Link) : List Char :=
  ls.flatMap fun l => '\n' :: l.tagged.render.toList

theorem toList_renderFlat (l : Link) (ls : List Link) :
    (renderFlat (l :: ls)).toList = "WHERE ".toList ++ l.render.toList ++ linesBelow ls := by
  have hfirst : (Tagged.render ⟨.where_, l.negated, l.condition⟩).toList =
      "WHERE ".toList ++ l.render.toList := by
    simp [Tagged.render, Link.render, Join.text, Keyword.text, Keyword.words]
  rw [renderFlat, flatten, List.map_cons, toList_intercalate_lineFeed, hfirst, List.map_map,
    List.flatMap_map]
  rfl

end Chain

/-! ## Flat texts as layouts -/

/-- The lines below a condition are a layout of their links: a line feed is all that stands before
each conjunction. -/
theorem LinksLayout.linesBelow {ls : List Link} (before : List Char)
    (h : Links.WellFormed d ls) : LinksLayout d before (Chain.linesBelow ls) ls := by
  induction ls generalizing before with
  | nil => exact .nil
  | cons l ls ih =>
    obtain ⟨j, negated, x⟩ := l
    obtain ⟨hj, hx, hls⟩ := h
    obtain ⟨j, rfl⟩ := Option.isSome_iff_exists.1 hj
    have ht : Chain.linesBelow (⟨some j, negated, x⟩ :: ls) =
        ['\n'] ++ j.keyword.text.toList ++ [' '] ++ (notText negated ++ x.render).toList ++
          Chain.linesBelow ls := by
      cases j <;>
        simp [Chain.linesBelow, Link.tagged, Tagged.render, Join.ofConjunction, Join.text,
          Conjunction.keyword]
    have hline : Gap ['\n'] := ⟨by simp [Blanks, isBlank], by simp⟩
    rw [ht]
    exact .cons hline.blanks (by simp) (.text _) Gap.blank.blanks (by simp) (.render hx) (ih _ hls)

/-- Behind the first keyword a flat text is a layout of the chain. -/
theorem ChainLayout.renderFlat (h : Chain.WellFormed d c) :
    ∃ t : String, c.renderFlat = "WHERE " ++ t ∧ ChainLayout d t.toList c := by
  cases c with
  | nil => cases h
  | cons l ls =>
    obtain ⟨j, negated, x⟩ := l
    obtain ⟨rfl, hx, hls⟩ := h
    refine ⟨.ofList ((Link.mk none negated x).render.toList ++ Chain.linesBelow ls), ?_, ?_⟩
    · rw [← String.toList_inj, Chain.toList_renderFlat, String.toList_append, List.append_assoc]
      exact congrArg _ String.toList_ofList.symm
    · rw [String.toList_ofList]
      exact .mk (.render hx) (.linesBelow _ hls)

/-- A flat text is a WHERE clause. Before it stands nothing but one field. -/
theorem ClauseSetLayout.renderFlat {name : String} (hname : IsIdentifier d.dottedNames name)
    (hne : name ≠ "DISTINCT") (h : Chain.WellFormed d c) (hdepth : Chain.depth c ≤ m) :
    ClauseSetLayout d m ("SELECT " ++ name ++ " " ++ c.renderFlat).toList
      { fields := [name], whereClause := some c } := by
  obtain ⟨t, ht, hlay⟩ := ChainLayout.renderFlat h
  have hhead : HeadLayout d.dottedNames ("SELECT".toList ++ [' '] ++ name.toList) false [name] :=
    .all (.word "SELECT") Gap.blank (.one ⟨rfl, hname⟩) (by simpa using hne)
  have hwhere : ClauseLayout .where_ (ChainText d m) ("SELECT".toList ++ [' '] ++ name.toList)
      ([' '] ++ "WHERE".toList ++ [' '] ++ t.toList) (some c) :=
    .present Gap.blank.blanks (by simp) (.word "WHERE") Gap.blank ⟨hlay, hdepth⟩
  have hall := ClauseSetLayout.of_clauses hhead hwhere .absent .absent .absent .absent
  rw [ht]
  simpa using hall

/-! ## Flat texts read back -/

section WithoutGroups

variable (hg : d.grouping = false) (hn : d.groupNegation = false)

include hg hn

theorem Condition.WellFormed.isLeaf {negated : Bool} {x : Condition}
    (h : x.WellFormed d negated) : x.isLeaf = true := by
  cases x with
  | leaf => rfl
  | group n body =>
    obtain ⟨-, hgroup, -⟩ := h
    cases n <;> simp [hg, hn] at hgroup

/-- A dialect without groups has no nested chains. -/
theorem Chain.WellFormed.depth_eq_zero (h : Chain.WellFormed d c) : Chain.depth c = 0 :=
  Chain.depth_leaves fun l hl => (h.condition l hl).isLeaf hg hn

end WithoutGroups

/-- What is rendered flat is read as the same chain again: as an expression without its first
keyword, under the same limit, and as a clause set with a field before it, under any limit. -/
theorem parse_renderText_flat :
    (∀ (m : Nat) (text out : String), renderText .expression .flat m text = .ok out →
      ∃ c t, parseChain .expression m text = .ok c ∧ out = "WHERE " ++ t ∧
        parseChain .expression m t = .ok c) ∧
    ∀ (m : Nat) (text out : String), renderText .clause .flat m text = .ok out →
      ∃ s c, parseClauseSet .clause m text = .ok s ∧ s.whereClause = some c ∧
        ∀ n, parseClauseSet .clause n ("SELECT x " ++ out) =
          .ok { fields := ["x"], whereClause := some c } := by
  constructor
  · intro m text out h
    obtain ⟨c, hc, rfl⟩ := renderText_flat_eq_ok_iff.1 h
    obtain ⟨hwell, hdepth⟩ := Grammar.wellFormed_of_chain? hc
    obtain ⟨t, ht, hlay⟩ := ChainLayout.renderFlat hwell
    exact ⟨c, t, Grammar.chain?_expression_eq_some_iff.1 hc, ht, parseChain_of_layout hlay hdepth⟩
  · intro m text out h
    obtain ⟨c, hc, rfl⟩ := renderText_flat_eq_ok_iff.1 h
    obtain ⟨hwell, -⟩ := Grammar.wellFormed_of_chain? hc
    obtain ⟨s, hs, hwhere⟩ := Grammar.chain?_clause_eq_some_iff.1 hc
    refine ⟨s, c, hs, hwhere, fun n => ?_⟩
    have hdepth : Chain.depth c ≤ n := by
      rw [hwell.depth_eq_zero rfl rfl]
      exact Nat.zero_le n
    have hlay : ClauseSetLayout .clause n ("SELECT " ++ "x" ++ " " ++ c.renderFlat).toList
        { fields := ["x"], whereClause := some c } :=
      .renderFlat (by decide) (by decide) hwell hdepth
    rw [parseClauseSet_eq_ok_iff_whole, Rule.whole_clauseSet_eq_ok_iff]
    exact ⟨rfl, [], _, [], by simp, .nil, hlay, .nil⟩

/-- A line feed in a quoted text and one inside a group, and a field that is named like the negation
before it. -/
theorem parse_renderText_flat_line_feeds :
    let c : Chain := [⟨none, false, .group true [⟨none, false, .eq "a" (.integer 1)⟩,
      ⟨some .or, false, .isNull "b"⟩]⟩, ⟨some .and, false, .eq "c" (.text "x\ny")⟩]
    let c' : Chain := [⟨none, true, .isNull "NOT"⟩, ⟨some .or, false, .eq "b" (.integer 2)⟩]
    renderText .expression .flat 1 "NOT (a = 1\nOR b IS NULL) AND c = 'x\ny'" =
        .ok "WHERE NOT (a = 1 OR b IS NULL)\nAND c = 'x\ny'" ∧
      parseChain .expression 1 "NOT (a = 1 OR b IS NULL)\nAND c = 'x\ny'" = .ok c ∧
      renderText .clause .flat 0 "SELECT a WHERE NOT NOT IS NULL OR b=2 LIMIT 3" =
        .ok "WHERE NOT NOT IS NULL\nOR b = 2" ∧
      parseClauseSet .clause 5 "SELECT x WHERE NOT NOT IS NULL\nOR b = 2" =
        .ok { fields := ["x"], whereClause := some c' } := by
  intro c c'
  have hc : parseChain .expression 1 "NOT (a = 1\nOR b IS NULL) AND c = 'x\ny'" = .ok c := by rfl
  have hs : parseClauseSet .clause 0 "SELECT a WHERE NOT NOT IS NULL OR b=2 LIMIT 3" =
      .ok { fields := ["a"], whereClause := some c', limit := some 3 } := by rfl
  have h : renderText .expression .flat 1 "NOT (a = 1\nOR b IS NULL) AND c = 'x\ny'" =
      .ok "WHERE NOT (a = 1 OR b IS NULL)\nAND c = 'x\ny'" :=
    renderText_flat_eq_ok_iff.2 ⟨c, Grammar.chain?_expression_eq_some_iff.2 hc, by decide⟩
  have h' : renderText .clause .flat 0 "SELECT a WHERE NOT NOT IS NULL OR b=2 LIMIT 3" =
      .ok "WHERE NOT NOT IS NULL\nOR b = 2" :=
    renderText_flat_eq_ok_iff.2 ⟨c', Grammar.chain?_clause_eq_some_iff.2 ⟨_, hs, rfl⟩, by decide⟩
  obtain ⟨hexpression, hclause⟩ := parse_renderText_flat
  obtain ⟨c₁, t, hc₁, ht, hread⟩ := hexpression 1 _ _ h
  obtain ⟨s, c₂, hs₂, hwhere, hread'⟩ := hclause 0 _ _ h'
  obtain rfl := Except.ok.inj (hc.symm.trans hc₁)
  obtain rfl := Except.ok.inj (hs.symm.trans hs₂)
  obtain rfl := Option.some.inj hwhere
  have hsplit : "WHERE NOT (a = 1 OR b IS NULL)\nAND c = 'x\ny'" =
      "WHERE " ++ "NOT (a = 1 OR b IS NULL)\nAND c = 'x\ny'" := by decide
  obtain rfl := (String.append_right_inj "WHERE ").1 (hsplit.symm.trans ht)
  exact ⟨h, hread, h', hread' 5⟩

end FilterQuery
