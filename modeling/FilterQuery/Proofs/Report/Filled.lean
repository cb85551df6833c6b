import FilterQuery.Proofs.Fold.Operands
import FilterQuery.Proofs.Report.Parameters

/-!
SQL conditions with their values in place. Put in the places of their marks, the parameters make the
SQL condition of a filter the text of a condition again, which folds into the filter. It has more
parentheses than the filter's own text: whatever is negated stands in a pair of its own.
-/

namespace FilterQuery

/-! ## Values in the places of marks -/

/-- Puts the values in the places of the marks, each mark taking the next one. Marks in the values
stay. -/
def Sql.fillMarks : List Char → List Literal → List Char
  | [], _ => []
  | x :: s, [] => x :: s
  | x :: s, v :: vs =>
    if x = '?' then v.render.toList ++ fillMarks s vs else x :: fillMarks s (v :: vs)

/-- The text with its parameters in the places of their marks. -/
def Sql.filled (q : Sql) : String :=
  String.ofList (fillMarks q.text.toList q.params)

/-! ## Conditions with all their parentheses -/

/-- Two conditions in a pair of parentheses. -/
def Condition.joined (x : Condition) (j : Conjunction) (y : Condition) : Condition :=
  .group false [⟨none, false, x⟩, ⟨some j, false, y⟩]

/-- The condition that the SQL text of a filter is once its marks are filled. -/
def Filter.bracketed : Filter → Condition
  | .leaf c => c
  | .not f => .group true (Chain.single f.bracketed)
  | .and l r => l.bracketed.joined .and r.bracketed
  | .or l r => l.bracketed.joined .or r.bracketed

namespace Condition

variable {x y : Condition} {f g : Filter}

theorem render_joined (x : Condition) (j : Conjunction) (y : Condition) :
    (x.joined j y).render = "(" ++ (x.render ++ (" " ++ j.text ++ " ") ++ y.render) ++ ")" := by
  simp [joined, render, Chain.render, notText, String.append_assoc]

theorem operand?_joined (hx : x.operand? = some f) (hy : y.operand? = some g) (j : Conjunction) :
    (x.joined j y).operand? = some (f.combine j g) := by
  simp [joined, operand?, Chain.operands, hx, hy, Filter.ofOperands?, Filter.negateIf]

theorem WellFormed.joined (hx : x.WellFormed .expression false)
    (hy : y.WellFormed .expression false) (j : Conjunction) :
    (x.joined j y).WellFormed .expression false :=
  ⟨rfl, rfl, rfl, hx, rfl, hy, trivial⟩

end Condition

namespace Filter

variable {f : Filter} {dotted : Bool}

theorem operand?_bracketed (hf : f.WellFormed dotted) : f.bracketed.operand? = some f := by
  induction f with
  | leaf c =>
    cases c with
    | leaf l => rfl
    | group => cases hf
  | not f ih =>
    rw [bracketed, Condition.operand?_group, Chain.foldTree?_single, ih hf]
    rfl
  | and l r hl hr => exact Condition.operand?_joined (hl hf.1) (hr hf.2) .and
  | or l r hl hr => exact Condition.operand?_joined (hl hf.1) (hr hf.2) .or

theorem wellFormed_bracketed (hf : f.WellFormed Dialect.expression.dottedNames) :
    f.bracketed.WellFormed .expression false := by
  induction f with
  | leaf c =>
    cases c with
    | leaf l => exact ⟨hf, fun h => by cases h⟩
    | group => cases hf
  | not f ih => exact ⟨rfl, rfl, rfl, ih hf, trivial⟩
  | and l r hl hr => exact (hl hf.1).joined (hr hf.2) .and
  | or l r hl hr => exact (hl hf.1).joined (hr hf.2) .or

/-- The text of the condition is read as the condition alone, which folds into the filter, as soon
as its groups may nest as deep as they do. -/
theorem parseChain_bracketed_iff (hf : f.WellFormed Dialect.expression.dottedNames) (m : Nat) :
    (∃ c, parseChain .expression m f.bracketed.render = .ok c ∧ c.foldTree? = some f) ↔
      f.bracketed.depth ≤ m := by
  have hc : Chain.WellFormed .expression (Chain.single f.bracketed) :=
    ⟨rfl, wellFormed_bracketed hf, trivial⟩
  rw [← Chain.render_single, ← Chain.depth_single]
  constructor
  · rintro ⟨c, hread, -⟩
    apply Nat.le_of_not_lt
    intro hm
    have ht : (Chain.render (Chain.single f.bracketed)).toList =
        [] ++ (Chain.render (Chain.single f.bracketed)).toList ++ [] := by simp
    obtain ⟨e, he, -⟩ := parseChain_eq_error_of_depth ht .nil (.render hc) .nil hm
    rw [he] at hread
    cases hread
  · intro hm
    refine ⟨_, (parseChain_render_eq_ok_iff .expression m _).2 ⟨hc, hm⟩, ?_⟩
    rw [Chain.foldTree?_single, operand?_bracketed hf]

end Filter

/-! ## Filled texts -/

namespace Sql

variable {a b q : Sql} {f : Filter} {l : Leaf} {dotted : Bool}

theorem fillMarks_nil (s : List Char) : fillMarks s [] = s := by
  cases s <;> rfl

theorem fillMarks_of_notMem {s : List Char} (h : '?' ∉ s) (vs : List Literal) :
    fillMarks s vs = s := by
  induction s with
  | nil => rfl
  | cons x s ih =>
    rw [List.mem_cons, not_or] at h
    obtain ⟨hx, hs⟩ := h
    cases vs with
    | nil => rfl
    | cons v vs => rw [fillMarks, if_neg fun hm => hx hm.symm, ih hs]

/-- The marks of the first part take as many values as there are marks. -/
theorem fillMarks_append {s : List Char} {vs : List Literal} (h : s.count '?' = vs.length)
    (t : List Char) (ws : List Literal) :
    fillMarks (s ++ t) (vs ++ ws) = fillMarks s vs ++ fillMarks t ws := by
  induction s generalizing vs with
  | nil =>
    obtain rfl := List.length_eq_zero_iff.1 h.symm
    rfl
  | cons x s ih =>
    by_cases hx : x = '?'
    · subst hx
      cases vs with
      | nil => simp at h
      | cons v vs =>
        rw [List.count_cons_self, List.length_cons, Nat.add_right_cancel_iff] at h
        simp [fillMarks, ih h]
    · rw [List.count_cons_of_ne hx] at h
      cases vs with
      | nil =>
        have hs : '?' ∉ s := List.count_eq_zero.1 h
        cases ws with
        | nil => simp [fillMarks_nil]
        | cons w ws => simpa [fillMarks, hx, fillMarks_nil] using ih h
      | cons v vs => simpa [fillMarks, hx] using ih h

theorem filled_plain {t : String} (h : '?' ∉ t.toList) : (plain t).filled = t := by
  rw [filled, text_plain, fillMarks_of_notMem h, String.ofList_toList]

theorem filled_append (ha : a.Bound) : (a ++ b).filled = a.filled ++ b.filled := by
  rw [filled, text_append, params_append, String.toList_append, fillMarks_append ha,
    String.ofList_append]
  rfl

theorem filled_parenthesized (ha : a.Bound) : a.parenthesized.filled = "(" ++ a.filled ++ ")" := by
  have hopen : (plain "(").Bound := .plain (by decide)
  rw [parenthesized, filled_append (hopen.append ha), filled_append hopen,
    filled_plain (by decide), filled_plain (by decide)]

theorem filled_marked (vs : List Literal) : (marked vs).filled = Literal.renderItems vs := by
  have hone (v : Literal) : (marked [v]).filled = v.render := by
    simp [filled, marked, fillMarks]
  induction vs with
  | nil => rfl
  | cons v vs ih =>
    cases vs with
    | nil => rw [hone, Literal.renderItems]
    | cons w vs =>
      have hfirst := bound_marked [v]
      rw [marked_cons_cons, filled_append (hfirst.append (.plain (by decide))),
        filled_append hfirst, hone, filled_plain (by decide), ih, Literal.renderItems]

/-- A leaf is written as in a filter text, unless it asks for the members of the empty list. -/
theorem filled_ofLeaf (h : IsIdentifier dotted l.field)
    (hl : ∀ field negated, l ≠ .membership field negated []) : (ofLeaf l).filled = l.render := by
  cases l with
  | comparison f op v =>
    have hmark : '?' ∉ (f ++ " " ++ op.text ++ " ").toList := mark_notMem h op (by decide)
    rw [ofLeaf_comparison, filled_append (.plain hmark), filled_plain hmark, filled_marked]
    rfl
  | nullCheck f expectsNull =>
    have hmark := mark_notMem (t := "") h (Leaf.nullCheck f expectsNull).operator (by decide)
    exact filled_plain (by simpa [Leaf.field] using hmark)
  | membership f negated vs =>
    have hvs : vs ≠ [] := fun hn => hl f negated (by rw [hn])
    have hmark : '?' ∉ (f ++ " " ++ (Leaf.membership f negated vs).operator.text ++ " (").toList :=
      mark_notMem h _ (by decide)
    have hopen := (Bound.plain hmark).append (bound_marked vs)
    rw [ofLeaf_membership f negated hvs, filled_append hopen, filled_append (.plain hmark),
      filled_plain hmark, filled_marked, filled_plain (by decide), Leaf.render, Literal.render]
    simp [← String.toList_inj]

theorem bound_ofFilter? (hf : f.WellFormed dotted) (h : ofFilter? f = some q) : q.Bound := by
  obtain ⟨q', hq', hbound⟩ := exists_ofFilter? hf
  obtain rfl := Option.some.inj (h.symm.trans hq')
  exact hbound

theorem filled_combine {l r : Filter} (hl : l.WellFormed dotted) (hr : r.WellFormed dotted)
    (hleft : ∀ a, ofFilter? l = some a → a.filled = l.bracketed.render)
    (hright : ∀ b, ofFilter? r = some b → b.filled = r.bracketed.render)
    (j : Conjunction) (h : ofFilter? (l.combine j r) = some q) :
    q.filled = (l.bracketed.joined j r.bracketed).render := by
  rw [ofFilter?_combine] at h
  obtain ⟨a, ha, h⟩ := Option.bind_eq_some_iff.1 h
  obtain ⟨b, hb, rfl⟩ := Option.map_eq_some_iff.1 h
  have hword : '?' ∉ (" " ++ j.text ++ " ").toList := by cases j <;> decide
  have hbound := bound_ofFilter? hl ha
  have hjoined := hbound.append (.plain hword)
  rw [filled_parenthesized (hjoined.append (bound_ofFilter? hr hb)), filled_append hjoined,
    filled_append hbound, filled_plain hword, hleft a ha, hright b hb, Condition.render_joined]

/-- With its values in place, the text of an SQL condition is that of a condition of filter texts.
-/
theorem filled_ofFilter? (hf : f.WellFormed dotted)
    (hne : ∀ field negated, .leaf (.membership field negated []) ∉ f.leaves)
    (h : ofFilter? f = some q) : q.filled = f.bracketed.render := by
  induction f generalizing q with
  | leaf c =>
    cases c with
    | leaf l =>
      obtain rfl := Option.some.inj h
      exact filled_ofLeaf hf.1 fun field negated hl =>
        hne field negated (by simp [Filter.leaves, hl])
    | group => cases h
  | not f ih =>
    obtain ⟨a, ha, hq⟩ := Option.bind_eq_some_iff.1 h
    obtain rfl := Option.some.inj hq
    have hnot : '?' ∉ "NOT ".toList := by decide
    have hbound : a.Bound := bound_ofFilter? (f := f) hf ha
    rw [filled_append (.plain hnot), filled_plain hnot, filled_parenthesized hbound, ih hf hne ha,
      Filter.bracketed, Condition.render, Chain.render_single, notText, if_pos rfl]
    simp only [String.append_assoc]
  | and l r hl hr =>
    exact filled_combine hf.1 hf.2
      (fun _ => hl hf.1 fun f n hm => hne f n (List.mem_append_left _ hm))
      (fun _ => hr hf.2 fun f n hm => hne f n (List.mem_append_right _ hm)) .and h
  | or l r hl hr =>
    exact filled_combine hf.1 hf.2
      (fun _ => hl hf.1 fun f n hm => hne f n (List.mem_append_left _ hm))
      (fun _ => hr hf.2 fun f n hm => hne f n (List.mem_append_right _ hm)) .or h

/-- The SQL condition of a filter that has been read is a filter text of the same filter, once the
parameters stand in the places of their marks: it is read and folds into the filter exactly if its
groups may nest as deep as its parentheses do. Only tests for members of the empty list are written
in another way. -/
theorem parseChain_filled (text : String) (c : Chain) (h : parseWhere text = .ok c)
    (hne : ∀ field negated, Leaf.membership field negated [] ∉ Chain.leaves c) :
    ∃ f q, c.foldTree? = some f ∧ ofFilter? f = some q ∧ ∀ m,
      (∃ c', parseChain .expression m q.filled = .ok c' ∧ c'.foldTree? = some f) ↔
        f.bracketed.depth ≤ m := by
  have hc := wellFormed_of_parseWhere h
  obtain ⟨f, hfold⟩ := Chain.exists_foldTree? hc.leaves.1
  have hf := Filter.wellFormed_of_foldTree? hc hfold
  obtain ⟨q, hq, -⟩ := exists_ofFilter? hf
  have hleaves (field : String) (negated : Bool) :
      Condition.leaf (.membership field negated []) ∉ f.leaves := by
    rw [Chain.leaves_of_foldTree? hfold]
    intro hm
    obtain ⟨l, hl, hleaf⟩ := List.mem_map.1 hm
    obtain rfl := Condition.leaf.inj hleaf
    exact hne field negated hl
  refine ⟨f, q, hfold, hq, fun m => ?_⟩
  rw [filled_ofFilter? hf hleaves hq]
  exact Filter.parseChain_bracketed_iff hf m

/-- A mark as a value, a negated conjunction, and a field named `NOT`. -/
theorem parseChain_filled_negated_conjunction :
    let c : Chain := [⟨none, false, .group true
      [⟨none, false, .leaf (.comparison "a" .eq (.text "?"))⟩,
        ⟨some .and, false, .leaf (.membership "NOT" false [.text "x?", .integer 2])⟩]⟩,
      ⟨some .or, false, .leaf (.nullCheck "b.c" true)⟩]
    parseWhere "NOT (a = '?' AND NOT IN ('x?', 2)) OR b.c IS NULL" = .ok c ∧
      (∀ field negated, Leaf.membership field negated [] ∉ Chain.leaves c) ∧
      ∃ f q, c.foldTree? = some f ∧ ofFilter? f = some q ∧
        q.text = "(NOT ((a = ? AND NOT IN (?, ?))) OR b.c IS NULL)" ∧
        q.filled = "(NOT ((a = '?' AND NOT IN ('x?', 2))) OR b.c IS NULL)" ∧
        ∃ c', parseChain .expression 3 q.filled = .ok c' ∧ c'.foldTree? = some f := by
  intro c
  have h : parseWhere "NOT (a = '?' AND NOT IN ('x?', 2)) OR b.c IS NULL" = .ok c := by rfl
  have hne (field : String) (negated : Bool) :
      Leaf.membership field negated [] ∉ Chain.leaves c := by
    simp [c, Chain.leaves, Condition.leaves]
  obtain ⟨f, q, hfold, hq, hread⟩ := parseChain_filled _ c h hne
  obtain rfl := Option.some.inj hfold
  obtain rfl := Option.some.inj hq
  exact ⟨h, hne, _, _, rfl, rfl, by decide, by decide, (hread 3).2 (by decide)⟩

end Sql

end FilterQuery
