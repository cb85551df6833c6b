import FilterQuery.Proofs.RoundTrip.Filter
import FilterQuery.Report.Sql

/-!
Parameters of SQL conditions. The text of a condition is made of names, operators and marks, and
each mark stands for one parameter. So the text is the same for all filters that differ in their
values only, and the values stand in the parameters, in the order of the filter.
-/

namespace FilterQuery

/-! ## Values of filters -/

/-- The literals that the leaf tests its field against. -/
def Leaf.values : Leaf → List Literal
  | .comparison _ _ v => [v]
  | .nullCheck .. => []
  | .membership _ _ vs => vs

/-- The literals of all leaves, from left to right. -/
def Filter.values (f : Filter) : List Literal :=
  f.leaves.flatMap fun c => c.leaves.flatMap Leaf.values

/-- The leaf with the same literal in the place of each of its own. -/
def Leaf.erased : Leaf → Leaf
  | .comparison f op _ => .comparison f op default
  | .nullCheck f expectsNull => .nullCheck f expectsNull
  | .membership f negated vs => .membership f negated (vs.map fun _ => default)

/-- What is left of a filter without its values: its shape, the fields, the operators and the
lengths of lists. -/
def Filter.erased : Filter → Filter
  | .leaf (.leaf l) => .leaf (.leaf l.erased)
  | .leaf (.group negated body) => .leaf (.group negated body)
  | .not f => .not f.erased
  | .and l r => .and l.erased r.erased
  | .or l r => .or l.erased r.erased

attribute [ext] Sql

namespace Sql

variable {a b q : Sql} {f : Filter} {l : Leaf} {dotted : Bool}

@[simp] theorem text_append (a b : Sql) : (a ++ b).text = a.text ++ b.text := rfl

@[simp] theorem params_append (a b : Sql) : (a ++ b).params = a.params ++ b.params := rfl

@[simp] theorem text_plain (t : String) : (plain t).text = t := rfl

@[simp] theorem params_plain (t : String) : (plain t).params = [] := rfl

@[simp] theorem text_parenthesized (a : Sql) : a.parenthesized.text = "(" ++ a.text ++ ")" := rfl

@[simp] theorem params_parenthesized (a : Sql) : a.parenthesized.params = a.params := by
  simp [parenthesized]

/-! ## Leaves in parts -/

/-- Values by their marks, with commas between them. -/
def marked (vs : List Literal) : Sql :=
  ⟨", ".intercalate (vs.map fun _ => "?"), vs⟩

theorem marked_cons_cons (v w : Literal) (vs : List Literal) :
    marked (v :: w :: vs) = marked [v] ++ plain ", " ++ marked (w :: vs) := by
  apply Sql.ext
  · simp [marked, String.intercalate_cons_cons]
  · rfl

theorem ofLeaf_comparison (f : String) (op : Operator) (v : Literal) :
    ofLeaf (.comparison f op v) = plain (f ++ " " ++ op.text ++ " ") ++ marked [v] := by
  apply Sql.ext
  · simp [ofLeaf, marked, String.append_assoc]
  · rfl

theorem ofLeaf_membership (f : String) (negated : Bool) {vs : List Literal} (hvs : vs ≠ []) :
    ofLeaf (.membership f negated vs) =
      plain (f ++ " " ++ (Leaf.membership f negated vs).operator.text ++ " (") ++ marked vs ++
        plain ")" := by
  obtain ⟨v, vs, rfl⟩ := List.exists_cons_of_ne_nil hvs
  apply Sql.ext
  · rfl
  · simp [ofLeaf, marked]

/-! ## One mark for each parameter -/

/-- The text has as many marks as there are parameters. -/
def Bound (q : Sql) : Prop :=
  q.text.toList.count '?' = q.params.length

theorem Bound.plain {t : String} (h : '?' ∉ t.toList) : (plain t).Bound :=
  List.count_eq_zero.2 h

theorem Bound.append (ha : a.Bound) (hb : b.Bound) : (a ++ b).Bound := by
  simp only [Bound, text_append, params_append, String.toList_append, List.count_append,
    List.length_append]
  rw [ha, hb]

theorem Bound.parenthesized (ha : a.Bound) : a.parenthesized.Bound :=
  ((Bound.plain (by decide)).append ha).append (.plain (by decide))

theorem bound_marked (vs : List Literal) : (marked vs).Bound := by
  have hone (v : Literal) : (marked [v]).Bound := by
    simp [Bound, marked]
  induction vs with
  | nil => exact List.count_nil
  | cons v vs ih =>
    cases vs with
    | nil => exact hone v
    | cons w vs =>
      rw [marked_cons_cons]
      exact ((hone v).append (.plain (by decide))).append ih

/-- A name has no mark in it, nor has an operator, so that neither has what is put together from
them. -/
theorem mark_notMem {f t : String} (hf : IsIdentifier dotted f) (op : Operator)
    (ht : '?' ∉ t.toList) : '?' ∉ (f ++ " " ++ op.text ++ t).toList := by
  have hname : '?' ∉ f.toList := by
    intro hm
    have hmark := hf.2 _ hm
    cases dotted <;> cases hmark
  have hop : '?' ∉ op.text.toList := by cases op <;> decide
  simp [hname, hop, ht]

theorem bound_ofLeaf (h : IsIdentifier dotted l.field) : (ofLeaf l).Bound := by
  cases l with
  | comparison f op v =>
    rw [ofLeaf_comparison]
    exact (Bound.plain (mark_notMem h op (by decide))).append (bound_marked [v])
  | nullCheck f expectsNull =>
    have hmark := mark_notMem (t := "") h (Leaf.nullCheck f expectsNull).operator (by decide)
    exact .plain (by simpa [Leaf.field] using hmark)
  | membership f negated vs =>
    cases vs with
    | nil => cases negated <;> exact .plain (by decide)
    | cons v vs =>
      rw [ofLeaf_membership f negated (List.cons_ne_nil v vs)]
      exact ((Bound.plain (mark_notMem h _ (by decide))).append (bound_marked _)).append
        (.plain (by decide))

/-- Only a filter with a group at a leaf has no condition. -/
theorem exists_ofFilter? (hf : f.WellFormed dotted) : ∃ q, ofFilter? f = some q ∧ q.Bound := by
  induction f with
  | leaf c =>
    cases c with
    | leaf l => exact ⟨_, rfl, bound_ofLeaf hf.1⟩
    | group => cases hf
  | not f ih =>
    obtain ⟨q, hq, hbound⟩ := ih hf
    exact ⟨_, by rw [ofFilter?, hq]; rfl, (Bound.plain (by decide)).append hbound.parenthesized⟩
  | and l r hl hr | or l r hl hr =>
    obtain ⟨a, ha, hleft⟩ := hl hf.1
    obtain ⟨b, hb, hright⟩ := hr hf.2
    exact ⟨_, by rw [ofFilter?, ha, hb]; rfl,
      ((hleft.append (.plain (by decide))).append hright).parenthesized⟩

/-- Whatever joins two filters, their conditions stand on both sides of its word. -/
theorem ofFilter?_combine (l : Filter) (j : Conjunction) (r : Filter) :
    ofFilter? (l.combine j r) = (ofFilter? l).bind fun a => (ofFilter? r).map fun b =>
      (a ++ plain (" " ++ j.text ++ " ") ++ b).parenthesized := by
  have htext : " AND " = " " ++ Conjunction.and.text ++ " " ∧
      " OR " = " " ++ Conjunction.or.text ++ " " := by decide
  cases j with
  | and =>
    rw [Filter.combine, ofFilter?, ← htext.1]
    cases ofFilter? l <;> cases ofFilter? r <;> rfl
  | or =>
    rw [Filter.combine, ofFilter?, ← htext.2]
    cases ofFilter? l <;> cases ofFilter? r <;> rfl

/-! ## The parameters are the values -/

theorem params_ofLeaf (l : Leaf) : (ofLeaf l).params = l.values := by
  cases l with
  | comparison => rfl
  | nullCheck => rfl
  | membership f negated vs => cases vs <;> rfl

theorem params_ofFilter? (h : ofFilter? f = some q) : q.params = f.values := by
  induction f generalizing q with
  | leaf c =>
    cases c with
    | leaf l =>
      obtain rfl := Option.some.inj h
      simp [params_ofLeaf, Filter.values, Filter.leaves, Condition.leaves]
    | group => cases h
  | not f ih =>
    obtain ⟨a, ha, hq⟩ := Option.bind_eq_some_iff.1 h
    obtain rfl := Option.some.inj hq
    simpa [Filter.values, Filter.leaves] using ih ha
  | and l r hl hr | or l r hl hr =>
    obtain ⟨a, ha, h⟩ := Option.bind_eq_some_iff.1 h
    obtain ⟨b, hb, hq⟩ := Option.bind_eq_some_iff.1 h
    obtain rfl := Option.some.inj hq
    simp [hl ha, hr hb, Filter.values, Filter.leaves]

/-! ## The text without the values -/

theorem text_ofLeaf_erased (l : Leaf) : (ofLeaf l.erased).text = (ofLeaf l).text := by
  cases l with
  | comparison => rfl
  | nullCheck => rfl
  | membership f negated vs =>
    cases vs with
    | nil => rfl
    | cons v vs =>
      simp only [Leaf.erased, ofLeaf, List.map_cons, List.map_map]
      cases negated <;> rfl

theorem text_ofFilter?_not (f : Filter) :
    (ofFilter? (.not f)).map text =
      ((ofFilter? f).map text).map fun t => "NOT " ++ ("(" ++ t ++ ")") := by
  rw [ofFilter?]
  cases ofFilter? f <;> rfl

theorem text_ofFilter?_combine (l : Filter) (j : Conjunction) (r : Filter) :
    (ofFilter? (l.combine j r)).map text = ((ofFilter? l).map text).bind fun s =>
      ((ofFilter? r).map text).map fun t => "(" ++ (s ++ (" " ++ j.text ++ " ") ++ t) ++ ")" := by
  rw [ofFilter?_combine]
  cases ofFilter? l <;> cases ofFilter? r <;> rfl

theorem text_ofFilter?_erased (f : Filter) :
    (ofFilter? f.erased).map text = (ofFilter? f).map text := by
  have binary {l r : Filter} (hl : (ofFilter? l.erased).map text = (ofFilter? l).map text)
      (hr : (ofFilter? r.erased).map text = (ofFilter? r).map text) (j : Conjunction) :
      (ofFilter? (l.erased.combine j r.erased)).map text =
        (ofFilter? (l.combine j r)).map text := by
    rw [text_ofFilter?_combine, hl, hr, text_ofFilter?_combine]
  induction f with
  | leaf c =>
    cases c with
    | leaf l => exact congrArg some (text_ofLeaf_erased l)
    | group => rfl
  | not f ih => rw [Filter.erased, text_ofFilter?_not, ih, text_ofFilter?_not]
  | and l r hl hr => exact binary hl hr .and
  | or l r hl hr => exact binary hl hr .or

/-- A filter that has been read has an SQL condition, in whose text every mark stands for one
parameter. The parameters are the values of the filter in their order, and no value has a part in
the text: it is the text of every filter that differs from this one in its values only. -/
theorem ofFilter?_of_parseWhere {text : String} {c : Chain} {f : Filter}
    (h : parseWhere text = .ok c) (hf : c.foldTree? = some f) :
    ∃ q, ofFilter? f = some q ∧ q.text.toList.count '?' = q.params.length ∧ q.params = f.values ∧
      ∀ text' c' f', parseWhere text' = .ok c' → c'.foldTree? = some f' → f'.erased = f.erased →
        ∃ q', ofFilter? f' = some q' ∧ q'.text = q.text := by
  have parsed {text : String} {c : Chain} {f : Filter} (h : parseWhere text = .ok c)
      (hf : c.foldTree? = some f) : ∃ q, ofFilter? f = some q ∧ q.Bound :=
    exists_ofFilter? (Filter.wellFormed_of_foldTree? (wellFormed_of_parseWhere h) hf)
  obtain ⟨q, hq, hbound⟩ := parsed h hf
  refine ⟨q, hq, hbound, params_ofFilter? hq, fun text' c' f' h' hf' he => ?_⟩
  obtain ⟨q', hq', -⟩ := parsed h' hf'
  refine ⟨q', hq', ?_⟩
  have htext : (ofFilter? f').map Sql.text = (ofFilter? f).map Sql.text := by
    rw [← text_ofFilter?_erased f', he, text_ofFilter?_erased]
  rw [hq, hq'] at htext
  exact Option.some.inj htext

/-- Marks among the values, and lists of the same length. -/
theorem ofFilter?_of_parseWhere_marks_in_values :
    let c (u v w : Literal) : Chain := [⟨none, false, .leaf (.comparison "a" .eq u)⟩,
      ⟨some .and, false, .group true [⟨none, false, .leaf (.membership "b" false [v, w])⟩]⟩]
    let f (u v w : Literal) : Filter := .and (.leaf (.leaf (.comparison "a" .eq u)))
      (.not (.leaf (.leaf (.membership "b" false [v, w]))))
    parseWhere "a = '?' AND NOT (b IN (1, 'x'))" = .ok (c (.text "?") (.integer 1) (.text "x")) ∧
      parseWhere "a = 5 AND NOT (b IN ('?', ''))" = .ok (c (.integer 5) (.text "?") (.text "")) ∧
      ∃ q q', ofFilter? (f (.text "?") (.integer 1) (.text "x")) = some q ∧
        ofFilter? (f (.integer 5) (.text "?") (.text "")) = some q' ∧
        q.text.toList.count '?' = 3 ∧ q.params = [.text "?", .integer 1, .text "x"] ∧
        q'.text = q.text := by
  intro c f
  have h : parseWhere "a = '?' AND NOT (b IN (1, 'x'))" =
      .ok (c (.text "?") (.integer 1) (.text "x")) := by rfl
  have h' : parseWhere "a = 5 AND NOT (b IN ('?', ''))" =
      .ok (c (.integer 5) (.text "?") (.text "")) := by rfl
  have hf (u v w : Literal) : (c u v w).foldTree? = some (f u v w) := by rfl
  obtain ⟨q, hq, hcount, hparams, hsame⟩ := ofFilter?_of_parseWhere h (hf _ _ _)
  obtain ⟨q', hq', htext⟩ := hsame _ _ _ h' (hf _ _ _) (by rfl)
  rw [hparams] at hcount
  exact ⟨h, h', q, q', hq, hq', hcount, hparams, htext⟩

end Sql

end FilterQuery
