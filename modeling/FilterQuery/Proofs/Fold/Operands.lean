import FilterQuery.Fold.Tree

/-!
Trees of chains that are put together. The operands of a chain are those of its parts, so that its
tree is the tree of its first part combined with the operands of the second.
-/

namespace FilterQuery

/-- The operands are combined with what stands before them. -/
theorem Filter.ofOperands?_append {ps : List (Conjunction × Filter)} {f : Filter}
    (h : ofOperands? ps = some f) (qs : List (Conjunction × Filter)) :
    ofOperands? (ps ++ qs) = some (qs.foldl (fun left (j, right) => left.combine j right) f) := by
  cases ps with
  | nil => cases h
  | cons p ps =>
    obtain rfl := Option.some.inj h
    rw [List.cons_append, ofOperands?, List.foldl_append]

theorem Filter.ofOperands?_eq_none_iff {ps : List (Conjunction × Filter)} :
    ofOperands? ps = none ↔ ps = [] := by
  cases ps <;> simp [ofOperands?]

/-- A group is the operand that its body folds into. -/
theorem Condition.operand?_group (negated : Bool) (body : Chain) :
    (Condition.group negated body).operand? = body.foldTree?.map (Filter.negateIf negated) :=
  rfl

namespace Chain

theorem operands_append (a b : Chain) : operands (a ++ b) = operands a ++ operands b := by
  induction a with
  | nil => rfl
  | cons l a ih =>
    obtain ⟨j, negated, x⟩ := l
    rw [List.cons_append, operands, operands]
    cases x.operand? with
    | none => exact ih
    | some f => simp only [ih, List.cons_append]

/-- The operands of further links are combined with the tree before them. -/
theorem foldTree?_append {a : Chain} {f : Filter} (ha : a.foldTree? = some f) (b : Chain) :
    foldTree? (a ++ b) =
      some ((operands b).foldl (fun left (j, right) => left.combine j right) f) := by
  rw [foldTree?, operands_append, Filter.ofOperands?_append ha]

theorem operands_cons_of_some {x : Condition} {f : Filter} (hx : x.operand? = some f)
    (j : Option Conjunction) (negated : Bool) (c : Chain) :
    operands (⟨j, negated, x⟩ :: c) = (j.getD .and, f.negateIf negated) :: operands c := by
  rw [operands, hx]

/-- One more link takes the tree before it as its left operand. -/
theorem foldTree?_concat {c : Chain} {f g : Filter} {x : Condition} (hc : c.foldTree? = some f)
    (hx : x.operand? = some g) (j : Option Conjunction) (negated : Bool) :
    foldTree? (c ++ [⟨j, negated, x⟩]) =
      some (f.combine (j.getD .and) (g.negateIf negated)) := by
  rw [foldTree?_append hc, operands_cons_of_some hx]
  rfl

end Chain

end FilterQuery
