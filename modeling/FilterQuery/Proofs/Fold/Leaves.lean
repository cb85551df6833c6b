import FilterQuery.Fold.Tree

/-!
Leaves of chains and of the trees they fold into. A fold keeps the leaves of the chain in their
order, through all groups; only a chain without leaves has no tree.
-/

namespace FilterQuery

mutual

/-- The tests on fields, in the order of the text. -/
def Condition.leaves : Condition → List Leaf
  | .leaf l => [l]
  | .group _ body => Chain.leaves body

def Chain.leaves : Chain → List Leaf
  | [] => []
  | ⟨_, _, c⟩ :: rest => c.leaves ++ Chain.leaves rest

end

namespace Filter

theorem leaves_ne_nil (f : Filter) : f.leaves ≠ [] := by
  induction f with
  | leaf c => simp [leaves]
  | not f ih => exact ih
  | and l r hl _ | or l r hl _ => simp [leaves, hl]

/-- The leaves of a tree that may be missing. -/
def leavesOf (f? : Option Filter) : List Condition :=
  f?.elim [] leaves

theorem leavesOf_eq_nil_iff {f? : Option Filter} : leavesOf f? = [] ↔ f? = none := by
  cases f? with
  | none => simp [leavesOf]
  | some f => simpa [leavesOf] using f.leaves_ne_nil

theorem leaves_combine (l : Filter) (j : Conjunction) (r : Filter) :
    (l.combine j r).leaves = l.leaves ++ r.leaves := by
  cases j <;> rfl

theorem leaves_negateIf (b : Bool) (f : Filter) : (f.negateIf b).leaves = f.leaves := by
  cases b <;> rfl

theorem leavesOf_map_negateIf (b : Bool) (f? : Option Filter) :
    leavesOf (f?.map (negateIf b)) = leavesOf f? := by
  cases f? with
  | none => rfl
  | some f => exact leaves_negateIf b f

theorem leaves_foldl_combine (first : Filter) (ps : List (Conjunction × Filter)) :
    (ps.foldl (fun left (j, right) => left.combine j right) first).leaves =
      first.leaves ++ ps.flatMap fun p => p.2.leaves := by
  induction ps generalizing first with
  | nil => simp
  | cons p ps ih => simp [ih, leaves_combine]

theorem leavesOf_ofOperands? (ps : List (Conjunction × Filter)) :
    leavesOf (ofOperands? ps) = ps.flatMap fun p => p.2.leaves := by
  cases ps with
  | nil => rfl
  | cons p ps => simpa [ofOperands?, leavesOf] using leaves_foldl_combine p.2 ps

end Filter

mutual

theorem Condition.leavesOf_operand? :
    (x : Condition) → Filter.leavesOf x.operand? = x.leaves.map .leaf
  | .leaf l => by
    rw [Condition.operand?, Condition.leaves]
    rfl
  | .group negated body => by
    rw [Condition.operand?, Condition.leaves, Filter.leavesOf_map_negateIf,
      Filter.leavesOf_ofOperands?]
    exact Chain.leaves_operands body

theorem Chain.leaves_operands :
    (c : List Link) → (Chain.operands c).flatMap (fun p => p.2.leaves) =
      (Chain.leaves c).map .leaf
  | [] => rfl
  | ⟨j, negated, x⟩ :: rest => by
    have hx := Condition.leavesOf_operand? x
    have hrest := Chain.leaves_operands rest
    rw [Chain.operands, Chain.leaves, List.map_append, ← hx, ← hrest]
    cases x.operand? with
    | none => rfl
    | some f => simp [Filter.leavesOf, Filter.leaves_negateIf]

end

theorem Chain.leavesOf_foldTree? (c : Chain) :
    Filter.leavesOf c.foldTree? = (Chain.leaves c).map .leaf := by
  rw [foldTree?, Filter.leavesOf_ofOperands?, Chain.leaves_operands]

/-- A tree has the leaves of the chain that it was folded from. -/
theorem Chain.leaves_of_foldTree? {c : Chain} {f : Filter} (h : c.foldTree? = some f) :
    f.leaves = (Chain.leaves c).map .leaf := by
  rw [← Chain.leavesOf_foldTree? c, h]
  rfl

theorem Chain.leafCount_of_foldTree? {c : Chain} {f : Filter} (h : c.foldTree? = some f) :
    f.leafCount = (Chain.leaves c).length := by
  rw [← Filter.length_leaves, Chain.leaves_of_foldTree? h, List.length_map]

/-- Only a chain without leaves has no tree. -/
theorem Chain.foldTree?_eq_none_iff {c : Chain} : c.foldTree? = none ↔ Chain.leaves c = [] := by
  rw [← Filter.leavesOf_eq_nil_iff, leavesOf_foldTree?, List.map_eq_nil_iff]

theorem Chain.exists_foldTree? {c : Chain} (h : Chain.leaves c ≠ []) :
    ∃ f, c.foldTree? = some f :=
  Option.ne_none_iff_exists'.1 (mt foldTree?_eq_none_iff.1 h)

end FilterQuery
