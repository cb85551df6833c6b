import FilterQuery.Proofs.Fold.Operands

/-!
The left edge of a filter tree. A chain folds along it: its first operand stands at the lower end,
and each further one is the right operand of a node on the way up. So the operands are read off the
tree again, as long as the first of them is no binary node itself, and a chain without groups is
told from every other one by its tree.
-/

namespace FilterQuery

/-! ## Operands read off a tree -/

namespace Filter

/-- The operand at the lower end of the left edge, and the right operands on the way up. -/
def spine : Filter → Filter × List (Conjunction × Filter)
  | .and l r => (l.spine.1, l.spine.2 ++ [(.and, r)])
  | .or l r => (l.spine.1, l.spine.2 ++ [(.or, r)])
  | f => (f, [])

theorem spine_combine (l : Filter) (j : Conjunction) (r : Filter) :
    (l.combine j r).spine = (l.spine.1, l.spine.2 ++ [(j, r)]) := by
  cases j <;> rfl

theorem spine_of_not_isBinary {f : Filter} (h : f.isBinary = false) : f.spine = (f, []) := by
  cases f with
  | leaf | not => rfl
  | and | or => cases h

/-- Each operand that a tree is combined with goes on top of its left edge. -/
theorem spine_foldl_combine (first : Filter) (ps : List (Conjunction × Filter)) :
    (ps.foldl (fun left (j, right) => left.combine j right) first).spine =
      (first.spine.1, first.spine.2 ++ ps) := by
  induction ps generalizing first with
  | nil => rw [List.foldl_nil, List.append_nil]
  | cons p ps ih =>
    rw [List.foldl_cons, ih, spine_combine, List.append_assoc, List.singleton_append]

theorem isBinary_negateIf_leaf (negated : Bool) (x : Condition) :
    ((Filter.leaf x).negateIf negated).isBinary = false := by
  cases negated <;> rfl

theorem negateIf_leaf_inj {n m : Bool} {x y : Condition}
    (h : (Filter.leaf x).negateIf n = (Filter.leaf y).negateIf m) : n = m ∧ x = y := by
  cases n <;> cases m <;> cases h <;> exact ⟨rfl, rfl⟩

end Filter

/-! ## Chains without groups -/

namespace Chain

/-- No condition is a group, and exactly the first link has no conjunction. -/
structure GroupFree (c : Chain) : Prop where
  isLeaf : ∀ l ∈ c, l.condition.isLeaf = true
  first : ∀ l ∈ c.head?, l.conjunction = none
  rest : ∀ l ∈ c.tail, l.conjunction.isSome = true

instance (c : Chain) : Decidable c.GroupFree :=
  decidable_of_iff ((∀ l ∈ c, l.condition.isLeaf = true) ∧
      (∀ l ∈ c.head?, l.conjunction = none) ∧ ∀ l ∈ c.tail, l.conjunction.isSome = true)
    ⟨fun ⟨h₁, h₂, h₃⟩ => ⟨h₁, h₂, h₃⟩, fun ⟨h₁, h₂, h₃⟩ => ⟨h₁, h₂, h₃⟩⟩

theorem operands_cons_of_isLeaf {l : Link} (hl : l.condition.isLeaf = true) (c : Chain) :
    operands (l :: c) =
      (l.conjunction.getD .and, (Filter.leaf l.condition).negateIf l.negated) :: operands c := by
  obtain ⟨j, negated, x⟩ := l
  cases x with
  | leaf x => exact operands_cons_of_some rfl j negated c
  | group => cases hl

theorem eq_of_leaf_operand {l l' : Link} (hj : l.conjunction = l'.conjunction)
    (h : (Filter.leaf l.condition).negateIf l.negated =
      (Filter.leaf l'.condition).negateIf l'.negated) : l = l' := by
  obtain ⟨j, negated, x⟩ := l
  obtain ⟨j', negated', x'⟩ := l'
  obtain ⟨rfl, rfl⟩ := Filter.negateIf_leaf_inj h
  obtain rfl : j = j' := hj
  rfl

/-- Links of leaves that have conjunctions are told apart by their operands. -/
theorem operands_inj {c c' : Chain} (hc : ∀ l ∈ c, l.condition.isLeaf = true)
    (hc' : ∀ l ∈ c', l.condition.isLeaf = true) (hj : ∀ l ∈ c, l.conjunction.isSome = true)
    (hj' : ∀ l ∈ c', l.conjunction.isSome = true) (h : operands c = operands c') : c = c' := by
  induction c generalizing c' with
  | nil =>
    cases c' with
    | nil => rfl
    | cons l' c' =>
      rw [operands_cons_of_isLeaf (hc' l' List.mem_cons_self)] at h
      cases h
  | cons l c ih =>
    obtain ⟨hl, hc⟩ := List.forall_mem_cons.1 hc
    obtain ⟨hlj, hj⟩ := List.forall_mem_cons.1 hj
    rw [operands_cons_of_isLeaf hl] at h
    cases c' with
    | nil => cases h
    | cons l' c' =>
      obtain ⟨hl', hc'⟩ := List.forall_mem_cons.1 hc'
      obtain ⟨hlj', hj'⟩ := List.forall_mem_cons.1 hj'
      rw [operands_cons_of_isLeaf hl'] at h
      obtain ⟨hlast, hrest⟩ := List.cons.inj h
      obtain ⟨hgetD, hoperand⟩ := Prod.mk.inj hlast
      have hsame : l.conjunction = l'.conjunction := by
        obtain ⟨j, hs⟩ := Option.isSome_iff_exists.1 hlj
        obtain ⟨j', hs'⟩ := Option.isSome_iff_exists.1 hlj'
        rw [hs, hs'] at hgetD ⊢
        exact congrArg some hgetD
      rw [eq_of_leaf_operand hsame hoperand, ih hc hc' hj hj' hrest]

/-- A chain without groups has its first link, as an operand, and the operands of the others on the
left edge of its tree. -/
theorem GroupFree.spine {l : Link} {c : Chain} (h : GroupFree (l :: c)) :
    ∃ f, foldTree? (l :: c) = some f ∧
      f.spine = ((Filter.leaf l.condition).negateIf l.negated, operands c) := by
  have hl := h.isLeaf l List.mem_cons_self
  refine ⟨_, by rw [foldTree?, operands_cons_of_isLeaf hl]; rfl, ?_⟩
  rw [Filter.spine_foldl_combine, Filter.spine_of_not_isBinary (Filter.isBinary_negateIf_leaf ..)]
  rfl

/-- Chains without groups have the same tree only if they are the same, link by link. -/
theorem foldTree?_eq_iff_of_groupFree (c c' : Chain) (h : c.GroupFree) (h' : c'.GroupFree) :
    c.foldTree? = c'.foldTree? ↔ c = c' := by
  refine ⟨fun heq => ?_, congrArg foldTree?⟩
  cases c with
  | nil =>
    cases c' with
    | nil => rfl
    | cons l' c' =>
      obtain ⟨f', hf', -⟩ := h'.spine
      rw [hf'] at heq
      cases heq
  | cons l c =>
    obtain ⟨f, hf, hspine⟩ := h.spine
    rw [hf] at heq
    cases c' with
    | nil => cases heq
    | cons l' c' =>
      obtain ⟨f', hf', hspine'⟩ := h'.spine
      rw [hf'] at heq
      obtain rfl := Option.some.inj heq
      obtain ⟨hfirst, hrest⟩ := Prod.mk.inj (hspine.symm.trans hspine')
      have hnone : l.conjunction = l'.conjunction := by
        rw [h.first l rfl, h'.first l' rfl]
      rw [eq_of_leaf_operand hnone hfirst,
        operands_inj (fun m hm => h.isLeaf m (List.mem_cons_of_mem l hm))
          (fun m hm => h'.isLeaf m (List.mem_cons_of_mem l' hm)) h.rest h'.rest hrest]

/-- The same leaves under the same number of negations, of which one stands elsewhere. -/
theorem foldTree?_ne_of_moved_negation :
    let c : Chain := [⟨none, true, .isNull "a"⟩, ⟨some .or, false, .isNull "b"⟩,
      ⟨some .and, false, .isNull "b"⟩]
    let c' : Chain := [⟨none, false, .isNull "a"⟩, ⟨some .or, true, .isNull "b"⟩,
      ⟨some .and, false, .isNull "b"⟩]
    c.GroupFree ∧ c'.GroupFree ∧ c.foldTree? ≠ c'.foldTree? := by
  intro c c'
  have h : c.GroupFree := by decide
  have h' : c'.GroupFree := by decide
  exact ⟨h, h', mt (foldTree?_eq_iff_of_groupFree c c' h h').1 (by decide)⟩

end Chain

end FilterQuery
