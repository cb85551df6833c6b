import FilterQuery.Fold.Flat
import FilterQuery.Fold.Tree

/-!
Truth values of folded chains, given the truth of their leaves. A flat list is evaluated from the
left, and a group in it by the flat list of its body. As long as no chain is empty, a tree has the
value of the flat list of the same chain.
-/

namespace FilterQuery

/-! ## Values -/

/-- The value of an entry joined to that of all entries before it. The entry that opens a list has
none before it. -/
def Join.apply : Join → (before value : Bool) → Bool
  | .where_, _, value => value
  | .and, before, value => before && value
  | .or, before, value => before || value

theorem Link.sizeOf_tagged_le (l : Link) : sizeOf l.tagged ≤ sizeOf l := by
  obtain ⟨j, negated, x⟩ := l
  rcases j with _ | (_ | _) <;> simp [Link.tagged, Join.ofConjunction]

theorem Chain.sizeOf_flatten_le (c : Chain) : sizeOf c.flatten ≤ sizeOf c := by
  cases c with
  | nil => exact Nat.le_refl _
  | cons first rest =>
    obtain ⟨j, negated, x⟩ := first
    have hrest : sizeOf (rest.map Link.tagged) ≤ sizeOf rest := by
      induction rest with
      | nil => exact Nat.le_refl _
      | cons l rest ih =>
        have := l.sizeOf_tagged_le
        simp only [List.map_cons, List.cons.sizeOf_spec]
        omega
    have hj : 1 ≤ sizeOf j := by cases j <;> simp
    simp only [flatten, List.cons.sizeOf_spec, Tagged.mk.sizeOf_spec, Link.mk.sizeOf_spec,
      Join.where_.sizeOf_spec]
    omega

mutual

/-- The value of a condition under the values of the leaves. -/
def Condition.holds (v : Leaf → Bool) : Condition → Bool
  | .leaf l => v l
  | .group negated body => negated ^^ Flat.holds v (Chain.flatten body)
termination_by x => sizeOf x
decreasing_by
  have := Chain.sizeOf_flatten_le body
  simp only [Condition.group.sizeOf_spec]
  omega

/-- The value of a flat list. The first entry stands for itself, however it is tagged. -/
def Flat.holds (v : Leaf → Bool) : List Tagged → Bool
  | [] => false
  | ⟨_, negated, x⟩ :: rest => Flat.holdsAfter v (negated ^^ x.holds v) rest
termination_by ts => sizeOf ts

/-- The value of entries that stand behind others, which have the value `before`. -/
def Flat.holdsAfter (v : Leaf → Bool) (before : Bool) : List Tagged → Bool
  | [] => before
  | ⟨j, negated, x⟩ :: rest => Flat.holdsAfter v (j.apply before (negated ^^ x.holds v)) rest
termination_by ts => sizeOf ts

end

def Filter.holds (v : Leaf → Bool) : Filter → Bool
  | .leaf c => c.holds v
  | .not f => !f.holds v
  | .and l r => l.holds v && r.holds v
  | .or l r => l.holds v || r.holds v

mutual

/-- No group in the condition is empty. -/
def Condition.NoEmptyGroup : Condition → Prop
  | .leaf _ => True
  | .group _ body => body ≠ [] ∧ Chain.NoEmptyGroup body

def Chain.NoEmptyGroup : List Link → Prop
  | [] => True
  | ⟨_, _, x⟩ :: ls => x.NoEmptyGroup ∧ Chain.NoEmptyGroup ls

end

/-! ## Trees and flat lists -/

theorem Join.apply_ofConjunction (v : Leaf → Bool) (f g : Filter) (j : Conjunction) :
    (f.combine j g).holds v = (Join.ofConjunction j).apply (f.holds v) (g.holds v) := by
  cases j <;> rfl

theorem Filter.holds_negateIf (v : Leaf → Bool) (negated : Bool) (f : Filter) :
    (f.negateIf negated).holds v = (negated ^^ f.holds v) := by
  cases negated <;> simp [negateIf, holds]

variable {v : Leaf → Bool}

mutual

/-- A condition stands for an operand of its own value. -/
theorem Condition.exists_operand? :
    {x : Condition} → x.NoEmptyGroup → ∃ f, x.operand? = some f ∧ f.holds v = x.holds v
  | .leaf l, _ => ⟨.leaf (.leaf l), rfl, rfl⟩
  | .group negated body, ⟨hne, hbody⟩ => by
    obtain ⟨f, hf, hv⟩ := Chain.exists_foldTree?_holds hne hbody
    refine ⟨f.negateIf negated, ?_, ?_⟩
    · rw [Condition.operand?]
      exact congrArg _ hf
    · rw [Filter.holds_negateIf, Condition.holds, hv]

theorem Chain.exists_foldTree?_holds :
    {c : List Link} → c ≠ [] → Chain.NoEmptyGroup c →
      ∃ f, Chain.foldTree? c = some f ∧ f.holds v = Flat.holds v (Chain.flatten c)
  | ⟨j, negated, x⟩ :: ls, _, ⟨hx, hls⟩ => by
    obtain ⟨f, hf, hv⟩ := Condition.exists_operand? hx
    refine ⟨_, by rw [Chain.foldTree?, Chain.operands, hf]; rfl, ?_⟩
    rw [Chain.flatten, Flat.holds, ← hv, ← Filter.holds_negateIf]
    exact Links.holds_foldl _ hls

/-- The operands of further links change the value as their entries do. -/
theorem Links.holds_foldl :
    {ls : List Link} → (f : Filter) → Chain.NoEmptyGroup ls →
      ((Chain.operands ls).foldl (fun left (j, right) => left.combine j right) f).holds v =
        Flat.holdsAfter v (f.holds v) (ls.map Link.tagged)
  | [], _, _ => by
    rw [List.map_nil, Flat.holdsAfter]
    rfl
  | ⟨j, negated, x⟩ :: ls, f, ⟨hx, hls⟩ => by
    obtain ⟨g, hg, hv⟩ := Condition.exists_operand? hx
    rw [Chain.operands, hg, List.map_cons, Link.tagged, Flat.holdsAfter, ← hv,
      ← Filter.holds_negateIf, ← Join.apply_ofConjunction]
    exact Links.holds_foldl _ hls

end

/-- A chain that is not empty, and holds no empty group, has a tree; its value is that of the flat
list of the chain. Conjunctions may be missing, and the first link may have one. -/
theorem Chain.map_holds_foldTree? (v : Leaf → Bool) (c : Chain) (hne : c ≠ [])
    (h : Chain.NoEmptyGroup c) :
    c.foldTree?.map (Filter.holds v) = some (Flat.holds v c.flatten) := by
  obtain ⟨f, hf, hv⟩ := Chain.exists_foldTree?_holds hne h
  rw [hf, Option.map_some, hv]

/-- A conjunction on the first link, none on the second, and a negated group with a negation before
it. -/
theorem Chain.map_holds_foldTree?_irregular :
    let a := Leaf.nullCheck "a" true
    let b := Leaf.nullCheck "b" true
    let c : Chain := [⟨some .or, true, .leaf a⟩,
      ⟨none, true, .group true [⟨none, false, .leaf b⟩, ⟨some .or, false, .leaf a⟩]⟩]
    let v : Leaf → Bool := fun l => l.field == "b"
    c ≠ [] ∧ Chain.NoEmptyGroup c ∧
      c.foldTree?.map (Filter.holds v) = some (Flat.holds v c.flatten) := by
  intro a b c v
  have hne : c ≠ [] := List.cons_ne_nil _ _
  have h : Chain.NoEmptyGroup c :=
    ⟨trivial, ⟨List.cons_ne_nil _ _, trivial, trivial, trivial⟩, trivial⟩
  exact ⟨hne, h, Chain.map_holds_foldTree? v c hne h⟩

end FilterQuery
