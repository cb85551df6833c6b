import FilterQuery.Proofs.Fold.Leaves
import FilterQuery.Proofs.Fold.Operands

/-!
Parentheses and the trees of chains. Parentheses around the first links of a chain, or around one
condition, change nothing, since a chain folds from the left anyway. Around two or more links
further on they always make another tree: what stands there becomes one right operand.
-/

namespace FilterQuery

/-! ## Operands taken apart -/

namespace Filter

theorem combine_inj {l l' r r' : Filter} {j j' : Conjunction}
    (h : l.combine j r = l'.combine j' r') : l = l' ∧ r = r' := by
  cases j <;> cases j' <;> cases h <;> exact ⟨rfl, rfl⟩

/-- The operands behind a tree leave it as it is, in the leftmost place. -/
theorem foldl_combine_inj {f g : Filter} (ps : List (Conjunction × Filter))
    (h : ps.foldl (fun left (j, right) => left.combine j right) f =
      ps.foldl (fun left (j, right) => left.combine j right) g) : f = g := by
  induction ps generalizing f g with
  | nil => exact h
  | cons p ps ih => exact (combine_inj (ih h)).1

theorem leafCount_negateIf (negated : Bool) (f : Filter) :
    (f.negateIf negated).leafCount = f.leafCount := by
  cases negated <;> rfl

end Filter

/-! ## Links in parentheses -/

/-- The links with another conjunction on the first of them, or with none. -/
def Chain.rejoined (j : Option Conjunction) : Chain → Chain
  | [] => []
  | first :: rest => { first with conjunction := j } :: rest

theorem Condition.operand?_plainGroup (body : Chain) :
    (Condition.group false body).operand? = body.foldTree? := by
  rw [operand?_group]
  cases body.foldTree? <;> rfl

namespace Chain

/-- The conjunction of the first link joins nothing. -/
theorem foldTree?_rejoined (j : Option Conjunction) (c : Chain) :
    foldTree? (c.rejoined j) = c.foldTree? := by
  cases c with
  | nil => rfl
  | cons l c =>
    obtain ⟨i, negated, x⟩ := l
    rw [rejoined, foldTree?, foldTree?, operands, operands]
    cases x.operand? <;> rfl

/-- A group takes the place of first links that fold into the same tree, or into none. -/
theorem foldTree?_group_append {body run : Chain} (h : body.foldTree? = run.foldTree?)
    (j : Option Conjunction) (rest : Chain) :
    foldTree? (⟨j, false, .group false body⟩ :: rest) = foldTree? (run ++ rest) := by
  have hgroup : (Condition.group false body).operand? = run.foldTree? := by
    rw [Condition.operand?_plainGroup, h]
  cases hrun : run.foldTree? with
  | none =>
    have hnil : operands run = [] := Filter.ofOperands?_eq_none_iff.1 hrun
    rw [foldTree?, foldTree?, operands, hgroup, hrun, operands_append, hnil]
    rfl
  | some f =>
    rw [foldTree?_append hrun, foldTree?, operands_cons_of_some (hgroup.trans hrun)]
    rfl

/-- Parentheses around one condition. -/
theorem operand?_group_single (j : Option Conjunction) (x : Condition) :
    (Condition.group false [⟨j, false, x⟩]).operand? = x.operand? := by
  rw [Condition.operand?_plainGroup, foldTree?, operands]
  cases x.operand? <;> rfl

theorem operands_cons_congr {x y : Condition} (h : x.operand? = y.operand?)
    (j : Option Conjunction) (negated : Bool) (c : Chain) :
    operands (⟨j, negated, x⟩ :: c) = operands (⟨j, negated, y⟩ :: c) := by
  rw [operands, operands, h]

/-! ## Chains of leaves -/

theorem length_leaves {c : Chain} (h : ∀ l ∈ c, l.condition.isLeaf = true) :
    (leaves c).length = c.length := by
  induction c with
  | nil => rfl
  | cons l c ih =>
    obtain ⟨hl, hc⟩ := List.forall_mem_cons.1 h
    obtain ⟨j, negated, x⟩ := l
    cases x with
    | group => cases hl
    | leaf x => rw [leaves, Condition.leaves, List.length_append, ih hc, List.length_singleton,
        List.length_cons, Nat.add_comm]

/-- A chain of leaves has a tree with one leaf for each link. -/
theorem exists_foldTree?_of_leaves {c : Chain} (hc : c ≠ [])
    (h : ∀ l ∈ c, l.condition.isLeaf = true) :
    ∃ f, c.foldTree? = some f ∧ f.leafCount = c.length := by
  have hlen := length_leaves h
  have hne : leaves c ≠ [] := by
    rw [← List.length_pos_iff, hlen]
    exact List.length_pos_iff.2 hc
  obtain ⟨f, hf⟩ := exists_foldTree? hne
  exact ⟨f, hf, by rw [leafCount_of_foldTree? hf, hlen]⟩

/-- Parentheses around two or more links that are not the first. The last operand of the run is one
leaf without them, and the whole run with them. -/
theorem foldTree?_ne_of_enclosed {before run after : Chain} (hbefore : before ≠ [])
    (hrun : 2 ≤ run.length) (h : ∀ l ∈ before ++ run ++ after, l.condition.isLeaf = true)
    (j k : Option Conjunction) (outer inner : Bool) :
    foldTree? (before ++ ⟨j, outer, .group inner (run.rejoined k)⟩ :: after) ≠
      foldTree? (before ++ run ++ after) := by
  simp only [List.forall_mem_append] at h
  obtain ⟨⟨hb, hr⟩, -⟩ := h
  have hne : run ≠ [] := List.length_pos_iff.1 (by omega)
  obtain ⟨f, hf, -⟩ := exists_foldTree?_of_leaves hbefore hb
  obtain ⟨g, hg, hcount⟩ := exists_foldTree?_of_leaves hne hr
  have hgroup : (Condition.group inner (run.rejoined k)).operand? = some (g.negateIf inner) := by
    rw [Condition.operand?_group, foldTree?_rejoined, hg]
    rfl
  obtain ⟨init, ⟨i, negated, x⟩, rfl⟩ : ∃ init last, run = init ++ [last] :=
    ⟨_, _, (List.dropLast_concat_getLast hne).symm⟩
  have hx : x.isLeaf = true := hr ⟨i, negated, x⟩ (by simp)
  cases x with
  | group => cases hx
  | leaf l =>
    have hwith := foldTree?_concat hf hgroup j outer
    have hwithout := foldTree?_concat (foldTree?_append hf init) (x := .leaf l) rfl i negated
    rw [List.append_assoc] at hwithout
    rw [List.append_cons, foldTree?_append hwith, foldTree?_append hwithout]
    intro heq
    obtain ⟨-, hright⟩ := Filter.combine_inj (Filter.foldl_combine_inj _ (Option.some.inj heq))
    have hsame := congrArg Filter.leafCount hright
    simp only [Filter.leafCount_negateIf, hcount, Filter.leafCount] at hsame
    omega

/-- Parentheses around the first links of a chain leave its tree as it is, and so do parentheses
around one condition. In a chain of leaves, parentheses around two or more links that are not the
first always make another tree. The group may join what stands before it in any way, be negated or
not, and its first link may keep its conjunction or not. -/
theorem foldTree?_grouped :
    (∀ (run rest : Chain) (j k : Option Conjunction),
      foldTree? (⟨j, false, .group false (run.rejoined k)⟩ :: rest) = foldTree? (run ++ rest)) ∧
    (∀ (before after : Chain) (l : Link) (k : Option Conjunction),
      foldTree?
          (before ++ { l with condition := .group false [⟨k, false, l.condition⟩] } :: after) =
        foldTree? (before ++ l :: after)) ∧
    ∀ (before run after : Chain) (j k : Option Conjunction) (outer inner : Bool),
      before ≠ [] → 2 ≤ run.length →
        (∀ l ∈ before ++ run ++ after, l.condition.isLeaf = true) →
          foldTree? (before ++ ⟨j, outer, .group inner (run.rejoined k)⟩ :: after) ≠
            foldTree? (before ++ run ++ after) := by
  refine ⟨?_, ?_, ?_⟩
  · intro run rest j k
    exact foldTree?_group_append (foldTree?_rejoined k run) j rest
  · rintro before after ⟨j, negated, x⟩ k
    rw [foldTree?, foldTree?, operands_append, operands_append,
      operands_cons_congr (operand?_group_single k x)]
  · intro before run after j k outer inner hbefore hrun h
    exact foldTree?_ne_of_enclosed hbefore hrun h j k outer inner

/-- Parentheses in `a OR NOT b AND c OR d`, and a negated group in its middle. -/
theorem foldTree?_grouped_disjunction :
    let a : Link := ⟨none, false, .isNull "a"⟩
    let b : Link := ⟨some .or, true, .isNull "b"⟩
    let c : Link := ⟨some .and, false, .isNull "c"⟩
    let d : Link := ⟨some .or, false, .isNull "d"⟩
    foldTree? [⟨none, false, .group false [a, b]⟩, c, d] = foldTree? [a, b, c, d] ∧
      foldTree? [a, ⟨some .or, true, .group false [⟨none, false, .isNull "b"⟩]⟩, c, d] =
        foldTree? [a, b, c, d] ∧
      ([a] : Chain) ≠ [] ∧ 2 ≤ [b, c].length ∧
      (∀ l ∈ [a] ++ [b, c] ++ [d], l.condition.isLeaf = true) ∧
      foldTree? [a, ⟨some .or, false, .group true [⟨none, true, .isNull "b"⟩, c]⟩, d] ≠
        foldTree? [a, b, c, d] := by
  intro a b c d
  have hleaves : ∀ l ∈ [a] ++ [b, c] ++ [d], l.condition.isLeaf = true := by decide
  obtain ⟨hfirst, hone, hfurther⟩ := foldTree?_grouped
  exact ⟨hfirst [a, b] [c, d] none none, hone [a] [c, d] b none, by simp, by decide, hleaves,
    hfurther [a] [b, c] [d] (some .or) none false true (by simp) (by decide) hleaves⟩

end Chain

end FilterQuery
