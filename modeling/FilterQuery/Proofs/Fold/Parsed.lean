import FilterQuery.Proofs.Fold.Leaves
import FilterQuery.Proofs.Refusal.Calls
import FilterQuery.Proofs.RoundTrip.ClauseSet
import FilterQuery.Proofs.RoundTrip.Filter

/-!
Trees of all chains, and of those that a parser answers. The leaves of the tree are those of the
chain, whatever groups they stand in; chains without leaves, which have no tree, come from data and
from builders only, since every chain in a text has a leaf.
-/

namespace FilterQuery

/-! ## Chains in answers -/

/-- The chains of what a call answers. -/
def Call.chains : (k : Call) → k.Answer → List Chain
  | .chain, c => [c]
  | .clauseSet, s => (ClauseSet.whereClause s).toList
  | .literal, _ => []

theorem Call.chains_wellFormed {d : Dialect} {n : Nat} {s : List Char} {k : Call} {a : k.Answer}
    (h : k.Layout d n s a) : ∀ c ∈ k.chains a, Chain.WellFormed d c := by
  intro c hc
  cases k with
  | chain =>
    obtain rfl := List.mem_singleton.1 hc
    exact h.1.wellFormed
  | clauseSet =>
    have hs : ClauseSet.WellFormed d n a := ClauseSetLayout.wellFormed h
    exact (hs.whereClause c (Option.mem_toList.1 hc)).1
  | literal => cases hc

theorem Parser.Reads.exists_foldTree? {p : Parser} {d : Dialect} {text : String} {k : Call}
    {a : k.Answer} (hp : p.Reads d text) (h : (p.call k).1 = .ok a) :
    ∀ c ∈ k.chains a, ∃ f, c.foldTree? = some f := by
  intro c hc
  obtain ⟨s, hs⟩ := exists_layout_of_ok hp.dottedNames h
  exact Chain.exists_foldTree? (Call.chains_wellFormed hs c hc).leaves.1

/-! ## Leaves -/

/-- A chain has a tree exactly if it has a leaf. The leaves of the tree are those of the chain, in
the order of the text and through all groups, and none of them is a group. All chains that a parser
answers, whatever it was asked before, have a tree. -/
theorem Chain.foldTree?_keeps_leaves :
    (∀ c : Chain, (c.foldTree? = none ↔ Chain.leaves c = []) ∧
      ∀ f, c.foldTree? = some f →
        f.leaves = (Chain.leaves c).map .leaf ∧ f.leafCount = (Chain.leaves c).length ∧
          ∀ x ∈ f.leaves, x.isLeaf = true) ∧
    ∀ (d : Dialect) (maxDepth : Nat) (text : String) (calls : List Call) (k : Call) (a : k.Answer),
      (((Parser.ofString d maxDepth text).after calls).call k).1 = .ok a →
        ∀ c ∈ k.chains a, ∃ f, c.foldTree? = some f := by
  refine ⟨fun c => ⟨foldTree?_eq_none_iff, fun f hf => ?_⟩, ?_⟩
  · have hleaves := leaves_of_foldTree? hf
    refine ⟨hleaves, leafCount_of_foldTree? hf, ?_⟩
    rw [hleaves, List.forall_mem_map]
    exact fun l _ => rfl
  · intro d maxDepth text calls k a h
    exact (Parser.Reads.ofString.after calls).exists_foldTree? h

/-- Empty groups before, between and inside the conditions, and a text that is read behind another
call. -/
theorem Chain.foldTree?_keeps_leaves_empty_groups :
    let empty := Condition.group true []
    let c : Chain := [⟨some .or, true, empty⟩, ⟨none, true, .isNull "a"⟩,
      ⟨some .or, false, .group true [⟨none, false, empty⟩, ⟨some .or, false, .isNull "b"⟩]⟩,
      ⟨some .and, false, .group false [⟨none, false, empty⟩]⟩]
    let f : Filter := .or (.not (.leaf (.isNull "a"))) (.not (.leaf (.isNull "b")))
    let p := (Parser.ofString .clause 64 "1) SELECT x WHERE NOT a IS NULL").after [.literal]
    let s : ClauseSet := { fields := ["x"], whereClause := some [⟨none, true, .isNull "a"⟩] }
    c.foldTree? = some f ∧ f.leaves = [.isNull "a", .isNull "b"] ∧ f.leafCount = 2 ∧
      (p.call .clauseSet).1 = .ok s ∧ ∃ g, foldTree? [⟨none, true, .isNull "a"⟩] = some g := by
  intro empty c f p s
  have hf : c.foldTree? = some f := by rfl
  have hp : p = ⟨.clause, 64, ⟨")1".toList, " SELECT x WHERE NOT a IS NULL".toList, false⟩, 0⟩ := by
    rfl
  have hs : (p.call .clauseSet).1 = .ok s := by
    rw [hp]
    rfl
  obtain ⟨hchain, hparsed⟩ := foldTree?_keeps_leaves
  obtain ⟨hleaves, hcount, -⟩ := (hchain c).2 f hf
  exact ⟨hf, hleaves, hcount, hs,
    hparsed .clause 64 _ [.literal] .clauseSet s hs _ (by simp [Call.chains, s])⟩

end FilterQuery
