import FilterQuery.Encoding.ClauseSet
import FilterQuery.Encoding.Folded
import FilterQuery.Proofs.Encoding.Conditions

/-!
Everything that is handed on in JSON: literals, conditions, chains, clause sets and folded chains.
Exactly the values whose timestamps all fit are read back from what is written of them, and nothing
else can be read.
-/

namespace FilterQuery

open Decoder

/-! ## Clause sets -/

theorem ClauseSet.reads_count (n : UInt64) : Reads uint64 (countToJson n) n := by
  intro s
  have h : natBelow UInt64.size s (.int n.toNat) = .ok n.toNat :=
    Reads.natBelow n.toNat_lt_size s
  change (natBelow UInt64.size s (.int n.toNat)).map UInt64.ofNat = .ok n
  rw [h, Except.map, UInt64.ofNat_toNat]

theorem Direction.reads_toJson (d : Direction) : Reads ofJson d.toJson d := by
  cases d <;> exact Reads.oneOf rfl

theorem OrderBy.reads_toJson (o : OrderBy) : Reads ofJson o.toJson o := by
  obtain ⟨field, direction⟩ := o
  refine Reads.record fun s => ?_
  exact Part.seq_of_read (Part.map_of_read (Reads.part rfl (.str field) s))
    (Reads.part rfl direction.reads_toJson s) rfl

namespace ClauseSet

def timestamps (s : ClauseSet) : List Timestamp :=
  s.whereClause.elim [] Chain.timestamps

theorem forall_mem_timestamps {s : ClauseSet} {P : Timestamp → Prop} :
    (∀ t ∈ s.timestamps, P t) ↔ ∀ c ∈ s.whereClause, ∀ t ∈ Chain.timestamps c, P t := by
  unfold timestamps
  cases s.whereClause <;> simp

theorem yields_ofJson : Yields ofJson fun s => ∀ t ∈ s.timestamps, t.Fits := by
  refine Yields.record fun r s hs => ?_
  simp only [Part.seq_eq_read_iff, Part.map_eq_read_iff] at hs
  obtain ⟨_, ⟨_, ⟨_, ⟨_, ⟨_, ⟨_, ⟨fields, -, rfl⟩, distinct, -, rfl⟩, whereClause, hwhere, rfl⟩,
    groupBy, -, rfl⟩, orderBy, -, rfl⟩, offset, -, rfl⟩, limit, -, rfl⟩ := hs
  rw [forall_mem_timestamps]
  rcases Record.nullable_eq_read_iff.1 hwhere with ⟨-, rfl⟩ | ⟨j, -, hj⟩
  · simp
  · exact Chain.yields_ofJson.nullable hj

theorem reads_names (names : List String) : Reads (list str) (ClauseSet.names names) names :=
  .list fun name _ => .str name

theorem reads_toJson {s : ClauseSet} (h : ∀ t ∈ s.timestamps, t.Fits) :
    Reads ofJson s.toJson s := by
  rw [forall_mem_timestamps] at h
  obtain ⟨fields, distinct, whereClause, groupBy, orderBy, offset, limit⟩ := s
  have hwhere :
      Reads (nullable Chain.ofJson) (Json.ofOption Chain.toJson whereClause) whereClause :=
    .nullable fun c hc => ⟨nofun, Chain.reads_toJson (h c hc)⟩
  have horder : Reads (nullable OrderBy.ofJson) (Json.ofOption OrderBy.toJson orderBy) orderBy :=
    .nullable fun o _ => ⟨nofun, o.reads_toJson⟩
  have hcount (n? : Option UInt64) : Reads (nullable uint64) (Json.ofOption countToJson n?) n? :=
    .nullable fun n _ => ⟨nofun, reads_count n⟩
  refine Reads.record fun s => ?_
  -- The last member comes first, since a record is built from the left.
  refine Part.seq_of_read ?_ (Reads.part_nullable rfl (hcount limit) s) rfl
  refine Part.seq_of_read ?_ (Reads.part_nullable rfl (hcount offset) s) rfl
  refine Part.seq_of_read ?_ (Reads.part_nullable rfl horder s) rfl
  refine Part.seq_of_read ?_ (Reads.part rfl (reads_names groupBy) s) rfl
  refine Part.seq_of_read ?_ (Reads.part_nullable rfl hwhere s) rfl
  refine Part.seq_of_read ?_ (Reads.part rfl (.bool distinct) s) rfl
  exact Part.map_of_read (Reads.part rfl (reads_names fields) s)

end ClauseSet

/-! ## Folded chains -/

theorem Join.reads_toJson (j : Join) : Reads ofJson j.toJson j := by
  cases j <;> exact Reads.oneOf rfl

namespace Tagged

def timestamps (t : Tagged) : List Timestamp :=
  t.condition.timestamps

theorem yields_ofJson : Yields ofJson fun e => ∀ t ∈ e.timestamps, t.Fits := by
  refine Yields.record fun r e he => ?_
  simp only [Part.seq_eq_read_iff, Part.map_eq_read_iff, Record.part_eq_read_iff] at he
  obtain ⟨_, ⟨_, ⟨j, -, rfl⟩, negated, -, rfl⟩, x, ⟨_, -, hx⟩, rfl⟩ := he
  exact Condition.yields_ofJson hx

theorem reads_toJson {e : Tagged} (h : ∀ t ∈ e.timestamps, t.Fits) : Reads ofJson e.toJson e := by
  obtain ⟨j, negated, x⟩ := e
  refine Reads.record fun s => ?_
  refine Part.seq_of_read ?_ (Reads.part rfl (Condition.reads_toJson h) s) rfl
  refine Part.seq_of_read ?_ (Reads.part rfl (.bool negated) s) rfl
  exact Part.map_of_read (Reads.part rfl j.reads_toJson s)

end Tagged

namespace Filter

def timestamps (f : Filter) : List Timestamp :=
  f.leaves.flatMap Condition.timestamps

theorem forall_mem_append_timestamps {l r : Filter} {P : Timestamp → Prop} :
    (∀ t ∈ (l.leaves ++ r.leaves).flatMap Condition.timestamps, P t) ↔
      (∀ t ∈ l.timestamps, P t) ∧ ∀ t ∈ r.timestamps, P t := by
  rw [List.flatMap_append, List.forall_mem_append]
  rfl

theorem yields_pairOfJson {operand : Decoder Filter} {P : Filter → Prop} (h : Yields operand P) :
    Yields (pairOfJson operand) fun p => P p.1 ∧ P p.2 := by
  intro s j p hp
  unfold pairOfJson at hp
  split at hp
  · next items =>
    obtain ⟨fs, hfs, hp⟩ := Except.bind_eq_ok_iff.1 hp
    have hall := h.list (j := .arr (items.take 2)) hfs
    split at hp
    · next l r =>
      cases hp
      simpa using hall
    · cases hp
  · cases hp

theorem reads_pairOfJson {operand : Decoder Filter} {l r : Filter}
    (hl : Reads operand l.toJson l) (hr : Reads operand r.toJson r) :
    Reads (pairOfJson operand) (.arr [l.toJson, r.toJson]) (l, r) := by
  intro s
  have hpair : Reads (list operand) (.arr ([l, r].map toJson)) [l, r] :=
    .list (by simpa using ⟨hl, hr⟩)
  exact Except.bind_eq_ok_iff.2 ⟨_, hpair s, rfl⟩

theorem yields_ofJsonUpTo (levels : Nat) :
    Yields (ofJsonUpTo levels) fun f => ∀ t ∈ f.timestamps, t.Fits := by
  induction levels with
  | zero =>
    intro s j f hf
    cases hf
  | succ levels ih =>
    intro s j f hf
    generalize hn : levels + 1 = n at hf
    unfold ofJsonUpTo at hf
    split at hf
    · cases hn
      split at hf
      · obtain ⟨x, hx, rfl⟩ := Except.map_eq_ok_iff.1 hf
        simpa [timestamps, leaves] using Condition.yields_ofJson hx
      · obtain ⟨g, hg, rfl⟩ := Except.map_eq_ok_iff.1 hf
        change ∀ t ∈ g.timestamps, t.Fits
        exact ih hg
      · obtain ⟨⟨l, r⟩, hp, rfl⟩ := Except.map_eq_ok_iff.1 hf
        exact forall_mem_append_timestamps.2 (yields_pairOfJson ih hp)
      · obtain ⟨⟨l, r⟩, hp, rfl⟩ := Except.map_eq_ok_iff.1 hf
        exact forall_mem_append_timestamps.2 (yields_pairOfJson ih hp)
      · cases hf
    · cases hf

/-- A tree is read back with as many levels as its form has. -/
theorem reads_ofJsonUpTo {f : Filter} {levels : Nat} (hlevels : f.toJson.height ≤ levels)
    (h : ∀ t ∈ f.timestamps, t.Fits) : Reads (ofJsonUpTo levels) f.toJson f := by
  induction f generalizing levels with
  | leaf x =>
    simp only [toJson, Json.height, Json.heightMembers] at hlevels
    obtain ⟨m, rfl⟩ := Nat.exists_eq_add_one_of_ne_zero (n := levels) (by omega)
    have hx : Reads Condition.ofJson x.toJson x :=
      Condition.reads_toJson (by simpa [timestamps, leaves] using h)
    exact hx.map Filter.leaf
  | not f ih =>
    simp only [toJson, Json.height, Json.heightMembers] at hlevels
    obtain ⟨m, rfl⟩ := Nat.exists_eq_add_one_of_ne_zero (n := levels) (by omega)
    have hf : Reads (ofJsonUpTo m) f.toJson f := ih (by omega) h
    exact hf.map Filter.not
  | and l r hl hr | or l r hl hr =>
    simp only [toJson, Json.height, Json.heightMembers, Json.heightItems] at hlevels
    obtain ⟨m, rfl⟩ := Nat.exists_eq_add_one_of_ne_zero (n := levels) (by omega)
    obtain ⟨h₁, h₂⟩ := forall_mem_append_timestamps.1 h
    have hl : Reads (ofJsonUpTo m) l.toJson l := hl (by omega) h₁
    have hr : Reads (ofJsonUpTo m) r.toJson r := hr (by omega) h₂
    exact (reads_pairOfJson hl hr).map _

theorem yields_ofJson : Yields ofJson fun f => ∀ t ∈ f.timestamps, t.Fits :=
  fun _ j _ h => yields_ofJsonUpTo j.height h

theorem reads_toJson {f : Filter} (h : ∀ t ∈ f.timestamps, t.Fits) : Reads ofJson f.toJson f :=
  reads_ofJsonUpTo (Nat.le_refl _) h

end Filter

namespace Folded

def timestamps : Folded → List Timestamp
  | .tree f => f.timestamps
  | .flat es => es.flatMap Tagged.timestamps

theorem yields_ofJson : Yields ofJson fun f => ∀ t ∈ f.timestamps, t.Fits := by
  refine Yields.tagged ?_
  simp only [List.forall_mem_cons, List.not_mem_nil, false_implies, implies_true, and_true]
  refine ⟨?tree, ?flat⟩
  case tree => exact .map Filter.yields_ofJson
  case flat =>
    refine .map fun s j es hes => ?_
    change ∀ t ∈ es.flatMap Tagged.timestamps, t.Fits
    rw [List.forall_mem_flatMap]
    exact Tagged.yields_ofJson.list hes

theorem reads_toJson {f : Folded} (h : ∀ t ∈ f.timestamps, t.Fits) : Reads ofJson f.toJson f := by
  cases f with
  | tree f => exact Reads.tagged (by decide) rfl (.map (Filter.reads_toJson h) _)
  | flat es =>
    have hes : Reads (list Tagged.ofJson) (.arr (es.map Tagged.toJson)) es :=
      .list fun e he => Tagged.reads_toJson (List.forall_mem_flatMap.1 h e he)
    exact Reads.tagged (by decide) rfl (.map hes _)

end Folded

/-! ## All that is handed on -/

/-- The types of values that are handed on in JSON. -/
inductive Serialized where
  | literal | condition | link | chain | orderBy | clauseSet | filter | tagged | folded
  deriving DecidableEq, Repr

namespace Serialized

def Value : Serialized → Type
  | literal => Literal
  | condition => Condition
  | link => Link
  | chain => Chain
  | orderBy => OrderBy
  | clauseSet => ClauseSet
  | filter => Filter
  | tagged => Tagged
  | folded => Folded

def toJson : (k : Serialized) → k.Value → Json
  | literal => Literal.toJson
  | condition => Condition.toJson
  | link => Link.toJson
  | chain => Chain.toJson
  | orderBy => OrderBy.toJson
  | clauseSet => ClauseSet.toJson
  | filter => Filter.toJson
  | tagged => Tagged.toJson
  | folded => Folded.toJson

def ofJson : (k : Serialized) → Decoder k.Value
  | literal => Literal.ofJson
  | condition => Condition.ofJson
  | link => Link.ofJson
  | chain => Chain.ofJson
  | orderBy => OrderBy.ofJson
  | clauseSet => ClauseSet.ofJson
  | filter => Filter.ofJson
  | tagged => Tagged.ofJson
  | folded => Folded.ofJson

/-- The timestamps anywhere in a value. -/
def timestamps : (k : Serialized) → k.Value → List Timestamp
  | literal => Literal.timestamps
  | condition => Condition.timestamps
  | link => Link.timestamps
  | chain => Chain.timestamps
  | orderBy => fun _ => []
  | clauseSet => ClauseSet.timestamps
  | filter => Filter.timestamps
  | tagged => Tagged.timestamps
  | folded => Folded.timestamps

theorem yields_ofJson (k : Serialized) : Yields k.ofJson fun a => ∀ t ∈ k.timestamps a, t.Fits := by
  cases k with
  | literal => exact Literal.yields_ofJson
  | condition => exact Condition.yields_ofJson
  | link => exact Link.yields_ofJson
  | chain => exact Chain.yields_ofJson
  | orderBy =>
    intro s j o _ t ht
    cases ht
  | clauseSet => exact ClauseSet.yields_ofJson
  | filter => exact Filter.yields_ofJson
  | tagged => exact Tagged.yields_ofJson
  | folded => exact Folded.yields_ofJson

theorem reads_toJson (k : Serialized) {a : k.Value} (h : ∀ t ∈ k.timestamps a, t.Fits) :
    Reads k.ofJson (k.toJson a) a := by
  cases k with
  | literal => exact Literal.reads_toJson h
  | condition => exact Condition.reads_toJson h
  | link => exact Link.reads_toJson h
  | chain => exact Chain.reads_toJson h
  | orderBy => exact OrderBy.reads_toJson a
  | clauseSet => exact ClauseSet.reads_toJson h
  | filter => exact Filter.reads_toJson h
  | tagged => exact Tagged.reads_toJson h
  | folded => exact Folded.reads_toJson h

/-- Exactly the values whose timestamps all fit are read back from what is written of them; and
whatever is read, in whatever form, is read back. -/
theorem ofJson_toJson (k : Serialized) :
    (∀ a : k.Value, k.ofJson .strict (k.toJson a) = .ok a ↔ ∀ t ∈ k.timestamps a, t.Fits) ∧
      ∀ (j : Json) (a : k.Value), k.ofJson .strict j = .ok a →
        k.ofJson .strict (k.toJson a) = .ok a := by
  have hback (a : k.Value) (h : ∀ t ∈ k.timestamps a, t.Fits) :
      k.ofJson .strict (k.toJson a) = .ok a :=
    k.reads_toJson h .strict
  exact ⟨fun a => ⟨fun h => k.yields_ofJson h, hback a⟩, fun j a h => hback a (k.yields_ofJson h)⟩

/-- A link as an array, names as keys, members in another order and an unpadded date. -/
theorem ofJson_toJson_loose_spelling :
    let j : Json := .arr [.arr [.obj [("or", .null)], .bool true, .obj [("kind", .str "comparison"),
      ("value", .arr [.str "timestamp",
        .obj [("precision", .int 2), ("datetime", .str "-1-2-3T23:59:58.12")]]),
      ("field", .str "at"), ("operator", .obj [("gt", .obj [])])]]]
    let t : Timestamp := ⟨⟨⟨-1, 2, 3, by decide⟩, ⟨23, 59, 58, 120000000, by decide⟩⟩, 2⟩
    let c : Chain := [⟨some .or, true, .leaf (.comparison "at" .gt (.timestamp t))⟩]
    chain.ofJson .strict j = .ok c ∧ chain.ofJson .strict (chain.toJson c) = .ok c := by
  intro j t c
  have h : chain.ofJson .strict j = .ok c := by rfl
  exact ⟨h, (ofJson_toJson .chain).2 j c h⟩

end Serialized

end FilterQuery
