import FilterQuery.Proofs.Encoding.Conditions

/-!
What chains satisfy by how they came about. Chains put together by the constructors are exactly the
regular ones. Reading from data checks timestamps only: every other chain, regular or not, is read
from some data.
-/

namespace FilterQuery

/-! ## Regular chains -/

mutual

/-- Comparisons compare, and the bodies of groups are regular chains. -/
def Condition.Regular : Condition → Prop
  | .leaf (.comparison _ op _) => op.isComparison = true
  | .leaf (.nullCheck ..) | .leaf (.membership ..) => True
  | .group _ body => Chain.Regular body

/-- Exactly the first link of a chain has no conjunction. -/
def Chain.Regular : Chain → Prop
  | [] => True
  | ⟨j, _, x⟩ :: ls => j = none ∧ x.Regular ∧ Links.Regular ls

def Links.Regular : List Link → Prop
  | [] => True
  | ⟨j, _, x⟩ :: ls => j.isSome = true ∧ x.Regular ∧ Links.Regular ls

end

/-! ## Chains that are built -/

mutual

/-- Conditions made by the constructors; a group is made of a chain that is built itself. -/
inductive Condition.Built : Condition → Prop
  | comparison {field : String} {op : Operator} {value : Literal} {x : Condition} :
    Condition.comparison field op value = .ok x → Condition.Built x
  | eq (field : String) (value : Literal) : Condition.Built (.eq field value)
  | isNull (field : String) : Condition.Built (.isNull field)
  | isNotNull (field : String) : Condition.Built (.isNotNull field)
  | inList (field : String) (values : List Literal) : Condition.Built (.inList field values)
  | notInList (field : String) (values : List Literal) : Condition.Built (.notInList field values)
  | group (negated : Bool) {body : List Link} :
    Chain.Built body → Condition.Built (.group negated body)

inductive Chain.Built : List Link → Prop
  | empty : Chain.Built []
  | single {x : Condition} : Condition.Built x → Chain.Built (Chain.single x)
  | push {c : List Link} {x : Condition} (j : Conjunction) (negated : Bool) :
    Chain.Built c → Condition.Built x → Chain.Built (Chain.push c j negated x)
  | and {c : List Link} {x : Condition} :
    Chain.Built c → Condition.Built x → Chain.Built (Chain.and c x)
  | or {c : List Link} {x : Condition} :
    Chain.Built c → Condition.Built x → Chain.Built (Chain.or c x)
  | not {c : List Link} {x : Condition} (j : Conjunction) :
    Chain.Built c → Condition.Built x → Chain.Built (Chain.not c j x)

end

/-! ## What is built is regular -/

theorem Condition.comparison_eq_ok_iff {field : String} {op : Operator} {value : Literal}
    {x : Condition} : comparison field op value = .ok x ↔
      op.isComparison = true ∧ x = .leaf (.comparison field op value) := by
  unfold comparison
  split
  · next h => simp [h, eq_comm]
  · next h => simp [h]

theorem Links.Regular.append {ls ms : List Link} (hl : Links.Regular ls) (hm : Links.Regular ms) :
    Links.Regular (ls ++ ms) := by
  induction ls with
  | nil => exact hm
  | cons l ls ih =>
    obtain ⟨j, negated, x⟩ := l
    exact ⟨hl.1, hl.2.1, ih hl.2.2⟩

/-- The step that all builders are made of. -/
theorem Chain.Regular.push {c : Chain} {x : Condition} (hc : Chain.Regular c) (hx : x.Regular)
    (j : Conjunction) (negated : Bool) : Chain.Regular (Chain.push c j negated x) := by
  cases c with
  | nil => exact ⟨rfl, hx, trivial⟩
  | cons first rest =>
    obtain ⟨_, _, y⟩ := first
    exact ⟨hc.1, hc.2.1, hc.2.2.append ⟨rfl, hx, trivial⟩⟩

mutual

theorem Condition.Built.regular : {x : Condition} → x.Built → x.Regular
  | _, .comparison h => by
    obtain ⟨hop, rfl⟩ := Condition.comparison_eq_ok_iff.1 h
    exact hop
  | _, .eq .. => rfl
  | _, .isNull _ | _, .isNotNull _ | _, .inList .. | _, .notInList .. => trivial
  | _, .group _ h => Chain.Built.regular h

theorem Chain.Built.regular : {c : List Link} → Chain.Built c → Chain.Regular c
  | _, .empty => trivial
  | _, .single hx => ⟨rfl, hx.regular, trivial⟩
  | _, .push j negated hc hx => hc.regular.push hx.regular j negated
  | _, .and hc hx => hc.regular.push hx.regular .and false
  | _, .or hc hx => hc.regular.push hx.regular .or false
  | _, .not j hc hx => hc.regular.push hx.regular j true

end

/-! ## What is regular can be built -/

mutual

theorem Condition.Regular.built : {x : Condition} → x.Regular → x.Built
  | .leaf (.comparison ..), h => .comparison (Condition.comparison_eq_ok_iff.2 ⟨h, rfl⟩)
  | .leaf (.nullCheck field true), _ => .isNull field
  | .leaf (.nullCheck field false), _ => .isNotNull field
  | .leaf (.membership field false values), _ => .inList field values
  | .leaf (.membership field true values), _ => .notInList field values
  | .group negated _, h => .group negated (Chain.Regular.built h)

theorem Chain.Regular.built : {c : List Link} → Chain.Regular c → Chain.Built c
  | [], _ => .empty
  | ⟨none, negated, x⟩ :: _, ⟨_, hx, hls⟩ =>
    hls.built (c := [⟨none, negated, x⟩]) (.push .and negated .empty hx.built)
      (List.cons_ne_nil _ _)

/-- Further links are pushed one by one. -/
theorem Links.Regular.built : {ls : List Link} → Links.Regular ls →
    ∀ {c : List Link}, Chain.Built c → c ≠ [] → Chain.Built (c ++ ls)
  | [], _, c, hc, _ => by
    rwa [List.append_nil]
  | ⟨some j, negated, x⟩ :: ls, ⟨_, hx, hls⟩, c, hc, hne => by
    have hpush : Chain.push c j negated x = c ++ [⟨some j, negated, x⟩] := by
      simp [Chain.push, hne]
    have hbuilt : Chain.Built (c ++ [⟨some j, negated, x⟩]) := hpush ▸ .push j negated hc hx.built
    rw [List.append_cons]
    exact hls.built hbuilt (List.append_ne_nil_of_right_ne_nil _ (List.cons_ne_nil _ _))

end

/-! ## What is read -/

/-- The chains that can be built are exactly the regular ones. Those that can be read from data are
exactly those with fitting timestamps: neither conjunctions nor operators are looked at. -/
theorem Chain.built_iff_regular_and_read_iff_fits (c : Chain) :
    (Chain.Built c ↔ Chain.Regular c) ∧
      ((∃ j, Chain.ofJson .strict j = .ok c) ↔ ∀ t ∈ Chain.timestamps c, t.Fits) := by
  refine ⟨⟨Chain.Built.regular, Chain.Regular.built⟩, ?_, fun h => ?_⟩
  · rintro ⟨j, h⟩
    exact Chain.yields_ofJson h
  · exact ⟨Chain.toJson c, Chain.reads_toJson h .strict⟩

/-- A chain is read whose first link has a conjunction, whose second has none, and which compares
with an operator that compares nothing. -/
theorem Chain.read_irregular :
    let j : Json := .arr [
      .obj [("conjunction", .str "and"), ("negated", .bool false), ("condition", .obj [
        ("kind", .str "comparison"), ("field", .str "a"), ("operator", .str "in"),
        ("value", .obj [("type", .str "integer"), ("value", .int 1)])])],
      .obj [("conjunction", .null), ("negated", .bool false), ("condition", .obj [
        ("kind", .str "null_check"), ("field", .str "b"), ("expects_null", .bool true)])]]
    let c : Chain := [⟨some .and, false, .leaf (.comparison "a" .isIn (.integer 1))⟩,
      ⟨none, false, .leaf (.nullCheck "b" true)⟩]
    Chain.ofJson .strict j = .ok c ∧ ¬ Chain.Regular c := by
  refine ⟨rfl, ?_⟩
  rintro ⟨hfirst, -⟩
  cases hfirst

end FilterQuery
