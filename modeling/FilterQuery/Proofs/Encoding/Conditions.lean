import FilterQuery.Encoding.Condition
import FilterQuery.Proofs.Encoding.Literals
import FilterQuery.Proofs.Fold.Leaves

/-!
Conditions, links and chains in JSON. They are read back if all their timestamps fit, and in what is
read all timestamps do.
-/

namespace FilterQuery

open Decoder

/-! ## Names -/

theorem Operator.reads_toJson (op : Operator) : Reads ofJson op.toJson op := by
  cases op <;> exact Reads.oneOf rfl

theorem Conjunction.reads_toJson (j : Conjunction) : Reads ofJson j.toJson j := by
  cases j <;> exact Reads.oneOf rfl

theorem Conjunction.reads_ofOption (j? : Option Conjunction) :
    Reads (nullable ofJson) (Json.ofOption toJson j?) j? :=
  Reads.nullable fun j _ => ⟨by cases j <;> exact nofun, j.reads_toJson⟩

/-! ## Timestamps of conditions -/

def Leaf.timestamps : Leaf → List Timestamp
  | .comparison _ _ v => v.timestamps
  | .nullCheck .. => []
  | .membership _ _ vs => Literal.itemTimestamps vs

/-- The timestamps in a condition, through all its groups. -/
def Condition.timestamps (x : Condition) : List Timestamp :=
  x.leaves.flatMap Leaf.timestamps

def Link.timestamps (l : Link) : List Timestamp :=
  l.condition.timestamps

def Chain.timestamps (c : Chain) : List Timestamp :=
  (Chain.leaves c).flatMap Leaf.timestamps

theorem Condition.timestamps_leaf (l : Leaf) : (Condition.leaf l).timestamps = l.timestamps := by
  simp [timestamps, leaves]

theorem Condition.timestamps_group (negated : Bool) (body : Chain) :
    (Condition.group negated body).timestamps = Chain.timestamps body := by
  rw [timestamps, leaves, Chain.timestamps]

theorem Chain.timestamps_cons (l : Link) (c : Chain) :
    Chain.timestamps (l :: c) = l.timestamps ++ Chain.timestamps c := by
  obtain ⟨j, negated, x⟩ := l
  rw [timestamps, leaves, List.flatMap_append]
  rfl

theorem Chain.timestamps_eq (c : Chain) : Chain.timestamps c = c.flatMap Link.timestamps := by
  induction c with
  | nil => rfl
  | cons l c ih => rw [timestamps_cons, ih, List.flatMap_cons]

/-! ## What is read -/

theorem Link.yields_ofJsonWith {condition : Decoder Condition} {P : Condition → Prop}
    (h : Yields condition P) : Yields (Link.ofJsonWith condition) fun l => P l.condition := by
  refine Yields.record fun r l hl => ?_
  simp only [Part.seq_eq_read_iff, Part.map_eq_read_iff, Record.part_eq_read_iff] at hl
  obtain ⟨_, ⟨_, ⟨j, -, rfl⟩, negated, -, rfl⟩, x, ⟨_, -, hx⟩, rfl⟩ := hl
  exact h hx

namespace Condition

/-- Whatever the kind of a condition, its timestamps are those of its literals or of its links. -/
theorem yields_formsOfJson {link : Decoder Link}
    (hlink : Yields link fun l => ∀ t ∈ l.timestamps, t.Fits) :
    ∀ f ∈ formsOfJson link, Yields f.2 fun x => ∀ t ∈ x.timestamps, t.Fits := by
  simp only [formsOfJson, List.forall_mem_cons, List.not_mem_nil, false_implies, implies_true,
    and_true]
  refine ⟨?comparison, ?nullCheck, ?membership, ?group⟩
  all_goals
    refine Yields.record fun r x hx => ?_
    simp only [Part.seq_eq_read_iff, Part.map_eq_read_iff, Record.part_eq_read_iff] at hx
  case comparison =>
    obtain ⟨_, ⟨_, ⟨f, -, rfl⟩, op, -, rfl⟩, v, ⟨_, -, hv⟩, rfl⟩ := hx
    rw [timestamps_leaf]
    exact Literal.yields_ofJson hv
  case nullCheck =>
    obtain ⟨_, ⟨f, -, rfl⟩, b, -, rfl⟩ := hx
    simp [timestamps_leaf, Leaf.timestamps]
  case membership =>
    obtain ⟨_, ⟨_, ⟨f, -, rfl⟩, b, -, rfl⟩, vs, ⟨_, -, hvs⟩, rfl⟩ := hx
    rw [timestamps_leaf, Leaf.timestamps, Literal.itemTimestamps_eq, List.forall_mem_flatMap]
    exact Literal.yields_ofJson.list hvs
  case group =>
    obtain ⟨_, ⟨body, ⟨_, -, hbody⟩, rfl⟩, b, -, rfl⟩ := hx
    rw [timestamps_group, Chain.timestamps_eq, List.forall_mem_flatMap]
    exact hlink.list hbody

theorem yields_ofJsonUpTo (levels : Nat) :
    Yields (ofJsonUpTo levels) fun x => ∀ t ∈ x.timestamps, t.Fits := by
  induction levels with
  | zero =>
    intro s j x h
    cases h
  | succ levels ih =>
    refine Yields.variant fun f hf => ?_
    obtain ⟨form, hform, rfl⟩ := List.mem_map.1 hf
    intro s j x hx
    exact yields_formsOfJson (Link.yields_ofJsonWith ih) form hform hx

end Condition

/-! ## What is read back -/

theorem Link.reads_ofJsonWith {condition : Decoder Condition} {l : Link}
    (h : Reads condition l.condition.toJson l.condition) :
    Reads (Link.ofJsonWith condition) l.toJson l := by
  obtain ⟨j, negated, x⟩ := l
  refine Reads.record fun s => ?_
  refine Part.seq_of_read ?_ (Reads.part rfl h s) rfl
  refine Part.seq_of_read ?_ (Reads.part rfl (.bool negated) s) rfl
  exact Part.map_of_read (Reads.part_nullable rfl (Conjunction.reads_ofOption j) s)

theorem Chain.linksToJson_eq (ls : List Link) : Chain.linksToJson ls = ls.map Link.toJson := by
  induction ls with
  | nil => rfl
  | cons l ls ih =>
    obtain ⟨j, negated, x⟩ := l
    rw [linksToJson, ih]
    rfl

namespace Condition

/-- The kind comes first, and the members are read leniently by it. -/
theorem reads_kind {levels : Nat} {kind : String} {members : Members} {value : Decoder Condition}
    {x : Condition}
    (hvalue : (formsOfJson (Link.ofJsonWith (ofJsonUpTo levels))).lookup kind = some value)
    (h : Reads value (.obj (("kind", .str kind) :: members)) x) :
    Reads (ofJsonUpTo (levels + 1)) (.obj (("kind", .str kind) :: members)) x := by
  have hforms := lookup_map lenient (formsOfJson (Link.ofJsonWith (ofJsonUpTo levels))) kind
  rw [hvalue] at hforms
  exact Reads.variant rfl hforms fun _ => h .lenient

theorem reads_leaf {levels : Nat} {l : Leaf} (h : ∀ t ∈ l.timestamps, t.Fits) :
    Reads (ofJsonUpTo (levels + 1)) l.toJson (.leaf l) := by
  cases l with
  | comparison f op v =>
    refine reads_kind rfl (.record fun s => ?_)
    exact Part.seq_of_read
      (Part.seq_of_read (Part.map_of_read (Reads.part rfl (.str f) s))
        (Reads.part rfl op.reads_toJson s) rfl)
      (Reads.part rfl (Literal.reads_toJson h) s) rfl
  | nullCheck f expectsNull =>
    refine reads_kind rfl (.record fun s => ?_)
    exact Part.seq_of_read (Part.map_of_read (Reads.part rfl (.str f) s))
      (Reads.part rfl (.bool expectsNull) s) rfl
  | membership f negated vs =>
    have hvs : Reads (list Literal.ofJson) (.arr (Literal.itemsToJson vs)) vs := by
      rw [Leaf.timestamps, Literal.itemTimestamps_eq, List.forall_mem_flatMap] at h
      rw [Literal.itemsToJson_eq]
      exact .list fun v hv => Literal.reads_toJson (h v hv)
    refine reads_kind rfl (.record fun s => ?_)
    exact Part.seq_of_read
      (Part.seq_of_read (Part.map_of_read (Reads.part rfl (.str f) s))
        (Reads.part rfl (.bool negated) s) rfl)
      (Reads.part rfl hvs s) rfl

mutual

/-- A condition is read back with as many levels as its form has. -/
theorem reads_ofJsonUpTo (levels : Nat) :
    (x : Condition) → x.toJson.height ≤ levels + 1 → (∀ t ∈ x.timestamps, t.Fits) →
      Reads (ofJsonUpTo (levels + 1)) x.toJson x
  | .leaf l, _, h => by
    rw [toJson]
    exact reads_leaf (by simpa [timestamps_leaf] using h)
  | .group negated body, hlevels, h => by
    simp only [toJson, Json.height, Json.heightMembers] at hlevels
    rw [timestamps_group] at h
    obtain ⟨m, rfl⟩ := Nat.exists_eq_add_one_of_ne_zero (n := levels) (by omega)
    have hbody := reads_links m body (by omega) h
    rw [toJson, Chain.linksToJson_eq]
    refine reads_kind rfl (.record fun s => ?_)
    exact Part.seq_of_read (Part.map_of_read (Reads.part rfl (.list hbody) s))
      (Reads.part rfl (.bool negated) s) rfl

theorem reads_links (levels : Nat) :
    (ls : List Link) → Json.heightItems (Chain.linksToJson ls) ≤ levels + 1 →
      (∀ t ∈ Chain.timestamps ls, t.Fits) →
        ∀ l ∈ ls, Reads (Link.ofJsonWith (ofJsonUpTo (levels + 1))) l.toJson l
  | [], _, _ => by simp
  | ⟨j, negated, x⟩ :: ls, hlevels, h => by
    simp only [Chain.linksToJson, Json.heightItems, Json.height, Json.heightMembers] at hlevels
    rw [Chain.timestamps_cons, List.forall_mem_append] at h
    have hx := reads_ofJsonUpTo levels x (by omega) h.1
    rw [List.forall_mem_cons]
    exact ⟨Link.reads_ofJsonWith hx, reads_links levels ls (by omega) h.2⟩

end

theorem yields_ofJson : Yields ofJson fun x => ∀ t ∈ x.timestamps, t.Fits :=
  fun _ j _ h => yields_ofJsonUpTo j.height h

theorem reads_toJson {x : Condition} (h : ∀ t ∈ x.timestamps, t.Fits) :
    Reads ofJson x.toJson x := by
  intro s
  obtain ⟨n, hn⟩ := x.toJson.exists_height_eq_succ
  unfold ofJson
  rw [hn]
  exact reads_ofJsonUpTo n x (Nat.le_of_eq hn) h s

end Condition

theorem Link.yields_ofJson : Yields ofJson fun l => ∀ t ∈ l.timestamps, t.Fits :=
  Link.yields_ofJsonWith Condition.yields_ofJson

theorem Link.reads_toJson {l : Link} (h : ∀ t ∈ l.timestamps, t.Fits) :
    Reads ofJson l.toJson l :=
  Link.reads_ofJsonWith (Condition.reads_toJson h)

theorem Chain.yields_ofJson : Yields ofJson fun c => ∀ t ∈ Chain.timestamps c, t.Fits := by
  intro s j c h
  rw [timestamps_eq, List.forall_mem_flatMap]
  exact Link.yields_ofJson.list h

theorem Chain.reads_toJson {c : Chain} (h : ∀ t ∈ Chain.timestamps c, t.Fits) :
    Reads ofJson (Chain.toJson c) c := by
  rw [timestamps_eq, List.forall_mem_flatMap] at h
  rw [toJson, linksToJson_eq]
  exact .list fun l hl => Link.reads_toJson (h l hl)

end FilterQuery
