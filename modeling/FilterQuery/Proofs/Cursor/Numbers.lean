import FilterQuery.Proofs.Layout.Decimal
import FilterQuery.Proofs.Reading.Tokens
import Mathlib.Data.Nat.Digits.Defs

/-!
Numbers of any length. However many digits there are, zeros in front among them, a number is
answered exactly if 64 bits hold it, and otherwise it is refused with all of its digits.
-/

namespace FilterQuery

/-- Digits weigh powers of ten, from the last one to the first. -/
theorem Decimal.value_eq_ofDigits (ds : List Char) :
    value ds = Nat.ofDigits 10 (ds.reverse.map fun x => x.toNat - '0'.toNat) := by
  induction ds with
  | nil => rfl
  | cons x ds ih =>
    rw [value_cons, ih, List.reverse_cons, List.map_append, Nat.ofDigits_append, List.length_map,
      List.length_reverse, List.map_singleton, Nat.ofDigits_singleton, Nat.add_comm]
    rfl

namespace Rule

variable {b c stop : Cursor} {ds : List Char}

/-- From `start`, the rule refuses all up to `stop` with an error of the kind. Reading goes on at
`next`. -/
def RefusesOver {α : Type} (rule : Rule α) (kind : ErrorKind) (start stop next : Cursor) : Prop :=
  ∃ r, rule start = .error r ∧ r.error.kind = kind ∧ r.error.span = ⟨start.pos, stop.pos⟩ ∧
    r.stop = next

/-- The rule reads the number `n`, which is written from `start` to `stop`. With a word right behind
it, it is no number and is given back. Otherwise it is read to its end, and it is answered if it
lies within the bounds. -/
def ReadsNumber {α : Type} (rule : Rule α) (toInt : α → Int) (low high : Int) (kind : ErrorKind)
    (start stop : Cursor) (n : Int) : Prop :=
  if stop.peek?.any isWordStart = true then RefusesOver rule .lexical start stop start
  else if low ≤ n ∧ n ≤ high then ∃ a, rule start = .ok (a, stop) ∧ toInt a = n
  else RefusesOver rule kind start stop stop

theorem integer_readsNumber (minus : Bool) (hsign : c.Passes (if minus then ['-'] else []) b)
    (hp : b.Passes ds stop) (hne : ds ≠ []) (hds : ∀ x ∈ ds, x.isDigit = true)
    (hstop : stop.peek?.any Char.isDigit = false) :
    ReadsNumber integer Int64.toInt (-2 ^ 63) (2 ^ 63 - 1) .lexical c stop
      (if minus then -(Decimal.value ds : Int) else Decimal.value ds) := by
  obtain ⟨hat, hb⟩ := sign_of_passes minus hsign hp hne hds
  unfold ReadsNumber RefusesOver
  rw [integer, hat, hb, digits_of_passes c hp hne hds hstop]
  by_cases hword : stop.peek?.any isWordStart = true
  · rw [if_pos hword, if_pos hword]
    exact ⟨_, rfl, rfl, rfl, rfl⟩
  · rw [if_neg hword, if_neg hword, Int64.toInt_minValue, Int64.toInt_maxValue]
    dsimp only
    generalize (if minus then -(Decimal.value ds : Int) else Decimal.value ds) = n
    by_cases hlow : n < -2 ^ 63
    · rw [if_neg (by omega), if_pos hlow]
      exact ⟨_, rfl, rfl, rfl, rfl⟩
    · by_cases hhigh : 2 ^ 63 - 1 < n
      · rw [if_neg (by omega), if_neg hlow, if_pos hhigh]
        exact ⟨_, rfl, rfl, rfl, rfl⟩
      · rw [if_pos (by omega), if_neg hlow, if_neg hhigh]
        exact ⟨_, rfl, Int64.toInt_ofInt_of_le (by omega) (by omega)⟩

theorem count_readsNumber (hp : b.Passes ds stop) (hne : ds ≠ [])
    (hds : ∀ x ∈ ds, x.isDigit = true) (hstop : stop.peek?.any Char.isDigit = false) :
    ReadsNumber count (fun n : UInt64 => n.toNat) 0 (2 ^ 64 - 1) .literalValue b stop
      (Decimal.value ds) := by
  have hsize : UInt64.size = 2 ^ 64 := rfl
  unfold ReadsNumber RefusesOver
  rw [count, digits_of_passes b hp hne hds hstop]
  by_cases hword : stop.peek?.any isWordStart = true
  · rw [if_pos hword, if_pos hword]
    exact ⟨_, rfl, rfl, rfl, rfl⟩
  · rw [if_neg hword, if_neg hword]
    dsimp only
    by_cases hlt : Decimal.value ds < UInt64.size
    · rw [if_pos (by omega), if_pos hlt]
      exact ⟨_, rfl, congrArg Nat.cast (UInt64.toNat_ofNat_of_lt' hlt)⟩
    · rw [if_neg (by omega), if_neg hlt]
      exact ⟨_, rfl, rfl, rfl, rfl⟩

/-- A run of digits that no other digit follows is read as an integer, with the sign before it, and
without the sign as a count. -/
theorem number_of_digits (minus : Bool) (hsign : c.Passes (if minus then ['-'] else []) b)
    (hp : b.Passes ds stop) (hne : ds ≠ []) (hds : ∀ x ∈ ds, x.isDigit = true)
    (hstop : stop.peek?.any Char.isDigit = false) :
    let n : Nat := Nat.ofDigits 10 (ds.reverse.map fun x => x.toNat - '0'.toNat)
    ReadsNumber integer Int64.toInt (-2 ^ 63) (2 ^ 63 - 1) .lexical c stop
        (if minus then -(n : Int) else n) ∧
      ReadsNumber count (fun u : UInt64 => u.toNat) 0 (2 ^ 64 - 1) .literalValue b stop n := by
  intro n
  have hn : n = Decimal.value ds := (Decimal.value_eq_ofDigits ds).symm
  rw [hn]
  exact ⟨integer_readsNumber minus hsign hp hne hds hstop, count_readsNumber hp hne hds hstop⟩

/-- Behind a text, the first integer that is too small, with zeros in front. Without its sign it is
a count. -/
theorem number_of_digits_below_integers :
    let c : Cursor := ⟨" = é".toList, "-009223372036854775809 AND".toList, false⟩
    let ds : List Char := "009223372036854775809".toList
    let stop : Cursor := c.move 22
    c.Passes ['-'] (c.move 1) ∧ (c.move 1).Passes ds stop ∧ ds ≠ [] ∧
      (∀ x ∈ ds, x.isDigit = true) ∧ stop.peek?.any Char.isDigit = false ∧
      RefusesOver integer .lexical c stop stop ∧
      ∃ n, count (c.move 1) = .ok (n, stop) ∧ (n.toNat : Int) = 2 ^ 63 + 1 := by
  intro c ds stop
  have hsign : c.Passes ['-'] (c.move 1) := ⟨rfl, rfl, rfl⟩
  have hp : (c.move 1).Passes ds stop := ⟨rfl, rfl, rfl⟩
  have hne : ds ≠ [] := by decide
  have hds : ∀ x ∈ ds, x.isDigit = true := List.all_eq_true.1 (by decide)
  have hstop : stop.peek?.any Char.isDigit = false := by decide
  have hword : ¬ stop.peek?.any isWordStart = true := by decide
  have hn : Nat.ofDigits 10 (ds.reverse.map fun x => x.toNat - '0'.toNat) = 2 ^ 63 + 1 := by
    decide
  obtain ⟨hinteger, hcount⟩ := number_of_digits true hsign hp hne hds hstop
  rw [ReadsNumber, if_neg hword, hn] at hinteger hcount
  refine ⟨hsign, hp, hne, hds, hstop, ?_, ?_⟩
  · rwa [if_neg (by decide)] at hinteger
  · rwa [if_pos (by decide)] at hcount

end Rule

end FilterQuery
