import FilterQuery.Proofs.Layout.Literal

/-!
Numbers as digits: a run of digits lies below the power of ten of its length, and the canonical
texts of numbers are layouts of them.
-/

namespace FilterQuery

namespace Decimal

theorem scale_pos (n : Nat) : 0 < scale n :=
  Nat.pow_pos (by decide)

theorem scale_add (m n : Nat) : scale (m + n) = scale m * scale n :=
  Nat.pow_add 10 m n

theorem scale_succ (n : Nat) : scale (n + 1) = 10 * scale n := by
  rw [Nat.add_comm, scale_add]
  rfl

theorem value_cons (x : Char) (s : List Char) :
    value (x :: s) = scale s.length * (x.toNat - '0'.toNat) + value s := by
  rw [value, Nat.ofDigitChars_cons, Nat.ofDigitChars_eq_ofDigitChars_zero]
  simp [value, scale]

theorem digit_le {x : Char} (h : x.isDigit = true) : x.toNat - '0'.toNat ≤ 9 := by
  simp only [Char.isDigit, Bool.and_eq_true, decide_eq_true_eq] at h
  have hx : x.toNat ≤ 57 := UInt32.le_iff_toNat_le.1 h.2
  have hz : '0'.toNat = 48 := rfl
  omega

theorem value_lt_scale {s : List Char} (h : ∀ x ∈ s, x.isDigit = true) :
    value s < scale s.length := by
  induction s with
  | nil => exact scale_pos 0
  | cons x s ih =>
    have hs := ih fun y hy => h y (List.mem_cons_of_mem x hy)
    have hx : scale s.length * (x.toNat - '0'.toNat) ≤ scale s.length * 9 :=
      Nat.mul_le_mul_left _ (digit_le (h x (by simp)))
    rw [value_cons, List.length_cons, scale_succ]
    omega

theorem digit_inj {x y : Char} (hx : x.isDigit = true) (hy : y.isDigit = true)
    (h : x.toNat - '0'.toNat = y.toNat - '0'.toNat) : x = y := by
  have hxl := (Char.isDigit_iff_toNat.1 hx).1
  have hyl := (Char.isDigit_iff_toNat.1 hy).1
  have hn : x.toNat = y.toNat := by omega
  exact Char.ext (UInt32.toNat_inj.1 hn)

/-- Of the digit runs of one length, each denotes another number. -/
theorem value_inj_length {s t : List Char} (hs : ∀ x ∈ s, x.isDigit = true)
    (ht : ∀ x ∈ t, x.isDigit = true) (hlen : s.length = t.length) (h : value s = value t) :
    s = t := by
  induction s generalizing t with
  | nil => exact (List.length_eq_zero_iff.1 hlen.symm).symm
  | cons x s ih =>
    obtain ⟨y, t, rfl⟩ := List.exists_cons_of_length_eq_add_one hlen.symm
    simp only [List.mem_cons, forall_eq_or_imp] at hs ht
    have hlen : s.length = t.length := by simpa using hlen
    have hlt : value s < scale t.length := hlen ▸ value_lt_scale hs.2
    rw [value_cons, value_cons, hlen] at h
    -- The first digit is the quotient by the scale of the others, and they are the remainder.
    have hfirst := congrArg (· / scale t.length) h
    have hothers := congrArg (· % scale t.length) h
    simp only [Nat.mul_add_div (scale_pos _), Nat.div_eq_of_lt hlt,
      Nat.div_eq_of_lt (value_lt_scale ht.2), Nat.add_zero] at hfirst
    simp only [Nat.mul_add_mod, Nat.mod_eq_of_lt hlt,
      Nat.mod_eq_of_lt (value_lt_scale ht.2)] at hothers
    rw [digit_inj hs.1 ht.1 hfirst, ih hs.2 ht.2 hlen hothers]

end Decimal

/-- The number of a layout is the one its digits spell. -/
theorem FixedLayout.self {width n : Nat} {s : List Char} (h : FixedLayout width s n) :
    FixedLayout width s (Decimal.value s) :=
  ⟨⟨h.digits, rfl⟩, h.length⟩

theorem FixedLayout.lt {width n : Nat} {s : List Char} (h : FixedLayout width s n) :
    n < Decimal.scale width := by
  rw [← h.value, ← h.length]
  exact Decimal.value_lt_scale h.digits

/-- A number has one text of each width. -/
theorem FixedLayout.unique {width n : Nat} {s t : List Char} (h : FixedLayout width s n)
    (k : FixedLayout width t n) : s = t :=
  Decimal.value_inj_length h.digits k.digits (h.length.trans k.length.symm)
    (h.value.trans k.value.symm)

theorem DigitsLayout.toDigits (n : Nat) : DigitsLayout (Nat.toDigits 10 n) n :=
  ⟨fun _ hx => Nat.isDigit_of_mem_toDigits (by decide) (by decide) hx,
    Nat.ofDigitChars_ten_toDigits⟩

theorem DigitsLayout.padded (width n : Nat) : DigitsLayout (Decimal.padded width n).toList n := by
  rw [Decimal.padded, String.toList_ofList]
  refine ⟨?_, ?_⟩
  · intro x hx
    rcases List.mem_append.1 hx with hx | hx
    · rw [(List.mem_replicate.1 hx).2]
      rfl
    · exact (DigitsLayout.toDigits n).digits x hx
  · rw [Decimal.value, Nat.ofDigitChars_append, Nat.ofDigitChars_replicate_zero]
    simp

/-- A number that is not too long is padded to the width. -/
theorem FixedLayout.padded {width n : Nat} (hw : 0 < width) (h : n < Decimal.scale width) :
    FixedLayout width (Decimal.padded width n).toList n := by
  have hlen : (Nat.toDigits 10 n).length ≤ width := (Nat.length_toDigits_le_iff (by decide) hw).2 h
  refine ⟨.padded width n, ?_⟩
  rw [Decimal.padded, String.toList_ofList, List.length_append, List.length_replicate]
  omega

theorem IntegerLayout.ofInt (i : Int64) : IntegerLayout (Decimal.ofInt i.toInt).toList i := by
  have hn : Nat.toDigits 10 i.toInt.natAbs ≠ [] := Nat.toDigits_ne_nil
  have hd := DigitsLayout.toDigits i.toInt.natAbs
  unfold Decimal.ofInt Decimal.ofNat
  split
  · rw [String.toList_append, String.toList_ofList, String.toList_ofList, List.singleton_append]
    exact .minus hn hd (by omega)
  · rw [String.toList_ofList]
    exact .bare hn hd (by omega)

theorem CountLayout.ofNat (n : UInt64) : CountLayout (Decimal.ofNat n.toNat).toList n := by
  rw [Decimal.ofNat, String.toList_ofList]
  exact ⟨.toDigits _, Nat.toDigits_ne_nil⟩

end FilterQuery
