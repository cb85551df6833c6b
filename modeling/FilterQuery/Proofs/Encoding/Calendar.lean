import FilterQuery.Calendar.Iso
import FilterQuery.Proofs.Layout.Calendar

/-!
Written dates and date-times read back, in every year that there is and with leap seconds. A reader
is followed over what it takes in front of an open rest of the text.
-/

namespace FilterQuery.Calendar

namespace Iso

variable {α β : Type} {cs rest : List Char}

/-! ## Steps -/

theorem bind_of_some {r : Reader α} {a : α} (h : r cs = some (a, rest)) (f : α → Reader β) :
    (r >>= f) cs = f a rest := by
  change (r cs).bind _ = _
  rw [h]
  rfl

theorem lift_of_some {a? : Option α} {a : α} (h : a? = some a) :
    (liftM a? : Reader α) cs = some (a, cs) := by
  rw [h]
  rfl

/-- What stands before the next part is no blank. -/
def NoSpace (cs : List Char) : Prop :=
  ∀ x ∈ cs.head?, isSpace x = false

/-- A run of digits ends here. -/
def NoDigit (cs : List Char) : Prop :=
  ∀ x ∈ cs.head?, x.isDigit = false

theorem NoSpace.dropWhile (h : NoSpace cs) : cs.dropWhile isSpace = cs := by
  cases cs with
  | nil => rfl
  | cons x cs => exact List.dropWhile_cons_of_neg (by simp [h x rfl])

theorem spaces_eq (h : NoSpace cs) : spaces cs = some ((), cs) := by
  rw [spaces, h.dropWhile]

theorem mark_eq {c : Char} (h : isSpace c = false) : mark c (c :: rest) = some ((), rest) := by
  have hc : NoSpace (c :: rest) := by simpa [NoSpace] using h
  rw [mark, hc.dropWhile]
  exact if_pos rfl

theorem eat_eq (c : Char) : eat c (c :: rest) = some (true, rest) :=
  if_pos rfl

theorem eat_ne {c : Char} (h : cs.head? ≠ some c) : eat c cs = some (false, cs) := by
  cases cs with
  | nil => rfl
  | cons x cs => exact if_neg fun hx => h (congrArg some hx)

theorem isSpace_of_isDigit {x : Char} (h : x.isDigit = true) : isSpace x = false := by
  simp only [Char.isDigit, Bool.and_eq_true, decide_eq_true_eq] at h
  have hlo : 48 ≤ x.toNat := UInt32.le_iff_toNat_le.1 h.1
  have hhi : x.toNat ≤ 57 := UInt32.le_iff_toNat_le.1 h.2
  simp only [isSpace, Bool.or_eq_false_iff, Bool.and_eq_false_iff, beq_eq_false_iff_ne,
    decide_eq_false_iff_not]
  omega

/-! ## Numbers -/

theorem noSpace_digits {s : List Char} {n : Nat} (hs : DigitsLayout s n) (hne : s ≠ []) :
    NoSpace (s ++ rest) := by
  obtain ⟨x, hx, hd⟩ := (Option.any_eq_true _ _).1 (hs.head? hne)
  simpa [NoSpace, hx] using isSpace_of_isDigit hd

/-- A run of digits is taken as a whole if it is as long as it may be, or ends there. -/
theorem digits_append {most n : Nat} {s : List Char} (hs : DigitsLayout s n) (hne : s ≠ [])
    (hlen : s.length ≤ most) (hend : s.length = most ∨ NoDigit rest) :
    digits most (s ++ rest) = some (s, rest) := by
  have hstop : (rest.take (most - s.length)).takeWhile Char.isDigit = [] := by
    rcases hend with hend | hend
    · simp [hend]
    · cases rest with
      | nil => simp
      | cons x rest =>
        cases most - s.length with
        | zero => rfl
        | succ n => exact List.takeWhile_cons_of_neg (by simp [hend x rfl])
  have hrun : ((s ++ rest).take most).takeWhile Char.isDigit = s := by
    rw [List.take_append, List.take_of_length_le hlen, List.takeWhile_append_of_pos hs.digits,
      hstop, List.append_nil]
  simp only [digits, hrun, List.isEmpty_iff, hne, if_false, List.drop_left]

theorem allDigits_append {n : Nat} {s : List Char} (hs : DigitsLayout s n) (hne : s ≠ [])
    (hend : NoDigit rest) : allDigits (s ++ rest) = some (s, rest) :=
  digits_append hs hne (by simp) (.inr hend)

theorem digits_fixed {width n : Nat} {s : List Char} (hs : FixedLayout width s n)
    (hne : s ≠ []) : digits width (s ++ rest) = some (s, rest) :=
  digits_append hs.toDigitsLayout hne (Nat.le_of_eq hs.length) (.inl hs.length)

theorem padded_ne_nil (width n : Nat) : (Decimal.padded width n).toList ≠ [] := by
  simp [Decimal.padded, Nat.toDigits_ne_nil]

/-- Two digits are a number of their own, whatever stands behind them. -/
theorem number_padded {n : Nat} (h : n < 100) :
    number 2 ((Decimal.padded 2 n).toList ++ rest) = some (n, rest) := by
  have hs : FixedLayout 2 (Decimal.padded 2 n).toList n := .padded (by decide) h
  have hne := padded_ne_nil 2 n
  rw [number, bind_of_some (spaces_eq (noSpace_digits hs.toDigitsLayout hne)),
    bind_of_some (digits_fixed hs hne), hs.value]
  rfl

/-! ## Dates -/

theorem year_digits {s : List Char} {n : Nat} (hs : FixedLayout 4 s n) :
    year (s ++ rest) = some ((n : Int), rest) := by
  have hne : s ≠ [] := by
    rintro rfl
    cases hs.length
  obtain ⟨x, hx, hd⟩ := (Option.any_eq_true _ _).1 (hs.head? hne)
  have hsign {c : Char} (hc : c.isDigit = false) : (s ++ rest).head? ≠ some c := by
    rw [List.head?_append, hx]
    rintro ⟨⟩
    exact Bool.false_ne_true (hc.symm.trans hd)
  rw [year, bind_of_some (spaces_eq (noSpace_digits hs.toDigitsLayout hne)),
    bind_of_some (eat_ne (hsign rfl)), if_neg Bool.false_ne_true,
    bind_of_some (eat_ne (hsign rfl)), if_neg Bool.false_ne_true,
    bind_of_some (digits_fixed hs hne), hs.value]
  rfl

/-- Behind a sign a year may have any number of digits. -/
theorem year_signed {s : List Char} {n : Nat} (negative : Bool) (hs : DigitsLayout s n)
    (hne : s ≠ []) (hend : NoDigit rest) :
    year ((if negative then '-' else '+') :: s ++ rest) =
      some (if negative then -(n : Int) else n, rest) := by
  have hrun := allDigits_append hs hne hend
  rw [List.cons_append]
  cases negative with
  | true =>
    have hspace : NoSpace ('-' :: (s ++ rest)) := by simp [NoSpace, isSpace]
    simp only [if_true]
    rw [year, bind_of_some (spaces_eq hspace), bind_of_some (eat_eq '-'), if_pos rfl,
      bind_of_some hrun, hs.value]
    rfl
  | false =>
    have hspace : NoSpace ('+' :: (s ++ rest)) := by simp [NoSpace, isSpace]
    have hminus : ('+' :: (s ++ rest)).head? ≠ some '-' := by simp
    simp only [Bool.false_eq_true, if_false]
    rw [year, bind_of_some (spaces_eq hspace), bind_of_some (eat_ne hminus),
      if_neg Bool.false_ne_true, bind_of_some (eat_eq '+'), if_pos rfl, bind_of_some hrun, hs.value]
    rfl

theorem year_text (y : Int) (hend : NoDigit rest) :
    year ((yearText y).toList ++ rest) = some (y, rest) := by
  unfold yearText
  split
  · next h =>
    have hs : FixedLayout 4 (Decimal.padded 4 y.natAbs).toList y.natAbs :=
      .padded (by decide) (by change _ < 10000; omega)
    rw [year_digits hs, Int.natAbs_of_nonneg h.1]
  · next h =>
    have hs (negative : Bool) :=
      year_signed negative (.padded 4 y.natAbs) (padded_ne_nil 4 _) hend
    rw [String.toList_append]
    by_cases hy : y < 0
    · have hneg := hs true
      rw [if_pos rfl, if_pos rfl, show -(y.natAbs : Int) = y by omega] at hneg
      rw [if_pos hy]
      exact hneg
    · have hpos := hs false
      rw [if_neg Bool.false_ne_true, if_neg Bool.false_ne_true,
        show (y.natAbs : Int) = y by omega] at hpos
      rw [if_neg hy]
      exact hpos

/-- A date is written without blanks, and blanks behind it belong to it. -/
theorem date_text (d : Date) (hend : NoSpace rest) :
    date (d.text.toList ++ rest) = some (d, rest) := by
  have ht : d.text.toList ++ rest = (yearText d.year).toList ++
      '-' :: ((Decimal.padded 2 d.month).toList ++
        '-' :: ((Decimal.padded 2 d.day).toList ++ rest)) := by
    simp [Date.text]
  have hyear : NoDigit ('-' :: ((Decimal.padded 2 d.month).toList ++
      '-' :: ((Decimal.padded 2 d.day).toList ++ rest))) := by
    simp [NoDigit]
  rw [ht, date, bind_of_some (year_text d.year hyear), bind_of_some (mark_eq rfl),
    bind_of_some (number_padded d.month_lt), bind_of_some (mark_eq rfl),
    bind_of_some (number_padded d.day_lt), bind_of_some (spaces_eq hend)]
  exact lift_of_some d.of?_parts

/-! ## Times of day -/

/-- A fraction of at most nine digits that ends the text. -/
theorem fraction_digits {s : List Char} {width n : Nat} (hs : FixedLayout width s n)
    (hlo : 1 ≤ width) (hhi : width ≤ 9) :
    fraction ('.' :: s) = some (n * Decimal.scale (9 - width), []) := by
  have hlen := hs.length
  have hne : s ≠ [] := by
    rintro rfl
    simp only [List.length_nil] at hlen
    omega
  have hrun : digits 9 (s ++ []) = some (s, []) :=
    digits_append hs.toDigitsLayout hne (by omega) (.inr (by simp [NoDigit]))
  rw [List.append_nil] at hrun
  rw [fraction, bind_of_some (eat_eq '.'), if_pos rfl, bind_of_some hrun, hs.value, hs.length]
  rfl

theorem fraction_text (t : TimeOfDay) :
    fraction t.fractionText.toList = some (t.nanos % 1000000000, []) := by
  unfold TimeOfDay.fractionText
  have hlt : t.nanos % 1000000000 < 1000000000 := Nat.mod_lt _ (by decide)
  generalize t.nanos % 1000000000 = nanos at hlt ⊢
  dsimp only
  have shown {width n : Nat} (hlo : 1 ≤ width) (hhi : width ≤ 9) (hn : n < Decimal.scale width)
      (he : n * Decimal.scale (9 - width) = nanos) :
      fraction ("." ++ Decimal.padded width n).toList = some (nanos, []) := by
    rw [String.toList_append, ← he]
    exact fraction_digits (.padded hlo hn) hlo hhi
  split
  · next h =>
    rw [h]
    rfl
  · split
    · next h3 =>
      refine shown (by decide) (by decide) (n := nanos / 1000000) ?_ ?_
      · change _ < 1000
        omega
      · change _ * 1000000 = _
        omega
    · split
      · next h6 =>
        refine shown (by decide) (by decide) (n := nanos / 1000) ?_ ?_
        · change _ < 1000000
          omega
        · change _ * 1000 = _
          omega
      · exact shown (by decide) (by decide) (n := nanos) hlt (Nat.mul_one _)

/-- A time of day ends the text. Second 60 is read as the leap second that it was written for. -/
theorem time_text (t : TimeOfDay) :
    time (t.text ++ t.fractionText).toList = some (t, []) := by
  obtain ⟨hh, hm, hs, hn⟩ := t.timeExists
  have ht : (t.text ++ t.fractionText).toList = (Decimal.padded 2 t.hour).toList ++
      ':' :: ((Decimal.padded 2 t.minute).toList ++
        ':' :: ((Decimal.padded 2 (t.second + t.nanos / 1000000000)).toList ++
          t.fractionText.toList)) := by
    simp [TimeOfDay.text]
  rw [ht, time, bind_of_some (number_padded (by omega)), bind_of_some (mark_eq rfl),
    bind_of_some (number_padded (by omega)), bind_of_some (mark_eq rfl),
    bind_of_some (number_padded (by omega)), bind_of_some (fraction_text t),
    bind_of_some (spaces_eq (by simp [NoSpace]))]
  have hparts := t.of?_parts
  split
  · next hsec =>
    apply lift_of_some
    rwa [show 59 = t.second by omega, show 1000000000 + t.nanos % 1000000000 = t.nanos by omega]
  · next hsec =>
    apply lift_of_some
    rwa [show t.second + t.nanos / 1000000000 = t.second by omega,
      show t.nanos % 1000000000 = t.nanos by omega]

end Iso

/-! ## Whole texts -/

theorem Date.read?_text (d : Date) : Date.read? d.text = some d := by
  have h : Iso.date (d.text.toList ++ []) = some (d, []) :=
    Iso.date_text d (by simp [Iso.NoSpace])
  rw [List.append_nil] at h
  rw [Date.read?, Iso.whole, h]

theorem DateTime.read?_text (m : DateTime) : DateTime.read? m.text = some m := by
  have ht : m.text.toList =
      m.date.text.toList ++ 'T' :: (m.time.text ++ m.time.fractionText).toList := by
    simp [DateTime.text]
  have hend : Iso.NoSpace ('T' :: (m.time.text ++ m.time.fractionText).toList) := by
    simp [Iso.NoSpace, Iso.isSpace]
  rw [DateTime.read?, Iso.whole, ht, Iso.bind_of_some (Iso.date_text m.date hend),
    Iso.bind_of_some (Iso.mark_eq rfl), Iso.bind_of_some (Iso.time_text m.time)]
  rfl

end FilterQuery.Calendar
