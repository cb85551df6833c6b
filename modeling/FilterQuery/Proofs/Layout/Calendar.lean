import FilterQuery.Calendar.Fixed
import FilterQuery.Proofs.Layout.Decimal

/-!
The fixed forms of dates and timestamps against their layouts, in both directions: the parts that
are read off a text are those that the layout gives it, and the canonical text of a date or a
timestamp is a layout of it as long as its year has four digits.
-/

namespace FilterQuery.Calendar

namespace Fixed

/-! ## Forms -/

theorem fits_append_iff {a b cs : List Char} :
    fits (a ++ b) cs = true ↔ ∃ s t, cs = s ++ t ∧ fits a s = true ∧ fits b t = true := by
  induction a generalizing cs with
  | nil =>
    constructor
    · exact fun h => ⟨[], cs, rfl, rfl, h⟩
    · rintro ⟨s, t, rfl, hs, ht⟩
      cases s with
      | nil => exact ht
      | cons x s => cases hs
  | cons e a ih =>
    constructor
    · intro h
      cases cs with
      | nil => cases h
      | cons x cs =>
        simp only [List.cons_append, fits, Bool.and_eq_true, ih] at h
        obtain ⟨hx, s, t, rfl, hs, ht⟩ := h
        exact ⟨x :: s, t, rfl, by simp [fits, hx, hs], ht⟩
    · rintro ⟨s, t, rfl, hs, ht⟩
      cases s with
      | nil => cases hs
      | cons x s =>
        simp only [fits, Bool.and_eq_true] at hs
        simp only [List.cons_append, fits, Bool.and_eq_true, ih]
        exact ⟨hs.1, s, t, rfl, hs.2, ht⟩

theorem fits_mark_iff {e : Char} {es cs : List Char} (he : e.isDigit = false) :
    fits (e :: es) cs = true ↔ ∃ t, cs = e :: t ∧ fits es t = true := by
  cases cs with
  | nil => simp [fits]
  | cons x cs => simp [fits, he, and_assoc]

theorem fits_zeros_iff {n : Nat} {cs : List Char} :
    fits (List.replicate n '0') cs = true ↔ FixedLayout n cs (Decimal.value cs) := by
  induction n generalizing cs with
  | zero =>
    cases cs with
    | nil => exact iff_of_true rfl ⟨⟨by simp, rfl⟩, rfl⟩
    | cons x cs => exact iff_of_false (by simp [fits]) fun h => by cases h.length
  | succ n ih =>
    cases cs with
    | nil => exact iff_of_false (by simp [fits, List.replicate_succ]) fun h => by cases h.length
    | cons x cs =>
      have hz : '0'.isDigit = true := rfl
      simp only [List.replicate_succ, fits, hz, if_true, Bool.and_eq_true, ih]
      constructor
      · rintro ⟨hx, h⟩
        exact ⟨⟨by simpa using ⟨hx, h.digits⟩, rfl⟩, by simp [h.length]⟩
      · intro h
        have hd := h.digits
        simp only [List.mem_cons, forall_eq_or_imp] at hd
        exact ⟨hd.1, ⟨hd.2, rfl⟩, by simpa using h.length⟩

theorem fits_date_iff {cs : List Char} :
    fits "0000-00-00".toList cs = true ↔
      ∃ y m n, cs = y ++ '-' :: m ++ '-' :: n ∧ FixedLayout 4 y (Decimal.value y) ∧
        FixedLayout 2 m (Decimal.value m) ∧ FixedLayout 2 n (Decimal.value n) := by
  -- A form is runs of zeros with marks between them.
  have form : "0000-00-00".toList = List.replicate 4 '0' ++ '-' :: (List.replicate 2 '0' ++
      '-' :: List.replicate 2 '0') := rfl
  simp only [form, fits_append_iff, fits_mark_iff (e := '-') rfl, fits_zeros_iff]
  constructor
  · rintro ⟨y, _, rfl, hy, _, rfl, m, _, rfl, hm, n, rfl, hn⟩
    exact ⟨y, m, n, by simp, hy, hm, hn⟩
  · rintro ⟨y, m, n, rfl, hy, hm, hn⟩
    exact ⟨y, _, by simp, hy, _, rfl, m, _, rfl, hm, n, rfl, hn⟩

theorem fits_clock_iff {cs : List Char} :
    fits "0000-00-00 00:00:00".toList cs = true ↔
      ∃ a h m s, cs = a ++ ' ' :: h ++ ':' :: m ++ ':' :: s ∧ fits "0000-00-00".toList a = true ∧
        FixedLayout 2 h (Decimal.value h) ∧ FixedLayout 2 m (Decimal.value m) ∧
        FixedLayout 2 s (Decimal.value s) := by
  have form : "0000-00-00 00:00:00".toList = "0000-00-00".toList ++ ' ' :: (List.replicate 2 '0' ++
      ':' :: (List.replicate 2 '0' ++ ':' :: List.replicate 2 '0')) := rfl
  rw [form, fits_append_iff]
  simp only [fits_append_iff, fits_mark_iff (e := ' ') rfl, fits_mark_iff (e := ':') rfl,
    fits_zeros_iff]
  constructor
  · rintro ⟨a, _, rfl, ha, _, rfl, h, _, rfl, hh, _, rfl, m, _, rfl, hm, s, rfl, hs⟩
    exact ⟨a, h, m, s, by simp, ha, hh, hm, hs⟩
  · rintro ⟨a, h, m, s, rfl, ha, hh, hm, hs⟩
    exact ⟨a, _, by simp, ha, _, rfl, h, _, rfl, hh, _, rfl, m, _, rfl, hm, s, rfl, hs⟩

/-! ## Parts -/

theorem numberAt_eq {a s b : List Char} {start width : Nat} (ha : a.length = start)
    (hs : s.length = width) : numberAt (a ++ s ++ b) start width = Decimal.value s := by
  rw [numberAt, List.append_assoc, ← ha, List.drop_left, ← hs, List.take_left]

theorem numberAt_append_left {a b : List Char} {start width : Nat}
    (h : start + width ≤ a.length) : numberAt (a ++ b) start width = numberAt a start width := by
  rw [numberAt, numberAt, List.drop_append_of_le_length (by omega),
    List.take_append_of_le_length (by rw [List.length_drop]; omega)]

theorem dateParts?_eq_some_iff {cs : List Char} {p : DateParts} :
    dateParts? cs = some p ↔
      ∃ y m n, cs = y ++ '-' :: m ++ '-' :: n ∧ FixedLayout 4 y p.year ∧ FixedLayout 2 m p.month ∧
        FixedLayout 2 n p.day := by
  have parts {y m n : List Char} (hy : y.length = 4) (hm : m.length = 2) (hn : n.length = 2) :
      numberAt (y ++ '-' :: m ++ '-' :: n) 0 4 = Decimal.value y ∧
      numberAt (y ++ '-' :: m ++ '-' :: n) 5 2 = Decimal.value m ∧
      numberAt (y ++ '-' :: m ++ '-' :: n) 8 2 = Decimal.value n := by
    refine ⟨?_, ?_, ?_⟩
    · simpa using numberAt_eq (a := []) (b := '-' :: m ++ '-' :: n) rfl hy
    · simpa using numberAt_eq (a := y ++ ['-']) (b := '-' :: n) (by simp [hy]) hm
    · simpa using numberAt_eq (a := y ++ '-' :: m ++ ['-']) (b := []) (by simp [hy, hm]) hn
  unfold dateParts?
  constructor
  · intro h
    split at h
    · next hf =>
      obtain ⟨y, m, n, rfl, hy, hm, hn⟩ := fits_date_iff.1 hf
      obtain ⟨py, pm, pn⟩ := parts hy.length hm.length hn.length
      cases h
      exact ⟨y, m, n, rfl, by rwa [py], by rwa [pm], by rwa [pn]⟩
    · cases h
  · rintro ⟨y, m, n, rfl, hy, hm, hn⟩
    obtain ⟨py, pm, pn⟩ := parts hy.length hm.length hn.length
    have hf := fits_date_iff.2 ⟨y, m, n, rfl, hy.self, hm.self, hn.self⟩
    rw [if_pos hf, py, pm, pn, hy.value, hm.value, hn.value]

theorem dateParts?_length {cs : List Char} {p : DateParts} (h : dateParts? cs = some p) :
    cs.length = 10 := by
  obtain ⟨y, m, n, rfl, hy, hm, hn⟩ := dateParts?_eq_some_iff.1 h
  simp [hy.length, hm.length, hn.length]

theorem scale_micros {n p : Nat} (hp : p ≤ 6) :
    1000 * (n * Decimal.scale (6 - p)) = n * Decimal.scale (9 - p) := by
  have h : Decimal.scale (9 - p) = 1000 * Decimal.scale (6 - p) := by
    rw [show 9 - p = 3 + (6 - p) by omega, Decimal.scale_add]
    rfl
  rw [h, Nat.mul_left_comm]

/-- The fraction in nanoseconds is a thousand times what is read as microseconds. -/
theorem fraction?_eq_some_iff {f : List Char} {micros precision : Nat} :
    fraction? f = some (micros, precision) ↔ FractionLayout f (1000 * micros) precision := by
  constructor
  · intro h
    cases f with
    | nil =>
      cases h
      exact .none
    | cons x run =>
      rw [fraction?] at h
      split at h
      · next hx =>
        obtain ⟨rfl, hlo, hhi, hd⟩ := hx
        cases h
        rw [scale_micros hhi]
        exact .digits ⟨⟨by simpa using hd, rfl⟩, rfl⟩ hlo hhi
      · cases h
  · intro h
    generalize hn : 1000 * micros = nanos at h
    cases h with
    | none =>
      obtain rfl : micros = 0 := by omega
      rfl
    | @digits s n _ hs hlo hhi =>
      have hlen := hs.length
      subst hlen
      rw [← scale_micros hhi] at hn
      have hm := Nat.eq_of_mul_eq_mul_left (by decide) hn
      rw [fraction?, if_pos ⟨rfl, hlo, hhi, by simpa using hs.digits⟩, hs.value, hm]

theorem fraction?_fits {f : List Char} {micros precision : Nat}
    (h : fraction? f = some (micros, precision)) :
    precision ≤ maxPrecision ∧ micros % Decimal.scale (maxPrecision - precision) = 0 ∧
      micros < 1000000 := by
  cases f with
  | nil =>
    cases h
    exact ⟨by decide, rfl, by decide⟩
  | cons x run =>
    rw [fraction?] at h
    split at h
    · next hx =>
      obtain ⟨-, -, hhi, hd⟩ := hx
      cases h
      refine ⟨hhi, Nat.mul_mod_left _ _, ?_⟩
      have hv := Decimal.value_lt_scale (s := run) (by simpa using hd)
      calc Decimal.value run * Decimal.scale (6 - run.length)
          < Decimal.scale run.length * Decimal.scale (6 - run.length) :=
            Nat.mul_lt_mul_of_pos_right hv (Decimal.scale_pos _)
        _ = Decimal.scale 6 := by rw [← Decimal.scale_add, Nat.add_sub_cancel' hhi]
        _ = 1000000 := rfl
    · cases h

/-- The numbers of a date and of a clock time behind it. -/
theorem numberAt_clock {a h m s : List Char} (ha : a.length = 10) (hh : h.length = 2)
    (hm : m.length = 2) (hs : s.length = 2) {front : List Char}
    (hf : front = a ++ ' ' :: h ++ ':' :: m ++ ':' :: s) :
    (numberAt front 0 4 = numberAt a 0 4 ∧ numberAt front 5 2 = numberAt a 5 2 ∧
      numberAt front 8 2 = numberAt a 8 2) ∧
    numberAt front 11 2 = Decimal.value h ∧ numberAt front 14 2 = Decimal.value m ∧
      numberAt front 17 2 = Decimal.value s := by
  have date {start width : Nat} (hw : start + width ≤ 10) :
      numberAt front start width = numberAt a start width := by
    rw [hf, List.append_assoc, List.append_assoc]
    exact numberAt_append_left (by omega)
  refine ⟨⟨date (by decide), date (by decide), date (by decide)⟩, ?_, ?_, ?_⟩
  · simpa [hf] using numberAt_eq (a := a ++ [' ']) (b := ':' :: m ++ ':' :: s) (by simp [ha]) hh
  · simpa [hf] using
      numberAt_eq (a := a ++ ' ' :: h ++ [':']) (b := ':' :: s) (by simp [ha, hh]) hm
  · simpa [hf] using numberAt_eq (a := a ++ ' ' :: h ++ ':' :: m ++ [':']) (b := [])
      (by simp [ha, hh, hm]) hs

theorem timestampParts?_eq_some_iff {cs : List Char} {p : TimestampParts} :
    timestampParts? cs = some p ↔
      ∃ a h m s f, cs = a ++ ' ' :: h ++ ':' :: m ++ ':' :: s ++ f ∧
        dateParts? a = some p.toDateParts ∧ FixedLayout 2 h p.hour ∧ FixedLayout 2 m p.minute ∧
        FixedLayout 2 s p.second ∧ fraction? f = some (p.micros, p.precision) := by
  simp only [timestampParts?]
  constructor
  · intro k
    split at k
    · next hf =>
      obtain ⟨a, h, m, s, hfront, ha, hh, hm, hs⟩ := fits_clock_iff.1 hf
      obtain ⟨⟨micros, precision⟩, hfr, rfl⟩ := Option.map_eq_some_iff.1 k
      have hda : dateParts? a = some ⟨numberAt a 0 4, numberAt a 5 2, numberAt a 8 2⟩ := if_pos ha
      obtain ⟨⟨dy, dm, dn⟩, ph, pm, ps⟩ :=
        numberAt_clock (dateParts?_length hda) hh.length hm.length hs.length hfront
      rw [dy, dm, dn, ph, pm, ps]
      refine ⟨a, h, m, s, cs.drop 19, ?_, hda, hh, hm, hs, hfr⟩
      rw [← hfront, List.take_append_drop]
    · cases k
  · rintro ⟨a, h, m, s, f, rfl, ha, hh, hm, hs, hf⟩
    have hlen := dateParts?_length ha
    have hfits : fits "0000-00-00".toList a = true := by
      rw [dateParts?] at ha
      split at ha
      · assumption
      · cases ha
    have hda : dateParts? a = some ⟨numberAt a 0 4, numberAt a 5 2, numberAt a 8 2⟩ := if_pos hfits
    obtain ⟨⟨dy, dm, dn⟩, ph, pm, ps⟩ := numberAt_clock hlen hh.length hm.length hs.length rfl
    have hfront : (a ++ ' ' :: h ++ ':' :: m ++ ':' :: s).length = 19 := by
      simp [hlen, hh.length, hm.length, hs.length]
    have hclock := fits_clock_iff.2 ⟨a, h, m, s, rfl, hfits, hh.self, hm.self, hs.self⟩
    rw [← hfront, List.take_left, List.drop_left, if_pos hclock, hf, dy, dm, dn, ph, pm, ps]
    obtain ⟨⟨_, _, _⟩, _, _, _, _, _⟩ := p
    cases ha.symm.trans hda
    simp [hh.value, hm.value, hs.value]

end Fixed

/-! ## Values -/

/-- The texts of a date are those whose parts make it up. -/
theorem dateLayout_iff {cs : List Char} {d : Date} :
    DateLayout cs d ↔
      ∃ p, Fixed.dateParts? cs = some p ∧ Date.of? p.year p.month p.day = some d := by
  simp only [Fixed.dateParts?_eq_some_iff, Date.of?_eq_some_iff]
  constructor
  · rintro ⟨hy, he, hm, hn⟩
    exact ⟨⟨_, _, _⟩, ⟨_, _, _, rfl, hy, hm, hn⟩, he, rfl, rfl⟩
  · rintro ⟨⟨_, _, _⟩, ⟨y, m, n, rfl, hy, hm, hn⟩, he, rfl, rfl⟩
    exact .mk hy he hm hn

theorem DateTime.of?_eq_some_iff {year : Int} {month day hour minute second nanos : Nat}
    {m : DateTime} :
    DateTime.of? year month day hour minute second nanos = some m ↔
      Date.of? year month day = some m.date ∧
        TimeOfDay.of? hour minute second nanos = some m.time := by
  obtain ⟨date, time⟩ := m
  rw [DateTime.of?]
  cases Date.of? year month day <;> cases TimeOfDay.of? hour minute second nanos <;> simp

end FilterQuery.Calendar

namespace FilterQuery

open Calendar

theorem Timestamp.ofParts?_eq_some_iff {year : Int}
    {month day hour minute second micros precision : Nat} {t : Timestamp} :
    Timestamp.ofParts? year month day hour minute second micros precision = some t ↔
      (precision ≤ maxPrecision ∧ micros % Decimal.scale (maxPrecision - precision) = 0 ∧
        micros < 1000000) ∧
      DateTime.of? year month day hour minute second (1000 * micros) = some t.moment ∧
        t.precision = precision := by
  obtain ⟨moment, shown⟩ := t
  rw [ofParts?]
  split
  · next h =>
    simp only [h, true_and, Option.map_eq_some_iff, mk.injEq]
    constructor
    · rintro ⟨_, hm, rfl, hp⟩
      exact ⟨hm, hp.symm⟩
    · rintro ⟨hm, rfl⟩
      exact ⟨_, hm, rfl, rfl⟩
  · next h => simp [h]

theorem FractionLayout.exists_micros {f : List Char} {nanos precision : Nat}
    (h : FractionLayout f nanos precision) : ∃ micros, nanos = 1000 * micros := by
  cases h with
  | none => exact ⟨0, rfl⟩
  | digits _ _ hhi => exact ⟨_, (Fixed.scale_micros hhi).symm⟩

/-- The texts of a timestamp are those whose parts make it up. -/
theorem timestampLayout_iff {cs : List Char} {t : Timestamp} :
    TimestampLayout cs t ↔
      ∃ p, Fixed.timestampParts? cs = some p ∧
        Timestamp.ofParts? p.year p.month p.day p.hour p.minute p.second p.micros p.precision =
          some t := by
  simp only [Fixed.timestampParts?_eq_some_iff, Timestamp.ofParts?_eq_some_iff,
    DateTime.of?_eq_some_iff, TimeOfDay.of?_eq_some_iff]
  constructor
  · rintro ⟨ha, hh, hm, hs, hf⟩
    obtain ⟨p, hp, hd⟩ := dateLayout_iff.1 ha
    obtain ⟨micros, hn⟩ := hf.exists_micros
    have hfr := Fixed.fraction?_eq_some_iff.2 (hn ▸ hf)
    exact ⟨⟨p, _, _, _, micros, _⟩, ⟨_, _, _, _, _, rfl, hp, hh, hm, hs, hfr⟩,
      Fixed.fraction?_fits hfr, ⟨hd, rfl, rfl, rfl, hn⟩, rfl⟩
  · rintro ⟨p, ⟨a, h, m, s, f, rfl, ha, hh, hm, hs, hf⟩, -, ⟨hd, rh, rm, rs, rn⟩, hpr⟩
    rw [← rh] at hh
    rw [← rm] at hm
    rw [← rs] at hs
    have hfr := Fixed.fraction?_eq_some_iff.1 hf
    rw [← rn, ← hpr] at hfr
    exact .mk (dateLayout_iff.2 ⟨_, ha, hd⟩) hh hm hs hfr

/-! ## Characters of layouts -/

theorem DigitsLayout.notMem {s : List Char} {n : Nat} {x : Char} (h : DigitsLayout s n)
    (hx : x.isDigit = false) : x ∉ s := by
  intro hm
  rw [h.digits x hm] at hx
  cases hx

theorem DateLayout.notMem {cs : List Char} {d : Date} {x : Char} (h : DateLayout cs d)
    (hx : x.isDigit = false) (hmark : x ≠ '-') : x ∉ cs := by
  cases h with
  | mk hy _ hm hn => simp [hy.notMem hx, hm.notMem hx, hn.notMem hx, hmark]

theorem DateLayout.quote_notMem {cs : List Char} {d : Date} (h : DateLayout cs d) : '\'' ∉ cs :=
  h.notMem rfl (by decide)

theorem TimestampLayout.notMem {cs : List Char} {t : Timestamp} {x : Char}
    (h : TimestampLayout cs t) (hx : x.isDigit = false) (hmark : x ∉ ['-', ' ', ':', '.']) :
    x ∉ cs := by
  simp only [List.mem_cons, List.not_mem_nil, or_false, not_or] at hmark
  obtain ⟨hdash, hblank, hcolon, hdot⟩ := hmark
  have fraction {f : List Char} {n p : Nat} (h : FractionLayout f n p) : x ∉ f := by
    cases h with
    | none => simp
    | digits hs _ _ => simp [hs.notMem hx, hdot]
  cases h with
  | mk ha hh hm hs hf =>
    simp [ha.notMem hx hdash, hh.notMem hx, hm.notMem hx, hs.notMem hx, fraction hf, hblank, hcolon]

theorem TimestampLayout.quote_notMem {cs : List Char} {t : Timestamp} (h : TimestampLayout cs t) :
    '\'' ∉ cs :=
  h.notMem rfl (by decide)

/-- The precision of a timestamp is the number of digits that stand behind a dot. -/
theorem TimestampLayout.precision_eq {cs : List Char} {t : Timestamp} (h : TimestampLayout cs t) :
    t.precision = ((cs.dropWhile (· != '.')).tail).length := by
  have fraction {f : List Char} {n p : Nat} (h : FractionLayout f n p) :
      p = ((f.dropWhile (· != '.')).tail).length := by
    cases h with
    | none => rfl
    | digits hs _ _ => exact hs.length.symm
  cases h with
  | @mk a h m s f _ ha hh hm hs hf =>
    have front : '.' ∉ a ++ ' ' :: h ++ ':' :: m ++ ':' :: s := by
      simp [ha.notMem (x := '.') rfl (by decide), hh.notMem (x := '.') rfl,
        hm.notMem (x := '.') rfl, hs.notMem (x := '.') rfl]
    have skipped : ∀ x ∈ a ++ ' ' :: h ++ ':' :: m ++ ':' :: s, (x != '.') = true := by
      rintro x hx
      exact bne_iff_ne.2 (ne_of_mem_of_not_mem hx front)
    rw [List.dropWhile_append_of_pos skipped]
    exact fraction hf

/-! ## One text for each value -/

theorem DateLayout.unique {s t : List Char} {d : Date} (h : DateLayout s d) (k : DateLayout t d) :
    s = t := by
  cases h with
  | mk hy he hm hn =>
    cases k with
    | mk ky ke km kn =>
      obtain rfl := Int.ofNat_inj.1 (he.symm.trans ke)
      rw [hy.unique ky, hm.unique km, hn.unique kn]

theorem FractionLayout.unique {f g : List Char} {nanos precision : Nat}
    (h : FractionLayout f nanos precision) (k : FractionLayout g nanos precision) : f = g := by
  have hidden {g : List Char} {nanos p : Nat} (k : FractionLayout g nanos p) (hp : p = 0) :
      g = [] := by
    cases k with
    | none => rfl
    | digits _ hlo _ => omega
  cases h with
  | none => exact (hidden k rfl).symm
  | @digits s n _ hs hlo _ =>
    generalize hn : n * Decimal.scale (9 - precision) = nanos at k
    cases k with
    | none => cases hlo
    | digits ht _ _ =>
      obtain rfl := Nat.eq_of_mul_eq_mul_right (Decimal.scale_pos _) hn
      rw [hs.unique ht]

theorem TimestampLayout.unique {s u : List Char} {t : Timestamp} (h : TimestampLayout s t)
    (k : TimestampLayout u t) : s = u := by
  cases h with
  | mk ha hh hm hs hf =>
    cases k with
    | mk ka kh km ks kf =>
      rw [ha.unique ka, hh.unique kh, hm.unique km, hs.unique ks, hf.unique kf]

/-! ## Canonical texts -/

theorem Calendar.Date.month_lt (d : Date) : d.month < 100 := by
  obtain ⟨-, ⟨-, hm⟩, -⟩ := d.dayExists
  omega

theorem Calendar.Date.day_lt (d : Date) : d.day < 100 := by
  obtain ⟨-, -, -, hd⟩ := d.dayExists
  -- No month is longer than two digits can say.
  have h31 : daysInMonth d.year d.month ≤ 31 := by
    unfold daysInMonth
    repeat' split
    all_goals omega
  omega

theorem DateLayout.text {d : Date} (hlo : 0 ≤ d.year) (hhi : d.year ≤ 9999) :
    DateLayout d.text.toList d := by
  have hy : FixedLayout 4 (Decimal.padded 4 d.year.natAbs).toList d.year.natAbs :=
    .padded (by decide) (by change _ < 10000; omega)
  have hm : FixedLayout 2 (Decimal.padded 2 d.month).toList d.month :=
    .padded (by decide) d.month_lt
  have hd : FixedLayout 2 (Decimal.padded 2 d.day).toList d.day := .padded (by decide) d.day_lt
  have h := DateLayout.mk hy (d := d) (by omega) hm hd
  simpa [Date.text, yearText, hlo, hhi] using h

/-- The fraction of a timestamp that fits its precision is all that its text shows. -/
theorem FractionLayout.text {t : Timestamp} (h : t.Fits) :
    FractionLayout
      (if t.precision = 0 then ""
        else "." ++ Decimal.padded t.precision
          (t.micros / Decimal.scale (maxPrecision - t.precision))).toList
      t.moment.time.nanos t.precision := by
  obtain ⟨moment, precision⟩ := t
  obtain ⟨hp, hlt, hmod⟩ := h
  simp only [Timestamp.micros, maxPrecision] at hp hlt hmod ⊢
  generalize moment.time.nanos = nanos at hlt hmod ⊢
  split
  · next h0 =>
    subst h0
    -- A timestamp that shows no fraction has none.
    have hz : nanos = 0 := by
      change nanos % 1000000000 = 0 at hmod
      omega
    rw [hz]
    exact .none
  · next h0 =>
    have hscale : 1000 * Decimal.scale (6 - precision) = Decimal.scale (9 - precision) := by
      simpa using Fixed.scale_micros (n := 1) hp
    have hn :
        nanos / 1000 / Decimal.scale (6 - precision) * Decimal.scale (9 - precision) = nanos := by
      rw [Nat.div_div_eq_div_mul, hscale]
      exact Nat.div_mul_cancel (Nat.dvd_of_mod_eq_zero hmod)
    have hb : nanos / 1000 / Decimal.scale (6 - precision) < Decimal.scale precision := by
      rw [Nat.div_div_eq_div_mul, hscale, Nat.div_lt_iff_lt_mul (Decimal.scale_pos _),
        ← Decimal.scale_add, show precision + (9 - precision) = 9 by omega]
      exact hlt
    have h := FractionLayout.digits (.padded (by omega) hb) (by omega) hp
    rw [hn] at h
    simpa using h

theorem TimestampLayout.text {t : Timestamp} (hlo : 0 ≤ t.moment.date.year)
    (hhi : t.moment.date.year ≤ 9999) (h : t.Fits) : TimestampLayout t.text.toList t := by
  have hf := FractionLayout.text h
  obtain ⟨hh, hm, hs, -⟩ := t.moment.time.timeExists
  have two {n : Nat} (hn : n < 60) : FixedLayout 2 (Decimal.padded 2 n).toList n :=
    .padded (by decide) (by change _ < 100; omega)
  -- Nanoseconds that fit hold no leap second.
  have hsec : t.moment.time.second + t.moment.time.nanos / 1000000000 = t.moment.time.second := by
    have := h.2.1
    omega
  have hl := TimestampLayout.mk (.text hlo hhi) (two (by omega)) (two hm) (two hs) hf
  simpa [Timestamp.text, TimeOfDay.text, hsec] using hl

end FilterQuery
