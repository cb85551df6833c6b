import FilterQuery.Proofs.Layout.Literal
import FilterQuery.Proofs.Reading.Answers
import FilterQuery.Reading.Token

/-!
Tokens are read exactly where one of their layouts stands and nothing runs together with its end.
-/

namespace FilterQuery.Rule

variable {c d e : Cursor}

/-! ## Identifiers and quoted texts -/

theorem identifier_eq_ok_iff {name : String} :
    identifier c = .ok (name, d) ↔
      IsIdentifier c.dotted name ∧ c.Passes name.toList d ∧ d.AtWordEnd := by
  rw [identifier]
  constructor
  · intro h
    split at h
    · exact absurd h unexpected_ne_ok
    · next x hx =>
      split at h
      · next hw =>
        cases h
        obtain ⟨s, hs, hp, hd⟩ := Cursor.skipWhile_eq_iff.1 (Eq.refl (c.skipWhile c.continuesWord))
        rw [hp.takeWhile hs hd]
        have hn : s ≠ [] := by
          rintro rfl
          rw [hp.eq_of_nil, hx] at hd
          have : c.continuesWord x = true :=
            continuesName_of_isWordChar (isWordChar_of_isWordStart hw)
          simp [this] at hd
        refine ⟨⟨?_, ?_⟩, ?_, ?_⟩
        · rw [String.toList_ofList, ← hp.peek? hn, hx]
          exact hw
        · rw [String.toList_ofList]
          exact hs
        · rwa [String.toList_ofList]
        · exact hd
      · exact absurd h failSince_ne_ok
  · rintro ⟨hi, hp, hd⟩
    obtain ⟨x, hx, hw⟩ := (Option.any_eq_true _ _).1 hi.head?_any
    have hc : c.peek? = some x := by rw [hp.peek? hi.ne_nil, hx]
    rw [Cursor.AtWordEnd, hp.dotted] at hd
    have hs : c.skipWhile c.continuesWord = d := Cursor.skipWhile_eq_iff.2 ⟨_, hi.2, hp, hd⟩
    have ht : c.rest.takeWhile c.continuesWord = name.toList := hp.takeWhile hi.2 hd
    simp only [hc, hw, if_true, ht, hs, String.ofList_toList]

theorem quotedString_eq_ok_iff {t : String} :
    quotedString c = .ok (t, e) ↔ '\'' ∉ t.toList ∧ c.Passes (quoted t.toList) e := by
  have notQuote {s : List Char} : (∀ x ∈ s, (x != '\'') = true) ↔ '\'' ∉ s := by
    simp only [bne_iff_ne]
    exact ⟨fun h hm => h _ hm rfl, fun h x hx hxq => h (hxq ▸ hx)⟩
  rw [quotedString]
  constructor
  · intro h
    split at h
    · exact absurd h unexpected_ne_ok
    · next d hd =>
      obtain ⟨s, hs, hp, hn⟩ := Cursor.skipWhile_eq_iff.1 (Eq.refl (d.skipWhile (· != '\'')))
      simp only at h
      split at h
      · next e' he =>
        rw [hp.takeWhile hs hn] at h
        cases h
        rw [String.toList_ofList, ← notQuote]
        have hopen := Cursor.eat?_eq_some_iff.1 hd
        have hclose := Cursor.eat?_eq_some_iff.1 he
        exact ⟨hs, (hopen.trans hp).trans hclose⟩
      · exact absurd h failSince_ne_ok
  · rintro ⟨ht, h⟩
    rw [← notQuote] at ht
    obtain ⟨f, hf, hfe⟩ := Cursor.Passes.append_iff.1 h
    obtain ⟨d, hd, hdf⟩ := Cursor.Passes.cons_iff.1 hf
    have hopen : c.eat? "'" = some d := Cursor.eat?_eq_some_iff.2 hd
    have hclose : f.eat? "'" = some e := Cursor.eat?_eq_some_iff.2 hfe
    have hn : f.peek?.any (· != '\'') = false := by
      rw [hfe.peek? (by simp)]
      simp
    have hs : d.skipWhile (· != '\'') = f := Cursor.skipWhile_eq_iff.2 ⟨_, ht, hdf, hn⟩
    simp only [hopen, hs, hclose, hdf.takeWhile ht hn, String.ofList_toList]

/-! ## Numbers -/

/-- The longest run of digits is read, unless a word runs together with it. -/
theorem digits_of_passes (start : Cursor) {run : List Char} (hp : c.Passes run d) (hne : run ≠ [])
    (hrun : ∀ x ∈ run, x.isDigit = true) (hd : d.peek?.any Char.isDigit = false) :
    digits start c =
      if d.peek?.any isWordStart then
        .error { error := d.errorSince start .digitSequence, stop := start }
      else .ok (run, d) := by
  have hskip : c.skipWhile Char.isDigit = d := Cursor.skipWhile_eq_iff.2 ⟨run, hrun, hp, hd⟩
  have hempty : run.isEmpty = false := by simpa using hne
  rw [digits, hp.takeWhile hrun hd, hskip]
  simp [hempty]

theorem digits_eq_ok_iff {start : Cursor} {run : List Char} :
    digits start c = .ok (run, d) ↔
      run ≠ [] ∧ (∀ x ∈ run, x.isDigit = true) ∧ c.Passes run d ∧
        d.peek?.any isWordChar = false := by
  have wordEnd {d : Cursor} : d.peek?.any isWordChar = false ↔
      d.peek?.any Char.isDigit = false ∧ d.peek?.any isWordStart = false := by
    cases d.peek? with
    | none => simp
    | some x => simp [isWordChar_eq_false_iff, and_comm]
  constructor
  · intro h
    obtain ⟨s, hs, hp, hn⟩ := Cursor.skipWhile_eq_iff.1 (Eq.refl (c.skipWhile Char.isDigit))
    simp only [digits, hp.takeWhile hs hn] at h
    split at h
    · exact absurd h unexpected_ne_ok
    · next hne =>
      split at h
      · cases h
      · next hw =>
        cases h
        exact ⟨by simpa using hne, hs, hp, wordEnd.2 ⟨hn, by simpa using hw⟩⟩
  · rintro ⟨hne, hs, hp, hd⟩
    obtain ⟨hn, hw⟩ := wordEnd.1 hd
    rw [digits_of_passes start hp hne hs hn, if_neg (by simp [hw])]

/-- The range check lets exactly the numbers of 64 bits pass, and keeps their value. -/
theorem integer_eq_ok_iff_digits {i : Int64} :
    integer c = .ok (i, d) ↔
      ∃ run, digits c (if c.atSign then c.move 1 else c) = .ok (run, d) ∧
        i.toInt = if c.atSign then -(Decimal.value run : Int) else Decimal.value run := by
  have range {n : Int} {run : List Char} {e : Cursor} :
      (if n < Int64.minValue.toInt then
          failSince c (.integerTooSmall (String.ofList ('-' :: run))) e
        else if Int64.maxValue.toInt < n then failSince c (.integerTooLarge (String.ofList run)) e
        else .ok (Int64.ofInt n, e)) = .ok (i, d) ↔ e = d ∧ i.toInt = n := by
    have hmin := i.minValue_le_toInt
    have hmax := i.toInt_le
    split
    · simp only [failSince_ne_ok, false_iff]
      omega
    · split
      · simp only [failSince_ne_ok, false_iff]
        omega
      · next h₁ h₂ =>
        rw [Int64.toInt_minValue] at h₁
        rw [Int64.toInt_maxValue] at h₂
        have hn : (Int64.ofInt n).toInt = n := Int64.toInt_ofInt_of_le (by omega) (by omega)
        simp only [Except.ok.injEq, Prod.mk.injEq, ← Int64.toInt_inj, hn]
        exact ⟨fun ⟨h, k⟩ => ⟨k, h.symm⟩, fun ⟨h, k⟩ => ⟨k.symm, h⟩⟩
  rw [integer]
  cases digits c (if c.atSign then c.move 1 else c) with
  | error r => simp
  | ok p =>
    obtain ⟨run, e⟩ := p
    simp only [range, Except.ok.injEq, Prod.mk.injEq]
    constructor
    · exact fun ⟨he, hi⟩ => ⟨run, ⟨rfl, he⟩, hi⟩
    · rintro ⟨_, ⟨rfl, he⟩, hi⟩
      exact ⟨he, hi⟩

theorem atSign_eq_true_iff : c.atSign = true ↔
    c.peek? = some '-' ∧ c.peekNext?.any Char.isDigit = true := by
  simp [Cursor.atSign]

/-- Before digits, a minus sign is found exactly if it stands there. -/
theorem sign_of_passes (minus : Bool) {run : List Char}
    (hsign : c.Passes (if minus then ['-'] else []) d) (hp : d.Passes run e) (hne : run ≠ [])
    (hrun : ∀ x ∈ run, x.isDigit = true) :
    c.atSign = minus ∧ (if minus then c.move 1 else c) = d := by
  have hfirst : d.peek?.any Char.isDigit = true := by
    rw [hp.peek? hne]
    exact DigitsLayout.head? ⟨hrun, rfl⟩ hne
  cases minus with
  | false =>
    obtain rfl := Cursor.Passes.eq_of_nil hsign
    refine ⟨?_, rfl⟩
    rw [Bool.eq_false_iff]
    intro ha
    rw [(atSign_eq_true_iff.1 ha).1] at hfirst
    cases hfirst
  | true =>
    have htail : c.rest.tail = d.rest := by
      rw [hsign.rest]
      rfl
    refine ⟨atSign_eq_true_iff.2 ⟨hsign.peek? (by simp), ?_⟩, hsign.eq_move.symm⟩
    rw [Cursor.peekNext?, htail]
    exact hfirst

theorem integer_eq_ok_iff {i : Int64} :
    integer c = .ok (i, d) ↔
      ∃ s, IntegerLayout s i ∧ c.Passes s d ∧ d.peek?.any isWordChar = false := by
  rw [integer_eq_ok_iff_digits]
  constructor
  · rintro ⟨run, h, hi⟩
    obtain ⟨hne, hs, hp, hd⟩ := digits_eq_ok_iff.1 h
    cases ha : c.atSign with
    | false =>
      simp only [ha, Bool.false_eq_true, if_false] at hp hi
      exact ⟨run, .bare hne ⟨hs, rfl⟩ hi, hp, hd⟩
    | true =>
      simp only [ha, if_true] at hp hi
      obtain ⟨hc, -⟩ := atSign_eq_true_iff.1 ha
      obtain ⟨r, hr⟩ := List.head?_eq_some_iff.1 hc
      have hm : c.Passes ['-'] (c.move 1) := .move hr
      exact ⟨'-' :: run, .minus hne ⟨hs, rfl⟩ hi, hm.trans hp, hd⟩
  · rintro ⟨s, hs, hp, hd⟩
    cases hs with
    | @bare _ n _ hne hn hi =>
      obtain ⟨ha, -⟩ := sign_of_passes false (.refl c) hp hne hn.digits
      refine ⟨s, ?_, ?_⟩
      · rw [ha]
        exact digits_eq_ok_iff.2 ⟨hne, hn.digits, hp, hd⟩
      · simpa [ha, hn.value] using hi
    | @minus s n _ hne hn hi =>
      obtain ⟨b, hb, hbd⟩ := Cursor.Passes.cons_iff.1 hp
      obtain ⟨ha, hm⟩ := sign_of_passes true hb hbd hne hn.digits
      refine ⟨s, ?_, ?_⟩
      · rw [ha, hm]
        exact digits_eq_ok_iff.2 ⟨hne, hn.digits, hbd, hd⟩
      · simpa [ha, hn.value] using hi

theorem count_eq_ok_iff {n : UInt64} :
    count c = .ok (n, d) ↔
      ∃ s, CountLayout s n ∧ c.Passes s d ∧ d.peek?.any isWordChar = false := by
  rw [count]
  constructor
  · intro h
    split at h
    · cases h
    · next run e hr =>
      obtain ⟨hne, hs, hp, hd⟩ := digits_eq_ok_iff.1 hr
      split at h
      · next hlt =>
        cases h
        exact ⟨run, ⟨⟨hs, (UInt64.toNat_ofNat_of_lt' hlt).symm⟩, hne⟩, hp, hd⟩
      · exact absurd h failSince_ne_ok
  · rintro ⟨s, hs, hp, hd⟩
    have hr : digits c c = .ok (s, d) := digits_eq_ok_iff.2 ⟨hs.ne_nil, hs.digits, hp, hd⟩
    simp only [hr, hs.value, UInt64.toNat_lt_size, if_true, UInt64.ofNat_toNat]

/-! ## Truth values -/

theorem boolean?_eq_ok_some_iff {b : Bool} :
    boolean? c = .ok (some b, d) ↔ c.eatKeyword? (if b then .true else .false) = some d := by
  simp only [boolean?, ite_eatKeyword_eq_ok_iff, pure_eq_ok_iff]
  constructor
  · rintro (⟨a, ha, ⟨⟩, rfl⟩ | ⟨-, ⟨a, ha, ⟨⟩, rfl⟩ | ⟨-, ⟨⟩, -⟩⟩)
    · exact ha
    · exact ha
  · intro h
    cases b with
    | true => exact .inl ⟨d, h, rfl, rfl⟩
    | false => exact .inr ⟨Cursor.eatKeyword?_eq_none_of_apart h (by decide), .inl ⟨d, h, rfl, rfl⟩⟩

theorem boolean?_eq_ok_none (h : boolean? c = .ok (none, d)) : c = d := by
  simp only [boolean?, ite_eatKeyword_eq_ok_iff, pure_eq_ok_iff] at h
  rcases h with ⟨_, _, ⟨⟩, _⟩ | ⟨_, ⟨_, _, ⟨⟩, _⟩ | ⟨_, _, hd⟩⟩
  exact hd

end FilterQuery.Rule
