import FilterQuery.Proofs.Layout.Words
import FilterQuery.Value.Literal

/-!
Layouts of literals: numbers, dates, timestamps, quoted texts and lists.
-/

namespace FilterQuery

open Calendar

/-! ## Numbers -/

/-- Decimal digits that denote `n`. -/
structure DigitsLayout (s : List Char) (n : Nat) : Prop where
  digits : ∀ x ∈ s, x.isDigit = true
  value : Decimal.value s = n

/-- Exactly `width` decimal digits that denote `n`. -/
structure FixedLayout (width : Nat) (s : List Char) (n : Nat) : Prop extends DigitsLayout s n where
  length : s.length = width

/-- One or more digits, after a minus sign or without one; zeros may lead. -/
inductive IntegerLayout : List Char → Int64 → Prop
  | bare {s : List Char} {n : Nat} {i : Int64} :
    s ≠ [] → DigitsLayout s n → i.toInt = n → IntegerLayout s i
  | minus {s : List Char} {n : Nat} {i : Int64} :
    s ≠ [] → DigitsLayout s n → i.toInt = -n → IntegerLayout ('-' :: s) i

/-- One or more digits; zeros may lead. -/
structure CountLayout (s : List Char) (n : UInt64) : Prop extends DigitsLayout s n.toNat where
  ne_nil : s ≠ []

/-! ## Dates and timestamps -/

/-- `dddd-dd-dd`. -/
inductive DateLayout : List Char → Date → Prop
  | mk {y m n : List Char} {year : Nat} {d : Date} :
    FixedLayout 4 y year → d.year = year → FixedLayout 2 m d.month → FixedLayout 2 n d.day →
      DateLayout (y ++ '-' :: m ++ '-' :: n) d

/-- Nothing, or a dot and one to six digits; `nanos` is the fraction in nanoseconds. -/
inductive FractionLayout : List Char → (nanos precision : Nat) → Prop
  | none : FractionLayout [] 0 0
  | digits {s : List Char} {n precision : Nat} :
    FixedLayout precision s n → 1 ≤ precision → precision ≤ maxPrecision →
      FractionLayout ('.' :: s) (n * Decimal.scale (9 - precision)) precision

/-- `dddd-dd-dd dd:dd:dd` and a fraction. -/
inductive TimestampLayout : List Char → Timestamp → Prop
  | mk {a h m s f : List Char} {t : Timestamp} :
    DateLayout a t.moment.date → FixedLayout 2 h t.moment.time.hour →
      FixedLayout 2 m t.moment.time.minute → FixedLayout 2 s t.moment.time.second →
      FractionLayout f t.moment.time.nanos t.precision →
      TimestampLayout (a ++ ' ' :: h ++ ':' :: m ++ ':' :: s ++ f) t

/-! ## Literals -/

/-- The characters between single quotes. -/
def quoted (body : List Char) : List Char :=
  '\'' :: body ++ ['\'']

/-- A literal that is no list. A text has no quotes inside. -/
inductive ScalarLayout : List Char → Literal → Prop
  | integer {s : List Char} {n : Int64} : IntegerLayout s n → ScalarLayout s (.integer n)
  | text {t : String} : '\'' ∉ t.toList → ScalarLayout (quoted t.toList) (.text t)
  | boolean {k : List Char} (b : Bool) :
    KeywordLayout k (if b then .true else .false) → ScalarLayout k (.boolean b)
  | date {k w s : List Char} {d : Date} :
    KeywordLayout k .date → Blanks w → DateLayout s d → ScalarLayout (k ++ w ++ quoted s) (.date d)
  | timestamp {k w s : List Char} {t : Timestamp} :
    KeywordLayout k .timestamp → Blanks w → TimestampLayout s t →
      ScalarLayout (k ++ w ++ quoted s) (.timestamp t)

/-- An integer or a text. -/
structure ElementLayout (s : List Char) (l : Literal) : Prop where
  scalar : ScalarLayout s l
  isListElement : l.isListElement = true

/-- Any number of integers and texts in parentheses. -/
inductive ListLayout : List Char → List Literal → Prop
  | empty {w : List Char} : Blanks w → ListLayout ('(' :: w ++ [')']) []
  | items {v s w : List Char} {ls : List Literal} :
    Blanks v → CommaLayout ElementLayout s ls → Blanks w →
      ListLayout ('(' :: v ++ s ++ w ++ [')']) ls

/-- Any literal. -/
inductive LiteralLayout : List Char → Literal → Prop
  | scalar {s : List Char} {l : Literal} : ScalarLayout s l → LiteralLayout s l
  | list {s : List Char} {ls : List Literal} : ListLayout s ls → LiteralLayout s (.list ls)

/-! ## How layouts begin and end -/

theorem isWordChar_of_isDigit {x : Char} (h : x.isDigit = true) : isWordChar x = true :=
  isWordChar_iff.2 (.inr h)

theorem DigitsLayout.head? {s : List Char} {n : Nat} (h : DigitsLayout s n) (hs : s ≠ []) :
    s.head?.any Char.isDigit = true := by
  cases s with
  | nil => exact absurd rfl hs
  | cons x s => simpa using h.digits x (by simp)

theorem DigitsLayout.getLast? {s : List Char} {n : Nat} (h : DigitsLayout s n) (hs : s ≠ []) :
    s.getLast?.any Char.isDigit = true := by
  rw [List.getLast?_eq_some_getLast hs]
  exact h.digits _ (List.getLast_mem hs)

/-- A sign is never the last character. -/
theorem IntegerLayout.getLast? {s : List Char} {n : Int64} (h : IntegerLayout s n) :
    s.getLast?.any Char.isDigit = true := by
  cases h with
  | bare hs h _ => exact h.getLast? hs
  | minus hs h _ =>
    rw [List.getLast?_cons_of_ne_nil hs]
    exact h.getLast? hs

theorem getLast?_quoted (body : List Char) : (quoted body).getLast? = some '\'' :=
  List.getLast?_concat

/-- A scalar begins with a word character, a sign or a quote. -/
theorem ScalarLayout.head? {s : List Char} {l : Literal} (h : ScalarLayout s l) :
    s.head?.any (fun x => isWordChar x || x == '-' || x == '\'') = true := by
  have word {k : List Char} {w : Keyword} (hk : KeywordLayout k w) (t : List Char) :
      (k ++ t).head?.any (fun x => isWordChar x || x == '-' || x == '\'') = true := by
    obtain ⟨x, hx, hw⟩ := (Option.any_eq_true _ _).1 hk.head?
    simp [hx, isWordChar_of_isWordStart hw]
  cases h with
  | integer h =>
    cases h with
    | bare hs h _ =>
      obtain ⟨x, hx, hd⟩ := (Option.any_eq_true _ _).1 (h.head? hs)
      simp [hx, isWordChar_of_isDigit hd]
    | minus => rfl
  | text => rfl
  | boolean b h => simpa using word h []
  | date h | timestamp h =>
    rw [List.append_assoc]
    exact word h _

theorem ScalarLayout.starts {s : List Char} {l : Literal} (h : ScalarLayout s l) : Starts s := by
  obtain ⟨x, hx, hw⟩ := (Option.any_eq_true _ _).1 h.head?
  simp only [Bool.or_eq_true, beq_iff_eq] at hw
  have hn : s ≠ [] := by
    rintro rfl
    cases hx
  refine ⟨hn, ?_⟩
  rcases hw with (hw | rfl) | rfl
  · simp [hx, isBlank_eq_false_of_isWordChar hw]
  · rw [hx]; rfl
  · rw [hx]; rfl

/-- A scalar ends in a word character or in a quote. -/
theorem ScalarLayout.getLast? {s : List Char} {l : Literal} (h : ScalarLayout s l) :
    s.getLast?.any (fun x => isWordChar x || x == '\'') = true := by
  have key {s : List Char} {p : Char → Bool} (hp : ∀ x, p x = true → isWordChar x = true)
      (h : s.getLast?.any p = true) :
      s.getLast?.any (fun x => isWordChar x || x == '\'') = true := by
    obtain ⟨x, hx, hw⟩ := (Option.any_eq_true _ _).1 h
    simp [hx, hp x hw]
  cases h with
  | integer h => exact key (fun _ => isWordChar_of_isDigit) h.getLast?
  | text => simp [getLast?_quoted]
  | boolean b h => exact key (fun _ => id) h.getLast?
  | date | timestamp => simp [List.getLast?_append, getLast?_quoted]

/-- What closes a list begins no element of it. -/
theorem CommaLayout.head?_ne_close {s : List Char} {ls : List Literal}
    (h : CommaLayout ElementLayout s ls) : s.head? ≠ some ')' := by
  have key {s : List Char} {l : Literal} (hs : ElementLayout s l) (t : List Char) :
      (s ++ t).head? ≠ some ')' := by
    obtain ⟨x, hx, hw⟩ := (Option.any_eq_true _ _).1 hs.scalar.head?
    rw [List.head?_append, hx]
    rintro ⟨⟩
    cases hw
  cases h with
  | one hs => simpa using key hs []
  | cons hs _ _ _ =>
    rw [List.append_assoc, List.append_assoc]
    exact key hs _

theorem ListLayout.getLast? {s : List Char} {ls : List Literal} (h : ListLayout s ls) :
    s.getLast? = some ')' := by
  cases h <;> exact List.getLast?_concat

theorem ListLayout.starts {s : List Char} {ls : List Literal} (h : ListLayout s ls) :
    Starts s := by
  cases h <;> exact .cons rfl _

theorem LiteralLayout.starts {s : List Char} {l : Literal} (h : LiteralLayout s l) :
    Starts s := by
  cases h with
  | scalar h => exact h.starts
  | list h => exact h.starts

theorem ListLayout.head? {s : List Char} {ls : List Literal} (h : ListLayout s ls) :
    s.head? = some '(' := by
  cases h <;> simp

end FilterQuery
