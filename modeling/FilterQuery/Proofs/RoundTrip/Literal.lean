import FilterQuery.Proofs.Layout.Calendar
import FilterQuery.Proofs.Reading.Calls

/-!
Writable literals: those that some text is a layout of. Their canonical texts are such layouts, so
that exactly they are read back.
-/

namespace FilterQuery

open Calendar

/-- Years are written with four digits. -/
def Calendar.Date.Writable (d : Date) : Prop :=
  0 ≤ d.year ∧ d.year ≤ 9999

instance (d : Date) : Decidable d.Writable :=
  inferInstanceAs (Decidable (_ ∧ _))

/-- A text has no quotes inside, a date has a year of four digits, and a timestamp also shows all of
its fraction and no leap second. A list is no operand of a comparison. -/
def Literal.Writable : Literal → Prop
  | .integer _ | .boolean _ => True
  | .text t => '\'' ∉ t.toList
  | .date d => d.Writable
  | .timestamp t => t.moment.date.Writable ∧ t.Fits
  | .list _ => False

instance : (l : Literal) → Decidable l.Writable
  | .integer _ | .boolean _ => isTrue trivial
  | .text t => inferInstanceAs (Decidable ('\'' ∉ t.toList))
  | .date d => inferInstanceAs (Decidable d.Writable)
  | .timestamp t => inferInstanceAs (Decidable (t.moment.date.Writable ∧ t.Fits))
  | .list _ => isFalse id

/-- A literal that may stand in a list. -/
def Literal.WritableElement (l : Literal) : Prop :=
  l.isListElement = true ∧ l.Writable

instance (l : Literal) : Decidable l.WritableElement :=
  inferInstanceAs (Decidable (_ ∧ _))

/-! ## What has a layout is writable -/

theorem DateLayout.writable {s : List Char} {d : Date} (h : DateLayout s d) : d.Writable := by
  cases h with
  | @mk _ _ _ year _ hy he _ _ =>
    have hlt : year < 10000 := hy.lt
    rw [Date.Writable]
    omega

theorem FractionLayout.fits {f : List Char} {nanos precision : Nat}
    (h : FractionLayout f nanos precision) :
    precision ≤ maxPrecision ∧ nanos < 1000000000 ∧ nanos % Decimal.scale (9 - precision) = 0 := by
  cases h with
  | none => decide
  | @digits s n _ hs _ hhi =>
    refine ⟨hhi, ?_, Nat.mul_mod_left _ _⟩
    have hp : precision ≤ 6 := hhi
    calc n * Decimal.scale (9 - precision)
        < Decimal.scale precision * Decimal.scale (9 - precision) :=
          Nat.mul_lt_mul_of_pos_right hs.lt (Decimal.scale_pos _)
      _ = Decimal.scale 9 := by rw [← Decimal.scale_add, Nat.add_sub_cancel' (by omega)]
      _ = 1000000000 := rfl

theorem TimestampLayout.writable {s : List Char} {t : Timestamp} (h : TimestampLayout s t) :
    t.moment.date.Writable ∧ t.Fits := by
  cases h with
  | mk ha _ _ _ hf => exact ⟨ha.writable, hf.fits⟩

/-- A date has no text but its canonical one. -/
theorem DateLayout.eq_text {s : List Char} {d : Date} (h : DateLayout s d) : s = d.text.toList :=
  h.unique (.text h.writable.1 h.writable.2)

/-- A timestamp has no text but its canonical one. -/
theorem TimestampLayout.eq_text {s : List Char} {t : Timestamp} (h : TimestampLayout s t) :
    s = t.text.toList := by
  obtain ⟨⟨hlo, hhi⟩, hfits⟩ := h.writable
  exact h.unique (.text hlo hhi hfits)

theorem ScalarLayout.writable {s : List Char} {l : Literal} (h : ScalarLayout s l) :
    l.Writable := by
  cases h with
  | integer | boolean => trivial
  | text ht => exact ht
  | date _ _ hs => exact hs.writable
  | timestamp _ _ hs => exact hs.writable

theorem ListLayout.writable {s : List Char} {ls : List Literal} (h : ListLayout s ls) :
    ∀ l ∈ ls, l.WritableElement := by
  cases h with
  | empty => simp
  | items _ hs _ =>
    induction hs with
    | one hs => simpa using ⟨hs.isListElement, hs.scalar.writable⟩
    | cons hs _ _ _ ih => simpa using ⟨⟨hs.isListElement, hs.scalar.writable⟩, ih⟩

/-! ## Canonical texts of writable literals -/

theorem toList_quoted (t : String) : ("'" ++ t ++ "'").toList = quoted t.toList := by
  simp [quoted]

theorem toList_quotedDate (t : String) :
    ("DATE '" ++ t ++ "'").toList = "DATE".toList ++ [' '] ++ quoted t.toList := by
  simp [quoted]

theorem toList_quotedTimestamp (t : String) :
    ("TIMESTAMP '" ++ t ++ "'").toList = "TIMESTAMP".toList ++ [' '] ++ quoted t.toList := by
  simp [quoted]

theorem ScalarLayout.render {l : Literal} (h : l.Writable) : ScalarLayout l.render.toList l := by
  cases l with
  | integer n =>
    rw [Literal.render]
    exact .integer (.ofInt n)
  | text t =>
    rw [Literal.render, toList_quoted]
    exact .text h
  | boolean b =>
    rw [Literal.render]
    cases b with
    | false => exact .boolean false (.word "false")
    | true => exact .boolean true (.word "true")
  | date d =>
    rw [Literal.render, toList_quotedDate]
    exact .date (.word "DATE") Gap.blank.blanks (.text h.1 h.2)
  | timestamp t =>
    rw [Literal.render, toList_quotedTimestamp]
    exact .timestamp (.word "TIMESTAMP") Gap.blank.blanks (.text h.1.1 h.1.2 h.2)
  | list => cases h

theorem ElementLayout.render {l : Literal} (h : l.WritableElement) :
    ElementLayout l.render.toList l :=
  ⟨.render h.2, h.1⟩

theorem CommaLayout.renderItems {l : Literal} {ls : List Literal}
    (h : ∀ x ∈ l :: ls, x.WritableElement) :
    CommaLayout ElementLayout (Literal.renderItems (l :: ls)).toList (l :: ls) := by
  induction ls generalizing l with
  | nil =>
    rw [Literal.renderItems]
    exact .one (.render (h l (by simp)))
  | cons m ls ih =>
    have ht : (Literal.renderItems (l :: m :: ls)).toList =
        l.render.toList ++ [] ++ ',' :: [' '] ++ (Literal.renderItems (m :: ls)).toList := by
      simp [Literal.renderItems]
    rw [ht]
    exact .cons (.render (h l (by simp))) .nil Gap.blank.blanks
      (ih fun x hx => h x (List.mem_cons_of_mem _ hx))

theorem ListLayout.render {ls : List Literal} (h : ∀ l ∈ ls, l.WritableElement) :
    ListLayout (Literal.list ls).render.toList ls := by
  cases ls with
  | nil => exact .empty .nil
  | cons l ls =>
    have ht : (Literal.list (l :: ls)).render.toList =
        '(' :: [] ++ (Literal.renderItems (l :: ls)).toList ++ [] ++ [')'] := by
      simp [Literal.render]
    rw [ht]
    exact .items .nil (.renderItems h) .nil

/-! ## Literals alone -/

/-- What a text can denote that is one literal: also a list, of integers and of texts without
quotes. -/
def Literal.WritableAlone : Literal → Prop
  | .list items => ∀ l ∈ items, l.WritableElement
  | l => l.Writable

theorem LiteralLayout.writable {s : List Char} {l : Literal} (h : LiteralLayout s l) :
    l.WritableAlone := by
  cases h with
  | scalar h =>
    have hl := h.writable
    cases l with
    | list => cases hl
    | integer | text | boolean | date | timestamp => exact hl
  | list h => exact h.writable

theorem LiteralLayout.render {l : Literal} (h : l.WritableAlone) :
    LiteralLayout l.render.toList l := by
  cases l with
  | list => exact .list (.render h)
  | integer | text | boolean | date | timestamp => exact .scalar (.render h)

/-- Exactly the writable literals are read back from their canonical texts; that of another one is
refused, or it denotes something else. -/
theorem parseLiteral_render_eq_ok_iff (d : Dialect) (maxDepth : Nat) (l : Literal) :
    (Parser.ofString d maxDepth l.render).literal.1 = .ok l ↔ l.WritableAlone := by
  have hcall : (Parser.ofString d maxDepth l.render).literal.1 = .ok l ↔
      ∃ v s w, l.render.toList = v ++ s ++ w ∧ Blanks v ∧ LiteralLayout s l ∧ Blanks w :=
    Parser.call_ofString_eq_ok_iff (k := .literal) nofun
  refine hcall.trans ⟨?_, fun h => ?_⟩
  · rintro ⟨v, s, w, -, -, hs, -⟩
    exact LiteralLayout.writable hs
  · exact ⟨[], _, [], by simp, .nil, LiteralLayout.render h, .nil⟩

/-- A quote ends a text early, and what is left of the list makes up another one. -/
example : (Parser.ofString .clause 0 (Literal.list [.text "a', 'b"]).render).literal.1 =
    .ok (.list [.text "a", .text "b"]) := by
  rfl

end FilterQuery
