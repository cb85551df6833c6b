import FilterQuery.Query.Keyword
import FilterQuery.Text.Chars

/-!
Layouts of the smallest parts of a text: blanks, identifiers and keywords. A layout relation holds
between the characters of a text and what they stand for; it says nothing of how a text is read.
-/

namespace FilterQuery

/-! ## Characters -/

theorem isBlank_iff {x : Char} : isBlank x = true ↔ x = ' ' ∨ x = '\t' ∨ x = '\n' ∨ x = '\r' := by
  simp [isBlank, or_assoc]

theorem isWordChar_eq_false_of_isBlank {x : Char} (h : isBlank x = true) :
    isWordChar x = false := by
  rcases isBlank_iff.1 h with rfl | rfl | rfl | rfl <;> rfl

theorem isBlank_eq_false_of_isWordChar {x : Char} (h : isWordChar x = true) :
    isBlank x = false := by
  rw [Bool.eq_false_iff]
  intro hb
  rw [isWordChar_eq_false_of_isBlank hb] at h
  cases h

theorem isWordChar_iff {x : Char} :
    isWordChar x = true ↔ isWordStart x = true ∨ x.isDigit = true := by
  simp only [isWordChar, isWordStart, Char.isAlphanum, Bool.or_eq_true]
  constructor
  · rintro ((h | h) | h)
    · exact .inl (.inl h)
    · exact .inr h
    · exact .inl (.inr h)
  · rintro ((h | h) | h)
    · exact .inl (.inl h)
    · exact .inr h
    · exact .inl (.inr h)

theorem isWordChar_eq_false_iff {x : Char} :
    isWordChar x = false ↔ isWordStart x = false ∧ x.isDigit = false := by
  have h := isWordChar_iff (x := x)
  cases hs : isWordStart x <;> cases hd : x.isDigit <;> simp_all

theorem isWordStart_eq_false_of_isDigit {x : Char} (h : x.isDigit = true) :
    isWordStart x = false := by
  have hx := (Char.isDigit_iff_toNat.1 h).2
  rw [Bool.eq_false_iff]
  intro hw
  -- Letters and the underscore all come after the digits.
  have hletter : (decide ('A'.val ≤ x.val ∧ x.val ≤ 'Z'.val) ||
      (decide ('a'.val ≤ x.val) && decide (x.val ≤ 'z'.val)) || x == '_') = true := hw
  simp only [Bool.or_eq_true, Bool.and_eq_true, decide_eq_true_eq, beq_iff_eq,
    UInt32.le_iff_toNat_le] at hletter
  have h9 : '9'.toNat = 57 := rfl
  have hA : 'A'.val.toNat = 65 := rfl
  have ha : 'a'.val.toNat = 97 := rfl
  have hv : x.val.toNat = x.toNat := rfl
  rcases hletter with (hletter | hletter) | rfl
  · omega
  · omega
  · cases h

/-! ## Blanks -/

/-- A run of blanks, which may be empty. -/
def Blanks (w : List Char) : Prop :=
  ∀ x ∈ w, isBlank x = true

/-- A run of blanks that is not empty. -/
structure Gap (w : List Char) : Prop where
  blanks : Blanks w
  ne_nil : w ≠ []

theorem Blanks.nil : Blanks [] := by
  simp [Blanks]

theorem Blanks.append {v w : List Char} (hv : Blanks v) (hw : Blanks w) : Blanks (v ++ w) :=
  fun x hx => (List.mem_append.1 hx).elim (hv x) (hw x)

theorem Gap.blank : Gap [' '] :=
  ⟨by simp [Blanks, isBlank], by simp⟩

theorem Gap.head?_any {w : List Char} (h : Gap w) : w.head?.any isBlank = true := by
  obtain ⟨hb, hn⟩ := h
  cases w with
  | nil => exact absurd rfl hn
  | cons x w => simpa using hb x (by simp)

/-- The text begins with a character that is no blank. -/
structure Starts (s : List Char) : Prop where
  ne_nil : s ≠ []
  not_blank : s.head?.any isBlank = false

theorem Starts.cons {x : Char} (h : isBlank x = false) (s : List Char) : Starts (x :: s) :=
  ⟨by simp, h⟩

theorem Starts.of_wordStart {s : List Char} (h : s.head?.any isWordStart = true) : Starts s := by
  obtain ⟨x, hx, hw⟩ := (Option.any_eq_true _ _).1 h
  obtain ⟨r, rfl⟩ := List.head?_eq_some_iff.1 hx
  exact .cons (isBlank_eq_false_of_isWordChar (isWordChar_of_isWordStart hw)) r

theorem Starts.append {s : List Char} (h : Starts s) (t : List Char) : Starts (s ++ t) := by
  obtain ⟨hn, hb⟩ := h
  obtain ⟨x, s, rfl⟩ := List.exists_cons_of_ne_nil hn
  exact .cons hb (s ++ t)

/-! ## Identifiers -/

/-- The character continues an identifier; a dot does where names may have dots. -/
def continuesName (dotted : Bool) (x : Char) : Bool :=
  isWordChar x || (dotted && x == '.')

/-- A letter or an underscore, and characters that continue it. -/
def IsIdentifier (dotted : Bool) (name : String) : Prop :=
  name.toList.head?.any isWordStart = true ∧ ∀ x ∈ name.toList, continuesName dotted x = true

instance (dotted : Bool) (name : String) : Decidable (IsIdentifier dotted name) :=
  decidable_of_iff (name.toList.head?.any isWordStart = true ∧
    name.toList.all (continuesName dotted) = true) (by simp [IsIdentifier])

theorem continuesName_of_isWordChar {dotted : Bool} {x : Char} (h : isWordChar x = true) :
    continuesName dotted x = true := by
  simp [continuesName, h]

theorem isWordChar_of_continuesName {x : Char} (h : continuesName false x = true) :
    isWordChar x = true := by
  simpa [continuesName] using h

theorem isWordChar_eq_false_of_continuesName {dotted : Bool} {x : Char}
    (h : continuesName dotted x = false) : isWordChar x = false := by
  simp_all [continuesName]

theorem continuesName_eq_false {dotted : Bool} {x : Char} (h : isWordChar x = false)
    (hx : x ≠ '.') : continuesName dotted x = false := by
  simp [continuesName, h, hx]

theorem continuesName_eq_false_of_dotted {dotted : Bool} {x : Char}
    (h : continuesName true x = false) : continuesName dotted x = false := by
  simp_all [continuesName]

theorem continuesName_eq_false_of_isBlank {dotted : Bool} {x : Char} (h : isBlank x = true) :
    continuesName dotted x = false := by
  rcases isBlank_iff.1 h with rfl | rfl | rfl | rfl <;> cases dotted <;> rfl

namespace IsIdentifier

variable {dotted : Bool} {name : String}

theorem ne_nil (h : IsIdentifier dotted name) : name.toList ≠ [] := by
  intro hn
  simp [IsIdentifier, hn] at h

theorem head?_any (h : IsIdentifier dotted name) : name.toList.head?.any isWordStart = true :=
  h.1

end IsIdentifier

/-! ## Keywords -/

/-- Words with gaps between them. -/
inductive WordsLayout : List Char → List String → Prop
  | word (w : String) : WordsLayout w.toList [w]
  | cons (w : String) {next : String} {ws : List String} {g s : List Char} :
    Gap g → WordsLayout s (next :: ws) → WordsLayout (w.toList ++ g ++ s) (w :: next :: ws)

/-- The words of a keyword with gaps between them. -/
def KeywordLayout (s : List Char) (k : Keyword) : Prop :=
  WordsLayout s k.words

/-- All words are identifiers without dots. -/
def Wordy (ws : List String) : Prop :=
  ∀ w ∈ ws, IsIdentifier false w

theorem Wordy.tail {w : String} {ws : List String} (h : Wordy (w :: ws)) : Wordy ws :=
  fun v hv => h v (List.mem_cons_of_mem w hv)

theorem Keyword.wordy (k : Keyword) : Wordy k.words := by
  cases k <;> simp only [Wordy, Keyword.words, List.forall_mem_cons] <;> decide

theorem Keyword.words_ne_nil (k : Keyword) : k.words ≠ [] := by
  cases k <;> simp [Keyword.words]

/-- Neither keyword begins with all the words of the other. -/
def Keyword.Apart (k l : Keyword) : Prop :=
  ¬ k.words <+: l.words ∧ ¬ l.words <+: k.words

instance (k l : Keyword) : Decidable (k.Apart l) :=
  inferInstanceAs (Decidable (_ ∧ _))

namespace WordsLayout

variable {s : List Char} {ws : List String}

theorem ne_nil (h : WordsLayout s ws) (hw : Wordy ws) : s ≠ [] := by
  cases h with
  | word w => exact (hw w (by simp)).ne_nil
  | cons w g h => simp [g.ne_nil]

theorem head?_any (h : WordsLayout s ws) (hw : Wordy ws) : s.head?.any isWordStart = true := by
  have key {w : String} (hm : w ∈ ws) (t : List Char) :
      (w.toList ++ t).head?.any isWordStart = true := by
    obtain ⟨x, hx, hs⟩ := (Option.any_eq_true _ _).1 (hw w hm).head?_any
    simp [hx, hs]
  cases h with
  | word w => simpa using key (by simp) []
  | cons w g h =>
    rw [List.append_assoc]
    exact key (by simp) _

/-- A keyword ends in a word character. -/
theorem getLast?_any (h : WordsLayout s ws) (hw : Wordy ws) : s.getLast?.any isWordChar = true := by
  induction h with
  | word w =>
    have hi := hw w (by simp)
    rw [List.getLast?_eq_some_getLast hi.ne_nil]
    exact isWordChar_of_continuesName (hi.2 _ (List.getLast_mem hi.ne_nil))
  | cons w g h ih =>
    obtain ⟨x, hx, hxw⟩ := (Option.any_eq_true _ _).1 (ih hw.tail)
    simp [List.getLast?_append, hx, hxw]

end WordsLayout

theorem WordsLayout.intercalate (w : String) (ws : List String) :
    WordsLayout (" ".intercalate (w :: ws)).toList (w :: ws) := by
  induction ws generalizing w with
  | nil =>
    rw [String.intercalate_singleton]
    exact .word w
  | cons v ws ih =>
    rw [String.intercalate_cons_cons, String.toList_append, String.toList_append]
    exact .cons w .blank (ih v)

namespace KeywordLayout

variable {s : List Char} {k : Keyword}

theorem head? (h : KeywordLayout s k) : s.head?.any isWordStart = true :=
  h.head?_any k.wordy

theorem getLast? (h : KeywordLayout s k) : s.getLast?.any isWordChar = true :=
  h.getLast?_any k.wordy

theorem starts (h : KeywordLayout s k) : Starts s :=
  .of_wordStart h.head?

end KeywordLayout

/-- The canonical text of a keyword is one of its layouts. -/
theorem KeywordLayout.text (k : Keyword) : KeywordLayout k.text.toList k := by
  unfold KeywordLayout Keyword.text
  obtain ⟨w, ws, hk⟩ := List.exists_cons_of_ne_nil k.words_ne_nil
  rw [hk]
  exact .intercalate w ws

/-! ## Commas -/

/-- One or more items with commas between them, and blanks around the commas. -/
inductive CommaLayout {α : Type} (Item : List Char → α → Prop) : List Char → List α → Prop
  | one {s : List Char} {a : α} : Item s a → CommaLayout Item s [a]
  | cons {s v w t : List Char} {a : α} {as : List α} :
    Item s a → Blanks v → Blanks w → CommaLayout Item t as →
      CommaLayout Item (s ++ v ++ ',' :: w ++ t) (a :: as)

theorem CommaLayout.starts {α : Type} {Item : List Char → α → Prop}
    (hitem : ∀ s a, Item s a → Starts s) {s : List Char} {as : List α}
    (h : CommaLayout Item s as) : Starts s := by
  cases h with
  | one hs => exact hitem _ _ hs
  | cons hs _ _ _ =>
    rw [List.append_assoc, List.append_assoc]
    exact (hitem _ _ hs).append _

end FilterQuery
