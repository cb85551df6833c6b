import FilterQuery.Proofs.Refusal.Places

/-!
What the operations of a cursor read. The answer of an operation says which characters the cursor
has moved over, and a failure leaves it where it was or at a later place. An operation that does not
apply leaves it where it was.
-/

namespace FilterQuery

/-! ## Operations that read on -/

/-- What a cursor can be asked to read. -/
inductive Scan where
  | advance
  | skipBlanks
  | blanks
  | eat (symbol : String)
  | symbol (symbol : String)
  | eatKeyword (k : Keyword)
  | keyword (k : Keyword)
  | eatSpacedKeyword (k : Keyword)
  | identifier
  | quotedString
  | integer
  | count
  | boolean

namespace Scan

def Answer : Scan → Type
  | .advance => Option Char
  | .skipBlanks => Nat
  | .blanks | .symbol _ | .keyword _ => Unit
  | .eat _ | .eatKeyword _ | .eatSpacedKeyword _ => Bool
  | .identifier | .quotedString => String
  | .integer => Int64
  | .count => UInt64
  | .boolean => Option Bool

/-- What is applied to the text. The blanks that are skipped are counted in bytes. -/
def rule : (s : Scan) → Rule s.Answer
  | .advance => fun c =>
    match c.next? with
    | some (x, d) => .ok (some x, d)
    | none => .ok (none, c)
  | .skipBlanks => fun c => .ok (c.skipBlanks.pos - c.pos, c.skipBlanks)
  | .blanks => Rule.blanks
  | .eat s => Rule.eat s
  | .symbol s => Rule.symbol s
  | .eatKeyword k => Rule.eatKeyword k
  | .keyword k => Rule.keyword k
  | .eatSpacedKeyword k => Rule.eatSpacedKeyword k
  | .identifier => Rule.identifier
  | .quotedString => Rule.quotedString
  | .integer => Rule.integer
  | .count => Rule.count
  | .boolean => Rule.boolean?

/-- The characters that are read with an answer. -/
def Reads : (s : Scan) → s.Answer → List Char → Prop
  | .advance, x, t => t = Option.toList x
  | .skipBlanks, n, t => Blanks t ∧ n = byteLength t
  | .blanks, _, t => Gap t
  | .eat s, true, t | .symbol s, _, t => t = s.toList
  | .eatKeyword k, true, t | .keyword k, _, t => KeywordLayout t k
  | .eatSpacedKeyword k, true, t => ∃ v w, Blanks v ∧ KeywordLayout w k ∧ t = v ++ w
  | .identifier, name, t => t = String.toList name
  | .quotedString, body, t => '\'' ∉ String.toList body ∧ t = quoted (String.toList body)
  | .integer, i, t => IntegerLayout t i
  | .count, n, t => CountLayout t n
  | .boolean, some b, t => KeywordLayout t (if b then .true else .false)
  | .eat _, false, t | .eatKeyword _, false, t | .eatSpacedKeyword _, false, t
  | .boolean, none, t => t = []

/-- The failures that leave the cursor where it was: all but those of a string without an end and of
a number that is too large or too small. -/
def Declines : (s : Scan) → Except ParseError s.Answer → Prop
  | .advance, r => r = .ok none
  | .skipBlanks, _ => False
  | .eat _, r | .eatKeyword _, r | .eatSpacedKeyword _, r => r = .ok false
  | .boolean, r => r = .ok none
  | .blanks, r | .symbol _, r | .keyword _, r | .identifier, r => ∃ e, r = .error e
  | .quotedString, r => ∃ e, r = .error e ∧ e.cause = .expected .quotedString
  | .integer, r | .count, r =>
    ∃ e, r = .error e ∧ (e.cause = .expected .digits ∨ e.cause = .digitSequence)

end Scan

/-! ## What one operation reads -/

theorem Cursor.passes_of_next? {c d : Cursor} {x : Char} (h : c.next? = some (x, d)) :
    c.Passes [x] d := by
  obtain ⟨y, hy, heq⟩ := Option.map_eq_some_iff.1 h
  obtain ⟨r, hr⟩ := List.head?_eq_some_iff.1 hy
  cases heq
  exact .move hr

namespace Rule

variable {c d : Cursor} {r : Refusal} {move? : Cursor → Option Cursor}

theorem move?_of_attempt (h : attempt move? c = .ok (true, d)) : move? c = some d := by
  rw [attempt] at h
  split at h <;> simp_all

theorem eq_of_attempt (h : attempt move? c = .ok (false, d)) : d = c := by
  rw [attempt] at h
  split at h <;> simp_all

theorem attempt_ne_error (move? : Cursor → Option Cursor) : attempt move? c ≠ .error r := by
  rw [attempt]
  split <;> simp

end Rule

namespace Scan

variable {c d : Cursor} {r : Refusal} {s : Scan}

/-- Where an operation answers, it has moved over what the answer says. -/
theorem passes_of_ok {a : s.Answer} (h : s.rule c = .ok (a, d)) :
    ∃ t, s.Reads a t ∧ c.Passes t d := by
  cases s with
  | advance =>
    simp only [rule] at h
    split at h
    · next x e hx =>
      cases h
      exact ⟨[x], rfl, Cursor.passes_of_next? hx⟩
    · cases h
      exact ⟨[], rfl, .refl c⟩
  | skipBlanks =>
    obtain ⟨w, hw, hp, -⟩ := c.skipBlanks_passes
    have hn : c.skipBlanks.pos - c.pos = byteLength w := by
      rw [hp.pos, Nat.add_sub_cancel_left]
    cases h
    exact ⟨w, ⟨hw, hn⟩, hp⟩
  | blanks =>
    obtain ⟨w, hw, hp, -⟩ := Rule.blanks_eq_ok_iff.1 h
    exact ⟨w, hw, hp⟩
  | eat x =>
    have h : Rule.attempt (·.eat? x) c = .ok (a, d) := h
    cases a with
    | false => exact ⟨[], rfl, Rule.eq_of_attempt h ▸ .refl c⟩
    | true => exact ⟨_, rfl, Cursor.eat?_eq_some_iff.1 (Rule.move?_of_attempt h)⟩
  | symbol x => exact ⟨_, rfl, Rule.symbol_eq_ok_iff.1 h⟩
  | eatKeyword k =>
    have h : Rule.attempt (·.eatKeyword? k) c = .ok (a, d) := h
    cases a with
    | false => exact ⟨[], rfl, Rule.eq_of_attempt h ▸ .refl c⟩
    | true =>
      obtain ⟨t, ht, hp, -⟩ := Cursor.eatKeyword?_eq_some_iff.1 (Rule.move?_of_attempt h)
      exact ⟨t, ht, hp⟩
  | keyword k =>
    obtain ⟨t, ht, hp, -⟩ := Cursor.eatKeyword?_eq_some_iff.1 (Rule.keyword_eq_ok_iff.1 h)
    exact ⟨t, ht, hp⟩
  | eatSpacedKeyword k =>
    have h : Rule.attempt (·.eatSpacedKeyword? k) c = .ok (a, d) := h
    cases a with
    | false => exact ⟨[], rfl, Rule.eq_of_attempt h ▸ .refl c⟩
    | true =>
      obtain ⟨v, w, hv, -, hw, hp, -⟩ :=
        Cursor.eatSpacedKeyword?_eq_some_iff_layout.1 (Rule.move?_of_attempt h)
      exact ⟨v ++ w, ⟨v, w, hv, hw, rfl⟩, hp⟩
  | identifier => exact ⟨_, rfl, (Rule.identifier_eq_ok_iff.1 h).2.1⟩
  | quotedString =>
    obtain ⟨ha, hp⟩ := Rule.quotedString_eq_ok_iff.1 h
    exact ⟨_, ⟨ha, rfl⟩, hp⟩
  | integer =>
    obtain ⟨t, ht, hp, -⟩ := Rule.integer_eq_ok_iff.1 h
    exact ⟨t, ht, hp⟩
  | count =>
    obtain ⟨t, ht, hp, -⟩ := Rule.count_eq_ok_iff.1 h
    exact ⟨t, ht, hp⟩
  | boolean =>
    cases a with
    | none => exact ⟨[], rfl, Rule.boolean?_eq_ok_none h ▸ .refl c⟩
    | some b =>
      obtain ⟨t, ht, hp, -⟩ := Cursor.eatKeyword?_eq_some_iff.1 (Rule.boolean?_eq_ok_some_iff.1 h)
      exact ⟨t, ht, hp⟩

/-- Where an operation fails, it goes on from where it was or from a later place, and an operation
that does not apply goes on from where it was. -/
theorem passes_of_error (h : s.rule c = .error r) :
    ∃ t, c.Passes t r.stop ∧ (s.Declines (.error r.error) → t = []) := by
  have of_putsBack {Over : Cause → Prop} (hback : r.PutsBack Over c)
      (hover : s.Declines (.error r.error) → ¬ Over r.error.cause) :
      ∃ t, c.Passes t r.stop ∧ (s.Declines (.error r.error) → t = []) := by
    obtain ⟨t, ht, hnil⟩ := hback.passes
    exact ⟨t, ht, fun hdecl => hnil (hover hdecl)⟩
  cases s with
  | advance =>
    simp only [rule] at h
    split at h <;> cases h
  | skipBlanks => cases h
  | blanks => exact of_putsBack (Rule.blanks_putsBack h) fun _ => id
  | eat x => exact absurd h (Rule.attempt_ne_error (·.eat? x))
  | symbol x => exact of_putsBack (Rule.symbol_putsBack h) fun _ => id
  | eatKeyword k => exact absurd h (Rule.attempt_ne_error (·.eatKeyword? k))
  | keyword k => exact of_putsBack (Rule.keyword_putsBack h) fun _ => id
  | eatSpacedKeyword k => exact absurd h (Rule.attempt_ne_error (·.eatSpacedKeyword? k))
  | identifier => exact of_putsBack (Rule.identifier_putsBack h) fun _ => id
  | quotedString =>
    refine of_putsBack (Rule.quotedString_putsBack h) ?_
    rintro ⟨_, ⟨⟩, hcause⟩
    simp [hcause]
  | integer =>
    refine of_putsBack (Rule.integer_putsBack h) ?_
    rintro ⟨_, ⟨⟩, hcause | hcause⟩ <;> simp [hcause]
  | count =>
    refine of_putsBack (Rule.count_putsBack h) ?_
    rintro ⟨_, ⟨⟩, hcause | hcause⟩ <;> simp [hcause]
  | boolean => exact absurd h Rule.boolean?_ne_error

/-- With the answer that it does not apply, an operation has read nothing. -/
theorem Reads.eq_nil {a : s.Answer} {t : List Char} (h : s.Reads a t) (hd : s.Declines (.ok a)) :
    t = [] := by
  cases s with
  | advance =>
    cases hd
    exact h
  | eat | eatKeyword | eatSpacedKeyword | boolean =>
    cases hd
    exact h
  | skipBlanks => cases hd
  | blanks | symbol | keyword | identifier => obtain ⟨e, ⟨⟩⟩ := hd
  | quotedString | integer | count => obtain ⟨e, ⟨⟩, -⟩ := hd

end Scan

end FilterQuery
