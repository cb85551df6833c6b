import FilterQuery.Proofs.Refusal.Places

/-!
Keywords as words. A keyword is compared with the text, and an identifier is the longest run of its
characters. Still both draw the end of a word in the same place, so that a keyword is read exactly
where the identifiers that stand one behind the other are its words.
-/

namespace FilterQuery.Cursor

variable {c d e : Cursor} {k : Keyword} {w : String} {ws : List String}

/-- From the first cursor to the second the text holds the words, with a gap of all the blanks
there are between one and the next. Where a word begins, it is the identifier that is read. -/
inductive Spells : Cursor → List String → Cursor → Prop
  | last {c d : Cursor} {w : String} :
    c.Passes w.toList d → Rule.identifier c = .ok (w, d) → Spells c [w] d
  | next {c d e f : Cursor} {w v : String} {ws : List String} {gap : List Char} :
    c.Passes w.toList d → Rule.identifier c = .ok (w, d) →
      d.Passes gap e → Gap gap → e.peek?.any isBlank = false →
      Spells e (v :: ws) f → Spells c (w :: v :: ws) f

/-! ## Words and identifiers -/

/-- A word without dots is matched exactly if it is the identifier that is read, whether names may
have dots or not. -/
theorem eatWord?_eq_some_iff_identifier (hw : IsIdentifier false w) :
    c.eatWord? w = some d ↔ c.Passes w.toList d ∧ Rule.identifier c = .ok (w, d) := by
  have hname : IsIdentifier c.dotted w :=
    ⟨hw.1, fun x hx => continuesName_of_isWordChar (isWordChar_of_continuesName (hw.2 x hx))⟩
  rw [eatWord?_eq_some_iff, Rule.identifier_eq_ok_iff]
  constructor
  · rintro ⟨hp, hend⟩
    exact ⟨hp, hname, hp, hend⟩
  · rintro ⟨hp, -, -, hend⟩
    exact ⟨hp, hend⟩

theorem eatWords?_eq_some_iff_spells (hws : Wordy ws) (hne : ws ≠ []) :
    c.eatWords? ws = some e ↔ c.Spells ws e := by
  -- Behind equal words both go on over the same gap, and so from the same place.
  induction ws generalizing c with
  | nil => exact absurd rfl hne
  | cons w ws ih =>
    have hw : IsIdentifier false w := hws w List.mem_cons_self
    cases ws with
    | nil =>
      rw [eatWords?, eatWord?_eq_some_iff_identifier hw]
      constructor
      · rintro ⟨hp, hname⟩
        exact .last hp hname
      · intro hspells
        cases hspells with
        | last hp hname => exact ⟨hp, hname⟩
    | cons v ws =>
      rw [eatWords?_cons_eq_some_iff]
      simp only [eatWord?_eq_some_iff_identifier hw, ih hws.tail (by simp)]
      constructor
      · rintro ⟨d, ⟨hp, hname⟩, hblank, hspells⟩
        obtain ⟨gap, hgap, hpgap, hend⟩ := d.skipBlanks_passes
        have hne : gap ≠ [] := hpgap.ne_nil_of_blank hblank hend
        exact .next hp hname hpgap ⟨hgap, hne⟩ hend hspells
      · intro hspells
        cases hspells with
        | next hp hname hpgap hgap hend hspells =>
          rw [← hpgap.skipBlanks hgap.blanks hend] at hspells
          exact ⟨_, ⟨hp, hname⟩, hpgap.blank_of_gap hgap, hspells⟩

/-! ## Blanks before a keyword -/

theorem pos_lt_pos_skipBlanks_iff : c.pos < c.skipBlanks.pos ↔ c.peek?.any isBlank = true := by
  obtain ⟨w, hw, hp, hend⟩ := c.skipBlanks_passes
  constructor
  · intro hlt
    have hne : w ≠ [] := by
      rintro rfl
      rw [hp.eq_of_nil] at hlt
      omega
    exact hp.blank_of_gap ⟨hw, hne⟩
  · intro hblank
    obtain ⟨x, w, rfl⟩ := List.exists_cons_of_ne_nil (hp.ne_nil_of_blank hblank hend)
    have hx := x.utf8Size_pos
    rw [hp.pos, byteLength_cons]
    omega

theorem afterWord_eq_false_iff :
    c.afterWord = false ↔ ∀ x ∈ c.past.head?, isWordChar x = false ∧ x ≠ '\'' := by
  simp [afterWord, head?_any_eq_false_iff]

/-! ## Keywords -/

/-- A keyword is read exactly where its words stand, each of them as a whole identifier, with gaps
between them. A spaced keyword is a keyword behind all the blanks there are; there may be none only
where the character before is no letter, digit, underscore or quote, or at the start of the text.
-/
theorem eatKeyword?_iff_spells (c : Cursor) (k : Keyword) (d : Cursor) :
    (c.eatKeyword? k = some d ↔ c.Spells k.words d) ∧
    (c.eatSpacedKeyword? k = some d ↔ c.skipBlanks.eatKeyword? k = some d ∧
      (c.pos < c.skipBlanks.pos ∨ ∀ x ∈ c.past.head?, isWordChar x = false ∧ x ≠ '\'')) := by
  refine ⟨eatWords?_eq_some_iff_spells k.wordy k.words_ne_nil, ?_⟩
  rw [eatSpacedKeyword?_eq_some_iff, pos_lt_pos_skipBlanks_iff, ← afterWord_eq_false_iff, and_comm]
  cases c.peek?.any isBlank <;> simp

/-- Right behind the last word, a dot goes on with it only where names may have dots. -/
example : ((ofString "IS \n NOT\tNULL." false).eatKeyword? .isNotNull).isSome = true ∧
    (ofString "IS \n NOT\tNULL." true).eatKeyword? .isNotNull = none := by
  decide

end FilterQuery.Cursor
