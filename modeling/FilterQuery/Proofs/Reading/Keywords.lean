import FilterQuery.Proofs.Layout.Words
import FilterQuery.Proofs.Reading.Moves

/-!
What the cursor reads as blanks and keywords. A keyword is read exactly where one of its layouts
stands and no identifier goes on behind it, so that of two keywords of which neither begins with
the other at most one can be read at a place.
-/

namespace FilterQuery.Cursor

variable {c d e : Cursor} {k l : Keyword}

/-- No identifier goes on here. -/
def AtWordEnd (c : Cursor) : Prop :=
  c.peek?.any (continuesName c.dotted) = false

instance (c : Cursor) : Decidable c.AtWordEnd :=
  inferInstanceAs (Decidable (_ = _))

theorem atWordEnd_of_blank (h : c.peek?.any isBlank = true) : c.AtWordEnd := by
  obtain ⟨x, hx, hb⟩ := (Option.any_eq_true _ _).1 h
  simp [AtWordEnd, hx, continuesName_eq_false_of_isBlank hb]

theorem AtWordEnd.not_wordChar (h : c.AtWordEnd) : c.peek?.any isWordChar = false := by
  rw [AtWordEnd, Cursor.peek?, head?_any_eq_false_iff] at h
  rw [Cursor.peek?, head?_any_eq_false_iff]
  exact fun x hx => isWordChar_eq_false_of_continuesName (h x hx)

/-- Where no identifier goes on, no word begins. -/
theorem AtWordEnd.not_passes_word {s : List Char} (h : c.AtWordEnd) (hp : c.Passes s d) :
    ¬ s.head?.any isWordStart = true := by
  intro hs
  obtain ⟨x, hx, hw⟩ := (Option.any_eq_true _ _).1 hs
  have hn := h.not_wordChar
  rw [hp.peek? (by rintro rfl; cases hx), hx] at hn
  simp [isWordChar_of_isWordStart hw] at hn

/-! ## Blanks -/

theorem skipBlanks_eq_iff :
    c.skipBlanks = d ↔ ∃ w, Blanks w ∧ c.Passes w d ∧ d.peek?.any isBlank = false :=
  skipWhile_eq_iff

theorem skipBlanks_passes (c : Cursor) :
    ∃ w, Blanks w ∧ c.Passes w c.skipBlanks ∧ c.skipBlanks.peek?.any isBlank = false :=
  skipBlanks_eq_iff.1 rfl

theorem Passes.skipBlanks {w : List Char} (h : c.Passes w d) (hw : Blanks w)
    (hd : d.peek?.any isBlank = false) : c.skipBlanks = d :=
  skipBlanks_eq_iff.2 ⟨w, hw, h, hd⟩

theorem not_blank_of_wordStart (h : c.peek?.any isWordStart = true) :
    c.peek?.any isBlank = false := by
  obtain ⟨x, hx, hw⟩ := (Option.any_eq_true _ _).1 h
  simp [hx, isBlank_eq_false_of_isWordChar (isWordChar_of_isWordStart hw)]

theorem Passes.ne_nil_of_blank {w : List Char} (h : c.Passes w d)
    (hc : c.peek?.any isBlank = true) (hd : d.peek?.any isBlank = false) : w ≠ [] := by
  rintro rfl
  rw [h.eq_of_nil, hc] at hd
  cases hd

theorem Passes.blank_of_gap {w : List Char} (h : c.Passes w d) (hw : Gap w) :
    c.peek?.any isBlank = true := by
  rw [h.peek? hw.ne_nil]
  exact hw.head?_any

/-- The blanks before something else are all that `skipBlanks` moves over. -/
theorem Passes.skipBlanks_append {w s : List Char} (h : c.Passes (w ++ s) e) (hw : Blanks w)
    (hs : Starts s) : c.Passes w c.skipBlanks ∧ c.skipBlanks.Passes s e := by
  obtain ⟨d, hd, hde⟩ := Passes.append_iff.1 h
  rw [hd.skipBlanks hw (by rw [hde.peek? hs.ne_nil]; exact hs.not_blank)]
  exact ⟨hd, hde⟩

/-- Blanks and a symbol that begins with none. -/
theorem skipBlanks_eat?_eq_some_iff {symbol : String} (hs : Starts symbol.toList) :
    c.skipBlanks.eat? symbol = some d ↔ ∃ v, Blanks v ∧ c.Passes (v ++ symbol.toList) d := by
  rw [eat?_eq_some_iff]
  constructor
  · intro h
    obtain ⟨v, hv, hp, -⟩ := c.skipBlanks_passes
    exact ⟨v, hv, hp.trans h⟩
  · rintro ⟨v, hv, h⟩
    exact (h.skipBlanks_append hv hs).2

theorem skipBlanks_comma_iff :
    c.skipBlanks.eat? "," = some d ↔ ∃ v, Blanks v ∧ c.Passes (v ++ [',']) d :=
  skipBlanks_eat?_eq_some_iff (.cons rfl [])

theorem skipBlanks_close_iff :
    c.skipBlanks.eat? ")" = some d ↔ ∃ v, Blanks v ∧ c.Passes (v ++ [')']) d :=
  skipBlanks_eat?_eq_some_iff (.cons rfl [])

/-- No identifier goes on before blanks and a character that continues none. -/
theorem Passes.atWordEnd {w r : List Char} {x : Char} (h : c.Passes (w ++ x :: r) e)
    (hw : Blanks w) (hx : continuesName true x = false) : c.AtWordEnd := by
  rw [AtWordEnd, h.peek? (by simp)]
  cases w with
  | nil => exact continuesName_eq_false_of_dotted hx
  | cons y w => simpa using continuesName_eq_false_of_isBlank (hw y (by simp))

theorem Passes.atWordEnd_of_gap {w s : List Char} (h : c.Passes (w ++ s) e) (hw : Gap w) :
    c.AtWordEnd := by
  obtain ⟨d, hd, -⟩ := Passes.append_iff.1 h
  exact atWordEnd_of_blank (hd.blank_of_gap hw)

/-! ## Words -/

theorem eatWord?_eq_some_iff {w : String} :
    c.eatWord? w = some d ↔ c.Passes w.toList d ∧ d.AtWordEnd := by
  simp only [eatWord?, Option.filter_eq_some_iff, eat?_eq_some_iff, Bool.not_eq_true']
  rfl

/-- A word that is read is the longest run of identifier characters. -/
theorem takeWhile_of_eatWord? {w : String} (hw : IsIdentifier false w)
    (h : c.eatWord? w = some d) : c.rest.takeWhile (continuesName c.dotted) = w.toList := by
  obtain ⟨hp, hd⟩ := eatWord?_eq_some_iff.1 h
  rw [AtWordEnd, hp.dotted] at hd
  exact hp.takeWhile
    (fun x hx => continuesName_of_isWordChar (isWordChar_of_continuesName (hw.2 x hx))) hd

/-- Where a whole identifier stands, it is the only word that can be read. -/
theorem eatWord?_of_identifier {name w : String} (hw : IsIdentifier false w)
    (hi : IsIdentifier c.dotted name) (h : c.Passes name.toList d) (hd : d.AtWordEnd) :
    c.eatWord? w = if name = w then some d else none := by
  split
  · next hn =>
    subst hn
    exact eatWord?_eq_some_iff.2 ⟨h, hd⟩
  · next hn =>
    rw [Option.eq_none_iff_forall_ne_some]
    intro e he
    have ht := takeWhile_of_eatWord? hw he
    rw [AtWordEnd, h.dotted] at hd
    rw [h.takeWhile hi.2 hd] at ht
    exact hn (String.toList_inj.1 ht)

theorem eatWords?_cons_eq_some_iff {w next : String} {ws : List String} :
    c.eatWords? (w :: next :: ws) = some e ↔
      ∃ d, c.eatWord? w = some d ∧ d.peek?.any isBlank = true ∧
        d.skipBlanks.eatWords? (next :: ws) = some e := by
  rw [eatWords?]
  cases h : c.eatWord? w <;> simp

/-- Words are read exactly where they stand with gaps between them and the last one ends. -/
theorem eatWords?_eq_some_iff {ws : List String} (hw : Wordy ws) (hn : ws ≠ []) :
    c.eatWords? ws = some d ↔ ∃ s, WordsLayout s ws ∧ c.Passes s d ∧ d.AtWordEnd := by
  induction ws generalizing c with
  | nil => exact absurd rfl hn
  | cons w ws ih =>
    cases ws with
    | nil =>
      rw [eatWords?, eatWord?_eq_some_iff]
      constructor
      · exact fun h => ⟨_, .word w, h⟩
      · rintro ⟨s, hs, h⟩
        cases hs
        exact h
    | cons next ws =>
      rw [eatWords?_cons_eq_some_iff]
      simp only [ih hw.tail (by simp), eatWord?_eq_some_iff]
      constructor
      · rintro ⟨e, ⟨he, -⟩, hb, s, hs, hp, hd⟩
        obtain ⟨g, hg, hge, hgn⟩ := skipBlanks_passes e
        exact ⟨_, .cons w ⟨hg, hge.ne_nil_of_blank hb hgn⟩ hs, (he.trans hge).trans hp, hd⟩
      · rintro ⟨s, hs, hp, hd⟩
        cases hs with
        | @cons _ _ _ g s hg hs =>
          -- The gap ends the word before it, and the word after it ends the gap.
          obtain ⟨f, hf, hfd⟩ := Passes.append_iff.1 hp
          obtain ⟨e, he, hef⟩ := Passes.append_iff.1 hf
          have hb : e.peek?.any isBlank = true := hef.blank_of_gap hg
          have hf : f.peek?.any isBlank = false := by
            apply not_blank_of_wordStart
            rw [hfd.peek? (hs.ne_nil hw.tail)]
            exact hs.head?_any hw.tail
          exact ⟨e, ⟨he, atWordEnd_of_blank hb⟩, hb, s, hs, hef.skipBlanks hg.blanks hf ▸ hfd, hd⟩

/-- Where two runs of words can both be read, one begins with all the words of the other. -/
theorem prefixes_of_eatWords? {ws vs : List String} (hw : Wordy ws) (hv : Wordy vs)
    (h : c.eatWords? ws = some d) (k : c.eatWords? vs = some e) : ws <+: vs ∨ vs <+: ws := by
  have first {c d e : Cursor} {v w : String} (hv : IsIdentifier false v)
      (hw : IsIdentifier false w) (h : c.eatWord? v = some d) (k : c.eatWord? w = some e) :
      v = w := by
    apply String.toList_inj.1
    rw [← takeWhile_of_eatWord? hv h, takeWhile_of_eatWord? hw k]
  -- Both runs are followed word by word; behind equal words they go on at the same place.
  induction ws generalizing c vs with
  | nil => exact .inl List.nil_prefix
  | cons w ws ih =>
    cases vs with
    | nil => exact .inr List.nil_prefix
    | cons v vs =>
      have hw' := hw w (by simp)
      have hv' := hv v (by simp)
      cases ws with
      | nil =>
        cases vs with
        | nil => rw [first hw' hv' h k]; simp
        | cons v' vs =>
          obtain ⟨e', hk, -, -⟩ := eatWords?_cons_eq_some_iff.1 k
          rw [first hw' hv' h hk]; simp
      | cons w' ws =>
        obtain ⟨d', hd, -, hd'⟩ := eatWords?_cons_eq_some_iff.1 h
        cases vs with
        | nil => rw [first hw' hv' hd k]; simp
        | cons v' vs =>
          obtain ⟨e', he, -, he'⟩ := eatWords?_cons_eq_some_iff.1 k
          obtain rfl := first hw' hv' hd he
          obtain rfl := Option.some.inj (hd.symm.trans he)
          simpa using ih hw.tail hv.tail hd' he'

/-! ## Keywords -/

theorem eatKeyword?_eq_some_iff :
    c.eatKeyword? k = some d ↔ ∃ s, KeywordLayout s k ∧ c.Passes s d ∧ d.AtWordEnd :=
  eatWords?_eq_some_iff k.wordy k.words_ne_nil

theorem eatKeyword?_eq_none_of_apart (h : c.eatKeyword? k = some d) (hkl : k.Apart l) :
    c.eatKeyword? l = none := by
  rw [Option.eq_none_iff_forall_ne_some]
  intro e he
  exact (prefixes_of_eatWords? k.wordy l.wordy h he).elim hkl.1 hkl.2

theorem wordStart_of_eatKeyword? (h : c.eatKeyword? k = some d) :
    c.peek?.any isWordStart = true := by
  obtain ⟨s, hs, hp, -⟩ := eatKeyword?_eq_some_iff.1 h
  rw [hp.peek? hs.starts.ne_nil]
  exact hs.head?

/-- No keyword is read where no word stands. -/
theorem eatKeyword?_eq_none_of_not_wordStart (h : c.peek?.any isWordStart = false) :
    c.eatKeyword? k = none := by
  rw [Option.eq_none_iff_forall_ne_some]
  intro d hd
  rw [wordStart_of_eatKeyword? hd] at h
  cases h

theorem eatSpacedKeyword?_eq_some_iff :
    c.eatSpacedKeyword? k = some d ↔
      (c.peek?.any isBlank = false → c.afterWord = false) ∧
        c.skipBlanks.eatKeyword? k = some d := by
  unfold eatSpacedKeyword?
  cases c.peek?.any isBlank <;> cases c.afterWord <;> simp

/-- A spaced keyword is blanks and the keyword; the blanks are needed behind a word or a string. -/
theorem eatSpacedKeyword?_eq_some_iff_layout :
    c.eatSpacedKeyword? k = some d ↔
      ∃ v s, Blanks v ∧ (v = [] → c.afterWord = false) ∧ KeywordLayout s k ∧
        c.Passes (v ++ s) d ∧ d.AtWordEnd := by
  rw [eatSpacedKeyword?_eq_some_iff, eatKeyword?_eq_some_iff]
  constructor
  · rintro ⟨ha, s, hs, hp, hd⟩
    obtain ⟨v, hv, hvp, hvn⟩ := skipBlanks_passes c
    refine ⟨v, s, hv, ?_, hs, hvp.trans hp, hd⟩
    rintro rfl
    exact ha (hvp.eq_of_nil ▸ hvn)
  · rintro ⟨v, s, hv, ha, hs, hp, hd⟩
    obtain ⟨hvc, hsc⟩ := hp.skipBlanks_append hv hs.starts
    refine ⟨fun hb => ha ?_, s, hs, hsc, hd⟩
    cases v with
    | nil => rfl
    | cons x v =>
      rw [hvc.peek? (by simp)] at hb
      simp [hv x (by simp)] at hb

theorem eatSpacedKeyword?_of_layout {v s t : List Char} (hv : Blanks v)
    (ha : v = [] → c.afterWord = false) (hs : KeywordLayout s k) (h : c.Passes (v ++ s ++ t) e)
    (ht : ∀ d : Cursor, d.Passes t e → d.AtWordEnd) :
    ∃ d, c.eatSpacedKeyword? k = some d ∧ c.Passes (v ++ s) d ∧ d.Passes t e := by
  obtain ⟨d, hd, hde⟩ := Passes.append_iff.1 h
  exact ⟨d, eatSpacedKeyword?_eq_some_iff_layout.2 ⟨v, s, hv, ha, hs, hd, ht d hde⟩, hd, hde⟩

/-- Right behind an identifier no keyword stands without blanks. -/
theorem gap_of_eatSpacedKeyword? (hc : c.AtWordEnd) (h : c.eatSpacedKeyword? k = some d) :
    ∃ v s, Gap v ∧ KeywordLayout s k ∧ c.Passes (v ++ s) d ∧ d.AtWordEnd := by
  obtain ⟨v, s, hv, -, hs, hp, hd⟩ := eatSpacedKeyword?_eq_some_iff_layout.1 h
  refine ⟨v, s, ⟨hv, ?_⟩, hs, hp, hd⟩
  rintro rfl
  exact hc.not_passes_word hp hs.head?

theorem eatSpacedKeyword?_eq_none_of_apart (h : c.eatSpacedKeyword? k = some d)
    (hkl : k.Apart l) : c.eatSpacedKeyword? l = none := by
  rw [Option.eq_none_iff_forall_ne_some]
  intro e he
  have hk := (eatSpacedKeyword?_eq_some_iff.1 h).2
  have hl := (eatSpacedKeyword?_eq_some_iff.1 he).2
  rw [eatKeyword?_eq_none_of_apart hk hkl] at hl
  cases hl

theorem eatSpacedKeyword?_eq_none_of_not_wordStart
    (h : c.skipBlanks.peek?.any isWordStart = false) :
    c.eatSpacedKeyword? k = none := by
  rw [Option.eq_none_iff_forall_ne_some]
  intro d hd
  have hk := (eatSpacedKeyword?_eq_some_iff.1 hd).2
  rw [eatKeyword?_eq_none_of_not_wordStart h] at hk
  cases hk

/-! ## The end of the text -/

/-- Nothing but blanks is left. -/
def AtTextEnd (c : Cursor) : Prop :=
  c.skipBlanks.rest = []

theorem Passes.atTextEnd {w : List Char} (h : c.Passes w d) (hw : Blanks w) (hd : d.rest = []) :
    c.AtTextEnd := by
  rw [AtTextEnd, h.skipBlanks hw (by simp [Cursor.peek?, hd]), hd]

namespace AtTextEnd

theorem atWordEnd (h : c.AtTextEnd) : c.AtWordEnd := by
  obtain ⟨w, hw, hp, -⟩ := c.skipBlanks_passes
  have hr := hp.rest
  rw [AtTextEnd] at h
  rw [h, List.append_nil] at hr
  cases w with
  | nil => simp [AtWordEnd, Cursor.peek?, hr]
  | cons x w => exact atWordEnd_of_blank (by simpa [Cursor.peek?, hr] using hw x (by simp))

theorem peek?_skipBlanks (h : c.AtTextEnd) : c.skipBlanks.peek? = none := by
  rw [AtTextEnd] at h
  rw [Cursor.peek?, h]
  rfl

theorem eatKeyword?_eq_none (h : c.AtTextEnd) : c.skipBlanks.eatKeyword? k = none :=
  eatKeyword?_eq_none_of_not_wordStart (by rw [h.peek?_skipBlanks]; rfl)

theorem eatSpacedKeyword?_eq_none (h : c.AtTextEnd) : c.eatSpacedKeyword? k = none :=
  eatSpacedKeyword?_eq_none_of_not_wordStart (by rw [h.peek?_skipBlanks]; rfl)

end AtTextEnd

end FilterQuery.Cursor
