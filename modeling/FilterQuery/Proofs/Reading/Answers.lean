import FilterQuery.Proofs.Reading.Keywords

/-!
Answers of rules. Equations for a rule that begins with one of the basic rules, an answer of a rule
in two parts taken apart, and repetition without its bound. A rule is `Sound` for a layout relation
if it answers nothing but what the text before the answer's place is a layout of, and `Complete` if
it reads every layout, at least where what follows does not run together with it.
-/

namespace FilterQuery.Rule

variable {α β : Type} {c d e : Cursor}

theorem bind_eq_ok_iff {rule : Rule α} {f : α → Rule β} {b : β} :
    (rule >>= f) c = .ok (b, e) ↔ ∃ a d, rule c = .ok (a, d) ∧ f a d = .ok (b, e) := by
  change (rule c >>= fun p => f p.1 p.2) = .ok (b, e) ↔ _
  cases rule c with
  | error r => simp [bind, Except.bind]
  | ok p =>
    obtain ⟨a, d⟩ := p
    constructor
    · exact fun h => ⟨a, d, rfl, h⟩
    · rintro ⟨_, _, ⟨⟩, h⟩
      exact h

theorem bind_of_ok {rule : Rule α} {a : α} (h : rule c = .ok (a, d)) (f : α → Rule β) :
    (rule >>= f) c = f a d := by
  change (rule c >>= fun p => f p.1 p.2) = _
  rw [h]
  rfl

theorem pure_eq_ok_iff {a b : α} : (pure a : Rule α) c = .ok (b, d) ↔ a = b ∧ c = d := by
  change Except.ok (a, c) = Except.ok (b, d) ↔ _
  simp

theorem bind_pure_eq_ok_iff {rule : Rule α} {f : α → β} {b : β} :
    (rule >>= fun a => pure (f a)) c = .ok (b, e) ↔ ∃ a, rule c = .ok (a, e) ∧ f a = b := by
  simp only [bind_eq_ok_iff, pure_eq_ok_iff]
  constructor
  · rintro ⟨a, d, ha, hb, rfl⟩
    exact ⟨a, ha, hb⟩
  · rintro ⟨a, ha, hb⟩
    exact ⟨a, e, ha, hb, rfl⟩

theorem get_bind (f : Cursor → Rule β) (c : Cursor) : ((get : Rule Cursor) >>= f) c = f c c :=
  rfl

theorem set_bind (d : Cursor) (f : PUnit → Rule β) (c : Cursor) :
    ((set d : Rule PUnit) >>= f) c = f ⟨⟩ d :=
  rfl

theorem skipBlanks_bind (f : Unit → Rule β) (c : Cursor) :
    (skipBlanks >>= f) c = f () c.skipBlanks :=
  rfl

theorem attempt_bind (move? : Cursor → Option Cursor) (f : Bool → Rule β) (c : Cursor) :
    (attempt move? >>= f) c = match move? c with
      | some d => f true d
      | none => f false c := by
  change ((attempt move? c) >>= fun p => f p.1 p.2) = _
  unfold attempt
  cases move? c <;> rfl

theorem eat_bind (s : String) (f : Bool → Rule β) (c : Cursor) :
    (eat s >>= f) c = match c.eat? s with
      | some d => f true d
      | none => f false c :=
  attempt_bind _ f c

/-- A choice by a move answers what the branch that is taken answers. -/
theorem ite_attempt_eq_ok_iff {move? : Cursor → Option Cursor} {f g : Rule β} {b : β} :
    (attempt move? >>= fun moved => if moved = true then f else g) c = .ok (b, e) ↔
      (∃ d, move? c = some d ∧ f d = .ok (b, e)) ∨ move? c = none ∧ g c = .ok (b, e) := by
  rw [attempt_bind]
  cases move? c <;> simp

theorem ite_eatKeyword_eq_ok_iff {k : Keyword} {f g : Rule β} {b : β} :
    (eatKeyword k >>= fun eaten => if eaten = true then f else g) c = .ok (b, e) ↔
      (∃ d, c.eatKeyword? k = some d ∧ f d = .ok (b, e)) ∨
        c.eatKeyword? k = none ∧ g c = .ok (b, e) :=
  ite_attempt_eq_ok_iff

theorem ite_eatSpacedKeyword_eq_ok_iff {k : Keyword} {f g : Rule β} {b : β} :
    (eatSpacedKeyword k >>= fun eaten => if eaten = true then f else g) c = .ok (b, e) ↔
      (∃ d, c.eatSpacedKeyword? k = some d ∧ f d = .ok (b, e)) ∨
        c.eatSpacedKeyword? k = none ∧ g c = .ok (b, e) :=
  ite_attempt_eq_ok_iff

theorem unexpected_ne_ok {what : Expectation} {a : α} : unexpected what c ≠ .ok (a, d) := by
  simp [unexpected]

theorem failSince_ne_ok {cause : Cause} {a : α} : failSince e cause c ≠ .ok (a, d) := by
  simp [failSince]

theorem symbol_eq_ok_iff {s : String} : symbol s c = .ok ((), d) ↔ c.Passes s.toList d := by
  rw [← Cursor.eat?_eq_some_iff, symbol]
  cases c.eat? s with
  | none => simp [unexpected_ne_ok]
  | some d => simp

theorem keyword_eq_ok_iff {k : Keyword} : keyword k c = .ok ((), d) ↔ c.eatKeyword? k = some d := by
  rw [keyword]
  cases c.eatKeyword? k with
  | none => simp [unexpected_ne_ok]
  | some d => simp

theorem blanks_eq_ok_iff :
    blanks c = .ok ((), d) ↔ ∃ w, Gap w ∧ c.Passes w d ∧ d.peek?.any isBlank = false := by
  rw [blanks]
  constructor
  · intro h
    split at h
    · next hb =>
      obtain ⟨w, hw, hp, hn⟩ := c.skipBlanks_passes
      cases h
      exact ⟨w, ⟨hw, hp.ne_nil_of_blank hb hn⟩, hp, hn⟩
    · exact absurd h unexpected_ne_ok
  · rintro ⟨w, hw, hp, hn⟩
    rw [if_pos (hp.blank_of_gap hw), hp.skipBlanks hw.blanks hn]

theorem mapError_eq_ok_iff {ε δ : Type} {f : ε → δ} {r : Except ε α} {a : α} :
    r.mapError f = .ok a ↔ r = .ok a := by
  cases r with
  | error r => exact ⟨nofun, nofun⟩
  | ok b =>
    change Except.ok b = Except.ok a ↔ _
    simp

theorem opened_eq_ok_iff {rule : Rule α} {a : α} :
    opened rule c = .ok (a, d) ↔ rule c = .ok (a, d) :=
  mapError_eq_ok_iff

/-! ## Repetition -/

/-- From `c` on, `item` answers `as` one after the other, and then nothing more at `e`. -/
inductive Repeats (item : Rule (Option α)) : Cursor → List α → Cursor → Prop
  | done {c e : Cursor} : item c = .ok (none, e) → Repeats item c [] e
  | more {c d e : Cursor} {a : α} {as : List α} :
    item c = .ok (some a, d) → Repeats item d as e → Repeats item c (a :: as) e

/-- Each answer takes at least one character off the text. -/
def Shrinks (dotted : Bool) (item : Rule (Option α)) : Prop :=
  ∀ ⦃c a d⦄, c.dotted = dotted → item c = .ok (some a, d) → ∃ s, s ≠ [] ∧ c.Passes s d

theorem repeatUpTo_eq_ok_iff {dotted : Bool} {item : Rule (Option α)} (hitem : Shrinks dotted item)
    {n : Nat} (hn : c.rest.length < n) (hc : c.dotted = dotted) {before as : List α} :
    repeatUpTo item n before c = .ok (as, e) ↔
      ∃ more, as = before.reverse ++ more ∧ Repeats item c more e := by
  -- The bound stays above the number of characters that are left.
  induction n generalizing c before with
  | zero => omega
  | succ n ih =>
    have next {a : α} {d : Cursor} (ha : item c = .ok (some a, d)) :
        d.rest.length < n ∧ d.dotted = dotted := by
      obtain ⟨s, hs, hp⟩ := hitem hc ha
      have := hp.rest_length_lt hs
      exact ⟨by omega, hp.dotted.trans hc⟩
    rw [repeatUpTo]
    constructor
    · intro h
      split at h
      · next a d ha =>
        obtain ⟨more, rfl, hm⟩ := (ih (next ha).1 (next ha).2).1 h
        exact ⟨a :: more, by simp, .more ha hm⟩
      · next d ha =>
        cases h
        exact ⟨[], by simp, .done ha⟩
      · cases h
    · rintro ⟨more, rfl, hm⟩
      cases hm with
      | done ha => simp [ha]
      | more ha hm =>
        simp only [ha]
        exact (ih (next ha).1 (next ha).2).2 ⟨_, by simp, hm⟩

/-- The bound on repetitions is never reached. -/
theorem many_eq_ok_iff {dotted : Bool} {item : Rule (Option α)} (hitem : Shrinks dotted item)
    (hc : c.dotted = dotted) {as : List α} : many item c = .ok (as, e) ↔ Repeats item c as e := by
  rw [many, repeatUpTo_eq_ok_iff hitem (Nat.lt_succ_self _) hc]
  simp

/-! ## Soundness and completeness -/

/-- What the rule answers, the text that it has read is a layout of. -/
def Sound (dotted : Bool) (rule : Rule α) (Layout : List Char → α → Prop) : Prop :=
  ∀ ⦃c a e⦄, c.dotted = dotted → rule c = .ok (a, e) → ∃ s, c.Passes s e ∧ Layout s a

/-- What ends in a quote or in a parenthesis ends there; an identifier that goes on would run
together with anything else. -/
def CanEnd (s : List Char) (e : Cursor) : Prop :=
  s.getLast? = some '\'' ∨ s.getLast? = some ')' ∨ e.AtWordEnd

theorem CanEnd.atWordEnd {s : List Char} {p : Char → Bool} (h : CanEnd s e)
    (hp : ∀ {x}, p x = true → isWordChar x = true) (hs : s.getLast?.any p = true) :
    e.AtWordEnd := by
  obtain ⟨x, hx, hpx⟩ := (Option.any_eq_true _ _).1 hs
  have hw := hp hpx
  rcases h with h | h | h
  · cases hx.symm.trans h
    cases hw
  · cases hx.symm.trans h
    cases hw
  · exact h

theorem CanEnd.append {s t : List Char} (h : CanEnd (s ++ t) e) (ht : t ≠ []) : CanEnd t e := by
  obtain ⟨x, hx⟩ : ∃ x, t.getLast? = some x := ⟨_, List.getLast?_eq_some_getLast ht⟩
  rw [CanEnd, List.getLast?_append, hx] at h
  rwa [CanEnd, hx]

/-- The rule reads every layout that can end where it ends. -/
def Complete (dotted : Bool) (rule : Rule α) (Layout : List Char → α → Prop)
    (Ends : List Char → Cursor → Prop) : Prop :=
  ∀ ⦃c s a e⦄, c.dotted = dotted → c.Passes s e → Layout s a → Ends s e → rule c = .ok (a, e)

theorem Complete.mono {rule : Rule α} {dotted : Bool} {Layout : List Char → α → Prop}
    {P Q : List Char → Cursor → Prop} (h : Complete dotted rule Layout P)
    (hpq : ∀ s e, Q s e → P s e) : Complete dotted rule Layout Q :=
  fun _ _ _ _ hc hp hs hq => h hc hp hs (hpq _ _ hq)

/-! ## Items with commas between them -/

section Commas

variable {dotted : Bool} {element : Rule α} {item : Rule (Option α)} {Item : List Char → α → Prop}

/-- `item` answers an element behind a comma. -/
def Continues (item : Rule (Option α)) (element : Rule α) : Prop :=
  ∀ c a e, item c = .ok (some a, e) ↔
    ∃ d, c.skipBlanks.eat? "," = some d ∧ element d.skipBlanks = .ok (a, e)

/-- What is read of the text with an element: a comma, blanks around it, and the element. -/
theorem Continues.reads (hitem : Continues item element) (hsound : Sound dotted element Item)
    {a : α} (h : item c = .ok (some a, e)) (hc : c.dotted = dotted) :
    ∃ v w t, Blanks v ∧ Blanks w ∧ Item t a ∧ c.Passes (v ++ ',' :: w ++ t) e := by
  obtain ⟨d, hd, he⟩ := (hitem c a e).1 h
  obtain ⟨v, hv, hp⟩ := Cursor.skipBlanks_comma_iff.1 hd
  obtain ⟨w, hw, hwp, -⟩ := d.skipBlanks_passes
  have hcw := hp.trans hwp
  obtain ⟨t, ht, hlay⟩ := hsound (hcw.dotted.trans hc) he
  exact ⟨v, w, t, hv, hw, hlay, by simpa using hcw.trans ht⟩

theorem Continues.shrinks (hitem : Continues item element) (hsound : Sound dotted element Item) :
    Shrinks dotted item := by
  intro c a e hc h
  obtain ⟨v, w, t, -, -, -, hp⟩ := hitem.reads hsound h hc
  exact ⟨_, by simp, hp⟩

/-- Items that are read behind one that is a layout make up one layout with it. -/
theorem Repeats.commaLayout (hitem : Continues item element) (hsound : Sound dotted element Item)
    {as : List α} (h : Repeats item c as e) (hc : c.dotted = dotted) {s : List Char} {a : α}
    (hs : Item s a) :
    ∃ t d, CommaLayout Item (s ++ t) (a :: as) ∧ c.Passes t d ∧ item d = .ok (none, e) := by
  induction h generalizing s a with
  | @done c e hn => exact ⟨[], c, by simpa using .one hs, .refl c, hn⟩
  | @more c f e b bs hb _ ih =>
    obtain ⟨v, w, t, hv, hw, hlay, hp⟩ := hitem.reads hsound hb hc
    obtain ⟨u, g, hu, hpu, hn⟩ := ih (hp.dotted.trans hc) hlay
    refine ⟨_, g, ?_, hp.trans hpu, hn⟩
    simpa using CommaLayout.cons hs hv hw hu

/-- Every layout of items is read up to where no comma follows. -/
theorem repeats_of_commaLayout (hitem : Continues item element)
    (hcomplete : Complete dotted element Item fun _ e => e.AtWordEnd)
    (hstarts : ∀ s a, Item s a → Starts s) {s : List Char} {as : List α}
    (h : CommaLayout Item s as) (hc : c.dotted = dotted) (hp : c.Passes s d) (hd : d.AtWordEnd)
    (hn : item d = .ok (none, e)) :
    ∃ a bs b, as = a :: bs ∧ element c = .ok (a, b) ∧ b.dotted = dotted ∧ Repeats item b bs e := by
  induction h generalizing c with
  | one hs => exact ⟨_, [], d, rfl, hcomplete hc hp hs hd, hp.dotted.trans hc, .done hn⟩
  | @cons s v w t a as hs hv hw ht ih =>
    obtain ⟨g, hg, hgd⟩ := Cursor.Passes.append_iff.1 hp
    rw [List.append_assoc] at hg
    obtain ⟨b, hb, hbg⟩ := Cursor.Passes.append_iff.1 hg
    -- From `c` the text goes on with the item to `b`, with the comma to `f`, with blanks to `g`.
    have hcomma : b.Passes ((v ++ [',']) ++ w) g := by simpa using hbg
    obtain ⟨f, hbf, hfg⟩ := Cursor.Passes.append_iff.1 hcomma
    obtain ⟨a', bs, b', rfl, hg', -, hr⟩ := ih (hg.dotted.trans hc) hgd
    have hb' : b.AtWordEnd := hbg.atWordEnd hv (by decide)
    have hgn : g.peek?.any isBlank = false := by
      rw [hgd.peek? (ht.starts hstarts).ne_nil]
      exact (ht.starts hstarts).not_blank
    refine ⟨a, a' :: bs, b, rfl, hcomplete hc hb hs hb', hb.dotted.trans hc, .more ?_ hr⟩
    refine (hitem b a' b').2 ⟨f, Cursor.skipBlanks_comma_iff.2 ⟨v, hv, hbf⟩, ?_⟩
    rwa [hfg.skipBlanks hw hgn]

end Commas

end FilterQuery.Rule
