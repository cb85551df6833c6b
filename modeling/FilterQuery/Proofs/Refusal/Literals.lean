import FilterQuery.Proofs.Reading.Literals
import FilterQuery.Proofs.Refusal.Places

/-!
Where literals and lists break off. The body of a date or a timestamp can be written anew behind the
keyword, an element behind the comma, and a list can be closed where its element or its comma is
missing.
-/

namespace FilterQuery

open Calendar

/-! ## Completions -/

/-- An integer completes every text that a literal may follow. -/
theorem ScalarLayout.one : ScalarLayout ['1'] (.integer 1) :=
  .integer (.bare (by simp) ⟨by simp, rfl⟩ rfl)

theorem ElementLayout.one : ElementLayout ['1'] (.integer 1) :=
  ⟨.one, rfl⟩

theorem exists_dateLayout : ∃ s d, DateLayout s d :=
  ⟨"2000-01-01".toList, _, dateLayout_iff.2 ⟨⟨2000, 1, 1⟩, rfl, rfl⟩⟩

theorem exists_timestampLayout : ∃ s t, TimestampLayout s t :=
  ⟨"2000-01-01 00:00:00".toList, _, timestampLayout_iff.2 ⟨⟨⟨2000, 1, 1⟩, 0, 0, 0, 0, 0⟩, rfl, rfl⟩⟩

theorem Begins.scalar : Begins ScalarLayout [] :=
  ⟨['1'], _, .one⟩

theorem Begins.date {k w : List Char} (hk : KeywordLayout k .date) (hw : Blanks w) :
    Begins ScalarLayout (k ++ w) := by
  obtain ⟨s, d, hs⟩ := exists_dateLayout
  exact ⟨quoted s, _, .date hk hw hs⟩

theorem Begins.timestamp {k w : List Char} (hk : KeywordLayout k .timestamp) (hw : Blanks w) :
    Begins ScalarLayout (k ++ w) := by
  obtain ⟨s, t, hs⟩ := exists_timestampLayout
  exact ⟨quoted s, _, .timestamp hk hw hs⟩

namespace Rule

variable {c d start : Cursor} {dotted : Bool} {r : Refusal}

/-! ## Dates and timestamps -/

theorem quotedBody_breaksBehind {what : Expectation} (h : quotedBody what c = .error r) :
    ∃ w, Blanks w ∧ r.BreaksBehind c w := by
  obtain ⟨w, hw, hp, -⟩ := c.skipBlanks_passes
  refine ⟨w, hw, ?_⟩
  rw [quotedBody, skipBlanks_bind, get_bind] at h
  split at h
  · exact (quotedString_putsBack h).breaksAt.behind hp
  · exact (unexpected_breaksAt h).behind hp

/-- A literal of a keyword breaks off at its body; a body that is no value of its kind is refused
with the keyword. -/
theorem bodyLiteral_breaksBehind {what : Expectation} {value : String → Except Cause Literal}
    {k : List Char} (hk : start.Passes k c)
    (hvalue : ∀ ⦃body cause⦄, value body = .error cause → cause.isLeftover = false)
    (h : bodyLiteral what value start c = .error r) :
    r.BreaksAt start ∨ ∃ w, Blanks w ∧ r.BreaksBehind c w := by
  rcases bind_eq_error_iff.1 h with h | ⟨body, d, hbody, h⟩
  · exact .inr (quotedBody_breaksBehind h)
  · obtain ⟨w, -, -, hp⟩ := quotedBody_eq_ok_iff.1 hbody
    cases hv : value body with
    | ok l =>
      rw [hv] at h
      exact absurd h pure_ne_error
    | error cause =>
      rw [hv] at h
      exact .inl (failSince_breaksAt (hk.trans hp) (hvalue hv) h)

theorem dateLiteral_breaksBehind {k : List Char} (hk : start.Passes k c)
    (h : dateLiteral start c = .error r) :
    r.BreaksAt start ∨ ∃ w, Blanks w ∧ r.BreaksBehind c w := by
  rw [dateLiteral_eq] at h
  refine bodyLiteral_breaksBehind hk (fun body cause hcause => ?_) h
  rcases bodyValue_eq_error hcause with rfl | rfl <;> rfl

theorem timestampLiteral_breaksBehind {k : List Char} (hk : start.Passes k c)
    (h : timestampLiteral start c = .error r) :
    r.BreaksAt start ∨ ∃ w, Blanks w ∧ r.BreaksBehind c w := by
  rw [timestampLiteral_eq] at h
  refine bodyLiteral_breaksBehind hk (fun body cause hcause => ?_) h
  rcases bodyValue_eq_error hcause with rfl | rfl <;> rfl

/-! ## Scalars -/

theorem scalar_timely : Timely dotted scalar ScalarLayout := by
  intro c r _ h
  rw [scalar, get_bind] at h
  simp only [ite_eatKeyword_eq_error_iff] at h
  rcases h with ⟨d, hd, h⟩ | ⟨-, ⟨d, hd, h⟩ | ⟨-, h⟩⟩
  · obtain ⟨k, hk, hkp, -⟩ := Cursor.eatKeyword?_eq_some_iff.1 hd
    rcases dateLiteral_breaksBehind hkp h with hc | ⟨w, hw, hbehind⟩
    · exact ⟨[], hc.here, .scalar⟩
    · exact ⟨k ++ w, hbehind.prepend hkp, .date hk hw⟩
  · obtain ⟨k, hk, hkp, -⟩ := Cursor.eatKeyword?_eq_some_iff.1 hd
    rcases timestampLiteral_breaksBehind hkp h with hc | ⟨w, hw, hbehind⟩
    · exact ⟨[], hc.here, .scalar⟩
    · exact ⟨k ++ w, hbehind.prepend hkp, .timestamp hk hw⟩
  · refine ⟨[], Refusal.BreaksAt.here ?_, .scalar⟩
    split at h
    · exact (integer_putsBack (bind_pure_eq_error_iff.1 h)).breaksAt
    · split at h
      · exact (quotedString_putsBack (bind_pure_eq_error_iff.1 h)).breaksAt
      · rcases bind_eq_error_iff.1 h with h | ⟨b?, d, hb, h⟩
        · exact absurd h boolean?_ne_error
        · cases b? with
          | some b => exact absurd h pure_ne_error
          | none =>
            obtain rfl := boolean?_eq_ok_none hb
            exact unexpected_breaksAt h

/-! ## Lists -/

theorem listElement_breaksAt (h : listElement c = .error r) : r.BreaksAt c := by
  rw [listElement, get_bind] at h
  split at h
  · exact (integer_putsBack (bind_pure_eq_error_iff.1 h)).breaksAt
  · split at h
    · exact (quotedString_putsBack (bind_pure_eq_error_iff.1 h)).breaksAt
    · cases hk : scalarKeywords.find? fun k => (c.eatKeyword? k).isSome with
      | some k =>
        rw [hk] at h
        exact failSince_breaksAt (.refl c) rfl h
      | none =>
        rw [hk] at h
        exact unexpected_breaksAt h

theorem listContinuation_breaksAtComma : BreaksAtComma listContinuation := by
  intro c r h
  rw [listContinuation, skipBlanks_bind, eat, ite_attempt_eq_error_iff] at h
  rcases h with ⟨d, hd, h⟩ | ⟨-, h⟩
  · obtain ⟨v, hv, hp⟩ := Cursor.skipBlanks_comma_iff.1 hd
    obtain ⟨w, hw, hwp, -⟩ := d.skipBlanks_passes
    rw [skipBlanks_bind] at h
    have hbreak := listElement_breaksAt (bind_pure_eq_error_iff.1 h)
    refine ⟨v, hv, .inr ⟨w, hw, ?_⟩⟩
    simpa using hbreak.behind (hp.trans hwp)
  · obtain ⟨v, hv, hvp, -⟩ := c.skipBlanks_passes
    rw [eat, ite_attempt_eq_error_iff] at h
    rcases h with ⟨d, -, h⟩ | ⟨-, h⟩
    · exact absurd h pure_ne_error
    · exact ⟨v, hv, .inl ((unexpected_breaksAt h).behind hvp)⟩

theorem listLiteral_timely : Timely dotted listLiteral ListLayout := by
  intro c r hc h
  rw [listLiteral, bind_eq_error_iff] at h
  rcases h with h | ⟨⟨⟩, d, hd, h⟩
  · exact ⟨[], (symbol_putsBack h).breaksAt.here, "()".toList, _, .empty .nil⟩
  · have hopen : c.Passes ['('] d := symbol_eq_ok_iff.1 hd
    obtain ⟨v, hv, hvp, -⟩ := d.skipBlanks_passes
    have hov := hopen.trans hvp
    rw [skipBlanks_bind, eat, ite_attempt_eq_error_iff] at h
    rcases h with ⟨e, -, h⟩ | ⟨-, h⟩
    · exact absurd h pure_ne_error
    · rcases bind_eq_error_iff.1 h with h | ⟨l, f, hl, h⟩
      · exact ⟨_, (listElement_breaksAt h).behind hov, [')'], _, .empty hv⟩
      · obtain ⟨s, hs, hlay⟩ := listElement_sound (hov.dotted.trans hc) hl
        have hos := hov.trans hs
        have hf : f.dotted = dotted := hos.dotted.trans hc
        have hstop := (many_eq_error_iff listContinuation_shrinks hf).1
          (bind_pure_eq_error_iff.1 h)
        obtain ⟨t, x, ls, hbehind, hlist⟩ := hstop.commaLayout listContinuation_continues
          listElement_sound listContinuation_breaksAtComma .one hf hlay
        refine ⟨_, hbehind.prepend hos, x ++ [')'], l :: ls, ?_⟩
        simpa using ListLayout.items hv hlist .nil

theorem literal_timely : Timely dotted literal LiteralLayout := by
  intro c r hc h
  rw [literal, get_bind] at h
  split at h
  · obtain ⟨s, hbehind, x, ls, hx⟩ := listLiteral_timely hc (bind_pure_eq_error_iff.1 h)
    exact ⟨s, hbehind, x, .list ls, .list hx⟩
  · obtain ⟨s, hbehind, x, l, hx⟩ := scalar_timely hc h
    exact ⟨s, hbehind, x, l, .scalar hx⟩

end Rule

end FilterQuery
