import FilterQuery.Proofs.Layout.Calendar
import FilterQuery.Proofs.Reading.Tokens
import FilterQuery.Reading.LiteralRule

/-!
Literals and lists are read exactly where their layouts stand. A scalar that ends in a word
character can only be read where no identifier goes on behind it; a list can be read anywhere. Dates
and timestamps are quoted bodies, and differ in how a body is given its value.
-/

namespace FilterQuery

open Calendar

/-! ## Bodies of dates and timestamps -/

/-- The value of a body, with the cause `malformed` where it has no parts, and `missing` where
nothing has these parts. -/
def bodyValue {P : Type} (parts? : Option P) (value? : P → Option Literal)
    (malformed missing : Cause) : Except Cause Literal :=
  match parts? with
  | none => .error malformed
  | some p =>
    match value? p with
    | none => .error missing
    | some l => .ok l

section

variable {P : Type} {parts? : Option P} {value? : P → Option Literal} {malformed missing : Cause}

theorem bodyValue_eq_ok_iff {l : Literal} :
    bodyValue parts? value? malformed missing = .ok l ↔
      ∃ p, parts? = some p ∧ value? p = some l := by
  cases parts? with
  | none => simp [bodyValue]
  | some p => cases hv : value? p <;> simp [bodyValue, hv]

theorem bodyValue_eq_error {cause : Cause}
    (h : bodyValue parts? value? malformed missing = .error cause) :
    cause = malformed ∨ cause = missing := by
  rw [bodyValue.eq_def] at h
  split at h
  · exact .inl (Except.error.inj h).symm
  · split at h
    · exact .inr (Except.error.inj h).symm
    · cases h

end

def dateBody (body : String) : Except Cause Literal :=
  bodyValue (Fixed.dateParts? body.toList) (fun p => Literal.date? p.year p.month p.day)
    (.malformedDate body) (.missingDate body)

def timestampBody (body : String) : Except Cause Literal :=
  bodyValue (Fixed.timestampParts? body.toList)
    (fun p => (Timestamp.ofParts? p.year p.month p.day p.hour p.minute p.second p.micros
      p.precision).map .timestamp)
    (.malformedTimestamp body) (.missingTimestamp body)

theorem dateBody_eq_ok_iff {body : String} {l : Literal} :
    dateBody body = .ok l ↔ ∃ d, l = .date d ∧ DateLayout body.toList d := by
  simp only [dateBody, bodyValue_eq_ok_iff, Literal.date?, Option.map_eq_some_iff, dateLayout_iff]
  constructor
  · rintro ⟨p, hp, d, hd, rfl⟩
    exact ⟨d, rfl, p, hp, hd⟩
  · rintro ⟨d, rfl, p, hp, hd⟩
    exact ⟨p, hp, d, hd, rfl⟩

theorem timestampBody_eq_ok_iff {body : String} {l : Literal} :
    timestampBody body = .ok l ↔ ∃ t, l = .timestamp t ∧ TimestampLayout body.toList t := by
  simp only [timestampBody, bodyValue_eq_ok_iff, Option.map_eq_some_iff, timestampLayout_iff]
  constructor
  · rintro ⟨p, hp, t, ht, rfl⟩
    exact ⟨t, rfl, p, hp, ht⟩
  · rintro ⟨t, rfl, p, hp, ht⟩
    exact ⟨p, hp, t, ht, rfl⟩

namespace Rule

variable {c d e : Cursor} {dotted : Bool}

theorem quotedBody_eq_ok_iff {what : Expectation} {t : String} :
    quotedBody what c = .ok (t, e) ↔
      ∃ w, Blanks w ∧ '\'' ∉ t.toList ∧ c.Passes (w ++ quoted t.toList) e := by
  rw [quotedBody, skipBlanks_bind, get_bind]
  constructor
  · intro h
    split at h
    · obtain ⟨w, hw, hp, -⟩ := c.skipBlanks_passes
      obtain ⟨ht, hq⟩ := quotedString_eq_ok_iff.1 h
      exact ⟨w, hw, ht, hp.trans hq⟩
    · exact absurd h unexpected_ne_ok
  · rintro ⟨w, hw, ht, h⟩
    obtain ⟨-, hq⟩ := h.skipBlanks_append hw (.cons rfl _)
    have hc : c.skipBlanks.peek? = some '\'' := hq.peek? (by simp [quoted])
    rw [if_pos hc]
    exact quotedString_eq_ok_iff.2 ⟨ht, hq⟩

/-- Answers a value, or refuses all that was read since `start`. -/
def answerSince (start : Cursor) : Except Cause Literal → Rule Literal
  | .ok l => pure l
  | .error cause => failSince start cause

/-- A quoted body, behind a keyword that began at `start`, and its value. -/
def bodyLiteral (what : Expectation) (value : String → Except Cause Literal) (start : Cursor) :
    Rule Literal :=
  quotedBody what >>= fun body => answerSince start (value body)

theorem dateLiteral_eq (start : Cursor) :
    dateLiteral start = bodyLiteral .quotedDate dateBody start := by
  refine congrArg (quotedBody .quotedDate >>= ·) (funext fun body => ?_)
  rw [dateBody]
  cases Fixed.dateParts? body.toList with
  | none => rfl
  | some p =>
    simp only [bodyValue, Literal.date?]
    cases Date.of? p.year p.month p.day <;> rfl

theorem timestampLiteral_eq (start : Cursor) :
    timestampLiteral start = bodyLiteral .quotedTimestamp timestampBody start := by
  refine congrArg (quotedBody .quotedTimestamp >>= ·) (funext fun body => ?_)
  rw [timestampBody]
  cases Fixed.timestampParts? body.toList with
  | none => rfl
  | some p =>
    simp only [bodyValue]
    cases Timestamp.ofParts? p.year p.month p.day p.hour p.minute p.second p.micros
      p.precision <;> rfl

section

variable {start : Cursor} {what : Expectation} {value : String → Except Cause Literal} {l : Literal}

theorem answerSince_eq_ok_iff {x : Except Cause Literal} :
    answerSince start x c = .ok (l, e) ↔ x = .ok l ∧ c = e := by
  cases x with
  | error cause => exact iff_of_false failSince_ne_ok nofun
  | ok m => rw [answerSince, pure_eq_ok_iff, Except.ok.injEq]

theorem bodyLiteral_of_quoted {w : List Char} {body : String} (hw : Blanks w)
    (hb : '\'' ∉ body.toList) (h : c.Passes (w ++ quoted body.toList) e) :
    bodyLiteral what value start c = answerSince start (value body) e :=
  bind_of_ok (quotedBody_eq_ok_iff.2 ⟨w, hw, hb, h⟩) _

theorem bodyLiteral_eq_ok_iff :
    bodyLiteral what value start c = .ok (l, e) ↔
      ∃ w body, Blanks w ∧ '\'' ∉ body.toList ∧ c.Passes (w ++ quoted body.toList) e ∧
        value body = .ok l := by
  constructor
  · intro h
    obtain ⟨body, d, hbody, h⟩ := bind_eq_ok_iff.1 h
    obtain ⟨hvalue, rfl⟩ := answerSince_eq_ok_iff.1 h
    obtain ⟨w, hw, hq, hp⟩ := quotedBody_eq_ok_iff.1 hbody
    exact ⟨w, body, hw, hq, hp, hvalue⟩
  · rintro ⟨w, body, hw, hq, hp, hvalue⟩
    rw [bodyLiteral_of_quoted hw hq hp]
    exact answerSince_eq_ok_iff.2 ⟨hvalue, rfl⟩

theorem dateLiteral_eq_ok_iff :
    dateLiteral start c = .ok (l, e) ↔
      ∃ w s d, l = .date d ∧ Blanks w ∧ DateLayout s d ∧ c.Passes (w ++ quoted s) e := by
  simp only [dateLiteral_eq, bodyLiteral_eq_ok_iff, dateBody_eq_ok_iff]
  constructor
  · rintro ⟨w, body, hw, -, hp, d, rfl, hs⟩
    exact ⟨w, body.toList, d, rfl, hw, hs, hp⟩
  · rintro ⟨w, s, d, rfl, hw, hs, hp⟩
    exact ⟨w, .ofList s, by simpa using ⟨hw, hs.quote_notMem, hp, hs⟩⟩

theorem timestampLiteral_eq_ok_iff :
    timestampLiteral start c = .ok (l, e) ↔
      ∃ w s t, l = .timestamp t ∧ Blanks w ∧ TimestampLayout s t ∧ c.Passes (w ++ quoted s) e := by
  simp only [timestampLiteral_eq, bodyLiteral_eq_ok_iff, timestampBody_eq_ok_iff]
  constructor
  · rintro ⟨w, body, hw, -, hp, t, rfl, hs⟩
    exact ⟨w, body.toList, t, rfl, hw, hs, hp⟩
  · rintro ⟨w, s, t, rfl, hw, hs, hp⟩
    exact ⟨w, .ofList s, by simpa using ⟨hw, hs.quote_notMem, hp, hs⟩⟩

end

/-! ## Scalars -/

theorem atInteger_of_layout {s : List Char} {n : Int64} (hs : IntegerLayout s n)
    (h : c.Passes s e) : c.atInteger = true ∧ c.peek?.any isWordStart = false := by
  cases hs with
  | bare hne hn _ =>
    obtain ⟨x, hx, hd⟩ := (Option.any_eq_true _ _).1 (hn.head? hne)
    have hc : c.peek? = some x := by rw [h.peek? hne, hx]
    simp [Cursor.atInteger, hc, hd, isWordStart_eq_false_of_isDigit hd]
  | minus hne hn _ =>
    obtain ⟨b, hb, hbe⟩ := Cursor.Passes.cons_iff.1 h
    have hc : c.peek? = some '-' := hb.peek? (by simp)
    have hr : c.peekNext? = b.peek? := by rw [Cursor.peekNext?, hb.rest]; rfl
    have hd := hn.head? hne
    rw [← hbe.peek? hne, ← hr] at hd
    refine ⟨?_, by rw [hc]; rfl⟩
    rw [Cursor.atInteger, atSign_eq_true_iff.2 ⟨hc, hd⟩, Bool.or_true]

theorem integer_of_layout {s : List Char} {n : Int64} (hs : IntegerLayout s n)
    (h : c.Passes s e) (hend : CanEnd s e) : c.atInteger = true ∧ integer c = .ok (n, e) := by
  have hwe := (hend.atWordEnd isWordChar_of_isDigit hs.getLast?).not_wordChar
  exact ⟨(atInteger_of_layout hs h).1, integer_eq_ok_iff.2 ⟨s, hs, h, hwe⟩⟩

theorem atInteger_eq_false {x : Char} (h : c.peek? = some x) (hx : x.isDigit = false)
    (hm : x ≠ '-') : c.atInteger = false := by
  simp [Cursor.atInteger, Cursor.atSign, h, hx, hm]

theorem text_of_layout {t : String} (ht : '\'' ∉ t.toList) (h : c.Passes (quoted t.toList) e) :
    c.peek? = some '\'' ∧ c.atInteger = false ∧ quotedString c = .ok (t, e) := by
  have hc : c.peek? = some '\'' := h.peek? (by simp [quoted])
  exact ⟨hc, atInteger_eq_false hc rfl (by decide), quotedString_eq_ok_iff.2 ⟨ht, h⟩⟩

/-- Where a word begins, neither an integer nor a text does. -/
theorem not_number_of_wordStart (h : c.peek?.any isWordStart = true) :
    c.atInteger = false ∧ c.peek? ≠ some '\'' := by
  obtain ⟨x, hx, hw⟩ := (Option.any_eq_true _ _).1 h
  constructor
  · apply atInteger_eq_false hx
    · rw [Bool.eq_false_iff]
      intro hd
      rw [isWordStart_eq_false_of_isDigit hd] at hw
      cases hw
    · rintro rfl
      cases hw
  · rw [hx]
    rintro ⟨⟩
    cases hw

theorem eatKeyword?_of_layout {s t : List Char} {k : Keyword} (hk : KeywordLayout s k)
    (h : c.Passes (s ++ t) e) (ht : ∀ d : Cursor, d.Passes t e → d.AtWordEnd) :
    ∃ d, c.eatKeyword? k = some d ∧ d.Passes t e := by
  obtain ⟨d, hd, hde⟩ := Cursor.Passes.append_iff.1 h
  exact ⟨d, Cursor.eatKeyword?_eq_some_iff.2 ⟨s, hk, hd, ht d hde⟩, hde⟩

theorem scalar_sound : Sound dotted scalar ScalarLayout := by
  intro c l e _ h
  rw [scalar, get_bind] at h
  simp only [ite_eatKeyword_eq_ok_iff] at h
  rcases h with ⟨d, hd, h⟩ | ⟨-, ⟨d, hd, h⟩ | ⟨-, h⟩⟩
  · obtain ⟨k, hk, hkp, -⟩ := Cursor.eatKeyword?_eq_some_iff.1 hd
    obtain ⟨w, s, date, rfl, hw, hs, hp⟩ := dateLiteral_eq_ok_iff.1 h
    exact ⟨_, by simpa using hkp.trans hp, .date hk hw hs⟩
  · obtain ⟨k, hk, hkp, -⟩ := Cursor.eatKeyword?_eq_some_iff.1 hd
    obtain ⟨w, s, t, rfl, hw, hs, hp⟩ := timestampLiteral_eq_ok_iff.1 h
    exact ⟨_, by simpa using hkp.trans hp, .timestamp hk hw hs⟩
  · split at h
    · obtain ⟨n, hn, rfl⟩ := bind_pure_eq_ok_iff.1 h
      obtain ⟨s, hs, hp, -⟩ := integer_eq_ok_iff.1 hn
      exact ⟨s, hp, .integer hs⟩
    · split at h
      · obtain ⟨t, ht, rfl⟩ := bind_pure_eq_ok_iff.1 h
        obtain ⟨hq, hp⟩ := quotedString_eq_ok_iff.1 ht
        exact ⟨_, hp, .text hq⟩
      · obtain ⟨b?, d, hb, h⟩ := bind_eq_ok_iff.1 h
        cases b? with
        | none => exact absurd h unexpected_ne_ok
        | some b =>
          obtain ⟨rfl, rfl⟩ := pure_eq_ok_iff.1 h
          obtain ⟨k, hk, hp, -⟩ := Cursor.eatKeyword?_eq_some_iff.1 (boolean?_eq_ok_some_iff.1 hb)
          exact ⟨k, hp, .boolean b hk⟩

theorem scalar_complete : Complete dotted scalar ScalarLayout CanEnd := by
  intro c s l e _ h hs hend
  -- The keywords of dates and timestamps end at blanks or at a quote.
  have bodyEnd {w t : List Char} (hw : Blanks w) :
      ∀ d : Cursor, d.Passes (w ++ quoted t) e → d.AtWordEnd :=
    fun d hd => hd.atWordEnd hw (by decide)
  rw [scalar, get_bind]
  simp only [ite_eatKeyword_eq_ok_iff]
  cases hs with
  | date hk hw hs =>
    rw [List.append_assoc] at h
    obtain ⟨d, hd, hp⟩ := eatKeyword?_of_layout hk h (bodyEnd hw)
    exact .inl ⟨d, hd, dateLiteral_eq_ok_iff.2 ⟨_, _, _, rfl, hw, hs, hp⟩⟩
  | timestamp hk hw hs =>
    rw [List.append_assoc] at h
    obtain ⟨d, hd, hp⟩ := eatKeyword?_of_layout hk h (bodyEnd hw)
    refine .inr ⟨Cursor.eatKeyword?_eq_none_of_apart hd (by decide), .inl ⟨d, hd, ?_⟩⟩
    exact timestampLiteral_eq_ok_iff.2 ⟨_, _, _, rfl, hw, hs, hp⟩
  | integer hs =>
    obtain ⟨hc, hn⟩ := integer_of_layout hs h hend
    have hnone (k : Keyword) : c.eatKeyword? k = none :=
      Cursor.eatKeyword?_eq_none_of_not_wordStart (atInteger_of_layout hs h).2
    refine .inr ⟨hnone _, .inr ⟨hnone _, ?_⟩⟩
    rw [if_pos hc, bind_of_ok hn]
    rfl
  | text ht =>
    obtain ⟨hc, hi, hq⟩ := text_of_layout ht h
    have hnone (k : Keyword) : c.eatKeyword? k = none :=
      Cursor.eatKeyword?_eq_none_of_not_wordStart (by rw [hc]; rfl)
    refine .inr ⟨hnone _, .inr ⟨hnone _, ?_⟩⟩
    rw [hi, if_neg Bool.false_ne_true, if_pos hc, bind_of_ok hq]
    rfl
  | boolean b hk =>
    have hwe := hend.atWordEnd id hk.getLast?
    have hd := Cursor.eatKeyword?_eq_some_iff.2 ⟨s, hk, h, hwe⟩
    have hb : boolean? c = .ok (some b, e) := boolean?_eq_ok_some_iff.2 hd
    obtain ⟨hi, hq⟩ := not_number_of_wordStart (Cursor.wordStart_of_eatKeyword? hd)
    refine .inr ⟨Cursor.eatKeyword?_eq_none_of_apart hd (by cases b <;> decide),
      .inr ⟨Cursor.eatKeyword?_eq_none_of_apart hd (by cases b <;> decide), ?_⟩⟩
    rw [hi, if_neg Bool.false_ne_true, if_neg hq, bind_of_ok hb]
    rfl

/-! ## Lists -/

theorem listElement_sound : Sound dotted listElement ElementLayout := by
  intro c l e _ h
  rw [listElement, get_bind] at h
  split at h
  · obtain ⟨n, hn, rfl⟩ := bind_pure_eq_ok_iff.1 h
    obtain ⟨s, hs, hp, -⟩ := integer_eq_ok_iff.1 hn
    exact ⟨s, hp, .integer hs, rfl⟩
  · split at h
    · obtain ⟨t, ht, rfl⟩ := bind_pure_eq_ok_iff.1 h
      obtain ⟨hq, hp⟩ := quotedString_eq_ok_iff.1 ht
      exact ⟨_, hp, .text hq, rfl⟩
    · cases hk : scalarKeywords.find? fun k => (c.eatKeyword? k).isSome with
      | none =>
        rw [hk] at h
        exact absurd h unexpected_ne_ok
      | some k =>
        rw [hk] at h
        exact absurd h failSince_ne_ok

theorem listElement_complete : Complete dotted listElement ElementLayout CanEnd := by
  rintro c s l e _ h ⟨hs, hl⟩ hend
  rw [listElement, get_bind]
  cases hs with
  | integer hs =>
    obtain ⟨hc, hn⟩ := integer_of_layout hs h hend
    rw [if_pos hc, bind_of_ok hn]
    rfl
  | text ht =>
    obtain ⟨hc, hi, hq⟩ := text_of_layout ht h
    rw [hi, if_neg Bool.false_ne_true, if_pos hc, bind_of_ok hq]
    rfl
  | boolean | date | timestamp => cases hl

theorem listContinuation_continues : Continues listContinuation listElement := by
  intro c l e
  rw [listContinuation, skipBlanks_bind, eat_bind]
  cases c.skipBlanks.eat? "," with
  | some d =>
    simp only [if_true, skipBlanks_bind, bind_eq_ok_iff, pure_eq_ok_iff, Option.some.injEq,
      exists_eq_left']
    constructor
    · rintro ⟨a, f, h, rfl, rfl⟩
      exact h
    · exact fun h => ⟨_, _, h, rfl, rfl⟩
  | none =>
    simp only [Bool.false_eq_true, if_false, eat_bind]
    cases c.skipBlanks.eat? ")" <;> simp [unexpected_ne_ok, pure_eq_ok_iff]

theorem listContinuation_eq_ok_none_iff :
    listContinuation c = .ok (none, e) ↔ ∃ v, Blanks v ∧ c.Passes (v ++ [')']) e := by
  rw [← Cursor.skipBlanks_close_iff, listContinuation, skipBlanks_bind, eat_bind]
  cases hcomma : c.skipBlanks.eat? "," with
  | some d =>
    -- Where a comma stands, the list is not closed.
    have hclose : c.skipBlanks.eat? ")" = none := by
      apply Cursor.eat?_eq_none_of_peek? (x := ')') rfl
      rw [(Cursor.eat?_eq_some_iff.1 hcomma).peek? (by decide)]
      decide
    simp only [if_true, skipBlanks_bind, bind_eq_ok_iff, pure_eq_ok_iff, hclose]
    simp
  | none =>
    simp only [Bool.false_eq_true, if_false, eat_bind]
    cases c.skipBlanks.eat? ")" <;> simp [unexpected_ne_ok, pure_eq_ok_iff]

theorem listContinuation_shrinks : Shrinks dotted listContinuation :=
  listContinuation_continues.shrinks listElement_sound

theorem listLiteral_sound : Sound dotted listLiteral ListLayout := by
  intro c ls e hc h
  rw [listLiteral] at h
  obtain ⟨⟨⟩, d, hd, h⟩ := bind_eq_ok_iff.1 h
  have hopen : c.Passes ['('] d := symbol_eq_ok_iff.1 hd
  rw [skipBlanks_bind, eat_bind] at h
  cases hclose : d.skipBlanks.eat? ")" with
  | some f =>
    rw [hclose] at h
    obtain ⟨rfl, rfl⟩ := pure_eq_ok_iff.1 h
    obtain ⟨w, hw, hp⟩ := Cursor.skipBlanks_close_iff.1 hclose
    exact ⟨_, hopen.trans hp, .empty hw⟩
  | none =>
    simp only [hclose, Bool.false_eq_true, if_false] at h
    obtain ⟨l, f, hl, h⟩ := bind_eq_ok_iff.1 h
    obtain ⟨ls, hls, rfl⟩ := bind_pure_eq_ok_iff.1 h
    obtain ⟨v, hv, hvp, -⟩ := d.skipBlanks_passes
    have hdv := hvp.dotted.trans (hopen.dotted.trans hc)
    obtain ⟨s, hs, hlay⟩ := listElement_sound hdv hl
    have hdf := hs.dotted.trans hdv
    have hr := (many_eq_ok_iff listContinuation_shrinks hdf).1 hls
    obtain ⟨t, b, ht, htp, hb⟩ :=
      hr.commaLayout listContinuation_continues listElement_sound hdf hlay
    obtain ⟨w, hw, hwp⟩ := listContinuation_eq_ok_none_iff.1 hb
    refine ⟨_, ?_, .items hv ht hw⟩
    simpa using (((hopen.trans hvp).trans hs).trans htp).trans hwp

theorem listLiteral_complete : Complete dotted listLiteral ListLayout fun _ _ => True := by
  intro c s ls e hc h hs _
  have start {v t : List Char} (hp : c.Passes ('(' :: v ++ t) e) :
      ∃ d, symbol "(" c = .ok ((), d) ∧ d.Passes (v ++ t) e ∧ d.dotted = dotted := by
    obtain ⟨d, hd, hde⟩ := Cursor.Passes.cons_iff.1 hp
    exact ⟨d, symbol_eq_ok_iff.2 hd, hde, hd.dotted.trans hc⟩
  rw [listLiteral]
  cases hs with
  | empty hw =>
    obtain ⟨d, hd, hde, -⟩ := start h
    rw [bind_of_ok hd, skipBlanks_bind, eat_bind, Cursor.skipBlanks_close_iff.2 ⟨_, hw, hde⟩]
    rfl
  | @items v s w ls hv hs hw =>
    rw [List.append_assoc, List.append_assoc] at h
    obtain ⟨d, hd, hde, hdd⟩ := start h
    have hstarts : Starts s := hs.starts fun _ _ h => h.scalar.starts
    obtain ⟨hdb, hbe⟩ := hde.skipBlanks_append hv (hstarts.append _)
    obtain ⟨g, hg, hge⟩ := Cursor.Passes.append_iff.1 hbe
    have hend : g.AtWordEnd := hge.atWordEnd hw (by decide)
    have hn : listContinuation g = .ok (none, e) := listContinuation_eq_ok_none_iff.2 ⟨w, hw, hge⟩
    obtain ⟨l, ms, b, rfl, hl, hbd, hr⟩ := repeats_of_commaLayout listContinuation_continues
      (listElement_complete.mono fun _ _ h => .inr (.inr h)) (fun _ _ h => h.scalar.starts) hs
      (hdb.dotted.trans hdd) hg hend hn
    have hclose : d.skipBlanks.eat? ")" = none := by
      apply Cursor.eat?_eq_none_of_peek? (x := ')') rfl
      rw [hg.peek? hstarts.ne_nil]
      exact hs.head?_ne_close
    rw [bind_of_ok hd, skipBlanks_bind, eat_bind, hclose]
    simp only [Bool.false_eq_true, if_false, bind_of_ok hl,
      bind_of_ok ((many_eq_ok_iff listContinuation_shrinks hbd).2 hr)]
    rfl

/-! ## Literals -/

theorem literal_sound : Sound dotted literal LiteralLayout := by
  intro c l e hc h
  rw [literal, get_bind] at h
  split at h
  · obtain ⟨ls, hls, rfl⟩ := bind_pure_eq_ok_iff.1 h
    obtain ⟨s, hp, hs⟩ := listLiteral_sound hc hls
    exact ⟨s, hp, .list hs⟩
  · obtain ⟨s, hp, hs⟩ := scalar_sound hc h
    exact ⟨s, hp, .scalar hs⟩

theorem literal_complete : Complete dotted literal LiteralLayout CanEnd := by
  intro c s l e hc h hs hend
  rw [literal, get_bind]
  cases hs with
  | scalar hs =>
    have hopen : c.peek? ≠ some '(' := by
      obtain ⟨x, hx, hw⟩ := (Option.any_eq_true _ _).1 hs.head?
      rw [h.peek? hs.starts.ne_nil, hx]
      rintro ⟨⟩
      cases hw
    rw [if_neg hopen]
    exact scalar_complete hc h hs hend
  | @list ls hs =>
    have hopen : c.peek? = some '(' := by rw [h.peek? hs.starts.ne_nil, hs.head?]
    have hls : listLiteral c = .ok (ls, e) := listLiteral_complete hc h hs trivial
    rw [if_pos hopen, bind_of_ok hls]
    rfl

end Rule

end FilterQuery
