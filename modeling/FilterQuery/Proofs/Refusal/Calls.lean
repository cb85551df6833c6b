import FilterQuery.Proofs.Reading.Calls
import FilterQuery.Proofs.Refusal.Clauses

/-!
Where calls of a parser refuse the text. An error of a fresh parser begins no later than where the
text stopped being one that can be completed; an error of any parser shows a part of the text and
quotes all that is left from there on.
-/

namespace FilterQuery

/-! ## Whole texts -/

namespace Rule

variable {α : Type} {c : Cursor} {r : Refusal} {dotted : Bool} {rule : Rule α}
  {Layout : List Char → α → Prop}

/-- What is left behind a value, blanks apart, is refused as a whole, or at a parenthesis. -/
theorem finish_located (h : finish c = .error r) : r.LocatedAt c.skipBlanks := by
  obtain ⟨w, -, hp, hblank⟩ := c.skipBlanks_passes
  rw [finish] at h
  simp only at h
  split at h
  · cases h
  · next hend =>
    split at h
    · next d hd =>
      cases h
      have hclose := Cursor.eat?_eq_some_iff.1 hd
      exact (Refusal.Shows.of_errorSince hclose hclose.sameText).located fun hk => by cases hk
    · next hd =>
      cases h
      generalize c.skipBlanks = d at *
      obtain ⟨e, he, -⟩ := d.passes_all
      have hstop : byteLength d.input = e.pos := by
        rw [he.pos, Cursor.input, byteLength_append, byteLength_reverse, Cursor.pos]
      refine ⟨⟨rfl, rfl, ⟨_, e, he, hstop⟩, .rfl⟩, fun _ => ⟨rfl, ?_⟩⟩
      obtain ⟨x, t, hx⟩ := List.exists_cons_of_ne_nil (by simpa [Cursor.atEnd] using hend)
      have hpeek : d.peek? = some x := by rw [Cursor.peek?, hx]; rfl
      refine ⟨x, hpeek, by simpa [hpeek] using hblank, ?_⟩
      rintro rfl
      have hclose : d.eat? ")" = some _ := Cursor.eat?_eq_some_iff.2 (.move hx)
      rw [hclose] at hd
      cases hd

theorem Placed.prepend {d : Cursor} {w : List Char} (h : Placed Layout d r) (hw : Blanks w)
    (hp : c.Passes w d) : Placed Layout c r := by
  cases h with
  | within hv hbehind hs =>
    exact .within (hw.append hv) (by simpa using hbehind.prepend hp) hs
  | behind hv hs hw' hq hr =>
    exact .behind (hw.append hv) hs hw' (by simpa using hp.trans hq) hr

theorem whole_places (hsound : Sound dotted rule Layout) (hrule : Places dotted rule Layout) :
    Places dotted (whole rule) Layout := by
  intro c r hc h
  obtain ⟨v, hv, hvp, -⟩ := c.skipBlanks_passes
  have hd := hvp.dotted.trans hc
  rw [whole, skipBlanks_bind, bind_eq_error_iff] at h
  rcases h with h | ⟨a, f, ha, h⟩
  · exact (hrule hd h).prepend hv hvp
  · obtain ⟨s, hs, hlay⟩ := hsound hd ha
    obtain ⟨w, hw, hwp, -⟩ := f.skipBlanks_passes
    rcases bind_eq_error_iff.1 h with h | ⟨_, _, _, h⟩
    · exact .behind hv hlay hw ((hvp.trans hs).trans hwp) (finish_located h)
    · exact absurd h pure_ne_error

theorem Placed.located (h : Placed Layout c r) : ∃ s p, c.Passes s p ∧ r.LocatedAt p := by
  cases h with
  | within _ hbehind _ =>
    obtain ⟨p, hp, hbreak⟩ := hbehind
    exact ⟨_, p, hp, hbreak.located⟩
  | behind _ _ _ hp hr => exact ⟨_, _, hp, hr⟩

/-- Up to where the refusal begins, the text can be completed to a layout with blanks around it. -/
theorem Placed.completion (h : Placed Layout c r) :
    ∃ t p x v s w a, c.Passes t p ∧ r.error.span.start = p.pos ∧ t ++ x = v ++ s ++ w ∧
      Blanks v ∧ Layout s a ∧ Blanks w := by
  cases h with
  | @within v s hv hbehind hs =>
    obtain ⟨p, hp, hbreak⟩ := hbehind
    obtain ⟨x, a, hx⟩ := hs
    exact ⟨v ++ s, p, x, v, s ++ x, [], a, hp, hbreak.start, by simp, hv, hx, .nil⟩
  | @behind v s w a p hv hs hw hp hr =>
    exact ⟨v ++ s ++ w, p, [], v, s, w, a, hp, hr.start, by simp, hv, hs, hw⟩

/-- What is left over stands behind a whole value. -/
theorem Placed.leftover (h : Placed Layout c r) (hleft : r.error.cause.isLeftover = true) :
    ∃ v s w a p, Blanks v ∧ Layout s a ∧ Blanks w ∧ c.Passes (v ++ s ++ w) p ∧
      r.error.span.start = p.pos := by
  cases h with
  | within _ hbehind _ =>
    obtain ⟨p, -, hbreak⟩ := hbehind
    rw [hbreak.within] at hleft
    cases hleft
  | behind hv hs hw hp hr => exact ⟨_, _, _, _, _, hv, hs, hw, hp, hr.start⟩

end Rule

/-! ## Fresh parsers -/

/-- A fresh text is what has been read of it and what has not. -/
theorem Cursor.Passes.ofString_parts {text : String} {dotted : Bool} {t : List Char} {q : Cursor}
    (h : (Cursor.ofString text dotted).Passes t q) :
    text = .ofList t ++ q.restText ∧ (String.ofList t).utf8ByteSize = q.pos := by
  have hrest : text.toList = t ++ q.rest := h.rest
  have hpos : q.pos = byteLength t := h.pos.trans (Nat.zero_add _)
  constructor
  · rw [← String.toList_inj, hrest, String.toList_append, String.toList_ofList, Cursor.restText,
      String.toList_ofList]
  · rw [utf8ByteSize_eq_byteLength, String.toList_ofList, hpos]

namespace Parser

variable {p : Parser} {k : Call} {e : ParseError}

theorem rule_places :
    Rule.Places p.dialect.dottedNames (p.rule k) (k.Layout p.dialect p.levels) := by
  cases k with
  | chain => exact Rule.chain_timely.places
  | clauseSet => exact Rule.clauseSet_places
  | literal => exact Rule.literal_timely.places

theorem whole_rule_places :
    Rule.Places p.dialect.dottedNames (Rule.whole (p.rule k)) (k.Layout p.dialect p.levels) :=
  Rule.whole_places rule_sound rule_places

/-- No error begins later than where the text stopped being one that can be completed: what stands
before it is accepted with some text behind it. -/
theorem exists_completion_of_error (d : Dialect) (maxDepth : Nat) (k : Call) (hk : k.Allowed d)
    (text : String) (e : ParseError) (h : ((ofString d maxDepth text).call k).1 = .error e) :
    ∃ before after x : String, text = before ++ after ∧ before.utf8ByteSize = e.span.start ∧
      ∃ a, ((ofString d maxDepth (before ++ x)).call k).1 = .ok a := by
  have hp : k.Allowed (ofString d maxDepth text).dialect := hk
  rw [call_eq_run hp] at h
  obtain ⟨r, hr, rfl⟩ := run_eq_error_iff.1 h
  obtain ⟨t, q, x, v, s, w, a, hq, hstart, ht, hv, hs, hw⟩ := (whole_rule_places rfl hr).completion
  refine ⟨.ofList t, .ofList q.rest, .ofList x, ?_, ?_, a, (call_ofString_eq_ok_iff hk).2 ?_⟩
  · have hrest : text.toList = t ++ q.rest := hq.rest
    rw [← String.toList_inj, hrest]
    simp
  · have hpos : q.pos = byteLength t := by
      rw [hq.pos]
      exact Nat.zero_add _
    rw [utf8ByteSize_eq_byteLength, String.toList_ofList, hstart, hpos]
  · exact ⟨v, s, w, by simpa using ht, hv, hs, hw⟩

/-- A list that breaks off behind a comma, in a negated leaf of the last clause. -/
theorem exists_completion_of_broken_list :
    let e : ParseError := ⟨.expected .listElement, ⟨31, 31⟩, "?)"⟩
    ((ofString .clause 64 "SELECT a WHERE NOT b IN ('é', ?)").call .clauseSet).1 = .error e ∧
    ∃ before after x : String, "SELECT a WHERE NOT b IN ('é', ?)" = before ++ after ∧
      before.utf8ByteSize = 31 ∧
      ∃ a, ((ofString .clause 64 (before ++ x)).call .clauseSet).1 = .ok a := by
  intro e
  have h : ((ofString .clause 64 "SELECT a WHERE NOT b IN ('é', ?)").call .clauseSet).1 =
      .error e := by rfl
  exact ⟨h, exists_completion_of_error .clause 64 .clauseSet (fun _ => rfl) _ e h⟩

/-- Where an error says that something is left over, the text before it is accepted on its own. -/
theorem accepts_before_leftover (d : Dialect) (maxDepth : Nat) (k : Call) (hk : k.Allowed d)
    (text : String) (e : ParseError) (h : ((ofString d maxDepth text).call k).1 = .error e)
    (hleft : e.kind = .trailingInput ∨ e.cause = .unmatchedParenthesis ∨
      ∃ l : Keyword, e.cause = .misplacedClause l) :
    ∃ before after : String, text = before ++ after ∧ before.utf8ByteSize = e.span.start ∧
      ∃ a, ((ofString d maxDepth before).call k).1 = .ok a := by
  have hp : k.Allowed (ofString d maxDepth text).dialect := hk
  rw [call_eq_run hp] at h
  obtain ⟨r, hr, rfl⟩ := run_eq_error_iff.1 h
  have hcause : r.error.cause.isLeftover = true := by
    rcases hleft with hkind | hclose | ⟨l, hclause⟩
    · exact Cause.isLeftover_of_kind hkind
    · rw [hclose]
      rfl
    · rw [hclause]
      rfl
  obtain ⟨v, s, w, a, q, hv, hs, hw, hq, hstart⟩ := (whole_rule_places rfl hr).leftover hcause
  obtain ⟨htext, hsize⟩ := hq.ofString_parts
  exact ⟨_, _, htext, hsize.trans hstart.symm, a,
    (call_ofString_eq_ok_iff hk).2 ⟨v, s, w, String.toList_ofList, hv, hs, hw⟩⟩

/-- A clause is written a second time behind the last one. -/
theorem accepts_before_repeated_clause :
    let e : ParseError := ⟨.misplacedClause .where_, ⟨33, 33⟩, "WHERE c = 1"⟩
    ((ofString .clause 64 "SELECT a WHERE b = 'é' LIMIT 1 \tWHERE c = 1").call .clauseSet).1 =
      .error e ∧
    ∃ before after : String,
      "SELECT a WHERE b = 'é' LIMIT 1 \tWHERE c = 1" = before ++ after ∧
      before.utf8ByteSize = 33 ∧ ∃ a, ((ofString .clause 64 before).call .clauseSet).1 = .ok a := by
  intro e
  have h : ((ofString .clause 64 "SELECT a WHERE b = 'é' LIMIT 1 \tWHERE c = 1").call
      .clauseSet).1 = .error e := by rfl
  exact ⟨h, accepts_before_leftover .clause 64 .clauseSet (fun _ => rfl) _ e h
    (.inr (.inr ⟨_, rfl⟩))⟩

/-! ## Parsers after some calls -/

/-- The parser reads the text in the dialect. -/
structure Reads (p : Parser) (d : Dialect) (text : String) : Prop where
  dialect : p.dialect = d
  input : p.cursor.input = text.toList
  dotted : p.cursor.dotted = d.dottedNames

variable {d : Dialect} {maxDepth : Nat} {text : String}

theorem Reads.ofString : (ofString d maxDepth text).Reads d text :=
  ⟨rfl, rfl, rfl⟩

theorem Reads.of_sameText {q : Parser} (h : p.Reads d text) (hd : q.dialect = p.dialect)
    (hc : q.cursor.SameText p.cursor) : q.Reads d text :=
  ⟨hd.trans h.dialect, hc.input.trans h.input, hc.dotted.trans h.dotted⟩

theorem Reads.dottedNames (h : p.Reads d text) : p.cursor.dotted = p.dialect.dottedNames := by
  rw [h.dotted, h.dialect]

theorem run_dialect {α : Type} {rule : Rule α} : (p.run rule).2.dialect = p.dialect := by
  rw [run]
  cases rule p.cursor <;> rfl

/-- A call that fails locates its error on the text that is left. -/
theorem call_located (hp : p.Reads d text) (h : (p.call k).1 = .error e) :
    ∃ s q r, p.cursor.Passes s q ∧ Refusal.LocatedAt r q ∧ r.error = e := by
  by_cases hk : k.Allowed p.dialect
  · rw [call_eq_run hk] at h
    obtain ⟨r, hr, rfl⟩ := run_eq_error_iff.1 h
    obtain ⟨s, q, hq, hloc⟩ := (whole_rule_places hp.dottedNames hr).located
    exact ⟨s, q, r, hq, hloc, rfl⟩
  · rw [call_of_not_allowed hk] at h
    cases h
    exact ⟨[], p.cursor, _, .refl _, (Refusal.BreaksAt.of_errorHere .rfl rfl).located, rfl⟩

/-- No call leaves the text. -/
theorem Reads.call (hp : p.Reads d text) (k : Call) : (p.call k).2.Reads d text := by
  by_cases hk : k.Allowed p.dialect
  · rw [call_eq_run hk]
    apply hp.of_sameText run_dialect
    rw [run]
    cases hr : Rule.whole (p.rule k) p.cursor with
    | error r =>
      obtain ⟨s, q, hq, hloc⟩ := (whole_rule_places hp.dottedNames hr).located
      exact hloc.sameText.trans hq.sameText
    | ok a =>
      obtain ⟨s, hs⟩ := Rule.whole_passes rule_sound hp.dottedNames hr
      exact hs.sameText
  · rwa [call_of_not_allowed hk]

theorem Reads.after (hp : p.Reads d text) (calls : List Call) : (p.after calls).Reads d text :=
  after_induction (P := fun q => q.Reads d text) hp calls fun _ k hq => hq.call k

end Parser

/-- The part of the text that a refusal shows, with what stands before it and behind it. -/
theorem Refusal.Shows.parts {r : Refusal} {q : Cursor} {text : String} (h : r.Shows q)
    (hq : q.input = text.toList) :
    ∃ before shown rest : String, text = before ++ shown ++ rest ∧
      r.error.span = ⟨before.utf8ByteSize, (before ++ shown).utf8ByteSize⟩ ∧
      r.error.residual = shown ++ rest := by
  obtain ⟨s, e, hs, hstop⟩ := h.stop
  refine ⟨q.pastText, .ofList s, e.restText, ?_, ?_, ?_⟩
  · rw [String.append_assoc, ← hs.restText, Cursor.pastText_append_restText hq]
  · rw [← hs.pastText, Cursor.utf8ByteSize_pastText, Cursor.utf8ByteSize_pastText, ← h.start,
      ← hstop]
  · rw [h.residual, hs.restText]

/-- A span between two places of a text covers what stands between them. -/
theorem Span.slice_append (before shown rest : String) :
    Span.slice ⟨before.utf8ByteSize, (before ++ shown).utf8ByteSize⟩ (before ++ shown ++ rest) =
      shown := by
  simp only [Span.slice, utf8ByteSize_eq_byteLength, String.toList_append (s := before ++ shown)]
  rw [cutAt?_byteLength]
  simp only [Option.bind_some, String.toList_append, cutAt?_byteLength, String.ofList_toList]

/-- Every error of a parser after any calls shows a part of the text and quotes the text from there
on; trailing input is all that is left, from its first character on. -/
theorem Parser.error_shows_text (d : Dialect) (maxDepth : Nat) (text : String) (calls : List Call)
    (k : Call) (e : ParseError)
    (h : (((ofString d maxDepth text).after calls).call k).1 = .error e) :
    e.span.start ≤ e.span.stop ∧ e.span.stop ≤ text.utf8ByteSize ∧
    (∃ before shown rest : String, text = before ++ shown ++ rest ∧
      e.span = ⟨before.utf8ByteSize, (before ++ shown).utf8ByteSize⟩ ∧
      e.span.length? = some shown.utf8ByteSize ∧ e.span.slice text = shown ∧
      e.residual = shown ++ rest) ∧
    (e.kind = .trailingInput → e.span.stop = text.utf8ByteSize ∧
      ∃ x, e.residual.toList.head? = some x ∧ isBlank x = false ∧ x ≠ ')') := by
  have hp : ((ofString d maxDepth text).after calls).Reads d text := Reads.ofString.after calls
  obtain ⟨s, q, r, hq, hloc, rfl⟩ := call_located hp h
  have hinput : q.input = text.toList := hq.sameText.input.trans hp.input
  obtain ⟨before, shown, rest, ht, hspan, hres⟩ := hloc.toShows.parts hinput
  have hsize : text.utf8ByteSize =
      before.utf8ByteSize + shown.utf8ByteSize + rest.utf8ByteSize := by
    rw [ht, String.utf8ByteSize_append, String.utf8ByteSize_append]
  have hstop : (before ++ shown).utf8ByteSize = before.utf8ByteSize + shown.utf8ByteSize :=
    String.utf8ByteSize_append
  refine ⟨?_, ?_, ⟨before, shown, rest, ht, hspan, ?_, ?_, hres⟩, fun hk => ?_⟩
  · simp only [hspan]
    omega
  · simp only [hspan]
    omega
  · rw [hspan, Span.length?, if_pos (by simp only; omega)]
    simp only [Option.some.injEq]
    omega
  · rw [hspan, ht]
    exact Span.slice_append before shown rest
  · obtain ⟨hend, x, hx, hleft⟩ := hloc.trailing hk
    refine ⟨?_, x, ?_, hleft⟩
    · rw [hend, hinput, utf8ByteSize_eq_byteLength]
    · rw [hloc.residual, Cursor.restText, String.toList_ofList]
      exact hx

/-- The first call stops behind a parenthesis that closes no group, and the second call has text
left behind a condition. -/
theorem Parser.error_shows_text_second_call :
    let p := (ofString .expression 64 "(a = 'é') ) b IS NULL c").after [.chain]
    let e : ParseError := ⟨.trailing, ⟨23, 24⟩, "c"⟩
    (p.call .chain).1 = .error e ∧ ∃ before shown rest : String,
      "(a = 'é') ) b IS NULL c" = before ++ shown ++ rest ∧ before.utf8ByteSize = 23 ∧
        e.span.slice "(a = 'é') ) b IS NULL c" = shown ∧ "c" = shown ++ rest := by
  intro p e
  have hp : p = ⟨.expression, 64, ⟨") )'é' = a(".toList, " b IS NULL c".toList, true⟩, 0⟩ := by rfl
  have h : (p.call .chain).1 = .error e := by
    rw [hp]
    rfl
  obtain ⟨-, -, ⟨before, shown, rest, ht, hspan, -, hslice, hres⟩, -⟩ :=
    error_shows_text .expression 64 _ [.chain] .chain e h
  exact ⟨h, before, shown, rest, ht, (congrArg Span.start hspan).symm, hslice, hres⟩

end FilterQuery
