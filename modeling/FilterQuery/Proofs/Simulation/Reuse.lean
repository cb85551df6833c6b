import FilterQuery.Proofs.Refusal.Calls
import FilterQuery.Proofs.Simulation.Nesting
import FilterQuery.Proofs.Simulation.Rules

/-!
Parsers that are used again. What stands before the place of a parser is looked at only where a call
has read something itself, so that a call reads as a fresh parser would that has only the rest of
the text. What failed calls leave open counts against the limit, and there is no other state.
-/

namespace FilterQuery

/-! ## Errors in a longer text -/

/-- The limit that a refusal for depth names is another one. -/
def Cause.withLimit (limit : Nat) : Cause → Cause
  | .groupDepth _ => .groupDepth limit
  | cause => cause

theorem Cause.withLimit_eq {cause : Cause} (h : cause.isDepth = false) (limit : Nat) :
    cause.withLimit limit = cause := by
  cases cause <;> first | rfl | cases h

/-- The same error `offset` bytes later in a text, under another limit. -/
def ParseError.relocated (offset limit : Nat) (e : ParseError) : ParseError :=
  ⟨e.cause.withLimit limit, ⟨e.span.start + offset, e.span.stop + offset⟩, e.residual⟩

/-! ## Places in a longer text -/

namespace Cursor

/-- The same place in a text with more before it, the last character first. -/
def shift (pre : List Char) (c : Cursor) : Cursor :=
  { c with past := c.past ++ pre }

variable {c d : Cursor} {pre : List Char}

@[simp] theorem shift_rest : (c.shift pre).rest = c.rest := rfl

@[simp] theorem shift_peek? : (c.shift pre).peek? = c.peek? := rfl

theorem shift_pos : (c.shift pre).pos = c.pos + byteLength pre :=
  byteLength_append c.past pre

theorem shift_move (n : Nat) : (c.shift pre).move n = (c.move n).shift pre := by
  simp only [move, shift, List.append_assoc]

theorem shift_skipWhile (p : Char → Bool) :
    (c.shift pre).skipWhile p = (c.skipWhile p).shift pre :=
  shift_move _

theorem shift_skipBlanks : (c.shift pre).skipBlanks = c.skipBlanks.shift pre :=
  shift_skipWhile isBlank

theorem shift_eat? (s : String) : (c.shift pre).eat? s = (c.eat? s).map (shift pre) := by
  rw [eat?, eat?, shift_rest, shift_move]
  split <;> rfl

theorem shift_eatWord? (w : String) :
    (c.shift pre).eatWord? w = (c.eatWord? w).map (shift pre) := by
  rw [eatWord?, eatWord?, shift_eat?]
  cases c.eat? w with
  | none => rfl
  | some d =>
    change Option.filter _ (some (d.shift pre)) = _
    rw [Option.filter_some, Option.filter_some]
    change (if (!d.peek?.any d.continuesWord) = true then some (d.shift pre) else none) = _
    split <;> rfl

theorem shift_eatWords? (ws : List String) :
    (c.shift pre).eatWords? ws = (c.eatWords? ws).map (shift pre) := by
  induction ws generalizing c with
  | nil => rfl
  | cons w ws ih =>
    cases ws with
    | nil => exact shift_eatWord? w
    | cons next ws =>
      rw [eatWords?, eatWords?, shift_eatWord?]
      cases c.eatWord? w with
      | none => rfl
      | some d =>
        simp only [Option.map_some, shift_peek?, shift_skipBlanks, ih]
        split <;> rfl

theorem shift_eatKeyword? (k : Keyword) :
    (c.shift pre).eatKeyword? k = (c.eatKeyword? k).map (shift pre) :=
  shift_eatWords? k.words

/-- Behind something, the character before the place is the same. -/
theorem shift_eatSpacedKeyword? (hc : c.past ≠ []) (k : Keyword) :
    (c.shift pre).eatSpacedKeyword? k = (c.eatSpacedKeyword? k).map (shift pre) := by
  have hafter : (c.shift pre).afterWord = c.afterWord := by
    obtain ⟨x, r, hx⟩ := List.exists_cons_of_ne_nil hc
    rw [afterWord, afterWord, shift, hx]
    rfl
  rw [eatSpacedKeyword?, eatSpacedKeyword?, hafter, shift_peek?, shift_skipBlanks,
    shift_eatKeyword?]
  split <;> rfl

theorem shift_errorSince {start : Cursor} {cause : Cause} (limit : Nat)
    (h : cause.isDepth = false) :
    (c.shift pre).errorSince (start.shift pre) cause =
      (c.errorSince start cause).relocated (byteLength pre) limit := by
  rw [errorSince, errorSince, ParseError.relocated, Cause.withLimit_eq h, shift_pos, shift_pos]
  rfl

theorem Passes.past_ne_nil {s : List Char} (h : c.Passes s d) (hs : s ≠ []) : d.past ≠ [] := by
  rw [h.past]
  simp [hs]

theorem shift_errorHere_groupDepth (limit limit' : Nat) :
    (c.shift pre).errorHere (.groupDepth limit) =
      (c.errorHere (.groupDepth limit')).relocated (byteLength pre) limit := by
  rw [errorHere, errorHere, errorSince, errorSince, ParseError.relocated, shift_pos]
  rfl

theorem shift_trailing (limit : Nat) :
    (⟨.trailing, ⟨(c.shift pre).pos, byteLength (c.shift pre).input⟩, (c.shift pre).restText⟩ :
        ParseError) =
      ParseError.relocated (byteLength pre) limit
        ⟨.trailing, ⟨c.pos, byteLength c.input⟩, c.restText⟩ := by
  have hinput : byteLength (c.shift pre).input = byteLength c.input + byteLength pre := by
    simp only [input, shift, byteLength_append, byteLength_reverse]
    omega
  rw [ParseError.relocated, shift_pos, hinput]
  rfl

/-- The first place is the second one in a longer text. -/
structure Shifted (pre : List Char) (dotted : Bool) (c c' : Cursor) : Prop where
  eq : c = c'.shift pre
  dotted : c'.dotted = dotted

/-- Something stands between what is before the shorter text and the place. -/
structure ShiftedBehind (pre : List Char) (dotted : Bool) (c c' : Cursor) : Prop
    extends Shifted pre dotted c c' where
  past : c'.past ≠ []

end Cursor

/-! ## Tokens -/

namespace Rule

open Cursor (Shifted ShiftedBehind)

/-- The first error is the second one in a longer text. -/
def Relocated (pre : List Char) (limit : Nat) (e e' : ParseError) : Prop :=
  e = e'.relocated (byteLength pre) limit

variable {pre : List Char} {dotted : Bool} {limit : Nat} {c : Cursor}

/-- A move that moves on is the same one in a longer text. -/
theorem shifted_of_map {x x' : Option Cursor} (h : x = x'.map (Cursor.shift pre))
    (hc : c.dotted = dotted) (hmove : ∀ d, x' = some d → ∃ s, s ≠ [] ∧ c.Passes s d) :
    Option.Rel (ShiftedBehind pre dotted) x x' := by
  rw [h]
  cases x' with
  | none => exact .none
  | some d =>
    obtain ⟨s, hs, hp⟩ := hmove d rfl
    exact .some ⟨⟨rfl, hp.dotted.trans hc⟩, hp.past_ne_nil hs⟩

theorem identifier_shifted :
    Agree (Relocated pre limit) 0 (Shifted pre dotted) (ShiftedBehind pre dotted) identifier
      identifier := by
  rintro _ c ⟨rfl, hc⟩
  rw [identifier, identifier, Cursor.shift_peek?, Cursor.shift_skipWhile]
  cases hx : c.peek? with
  | none => exact .error (Cursor.shift_errorSince limit rfl) rfl (Nat.le_refl 0)
  | some x =>
    simp only
    split
    · next hw =>
      have hok : identifier c = .ok (String.ofList (c.rest.takeWhile c.continuesWord),
          c.skipWhile c.continuesWord) := by
        rw [identifier, hx]
        exact if_pos hw
      obtain ⟨hi, hp, -⟩ := identifier_eq_ok_iff.1 hok
      exact .ok ⟨⟨rfl, hc⟩, hp.past_ne_nil hi.ne_nil⟩
    · exact .error (Cursor.shift_errorSince limit rfl) rfl (Nat.le_refl 0)

theorem quotedString_shifted :
    Agree (Relocated pre limit) 0 (Shifted pre dotted) (ShiftedBehind pre dotted) quotedString
      quotedString := by
  rintro _ c ⟨rfl, hc⟩
  rw [quotedString, quotedString, Cursor.shift_eat?]
  cases hx : c.eat? "'" with
  | none => exact .error (Cursor.shift_errorSince limit rfl) rfl (Nat.le_refl 0)
  | some d =>
    simp only [Option.map_some, Cursor.shift_skipWhile, Cursor.shift_eat?]
    cases hy : (d.skipWhile (· != '\'')).eat? "'" with
    | none => exact .error (Cursor.shift_errorSince limit rfl) rfl (Nat.le_refl 0)
    | some e =>
      have hp := Cursor.eat?_eq_some_iff.1 hy
      have hd : (d.skipWhile (· != '\'')).dotted = c.dotted := (Cursor.eat?_eq_some_iff.1 hx).dotted
      exact .ok ⟨⟨rfl, hp.dotted.trans (hd.trans hc)⟩, hp.past_ne_nil (by decide)⟩

theorem digits_shifted (start : Cursor) (hc : c.dotted = dotted) :
    Matches (Relocated pre limit) 0 (ShiftedBehind pre dotted)
      (digits (start.shift pre) (c.shift pre)) (digits start c) := by
  rw [digits, digits, Cursor.shift_skipWhile, Cursor.shift_rest, Cursor.shift_peek?]
  obtain ⟨s, hs, hp, hstop⟩ := Cursor.skipWhile_eq_iff.1 (Eq.refl (c.skipWhile Char.isDigit))
  simp only [hp.takeWhile hs hstop]
  split
  · exact .error (Cursor.shift_errorSince limit rfl) rfl (Nat.le_refl 0)
  · next hne =>
    split
    · exact .error (Cursor.shift_errorSince limit rfl) rfl (Nat.le_refl 0)
    · exact .ok ⟨⟨rfl, hc⟩, hp.past_ne_nil fun hnil => hne (List.isEmpty_iff.2 hnil)⟩

theorem signedDigits_shifted (hc : c.dotted = dotted) :
    Matches (Relocated pre limit) 0 (ShiftedBehind pre dotted)
      (digits (c.shift pre) (if (c.shift pre).atSign then (c.shift pre).move 1 else c.shift pre))
      (digits c (if c.atSign then c.move 1 else c)) := by
  have hsign : (c.shift pre).atSign = c.atSign := rfl
  rw [hsign, Cursor.shift_move]
  cases c.atSign with
  | true => exact digits_shifted c hc
  | false => exact digits_shifted c hc

theorem blanks_shifted (hc : c.dotted = dotted) :
    Matches (Relocated pre limit) 0 (Shifted pre dotted) (blanks (c.shift pre)) (blanks c) := by
  rw [blanks, blanks, Cursor.shift_peek?, Cursor.shift_skipBlanks]
  split
  · exact .ok ⟨rfl, hc⟩
  · exact .error (Cursor.shift_errorSince limit rfl) rfl (Nat.le_refl 0)

end Rule

/-- A text is read behind another one as it is read alone. -/
def Simulation.reuse (pre : List Char) (dotted : Bool) (limit limit' : Nat) : Simulation where
  dotted
  limit
  limit'
  Before := Cursor.Shifted pre dotted
  Behind := Cursor.ShiftedBehind pre dotted
  Error := Rule.Relocated pre limit
  dotted_behind h := ⟨h.eq ▸ h.dotted, h.dotted⟩
  skipBlanks h := ⟨h.eq ▸ Cursor.shift_skipBlanks, h.dotted⟩
  peek? h := h.eq ▸ rfl
  atSign h := h.eq ▸ rfl
  eat? hs h := by
    obtain ⟨rfl, hd⟩ := h
    exact Rule.shifted_of_map (Cursor.shift_eat? _) hd
      fun d hx => ⟨_, hs.1, Cursor.eat?_eq_some_iff.1 hx⟩
  eatKeyword? k h := by
    obtain ⟨rfl, hd⟩ := h
    refine Rule.shifted_of_map (Cursor.shift_eatKeyword? k) hd fun d hx => ?_
    obtain ⟨s, hs, hp, -⟩ := Cursor.eatKeyword?_eq_some_iff.1 hx
    exact ⟨s, hs.starts.ne_nil, hp⟩
  eatSpacedKeyword? k h := by
    obtain ⟨⟨rfl, hd⟩, hpast⟩ := h
    refine Rule.shifted_of_map (Cursor.shift_eatSpacedKeyword? hpast k) hd fun d hx => ?_
    obtain ⟨v, s, -, -, hs, hp, -⟩ := Cursor.eatSpacedKeyword?_eq_some_iff_layout.1 hx
    exact ⟨v ++ s, by simp [hs.starts.ne_nil], hp⟩
  identifier := Rule.identifier_shifted
  quotedString := Rule.quotedString_shifted
  digits h := by
    obtain ⟨rfl, hd⟩ := h
    exact Rule.digits_shifted _ hd
  signedDigits h := by
    obtain ⟨rfl, hd⟩ := h
    exact Rule.signedDigits_shifted hd
  errorSince hcause hs hc := by
    have hstart := hs.elim (·.eq) (·.eq)
    have hstop := hc.elim (·.eq) (·.eq)
    rw [hstart, hstop]
    exact Cursor.shift_errorSince limit hcause
  errorDepth h := by
    rw [h.eq]
    exact Cursor.shift_errorHere_groupDepth limit limit'
  errorTrailing h := by
    rw [h.eq]
    exact Cursor.shift_trailing limit
  blanks h := by
    obtain ⟨⟨rfl, hd⟩, -⟩ := h
    exact .inl (Rule.blanks_shifted hd)

/-! ## Calls after other calls -/

theorem Rule.rest_of_whole {α : Type} {rule : Rule α} {c e : Cursor} {a : α}
    (h : whole rule c = .ok (a, e)) : e.rest = [] := by
  rw [whole, skipBlanks_bind] at h
  obtain ⟨_, _, -, h⟩ := bind_eq_ok_iff.1 h
  obtain ⟨_, _, hf, h⟩ := bind_eq_ok_iff.1 h
  obtain ⟨-, rfl⟩ := pure_eq_ok_iff.1 h
  obtain ⟨hend, rfl⟩ := finish_eq_ok_iff.1 hf
  exact hend

namespace Parser

variable {p : Parser} {d : Dialect} {maxDepth : Nat} {text : String} {k : Call}

/-- The parser reads the text under the limit, and no more groups are open than it allows. -/
structure Reused (p : Parser) (d : Dialect) (maxDepth : Nat) (text : String) : Prop
    extends p.Reads d text where
  limit : p.maxDepth = maxDepth
  unclosed_le : p.unclosed ≤ maxDepth

/-- A parser that has read nothing, for what is left of the text and of the limit. -/
def fresh (p : Parser) : Parser :=
  ofString p.dialect p.levels p.cursor.restText

theorem fresh_cursor (h : p.cursor.dotted = p.dialect.dottedNames) :
    p.cursor = p.fresh.cursor.shift p.cursor.past := by
  have hrest : (Cursor.ofString p.cursor.restText p.dialect.dottedNames).rest = p.cursor.rest :=
    String.toList_ofList
  have hcursor : p.fresh.cursor.shift p.cursor.past =
      ⟨p.cursor.past, p.cursor.rest, p.cursor.dotted⟩ := by
    rw [h, ← hrest]
    rfl
  exact hcursor.symm

theorem whole_matches_fresh (h : p.cursor.dotted = p.dialect.dottedNames) (k : Call) :
    Rule.Matches (Rule.Relocated p.cursor.past p.maxDepth) p.levels
      (Cursor.Shifted p.cursor.past p.dialect.dottedNames) (Rule.whole (p.rule k) p.cursor)
      (Rule.whole (p.fresh.rule k) p.fresh.cursor) := by
  let S := Simulation.reuse p.cursor.past p.dialect.dottedNames p.maxDepth p.levels
  have hbefore : S.Before p.cursor.skipBlanks p.fresh.cursor.skipBlanks := by
    refine ⟨?_, rfl⟩
    rw [← Cursor.shift_skipBlanks, ← fresh_cursor h]
  have hrule : Rule.Agree S.Error p.levels S.Before S.Behind (p.rule k) (p.fresh.rule k) :=
    S.rule p p.fresh rfl rfl rfl rfl rfl k
  exact S.whole hrule hbefore

/-- What stands before the place does not matter, and what was left open counts. -/
theorem call_eq_fresh (h : p.cursor.dotted = p.dialect.dottedNames) (k : Call) :
    (p.call k).1 = (p.fresh.call k).1.mapError
      (ParseError.relocated p.cursor.pos p.maxDepth) := by
  by_cases hk : k.Allowed p.dialect
  · have hk' : k.Allowed p.fresh.dialect := hk
    rw [call_eq_run hk, call_eq_run hk']
    rcases run_cases (whole_matches_fresh h k) with ⟨a, ha, ha'⟩ | ⟨e, e', he, he', hloc⟩
    · rw [ha, ha']
      rfl
    · rw [he, he', hloc]
      rfl
  · have hk' : ¬ k.Allowed p.fresh.dialect := hk
    have herror : p.cursor.errorHere (.clauses p.dialect.name) =
        (p.fresh.cursor.errorHere (.clauses p.fresh.dialect.name)).relocated p.cursor.pos
          p.maxDepth := by
      rw [Cursor.pos, Cursor.errorHere, Cursor.errorHere, ← Cursor.shift_errorSince p.maxDepth rfl,
        ← fresh_cursor h]
      rfl
    rw [call_of_not_allowed hk, call_of_not_allowed hk', herror]
    rfl

/-- A call keeps to the text and the limit, and reads on to the end if it succeeds. -/
theorem Reused.call (hp : p.Reused d maxDepth text) (k : Call) :
    (p.call k).2.Reused d maxDepth text ∧ ∀ a, (p.call k).1 = .ok a →
      (p.call k).2.unclosed = p.unclosed ∧ (p.call k).2.cursor.rest = [] := by
  have hreads := hp.toReads.call k
  by_cases hk : k.Allowed p.dialect
  · have hmatches := whole_matches_fresh hp.dottedNames k
    rw [call_eq_run hk] at hreads ⊢
    rw [run] at hreads ⊢
    cases hx : Rule.whole (p.rule k) p.cursor with
    | ok x =>
      obtain ⟨a, e⟩ := x
      rw [hx] at hreads
      exact ⟨⟨hreads, hp.limit, hp.unclosed_le⟩, fun _ _ => ⟨rfl, Rule.rest_of_whole hx⟩⟩
    | error r =>
      rw [hx] at hreads hmatches
      obtain ⟨_, _, _, _, hunclosed⟩ := hmatches.of_error
      have hlevels : p.unclosed + p.levels = maxDepth := by
        rw [levels, hp.limit]
        exact Nat.add_sub_of_le hp.unclosed_le
      refine ⟨⟨hreads, hp.limit, ?_⟩, fun _ h => by cases h⟩
      simp only
      omega
  · rw [call_of_not_allowed hk]
    exact ⟨hp, fun _ h => by cases h⟩

theorem Reused.after (hp : p.Reused d maxDepth text) (calls : List Call) :
    (p.after calls).Reused d maxDepth text :=
  after_induction (P := fun q => q.Reused d maxDepth text) hp calls fun _ k hq => (hq.call k).1

/-- After any calls, a parser stands at a place between two parts of its text, and at most as many
groups are open as the limit allows. The next call leaves no group that was not entered; if it
succeeds it reads on to the end and leaves as many groups open. It answers what a fresh parser does
for the second part of the text, with what is left of the limit, or fails with the same error at its
place in the whole text. -/
theorem call_after_eq_fresh (d : Dialect) (maxDepth : Nat) (text : String) (calls : List Call)
    (k : Call) :
    let p := (ofString d maxDepth text).after calls
    ∃ before rest : String, text = before ++ rest ∧ p.cursor.pos = before.utf8ByteSize ∧
      p.cursor.restText = rest ∧ p.unclosed ≤ maxDepth ∧
      (∀ a, (p.call k).1 = .ok a → (p.call k).2.unclosed = p.unclosed ∧
        (p.call k).2.cursor.pos = text.utf8ByteSize) ∧
      (∀ leave stuck, Counted.ClosesOne leave → p.callCounted leave stuck k = p.call k) ∧
      (p.call k).1 = ((ofString d (maxDepth - p.unclosed) rest).call k).1.mapError
        (ParseError.relocated before.utf8ByteSize maxDepth) := by
  intro p
  have hstart : (ofString d maxDepth text).Reused d maxDepth text :=
    ⟨.ofString, rfl, Nat.zero_le maxDepth⟩
  have hp : p.Reused d maxDepth text := hstart.after calls
  obtain ⟨hnext, hok⟩ := hp.call k
  have htext : text.toList = p.cursor.past.reverse ++ p.cursor.rest := hp.input.symm
  have hpos : p.cursor.pos = (String.ofList p.cursor.past.reverse).utf8ByteSize := by
    rw [utf8ByteSize_eq_byteLength, String.toList_ofList, byteLength_reverse, Cursor.pos]
  refine ⟨.ofList p.cursor.past.reverse, p.cursor.restText, ?_, hpos, rfl, hp.unclosed_le,
    fun a ha => ⟨(hok a ha).1, ?_⟩, fun leave stuck hleave => ?_, ?_⟩
  · rw [← String.toList_inj, htext, String.toList_append, String.toList_ofList, Cursor.restText,
      String.toList_ofList]
  · have hinput := hnext.input
    rw [Cursor.input, (hok a ha).2, List.append_nil] at hinput
    rw [utf8ByteSize_eq_byteLength, ← hinput, byteLength_reverse, Cursor.pos]
  · exact callCounted_eq (hp.limit ▸ hp.unclosed_le) hleave
  · have hfresh : p.fresh = ofString d (maxDepth - p.unclosed) p.cursor.restText := by
      rw [fresh, levels, hp.dialect, hp.limit]
    rw [call_eq_fresh hp.dottedNames, hfresh, hpos, hp.limit]

/-- The first call leaves two groups open, so that the second one may open no other. -/
theorem call_after_eq_fresh_open_groups :
    let p := (ofString .expression 2 "((a = 'é' (b = 2)").after [.chain]
    p.unclosed = 2 ∧ p.callCounted Counted.leaveOne (pure []) .chain = p.call .chain ∧
      ((ofString .expression 0 "(b = 2)").call .chain).1 =
        .error ⟨.groupDepth 0, ⟨0, 0⟩, "(b = 2)"⟩ ∧
      (p.call .chain).1 = .error ⟨.groupDepth 2, ⟨11, 11⟩, "(b = 2)"⟩ := by
  intro p
  have hp : p = ⟨.expression, 2, ⟨" 'é' = a((".toList, "(b = 2)".toList, true⟩, 2⟩ := by rfl
  have hfresh : ((ofString .expression 0 "(b = 2)").call .chain).1 =
      .error ⟨.groupDepth 0, ⟨0, 0⟩, "(b = 2)"⟩ := by rfl
  obtain ⟨before, rest, -, hpos, hrest, -, -, hcounted, hcall⟩ :=
    call_after_eq_fresh .expression 2 "((a = 'é' (b = 2)" [.chain] .chain
  change p.cursor.pos = _ at hpos
  change p.cursor.restText = _ at hrest
  change (p.call .chain).1 = ((ofString .expression (2 - p.unclosed) rest).call _).1.mapError _
    at hcall
  have hunclosed : p.unclosed = 2 := by rw [hp]
  have hbefore : before.utf8ByteSize = 11 := by rw [← hpos, hp]; rfl
  have hsecond : rest = "(b = 2)" := by rw [← hrest, hp]; rfl
  refine ⟨hunclosed, hcounted _ _ Counted.leaveOne_closesOne, hfresh, ?_⟩
  rw [hcall, hunclosed, hbefore, hsecond, Nat.sub_self, hfresh]
  rfl

end Parser

end FilterQuery
