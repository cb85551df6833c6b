import FilterQuery.Proofs.Reading.Refusals
import FilterQuery.Proofs.Reading.Tokens

/-!
Places of refusals. Every refusal shows a part of the text that begins at some place `p`: its span
goes from `p` to a later place, and it quotes all that is left from `p` on. A rule that breaks off
at `p` has not read all of its value, or refuses the value itself; only behind a whole value can
there be text that is left over. The tokens break off at the place where they begin, and the cursor
goes back to it unless a string has no end or a number is out of range.
-/

namespace FilterQuery

/-! ## Places on one text -/

/-- Two places on one text, read with the same rule for names. -/
structure Cursor.SameText (c d : Cursor) : Prop where
  input : c.input = d.input
  dotted : c.dotted = d.dotted

namespace Cursor

variable {c d e : Cursor} {s : List Char}

theorem SameText.rfl : c.SameText c :=
  ⟨Eq.refl _, Eq.refl _⟩

theorem SameText.symm (h : c.SameText d) : d.SameText c :=
  ⟨h.input.symm, h.dotted.symm⟩

theorem SameText.trans (h : c.SameText d) (k : d.SameText e) : c.SameText e :=
  ⟨h.input.trans k.input, h.dotted.trans k.dotted⟩

theorem Passes.sameText (h : c.Passes s d) : d.SameText c := by
  refine ⟨?_, h.dotted⟩
  rw [Cursor.input, Cursor.input, h.past, h.rest]
  simp

theorem Passes.pos (h : c.Passes s d) : d.pos = c.pos + byteLength s := by
  rw [Cursor.pos, Cursor.pos, h.past, byteLength_append, byteLength_reverse, Nat.add_comm]

/-- The text before the place. -/
def pastText (c : Cursor) : String :=
  String.ofList c.past.reverse

theorem utf8ByteSize_pastText (c : Cursor) : c.pastText.utf8ByteSize = c.pos := by
  rw [pastText, utf8ByteSize_eq_byteLength, String.toList_ofList, byteLength_reverse, pos]

theorem pastText_append_restText {text : String} (h : c.input = text.toList) :
    c.pastText ++ c.restText = text := by
  rw [← String.toList_inj, ← h, pastText, restText, input]
  simp

theorem Passes.pastText (h : c.Passes s d) : d.pastText = c.pastText ++ String.ofList s := by
  rw [Cursor.pastText, Cursor.pastText, h.past, List.reverse_append, List.reverse_reverse,
    String.ofList_append]

theorem Passes.restText (h : c.Passes s d) : c.restText = String.ofList s ++ d.restText := by
  rw [Cursor.restText, Cursor.restText, h.rest, String.ofList_append]

end Cursor

/-! ## What a refusal shows -/

/-- The text goes on behind all that could be read. -/
def Cause.isLeftover : Cause → Bool
  | .unmatchedParenthesis | .misplacedClause _ | .trailing => true
  | .reported kind _ => kind = .trailingInput
  | _ => false

theorem Cause.isLeftover_of_kind {x : Cause} (h : x.kind = .trailingInput) :
    x.isLeftover = true := by
  cases x <;> simp_all [kind, isLeftover]

/-- The refusal shows the text from `p` on. -/
structure Refusal.Shows (r : Refusal) (p : Cursor) : Prop where
  start : r.error.span.start = p.pos
  residual : r.error.residual = p.restText
  stop : ∃ s q, p.Passes s q ∧ r.error.span.stop = q.pos
  sameText : r.stop.SameText p

/-- The refusal is located at `p`. Trailing input is all that is left, and it begins with no blank
and no closing parenthesis. -/
structure Refusal.LocatedAt (r : Refusal) (p : Cursor) : Prop extends r.Shows p where
  trailing : r.error.kind = .trailingInput → r.error.span.stop = byteLength p.input ∧
    ∃ x, p.peek? = some x ∧ isBlank x = false ∧ x ≠ ')'

/-- The refusal breaks off, at `p`, what was being read. -/
structure Refusal.BreaksAt (r : Refusal) (p : Cursor) : Prop extends r.Shows p where
  within : r.error.cause.isLeftover = false

/-- The refusal breaks off behind `s` what was being read from `c` on. -/
def Refusal.BreaksBehind (r : Refusal) (c : Cursor) (s : List Char) : Prop :=
  ∃ p, c.Passes s p ∧ r.BreaksAt p

namespace Refusal

variable {r : Refusal} {c d p : Cursor} {s t : List Char}

theorem Shows.located (h : r.Shows p) (hk : r.error.kind ≠ .trailingInput) : r.LocatedAt p :=
  ⟨h, fun hk' => absurd hk' hk⟩

theorem BreaksAt.located (h : r.BreaksAt p) : r.LocatedAt p := by
  refine h.toShows.located fun hk => ?_
  have hleft := Cause.isLeftover_of_kind hk
  rw [h.within] at hleft
  cases hleft

theorem BreaksAt.here (h : r.BreaksAt c) : r.BreaksBehind c [] :=
  ⟨c, .refl c, h⟩

theorem BreaksAt.behind (h : r.BreaksAt d) (hp : c.Passes s d) : r.BreaksBehind c s :=
  ⟨d, hp, h⟩

theorem BreaksBehind.prepend (h : r.BreaksBehind d s) (hp : c.Passes t d) :
    r.BreaksBehind c (t ++ s) := by
  obtain ⟨p, hs, hbreak⟩ := h
  exact ⟨p, hp.trans hs, hbreak⟩

theorem BreaksBehind.sameText (h : r.BreaksBehind c s) : r.stop.SameText c := by
  obtain ⟨p, hp, hbreak⟩ := h
  exact hbreak.sameText.trans hp.sameText

/-- A refusal does not show how many groups are open. -/
theorem BreaksAt.unclosed (h : r.BreaksAt p) (n : Nat) :
    Refusal.BreaksAt { r with unclosed := n } p :=
  ⟨⟨h.start, h.residual, h.stop, h.sameText⟩, h.within⟩

theorem BreaksBehind.unclosed (h : r.BreaksBehind c s) (n : Nat) :
    Refusal.BreaksBehind { r with unclosed := n } c s := by
  obtain ⟨p, hp, hbreak⟩ := h
  exact ⟨p, hp, hbreak.unclosed n⟩

/-- An error over what was read since `start` shows the text from there on. -/
theorem Shows.of_errorSince {start stop : Cursor} {cause : Cause} {n : Nat}
    (hp : start.Passes s c) (hstop : stop.SameText start) :
    Refusal.Shows ⟨c.errorSince start cause, stop, n⟩ start :=
  ⟨rfl, rfl, ⟨s, c, hp, rfl⟩, hstop⟩

theorem BreaksAt.of_errorSince {start stop : Cursor} {cause : Cause} {n : Nat}
    (hp : start.Passes s c) (hstop : stop.SameText start) (hcause : cause.isLeftover = false) :
    Refusal.BreaksAt ⟨c.errorSince start cause, stop, n⟩ start :=
  ⟨.of_errorSince hp hstop, hcause⟩

/-- An error at a place shows the text from there on. -/
theorem BreaksAt.of_errorHere {stop : Cursor} {cause : Cause} (hstop : stop.SameText c)
    (hcause : cause.isLeftover = false) : Refusal.BreaksAt ⟨c.errorHere cause, stop, 0⟩ c :=
  .of_errorSince (.refl c) hstop hcause

/-- The error is over what was read since `c`, and the cursor is put back to `c`. Only for a cause in
`Over` it stays behind what was read. -/
inductive PutsBack (Over : Cause → Prop) (c : Cursor) : Refusal → Prop
  | back {s : List Char} {e : Cursor} {cause : Cause} :
    c.Passes s e → cause.isLeftover = false → PutsBack Over c ⟨e.errorSince c cause, c, 0⟩
  | ahead {s : List Char} {e : Cursor} {cause : Cause} :
    c.Passes s e → cause.isLeftover = false → Over cause →
      PutsBack Over c ⟨e.errorSince c cause, e, 0⟩

variable {Over : Cause → Prop}

theorem PutsBack.breaksAt (h : r.PutsBack Over c) : r.BreaksAt c := by
  cases h with
  | back hp hcause => exact .of_errorSince hp .rfl hcause
  | ahead hp hcause _ => exact .of_errorSince hp hp.sameText hcause

theorem PutsBack.passes (h : r.PutsBack Over c) :
    ∃ t, c.Passes t r.stop ∧ (¬ Over r.error.cause → t = []) := by
  cases h with
  | back => exact ⟨[], .refl c, fun _ => rfl⟩
  | ahead hp _ hover => exact ⟨_, hp, fun hnot => absurd hover hnot⟩

end Refusal

namespace Rule

variable {α : Type} {c d start : Cursor} {r : Refusal} {s : List Char} {Over : Cause → Prop}

theorem unexpected_breaksAt {what : Expectation}
    (h : (unexpected what c : Except Refusal (α × Cursor)) = .error r) : r.BreaksAt c := by
  cases h
  exact .of_errorHere .rfl rfl

theorem failSince_breaksAt {cause : Cause} (hp : start.Passes s c)
    (hcause : cause.isLeftover = false)
    (h : (failSince start cause c : Except Refusal (α × Cursor)) = .error r) :
    r.BreaksAt start := by
  cases h
  exact .of_errorSince hp hp.sameText hcause

theorem unexpected_putsBack {what : Expectation}
    (h : (unexpected what c : Except Refusal (α × Cursor)) = .error r) : r.PutsBack Over c := by
  cases h
  exact .back (.refl c) rfl

/-! ## Moves that may not apply -/

theorem blanks_putsBack (h : blanks c = .error r) : r.PutsBack (fun _ => False) c := by
  rw [blanks] at h
  split at h
  · cases h
  · exact unexpected_putsBack h

theorem symbol_putsBack {x : String} (h : symbol x c = .error r) :
    r.PutsBack (fun _ => False) c := by
  rw [symbol] at h
  split at h
  · cases h
  · exact unexpected_putsBack h

theorem keyword_putsBack {k : Keyword} (h : keyword k c = .error r) :
    r.PutsBack (fun _ => False) c := by
  rw [keyword] at h
  split at h
  · cases h
  · exact unexpected_putsBack h

/-! ## Tokens -/

theorem identifier_putsBack (h : identifier c = .error r) : r.PutsBack (fun _ => False) c := by
  rw [identifier] at h
  split at h
  · exact unexpected_putsBack h
  · split at h <;> cases h
    exact .back (.refl c) rfl

theorem quotedString_putsBack (h : quotedString c = .error r) :
    r.PutsBack (· = .unterminatedString) c := by
  rw [quotedString] at h
  split at h
  · exact unexpected_putsBack h
  · next d hd =>
    obtain ⟨s, -, hp, -⟩ := Cursor.skipWhile_eq_iff.1 (Eq.refl (d.skipWhile (· != '\'')))
    have hopen := Cursor.eat?_eq_some_iff.1 hd
    simp only at h
    split at h <;> cases h
    exact .ahead (hopen.trans hp) rfl rfl

/-- Digits that are refused are given back with their sign. -/
theorem digits_putsBack (hp : start.Passes s c) (h : digits start c = .error r) :
    r.PutsBack Over start := by
  obtain ⟨t, -, ht, -⟩ := Cursor.skipWhile_eq_iff.1 (Eq.refl (c.skipWhile Char.isDigit))
  rw [digits] at h
  split at h
  · exact unexpected_putsBack h
  · split at h <;> cases h
    exact .back (hp.trans ht) rfl

theorem exists_passes_sign (c : Cursor) :
    ∃ s, c.Passes s (if c.atSign then c.move 1 else c) := by
  cases h : c.atSign with
  | false => exact ⟨[], .refl c⟩
  | true =>
    obtain ⟨r, hr⟩ := List.head?_eq_some_iff.1 (atSign_eq_true_iff.1 h).1
    exact ⟨['-'], .move hr⟩

theorem integer_putsBack (h : integer c = .error r) :
    r.PutsBack (fun cause => ∃ n, cause = .integerTooSmall n ∨ cause = .integerTooLarge n) c := by
  obtain ⟨s, hs⟩ := exists_passes_sign c
  rw [integer] at h
  split at h
  · next hd =>
    cases h
    exact digits_putsBack hs hd
  · next run e hd =>
    obtain ⟨-, -, hp, -⟩ := digits_eq_ok_iff.1 hd
    simp only at h
    generalize (if c.atSign then -(Decimal.value run : Int) else Decimal.value run) = n at h
    split at h
    · cases h
      exact .ahead (hs.trans hp) rfl ⟨_, .inl rfl⟩
    · split at h <;> cases h
      exact .ahead (hs.trans hp) rfl ⟨_, .inr rfl⟩

theorem count_putsBack (h : count c = .error r) :
    r.PutsBack (fun cause => ∃ n, cause = .countTooLarge n) c := by
  rw [count] at h
  split at h
  · next hd =>
    cases h
    exact digits_putsBack (.refl c) hd
  · next run e hd =>
    obtain ⟨-, -, hp, -⟩ := digits_eq_ok_iff.1 hd
    split at h <;> cases h
    exact .ahead hp rfl ⟨_, rfl⟩

theorem boolean?_ne_error : boolean? c ≠ .error r := by
  intro h
  simp only [boolean?, ite_eatKeyword_eq_error_iff, pure_ne_error, and_false, exists_false,
    or_false] at h

end Rule

/-! ## Timely refusals -/

/-- The text can be completed to a layout. -/
def Begins {α : Type} (Layout : List Char → α → Prop) (s : List Char) : Prop :=
  ∃ x a, Layout (s ++ x) a

/-- Where blanks are missing, they are written before what else is missing. -/
theorem Begins.of_blank {α : Type} {Layout : List Char → α → Prop} {s : List Char}
    (h : Begins Layout (s ++ [' '])) : Begins Layout s := by
  obtain ⟨x, a, hx⟩ := h
  exact ⟨' ' :: x, a, by simpa using hx⟩

namespace Rule

variable {α : Type} {c : Cursor} {r : Refusal}

/-- Where the rule breaks off, what it has read can still be completed to a layout. -/
def Timely (dotted : Bool) (rule : Rule α) (Layout : List Char → α → Prop) : Prop :=
  ∀ ⦃c r⦄, c.dotted = dotted → rule c = .error r → ∃ s, r.BreaksBehind c s ∧ Begins Layout s

/-- A refusal breaks off within a layout, or is of what is left over behind one. Blanks may stand
around the layout. -/
inductive Placed {α : Type} (Layout : List Char → α → Prop) (c : Cursor) (r : Refusal) : Prop
  | within {v s : List Char} :
    Blanks v → r.BreaksBehind c (v ++ s) → Begins Layout s → Placed Layout c r
  | behind {v s w : List Char} {a : α} {p : Cursor} :
    Blanks v → Layout s a → Blanks w → c.Passes (v ++ s ++ w) p → r.LocatedAt p →
      Placed Layout c r

/-- All that the rule refuses, it refuses within a layout or behind one. -/
def Places (dotted : Bool) (rule : Rule α) (Layout : List Char → α → Prop) : Prop :=
  ∀ ⦃c r⦄, c.dotted = dotted → rule c = .error r → Placed Layout c r

theorem Timely.places {dotted : Bool} {rule : Rule α} {Layout : List Char → α → Prop}
    (h : Timely dotted rule Layout) : Places dotted rule Layout := by
  intro c r hc hr
  obtain ⟨s, hbehind, hs⟩ := h hc hr
  exact .within .nil hbehind hs

/-! ## Items with commas between them -/

section Commas

variable {dotted : Bool} {element : Rule α} {item : Rule (Option α)} {Item : List Char → α → Prop}

/-- `item` breaks off before a comma or behind one. -/
def BreaksAtComma (item : Rule (Option α)) : Prop :=
  ∀ ⦃c r⦄, item c = .error r → ∃ v, Blanks v ∧
    (r.BreaksBehind c v ∨ ∃ w, Blanks w ∧ r.BreaksBehind c (v ++ ',' :: w))

/-- Behind an item that is a layout, the items up to where one breaks off can be completed to one
layout with it. -/
theorem Stops.commaLayout (hitem : Continues item element) (hsound : Sound dotted element Item)
    (hbreak : BreaksAtComma item) {y : List Char} {b : α} (hy : Item y b) (h : Stops item c r)
    (hc : c.dotted = dotted) {s : List Char} {a : α} (hs : Item s a) :
    ∃ t x as, r.BreaksBehind c t ∧ CommaLayout Item (s ++ t ++ x) (a :: as) := by
  induction h generalizing s a with
  | @now c r hr =>
    obtain ⟨v, hv, hbehind | ⟨w, hw, hbehind⟩⟩ := hbreak hr
    · exact ⟨v, ',' :: y, [b], hbehind, by simpa using CommaLayout.cons hs hv .nil (.one hy)⟩
    · exact ⟨_, y, [b], hbehind, by simpa using CommaLayout.cons hs hv hw (.one hy)⟩
  | @later c f b' r hb _ ih =>
    obtain ⟨v, w, u, hv, hw, hlay, hp⟩ := hitem.reads hsound hb hc
    obtain ⟨t, x, as, hbehind, ht⟩ := ih (hp.dotted.trans hc) hlay
    exact ⟨_, x, _, hbehind.prepend hp, by simpa using CommaLayout.cons hs hv hw ht⟩

end Commas

end Rule

end FilterQuery
