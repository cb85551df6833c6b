import FilterQuery.Proofs.Reading.Answers

/-!
Refusals of rules. A rule in two parts refuses where its first part does, or its second part behind
an answer of the first; a repetition refuses where its item does.
-/

namespace FilterQuery.Rule

variable {α β : Type} {c d : Cursor} {r : Refusal}

theorem bind_eq_error_iff {rule : Rule α} {f : α → Rule β} :
    (rule >>= f) c = .error r ↔
      rule c = .error r ∨ ∃ a d, rule c = .ok (a, d) ∧ f a d = .error r := by
  change (rule c >>= fun p => f p.1 p.2) = .error r ↔ _
  cases rule c with
  | error s => simp [bind, Except.bind]
  | ok p =>
    obtain ⟨a, d⟩ := p
    constructor
    · intro h
      exact .inr ⟨a, d, rfl, h⟩
    · intro h
      rcases h with h | ⟨_, _, ⟨⟩, h⟩
      · cases h
      · exact h

theorem bind_of_error {rule : Rule α} (h : rule c = .error r) (f : α → Rule β) :
    (rule >>= f) c = .error r :=
  bind_eq_error_iff.2 (.inl h)

theorem pure_ne_error {a : α} : (pure a : Rule α) c ≠ .error r := by
  change Except.ok (a, c) ≠ .error r
  simp

theorem bind_pure_eq_error_iff {rule : Rule α} {f : α → β} :
    (rule >>= fun a => pure (f a)) c = .error r ↔ rule c = .error r := by
  simp only [bind_eq_error_iff, pure_ne_error, and_false, exists_false, or_false]

/-- A choice by a move refuses what the branch that is taken refuses. -/
theorem ite_attempt_eq_error_iff {move? : Cursor → Option Cursor} {f g : Rule β} :
    (attempt move? >>= fun moved => if moved = true then f else g) c = .error r ↔
      (∃ d, move? c = some d ∧ f d = .error r) ∨ move? c = none ∧ g c = .error r := by
  rw [attempt_bind]
  cases move? c <;> simp

theorem ite_eatKeyword_eq_error_iff {k : Keyword} {f g : Rule β} :
    (eatKeyword k >>= fun eaten => if eaten = true then f else g) c = .error r ↔
      (∃ d, c.eatKeyword? k = some d ∧ f d = .error r) ∨
        c.eatKeyword? k = none ∧ g c = .error r :=
  ite_attempt_eq_error_iff

theorem ite_eatSpacedKeyword_eq_error_iff {k : Keyword} {f g : Rule β} :
    (eatSpacedKeyword k >>= fun eaten => if eaten = true then f else g) c = .error r ↔
      (∃ d, c.eatSpacedKeyword? k = some d ∧ f d = .error r) ∨
        c.eatSpacedKeyword? k = none ∧ g c = .error r :=
  ite_attempt_eq_error_iff

theorem mapError_eq_error_iff {ε : Type} {f : ε → ε} {x : Except ε α} {y : ε} :
    x.mapError f = .error y ↔ ∃ z, x = .error z ∧ f z = y := by
  cases x with
  | error z =>
    change Except.error (f z) = Except.error y ↔ _
    simp
  | ok a =>
    change Except.ok a = Except.error y ↔ _
    simp

theorem opened_eq_error_iff {rule : Rule α} :
    opened rule c = .error r ↔
      ∃ s, rule c = .error s ∧ { s with unclosed := s.unclosed + 1 } = r :=
  mapError_eq_error_iff

/-! ## Repetition -/

/-- From `c` on, `item` answers some number of times, and then it refuses. -/
inductive Stops (item : Rule (Option α)) : Cursor → Refusal → Prop
  | now {c : Cursor} {r : Refusal} : item c = .error r → Stops item c r
  | later {c d : Cursor} {a : α} {r : Refusal} :
    item c = .ok (some a, d) → Stops item d r → Stops item c r

theorem repeatUpTo_eq_error_iff {dotted : Bool} {item : Rule (Option α)}
    (hitem : Shrinks dotted item) {n : Nat} (hn : c.rest.length < n) (hc : c.dotted = dotted)
    {before : List α} : repeatUpTo item n before c = .error r ↔ Stops item c r := by
  induction n generalizing c before with
  | zero => omega
  | succ n ih =>
    have next {a : α} {d : Cursor} (ha : item c = .ok (some a, d)) :
        d.rest.length < n ∧ d.dotted = dotted := by
      obtain ⟨s, hs, hp⟩ := hitem hc ha
      have hlt := hp.rest_length_lt hs
      exact ⟨by omega, hp.dotted.trans hc⟩
    rw [repeatUpTo]
    constructor
    · intro h
      split at h
      · next a d ha => exact .later ha ((ih (next ha).1 (next ha).2).1 h)
      · cases h
      · next s hs =>
        cases h
        exact .now hs
    · intro h
      cases h with
      | now hr => simp [hr]
      | later ha h =>
        simp only [ha]
        exact (ih (next ha).1 (next ha).2).2 h

/-- The bound on repetitions never hides a refusal. -/
theorem many_eq_error_iff {dotted : Bool} {item : Rule (Option α)} (hitem : Shrinks dotted item)
    (hc : c.dotted = dotted) : many item c = .error r ↔ Stops item c r :=
  repeatUpTo_eq_error_iff hitem (Nat.lt_succ_self _) hc

end FilterQuery.Rule
