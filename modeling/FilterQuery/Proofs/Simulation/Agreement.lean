import FilterQuery.Proofs.Reading.Refusals

/-!
Agreement of rules on two texts. Two rules agree from places related by `P` to places related by `Q`
if on such places they answer the same value, or both refuse. Agreement goes through all the ways in
which rules are put together, so that it needs to be shown for tokens only.
-/

namespace FilterQuery

/-- Moves that are related apply both or neither. -/
theorem rel_cases {Q : Cursor → Cursor → Prop} {x x' : Option Cursor} (h : Option.Rel Q x x') :
    x = none ∧ x' = none ∨ ∃ d d', x = some d ∧ x' = some d' ∧ Q d d' := by
  cases h with
  | none => exact .inl ⟨rfl, rfl⟩
  | some hd => exact .inr ⟨_, _, rfl, rfl, hd⟩

namespace Rule

/-- Both outcomes answer the same value at places related by `Q`, or both refuse with errors related
by `E`, and then with the same number of open groups, `n` at most. -/
inductive Matches {α : Type} (E : ParseError → ParseError → Prop) (n : Nat)
    (Q : Cursor → Cursor → Prop) : Except Refusal (α × Cursor) → Except Refusal (α × Cursor) → Prop
  | ok {a : α} {d d' : Cursor} : Q d d' → Matches E n Q (.ok (a, d)) (.ok (a, d'))
  | error {r r' : Refusal} :
    E r.error r'.error → r.unclosed = r'.unclosed → r.unclosed ≤ n →
      Matches E n Q (.error r) (.error r')

/-- The rules have matching outcomes on places related by `P`. -/
def Agree {α : Type} (E : ParseError → ParseError → Prop) (n : Nat) (P Q : Cursor → Cursor → Prop)
    (rule rule' : Rule α) : Prop :=
  ∀ ⦃c c'⦄, P c c' → Matches E n Q (rule c) (rule' c')

variable {α β : Type} {E : ParseError → ParseError → Prop} {n m : Nat}
  {P Q R : Cursor → Cursor → Prop} {c c' : Cursor}

theorem Matches.mono {x x' : Except Refusal (α × Cursor)} (h : Matches E n Q x x') (hn : n ≤ m) :
    Matches E m Q x x' := by
  cases h with
  | ok hd => exact .ok hd
  | error he hu hr => exact .error he hu (Nat.le_trans hr hn)

theorem Matches.of_ok {x' : Except Refusal (α × Cursor)} {a : α} {d : Cursor}
    (h : Matches E n Q (.ok (a, d)) x') : ∃ d', x' = .ok (a, d') ∧ Q d d' := by
  cases h with
  | ok hd => exact ⟨_, rfl, hd⟩

theorem Matches.of_error {x' : Except Refusal (α × Cursor)} {r : Refusal}
    (h : Matches E n Q (.error r) x') :
    ∃ r', x' = .error r' ∧ E r.error r'.error ∧ r.unclosed = r'.unclosed ∧ r.unclosed ≤ n := by
  cases h with
  | error he hu hr => exact ⟨_, rfl, he, hu, hr⟩

theorem Matches.bind {rule rule' : Rule α} {f f' : α → Rule β}
    (h : Matches E n Q (rule c) (rule' c')) (hf : ∀ a, Agree E n Q R (f a) (f' a)) :
    Matches E n R ((rule >>= f) c) ((rule' >>= f') c') := by
  cases hx : rule c with
  | error r =>
    rw [hx] at h
    obtain ⟨r', hr', he, hu, hn⟩ := h.of_error
    rw [bind_of_error hx, bind_of_error hr']
    exact .error he hu hn
  | ok p =>
    obtain ⟨a, d⟩ := p
    rw [hx] at h
    obtain ⟨d', hd', hq⟩ := h.of_ok
    rw [bind_of_ok hx, bind_of_ok hd']
    exact hf a hq

namespace Agree

variable {rule rule' g g' : Rule α} {f f' : α → Rule β}

theorem mono (h : Agree E n P Q rule rule') (hn : n ≤ m) : Agree E m P Q rule rule' :=
  fun _ _ hc => (h hc).mono hn

theorem bind (h : Agree E n P Q rule rule') (hf : ∀ a, Agree E n Q R (f a) (f' a)) :
    Agree E n P R (rule >>= f) (rule' >>= f') :=
  fun _ _ hc => (h hc).bind hf

theorem pure (a : α) : Agree E n P P (pure a) (pure a) :=
  fun _ _ hc => .ok hc

theorem get_bind {f f' : Cursor → Rule β} (hf : ∀ s s', P s s' → Agree E n P Q (f s) (f' s')) :
    Agree E n P Q (get >>= f) (get >>= f') :=
  fun _ _ hc => hf _ _ hc hc

theorem set_bind {f f' : PUnit → Rule β} {s s' : Cursor} (hs : Q s s')
    (hf : Agree E n Q R (f ⟨⟩) (f' ⟨⟩)) : Agree E n P R (set s >>= f) (set s' >>= f') :=
  fun _ _ _ => hf hs

theorem ite {p p' : Prop} [Decidable p] [Decidable p'] (hp : p ↔ p')
    (h : p → Agree E n P Q rule rule') (hg : ¬ p → Agree E n P Q g g') :
    Agree E n P Q (if p then rule else g) (if p' then rule' else g') := by
  by_cases hc : p
  · rw [if_pos hc, if_pos (hp.1 hc)]
    exact h hc
  · rw [if_neg hc, if_neg fun hc' => hc (hp.2 hc')]
    exact hg hc

/-- A choice by a move that applies to both places or to neither. -/
theorem ite_attempt {move? move?' : Cursor → Option Cursor}
    (hmove : ∀ ⦃c c'⦄, P c c' → Option.Rel Q (move? c) (move?' c'))
    (h : Agree E n Q R rule rule') (hg : Agree E n P R g g') :
    Agree E n P R (attempt move? >>= fun moved => if moved = true then rule else g)
      (attempt move?' >>= fun moved => if moved = true then rule' else g') := by
  intro c c' hc
  rw [attempt_bind, attempt_bind]
  rcases rel_cases (hmove hc) with ⟨hx, hx'⟩ | ⟨d, d', hx, hx', hd⟩
  · rw [hx, hx']
    exact hg hc
  · rw [hx, hx']
    exact h hd

/-- A group that is opened on both sides counts on both. -/
theorem opened (h : Agree E n P Q rule rule') :
    Agree E (n + 1) P Q (opened rule) (opened rule') := by
  intro c c' hc
  have hm := h hc
  cases hx : rule c with
  | ok p =>
    obtain ⟨a, d⟩ := p
    rw [hx] at hm
    obtain ⟨d', hd', hq⟩ := hm.of_ok
    rw [opened_eq_ok_iff.2 hx, opened_eq_ok_iff.2 hd']
    exact .ok hq
  | error r =>
    rw [hx] at hm
    obtain ⟨r', hr', he, hu, hn⟩ := hm.of_error
    rw [opened_eq_error_iff.2 ⟨r, hx, rfl⟩, opened_eq_error_iff.2 ⟨r', hr', rfl⟩]
    exact .error he (congrArg (· + 1) hu) (Nat.succ_le_succ hn)

/-! ## Repetition -/

variable {item item' : Rule (Option α)}

theorem repeats (h : Agree E n P P item item') {as : List α} {e : Cursor}
    (hr : Repeats item c as e) (hc : P c c') : ∃ e', Repeats item' c' as e' ∧ P e e' := by
  induction hr generalizing c' with
  | done hx =>
    obtain ⟨e', he', hp⟩ := (hx ▸ h hc).of_ok
    exact ⟨e', .done he', hp⟩
  | more hx _ ih =>
    obtain ⟨d', hd', hp⟩ := (hx ▸ h hc).of_ok
    obtain ⟨e', he', hpe⟩ := ih hp
    exact ⟨e', .more hd' he', hpe⟩

theorem stops (h : Agree E n P P item item') {r : Refusal} (hr : Stops item c r) (hc : P c c') :
    ∃ r', Stops item' c' r' ∧ E r.error r'.error ∧ r.unclosed = r'.unclosed ∧ r.unclosed ≤ n := by
  induction hr generalizing c' with
  | now hx =>
    obtain ⟨r', hr', hm⟩ := (hx ▸ h hc).of_error
    exact ⟨r', .now hr', hm⟩
  | later hx _ ih =>
    obtain ⟨d', hd', hp⟩ := (hx ▸ h hc).of_ok
    obtain ⟨r', hr', hm⟩ := ih hp
    exact ⟨r', .later hd' hr', hm⟩

/-- Items that agree are repeated equally often. The bounds on the repetitions may differ, since
both texts may; neither is reached. -/
theorem many {dotted : Bool} (hitem : Shrinks dotted item) (hitem' : Shrinks dotted item')
    (hdotted : ∀ ⦃c c'⦄, P c c' → c.dotted = dotted ∧ c'.dotted = dotted)
    (h : Agree E n P P item item') : Agree E n P P (many item) (many item') := by
  intro c c' hc
  obtain ⟨hd, hd'⟩ := hdotted hc
  cases hx : Rule.many item c with
  | ok p =>
    obtain ⟨as, e⟩ := p
    obtain ⟨e', he', hp⟩ := h.repeats ((many_eq_ok_iff hitem hd).1 hx) hc
    rw [(many_eq_ok_iff hitem' hd').2 he']
    exact .ok hp
  | error r =>
    obtain ⟨r', hr', he, hu, hn⟩ := h.stops ((many_eq_error_iff hitem hd).1 hx) hc
    rw [(many_eq_error_iff hitem' hd').2 hr']
    exact .error he hu hn

end Agree

end Rule

end FilterQuery
