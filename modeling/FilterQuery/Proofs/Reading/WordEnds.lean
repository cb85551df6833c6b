import FilterQuery.Proofs.Reading.Clauses

/-!
Where rules answer. Whatever a rule reads, it does not stop inside a word: behind a word character
that was read last, no word character is left. Where a rule that is put together of others answers
is decided by the last of its parts that moves, so that this needs to be shown for tokens only.
-/

namespace FilterQuery

namespace Cursor

variable {c d : Cursor} {k : Keyword} {s : List Char}

/-- No word goes on over the place. -/
def BetweenWords (c : Cursor) : Prop :=
  c.past.head?.any isWordChar = true → c.peek?.any isWordChar = false

theorem AtWordEnd.betweenWords (h : c.AtWordEnd) : c.BetweenWords :=
  fun _ => h.not_wordChar

/-- Behind a character of no word no word goes on. -/
theorem Passes.betweenWords (h : c.Passes s d)
    (hs : s.getLast?.any (fun x => !isWordChar x) = true) : d.BetweenWords := by
  obtain ⟨x, hx, hw⟩ := (Option.any_eq_true _ _).1 hs
  have hn : s ≠ [] := by
    rintro rfl
    cases hx
  intro hpast
  rw [h.head?_past hn, hx] at hpast
  simp_all

theorem betweenWords_of_eatKeyword? (h : c.eatKeyword? k = some d) : d.BetweenWords := by
  obtain ⟨_, _, _, hd⟩ := eatKeyword?_eq_some_iff.1 h
  exact hd.betweenWords

theorem betweenWords_of_eatSpacedKeyword? (h : c.eatSpacedKeyword? k = some d) :
    d.BetweenWords :=
  betweenWords_of_eatKeyword? (eatSpacedKeyword?_eq_some_iff.1 h).2

end Cursor

namespace Rule

open Cursor (BetweenWords)

variable {α β : Type} {P Q R : Cursor → Prop} {start : Cursor}

/-- From places with `P` on, the rule answers at places with `Q` only. -/
def Leads (P Q : Cursor → Prop) (rule : Rule α) : Prop :=
  ∀ ⦃c a d⦄, P c → rule c = .ok (a, d) → Q d

namespace Leads

variable {rule g : Rule α} {f : α → Rule β}

theorem bind (h : Leads P Q rule) (hf : ∀ a, Leads Q R (f a)) : Leads P R (rule >>= f) := by
  intro c b e hc hx
  obtain ⟨a, d, ha, hb⟩ := bind_eq_ok_iff.1 hx
  exact hf a (h hc ha) hb

/-- Where the second part answers at places with `R` from anywhere, the first does not matter. -/
theorem bind_last (hf : ∀ a, Leads (fun _ => True) R (f a)) : Leads P R (rule >>= f) :=
  bind (Q := fun _ => True) (fun _ _ _ _ _ => trivial) hf

theorem pure (a : α) : Leads P P (pure a) := by
  intro c b d hc hx
  obtain ⟨-, rfl⟩ := pure_eq_ok_iff.1 hx
  exact hc

theorem failSince (cause : Cause) : Leads P Q (failSince start cause : Rule α) :=
  fun _ _ _ _ hx => absurd hx failSince_ne_ok

theorem unexpected (what : Expectation) : Leads P Q (unexpected what : Rule α) :=
  fun _ _ _ _ hx => absurd hx unexpected_ne_ok

theorem get_bind {f : Cursor → Rule β} (hf : ∀ c, P c → Leads P Q (f c)) :
    Leads P Q (get >>= f) :=
  fun c _ _ hc hx => hf c hc hc hx

theorem set_bind {f : PUnit → Rule β} (hs : Q start) (hf : Leads Q R (f ⟨⟩)) :
    Leads P R (set start >>= f) :=
  fun _ _ _ _ hx => hf hs hx

theorem ite {p : Prop} [Decidable p] (h : Leads P Q rule) (hg : Leads P Q g) :
    Leads P Q (if p then rule else g) := by
  split
  · exact h
  · exact hg

theorem ite_attempt {move? : Cursor → Option Cursor} (hmove : ∀ ⦃c d⦄, move? c = some d → Q d)
    (h : Leads Q R rule) (hg : Leads P R g) :
    Leads P R (attempt move? >>= fun moved => if moved = true then rule else g) := by
  intro c a e hc hx
  rcases ite_attempt_eq_ok_iff.1 hx with ⟨d, hd, hx⟩ | ⟨-, hx⟩
  · exact h (hmove hd) hx
  · exact hg hc hx

theorem opened (h : Leads P Q rule) : Leads P Q (opened rule) :=
  fun _ _ _ hc hx => h hc (opened_eq_ok_iff.1 hx)

theorem repeatUpTo {item : Rule (Option α)} (h : Leads P P item) (n : Nat) (done : List α) :
    Leads P P (repeatUpTo item n done) := by
  induction n generalizing done with
  | zero => exact pure _
  | succ n ih =>
    intro c as e hc hx
    rw [Rule.repeatUpTo] at hx
    split at hx
    · next a d ha => exact ih _ (h hc ha) hx
    · next d ha =>
      cases hx
      exact h hc ha
    · cases hx

theorem many {item : Rule (Option α)} (h : Leads P P item) : Leads P P (many item) :=
  fun _ _ _ hc hx => h.repeatUpTo _ _ hc hx

/-! ## Moves to where no word goes on -/

theorem ite_eat {symbol : String}
    (hs : symbol.toList.getLast?.any (fun x => !isWordChar x) = true)
    (h : Leads BetweenWords R rule) (hg : Leads P R g) :
    Leads P R (eat symbol >>= fun eaten => if eaten = true then rule else g) :=
  ite_attempt (fun _ _ hd => (Cursor.eat?_eq_some_iff.1 hd).betweenWords hs) h hg

theorem ite_eatKeyword (k : Keyword) (h : Leads BetweenWords R rule) (hg : Leads P R g) :
    Leads P R (eatKeyword k >>= fun eaten => if eaten = true then rule else g) :=
  ite_attempt (fun _ _ => Cursor.betweenWords_of_eatKeyword?) h hg

theorem ite_eatSpacedKeyword (k : Keyword) (h : Leads BetweenWords R rule) (hg : Leads P R g) :
    Leads P R (eatSpacedKeyword k >>= fun eaten => if eaten = true then rule else g) :=
  ite_attempt (fun _ _ => Cursor.betweenWords_of_eatSpacedKeyword?) h hg

end Leads

/-! ## Tokens -/

theorem identifier_leads : Leads P BetweenWords identifier := by
  intro c name d _ h
  obtain ⟨-, -, hd⟩ := identifier_eq_ok_iff.1 h
  exact hd.betweenWords

theorem quotedString_leads : Leads P BetweenWords quotedString := by
  intro c t d _ h
  obtain ⟨-, hp⟩ := quotedString_eq_ok_iff.1 h
  exact hp.betweenWords (by rw [getLast?_quoted]; rfl)

theorem integer_leads : Leads P BetweenWords integer := by
  intro c n d _ h
  obtain ⟨_, _, _, hd⟩ := integer_eq_ok_iff.1 h
  exact fun _ => hd

theorem count_leads : Leads P BetweenWords count := by
  intro c n d _ h
  obtain ⟨_, _, _, hd⟩ := count_eq_ok_iff.1 h
  exact fun _ => hd

/-! ## Literals -/

theorem quotedBody_leads (what : Expectation) : Leads P BetweenWords (quotedBody what) :=
  .bind_last fun _ => .get_bind fun _ _ => .ite quotedString_leads (.unexpected what)

theorem bodyLiteral_leads {what : Expectation} {value : String → Except Cause Literal} :
    Leads P BetweenWords (bodyLiteral what value start) := by
  refine (quotedBody_leads _).bind fun body => ?_
  cases value body with
  | ok l => exact .pure l
  | error cause => exact .failSince cause

theorem dateLiteral_leads : Leads P BetweenWords (dateLiteral start) := by
  rw [dateLiteral_eq]
  exact bodyLiteral_leads

theorem timestampLiteral_leads : Leads P BetweenWords (timestampLiteral start) := by
  rw [timestampLiteral_eq]
  exact bodyLiteral_leads

theorem scalar_leads : Leads P BetweenWords scalar := by
  refine .get_bind fun start _ => .ite_eatKeyword _ dateLiteral_leads <|
    .ite_eatKeyword _ timestampLiteral_leads <| .ite (integer_leads.bind fun _ => .pure _) <|
    .ite (quotedString_leads.bind fun _ => .pure _) ?_
  -- Without a truth value nothing has been read, and the rule refuses.
  intro c l e _ h
  obtain ⟨b?, d, hb, h⟩ := bind_eq_ok_iff.1 h
  cases b? with
  | none => exact absurd h unexpected_ne_ok
  | some b =>
    obtain ⟨-, rfl⟩ := pure_eq_ok_iff.1 h
    exact Cursor.betweenWords_of_eatKeyword? (boolean?_eq_ok_some_iff.1 hb)

theorem listElement_leads : Leads P BetweenWords listElement := by
  refine .get_bind fun start _ => .ite (integer_leads.bind fun _ => .pure _) <|
    .ite (quotedString_leads.bind fun _ => .pure _) ?_
  split
  · exact .failSince _
  · exact .unexpected _

theorem listContinuation_leads : Leads P BetweenWords listContinuation :=
  .bind_last fun _ => .ite_eat (by decide)
    (.bind_last fun _ => listElement_leads.bind fun _ => .pure _)
    (.ite_eat (by decide) (.pure _) (.unexpected _))

theorem listLiteral_leads : Leads P BetweenWords listLiteral :=
  .bind_last fun _ => .bind_last fun _ => .ite_eat (by decide) (.pure _)
    (listElement_leads.bind fun _ => listContinuation_leads.many.bind fun _ => .pure _)

/-! ## Conditions and chains -/

theorem leaf_leads : Leads P BetweenWords leaf := by
  have members (f : List Literal → Leaf) :
      Leads BetweenWords BetweenWords (members >>= fun ls => pure (f ls)) :=
    .bind (.bind_last fun _ => listLiteral_leads) fun _ => .pure _
  exact .bind_last fun _ => .ite_eatSpacedKeyword _ (.pure _) <|
    .ite_eatSpacedKeyword _ (.pure _) <| .ite_eatSpacedKeyword _ (members _) <|
    .ite_eatSpacedKeyword _ (members _) <| .bind_last fun _ => .bind_last fun _ =>
    scalar_leads.bind fun _ => .pure _

theorem leafNamedNot_leads (dialect : String) :
    Leads P BetweenWords (leafNamedNot start dialect) :=
  fun _ _ _ _ h => leaf_leads (P := fun _ => True) trivial (leafNamedNot_eq_ok_iff.1 h)

section Groups

variable {d : Dialect} {group : Bool → Rule Condition}

theorem negated_leads (hgroup : ∀ b, Leads (fun _ => True) BetweenWords (group b)) :
    Leads P BetweenWords (negated d group start) :=
  .bind_last fun _ => .get_bind fun _ _ =>
    .ite (.ite ((hgroup true).bind fun _ => .pure _) (.failSince _))
      (.ite (leaf_leads.bind fun _ => .pure _) ((leafNamedNot_leads _).bind fun _ => .pure _))

theorem plain_leads (hgroup : ∀ b, Leads (fun _ => True) BetweenWords (group b)) :
    Leads (fun _ => True) BetweenWords (plain d group) :=
  .get_bind fun _ _ => .ite
    (.ite ((hgroup false).bind fun _ => .pure _) (.get_bind fun _ _ => .failSince _))
    (leaf_leads.bind fun _ => .pure _)

theorem condition_leads (hgroup : ∀ b, Leads (fun _ => True) BetweenWords (group b)) :
    Leads P BetweenWords (condition d group) :=
  .bind_last fun _ => .bind_last fun _ => .ite (negated_leads hgroup) (plain_leads hgroup)

end Groups

theorem links_leads {rule : Rule (Bool × Condition)}
    (h : Leads (fun _ => True) BetweenWords rule) :
    Leads (fun _ => True) BetweenWords (links rule) := by
  have hnext : Leads BetweenWords BetweenWords (nextLink rule) := by
    have hconjunction : Leads BetweenWords BetweenWords conjunction? :=
      .ite_eatSpacedKeyword _ (.pure _) (.ite_eatSpacedKeyword _ (.pure _) (.pure _))
    refine hconjunction.bind fun j? => ?_
    cases j? with
    | none => exact .pure _
    | some j => exact .bind_last fun _ => h.bind fun _ => .pure _
  exact h.bind fun _ => hnext.many.bind fun _ => .pure _

theorem group_leads (body : Rule Chain) (b : Bool) : Leads P BetweenWords (group body b) := by
  have hbody : Leads P BetweenWords (groupBody body) :=
    .bind_last fun _ => .bind_last fun _ => .bind_last fun _ => .bind_last fun _ =>
      .ite_eat (by decide) (.pure _) (.unexpected _)
  exact hbody.opened.bind fun _ => .pure _

theorem chain_leads (d : Dialect) (limit levels : Nat) :
    Leads (fun _ => True) BetweenWords (chain d limit levels) := by
  cases levels with
  | zero => exact links_leads (condition_leads fun _ _ _ _ _ h => absurd h failSince_ne_ok)
  | succ n => exact links_leads (condition_leads (group_leads _))

/-! ## Clauses -/

theorem fields_leads : Leads P BetweenWords fields := by
  have hnext : Leads BetweenWords BetweenWords nextField :=
    .get_bind fun _ hc => .bind_last fun _ => .ite_eat (by decide)
      (.bind_last fun _ => identifier_leads.bind fun _ => .pure _) (.set_bind hc (.pure _))
  exact identifier_leads.bind fun _ => hnext.many.bind fun _ => .pure _

theorem orderBy_leads : Leads P BetweenWords orderBy := by
  have hdirection : Leads BetweenWords BetweenWords direction :=
    .ite_eatSpacedKeyword _ (.pure _) (.ite_eatSpacedKeyword _ (.pure _) (.unexpected _))
  exact identifier_leads.bind fun _ => hdirection.bind fun _ => .pure _

theorem clause?_leads {k : Keyword} {body : Rule α}
    (h : Leads (fun _ => True) BetweenWords body) :
    Leads BetweenWords BetweenWords (clause? k body) :=
  .ite_eatSpacedKeyword k (.bind_last fun _ => h.bind fun _ => .pure _) (.pure _)

end Rule

end FilterQuery
