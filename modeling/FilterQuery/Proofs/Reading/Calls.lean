import FilterQuery.Proofs.Reading.Acceptance

/-!
Calls of a parser. A parser can be called again from where the call before it stopped, and every
call applies a rule to all that is left of the text. What the three calls have in common is stated
here for a call that is a variable.
-/

namespace FilterQuery

/-- What a parser can be asked to read. -/
inductive Call where
  | chain | clauseSet | literal
  deriving DecidableEq, Repr

namespace Call

def Answer : Call → Type
  | .chain => Chain
  | .clauseSet => ClauseSet
  | .literal => Literal

/-- A dialect without clauses has no clause sets. -/
def Allowed (d : Dialect) (k : Call) : Prop :=
  k = .clauseSet → d.clauses = true

/-- The layouts of answers whose groups nest at most `n` deep. -/
def Layout (d : Dialect) (n : Nat) : (k : Call) → List Char → k.Answer → Prop
  | .chain => ChainText d n
  | .clauseSet => ClauseSetLayout d n
  | .literal => LiteralLayout

end Call

namespace Parser

def call (p : Parser) : (k : Call) → Except ParseError k.Answer × Parser
  | .chain => p.chain
  | .clauseSet => p.clauseSet
  | .literal => p.literal

/-- The parser after some calls, whatever they answered. -/
def after (p : Parser) : List Call → Parser
  | [] => p
  | k :: ks => (p.call k).2.after ks

/-- What a call applies to the text. -/
def rule (p : Parser) : (k : Call) → Rule k.Answer
  | .chain => p.chainRule
  | .clauseSet => Rule.clauseSet p.chainRule
  | .literal => Rule.literal

variable {p : Parser} {k : Call} {c : Cursor}

/-- What every call keeps holds after any calls. -/
theorem after_induction {P : Parser → Prop} (hp : P p) (calls : List Call)
    (hstep : ∀ q k, P q → P (q.call k).2) : P (p.after calls) := by
  induction calls generalizing p with
  | nil => exact hp
  | cons k ks ih => exact ih (hstep p k hp)

theorem call_eq_run (hk : k.Allowed p.dialect) : p.call k = p.run (Rule.whole (p.rule k)) := by
  cases k with
  | chain => rfl
  | clauseSet => exact if_pos (hk rfl)
  | literal => rfl

/-- A dialect without clauses reads nothing. -/
theorem call_of_not_allowed (hk : ¬ k.Allowed p.dialect) :
    p.call k = (.error (p.cursor.errorHere (.clauses p.dialect.name)), p) := by
  obtain ⟨rfl, hd⟩ := Classical.not_imp.1 hk
  exact if_neg hd

theorem allowed_of_ok {a : k.Answer} (h : (p.call k).1 = .ok a) : k.Allowed p.dialect := by
  by_cases hk : k.Allowed p.dialect
  · exact hk
  · rw [call_of_not_allowed hk] at h
    cases h

theorem rule_sound :
    Rule.Sound p.dialect.dottedNames (p.rule k) (k.Layout p.dialect p.levels) := by
  cases k with
  | chain => exact Rule.chain_sound
  | clauseSet => exact Rule.clauseSet_sound
  | literal => exact Rule.literal_sound

theorem whole_rule_eq_ok_iff (hc : c.dotted = p.dialect.dottedNames) {a : k.Answer} :
    (∃ e, Rule.whole (p.rule k) c = .ok (a, e)) ↔
      ∃ v s w, c.rest = v ++ s ++ w ∧ Blanks v ∧ k.Layout p.dialect p.levels s a ∧ Blanks w := by
  cases k with
  | chain =>
    exact Rule.whole_eq_ok_iff_layout Rule.chain_sound Rule.chain_complete
      (fun _ _ h => h.1.starts) (fun _ _ => .of_textEnd) hc
  | clauseSet =>
    exact Rule.whole_eq_ok_iff_layout Rule.clauseSet_sound Rule.clauseSet_complete
      (fun _ _ => ClauseSetLayout.starts) (fun _ _ h => h) hc
  | literal =>
    exact Rule.whole_eq_ok_iff_layout Rule.literal_sound Rule.literal_complete
      (fun _ _ => LiteralLayout.starts) (fun _ _ h => .inr (.inr h.atWordEnd)) hc

/-- What a call answers has a layout in the text that was left. -/
theorem exists_layout_of_ok (hp : p.cursor.dotted = p.dialect.dottedNames) {a : k.Answer}
    (h : (p.call k).1 = .ok a) : ∃ s, k.Layout p.dialect p.levels s a := by
  rw [call_eq_run (allowed_of_ok h), run_eq_ok_iff, whole_rule_eq_ok_iff hp] at h
  obtain ⟨_, s, _, -, -, hs, -⟩ := h
  exact ⟨s, hs⟩

/-- A fresh parser accepts exactly the layouts, with blanks around them. -/
theorem call_ofString_eq_ok_iff {d : Dialect} {maxDepth : Nat} {text : String}
    (hk : k.Allowed d) {a : k.Answer} :
    ((ofString d maxDepth text).call k).1 = .ok a ↔
      ∃ v s w, text.toList = v ++ s ++ w ∧ Blanks v ∧ k.Layout d maxDepth s a ∧ Blanks w := by
  have hp : k.Allowed (ofString d maxDepth text).dialect := hk
  rw [call_eq_run hp, run_eq_ok_iff, whole_rule_eq_ok_iff rfl]
  rfl

end Parser

end FilterQuery
