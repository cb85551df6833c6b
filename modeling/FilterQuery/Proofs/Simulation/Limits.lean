import FilterQuery.Proofs.Reading.Depth
import FilterQuery.Proofs.Reading.Extension

/-!
Readings under two limits on nested groups. Under the lower limit a rule does what it does under the
higher one, unless it meets a group that lies too deep. So the limit decides nothing else, and the
answer under the higher limit says by its depth which of the two happens.
-/

namespace FilterQuery

namespace Rule

variable {α β : Type} {limit : Nat}

/-- The rule does what the other one does, or it refuses for the limit. -/
def Truncates (limit : Nat) (rule rule' : Rule α) : Prop :=
  ∀ c, rule c = rule' c ∨ ∃ r, rule c = .error r ∧ r.ForDepth limit

namespace Truncates

variable {rule rule' g g' : Rule α} {f f' : α → Rule β}

theorem refl (rule : Rule α) : Truncates limit rule rule :=
  fun _ => .inl rfl

theorem tooDeep (rule : Rule Condition) : Truncates limit (Rule.tooDeep limit) rule :=
  fun _ => .inr ⟨_, rfl, rfl⟩

theorem bind (h : Truncates limit rule rule') (hf : ∀ a, Truncates limit (f a) (f' a)) :
    Truncates limit (rule >>= f) (rule' >>= f') := by
  intro c
  rcases h c with hx | ⟨r, hr, hdepth⟩
  · cases hy : rule' c with
    | error r => exact .inl (by rw [bind_of_error (hx.trans hy), bind_of_error hy])
    | ok p =>
      obtain ⟨a, d⟩ := p
      rw [bind_of_ok (hx.trans hy), bind_of_ok hy]
      exact hf a d
  · exact .inr ⟨r, bind_of_error hr f, hdepth⟩

theorem ite {p : Prop} [Decidable p] (h : Truncates limit rule rule') (hg : Truncates limit g g') :
    Truncates limit (if p then rule else g) (if p then rule' else g') := by
  split
  · exact h
  · exact hg

/-- A group that is left open changes nothing of the error. -/
theorem opened (h : Truncates limit rule rule') :
    Truncates limit (Rule.opened rule) (Rule.opened rule') := by
  intro c
  rcases h c with hx | ⟨r, hr, hdepth⟩
  · exact .inl (congrArg (Except.mapError _) hx)
  · exact .inr ⟨_, opened_eq_error_iff.2 ⟨r, hr, rfl⟩, hdepth⟩

theorem repeatUpTo {item item' : Rule (Option α)} (h : Truncates limit item item') (n : Nat)
    (done : List α) :
    Truncates limit (Rule.repeatUpTo item n done) (Rule.repeatUpTo item' n done) := by
  induction n generalizing done with
  | zero => exact refl _
  | succ n ih =>
    intro c
    rw [Rule.repeatUpTo, Rule.repeatUpTo]
    rcases h c with hx | ⟨r, hr, hdepth⟩
    · rw [hx]
      split
      · exact ih _ _
      · exact .inl rfl
      · exact .inl rfl
    · exact .inr ⟨r, by rw [hr], hdepth⟩

theorem many {item item' : Rule (Option α)} (h : Truncates limit item item') :
    Truncates limit (Rule.many item) (Rule.many item') :=
  fun c => h.repeatUpTo _ _ c

/-! ## Chains and clause sets -/

section Groups

variable {d : Dialect} {group group' : Bool → Rule Condition}

theorem negated (hgroup : ∀ b, Truncates limit (group b) (group' b)) (start : Cursor) :
    Truncates limit (Rule.negated d group start) (Rule.negated d group' start) :=
  (refl _).bind fun _ => (refl _).bind fun _ =>
    .ite (.ite ((hgroup true).bind fun _ => refl _) (refl _)) (refl _)

theorem plain (hgroup : ∀ b, Truncates limit (group b) (group' b)) :
    Truncates limit (Rule.plain d group) (Rule.plain d group') :=
  (refl _).bind fun _ => .ite (.ite ((hgroup false).bind fun _ => refl _) (refl _)) (refl _)

theorem condition (hgroup : ∀ b, Truncates limit (group b) (group' b)) :
    Truncates limit (Rule.condition d group) (Rule.condition d group') :=
  (refl _).bind fun start => (refl _).bind fun _ => .ite (negated hgroup start) (plain hgroup)

end Groups

theorem links {rule rule' : Rule (Bool × Condition)} (h : Truncates limit rule rule') :
    Truncates limit (Rule.links rule) (Rule.links rule') := by
  have hnext : Truncates limit (Rule.nextLink rule) (Rule.nextLink rule') := by
    refine (refl _).bind fun j? => ?_
    cases j? with
    | none => exact refl _
    | some j => exact (refl _).bind fun _ => h.bind fun _ => refl _
  exact h.bind fun _ => hnext.many.bind fun _ => refl _

theorem group {body body' : Rule Chain} (h : Truncates limit body body') (b : Bool) :
    Truncates limit (Rule.group body b) (Rule.group body' b) := by
  have hbody : Truncates limit (Rule.groupBody body) (Rule.groupBody body') :=
    (refl _).bind fun _ => (refl _).bind fun _ => h.bind fun _ => refl _
  exact hbody.opened.bind fun _ => refl _

/-- With fewer levels left, the groups are the same up to the first that is too deep. -/
theorem chain {d : Dialect} {limit' n n' : Nat} (hn : n ≤ n') :
    Truncates limit (Rule.chain d limit n) (Rule.chain d limit' n') := by
  induction n generalizing n' with
  | zero => cases n' <;> exact links (condition fun _ => tooDeep _)
  | succ n ih =>
    cases n' with
    | zero => exact absurd hn (Nat.not_succ_le_zero n)
    | succ n' => exact links (condition (group (ih (Nat.le_of_succ_le_succ hn))))

theorem clauseSet {x x' : Rule Chain} (h : Truncates limit x x') :
    Truncates limit (Rule.clauseSet x) (Rule.clauseSet x') := by
  have hwhere : Truncates limit (Rule.clause? .where_ x) (Rule.clause? .where_ x') :=
    (refl _).bind fun _ => .ite ((refl _).bind fun _ => h.bind fun _ => refl _) (refl _)
  exact (refl _).bind fun _ => (refl _).bind fun _ => (refl _).bind fun _ => (refl _).bind fun _ =>
    hwhere.bind fun _ => refl _

theorem whole (h : Truncates limit rule rule') :
    Truncates limit (Rule.whole rule) (Rule.whole rule') :=
  (refl _).bind fun _ => h.bind fun _ => refl _

end Truncates

end Rule

/-! ## Calls -/

namespace Call

/-- How deep groups nest in what a call answers. -/
def depth : (k : Call) → k.Answer → Nat
  | .chain, c => Chain.depth c
  | .clauseSet, s => s.whereClause.elim 0 Chain.depth
  | .literal, _ => 0

variable {d : Dialect} {m n : Nat} {k : Call} {s : List Char} {a : k.Answer}

theorem Layout.depth_le (h : k.Layout d n s a) : k.depth a ≤ n := by
  cases k with
  | chain => exact h.2
  | clauseSet =>
    cases h with
    | mk _ hwhere _ _ _ _ =>
      rw [depth]
      generalize a.whereClause = ch? at hwhere
      cases hwhere with
      | absent => exact Nat.zero_le n
      | present _ _ _ _ hs => exact hs.2
  | literal => exact Nat.zero_le n

/-- A layout allows all limits from its depth on. -/
theorem Layout.of_depth_le (h : k.Layout d n s a) (hm : k.depth a ≤ m) : k.Layout d m s a := by
  cases k with
  | chain => exact ⟨h.1, hm⟩
  | clauseSet =>
    cases h with
    | mk hhead hwhere hgroup horder hoffset hlimit =>
      refine .mk hhead (hwhere.mono fun t ch hch ht => ⟨ht.1, ?_⟩) hgroup horder hoffset hlimit
      rwa [depth, hch] at hm
  | literal => exact h

end Call

/-- The text is refused, and the limit is named. -/
def RefusedForDepth {α : Type} (limit : Nat) (x : Except ParseError α) : Prop :=
  ∃ e, x = .error e ∧ e.kind = .syntactic ∧
    e.message = "Groups nested deeper than " ++ Decimal.ofNat limit ++ " levels"

namespace Parser

variable {d : Dialect} {m m' : Nat} {text : String} {k : Call} {a : k.Answer}

theorem run_truncates {α : Type} {p q : Parser} {rule rule' : Rule α}
    (h : Rule.Truncates m rule rule') (hc : p.cursor = q.cursor) :
    (p.run rule).1 = (q.run rule').1 ∨ RefusedForDepth m (p.run rule).1 := by
  rw [run, run, ← hc]
  rcases h p.cursor with hx | ⟨r, hr, hdepth⟩
  · rw [hx]
    left
    cases rule' p.cursor <;> rfl
  · rw [hr]
    rw [Refusal.ForDepth] at hdepth
    exact .inr ⟨r.error, rfl, by rw [ParseError.kind, hdepth]; rfl,
      by rw [ParseError.message, hdepth]; rfl⟩

theorem rule_truncates (h : m ≤ m') :
    Rule.Truncates m ((ofString d m text).rule k) ((ofString d m' text).rule k) := by
  cases k with
  | chain => exact .chain h
  | clauseSet => exact .clauseSet (.chain h)
  | literal => exact .refl _

/-- The lower limit changes nothing, or it is what the text is refused for. -/
theorem call_truncates (h : m ≤ m') :
    ((ofString d m text).call k).1 = ((ofString d m' text).call k).1 ∨
      RefusedForDepth m ((ofString d m text).call k).1 := by
  by_cases hk : k.Allowed d
  · have hp : k.Allowed (ofString d m text).dialect := hk
    have hq : k.Allowed (ofString d m' text).dialect := hk
    rw [call_eq_run hp, call_eq_run hq]
    exact run_truncates (rule_truncates h).whole rfl
  · have hp : ¬ k.Allowed (ofString d m text).dialect := hk
    have hq : ¬ k.Allowed (ofString d m' text).dialect := hk
    rw [call_of_not_allowed hp, call_of_not_allowed hq]
    exact .inl rfl

theorem depth_le_of_ok (h : ((ofString d m text).call k).1 = .ok a) : k.depth a ≤ m := by
  obtain ⟨_, _, _, -, -, hs, -⟩ := (call_ofString_eq_ok_iff (allowed_of_ok h)).1 h
  exact hs.depth_le

theorem ok_of_depth_le (h : ((ofString d m' text).call k).1 = .ok a) (hm : k.depth a ≤ m) :
    ((ofString d m text).call k).1 = .ok a := by
  have hk : k.Allowed d := allowed_of_ok h
  obtain ⟨v, s, w, ht, hv, hs, hw⟩ := (call_ofString_eq_ok_iff hk).1 h
  exact (call_ofString_eq_ok_iff hk).2 ⟨v, s, w, ht, hv, hs.of_depth_le hm, hw⟩

/-- What is answered under a limit is answered under every lower one down to its depth, and below
that the text is refused for its depth. A text that is refused is refused under every lower limit,
with the same error or for its depth. -/
theorem call_of_lower_limit (d : Dialect) (k : Call) (text : String) (m m' : Nat) (h : m ≤ m') :
    (∀ a, ((ofString d m' text).call k).1 = .ok a →
      (k.depth a ≤ m → ((ofString d m text).call k).1 = .ok a) ∧
        (m < k.depth a → RefusedForDepth m ((ofString d m text).call k).1)) ∧
      ∀ e, ((ofString d m' text).call k).1 = .error e →
        ((ofString d m text).call k).1 = .error e ∨
          RefusedForDepth m ((ofString d m text).call k).1 := by
  constructor
  · refine fun a ha => ⟨ok_of_depth_le ha, fun hdeep => ?_⟩
    rcases call_truncates h with hsame | hrefused
    · exact absurd (depth_le_of_ok (hsame.trans ha)) (Nat.not_le_of_lt hdeep)
    · exact hrefused
  · intro e he
    rw [← he]
    exact call_truncates h

/-- The deeper of two groups decides. -/
theorem call_of_lower_limit_two_groups :
    let c : Chain := [⟨none, false, .group false [⟨none, false, .isNull "a"⟩]⟩,
      ⟨some .and, false, .group true [⟨none, false, .group false [⟨none, false, .isNull "b"⟩]⟩,
        ⟨some .or, false, .eq "c" (.text "é")⟩]⟩]
    1 ≤ 2 ∧ Call.depth .chain c = 2 ∧
      ((ofString .expression 2 "(a IS NULL) AND NOT ((b IS NULL) OR c = 'é')").call .chain).1 =
        .ok c ∧
      RefusedForDepth 1
        (((ofString .expression 1 "(a IS NULL) AND NOT ((b IS NULL) OR c = 'é')").call
          .chain).1) := by
  intro c
  have hdepth : Call.depth .chain c = 2 := by decide
  have hok : ((ofString .expression 2 "(a IS NULL) AND NOT ((b IS NULL) OR c = 'é')").call
      .chain).1 = .ok c := by rfl
  refine ⟨by decide, hdepth, hok, ?_⟩
  exact ((call_of_lower_limit .expression .chain _ 1 2 (by decide)).1 c hok).2
    (by rw [hdepth]; decide)

end Parser

end FilterQuery
