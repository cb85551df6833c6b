import FilterQuery.Proofs.Reading.Acceptance
import FilterQuery.Proofs.Reading.Refusals

/-!
Groups that nest too deep. A text that is a layout of a chain with more nested groups than the limit
allows is refused, and always for its depth: all that stands before the first group below the limit
is read as in a text within it.
-/

namespace FilterQuery

/-- The limit is named as the cause. -/
def Refusal.ForDepth (limit : Nat) (r : Refusal) : Prop :=
  r.error.cause = .groupDepth limit

namespace Rule

variable {α : Type} {c e : Cursor} {d : Dialect} {limit n : Nat}

/-- The rule refuses, for the limit, every layout that can end where it ends. -/
def RefusesDepth (dotted : Bool) (limit : Nat) (rule : Rule α) (Layout : List Char → α → Prop)
    (Ends : List Char → Cursor → Prop) : Prop :=
  ∀ ⦃c s a e⦄, c.dotted = dotted → c.Passes s e → Layout s a → Ends s e →
    ∃ r, rule c = .error r ∧ r.ForDepth limit

/-- The layouts of conditions with groups more than `n` deep. -/
def DeepConditionText (d : Dialect) (n : Nat) (s : List Char) (p : Bool × Condition) : Prop :=
  ConditionLayout d s p.1 p.2 ∧ n < p.2.depth

/-- The layouts of groups that nest more than `n` deep. -/
def DeepGroupText (d : Dialect) (n : Nat) (negated : Bool) (s : List Char) (x : Condition) : Prop :=
  ∃ body, x = .group negated body ∧ GroupLayout d s body ∧ n < x.depth

/-- The layouts of chains with groups more than `n` deep. -/
def DeepChainText (d : Dialect) (n : Nat) (s : List Char) (ch : Chain) : Prop :=
  ChainLayout d s ch ∧ n < Chain.depth ch

theorem condition_refusesDepth {group : Bool → Rule Condition}
    (hgroup : ∀ b, RefusesDepth d.dottedNames limit (group b) (DeepGroupText d n b)
      fun _ _ => True) :
    RefusesDepth d.dottedNames limit (condition d group) (DeepConditionText d n) CanEnd := by
  rintro c s ⟨_, _⟩ e hc h ⟨hs, hdepth⟩ -
  cases hs with
  | leaf | notLeaf => exact absurd hdepth (Nat.not_lt_zero n)
  | group hg hs =>
    have hopen : c.peek? = some '(' := by rw [h.peek? hs.starts.ne_nil, hs.head?]
    obtain ⟨r, hr, hcause⟩ := hgroup false hc h ⟨_, rfl, hs, hdepth⟩ trivial
    exact ⟨r, by rw [condition_of_group hopen hg, bind_of_error hr], hcause⟩
  | notGroup hneg hk hw hs =>
    obtain ⟨f, hf, hp, hcond⟩ := condition_of_not group
      (by rw [hneg, Bool.or_true]) hk hw hs.starts (fun _ => hs.head?) h
    have hopen : f.skipBlanks.peek? = some '(' := by rw [hp.peek? hs.starts.ne_nil, hs.head?]
    have hfd : f.skipBlanks.dotted = d.dottedNames := hf.trans hc
    obtain ⟨r, hr, hcause⟩ := hgroup true hfd hp ⟨_, rfl, hs, hdepth⟩ trivial
    exact ⟨r, by rw [hcond, negated_of_group hopen hneg, bind_of_error hr], hcause⟩

section Links

variable {rule : Rule (Bool × Condition)}

/-- The links up to the first that is too deep are read, and that one is refused. -/
theorem stops_of_linksLayout (hrule : Complete d.dottedNames rule (ConditionText d n) CanEnd)
    (hdeep : RefusesDepth d.dottedNames limit rule (DeepConditionText d n) CanEnd)
    {before t : List Char} {ls : List Link} (h : c.Passes t e) (hc : c.dotted = d.dottedNames)
    (hpast : c.past.head? = before.getLast?) (ht : LinksLayout d before t ls)
    (hdepth : n < Chain.depth ls) (hcan : CanEnd (before ++ t) e) :
    ∃ r, Stops (nextLink rule) c r ∧ r.ForDepth limit := by
  induction ls generalizing c before t with
  | nil => exact absurd hdepth (Nat.not_lt_zero n)
  | cons l ls ih =>
    cases ht with
    | @cons _ v k w s t j negated x _ hv hclose hk hw hopen hs ht =>
      obtain ⟨a, b, ha, hca, hsb, hbe⟩ := link_of_layout hpast hv hclose hk hw hopen hs h
      have had : a.skipBlanks.dotted = d.dottedNames := hca.trans hc
      have hcan' : CanEnd (s ++ t) e :=
        CanEnd.append (s := before ++ v ++ k ++ w) (by simpa using hcan)
          (by simp [hs.starts.ne_nil])
      have hend : CanEnd s b := canEnd_before_links ht hbe hcan'
      by_cases hx : x.depth ≤ n
      · have hread : rule a.skipBlanks = .ok ((negated, x), b) := hrule had hsb ⟨hs, hx⟩ hend
        have hls : n < Chain.depth ls := by
          rw [Chain.depth] at hdepth
          omega
        obtain ⟨r, hr, hcause⟩ := ih hbe (hsb.dotted.trans had)
          (hsb.head?_past hs.starts.ne_nil) ht hls hcan'
        have hlink : nextLink rule c = .ok (some ⟨some j, negated, x⟩, b) :=
          nextLink_eq_ok_some_iff.2 ⟨j, negated, x, a, rfl, ha, hread⟩
        exact ⟨r, .later hlink hr, hcause⟩
      · have hlay : DeepConditionText d n s (negated, x) := ⟨hs, Nat.lt_of_not_le hx⟩
        obtain ⟨r, hr, hcause⟩ := hdeep had hsb hlay hend
        exact ⟨r, .now (nextLink_eq_error_iff.2 ⟨j, a, ha, hr⟩), hcause⟩

theorem links_refusesDepth (hsound : Sound d.dottedNames rule (ConditionText d n))
    (hrule : Complete d.dottedNames rule (ConditionText d n) CanEnd)
    (hdeep : RefusesDepth d.dottedNames limit rule (DeepConditionText d n) CanEnd) :
    RefusesDepth d.dottedNames limit (links rule) (DeepChainText d n) ChainEnds := by
  rintro c s ch e hc h ⟨hs, hdepth⟩ ⟨hcan, -⟩
  cases hs with
  | @mk s t negated x ls hs ht =>
    obtain ⟨a, ha, hae⟩ := Cursor.Passes.append_iff.1 h
    have hend : CanEnd s a := canEnd_before_links ht hae hcan
    rw [links]
    by_cases hx : x.depth ≤ n
    · have hfirst : rule c = .ok ((negated, x), a) := hrule hc ha ⟨hs, hx⟩ hend
      have hls : n < Chain.depth ls := by
        rw [Chain.depth] at hdepth
        omega
      obtain ⟨r, hr, hcause⟩ := stops_of_linksLayout hrule hdeep hae (ha.dotted.trans hc)
        (ha.head?_past hs.starts.ne_nil) ht hls hcan
      have hmany : many (nextLink rule) a = .error r :=
        (many_eq_error_iff (nextLink_shrinks hsound) (ha.dotted.trans hc)).2 hr
      refine ⟨r, ?_, hcause⟩
      rw [bind_of_ok hfirst]
      exact bind_of_error hmany _
    · have hlay : DeepConditionText d n s (negated, x) := ⟨hs, Nat.lt_of_not_le hx⟩
      obtain ⟨r, hr, hcause⟩ := hdeep hc ha hlay hend
      exact ⟨r, bind_of_error hr _, hcause⟩

end Links

theorem group_refusesDepth {body : Rule Chain}
    (hbody : RefusesDepth d.dottedNames limit body (DeepChainText d n) ChainEnds) (b : Bool) :
    RefusesDepth d.dottedNames limit (group body b) (DeepGroupText d (n + 1) b)
      fun _ _ => True := by
  rintro c s _ e hc h ⟨ch, rfl, hs, hdepth⟩ -
  rw [Condition.depth] at hdepth
  cases hs with
  | mk hv hs hw =>
    obtain ⟨a, g, ha, hav, hg, -, hend⟩ := group_of_layout hv hs hw h
    have had : a.skipBlanks.dotted = d.dottedNames := hav.trans hc
    have hlay : DeepChainText d n _ ch := ⟨hs, by omega⟩
    obtain ⟨r, hr, hcause⟩ := hbody had hg hlay hend
    have hrefuse : groupBody body c = .error r := by
      rw [groupBody, bind_of_ok ha, skipBlanks_bind]
      exact bind_of_error hr _
    rw [group]
    exact ⟨_, bind_of_error (opened_eq_error_iff.2 ⟨r, hrefuse, rfl⟩) _, hcause⟩

variable {levels : Nat}

/-- The levels that are left are too few for the groups of a deeper layout. -/
theorem chain_refusesDepth :
    RefusesDepth d.dottedNames limit (chain d limit levels) (DeepChainText d levels) ChainEnds := by
  induction levels with
  | zero =>
    exact links_refusesDepth condition_tooDeep_sound condition_tooDeep_complete
      (condition_refusesDepth fun b c s x e _ _ _ _ => ⟨_, rfl, rfl⟩)
  | succ n ih =>
    exact links_refusesDepth (condition_sound (group_sound chain_sound))
      (condition_complete (group_complete chain_complete))
      (condition_refusesDepth (group_refusesDepth ih))

/-- Blanks around a layout change nothing of that. -/
theorem whole_chain_refusesDepth {v s w : List Char} {ch : Chain} (hc : c.dotted = d.dottedNames)
    (ht : c.rest = v ++ s ++ w) (hv : Blanks v) (hs : DeepChainText d n s ch) (hw : Blanks w) :
    ∃ r, whole (chain d limit n) c = .error r ∧ r.ForDepth limit := by
  obtain ⟨e, hp, he⟩ := c.passes_all
  rw [ht] at hp
  obtain ⟨g, hg, hge⟩ := Cursor.Passes.append_iff.1 hp
  obtain ⟨hvc, hsg⟩ := hg.skipBlanks_append hv hs.1.starts
  have hend : g.AtTextEnd := hge.atTextEnd hw he
  obtain ⟨r, hr, hcause⟩ := chain_refusesDepth (hvc.dotted.trans hc) hsg hs (.of_textEnd hend)
  exact ⟨r, whole_of_error hr, hcause⟩

end Rule

variable {d : Dialect} {maxDepth : Nat} {text : String} {c : Chain}

/-- A text whose groups nest too deep, and that is a layout of a chain otherwise, is refused for its
depth. -/
theorem parseChain_eq_error_of_depth {v s w : List Char} (ht : text.toList = v ++ s ++ w)
    (hv : Blanks v) (hs : ChainLayout d s c) (hw : Blanks w) (hdepth : maxDepth < Chain.depth c) :
    ∃ e, parseChain d maxDepth text = .error e ∧ e.cause = .groupDepth maxDepth := by
  have hrefuse : ∃ r, Rule.whole (Rule.chain d maxDepth maxDepth) (.ofString text d.dottedNames) =
      .error r ∧ r.ForDepth maxDepth :=
    Rule.whole_chain_refusesDepth rfl ht hv ⟨hs, hdepth⟩ hw
  obtain ⟨r, hr, hcause⟩ := hrefuse
  exact ⟨r.error, Parser.run_eq_error_iff.2 ⟨r, hr, rfl⟩, hcause⟩

end FilterQuery
