import FilterQuery.Proofs.Reading.Chains
import FilterQuery.Proofs.Refusal.Literals

/-!
Where conditions and chains break off. A test, a condition or the rest of a group that is missing
can be written anew, and every group that is open can be closed. What was read of a name and of the
word `NOT` is kept: either goes on as it was read.
-/

namespace FilterQuery

/-! ## Completions -/

/-- The name `a` and a test on it. -/
theorem exists_leafLayout (dotted : Bool) : ∃ s l, LeafLayout dotted s l ∧ l.field ≠ "NOT" := by
  have hname : IsIdentifier dotted "a" := by cases dotted <;> decide
  exact ⟨_, .nullCheck "a" true, .mk hname (.nullCheck true .blank (.text .isNull)), by decide⟩

theorem exists_conditionLayout (d : Dialect) : ∃ s l, ConditionLayout d s false (.leaf l) := by
  obtain ⟨s, l, hs, hne⟩ := exists_leafLayout d.dottedNames
  exact ⟨s, l, .leaf hs fun _ => hne⟩

theorem Begins.condition (d : Dialect) (n : Nat) : Begins (ConditionText d n) [] := by
  obtain ⟨s, l, hs⟩ := exists_conditionLayout d
  exact ⟨s, (false, .leaf l), hs, Condition.depth_leaf_le l n⟩

section Tests

variable {field : String} {v k w s : List Char}

theorem Begins.membership (negated : Bool) (hv : Gap v)
    (hk : KeywordLayout k (if negated then .notIn else .in_)) (hw : Blanks w)
    (hs : Begins ListLayout s) : Begins (TestLayout field) (v ++ k ++ w ++ s) := by
  obtain ⟨x, ls, hx⟩ := hs
  exact ⟨x, _, by simpa using TestLayout.membership negated hv hk hw hx⟩

/-- A literal that has not begun may need a blank before it. -/
theorem Begins.like (negated : Bool) (hv : Gap v)
    (hk : KeywordLayout k (if negated then .notLike else .like)) (hw : Blanks w)
    (hword : w = [] → s.head?.any isWordChar = false) (hs : Begins ScalarLayout s) :
    Begins (TestLayout field) (v ++ k ++ w ++ s) := by
  by_cases hn : w = [] ∧ s = []
  · obtain ⟨rfl, rfl⟩ := hn
    have h : TestLayout field _ _ :=
      .like negated hv hk Gap.blank.blanks (fun hn => absurd hn (by simp)) .one
    exact ⟨[' ', '1'], _, by simpa using h⟩
  · obtain ⟨x, l, hx⟩ := hs
    have hword' (hw' : w = []) : (s ++ x).head?.any isWordChar = false := by
      have hs' : s ≠ [] := fun hs' => hn ⟨hw', hs'⟩
      rw [List.head?_append, Option.or_of_isSome (by simpa using hs')]
      exact hword hw'
    exact ⟨x, _, by simpa using TestLayout.like negated hv hk hw hword' hx⟩

theorem Begins.symbol {y : String} {op : Operator} (hv : Blanks v)
    (hy : (y, op) ∈ Operator.symbols) (hw : Blanks w) (hs : Begins ScalarLayout s) :
    Begins (TestLayout field) (v ++ y.toList ++ w ++ s) := by
  obtain ⟨x, l, hx⟩ := hs
  exact ⟨x, _, by simpa using TestLayout.symbol hv hy hw hx⟩

/-- Blanks behind a name may stand before an operator. -/
theorem Begins.operator (hv : Blanks v) : Begins (TestLayout field) v :=
  ⟨['=', '1'], .comparison field .eq (.integer 1),
    by simpa using TestLayout.symbol (y := "=") hv (by decide) .nil .one⟩

end Tests

section Conditions

variable {d : Dialect} {n : Nat} {k w s : List Char}

theorem Begins.leaf {field : String} (hi : IsIdentifier d.dottedNames field)
    (hne : d.leafNegation = true → field ≠ "NOT") (hs : Begins (TestLayout field) s) :
    Begins (ConditionText d n) (field.toList ++ s) := by
  obtain ⟨x, l, hx⟩ := hs
  obtain rfl := hx.field
  have hl : LeafLayout d.dottedNames (l.field.toList ++ (s ++ x)) l := .mk hi hx
  exact ⟨x, (false, .leaf l), by simpa using ConditionLayout.leaf hl hne,
    Condition.depth_leaf_le l n⟩

theorem Begins.notLeaf {field : String} (hneg : d.leafNegation = true)
    (hk : KeywordLayout k .not) (hw : Gap w) (hi : IsIdentifier d.dottedNames field)
    (hs : Begins (TestLayout field) s) :
    Begins (ConditionText d n) (k ++ w ++ (field.toList ++ s)) := by
  obtain ⟨x, l, hx⟩ := hs
  obtain rfl := hx.field
  have hl : LeafLayout d.dottedNames (l.field.toList ++ (s ++ x)) l := .mk hi hx
  exact ⟨x, (true, .leaf l), by simpa using ConditionLayout.notLeaf hneg hk hw hl,
    Condition.depth_leaf_le l n⟩

theorem Begins.group (hg : d.grouping = true) (hs : Begins (GroupText d n false) s) :
    Begins (ConditionText d n) s := by
  obtain ⟨x, _, body, rfl, hx, hdepth⟩ := hs
  exact ⟨x, (false, .group false body), .group hg hx, hdepth⟩

theorem Begins.notGroup (hneg : d.groupNegation = true) (hk : KeywordLayout k .not)
    (hw : Blanks w) (hs : Begins (GroupText d n true) s) :
    Begins (ConditionText d n) (k ++ w ++ s) := by
  obtain ⟨x, _, body, rfl, hx, hdepth⟩ := hs
  exact ⟨x, (false, .group true body), by simpa using ConditionLayout.notGroup hneg hk hw hx,
    hdepth⟩

/-- The word `NOT` begins a negated leaf, or a leaf with this name. -/
theorem Begins.not (hk : KeywordLayout k .not) (hw : Blanks w) :
    Begins (ConditionText d n) (k ++ w) := by
  cases hneg : d.leafNegation with
  | true =>
    obtain ⟨s, l, hs, -⟩ := exists_leafLayout d.dottedNames
    have hgap : Gap (w ++ [' ']) := ⟨hw.append Gap.blank.blanks, by simp⟩
    exact ⟨' ' :: s, (true, .leaf l), by simpa using ConditionLayout.notLeaf hneg hk hgap hs,
      Condition.depth_leaf_le l n⟩
  | false =>
    have hi : IsIdentifier d.dottedNames "NOT" := by cases d.dottedNames <;> decide
    have hs : Begins (TestLayout "NOT") w := .operator hw
    cases hk
    exact .leaf hi (by simp [hneg]) hs

theorem Begins.groupBody {v : List Char} {b : Bool} (hv : Blanks v)
    (hs : Begins (ChainText d n) s) : Begins (GroupText d (n + 1) b) ('(' :: v ++ s) := by
  obtain ⟨x, body, hx, hdepth⟩ := hs
  refine ⟨x ++ [')'], .group b body, body, rfl, ?_, ?_⟩
  · simpa using GroupLayout.mk hv hx .nil
  · rw [Condition.depth]
    omega

end Conditions

namespace Rule

variable {c e : Cursor} {d : Dialect} {n : Nat} {r : Refusal}

/-! ## Tests -/

theorem members_breaksBehind (h : members c = .error r) :
    ∃ w s, Blanks w ∧ r.BreaksBehind c (w ++ s) ∧ Begins ListLayout s := by
  obtain ⟨w, hw, hp, -⟩ := c.skipBlanks_passes
  rw [members, skipBlanks_bind] at h
  obtain ⟨s, hbehind, hs⟩ := listLiteral_timely rfl h
  exact ⟨w, s, hw, hbehind.prepend hp, hs⟩

theorem symbolOperator_breaksBehind (h : symbolOperator c = .error r) :
    ∃ v, Blanks v ∧ r.BreaksBehind c v := by
  obtain ⟨v, hv, hp, -⟩ := c.skipBlanks_passes
  rw [symbolOperator] at h
  split at h
  · cases h
  · cases h
    exact ⟨v, hv, (Refusal.BreaksAt.of_errorHere hp.sameText.symm rfl).behind hp⟩

theorem comparisonOperator_breaksBehind (h : comparisonOperator c = .error r) :
    ∃ v, Blanks v ∧ r.BreaksBehind c v := by
  simp only [comparisonOperator, ite_eatSpacedKeyword_eq_error_iff, pure_ne_error, and_false,
    exists_false, false_or] at h
  exact symbolOperator_breaksBehind h.2.2

theorem comparison_breaksBehind {field : String} (hc : c.AtWordEnd)
    (h : comparison field c = .error r) :
    ∃ s, r.BreaksBehind c s ∧ Begins (TestLayout field) s := by
  rw [comparison, bind_eq_error_iff] at h
  rcases h with h | ⟨op, f, hop, h⟩
  · obtain ⟨v, hv, hbehind⟩ := comparisonOperator_breaksBehind h
    exact ⟨v, hbehind, .operator hv⟩
  · rw [skipBlanks_bind] at h
    obtain ⟨w, hw, hwp, -⟩ := f.skipBlanks_passes
    obtain ⟨s, hbehind, hs⟩ := scalar_timely rfl (bind_pure_eq_error_iff.1 h)
    rcases comparisonOperator_eq_ok hop with ⟨negated, rfl, hf⟩ | hop
    · obtain ⟨v, k, hv, hk, hp, hend⟩ := Cursor.gap_of_eatSpacedKeyword? hc hf
      refine ⟨_, hbehind.prepend (hp.trans hwp), .like negated hv hk hw ?_ hs⟩
      -- The keyword has been read as a word, so no word character stands right behind it.
      rintro rfl
      obtain ⟨p, hsp, -⟩ := hbehind
      cases s with
      | nil => rfl
      | cons x s =>
        have hpeek : f.peek? = (x :: s).head? := (hwp.trans hsp).peek? (by simp)
        rw [← hpeek]
        exact hend.not_wordChar
    · obtain ⟨v, y, hv, hy, hp⟩ := symbolOperator_sound hop
      exact ⟨_, hbehind.prepend (hp.trans hwp), .symbol hv hy hw hs⟩

theorem test_breaksBehind {field : String} (hc : c.AtWordEnd) (h : test field c = .error r) :
    ∃ s, r.BreaksBehind c s ∧ Begins (TestLayout field) s := by
  simp only [test, ite_eatSpacedKeyword_eq_error_iff, pure_ne_error, bind_pure_eq_error_iff,
    and_false, exists_false, false_or] at h
  rcases h with ⟨-, -, ⟨f, hf, h⟩ | ⟨-, ⟨f, hf, h⟩ | ⟨-, h⟩⟩⟩
  · obtain ⟨v, k, hv, hk, hp, -⟩ := Cursor.gap_of_eatSpacedKeyword? hc hf
    obtain ⟨w, s, hw, hbehind, hs⟩ := members_breaksBehind h
    refine ⟨_, hbehind.prepend hp, ?_⟩
    simpa using Begins.membership true hv hk hw hs
  · obtain ⟨v, k, hv, hk, hp, -⟩ := Cursor.gap_of_eatSpacedKeyword? hc hf
    obtain ⟨w, s, hw, hbehind, hs⟩ := members_breaksBehind h
    refine ⟨_, hbehind.prepend hp, ?_⟩
    simpa using Begins.membership false hv hk hw hs
  · exact comparison_breaksBehind hc h

/-- A leaf breaks off at its name or behind it. -/
theorem leaf_breaks (h : leaf c = .error r) :
    r.BreaksAt c ∨ ∃ field f s, identifier c = .ok (field, f) ∧
      r.BreaksBehind c (field.toList ++ s) ∧ Begins (TestLayout field) s := by
  rw [leaf_eq, bind_eq_error_iff] at h
  rcases h with h | ⟨field, f, hfield, h⟩
  · exact .inl (identifier_putsBack h).breaksAt
  · obtain ⟨-, hp, hf⟩ := identifier_eq_ok_iff.1 hfield
    obtain ⟨s, hbehind, hs⟩ := test_breaksBehind hf h
    exact .inr ⟨field, f, s, hfield, hbehind.prepend hp, hs⟩

/-! ## Conditions -/

/-- Whatever is wrong with a leaf that is named `NOT`, the refusal is that of the negation. -/
theorem leafNamedNot_breaksAt {start : Cursor} {k : List Char} {dialect : String}
    (hk : start.Passes k c) (h : leafNamedNot start dialect c = .error r) : r.BreaksAt start := by
  obtain ⟨s, hs, rfl⟩ := mapError_eq_error_iff.1 h
  have hstop : s.stop.SameText start := by
    rcases leaf_breaks hs with hbreak | ⟨_, _, _, _, hbehind, _⟩
    · exact hbreak.sameText
    · exact hbehind.sameText
  exact .of_errorSince hk hstop rfl

section Groups

variable {group : Bool → Rule Condition}

/-- A group breaks off where it begins, or behind what can be completed to a group. -/
def GroupBreaks (d : Dialect) (n : Nat) (group : Bool → Rule Condition) : Prop :=
  ∀ ⦃b c r⦄, c.dotted = d.dottedNames → group b c = .error r →
    r.BreaksAt c ∨ ∃ s, r.BreaksBehind c s ∧ Begins (GroupText d n b) s

theorem negated_breaksBehind (hgroup : GroupBreaks d n group) {f : Cursor} {k : List Char}
    (hc : c.dotted = d.dottedNames) (hk : KeywordLayout k .not) (hkp : c.Passes k f)
    (hf : f.AtWordEnd) (h : negated d group c f = .error r) :
    ∃ s, r.BreaksBehind c s ∧ Begins (ConditionText d n) s := by
  obtain ⟨w, hw, hp, -⟩ := f.skipBlanks_passes
  have hkw := hkp.trans hp
  have hfw := hkw.dotted.trans hc
  rw [negated, skipBlanks_bind, get_bind] at h
  split at h
  · split at h
    · next hneg =>
      rcases hgroup hfw (bind_pure_eq_error_iff.1 h) with hbreak | ⟨s, hbehind, hs⟩
      · exact ⟨_, hbreak.behind hkw, .not hk hw⟩
      · exact ⟨_, hbehind.prepend hkw, .notGroup hneg hk hw hs⟩
    · exact ⟨[], (failSince_breaksAt hkw rfl h).here, .condition d n⟩
  · split at h
    · next hneg =>
      rcases leaf_breaks (bind_pure_eq_error_iff.1 h) with hbreak | ⟨field, g, s, hg, hbehind, hs⟩
      · exact ⟨_, hbreak.behind hkw, .not hk hw⟩
      · obtain ⟨hi, hg, -⟩ := identifier_eq_ok_iff.1 hg
        -- The word `NOT` and the name of the field would run together.
        have hgap : w ≠ [] := by
          rintro rfl
          exact hf.not_passes_word (hp.trans hg) hi.head?_any
        exact ⟨_, hbehind.prepend hkw, .notLeaf hneg hk ⟨hw, hgap⟩ (hfw ▸ hi) hs⟩
    · exact ⟨[], (leafNamedNot_breaksAt hkw (bind_pure_eq_error_iff.1 h)).here, .condition d n⟩

theorem condition_timely (hgroup : GroupBreaks d n group) :
    Timely d.dottedNames (condition d group) (ConditionText d n) := by
  intro c r hc h
  rw [condition, get_bind, ite_eatNegation_eq_error_iff] at h
  rcases h with ⟨f, -, hnot, h⟩ | ⟨hnot, h⟩
  · obtain ⟨k, hk, hkp, hf⟩ := Cursor.eatKeyword?_eq_some_iff.1 hnot
    exact negated_breaksBehind hgroup hc hk hkp hf h
  · rw [plain, get_bind] at h
    split at h
    · split at h
      · next hg =>
        rcases hgroup hc (bind_pure_eq_error_iff.1 h) with hbreak | ⟨s, hbehind, hs⟩
        · exact ⟨[], hbreak.here, .condition d n⟩
        · exact ⟨s, hbehind, .group hg hs⟩
      · exact ⟨[], (failSince_breaksAt (.refl c) rfl h).here, .condition d n⟩
    · rcases leaf_breaks (bind_pure_eq_error_iff.1 h) with hbreak | ⟨field, f, s, hf, hbehind, hs⟩
      · exact ⟨[], hbreak.here, .condition d n⟩
      · obtain ⟨hi, hp, hend⟩ := identifier_eq_ok_iff.1 hf
        refine ⟨_, hbehind, .leaf (hc ▸ hi) (fun hneg hfield => ?_) hs⟩
        -- A field of this name would have been read as the negation.
        have hnone : c.eatKeyword? .not = none := hnot (by rw [hneg, Bool.true_or])
        have hword : c.eatKeyword? .not = if field = "NOT" then some f else none :=
          Cursor.eatWord?_of_identifier (by decide) hi hp hend
        rw [hnone, if_pos hfield] at hword
        cases hword

end Groups

/-! ## Links -/

section Links

variable {rule : Rule (Bool × Condition)}

/-- Where the condition of a link breaks off, the link can be completed. A condition that has not
begun may need a blank between the conjunction and it. -/
theorem exists_linksLayout {a p : Cursor} {before v k w s : List Char} {j : Conjunction}
    (hv : Blanks v) (hclose : v = [] → before.getLast? = some ')') (hk : KeywordLayout k j.keyword)
    (hend : a.AtWordEnd) (hw : Blanks w) (hp : a.Passes (w ++ s) p)
    (hs : Begins (ConditionText d n) s) :
    ∃ x ls, LinksLayout d before (v ++ k ++ w ++ s ++ x) ls ∧ Chain.depth ls ≤ n := by
  by_cases hn : w = [] ∧ s = []
  · obtain ⟨rfl, rfl⟩ := hn
    obtain ⟨x, l, hx⟩ := exists_conditionLayout d
    have h := LinksLayout.cons hv hclose hk Gap.blank.blanks (by simp) hx .nil
    exact ⟨' ' :: x, _, by simpa using h, by simp [Chain.depth, Condition.depth]⟩
  · obtain ⟨x, ⟨negated, y⟩, hx, hdepth⟩ := hs
    have hopen (hw' : w = []) : (s ++ x).head? = some '(' := by
      subst hw'
      have hs' : s ≠ [] := fun hs' => hn ⟨rfl, hs'⟩
      apply opens_of_atWordEnd hend _ hx
      rw [hp.peek? hs', List.nil_append, List.head?_append,
        Option.or_of_isSome (by simpa using hs')]
    have h := LinksLayout.cons hv hclose hk hw hopen hx .nil
    exact ⟨x, _, by simpa using h, by simpa [Chain.depth] using hdepth⟩

/-- Behind a condition, the links up to where one breaks off can be completed to a layout. -/
theorem Stops.linksLayout (hsound : Sound d.dottedNames rule (ConditionText d n))
    (hrule : Timely d.dottedNames rule (ConditionText d n)) (h : Stops (nextLink rule) c r)
    (hc : c.dotted = d.dottedNames) {before : List Char}
    (hlast : before.getLast?.any endsCondition = true) (hpast : c.past.head? = before.getLast?) :
    ∃ t x ls, r.BreaksBehind c t ∧ LinksLayout d before (t ++ x) ls ∧ Chain.depth ls ≤ n := by
  induction h generalizing before with
  | @now c r hr =>
    obtain ⟨j, a, ha, hx⟩ := nextLink_eq_error_iff.1 hr
    obtain ⟨v, k, hv, hafter, hk, hp, hend⟩ := Cursor.eatSpacedKeyword?_eq_some_iff_layout.1 ha
    obtain ⟨w, hw, hwp, -⟩ := a.skipBlanks_passes
    have hcw := hp.trans hwp
    obtain ⟨s, ⟨p, hsp, hbreak⟩, hs⟩ := hrule (hcw.dotted.trans hc) hx
    have hclose (hn : v = []) := closes_of_not_afterWord hlast hpast (hafter hn)
    obtain ⟨x, ls, hlinks, hdepth⟩ :=
      exists_linksLayout hv hclose hk hend hw (hwp.trans hsp) hs
    exact ⟨_, x, ls, hbreak.behind (hcw.trans hsp), hlinks, hdepth⟩
  | @later c f l r hl _ ih =>
    obtain ⟨u, s, hp, hlast', hpast', hdepth, hcons⟩ :=
      linksLayout_of_nextLink hsound hl hc hlast hpast
    obtain ⟨t, x, ls, hbehind, hlinks, hdepths⟩ := ih (hp.dotted.trans hc) hlast' hpast'
    refine ⟨_, x, l :: ls, hbehind.prepend hp, ?_, ?_⟩
    · rw [List.append_assoc]
      exact hcons _ ls hlinks
    · rw [Chain.depth_cons]
      exact Nat.max_le.2 ⟨hdepth, hdepths⟩

theorem links_timely (hsound : Sound d.dottedNames rule (ConditionText d n))
    (hrule : Timely d.dottedNames rule (ConditionText d n)) :
    Timely d.dottedNames (links rule) (ChainText d n) := by
  intro c r hc h
  rw [links, bind_eq_error_iff] at h
  rcases h with h | ⟨⟨negated, y⟩, a, hy, h⟩
  · obtain ⟨s, hbehind, x, ⟨negated, y⟩, hx, hdepth⟩ := hrule hc h
    refine ⟨s, hbehind, x, [⟨none, negated, y⟩], ?_, by simpa [Chain.depth] using hdepth⟩
    simpa using ChainLayout.mk hx .nil
  · obtain ⟨s, hs, hlay, hdepth⟩ := hsound hc hy
    have ha := hs.dotted.trans hc
    have hstop := (many_eq_error_iff (nextLink_shrinks hsound) ha).1 (bind_pure_eq_error_iff.1 h)
    obtain ⟨t, x, ls, hbehind, hlinks, hdepths⟩ :=
      hstop.linksLayout hsound hrule ha hlay.getLast? (hs.head?_past hlay.starts.ne_nil)
    refine ⟨_, hbehind.prepend hs, x, ⟨none, negated, y⟩ :: ls, ?_, Nat.max_le.2 ⟨hdepth, hdepths⟩⟩
    rw [List.append_assoc]
    exact .mk hlay hlinks

end Links

/-! ## Groups and chains -/

/-- A group breaks off where its chain does, or where it should be closed. -/
theorem group_breaks {body : Rule Chain} (hsound : Sound d.dottedNames body (ChainText d n))
    (hbody : Timely d.dottedNames body (ChainText d n)) :
    GroupBreaks d (n + 1) (group body) := by
  intro b c r hc h
  rw [group, bind_pure_eq_error_iff, opened_eq_error_iff] at h
  obtain ⟨r, h, rfl⟩ := h
  rw [groupBody, bind_eq_error_iff] at h
  rcases h with h | ⟨⟨⟩, f, hf, h⟩
  · exact .inl ((symbol_putsBack h).breaksAt.unclosed _)
  · right
    have hopen : c.Passes ['('] f := symbol_eq_ok_iff.1 hf
    obtain ⟨v, hv, hvp, -⟩ := f.skipBlanks_passes
    have hov := hopen.trans hvp
    rw [skipBlanks_bind, bind_eq_error_iff] at h
    rcases h with h | ⟨ch, g, hg, h⟩
    · obtain ⟨s, hbehind, hs⟩ := hbody (hov.dotted.trans hc) h
      exact ⟨_, (hbehind.prepend hov).unclosed _, .groupBody hv hs⟩
    · obtain ⟨s, hs, hlay, hdepth⟩ := hsound (hov.dotted.trans hc) hg
      obtain ⟨w, hw, hwp, -⟩ := g.skipBlanks_passes
      rw [skipBlanks_bind, eat, ite_attempt_eq_error_iff] at h
      rcases h with ⟨e, -, h⟩ | ⟨-, h⟩
      · exact absurd h pure_ne_error
      · have hbreak := (unexpected_breaksAt h).unclosed (r.unclosed + 1)
        refine ⟨_, hbreak.behind ((hov.trans hs).trans hwp), [')'], .group b ch, ch, rfl, ?_, ?_⟩
        · simpa using GroupLayout.mk hv hlay hw
        · rw [Condition.depth]
          omega

variable {limit levels : Nat}

theorem chain_timely :
    Timely d.dottedNames (chain d limit levels) (ChainText d levels) := by
  induction levels with
  | zero =>
    exact links_timely condition_tooDeep_sound
      (condition_timely fun _ c _ _ h => .inl (failSince_breaksAt (.refl c) rfl h))
  | succ n ih =>
    exact links_timely (condition_sound (group_sound chain_sound))
      (condition_timely (group_breaks chain_sound ih))

end Rule

end FilterQuery
