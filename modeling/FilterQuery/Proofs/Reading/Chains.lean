import FilterQuery.Proofs.Reading.Leaves
import FilterQuery.Proofs.Reading.Refusals

/-!
Conditions and chains are read exactly where their layouts stand. The rule for groups is a
parameter of the rule for conditions, so that one induction over the levels which are left carries
both directions.
-/

namespace FilterQuery

/-- No conjunction goes on here. -/
def Cursor.NoConjunction (c : Cursor) : Prop :=
  ∀ j : Conjunction, c.eatSpacedKeyword? j.keyword = none

/-- A word ends before blanks, and right before a parenthesis. -/
theorem Cursor.Passes.atWordEnd_of_spaced {c e : Cursor} {w s : List Char}
    (h : c.Passes (w ++ s) e) (hw : Blanks w) (hs : w = [] → s.head? = some '(') :
    c.AtWordEnd := by
  cases w with
  | cons x w => exact atWordEnd_of_blank (by simpa [h.peek? (by simp)] using hw x (by simp))
  | nil =>
    obtain ⟨r, rfl⟩ := List.head?_eq_some_iff.1 (hs rfl)
    exact h.atWordEnd hw (by decide)

namespace Rule

variable {c e : Cursor} {d : Dialect} {n : Nat}

/-- A chain ends where no further condition is joined to it. -/
def ChainEnds (s : List Char) (e : Cursor) : Prop :=
  CanEnd s e ∧ e.NoConjunction

/-! ## Conditions -/

/-- The negation is taken if the dialect has one and the word stands here. -/
theorem ite_eatNegation_eq_ok_iff {β : Type} {f g : Rule β} {b : β} :
    (eatNegation d >>= fun eaten => if eaten = true then f else g) c = .ok (b, e) ↔
      (∃ a, (d.leafNegation || d.groupNegation) = true ∧ c.eatKeyword? .not = some a ∧
        f a = .ok (b, e)) ∨
      ((d.leafNegation || d.groupNegation) = true → c.eatKeyword? .not = none) ∧
        g c = .ok (b, e) := by
  rw [eatNegation]
  cases d.leafNegation || d.groupNegation with
  | true =>
    rw [if_pos rfl, eatKeyword, ite_attempt_eq_ok_iff]
    simp
  | false =>
    rw [if_neg Bool.false_ne_true, bind_of_ok (a := false) (d := c) rfl]
    simp

theorem ite_eatNegation_eq_error_iff {β : Type} {f g : Rule β} {r : Refusal} :
    (eatNegation d >>= fun eaten => if eaten = true then f else g) c = .error r ↔
      (∃ a, (d.leafNegation || d.groupNegation) = true ∧ c.eatKeyword? .not = some a ∧
        f a = .error r) ∨
      ((d.leafNegation || d.groupNegation) = true → c.eatKeyword? .not = none) ∧
        g c = .error r := by
  rw [eatNegation]
  cases d.leafNegation || d.groupNegation with
  | true =>
    rw [if_pos rfl, eatKeyword, ite_attempt_eq_error_iff]
    simp
  | false =>
    rw [if_neg Bool.false_ne_true, bind_of_ok (a := false) (d := c) rfl]
    simp

theorem leafNamedNot_eq_ok_iff {start : Cursor} {dialect : String} {l : Leaf} :
    leafNamedNot start dialect c = .ok (l, e) ↔ leaf start = .ok (l, e) :=
  mapError_eq_ok_iff

section Groups

variable {group : Bool → Rule Condition}

theorem negated_sound (hgroup : ∀ b, Sound d.dottedNames (group b) (GroupText d n b))
    {f : Cursor} {k : List Char} {p : Bool × Condition} (hc : c.dotted = d.dottedNames)
    (hk : KeywordLayout k .not) (hkp : c.Passes k f) (hf : f.AtWordEnd)
    (h : negated d group c f = .ok (p, e)) : ∃ s, c.Passes s e ∧ ConditionText d n s p := by
  obtain ⟨w, hw, hp, -⟩ := f.skipBlanks_passes
  have hkw := hkp.trans hp
  have hfw := hkw.dotted.trans hc
  rw [negated, skipBlanks_bind, get_bind] at h
  split at h
  · split at h
    · next hneg =>
      obtain ⟨x, hx, rfl⟩ := bind_pure_eq_ok_iff.1 h
      obtain ⟨s, hs, body, rfl, hlay, hdepth⟩ := hgroup true hfw hx
      exact ⟨_, hkw.trans hs, .notGroup hneg hk hw hlay, hdepth⟩
    · exact absurd h failSince_ne_ok
  · split at h
    · next hneg =>
      obtain ⟨l, hl, rfl⟩ := bind_pure_eq_ok_iff.1 h
      obtain ⟨s, hs, hlay⟩ := leaf_sound hfw hl
      -- The word `NOT` and the name of the field would run together.
      have hgap : w ≠ [] := by
        rintro rfl
        exact hf.not_passes_word (hp.trans hs) hlay.head?
      exact ⟨_, hkw.trans hs, .notLeaf hneg hk ⟨hw, hgap⟩ hlay, Condition.depth_leaf_le _ _⟩
    · next hneg =>
      obtain ⟨l, hl, rfl⟩ := bind_pure_eq_ok_iff.1 h
      obtain ⟨s, hs, hlay⟩ := leaf_sound hc (leafNamedNot_eq_ok_iff.1 hl)
      exact ⟨s, hs, .leaf hlay fun h => absurd h hneg, Condition.depth_leaf_le _ _⟩

theorem condition_sound (hgroup : ∀ b, Sound d.dottedNames (group b) (GroupText d n b)) :
    Sound d.dottedNames (condition d group) (ConditionText d n) := by
  intro c p e hc h
  rw [condition, get_bind, ite_eatNegation_eq_ok_iff] at h
  rcases h with ⟨f, -, hnot, h⟩ | ⟨hnot, h⟩
  · obtain ⟨k, hk, hkp, hf⟩ := Cursor.eatKeyword?_eq_some_iff.1 hnot
    exact negated_sound hgroup hc hk hkp hf h
  · rw [plain, get_bind] at h
    split at h
    · split at h
      · next hgrouping =>
        obtain ⟨x, hx, rfl⟩ := bind_pure_eq_ok_iff.1 h
        obtain ⟨s, hs, body, rfl, hlay, hdepth⟩ := hgroup false hc hx
        exact ⟨s, hs, .group hgrouping hlay, hdepth⟩
      · exact absurd h failSince_ne_ok
    · obtain ⟨l, hl, rfl⟩ := bind_pure_eq_ok_iff.1 h
      obtain ⟨s, hs, hlay⟩ := leaf_sound hc hl
      refine ⟨s, hs, .leaf hlay fun hneg hfield => ?_, Condition.depth_leaf_le _ _⟩
      have hnone : c.eatKeyword? .not = none := hnot (by rw [hneg, Bool.true_or])
      rcases leaf_named_not (hc ▸ hlay) hs with ⟨hne, -⟩ | ⟨-, f, hf, -⟩
      · exact hne hfield
      · rw [hnone] at hf
        cases hf

theorem peek?_ne_open {s : List Char} {l : Leaf} (h : c.Passes s e)
    (hs : LeafLayout d.dottedNames s l) : c.peek? ≠ some '(' := by
  obtain ⟨x, hx, hw⟩ := (Option.any_eq_true _ _).1 hs.head?
  rw [h.peek? hs.starts.ne_nil, hx]
  rintro ⟨⟩
  cases hw

theorem plain_of_leaf {s : List Char} {l : Leaf} (hc : c.dotted = d.dottedNames)
    (h : c.Passes s e) (hs : LeafLayout d.dottedNames s l) (hend : CanEnd s e) :
    plain d group c = .ok ((false, .leaf l), e) := by
  have hopen : c.peek? ≠ some '(' := peek?_ne_open h hs
  have hl : leaf c = .ok (l, e) := leaf_complete hc h hs hend
  rw [plain, get_bind, if_neg hopen, bind_of_ok hl]
  rfl

theorem condition_of_leaf {s : List Char} {l : Leaf} (hc : c.dotted = d.dottedNames)
    (h : c.Passes s e) (hs : LeafLayout d.dottedNames s l)
    (hne : d.leafNegation = true → l.field ≠ "NOT") (hend : CanEnd s e) :
    condition d group c = .ok ((false, .leaf l), e) := by
  rw [condition, get_bind, ite_eatNegation_eq_ok_iff]
  have hplain : plain d group c = .ok ((false, .leaf l), e) := plain_of_leaf hc h hs hend
  rcases leaf_named_not (hc ▸ hs) h with ⟨-, hnot⟩ | ⟨hf, f, hnot, hopen⟩
  · exact .inr ⟨fun _ => hnot, hplain⟩
  · have hln : d.leafNegation = false := Bool.eq_false_iff.2 fun hln => hne hln hf
    by_cases hgn : d.groupNegation = true
    · -- The negation of groups takes the word first, and gives it back to the leaf.
      refine .inl ⟨f, by rw [hgn, Bool.or_true], hnot, ?_⟩
      have hl : leafNamedNot c d.name f.skipBlanks = .ok (l, e) :=
        leafNamedNot_eq_ok_iff.2 (leaf_complete hc h hs hend)
      rw [negated, skipBlanks_bind, get_bind, if_neg hopen, hln, if_neg Bool.false_ne_true,
        bind_of_ok hl]
      rfl
    · refine .inr ⟨fun hneg => ?_, hplain⟩
      simp [hln, hgn] at hneg

theorem condition_of_eatKeyword {f : Cursor} (hneg : (d.leafNegation || d.groupNegation) = true)
    (hf : c.eatKeyword? .not = some f) : condition d group c = negated d group c f := by
  rw [condition, get_bind, eatNegation, if_pos hneg, eatKeyword, attempt_bind, hf]
  rfl

variable (group) in
/-- A negation is taken off a layout that has one. -/
theorem condition_of_not {k w s : List Char} (hneg : (d.leafNegation || d.groupNegation) = true)
    (hk : KeywordLayout k .not) (hw : Blanks w) (hs : Starts s)
    (hopen : w = [] → s.head? = some '(') (h : c.Passes (k ++ w ++ s) e) :
    ∃ f : Cursor, f.dotted = c.dotted ∧ f.skipBlanks.Passes s e ∧
      condition d group c = negated d group c f := by
  rw [List.append_assoc] at h
  obtain ⟨f, hf, hfe⟩ := eatKeyword?_of_layout hk h
    fun f hf => hf.atWordEnd_of_spaced hw hopen
  obtain ⟨_, _, hkp, _⟩ := Cursor.eatKeyword?_eq_some_iff.1 hf
  exact ⟨f, hkp.dotted, (hfe.skipBlanks_append hw hs).2, condition_of_eatKeyword hneg hf⟩

theorem condition_of_group (h : c.peek? = some '(') (hg : d.grouping = true) :
    condition d group c = (group false >>= fun x => pure (false, x)) c := by
  have hnot : c.eatKeyword? .not = none :=
    Cursor.eatKeyword?_eq_none_of_not_wordStart (by rw [h]; rfl)
  have hplain : plain d group c = (group false >>= fun x => pure (false, x)) c := by
    rw [plain, get_bind, if_pos h, if_pos hg]
  rw [condition, get_bind, eatNegation]
  split
  · rw [eatKeyword, attempt_bind, hnot]
    exact hplain
  · exact hplain

theorem negated_of_group {f : Cursor} (h : f.skipBlanks.peek? = some '(')
    (hneg : d.groupNegation = true) :
    negated d group c f = (group true >>= fun x => pure (false, x)) f.skipBlanks := by
  rw [negated, skipBlanks_bind, get_bind, if_pos h, if_pos hneg]

theorem condition_complete
    (hgroup : ∀ b, Complete d.dottedNames (group b) (GroupText d n b) fun _ _ => True) :
    Complete d.dottedNames (condition d group) (ConditionText d n) CanEnd := by
  rintro c s ⟨_, _⟩ e hc h ⟨hs, hdepth⟩ hend
  cases hs with
  | leaf hs hne => exact condition_of_leaf hc h hs hne hend
  | notLeaf hneg hk hw hs =>
    obtain ⟨f, hf, hp, hcond⟩ := condition_of_not group
      (by rw [hneg, Bool.true_or]) hk hw.blanks hs.starts (fun hn => absurd hn hw.ne_nil) h
    have hopen : f.skipBlanks.peek? ≠ some '(' := peek?_ne_open hp hs
    have hl : leaf f.skipBlanks = .ok (_, e) :=
      leaf_complete (hf.trans hc) hp hs (hend.append hs.starts.ne_nil)
    rw [hcond, negated, skipBlanks_bind, get_bind, if_neg hopen, if_pos hneg, bind_of_ok hl]
    rfl
  | @group s body hg hs =>
    have hopen : c.peek? = some '(' := by rw [h.peek? hs.starts.ne_nil, hs.head?]
    have hx : group false c = .ok (.group false body, e) :=
      hgroup false hc h ⟨_, rfl, hs, hdepth⟩ trivial
    rw [condition_of_group hopen hg, bind_of_ok hx]
    rfl
  | @notGroup k w s body hneg hk hw hs =>
    obtain ⟨f, hf, hp, hcond⟩ := condition_of_not group
      (by rw [hneg, Bool.or_true]) hk hw hs.starts (fun _ => hs.head?) h
    have hopen : f.skipBlanks.peek? = some '(' := by rw [hp.peek? hs.starts.ne_nil, hs.head?]
    have hx : group true f.skipBlanks = .ok (.group true body, e) :=
      hgroup true (hf.trans hc) hp ⟨_, rfl, hs, hdepth⟩ trivial
    rw [hcond, negated_of_group hopen hneg, bind_of_ok hx]
    rfl

end Groups

/-! ## Links -/

theorem conjunction?_eq_ok_some_iff {j : Conjunction} :
    conjunction? c = .ok (some j, e) ↔ c.eatSpacedKeyword? j.keyword = some e := by
  have apart {k l : Keyword} {a : Cursor} (ha : c.eatSpacedKeyword? k = some a) (hk : k.Apart l) :=
    Cursor.eatSpacedKeyword?_eq_none_of_apart ha hk
  simp only [conjunction?, ite_eatSpacedKeyword_eq_ok_iff, pure_eq_ok_iff]
  cases j with
  | and => simp [Conjunction.keyword]
  | or =>
    constructor
    · rintro (⟨_, _, ⟨⟩, _⟩ | ⟨_, ⟨a, ha, -, rfl⟩ | ⟨_, ⟨⟩, _⟩⟩)
      exact ha
    · exact fun h => .inr ⟨apart h (by decide), .inl ⟨e, h, rfl, rfl⟩⟩

theorem conjunction?_eq_ok_none_iff :
    conjunction? c = .ok (none, e) ↔ c.NoConjunction ∧ c = e := by
  simp only [conjunction?, ite_eatSpacedKeyword_eq_ok_iff, pure_eq_ok_iff]
  constructor
  · rintro (⟨_, _, ⟨⟩, _⟩ | ⟨hand, ⟨_, _, ⟨⟩, _⟩ | ⟨hor, -, he⟩⟩)
    refine ⟨fun j => ?_, he⟩
    cases j with
    | and => exact hand
    | or => exact hor
  · rintro ⟨h, he⟩
    exact .inr ⟨h .and, .inr ⟨h .or, trivial, he⟩⟩

section Links

variable {rule : Rule (Bool × Condition)}

theorem nextLink_eq_ok_some_iff {l : Link} :
    nextLink rule c = .ok (some l, e) ↔
      ∃ j negated x a, l = ⟨some j, negated, x⟩ ∧ c.eatSpacedKeyword? j.keyword = some a ∧
        rule a.skipBlanks = .ok ((negated, x), e) := by
  rw [nextLink, bind_eq_ok_iff]
  constructor
  · rintro ⟨j?, a, hj, h⟩
    cases j? with
    | none =>
      obtain ⟨⟨⟩, -⟩ := pure_eq_ok_iff.1 h
    | some j =>
      simp only [skipBlanks_bind] at h
      obtain ⟨⟨negated, x⟩, b, hx, h⟩ := bind_eq_ok_iff.1 h
      obtain ⟨⟨⟩, rfl⟩ := pure_eq_ok_iff.1 h
      exact ⟨j, negated, x, a, rfl, conjunction?_eq_ok_some_iff.1 hj, hx⟩
  · rintro ⟨j, negated, x, a, rfl, ha, hx⟩
    refine ⟨some j, a, conjunction?_eq_ok_some_iff.2 ha, ?_⟩
    simp only [skipBlanks_bind, bind_of_ok hx]
    rfl

theorem nextLink_eq_ok_none_iff :
    nextLink rule c = .ok (none, e) ↔ c.NoConjunction ∧ c = e := by
  rw [← conjunction?_eq_ok_none_iff, nextLink, bind_eq_ok_iff]
  constructor
  · rintro ⟨j?, a, hj, h⟩
    cases j? with
    | none =>
      obtain ⟨-, rfl⟩ := pure_eq_ok_iff.1 h
      exact hj
    | some j =>
      simp only [skipBlanks_bind] at h
      obtain ⟨⟨negated, x⟩, b, hx, h⟩ := bind_eq_ok_iff.1 h
      obtain ⟨⟨⟩, -⟩ := pure_eq_ok_iff.1 h
  · exact fun h => ⟨none, e, h, rfl⟩

/-- Only the condition of a link is refused; without a conjunction there is no link. -/
theorem nextLink_eq_error_iff {r : Refusal} :
    nextLink rule c = .error r ↔ ∃ (j : Conjunction) (a : Cursor),
      c.eatSpacedKeyword? j.keyword = some a ∧ rule a.skipBlanks = .error r := by
  rw [nextLink, bind_eq_error_iff]
  constructor
  · intro h
    rcases h with h | ⟨j?, a, hj, h⟩
    · simp [conjunction?, ite_eatSpacedKeyword_eq_error_iff, pure_ne_error] at h
    · cases j? with
      | none => exact absurd h pure_ne_error
      | some j =>
        simp only [skipBlanks_bind] at h
        refine ⟨j, a, conjunction?_eq_ok_some_iff.1 hj, ?_⟩
        rcases bind_eq_error_iff.1 h with h | ⟨_, _, _, h⟩
        · exact h
        · exact absurd h pure_ne_error
  · rintro ⟨j, a, ha, h⟩
    refine .inr ⟨some j, a, conjunction?_eq_ok_some_iff.2 ha, ?_⟩
    simp only [skipBlanks_bind]
    exact bind_of_error h _

theorem nextLink_shrinks (hrule : Sound d.dottedNames rule (ConditionText d n)) :
    Shrinks d.dottedNames (nextLink rule) := by
  intro c l e hc h
  obtain ⟨j, negated, x, a, rfl, ha, hx⟩ := nextLink_eq_ok_some_iff.1 h
  obtain ⟨v, k, -, -, hk, hp, -⟩ := Cursor.eatSpacedKeyword?_eq_some_iff_layout.1 ha
  obtain ⟨w, -, hw, -⟩ := a.skipBlanks_passes
  have hcw := hp.trans hw
  obtain ⟨s, hs, -⟩ := hrule (hcw.dotted.trans hc) hx
  exact ⟨_, by simp [hk.starts.ne_nil], hcw.trans hs⟩

/-- Where a condition ends and no word or string does, a group ends. -/
theorem closes_of_not_afterWord {s : List Char} (hs : s.getLast?.any endsCondition = true)
    (hpast : c.past.head? = s.getLast?) (h : c.afterWord = false) : s.getLast? = some ')' := by
  obtain ⟨x, hx, hend⟩ := (Option.any_eq_true _ _).1 hs
  rw [Cursor.afterWord, hpast, hx] at h
  rw [hx]
  simp_all [endsCondition]

/-- Where a condition begins and no identifier goes on, a group begins. -/
theorem opens_of_atWordEnd {s : List Char} {negated : Bool} {x : Condition} (hc : c.AtWordEnd)
    (h : c.peek? = s.head?) (hs : ConditionLayout d s negated x) : s.head? = some '(' := by
  obtain ⟨y, hy, hbegin⟩ := (Option.any_eq_true _ _).1 hs.head?
  have hn := hc.not_wordChar
  rw [h, hy, Option.any_some] at hn
  rw [beginsCondition, (isWordChar_eq_false_iff.1 hn).1, Bool.false_or, beq_iff_eq] at hbegin
  rw [hy, hbegin]

/-- A link that is read behind a condition stands before every layout of further links. The blanks
before its conjunction may be missing only where the character before it ends no word and no string,
so it ends a group. -/
theorem linksLayout_of_nextLink (hrule : Sound d.dottedNames rule (ConditionText d n)) {l : Link}
    (h : nextLink rule c = .ok (some l, e)) (hc : c.dotted = d.dottedNames) {before : List Char}
    (hlast : before.getLast?.any endsCondition = true) (hpast : c.past.head? = before.getLast?) :
    ∃ u s, c.Passes (u ++ s) e ∧ s.getLast?.any endsCondition = true ∧
      e.past.head? = s.getLast? ∧ l.condition.depth ≤ n ∧
      ∀ t ls, LinksLayout d s t ls → LinksLayout d before (u ++ s ++ t) (l :: ls) := by
  obtain ⟨j, negated, x, a, rfl, ha, hx⟩ := nextLink_eq_ok_some_iff.1 h
  obtain ⟨v, k, hv, hafter, hk, hp, hend⟩ := Cursor.eatSpacedKeyword?_eq_some_iff_layout.1 ha
  obtain ⟨w, hw, hwp, -⟩ := a.skipBlanks_passes
  have hcw := hp.trans hwp
  obtain ⟨s, hs, hlay, hdepth⟩ := hrule (hcw.dotted.trans hc) hx
  have hclose (hn : v = []) := closes_of_not_afterWord hlast hpast (hafter hn)
  have hopen (hn : w = []) : s.head? = some '(' := by
    subst hn
    exact opens_of_atWordEnd hend ((hwp.trans hs).peek? hlay.starts.ne_nil) hlay
  exact ⟨v ++ k ++ w, s, hcw.trans hs, hlay.getLast?, hs.head?_past hlay.starts.ne_nil, hdepth,
    fun t ls ht => .cons hv hclose hk hw hopen hlay ht⟩

/-- The links that are read behind a condition make up a layout. -/
theorem Repeats.linksLayout (hrule : Sound d.dottedNames rule (ConditionText d n))
    {ls : List Link} (h : Repeats (nextLink rule) c ls e) (hc : c.dotted = d.dottedNames)
    {before : List Char} (hlast : before.getLast?.any endsCondition = true)
    (hpast : c.past.head? = before.getLast?) :
    ∃ t, c.Passes t e ∧ LinksLayout d before t ls ∧ Chain.depth ls ≤ n := by
  induction h generalizing before with
  | @done c e hn =>
    obtain ⟨-, rfl⟩ := nextLink_eq_ok_none_iff.1 hn
    exact ⟨[], .refl c, .nil, Nat.zero_le n⟩
  | @more c f e l ls hl _ ih =>
    obtain ⟨u, s, hp, hlast', hpast', hdepth, hcons⟩ :=
      linksLayout_of_nextLink hrule hl hc hlast hpast
    obtain ⟨t, ht, hlinks, hdepths⟩ := ih (hp.dotted.trans hc) hlast' hpast'
    refine ⟨_, hp.trans ht, hcons t ls hlinks, ?_⟩
    rw [Chain.depth_cons]
    exact Nat.max_le.2 ⟨hdepth, hdepths⟩

theorem links_sound (hrule : Sound d.dottedNames rule (ConditionText d n)) :
    Sound d.dottedNames (links rule) (ChainText d n) := by
  intro c ch e hc h
  rw [links] at h
  obtain ⟨⟨negated, x⟩, a, hx, h⟩ := bind_eq_ok_iff.1 h
  obtain ⟨ls, hls, rfl⟩ := bind_pure_eq_ok_iff.1 h
  obtain ⟨s, hs, hlay, hdepth⟩ := hrule hc hx
  have ha := hs.dotted.trans hc
  obtain ⟨t, ht, hlinks, hdepths⟩ :=
    ((many_eq_ok_iff (nextLink_shrinks hrule) ha).1 hls).linksLayout
      hrule ha hlay.getLast? (hs.head?_past hlay.starts.ne_nil)
  exact ⟨_, hs.trans ht, .mk hlay hlinks, Nat.max_le.2 ⟨hdepth, hdepths⟩⟩

/-- Before its links a condition can end, if it can where there are none. -/
theorem canEnd_before_links {before t : List Char} {ls : List Link}
    (ht : LinksLayout d before t ls) (h : c.Passes t e) (hend : CanEnd (before ++ t) e) :
    CanEnd before c := by
  cases ht with
  | nil =>
    rw [List.append_nil] at hend
    rwa [← h.eq_of_nil]
  | @cons _ v k w s t j negated x ls hv hclose _ _ _ _ _ =>
    cases v with
    | nil => exact .inr (.inl (hclose rfl))
    | cons y v =>
      refine .inr (.inr (Cursor.atWordEnd_of_blank ?_))
      rw [h.peek? (by simp)]
      simpa using hv y (by simp)

/-- The first of the links, from its conjunction to the end of its condition. -/
theorem link_of_layout {before v k w s t : List Char} {j : Conjunction} {negated : Bool}
    {x : Condition} (hpast : c.past.head? = before.getLast?) (hv : Blanks v)
    (hclose : v = [] → before.getLast? = some ')') (hk : KeywordLayout k j.keyword)
    (hw : Blanks w) (hopen : w = [] → s.head? = some '(') (hs : ConditionLayout d s negated x)
    (h : c.Passes (v ++ k ++ w ++ s ++ t) e) :
    ∃ a b : Cursor, c.eatSpacedKeyword? j.keyword = some a ∧ a.dotted = c.dotted ∧
      a.skipBlanks.Passes s b ∧ b.Passes t e := by
  obtain ⟨b, hb, hbe⟩ := Cursor.Passes.append_iff.1 h
  rw [List.append_assoc] at hb
  -- Without blanks before the conjunction, a group has just been closed.
  have hafter (hn : v = []) : c.afterWord = false := by
    rw [Cursor.afterWord, hpast, hclose hn]
    rfl
  obtain ⟨a, ha, hca, hab⟩ := Cursor.eatSpacedKeyword?_of_layout hv hafter hk hb
    fun a ha => ha.atWordEnd_of_spaced hw hopen
  exact ⟨a, b, ha, hca.dotted, (hab.skipBlanks_append hw hs.starts).2, hbe⟩

/-- Every layout of links is read up to where no conjunction follows. -/
theorem repeats_of_linksLayout (hrule : Complete d.dottedNames rule (ConditionText d n) CanEnd)
    {before t : List Char} {ls : List Link} (h : c.Passes t e) (hc : c.dotted = d.dottedNames)
    (hpast : c.past.head? = before.getLast?) (ht : LinksLayout d before t ls)
    (hdepth : Chain.depth ls ≤ n) (hend : ChainEnds (before ++ t) e) :
    Repeats (nextLink rule) c ls e := by
  obtain ⟨hcan, hnone⟩ := hend
  induction ls generalizing c before t with
  | nil =>
    cases ht
    obtain rfl := h.eq_of_nil
    exact .done (nextLink_eq_ok_none_iff.2 ⟨hnone, rfl⟩)
  | cons l ls ih =>
    cases ht with
    | @cons _ v k w s t j negated x _ hv hclose hk hw hopen hs ht =>
      obtain ⟨hx, hls⟩ := Nat.max_le.1 hdepth
      obtain ⟨a, b, ha, hca, hsb, hbe⟩ := link_of_layout hpast hv hclose hk hw hopen hs h
      have had : a.skipBlanks.dotted = d.dottedNames := hca.trans hc
      have hcan' : CanEnd (s ++ t) e :=
        CanEnd.append (s := before ++ v ++ k ++ w) (by simpa using hcan)
          (by simp [hs.starts.ne_nil])
      have hread : rule a.skipBlanks = .ok ((negated, x), b) :=
        hrule had hsb ⟨hs, hx⟩ (canEnd_before_links ht hbe hcan')
      refine .more (nextLink_eq_ok_some_iff.2 ⟨j, negated, x, a, rfl, ha, hread⟩) ?_
      exact ih hbe (hsb.dotted.trans had) (hsb.head?_past hs.starts.ne_nil) ht hls hcan'

theorem links_complete (hsound : Sound d.dottedNames rule (ConditionText d n))
    (hrule : Complete d.dottedNames rule (ConditionText d n) CanEnd) :
    Complete d.dottedNames (links rule) (ChainText d n) ChainEnds := by
  rintro c s ch e hc h ⟨hs, hdepth⟩ hend
  cases hs with
  | @mk s t negated x ls hs ht =>
    obtain ⟨hx, hls⟩ := Nat.max_le.1 hdepth
    obtain ⟨a, ha, hae⟩ := Cursor.Passes.append_iff.1 h
    have hfirst : rule c = .ok ((negated, x), a) :=
      hrule hc ha ⟨hs, hx⟩ (canEnd_before_links ht hae hend.1)
    have hrest : Repeats (nextLink rule) a ls e := repeats_of_linksLayout hrule hae
      (ha.dotted.trans hc) (ha.head?_past hs.starts.ne_nil) ht hls hend
    have hmany : many (nextLink rule) a = .ok (ls, e) :=
      (many_eq_ok_iff (nextLink_shrinks hsound) (ha.dotted.trans hc)).2 hrest
    rw [links, bind_of_ok hfirst]
    simp only [bind_of_ok hmany]
    rfl

end Links

/-! ## Groups and chains -/

section Bodies

variable {body : Rule Chain}

theorem group_sound (hbody : Sound d.dottedNames body (ChainText d n)) (b : Bool) :
    Sound d.dottedNames (group body b) (GroupText d (n + 1) b) := by
  intro c x e hc h
  rw [group] at h
  obtain ⟨ch, hch, rfl⟩ := bind_pure_eq_ok_iff.1 h
  rw [opened_eq_ok_iff, groupBody] at hch
  obtain ⟨⟨⟩, f, hf, hch⟩ := bind_eq_ok_iff.1 hch
  have hopen : c.Passes ['('] f := symbol_eq_ok_iff.1 hf
  rw [skipBlanks_bind] at hch
  obtain ⟨v, hv, hvp, -⟩ := f.skipBlanks_passes
  obtain ⟨ch', g, hg, hch⟩ := bind_eq_ok_iff.1 hch
  obtain ⟨s, hs, hlay, hdepth⟩ := hbody ((hopen.trans hvp).dotted.trans hc) hg
  rw [skipBlanks_bind, eat_bind] at hch
  cases hclose : g.skipBlanks.eat? ")" with
  | none =>
    rw [hclose] at hch
    exact absurd hch unexpected_ne_ok
  | some k =>
    rw [hclose] at hch
    obtain ⟨rfl, rfl⟩ := pure_eq_ok_iff.1 hch
    obtain ⟨w, hw, hwp⟩ := Cursor.skipBlanks_close_iff.1 hclose
    refine ⟨_, ?_, ch', rfl, .mk hv hlay hw, ?_⟩
    · simpa using ((hopen.trans hvp).trans hs).trans hwp
    · rw [Condition.depth]
      omega

/-- What a group reads of a layout, from the parenthesis that opens it to the one that closes it. -/
theorem group_of_layout {v s w : List Char} {ch : Chain} (hv : Blanks v) (hs : ChainLayout d s ch)
    (hw : Blanks w) (h : c.Passes ('(' :: v ++ s ++ w ++ [')']) e) :
    ∃ a g : Cursor, symbol "(" c = .ok ((), a) ∧ a.dotted = c.dotted ∧ a.skipBlanks.Passes s g ∧
      g.skipBlanks.eat? ")" = some e ∧ ChainEnds s g := by
  rw [List.append_assoc, List.append_assoc] at h
  obtain ⟨a, ha, hae⟩ := Cursor.Passes.cons_iff.1 h
  obtain ⟨-, hsv⟩ := hae.skipBlanks_append hv (hs.starts.append _)
  obtain ⟨g, hg, hge⟩ := Cursor.Passes.append_iff.1 hsv
  have hclose : g.skipBlanks.eat? ")" = some e := Cursor.skipBlanks_close_iff.2 ⟨w, hw, hge⟩
  -- The parenthesis that closes the group ends every word and is no conjunction.
  refine ⟨a, g, symbol_eq_ok_iff.2 ha, ha.dotted, hg, hclose,
    .inr (.inr (hge.atWordEnd hw (by decide))), fun j => ?_⟩
  apply Cursor.eatSpacedKeyword?_eq_none_of_not_wordStart
  rw [(Cursor.eat?_eq_some_iff.1 hclose).peek? (by decide)]
  decide

theorem group_complete (hbody : Complete d.dottedNames body (ChainText d n) ChainEnds) (b : Bool) :
    Complete d.dottedNames (group body b) (GroupText d (n + 1) b) fun _ _ => True := by
  rintro c s _ e hc h ⟨ch, rfl, hs, hdepth⟩ -
  rw [Condition.depth] at hdepth
  cases hs with
  | mk hv hs hw =>
    obtain ⟨a, g, ha, hca, hg, hclose, hend⟩ := group_of_layout hv hs hw h
    have hread : body a.skipBlanks = .ok (ch, g) :=
      hbody (hca.trans hc) hg ⟨hs, by omega⟩ hend
    have hbody : groupBody body c = .ok (ch, e) := by
      rw [groupBody, bind_of_ok ha, skipBlanks_bind, bind_of_ok hread, skipBlanks_bind, eat_bind,
        hclose]
      rfl
    rw [group, bind_of_ok (opened_eq_ok_iff.2 hbody)]
    rfl

end Bodies

variable {limit levels : Nat}

/-- Where no level is left, no group is read. -/
theorem condition_tooDeep_sound :
    Sound d.dottedNames (condition d fun _ => tooDeep limit) (ConditionText d n) :=
  condition_sound fun _ _ _ _ _ h => absurd h failSince_ne_ok

theorem condition_tooDeep_complete :
    Complete d.dottedNames (condition d fun _ => tooDeep limit) (ConditionText d 0) CanEnd := by
  apply condition_complete
  rintro b c s _ e - - ⟨body, rfl, -, hdepth⟩ -
  -- A group nests at least once, so that none is left to be read.
  rw [Condition.depth] at hdepth
  omega

theorem chain_sound : Sound d.dottedNames (chain d limit levels) (ChainText d levels) := by
  induction levels with
  | zero => exact links_sound condition_tooDeep_sound
  | succ n ih => exact links_sound (condition_sound (group_sound ih))

/-- The levels that are left are just enough for the groups of every layout. -/
theorem chain_complete :
    Complete d.dottedNames (chain d limit levels) (ChainText d levels) ChainEnds := by
  induction levels with
  | zero => exact links_complete condition_tooDeep_sound condition_tooDeep_complete
  | succ n ih =>
    exact links_complete (condition_sound (group_sound chain_sound))
      (condition_complete (group_complete ih))

end Rule

end FilterQuery
