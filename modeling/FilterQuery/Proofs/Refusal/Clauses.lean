import FilterQuery.Proofs.Reading.Clauses
import FilterQuery.Proofs.Refusal.Chains

/-!
Where clause sets break off. The clauses behind the one that breaks off may be absent, so that a
clause set can be completed in the clause itself. Only a clause keyword that is left behind the last
clause is refused behind a whole clause set.
-/

namespace FilterQuery

/-! ## Completions -/

theorem exists_nameLayout (dotted : Bool) :
    ∃ s name, NameLayout dotted s name ∧ name ≠ "DISTINCT" :=
  ⟨_, "a", ⟨rfl, by cases dotted <;> decide⟩, by decide⟩

theorem Begins.fields (dotted : Bool) : Begins (FieldsLayout dotted) [] := by
  obtain ⟨s, name, hs, -⟩ := exists_nameLayout dotted
  exact ⟨s, [name], .one hs⟩

/-- The layouts of heads. -/
def HeadText (dotted : Bool) (s : List Char) (p : Bool × List String) : Prop :=
  HeadLayout dotted s p.1 p.2

/-- Fields that are missing are written anew, by a name other than `DISTINCT`. -/
theorem Begins.head {dotted : Bool} {k w : List Char} (hk : KeywordLayout k .select) (hw : Gap w) :
    Begins (HeadText dotted) (k ++ w) := by
  obtain ⟨s, name, hs, hne⟩ := exists_nameLayout dotted
  exact ⟨s, (false, [name]), .all hk hw (.one hs) (by simpa using hne)⟩

theorem Begins.head_distinct {dotted : Bool} {k w l v : List Char}
    (hk : KeywordLayout k .select) (hw : Gap w)
    (hl : KeywordLayout l .distinct) (hv : Gap v) :
    Begins (HeadText dotted) (k ++ w ++ (l ++ v)) := by
  obtain ⟨s, name, hs, -⟩ := exists_nameLayout dotted
  refine ⟨s, (true, [name]), ?_⟩
  simpa [HeadText] using HeadLayout.distinct hk hw hl hv (.one hs)

theorem Begins.order (dotted : Bool) : Begins (OrderLayout dotted) [] := by
  have hname : IsIdentifier dotted "a" := by cases dotted <;> decide
  exact ⟨_, ⟨"a", .asc⟩, .mk hname .blank (.text .asc)⟩

theorem Begins.count : Begins CountLayout [] :=
  ⟨['1'], 1, ⟨by simp, rfl⟩, by simp⟩

theorem Begins.chain (d : Dialect) (n : Nat) : Begins (ChainText d n) [] := by
  obtain ⟨s, l, hs⟩ := exists_conditionLayout d
  refine ⟨s, [⟨none, false, .leaf l⟩], ?_, by simp [Chain.depth, Condition.depth]⟩
  simpa using ChainLayout.mk hs .nil

namespace Rule

variable {c d e : Cursor} {dotted : Bool} {r : Refusal}

/-! ## Fields -/

theorem nextField_breaksAtComma : BreaksAtComma nextField := by
  intro c r h
  rw [nextField, get_bind, skipBlanks_bind, eat, ite_attempt_eq_error_iff] at h
  rcases h with ⟨f, hf, h⟩ | ⟨-, h⟩
  · obtain ⟨v, hv, hp⟩ := Cursor.skipBlanks_comma_iff.1 hf
    obtain ⟨w, hw, hwp, -⟩ := f.skipBlanks_passes
    rw [skipBlanks_bind] at h
    have hbreak := (identifier_putsBack (bind_pure_eq_error_iff.1 h)).breaksAt
    refine ⟨v, hv, .inr ⟨w, hw, ?_⟩⟩
    simpa using hbreak.behind (hp.trans hwp)
  · rw [set_bind] at h
    exact absurd h pure_ne_error

/-- Fields break off at the first name or behind it. -/
theorem fields_breaks (h : fields c = .error r) :
    r.BreaksAt c ∨ ∃ name f t x names, identifier c = .ok (name, f) ∧ r.BreaksBehind c t ∧
      FieldsLayout c.dotted (t ++ x) (name :: names) := by
  rw [fields, bind_eq_error_iff] at h
  rcases h with h | ⟨name, f, hname, h⟩
  · exact .inl (identifier_putsBack h).breaksAt
  · obtain ⟨hi, hp, -⟩ := identifier_eq_ok_iff.1 hname
    have hstop := (many_eq_error_iff nextField_shrinks hp.dotted).1 (bind_pure_eq_error_iff.1 h)
    obtain ⟨y, b, hy, -⟩ := exists_nameLayout c.dotted
    obtain ⟨t, x, names, hbehind, hlay⟩ := hstop.commaLayout nextField_continues identifier_sound
      nextField_breaksAtComma hy hp.dotted ⟨rfl, hi⟩
    exact .inr ⟨name, f, _, x, names, hname, hbehind.prepend hp, hlay⟩

theorem fields_timely : Timely dotted fields (FieldsLayout dotted) := by
  rintro c r rfl h
  rcases fields_breaks h with hbreak | ⟨name, f, t, x, names, -, hbehind, hlay⟩
  · exact ⟨[], hbreak.here, .fields c.dotted⟩
  · exact ⟨t, hbehind, x, _, hlay⟩

/-! ## Heads -/

theorem head_timely : Timely dotted head (HeadText dotted) := by
  rintro c r rfl h
  rw [head, bind_eq_error_iff] at h
  rcases h with h | ⟨⟨⟩, c₁, h₁, h⟩
  · obtain ⟨x, p, hx⟩ : Begins (HeadText c.dotted) _ := .head (.text .select) .blank
    exact ⟨[], (keyword_putsBack h).breaksAt.here, _, p, hx⟩
  obtain ⟨k, hk, hkp, -⟩ := Cursor.eatKeyword?_eq_some_iff.1 (keyword_eq_ok_iff.1 h₁)
  rcases bind_eq_error_iff.1 h with h | ⟨⟨⟩, c₂, h₂, h⟩
  · exact ⟨k, (blanks_putsBack h).breaksAt.behind hkp, .of_blank (.head hk .blank)⟩
  obtain ⟨w, hw, hwp, -⟩ := blanks_eq_ok_iff.1 h₂
  have hkw := hkp.trans hwp
  rcases bind_eq_error_iff.1 h with h | ⟨b, c₃, h₃, h⟩
  · rw [eatDistinct, ite_eatKeyword_eq_error_iff] at h
    rcases h with ⟨f, hf, h⟩ | ⟨-, h⟩
    · obtain ⟨l, hl, hlp, -⟩ := Cursor.eatKeyword?_eq_some_iff.1 hf
      have hbreak := (blanks_putsBack (bind_pure_eq_error_iff.1 h)).breaksAt
      have hbegin : Begins (HeadText c.dotted) _ := .head_distinct hk hw hl .blank
      exact ⟨_, hbreak.behind (hkw.trans hlp), .of_blank (by simpa using hbegin)⟩
    · exact absurd h pure_ne_error
  have hfields := bind_pure_eq_error_iff.1 h
  rcases eatDistinct_eq_ok_iff.1 h₃ with ⟨f, hf, hb, rfl⟩ | ⟨hn, rfl, rfl⟩
  · obtain ⟨l, hl, hlp, -⟩ := Cursor.eatKeyword?_eq_some_iff.1 hf
    obtain ⟨v, hv, hvp, -⟩ := blanks_eq_ok_iff.1 hb
    have hall := hkw.trans (hlp.trans hvp)
    obtain ⟨s, hbehind, x, fs, hx⟩ := fields_timely hall.dotted hfields
    refine ⟨_, hbehind.prepend hall, x, (true, fs), ?_⟩
    simpa [HeadText] using HeadLayout.distinct hk hw hl hv hx
  · rcases fields_breaks hfields with hbreak | ⟨name, f, t, x, names, hname, hbehind, hx⟩
    · exact ⟨_, hbreak.behind hkw, .head hk hw⟩
    · obtain ⟨hi, hp, hend⟩ := identifier_eq_ok_iff.1 hname
      -- A first field of this name would have been read as the keyword.
      have hne : name ≠ "DISTINCT" := by
        rintro rfl
        have hword : c₂.eatKeyword? .distinct = some f :=
          (Cursor.eatWord?_of_identifier (by decide) hi hp hend).trans (if_pos rfl)
        rw [hn] at hword
        cases hword
      rw [hkw.dotted] at hx
      refine ⟨_, hbehind.prepend hkw, x, (false, name :: names), ?_⟩
      simpa [HeadText] using HeadLayout.all hk hw hx (by simpa using hne)

/-! ## Orders and counts -/

theorem orderBy_timely : Timely dotted orderBy (OrderLayout dotted) := by
  rintro c r rfl h
  rw [orderBy, bind_eq_error_iff] at h
  rcases h with h | ⟨name, f, hname, h⟩
  · exact ⟨[], (identifier_putsBack h).breaksAt.here, .order c.dotted⟩
  · obtain ⟨hi, hp, -⟩ := identifier_eq_ok_iff.1 hname
    have hdir := bind_pure_eq_error_iff.1 h
    simp only [direction, ite_eatSpacedKeyword_eq_error_iff, pure_ne_error, and_false,
      exists_false, false_or] at hdir
    have hlay : OrderLayout c.dotted _ ⟨name, .asc⟩ := .mk hi .blank (.text .asc)
    exact ⟨_, (unexpected_breaksAt hdir.2.2).behind hp, _, _, by simpa using hlay⟩

theorem count_timely : Timely dotted count CountLayout :=
  fun _ _ _ h => ⟨[], (count_putsBack h).breaksAt.here, .count⟩

/-! ## Optional clauses -/

theorem clause?_breaksBehind {α : Type} {k : Keyword} {body : Rule α}
    {Body : List Char → α → Prop} {before : List Char} (hbody : Timely dotted body Body)
    (hsample : Begins Body []) (hc : c.dotted = dotted) (hbefore : Precedes c before d)
    (h : clause? k body d = .error r) :
    ∃ s x a, r.BreaksBehind c (before ++ s) ∧ ClauseLayout k Body before (s ++ x) (some a) := by
  rw [clause?, ite_eatSpacedKeyword_eq_error_iff] at h
  rcases h with ⟨f, hf, h⟩ | ⟨-, h⟩
  · obtain ⟨v, l, hv, hafter, hl, hvl, -⟩ := Cursor.eatSpacedKeyword?_eq_some_iff_layout.1 hf
    have hclose := hbefore.closes hafter hl hvl
    have hread := hbefore.passes.trans hvl
    rcases bind_eq_error_iff.1 h with h | ⟨⟨⟩, g, hg, h⟩
    · obtain ⟨x, a, hx⟩ := hsample
      have hlay : ClauseLayout k Body before _ (some a) := .present hv hclose hl .blank hx
      exact ⟨_, _, a, (blanks_putsBack h).breaksAt.behind hread, by simpa using hlay⟩
    · obtain ⟨w, hw, hwp, -⟩ := blanks_eq_ok_iff.1 hg
      have hall := hread.trans hwp
      obtain ⟨s, hbehind, x, a, hx⟩ :=
        hbody (hall.dotted.trans hc) (bind_pure_eq_error_iff.1 h)
      refine ⟨v ++ l ++ w ++ s, x, a, by simpa using hbehind.prepend hall, ?_⟩
      simpa using ClauseLayout.present hv hclose hl hw hx
  · exact absurd h pure_ne_error

/-! ## Clause sets -/

theorem noClauseLeft_located (h : noClauseLeft c = .error r) : r.LocatedAt c.skipBlanks := by
  obtain ⟨w, -, hp, -⟩ := c.skipBlanks_passes
  rw [noClauseLeft] at h
  split at h
  · cases h
    exact (Refusal.Shows.of_errorSince (.refl _) hp.sameText.symm).located fun hk => by cases hk
  · cases h

/-- The keywords of clauses are apart from each other, so that at most one of them stands here. -/
theorem noClauseLeft_of_eatKeyword? {k : Keyword} (hk : k ∈ clauseKeywords)
    (h : c.skipBlanks.eatKeyword? k = some e) : noClauseLeft c =
      .error { error := c.skipBlanks.errorHere (.misplacedClause k), stop := c } := by
  have apart : ∀ l ∈ clauseKeywords, ∀ k ∈ clauseKeywords, l ≠ k → l.Apart k := by decide
  rw [noClauseLeft]
  cases hl : clauseKeywords.find? fun l => (c.skipBlanks.eatKeyword? l).isSome with
  | none =>
    have hn := List.find?_eq_none.1 hl k hk
    simp [h] at hn
  | some l =>
    have hsome : (c.skipBlanks.eatKeyword? l).isSome = true := by simpa using List.find?_some hl
    obtain ⟨f, hf⟩ := Option.isSome_iff_exists.1 hsome
    obtain rfl : l = k := by
      refine Decidable.byContradiction fun hne => ?_
      have hn := Cursor.eatKeyword?_eq_none_of_apart hf
        (apart l (List.mem_of_find?_eq_some hl) k hk hne)
      rw [h] at hn
      cases hn
    rfl

/-- What stands behind the head. -/
def clauses (chain : Rule Chain) (distinct : Bool) (fields : List String) : Rule ClauseSet := do
  let whereClause ← clause? .where_ chain
  let groupBy ← clause? .groupBy Rule.fields
  let orderBy ← clause? .orderBy orderBy
  let offset ← clause? .offset count
  let limit ← clause? .limit count
  noClauseLeft
  return { fields, distinct, whereClause, groupBy := groupBy.getD [], orderBy, offset, limit }

theorem clauseSet_eq (chain : Rule Chain) :
    clauseSet chain = head >>= fun p => clauses chain p.1 p.2 := by
  simp only [clauseSet, head, clauses, bind_assoc, pure_bind]

variable {dialect : Dialect} {limit n : Nat}

/-- The clauses behind the one that breaks off are absent from what completes it. -/
theorem clauseSet_places : Places dialect.dottedNames (clauseSet (chain dialect limit n))
    (ClauseSetLayout dialect n) := by
  intro c r hc h
  rw [clauseSet_eq, bind_eq_error_iff] at h
  rcases h with h | ⟨⟨distinct, fs⟩, c₁, hhead, h⟩
  · obtain ⟨s, hbehind, x, ⟨distinct, fs⟩, hx⟩ := head_timely hc h
    have habsent : ClauseLayout .where_ (ChainText dialect n) (s ++ x) [] none := .absent
    have hlay := ClauseSetLayout.of_clauses hx habsent .absent .absent .absent .absent
    exact .within .nil hbehind ⟨x, _, by simpa using hlay⟩
  obtain ⟨t, hp, hhead, hend⟩ := head_sound hhead
  rw [hc] at hhead
  have h₀ : Precedes c t c₁ := ⟨hp, hhead.starts.ne_nil, .inr hend⟩
  rcases bind_eq_error_iff.1 h with h | ⟨w?, c₂, hwhere, h⟩
  · obtain ⟨s, x, a, hbehind, hx⟩ := clause?_breaksBehind chain_timely (.chain dialect n) hc h₀ h
    have hlay := ClauseSetLayout.of_clauses hhead hx .absent .absent .absent .absent
    exact .within .nil hbehind ⟨x, _, by simpa using hlay⟩
  obtain ⟨w, h₁, hwhere⟩ := where?_sound hc h₀ hwhere
  rcases bind_eq_error_iff.1 h with h | ⟨g?, c₃, hgroup, h⟩
  · obtain ⟨s, x, a, hbehind, hx⟩ :=
      clause?_breaksBehind fields_timely (.fields dialect.dottedNames) hc h₁ h
    have hlay := ClauseSetLayout.of_clauses hhead hwhere hx .absent .absent .absent
    exact .within .nil hbehind ⟨x, _, by simpa using hlay⟩
  obtain ⟨g, h₂, hgroup⟩ := groupBy?_sound hc h₁ hgroup
  rcases bind_eq_error_iff.1 h with h | ⟨o?, c₄, horder, h⟩
  · obtain ⟨s, x, a, hbehind, hx⟩ :=
      clause?_breaksBehind orderBy_timely (.order dialect.dottedNames) hc h₂ h
    have hlay := ClauseSetLayout.of_clauses hhead hwhere hgroup hx .absent .absent
    exact .within .nil hbehind ⟨x, _, by simpa using hlay⟩
  obtain ⟨o, h₃, horder⟩ := orderBy?_sound hc h₂ horder
  rcases bind_eq_error_iff.1 h with h | ⟨f?, c₅, hoffset, h⟩
  · obtain ⟨s, x, a, hbehind, hx⟩ := clause?_breaksBehind count_timely .count hc h₃ h
    have hlay := ClauseSetLayout.of_clauses hhead hwhere hgroup horder hx .absent
    exact .within .nil hbehind ⟨x, _, by simpa using hlay⟩
  obtain ⟨f, h₄, hoffset⟩ := count?_sound hc h₃ hoffset
  rcases bind_eq_error_iff.1 h with h | ⟨l?, c₆, hlimit, h⟩
  · obtain ⟨s, x, a, hbehind, hx⟩ := clause?_breaksBehind count_timely .count hc h₄ h
    have hlay := ClauseSetLayout.of_clauses hhead hwhere hgroup horder hoffset hx
    exact .within .nil hbehind ⟨x, _, by simpa using hlay⟩
  obtain ⟨l, h₅, hlimit⟩ := count?_sound hc h₄ hlimit
  -- All clauses have been read, so that what is refused is left over behind them.
  rcases bind_eq_error_iff.1 h with h | ⟨_, _, _, h⟩
  · obtain ⟨w', hw', hwp, -⟩ := c₆.skipBlanks_passes
    have hlay := ClauseSetLayout.of_clauses hhead hwhere hgroup horder hoffset hlimit
    exact .behind .nil hlay hw' (h₅.passes.trans hwp) (noClauseLeft_located h)
  · exact absurd h pure_ne_error

end Rule

end FilterQuery
