import FilterQuery.Proofs.Layout.ClauseSet
import FilterQuery.Proofs.Reading.Chains
import FilterQuery.Reading.ClauseRule

/-!
Clause sets are read exactly where their layouts stand, up to the end of the text. The keywords of
clauses are apart from each other, so that a clause which is absent is passed over at the keyword
of the next one.
-/

namespace FilterQuery.Rule

variable {c d e : Cursor} {dotted : Bool}

/-! ## Fields -/

theorem identifier_sound : Sound dotted identifier (NameLayout dotted) := by
  intro c name e hc h
  obtain ⟨hi, hp, -⟩ := identifier_eq_ok_iff.1 h
  exact ⟨_, hp, rfl, hc ▸ hi⟩

theorem identifier_complete :
    Complete dotted identifier (NameLayout dotted) fun _ e => e.AtWordEnd := by
  rintro c s name e hc h ⟨rfl, hi⟩ he
  exact identifier_eq_ok_iff.2 ⟨hc ▸ hi, h, he⟩

theorem nextField_continues : Continues nextField identifier := by
  intro c name e
  rw [nextField, get_bind, skipBlanks_bind, eat_bind]
  cases c.skipBlanks.eat? "," with
  | none => simp [set_bind, pure_eq_ok_iff]
  | some d =>
    simp only [if_true, skipBlanks_bind, bind_eq_ok_iff, pure_eq_ok_iff, Option.some.injEq,
      exists_eq_left']
    constructor
    · rintro ⟨a, f, h, rfl, rfl⟩
      exact h
    · exact fun h => ⟨_, _, h, rfl, rfl⟩

theorem nextField_eq_ok_none_iff :
    nextField c = .ok (none, e) ↔ c.skipBlanks.eat? "," = none ∧ c = e := by
  rw [nextField, get_bind, skipBlanks_bind, eat_bind]
  cases c.skipBlanks.eat? "," with
  | none => simp [set_bind, pure_eq_ok_iff]
  | some d =>
    simp only [if_true, skipBlanks_bind, bind_eq_ok_iff, pure_eq_ok_iff]
    simp

theorem nextField_shrinks : Shrinks dotted nextField :=
  nextField_continues.shrinks identifier_sound

/-- Behind the last field no identifier goes on. -/
theorem Repeats.atWordEnd_of_fields {fs : List String} (h : Repeats nextField c fs e)
    (hc : c.AtWordEnd) : e.AtWordEnd := by
  induction h with
  | done hn =>
    obtain ⟨-, rfl⟩ := nextField_eq_ok_none_iff.1 hn
    exact hc
  | more ha _ ih =>
    obtain ⟨d, -, hi⟩ := (nextField_continues _ _ _).1 ha
    exact ih (identifier_eq_ok_iff.1 hi).2.2

/-- Fields end where no identifier goes on and no comma follows. -/
structure FieldsEnd (e : Cursor) : Prop where
  atWordEnd : e.AtWordEnd
  noComma : e.skipBlanks.eat? "," = none

theorem FieldsEnd.of_canEnd {s : List Char} {fs : List String} (hs : FieldsLayout dotted s fs)
    (h : CanEnd s e) (hcomma : e.skipBlanks.eat? "," = none) : FieldsEnd e := by
  refine ⟨?_, hcomma⟩
  have hlast := hs.getLast?
  rcases h with h | h | h
  · rw [h] at hlast
    cases dotted <;> cases hlast
  · rw [h] at hlast
    cases dotted <;> cases hlast
  · exact h

theorem fields_eq_ok_iff {fs : List String} :
    fields c = .ok (fs, e) ↔ ∃ s, c.Passes s e ∧ FieldsLayout c.dotted s fs ∧ FieldsEnd e := by
  rw [fields]
  constructor
  · intro h
    obtain ⟨name, d, hname, h⟩ := bind_eq_ok_iff.1 h
    obtain ⟨names, hnames, rfl⟩ := bind_pure_eq_ok_iff.1 h
    obtain ⟨hi, hp, hd⟩ := identifier_eq_ok_iff.1 hname
    have hr := (many_eq_ok_iff nextField_shrinks hp.dotted).1 hnames
    obtain ⟨t, g, hlay, ht, hn⟩ :=
      hr.commaLayout nextField_continues identifier_sound hp.dotted ⟨rfl, hi⟩
    obtain ⟨hcomma, rfl⟩ := nextField_eq_ok_none_iff.1 hn
    exact ⟨_, hp.trans ht, hlay, hr.atWordEnd_of_fields hd, hcomma⟩
  · rintro ⟨s, hp, hs, hend, hcomma⟩
    obtain ⟨name, names, b, rfl, hname, hb, hr⟩ := repeats_of_commaLayout nextField_continues
      identifier_complete (fun _ _ => NameLayout.starts) hs rfl hp hend
      (nextField_eq_ok_none_iff.2 ⟨hcomma, rfl⟩)
    rw [bind_of_ok hname, bind_of_ok ((many_eq_ok_iff nextField_shrinks hb).2 hr)]
    rfl

theorem fields_sound : Sound dotted fields (FieldsLayout dotted) := by
  intro c fs e hc h
  obtain ⟨s, hp, hs, -⟩ := fields_eq_ok_iff.1 h
  exact ⟨s, hp, hc ▸ hs⟩

theorem fields_atWordEnd {fs : List String} (h : fields c = .ok (fs, e)) : e.AtWordEnd := by
  obtain ⟨s, -, -, hend⟩ := fields_eq_ok_iff.1 h
  exact hend.atWordEnd

theorem fields_complete : Complete dotted fields (FieldsLayout dotted)
    fun s e => CanEnd s e ∧ e.skipBlanks.eat? "," = none := by
  rintro c s fs e hc h hs ⟨hend, hcomma⟩
  exact fields_eq_ok_iff.2 ⟨s, h, hc ▸ hs, .of_canEnd hs hend hcomma⟩

/-- The keyword `DISTINCT` is read before fields exactly if the first of them is named so. -/
theorem eatDistinct_before_fields {s : List Char} {fs : List String} (h : c.Passes s e)
    (hs : FieldsLayout c.dotted s fs) (he : e.AtWordEnd) :
    c.eatKeyword? .distinct = none ↔ fs.head? ≠ some "DISTINCT" := by
  have key {name : String} {d : Cursor} (hi : IsIdentifier c.dotted name)
      (hp : c.Passes name.toList d) (hd : d.AtWordEnd) :
      c.eatKeyword? .distinct = none ↔ some name ≠ some "DISTINCT" := by
    have hword : c.eatKeyword? .distinct = if name = "DISTINCT" then some d else none :=
      Cursor.eatWord?_of_identifier (by decide) hi hp hd
    rw [hword]
    simp
  cases hs with
  | one hs =>
    obtain ⟨rfl, hi⟩ := hs
    exact key hi h he
  | @cons s v w t name names hs hv _ _ =>
    obtain ⟨rfl, hi⟩ := hs
    rw [List.append_assoc, List.append_assoc] at h
    obtain ⟨d, hd, hde⟩ := Cursor.Passes.append_iff.1 h
    exact key hi hd (hde.atWordEnd hv (by decide))

/-! ## Heads -/

/-- What stands before the clauses that may be absent. -/
def head : Rule (Bool × List String) := do
  keyword .select
  blanks
  let distinct ← eatDistinct
  return (distinct, ← fields)

theorem eatDistinct_eq_ok_iff {b : Bool} :
    eatDistinct c = .ok (b, e) ↔
      (∃ d, c.eatKeyword? .distinct = some d ∧ blanks d = .ok ((), e) ∧ b = true) ∨
      c.eatKeyword? .distinct = none ∧ b = false ∧ c = e := by
  rw [eatDistinct, ite_eatKeyword_eq_ok_iff]
  simp only [bind_eq_ok_iff, pure_eq_ok_iff]
  constructor
  · rintro (⟨d, hd, ⟨⟩, _, hf, rfl, rfl⟩ | ⟨hn, rfl, rfl⟩)
    · exact .inl ⟨d, hd, hf, rfl⟩
    · exact .inr ⟨hn, rfl, rfl⟩
  · rintro (⟨d, hd, hf, rfl⟩ | ⟨hn, rfl, rfl⟩)
    · exact .inl ⟨d, hd, (), e, hf, rfl, rfl⟩
    · exact .inr ⟨hn, rfl, rfl⟩

theorem head_sound {b : Bool} {fs : List String} (h : head c = .ok ((b, fs), e)) :
    ∃ s, c.Passes s e ∧ HeadLayout c.dotted s b fs ∧ e.AtWordEnd := by
  rw [head] at h
  obtain ⟨⟨⟩, d₁, h₁, h⟩ := bind_eq_ok_iff.1 h
  obtain ⟨⟨⟩, d₂, h₂, h⟩ := bind_eq_ok_iff.1 h
  obtain ⟨b', d₃, h₃, h⟩ := bind_eq_ok_iff.1 h
  obtain ⟨fs', d₄, h₄, h⟩ := bind_eq_ok_iff.1 h
  obtain ⟨⟨⟩, rfl⟩ := pure_eq_ok_iff.1 h
  obtain ⟨k, hk, hkp, -⟩ := Cursor.eatKeyword?_eq_some_iff.1 (keyword_eq_ok_iff.1 h₁)
  obtain ⟨w, hw, hwp, -⟩ := blanks_eq_ok_iff.1 h₂
  obtain ⟨s, hs, hlay, hend, -⟩ := fields_eq_ok_iff.1 h₄
  have hkw := hkp.trans hwp
  rcases eatDistinct_eq_ok_iff.1 h₃ with ⟨d, hd, hb, rfl⟩ | ⟨hn, rfl, rfl⟩
  · obtain ⟨l, hl, hlp, -⟩ := Cursor.eatKeyword?_eq_some_iff.1 hd
    obtain ⟨v, hv, hvp, -⟩ := blanks_eq_ok_iff.1 hb
    have hlv := hlp.trans hvp
    rw [hlv.dotted, hkw.dotted] at hlay
    exact ⟨_, hkw.trans (hlv.trans hs), .distinct hk hw hl hv hlay, hend⟩
  · have hne := (eatDistinct_before_fields hs hlay hend).1 hn
    rw [hkw.dotted] at hlay
    exact ⟨_, hkw.trans hs, .all hk hw hlay hne, hend⟩

theorem keyword_blanks_of_layout {k w s : List Char} {l : Keyword} (hk : KeywordLayout k l)
    (hw : Gap w) (hs : Starts s) (h : c.Passes (k ++ w ++ s) e) :
    ∃ f d, c.eatKeyword? l = some f ∧ blanks f = .ok ((), d) ∧ c.Passes (k ++ w) d ∧
      d.Passes s e := by
  rw [List.append_assoc] at h
  obtain ⟨f, hcf, hfe⟩ := Cursor.Passes.append_iff.1 h
  obtain ⟨d, hfd, hde⟩ := Cursor.Passes.append_iff.1 hfe
  have hf : f.AtWordEnd := hfe.atWordEnd_of_gap hw
  have hd : d.peek?.any isBlank = false := by
    rw [hde.peek? hs.1]
    exact hs.2
  exact ⟨f, d, Cursor.eatKeyword?_eq_some_iff.2 ⟨k, hk, hcf, hf⟩,
    blanks_eq_ok_iff.2 ⟨w, hw, hfd, hd⟩, hcf.trans hfd, hde⟩

theorem head_complete {s : List Char} {b : Bool} {fs : List String} (h : c.Passes s e)
    (hs : HeadLayout c.dotted s b fs) (hend : CanEnd s e)
    (hcomma : e.skipBlanks.eat? "," = none) : head c = .ok ((b, fs), e) := by
  cases hs with
  | @all k w s _ hk hw hs hne =>
    obtain ⟨f, d, hf, hd, hcd, hde⟩ := keyword_blanks_of_layout hk hw hs.starts h
    rw [← hcd.dotted] at hs
    have hfields := FieldsEnd.of_canEnd hs (hend.append hs.starts.ne_nil) hcomma
    have hdistinct := (eatDistinct_before_fields hde hs hfields.atWordEnd).2 hne
    rw [head, bind_of_ok (keyword_eq_ok_iff.2 hf), bind_of_ok hd,
      bind_of_ok (eatDistinct_eq_ok_iff.2 (.inr ⟨hdistinct, rfl, rfl⟩)),
      bind_of_ok (fields_eq_ok_iff.2 ⟨s, hde, hs, hfields⟩)]
    rfl
  | @distinct k w l v s _ hk hw hl hv hs =>
    have hstarts : Starts (l ++ v ++ s) := by
      rw [List.append_assoc]
      exact hl.starts.append _
    obtain ⟨f, d, hf, hd, hcd, hde⟩ := keyword_blanks_of_layout hk hw hstarts h
    obtain ⟨g, d', hg, hd', hdd, hde'⟩ := keyword_blanks_of_layout hl hv hs.starts hde
    rw [← (hcd.trans hdd).dotted] at hs
    have hend' : CanEnd s e :=
      CanEnd.append (s := k ++ w ++ (l ++ v)) (by simpa using hend) hs.starts.ne_nil
    have hfields := FieldsEnd.of_canEnd hs hend' hcomma
    rw [head, bind_of_ok (keyword_eq_ok_iff.2 hf), bind_of_ok hd,
      bind_of_ok (eatDistinct_eq_ok_iff.2 (.inl ⟨g, hg, hd', rfl⟩)),
      bind_of_ok (fields_eq_ok_iff.2 ⟨s, hde', hs, hfields⟩)]
    rfl

/-! ## Orders and counts -/

theorem direction_eq_ok_iff {o : Direction} :
    direction c = .ok (o, e) ↔ c.eatSpacedKeyword? o.keyword = some e := by
  have apart {a : Cursor} (ha : c.eatSpacedKeyword? .desc = some a) :
      c.eatSpacedKeyword? .asc = none :=
    Cursor.eatSpacedKeyword?_eq_none_of_apart ha (by decide)
  simp only [direction, ite_eatSpacedKeyword_eq_ok_iff, pure_eq_ok_iff, unexpected_ne_ok]
  cases o with
  | asc => simp [Direction.keyword]
  | desc =>
    constructor
    · rintro (⟨_, _, ⟨⟩, _⟩ | ⟨_, ⟨a, ha, -, rfl⟩ | ⟨_, ⟨⟩⟩⟩)
      exact ha
    · exact fun h => .inr ⟨apart h, .inl ⟨e, h, rfl, rfl⟩⟩

theorem orderBy_sound : Sound dotted orderBy (OrderLayout dotted) := by
  intro c o e hc h
  rw [orderBy] at h
  obtain ⟨name, d, hname, h⟩ := bind_eq_ok_iff.1 h
  obtain ⟨dir, hdir, rfl⟩ := bind_pure_eq_ok_iff.1 h
  obtain ⟨hi, hp, hd⟩ := identifier_eq_ok_iff.1 hname
  obtain ⟨w, k, hw, hk, hwk, -⟩ := Cursor.gap_of_eatSpacedKeyword? hd (direction_eq_ok_iff.1 hdir)
  exact ⟨_, by simpa using hp.trans hwk, .mk (hc ▸ hi) hw hk⟩

theorem orderBy_complete : Complete dotted orderBy (OrderLayout dotted) CanEnd := by
  intro c s o e hc h hs hend
  cases hs with
  | @mk w k o hi hw hk =>
    rw [List.append_assoc] at h
    obtain ⟨d, hd, hde⟩ := Cursor.Passes.append_iff.1 h
    have he := (hend.append hk.starts.ne_nil).atWordEnd id hk.getLast?
    have hname : identifier c = .ok (o.field, d) :=
      identifier_eq_ok_iff.2 ⟨hc ▸ hi, hd, hde.atWordEnd_of_gap hw⟩
    have hdir : direction d = .ok (o.direction, e) :=
      direction_eq_ok_iff.2 (Cursor.eatSpacedKeyword?_eq_some_iff_layout.2
        ⟨w, k, hw.blanks, fun hn => absurd hn hw.ne_nil, hk, hde, he⟩)
    rw [orderBy, bind_of_ok hname, bind_of_ok hdir]
    rfl

theorem count_sound : Sound dotted count CountLayout := by
  intro c n e _ h
  obtain ⟨s, hs, hp, -⟩ := count_eq_ok_iff.1 h
  exact ⟨s, hp, hs⟩

theorem count_complete : Complete dotted count CountLayout CanEnd := by
  intro c s n e _ h hs hend
  have he := hend.atWordEnd isWordChar_of_isDigit (hs.getLast? hs.ne_nil)
  exact count_eq_ok_iff.2 ⟨s, hs, h, he.not_wordChar⟩

/-! ## Optional clauses -/

theorem clause?_eq_ok_iff {α : Type} {k : Keyword} {body : Rule α} {a? : Option α} :
    clause? k body c = .ok (a?, e) ↔
      (∃ d f a, c.eatSpacedKeyword? k = some d ∧ blanks d = .ok ((), f) ∧ body f = .ok (a, e) ∧
        a? = some a) ∨
      c.eatSpacedKeyword? k = none ∧ a? = none ∧ c = e := by
  rw [clause?, ite_eatSpacedKeyword_eq_ok_iff]
  simp only [bind_eq_ok_iff, pure_eq_ok_iff]
  constructor
  · rintro (⟨d, hd, ⟨⟩, f, hf, a, _, ha, rfl, rfl⟩ | ⟨hn, rfl, rfl⟩)
    · exact .inl ⟨d, f, a, hd, hf, ha, rfl⟩
    · exact .inr ⟨hn, rfl, rfl⟩
  · rintro (⟨d, f, a, hd, hf, ha, rfl⟩ | ⟨hn, rfl, rfl⟩)
    · exact .inl ⟨d, hd, (), f, hf, a, e, ha, rfl, rfl⟩
    · exact .inr ⟨hn, rfl, rfl⟩

/-- A keyword can stand right behind `s` only if `s` ends in a parenthesis. -/
def ClosedBy (s : List Char) (c : Cursor) : Prop :=
  s.getLast?.any endsCondition = true ∨ c.AtWordEnd

theorem ClosedBy.append {s t : List Char} (h : ClosedBy t c) (ht : t ≠ []) :
    ClosedBy (s ++ t) c := by
  refine h.imp (fun h => ?_) id
  rwa [List.getLast?_append, Option.or_of_isSome (by simpa using ht)]

theorem ClosedBy.of_word {s : List Char} {p : Char → Bool}
    (hp : ∀ {x}, p x = true → isWordChar x = true) (h : s.getLast?.any p = true) :
    ClosedBy s c := by
  obtain ⟨x, hx, hw⟩ := (Option.any_eq_true _ _).1 h
  refine .inl ?_
  rw [hx]
  simp [endsCondition, hp hw]

/-- `s` stands before the clauses that are still to be read. -/
structure Precedes (c : Cursor) (s : List Char) (e : Cursor) : Prop where
  passes : c.Passes s e
  ne_nil : s ≠ []
  closed : ClosedBy s e

/-- The clauses `ks` or the end of the text may follow `s`. -/
def Follows (ks : List Keyword) (s : List Char) (e : Cursor) : Prop :=
  e.AtTextEnd ∨ ∃ k ∈ ks, ∃ d, e.eatSpacedKeyword? k = some d ∧
    (e.peek?.any isBlank = false → s.getLast? = some ')')

namespace Follows

variable {ks : List Keyword} {s t : List Char}

theorem append (h : Follows ks (s ++ t) e) (ht : t ≠ []) : Follows ks t e := by
  refine h.imp id ?_
  rintro ⟨k, hk, d, hd, hs⟩
  refine ⟨k, hk, d, hd, fun hb => ?_⟩
  rw [← hs hb, List.getLast?_append, Option.or_of_isSome (by simpa using ht)]

theorem canEnd (h : Follows ks s e) : CanEnd s e := by
  rcases h with h | ⟨k, -, d, -, hs⟩
  · exact .inr (.inr h.atWordEnd)
  · cases hb : e.peek?.any isBlank with
    | true => exact .inr (.inr (Cursor.atWordEnd_of_blank hb))
    | false => exact .inr (.inl (hs hb))

theorem eatSpacedKeyword?_eq_none {l : Keyword} (h : Follows ks s e) (hl : ∀ k ∈ ks, k.Apart l) :
    e.eatSpacedKeyword? l = none := by
  rcases h with h | ⟨k, hk, d, hd, -⟩
  · exact h.eatSpacedKeyword?_eq_none
  · exact Cursor.eatSpacedKeyword?_eq_none_of_apart hd (hl k hk)

theorem noComma (h : Follows ks s e) : e.skipBlanks.eat? "," = none := by
  have hx : e.skipBlanks.peek? ≠ some ',' := by
    rcases h with h | ⟨k, -, d, hd, -⟩
    · simp [h.peek?_skipBlanks]
    · have hw := Cursor.wordStart_of_eatKeyword? (Cursor.eatSpacedKeyword?_eq_some_iff.1 hd).2
      intro hc
      rw [hc] at hw
      cases hw
  exact Cursor.eat?_eq_none_of_peek? rfl hx

end Follows

section Clause

variable {α : Type} {k : Keyword} {body : Rule α} {Body : List Char → α → Prop} {a? : Option α}
  {before : List Char}

/-- Where the keyword of a clause is read without blanks before it, a group has just been closed. -/
theorem Precedes.closes {f : Cursor} {v l : List Char} (h : Precedes c before d)
    (hafter : v = [] → d.afterWord = false) (hl : KeywordLayout l k) (hp : d.Passes (v ++ l) f)
    (hv : v = []) : before.getLast? = some ')' := by
  rcases h.closed with hlast | hword
  · exact closes_of_not_afterWord hlast (h.passes.head?_past h.ne_nil) (hafter hv)
  · subst hv
    exact absurd hl.head? (hword.not_passes_word hp)

theorem clause?_sound (hbody : Sound dotted body Body) (hstarts : ∀ s a, Body s a → Starts s)
    (hends : ∀ ⦃c s a e⦄, body c = .ok (a, e) → Body s a → ClosedBy s e) (hc : c.dotted = dotted)
    (hbefore : Precedes c before d) (h : clause? k body d = .ok (a?, e)) :
    ∃ s, Precedes c (before ++ s) e ∧ ClauseLayout k Body before s a? := by
  obtain ⟨hp, hn, hclosed⟩ := hbefore
  rcases clause?_eq_ok_iff.1 h with ⟨f, g, a, hf, hg, ha, rfl⟩ | ⟨-, rfl, rfl⟩
  · obtain ⟨v, l, hv, hafter, hl, hvl, -⟩ := Cursor.eatSpacedKeyword?_eq_some_iff_layout.1 hf
    obtain ⟨w, hw, hwp, -⟩ := blanks_eq_ok_iff.1 hg
    have hread := (hp.trans hvl).trans hwp
    obtain ⟨s, hs, hlay⟩ := hbody (hread.dotted.trans hc) ha
    have hclose := Precedes.closes ⟨hp, hn, hclosed⟩ hafter hl hvl
    refine ⟨v ++ l ++ w ++ s, ⟨?_, by simp [hn], ?_⟩, .present hv hclose hl hw hlay⟩
    · simpa using hread.trans hs
    · simpa using
        ClosedBy.append (s := before ++ v ++ l ++ w) (hends ha hlay) (hstarts _ _ hlay).ne_nil
  · exact ⟨[], by rw [List.append_nil]; exact ⟨hp, hn, hclosed⟩, .absent⟩

/-- The keyword of a clause that is present is read, whatever stands in its body. -/
theorem eatSpacedKeyword?_of_clause {v l w s : List Char} (hpast : c.past.head? = before.getLast?)
    (hv : Blanks v) (hclose : v = [] → before.getLast? = some ')') (hl : KeywordLayout l k)
    (hw : Gap w) (h : c.Passes (v ++ l ++ w ++ s) e) :
    ∃ d, c.eatSpacedKeyword? k = some d ∧ c.Passes (v ++ l) d ∧ d.Passes (w ++ s) e := by
  rw [List.append_assoc] at h
  refine Cursor.eatSpacedKeyword?_of_layout hv (fun hn => ?_) hl h
    fun d hd => hd.atWordEnd_of_gap hw
  rw [Cursor.afterWord, hpast, hclose hn]
  rfl

/-- Where a clause stands or is passed over, it or one of the later ones follows. -/
theorem Follows.of_clause {ks : List Keyword} {s : List Char}
    (ht : ClauseLayout k Body before s a?) (h : c.Passes s e)
    (hpast : c.past.head? = before.getLast?) (hf : Follows ks (before ++ s) e) :
    Follows (k :: ks) before c := by
  cases ht with
  | absent =>
    obtain rfl := h.eq_of_nil
    rw [List.append_nil] at hf
    exact hf.imp id fun ⟨l, hl, hd⟩ => ⟨l, List.mem_cons_of_mem _ hl, hd⟩
  | @present v l w s a hv hclose hl hw hs =>
    obtain ⟨d, hd, -⟩ := eatSpacedKeyword?_of_clause hpast hv hclose hl hw h
    refine .inr ⟨k, by simp, d, hd, fun hb => hclose ?_⟩
    cases v with
    | nil => rfl
    | cons x v =>
      rw [h.peek? (by simp)] at hb
      simp [hv x (by simp)] at hb

theorem clause?_of_present {Ends : List Char → Cursor → Prop} {v l w s : List Char} {a : α}
    (hbody : Complete dotted body Body Ends) (hc : c.dotted = dotted)
    (hpast : c.past.head? = before.getLast?) (hv : Blanks v)
    (hclose : v = [] → before.getLast? = some ')') (hl : KeywordLayout l k) (hw : Gap w)
    (hstarts : Starts s) (hs : Body s a) (h : c.Passes (v ++ l ++ w ++ s) e) (hend : Ends s e) :
    clause? k body c = .ok (some a, e) := by
  obtain ⟨d, hd, hcd, hde⟩ := eatSpacedKeyword?_of_clause hpast hv hclose hl hw h
  obtain ⟨f, hf, hfe⟩ := Cursor.Passes.append_iff.1 hde
  have hblanks : blanks d = .ok ((), f) :=
    blanks_eq_ok_iff.2 ⟨w, hw, hf, by rw [hfe.peek? hstarts.ne_nil]; exact hstarts.not_blank⟩
  exact clause?_eq_ok_iff.2
    (.inl ⟨d, f, a, hd, hblanks, hbody ((hcd.trans hf).dotted.trans hc) hfe hs hend, rfl⟩)

theorem clause?_complete {ks : List Keyword} {Ends : List Char → Cursor → Prop} {s : List Char}
    (hbody : Complete dotted body Body Ends) (hends : ∀ s e, Follows ks s e → Ends s e)
    (hstarts : ∀ s a, Body s a → Starts s) (hk : ∀ l ∈ ks, l.Apart k) (hc : c.dotted = dotted)
    (ht : ClauseLayout k Body before s a?) (h : c.Passes s e)
    (hpast : c.past.head? = before.getLast?) (hf : Follows ks (before ++ s) e) :
    clause? k body c = .ok (a?, e) := by
  cases ht with
  | absent =>
    obtain rfl := h.eq_of_nil
    exact clause?_eq_ok_iff.2 (.inr ⟨hf.eatSpacedKeyword?_eq_none hk, rfl, rfl⟩)
  | @present v l w s a hv hclose hl hw hs =>
    have hs' := hstarts _ _ hs
    have hend : Follows ks s e :=
      Follows.append (s := before ++ v ++ l ++ w) (by simpa using hf) hs'.ne_nil
    exact clause?_of_present hbody hc hpast hv hclose hl hw hs' hs h (hends s e hend)

end Clause

/-! ## Clause sets -/

theorem noClauseLeft_eq_ok_iff :
    noClauseLeft c = .ok ((), e) ↔
      (∀ k ∈ clauseKeywords, c.skipBlanks.eatKeyword? k = none) ∧ c = e := by
  rw [noClauseLeft]
  cases h : clauseKeywords.find? fun k => (c.skipBlanks.eatKeyword? k).isSome with
  | none =>
    have hnone : ∀ k ∈ clauseKeywords, c.skipBlanks.eatKeyword? k = none := by
      simpa using List.find?_eq_none.1 h
    simp only [Except.ok.injEq, Prod.mk.injEq, true_and]
    exact ⟨fun he => ⟨hnone, he⟩, fun he => he.2⟩
  | some k =>
    have hsome : (c.skipBlanks.eatKeyword? k).isSome = true := by simpa using List.find?_some h
    have hk := List.mem_of_find?_eq_some h
    simp only [reduceCtorEq, false_iff, not_and]
    intro hnone
    rw [hnone k hk] at hsome
    cases hsome

theorem clauseSet_eq_ok_iff {chain : Rule Chain} {s : ClauseSet} :
    clauseSet chain c = .ok (s, e) ↔ ∃ c₁ c₂ c₃ c₄ c₅ g,
      head c = .ok ((s.distinct, s.fields), c₁) ∧
      clause? .where_ chain c₁ = .ok (s.whereClause, c₂) ∧
      clause? .groupBy fields c₂ = .ok (g, c₃) ∧ s.groupBy = g.getD [] ∧
      clause? .orderBy orderBy c₃ = .ok (s.orderBy, c₄) ∧
      clause? .offset count c₄ = .ok (s.offset, c₅) ∧
      clause? .limit count c₅ = .ok (s.limit, e) ∧ noClauseLeft e = .ok ((), e) := by
  simp only [clauseSet, head, bind_eq_ok_iff, pure_eq_ok_iff]
  constructor
  · rintro ⟨⟨⟩, d₁, h₁, ⟨⟩, d₂, h₂, b, d₃, h₃, fs, c₁, hf, w, c₂, hw, g, c₃, hg, o, c₄, ho, f, c₅,
      hfo, l, c₆, hl, ⟨⟩, c₇, hn, rfl, rfl⟩
    obtain ⟨-, rfl⟩ := noClauseLeft_eq_ok_iff.1 hn
    exact ⟨c₁, c₂, c₃, c₄, c₅, g, ⟨(), d₁, h₁, (), d₂, h₂, b, d₃, h₃, fs, c₁, hf, rfl, rfl⟩, hw, hg,
      rfl, ho, hfo, hl, hn⟩
  · rintro ⟨c₁, c₂, c₃, c₄, c₅, g, ⟨⟨⟩, d₁, h₁, ⟨⟩, d₂, h₂, b, d₃, h₃, fs, _, hf, ⟨⟩, rfl⟩, hw, hg,
      hgroup, ho, hfo, hl, hn⟩
    refine ⟨(), d₁, h₁, (), d₂, h₂, _, d₃, h₃, _, _, hf, _, c₂, hw, g, c₃, hg, _, c₄, ho, _, c₅,
      hfo, _, e, hl, (), e, hn, ?_, rfl⟩
    rw [← hgroup]

variable {dialect : Dialect} {limit n : Nat}

section Clauses

variable {before : List Char} (hc : c.dotted = dialect.dottedNames) (hbefore : Precedes c before d)

include hc hbefore

theorem where?_sound {ch? : Option Chain}
    (h : clause? .where_ (chain dialect limit n) d = .ok (ch?, e)) :
    ∃ s, Precedes c (before ++ s) e ∧ ClauseLayout .where_ (ChainText dialect n) before s ch? :=
  clause?_sound chain_sound (fun _ _ h => h.1.starts) (fun _ _ _ _ _ h => .inl h.1.getLast?) hc
    hbefore h

theorem groupBy?_sound {fs? : Option (List String)}
    (h : clause? .groupBy fields d = .ok (fs?, e)) :
    ∃ s, Precedes c (before ++ s) e ∧
      ClauseLayout .groupBy (FieldsLayout dialect.dottedNames) before s fs? :=
  clause?_sound fields_sound (fun _ _ => FieldsLayout.starts)
    (fun _ _ _ _ h _ => .inr (fields_atWordEnd h)) hc hbefore h

theorem orderBy?_sound {o? : Option OrderBy} (h : clause? .orderBy orderBy d = .ok (o?, e)) :
    ∃ s, Precedes c (before ++ s) e ∧
      ClauseLayout .orderBy (OrderLayout dialect.dottedNames) before s o? :=
  clause?_sound orderBy_sound (fun _ _ => OrderLayout.starts)
    (fun _ _ _ _ _ h => .of_word id h.getLast?) hc hbefore h

theorem count?_sound {k : Keyword} {m? : Option UInt64} (h : clause? k count d = .ok (m?, e)) :
    ∃ s, Precedes c (before ++ s) e ∧ ClauseLayout k CountLayout before s m? :=
  clause?_sound count_sound (fun _ _ => CountLayout.starts)
    (fun _ _ _ _ _ h => .of_word isWordChar_of_isDigit (h.getLast? h.ne_nil)) hc hbefore h

end Clauses

theorem clauseSet_sound : Sound dialect.dottedNames (clauseSet (chain dialect limit n))
    (ClauseSetLayout dialect n) := by
  intro c s e hc h
  obtain ⟨c₁, c₂, c₃, c₄, c₅, g, hhead, hwhere, hgroup, hg, horder, hoffset, hlimit, -⟩ :=
    clauseSet_eq_ok_iff.1 h
  obtain ⟨t, hp, hhead, hend⟩ := head_sound hhead
  rw [hc] at hhead
  have h₀ : Precedes c t c₁ := ⟨hp, hhead.starts.ne_nil, .inr hend⟩
  obtain ⟨w, h₁, hwhere⟩ := where?_sound hc h₀ hwhere
  obtain ⟨g', h₂, hgroup⟩ := groupBy?_sound hc h₁ hgroup
  obtain ⟨o, h₃, horder⟩ := orderBy?_sound hc h₂ horder
  obtain ⟨f, h₄, hoffset⟩ := count?_sound hc h₃ hoffset
  obtain ⟨l, h₅, hlimit⟩ := count?_sound hc h₄ hlimit
  obtain ⟨_, _, _, _, _, _, _⟩ := s
  obtain rfl := hg
  exact ⟨_, h₅.passes, .of_clauses hhead hwhere hgroup horder hoffset hlimit⟩

/-- The clauses are read from the first on; that each is passed over where it is absent follows
from the last one backwards. -/
theorem clauseSet_complete : Complete dialect.dottedNames (clauseSet (chain dialect limit n))
    (ClauseSetLayout dialect n) fun _ e => e.AtTextEnd := by
  intro c t s e hc h ht hend
  cases ht with
  | @mk t w g o f l s hhead hwhere hgroup horder hoffset hlimit =>
    obtain ⟨c₅, p₅, q₅⟩ := Cursor.Passes.append_iff.1 h
    obtain ⟨c₄, p₄, q₄⟩ := Cursor.Passes.append_iff.1 p₅
    obtain ⟨c₃, p₃, q₃⟩ := Cursor.Passes.append_iff.1 p₄
    obtain ⟨c₂, p₂, q₂⟩ := Cursor.Passes.append_iff.1 p₃
    obtain ⟨c₁, p₁, q₁⟩ := Cursor.Passes.append_iff.1 p₂
    have past₁ := p₁.head?_past hhead.starts.ne_nil
    have past₂ := p₂.head?_past (by simp [hhead.starts.ne_nil])
    have past₃ := p₃.head?_past (by simp [hhead.starts.ne_nil])
    have past₄ := p₄.head?_past (by simp [hhead.starts.ne_nil])
    have past₅ := p₅.head?_past (by simp [hhead.starts.ne_nil])
    -- From the last clause backwards: what may follow each of them.
    have f₆ : Follows [] (t ++ w ++ g ++ o ++ f ++ l) e := .inl hend
    have f₅ := f₆.of_clause hlimit q₅ past₅
    have f₄ := f₅.of_clause hoffset q₄ past₄
    have f₃ := f₄.of_clause horder q₃ past₃
    have f₂ := f₃.of_clause hgroup q₂ past₂
    have f₁ := f₂.of_clause hwhere q₁ past₁
    -- From the first clause on: what is read of each of them.
    have r₁ := head_complete p₁ (hc ▸ hhead) f₁.canEnd f₁.noComma
    have r₂ : clause? .where_ (chain dialect limit n) c₁ = .ok (s.whereClause, c₂) :=
      clause?_complete chain_complete
        (fun _ _ hf => ⟨hf.canEnd, fun j => hf.eatSpacedKeyword?_eq_none (by cases j <;> decide)⟩)
        (fun _ _ h => h.1.starts) (by decide) (p₁.dotted.trans hc) hwhere q₁ past₁ f₂
    have r₃ : clause? .groupBy fields c₂ = .ok (s.groupBy?, c₃) :=
      clause?_complete fields_complete (fun _ _ hf => ⟨hf.canEnd, hf.noComma⟩)
        (fun _ _ => FieldsLayout.starts) (by decide) (p₂.dotted.trans hc) hgroup q₂ past₂ f₃
    have r₄ : clause? .orderBy orderBy c₃ = .ok (s.orderBy, c₄) :=
      clause?_complete orderBy_complete (fun _ _ => Follows.canEnd)
        (fun _ _ => OrderLayout.starts) (by decide) (p₃.dotted.trans hc) horder q₃ past₃ f₄
    have r₅ : clause? .offset count c₄ = .ok (s.offset, c₅) :=
      clause?_complete count_complete (fun _ _ => Follows.canEnd)
        (fun _ _ => CountLayout.starts) (by decide) (p₄.dotted.trans hc) hoffset q₄ past₄ f₅
    have r₆ : clause? .limit count c₅ = .ok (s.limit, e) :=
      clause?_complete count_complete (fun _ _ => Follows.canEnd)
        (fun _ _ => CountLayout.starts) (by decide) (p₅.dotted.trans hc) hlimit q₅ past₅ f₆
    have left : noClauseLeft e = .ok ((), e) :=
      noClauseLeft_eq_ok_iff.2 ⟨fun _ _ => hend.eatKeyword?_eq_none, rfl⟩
    exact clauseSet_eq_ok_iff.2
      ⟨c₁, c₂, c₃, c₄, c₅, s.groupBy?, r₁, r₂, r₃, s.groupBy?_getD.symm, r₄, r₅, r₆, left⟩

end FilterQuery.Rule
