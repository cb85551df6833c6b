import FilterQuery.Proofs.Layout.Chain
import FilterQuery.Proofs.Reading.Literals
import FilterQuery.Reading.ChainRule

/-!
Leaves are read exactly where their layouts stand. Behind the name of the field, the keywords are
apart from each other and from the symbols, so that the order in which they are tried decides
nothing.
-/

namespace FilterQuery.Rule

variable {c d e : Cursor} {dotted : Bool}

/-! ## Operators -/

theorem symbolOperator_sound {op : Operator} (h : symbolOperator c = .ok (op, e)) :
    ∃ v y, Blanks v ∧ (y, op) ∈ Operator.symbols ∧ c.Passes (v ++ y.toList) e := by
  rw [symbolOperator] at h
  split at h
  · next r hr =>
    cases h
    obtain ⟨⟨y, op'⟩, hmem, hy⟩ := List.exists_of_findSome?_eq_some hr
    obtain ⟨f, hf, ⟨⟩⟩ := Option.map_eq_some_iff.1 hy
    obtain ⟨v, hv, hp, -⟩ := c.skipBlanks_passes
    exact ⟨v, y, hv, hmem, hp.trans (Cursor.eat?_eq_some_iff.1 hf)⟩
  · cases h

/-- The symbols before a symbol neither begin with it nor are its beginning, or they are longer by
one of two characters. -/
theorem symbols_before {y : String} {op : Operator} (hy : (y, op) ∈ Operator.symbols) :
    ∃ before after, Operator.symbols = before ++ (y, op) :: after ∧ ∀ p ∈ before,
      (¬ p.1.toList <+: y.toList ∧ ¬ y.toList <+: p.1.toList) ∨
        p.1.toList = y.toList ++ ['='] ∨ p.1.toList = y.toList ++ ['>'] := by
  simp only [Operator.symbols, List.mem_cons, Prod.mk.injEq, List.not_mem_nil, or_false] at hy
  rcases hy with ⟨rfl, rfl⟩ | ⟨rfl, rfl⟩ | ⟨rfl, rfl⟩ | ⟨rfl, rfl⟩ | ⟨rfl, rfl⟩ | ⟨rfl, rfl⟩ |
    ⟨rfl, rfl⟩
  · exact ⟨Operator.symbols.take 0, _, rfl, by decide⟩
  · exact ⟨Operator.symbols.take 1, _, rfl, by decide⟩
  · exact ⟨Operator.symbols.take 2, _, rfl, by decide⟩
  · exact ⟨Operator.symbols.take 3, _, rfl, by decide⟩
  · exact ⟨Operator.symbols.take 4, _, rfl, by decide⟩
  · exact ⟨Operator.symbols.take 5, _, rfl, by decide⟩
  · exact ⟨Operator.symbols.take 6, _, rfl, by decide⟩

/-- The first symbol that the text goes on with is the longest, so it is the one that stands there
unless the next character would lengthen it. -/
theorem findSome?_symbols {y : String} {op : Operator} (hy : (y, op) ∈ Operator.symbols)
    (h : d.Passes y.toList e) (heq : e.peek? ≠ some '=') (hgt : e.peek? ≠ some '>') :
    Operator.symbols.findSome? (fun (s, op) => (d.eat? s).map fun e => (op, e)) = some (op, e) := by
  have longer {s : String} {x : Char} (hx : e.peek? ≠ some x) (hs : s.toList = y.toList ++ [x])
      {f : Cursor} (hp : d.Passes s.toList f) : False := by
    rw [hs] at hp
    obtain ⟨e', he, hx'⟩ := Cursor.Passes.append_iff.1 hp
    rw [he.unique h] at hx'
    exact hx (hx'.peek? (by simp))
  obtain ⟨before, after, hsplit, hbefore⟩ := symbols_before hy
  rw [List.findSome?_eq_some_iff]
  refine ⟨before, (y, op), after, hsplit, by simp [Cursor.eat?_eq_some_iff.2 h], fun p hp => ?_⟩
  rw [Option.map_eq_none_iff, Option.eq_none_iff_forall_ne_some]
  intro f hf
  have hpf := Cursor.eat?_eq_some_iff.1 hf
  rcases hbefore p hp with ⟨hps, hsp⟩ | hs | hs
  · exact (List.prefix_or_prefix_of_prefix ⟨_, hpf.rest.symm⟩ ⟨_, h.rest.symm⟩).elim hps hsp
  · exact longer heq hs hpf
  · exact longer hgt hs hpf

theorem symbolOperator_of_layout {v : List Char} {y : String} {op : Operator} (hv : Blanks v)
    (hy : (y, op) ∈ Operator.symbols) (h : c.Passes (v ++ y.toList) e) (heq : e.peek? ≠ some '=')
    (hgt : e.peek? ≠ some '>') : symbolOperator c = .ok (op, e) := by
  obtain ⟨-, hd⟩ := h.skipBlanks_append hv (symbol_starts hy).1
  rw [symbolOperator, findSome?_symbols hy hd heq hgt]

theorem comparisonOperator_eq_ok {op : Operator} (h : comparisonOperator c = .ok (op, e)) :
    (∃ negated : Bool, op = (if negated then .notLike else .like) ∧
      c.eatSpacedKeyword? (if negated then .notLike else .like) = some e) ∨
    symbolOperator c = .ok (op, e) := by
  simp only [comparisonOperator, ite_eatSpacedKeyword_eq_ok_iff, pure_eq_ok_iff] at h
  rcases h with ⟨d, hd, rfl, rfl⟩ | ⟨-, ⟨d, hd, rfl, rfl⟩ | ⟨-, h⟩⟩
  · exact .inl ⟨true, rfl, hd⟩
  · exact .inl ⟨false, rfl, hd⟩
  · exact .inr h

theorem comparisonOperator_of_like {negated : Bool}
    (h : c.eatSpacedKeyword? (if negated then .notLike else .like) = some e) :
    comparisonOperator c = .ok (if negated then .notLike else .like, e) := by
  simp only [comparisonOperator, ite_eatSpacedKeyword_eq_ok_iff, pure_eq_ok_iff]
  cases negated with
  | true => exact .inl ⟨e, h, rfl, rfl⟩
  | false =>
    have hnot : c.eatSpacedKeyword? .notLike = none :=
      Cursor.eatSpacedKeyword?_eq_none_of_apart h (by decide)
    exact .inr ⟨hnot, .inl ⟨e, h, rfl, rfl⟩⟩

/-- A symbol begins no word, so that no keyword can be read before it. -/
theorem eatSpacedKeyword?_eq_none_of_symbol {v : List Char} {y : String} {op : Operator}
    {k : Keyword} (hv : Blanks v) (hy : (y, op) ∈ Operator.symbols)
    (h : c.Passes (v ++ y.toList) e) : c.eatSpacedKeyword? k = none := by
  obtain ⟨hstarts, hword⟩ := symbol_starts hy
  obtain ⟨-, hp⟩ := h.skipBlanks_append hv hstarts
  apply Cursor.eatSpacedKeyword?_eq_none_of_not_wordStart
  rw [head?_any_eq_false_iff] at hword
  rw [hp.peek? hstarts.ne_nil, head?_any_eq_false_iff]
  intro x hx
  have hw := (Bool.or_eq_false_iff.1 (hword x hx)).1
  exact (isWordChar_eq_false_iff.1 (isWordChar_eq_false_of_continuesName hw)).1

/-! ## Tests -/

/-- An operator and the literal that it compares with. -/
def comparison (field : String) : Rule Leaf := do
  let op ← comparisonOperator
  skipBlanks
  return .comparison field op (← scalar)

/-- What a leaf reads behind the name of its field. -/
def test (field : String) : Rule Leaf := do
  if ← eatSpacedKeyword .isNotNull then return .nullCheck field false
  else if ← eatSpacedKeyword .isNull then return .nullCheck field true
  else if ← eatSpacedKeyword .notIn then return .membership field true (← members)
  else if ← eatSpacedKeyword .in_ then return .membership field false (← members)
  else comparison field

theorem leaf_eq : leaf = identifier >>= test :=
  rfl

theorem members_bind_eq_ok_iff {β : Type} {f : List Literal → Rule β} {b : β} :
    (members >>= f) c = .ok (b, e) ↔
      ∃ w s ls d, Blanks w ∧ ListLayout s ls ∧ c.Passes (w ++ s) d ∧ f ls d = .ok (b, e) := by
  rw [members, bind_assoc, skipBlanks_bind, bind_eq_ok_iff]
  constructor
  · rintro ⟨ls, d, hls, h⟩
    obtain ⟨w, hw, hp, -⟩ := c.skipBlanks_passes
    obtain ⟨s, hs, hlay⟩ := listLiteral_sound rfl hls
    exact ⟨w, s, ls, d, hw, hlay, hp.trans hs, h⟩
  · rintro ⟨w, s, ls, d, hw, hs, hp, h⟩
    obtain ⟨-, hd⟩ := hp.skipBlanks_append hw hs.starts
    exact ⟨ls, d, listLiteral_complete rfl hd hs trivial, h⟩

theorem test_sound {field : String} {l : Leaf} (hc : c.AtWordEnd)
    (h : test field c = .ok (l, e)) : ∃ t, c.Passes t e ∧ TestLayout field t l := by
  have keyword {k : Keyword} {d : Cursor} (hd : c.eatSpacedKeyword? k = some d) :=
    Cursor.gap_of_eatSpacedKeyword? hc hd
  simp only [test, ite_eatSpacedKeyword_eq_ok_iff, pure_eq_ok_iff, members_bind_eq_ok_iff] at h
  rcases h with ⟨d, hd, rfl, rfl⟩ | ⟨-, ⟨d, hd, rfl, rfl⟩ | ⟨-, ⟨d, hd, h⟩ | ⟨-, ⟨d, hd, h⟩ |
    ⟨-, h⟩⟩⟩⟩
  · obtain ⟨v, k, hv, hk, hp, -⟩ := keyword hd
    exact ⟨_, hp, .nullCheck false hv hk⟩
  · obtain ⟨v, k, hv, hk, hp, -⟩ := keyword hd
    exact ⟨_, hp, .nullCheck true hv hk⟩
  · obtain ⟨v, k, hv, hk, hp, -⟩ := keyword hd
    obtain ⟨w, s, ls, f, hw, hs, hq, rfl, rfl⟩ := h
    exact ⟨_, by simpa using hp.trans hq, .membership true hv hk hw hs⟩
  · obtain ⟨v, k, hv, hk, hp, -⟩ := keyword hd
    obtain ⟨w, s, ls, f, hw, hs, hq, rfl, rfl⟩ := h
    exact ⟨_, by simpa using hp.trans hq, .membership false hv hk hw hs⟩
  · rw [comparison] at h
    obtain ⟨op, f, hop, h⟩ := bind_eq_ok_iff.1 h
    rw [skipBlanks_bind] at h
    obtain ⟨l, hl, rfl⟩ := bind_pure_eq_ok_iff.1 h
    obtain ⟨w, hw, hwp, -⟩ := f.skipBlanks_passes
    obtain ⟨s, hs, hlay⟩ := scalar_sound rfl hl
    rcases comparisonOperator_eq_ok hop with ⟨negated, rfl, hf⟩ | hop
    · obtain ⟨v, k, hv, hk, hp, hend⟩ := keyword hf
      refine ⟨_, by simpa using (hp.trans hwp).trans hs, .like negated hv hk hw ?_ hlay⟩
      -- The keyword has been read as a word, so no word character stands right behind it.
      rintro rfl
      have hn := hend.not_wordChar
      rwa [(hwp.trans hs).peek? hlay.starts.ne_nil] at hn
    · obtain ⟨v, y, hv, hy, hp⟩ := symbolOperator_sound hop
      exact ⟨_, by simpa using (hp.trans hwp).trans hs, .symbol hv hy hw hlay⟩

theorem leaf_sound : Sound dotted leaf (LeafLayout dotted) := by
  intro c l e hc h
  rw [leaf_eq] at h
  obtain ⟨field, d, hfield, h⟩ := bind_eq_ok_iff.1 h
  obtain ⟨hi, hp, hd⟩ := identifier_eq_ok_iff.1 hfield
  obtain ⟨t, ht, hlay⟩ := test_sound hd h
  obtain rfl := hlay.field
  exact ⟨_, hp.trans ht, .mk (hc ▸ hi) hlay⟩

/-- What stands between a test's operator and its literal begins with a blank or with the
literal. -/
theorem peek?_before_scalar {w s : List Char} {l : Literal} (hw : Blanks w) (hs : ScalarLayout s l)
    (h : d.Passes (w ++ s) e) :
    d.peek?.any (fun x => isBlank x || isWordChar x || x == '-' || x == '\'') = true := by
  cases w with
  | cons x w =>
    have hx := hw x (by simp)
    simp [h.peek? (by simp), hx]
  | nil =>
    obtain ⟨x, hx, hp⟩ := (Option.any_eq_true _ _).1 hs.head?
    rw [List.nil_append] at h
    rw [h.peek? hs.starts.ne_nil, hx]
    simp_all [or_assoc]

theorem atWordEnd_before_scalar {w s : List Char} {l : Literal} (hw : Blanks w)
    (hs : ScalarLayout s l) (hword : w = [] → s.head?.any isWordChar = false)
    (h : d.Passes (w ++ s) e) : d.AtWordEnd := by
  cases w with
  | cons x w => exact Cursor.atWordEnd_of_blank (by simpa [h.peek? (by simp)] using hw x (by simp))
  | nil =>
    obtain ⟨x, hx, hp⟩ := (Option.any_eq_true _ _).1 hs.head?
    have hn := hword rfl
    rw [List.nil_append] at h
    rw [Cursor.AtWordEnd, h.peek? hs.starts.ne_nil, hx]
    rw [hx] at hn
    apply continuesName_eq_false hn
    rintro rfl
    cases hp

theorem comparison_of_operator (field : String) {op : Operator} {w s : List Char} {l : Literal}
    (hop : comparisonOperator c = .ok (op, d)) (hw : Blanks w) (hs : ScalarLayout s l)
    (h : d.Passes (w ++ s) e) (hend : CanEnd s e) :
    comparison field c = .ok (.comparison field op l, e) := by
  obtain ⟨-, hp⟩ := h.skipBlanks_append hw hs.starts
  have hl : scalar d.skipBlanks = .ok (l, e) := scalar_complete rfl hp hs hend
  rw [comparison, bind_of_ok hop, skipBlanks_bind, bind_of_ok hl]
  rfl

theorem test_complete {field : String} {t : List Char} {l : Leaf} (h : c.Passes t e)
    (ht : TestLayout field t l) (hend : CanEnd t e) : test field c = .ok (l, e) := by
  have apart {k k' : Keyword} {d : Cursor} (hd : c.eatSpacedKeyword? k = some d)
      (hk : k.Apart k') : c.eatSpacedKeyword? k' = none :=
    Cursor.eatSpacedKeyword?_eq_none_of_apart hd hk
  simp only [test, ite_eatSpacedKeyword_eq_ok_iff, pure_eq_ok_iff, members_bind_eq_ok_iff]
  cases ht with
  | nullCheck expectsNull hv hk =>
    have he := (hend.append hk.starts.ne_nil).atWordEnd id hk.getLast?
    have hd := Cursor.eatSpacedKeyword?_eq_some_iff_layout.2
      ⟨_, _, hv.blanks, fun hn => absurd hn hv.ne_nil, hk, h, he⟩
    cases expectsNull with
    | false => exact .inl ⟨e, hd, rfl, rfl⟩
    | true => exact .inr ⟨apart hd (by decide), .inl ⟨e, hd, rfl, rfl⟩⟩
  | @membership v k w s ls negated hv hk hw hs =>
    rw [List.append_assoc] at h
    obtain ⟨r, rfl⟩ := List.head?_eq_some_iff.1 hs.head?
    obtain ⟨d, hd, -, hde⟩ := Cursor.eatSpacedKeyword?_of_layout hv.blanks
      (fun hn => absurd hn hv.ne_nil) hk h fun d hd => hd.atWordEnd hw (by decide)
    have hlist : ∃ w s ls' f, Blanks w ∧ ListLayout s ls' ∧ d.Passes (w ++ s) f ∧
        Leaf.membership field negated ls' = .membership field negated ls ∧ f = e :=
      ⟨w, _, ls, e, hw, hs, hde, rfl, rfl⟩
    -- The keywords before the one that stands here are apart from it.
    cases negated with
    | true =>
      exact .inr ⟨apart hd (by decide), .inr ⟨apart hd (by decide), .inl ⟨d, hd, hlist⟩⟩⟩
    | false =>
      exact .inr ⟨apart hd (by decide), .inr ⟨apart hd (by decide),
        .inr ⟨apart hd (by decide), .inl ⟨d, hd, hlist⟩⟩⟩⟩
  | @like v k w s l negated hv hk hw hword hs =>
    rw [List.append_assoc] at h
    obtain ⟨d, hd, -, hde⟩ := Cursor.eatSpacedKeyword?_of_layout hv.blanks
      (fun hn => absurd hn hv.ne_nil) hk h fun d hd => atWordEnd_before_scalar hw hs hword hd
    have hl := comparison_of_operator field (comparisonOperator_of_like hd) hw hs hde
      (hend.append hs.starts.ne_nil)
    refine .inr ⟨?_, .inr ⟨?_, .inr ⟨?_, .inr ⟨?_, hl⟩⟩⟩⟩ <;>
      · cases negated <;> exact apart hd (by decide)
  | @symbol v w s y op l hv hy hw hs =>
    rw [List.append_assoc] at h
    obtain ⟨d, hd, hde⟩ := Cursor.Passes.append_iff.1 h
    have none (k : Keyword) : c.eatSpacedKeyword? k = none :=
      eatSpacedKeyword?_eq_none_of_symbol hv hy hd
    obtain ⟨x, hx, hp⟩ := (Option.any_eq_true _ _).1 (peek?_before_scalar hw hs hde)
    have hop : symbolOperator c = .ok (op, d) := by
      apply symbolOperator_of_layout hv hy hd
      · rw [hx]
        rintro ⟨⟩
        cases hp
      · rw [hx]
        rintro ⟨⟩
        cases hp
    have hcmp : comparisonOperator c = .ok (op, d) := by
      simp only [comparisonOperator, ite_eatSpacedKeyword_eq_ok_iff]
      exact .inr ⟨none _, .inr ⟨none _, hop⟩⟩
    have hl := comparison_of_operator field hcmp hw hs hde (hend.append hs.starts.ne_nil)
    exact .inr ⟨none _, .inr ⟨none _, .inr ⟨none _, .inr ⟨none _, hl⟩⟩⟩⟩

/-! ## Leaves -/

theorem atWordEnd_before_test {field : String} {t : List Char} {l : Leaf}
    (ht : TestLayout field t l) (h : c.Passes t e) : c.AtWordEnd := by
  obtain ⟨v, x, r, rfl, hv, -, -, hx⟩ := ht.begins
  rw [Cursor.AtWordEnd, h.peek? (by simp)]
  cases v with
  | nil => exact continuesName_eq_false_of_dotted (hx rfl)
  | cons y v => exact continuesName_eq_false_of_isBlank (hv y (by simp))

/-- Behind the blanks of a test no group begins. -/
theorem not_group_before_test {field : String} {t : List Char} {l : Leaf}
    (ht : TestLayout field t l) (h : c.Passes t e) : c.skipBlanks.peek? ≠ some '(' := by
  obtain ⟨v, x, r, rfl, hv, hb, hx, -⟩ := ht.begins
  obtain ⟨-, hp⟩ := h.skipBlanks_append hv (.cons hb r)
  rw [hp.peek? (by simp)]
  simpa using hx

theorem leaf_complete : Complete dotted leaf (LeafLayout dotted) CanEnd := by
  intro c s l e hc h hs hend
  cases hs with
  | @mk t l hi ht =>
    obtain ⟨d, hd, hde⟩ := Cursor.Passes.append_iff.1 h
    have hf : identifier c = .ok (l.field, d) :=
      identifier_eq_ok_iff.2 ⟨hc ▸ hi, hd, atWordEnd_before_test ht hde⟩
    rw [leaf_eq, bind_of_ok hf]
    exact test_complete hde ht (hend.append ht.ne_nil)

/-- The word `NOT` is read before a leaf exactly if it is the name of the field. What follows it
then is no group. -/
theorem leaf_named_not {s : List Char} {l : Leaf} (hs : LeafLayout c.dotted s l)
    (h : c.Passes s e) :
    l.field ≠ "NOT" ∧ c.eatKeyword? .not = none ∨
      l.field = "NOT" ∧ ∃ d, c.eatKeyword? .not = some d ∧ d.skipBlanks.peek? ≠ some '(' := by
  cases hs with
  | @mk t l hi ht =>
    obtain ⟨d, hd, hde⟩ := Cursor.Passes.append_iff.1 h
    have hword : c.eatKeyword? .not = if l.field = "NOT" then some d else none :=
      Cursor.eatWord?_of_identifier (by decide) hi hd (atWordEnd_before_test ht hde)
    by_cases hf : l.field = "NOT"
    · rw [if_pos hf] at hword
      exact .inr ⟨hf, d, hword, not_group_before_test ht hde⟩
    · rw [if_neg hf] at hword
      exact .inl ⟨hf, hword⟩

end FilterQuery.Rule
