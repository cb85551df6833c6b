import FilterQuery.Proofs.Layout.Literal
import FilterQuery.Query.Condition
import FilterQuery.Query.Dialect

/-!
Layouts of leaves, conditions and chains in a dialect. No word is reserved: a field may be named
like a keyword, except that a leaf which is not negated may not begin with the name `NOT` where the
dialect negates leaves.
-/

namespace FilterQuery

/-! ## Leaves -/

/-- What stands behind the name of a field, from the blanks on. -/
inductive TestLayout (field : String) : List Char → Leaf → Prop
  | nullCheck {v k : List Char} (expectsNull : Bool) :
    Gap v → KeywordLayout k (if expectsNull then .isNull else .isNotNull) →
      TestLayout field (v ++ k) (.nullCheck field expectsNull)
  | membership {v k w s : List Char} {ls : List Literal} (negated : Bool) :
    Gap v → KeywordLayout k (if negated then .notIn else .in_) → Blanks w → ListLayout s ls →
      TestLayout field (v ++ k ++ w ++ s) (.membership field negated ls)
  | like {v k w s : List Char} {l : Literal} (negated : Bool) :
    Gap v → KeywordLayout k (if negated then .notLike else .like) → Blanks w →
      (w = [] → s.head?.any isWordChar = false) → ScalarLayout s l →
      TestLayout field (v ++ k ++ w ++ s)
        (.comparison field (if negated then .notLike else .like) l)
  | symbol {v w s : List Char} {y : String} {op : Operator} {l : Literal} :
    Blanks v → (y, op) ∈ Operator.symbols → Blanks w → ScalarLayout s l →
      TestLayout field (v ++ y.toList ++ w ++ s) (.comparison field op l)

/-- A name and a test on it. -/
inductive LeafLayout (dotted : Bool) : List Char → Leaf → Prop
  | mk {t : List Char} {l : Leaf} :
    IsIdentifier dotted l.field → TestLayout l.field t l →
      LeafLayout dotted (l.field.toList ++ t) l

/-! ## Conditions and chains -/

mutual

/-- A condition, and whether it is its link that is negated. -/
inductive ConditionLayout (d : Dialect) : List Char → Bool → Condition → Prop
  | leaf {s : List Char} {l : Leaf} :
    LeafLayout d.dottedNames s l → (d.leafNegation = true → l.field ≠ "NOT") →
      ConditionLayout d s false (.leaf l)
  | notLeaf {k w s : List Char} {l : Leaf} :
    d.leafNegation = true → KeywordLayout k .not → Gap w → LeafLayout d.dottedNames s l →
      ConditionLayout d (k ++ w ++ s) true (.leaf l)
  | group {s : List Char} {body : Chain} :
    d.grouping = true → GroupLayout d s body → ConditionLayout d s false (.group false body)
  | notGroup {k w s : List Char} {body : Chain} :
    d.groupNegation = true → KeywordLayout k .not → Blanks w → GroupLayout d s body →
      ConditionLayout d (k ++ w ++ s) false (.group true body)

/-- A chain in parentheses. -/
inductive GroupLayout (d : Dialect) : List Char → Chain → Prop
  | mk {v s w : List Char} {body : Chain} :
    Blanks v → ChainLayout d s body → Blanks w → GroupLayout d ('(' :: v ++ s ++ w ++ [')']) body

/-- Conditions with conjunctions between them. -/
inductive ChainLayout (d : Dialect) : List Char → Chain → Prop
  | mk {s t : List Char} {negated : Bool} {x : Condition} {ls : List Link} :
    ConditionLayout d s negated x → LinksLayout d s t ls →
      ChainLayout d (s ++ t) (⟨none, negated, x⟩ :: ls)

/-- The links behind the condition with the text `before`. Around a conjunction, blanks are optional
next to parentheses only. -/
inductive LinksLayout (d : Dialect) : (before : List Char) → List Char → List Link → Prop
  | nil {before : List Char} : LinksLayout d before [] []
  | cons {before v k w s t : List Char} {j : Conjunction} {negated : Bool} {x : Condition}
      {ls : List Link} :
    Blanks v → (v = [] → before.getLast? = some ')') → KeywordLayout k j.keyword → Blanks w →
      (w = [] → s.head? = some '(') → ConditionLayout d s negated x → LinksLayout d s t ls →
      LinksLayout d before (v ++ k ++ w ++ s ++ t) (⟨some j, negated, x⟩ :: ls)

end

/-- The layouts of conditions whose groups nest at most `n` deep. -/
def ConditionText (d : Dialect) (n : Nat) (s : List Char) (p : Bool × Condition) : Prop :=
  ConditionLayout d s p.1 p.2 ∧ p.2.depth ≤ n

/-- The layouts of groups that nest at most `n` deep. -/
def GroupText (d : Dialect) (n : Nat) (negated : Bool) (s : List Char) (x : Condition) : Prop :=
  ∃ body, x = .group negated body ∧ GroupLayout d s body ∧ x.depth ≤ n

/-- The layouts of chains whose groups nest at most `n` deep. -/
def ChainText (d : Dialect) (n : Nat) (s : List Char) (ch : Chain) : Prop :=
  ChainLayout d s ch ∧ Chain.depth ch ≤ n

/-- A text that consists of a chain with at most `maxDepth` nested groups, and blanks around it. -/
def IsChainLayout (d : Dialect) (maxDepth : Nat) (text : List Char) (c : Chain) : Prop :=
  ∃ v s w, text = v ++ s ++ w ∧ Blanks v ∧ ChainText d maxDepth s c ∧ Blanks w

theorem Condition.depth_leaf_le (l : Leaf) (n : Nat) : (Condition.leaf l).depth ≤ n := by
  simp [Condition.depth]

/-! ## How layouts begin and end -/

/-- A condition begins with a word or with a parenthesis. -/
def beginsCondition (x : Char) : Bool :=
  isWordStart x || x == '('

/-- A condition ends in a word character, in a quote or in a parenthesis. -/
def endsCondition (x : Char) : Bool :=
  isWordChar x || x == '\'' || x == ')'

theorem symbol_starts {y : String} {op : Operator} (hy : (y, op) ∈ Operator.symbols) :
    Starts y.toList ∧ y.toList.head?.any (fun x => continuesName true x || x == '(') = false := by
  have key : ∀ p ∈ Operator.symbols, p.1.toList ≠ [] ∧ p.1.toList.head?.any isBlank = false ∧
      p.1.toList.head?.any (fun x => continuesName true x || x == '(') = false := by decide
  obtain ⟨hn, hb, hx⟩ := key _ hy
  exact ⟨⟨hn, hb⟩, hx⟩

/-- Behind its blanks a test begins with a word or with a symbol. Without blanks it is a symbol,
which continues no name. -/
theorem TestLayout.begins {field : String} {s : List Char} {l : Leaf} (h : TestLayout field s l) :
    ∃ v x r, s = v ++ x :: r ∧ Blanks v ∧ isBlank x = false ∧ x ≠ '(' ∧
      (v = [] → continuesName true x = false) := by
  have keyword {v k : List Char} {w : Keyword} (hv : Gap v) (hk : KeywordLayout k w)
      (t : List Char) : ∃ v' x r, v ++ k ++ t = v' ++ x :: r ∧ Blanks v' ∧ isBlank x = false ∧
        x ≠ '(' ∧ (v' = [] → continuesName true x = false) := by
    obtain ⟨x, hx, hw⟩ := (Option.any_eq_true _ _).1 hk.head?
    obtain ⟨r, rfl⟩ := List.head?_eq_some_iff.1 hx
    refine ⟨v, x, r ++ t, by simp, hv.blanks, ?_, ?_, fun hn => absurd hn hv.ne_nil⟩
    · exact isBlank_eq_false_of_isWordChar (isWordChar_of_isWordStart hw)
    · rintro rfl
      cases hw
  cases h with
  | nullCheck _ hv hk => simpa using keyword hv hk []
  | membership _ hv hk _ _ =>
    rw [List.append_assoc]
    exact keyword hv hk _
  | like _ hv hk _ _ _ =>
    rw [List.append_assoc]
    exact keyword hv hk _
  | @symbol v w t y op l hv hy _ _ =>
    obtain ⟨⟨hn, hb⟩, hx⟩ := symbol_starts hy
    obtain ⟨x, r, hyx⟩ := List.exists_cons_of_ne_nil hn
    rw [hyx] at hb hx
    simp only [List.head?_cons, Option.any_some, Bool.or_eq_false_iff, beq_eq_false_iff_ne] at hb hx
    exact ⟨v, x, r ++ w ++ t, by simp [hyx], hv, hb, hx.2, fun _ => hx.1⟩

theorem TestLayout.ne_nil {field : String} {s : List Char} {l : Leaf}
    (h : TestLayout field s l) : s ≠ [] := by
  obtain ⟨v, x, r, rfl, -⟩ := h.begins
  simp

theorem TestLayout.field {field : String} {s : List Char} {l : Leaf} (h : TestLayout field s l) :
    field = l.field := by
  cases h <;> rfl

theorem TestLayout.getLast? {field : String} {s : List Char} {l : Leaf}
    (h : TestLayout field s l) : s.getLast?.any endsCondition = true := by
  have scalar {s : List Char} {l : Literal} (hs : ScalarLayout s l) (t : List Char) :
      (t ++ s).getLast?.any endsCondition = true := by
    obtain ⟨x, hx, hw⟩ := (Option.any_eq_true _ _).1 hs.getLast?
    simp only [Bool.or_eq_true, beq_iff_eq] at hw
    simp [List.getLast?_append, hx, endsCondition, hw]
  cases h with
  | nullCheck b _ hk =>
    obtain ⟨x, hx, hw⟩ := (Option.any_eq_true _ _).1 hk.getLast?
    simp [List.getLast?_append, hx, endsCondition, hw]
  | membership b _ _ _ hs =>
    rw [List.getLast?_append, hs.getLast?]
    rfl
  | like _ _ _ _ _ hs => exact scalar hs _
  | symbol _ _ _ hs => exact scalar hs _

theorem LeafLayout.getLast? {dotted : Bool} {s : List Char} {l : Leaf}
    (h : LeafLayout dotted s l) : s.getLast?.any endsCondition = true := by
  cases h with
  | mk _ ht =>
    obtain ⟨x, hx, hw⟩ := (Option.any_eq_true _ _).1 ht.getLast?
    simp [List.getLast?_append, hx, hw]

theorem LeafLayout.head? {dotted : Bool} {s : List Char} {l : Leaf}
    (h : LeafLayout dotted s l) : s.head?.any isWordStart = true := by
  cases h with
  | mk hf _ =>
    obtain ⟨x, hx, hw⟩ := (Option.any_eq_true _ _).1 hf.head?_any
    simp [hx, hw]

theorem LeafLayout.starts {dotted : Bool} {s : List Char} {l : Leaf} (h : LeafLayout dotted s l) :
    Starts s :=
  .of_wordStart h.head?

theorem GroupLayout.head? {d : Dialect} {s : List Char} {body : Chain}
    (h : GroupLayout d s body) : s.head? = some '(' := by
  cases h
  rfl

theorem GroupLayout.starts {d : Dialect} {s : List Char} {body : Chain}
    (h : GroupLayout d s body) : Starts s := by
  cases h
  exact ⟨by simp, rfl⟩

theorem GroupLayout.getLast? {d : Dialect} {s : List Char} {body : Chain}
    (h : GroupLayout d s body) : s.getLast? = some ')' := by
  cases h
  exact List.getLast?_concat

namespace ConditionLayout

variable {d : Dialect} {s : List Char} {negated : Bool} {x : Condition}

theorem head? (h : ConditionLayout d s negated x) : s.head?.any beginsCondition = true := by
  have word {s : List Char} (hs : s.head?.any isWordStart = true) (t : List Char) :
      (s ++ t).head?.any beginsCondition = true := by
    obtain ⟨x, hx, hw⟩ := (Option.any_eq_true _ _).1 hs
    simp [hx, beginsCondition, hw]
  cases h with
  | leaf hs _ => simpa using word hs.head? []
  | notLeaf _ hk _ _ | notGroup _ hk _ _ =>
    rw [List.append_assoc]
    exact word hk.head? _
  | group _ hs =>
    rw [hs.head?]
    rfl

theorem getLast? (h : ConditionLayout d s negated x) : s.getLast?.any endsCondition = true := by
  cases h with
  | leaf hs _ => exact hs.getLast?
  | notLeaf _ _ _ hs =>
    obtain ⟨x, hx, hw⟩ := (Option.any_eq_true _ _).1 hs.getLast?
    simp [List.getLast?_append, hx, hw]
  | group _ hs =>
    rw [hs.getLast?]
    rfl
  | notGroup _ _ _ hs =>
    rw [List.getLast?_append, hs.getLast?]
    rfl

theorem starts (h : ConditionLayout d s negated x) : Starts s := by
  obtain ⟨y, hy, hb⟩ := (Option.any_eq_true _ _).1 h.head?
  have hn : s ≠ [] := by
    rintro rfl
    cases hy
  simp only [beginsCondition, Bool.or_eq_true, beq_iff_eq] at hb
  refine ⟨hn, ?_⟩
  rcases hb with hw | rfl
  · simp [hy, isBlank_eq_false_of_isWordChar (isWordChar_of_isWordStart hw)]
  · rw [hy]
    rfl

end ConditionLayout

theorem LinksLayout.getLast? {d : Dialect} {before t : List Char} {ls : List Link}
    (h : LinksLayout d before t ls) (hb : before.getLast?.any endsCondition = true) :
    (before ++ t).getLast?.any endsCondition = true := by
  -- A link is a condition too, so the one before it no longer matters.
  induction ls generalizing before t with
  | nil =>
    cases h
    rwa [List.append_nil]
  | cons l ls ih =>
    cases h with
    | @cons _ v k w s t _ _ _ _ _ _ _ _ _ hs ht =>
      obtain ⟨x, hx, hend⟩ := (Option.any_eq_true _ _).1 (ih ht hs.getLast?)
      have hassoc : before ++ (v ++ k ++ w ++ s ++ t) = before ++ (v ++ k ++ w) ++ (s ++ t) := by
        simp
      rw [hassoc, List.getLast?_append, hx]
      exact hend

/-- A chain ends like a condition. -/
theorem ChainLayout.getLast? {d : Dialect} {s : List Char} {c : Chain} (h : ChainLayout d s c) :
    s.getLast?.any endsCondition = true := by
  cases h with
  | mk hs ht => exact ht.getLast? hs.getLast?

theorem ChainLayout.starts {d : Dialect} {s : List Char} {c : Chain} (h : ChainLayout d s c) :
    Starts s := by
  cases h with
  | mk hs _ => exact hs.starts.append _

end FilterQuery
