import FilterQuery.Proofs.Reading.Acceptance
import FilterQuery.Proofs.RoundTrip.Literal

/-!
Well-formed chains of a dialect: those that some text is a layout of. Their canonical texts are such
layouts, so that exactly the well-formed chains are read back from their canonical texts.
-/

namespace FilterQuery

/-! ## Well-formed chains -/

def Leaf.WellFormed (dotted : Bool) (l : Leaf) : Prop :=
  IsIdentifier dotted l.field ∧
    match l with
    | .comparison _ o v => o.isComparison = true ∧ v.Writable
    | .nullCheck .. => True
    | .membership _ _ vs => ∀ v ∈ vs, v.WritableElement

instance (dotted : Bool) : (l : Leaf) → Decidable (l.WellFormed dotted)
  | .comparison f _ v => inferInstanceAs (Decidable (IsIdentifier dotted f ∧ _ ∧ v.Writable))
  | .nullCheck f _ => inferInstanceAs (Decidable (IsIdentifier dotted f ∧ True))
  | .membership f _ vs =>
    inferInstanceAs (Decidable (IsIdentifier dotted f ∧ ∀ v ∈ vs, v.WritableElement))

mutual

/-- A condition whose link is negated or not. Only the link of a leaf may be negated, and where it
may be, a leaf that is not negated is not named `NOT`. -/
def Condition.WellFormed (d : Dialect) (negated : Bool) : Condition → Prop
  | .leaf l =>
    l.WellFormed d.dottedNames ∧
      if negated then d.leafNegation = true else d.leafNegation = true → l.field ≠ "NOT"
  | .group n body =>
    negated = false ∧ (if n then d.groupNegation else d.grouping) = true ∧ Chain.WellFormed d body

/-- A chain is not empty, and joins all its conditions but the first to those before. -/
def Chain.WellFormed (d : Dialect) : Chain → Prop
  | [] => False
  | ⟨j, negated, x⟩ :: ls => j = none ∧ x.WellFormed d negated ∧ Links.WellFormed d ls

def Links.WellFormed (d : Dialect) : List Link → Prop
  | [] => True
  | ⟨j, negated, x⟩ :: ls => j.isSome = true ∧ x.WellFormed d negated ∧ Links.WellFormed d ls

end

mutual

def Condition.decWellFormed (d : Dialect) (negated : Bool) :
    (x : Condition) → Decidable (x.WellFormed d negated)
  | .leaf l => inferInstanceAs (Decidable (l.WellFormed d.dottedNames ∧
      if negated then d.leafNegation = true else d.leafNegation = true → l.field ≠ "NOT"))
  | .group n body =>
    have := Chain.decWellFormed d body
    inferInstanceAs (Decidable (negated = false ∧
      (if n then d.groupNegation else d.grouping) = true ∧ Chain.WellFormed d body))

def Chain.decWellFormed (d : Dialect) : (c : List Link) → Decidable (Chain.WellFormed d c)
  | [] => isFalse id
  | ⟨j, negated, x⟩ :: ls =>
    have := Condition.decWellFormed d negated x
    have := Links.decWellFormed d ls
    inferInstanceAs (Decidable (j = none ∧ x.WellFormed d negated ∧ Links.WellFormed d ls))

def Links.decWellFormed (d : Dialect) : (ls : List Link) → Decidable (Links.WellFormed d ls)
  | [] => isTrue trivial
  | ⟨j, negated, x⟩ :: ls =>
    have := Condition.decWellFormed d negated x
    have := Links.decWellFormed d ls
    inferInstanceAs (Decidable (j.isSome = true ∧ x.WellFormed d negated ∧ Links.WellFormed d ls))

end

instance (d : Dialect) (c : Chain) : Decidable (Chain.WellFormed d c) :=
  Chain.decWellFormed d c

theorem Links.WellFormed.condition {d : Dialect} {ls : List Link} (h : Links.WellFormed d ls) :
    ∀ l ∈ ls, l.condition.WellFormed d l.negated := by
  induction ls with
  | nil => simp
  | cons l ls ih =>
    obtain ⟨j, negated, x⟩ := l
    obtain ⟨-, hx, hls⟩ := h
    exact List.forall_mem_cons.2 ⟨hx, ih hls⟩

theorem Chain.WellFormed.condition {d : Dialect} {c : Chain} (h : Chain.WellFormed d c) :
    ∀ l ∈ c, l.condition.WellFormed d l.negated := by
  cases c with
  | nil => cases h
  | cons l ls =>
    obtain ⟨j, negated, x⟩ := l
    obtain ⟨-, hx, hls⟩ := h
    exact List.forall_mem_cons.2 ⟨hx, hls.condition⟩

/-! ## What has a layout is well formed -/

theorem isComparison_of_mem_symbols {y : String} {op : Operator} (h : (y, op) ∈ Operator.symbols) :
    op.isComparison = true := by
  have key : ∀ p ∈ Operator.symbols, p.2.isComparison = true := by decide
  exact key _ h

theorem TestLayout.wellFormed {dotted : Bool} {field : String} {t : List Char} {l : Leaf}
    (h : TestLayout field t l) (hi : IsIdentifier dotted field) : l.WellFormed dotted := by
  cases h with
  | nullCheck => exact ⟨hi, trivial⟩
  | membership _ _ _ _ hs => exact ⟨hi, hs.writable⟩
  | like negated _ _ _ _ hs => exact ⟨hi, by cases negated <;> rfl, hs.writable⟩
  | symbol _ hy _ hs => exact ⟨hi, isComparison_of_mem_symbols hy, hs.writable⟩

theorem LeafLayout.wellFormed {dotted : Bool} {s : List Char} {l : Leaf}
    (h : LeafLayout dotted s l) : l.WellFormed dotted := by
  cases h with
  | mk hi ht => exact ht.wellFormed hi

mutual

theorem ConditionLayout.wellFormed {d : Dialect} {s : List Char} {negated : Bool} {x : Condition}
    (h : ConditionLayout d s negated x) : x.WellFormed d negated := by
  cases h with
  | leaf hs hne => exact ⟨hs.wellFormed, hne⟩
  | notLeaf hneg _ _ hs => exact ⟨hs.wellFormed, hneg⟩
  | group hg hs =>
    cases hs with
    | mk _ hs _ => exact ⟨rfl, hg, hs.wellFormed⟩
  | notGroup hg _ _ hs =>
    cases hs with
    | mk _ hs _ => exact ⟨rfl, hg, hs.wellFormed⟩

theorem ChainLayout.wellFormed {d : Dialect} {s : List Char} {c : List Link}
    (h : ChainLayout d s c) : Chain.WellFormed d c := by
  cases h with
  | mk hs ht => exact ⟨rfl, hs.wellFormed, ht.wellFormed⟩

theorem LinksLayout.wellFormed {d : Dialect} {before s : List Char} {ls : List Link}
    (h : LinksLayout d before s ls) : Links.WellFormed d ls := by
  cases h with
  | nil => trivial
  | cons _ _ _ _ _ hs ht => exact ⟨rfl, hs.wellFormed, ht.wellFormed⟩

end

/-! ## Canonical texts of well-formed chains -/

/-- The operator of a comparison is written as one of the symbols, or as a keyword. -/
theorem Operator.text_cases {o : Operator} (h : o.isComparison = true) :
    (o.text, o) ∈ symbols ∨ ∃ negated : Bool, o = (if negated then .notLike else .like) ∧
      KeywordLayout o.text.toList (if negated then .notLike else .like) := by
  cases o with
  | eq | notEq | gt | lt | gtEq | ltEq => exact .inl (by decide)
  | like => exact .inr ⟨false, rfl, .text .like⟩
  | notLike => exact .inr ⟨true, rfl, .text .notLike⟩
  | isIn | notIn | isNull | isNotNull | not => cases h

theorem LeafLayout.render {dotted : Bool} {l : Leaf} (h : l.WellFormed dotted) :
    LeafLayout dotted l.render.toList l := by
  obtain ⟨hi, h⟩ := h
  cases l with
  | comparison f o v =>
    obtain ⟨ho, hv⟩ := h
    have ht : (Leaf.comparison f o v).render.toList =
        f.toList ++ ([' '] ++ o.text.toList ++ [' '] ++ v.render.toList) := by
      simp [Leaf.render]
    rw [ht]
    refine .mk (l := .comparison f o v) hi ?_
    rcases Operator.text_cases ho with hy | ⟨negated, rfl, hk⟩
    · exact .symbol Gap.blank.blanks hy Gap.blank.blanks (.render hv)
    · exact .like negated Gap.blank hk Gap.blank.blanks (by simp) (.render hv)
  | nullCheck f expectsNull =>
    have hk : KeywordLayout (Leaf.nullCheck f expectsNull).operator.text.toList
        (if expectsNull then .isNull else .isNotNull) := by
      cases expectsNull with
      | false => exact .text .isNotNull
      | true => exact .text .isNull
    have ht : (Leaf.nullCheck f expectsNull).render.toList =
        f.toList ++ ([' '] ++ (Leaf.nullCheck f expectsNull).operator.text.toList) := by
      simp [Leaf.render]
    rw [ht]
    exact .mk (l := .nullCheck f expectsNull) hi (.nullCheck expectsNull Gap.blank hk)
  | membership f negated vs =>
    have hk : KeywordLayout (Leaf.membership f negated vs).operator.text.toList
        (if negated then .notIn else .in_) := by
      cases negated with
      | false => exact .text .in_
      | true => exact .text .notIn
    have ht : (Leaf.membership f negated vs).render.toList =
        f.toList ++ ([' '] ++ (Leaf.membership f negated vs).operator.text.toList ++ [' '] ++
          (Literal.list vs).render.toList) := by
      simp [Leaf.render]
    rw [ht]
    exact .mk (l := .membership f negated vs) hi
      (.membership negated Gap.blank hk Gap.blank.blanks (.render h))

theorem GroupLayout.render {d : Dialect} {body : Chain}
    (h : ChainLayout d (Chain.render body).toList body) :
    GroupLayout d ("(" ++ Chain.render body ++ ")").toList body := by
  have ht : ("(" ++ Chain.render body ++ ")").toList =
      '(' :: [] ++ (Chain.render body).toList ++ [] ++ [')'] := by
    simp
  rw [ht]
  exact .mk .nil h .nil

mutual

theorem ConditionLayout.render {d : Dialect} {negated : Bool} :
    {x : Condition} → x.WellFormed d negated →
      ConditionLayout d (notText negated ++ x.render).toList negated x
  | .leaf l, ⟨hl, hneg⟩ => by
    cases negated with
    | false => exact .leaf (by simpa [notText, Condition.render] using .render hl) hneg
    | true =>
      have ht : (notText true ++ (Condition.leaf l).render).toList =
          "NOT".toList ++ [' '] ++ l.render.toList := by
        simp [notText, Condition.render]
      rw [ht]
      exact .notLeaf hneg (.word "NOT") Gap.blank (.render hl)
  | .group n body, ⟨hneg, hg, hbody⟩ => by
    subst hneg
    have hbody := GroupLayout.render (ChainLayout.render hbody)
    cases n with
    | false => exact .group hg (by simpa [notText, Condition.render] using hbody)
    | true =>
      have ht : (notText false ++ (Condition.group true body).render).toList =
          "NOT".toList ++ [' '] ++ ("(" ++ Chain.render body ++ ")").toList := by
        simp [notText, Condition.render]
      rw [ht]
      exact .notGroup hg (.word "NOT") Gap.blank.blanks hbody

theorem ChainLayout.render {d : Dialect} :
    {c : List Link} → Chain.WellFormed d c → ChainLayout d (Chain.render c).toList c
  | ⟨_, negated, x⟩ :: ls, ⟨rfl, hx, hls⟩ => by
    rw [Chain.render, String.toList_append]
    exact .mk (.render hx) (LinksLayout.render _ hls)

theorem LinksLayout.render {d : Dialect} :
    {ls : List Link} → (before : List Char) → Links.WellFormed d ls →
      LinksLayout d before (Chain.render ls).toList ls
  | [], _, _ => by
    rw [Chain.render]
    exact .nil
  | ⟨some j, negated, x⟩ :: ls, before, ⟨_, hx, hls⟩ => by
    have ht : (Chain.render (⟨some j, negated, x⟩ :: ls)).toList =
        [' '] ++ j.text.toList ++ [' '] ++ (notText negated ++ x.render).toList ++
          (Chain.render ls).toList := by
      simp [Chain.render]
    rw [ht]
    exact .cons Gap.blank.blanks (by simp) (.text _) Gap.blank.blanks (by simp) (.render hx)
      (LinksLayout.render _ hls)

end

/-- Exactly the well-formed chains, with groups that nest within the limit, are read back from their
canonical texts. -/
theorem parseChain_render_eq_ok_iff (d : Dialect) (maxDepth : Nat) (c : Chain) :
    parseChain d maxDepth (Chain.render c) = .ok c ↔
      Chain.WellFormed d c ∧ Chain.depth c ≤ maxDepth := by
  rw [parseChain_eq_ok_iff_whole, Rule.whole_chain_eq_ok_iff]
  constructor
  · rintro ⟨v, s, w, -, -, ⟨hs, hdepth⟩, -⟩
    exact ⟨hs.wellFormed, hdepth⟩
  · rintro ⟨hc, hdepth⟩
    exact ⟨[], _, [], by simp, .nil, ⟨.render hc, hdepth⟩, .nil⟩

/-- Below a negation a field may be named `NOT`, but not without one in the same dialect. -/
example : Chain.WellFormed .clause [⟨none, true, .leaf (.nullCheck "NOT" true)⟩] ∧
    ¬ Chain.WellFormed .clause [⟨none, false, .leaf (.nullCheck "NOT" true)⟩] := by
  decide

end FilterQuery
