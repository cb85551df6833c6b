import FilterQuery.Proofs.Fold.Leaves
import FilterQuery.Proofs.Reading.Depth
import FilterQuery.Proofs.RoundTrip.Chain

/-!
Trees read back from their texts. The text of a tree is the text of one condition, whose groups nest
as deep as the tree needs parentheses; within the limit it is read back and folds into the tree, and
beyond it it is refused for its depth. The tree of a flat chain needs a level for every conjunction.
-/

namespace FilterQuery

/-! ## Trees and the parentheses that they need -/

namespace Filter

/-- The leaves are well formed, and none of them is a group. -/
def WellFormed (dotted : Bool) : Filter → Prop
  | .leaf (.leaf l) => l.WellFormed dotted
  | .leaf (.group ..) => False
  | .not f => f.WellFormed dotted
  | .and l r | .or l r => l.WellFormed dotted ∧ r.WellFormed dotted

instance decWellFormed (dotted : Bool) : (f : Filter) → Decidable (f.WellFormed dotted)
  | .leaf (.leaf l) => inferInstanceAs (Decidable (l.WellFormed dotted))
  | .leaf (.group ..) => isFalse id
  | .not f => decWellFormed dotted f
  | .and l r | .or l r =>
    have := decWellFormed dotted l
    have := decWellFormed dotted r
    inferInstanceAs (Decidable (l.WellFormed dotted ∧ r.WellFormed dotted))

/-- The levels of parentheses in the text of a tree. The parentheses of a binary tree also serve the
negation before it. -/
def nest : Filter → Nat
  | .leaf _ => 0
  | .not f => if f.isBinary then f.nest else 1 + f.nest
  | .and l r | .or l r => 1 + max l.nest r.nest

end Filter

/-- What stands between the parentheses around a condition: a group that is not negated brings its
own. -/
def Condition.enclosed : Condition → Chain
  | .group false body => body
  | x => Chain.single x

/-- The condition that a tree is written as. -/
def Filter.condition : Filter → Condition
  | .leaf c => c
  | .not f => .group true f.condition.enclosed
  | .and l r => .group false [⟨none, false, l.condition⟩, ⟨some .and, false, r.condition⟩]
  | .or l r => .group false [⟨none, false, l.condition⟩, ⟨some .or, false, r.condition⟩]

namespace Filter

variable {dotted : Bool} {f : Filter}

theorem wellFormed_iff_leaves :
    f.WellFormed dotted ↔ ∀ c ∈ f.leaves, ∃ l, c = .leaf l ∧ l.WellFormed dotted := by
  induction f with
  | leaf c => cases c <;> simp [WellFormed, leaves]
  | not f ih => exact ih
  | and l r hl hr | or l r hl hr => simp [WellFormed, leaves, hl, hr, or_imp, forall_and]

/-- The parentheses around a condition are those of a binary tree, or they enclose it alone. -/
theorem enclosed_cases (f : Filter) (hf : f.WellFormed dotted) :
    (∃ body, f.isBinary = true ∧ f.condition = .group false body) ∨
      f.isBinary = false ∧ f.condition.enclosed = Chain.single f.condition := by
  cases f with
  | leaf c =>
    cases c with
    | leaf l => exact .inr ⟨rfl, rfl⟩
    | group => cases hf
  | not f => exact .inr ⟨rfl, rfl⟩
  | and l r | or l r => exact .inl ⟨_, rfl, rfl⟩

end Filter

/-! ## The text of a tree is that of its condition -/

theorem Chain.render_single (x : Condition) : Chain.render (Chain.single x) = x.render := by
  simp [Chain.single, Chain.render, notText]

theorem Chain.depth_single (x : Condition) : Chain.depth (Chain.single x) = x.depth := by
  simp [Chain.single, Chain.depth]

theorem Chain.foldTree?_single (x : Condition) : (Chain.single x).foldTree? = x.operand? := by
  rw [Chain.foldTree?, Chain.single, Chain.operands]
  cases x.operand? <;> rfl

namespace Filter

variable {dotted : Bool} {f : Filter}

theorem render_condition (hf : f.WellFormed dotted) : f.condition.render = f.render := by
  induction f with
  | leaf c => rfl
  | not f ih =>
    rw [condition, Condition.render, render]
    obtain ⟨body, hb, hbody⟩ | ⟨hb, hsingle⟩ := f.enclosed_cases hf
    · rw [if_pos hb, ← ih hf, hbody]
      rfl
    · rw [hb, if_neg Bool.false_ne_true, hsingle, Chain.render_single, ih hf]
      rfl
  | and l r hl hr | or l r hl hr =>
    simp [condition, Condition.render, Chain.render, render, notText, hl hf.1, hr hf.2,
      String.append_assoc]

theorem depth_condition (hf : f.WellFormed dotted) : f.condition.depth = f.nest := by
  induction f with
  | leaf c =>
    cases c with
    | leaf l => rfl
    | group => cases hf
  | not f ih =>
    rw [condition, Condition.depth, nest]
    obtain ⟨body, hb, hbody⟩ | ⟨hb, hsingle⟩ := f.enclosed_cases hf
    · rw [if_pos hb, ← ih hf, hbody]
      rfl
    · rw [hb, if_neg Bool.false_ne_true, hsingle, Chain.depth_single, ih hf]
  | and l r hl hr | or l r hl hr =>
    simp [condition, Condition.depth, Chain.depth, nest, hl hf.1, hr hf.2]

theorem operand?_condition (hf : f.WellFormed dotted) : f.condition.operand? = some f := by
  induction f with
  | leaf c =>
    cases c with
    | leaf l => rfl
    | group => cases hf
  | not f ih =>
    have hfold : Chain.foldTree? f.condition.enclosed = some f := by
      obtain ⟨body, -, hbody⟩ | ⟨-, hsingle⟩ := f.enclosed_cases hf
      · have hfold := ih hf
        rw [hbody, Condition.operand?] at hfold
        rw [hbody, Condition.enclosed, Chain.foldTree?]
        simpa [negateIf] using hfold
      · rw [hsingle, Chain.foldTree?_single, ih hf]
    rw [Chain.foldTree?] at hfold
    rw [condition, Condition.operand?, hfold]
    rfl
  | and l r hl hr | or l r hl hr =>
    simp [condition, Condition.operand?, Chain.operands, hl hf.1, hr hf.2, ofOperands?, negateIf,
      combine]

theorem wellFormed_condition (hf : f.WellFormed Dialect.expression.dottedNames) :
    f.condition.WellFormed .expression false := by
  induction f with
  | leaf c =>
    cases c with
    | leaf l => exact ⟨hf, fun h => by cases h⟩
    | group => cases hf
  | not f ih =>
    refine ⟨rfl, rfl, ?_⟩
    obtain ⟨body, -, hbody⟩ | ⟨-, hsingle⟩ := f.enclosed_cases hf
    · have hgroup := ih hf
      rw [hbody] at hgroup ⊢
      exact hgroup.2.2
    · rw [hsingle]
      exact ⟨rfl, ih hf, trivial⟩
  | and l r hl hr | or l r hl hr =>
    exact ⟨rfl, rfl, rfl, hl hf.1, rfl, hr hf.2, trivial⟩

/-! ## Reading the text of a tree -/

theorem chainLayout_render (hf : f.WellFormed Dialect.expression.dottedNames) :
    ChainLayout .expression f.render.toList (Chain.single f.condition) := by
  rw [← render_condition hf, ← Chain.render_single]
  exact .render ⟨rfl, wellFormed_condition hf, trivial⟩

variable {m : Nat}

theorem parseChain_render_of_nest_le (hf : f.WellFormed Dialect.expression.dottedNames)
    (h : f.nest ≤ m) : parseChain .expression m f.render = .ok (Chain.single f.condition) := by
  apply parseChain_of_layout (chainLayout_render hf)
  rwa [Chain.depth_single, depth_condition hf]

theorem parseChain_render_of_lt_nest (hf : f.WellFormed Dialect.expression.dottedNames)
    (h : m < f.nest) :
    ∃ e, parseChain .expression m f.render = .error e ∧ e.cause = .groupDepth m := by
  have ht : f.render.toList = [] ++ f.render.toList ++ [] := by simp
  apply parseChain_eq_error_of_depth ht .nil (chainLayout_render hf) .nil
  rwa [Chain.depth_single, depth_condition hf]

theorem foldTree?_single_condition (hf : f.WellFormed dotted) :
    (Chain.single f.condition).foldTree? = some f := by
  rw [Chain.foldTree?_single, operand?_condition hf]

end Filter

/-- Within the limit the text of a tree is read as a chain that folds into the tree; beyond it the
text is refused, and the limit is named. -/
theorem parseChain_render_filter (f : Filter) (hf : f.WellFormed Dialect.expression.dottedNames)
    (m : Nat) :
    (f.nest ≤ m → ∃ c, parseChain .expression m f.render = .ok c ∧ c.foldTree? = some f) ∧
      (m < f.nest → ∃ e, parseChain .expression m f.render = .error e ∧ e.kind = .syntactic ∧
        e.message = "Groups nested deeper than " ++ Decimal.ofNat m ++ " levels") := by
  constructor
  · intro h
    exact ⟨_, Filter.parseChain_render_of_nest_le hf h, Filter.foldTree?_single_condition hf⟩
  · intro h
    obtain ⟨e, he, hcause⟩ := Filter.parseChain_render_of_lt_nest hf h
    exact ⟨e, he, by rw [ParseError.kind, hcause]; rfl, by rw [ParseError.message, hcause]; rfl⟩

/-- A field named `NOT` behind a negation, at the limit and one level above it. -/
theorem parseChain_render_filter_named_not :
    let f := Filter.not (.and (.leaf (.leaf (.nullCheck "NOT" true)))
      (.not (.leaf (.leaf (.membership "a.b" true [.integer 1, .text "x"])))))
    f.WellFormed Dialect.expression.dottedNames ∧
      (∃ c, parseChain .expression 2 f.render = .ok c ∧ c.foldTree? = some f) ∧
      ∃ e, parseChain .expression 1 f.render = .error e ∧ e.kind = .syntactic ∧
        e.message = "Groups nested deeper than 1 levels" := by
  intro f
  have hf : f.WellFormed Dialect.expression.dottedNames := by decide
  exact ⟨hf, (parseChain_render_filter f hf 2).1 (by decide),
    (parseChain_render_filter f hf 1).2 (by decide)⟩

/-! ## Trees of accepted texts -/

mutual

theorem Condition.WellFormed.leaves {d : Dialect} {negated : Bool} :
    {x : Condition} → x.WellFormed d negated →
      x.leaves ≠ [] ∧ ∀ l ∈ x.leaves, l.WellFormed d.dottedNames
  | .leaf l, h => by simpa [Condition.leaves] using h.1
  | .group n body, h => by
    rw [Condition.leaves]
    exact Chain.WellFormed.leaves h.2.2

theorem Chain.WellFormed.leaves {d : Dialect} :
    {c : List Link} → Chain.WellFormed d c →
      Chain.leaves c ≠ [] ∧ ∀ l ∈ Chain.leaves c, l.WellFormed d.dottedNames
  | ⟨_, _, x⟩ :: ls, ⟨_, hx, hls⟩ => by
    obtain ⟨hne, hleaves⟩ := Condition.WellFormed.leaves hx
    have hrest := Links.WellFormed.leaves hls
    rw [Chain.leaves]
    refine ⟨by simp [hne], fun l hl => ?_⟩
    exact (List.mem_append.1 hl).elim (hleaves l) (hrest l)

theorem Links.WellFormed.leaves {d : Dialect} :
    {ls : List Link} → Links.WellFormed d ls → ∀ l ∈ Chain.leaves ls, l.WellFormed d.dottedNames
  | [], _ => by simp [Chain.leaves]
  | ⟨_, _, x⟩ :: ls, ⟨_, hx, hls⟩ => by
    obtain ⟨-, hleaves⟩ := Condition.WellFormed.leaves hx
    have hrest := Links.WellFormed.leaves hls
    rw [Chain.leaves]
    intro l hl
    exact (List.mem_append.1 hl).elim (hleaves l) (hrest l)

end

theorem Filter.wellFormed_of_foldTree? {d : Dialect} {c : Chain} {f : Filter}
    (hc : Chain.WellFormed d c) (h : c.foldTree? = some f) : f.WellFormed d.dottedNames := by
  rw [wellFormed_iff_leaves, Chain.leaves_of_foldTree? h]
  intro x hx
  obtain ⟨l, hl, rfl⟩ := List.mem_map.1 hx
  exact ⟨l, rfl, hc.leaves.2 l hl⟩

theorem wellFormed_of_parseWhere {text : String} {c : Chain} (h : parseWhere text = .ok c) :
    Chain.WellFormed .expression c := by
  rw [parseWhere, parseChain_eq_ok_iff_whole, Rule.whole_chain_eq_ok_iff] at h
  obtain ⟨v, s, w, -, -, ⟨hs, -⟩, -⟩ := h
  exact hs.wellFormed

/-- Every accepted text has a tree. Its text is accepted and folds into it again exactly if the tree
needs no more levels than the default limit. -/
theorem parseWhere_render_foldTree? (text : String) (c : Chain) (h : parseWhere text = .ok c) :
    ∃ f, c.foldTree? = some f ∧
      ((∃ c', parseWhere f.render = .ok c' ∧ c'.foldTree? = some f) ↔
        f.nest ≤ defaultMaxDepth) := by
  have hc := wellFormed_of_parseWhere h
  obtain ⟨f, hfold⟩ := Chain.exists_foldTree? hc.leaves.1
  have hf := Filter.wellFormed_of_foldTree? hc hfold
  refine ⟨f, hfold, ?_, fun hn => ?_⟩
  · rintro ⟨c', hc', -⟩
    apply Nat.le_of_not_lt
    intro hn
    obtain ⟨e, he, -⟩ := Filter.parseChain_render_of_lt_nest hf hn
    rw [parseWhere, he] at hc'
    cases hc'
  · exact ⟨_, Filter.parseChain_render_of_nest_le hf hn, Filter.foldTree?_single_condition hf⟩

/-- A text with a negated group, whose tree is again its own. -/
theorem parseWhere_render_foldTree?_not :
    parseWhere "NOT (a IS NULL) OR b IS NULL" = .ok
        [⟨none, false, .group true [⟨none, false, .leaf (.nullCheck "a" true)⟩]⟩,
          ⟨some .or, false, .leaf (.nullCheck "b" true)⟩] ∧
      ∃ f c', parseWhere f.render = .ok c' ∧ c'.foldTree? = some f ∧
        f = .or (.not (.leaf (.leaf (.nullCheck "a" true))))
          (.leaf (.leaf (.nullCheck "b" true))) := by
  have h : parseWhere "NOT (a IS NULL) OR b IS NULL" = .ok
        [⟨none, false, .group true [⟨none, false, .leaf (.nullCheck "a" true)⟩]⟩,
          ⟨some .or, false, .leaf (.nullCheck "b" true)⟩] := by rfl
  obtain ⟨f, hfold, hiff⟩ := parseWhere_render_foldTree? _ _ h
  obtain rfl := Option.some.inj hfold
  obtain ⟨c', hc', hf⟩ := hiff.2 (by decide)
  exact ⟨h, _, c', hc', hf, rfl⟩

/-! ## Flat chains -/

namespace Filter

/-- Each operand that is a leaf adds one level to the tree before it. -/
theorem nest_foldl_leaves (first : Filter) (ps : List (Conjunction × Filter))
    (hps : ∀ p ∈ ps, p.2.nest = 0) :
    (ps.foldl (fun left (j, right) => left.combine j right) first).nest =
      first.nest + ps.length := by
  induction ps generalizing first with
  | nil => rfl
  | cons p ps ih =>
    have hp : p.2.nest = 0 := hps p (by simp)
    have hfirst : (first.combine p.1 p.2).nest = first.nest + 1 := by
      cases p.1 <;> simp [combine, nest, hp, Nat.add_comm]
    rw [List.foldl_cons, ih _ fun q hq => hps q (List.mem_cons_of_mem p hq), hfirst,
      List.length_cons]
    omega

end Filter

theorem Chain.operands_leaves (c : Chain)
    (h : ∀ l ∈ c, l.negated = false ∧ l.condition.isLeaf = true) :
    (Chain.operands c).length = c.length ∧ ∀ p ∈ Chain.operands c, p.2.nest = 0 := by
  induction c with
  | nil => simp [Chain.operands]
  | cons l c ih =>
    obtain ⟨j, negated, x⟩ := l
    obtain ⟨rfl, hx⟩ : negated = false ∧ x.isLeaf = true :=
      h ⟨j, negated, x⟩ (by simp)
    obtain ⟨hlen, hnest⟩ := ih fun k hk => h k (List.mem_cons_of_mem _ hk)
    cases x with
    | group => cases hx
    | leaf l =>
      simp only [Chain.operands, Condition.operand?, List.length_cons, hlen, List.forall_mem_cons]
      exact ⟨trivial, rfl, hnest⟩

/-- The tree of a chain of leaves needs one level fewer than the chain has links. -/
theorem Filter.nest_of_leaves {c : Chain} {f : Filter}
    (h : ∀ l ∈ c, l.negated = false ∧ l.condition.isLeaf = true) (hf : c.foldTree? = some f) :
    f.nest + 1 = c.length := by
  obtain ⟨hlen, hnest⟩ := Chain.operands_leaves c h
  rw [Chain.foldTree?] at hf
  cases hps : Chain.operands c with
  | nil =>
    rw [hps] at hf
    cases hf
  | cons p ps =>
    rw [hps] at hf hlen hnest
    obtain rfl := Option.some.inj hf
    rw [nest_foldl_leaves _ _ fun q hq => hnest q (List.mem_cons_of_mem p hq), hnest p (by simp),
      ← hlen, List.length_cons]
    omega

theorem Chain.depth_leaves {c : Chain} (h : ∀ l ∈ c, l.condition.isLeaf = true) :
    Chain.depth c = 0 := by
  induction c with
  | nil => rfl
  | cons l c ih =>
    obtain ⟨j, negated, x⟩ := l
    have hx : x.isLeaf = true := h ⟨j, negated, x⟩ (by simp)
    cases x with
    | group => cases hx
    | leaf l =>
      rw [Chain.depth, ih fun k hk => h k (List.mem_cons_of_mem _ hk)]
      rfl

theorem Links.wellFormed_replicate {d : Dialect} {x : Condition} (hx : x.WellFormed d false)
    (j : Conjunction) (n : Nat) : Links.WellFormed d (List.replicate n ⟨some j, false, x⟩) := by
  induction n with
  | zero => trivial
  | succ n ih => exact ⟨rfl, hx, ih⟩

/-- A chain of 66 leaves is accepted, but the text of its tree is not. -/
theorem parseWhere_render_of_66_leaves :
    let leaf := Condition.leaf (.nullCheck "a" true)
    let c : Chain := ⟨none, false, leaf⟩ :: List.replicate 65 ⟨some .and, false, leaf⟩
    parseWhere (Chain.render c) = .ok c ∧ ∃ f e, c.foldTree? = some f ∧
      parseWhere f.render = .error e ∧ e.message = "Groups nested deeper than 64 levels" := by
  intro leaf c
  have hx : leaf.WellFormed .expression false := ⟨by decide, by decide⟩
  have hc : Chain.WellFormed .expression c := ⟨rfl, hx, Links.wellFormed_replicate hx .and 65⟩
  have hleaves : ∀ l ∈ c, l.negated = false ∧ l.condition.isLeaf = true := by
    intro l hl
    rcases List.mem_cons.1 hl with rfl | hl
    · exact ⟨rfl, rfl⟩
    · rw [List.eq_of_mem_replicate hl]
      exact ⟨rfl, rfl⟩
  have hdepth : Chain.depth c = 0 := Chain.depth_leaves fun l hl => (hleaves l hl).2
  have hread : parseWhere (Chain.render c) = .ok c :=
    parseChain_of_layout (.render hc) (by rw [hdepth]; exact Nat.zero_le _)
  obtain ⟨f, hfold⟩ := Chain.exists_foldTree? hc.leaves.1
  have hnest : f.nest + 1 = 66 := Filter.nest_of_leaves hleaves hfold
  have hdeep : defaultMaxDepth < f.nest := by
    rw [defaultMaxDepth]
    omega
  have hf := Filter.wellFormed_of_foldTree? hc hfold
  obtain ⟨e, he, hcause⟩ := Filter.parseChain_render_of_lt_nest hf hdeep
  exact ⟨hread, f, e, hfold, he, by rw [ParseError.message, hcause]; rfl⟩

end FilterQuery
