import FilterQuery.Proofs.Fold.Leaves
import FilterQuery.Proofs.Reading.Calls

/-!
Extensions of a dialect. A dialect that allows more reads every text of the smaller one as the same
value: each layout of the smaller dialect is one of the larger. Only the negation of leaves takes a
reading away, namely that of a leaf whose field is named `NOT`.
-/

namespace FilterQuery

/-- What the first dialect allows, the second allows too. -/
structure Dialect.Within (d d' : Dialect) : Prop where
  grouping : d.grouping = true → d'.grouping = true
  leafNegation : d.leafNegation = true → d'.leafNegation = true
  groupNegation : d.groupNegation = true → d'.groupNegation = true
  dottedNames : d.dottedNames = true → d'.dottedNames = true
  clauses : d.clauses = true → d'.clauses = true

/-- A leaf that may stand without a negation in the first dialect may do so in the second. -/
def Leaf.Keeps (d d' : Dialect) (l : Leaf) : Prop :=
  (d.leafNegation = true → l.field ≠ "NOT") → d'.leafNegation = true → l.field ≠ "NOT"

/-- The leaves of what a call answers, in the order of the text. -/
def Call.leaves : (k : Call) → k.Answer → List Leaf
  | .chain, c => Chain.leaves c
  | .clauseSet, s => s.whereClause.elim [] Chain.leaves
  | .literal, _ => []

/-! ## Names and leaves -/

section Names

variable {dotted dotted' : Bool}

theorem IsIdentifier.mono (h : dotted = true → dotted' = true) {name : String}
    (hi : IsIdentifier dotted name) : IsIdentifier dotted' name := by
  refine ⟨hi.1, fun x hx => ?_⟩
  have hx' := hi.2 x hx
  simp only [continuesName, Bool.or_eq_true, Bool.and_eq_true] at hx' ⊢
  exact hx'.imp_right (And.imp_left h)

theorem LeafLayout.mono (h : dotted = true → dotted' = true) {s : List Char} {l : Leaf}
    (hs : LeafLayout dotted s l) : LeafLayout dotted' s l := by
  cases hs with
  | mk hi ht => exact .mk (hi.mono h) ht

theorem CommaLayout.mono {α : Type} {Item Item' : List Char → α → Prop}
    (h : ∀ s a, Item s a → Item' s a) {s : List Char} {as : List α} (hs : CommaLayout Item s as) :
    CommaLayout Item' s as := by
  induction hs with
  | one hs => exact .one (h _ _ hs)
  | cons hs hv hw _ ih => exact .cons (h _ _ hs) hv hw ih

theorem FieldsLayout.mono (h : dotted = true → dotted' = true) {s : List Char} {fs : List String}
    (hs : FieldsLayout dotted s fs) : FieldsLayout dotted' s fs :=
  CommaLayout.mono (fun _ _ ⟨hs, hi⟩ => ⟨hs, hi.mono h⟩) hs

theorem OrderLayout.mono (h : dotted = true → dotted' = true) {s : List Char} {o : OrderBy}
    (hs : OrderLayout dotted s o) : OrderLayout dotted' s o := by
  cases hs with
  | mk hi hw hk => exact .mk (hi.mono h) hw hk

theorem HeadLayout.mono (h : dotted = true → dotted' = true) {s : List Char} {distinct : Bool}
    {fs : List String} (hs : HeadLayout dotted s distinct fs) :
    HeadLayout dotted' s distinct fs := by
  cases hs with
  | all hk hw hs hne => exact .all hk hw (hs.mono h) hne
  | distinct hk hw hl hv hs => exact .distinct hk hw hl hv (hs.mono h)

theorem ClauseLayout.mono {α : Type} {k : Keyword} {Body Body' : List Char → α → Prop}
    {before s : List Char} {a? : Option α} (h : ∀ t a, a? = some a → Body t a → Body' t a)
    (hs : ClauseLayout k Body before s a?) : ClauseLayout k Body' before s a? := by
  cases hs with
  | absent => exact .absent
  | present hv hclose hl hw hs => exact .present hv hclose hl hw (h _ _ rfl hs)

end Names

/-! ## Conditions and chains -/

section Chains

variable {d d' : Dialect}

mutual

theorem ConditionLayout.within (h : d.Within d') {s : List Char} {negated : Bool} {x : Condition} :
    ConditionLayout d s negated x → (∀ l ∈ x.leaves, l.Keeps d d') →
      ConditionLayout d' s negated x
  | .leaf hs hne, hl => .leaf (hs.mono h.dottedNames) (hl _ (List.mem_singleton_self _) hne)
  | .notLeaf hneg hk hw hs, _ => .notLeaf (h.leafNegation hneg) hk hw (hs.mono h.dottedNames)
  | .group hg hs, hl => .group (h.grouping hg) (hs.within h hl)
  | .notGroup hneg hk hw hs, hl => .notGroup (h.groupNegation hneg) hk hw (hs.within h hl)

theorem GroupLayout.within (h : d.Within d') {s : List Char} {body : Chain} :
    GroupLayout d s body → (∀ l ∈ Chain.leaves body, l.Keeps d d') → GroupLayout d' s body
  | .mk hv hs hw, hl => .mk hv (hs.within h hl) hw

theorem ChainLayout.within (h : d.Within d') {s : List Char} {ch : Chain} :
    ChainLayout d s ch → (∀ l ∈ Chain.leaves ch, l.Keeps d d') → ChainLayout d' s ch
  | .mk hs ht, hl =>
    .mk (hs.within h fun l hm => hl l (List.mem_append_left _ hm))
      (ht.within h fun l hm => hl l (List.mem_append_right _ hm))

theorem LinksLayout.within (h : d.Within d') {before s : List Char} {ls : List Link} :
    LinksLayout d before s ls → (∀ l ∈ Chain.leaves ls, l.Keeps d d') → LinksLayout d' before s ls
  | .nil, _ => .nil
  | .cons hv hclose hk hw hopen hs ht, hl =>
    .cons hv hclose hk hw hopen (hs.within h fun l hm => hl l (List.mem_append_left _ hm))
      (ht.within h fun l hm => hl l (List.mem_append_right _ hm))

end

theorem ClauseSetLayout.within (h : d.Within d') {n : Nat} {t : List Char} {s : ClauseSet}
    (hs : ClauseSetLayout d n t s) (hl : ∀ l ∈ Call.leaves .clauseSet s, l.Keeps d d') :
    ClauseSetLayout d' n t s := by
  cases hs with
  | mk hh hw hg ho hf hl' =>
    refine .mk (hh.mono h.dottedNames) (hw.mono fun u ch hch ht => ?_)
      (hg.mono fun _ _ _ hs => FieldsLayout.mono h.dottedNames hs)
      (ho.mono fun _ _ _ hs => hs.mono h.dottedNames) hf hl'
    have hleaves : Call.leaves .clauseSet s = Chain.leaves ch := by simp [Call.leaves, hch]
    exact ⟨ht.1.within h (hleaves ▸ hl), ht.2⟩

theorem Call.Layout.within (h : d.Within d') {n : Nat} {k : Call} {t : List Char} {a : k.Answer}
    (hs : k.Layout d n t a) (hl : ∀ l ∈ k.leaves a, l.Keeps d d') : k.Layout d' n t a := by
  cases k with
  | chain => exact ⟨hs.1.within h hl, hs.2⟩
  | clauseSet => exact ClauseSetLayout.within h hs hl
  | literal => exact hs

end Chains

/-! ## Calls -/

namespace Parser

variable {d : Dialect} {maxDepth : Nat} {text : String} {k : Call}

/-- A text that a dialect accepts is accepted with the same answer where more is allowed; if leaves
come to be negated, it is so unless the field of a leaf is named `NOT`. -/
theorem call_of_within (d d' : Dialect) (h : d.Within d') (maxDepth : Nat) (k : Call)
    (text : String) (a : k.Answer) (ha : ((ofString d maxDepth text).call k).1 = .ok a)
    (hnot : d'.leafNegation = d.leafNegation ∨ ∀ l ∈ k.leaves a, l.field ≠ "NOT") :
    ((ofString d' maxDepth text).call k).1 = .ok a := by
  have hk : k.Allowed d := allowed_of_ok ha
  have hk' : k.Allowed d' := fun hclause => h.clauses (hk hclause)
  obtain ⟨v, s, w, ht, hv, hs, hw⟩ := (call_ofString_eq_ok_iff hk).1 ha
  refine (call_ofString_eq_ok_iff hk').2 ⟨v, s, w, ht, hv, hs.within h fun l hl hne hneg => ?_, hw⟩
  rcases hnot with hsame | hnone
  · exact hne (hsame ▸ hneg)
  · exact hnone l hl

/-- A field whose name begins like the negation is no obstacle, inside a negated group either. -/
theorem call_of_within_negated_group :
    let d' : Dialect := { Dialect.expression with leafNegation := true, clauses := true }
    let ch : Chain := [⟨none, false, .group true
      [⟨none, false, .isNull "a"⟩, ⟨some .or, false, .isNull "NOTES"⟩]⟩]
    Dialect.expression.Within d' ∧ (∀ l ∈ Call.leaves .chain ch, l.field ≠ "NOT") ∧
      ((ofString .expression 1 "NOT (a IS NULL OR NOTES IS NULL)").call .chain).1 = .ok ch ∧
      ((ofString d' 1 "NOT (a IS NULL OR NOTES IS NULL)").call .chain).1 = .ok ch := by
  intro d' ch
  have hwithin : Dialect.expression.Within d' :=
    ⟨fun _ => rfl, nofun, fun _ => rfl, fun _ => rfl, nofun⟩
  have hnot : ∀ l ∈ Call.leaves .chain ch, l.field ≠ "NOT" := by decide
  have hok : ((ofString .expression 1 "NOT (a IS NULL OR NOTES IS NULL)").call .chain).1 =
      .ok ch := by rfl
  exact ⟨hwithin, hnot, hok, call_of_within .expression d' hwithin 1 .chain _ ch hok (.inr hnot)⟩

end Parser

end FilterQuery
