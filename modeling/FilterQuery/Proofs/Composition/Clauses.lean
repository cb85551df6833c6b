import FilterQuery.Proofs.Refusal.Clauses
import FilterQuery.Proofs.RoundTrip.ClauseSet

/-!
Clauses in any order behind a head. Each kind of clause has one turn, and at its turn at most one
clause of the kind is read; whatever the clauses hold, the next one begins where the text of the one
before it ends. So a text is accepted exactly if its clauses are written in the order of the turns,
and otherwise the first clause that is not is the one that is left.
-/

namespace FilterQuery

variable {d : Dialect} {m : Nat}

/-! ## Clauses -/

inductive ClauseKind where
  | where_ | groupBy | orderBy | offset | limit
  deriving DecidableEq, Repr

namespace ClauseKind

/-- The place of the kind in the order of clauses. -/
def rank : ClauseKind → Nat
  | .where_ => 0
  | .groupBy => 1
  | .orderBy => 2
  | .offset => 3
  | .limit => 4

/-- The kinds in the order of their turns. -/
def all : List ClauseKind :=
  [.where_, .groupBy, .orderBy, .offset, .limit]

def keyword : ClauseKind → Keyword
  | .where_ => .where_
  | .groupBy => .groupBy
  | .orderBy => .orderBy
  | .offset => .offset
  | .limit => .limit

/-- What stands behind the keyword. -/
def Body : ClauseKind → Type
  | .where_ => Chain
  | .groupBy => List String
  | .orderBy => OrderBy
  | .offset | .limit => UInt64

def bodyText : (k : ClauseKind) → k.Body → String
  | .where_ => Chain.render
  | .groupBy => ClauseSet.renderFields
  | .orderBy => fun o : OrderBy => o.field ++ " " ++ o.direction.text
  | .offset | .limit => fun n : UInt64 => Decimal.ofNat n.toNat

def WellFormed (d : Dialect) (m : Nat) : (k : ClauseKind) → k.Body → Prop
  | .where_ => fun c => Chain.WellFormed d c ∧ Chain.depth c ≤ m
  | .groupBy => fun fs : List String => fs ≠ [] ∧ ∀ name ∈ fs, IsIdentifier d.dottedNames name
  | .orderBy => fun o : OrderBy => IsIdentifier d.dottedNames o.field
  | .offset | .limit => fun _ => True

def Layout (d : Dialect) (m : Nat) : (k : ClauseKind) → List Char → k.Body → Prop
  | .where_ => ChainText d m
  | .groupBy => FieldsLayout d.dottedNames
  | .orderBy => OrderLayout d.dottedNames
  | .offset | .limit => CountLayout

/-- What reads a body. -/
def rule (chain : Rule Chain) : (k : ClauseKind) → Rule k.Body
  | .where_ => chain
  | .groupBy => Rule.fields
  | .orderBy => Rule.orderBy
  | .offset | .limit => Rule.count

variable {j k : ClauseKind} {b : k.Body} {s : List Char}

theorem mem_all (k : ClauseKind) : k ∈ all := by
  cases k <;> decide

theorem keyword_apart (h : j ≠ k) : j.keyword.Apart k.keyword := by
  have apart : ∀ j ∈ all, ∀ k ∈ all, j ≠ k → j.keyword.Apart k.keyword := by decide
  exact apart j j.mem_all k k.mem_all h

theorem WellFormed.layout (h : k.WellFormed d m b) :
    k.Layout d m (k.bodyText b).toList b := by
  cases k with
  | where_ => exact ⟨.render h.1, h.2⟩
  | groupBy => exact .render h.1 h.2
  | orderBy => exact .render h
  | offset | limit => exact .ofNat b

theorem Layout.starts (h : k.Layout d m s b) : Starts s := by
  cases k with
  | where_ => exact h.1.starts
  | groupBy => exact FieldsLayout.starts h
  | orderBy => exact OrderLayout.starts h
  | offset | limit => exact CountLayout.starts h

/-- Every body is read up to the keyword of whatever clause follows. -/
theorem rule_complete (k : ClauseKind) (limit : Nat) :
    Rule.Complete d.dottedNames (k.rule (Rule.chain d limit m)) (k.Layout d m)
      (Rule.Follows (all.map keyword)) := by
  intro c s b e hc h hs hf
  cases k with
  | where_ =>
    refine Rule.chain_complete hc h hs ⟨hf.canEnd, fun j => ?_⟩
    exact hf.eatSpacedKeyword?_eq_none (by cases j <;> decide)
  | groupBy => exact Rule.fields_complete hc h hs ⟨hf.canEnd, hf.noComma⟩
  | orderBy => exact Rule.orderBy_complete hc h hs hf.canEnd
  | offset | limit => exact Rule.count_complete hc h hs hf.canEnd

end ClauseKind

structure Clause where
  kind : ClauseKind
  body : kind.Body

namespace Clause

/-- A clause with the blank before it. -/
def text (x : Clause) : String :=
  ClauseSet.renderClause x.kind.keyword (some (x.kind.bodyText x.body))

def renderAll : List Clause → String
  | [] => ""
  | x :: xs => x.text ++ renderAll xs

def WellFormed (d : Dialect) (m : Nat) (x : Clause) : Prop :=
  x.kind.WellFormed d m x.body

/-- The kinds are strictly increasing. -/
def InOrder (xs : List Clause) : Prop :=
  xs.Pairwise fun x y => x.kind.rank < y.kind.rank

instance (xs : List Clause) : Decidable (InOrder xs) :=
  inferInstanceAs (Decidable (List.Pairwise _ xs))

theorem inOrder_cons_cons {x y : Clause} {xs : List Clause} :
    InOrder (x :: y :: xs) ↔ x.kind.rank < y.kind.rank ∧ InOrder (y :: xs) := by
  rw [InOrder, List.pairwise_cons]
  refine and_congr_left fun hxs => ⟨fun h => h y (by simp), fun h z hz => ?_⟩
  rcases List.mem_cons.1 hz with rfl | hz
  · exact h
  · exact Nat.lt_trans h ((List.pairwise_cons.1 hxs).1 z hz)

theorem text_toList (x : Clause) : x.text.toList =
    [' '] ++ x.kind.keyword.text.toList ++ [' '] ++ (x.kind.bodyText x.body).toList := by
  simp [text, ClauseSet.renderClause]

end Clause

/-- The names to group by make a clause if there are any. -/
def ClauseSet.part? (s : ClauseSet) : (k : ClauseKind) → Option k.Body
  | .where_ => s.whereClause
  | .groupBy => s.groupBy?
  | .orderBy => s.orderBy
  | .offset => s.offset
  | .limit => s.limit

/-- The clauses that are present. -/
def ClauseSet.clauses (s : ClauseSet) : List Clause :=
  ClauseKind.all.flatMap fun k => ((s.part? k).map (Clause.mk k)).toList

/-! ## Turns -/

namespace Clause

/-- The clauses from the first one on that is not of a later kind than the one before it. -/
def misplaced : List Clause → List Clause
  | [] => []
  | [_] => []
  | x :: y :: xs => if x.kind.rank < y.kind.rank then misplaced (y :: xs) else y :: xs

/-- What is read at the turn of a kind: the body of the first clause, if it is of the kind. -/
def turn? (k : ClauseKind) : List Clause → Option k.Body
  | [] => none
  | ⟨j, b⟩ :: _ => if h : j = k then some (h ▸ b) else none

/-- The clauses that are left after the turn of a kind. -/
def afterTurn (k : ClauseKind) : List Clause → List Clause
  | [] => []
  | x :: xs => if x.kind = k then xs else x :: xs

/-- The clauses that are read at the turns of some kinds. -/
def turns : List ClauseKind → List Clause → List Clause
  | [], _ => []
  | k :: ks, xs => ((turn? k xs).map (mk k)).toList ++ turns ks (afterTurn k xs)

/-- The clauses that are left after the turns of some kinds. -/
def leftover : List ClauseKind → List Clause → List Clause
  | [], xs => xs
  | k :: ks, xs => leftover ks (afterTurn k xs)

variable {k : ClauseKind} {x y : Clause} {xs back : List Clause}

theorem misplaced_eq_nil_iff : misplaced xs = [] ↔ InOrder xs := by
  fun_induction misplaced xs with
  | case1 => simp [InOrder]
  | case2 x => simp [InOrder]
  | case3 x y xs h ih => simp [inOrder_cons_cons, h, ih]
  | case4 x y xs h => simp [inOrder_cons_cons, h]

theorem misplaced_append {front : List Clause} (h : InOrder (front ++ [x]))
    (hy : y.kind.rank ≤ x.kind.rank) : misplaced (front ++ x :: y :: back) = y :: back := by
  induction front with
  | nil => exact if_neg (Nat.not_lt.2 hy)
  | cons a front ih =>
    cases front with
    | nil =>
      obtain ⟨hlt, h⟩ := inOrder_cons_cons.1 h
      exact (if_pos hlt).trans (ih h)
    | cons b front =>
      obtain ⟨hlt, h⟩ := inOrder_cons_cons.1 h
      exact (if_pos hlt).trans (ih h)

theorem exists_of_misplaced (h : misplaced xs = y :: back) :
    ∃ front x, xs = front ++ x :: y :: back ∧ InOrder (front ++ [x]) ∧
      y.kind.rank ≤ x.kind.rank := by
  fun_induction misplaced xs with
  | case1 => cases h
  | case2 a => cases h
  | case3 a b xs hab ih =>
    obtain ⟨front, x, hxs, hfront, hle⟩ := ih h
    refine ⟨a :: front, x, by rw [hxs]; rfl, ?_, hle⟩
    -- The clause behind `a` is `b`, whether the others in order are none or begin with it.
    cases front <;> obtain ⟨rfl, -⟩ := List.cons.inj hxs <;>
      exact inOrder_cons_cons.2 ⟨hab, hfront⟩
  | case4 a b xs hab =>
    obtain ⟨rfl, rfl⟩ := List.cons.inj h
    exact ⟨[], a, rfl, List.pairwise_singleton _ a, Nat.not_lt.1 hab⟩

theorem turn?_append_afterTurn (k : ClauseKind) (xs : List Clause) :
    ((turn? k xs).map (mk k)).toList ++ afterTurn k xs = xs := by
  cases xs with
  | nil => rfl
  | cons x xs =>
    obtain ⟨j, b⟩ := x
    by_cases h : j = k
    · subst h
      simp [turn?, afterTurn]
    · simp [turn?, afterTurn, h]

theorem afterTurn_suffix (k : ClauseKind) (xs : List Clause) : afterTurn k xs <:+ xs :=
  ⟨_, turn?_append_afterTurn k xs⟩

theorem turns_append_leftover (ks : List ClauseKind) (xs : List Clause) :
    turns ks xs ++ leftover ks xs = xs := by
  induction ks generalizing xs with
  | nil => rfl
  | cons k ks ih => rw [turns, leftover, List.append_assoc, ih, turn?_append_afterTurn]

theorem turn?_wellFormed (h : ∀ x ∈ xs, x.WellFormed d m) :
    ∀ b ∈ turn? k xs, k.WellFormed d m b := by
  intro b hb
  have hread : mk k b ∈ ((turn? k xs).map (mk k)).toList ++ afterTurn k xs := by
    simp [Option.mem_def.1 hb]
  rw [turn?_append_afterTurn] at hread
  exact h _ hread

theorem leftover_nil (ks : List ClauseKind) : leftover ks [] = [] := by
  induction ks with
  | nil => rfl
  | cons k ks ih => exact ih

/-- The kinds whose turns are still to come: with each of them all later ones. -/
structure Coming (ks : List ClauseKind) : Prop where
  sorted : ks.Pairwise fun j k => j.rank < k.rank
  later : ∀ k ∈ ks, ∀ j : ClauseKind, k.rank < j.rank → j ∈ ks

theorem Coming.all : Coming ClauseKind.all :=
  ⟨by decide, fun _ _ j _ => j.mem_all⟩

theorem Coming.tail {ks : List ClauseKind} (h : Coming (k :: ks)) :
    Coming ks ∧ ∀ j : ClauseKind, j ∈ ks ↔ k.rank < j.rank := by
  obtain ⟨hlt, hsorted⟩ := List.pairwise_cons.1 h.sorted
  have hlater (j : ClauseKind) (hj : k.rank < j.rank) : j ∈ ks := by
    rcases List.mem_cons.1 (h.later k (by simp) j hj) with rfl | hj'
    · exact absurd hj (Nat.lt_irrefl _)
    · exact hj'
  exact ⟨⟨hsorted, fun i hi j hj => hlater j (Nat.lt_trans (hlt i hi) hj)⟩,
    fun j => ⟨hlt j, hlater j⟩⟩

/-- Once the turn of the first clause has passed, all clauses are left. Otherwise it is read, and
so are those behind it up to the first that is misplaced. -/
theorem leftover_cons {ks : List ClauseKind} (hks : Coming ks) (x : Clause) (xs : List Clause) :
    leftover ks (x :: xs) = if x.kind ∈ ks then misplaced (x :: xs) else x :: xs := by
  induction ks generalizing x xs with
  | nil => simp [leftover]
  | cons k ks ih =>
    obtain ⟨htail, hmem⟩ := hks.tail
    rw [leftover, afterTurn]
    by_cases hx : x.kind = k
    · subst hx
      rw [if_pos rfl, if_pos List.mem_cons_self]
      cases xs with
      | nil => exact leftover_nil ks
      | cons y xs => simp only [ih htail, misplaced, hmem]
    · simp [hx, ih htail]

theorem leftover_all (xs : List Clause) : leftover ClauseKind.all xs = misplaced xs := by
  cases xs with
  | nil => rfl
  | cons x xs => rw [leftover_cons .all, if_pos x.kind.mem_all]

end Clause

/-- The clause set behind a head: what is read at each of the turns. -/
def ClauseSet.ofClauses (distinct : Bool) (fields : List String) (xs : List Clause) : ClauseSet :=
  let xs₁ := Clause.afterTurn .where_ xs
  let xs₂ := Clause.afterTurn .groupBy xs₁
  let xs₃ := Clause.afterTurn .orderBy xs₂
  let xs₄ := Clause.afterTurn .offset xs₃
  { fields, distinct
    whereClause := Clause.turn? .where_ xs
    groupBy := (Clause.turn? .groupBy xs₁).getD []
    orderBy := Clause.turn? .orderBy xs₂
    offset := Clause.turn? .offset xs₃
    limit := Clause.turn? .limit xs₄ }

theorem ClauseSet.clauses_ofClauses (distinct : Bool) (fields : List String) {xs : List Clause}
    (h : ∀ x ∈ xs, x.WellFormed d m) :
    (ofClauses distinct fields xs).clauses = Clause.turns ClauseKind.all xs := by
  have hxs₁ : ∀ x ∈ Clause.afterTurn .where_ xs, x.WellFormed d m :=
    fun x hx => h x ((Clause.afterTurn_suffix .where_ xs).subset hx)
  have hgroup : (ofClauses distinct fields xs).groupBy? =
      Clause.turn? .groupBy (Clause.afterTurn .where_ xs) :=
    groupBy?_of_getD rfl fun hn => (Clause.turn?_wellFormed hxs₁ _ hn).1 rfl
  simp only [clauses, ClauseKind.all, List.flatMap_cons, part?, hgroup]
  rfl

/-! ## Reading -/

/-- Clauses are all that is left of the text. -/
structure ClausesAhead (d : Dialect) (m : Nat) (xs : List Clause) (c : Cursor) : Prop where
  rest : c.rest = (Clause.renderAll xs).toList
  dotted : c.dotted = d.dottedNames
  wellFormed : ∀ x ∈ xs, x.WellFormed d m

namespace ClausesAhead

variable {c : Cursor} {x : Clause} {xs : List Clause}

theorem of_passes {s : List Char} (hc : c.rest = s ++ (Clause.renderAll xs).toList)
    (hdotted : c.dotted = d.dottedNames) (hxs : ∀ x ∈ xs, x.WellFormed d m) :
    ∃ e, c.Passes s e ∧ ClausesAhead d m xs e := by
  have hp := Cursor.Passes.move hc
  exact ⟨_, hp, List.append_cancel_left (hp.rest.symm.trans hc), hp.dotted.trans hdotted, hxs⟩

theorem atTextEnd (h : ClausesAhead d m [] c) : c.AtTextEnd :=
  (Cursor.Passes.refl c).atTextEnd .nil h.rest

theorem passes (h : ClausesAhead d m (x :: xs) c) :
    ∃ e, c.Passes x.text.toList e ∧ ClausesAhead d m xs e := by
  have hr : c.rest = x.text.toList ++ (Clause.renderAll xs).toList := by
    rw [h.rest, Clause.renderAll, String.toList_append]
  exact of_passes hr h.dotted fun y hy => h.wellFormed y (List.mem_cons_of_mem _ hy)

theorem peek? (h : ClausesAhead d m (x :: xs) c) : c.peek? = some ' ' := by
  obtain ⟨e, hp, -⟩ := h.passes
  rw [Clause.text_toList] at hp
  rw [hp.peek? (by simp)]
  rfl

theorem eatSpacedKeyword? (h : ClausesAhead d m (x :: xs) c) :
    ∃ e, c.eatSpacedKeyword? x.kind.keyword = some e := by
  obtain ⟨e, hp, -⟩ := h.passes
  rw [Clause.text_toList] at hp
  obtain ⟨f, hf, -⟩ := Rule.eatSpacedKeyword?_of_clause List.getLast?_reverse.symm
    Gap.blank.blanks (by simp) (.text x.kind.keyword) Gap.blank hp
  exact ⟨f, hf⟩

theorem follows (h : ClausesAhead d m xs c) (s : List Char) :
    Rule.Follows (ClauseKind.all.map ClauseKind.keyword) s c := by
  cases xs with
  | nil => exact .inl h.atTextEnd
  | cons x xs =>
    obtain ⟨e, he⟩ := h.eatSpacedKeyword?
    refine .inr ⟨_, List.mem_map_of_mem x.kind.mem_all, e, he, fun hb => ?_⟩
    rw [h.peek?] at hb
    cases hb

/-- At the turn of a kind, the first clause is read if it is of the kind, and nothing else is. -/
theorem clause?_turn (h : ClausesAhead d m xs c) (k : ClauseKind) (limit : Nat) :
    ∃ e, Rule.clause? k.keyword (k.rule (Rule.chain d limit m)) c =
        .ok (Clause.turn? k xs, e) ∧ ClausesAhead d m (Clause.afterTurn k xs) e := by
  cases xs with
  | nil =>
    exact ⟨c, Rule.clause?_eq_ok_iff.2 (.inr ⟨h.atTextEnd.eatSpacedKeyword?_eq_none, rfl, rfl⟩), h⟩
  | cons x xs =>
    obtain ⟨j, b⟩ := x
    by_cases hk : j = k
    · subst hk
      obtain ⟨e, hp, he⟩ := h.passes
      have hb : j.Layout d m _ b := (h.wellFormed ⟨j, b⟩ (by simp)).layout
      rw [Clause.text_toList] at hp
      have hread := Rule.clause?_of_present (j.rule_complete limit) h.dotted
        List.getLast?_reverse.symm Gap.blank.blanks (by simp) (.text j.keyword) Gap.blank
        hb.starts hb hp (he.follows _)
      exact ⟨e, by simpa [Clause.turn?] using hread, by simpa [Clause.afterTurn] using he⟩
    · obtain ⟨e, he⟩ := h.eatSpacedKeyword?
      have hnone := Cursor.eatSpacedKeyword?_eq_none_of_apart he (ClauseKind.keyword_apart hk)
      refine ⟨c, ?_, by simpa [Clause.afterTurn, hk] using h⟩
      simpa [Clause.turn?, hk] using Rule.clause?_eq_ok_iff.2 (.inr ⟨hnone, rfl, rfl⟩)

/-- The five turns. What is left after them is refused, if it is anything. -/
theorem clauses (h : ClausesAhead d m xs c) (limit : Nat) (distinct : Bool)
    (fields : List String) :
    ∃ e, ClausesAhead d m (Clause.leftover ClauseKind.all xs) e ∧
      Rule.clauses (Rule.chain d limit m) distinct fields c =
        (Rule.noClauseLeft >>= fun _ => pure (ClauseSet.ofClauses distinct fields xs)) e := by
  obtain ⟨c₁, r₁, h₁⟩ := h.clause?_turn .where_ limit
  obtain ⟨c₂, r₂, h₂⟩ := h₁.clause?_turn .groupBy limit
  obtain ⟨c₃, r₃, h₃⟩ := h₂.clause?_turn .orderBy limit
  obtain ⟨c₄, r₄, h₄⟩ := h₃.clause?_turn .offset limit
  obtain ⟨c₅, r₅, h₅⟩ := h₄.clause?_turn .limit limit
  refine ⟨c₅, h₅, ?_⟩
  exact (Rule.bind_of_ok r₁ _).trans <| (Rule.bind_of_ok r₂ _).trans <|
    (Rule.bind_of_ok r₃ _).trans <| (Rule.bind_of_ok r₄ _).trans <| Rule.bind_of_ok r₅ _

/-- A clause that is left is refused at its keyword, behind the blank. -/
theorem noClauseLeft (h : ClausesAhead d m (x :: xs) c) :
    ∃ r, Rule.noClauseLeft c = .error r ∧ r.error.cause = .misplacedClause x.kind.keyword ∧
      " " ++ r.error.residual = Clause.renderAll (x :: xs) := by
  obtain ⟨e, he⟩ := h.eatSpacedKeyword?
  have hread := (Cursor.eatSpacedKeyword?_eq_some_iff.1 he).2
  have hk : x.kind.keyword ∈ Rule.clauseKeywords := by cases x.kind <;> decide
  refine ⟨_, Rule.noClauseLeft_of_eatKeyword? hk hread, rfl, ?_⟩
  obtain ⟨f, hp, -⟩ := h.passes
  rw [Clause.text_toList, List.append_assoc, List.append_assoc] at hp
  have hblank := (hp.skipBlanks_append Gap.blank.blanks
    ((KeywordLayout.text x.kind.keyword).starts.append _)).1
  have hrest : c.skipBlanks.restText.toList = c.skipBlanks.rest := String.toList_ofList
  apply String.toList_inj.1
  rw [String.toList_append, ← h.rest, hblank.rest]
  exact congrArg _ hrest

theorem of_head {distinct : Bool} {fields : List String} {s : List Char}
    (hs : HeadLayout d.dottedNames s distinct fields)
    (hc : c.rest = s ++ (Clause.renderAll xs).toList) (hdotted : c.dotted = d.dottedNames)
    (hxs : ∀ x ∈ xs, x.WellFormed d m) :
    ∃ e, Rule.head c.skipBlanks = .ok ((distinct, fields), e) ∧ ClausesAhead d m xs e := by
  obtain ⟨e, hp, he⟩ := of_passes hc hdotted hxs
  -- The head begins with no blank, so that none is skipped.
  obtain ⟨hv, hsp⟩ := Cursor.Passes.skipBlanks_append (w := []) hp .nil hs.starts
  rw [← hdotted, ← hv.dotted] at hs
  exact ⟨e, Rule.head_complete hsp hs (he.follows s).canEnd (he.follows s).noComma, he⟩

end ClausesAhead

/-- What is answered for a head and clauses is decided by the clauses that are left. -/
theorem parseClauseSet_head_clauses {distinct : Bool} {fields : List String} {xs : List Clause}
    {text : String} {s : List Char} (hd : d.clauses = true)
    (hs : HeadLayout d.dottedNames s distinct fields)
    (htext : text.toList = s ++ (Clause.renderAll xs).toList) (hxs : ∀ x ∈ xs, x.WellFormed d m) :
    match Clause.misplaced xs with
    | [] => parseClauseSet d m text = .ok (ClauseSet.ofClauses distinct fields xs)
    | y :: back => ∃ e, parseClauseSet d m text = .error e ∧
        e.cause = .misplacedClause y.kind.keyword ∧
        " " ++ e.residual = Clause.renderAll (y :: back) := by
  obtain ⟨c, hhead, hc⟩ :=
    ClausesAhead.of_head (c := .ofString text d.dottedNames) hs htext rfl hxs
  obtain ⟨e, he, hclauses⟩ := hc.clauses m distinct fields
  have hread : Rule.clauseSet (Rule.chain d m m) (Cursor.ofString text d.dottedNames).skipBlanks =
      (Rule.noClauseLeft >>= fun _ => pure (ClauseSet.ofClauses distinct fields xs)) e := by
    rw [Rule.clauseSet_eq, Rule.bind_of_ok hhead]
    exact hclauses
  rw [Clause.leftover_all] at he
  rw [parseClauseSet_eq_run hd]
  split
  · next hnil =>
    rw [hnil] at he
    have hend := he.atTextEnd
    have hleft : Rule.noClauseLeft e = .ok ((), e) :=
      Rule.noClauseLeft_eq_ok_iff.2 ⟨fun _ _ => hend.eatKeyword?_eq_none, rfl⟩
    rw [Rule.bind_of_ok hleft] at hread
    exact Parser.run_eq_ok_iff.2 (Rule.whole_eq_ok_iff.2 ⟨e, hread, hend⟩)
  · next y back hcons =>
    rw [hcons] at he
    obtain ⟨r, hr, hcause, hresidual⟩ := he.noClauseLeft
    rw [Rule.bind_of_error hr] at hread
    have hrefuse := Rule.whole_of_error hread
    exact ⟨r.error, Parser.run_eq_error_iff.2 ⟨r, hrefuse, rfl⟩, hcause, hresidual⟩

/-- Behind a head, clauses of any kinds are accepted exactly if each is of a later kind than the one
before it, and then the answer holds the given fields and clauses and no others. Otherwise the first
clause that is not of a later kind is refused by its keyword, whatever stands behind it. -/
theorem parseClauseSet_of_clauses (d : Dialect) (m : Nat) (distinct : Bool) (fields : List String)
    (xs : List Clause) (hd : d.clauses = true) (hn : fields ≠ [])
    (hfields : ∀ name ∈ fields, IsIdentifier d.dottedNames name)
    (hdistinct : distinct = false → fields.head? ≠ some "DISTINCT")
    (hxs : ∀ x ∈ xs, x.WellFormed d m) :
    let answer := parseClauseSet d m ("SELECT " ++ (if distinct then "DISTINCT " else "") ++
      ClauseSet.renderFields fields ++ Clause.renderAll xs)
    ((∃ s, answer = .ok s) ↔ Clause.InOrder xs) ∧
      (∀ s, answer = .ok s → s.distinct = distinct ∧ s.fields = fields ∧ s.clauses = xs) ∧
      (¬ Clause.InOrder xs → ∃ front x y back e, xs = front ++ x :: y :: back ∧
        Clause.InOrder (front ++ [x]) ∧ y.kind.rank ≤ x.kind.rank ∧ answer = .error e ∧
        e.kind = .syntactic ∧
        e.message = y.kind.keyword.text ++ " clause is repeated or out of order" ∧
        " " ++ e.residual = Clause.renderAll (y :: back)) := by
  intro answer
  have hselect : Keyword.select.text ++ " " = "SELECT " := by decide
  have hkeyword : Keyword.distinct.text ++ " " = "DISTINCT " := by decide
  have hs := HeadLayout.render distinct hn hfields hdistinct
  rw [hselect, hkeyword] at hs
  have hanswer := parseClauseSet_head_clauses hd hs (String.toList_append ..) hxs
  have horder : Clause.misplaced xs = [] ↔ Clause.InOrder xs := Clause.misplaced_eq_nil_iff
  cases hleft : Clause.misplaced xs with
  | nil =>
    simp only [hleft] at hanswer
    rw [hleft] at horder
    refine ⟨⟨fun _ => horder.1 rfl, fun _ => ⟨_, hanswer⟩⟩, ?_, fun h => absurd (horder.1 rfl) h⟩
    intro s hread
    obtain rfl := Except.ok.inj (hanswer.symm.trans hread)
    refine ⟨rfl, rfl, (ClauseSet.clauses_ofClauses distinct fields hxs).trans ?_⟩
    have hall := Clause.turns_append_leftover ClauseKind.all xs
    rwa [Clause.leftover_all, hleft, List.append_nil] at hall
  | cons y back =>
    simp only [hleft] at hanswer
    rw [hleft] at horder
    obtain ⟨e, he, hcause, hresidual⟩ := hanswer
    have hne (s : ClauseSet) : answer ≠ .ok s := fun hread => by cases he.symm.trans hread
    refine ⟨⟨fun ⟨s, hread⟩ => absurd hread (hne s), fun h => by cases horder.2 h⟩,
      fun s hread => absurd hread (hne s), fun _ => ?_⟩
    obtain ⟨front, x, hxs, hfront, hle⟩ := Clause.exists_of_misplaced hleft
    refine ⟨front, x, y, back, e, hxs, hfront, hle, he, ?_, ?_, hresidual⟩
    · rw [ParseError.kind, hcause]
      rfl
    · rw [ParseError.message, hcause]
      rfl

/-- Fields are named like keywords throughout. What follows the clause that is refused would have
been read without it. -/
theorem parseClauseSet_of_clauses_named_like_keywords :
    let xs : List Clause := [⟨.groupBy, ["WHERE", "BY"]⟩, ⟨.orderBy, ⟨"LIMIT", .desc⟩⟩]
    let ys : List Clause := [⟨.groupBy, ["a"]⟩, ⟨.limit, (5 : UInt64)⟩]
    (∀ x ∈ xs ++ ys, x.WellFormed .clause 0) ∧ Clause.InOrder xs ∧ ¬ Clause.InOrder (xs ++ ys) ∧
      (∃ s, parseClauseSet .clause 0
          "SELECT OFFSET, GROUP GROUP BY WHERE, BY ORDER BY LIMIT DESC" = .ok s ∧
        s.fields = ["OFFSET", "GROUP"] ∧ s.clauses = xs) ∧
      ∃ e, parseClauseSet .clause 0
          "SELECT OFFSET, GROUP GROUP BY WHERE, BY ORDER BY LIMIT DESC GROUP BY a LIMIT 5" =
            .error e ∧
        e.message = "GROUP BY clause is repeated or out of order" ∧
        e.residual = "GROUP BY a LIMIT 5" := by
  intro xs ys
  have hxs : ∀ x ∈ xs ++ ys, x.WellFormed .clause 0 := by
    simp only [xs, ys, List.cons_append, List.nil_append, List.forall_mem_cons]
    have hlimit : IsIdentifier Dialect.clause.dottedNames "LIMIT" := by decide
    exact ⟨⟨by decide, by decide⟩, hlimit, ⟨by decide, by decide⟩, trivial, by simp⟩
  have horder : Clause.InOrder xs ∧ ¬ Clause.InOrder (xs ++ ys) := by decide
  have answer (zs : List Clause) := parseClauseSet_of_clauses .clause 0 false
    ["OFFSET", "GROUP"] zs rfl (by decide) (by decide) (by decide)
  obtain ⟨hok, hparts, -⟩ := answer xs fun x hx => hxs x (List.mem_append_left _ hx)
  obtain ⟨-, -, hrefused⟩ := answer (xs ++ ys) hxs
  obtain ⟨s, hs⟩ := hok.2 horder.1
  obtain ⟨front, x, y, back, e, hsplit, hfront, hle, he, -, hmessage, hresidual⟩ :=
    hrefused horder.2
  have hleft : Clause.misplaced (xs ++ ys) = y :: back :=
    hsplit ▸ Clause.misplaced_append hfront hle
  obtain ⟨rfl, rfl⟩ := List.cons.inj hleft
  exact ⟨hxs, horder.1, horder.2, ⟨s, hs, (hparts s hs).2⟩, e, he, hmessage,
    (String.append_right_inj " ").1 hresidual⟩

end FilterQuery
