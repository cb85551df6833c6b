import FilterQuery.Proofs.RoundTrip.Chain

/-!
Well-formed clause sets of a dialect: those that some text is a layout of. Exactly they are read
back from their canonical texts, whatever keywords their names spell.
-/

namespace FilterQuery

/-- What a clause set has to satisfy to be written in the dialect. -/
structure ClauseSet.WellFormed (d : Dialect) (maxDepth : Nat) (s : ClauseSet) : Prop where
  fields_ne_nil : s.fields ≠ []
  fields : ∀ name ∈ s.fields, IsIdentifier d.dottedNames name
  /-- Without the keyword, a first field of its name would be taken for it. -/
  distinct : s.distinct = false → s.fields.head? ≠ some "DISTINCT"
  whereClause : ∀ c ∈ s.whereClause, Chain.WellFormed d c ∧ Chain.depth c ≤ maxDepth
  groupBy : ∀ name ∈ s.groupBy, IsIdentifier d.dottedNames name
  orderBy : ∀ o ∈ s.orderBy, IsIdentifier d.dottedNames o.field

/-! ## What has a layout is well formed -/

theorem FieldsLayout.isIdentifier {dotted : Bool} {s : List Char} {fs : List String}
    (h : FieldsLayout dotted s fs) : ∀ name ∈ fs, IsIdentifier dotted name := by
  induction h with
  | one hs => simpa using hs.2
  | cons hs _ _ _ ih => simpa using ⟨hs.2, ih⟩

theorem ClauseLayout.body {α : Type} {k : Keyword} {Body : List Char → α → Prop}
    {before s : List Char} {a? : Option α} (h : ClauseLayout k Body before s a?) :
    ∀ a ∈ a?, ∃ t, Body t a := by
  cases h with
  | absent => simp
  | present _ _ _ _ hs => simpa using ⟨_, hs⟩

theorem HeadLayout.wellFormed {dotted distinct : Bool} {s : List Char} {fs : List String}
    (h : HeadLayout dotted s distinct fs) :
    fs ≠ [] ∧ (∀ name ∈ fs, IsIdentifier dotted name) ∧
      (distinct = false → fs.head? ≠ some "DISTINCT") := by
  cases h with
  | all _ _ hs hne => exact ⟨hs.ne_nil, hs.isIdentifier, fun _ => hne⟩
  | distinct _ _ _ _ hs => exact ⟨hs.ne_nil, hs.isIdentifier, fun h => by cases h⟩

theorem ClauseSetLayout.wellFormed {d : Dialect} {maxDepth : Nat} {t : List Char} {s : ClauseSet}
    (h : ClauseSetLayout d maxDepth t s) : s.WellFormed d maxDepth := by
  cases h with
  | mk hhead hwhere hgroup horder _ _ =>
    obtain ⟨hn, hfields, hdistinct⟩ := hhead.wellFormed
    refine ⟨hn, hfields, hdistinct, ?_, ?_, ?_⟩
    · intro c hc
      obtain ⟨u, hu, hdepth⟩ := hwhere.body c hc
      exact ⟨hu.wellFormed, hdepth⟩
    · intro name hname
      have hn : s.groupBy ≠ [] := List.ne_nil_of_mem hname
      obtain ⟨u, hu⟩ := hgroup.body _ (ClauseSet.groupBy?_eq_some_iff.2 ⟨hn, rfl⟩)
      exact hu.isIdentifier name hname
    · intro o ho
      obtain ⟨u, hu⟩ := horder.body o ho
      cases hu with
      | mk hi _ _ => exact hi

/-! ## Canonical texts of well-formed clause sets -/

theorem FieldsLayout.render {dotted : Bool} {fs : List String} (hn : fs ≠ [])
    (h : ∀ name ∈ fs, IsIdentifier dotted name) :
    FieldsLayout dotted (ClauseSet.renderFields fs).toList fs := by
  induction fs with
  | nil => exact absurd rfl hn
  | cons f fs ih =>
    have hf : NameLayout dotted f.toList f := ⟨rfl, h f (by simp)⟩
    cases fs with
    | nil =>
      rw [ClauseSet.renderFields, String.intercalate_singleton]
      exact .one hf
    | cons g fs =>
      have ht : (ClauseSet.renderFields (f :: g :: fs)).toList =
          f.toList ++ [] ++ ',' :: [' '] ++ (ClauseSet.renderFields (g :: fs)).toList := by
        simp [ClauseSet.renderFields, String.intercalate_cons_cons]
      rw [ht]
      exact .cons hf .nil Gap.blank.blanks
        (ih (by simp) fun name hname => h name (List.mem_cons_of_mem _ hname))

theorem HeadLayout.render {dotted : Bool} (distinct : Bool) {fs : List String} (hn : fs ≠ [])
    (h : ∀ name ∈ fs, IsIdentifier dotted name)
    (hd : distinct = false → fs.head? ≠ some "DISTINCT") :
    HeadLayout dotted (Keyword.select.text ++ " " ++
      (if distinct then Keyword.distinct.text ++ " " else "") ++ ClauseSet.renderFields fs).toList
      distinct fs := by
  cases distinct with
  | false => simpa using HeadLayout.all (.text .select) Gap.blank (.render hn h) (hd rfl)
  | true =>
    simpa using HeadLayout.distinct (.text .select) Gap.blank (.text .distinct) Gap.blank
      (.render hn h)

theorem ClauseLayout.render {α : Type} {k : Keyword} {Body : List Char → α → Prop}
    (before : List Char) {a? : Option α} (text : α → String)
    (h : ∀ a ∈ a?, Body (text a).toList a) :
    ClauseLayout k Body before (ClauseSet.renderClause k (a?.map text)).toList a? := by
  cases a? with
  | none => exact .absent
  | some a =>
    have ht : (ClauseSet.renderClause k (some (text a))).toList =
        [' '] ++ k.text.toList ++ [' '] ++ (text a).toList := by
      simp [ClauseSet.renderClause]
    rw [Option.map_some, ht]
    exact .present Gap.blank.blanks (by simp) (.text k) Gap.blank (h a rfl)

theorem OrderLayout.render {dotted : Bool} {o : OrderBy} (h : IsIdentifier dotted o.field) :
    OrderLayout dotted (o.field ++ " " ++ o.direction.text).toList o := by
  rw [Direction.text]
  simpa using OrderLayout.mk h Gap.blank (.text o.direction.keyword)

theorem ClauseSet.renderClause_groupBy (s : ClauseSet) :
    renderClause .groupBy (if s.groupBy.isEmpty then none else some (renderFields s.groupBy)) =
      renderClause .groupBy (s.groupBy?.map renderFields) := by
  rw [groupBy?]
  split <;> rfl

theorem ClauseSetLayout.render {d : Dialect} {maxDepth : Nat} {s : ClauseSet}
    (h : s.WellFormed d maxDepth) : ClauseSetLayout d maxDepth s.render.toList s := by
  have hgroup : ∀ fs ∈ s.groupBy?,
      FieldsLayout d.dottedNames (ClauseSet.renderFields fs).toList fs := by
    intro fs hfs
    obtain ⟨hn, rfl⟩ := ClauseSet.groupBy?_eq_some_iff.1 hfs
    exact .render hn h.groupBy
  rw [ClauseSet.render, ClauseSet.renderClause_groupBy, String.toList_append,
    String.toList_append, String.toList_append, String.toList_append, String.toList_append]
  exact .mk (.render s.distinct h.fields_ne_nil h.fields h.distinct)
    (.render _ Chain.render fun c hc => ⟨.render (h.whereClause c hc).1, (h.whereClause c hc).2⟩)
    (.render _ ClauseSet.renderFields hgroup)
    (.render _ _ fun o ho => .render (h.orderBy o ho))
    (.render _ _ fun n _ => .ofNat n) (.render _ _ fun n _ => .ofNat n)

/-- Exactly the well-formed clause sets are read back from their canonical texts, in a dialect that
has clause sets at all. -/
theorem parseClauseSet_render_eq_ok_iff (d : Dialect) (maxDepth : Nat) (s : ClauseSet) :
    parseClauseSet d maxDepth s.render = .ok s ↔ d.clauses = true ∧ s.WellFormed d maxDepth := by
  rw [parseClauseSet_eq_ok_iff_whole, Rule.whole_clauseSet_eq_ok_iff]
  constructor
  · rintro ⟨hd, v, t, w, -, -, ht, -⟩
    exact ⟨hd, ht.wellFormed⟩
  · rintro ⟨hd, hs⟩
    exact ⟨hd, [], _, [], by simp, .nil, .render hs, .nil⟩

end FilterQuery
