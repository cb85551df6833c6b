import FilterQuery.Proofs.Layout.Chain
import FilterQuery.Query.ClauseSet

/-!
Layouts of clause sets in a dialect. The keywords of clauses are no more reserved than the others:
only the first field may not be named `DISTINCT` where the keyword is absent.
-/

namespace FilterQuery

/-- A name as it was written. -/
def NameLayout (dotted : Bool) (s : List Char) (name : String) : Prop :=
  s = name.toList ∧ IsIdentifier dotted name

/-- One or more names with commas between them. -/
def FieldsLayout (dotted : Bool) : List Char → List String → Prop :=
  CommaLayout (NameLayout dotted)

/-- A name and a direction. -/
inductive OrderLayout (dotted : Bool) : List Char → OrderBy → Prop
  | mk {w k : List Char} {o : OrderBy} :
    IsIdentifier dotted o.field → Gap w → KeywordLayout k o.direction.keyword →
      OrderLayout dotted (o.field.toList ++ w ++ k) o

/-- `SELECT`, `DISTINCT` if it is asked for, and the fields. -/
inductive HeadLayout (dotted : Bool) : List Char → (distinct : Bool) → List String → Prop
  | all {k w s : List Char} {fs : List String} :
    KeywordLayout k .select → Gap w → FieldsLayout dotted s fs → fs.head? ≠ some "DISTINCT" →
      HeadLayout dotted (k ++ w ++ s) false fs
  | distinct {k w l v s : List Char} {fs : List String} :
    KeywordLayout k .select → Gap w → KeywordLayout l .distinct → Gap v →
      FieldsLayout dotted s fs → HeadLayout dotted (k ++ w ++ (l ++ v ++ s)) true fs

/-- A clause that may be absent, behind the text `before`. The blanks before it are optional behind
a parenthesis only. -/
inductive ClauseLayout {α : Type} (k : Keyword) (Body : List Char → α → Prop) (before : List Char) :
    List Char → Option α → Prop
  | absent : ClauseLayout k Body before [] none
  | present {v l w s : List Char} {a : α} :
    Blanks v → (v = [] → before.getLast? = some ')') → KeywordLayout l k → Gap w → Body s a →
      ClauseLayout k Body before (v ++ l ++ w ++ s) (some a)

/-- The names to group by, if there are any. -/
def ClauseSet.groupBy? (s : ClauseSet) : Option (List String) :=
  if s.groupBy.isEmpty then none else some s.groupBy

theorem ClauseSet.groupBy?_getD (s : ClauseSet) : s.groupBy?.getD [] = s.groupBy := by
  rw [groupBy?]
  split
  · next h => exact (List.isEmpty_iff.1 h).symm
  · rfl

theorem ClauseSet.groupBy?_eq_some_iff {s : ClauseSet} {fs : List String} :
    s.groupBy? = some fs ↔ s.groupBy ≠ [] ∧ s.groupBy = fs := by
  simp [groupBy?, List.isEmpty_iff]

theorem ClauseSet.groupBy?_of_getD {s : ClauseSet} {g : Option (List String)}
    (h : s.groupBy = g.getD []) (hg : g ≠ some []) : s.groupBy? = g := by
  rw [groupBy?, h]
  cases g with
  | none => rfl
  | some fs =>
    have hfs : fs ≠ [] := fun hn => hg (by rw [hn])
    simp [hfs]

/-- The clauses in their order; groups in the chain nest at most `maxDepth` deep. -/
inductive ClauseSetLayout (d : Dialect) (maxDepth : Nat) : List Char → ClauseSet → Prop
  | mk {h w g o f l : List Char} {s : ClauseSet} :
    HeadLayout d.dottedNames h s.distinct s.fields →
    ClauseLayout .where_ (ChainText d maxDepth) h w s.whereClause →
    ClauseLayout .groupBy (FieldsLayout d.dottedNames) (h ++ w) g s.groupBy? →
    ClauseLayout .orderBy (OrderLayout d.dottedNames) (h ++ w ++ g) o s.orderBy →
    ClauseLayout .offset CountLayout (h ++ w ++ g ++ o) f s.offset →
    ClauseLayout .limit CountLayout (h ++ w ++ g ++ o ++ f) l s.limit →
      ClauseSetLayout d maxDepth (h ++ w ++ g ++ o ++ f ++ l) s

/-- A text that consists of a clause set, and blanks around it. -/
def IsClauseSetLayout (d : Dialect) (maxDepth : Nat) (text : List Char) (s : ClauseSet) : Prop :=
  ∃ v t w, text = v ++ t ++ w ∧ Blanks v ∧ ClauseSetLayout d maxDepth t s ∧ Blanks w

/-! ## How layouts begin and end -/

theorem NameLayout.starts {dotted : Bool} {s : List Char} {name : String}
    (h : NameLayout dotted s name) : Starts s := by
  obtain ⟨rfl, hi⟩ := h
  exact .of_wordStart hi.head?_any

theorem FieldsLayout.starts {dotted : Bool} {s : List Char} {fs : List String}
    (h : FieldsLayout dotted s fs) : Starts s :=
  CommaLayout.starts (fun _ _ => NameLayout.starts) h

theorem FieldsLayout.ne_nil {dotted : Bool} {s : List Char} {fs : List String}
    (h : FieldsLayout dotted s fs) : fs ≠ [] := by
  cases h <;> simp

/-- Fields end in a character that continues a name. -/
theorem FieldsLayout.getLast? {dotted : Bool} {s : List Char} {fs : List String}
    (h : FieldsLayout dotted s fs) : s.getLast?.any (continuesName dotted) = true := by
  induction h with
  | one hs =>
    obtain ⟨rfl, hi⟩ := hs
    rw [List.getLast?_eq_some_getLast hi.ne_nil]
    exact hi.2 _ (List.getLast_mem hi.ne_nil)
  | cons _ _ _ _ ih =>
    obtain ⟨x, hx, hn⟩ := (Option.any_eq_true _ _).1 ih
    rw [List.getLast?_append, hx]
    exact hn

theorem OrderLayout.starts {dotted : Bool} {s : List Char} {o : OrderBy}
    (h : OrderLayout dotted s o) : Starts s := by
  cases h with
  | mk hi _ _ =>
    rw [List.append_assoc]
    exact (Starts.of_wordStart hi.head?_any).append _

theorem OrderLayout.getLast? {dotted : Bool} {s : List Char} {o : OrderBy}
    (h : OrderLayout dotted s o) : s.getLast?.any isWordChar = true := by
  cases h with
  | mk _ _ hk =>
    obtain ⟨x, hx, hw⟩ := (Option.any_eq_true _ _).1 hk.getLast?
    rw [List.getLast?_append, hx]
    exact hw

theorem CountLayout.starts {s : List Char} {n : UInt64} (h : CountLayout s n) : Starts s := by
  obtain ⟨x, hx, hd⟩ := (Option.any_eq_true _ _).1 (h.head? h.ne_nil)
  refine ⟨h.ne_nil, ?_⟩
  rw [hx]
  exact isBlank_eq_false_of_isWordChar (isWordChar_of_isDigit hd)

theorem HeadLayout.starts {dotted distinct : Bool} {s : List Char} {fs : List String}
    (h : HeadLayout dotted s distinct fs) : Starts s := by
  cases h with
  | all hk _ _ _ | distinct hk _ _ _ _ =>
    rw [List.append_assoc]
    exact hk.starts.append _

theorem ClauseSetLayout.starts {d : Dialect} {maxDepth : Nat} {t : List Char} {s : ClauseSet}
    (h : ClauseSetLayout d maxDepth t s) : Starts t := by
  cases h with
  | mk hh _ _ _ _ _ => simpa using hh.starts.append _

/-! ## Clause sets from their clauses -/

/-- A clause that is present names at least one field. -/
theorem ClauseLayout.ne_nil_of_fields {dotted : Bool} {k : Keyword} {before s : List Char}
    {fs? : Option (List String)} (h : ClauseLayout k (FieldsLayout dotted) before s fs?) :
    fs? ≠ some [] := by
  rintro rfl
  cases h with
  | present _ _ _ _ hs => exact hs.ne_nil rfl

/-- The names to group by are those of the clause, and none where it is absent. -/
theorem ClauseSetLayout.of_clauses {d : Dialect} {maxDepth : Nat} {h w g o f l : List Char}
    {distinct : Bool} {fields : List String} {where? : Option Chain}
    {groupBy? : Option (List String)} {orderBy? : Option OrderBy} {offset? limit? : Option UInt64}
    (hhead : HeadLayout d.dottedNames h distinct fields)
    (hwhere : ClauseLayout .where_ (ChainText d maxDepth) h w where?)
    (hgroup : ClauseLayout .groupBy (FieldsLayout d.dottedNames) (h ++ w) g groupBy?)
    (horder : ClauseLayout .orderBy (OrderLayout d.dottedNames) (h ++ w ++ g) o orderBy?)
    (hoffset : ClauseLayout .offset CountLayout (h ++ w ++ g ++ o) f offset?)
    (hlimit : ClauseLayout .limit CountLayout (h ++ w ++ g ++ o ++ f) l limit?) :
    ClauseSetLayout d maxDepth (h ++ w ++ g ++ o ++ f ++ l)
      ⟨fields, distinct, where?, groupBy?.getD [], orderBy?, offset?, limit?⟩ := by
  refine .mk hhead hwhere ?_ horder hoffset hlimit
  rwa [ClauseSet.groupBy?_of_getD rfl hgroup.ne_nil_of_fields]

end FilterQuery
