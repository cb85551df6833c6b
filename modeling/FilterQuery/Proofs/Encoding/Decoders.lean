import FilterQuery.Json.Record

/-!
What decoders answer. A decoder `Reads` a JSON value as what was written there if it does so in both
spellings; it `Yields` a property if all that it answers has it. Both are stated for each way of
building a decoder from others, so that a type that is written need only name its members.
-/

namespace FilterQuery

variable {α β : Type}

theorem Except.bind_eq_ok_iff {ε : Type} {x : Except ε α} {f : α → Except ε β} {b : β} :
    (x >>= f) = .ok b ↔ ∃ a, x = .ok a ∧ f a = .ok b := by
  cases x <;> simp [bind, Except.bind]

theorem Except.map_eq_ok_iff {ε : Type} {x : Except ε α} {f : α → β} {b : β} :
    f <$> x = .ok b ↔ ∃ a, x = .ok a ∧ f a = b := by
  cases x <;> simp [Functor.map, Except.map]

/-- A value that holds no others has a height too. -/
theorem Json.exists_height_eq_succ (j : Json) : ∃ n, j.height = n + 1 := by
  cases j with
  | arr items => exact ⟨Json.heightItems items, Nat.add_comm 1 _⟩
  | obj members => exact ⟨Json.heightMembers members, Nat.add_comm 1 _⟩
  | null | bool | int | decimal | str => exact ⟨0, rfl⟩

/-! ## Parts of records -/

namespace Part

theorem toExcept_eq_ok_iff {p : Part α} {a : α} : p.toExcept = .ok a ↔ p = .read a := by
  cases p <;> simp [toExcept]

theorem map_eq_read_iff {f : α → β} {p : Part α} {b : β} :
    f <$> p = .read b ↔ ∃ a, p = .read a ∧ f a = b := by
  change p.map f = .read b ↔ _
  cases p <;> simp [Part.map]

theorem seq_eq_read_iff {f : Part (α → β)} {p : Part α} {b : β} :
    f <*> p = .read b ↔ ∃ g, f = .read g ∧ ∃ a, p = .read a ∧ g a = b := by
  change f.seq p = .read b ↔ _
  cases f with
  | read g => cases p <;> simp [Part.seq, Part.map]
  | fault place e =>
    cases p with
    | read a => simp [Part.seq]
    | fault place' e' =>
      simp only [Part.seq, reduceCtorEq, false_and, exists_false, iff_false]
      split <;> simp

theorem map_of_read {f : α → β} {p : Part α} {a : α} (h : p = .read a) :
    f <$> p = .read (f a) :=
  map_eq_read_iff.2 ⟨a, h, rfl⟩

theorem seq_of_read {f : Part (α → β)} {p : Part α} {g : α → β} {a : α} {b : β}
    (hf : f = .read g) (h : p = .read a) (hb : g a = b) : f <*> p = .read b :=
  seq_eq_read_iff.2 ⟨g, hf, a, h, hb⟩

end Part

namespace Record

variable {r : Record} {name : String} {value : Decoder α}

theorem part_eq_read_iff {a : α} :
    r.part name value = .read a ↔
      ∃ j, r.members.lookup name = some j ∧ value r.spelling j = .ok a := by
  unfold part part?
  cases r.members.lookup name with
  | none => simp [Part.andThen]
  | some j => cases hv : value r.spelling j <;> simp [Part.andThen, hv]

theorem nullable_eq_read_iff {a? : Option α} :
    r.nullable name value = .read a? ↔
      (r.members.lookup name = none ∧ a? = none) ∨
        ∃ j, r.members.lookup name = some j ∧ Decoder.nullable value r.spelling j = .ok a? := by
  rw [nullable, Part.map_eq_read_iff]
  unfold part?
  cases r.members.lookup name with
  | none => simp [eq_comm]
  | some j => cases hv : Decoder.nullable value r.spelling j <;> simp [hv]

end Record

namespace Decoder

/-! ## Values that are read back -/

/-- The value is read as `a`, however names are spelled around it. -/
def Reads (value : Decoder α) (j : Json) (a : α) : Prop :=
  ∀ s, value s j = .ok a

theorem need_of_eq_some {a? : Option α} {a : α} (h : a? = some a) : need a? = .ok a := by
  rw [h]
  rfl

theorem Reads.map {value : Decoder α} {j : Json} {a : α} (h : Reads value j a) (f : α → β) :
    Reads (fun s j => f <$> value s j) j (f a) := by
  intro s
  change f <$> value s j = _
  rw [h s]
  rfl

theorem Reads.list {item : Decoder α} {toJson : α → Json} {as : List α}
    (h : ∀ a ∈ as, Reads item (toJson a) a) : Reads (list item) (.arr (as.map toJson)) as := by
  intro s
  change (as.map toJson).mapM (item s) = .ok as
  induction as with
  | nil => rfl
  | cons a as ih =>
    rw [List.map_cons, List.mapM_cons, h a (by simp) s,
      ih fun b hb => h b (List.mem_cons_of_mem a hb)]
    rfl

theorem Reads.nullable {value : Decoder α} {toJson : α → Json} {a? : Option α}
    (h : ∀ a ∈ a?, toJson a ≠ .null ∧ Reads value (toJson a) a) :
    Reads (nullable value) (Json.ofOption toJson a?) a? := by
  intro s
  cases a? with
  | none => rfl
  | some a =>
    obtain ⟨hne, ha⟩ := h a rfl
    rw [Json.ofOption, Decoder.nullable, ha s]
    · rfl
    · exact hne

theorem Reads.oneOf {names : List (String × α)} {name : String} {a : α}
    (h : names.lookup name = some a) : Reads (oneOf names) (.str name) a :=
  fun _ => need_of_eq_some h

theorem Reads.record {names : List String} {parts : Record → Part α} {members : Members} {a : α}
    (h : ∀ s, parts ⟨s, members⟩ = .read a) : Reads (record names parts) (.obj members) a :=
  fun s => Part.toExcept_eq_ok_iff.2 (h s)

theorem Reads.part {members : Members} {name : String} {value : Decoder α} {j : Json} {a : α}
    (hj : members.lookup name = some j) (h : Reads value j a) (s : Spelling) :
    Record.part ⟨s, members⟩ name value = .read a :=
  Record.part_eq_read_iff.2 ⟨j, hj, h s⟩

theorem Reads.part_nullable {members : Members} {name : String} {value : Decoder α} {j : Json}
    {a? : Option α} (hj : members.lookup name = some j) (h : Reads (Decoder.nullable value) j a?)
    (s : Spelling) : Record.nullable ⟨s, members⟩ name value = .read a? :=
  Record.nullable_eq_read_iff.2 (.inr ⟨j, hj, h s⟩)

/-- An object that names its form is read as an object of that form. -/
theorem Reads.variantBy {named : List (String × Decoder α) → Decoder (Decoder α)}
    (hnamed : ∀ forms name value, forms.lookup name = some value →
      Reads (named forms) (.str name) value)
    {tag name : String} {forms : List (String × Decoder α)} {members : Members} {value : Decoder α}
    {a : α} (htag : members.lookup tag = some (.str name)) (hname : forms.lookup name = some value)
    (h : Reads value (.obj members) a) :
    Reads (Decoder.variantBy named tag forms) (.obj members) a := by
  intro s
  change (need (members.lookup tag) >>= fun j => named forms s j >>= fun value =>
    value s (.obj members)) = .ok a
  exact Except.bind_eq_ok_iff.2 ⟨_, need_of_eq_some htag,
    Except.bind_eq_ok_iff.2 ⟨value, hnamed forms name value hname s, h s⟩⟩

theorem Reads.variant {tag name : String} {forms : List (String × Decoder α)} {members : Members}
    {value : Decoder α} {a : α} (htag : members.lookup tag = some (.str name))
    (hname : forms.lookup name = some value) (h : Reads value (.obj members) a) :
    Reads (Decoder.variant tag forms) (.obj members) a :=
  Reads.variantBy (fun _ _ _ hname _ => need_of_eq_some hname) htag hname h

theorem lookup_map {γ : Type} (f : α → γ) (names : List (String × α)) (name : String) :
    (names.map fun p => (p.1, f p.2)).lookup name = (names.lookup name).map f := by
  induction names with
  | nil => rfl
  | cons p names ih =>
    rw [List.map_cons, List.lookup_cons, List.lookup_cons, ih]
    cases name == p.1 <;> rfl

theorem Reads.tagged {tag name : String} {values : List (String × Decoder α)} {j : Json}
    {value : Decoder α} {a : α} (htag : tag ≠ "value") (hname : values.lookup name = some value)
    (h : Reads value j a) :
    Reads (Decoder.tagged tag values) (.obj [(tag, .str name), ("value", j)]) a := by
  let form (value : Decoder α) : Decoder α := Decoder.record ["value"] (·.part "value" value)
  have hform : (values.map fun p => (p.1, form p.2)).lookup name = some (form value) := by
    rw [lookup_map, hname]
    rfl
  refine Reads.variantBy (fun _ _ _ => Reads.oneOf) ?_ hform ?_
  · rw [List.lookup_cons_self]
  · refine Reads.record fun s => Reads.part ?_ h s
    rw [List.lookup_cons, beq_false_of_ne htag.symm]
    rfl

/-! ## What all answers have in common -/

/-- All that is read has the property, in whatever form it is written. -/
def Yields (value : Decoder α) (P : α → Prop) : Prop :=
  ∀ ⦃s j a⦄, value s j = .ok a → P a

variable {P Q : α → Prop} {value : Decoder α}

theorem Yields.map {f : α → β} {P : β → Prop} (h : Yields value fun a => P (f a)) :
    Yields (fun s j => f <$> value s j) P := by
  intro s j b hb
  obtain ⟨a, ha, rfl⟩ := Except.map_eq_ok_iff.1 hb
  exact h ha

theorem Yields.list (h : Yields value P) : Yields (Decoder.list value) fun as => ∀ a ∈ as, P a := by
  intro s j as has
  cases j with
  | arr items =>
    change items.mapM (value s) = .ok as at has
    induction items generalizing as with
    | nil =>
      cases has
      simp
    | cons j items ih =>
      rw [List.mapM_cons] at has
      obtain ⟨b, hb, has⟩ := Except.bind_eq_ok_iff.1 has
      obtain ⟨bs, hbs, has⟩ := Except.bind_eq_ok_iff.1 has
      cases has
      simpa using ⟨h hb, ih hbs⟩
  | null | bool | int | decimal | str | obj => cases has

theorem Yields.nullable (h : Yields value P) :
    Yields (Decoder.nullable value) fun a? => ∀ a ∈ a?, P a := by
  intro s j a? ha
  by_cases hj : j = .null
  · subst hj
    cases ha
    simp
  · rw [Decoder.nullable] at ha
    · obtain ⟨b, hb, rfl⟩ := Except.map_eq_ok_iff.1 ha
      simpa using h hb
    · exact hj

theorem Yields.record {names : List String} {parts : Record → Part α}
    (h : ∀ r a, parts r = .read a → P a) : Yields (Decoder.record names parts) P := by
  intro s j a ha
  cases j with
  | obj members => exact h _ a (Part.toExcept_eq_ok_iff.1 ha)
  | arr items =>
    obtain ⟨b, hb, hb'⟩ := Except.bind_eq_ok_iff.1 ha
    split at hb'
    · cases hb'
      exact h _ a (Part.toExcept_eq_ok_iff.1 hb)
    · cases hb'
  | null | bool | int | decimal | str => cases ha

theorem need_eq_ok_iff {a? : Option α} {a : α} : need a? = .ok a ↔ a? = some a := by
  cases a? <;> simp [need]

/-- What is found under a name in a table is in the table. -/
theorem exists_mem_of_lookup {names : List (String × α)} {name : String} {a : α}
    (h : names.lookup name = some a) : ∃ n, (n, a) ∈ names := by
  obtain ⟨as, bs, rfl, -⟩ := List.lookup_eq_some_iff.1 h
  exact ⟨name, by simp⟩

theorem Yields.oneOf (names : List (String × α)) :
    Yields (Decoder.oneOf names) fun a => ∃ name, (name, a) ∈ names := by
  intro s j a ha
  unfold Decoder.oneOf at ha
  split at ha
  · exact exists_mem_of_lookup (need_eq_ok_iff.1 ha)
  · split at ha
    · exact exists_mem_of_lookup (need_eq_ok_iff.1 ha)
    · cases ha
  · cases ha

theorem Yields.form (forms : List (String × Decoder α)) :
    Yields (Decoder.form forms) fun value => ∃ name, (name, value) ∈ forms := by
  intro s j value h
  unfold Decoder.form at h
  split at h
  · exact exists_mem_of_lookup (need_eq_ok_iff.1 h)
  · next i =>
    obtain ⟨p, hp, rfl⟩ := Option.map_eq_some_iff.1 (need_eq_ok_iff.1 h)
    exact ⟨p.1, List.mem_of_getElem? hp⟩
  · cases h

/-- Whatever tells the form, what is read is read in one of the forms. -/
theorem Yields.variantBy {named : List (String × Decoder α) → Decoder (Decoder α)}
    {forms : List (String × Decoder α)} {tag : String}
    (hnamed : Yields (named forms) fun value => ∃ name, (name, value) ∈ forms)
    (h : ∀ f ∈ forms, Yields f.2 P) : Yields (Decoder.variantBy named tag forms) P := by
  intro s j a ha
  unfold Decoder.variantBy at ha
  split at ha
  · obtain ⟨t, -, ha⟩ := Except.bind_eq_ok_iff.1 ha
    obtain ⟨value, hvalue, ha⟩ := Except.bind_eq_ok_iff.1 ha
    obtain ⟨name, hmem⟩ := hnamed hvalue
    exact h _ hmem ha
  · obtain ⟨value, hvalue, ha⟩ := Except.bind_eq_ok_iff.1 ha
    obtain ⟨name, hmem⟩ := Yields.form forms hvalue
    exact h _ hmem ha
  · cases ha

theorem Yields.variant {tag : String} {forms : List (String × Decoder α)}
    (h : ∀ f ∈ forms, Yields f.2 P) : Yields (Decoder.variant tag forms) P :=
  Yields.variantBy (.form forms) h

theorem Yields.tagged {tag : String} {values : List (String × Decoder α)}
    (h : ∀ v ∈ values, Yields v.2 P) : Yields (Decoder.tagged tag values) P := by
  refine Yields.variantBy (.oneOf _) fun f hf => ?_
  obtain ⟨v, hv, rfl⟩ := List.mem_map.1 hf
  have hpart (r : Record) (a : α) (ha : r.part "value" v.2 = .read a) : P a := by
    obtain ⟨j, -, hj⟩ := Record.part_eq_read_iff.1 ha
    exact h v hv hj
  exact Yields.record hpart

end Decoder

end FilterQuery
