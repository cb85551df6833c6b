import FilterQuery.Reading.Rule

/-!
Moves of a cursor over a known text. `c.Passes s d` says that `d` stands behind `s` where `c` stands
before it. What a cursor operation reads is stated with it, so that texts that are read one after
the other are joined by `Passes.trans` and taken apart by `Passes.append_iff`.
-/

namespace FilterQuery

theorem head?_any_eq_false_iff {p : Char → Bool} {cs : List Char} :
    cs.head?.any p = false ↔ ∀ x ∈ cs.head?, p x = false := by
  cases cs <;> simp

/-- A run that satisfies `p` before something that does not is the longest one. -/
theorem takeWhile_append_of_stop {p : Char → Bool} {s r : List Char}
    (hs : ∀ x ∈ s, p x = true) (hr : r.head?.any p = false) : (s ++ r).takeWhile p = s := by
  rw [List.takeWhile_append_of_pos hs]
  cases r with
  | nil => simp
  | cons x r => simp_all

theorem head?_dropWhile_any (p : Char → Bool) (cs : List Char) :
    (cs.dropWhile p).head?.any p = false := by
  rw [head?_any_eq_false_iff]
  intro x hx
  have h := List.head?_dropWhile_not p cs
  rw [Option.mem_def.1 hx] at h
  simpa using h

namespace Cursor

/-- Moving over `s` leads from `c` to `d`. -/
structure Passes (c : Cursor) (s : List Char) (d : Cursor) : Prop where
  rest : c.rest = s ++ d.rest
  past : d.past = s.reverse ++ c.past
  dotted : d.dotted = c.dotted

namespace Passes

variable {c d e : Cursor} {s t : List Char}

theorem eq_of_nil (h : c.Passes [] d) : d = c := by
  obtain ⟨past, rest, dotted⟩ := d
  obtain ⟨hr, hp, hd⟩ := h
  cases c
  simp_all

theorem refl (c : Cursor) : c.Passes [] c :=
  ⟨rfl, rfl, rfl⟩

theorem trans (h : c.Passes s d) (k : d.Passes t e) : c.Passes (s ++ t) e where
  rest := by rw [h.rest, k.rest, List.append_assoc]
  past := by rw [k.past, h.past, List.reverse_append, List.append_assoc]
  dotted := k.dotted.trans h.dotted

theorem move {r : List Char} (h : c.rest = s ++ r) : c.Passes s (c.move s.length) where
  rest := by simp [Cursor.move, h]
  past := by simp [Cursor.move, h]
  dotted := rfl

theorem eq_move (h : c.Passes s d) : d = c.move s.length := by
  obtain ⟨past, rest, dotted⟩ := d
  obtain ⟨hr, hp, hd⟩ := h
  simp_all [Cursor.move]

theorem unique (h : c.Passes s d) (k : c.Passes s e) : d = e := by
  rw [h.eq_move, k.eq_move]

theorem append_iff : c.Passes (s ++ t) e ↔ ∃ d, c.Passes s d ∧ d.Passes t e := by
  constructor
  · intro h
    have hs : c.Passes s (c.move s.length) := .move (by rw [h.rest, List.append_assoc])
    refine ⟨_, hs, ?_, ?_, ?_⟩
    · have := hs.rest.symm.trans h.rest
      simpa using this
    · rw [h.past, hs.past, List.reverse_append, List.append_assoc]
    · exact h.dotted
  · rintro ⟨d, h, k⟩
    exact h.trans k

theorem cons_iff {x : Char} : c.Passes (x :: s) e ↔ ∃ d, c.Passes [x] d ∧ d.Passes s e :=
  append_iff (s := [x])

theorem length_rest (h : c.Passes s d) : c.rest.length = s.length + d.rest.length := by
  rw [h.rest, List.length_append]

theorem rest_length_lt (h : c.Passes s d) (hs : s ≠ []) : d.rest.length < c.rest.length := by
  have := h.length_rest
  have := List.length_pos_iff.2 hs
  omega

theorem head?_past (h : c.Passes s d) (hs : s ≠ []) : d.past.head? = s.getLast? := by
  rw [h.past, List.head?_append, List.head?_reverse, Option.or_of_isSome (by simpa using hs)]

theorem peek? (h : c.Passes s d) (hs : s ≠ []) : c.peek? = s.head? := by
  rw [Cursor.peek?, h.rest, List.head?_append, Option.or_of_isSome (by simpa using hs)]

end Passes

variable {c d : Cursor}

theorem passes_all (c : Cursor) : ∃ e, c.Passes c.rest e ∧ e.rest = [] :=
  ⟨_, .move (List.append_nil _).symm, by simp [move]⟩

theorem eat?_eq_some_iff {symbol : String} :
    c.eat? symbol = some d ↔ c.Passes symbol.toList d := by
  unfold eat?
  constructor
  · intro h
    split at h
    · next hp =>
      obtain ⟨r, hr⟩ := List.isPrefixOf_iff_prefix.1 hp
      cases h
      exact .move hr.symm
    · cases h
  · intro h
    rw [if_pos (List.isPrefixOf_iff_prefix.2 ⟨d.rest, h.rest.symm⟩), h.eq_move]

theorem eat?_eq_none_of_peek? {symbol : String} {x : Char} (hs : symbol.toList.head? = some x)
    (hc : c.peek? ≠ some x) : c.eat? symbol = none := by
  rw [Option.eq_none_iff_forall_ne_some]
  intro d h
  have hn : symbol.toList ≠ [] := by
    intro hn
    rw [hn] at hs
    cases hs
  exact hc (((eat?_eq_some_iff.1 h).peek? hn).trans hs)

theorem skipWhile_eq_iff {p : Char → Bool} :
    c.skipWhile p = d ↔ ∃ s, (∀ x ∈ s, p x = true) ∧ c.Passes s d ∧ d.peek?.any p = false := by
  constructor
  · rintro rfl
    have h : c.Passes (c.rest.takeWhile p) (c.skipWhile p) :=
      .move List.takeWhile_append_dropWhile.symm
    have hr : (c.skipWhile p).rest = c.rest.dropWhile p :=
      List.append_cancel_left (h.rest.symm.trans List.takeWhile_append_dropWhile.symm)
    refine ⟨_, List.all_eq_true.1 List.all_takeWhile, h, ?_⟩
    rw [Cursor.peek?, hr]
    exact head?_dropWhile_any p c.rest
  · rintro ⟨s, hs, h, hd⟩
    -- What is moved over is the longest run, since `d` stops it.
    rw [skipWhile, h.rest, takeWhile_append_of_stop hs hd, h.eq_move]

theorem Passes.takeWhile {s : List Char} {p : Char → Bool} (h : c.Passes s d)
    (hs : ∀ x ∈ s, p x = true) (hd : d.peek?.any p = false) : c.rest.takeWhile p = s := by
  rw [h.rest, takeWhile_append_of_stop hs hd]

end Cursor

end FilterQuery
