import FilterQuery.Proofs.Reading.Clauses
import FilterQuery.Reading.Parser

/-!
Acceptance: which texts a parser accepts as a whole, and what it answers for them. A fresh parser
accepts a text exactly if it is a layout, with blanks around it, of what the parser answers.
-/

namespace FilterQuery

namespace Rule

variable {α : Type} {c d e : Cursor}

theorem finish_eq_ok_iff : finish c = .ok ((), e) ↔ c.AtTextEnd ∧ c.skipBlanks = e := by
  rw [finish, Cursor.AtTextEnd]
  by_cases h : c.skipBlanks.rest = []
  · simp [Cursor.atEnd, h]
  · simp only [Cursor.atEnd, List.isEmpty_iff, h, if_false]
    cases c.skipBlanks.eat? ")" <;> simp [failSince_ne_ok]

theorem whole_eq_ok_iff {rule : Rule α} {a : α} :
    (∃ e, whole rule c = .ok (a, e)) ↔ ∃ d, rule c.skipBlanks = .ok (a, d) ∧ d.AtTextEnd := by
  rw [whole, skipBlanks_bind]
  constructor
  · rintro ⟨e, h⟩
    obtain ⟨a, d, ha, h⟩ := bind_eq_ok_iff.1 h
    obtain ⟨⟨⟩, f, hf, h⟩ := bind_eq_ok_iff.1 h
    obtain ⟨rfl, rfl⟩ := pure_eq_ok_iff.1 h
    exact ⟨d, ha, (finish_eq_ok_iff.1 hf).1⟩
  · rintro ⟨d, ha, hd⟩
    refine ⟨d.skipBlanks, ?_⟩
    rw [bind_of_ok ha, bind_of_ok (finish_eq_ok_iff.2 ⟨hd, rfl⟩)]
    rfl

theorem whole_of_error {rule : Rule α} {r : Refusal} (h : rule c.skipBlanks = .error r) :
    whole rule c = .error r := by
  rw [whole, skipBlanks_bind]
  exact bind_of_error h _

theorem whole_passes {dotted : Bool} {rule : Rule α} {Layout : List Char → α → Prop}
    (hsound : Sound dotted rule Layout) (hc : c.dotted = dotted) {a : α}
    (h : whole rule c = .ok (a, e)) : ∃ s, c.Passes s e := by
  rw [whole, skipBlanks_bind] at h
  obtain ⟨b, d, hb, h⟩ := bind_eq_ok_iff.1 h
  obtain ⟨⟨⟩, f, hf, h⟩ := bind_eq_ok_iff.1 h
  obtain ⟨-, rfl⟩ := pure_eq_ok_iff.1 h
  obtain ⟨-, rfl⟩ := finish_eq_ok_iff.1 hf
  obtain ⟨v, -, hv, -⟩ := c.skipBlanks_passes
  obtain ⟨s, hs, -⟩ := hsound (hv.dotted.trans hc) hb
  obtain ⟨w, -, hw, -⟩ := d.skipBlanks_passes
  exact ⟨_, (hv.trans hs).trans hw⟩

/-- A rule that is sound and complete for a layout relation, applied to a whole text. -/
theorem whole_eq_ok_iff_layout {dotted : Bool} {rule : Rule α} {Layout : List Char → α → Prop}
    {Ends : List Char → Cursor → Prop} (hsound : Sound dotted rule Layout)
    (hcomplete : Complete dotted rule Layout Ends) (hstarts : ∀ s a, Layout s a → Starts s)
    (hends : ∀ s e, e.AtTextEnd → Ends s e) (hc : c.dotted = dotted) {a : α} :
    (∃ e, whole rule c = .ok (a, e)) ↔
      ∃ v s w, c.rest = v ++ s ++ w ∧ Blanks v ∧ Layout s a ∧ Blanks w := by
  rw [whole_eq_ok_iff]
  constructor
  · rintro ⟨d, ha, hd⟩
    obtain ⟨v, hv, hvp, -⟩ := c.skipBlanks_passes
    obtain ⟨s, hs, hlay⟩ := hsound (hvp.dotted.trans hc) ha
    obtain ⟨w, hw, hwp, -⟩ := d.skipBlanks_passes
    have hr := ((hvp.trans hs).trans hwp).rest
    rw [Cursor.AtTextEnd] at hd
    rw [hd, List.append_nil] at hr
    exact ⟨v, s, w, hr, hv, hlay, hw⟩
  · rintro ⟨v, s, w, hr, hv, hlay, hw⟩
    -- The end of the text comes first, and the place behind the layout from there.
    obtain ⟨e, hp, he⟩ := c.passes_all
    rw [hr] at hp
    obtain ⟨d, hd, hde⟩ := Cursor.Passes.append_iff.1 hp
    obtain ⟨hvc, hsd⟩ := hd.skipBlanks_append hv (hstarts _ _ hlay)
    have hend : d.AtTextEnd := hde.atTextEnd hw he
    exact ⟨d, hcomplete (hvc.dotted.trans hc) hsd hlay (hends s d hend), hend⟩

/-- Behind a chain at the end of the text no condition is joined to it. -/
theorem ChainEnds.of_textEnd {s : List Char} (h : e.AtTextEnd) : ChainEnds s e :=
  ⟨.inr (.inr h.atWordEnd), fun _ => h.eatSpacedKeyword?_eq_none⟩

variable {dialect : Dialect} {limit n : Nat} {text : String}

theorem whole_chain_eq_ok_iff {ch : Chain} :
    (∃ e, whole (chain dialect limit n) (.ofString text dialect.dottedNames) = .ok (ch, e)) ↔
      IsChainLayout dialect n text.toList ch :=
  whole_eq_ok_iff_layout chain_sound chain_complete (fun _ _ h => h.1.starts)
    (fun _ _ => .of_textEnd) rfl

theorem whole_clauseSet_eq_ok_iff {s : ClauseSet} :
    (∃ e, whole (clauseSet (chain dialect limit n)) (.ofString text dialect.dottedNames) =
      .ok (s, e)) ↔ IsClauseSetLayout dialect n text.toList s :=
  whole_eq_ok_iff_layout clauseSet_sound clauseSet_complete (fun _ _ => ClauseSetLayout.starts)
    (fun _ _ h => h) rfl

end Rule

/-! ## Parsers -/

theorem Parser.run_eq_ok_iff {α : Type} {p : Parser} {rule : Rule α} {a : α} :
    (p.run rule).1 = .ok a ↔ ∃ e, rule p.cursor = .ok (a, e) := by
  rw [Parser.run]
  cases rule p.cursor with
  | error r => simp
  | ok b => simp [Prod.ext_iff]

theorem Parser.run_eq_error_iff {α : Type} {p : Parser} {rule : Rule α} {e : ParseError} :
    (p.run rule).1 = .error e ↔ ∃ r, rule p.cursor = .error r ∧ r.error = e := by
  rw [Parser.run]
  cases rule p.cursor <;> simp

variable {d : Dialect} {maxDepth : Nat} {text : String}

theorem parseChain_eq_ok_iff_whole {c : Chain} :
    parseChain d maxDepth text = .ok c ↔
      ∃ e, Rule.whole (Rule.chain d maxDepth maxDepth) (.ofString text d.dottedNames) =
        .ok (c, e) :=
  Parser.run_eq_ok_iff

/-- A text that is a layout is accepted without blanks around it. -/
theorem parseChain_of_layout {c : Chain} (hs : ChainLayout d text.toList c)
    (hdepth : Chain.depth c ≤ maxDepth) : parseChain d maxDepth text = .ok c := by
  rw [parseChain_eq_ok_iff_whole, Rule.whole_chain_eq_ok_iff]
  exact ⟨[], text.toList, [], by simp, .nil, ⟨hs, hdepth⟩, .nil⟩

theorem parseClauseSet_eq_run (hd : d.clauses = true) :
    parseClauseSet d maxDepth text = ((Parser.ofString d maxDepth text).run
      (Rule.whole (Rule.clauseSet (Rule.chain d maxDepth maxDepth)))).1 := by
  have hp : (Parser.ofString d maxDepth text).dialect.clauses = true := hd
  rw [parseClauseSet, Parser.clauseSet, if_pos hp]
  rfl

/-- A dialect without clauses reads no clause set. -/
theorem parseClauseSet_eq_ok_iff_whole {s : ClauseSet} :
    parseClauseSet d maxDepth text = .ok s ↔ d.clauses = true ∧
      ∃ e, Rule.whole (Rule.clauseSet (Rule.chain d maxDepth maxDepth))
        (.ofString text d.dottedNames) = .ok (s, e) := by
  cases hd : d.clauses with
  | false => simp [parseClauseSet, Parser.clauseSet, Parser.ofString, hd]
  | true =>
    rw [parseClauseSet_eq_run hd, Parser.run_eq_ok_iff, eq_self, true_and]
    rfl

/-- A text is accepted as a chain exactly if it is a layout of the chain that is answered. -/
theorem parseChain_eq_ok_iff (d : Dialect) (maxDepth : Nat) (text : String) (c : Chain) :
    parseChain d maxDepth text = .ok c ↔ IsChainLayout d maxDepth text.toList c := by
  rw [parseChain_eq_ok_iff_whole, Rule.whole_chain_eq_ok_iff]

/-- A text is accepted as a clause set exactly if the dialect has clause sets and the text is a
layout of the one that is answered. -/
theorem parseClauseSet_eq_ok_iff (d : Dialect) (maxDepth : Nat) (text : String) (s : ClauseSet) :
    parseClauseSet d maxDepth text = .ok s ↔
      d.clauses = true ∧ IsClauseSetLayout d maxDepth text.toList s := by
  rw [parseClauseSet_eq_ok_iff_whole, Rule.whole_clauseSet_eq_ok_iff]

end FilterQuery
