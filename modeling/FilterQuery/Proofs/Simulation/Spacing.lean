import FilterQuery.Proofs.Simulation.Rules

/-!
Blanks between words. What stands in a run of blanks outside quotes, and how many, is of no account,
nor are blanks around the whole text: every text is read like the squeezed one, in which each such
run is a single blank and none stands at the ends. Two texts that differ in blanks only are squeezed
to the same.
-/

namespace FilterQuery

/-! ## Texts that differ in blanks -/

/-- The texts differ only in the blanks within each run outside quotes; `quoted` says whether they
begin inside quotes. -/
inductive Respaced : (quoted : Bool) → List Char → List Char → Prop
  | nil {quoted : Bool} : Respaced quoted [] []
  | char {quoted : Bool} {x : Char} {s t : List Char} :
    Respaced (quoted != (x == '\'')) s t → Respaced quoted (x :: s) (x :: t)
  | gap {v w s t : List Char} :
    Gap v → Gap w → Respaced false s t → Respaced false (v ++ s) (w ++ t)

/-- The texts differ only in the blanks of runs outside quotes, in blanks before the text, and, if
its quotes are paired, in blanks behind it. -/
inductive SameButBlanks : List Char → List Char → Prop
  | mk {v v' s s' w w' : List Char} :
    Blanks v → Blanks v' → Respaced false s s' → Blanks w → Blanks w' →
      (s.count '\'' % 2 = 0 ∨ w = [] ∧ w' = []) → SameButBlanks (v ++ s ++ w) (v' ++ s' ++ w')

/-- At most one blank before a text, and none before nothing. -/
def gapBefore : List Char → List Char
  | [] => []
  | x :: s => if x = ' ' then x :: s else ' ' :: x :: s

/-- The text with a single blank for each run outside quotes, and none at its end. -/
def squeeze : (quoted : Bool) → List Char → List Char
  | _, [] => []
  | true, x :: s => x :: squeeze (x != '\'') s
  | false, x :: s => if isBlank x then gapBefore (squeeze false s) else x :: squeeze (x == '\'') s

theorem gapBefore_cases (s : List Char) :
    gapBefore s = [] ∧ s = [] ∨ ∃ t, gapBefore s = ' ' :: t := by
  cases s with
  | nil => exact .inl ⟨rfl, rfl⟩
  | cons x s =>
    rw [gapBefore]
    split
    · next h => exact .inr ⟨s, by rw [h]⟩
    · exact .inr ⟨x :: s, rfl⟩

theorem gapBefore_gapBefore (s : List Char) : gapBefore (gapBefore s) = gapBefore s := by
  rcases gapBefore_cases s with ⟨h, -⟩ | ⟨t, h⟩
  · rw [h]
    rfl
  · rw [h, gapBefore, if_pos rfl]

theorem dropWhile_gapBefore (s : List Char) :
    (gapBefore s).dropWhile isBlank = s.dropWhile isBlank := by
  cases s with
  | nil => rfl
  | cons x s =>
    rw [gapBefore]
    split
    · rfl
    · rw [List.dropWhile_cons_of_pos (by rfl)]

section Squeeze

variable {s t u w : List Char} {x : Char}

theorem squeeze_blank (h : isBlank x = true) (s : List Char) :
    squeeze false (x :: s) = gapBefore (squeeze false s) := by
  rw [squeeze, if_pos h]

theorem squeeze_not_blank (h : isBlank x = false) (s : List Char) :
    squeeze false (x :: s) = x :: squeeze (x == '\'') s := by
  rw [squeeze, if_neg (by rw [h]; exact Bool.false_ne_true)]

theorem not_quote_of_isBlank (h : isBlank x = true) : (x == '\'') = false := by
  rcases isBlank_iff.1 h with rfl | rfl | rfl | rfl <;> rfl

theorem squeeze_gap (h : Gap w) (s : List Char) :
    squeeze false (w ++ s) = gapBefore (squeeze false s) := by
  obtain ⟨hb, hn⟩ := h
  induction w with
  | nil => exact absurd rfl hn
  | cons x w ih =>
    rw [List.cons_append, squeeze_blank (hb x (by simp))]
    cases w with
    | nil => rfl
    | cons y w =>
      rw [ih (fun z hz => hb z (List.mem_cons_of_mem x hz)) (by simp), gapBefore_gapBefore]

theorem Respaced.squeeze_eq {quoted : Bool} (h : Respaced quoted s t) :
    squeeze quoted s = squeeze quoted t := by
  induction h with
  | nil => rfl
  | @char quoted x s t _ ih =>
    cases quoted with
    | true => cases hx : x == '\'' <;> simpa [squeeze, bne, hx] using ih
    | false =>
      rw [Bool.false_bne] at ih
      cases hb : isBlank x with
      | true =>
        rw [not_quote_of_isBlank hb] at ih
        rw [squeeze_blank hb, squeeze_blank hb, ih]
      | false => rw [squeeze_not_blank hb, squeeze_not_blank hb, ih]
  | gap hv hw _ ih => rw [squeeze_gap hv, squeeze_gap hw, ih]

/-- The quotes are not moved. -/
theorem Respaced.count_quote {quoted : Bool} (h : Respaced quoted s t) :
    s.count '\'' = t.count '\'' := by
  have blanks {w : List Char} (hw : Blanks w) : w.count '\'' = 0 := by
    rw [List.count_eq_zero]
    intro hm
    exact absurd (hw _ hm) (by decide)
  induction h with
  | nil => rfl
  | char _ ih => rw [List.count_cons, List.count_cons, ih]
  | gap hv hw _ ih =>
    rw [List.count_append, List.count_append, blanks hv.blanks, blanks hw.blanks, ih]

theorem squeeze_blanks (h : Blanks w) : squeeze false w = [] := by
  cases w with
  | nil => rfl
  | cons x w =>
    have hgap := squeeze_gap ⟨h, List.cons_ne_nil x w⟩ []
    rwa [List.append_nil] at hgap

/-- Blanks at the end, outside quotes, are dropped. -/
theorem squeeze_append_blanks (hw : Blanks w) {quoted : Bool}
    (hs : s.count '\'' % 2 = if quoted then 1 else 0) :
    squeeze quoted (s ++ w) = squeeze quoted s := by
  induction s generalizing quoted with
  | nil =>
    cases quoted with
    | true => cases hs
    | false => exact squeeze_blanks hw
  | cons x s ih =>
    cases hx : x == '\'' with
    | true =>
      obtain rfl := beq_iff_eq.1 hx
      rw [List.count_cons_self] at hs
      have hs' : s.count '\'' % 2 = if !quoted then 1 else 0 := by
        cases quoted <;> simp at hs ⊢ <;> omega
      cases quoted with
      | true => exact congrArg ('\'' :: ·) (ih hs')
      | false => exact congrArg ('\'' :: ·) (ih hs')
    | false =>
      rw [List.count_cons_of_ne (beq_eq_false_iff_ne.1 hx)] at hs
      cases quoted with
      | true => simp only [List.cons_append, squeeze, bne, hx, Bool.not_false, ih hs]
      | false => simp only [List.cons_append, squeeze, hx, ih hs]

/-- Blanks at the beginning are one blank at most. -/
theorem dropWhile_squeeze (s : List Char) :
    (squeeze false s).dropWhile isBlank = squeeze false (s.dropWhile isBlank) := by
  induction s with
  | nil => rfl
  | cons x s ih =>
    cases hb : isBlank x with
    | true => rw [squeeze_blank hb, dropWhile_gapBefore, ih, List.dropWhile_cons_of_pos hb]
    | false =>
      have hn : ¬ isBlank x = true := by rw [hb]; exact Bool.false_ne_true
      rw [List.dropWhile_cons_of_neg hn, squeeze_not_blank hb, List.dropWhile_cons_of_neg hn]

/-- The squeezed text without a blank before it. -/
def spaced (text : List Char) : List Char :=
  (squeeze false text).dropWhile isBlank

theorem spaced_append {v : List Char} (hv : Blanks v) (s : List Char) :
    spaced (v ++ s) = spaced s := by
  cases v with
  | nil => rfl
  | cons x v => rw [spaced, squeeze_gap ⟨hv, List.cons_ne_nil x v⟩, dropWhile_gapBefore, spaced]

theorem SameButBlanks.spaced_eq (h : SameButBlanks s t) : spaced s = spaced t := by
  cases h with
  | @mk v v' s s' w w' hv hv' hs hw hw' hq =>
    rw [List.append_assoc, List.append_assoc, spaced_append hv, spaced_append hv', spaced, spaced]
    rcases hq with hq | ⟨rfl, rfl⟩
    · have hq' : s'.count '\'' % 2 = 0 := hs.count_quote ▸ hq
      rw [squeeze_append_blanks hw hq, squeeze_append_blanks hw' hq', hs.squeeze_eq]
    · rw [List.append_nil, List.append_nil, hs.squeeze_eq]

/-- What is not a blank begins the squeezed text too. -/
theorem head?_squeeze_any {p : Char → Bool} (hp : ∀ x, isBlank x = true → p x = false)
    (s : List Char) : (squeeze false s).head?.any p = s.head?.any p := by
  cases s with
  | nil => rfl
  | cons x s =>
    cases hb : isBlank x with
    | true =>
      rw [squeeze_blank hb, List.head?_cons, Option.any_some, hp x hb]
      rcases gapBefore_cases (squeeze false s) with ⟨h, -⟩ | ⟨t, h⟩
      · rw [h]
        rfl
      · rw [h]
        exact hp ' ' rfl
    | false =>
      rw [squeeze_not_blank hb]
      rfl

theorem head?_squeeze (h : s.head?.any isBlank = false) :
    (squeeze false s).head? = s.head? := by
  cases s with
  | nil => rfl
  | cons x s =>
    rw [squeeze_not_blank h]
    rfl

theorem squeeze_eq_nil (h : s.head?.any isBlank = false) (hs : squeeze false s = []) : s = [] := by
  have hhead := head?_squeeze h
  rw [hs] at hhead
  exact List.head?_eq_none_iff.1 hhead.symm

theorem plain_of_continuesName {dotted : Bool} {x : Char} (h : continuesName dotted x = true) :
    isBlank x = false ∧ x ≠ '\'' := by
  constructor
  · rw [Bool.eq_false_iff]
    intro hb
    rw [continuesName_eq_false_of_isBlank hb] at h
    cases h
  · rintro rfl
    cases dotted <;> cases h

theorem head?_squeeze_quoted (s : List Char) : (squeeze true s).head? = s.head? := by
  cases s <;> rfl

theorem squeeze_plain (h : Plain s) (t : List Char) :
    squeeze false (s ++ t) = s ++ squeeze false t := by
  induction s with
  | nil => rfl
  | cons x s ih =>
    obtain ⟨hb, hq⟩ := h x (by simp)
    rw [List.cons_append, squeeze_not_blank hb, beq_eq_false_iff_ne.2 hq,
      ih fun y hy => h y (List.mem_cons_of_mem x hy)]
    rfl

/-- A plain text that begins the squeezed text begins the text itself. -/
theorem exists_append_of_squeeze (h : Plain s) (ht : squeeze false t = s ++ u) :
    ∃ r, t = s ++ r := by
  induction s generalizing t with
  | nil => exact ⟨t, rfl⟩
  | cons x s ih =>
    obtain ⟨hb, hq⟩ := h x (by simp)
    cases t with
    | nil => cases ht
    | cons y t =>
      cases hy : isBlank y with
      | true =>
        rw [squeeze_blank hy] at ht
        rcases gapBefore_cases (squeeze false t) with ⟨hg, -⟩ | ⟨r, hg⟩
        · rw [hg] at ht
          cases ht
        · rw [hg] at ht
          cases ht
          cases hb
      | false =>
        rw [squeeze_not_blank hy] at ht
        obtain ⟨rfl, htail⟩ := List.cons.inj ht
        rw [beq_eq_false_iff_ne.2 hq] at htail
        obtain ⟨r, rfl⟩ := ih (fun z hz => h z (List.mem_cons_of_mem y hz)) htail
        exact ⟨r, rfl⟩

theorem squeeze_quoted (h : '\'' ∉ s) (t : List Char) :
    squeeze true (s ++ t) = s ++ squeeze true t := by
  induction s with
  | nil => rfl
  | cons x s ih =>
    have hne : (x != '\'') = true := bne_iff_ne.2 fun hx => h (by simp [hx])
    rw [List.cons_append, squeeze, hne, ih fun hs => h (List.mem_cons_of_mem x hs)]
    rfl

end Squeeze

/-! ## Places on a text and on the squeezed one -/

namespace Cursor

/-- What is left of one text is squeezed to what is left of the other. -/
structure Squeezed (dotted : Bool) (c c' : Cursor) : Prop where
  rest : c'.rest = squeeze false c.rest
  dotted_left : c.dotted = dotted
  dotted_right : c'.dotted = dotted

/-- Places on both texts before a token, or at the end. -/
structure SqueezedBefore (dotted : Bool) (c c' : Cursor) : Prop extends Squeezed dotted c c' where
  not_blank : c.peek?.any isBlank = false

/-- Places on both texts behind the same character. -/
structure SqueezedBehind (dotted : Bool) (c c' : Cursor) : Prop extends Squeezed dotted c c' where
  past : c'.past.head? = c.past.head?

variable {dotted : Bool} {c c' d d' : Cursor} {s : List Char} {p : Char → Bool}

theorem rest_skipWhile (c : Cursor) (p : Char → Bool) :
    (c.skipWhile p).rest = c.rest.dropWhile p := by
  have h : c.Passes (c.rest.takeWhile p) (c.skipWhile p) :=
    .move List.takeWhile_append_dropWhile.symm
  exact List.append_cancel_left (h.rest.symm.trans List.takeWhile_append_dropWhile.symm)

theorem SqueezedBefore.peek? (h : SqueezedBefore dotted c c') : c'.peek? = c.peek? := by
  rw [Cursor.peek?, h.rest, head?_squeeze h.not_blank, Cursor.peek?]

namespace Squeezed

theorem behind (h : Squeezed dotted d d') (hp : c.Passes s d) (hp' : c'.Passes s d')
    (hs : s ≠ []) : SqueezedBehind dotted d d' :=
  ⟨h, by rw [hp.head?_past hs, hp'.head?_past hs]⟩

theorem peek?_any (h : Squeezed dotted c c') (hp : ∀ x, isBlank x = true → p x = false) :
    c'.peek?.any p = c.peek?.any p := by
  rw [peek?, h.rest, head?_squeeze_any hp, peek?]

theorem continuesWord_left (h : Squeezed dotted c c') : c.continuesWord = continuesName dotted :=
  h.dotted_left ▸ rfl

theorem continuesWord_right (h : Squeezed dotted c c') : c'.continuesWord = continuesName dotted :=
  h.dotted_right ▸ rfl

theorem skipBlanks (h : Squeezed dotted c c') :
    SqueezedBefore dotted c.skipBlanks c'.skipBlanks where
  rest := by
    rw [Cursor.skipBlanks, Cursor.skipBlanks, rest_skipWhile, rest_skipWhile, h.rest,
      dropWhile_squeeze]
  dotted_left := h.dotted_left
  dotted_right := h.dotted_right
  not_blank := by
    rw [Cursor.skipBlanks, peek?, rest_skipWhile]
    exact head?_dropWhile_any isBlank c.rest

/-- Both places are before blanks or neither is, unless both are before the end. -/
theorem blank_cases (h : Squeezed dotted c c') :
    c'.peek?.any isBlank = c.peek?.any isBlank ∨ c.AtTextEnd ∧ c'.AtTextEnd := by
  have hskip := h.skipBlanks
  by_cases hend : c.AtTextEnd
  · have hend' : c'.skipBlanks.rest = squeeze false [] := hend ▸ hskip.rest
    exact .inr ⟨hend, hend'⟩
  · left
    cases hb : c.peek?.any isBlank with
    | false => rw [peek?, h.rest, head?_squeeze hb, ← peek?, hb]
    | true =>
      -- A squeezed run of blanks is one blank, since something follows it.
      obtain ⟨x, hx, hxb⟩ := (Option.any_eq_true _ _).1 hb
      obtain ⟨r, hr⟩ := List.head?_eq_some_iff.1 hx
      rw [peek?, h.rest, hr, squeeze_blank hxb]
      rcases gapBefore_cases (squeeze false r) with ⟨-, hnil⟩ | ⟨t, ht⟩
      · have hrest : c.skipBlanks.rest = r.dropWhile isBlank := by
          rw [Cursor.skipBlanks, rest_skipWhile, hr, List.dropWhile_cons_of_pos hxb]
        have hsqueeze : squeeze false (r.dropWhile isBlank) = [] := by
          rw [← dropWhile_squeeze, hnil]
          rfl
        exact absurd (hrest.trans (squeeze_eq_nil (head?_dropWhile_any isBlank r) hsqueeze)) hend
      · rw [ht]
        rfl

theorem passes (h : Squeezed dotted c c') (hp : c.Passes s d) (hs : Plain s) :
    ∃ d', c'.Passes s d' ∧ Squeezed dotted d d' := by
  have hrest : c'.rest = s ++ squeeze false d.rest := by rw [h.rest, hp.rest, squeeze_plain hs]
  have hp' : c'.Passes s (c'.move s.length) := .move hrest
  exact ⟨_, hp', List.append_cancel_left (hp'.rest.symm.trans hrest),
    hp.dotted.trans h.dotted_left, hp'.dotted.trans h.dotted_right⟩

theorem eat? {symbol : String} (h : Squeezed dotted c c') (hs : IsSymbol symbol) :
    Option.Rel (SqueezedBehind dotted) (c.eat? symbol) (c'.eat? symbol) := by
  cases hx : c.eat? symbol with
  | some d =>
    have hp := eat?_eq_some_iff.1 hx
    obtain ⟨d', hp', hd⟩ := h.passes hp hs.2
    rw [eat?_eq_some_iff.2 hp']
    exact .some (hd.behind hp hp' hs.1)
  | none =>
    cases hx' : c'.eat? symbol with
    | none => exact .none
    | some d' =>
      obtain ⟨r, hr⟩ := exists_append_of_squeeze hs.2
        (h.rest.symm.trans (eat?_eq_some_iff.1 hx').rest)
      rw [eat?_eq_some_iff.2 (.move hr)] at hx
      cases hx

/-- Runs of plain characters are the same. -/
theorem skipWhile (h : Squeezed dotted c c') (hp : ∀ x, p x = true → isBlank x = false ∧ x ≠ '\'') :
    ∃ s, c.rest.takeWhile p = s ∧ c'.rest.takeWhile p = s ∧ c.Passes s (c.skipWhile p) ∧
      c'.Passes s (c'.skipWhile p) ∧ Squeezed dotted (c.skipWhile p) (c'.skipWhile p) := by
  obtain ⟨s, hs, hc, hd⟩ := skipWhile_eq_iff.1 (Eq.refl (c.skipWhile p))
  obtain ⟨d', hc', hsq⟩ := h.passes hc fun x hx => hp x (hs x hx)
  have hblank (x : Char) (hx : isBlank x = true) : p x = false := by
    rw [Bool.eq_false_iff]
    intro hpx
    rw [(hp x hpx).1] at hx
    cases hx
  have hd' : d'.peek?.any p = false := by rw [hsq.peek?_any hblank, hd]
  have hskip : c'.skipWhile p = d' := skipWhile_eq_iff.2 ⟨s, hs, hc', hd'⟩
  rw [hskip]
  exact ⟨s, hc.takeWhile hs hd, hc'.takeWhile hs hd', hc, hc', hsq⟩

/-! ## Keywords -/

theorem eatWord? {w : String} (h : Squeezed dotted c c') (hw : IsIdentifier false w) :
    Option.Rel (SqueezedBehind dotted) (c.eatWord? w) (c'.eatWord? w) := by
  have hsymbol : IsSymbol w := ⟨hw.ne_nil, fun x hx => plain_of_continuesName (hw.2 x hx)⟩
  rw [Cursor.eatWord?, Cursor.eatWord?]
  rcases rel_cases (h.eat? hsymbol) with ⟨hx, hx'⟩ | ⟨d, d', hx, hx', hd⟩
  · rw [hx, hx']
    exact .none
  · have hends : d'.peek?.any d'.continuesWord = d.peek?.any d.continuesWord := by
      rw [hd.continuesWord_left, hd.continuesWord_right]
      exact hd.peek?_any fun x hx => continuesName_eq_false_of_isBlank hx
    rw [hx, hx', Option.filter_some, Option.filter_some, hends]
    cases d.peek?.any d.continuesWord with
    | true => exact .none
    | false => exact .some hd

theorem eatWords?_of_end {w : String} {ws : List String} (hw : Wordy (w :: ws))
    (h : c.rest = []) : c.eatWords? (w :: ws) = none := by
  rw [Option.eq_none_iff_forall_ne_some]
  intro d hd
  obtain ⟨s, hs, hp, -⟩ := (eatWords?_eq_some_iff hw (List.cons_ne_nil w ws)).1 hd
  have hrest := hp.rest
  rw [h] at hrest
  exact hs.ne_nil hw (List.append_eq_nil_iff.1 hrest.symm).1

theorem eatWords? {ws : List String} (hw : Wordy ws) (hn : ws ≠ []) (h : Squeezed dotted c c') :
    Option.Rel (SqueezedBehind dotted) (c.eatWords? ws) (c'.eatWords? ws) := by
  induction ws generalizing c c' with
  | nil => exact absurd rfl hn
  | cons w ws ih =>
    cases ws with
    | nil => exact h.eatWord? (hw w (by simp))
    | cons next ws =>
      rw [Cursor.eatWords?, Cursor.eatWords?]
      rcases rel_cases (h.eatWord? (hw w (by simp))) with ⟨hx, hx'⟩ | ⟨d, d', hx, hx', hd⟩
      · rw [hx, hx']
        exact .none
      · rw [hx, hx']
        simp only
        rcases hd.blank_cases with hb | ⟨he, he'⟩
        · rw [hb]
          split
          · exact ih hw.tail (by simp) hd.skipBlanks.toSqueezed
          · exact .none
        · -- Behind the last word of the text no other word follows.
          rw [eatWords?_of_end hw.tail he, eatWords?_of_end hw.tail he', ite_self, ite_self]
          exact .none

theorem eatKeyword? (h : Squeezed dotted c c') (k : Keyword) :
    Option.Rel (SqueezedBehind dotted) (c.eatKeyword? k) (c'.eatKeyword? k) :=
  h.eatWords? k.wordy k.words_ne_nil

end Squeezed

theorem SqueezedBehind.eatSpacedKeyword? (h : SqueezedBehind dotted c c') (k : Keyword) :
    Option.Rel (SqueezedBehind dotted) (c.eatSpacedKeyword? k) (c'.eatSpacedKeyword? k) := by
  rcases h.blank_cases with hb | ⟨he, he'⟩
  · have hafter : c'.afterWord = c.afterWord := by rw [afterWord, afterWord, h.past]
    rw [Cursor.eatSpacedKeyword?, Cursor.eatSpacedKeyword?, hb, hafter]
    split
    · exact .none
    · exact h.skipBlanks.eatKeyword? k
  · rw [he.eatSpacedKeyword?_eq_none, he'.eatSpacedKeyword?_eq_none]
    exact .none

end Cursor

/-! ## Tokens -/

/-- The errors are of the same kind. -/
def SameKind (e e' : ParseError) : Prop :=
  e.kind = e'.kind

namespace Rule

open Cursor (Squeezed SqueezedBefore SqueezedBehind)

variable {dotted : Bool} {c c' : Cursor}

theorem identifier_squeezed :
    Agree SameKind 0 (SqueezedBefore dotted) (SqueezedBehind dotted) identifier identifier := by
  intro c c' h
  rw [identifier, identifier, h.peek?, h.continuesWord_left, h.continuesWord_right]
  cases hx : c.peek? with
  | none => exact .error rfl rfl (Nat.le_refl 0)
  | some x =>
    simp only
    split
    · next hw =>
      obtain ⟨s, hs, hs', hp, hp', hd⟩ := h.skipWhile fun y => plain_of_continuesName
      rw [hs, hs']
      refine .ok (hd.behind hp hp' ?_)
      rintro rfl
      obtain ⟨r, hr⟩ := List.head?_eq_some_iff.1 hx
      have hcont : continuesName dotted x = true :=
        continuesName_of_isWordChar (isWordChar_of_isWordStart hw)
      rw [hr, List.takeWhile_cons_of_pos hcont] at hs
      cases hs
    · exact .error rfl rfl (Nat.le_refl 0)

/-- A quote is eaten on both texts or on neither, and leads into a quoted part or out of it. -/
theorem eat?_quote {quoted : Bool} (hrest : c'.rest = squeeze quoted c.rest)
    (hpeek : c'.peek? = c.peek?) :
    Option.Rel (fun d d' => c.Passes ['\''] d ∧ c'.Passes ['\''] d' ∧
      d'.rest = squeeze (!quoted) d.rest) (c.eat? "'") (c'.eat? "'") := by
  cases hx : c.eat? "'" with
  | none =>
    have hne : c'.peek? ≠ some '\'' := by
      rw [hpeek]
      intro hp
      obtain ⟨r, hr⟩ := List.head?_eq_some_iff.1 hp
      have hquote : c.eat? "'" = some _ := Cursor.eat?_eq_some_iff.2 (.move hr)
      rw [hx] at hquote
      cases hquote
    rw [Cursor.eat?_eq_none_of_peek? rfl hne]
    exact .none
  | some d =>
    have hp := Cursor.eat?_eq_some_iff.1 hx
    have hrest' : c'.rest = ['\''] ++ squeeze (!quoted) d.rest := by
      rw [hrest, hp.rest]
      cases quoted <;> rfl
    have hp' : c'.Passes ['\''] (c'.move 1) := .move hrest'
    rw [Cursor.eat?_eq_some_iff.2 hp']
    exact .some ⟨hp, hp', List.append_cancel_left (hp'.rest.symm.trans hrest')⟩

/-- What stands between quotes is not touched. -/
theorem skipWhile_quoted {d d' : Cursor} (hrest : d'.rest = squeeze true d.rest) :
    ∃ b, d.Passes b (d.skipWhile (· != '\'')) ∧ d'.Passes b (d'.skipWhile (· != '\'')) ∧
      d.rest.takeWhile (· != '\'') = b ∧ d'.rest.takeWhile (· != '\'') = b ∧
      (d'.skipWhile (· != '\'')).rest = squeeze true (d.skipWhile (· != '\'')).rest := by
  obtain ⟨b, hb, hp, hstop⟩ := Cursor.skipWhile_eq_iff.1 (Eq.refl (d.skipWhile (· != '\'')))
  have hbody : d'.rest = b ++ squeeze true (d.skipWhile (· != '\'')).rest := by
    rw [hrest, hp.rest, squeeze_quoted fun hm => bne_iff_ne.1 (hb _ hm) rfl]
  have hp' : d'.Passes b (d'.move b.length) := .move hbody
  have hrest' := List.append_cancel_left (hp'.rest.symm.trans hbody)
  have hstop' : (d'.move b.length).peek?.any (· != '\'') = false := by
    rwa [Cursor.peek?, hrest', head?_squeeze_quoted]
  have hskip : d'.skipWhile (· != '\'') = d'.move b.length :=
    Cursor.skipWhile_eq_iff.2 ⟨b, hb, hp', hstop'⟩
  rw [hskip]
  exact ⟨b, hp, hp', hp.takeWhile hb hstop, hp'.takeWhile hb hstop', hrest'⟩

theorem quotedString_squeezed :
    Agree SameKind 0 (SqueezedBefore dotted) (SqueezedBehind dotted) quotedString quotedString := by
  intro c c' h
  rw [quotedString, quotedString]
  rcases rel_cases (eat?_quote h.rest h.peek?) with ⟨hx, hx'⟩ | ⟨d, d', hx, hx', hp, hp', hd⟩
  · rw [hx, hx']
    exact .error rfl rfl (Nat.le_refl 0)
  · obtain ⟨b, hb, hb', hbody, hbody', hstop⟩ := skipWhile_quoted hd
    have hpeek : (d'.skipWhile (· != '\'')).peek? = (d.skipWhile (· != '\'')).peek? := by
      rw [Cursor.peek?, hstop, head?_squeeze_quoted, Cursor.peek?]
    rw [hx, hx']
    simp only [hbody, hbody']
    rcases rel_cases (eat?_quote hstop hpeek) with ⟨hy, hy'⟩ | ⟨e, e', hy, hy', hq, hq', he⟩
    · rw [hy, hy']
      exact .error rfl rfl (Nat.le_refl 0)
    · have hsqueezed : Squeezed dotted e e' :=
        ⟨he, (hq.dotted.trans (hb.dotted.trans hp.dotted)).trans h.dotted_left,
          (hq'.dotted.trans (hb'.dotted.trans hp'.dotted)).trans h.dotted_right⟩
      rw [hy, hy']
      exact .ok (hsqueezed.behind hq hq' (by simp))

theorem digits_squeezed (start start' : Cursor) (h : Squeezed dotted c c') :
    Matches SameKind 0 (SqueezedBehind dotted) (digits start c) (digits start' c') := by
  have hplain (x : Char) (hx : x.isDigit = true) : isBlank x = false ∧ x ≠ '\'' := by
    have hname : continuesName false x = true :=
      continuesName_of_isWordChar (isWordChar_of_isDigit hx)
    exact plain_of_continuesName hname
  obtain ⟨s, hs, hs', hp, hp', hd⟩ := h.skipWhile hplain
  have hword : (c'.skipWhile Char.isDigit).peek?.any isWordStart =
      (c.skipWhile Char.isDigit).peek?.any isWordStart :=
    hd.peek?_any fun x hx => (isWordChar_eq_false_iff.1 (isWordChar_eq_false_of_isBlank hx)).1
  rw [digits, digits]
  simp only [hs, hs', hword]
  split
  · exact .error rfl rfl (Nat.le_refl 0)
  · next hne =>
    split
    · exact .error rfl rfl (Nat.le_refl 0)
    · exact .ok (hd.behind hp hp' fun hnil => hne (List.isEmpty_iff.2 hnil))

theorem atSign_squeezed (h : SqueezedBefore dotted c c') : c'.atSign = c.atSign := by
  rw [Cursor.atSign, Cursor.atSign, h.peek?]
  cases hx : c.peek? == some '-' with
  | false => rfl
  | true =>
    obtain ⟨r, hr⟩ := List.head?_eq_some_iff.1 (beq_iff_eq.1 hx)
    have hr' : c'.rest = '-' :: squeeze false r := by rw [h.rest, hr]; rfl
    have hdigit (x : Char) (hb : isBlank x = true) : x.isDigit = false :=
      (isWordChar_eq_false_iff.1 (isWordChar_eq_false_of_isBlank hb)).2
    rw [Cursor.peekNext?, Cursor.peekNext?, hr, hr', List.tail_cons, List.tail_cons,
      head?_squeeze_any hdigit]

theorem sign_squeezed (h : SqueezedBefore dotted c c') :
    Squeezed dotted (if c.atSign then c.move 1 else c) (if c'.atSign then c'.move 1 else c') := by
  rw [atSign_squeezed h]
  cases hx : c.atSign with
  | false => exact h.toSqueezed
  | true =>
    obtain ⟨r, hr⟩ := List.head?_eq_some_iff.1 (atSign_eq_true_iff.1 hx).1
    obtain ⟨d', hp', hd⟩ := h.passes (.move (s := ['-']) hr) (by decide)
    rwa [hp'.eq_move] at hd

/-- Blanks that are required may be dropped at the end of the text, where all expect more. -/
theorem blanks_squeezed (h : SqueezedBehind dotted c c') :
    Matches SameKind 0 (SqueezedBefore dotted) (blanks c) (blanks c') ∨
      c.AtTextEnd ∧ c'.AtTextEnd ∧ ∀ (e e' : Cursor) (what what' : Expectation),
        SameKind (e.unexpected what) (e'.unexpected what') := by
  rcases h.blank_cases with hb | ⟨he, he'⟩
  · left
    rw [blanks, blanks, hb]
    split
    · exact .ok h.skipBlanks
    · exact .error rfl rfl (Nat.le_refl 0)
  · exact .inr ⟨he, he', fun _ _ _ _ => rfl⟩

end Rule

/-- A text is read like the squeezed one, up to the places and the wording of errors. -/
def Simulation.spacing (dotted : Bool) (limit : Nat) : Simulation where
  dotted
  limit
  limit' := limit
  Before := Cursor.SqueezedBefore dotted
  Behind := Cursor.SqueezedBehind dotted
  Error := SameKind
  dotted_behind h := ⟨h.dotted_left, h.dotted_right⟩
  skipBlanks h := h.skipBlanks
  peek? h := h.peek?.symm
  atSign h := (Rule.atSign_squeezed h).symm
  eat? hs h := h.eat? hs
  eatKeyword? k h := h.eatKeyword? k
  eatSpacedKeyword? k h := h.eatSpacedKeyword? k
  identifier := Rule.identifier_squeezed
  quotedString := Rule.quotedString_squeezed
  digits h := Rule.digits_squeezed _ _ h.toSqueezed
  signedDigits h := Rule.digits_squeezed _ _ (Rule.sign_squeezed h)
  errorSince _ _ _ := rfl
  errorDepth _ := rfl
  errorTrailing _ := rfl
  blanks h := Rule.blanks_squeezed h

/-! ## Calls -/

theorem dropWhile_of_head {p : Char → Bool} {s : List Char} (h : s.head?.any p = false) :
    s.dropWhile p = s := by
  cases s with
  | nil => rfl
  | cons x s =>
    have hx : p x = false := h
    rw [List.dropWhile_cons_of_neg (by rw [hx]; exact Bool.false_ne_true)]

theorem dropWhile_spaced (s : List Char) :
    (spaced s).dropWhile isBlank = squeeze false (s.dropWhile isBlank) := by
  rw [spaced, dropWhile_of_head (head?_dropWhile_any isBlank _), dropWhile_squeeze]

theorem Cursor.squeezedBefore_spaced (text : String) (dotted : Bool) :
    SqueezedBefore dotted (Cursor.ofString text dotted).skipBlanks
      (Cursor.ofString (.ofList (spaced text.toList)) dotted).skipBlanks where
  rest := by
    rw [Cursor.skipBlanks, Cursor.skipBlanks, rest_skipWhile, rest_skipWhile, Cursor.ofString,
      Cursor.ofString, String.toList_ofList, dropWhile_spaced]
  dotted_left := rfl
  dotted_right := rfl
  not_blank := by
    rw [Cursor.skipBlanks, peek?, rest_skipWhile]
    exact head?_dropWhile_any isBlank _

namespace Parser

variable {p q : Parser} {k : Call}

theorem call_of_squeezed (hd : p.dialect = q.dialect) (hm : p.maxDepth = q.maxDepth)
    (hu : p.unclosed = q.unclosed) (h : Cursor.SqueezedBefore p.dialect.dottedNames
      p.cursor.skipBlanks q.cursor.skipBlanks) :
    (p.call k).1.mapError ParseError.kind = (q.call k).1.mapError ParseError.kind := by
  by_cases hk : k.Allowed p.dialect
  · have hlevels : p.levels = q.levels := by rw [levels, levels, hm, hu]
    let S := Simulation.spacing p.dialect.dottedNames p.maxDepth
    have hmatch := S.whole (S.rule p q hd rfl hm.symm hlevels rfl k) h
    rw [call_eq_run hk, call_eq_run (hd ▸ hk)]
    rcases run_cases hmatch with ⟨a, ha, ha'⟩ | ⟨e, e', he, he', hkind⟩
    · rw [ha, ha']
    · rw [he, he']
      exact congrArg Except.error hkind
  · rw [call_of_not_allowed hk, call_of_not_allowed (hd ▸ hk)]
    rfl

/-- Texts that differ only in blanks between words are both accepted with the same answer, or both
refused with errors of the same kind. -/
theorem call_of_sameButBlanks (d : Dialect) (maxDepth : Nat) (k : Call) (text text' : String)
    (h : SameButBlanks text.toList text'.toList) :
    ((ofString d maxDepth text).call k).1.mapError ParseError.kind =
      ((ofString d maxDepth text').call k).1.mapError ParseError.kind := by
  have key (text : String) : ((ofString d maxDepth text).call k).1.mapError ParseError.kind =
      ((ofString d maxDepth (.ofList (spaced text.toList))).call k).1.mapError ParseError.kind :=
    call_of_squeezed rfl rfl rfl (Cursor.squeezedBefore_spaced text d.dottedNames)
  rw [key text, key text', h.spaced_eq]

/-- The blanks inside the quotes are the same; those outside are not. -/
theorem call_of_sameButBlanks_quoted :
    SameButBlanks "a\t= 'x  y'".toList " a \r\n= 'x  y'\n".toList ∧
      ((ofString .clause 0 "a\t= 'x  y'").call .chain).1.mapError ParseError.kind =
        ((ofString .clause 0 " a \r\n= 'x  y'\n").call .chain).1.mapError ParseError.kind := by
  have gap {x : Char} {w : List Char} (h : (x :: w).all isBlank = true) : Gap (x :: w) :=
    ⟨List.all_eq_true.1 h, List.cons_ne_nil x w⟩
  have same {quoted : Bool} (s : List Char) : Respaced quoted s s := by
    induction s generalizing quoted with
    | nil => exact .nil
    | cons x s ih => exact .char ih
  have hs : Respaced false ("a".toList ++ "\t".toList ++ "= 'x  y'".toList)
      ("a".toList ++ " \r\n".toList ++ "= 'x  y'".toList) :=
    .char (.gap (gap (by decide)) (gap (by decide)) (same _))
  have h : SameButBlanks "a\t= 'x  y'".toList " a \r\n= 'x  y'\n".toList :=
    .mk (v := []) (w := []) .nil Gap.blank.blanks hs .nil
      (gap (x := '\n') (w := []) (by decide)).blanks (.inl rfl)
  exact ⟨h, call_of_sameButBlanks .clause 0 .chain _ _ h⟩

end Parser

end FilterQuery
