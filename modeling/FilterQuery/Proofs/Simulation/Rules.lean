import FilterQuery.Proofs.Reading.Calls
import FilterQuery.Proofs.Refusal.Clauses
import FilterQuery.Proofs.Simulation.Agreement

/-!
Simulations between readings of two texts. Blanks are skipped before a token and never after one, so
that a rule is always at one of two kinds of places: where a token may begin, or right behind one. A
simulation relates both kinds of places on one text to those on another, and says that the tokens
agree. Then all rules agree.
-/

namespace FilterQuery

/-- Neither blanks nor quotes. -/
def Plain (s : List Char) : Prop :=
  ∀ x ∈ s, isBlank x = false ∧ x ≠ '\''

-- The instance is named, lest it go through all the characters there are.
instance (s : List Char) : Decidable (Plain s) :=
  List.decidableBAll (fun x => isBlank x = false ∧ x ≠ '\'') s

/-- A symbol of the grammar holds neither blanks nor quotes. -/
def IsSymbol (s : String) : Prop :=
  s.toList ≠ [] ∧ Plain s.toList

instance (s : String) : Decidable (IsSymbol s) :=
  inferInstanceAs (Decidable (_ ∧ _))

/-- The limit on nested groups is named as the cause. -/
def Cause.isDepth : Cause → Bool
  | .groupDepth _ => true
  | _ => false

/-- Two texts are read alike. The limits on nested groups that their errors name may differ. -/
structure Simulation where
  dotted : Bool
  limit : Nat
  limit' : Nat
  /-- Places where a token may begin. -/
  Before : Cursor → Cursor → Prop
  /-- Places right behind a token. -/
  Behind : Cursor → Cursor → Prop
  Error : ParseError → ParseError → Prop
  dotted_behind {c c' : Cursor} : Behind c c' → c.dotted = dotted ∧ c'.dotted = dotted
  skipBlanks {c c' : Cursor} : Behind c c' → Before c.skipBlanks c'.skipBlanks
  peek? {c c' : Cursor} : Before c c' → c.peek? = c'.peek?
  atSign {c c' : Cursor} : Before c c' → c.atSign = c'.atSign
  eat? {c c' : Cursor} {s : String} :
    IsSymbol s → Before c c' → Option.Rel Behind (c.eat? s) (c'.eat? s)
  eatKeyword? {c c' : Cursor} (k : Keyword) :
    Before c c' → Option.Rel Behind (c.eatKeyword? k) (c'.eatKeyword? k)
  eatSpacedKeyword? {c c' : Cursor} (k : Keyword) :
    Behind c c' → Option.Rel Behind (c.eatSpacedKeyword? k) (c'.eatSpacedKeyword? k)
  identifier : Rule.Agree Error 0 Before Behind Rule.identifier Rule.identifier
  quotedString : Rule.Agree Error 0 Before Behind Rule.quotedString Rule.quotedString
  digits {c c' : Cursor} :
    Before c c' → Rule.Matches Error 0 Behind (Rule.digits c c) (Rule.digits c' c')
  signedDigits {c c' : Cursor} : Before c c' →
    Rule.Matches Error 0 Behind (Rule.digits c (if c.atSign then c.move 1 else c))
      (Rule.digits c' (if c'.atSign then c'.move 1 else c'))
  errorSince {start start' c c' : Cursor} {cause : Cause} :
    cause.isDepth = false → Before start start' ∨ Behind start start' →
      Before c c' ∨ Behind c c' → Error (c.errorSince start cause) (c'.errorSince start' cause)
  errorDepth {c c' : Cursor} : Before c c' →
    Error (c.errorHere (.groupDepth limit)) (c'.errorHere (.groupDepth limit'))
  errorTrailing {c c' : Cursor} : Before c c' →
    Error ⟨.trailing, ⟨c.pos, byteLength c.input⟩, c.restText⟩
      ⟨.trailing, ⟨c'.pos, byteLength c'.input⟩, c'.restText⟩
  /-- Blanks that are required may stand on one text only where both end. -/
  blanks {c c' : Cursor} : Behind c c' →
    Rule.Matches Error 0 Before (Rule.blanks c) (Rule.blanks c') ∨
      c.AtTextEnd ∧ c'.AtTextEnd ∧
        ∀ (e e' : Cursor) (what what' : Expectation),
          Error (e.unexpected what) (e'.unexpected what')

/-! ## The end of the text -/

namespace Rule

variable {α β : Type} {c : Cursor} {d : Dialect}

/-- At the end of the text the rule refuses, since it expects something there. -/
def RefusesEnd (rule : Rule α) : Prop :=
  ∀ ⦃c⦄, c.rest = [] → ∃ what, rule c = unexpected what c

theorem RefusesEnd.bind {rule : Rule α} (h : RefusesEnd rule) (f : α → Rule β) :
    RefusesEnd (rule >>= f) := by
  intro c hc
  obtain ⟨what, hx⟩ := h hc
  exact ⟨what, bind_of_error hx f⟩

theorem eatKeyword?_of_end (hc : c.rest = []) (k : Keyword) : c.eatKeyword? k = none :=
  Cursor.eatKeyword?_eq_none_of_not_wordStart (by rw [Cursor.peek?, hc]; rfl)

theorem identifier_refusesEnd : RefusesEnd identifier := by
  intro c hc
  refine ⟨.identifier, ?_⟩
  rw [identifier, Cursor.peek?, hc]
  rfl

theorem count_refusesEnd : RefusesEnd count := by
  intro c hc
  refine ⟨.digits, ?_⟩
  rw [count, digits, hc]
  rfl

theorem condition_refusesEnd {group : Bool → Rule Condition} : RefusesEnd (condition d group) := by
  intro c hc
  have hpeek : c.peek? ≠ some '(' := by simp [Cursor.peek?, hc]
  obtain ⟨what, hx⟩ := identifier_refusesEnd.bind test hc
  have hplain : plain d group c = unexpected what c := by
    rw [plain, get_bind, if_neg hpeek]
    exact bind_of_error hx _
  refine ⟨what, ?_⟩
  rw [condition, get_bind, eatNegation]
  split
  · rw [eatKeyword, attempt_bind, eatKeyword?_of_end hc]
    exact hplain
  · exact hplain

theorem chain_refusesEnd {limit : Nat} : (levels : Nat) → RefusesEnd (chain d limit levels)
  | 0 => condition_refusesEnd.bind _
  | _ + 1 => condition_refusesEnd.bind _

/-- Where only blanks are left, required blanks are missing, or else what stands behind them. -/
theorem RefusesEnd.blanks_bind {rule : Rule α} (h : RefusesEnd rule) (hc : c.AtTextEnd) :
    ∃ e what, (blanks >>= fun _ => rule) c = unexpected what e := by
  by_cases hb : c.peek?.any isBlank = true
  · obtain ⟨what, hx⟩ := h hc
    have hblanks : blanks c = .ok ((), c.skipBlanks) := if_pos hb
    exact ⟨c.skipBlanks, what, (bind_of_ok hblanks _).trans hx⟩
  · have hblanks : blanks c = unexpected .blanks c := if_neg hb
    exact ⟨c, .blanks, bind_of_error hblanks _⟩

end Rule

namespace Simulation

open Rule (Agree Matches RefusesEnd)

variable (S : Simulation) {α β : Type} {n : Nat} {P Q : Cursor → Cursor → Prop}
  {c c' start start' : Cursor}

/-! ## Moves and errors -/

/-- Related places of either kind. -/
def Here (c c' : Cursor) : Prop :=
  S.Before c c' ∨ S.Behind c c'

theorem skipBlanks_agree : Agree S.Error n S.Behind S.Before Rule.skipBlanks Rule.skipBlanks :=
  fun _ _ h => .ok (S.skipBlanks h)

theorem failSince (hP : ∀ c c', P c c' → S.Here c c') (hs : S.Here start start') {cause : Cause}
    (hcause : cause.isDepth = false) :
    Agree S.Error n P Q (Rule.failSince start cause : Rule α) (Rule.failSince start' cause) :=
  fun c c' h => .error (S.errorSince hcause hs (hP c c' h)) rfl (Nat.zero_le n)

theorem unexpected (hP : ∀ c c', P c c' → S.Here c c') (what : Expectation) :
    Agree S.Error n P Q (Rule.unexpected what : Rule α) (Rule.unexpected what) :=
  fun c c' h => .error (S.errorSince rfl (hP c c' h) (hP c c' h)) rfl (Nat.zero_le n)

theorem unexpected_before (what : Expectation) :
    Agree S.Error n S.Before Q (Rule.unexpected what : Rule α) (Rule.unexpected what) :=
  S.unexpected (fun _ _ => .inl) what

theorem symbol {s : String} (hs : IsSymbol s) :
    Agree S.Error n S.Before S.Behind (Rule.symbol s) (Rule.symbol s) := by
  intro c c' h
  rw [Rule.symbol, Rule.symbol]
  rcases rel_cases (S.eat? hs h) with ⟨hx, hx'⟩ | ⟨d, d', hx, hx', hd⟩
  · rw [hx, hx']
    exact S.unexpected_before _ h
  · rw [hx, hx']
    exact .ok hd

theorem isSome_eatKeyword? (h : S.Before c c') :
    (fun k => (c.eatKeyword? k).isSome) = fun k => (c'.eatKeyword? k).isSome := by
  funext k
  rcases rel_cases (S.eatKeyword? k h) with ⟨hx, hx'⟩ | ⟨d, d', hx, hx', -⟩ <;> rw [hx, hx']
  rfl

theorem ite_eat {s : String} (hs : IsSymbol s) {f f' g g' : Rule β}
    (hf : Agree S.Error n S.Behind Q f f') (hg : Agree S.Error n S.Before Q g g') :
    Agree S.Error n S.Before Q (Rule.eat s >>= fun eaten => if eaten = true then f else g)
      (Rule.eat s >>= fun eaten => if eaten = true then f' else g') :=
  Agree.ite_attempt (fun _ _ h => S.eat? hs h) hf hg

theorem ite_eatKeyword (k : Keyword) {f f' g g' : Rule β}
    (hf : Agree S.Error n S.Behind Q f f') (hg : Agree S.Error n S.Before Q g g') :
    Agree S.Error n S.Before Q (Rule.eatKeyword k >>= fun eaten => if eaten = true then f else g)
      (Rule.eatKeyword k >>= fun eaten => if eaten = true then f' else g') :=
  Agree.ite_attempt (fun _ _ h => S.eatKeyword? k h) hf hg

theorem ite_eatSpacedKeyword (k : Keyword) {f f' g g' : Rule β}
    (hf : Agree S.Error n S.Behind Q f f') (hg : Agree S.Error n S.Behind Q g g') :
    Agree S.Error n S.Behind Q
      (Rule.eatSpacedKeyword k >>= fun eaten => if eaten = true then f else g)
      (Rule.eatSpacedKeyword k >>= fun eaten => if eaten = true then f' else g') :=
  Agree.ite_attempt (fun _ _ h => S.eatSpacedKeyword? k h) hf hg

theorem identifier_bind {f f' : String → Rule β}
    (hf : ∀ name, Agree S.Error n S.Behind Q (f name) (f' name)) :
    Agree S.Error n S.Before Q (Rule.identifier >>= f) (Rule.identifier >>= f') :=
  (S.identifier.mono (Nat.zero_le n)).bind hf

/-! ## Literals -/

theorem quotedBody (what : Expectation) :
    Agree S.Error n S.Behind S.Behind (Rule.quotedBody what) (Rule.quotedBody what) := by
  rw [Rule.quotedBody]
  refine S.skipBlanks_agree.bind fun _ => Agree.get_bind fun s s' hs => ?_
  rw [S.peek? hs]
  exact .ite .rfl (fun _ => S.quotedString.mono (Nat.zero_le n)) fun _ => S.unexpected_before what

theorem bodyLiteral (h : S.Before start start') (what : Expectation)
    {value : String → Except Cause Literal}
    (hvalue : ∀ ⦃body cause⦄, value body = .error cause → cause.isDepth = false) :
    Agree S.Error n S.Behind S.Behind (Rule.bodyLiteral what value start)
      (Rule.bodyLiteral what value start') := by
  refine (S.quotedBody what).bind fun body => ?_
  cases hv : value body with
  | ok l => exact .pure l
  | error cause => exact S.failSince (fun _ _ => .inr) (.inl h) (hvalue hv)

theorem dateLiteral (h : S.Before start start') :
    Agree S.Error n S.Behind S.Behind (Rule.dateLiteral start) (Rule.dateLiteral start') := by
  rw [Rule.dateLiteral_eq, Rule.dateLiteral_eq]
  refine S.bodyLiteral h _ fun body cause hcause => ?_
  rcases bodyValue_eq_error hcause with rfl | rfl <;> rfl

theorem timestampLiteral (h : S.Before start start') :
    Agree S.Error n S.Behind S.Behind (Rule.timestampLiteral start)
      (Rule.timestampLiteral start') := by
  rw [Rule.timestampLiteral_eq, Rule.timestampLiteral_eq]
  refine S.bodyLiteral h _ fun body cause hcause => ?_
  rcases bodyValue_eq_error hcause with rfl | rfl <;> rfl

theorem atInteger (h : S.Before c c') : c.atInteger = c'.atInteger := by
  rw [Cursor.atInteger, Cursor.atInteger, S.atSign h, S.peek? h]

theorem integer : Agree S.Error n S.Before S.Behind Rule.integer Rule.integer := by
  intro c c' h
  have hdigits := (S.signedDigits h).mono (Nat.zero_le n)
  rw [Rule.integer, Rule.integer]
  generalize Rule.digits c _ = x, Rule.digits c' _ = x' at hdigits ⊢
  cases hdigits with
  | error he hu hn => exact .error he hu hn
  | @ok run stop stop' hd =>
    rw [S.atSign h]
    simp only
    generalize (if c'.atSign = true then -(Decimal.value run : Int) else Decimal.value run) = i
    split
    · exact S.failSince (fun _ _ => .inr) (.inl h) rfl hd
    · split
      · exact S.failSince (fun _ _ => .inr) (.inl h) rfl hd
      · exact .ok hd

theorem count : Agree S.Error n S.Before S.Behind Rule.count Rule.count := by
  intro c c' h
  have hdigits := (S.digits h).mono (Nat.zero_le n)
  rw [Rule.count, Rule.count]
  generalize Rule.digits c c = x, Rule.digits c' c' = x' at hdigits ⊢
  cases hdigits with
  | error he hu hn => exact .error he hu hn
  | @ok run stop stop' hd =>
    simp only
    split
    · exact .ok hd
    · exact S.failSince (fun _ _ => .inr) (.inl h) rfl hd

theorem integer_bind {f : Int64 → β} :
    Agree S.Error n S.Before S.Behind (Rule.integer >>= fun i => pure (f i))
      (Rule.integer >>= fun i => pure (f i)) :=
  S.integer.bind fun _ => .pure _

theorem quotedString_bind {f : String → β} :
    Agree S.Error n S.Before S.Behind (Rule.quotedString >>= fun t => pure (f t))
      (Rule.quotedString >>= fun t => pure (f t)) :=
  (S.quotedString.mono (Nat.zero_le n)).bind fun _ => .pure _

/-- The place is moved on only by the truth values that stand there. -/
theorem boolean?_bind {f : Option Bool → Rule β} :
    (Rule.boolean? >>= f) =
      Rule.eatKeyword .true >>= fun eaten =>
        if eaten = true then f (some true)
        else Rule.eatKeyword .false >>= fun eaten =>
          if eaten = true then f (some false) else f none := by
  simp only [Rule.boolean?, bind_assoc]
  congr 1
  funext eaten
  cases eaten with
  | true => simp
  | false =>
    simp only [Bool.false_eq_true, if_false, bind_assoc]
    congr 1
    funext eaten
    cases eaten <;> simp

theorem scalar : Agree S.Error n S.Before S.Behind Rule.scalar Rule.scalar := by
  rw [Rule.scalar]
  refine Agree.get_bind fun s s' hs => ?_
  rw [← S.atInteger hs, ← S.peek? hs]
  refine S.ite_eatKeyword _ (S.dateLiteral hs) (S.ite_eatKeyword _ (S.timestampLiteral hs) ?_)
  refine .ite .rfl (fun _ => S.integer_bind) fun _ => .ite .rfl (fun _ => S.quotedString_bind) ?_
  intro _
  rw [boolean?_bind]
  exact S.ite_eatKeyword _ (.pure _) (S.ite_eatKeyword _ (.pure _) (S.unexpected_before _))

theorem listElement : Agree S.Error n S.Before S.Behind Rule.listElement Rule.listElement := by
  rw [Rule.listElement]
  refine Agree.get_bind fun s s' hs => ?_
  rw [← S.atInteger hs, ← S.peek? hs, ← S.isSome_eatKeyword? hs]
  refine .ite .rfl (fun _ => S.integer_bind) fun _ => .ite .rfl (fun _ => S.quotedString_bind) ?_
  intro _
  cases Rule.scalarKeywords.find? fun k => (s.eatKeyword? k).isSome with
  | none => exact S.unexpected_before _
  | some k => exact S.failSince (fun _ _ => .inl) (.inl hs) rfl

theorem listContinuation :
    Agree S.Error n S.Behind S.Behind Rule.listContinuation Rule.listContinuation := by
  rw [Rule.listContinuation]
  refine S.skipBlanks_agree.bind fun _ => S.ite_eat (by decide) ?_
    (S.ite_eat (by decide) (.pure _) (S.unexpected_before _))
  exact S.skipBlanks_agree.bind fun _ => S.listElement.bind fun _ => .pure _

theorem listLiteral : Agree S.Error n S.Before S.Behind Rule.listLiteral Rule.listLiteral := by
  rw [Rule.listLiteral]
  refine (S.symbol (by decide)).bind fun _ => S.skipBlanks_agree.bind fun _ =>
    S.ite_eat (by decide) (.pure _) (S.listElement.bind fun _ => ?_)
  have hmany := Agree.many Rule.listContinuation_shrinks Rule.listContinuation_shrinks
    (fun _ _ => S.dotted_behind) (S.listContinuation (n := n))
  exact hmany.bind fun _ => .pure _

theorem literal : Agree S.Error n S.Before S.Behind Rule.literal Rule.literal := by
  rw [Rule.literal]
  refine Agree.get_bind fun s s' hs => ?_
  rw [← S.peek? hs]
  exact .ite .rfl (fun _ => S.listLiteral.bind fun _ => .pure _) fun _ => S.scalar

/-! ## Leaves -/

/-- The first symbol that stands on one text is the first on the other. -/
theorem findSome?_symbols (h : S.Before c c') {ys : List (String × Operator)}
    (hys : ∀ y ∈ ys, IsSymbol y.1) :
    Option.Rel (fun p p' => p.1 = p'.1 ∧ S.Behind p.2 p'.2)
      (ys.findSome? fun (s, op) => (c.eat? s).map fun e => (op, e))
      (ys.findSome? fun (s, op) => (c'.eat? s).map fun e => (op, e)) := by
  induction ys with
  | nil => exact .none
  | cons y ys ih =>
    simp only [List.findSome?_cons]
    rcases rel_cases (S.eat? (hys y (by simp)) h) with ⟨hx, hx'⟩ | ⟨d, d', hx, hx', hd⟩
    · rw [hx, hx']
      exact ih fun z hz => hys z (List.mem_cons_of_mem y hz)
    · rw [hx, hx']
      exact .some ⟨rfl, hd⟩

theorem symbolOperator :
    Agree S.Error n S.Behind S.Behind Rule.symbolOperator Rule.symbolOperator := by
  intro c c' h
  have hb := S.skipBlanks h
  have hsymbols : ∀ y ∈ Operator.symbols, IsSymbol y.1 := by decide
  have hrel := S.findSome?_symbols hb hsymbols
  rw [Rule.symbolOperator, Rule.symbolOperator]
  simp only
  revert hrel
  generalize Operator.symbols.findSome? _ = x, Operator.symbols.findSome? _ = x'
  intro hrel
  cases hrel with
  | none => exact .error (S.errorSince rfl (.inl hb) (.inl hb)) rfl (Nat.zero_le n)
  | @some p p' hp =>
    obtain ⟨op, d⟩ := p
    obtain ⟨rfl, hd⟩ := hp
    exact .ok hd

theorem comparison (field : String) :
    Agree S.Error n S.Behind S.Behind (Rule.comparison field) (Rule.comparison field) := by
  have hoperator :
      Agree S.Error n S.Behind S.Behind Rule.comparisonOperator Rule.comparisonOperator :=
    S.ite_eatSpacedKeyword _ (.pure _) (S.ite_eatSpacedKeyword _ (.pure _) S.symbolOperator)
  exact hoperator.bind fun _ => S.skipBlanks_agree.bind fun _ => S.scalar.bind fun _ => .pure _

theorem leaf : Agree S.Error n S.Before S.Behind Rule.leaf Rule.leaf := by
  have hmembers : Agree S.Error n S.Behind S.Behind Rule.members Rule.members :=
    S.skipBlanks_agree.bind fun _ => S.listLiteral
  rw [Rule.leaf_eq]
  refine S.identifier_bind fun field => ?_
  exact S.ite_eatSpacedKeyword _ (.pure _) (S.ite_eatSpacedKeyword _ (.pure _)
    (S.ite_eatSpacedKeyword _ (hmembers.bind fun _ => .pure _)
      (S.ite_eatSpacedKeyword _ (hmembers.bind fun _ => .pure _) (S.comparison field))))

theorem leafNamedNot (h : S.Before start start') (dialect : String) :
    Agree S.Error n S.Before S.Behind (Rule.leafNamedNot start dialect)
      (Rule.leafNamedNot start' dialect) := by
  intro c c' hc
  have hleaf := S.leaf (n := n) h
  rw [Rule.leafNamedNot, Rule.leafNamedNot]
  cases hx : Rule.leaf start with
  | ok p =>
    obtain ⟨l, d⟩ := p
    rw [hx] at hleaf
    obtain ⟨d', hd', hb⟩ := hleaf.of_ok
    rw [hd']
    exact .ok hb
  | error r =>
    rw [hx] at hleaf
    obtain ⟨r', hr', -, hu, hn⟩ := hleaf.of_error
    rw [hr']
    exact .error (S.errorSince rfl (.inl h) (.inl hc)) hu hn

/-! ## Conditions and chains -/

section Chains

variable {d : Dialect}

section Groups

variable {group group' : Bool → Rule Condition}

theorem negated (hgroup : ∀ b, Agree S.Error n S.Before S.Behind (group b) (group' b))
    (h : S.Before start start') :
    Agree S.Error n S.Behind S.Behind (Rule.negated d group start)
      (Rule.negated d group' start') := by
  rw [Rule.negated, Rule.negated]
  refine S.skipBlanks_agree.bind fun _ => Agree.get_bind fun s s' hs => ?_
  rw [← S.peek? hs]
  refine .ite .rfl (fun _ => .ite .rfl (fun _ => ?_) fun _ => ?_) fun _ =>
    .ite .rfl (fun _ => ?_) fun _ => ?_
  · exact (hgroup true).bind fun _ => .pure _
  · exact S.failSince (fun _ _ => .inl) (.inl h) rfl
  · exact S.leaf.bind fun _ => .pure _
  · exact (S.leafNamedNot h d.name).bind fun _ => .pure _

theorem plain (hgroup : ∀ b, Agree S.Error n S.Before S.Behind (group b) (group' b)) :
    Agree S.Error n S.Before S.Behind (Rule.plain d group) (Rule.plain d group') := by
  rw [Rule.plain, Rule.plain]
  refine Agree.get_bind fun s s' hs => ?_
  rw [← S.peek? hs]
  refine .ite .rfl (fun _ => .ite .rfl (fun _ => ?_) fun _ => ?_) fun _ => ?_
  · exact (hgroup false).bind fun _ => .pure _
  · exact Agree.get_bind fun t t' ht => S.failSince (fun _ _ => .inl) (.inl ht) rfl
  · exact S.leaf.bind fun _ => .pure _

theorem condition (hgroup : ∀ b, Agree S.Error n S.Before S.Behind (group b) (group' b)) :
    Agree S.Error n S.Before S.Behind (Rule.condition d group) (Rule.condition d group') := by
  rw [Rule.condition, Rule.condition, Rule.eatNegation]
  refine Agree.get_bind fun s s' hs => ?_
  cases d.leafNegation || d.groupNegation with
  | true => exact S.ite_eatKeyword _ (S.negated hgroup hs) (S.plain hgroup)
  | false => exact S.plain hgroup

end Groups

theorem nextLink {rule rule' : Rule (Bool × Condition)}
    (hrule : Agree S.Error n S.Before S.Behind rule rule') :
    Agree S.Error n S.Behind S.Behind (Rule.nextLink rule) (Rule.nextLink rule') := by
  have hconjunction : Agree S.Error n S.Behind S.Behind Rule.conjunction? Rule.conjunction? :=
    S.ite_eatSpacedKeyword _ (.pure _) (S.ite_eatSpacedKeyword _ (.pure _) (.pure _))
  refine hconjunction.bind fun j? => ?_
  cases j? with
  | none => exact .pure _
  | some j => exact S.skipBlanks_agree.bind fun _ => hrule.bind fun _ => .pure _

theorem links {rule rule' : Rule (Bool × Condition)}
    (hshrinks : Rule.Shrinks S.dotted (Rule.nextLink rule))
    (hshrinks' : Rule.Shrinks S.dotted (Rule.nextLink rule'))
    (hrule : Agree S.Error n S.Before S.Behind rule rule') :
    Agree S.Error n S.Before S.Behind (Rule.links rule) (Rule.links rule') := by
  have hmany := Agree.many hshrinks hshrinks' (fun _ _ => S.dotted_behind) (S.nextLink hrule)
  exact hrule.bind fun _ => hmany.bind fun _ => .pure _

/-- A group counts as open from its parenthesis on. -/
theorem group {body body' : Rule Chain} (hbody : Agree S.Error n S.Before S.Behind body body')
    (b : Bool) :
    Agree S.Error (n + 1) S.Before S.Behind (Rule.group body b) (Rule.group body' b) := by
  have hgroup : Agree S.Error n S.Before S.Behind (Rule.groupBody body) (Rule.groupBody body') :=
    (S.symbol (by decide)).bind fun _ => S.skipBlanks_agree.bind fun _ => hbody.bind fun _ =>
      S.skipBlanks_agree.bind fun _ => S.ite_eat (by decide) (.pure _) (S.unexpected_before _)
  exact hgroup.opened.bind fun _ => .pure _

theorem tooDeep : Agree S.Error n S.Before S.Behind (Rule.tooDeep S.limit)
    (Rule.tooDeep S.limit') :=
  fun _ _ h => .error (S.errorDepth h) rfl (Nat.zero_le n)

theorem chain (hd : d.dottedNames = S.dotted) (levels : Nat) :
    Agree S.Error levels S.Before S.Behind (Rule.chain d S.limit levels)
      (Rule.chain d S.limit' levels) := by
  induction levels with
  | zero =>
    exact S.links (hd ▸ Rule.nextLink_shrinks (n := 0) Rule.condition_tooDeep_sound)
      (hd ▸ Rule.nextLink_shrinks (n := 0) Rule.condition_tooDeep_sound)
      (S.condition fun _ => S.tooDeep)
  | succ n ih =>
    have hshrinks (limit : Nat) : Rule.Shrinks S.dotted (Rule.nextLink
        (Rule.condition d (Rule.group (Rule.chain d limit n)))) :=
      hd ▸ Rule.nextLink_shrinks (Rule.condition_sound (Rule.group_sound Rule.chain_sound))
    exact S.links (hshrinks S.limit) (hshrinks S.limit') (S.condition (S.group ih))

end Chains

/-! ## Clauses -/

theorem fields : Agree S.Error n S.Before S.Behind Rule.fields Rule.fields := by
  have hnext : Agree S.Error n S.Behind S.Behind Rule.nextField Rule.nextField := by
    rw [Rule.nextField]
    refine Agree.get_bind fun s s' hs => S.skipBlanks_agree.bind fun _ =>
      S.ite_eat (by decide) ?_ ?_
    · exact S.skipBlanks_agree.bind fun _ => S.identifier_bind fun _ => .pure _
    · exact Agree.set_bind hs (.pure _)
  have hmany := Agree.many Rule.nextField_shrinks Rule.nextField_shrinks
    (fun _ _ => S.dotted_behind) hnext
  exact S.identifier_bind fun _ => hmany.bind fun _ => .pure _

theorem orderBy : Agree S.Error n S.Before S.Behind Rule.orderBy Rule.orderBy := by
  have hdirection : Agree S.Error n S.Behind S.Behind Rule.direction Rule.direction :=
    S.ite_eatSpacedKeyword _ (.pure _) (S.ite_eatSpacedKeyword _ (.pure _)
      (S.unexpected (fun _ _ => .inr) _))
  exact S.identifier_bind fun _ => hdirection.bind fun _ => .pure _

theorem keyword (k : Keyword) :
    Agree S.Error n S.Before S.Behind (Rule.keyword k) (Rule.keyword k) := by
  intro c c' h
  rw [Rule.keyword, Rule.keyword]
  rcases rel_cases (S.eatKeyword? k h) with ⟨hx, hx'⟩ | ⟨d, d', hx, hx', hd⟩
  · rw [hx, hx']
    exact S.unexpected_before _ h
  · rw [hx, hx']
    exact .ok hd

/-- Behind a keyword, one text may end before required blanks and the other one behind them. Both
are refused there. -/
theorem blanks_bind {f f' : Rule β} (hf : Agree S.Error n S.Before S.Behind f f')
    (hend : RefusesEnd f) (hend' : RefusesEnd f') :
    Agree S.Error n S.Behind S.Behind (Rule.blanks >>= fun _ => f)
      (Rule.blanks >>= fun _ => f') := by
  intro c c' h
  rcases S.blanks h with hm | ⟨hc, hc', herror⟩
  · exact (hm.mono (Nat.zero_le n)).bind fun _ => hf
  · obtain ⟨e, what, hx⟩ := hend.blanks_bind hc
    obtain ⟨e', what', hx'⟩ := hend'.blanks_bind hc'
    rw [hx, hx']
    exact .error (herror e e' what what') rfl (Nat.zero_le n)

theorem clause? {k : Keyword} {body body' : Rule α}
    (hbody : Agree S.Error n S.Before S.Behind body body') (hend : RefusesEnd body)
    (hend' : RefusesEnd body') :
    Agree S.Error n S.Behind S.Behind (Rule.clause? k body) (Rule.clause? k body') := by
  rw [Rule.clause?, Rule.clause?]
  refine S.ite_eatSpacedKeyword k ?_ (.pure _)
  exact S.blanks_bind (hbody.bind fun _ => .pure _) (hend.bind _) (hend'.bind _)

theorem eatDistinct_bind {f : Bool → Rule β} :
    (Rule.eatDistinct >>= f) = Rule.eatKeyword .distinct >>= fun eaten =>
      if eaten = true then Rule.blanks >>= fun _ => f true else f false := by
  simp only [Rule.eatDistinct, bind_assoc]
  congr 1
  funext eaten
  cases eaten <;> simp

theorem head : Agree S.Error n S.Before S.Behind Rule.head Rule.head := by
  have hfields (distinct : Bool) : RefusesEnd
      (Rule.fields >>= fun fs => (pure (distinct, fs) : Rule (Bool × List String))) :=
    (Rule.identifier_refusesEnd.bind _).bind _
  have hanswer (distinct : Bool) : Agree S.Error n S.Before S.Behind
      (Rule.fields >>= fun fs => (pure (distinct, fs) : Rule (Bool × List String)))
      (Rule.fields >>= fun fs => pure (distinct, fs)) :=
    S.fields.bind fun _ => .pure _
  have hend : RefusesEnd (Rule.eatDistinct >>= fun distinct =>
      Rule.fields >>= fun fs => (pure (distinct, fs) : Rule (Bool × List String))) := by
    intro c hc
    rw [eatDistinct_bind, Rule.eatKeyword, Rule.attempt_bind, Rule.eatKeyword?_of_end hc]
    exact hfields false hc
  refine (S.keyword .select).bind fun _ => S.blanks_bind ?_ hend hend
  rw [eatDistinct_bind]
  exact S.ite_eatKeyword _ (S.blanks_bind (hanswer true) (hfields true) (hfields true))
    (hanswer false)

theorem noClauseLeft :
    Agree S.Error n S.Behind S.Behind Rule.noClauseLeft Rule.noClauseLeft := by
  intro c c' h
  have hb := S.skipBlanks h
  rw [Rule.noClauseLeft, Rule.noClauseLeft]
  simp only [← S.isSome_eatKeyword? hb]
  cases Rule.clauseKeywords.find? fun k => (c.skipBlanks.eatKeyword? k).isSome with
  | none => exact .ok h
  | some k => exact .error (S.errorSince rfl (.inl hb) (.inl hb)) rfl (Nat.zero_le n)

theorem clauseSet {chain chain' : Rule Chain}
    (hchain : Agree S.Error n S.Before S.Behind chain chain') (hend : RefusesEnd chain)
    (hend' : RefusesEnd chain') :
    Agree S.Error n S.Before S.Behind (Rule.clauseSet chain) (Rule.clauseSet chain') := by
  have hidentifier {β : Type} (f : String → Rule β) : RefusesEnd (Rule.identifier >>= f) :=
    Rule.identifier_refusesEnd.bind f
  rw [Rule.clauseSet_eq, Rule.clauseSet_eq]
  exact S.head.bind fun _ => (S.clause? hchain hend hend').bind fun _ =>
    (S.clause? S.fields (hidentifier _) (hidentifier _)).bind fun _ =>
    (S.clause? S.orderBy (hidentifier _) (hidentifier _)).bind fun _ =>
    (S.clause? S.count Rule.count_refusesEnd Rule.count_refusesEnd).bind fun _ =>
    (S.clause? S.count Rule.count_refusesEnd Rule.count_refusesEnd).bind fun _ =>
    S.noClauseLeft.bind fun _ => .pure _

/-! ## Whole texts -/

theorem atEnd_eq_isNone (c : Cursor) : c.atEnd = c.peek?.isNone := by
  rw [Cursor.atEnd, Cursor.peek?]
  cases c.rest <;> rfl

theorem finish : Agree S.Error n S.Behind S.Before Rule.finish Rule.finish := by
  intro c c' h
  have hb := S.skipBlanks h
  have hend : c.skipBlanks.atEnd = c'.skipBlanks.atEnd := by
    rw [atEnd_eq_isNone, atEnd_eq_isNone, S.peek? hb]
  rw [Rule.finish, Rule.finish]
  simp only [← hend]
  split
  · exact .ok hb
  · have hclose : IsSymbol ")" := by decide
    rcases rel_cases (S.eat? hclose hb) with ⟨hx, hx'⟩ | ⟨d, d', hx, hx', hd⟩
    · rw [hx, hx']
      exact .error (S.errorTrailing hb) rfl (Nat.zero_le n)
    · rw [hx, hx']
      exact .error (S.errorSince rfl (.inl hb) (.inr hd)) rfl (Nat.zero_le n)

theorem whole {rule rule' : Rule α} (hrule : Agree S.Error n S.Before S.Behind rule rule')
    (h : S.Before c.skipBlanks c'.skipBlanks) :
    Matches S.Error n S.Before (Rule.whole rule c) (Rule.whole rule' c') := by
  rw [Rule.whole, Rule.whole, Rule.skipBlanks_bind, Rule.skipBlanks_bind]
  exact (hrule h).bind fun _ => S.finish.bind fun _ => .pure _

/-- Calls of two parsers agree that read their texts in one dialect and have the same nesting
left. -/
theorem rule (p q : Parser) (hd : p.dialect = q.dialect) (hp : p.maxDepth = S.limit)
    (hq : q.maxDepth = S.limit') (hlevels : p.levels = q.levels)
    (hdotted : p.dialect.dottedNames = S.dotted) (k : Call) :
    Agree S.Error p.levels S.Before S.Behind (p.rule k) (q.rule k) := by
  have hchain : Agree S.Error p.levels S.Before S.Behind p.chainRule q.chainRule := by
    rw [Parser.chainRule, Parser.chainRule, ← hd, ← hlevels, hp, hq]
    exact S.chain hdotted p.levels
  cases k with
  | chain => exact hchain
  | clauseSet => exact S.clauseSet hchain (Rule.chain_refusesEnd _) (Rule.chain_refusesEnd _)
  | literal => exact S.literal

end Simulation

/-- Runs of rules whose outcomes match answer the same, or fail with related errors. -/
theorem Parser.run_cases {α : Type} {E : ParseError → ParseError → Prop} {n : Nat}
    {Q : Cursor → Cursor → Prop} {p q : Parser} {rule rule' : Rule α}
    (h : Rule.Matches E n Q (rule p.cursor) (rule' q.cursor)) :
    (∃ a, (p.run rule).1 = .ok a ∧ (q.run rule').1 = .ok a) ∨
      ∃ e e', (p.run rule).1 = .error e ∧ (q.run rule').1 = .error e' ∧ E e e' := by
  rw [run, run]
  generalize rule p.cursor = x, rule' q.cursor = x' at h
  cases h with
  | ok _ => exact .inl ⟨_, rfl, rfl⟩
  | error he _ _ => exact .inr ⟨_, _, rfl, rfl, he⟩

end FilterQuery
