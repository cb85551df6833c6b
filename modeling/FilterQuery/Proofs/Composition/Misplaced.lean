import FilterQuery.Proofs.Composition.Clauses
import FilterQuery.Proofs.Reading.WordEnds
import FilterQuery.Proofs.Refusal.Calls

/-!
What a misplaced clause tells of the text before it. The turn of a kind passes by a keyword only
where blanks are missing behind a word or a string, and the keyword that is left is looked for
without regard to blanks. A word never goes on into the keyword, but a string may end right before
it: there a clause is called misplaced although its turn, with blanks, would have come.
-/

namespace FilterQuery

namespace Cursor

variable {c d : Cursor} {k : Keyword} {s : List Char}

/-- A string ends right before the place. -/
def BehindQuote (c : Cursor) : Prop :=
  c.past.head? = some '\''

theorem behindQuote_skipBlanks_iff :
    c.skipBlanks.BehindQuote ↔ c.peek?.any isBlank = false ∧ c.BehindQuote := by
  obtain ⟨w, hw, hp, hn⟩ := c.skipBlanks_passes
  cases w with
  | nil =>
    rw [hp.eq_of_nil] at hn ⊢
    simp [hn]
  | cons x w =>
    have hx : c.peek?.any isBlank = true := by
      rw [hp.peek? (by simp)]
      exact hw x (by simp)
    have hne : ¬ c.skipBlanks.BehindQuote := by
      intro hq
      rw [BehindQuote, hp.head?_past (by simp)] at hq
      cases hw _ (List.mem_of_getLast? hq)
    simp [hx, hne]

theorem Passes.not_behindQuote {p : Char → Bool} (h : c.Passes s d)
    (hs : s.getLast?.any p = true) (hp : p '\'' = false) : ¬ d.BehindQuote := by
  intro hq
  obtain ⟨x, hx, hpx⟩ := (Option.any_eq_true _ _).1 hs
  have hn : s ≠ [] := by
    rintro rfl
    cases hx
  rw [BehindQuote, h.head?_past hn, hx] at hq
  cases hq
  rw [hp] at hpx
  cases hpx

/-- A keyword that is passed by stands right behind a string. -/
theorem BetweenWords.behindQuote (hc : c.BetweenWords) (hd : c.skipBlanks.eatKeyword? k = some d)
    (hn : c.eatSpacedKeyword? k = none) : c.skipBlanks.BehindQuote := by
  have hdeclined : ¬ (c.peek?.any isBlank = false → c.afterWord = false) := by
    intro hspaced
    rw [eatSpacedKeyword?_eq_some_iff.2 ⟨hspaced, hd⟩] at hn
    cases hn
  obtain ⟨hblank, hafter⟩ := Classical.not_imp.1 hdeclined
  rw [Bool.not_eq_false, afterWord] at hafter
  obtain ⟨x, hx, hxw⟩ := (Option.any_eq_true _ _).1 hafter
  refine behindQuote_skipBlanks_iff.2 ⟨hblank, ?_⟩
  simp only [Bool.or_eq_true, beq_iff_eq] at hxw
  rcases hxw with hword | rfl
  · -- A word would go on into the keyword.
    have hnext : c.peek?.any isWordChar = false := hc (by rw [hx]; exact hword)
    rw [(Passes.refl c).skipBlanks .nil hblank] at hd
    obtain ⟨y, hy, hstart⟩ := (Option.any_eq_true _ _).1 (wordStart_of_eatKeyword? hd)
    rw [hy, Option.any_some, isWordChar_of_isWordStart hstart] at hnext
    cases hnext
  · exact hx

end Cursor

/-- A head ends in a field. -/
theorem HeadLayout.getLast? {dotted distinct : Bool} {s : List Char} {fs : List String}
    (h : HeadLayout dotted s distinct fs) : s.getLast?.any (continuesName dotted) = true := by
  have key {s : List Char} (hs : FieldsLayout dotted s fs) (t : List Char) :
      (t ++ s).getLast?.any (continuesName dotted) = true := by
    obtain ⟨x, hx, hn⟩ := (Option.any_eq_true _ _).1 hs.getLast?
    simp [List.getLast?_append, hx, hn]
  cases h with
  | all _ _ hs _ => exact key hs _
  | distinct _ _ _ _ hs =>
    rw [← List.append_assoc]
    exact key hs _

theorem continuesName_quote (dotted : Bool) : continuesName dotted '\'' = false := by
  cases dotted <;> rfl

/-! ## The turns -/

namespace ClauseKind

variable {c d : Cursor} {chain : Rule Chain} {k : ClauseKind} {b : k.Body}

theorem rule_leads (hchain : Rule.Leads (fun _ => True) Cursor.BetweenWords chain)
    (k : ClauseKind) : Rule.Leads (fun _ => True) Cursor.BetweenWords (k.rule chain) := by
  cases k with
  | where_ => exact hchain
  | groupBy => exact Rule.fields_leads
  | orderBy => exact Rule.orderBy_leads
  | offset | limit => exact Rule.count_leads

/-- Conditions only can end in a string. -/
theorem not_behindQuote_of_rule (hk : k ≠ .where_) (h : k.rule chain c = .ok (b, d)) :
    ¬ d.BehindQuote := by
  cases k with
  | where_ => exact absurd rfl hk
  | groupBy =>
    obtain ⟨s, hp, hs⟩ := Rule.fields_sound rfl h
    exact hp.not_behindQuote (FieldsLayout.getLast? hs) (continuesName_quote _)
  | orderBy =>
    obtain ⟨s, hp, hs⟩ := Rule.orderBy_sound rfl h
    exact hp.not_behindQuote hs.getLast? rfl
  | offset | limit =>
    obtain ⟨s, hp, hs⟩ := Rule.count_sound (Eq.refl c.dotted) h
    exact hp.not_behindQuote (hs.getLast? hs.ne_nil) rfl

end ClauseKind

/-- The turns of some kinds, one after the other, and the clauses that are read at them. -/
inductive Turns (chain : Rule Chain) : List ClauseKind → Cursor → List Clause → Cursor → Prop
  | done {c : Cursor} : Turns chain [] c [] c
  | absent {k : ClauseKind} {ks : List ClauseKind} {c e : Cursor} {xs : List Clause} :
    c.eatSpacedKeyword? k.keyword = none → Turns chain ks c xs e → Turns chain (k :: ks) c xs e
  | present {k : ClauseKind} {ks : List ClauseKind} {c d e : Cursor} {b : k.Body}
      {xs : List Clause} :
    Rule.clause? k.keyword (k.rule chain) c = .ok (some b, d) → Turns chain ks d xs e →
      Turns chain (k :: ks) c (⟨k, b⟩ :: xs) e

namespace Turns

variable {chain : Rule Chain} {k : ClauseKind} {ks : List ClauseKind} {c d e f : Cursor}
  {xs : List Clause}

theorem cons {b? : Option k.Body} (h : Rule.clause? k.keyword (k.rule chain) c = .ok (b?, d))
    (hturns : Turns chain ks d xs e) :
    Turns chain (k :: ks) c ((b?.map (Clause.mk k)).toList ++ xs) e := by
  cases b? with
  | some b => exact .present h hturns
  | none =>
    rcases Rule.clause?_eq_ok_iff.1 h with ⟨_, _, _, _, _, _, ⟨⟩⟩ | ⟨hn, -, rfl⟩
    exact .absent hn hturns

theorem eq_of_nil (h : Turns chain ks c xs e) (hxs : xs = []) : c = e := by
  induction h with
  | done => rfl
  | absent _ _ ih => exact ih hxs
  | present => cases hxs

theorem kind_mem (h : Turns chain ks c xs e) : ∀ x ∈ xs, x.kind ∈ ks := by
  induction h with
  | done => exact nofun
  | absent _ _ ih => exact fun x hx => List.mem_cons_of_mem _ (ih x hx)
  | present _ _ ih =>
    intro x hx
    rcases List.mem_cons.1 hx with rfl | hx
    · exact List.mem_cons_self
    · exact List.mem_cons_of_mem _ (ih x hx)

theorem betweenWords (hchain : Rule.Leads (fun _ => True) Cursor.BetweenWords chain)
    (h : Turns chain ks c xs e) (hc : c.BetweenWords) : e.BetweenWords := by
  induction h with
  | done => exact hc
  | absent _ _ ih => exact ih hc
  | present hread _ ih =>
    exact ih (Rule.clause?_leads (ClauseKind.rule_leads hchain _) hc hread)

/-- Where all clauses are of earlier kinds, none has been read since the turn of the kind. -/
theorem eatSpacedKeyword?_eq_none (h : Turns chain ks c xs e)
    (hks : ks.Pairwise fun j k => j.rank < k.rank) (hk : k ∈ ks)
    (hxs : ∀ x ∈ xs, x.kind.rank < k.rank) : e.eatSpacedKeyword? k.keyword = none := by
  induction h with
  | done => cases hk
  | absent hn hturns ih =>
    obtain ⟨hlt, hks⟩ := List.pairwise_cons.1 hks
    rcases List.mem_cons.1 hk with rfl | hk
    · -- What has been read since is of later kinds.
      have hnil := List.eq_nil_iff_forall_not_mem.2 fun x hx =>
        Nat.lt_asymm (hxs x hx) (hlt _ (hturns.kind_mem x hx))
      rwa [← hturns.eq_of_nil hnil]
    · exact ih hks hk hxs
  | present _ _ ih =>
    rcases List.mem_cons.1 hk with rfl | hk
    · exact absurd (hxs _ List.mem_cons_self) (Nat.lt_irrefl _)
    · exact ih (List.pairwise_cons.1 hks).2 hk fun x hx => hxs x (List.mem_cons_of_mem _ hx)

/-- Behind a string, none of the kinds that hold no conditions has been read. -/
theorem nil_of_behindQuote (h : Turns chain ks c xs e) (hks : .where_ ∉ ks)
    (he : e.BehindQuote) : xs = [] := by
  induction h with
  | done => rfl
  | absent _ _ ih => exact ih (fun hk => hks (List.mem_cons_of_mem _ hk)) he
  | present hread hturns ih =>
    have hnil := ih (fun hk => hks (List.mem_cons_of_mem _ hk)) he
    obtain rfl := hturns.eq_of_nil hnil
    rcases Rule.clause?_eq_ok_iff.1 hread with ⟨_, _, _, _, _, hbody, ⟨⟩⟩ | ⟨_, ⟨⟩, _⟩
    refine absurd he (ClauseKind.not_behindQuote_of_rule ?_ hbody)
    rintro rfl
    exact hks List.mem_cons_self

theorem where_of_behindQuote (h : Turns chain ClauseKind.all c xs e) (he : e.BehindQuote) :
    ∀ x ∈ xs, x.kind = .where_ := by
  cases h with
  | absent _ hturns =>
    rw [hturns.nil_of_behindQuote (by decide) he]
    exact nofun
  | present _ hturns =>
    rw [hturns.nil_of_behindQuote (by decide) he]
    simp

/-- A keyword that is left behind all turns is that of a clause which comes too late, unless it
stands right behind a string. There it comes too late only if it begins conditions. -/
theorem late_iff (hchain : Rule.Leads (fun _ => True) Cursor.BetweenWords chain)
    (h : Turns chain ClauseKind.all c xs e) (hc : c.BetweenWords) (hquote : ¬ c.BehindQuote)
    (hf : e.skipBlanks.eatKeyword? k.keyword = some f) :
    (∃ x ∈ xs, k.rank ≤ x.kind.rank) ↔ (e.skipBlanks.BehindQuote → k = .where_) := by
  constructor
  · rintro ⟨x, hx, hle⟩ hq
    rw [h.where_of_behindQuote (Cursor.behindQuote_skipBlanks_iff.1 hq).2 x hx] at hle
    cases k with
    | where_ => rfl
    | groupBy | orderBy | offset | limit => cases hle
  · intro hwhere
    refine Classical.byContradiction fun hearly => ?_
    have hxs : ∀ x ∈ xs, x.kind.rank < k.rank :=
      fun x hx => Nat.lt_of_not_le fun hle => hearly ⟨x, hx, hle⟩
    have hnone := h.eatSpacedKeyword?_eq_none Clause.Coming.all.sorted k.mem_all hxs
    have hq := (h.betweenWords hchain hc).behindQuote hf hnone
    obtain rfl := hwhere hq
    have hnil := List.eq_nil_iff_forall_not_mem.2 fun x hx => Nat.not_lt_zero _ (hxs x hx)
    rw [← h.eq_of_nil hnil] at hq
    exact hquote (Cursor.behindQuote_skipBlanks_iff.1 hq).2

end Turns

/-! ## Refusals behind all turns -/

namespace Rule

variable {dialect : Dialect} {limit n : Nat} {c d e : Cursor} {r : Refusal} {k : Keyword}

/-- What is left over is not refused in a clause, so that the clause has been read. -/
theorem clause?_bind_of_leftover {α β : Type} {dotted : Bool} {body : Rule α}
    {Body : List Char → α → Prop} {before : List Char} {f : Option α → Rule β}
    (hbody : Timely dotted body Body) (hsample : Begins Body []) (hc : c.dotted = dotted)
    (hbefore : Precedes c before d) (hr : r.error.cause.isLeftover = true)
    (h : (clause? k body >>= f) d = .error r) :
    ∃ a? e, clause? k body d = .ok (a?, e) ∧ f a? e = .error r := by
  rcases bind_eq_error_iff.1 h with h | h
  · obtain ⟨s, x, a, ⟨p, -, hbreak⟩, -⟩ := clause?_breaksBehind hbody hsample hc hbefore h
    rw [hbreak.within] at hr
    cases hr
  · exact h

/-- What is left over stands behind the turns of all kinds, which make up a clause set with the
head before them. -/
theorem clauseSet_of_leftover (hc : c.dotted = dialect.dottedNames)
    (hr : r.error.cause.isLeftover = true)
    (h : clauseSet (chain dialect limit n) c = .error r) :
    ∃ d e t s, d.BetweenWords ∧ ¬ d.BehindQuote ∧
      Turns (chain dialect limit n) ClauseKind.all d s.clauses e ∧ c.Passes t e ∧
      ClauseSetLayout dialect n t s ∧ noClauseLeft e = .error r := by
  rw [clauseSet_eq, bind_eq_error_iff] at h
  rcases h with h | ⟨⟨distinct, fs⟩, d, hhead, h⟩
  · obtain ⟨s, ⟨p, -, hbreak⟩, -⟩ := head_timely hc h
    rw [hbreak.within] at hr
    cases hr
  obtain ⟨t, hp, hlay, hend⟩ := head_sound hhead
  have h₀ : Precedes c t d := ⟨hp, hlay.starts.ne_nil, .inr hend⟩
  obtain ⟨w?, c₁, r₁, h⟩ :=
    clause?_bind_of_leftover chain_timely (.chain dialect n) hc h₀ hr h
  obtain ⟨w, h₁, hw⟩ := where?_sound hc h₀ r₁
  obtain ⟨g?, c₂, r₂, h⟩ := clause?_bind_of_leftover fields_timely (.fields _) hc h₁ hr h
  obtain ⟨g, h₂, hg⟩ := groupBy?_sound hc h₁ r₂
  obtain ⟨o?, c₃, r₃, h⟩ := clause?_bind_of_leftover orderBy_timely (.order _) hc h₂ hr h
  obtain ⟨o, h₃, ho⟩ := orderBy?_sound hc h₂ r₃
  obtain ⟨f?, c₄, r₄, h⟩ := clause?_bind_of_leftover count_timely .count hc h₃ hr h
  obtain ⟨f, h₄, hf⟩ := count?_sound hc h₃ r₄
  obtain ⟨l?, e, r₅, h⟩ := clause?_bind_of_leftover count_timely .count hc h₄ hr h
  obtain ⟨l, h₅, hl⟩ := count?_sound hc h₄ r₅
  have hleft : noClauseLeft e = .error r := by
    rcases bind_eq_error_iff.1 h with h | ⟨_, _, _, h⟩
    · exact h
    · exact absurd h pure_ne_error
  let s : ClauseSet := ⟨fs, distinct, w?, g?.getD [], o?, f?, l?⟩
  have hgroup : s.groupBy? = g? := ClauseSet.groupBy?_of_getD rfl hg.ne_nil_of_fields
  have hturns : Turns (chain dialect limit n) ClauseKind.all d s.clauses e := by
    simp only [ClauseSet.clauses, ClauseKind.all, List.flatMap_cons, ClauseSet.part?, hgroup]
    exact .cons (k := .where_) r₁ <| .cons (k := .groupBy) r₂ <| .cons (k := .orderBy) r₃ <|
      .cons (k := .offset) r₄ <| .cons (k := .limit) r₅ .done
  exact ⟨d, e, _, s, hend.betweenWords, hp.not_behindQuote hlay.getLast? (continuesName_quote _),
    hturns, h₅.passes, .of_clauses (hc ▸ hlay) hw hg ho hf hl, hleft⟩

theorem eatKeyword?_of_misplaced (h : noClauseLeft c = .error r)
    (hk : r.error.cause = .misplacedClause k) : ∃ d, c.skipBlanks.eatKeyword? k = some d := by
  rw [noClauseLeft] at h
  split at h
  · next l hl =>
    cases h
    cases hk
    have hsome : (c.skipBlanks.eatKeyword? k).isSome = true := by simpa using List.find?_some hl
    exact Option.isSome_iff_exists.1 hsome
  · cases h

/-- No clause is called misplaced at the end of a text. -/
theorem of_whole_misplaced {α : Type} {rule : Rule α} (h : whole rule c = .error r)
    (hk : r.error.cause = .misplacedClause k) : rule c.skipBlanks = .error r := by
  rw [whole, skipBlanks_bind] at h
  rcases bind_eq_error_iff.1 h with h | ⟨a, d, -, h⟩
  · exact h
  · rcases bind_eq_error_iff.1 h with h | ⟨_, _, _, h⟩
    · rw [finish] at h
      simp only at h
      split at h
      · cases h
      · split at h <;> cases h <;> cases hk
    · exact absurd h pure_ne_error

end Rule

/-! ## The diagnosis -/

/-- Where a clause is called repeated or out of order, the text before it is accepted on its own. It
has a clause of the same kind or a later one, as the error says, exactly unless it ends in a quote
and the clause that is refused begins with another word than `WHERE`. -/
theorem parseClauseSet_misplaced (d : Dialect) (maxDepth : Nat) (text : String) (k : ClauseKind)
    (e : ParseError) (h : parseClauseSet d maxDepth text = .error e)
    (hcause : e.cause = .misplacedClause k.keyword) :
    e.message = k.keyword.text ++ " clause is repeated or out of order" ∧
      ∃ before after s, text = before ++ after ∧ before.utf8ByteSize = e.span.start ∧
        parseClauseSet d maxDepth before = .ok s ∧
        ((∃ x ∈ s.clauses, k.rank ≤ x.kind.rank) ↔
          (before.toList.getLast? = some '\'' → k = .where_)) := by
  refine ⟨by rw [ParseError.message, hcause]; rfl, ?_⟩
  have hd : d.clauses = true := by
    refine Classical.byContradiction fun hd => ?_
    have hrefused : parseClauseSet d maxDepth text =
        .error ((Cursor.ofString text d.dottedNames).errorHere (.clauses d.name)) :=
      congrArg Prod.fst (if_neg hd)
    rw [hrefused] at h
    cases h
    cases hcause
  rw [parseClauseSet_eq_run hd] at h
  obtain ⟨r, hr, rfl⟩ := Parser.run_eq_error_iff.1 h
  obtain ⟨v, hv, hvp, -⟩ := (Cursor.ofString text d.dottedNames).skipBlanks_passes
  obtain ⟨b, e, t, s, hb, hquote, hturns, hp, hlay, hleft⟩ := Rule.clauseSet_of_leftover
    hvp.dotted (by rw [hcause]; rfl) (Rule.of_whole_misplaced hr hcause)
  obtain ⟨w, hw, hwp, -⟩ := e.skipBlanks_passes
  have hbefore := (hvp.trans hp).trans hwp
  obtain ⟨htext, hsize⟩ := hbefore.ofString_parts
  obtain ⟨f, hf⟩ := Rule.eatKeyword?_of_misplaced hleft hcause
  refine ⟨_, _, s, htext, hsize.trans (Rule.noClauseLeft_located hleft).start.symm, ?_, ?_⟩
  · exact (parseClauseSet_eq_ok_iff d maxDepth _ s).2
      ⟨hd, v, t, w, String.toList_ofList, hv, hlay, hw⟩
  · rw [String.toList_ofList, ← hbefore.head?_past (by simp [hlay.starts.ne_nil])]
    exact hturns.late_iff (Rule.chain_leads d maxDepth maxDepth) hb hquote hf

/-- Behind a string, a second clause with conditions is called repeated. -/
theorem parseClauseSet_misplaced_where_behind_string :
    let e : ParseError := ⟨.misplacedClause .where_, ⟨23, 23⟩, "WHERE c = 1 LIMIT 5"⟩
    parseClauseSet .clause 0 "SELECT a WHERE b = 'é'WHERE c = 1 LIMIT 5" = .error e ∧
      e.cause = .misplacedClause ClauseKind.where_.keyword ∧
      ∃ before after s, "SELECT a WHERE b = 'é'WHERE c = 1 LIMIT 5" = before ++ after ∧
        before.utf8ByteSize = 23 ∧ parseClauseSet .clause 0 before = .ok s ∧
        ∃ x ∈ s.clauses, ClauseKind.where_.rank ≤ x.kind.rank := by
  intro e
  have h : parseClauseSet .clause 0 "SELECT a WHERE b = 'é'WHERE c = 1 LIMIT 5" = .error e := by rfl
  obtain ⟨-, before, after, s, htext, hsize, hs, hiff⟩ :=
    parseClauseSet_misplaced .clause 0 _ .where_ e h rfl
  exact ⟨h, rfl, before, after, s, htext, hsize, hs, hiff.2 fun _ => rfl⟩

/-- Behind a string, a clause is called repeated or out of order although only an earlier one has
been written. -/
theorem parseClauseSet_misplaced_first_behind_string :
    let e : ParseError := ⟨.misplacedClause .groupBy, ⟨22, 22⟩, "GROUP BY c"⟩
    let s : ClauseSet :=
      { fields := ["a"], whereClause := some [⟨none, false, .eq "b" (.text "x")⟩] }
    parseClauseSet .clause 0 "SELECT a WHERE b = 'x'GROUP BY c" = .error e ∧
      e.message = "GROUP BY clause is repeated or out of order" ∧
      "SELECT a WHERE b = 'x'GROUP BY c" = "SELECT a WHERE b = 'x'" ++ "GROUP BY c" ∧
      "SELECT a WHERE b = 'x'".utf8ByteSize = e.span.start ∧
      parseClauseSet .clause 0 "SELECT a WHERE b = 'x'" = .ok s ∧
      ¬ ∃ x ∈ s.clauses, ClauseKind.groupBy.rank ≤ x.kind.rank := by
  intro e s
  have h : parseClauseSet .clause 0 "SELECT a WHERE b = 'x'GROUP BY c" = .error e := by rfl
  have hs : parseClauseSet .clause 0 "SELECT a WHERE b = 'x'" = .ok s := by rfl
  refine ⟨h, by decide, by decide, by decide, hs, ?_⟩
  decide

end FilterQuery
