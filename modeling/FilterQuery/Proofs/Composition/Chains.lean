import FilterQuery.Proofs.Fold.Operands
import FilterQuery.Proofs.RoundTrip.Filter
import FilterQuery.Proofs.Simulation.Limits

/-!
Texts put together from accepted ones. Two chains joined by a conjunction are read as one chain, and
a chain in parentheses as one group, whatever stands in them: layouts are put together like the
texts, and what is accepted is what has a layout. So a text that is guarded by another one cannot
change how the guard applies.
-/

namespace FilterQuery

variable {d : Dialect} {m : Nat} {text : String} {c : Chain}

/-! ## Layouts -/

/-- The chain behind a conjunction. -/
def Chain.joinedBy (j : Conjunction) : Chain → Chain
  | [] => []
  | first :: rest => { first with conjunction := some j } :: rest

theorem Chain.depth_append (a b : Chain) :
    Chain.depth (a ++ b) = max (Chain.depth a) (Chain.depth b) := by
  induction a with
  | nil => simp [Chain.depth]
  | cons l a ih => rw [List.cons_append, depth_cons, depth_cons, ih, Nat.max_assoc]

theorem Chain.depth_joinedBy (j : Conjunction) (c : Chain) :
    Chain.depth (c.joinedBy j) = Chain.depth c := by
  cases c with
  | nil => rfl
  | cons l c => rw [joinedBy, depth_cons, depth_cons]

/-- Links that may stand behind any text stand behind other links too. -/
theorem LinksLayout.append {before s t : List Char} {ls ms : List Link}
    (h : LinksLayout d before s ls) (k : ∀ before, LinksLayout d before t ms) :
    LinksLayout d before (s ++ t) (ls ++ ms) := by
  induction ls generalizing before s with
  | nil =>
    cases h
    exact k before
  | cons l ls ih =>
    cases h with
    | cons hv hclose hk hw hopen hs ht =>
      rw [List.append_assoc]
      exact .cons hv hclose hk hw hopen hs (ih ht)

theorem ChainLayout.join {s v k w t : List Char} {j : Conjunction} {b : Chain}
    (h : ChainLayout d s c) (hv : Gap v) (hk : KeywordLayout k j.keyword) (hw : Gap w)
    (ht : ChainLayout d t b) : ChainLayout d (s ++ (v ++ k ++ w ++ t)) (c ++ b.joinedBy j) := by
  cases h with
  | mk hs hls =>
    cases ht with
    | mk hx hms =>
      rw [List.append_assoc, List.cons_append]
      refine .mk hs (hls.append fun before => ?_)
      rw [← List.append_assoc]
      exact .cons hv.blanks (fun hn => absurd hn hv.ne_nil) hk hw.blanks
        (fun hn => absurd hn hw.ne_nil) hx hms

theorem ChainLayout.single {s : List Char} {x : Condition} (h : ConditionLayout d s false x) :
    ChainLayout d s (Chain.single x) := by
  have hs := ChainLayout.mk h .nil
  rwa [List.append_nil] at hs

theorem IsChainLayout.join {s t : List Char} {b : Chain} (h : IsChainLayout d m s c)
    (k : IsChainLayout d m t b) (j : Conjunction) :
    IsChainLayout d m (s ++ [' '] ++ j.text.toList ++ [' '] ++ t) (c ++ b.joinedBy j) := by
  obtain ⟨v₁, s, w₁, rfl, hv₁, ⟨hs, hm⟩, hw₁⟩ := h
  obtain ⟨v₂, t, w₂, rfl, hv₂, ⟨ht, hn⟩, hw₂⟩ := k
  -- The blanks between the chains and the conjunction are gaps now.
  have hw : Gap (w₁ ++ [' ']) := ⟨hw₁.append Gap.blank.blanks, by simp⟩
  have hv : Gap ([' '] ++ v₂) := ⟨Gap.blank.blanks.append hv₂, by simp⟩
  refine ⟨v₁, _, w₂, ?_, hv₁, ⟨hs.join hw (.text j.keyword) hv ht, ?_⟩, hw₂⟩
  · simp [Conjunction.text]
  · rw [Chain.depth_append, Chain.depth_joinedBy]
    exact Nat.max_le.2 ⟨hm, hn⟩

theorem IsChainLayout.group {s : List Char} (h : IsChainLayout d m s c) :
    GroupLayout d ('(' :: s ++ [')']) c ∧ Chain.depth c ≤ m := by
  obtain ⟨v, s, w, rfl, hv, ⟨hs, hm⟩, hw⟩ := h
  exact ⟨by simpa using GroupLayout.mk hv hs hw, hm⟩

/-! ## Accepted texts -/

theorem isChainLayout_of_ok (h : parseChain d m text = .ok c) :
    IsChainLayout d m text.toList c := by
  rwa [parseChain_eq_ok_iff_whole, Rule.whole_chain_eq_ok_iff] at h

theorem parseChain_of_isChainLayout (h : IsChainLayout d m text.toList c) :
    parseChain d m text = .ok c := by
  rwa [parseChain_eq_ok_iff_whole, Rule.whole_chain_eq_ok_iff]

theorem exists_foldTree?_of_ok (h : parseChain d m text = .ok c) :
    ∃ f, c.foldTree? = some f := by
  obtain ⟨_, _, _, -, -, ⟨hs, -⟩, -⟩ := isChainLayout_of_ok h
  exact Chain.exists_foldTree? hs.wellFormed.leaves.1

/-- Accepted texts with a conjunction between them are accepted as the chain of all their links.
Only the first link of the second text is changed: it carries the conjunction. -/
theorem parseChain_of_joined (d : Dialect) (m : Nat) (t₁ t₂ : String) (c₁ c₂ : Chain)
    (h₁ : parseChain d m t₁ = .ok c₁) (h₂ : parseChain d m t₂ = .ok c₂) (j : Conjunction) :
    parseChain d m (t₁ ++ " " ++ j.text ++ " " ++ t₂) = .ok (c₁ ++ c₂.joinedBy j) := by
  have hjoin := (isChainLayout_of_ok h₁).join (isChainLayout_of_ok h₂) j
  exact parseChain_of_isChainLayout (by simpa using hjoin)

/-- The first text ends in a blank, and the second one begins with a field named like a negation. -/
theorem parseChain_of_joined_named_not :
    let c₁ : Chain := [⟨none, false, .group false [⟨none, false, .isNull "AND"⟩]⟩]
    let c₂ : Chain := [⟨none, false, .eq "NOT" (.text " OR ")⟩, ⟨some .and, false, .isNull "b"⟩]
    parseChain .expression 1 "(AND IS NULL) " = .ok c₁ ∧
      parseChain .expression 1 "NOT = ' OR ' AND b IS NULL" = .ok c₂ ∧
      parseChain .expression 1 "(AND IS NULL)  OR NOT = ' OR ' AND b IS NULL" =
        .ok (c₁ ++ [⟨some .or, false, .eq "NOT" (.text " OR ")⟩,
          ⟨some .and, false, .isNull "b"⟩]) := by
  intro c₁ c₂
  have h₁ : parseChain .expression 1 "(AND IS NULL) " = .ok c₁ := by rfl
  have h₂ : parseChain .expression 1 "NOT = ' OR ' AND b IS NULL" = .ok c₂ := by rfl
  exact ⟨h₁, h₂, parseChain_of_joined .expression 1 _ _ c₁ c₂ h₁ h₂ .or⟩

/-! ## Guards -/

theorem parseChain_group (h : parseChain d m text = .ok c) (hd : d.grouping = true) :
    parseChain d (m + 1) ("(" ++ text ++ ")") = .ok (Chain.single (.group false c)) := by
  obtain ⟨hs, hm⟩ := (isChainLayout_of_ok h).group
  apply parseChain_of_layout
  · exact .single (.group hd (by simpa using hs))
  · rw [Chain.depth_single, Condition.depth]
    omega

theorem parseChain_notGroup (h : parseChain d m text = .ok c) (hd : d.groupNegation = true) :
    parseChain d (m + 1) ("NOT (" ++ text ++ ")") = .ok (Chain.single (.group true c)) := by
  obtain ⟨hs, hm⟩ := (isChainLayout_of_ok h).group
  apply parseChain_of_layout
  · have ht : ("NOT (" ++ text ++ ")").toList =
        "NOT".toList ++ [' '] ++ ('(' :: text.toList ++ [')']) := by
      simp
    rw [ht]
    exact .single (.notGroup hd (.word "NOT") Gap.blank.blanks hs)
  · rw [Chain.depth_single, Condition.depth]
    omega

/-- A group behind a guard is the right operand of the tree. -/
theorem exists_foldTree?_of_guarded {g u t : String} {cg x : Chain} {G U : Filter} {b : Bool}
    (hg : parseChain d m g = .ok cg) (hG : cg.foldTree? = some G)
    (hu : parseChain d m u = .ok (Chain.single (.group b x))) (hU : x.foldTree? = some U)
    (ht : t.toList = g.toList ++ [' '] ++ Conjunction.and.text.toList ++ [' '] ++ u.toList) :
    ∃ ch, parseChain d m t = .ok ch ∧ ch.foldTree? = some (.and G (U.negateIf b)) := by
  have hjoin := (isChainLayout_of_ok hg).join (isChainLayout_of_ok hu) .and
  have hoperand : (Condition.group b x).operand? = some (U.negateIf b) := by
    rw [Condition.operand?_group, hU]
    rfl
  have hfold := Chain.foldTree?_concat hG hoperand (some .and) false
  exact ⟨_, parseChain_of_isChainLayout (ht ▸ hjoin), hfold⟩

/-- An accepted text in parentheses is accepted as one group, under a limit of one level more, and
so it is behind a negation where groups may be negated. So behind a guard and a conjunction it takes
part as one operand: the tree is that of the guard and that of the text, each read alone. -/
theorem parseChain_of_guarded :
    (∀ (d : Dialect) (m : Nat) (u : String) (c : Chain), d.grouping = true →
      parseChain d m u = .ok c →
        parseChain d (m + 1) ("(" ++ u ++ ")") = .ok (Chain.single (.group false c)) ∧
        (d.groupNegation = true →
          parseChain d (m + 1) ("NOT (" ++ u ++ ")") = .ok (Chain.single (.group true c)))) ∧
    ∀ (m : Nat) (g u : String) (cg cu : Chain), parseChain .expression m g = .ok cg →
      parseChain .expression m u = .ok cu → Chain.depth cu < m →
        ∃ G U : Filter, cg.foldTree? = some G ∧ cu.foldTree? = some U ∧
          (∃ c, parseChain .expression m (g ++ " AND (" ++ u ++ ")") = .ok c ∧
            c.foldTree? = some (.and G U)) ∧
          ∃ c, parseChain .expression m (g ++ " AND NOT (" ++ u ++ ")") = .ok c ∧
            c.foldTree? = some (.and G (.not U)) := by
  refine ⟨fun d m u c hd h => ⟨parseChain_group h hd, parseChain_notGroup h⟩, ?_⟩
  intro m g u cg cu hg hu hm
  obtain ⟨n, rfl⟩ : ∃ n, m = n + 1 := ⟨m - 1, by omega⟩
  obtain ⟨G, hG⟩ := exists_foldTree?_of_ok hg
  obtain ⟨U, hU⟩ := exists_foldTree?_of_ok hu
  have hlow : parseChain .expression n u = .ok cu :=
    Parser.ok_of_depth_le (k := .chain) hu (Nat.le_of_lt_succ hm)
  have hand : Conjunction.and.text = "AND" := by decide
  refine ⟨G, U, hG, hU, ?_, ?_⟩
  · exact exists_foldTree?_of_guarded hg hG (parseChain_group hlow rfl) hU (by simp [hand])
  · exact exists_foldTree?_of_guarded hg hG (parseChain_notGroup hlow rfl) hU (by simp [hand])

/-- The text that is guarded quotes parentheses and a conjunction, is a disjunction, and ends in a
blank. -/
theorem parseChain_of_guarded_disjunction :
    let cg : Chain := [⟨none, false, .eq "tenant" (.integer 7)⟩]
    let cu : Chain := [⟨none, false, .eq "a" (.text ") OR (")⟩,
      ⟨some .or, false, .group true [⟨none, false, .isNull "b"⟩]⟩]
    parseChain .expression 2 "tenant = 7" = .ok cg ∧
      parseChain .expression 2 "a = ') OR (' OR NOT (b IS NULL) " = .ok cu ∧ Chain.depth cu < 2 ∧
      parseChain .expression 3 ("NOT (" ++ "a = ') OR (' OR NOT (b IS NULL) " ++ ")") =
        .ok (Chain.single (.group true cu)) ∧
      ∃ G U : Filter, cg.foldTree? = some G ∧ cu.foldTree? = some U ∧
        ∃ c, parseChain .expression 2
            ("tenant = 7" ++ " AND (" ++ "a = ') OR (' OR NOT (b IS NULL) " ++ ")") = .ok c ∧
          c.foldTree? = some (.and G U) := by
  intro cg cu
  have hg : parseChain .expression 2 "tenant = 7" = .ok cg := by rfl
  have hu : parseChain .expression 2 "a = ') OR (' OR NOT (b IS NULL) " = .ok cu := by rfl
  have hm : Chain.depth cu < 2 := by decide
  obtain ⟨hgroup, hguard⟩ := parseChain_of_guarded
  obtain ⟨G, U, hG, hU, hand, -⟩ := hguard 2 _ _ cg cu hg hu hm
  exact ⟨hg, hu, hm, (hgroup .expression 2 _ cu rfl hu).2 rfl, G, U, hG, hU, hand⟩

end FilterQuery
