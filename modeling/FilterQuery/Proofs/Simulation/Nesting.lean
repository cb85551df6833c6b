import FilterQuery.Proofs.Reading.Calls
import FilterQuery.Proofs.Refusal.Clauses

/-!
The count of open groups. The rules are told how many levels are left, and a refusal says how many
groups it leaves open. Here one count goes through the whole reading instead: a group that is
entered adds one to it, unless the limit is reached, and a group that is left takes one off. Both
read the same, whatever leaving a group would do at the count zero, since it is never done there.
-/

namespace FilterQuery

/-- Rules that keep count of the open groups; a refusal holds the count at which it came. -/
abbrev Counted (α : Type) := StateT Nat Rule α

namespace Counted

variable {α β : Type}

/-- Reads without a look at the count, and opens what groups the refusal leaves open. -/
def read (rule : Rule α) : Counted α := fun n c =>
  match rule c with
  | .ok (a, d) => .ok ((a, n), d)
  | .error r => .error { r with unclosed := n + r.unclosed }

/-- Enters a group, unless as many are open as there may be. -/
def enter (limit : Nat) : Counted Unit := fun n c =>
  if limit ≤ n then .error { error := c.errorHere (.groupDepth limit), stop := c, unclosed := n }
  else .ok (((), n + 1), c)

/-- Leaving a group takes one off a count that is not zero; at zero it may do anything. -/
def ClosesOne (leave : Counted Unit) : Prop :=
  ∀ n c, leave (n + 1) c = .ok (((), n), c)

/-- Takes one off the count, which does not fall below zero. -/
def leaveOne : Counted Unit := fun n c =>
  .ok (((), n - 1), c)

theorem leaveOne_closesOne : ClosesOne leaveOne :=
  fun _ _ => rfl

/-! ## The rules with a count -/

def repeatUpTo (item : Counted (Option α)) : Nat → List α → Counted (List α)
  | 0, done => pure done.reverse
  | n + 1, done => do
    match ← item with
    | some a => repeatUpTo item n (a :: done)
    | none => return done.reverse

def many (item : Counted (Option α)) : Counted (List α) := do
  let start ← read get
  repeatUpTo item (start.rest.length + 1) []

def groupBody (body : Counted Chain) : Counted Chain := do
  read (Rule.symbol "(")
  read Rule.skipBlanks
  let chain ← body
  read Rule.skipBlanks
  if ← read (Rule.eat ")") then return chain else read (Rule.unexpected .closingParenthesis)

def group (limit : Nat) (leave : Counted Unit) (body : Counted Chain) (negated : Bool) :
    Counted Condition := do
  enter limit
  let chain ← groupBody body
  leave
  return .group negated chain

def negated (d : Dialect) (group : Bool → Counted Condition) (start : Cursor) :
    Counted (Bool × Condition) := do
  read Rule.skipBlanks
  if (← read get).peek? = some '(' then
    if d.groupNegation then return (false, ← group true)
    else read (Rule.failSince start (.negatedGroup d.name))
  else if d.leafNegation then return (true, .leaf (← read Rule.leaf))
  else return (false, .leaf (← read (Rule.leafNamedNot start d.name)))

def plain (d : Dialect) (group : Bool → Counted Condition) : Counted (Bool × Condition) := do
  if (← read get).peek? = some '(' then
    if d.grouping then return (false, ← group false)
    else read (do Rule.failSince (← get) (.group d.name))
  else return (false, .leaf (← read Rule.leaf))

def condition (d : Dialect) (group : Bool → Counted Condition) : Counted (Bool × Condition) := do
  let start ← read get
  if ← read (Rule.eatNegation d) then negated d group start else plain d group

def nextLink (condition : Counted (Bool × Condition)) : Counted (Option Link) := do
  match ← read Rule.conjunction? with
  | none => return none
  | some j =>
    read Rule.skipBlanks
    let (negated, c) ← condition
    return some ⟨some j, negated, c⟩

def links (condition : Counted (Bool × Condition)) : Counted Chain := do
  let (negated, c) ← condition
  return ⟨none, negated, c⟩ :: (← many (nextLink condition))

/-- A chain whose groups are entered at most `fuel` deep; `stuck` is what would be read below. -/
def chain (d : Dialect) (limit : Nat) (leave : Counted Unit) (stuck : Counted Chain) :
    (fuel : Nat) → Counted Chain
  | 0 => links (condition d (group limit leave stuck))
  | fuel + 1 => links (condition d (group limit leave (chain d limit leave stuck fuel)))

def where? (chain : Counted Chain) : Counted (Option Chain) := do
  if ← read (Rule.eatSpacedKeyword .where_) then
    read Rule.blanks
    return some (← chain)
  else
    return none

def clauseSet (chain : Counted Chain) : Counted ClauseSet := do
  let (distinct, fields) ← read Rule.head
  let whereClause ← where? chain
  let groupBy ← read (Rule.clause? .groupBy Rule.fields)
  let orderBy ← read (Rule.clause? .orderBy Rule.orderBy)
  let offset ← read (Rule.clause? .offset Rule.count)
  let limit ← read (Rule.clause? .limit Rule.count)
  read Rule.noClauseLeft
  return { fields, distinct, whereClause, groupBy := groupBy.getD [], orderBy, offset, limit }

def whole (rule : Counted α) : Counted α := do
  read Rule.skipBlanks
  let a ← rule
  read Rule.finish
  return a

/-! ## Rules that keep the count -/

section Read

variable {x : Counted α} {rule : Rule α} {n m : Nat} {c d : Cursor}

theorem bind_of_ok {a : α} (h : x n c = .ok ((a, m), d)) (f : α → Counted β) :
    (x >>= f) n c = f a m d :=
  Rule.bind_of_ok h fun p => f p.1 p.2

theorem bind_of_error {r : Refusal} (h : x n c = .error r) (f : α → Counted β) :
    (x >>= f) n c = .error r :=
  Rule.bind_of_error h fun p => f p.1 p.2

theorem read_of_ok {a : α} (h : rule c = .ok (a, d)) : read rule n c = .ok ((a, n), d) := by
  rw [read, h]

theorem read_of_error {r : Refusal} (h : rule c = .error r) :
    read rule n c = .error { r with unclosed := n + r.unclosed } := by
  rw [read, h]

end Read

/-- From the count `n` on, the counted rule does what the rule does, and keeps the count. -/
def Keeps (n : Nat) (counted : Counted α) (rule : Rule α) : Prop :=
  counted n = read rule n

namespace Keeps

variable {n : Nat} {x y : Counted α} {rule other : Rule α}

theorem of_read (rule : Rule α) : Keeps n (read rule) rule :=
  rfl

theorem of_pure (a : α) : Keeps n (pure a) (pure a) :=
  rfl

theorem bind {f : α → Counted β} {g : α → Rule β} (h : Keeps n x rule)
    (hf : ∀ a, Keeps n (f a) (g a)) : Keeps n (x >>= f) (rule >>= g) := by
  funext c
  have hbind : (x >>= f) n c = (read rule n >>= fun p => f p.1 p.2) c := by
    rw [← h]
    rfl
  rw [hbind]
  cases hx : rule c with
  | error r => rw [Rule.bind_of_error (read_of_error hx), read_of_error (Rule.bind_of_error hx _)]
  | ok p =>
    obtain ⟨a, d⟩ := p
    rw [Rule.bind_of_ok (read_of_ok hx), hf a, read, read, Rule.bind_of_ok hx]

theorem ite {p : Prop} [Decidable p] (h : Keeps n x rule) (hy : Keeps n y other) :
    Keeps n (if p then x else y) (if p then rule else other) := by
  split
  · exact h
  · exact hy

theorem repeatUpTo {item : Counted (Option α)} {rule : Rule (Option α)} (h : Keeps n item rule)
    (bound : Nat) (done : List α) :
    Keeps n (repeatUpTo item bound done) (Rule.repeatUpTo rule bound done) := by
  induction bound generalizing done with
  | zero => rfl
  | succ bound ih =>
    have hstep : Rule.repeatUpTo rule (bound + 1) done = rule >>= fun
        | some a => Rule.repeatUpTo rule bound (a :: done)
        | none => pure done.reverse := by
      funext c
      rw [Rule.repeatUpTo]
      cases hx : rule c with
      | error r => rw [Rule.bind_of_error hx]
      | ok p =>
        obtain ⟨a?, d⟩ := p
        rw [Rule.bind_of_ok hx]
        cases a? <;> rfl
    rw [hstep, Counted.repeatUpTo]
    refine h.bind fun a? => ?_
    cases a? with
    | none => exact .of_pure _
    | some a => exact ih (a :: done)

theorem many {item : Counted (Option α)} {rule : Rule (Option α)} (h : Keeps n item rule) :
    Keeps n (many item) (Rule.many rule) := by
  have hmany : Rule.many rule = get >>= fun start : Cursor =>
      Rule.repeatUpTo rule (start.rest.length + 1) [] := rfl
  rw [hmany]
  exact (of_read get).bind fun start => h.repeatUpTo _ _

section Groups

variable {d : Dialect} {group : Bool → Counted Condition} {group' : Bool → Rule Condition}

theorem negated (hgroup : ∀ b, Keeps n (group b) (group' b)) (start : Cursor) :
    Keeps n (negated d group start) (Rule.negated d group' start) :=
  (of_read _).bind fun _ => (of_read _).bind fun _ =>
    .ite (.ite ((hgroup true).bind fun _ => .of_pure _) (of_read _))
      (.ite ((of_read _).bind fun _ => .of_pure _) ((of_read _).bind fun _ => .of_pure _))

theorem plain (hgroup : ∀ b, Keeps n (group b) (group' b)) :
    Keeps n (plain d group) (Rule.plain d group') :=
  (of_read _).bind fun _ =>
    .ite (.ite ((hgroup false).bind fun _ => .of_pure _) (of_read _))
      ((of_read _).bind fun _ => .of_pure _)

theorem condition (hgroup : ∀ b, Keeps n (group b) (group' b)) :
    Keeps n (condition d group) (Rule.condition d group') :=
  (of_read _).bind fun start => (of_read _).bind fun _ => .ite (negated hgroup start) (plain hgroup)

end Groups

theorem links {x : Counted (Bool × Condition)} {rule : Rule (Bool × Condition)}
    (h : Keeps n x rule) : Keeps n (links x) (Rule.links rule) := by
  have hnext : Keeps n (nextLink x) (Rule.nextLink rule) := by
    refine (of_read _).bind fun j? => ?_
    cases j? with
    | none => exact .of_pure _
    | some j => exact (of_read _).bind fun _ => h.bind fun _ => .of_pure _
  exact h.bind fun _ => hnext.many.bind fun _ => .of_pure _

theorem groupBody {x : Counted Chain} {body : Rule Chain} (h : Keeps n x body) :
    Keeps n (groupBody x) (Rule.groupBody body) :=
  (of_read _).bind fun _ => (of_read _).bind fun _ => h.bind fun _ => (of_read _).bind fun _ =>
    (of_read _).bind fun _ => .ite (.of_pure _) (of_read _)

section Limits

variable {d : Dialect} {limit : Nat} {leave : Counted Unit} {stuck : Counted Chain}

/-- Where as many groups are open as there may be, no other one is entered. -/
theorem group_tooDeep {x : Counted Chain} (hn : limit ≤ n) (b : Bool) :
    Keeps n (group limit leave x b) (Rule.tooDeep limit) := by
  funext c
  have henter : enter limit n c =
      .error { error := c.errorHere (.groupDepth limit), stop := c, unclosed := n } := if_pos hn
  rw [Counted.group, bind_of_error henter]
  rfl

/-- A group is left with the count with which it was entered, plus one. -/
theorem group {x : Counted Chain} {body : Rule Chain} (hleave : ClosesOne leave)
    (h : Keeps (n + 1) x body) (hn : n < limit) (b : Bool) :
    Keeps n (group limit leave x b) (Rule.group body b) := by
  funext c
  have henter : enter limit n c = .ok (((), n + 1), c) := if_neg (Nat.not_le.2 hn)
  have hbody : Counted.groupBody x (n + 1) c = read (Rule.groupBody body) (n + 1) c :=
    congrFun h.groupBody c
  rw [Counted.group, bind_of_ok henter, Rule.group]
  cases hx : Rule.groupBody body c with
  | error r =>
    rw [read_of_error hx] at hbody
    have hopened : Rule.opened (Rule.groupBody body) c =
        .error { r with unclosed := r.unclosed + 1 } :=
      Rule.opened_eq_error_iff.2 ⟨r, hx, rfl⟩
    rw [bind_of_error hbody, read_of_error (Rule.bind_of_error hopened _), Nat.add_right_comm,
      Nat.add_assoc]
  | ok p =>
    obtain ⟨chain, e⟩ := p
    rw [read_of_ok hx] at hbody
    rw [bind_of_ok hbody, bind_of_ok (hleave n e), read,
      Rule.bind_of_ok (Rule.opened_eq_ok_iff.2 hx)]
    rfl

/-- With as many levels left as the count lets groups be entered, both read the same chains. -/
theorem chain (hleave : ClosesOne leave) {fuel levels : Nat} (hlevels : n + levels = limit)
    (hfuel : levels ≤ fuel) :
    Keeps n (chain d limit leave stuck fuel) (Rule.chain d limit levels) := by
  induction fuel generalizing n levels with
  | zero =>
    obtain rfl : levels = 0 := Nat.le_zero.1 hfuel
    exact links (condition (group_tooDeep (by omega)))
  | succ fuel ih =>
    cases levels with
    | zero => exact links (condition (group_tooDeep (by omega)))
    | succ levels =>
      have hbody : Keeps (n + 1) (Counted.chain d limit leave stuck fuel)
          (Rule.chain d limit levels) := ih (by omega) (by omega)
      exact links (condition (group hleave hbody (by omega)))

end Limits

theorem clauseSet {x : Counted Chain} {rule : Rule Chain} (h : Keeps n x rule) :
    Keeps n (clauseSet x) (Rule.clauseSet rule) := by
  have hwhere : Keeps n (where? x) (Rule.clause? .where_ rule) :=
    (of_read _).bind fun _ =>
      .ite ((of_read _).bind fun _ => h.bind fun _ => .of_pure _) (.of_pure _)
  rw [Rule.clauseSet_eq]
  exact (of_read _).bind fun _ => hwhere.bind fun _ => (of_read _).bind fun _ =>
    (of_read _).bind fun _ => (of_read _).bind fun _ => (of_read _).bind fun _ =>
    (of_read _).bind fun _ => .of_pure _

theorem whole (h : Keeps n x rule) : Keeps n (whole x) (Rule.whole rule) :=
  (of_read _).bind fun _ => h.bind fun _ => (of_read _).bind fun _ => .of_pure _

end Keeps

end Counted

/-! ## Calls with a count -/

namespace Parser

variable {α : Type} {p : Parser} {leave : Counted Unit} {stuck : Counted Chain} {k : Call}

/-- Applies a rule from the count of open groups on, and keeps the place and the count. -/
def runCounted (p : Parser) (rule : Counted α) : Except ParseError α × Parser :=
  match rule p.unclosed p.cursor with
  | .ok ((a, n), c) => (.ok a, { p with cursor := c, unclosed := n })
  | .error r => (.error r.error, { p with cursor := r.stop, unclosed := r.unclosed })

def chainCounted (p : Parser) (leave : Counted Unit) (stuck : Counted Chain) : Counted Chain :=
  Counted.chain p.dialect p.maxDepth leave stuck p.maxDepth

/-- A call with a count of the open groups, which begins where the calls before it left it. -/
def callCounted (p : Parser) (leave : Counted Unit) (stuck : Counted Chain) :
    (k : Call) → Except ParseError k.Answer × Parser
  | .chain => p.runCounted (Counted.whole (p.chainCounted leave stuck))
  | .clauseSet =>
    if p.dialect.clauses then
      p.runCounted (Counted.whole (Counted.clauseSet (p.chainCounted leave stuck)))
    else (.error (p.cursor.errorHere (.clauses p.dialect.name)), p)
  | .literal => p.runCounted (Counted.whole (Counted.read Rule.literal))

theorem runCounted_eq {counted : Counted α} {rule : Rule α}
    (h : Counted.Keeps p.unclosed counted rule) : p.runCounted counted = p.run rule := by
  rw [runCounted, run, h, Counted.read]
  cases rule p.cursor <;> rfl

/-- As long as no more groups are open than there may be, the count is no other than the levels, and
no group is left at the count zero. -/
theorem callCounted_eq (hp : p.unclosed ≤ p.maxDepth) (hleave : Counted.ClosesOne leave) :
    p.callCounted leave stuck k = p.call k := by
  have hchain : Counted.Keeps p.unclosed (p.chainCounted leave stuck) p.chainRule :=
    Counted.Keeps.chain hleave (Nat.add_sub_of_le hp) (Nat.sub_le _ _)
  cases k with
  | chain => exact runCounted_eq hchain.whole
  | clauseSet =>
    rw [callCounted, call, Parser.clauseSet]
    split
    · exact runCounted_eq hchain.clauseSet.whole
    · rfl
  | literal => exact runCounted_eq (Counted.Keeps.of_read _).whole

end Parser

end FilterQuery
