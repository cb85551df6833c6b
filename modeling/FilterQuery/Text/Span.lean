import FilterQuery.Text.Chars

/-!
Spans: byte ranges in a text.
-/

namespace FilterQuery

/-- The bytes from `start` up to, but not including, `stop`. -/
structure Span where
  start : Nat := 0
  stop : Nat := 0
  deriving DecidableEq, Repr, Inhabited

namespace Span

def point (pos : Nat) : Span :=
  ⟨pos, pos⟩

/-- The number of bytes covered. A span that ends before its start has no length. -/
def length? (s : Span) : Option Nat :=
  if s.start ≤ s.stop then some (s.stop - s.start) else none

def isEmpty (s : Span) : Bool :=
  s.start == s.stop

/-- The least span that covers both. -/
def merge (a b : Span) : Span :=
  ⟨min a.start b.start, max a.stop b.stop⟩

/-- The characters covered; none when an end is no character boundary of the text. -/
def slice (s : Span) (text : String) : String :=
  match (cutAt? s.stop text.toList).bind fun (before, _) => cutAt? s.start before with
  | some (_, covered) => String.ofList covered
  | none => ""

end Span

end FilterQuery
