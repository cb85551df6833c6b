/-!
Dialects: which forms of the filter language a text may use, and the shape that its chains fold
into.
-/

namespace FilterQuery

inductive FoldShape where
  | tree | flat
  deriving DecidableEq, Repr, Inhabited

/-- By default nothing is allowed, groups may be negated where they may stand, and chains fold into
a tree. -/
structure Dialect where
  name : String
  grouping : Bool := false
  leafNegation : Bool := false
  groupNegation : Bool := grouping
  dottedNames : Bool := false
  clauses : Bool := false
  foldShape : FoldShape := .tree
  deriving DecidableEq, Repr

namespace Dialect

/-- Boolean expressions with groups and dotted names, folded into a tree. -/
def expression : Dialect where
  name := "expression"
  grouping := true
  dottedNames := true

/-- Clause sets, with NOT before single conditions and no groups, folded flat. -/
def clause : Dialect where
  name := "clause"
  leafNegation := true
  clauses := true
  foldShape := .flat

end Dialect

/-- The choices that make up a dialect, without a name. -/
structure Capabilities where
  grouping : Bool
  leafNegation : Bool
  groupNegation : Bool
  dottedNames : Bool
  clauses : Bool
  foldShape : FoldShape
  deriving DecidableEq, Repr

namespace Capabilities

def ofDialect (d : Dialect) : Capabilities :=
  ⟨d.grouping, d.leafNegation, d.groupNegation, d.dottedNames, d.clauses, d.foldShape⟩

def expression : Capabilities :=
  ofDialect .expression

def clause : Capabilities :=
  ofDialect .clause

/-- The dialect with these capabilities; it negates groups only if it has groups. -/
def toDialect (c : Capabilities) : Dialect where
  name := "custom"
  grouping := c.grouping
  leafNegation := c.leafNegation
  groupNegation := c.grouping && c.groupNegation
  dottedNames := c.dottedNames
  clauses := c.clauses
  foldShape := c.foldShape

end Capabilities

end FilterQuery
