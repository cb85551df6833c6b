import FilterQuery.Encoding.ClauseSet
import FilterQuery.Fold.Flat
import FilterQuery.Fold.Tree
import FilterQuery.Json.Pretty
import FilterQuery.Reading.Parser

/-!
Rendering: a text is read in one of the two grammars and written in one of four formats.
-/

namespace FilterQuery

/-- The grammar of a text: a boolean expression or a clause set. -/
inductive Grammar where
  | expression | clause
  deriving DecidableEq, Repr

inductive Format where
  /-- The structure as JSON. -/
  | json
  /-- The chain folded into a tree. -/
  | tree
  /-- The chain folded flat, one entry a line. -/
  | flat
  /-- The canonical text. -/
  | text
  deriving DecidableEq, Repr

inductive RenderError where
  | parse (error : ParseError)
  /-- A fold was asked for, and the clause set has no chain. -/
  | noWhereClause
  deriving DecidableEq

def RenderError.message : RenderError → String
  | .parse e => "Failed to parse input: " ++ e.text
  | .noWhereClause => "Clause set has no WHERE clause to fold"

/-- A chain without a tree renders as nothing. -/
def Chain.renderTree (chain : Chain) : String :=
  match chain.foldTree? with
  | some f => f.render
  | none => ""

def Chain.renderFlat (chain : Chain) : String :=
  "\n".intercalate (chain.flatten.map Tagged.render)

def Chain.renderIn (chain : Chain) : Format → String
  | .json => chain.toJson.pretty 0
  | .tree => chain.renderTree
  | .flat => chain.renderFlat
  | .text => chain.render

/-- A fold of the chain of a clause set, which needs to have one. -/
def ClauseSet.renderFold (s : ClauseSet) (renderChain : Chain → String) :
    Except RenderError String :=
  match s.whereClause with
  | some chain => .ok (renderChain chain)
  | none => .error .noWhereClause

def ClauseSet.renderIn (s : ClauseSet) : Format → Except RenderError String
  | .json => .ok (s.toJson.pretty 0)
  | .text => .ok s.render
  | .tree => s.renderFold Chain.renderTree
  | .flat => s.renderFold Chain.renderFlat

def renderText (grammar : Grammar) (format : Format) (maxDepth : Nat) (text : String) :
    Except RenderError String :=
  match grammar with
  | .expression =>
    match parseChain .expression maxDepth text with
    | .ok chain => .ok (chain.renderIn format)
    | .error e => .error (.parse e)
  | .clause =>
    match parseClauseSet .clause maxDepth text with
    | .ok s => s.renderIn format
    | .error e => .error (.parse e)

end FilterQuery
