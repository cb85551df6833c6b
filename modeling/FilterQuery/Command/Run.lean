import FilterQuery.Command.Options
import FilterQuery.Report.Sql

/-!
The commands: what they write and how they end, given their arguments, the environment and the bytes
on standard input.
-/

namespace FilterQuery.Command

structure Report where
  code : Nat
  out : String := ""
  err : String := ""
  deriving DecidableEq, Repr

inductive Failure where
  | inputTooLarge (limit : Nat)
  | notUtf8
  | render (error : RenderError)
  deriving DecidableEq

namespace Failure

def notUtf8Message : String :=
  "stream did not contain valid UTF-8"

def message : Failure → String
  | .inputTooLarge limit =>
    "Input is larger than the limit of " ++ Decimal.ofNat limit ++ " bytes"
  | .notUtf8 => "IO error: " ++ notUtf8Message
  | .render e => e.message

/-- The error beneath the failure, where there is one. -/
def cause? : Failure → Option String
  | .notUtf8 => some notUtf8Message
  | .render (.parse e) => some e.text
  | .inputTooLarge _ | .render .noWhereClause => none

/-- Four blanks before every line. -/
def indented (text : String) : String :=
  String.ofList ("    ".toList ++
    text.toList.flatMap fun c => if c = '\n' then "\n    ".toList else [c])

def text (f : Failure) : String :=
  "Error: " ++ f.message ++ "\n" ++
    match f.cause? with
    | some cause => "\nCaused by:\n" ++ indented cause ++ "\n"
    | none => ""

end Failure

/-- The filter text. From standard input one byte more than allowed is read, which is enough to tell
that there are too many; these bytes have to be UTF-8 even then. -/
def readInput (input : String) (limit : Nat) (stdin : ByteArray) : Except Failure String := do
  let text ←
    if input = "-" then
      match String.fromUTF8? (stdin.extract 0 (min (limit + 1) (UInt64.size - 1))) with
      | some text => .ok text
      | none => .error .notUtf8
    else .ok input
  if limit < text.utf8ByteSize then .error (.inputTooLarge limit) else .ok text

def render (o : Options) (stdin : ByteArray) : Except Failure String := do
  let text ← readInput o.input o.maxInputBytes stdin
  (renderText o.grammar o.format o.maxDepth text).mapError .render

def versionText : String :=
  "filterql 0.1.0"

/-- The code of a command line that asks for nothing that can be done. -/
def usageCode : Nat := 2

def run (arguments : List String) (environment : String → Option String) (stdin : ByteArray) :
    Report :=
  match Request.ofArguments? arguments environment with
  | none => { code := usageCode }
  | some .version => { code := 0, out := versionText ++ "\n" }
  | some (.render o) =>
    match render o stdin with
    | .ok out => { code := 0, out := out ++ "\n" }
    | .error f => { code := 1, err := f.text }

/-- The filter text of a query when no argument gives one. -/
def defaultQuery : String :=
  "status = 'open' AND (age > 30 OR tag IN ('a', 'b'))"

/-- The lines that show a query: its text, then its parameters by number. -/
def queryLines (sql : Sql) : List String :=
  ("SELECT * FROM items WHERE " ++ sql.text) ::
    (sql.params.zipIdx 1).map fun (param, i) => "  ?" ++ Decimal.ofNat i ++ " = " ++ param.render

/-- Reads the first argument as a boolean expression, and shows the SQL query that it stands for. -/
def query (arguments : List String) : Report :=
  match parseWhere (arguments.headD defaultQuery) with
  | .error e => { code := 1, err := e.text ++ "\n" }
  | .ok chain =>
    match chain.foldTree?.bind Sql.ofFilter? with
    | some sql => { code := 0, out := String.join ((queryLines sql).map (· ++ "\n")) }
    | none => { code := 0 }

end FilterQuery.Command
