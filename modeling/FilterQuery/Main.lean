import FilterQuery.Command.Run

/-!
The program `filterql`: reads one filter text and writes its structure.
-/

namespace FilterQuery.Command

/-- The values of the environment variables that hold options. -/
def readEnvironment : IO (String → Option String) := do
  let names := Setting.all.map Setting.environmentName
  let values ← names.mapM fun name => return (name, ← IO.getEnv name)
  return fun name => (values.lookup name).join

/-- Standard input, if the command line asks for it. -/
def readStandardInput (request : Option Request) : IO ByteArray := do
  match request with
  | some (.render o) => if o.input = "-" then (← IO.getStdin).readBinToEnd else return .empty
  | _ => return .empty

end FilterQuery.Command

open FilterQuery.Command in
def main (arguments : List String) : IO UInt32 := do
  let environment ← readEnvironment
  let stdin ← readStandardInput (Request.ofArguments? arguments environment)
  let report := run arguments environment stdin
  (← IO.getStdout).putStr report.out
  (← IO.getStderr).putStr report.err
  return report.code.toUInt32
