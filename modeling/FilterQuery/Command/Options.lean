import FilterQuery.Report.Render

/-!
Command line options. Arguments are read from left to right; an option that no argument gives is
taken from the environment, and then from its default.
-/

namespace FilterQuery

def Grammar.ofName? : String → Option Grammar
  | "expression" => some .expression
  | "clause" => some .clause
  | _ => none

def Format.ofName? : String → Option Format
  | "json" => some .json
  | "tree" => some .tree
  | "flat" => some .flat
  | "text" => some .text
  | _ => none

namespace Command

/-- An option that takes a value. -/
inductive Setting where
  | dialect | format | maxInputBytes | maxDepth
  deriving DecidableEq, Repr

namespace Setting

def all : List Setting :=
  [.dialect, .format, .maxInputBytes, .maxDepth]

def long : Setting → String
  | .dialect => "dialect"
  | .format => "format"
  | .maxInputBytes => "max-input-bytes"
  | .maxDepth => "max-depth"

def ofShort? : Char → Option Setting
  | 'd' => some .dialect
  | 'f' => some .format
  | _ => none

/-- The environment variable that holds the value where no argument does. -/
def environmentName : Setting → String
  | .dialect => "FILTERQL_DIALECT"
  | .format => "FILTERQL_FORMAT"
  | .maxInputBytes => "FILTERQL_MAX_INPUT_BYTES"
  | .maxDepth => "FILTERQL_MAX_DEPTH"

end Setting

/-- What the arguments read so far have given. -/
structure Settings where
  grammar : Option Grammar := none
  format : Option Format := none
  maxInputBytes : Option Nat := none
  maxDepth : Option Nat := none
  verbose : Bool := false
  input : Option String := none

/-- The deepest nesting that may be asked for. -/
def maxDepthCeiling : Nat := 256

def defaultMaxInputBytes : Nat := 65536

namespace Settings

def has (s : Settings) : Setting → Bool
  | .dialect => s.grammar.isSome
  | .format => s.format.isSome
  | .maxInputBytes => s.maxInputBytes.isSome
  | .maxDepth => s.maxDepth.isSome

/-- Takes a value, unless it is no value of that option. -/
def put? (s : Settings) (option : Setting) (value : String) : Option Settings :=
  match option with
  | .dialect => (Grammar.ofName? value).map fun g => { s with grammar := some g }
  | .format => (Format.ofName? value).map fun f => { s with format := some f }
  | .maxInputBytes =>
    (Decimal.readBelow? UInt64.size value).map fun n => { s with maxInputBytes := some n }
  | .maxDepth =>
    ((Decimal.readBelow? (maxDepthCeiling + 1) value).filter (1 ≤ ·)).map fun n =>
      { s with maxDepth := some n }

/-- Takes a value from an argument; an option is given at most once. -/
def give? (s : Settings) (option : Setting) (value : String) : Option Settings :=
  if s.has option then none else s.put? option value

def giveVerbose? (s : Settings) : Option Settings :=
  if s.verbose then none else some { s with verbose := true }

def giveInput? (s : Settings) (text : String) : Option Settings :=
  if s.input.isSome then none else some { s with input := some text }

/-- Takes what the arguments left open from the environment. -/
def complete? (s : Settings) (environment : String → Option String) : Option Settings :=
  Setting.all.foldlM (fun s option =>
    match s.has option, environment option.environmentName with
    | false, some value => s.put? option value
    | _, _ => some s) s

end Settings

/-- What one argument, or all of them, come to. -/
inductive Effect where
  | refused
  | version
  | given (s : Settings)
  /-- The value of the option is the next argument. -/
  | awaiting (option : Setting) (s : Settings)

def Effect.ofOption : Option Settings → Effect
  | some s => .given s
  | none => .refused

/-- A group of one-letter options. The rest of the group is the value of an option that takes one,
with or without an equals sign before it. -/
def readLetters : List Char → Settings → Effect
  | [], s => .given s
  | 'V' :: _, _ => .version
  | 'v' :: letters, s =>
    match s.giveVerbose? with
    | some s => readLetters letters s
    | none => .refused
  | c :: value, s =>
    match Setting.ofShort? c, value with
    | none, _ => .refused
    | some option, [] => .awaiting option s
    | some option, '=' :: value => .ofOption (s.give? option (String.ofList value))
    | some option, value => .ofOption (s.give? option (String.ofList value))

/-- A long option, without its dashes. -/
def readLong (text : List Char) (s : Settings) : Effect :=
  let name := String.ofList (text.takeWhile (· != '='))
  let value := (text.dropWhile (· != '=')).tail?.map String.ofList
  match name, Setting.all.find? (·.long = name), value with
  | _, some option, some value => .ofOption (s.give? option value)
  | _, some option, none => .awaiting option s
  | "verbose", none, none => .ofOption s.giveVerbose?
  | "version", none, none => .version
  | _, _, _ => .refused

/-- The argument gives options, and neither the input text nor a value. A dash alone gives none. -/
def isOption (argument : String) : Bool :=
  match argument.toList with
  | '-' :: _ :: _ => true
  | _ => false

def readOption (argument : String) (s : Settings) : Effect :=
  match argument.toList with
  | '-' :: '-' :: text => readLong text s
  | _ :: letters => readLetters letters s
  | [] => .refused

/-- Arguments among which none is an option. -/
def readInputs : List String → Settings → Effect
  | [], s => .given s
  | text :: rest, s =>
    match s.giveInput? text with
    | some s => readInputs rest s
    | none => .refused

/-- All arguments. After `--` none is an option. -/
def readArguments : List String → Settings → Effect
  | [], s => .given s
  | argument :: rest, s =>
    if argument = "--" then readInputs rest s
    else if isOption argument then
      match readOption argument s, rest with
      | .given s, rest => readArguments rest s
      | .awaiting option s, value :: rest =>
        if isOption value then .refused
        else
          match s.give? option value with
          | some s => readArguments rest s
          | none => .refused
      | .awaiting _ _, [] => .refused
      | .version, _ => .version
      | .refused, _ => .refused
    else
      match s.giveInput? argument with
      | some s => readArguments rest s
      | none => .refused

structure Options where
  grammar : Grammar
  format : Format
  maxInputBytes : Nat
  maxDepth : Nat
  /-- The filter text, or a dash for standard input. -/
  input : String

/-- What a command line asks for. -/
inductive Request where
  | version
  | render (options : Options)

/-- The request of a command line. There is none if an argument is wrong or the input is missing. -/
def Request.ofArguments? (arguments : List String) (environment : String → Option String) :
    Option Request :=
  match readArguments arguments {} with
  | .version => some .version
  | .given s => do
    let s ← s.complete? environment
    let input ← s.input
    return .render {
      grammar := s.grammar.getD .expression
      format := s.format.getD .json
      maxInputBytes := s.maxInputBytes.getD defaultMaxInputBytes
      maxDepth := s.maxDepth.getD defaultMaxDepth
      input }
  | .refused | .awaiting _ _ => none

end Command

end FilterQuery
