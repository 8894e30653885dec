import DocQuery.Cli.Args

/-! # Commands

* `Command`: what is to be done.
* `Invocation`: a command with the options that go with it; `Invocation.ofArgs` reads both from the
  arguments.
-/

set_option autoImplicit false

namespace DocQuery.Cli

/-- What is to be done. -/
inductive Command where
  /-- Say how the program is used. -/
  | usage
  /-- Select from a table. -/
  | select (table : String)
  /-- Explain an expression, over a table, with or without its tree. -/
  | explain (text table : String) (tree : Bool)
  /-- List the tables and the constants. -/
  | names
deriving DecidableEq, Repr

/-- A command with its options. -/
structure Invocation where
  what : List String
  condition : Option String
  /-- The file with the trace of the condition. -/
  traceFile : Option String
  order : List String
  dryRun : Bool
  databaseUrl : Option String
  configFile : Option String
  command : Command
deriving DecidableEq, Repr

/-- The options of the program. -/
inductive MainOption where
  | what | condition | traceFile | order | dryRun | format | databaseUrl | configFile | verbose
  | help
deriving DecidableEq, Repr

/-- The options of the program, and its subcommands. -/
def mainOptions : Options MainOption where
  all := [.what, .condition, .traceFile, .order, .dryRun, .format, .databaseUrl, .configFile,
    .verbose, .help]
  form
    | .what => ⟨"what", some 'w', true, false, true⟩
    | .condition => ⟨"where", some 'W', true, false, false⟩
    | .traceFile => ⟨"where-trace", none, true, false, false⟩
    | .order => ⟨"order-by", some 'o', true, true, true⟩
    | .dryRun => ⟨"dry-run", some 'd', false, false, false⟩
    | .format => ⟨"format", some 'f', true, false, false⟩
    | .databaseUrl => ⟨"database-url", none, true, false, false⟩
    | .configFile => ⟨"config", some 'c', true, false, false⟩
    | .verbose => ⟨"verbose", some 'v', false, false, false⟩
    | .help => ⟨"help", some 'h', false, false, true⟩
  commands := ["explain", "names"]

/-- The options of the command that explains an expression. -/
inductive ExplainOption where
  | table | tree
deriving DecidableEq, Repr

/-- The options of the command that explains an expression. -/
def explainOptions : Options ExplainOption where
  all := [.table, .tree]
  form
    | .table => ⟨"table", some 't', true, false, false⟩
    | .tree => ⟨"json", none, false, false, false⟩
  commands := []

/-- The command that explains an expression, from the arguments after its name. -/
def explainCommand (args : List String) : Except Refusal Command := do
  let s ← explainOptions.scan args
  match s.positionals with
  | [text] => return .explain text ((s.value? .table).getD "person") (s.has .tree)
  | [] => .error (.missingArgument "EXPR")
  | _ :: argument :: _ => .error (.unexpectedArgument argument)

/-- The command that lists names has no options. -/
def namesOptions : Options Empty where
  all := []
  form := Empty.elim
  commands := []

/-- The command that lists names takes no arguments. -/
def namesCommand (args : List String) : Except Refusal Command := do
  let s ← namesOptions.scan args
  match s.positionals with
  | [] => return .names
  | argument :: _ => .error (.unexpectedArgument argument)

/-- The command that the arguments ask for. A table is selected from only if there is no
subcommand. -/
def commandOf (s : Scanned MainOption) : Except Refusal Command :=
  if s.has .help then .ok .usage
  else match s.positionals, s.command with
    | _ :: argument :: _, _ => .error (.unexpectedArgument argument)
    | _, some (name, args) => if name = "names" then namesCommand args else explainCommand args
    | [table], none => .ok (.select table)
    | [], none => .ok .usage

namespace Invocation

/-- Why the values of the options cannot be used together: the format must be known, no file name is
empty, and the condition is given in one way only. -/
def inconsistency? (s : Scanned MainOption) : Option Refusal :=
  if !(s.value? .format).all (fun f => f == "table" || f == "json") then
    some (.invalidValue "format")
  else if s.value? .traceFile = some "" then some (.invalidValue "where-trace")
  else if s.value? .configFile = some "" then some (.invalidValue "config")
  else if s.has .condition && s.has .traceFile then some (.conflict "where" "where-trace")
  else none

/-- The command and the options of a list of arguments. -/
def ofArgs (args : List String) : Except Refusal Invocation := do
  let s ← mainOptions.scan args
  let command ← commandOf s
  match inconsistency? s with
  | some refusal => .error refusal
  | none =>
    return ⟨s.values .what, s.value? .condition, s.value? .traceFile, s.values .order,
      s.has .dryRun, s.value? .databaseUrl, s.value? .configFile, command⟩

end Invocation

end DocQuery.Cli
