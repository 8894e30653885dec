import DocQuery.Cli.Command
import DocQuery.Cli.Files
import DocQuery.Config.Load
import DocQuery.Expr.Json
import DocQuery.Json.Text
import DocQuery.Trace.Load
import DocQuery.Trace.Lower

/-! # Running commands

* `Outcome`: what the program prints and its exit code.
* `explanation`: what there is to say about an expression.
* `nameListing`: the tables and the constants.
* `run`: carries out the command of a list of arguments, over the files that the program can see.
-/

set_option autoImplicit false

namespace DocQuery.Cli

/-- What the program prints, and its exit code. -/
structure Outcome where
  code : Nat
  out : String
  err : String
deriving DecidableEq, Repr

/-- Lines of text, each of which ends. -/
def unlines (lines : List String) : String := String.join (lines.map (· ++ "\n"))

/-- A text with blanks after it, up to a width. -/
def padEnd (width : Nat) (s : String) : String :=
  s ++ String.ofList (List.replicate (width - s.length) ' ')

/-- A text with blanks before it, up to a width. -/
def padStart (width : Nat) (s : String) : String :=
  String.ofList (List.replicate (width - s.length) ' ') ++ s

/-! ## Explanations -/

/-- The line of an instruction in a listing. -/
def instructionLine (i : Instruction) : String :=
  "  " ++ padStart 4 (toString i.offset) ++ " " ++ padEnd 20 i.opcode.name ++ " " ++ i.text

/-- A result on a line of its own, or the reason why there is none. -/
def resultLine : Except Error String → String
  | .ok text => "  " ++ text
  | .error e => "  ✗ " ++ e.message

/-- The instructions of an expression and the text that can be recovered from them. -/
def traceLines (text : String) : List String :=
  match Trace.ofText text with
  | .ok t => t.code.map instructionLine ++ ["", "Decompiled:", resultLine t.text]
  | .error e => ["  (not lowerable) " ++ e.message]

/-- The body of an anonymous function, and any other expression as it is. -/
def bodyOf : Expr → Expr
  | .lambda _ _ _ body => body
  | e => e

/-- The lines about an expression that could be read. -/
def expressionLines (text table : String) (tree : Bool) (c : Compiler) (e : Expr) : List String :=
  ["Canonical:", "  " ++ e.render] ++
    (if tree then ["", "Tree:", e.toJson.pretty] else []) ++
    ["", "Instruction trace:"] ++ traceLines text ++
    ["", "SQL fragment:",
      resultLine ((Sql.Context.of table c.env c.tables).compile (bodyOf e))]

/-- What there is to say about an expression. -/
def explanation (text table : String) (tree : Bool) (c : Compiler) : Outcome :=
  let heading := ["docsel expression explanation", "", "Input: " ++ text, ""]
  match Expr.parse text with
  | .ok e => ⟨0, unlines (heading ++ expressionLines text table tree c e), ""⟩
  | .error e => ⟨0, unlines heading, unlines ["Parse Error: " ++ e.message]⟩

/-! ## Names -/

/-- A member of a class in a listing. -/
def memberText : String × DomainValue → String
  | (name, .constant l) => name ++ "=" ++ l.render
  | (name, .holder _ _) => name

/-- The line of a class in a listing; a constant has none. -/
def classLine? : String × DomainValue → Option String
  | (name, .holder _ members) =>
    some ("  " ++ padEnd 16 name ++ " " ++ commaJoined (members.map memberText))
  | (_, .constant _) => none

/-- The tables and the constants. -/
def nameListing (c : Config) : Outcome :=
  ⟨0, unlines (["Tables"] ++ c.tableSet.names.map ("  " ++ ·) ++ ["", "Constants"] ++
    c.environment.names.entries.filterMap classLine?), ""⟩

/-! ## Selecting -/

def usage : Outcome :=
  ⟨0, unlines ["docsel", "",
    "Usage: docsel <TABLE> [--what EXPR]... [--where EXPR] [--order-by SPEC]...", "",
    "Try: docsel --help"], ""⟩

def failure (message : String) : Outcome := ⟨1, "", unlines ["Error: " ++ message]⟩

/-- The wording of an error with what caused it. -/
def withCause : Error → String
  | .file detail => (Error.file detail).message ++ ": " ++ detail
  | e => e.message

def projectionOf : List String → Projection
  | [] => .document
  | [text] => .one (.text text)
  | texts => .many (texts.map .text)

/-- The condition, which may stand in a file as a trace. -/
def conditionOf (files : Files) (i : Invocation) : Except String (Option Source) :=
  match i.traceFile with
  | none => .ok (i.condition.map .text)
  | some path =>
    match files.read path with
    | .error fault => .error ("reading " ++ path ++ ": " ++ fault.message)
    | .ok text =>
      match Trace.load text with
      | .ok t => .ok (some (.trace t))
      | .error e => .error (withCause e)

def requestOf (files : Files) (i : Invocation) (table : String) : Except String Request := do
  let condition ← conditionOf files i
  return ⟨table, projectionOf i.what, condition, i.order.map .ofText⟩

/-- The SQL of a request. Rows are never fetched from a store. -/
def selection (files : Files) (i : Invocation) (table : String) (c : Config) : Outcome :=
  match requestOf files i table with
  | .error message => failure message
  | .ok r =>
    match c.compiler.compile r with
    | .error e => failure (withCause e)
    | .ok q =>
      let shown := ["Generated SQL:", q.sql]
      if i.dryRun then ⟨0, unlines shown, ""⟩
      else if (i.databaseUrl <|> c.databaseUrl).isSome then
        failure "Database error: there is no connection to a store"
      else
        ⟨0, unlines (shown ++
          ["", "⚠ No database URL. Use --database-url or set DOCSEL_DATABASE_URL"]), ""⟩

/-! ## The program -/

/-- The files where a configuration is looked for. -/
def configPaths (configDirectory : Option String) : List String :=
  "docsel.toml" :: (configDirectory.map (· ++ "/docsel/config.toml")).toList

def configAt (files : Files) (path : String) : Except Error Config :=
  match files.read path with
  | .ok text => Config.ofFile path text
  | .error fault => .error (.file fault.message)

/-- The configuration: that of the file that was asked for, or else that of the first file found. -/
def configOf (files : Files) (configDirectory : Option String) (i : Invocation) :
    Except Error Config :=
  match i.configFile with
  | some path => configAt files path
  | none =>
    match (configPaths configDirectory).find? files.has with
    | some path => configAt files path
    | none => .ok .standard

/-- Carries out a command under a configuration. -/
def perform (files : Files) (i : Invocation) (c : Config) : Outcome :=
  match i.command with
  | .usage => usage
  | .select table => selection files i table c
  | .explain text table tree => explanation text table tree c.compiler
  | .names => nameListing c

/-- Runs the program. The configuration of the user is in `configDirectory`. -/
def run (files : Files) (configDirectory : Option String) (args : List String) : Outcome :=
  match Invocation.ofArgs args with
  | .error refusal => ⟨2, "", unlines ["error: " ++ refusal.message, "", "Try: docsel --help"]⟩
  | .ok i =>
    if i.command = .usage then usage
    else match configOf files configDirectory i with
      | .ok c => perform files i c
      | .error e => failure (withCause e)

end DocQuery.Cli
