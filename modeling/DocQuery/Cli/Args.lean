/-! # Command-line arguments

Options have a long name, and may have a short one. The value of an option is attached to it
(`--name=v`, `-nv`, `-n=v`) or is the next argument. Short options without a value may be written
together. An argument `--` ends the options. A value that is the next argument must not start with a
hyphen, unless the option allows it; a single hyphen is a value like any other.

* `Options`: the options, positional arguments and subcommands that are known.
* `Scanned`: the arguments as they were given; `Options.scan` reads them.
* `Refusal`: why arguments cannot be used; `Refusal.message` says so.
-/

set_option autoImplicit false

namespace DocQuery.Cli

/-- How an option is written. -/
structure OptionForm where
  long : String
  short : Option Char
  takesValue : Bool
  /-- Whether the value may start with a hyphen. -/
  hyphens : Bool
  /-- Whether the option may be given several times. -/
  repeats : Bool
deriving DecidableEq, Repr

/-- The options of type `α` and the subcommands that are known. -/
structure Options (α : Type) where
  all : List α
  form : α → OptionForm
  commands : List String

/-- The arguments as they were given: the options in order, with their values, the positional
arguments, and the subcommand with the arguments after it. -/
structure Scanned (α : Type) where
  given : List (α × String)
  positionals : List String
  command : Option (String × List String)

/-- Why arguments cannot be used. -/
inductive Refusal where
  | unknownOption (written : String)
  | missingValue (option : String)
  | unexpectedValue (option : String)
  | invalidValue (option : String)
  | repeatedOption (option : String)
  | conflict (option other : String)
  | unexpectedArgument (argument : String)
  | missingArgument (name : String)
deriving DecidableEq, Repr

/-- What is said of arguments that cannot be used. -/
def Refusal.message : Refusal → String
  | unknownOption written => "there is no option " ++ written
  | missingValue option => "the option --" ++ option ++ " needs a value"
  | unexpectedValue option => "the option --" ++ option ++ " takes no value"
  | invalidValue option => "the option --" ++ option ++ " does not take this value"
  | repeatedOption option => "the option --" ++ option ++ " may be given once only"
  | conflict option other =>
    "the options --" ++ option ++ " and --" ++ other ++ " exclude each other"
  | unexpectedArgument argument => "the argument '" ++ argument ++ "' is not expected"
  | missingArgument name => "the argument " ++ name ++ " is missing"

namespace Scanned

variable {α : Type}

def none : Scanned α := ⟨[], [], Option.none⟩

def withOption (s : Scanned α) (o : α) (value : String) : Scanned α :=
  { s with given := (o, value) :: s.given }

def withOptions (s : Scanned α) (given : List (α × String)) : Scanned α :=
  { s with given := given ++ s.given }

def withPositional (s : Scanned α) (value : String) : Scanned α :=
  { s with positionals := value :: s.positionals }

def values [DecidableEq α] (s : Scanned α) (o : α) : List String :=
  (s.given.filter (·.1 = o)).map (·.2)

def has [DecidableEq α] (s : Scanned α) (o : α) : Bool := s.given.any (·.1 = o)

/-- The value of an option that is given at most once. -/
def value? [DecidableEq α] (s : Scanned α) (o : α) : Option String := (s.values o).head?

end Scanned

namespace Options

variable {α : Type}

def long? (os : Options α) (name : String) : Option α :=
  os.all.find? fun o => (os.form o).long == name

def short? (os : Options α) (c : Char) : Option α :=
  os.all.find? fun o => (os.form o).short == some c

/-- The name and the attached value of a long option, after the hyphens. -/
def splitLong (s : List Char) : String × Option String :=
  let name := s.takeWhile (· != '=')
  (String.ofList name,
    match s.drop name.length with
    | _ :: value => some (String.ofList value)
    | [] => none)

/-- Options written together, after the hyphen. The last one may wait for its value. -/
def cluster (os : Options α) : List Char → Except Refusal (List (α × String) × Option α)
  | [] => .ok ([], none)
  | c :: rest =>
    match os.short? c with
    | none => .error (.unknownOption (String.ofList ['-', c]))
    | some o =>
      if (os.form o).takesValue then
        match rest with
        | [] => .ok ([], some o)
        | '=' :: value => .ok ([(o, String.ofList value)], none)
        | value => .ok ([(o, String.ofList value)], none)
      else do
        let (others, waiting) ← cluster os rest
        return ((o, "") :: others, waiting)

/-- A long option, after the hyphens. It may wait for its value. -/
def longOption (os : Options α) (s : List Char) : Except Refusal (List (α × String) × Option α) :=
  let (name, attached) := splitLong s
  match os.long? name, attached with
  | none, _ => .error (.unknownOption ("--" ++ name))
  | some o, some value =>
    if (os.form o).takesValue then .ok ([(o, value)], none) else .error (.unexpectedValue name)
  | some o, none => if (os.form o).takesValue then .ok ([], some o) else .ok ([(o, "")], none)

/-- Reads arguments, of which `waiting` is an option that waits for its value. -/
def scanFrom (os : Options α) : Option α → List String → Except Refusal (Scanned α)
  | none, [] => .ok .none
  | some o, [] => .error (.missingValue (os.form o).long)
  | some o, arg :: args =>
    if (os.form o).hyphens || !(arg.toList.head? == some '-') || arg == "-" then do
      return (← scanFrom os none args).withOption o arg
    else .error (.missingValue (os.form o).long)
  | none, arg :: args =>
    -- The arguments behind a subcommand are read by its own options.
    if os.commands.contains arg then .ok { Scanned.none with command := some (arg, args) }
    else if arg == "--" then .ok { Scanned.none with positionals := args }
    else
      match arg.toList with
      | '-' :: '-' :: rest => do
        let (given, waiting) ← os.longOption rest
        return (← scanFrom os waiting args).withOptions given
      | '-' :: c :: rest => do
        let (given, waiting) ← os.cluster (c :: rest)
        return (← scanFrom os waiting args).withOptions given
      | _ => do return (← scanFrom os none args).withPositional arg

/-- Reads arguments. An option that may not be repeated is given at most once. -/
def scan [DecidableEq α] (os : Options α) (args : List String) : Except Refusal (Scanned α) := do
  let s ← os.scanFrom none args
  match os.all.find? fun o => !(os.form o).repeats && 1 < (s.values o).length with
  | some o => .error (.repeatedOption (os.form o).long)
  | none => return s

end Options

end DocQuery.Cli
