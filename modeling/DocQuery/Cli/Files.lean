/-! # Files

* `Files`: the files and directories that the program can see, by their paths.
* `Files.walk`: the place to which a path leads, one part after the other.
* `Files.read`: the text of a file, or the reason why there is none.
-/

set_option autoImplicit false

namespace DocQuery.Cli

/-- Why a file cannot be read. -/
inductive FileFault where
  | missing
  | isDirectory
  | notDirectory
  | nameTooLong
deriving DecidableEq, Repr

def FileFault.message : FileFault → String
  | missing => "No such file or directory (os error 2)"
  | isDirectory => "Is a directory (os error 21)"
  | notDirectory => "Not a directory (os error 20)"
  | nameTooLong => "File name too long (os error 36)"

/-- The files with their texts, and directories that are there without a file in them. -/
structure Files where
  texts : List (String × String)
  directories : List String
deriving DecidableEq, Repr

namespace Files

/-- The number of bytes that a name may have. -/
def nameLimit : Nat := 255

/-- The number of bytes that a path may have. -/
def pathLimit : Nat := 4095

/-- Where a path leads: to a file with its text, or to a directory. -/
inductive Place where
  | file (text : String)
  | directory
deriving DecidableEq, Repr

/-- Adds a step to a path, of which the last step comes first. Above the place where a path starts
the way up is a step of its own. -/
def step (path : List String) (part : String) : List String :=
  if part = "" ∨ part = "." then path
  else if part = ".." then
    match path with
    | [] => [".."]
    | last :: rest => if last = "/" then path else if last = ".." then ".." :: path else rest
  else part :: path

/-- The step from which a path starts: none, or that to the root of all files. -/
def start (path : String) : List String := if path.toList.head? = some '/' then ["/"] else []

/-- The steps of a path, the last one first. -/
def steps (path : String) : List String := (path.splitOn "/").foldl step (start path)

/-- Whether some steps lead to a directory for certain: to the one from which paths start, to one
above it, or to the root. -/
def isAbove (path : List String) : Bool := path.all (· == "..") || path == ["/"]

/-- What is at the end of some steps. What is above the start is always there, and so are the
directories of all that is there. -/
def place? (files : Files) (path : List String) : Option Place :=
  match files.texts.find? fun f => steps f.1 = path with
  | some f => some (.file f.2)
  | none =>
    let known := files.texts.map (·.1) ++ files.directories
    if isAbove path || known.any fun p => path.isSuffixOf (steps p) then some .directory else none

/-- Goes on from a place along the parts of a path. Only a directory leads on, and it has no names
beyond the limit. -/
def walk (files : Files) : List String → Place → List String → Except FileFault Place
  | _, here, [] => .ok here
  | _, .file _, _ :: _ => .error .notDirectory
  | path, .directory, part :: rest =>
    if nameLimit < part.utf8ByteSize then .error .nameTooLong
    else match files.place? (step path part) with
      | some there => walk files (step path part) there rest
      | none => .error .missing

def read (files : Files) (path : String) : Except FileFault String := do
  if pathLimit < path.utf8ByteSize then .error .nameTooLong
  else match ← files.walk (start path) .directory (path.splitOn "/") with
    | .file text => return text
    | .directory => .error .isDirectory

/-- Whether there is something at a path. -/
def has (files : Files) (path : String) : Bool :=
  match files.read path with
  | .ok _ => true
  | .error .isDirectory => true
  | .error _ => false

end Files

end DocQuery.Cli
