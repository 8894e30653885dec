import DocQuery.Cli.Run

/-! # The program

* `main`: reads the files that the arguments ask for, runs the command and prints what it says.
-/

set_option autoImplicit false

namespace DocQuery

/-- The files that a list of arguments may ask for. -/
def wantedPaths (configDirectory : Option String) (args : List String) : List String :=
  match Cli.Invocation.ofArgs args with
  | .ok i => i.configFile.toList ++ i.traceFile.toList ++ Cli.configPaths configDirectory
  | .error _ => []

/-- The directory of the user's configurations. -/
def configDirectory : IO (Option String) := do
  match ← IO.getEnv "XDG_CONFIG_HOME" with
  | some dir => return some dir
  | none => return (← IO.getEnv "HOME").map (· ++ "/.config")

/-- The text of a file, if it can be read. -/
def textAt? (path : String) : IO (Option (String × String)) := do
  try
    return some (path, ← IO.FS.readFile path)
  catch _ =>
    return none

/-- Whether there is a directory at a path. -/
def isDirectoryAt (path : String) : IO Bool := do
  try
    (← IO.FS.realPath path).isDir
  catch _ =>
    return false

/-- Those of some paths at which there is something to read. -/
def readFiles (paths : List String) : IO Cli.Files := do
  return ⟨← paths.filterMapM textAt?, ← paths.filterM isDirectoryAt⟩

end DocQuery

def main (args : List String) : IO UInt32 := do
  let dir ← DocQuery.configDirectory
  let files ← DocQuery.readFiles (DocQuery.wantedPaths dir args)
  let outcome := DocQuery.Cli.run files dir args
  IO.print outcome.out
  IO.eprint outcome.err
  return UInt32.ofNat outcome.code
