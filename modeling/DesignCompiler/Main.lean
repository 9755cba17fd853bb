import DesignCompiler.Command.Run

/-!
# The program

The command line over the files of the machine. Directories are not listed here, so a recursive
validation needs another host.
-/

namespace DesignCompiler.Main

open Files (FileError)

/-- The file error of an error of the machine. -/
def fileErrorOf : IO.Error → FileError
  | .noFileOrDirectory _ _ _ => .notFound
  | .inappropriateType _ 20 _ => .notDirectory
  | .inappropriateType _ _ _ => .isDirectory
  | .permissionDenied _ _ _ => .denied
  | e => .other (toString e)

/-- The result of an action on files. -/
def attempt {α : Type} (action : IO α) : IO (Except FileError α) := do
  match ← action.toBaseIO with
  | .ok a => return .ok a
  | .error e => return .error (fileErrorOf e)

/-- The host whose files are those of the machine. -/
def machineHost : Command.Host IO where
  read path := attempt (IO.FS.readFile path)
  write path text := attempt (IO.FS.writeFile path text)
  isDirectory path := do
    match ← attempt (IO.FS.readFile path) with
    | .error .isDirectory => return true
    | _ => return false
  filesBelow _ := return .error (.other "directories cannot be listed")
  print text := IO.print text

/-- What is said about the words of a command line. -/
def usage : String :=
  "Usage: " ++ about.name ++ " [-c FILE] [-v] <convert | validate | inspect | catalog> [OPTIONS]"

end DesignCompiler.Main

open DesignCompiler in
/-- Runs the program on its arguments. -/
def main (arguments : List String) : IO UInt32 := do
  let outcome ← Command.run Main.machineHost arguments
  match outcome.message? with
  | some message => IO.eprintln message
  | none => if outcome == .misused || outcome == .helped then IO.eprintln Main.usage
  return UInt32.ofNat outcome.status
