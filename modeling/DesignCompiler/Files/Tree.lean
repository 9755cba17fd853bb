import DesignCompiler.Files.Path
import DesignCompiler.KeyMap
import DesignCompiler.Text.Split

/-!
# File trees

A tree of directories and text files that is held in memory, and what can be done with a path in
it. Paths are followed component by component from the top directory, which has nothing above it.
-/

namespace DesignCompiler.Files

/-- Why a file cannot be read or written. -/
inductive FileError where
  | notFound
  | notDirectory
  | isDirectory
  | denied
  | other (reason : String)
deriving DecidableEq, Repr

/-- The text of a file error. -/
def FileError.message : FileError → String
  | .notFound => "No such file or directory (os error 2)"
  | .notDirectory => "Not a directory (os error 20)"
  | .isDirectory => "Is a directory (os error 21)"
  | .denied => "Permission denied (os error 13)"
  | .other reason => reason

/-- Text files and directories under their paths from the top, with single slashes between the
components. -/
structure Tree where
  files : KeyMap String
  directories : KeyMap Unit
deriving Inhabited

/-- What a path leads to. -/
inductive Place where
  | directory (path : List String)
  | file (path : List String) (text : String)
  /-- Nothing, in a directory that there is. -/
  | absent (path : List String)
deriving Repr

namespace Tree

/-- The tree that has only the top directory. -/
def empty : Tree :=
  ⟨∅, ∅⟩

/-- Components as one path. -/
def pathOf (components : List String) : String :=
  "/".intercalate components

/-- Whether there is a directory. -/
def hasDirectory (t : Tree) (path : List String) : Bool :=
  path.isEmpty || (t.directories.find? (pathOf path)).isSome

/-- The components of a path that lead somewhere. -/
def components (path : String) : List String :=
  ((Text.splitAt '/' path.toList).map String.ofList).filter fun c => c != "" && c != "."

/-- The tree with a directory and all directories above it. -/
def addDirectory (t : Tree) (path : List String) : Tree :=
  { t with
    directories := (List.range path.length).foldl
      (fun ds n => ds.insert (pathOf (path.take (n + 1))) ()) t.directories }

/-- The tree with a file, and with the directories above it. -/
def addFile (t : Tree) (path : List String) (text : String) : Tree :=
  let t := t.addDirectory path.dropLast
  { t with files := t.files.insert (pathOf path) text }

/-- Follows components from a directory. -/
def follow (t : Tree) (here : List String) : List String → Except FileError Place
  | [] => .ok (.directory here)
  | c :: rest =>
    if c == "" || c == "." then follow t here rest
    else if c == ".." then if here.isEmpty then .error .notFound else follow t here.dropLast rest
    else
      let next := here ++ [c]
      if t.hasDirectory next then follow t next rest
      else
        match t.files.find? (pathOf next) with
        | some text => if rest.isEmpty then .ok (.file next text) else .error .notDirectory
        | none => if rest.isEmpty then .ok (.absent next) else .error .notFound

/-- What a path leads to. Nothing is known about absolute paths, and the empty path leads
nowhere. -/
def place (t : Tree) (path : String) : Except FileError Place :=
  if path.isEmpty || isAbsolute path then .error .notFound
  else t.follow [] ((Text.splitAt '/' path.toList).map String.ofList)

/-- The text of a file. -/
def read (t : Tree) (path : String) : Except FileError String :=
  match t.place path with
  | .error e => .error e
  | .ok (.directory _) => .error .isDirectory
  | .ok (.file _ text) => .ok text
  | .ok (.absent _) => .error .notFound

/-- The path without slashes at its end. -/
def withoutTrailingSlashes (path : String) : String :=
  String.ofList (path.toList.reverse.dropWhile (· == '/')).reverse

/-- The tree after a text was written to a file, which may be new. A path that ends in a slash is
a directory. -/
def write (t : Tree) (path text : String) : Except FileError Tree :=
  let bare := withoutTrailingSlashes path
  match t.place bare with
  | .error e => .error e
  | .ok (.directory _) => .error .isDirectory
  | .ok (.file p _) | .ok (.absent p) =>
    if bare == path then .ok { t with files := t.files.insert (pathOf p) text }
    else .error .isDirectory

/-- Whether a path leads to a directory. -/
def isDirectory (t : Tree) (path : String) : Bool :=
  match t.place path with
  | .ok (.directory _) => true
  | _ => false

/-- The paths of all files in a directory and below it, each starting with the path of the
directory. -/
def filesBelow (t : Tree) (path : String) : Except FileError (List String) :=
  match t.place path with
  | .ok (.directory here) =>
    .ok (t.files.keys.filterMap fun file =>
      let parts := components file
      if here.isPrefixOf parts then some (join path (pathOf (parts.drop here.length))) else none)
  | .ok _ => .error .notDirectory
  | .error e => .error e

end Tree

end DesignCompiler.Files
