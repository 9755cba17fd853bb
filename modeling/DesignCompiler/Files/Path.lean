/-!
# Paths

Taking apart and putting together file paths with `/` between their components. Empty components
and single dots do not count, apart from a dot at the very start; the text of a path is otherwise
left as it was written.
-/

namespace DesignCompiler.Files

/-- Whether a path starts at the root. -/
def isAbsolute (path : String) : Bool :=
  path.toList.head? == some '/'

/-- The leading slash of an absolute path or the leading dot of a path that starts with the
component `.`, and what follows it. -/
def splitLead : List Char → List Char × List Char
  | '/' :: rest => (['/'], rest)
  | ['.'] => (['.'], [])
  | '.' :: '/' :: rest => (['.'], '/' :: rest)
  | s => ([], s)

/-- A path read backwards without the slashes and single dots at its end. -/
def trimBackwards : List Char → List Char
  | '/' :: rest => trimBackwards rest
  | '.' :: '/' :: rest => trimBackwards rest
  | ['.'] => []
  | s => s

/-- A path cut before its last component: the text before it, read backwards and with its slash,
and the component; there is none in the root, the empty path and a single dot. -/
def splitName? (path : String) : Option (List Char × List Char × List Char) :=
  let (lead, body) := splitLead path.toList
  match trimBackwards body.reverse with
  | [] => none
  | s => some (lead, s.dropWhile (· != '/'), (s.takeWhile (· != '/')).reverse)

/-- The last component, unless it leads upwards. -/
def fileName? (path : String) : Option String :=
  match splitName? path with
  | some (_, _, name) => if name == ['.', '.'] then none else some (String.ofList name)
  | none => none

/-- A file name cut at its last dot; a dot at the very start cuts nothing. -/
def splitExtension (name : String) : String × Option String :=
  let backwards := name.toList.reverse
  let extension := (backwards.takeWhile (· != '.')).reverse
  match backwards.dropWhile (· != '.') with
  | [] | [_] => (name, none)
  | _ :: stem => (String.ofList stem.reverse, some (String.ofList extension))

/-- The file name without its extension. -/
def fileStem? (path : String) : Option String :=
  (fileName? path).map fun name => (splitExtension name).1

/-- The text after the last dot of the file name. -/
def extension? (path : String) : Option String :=
  (fileName? path).bind fun name => (splitExtension name).2

/-- The path without its last component. -/
def parent (path : String) : String :=
  match splitName? path with
  | some (lead, before, _) => String.ofList (lead ++ (trimBackwards before).reverse)
  | none => ""

/-- The path followed by another one; an absolute path replaces what stands before it. -/
def join (path other : String) : String :=
  if isAbsolute other || path.isEmpty then other
  else if path.toList.getLast? == some '/' then path ++ other
  else path ++ "/" ++ other

/-- The path with another extension on its file name; a path without a file name stays as it
is. -/
def withExtension (path extension : String) : String :=
  match splitName? path, fileStem? path with
  | some (lead, before, _), some stem =>
    String.ofList (lead ++ before.reverse) ++ stem ++ "." ++ extension
  | _, _ => path

end DesignCompiler.Files
