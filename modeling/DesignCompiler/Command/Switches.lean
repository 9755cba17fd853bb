import DesignCompiler.Text.Split

/-!
# Command lines

How the words of a command line are read. A switch has a long name, used as `--name` or
`--name=value`, and may have a letter, used as `-n`, `-nvalue` or `-n=value`; letters without
values can be joined. A value does not start with a hyphen unless it is attached or a hyphen
alone. Behind `--` there are only plain words. A word counts as complete when the next one comes,
so the first thing that is wrong decides.
-/

namespace DesignCompiler.Command

/-- What a switch does. -/
inductive SwitchKind where
  /-- Takes a value, once. -/
  | single
  /-- Takes a value each time. -/
  | many
  /-- Stands once. -/
  | flag
  /-- Stands any number of times. -/
  | count
  | help
  | version
deriving DecidableEq, Repr

/-- A switch. -/
structure Switch where
  name : String
  letter : Option Char
  kind : SwitchKind
  /-- The values that it takes; it takes every value if there are none. -/
  choices : List String := []
deriving DecidableEq, Repr

/-- Whether the switch takes a value. -/
def Switch.takesValue (s : Switch) : Bool :=
  s.kind == .single || s.kind == .many

/-- The words that a command understands. -/
structure Grammar where
  switches : List Switch
  /-- The name of the plain word, and whether it must be there. -/
  operand : Option (String × Bool)
deriving DecidableEq, Repr

/-- Why reading ends before its end. -/
inductive Stop where
  | usage
  | help
  | version
deriving DecidableEq, Repr

/-- Names of switches and operands with their values, in the order of the words. -/
abbrev Matches := List (String × String)

/-- What has been read. -/
structure Reading where
  found : Matches
  /-- A switch that is not counted yet, with its value once that is known. -/
  pending : Option (Switch × Option String)
  /-- Only plain words follow. -/
  trailing : Bool
deriving Repr

namespace Reading

/-- Nothing has been read. -/
def start : Reading :=
  ⟨[], none, false⟩

/-- Whether a value for a switch must come next. -/
def isAwaiting (r : Reading) : Bool :=
  match r.pending with
  | some (_, none) => true
  | _ => false

/-- Whether something was found under a name. -/
def has (r : Reading) (name : String) : Bool :=
  (r.found.lookup name).isSome

/-- Adds a match. -/
def add (r : Reading) (name value : String) : Reading :=
  { r with found := r.found ++ [(name, value)] }

/-- Counts a switch with its value. -/
def record (r : Reading) (s : Switch) (value : Option String) : Except Stop Reading :=
  match s.kind, value with
  | .help, _ => .error .help
  | .version, _ => .error .version
  | .count, _ => .ok (r.add s.name "")
  | .flag, _ => if r.has s.name then .error .usage else .ok (r.add s.name "")
  | _, none => .error .usage
  | kind, some v =>
    if !s.choices.isEmpty && !s.choices.contains v then .error .usage
    else if kind == .single && r.has s.name then .error .usage
    else .ok (r.add s.name v)

/-- Counts the pending switch. -/
def settle (r : Reading) : Except Stop Reading :=
  match r.pending with
  | none => .ok r
  | some (s, value) => { r with pending := none }.record s value

/-- Begins a switch, whose value may be attached. -/
def begin (r : Reading) (s : Switch) (attached : Option String) : Except Stop Reading :=
  match s.takesValue, attached with
  | true, none => r.settle.map fun r => { r with pending := some (s, none) }
  | false, some _ => .error .usage
  | _, value => r.settle.bind fun r => r.record s value

/-- Reads a long switch behind its two hyphens. -/
def long (g : Grammar) (r : Reading) (body : List Char) : Except Stop Reading :=
  let (name, value) := match Text.splitFirst '=' body with
    | some (name, value) => (name, some (String.ofList value))
    | none => (body, none)
  match g.switches.find? fun s => s.name.toList == name with
  | some s => r.begin s value
  | none => .error .usage

/-- Reads letters behind a hyphen. -/
def letters (g : Grammar) (r : Reading) : List Char → Except Stop Reading
  | [] => .ok r
  | c :: rest =>
    match g.switches.find? fun s => s.letter == some c with
    | none => .error .usage
    | some s =>
      if s.takesValue then
        match rest with
        | [] => r.begin s none
        | '=' :: value => r.begin s (some (String.ofList value))
        | value => r.begin s (some (String.ofList value))
      else (r.begin s none).bind fun r => letters g r rest

/-- Reads a plain word. -/
def word (g : Grammar) (r : Reading) (w : String) : Except Stop Reading :=
  r.settle.bind fun r =>
    match g.operand with
    | some (name, _) => if r.has name then .error .usage else .ok (r.add name w)
    | none => .error .usage

/-- Reads one more word. -/
def step (g : Grammar) (r : Reading) (w : String) : Except Stop Reading :=
  if r.trailing then r.word g w
  else
    match w.toList with
    | ['-', '-'] => .ok { r with trailing := true }
    | '-' :: '-' :: body => r.long g body
    | '-' :: c :: body => r.letters g (c :: body)
    | _ =>
      match r.pending with
      | some (s, none) => .ok { r with pending := some (s, some w) }
      | _ => r.word g w

/-- Everything that was found, once there are no more words. -/
def finish (g : Grammar) (r : Reading) : Except Stop Matches :=
  r.settle.bind fun r =>
    match g.operand with
    | some (name, true) => if r.has name then .ok r.found else .error .usage
    | _ => .ok r.found

end Reading

/-- Reads all words of a command. -/
def Grammar.read (g : Grammar) (words : List String) : Except Stop Matches :=
  (words.foldlM (Reading.step g) .start).bind (Reading.finish g)

/-- The words of a program with commands: what stands before the command, and the command with its
own words. -/
structure CommandLine where
  found : Matches
  command : Option (String × Matches)
deriving Repr

/-- What asking for help leads to: words behind it name one command at most. -/
def helpStop (commands : List (String × Grammar)) : List String → Stop
  | [] => .help
  | [name] => if name == "help" || (commands.lookup name).isSome then .help else .usage
  | _ => .usage

/-- Reads the words of a program with commands, of which `help` is one. -/
def readFrom (top : Grammar) (commands : List (String × Grammar)) (r : Reading) :
    List String → Except Stop CommandLine
  | [] => (r.finish top).map fun found => ⟨found, none⟩
  | w :: rest =>
    if r.trailing || r.isAwaiting then
      (r.step top w).bind fun r => readFrom top commands r rest
    else if w == "help" then .error (helpStop commands rest)
    else
      match commands.lookup w with
      | some g => do
        let inner ← g.read rest
        return ⟨← r.finish top, some (w, inner)⟩
      | none => (r.step top w).bind fun r => readFrom top commands r rest

end DesignCompiler.Command
