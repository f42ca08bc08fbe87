import StencilTiling.Host.Basic
import StencilTiling.Shell.Script
import StencilTiling.Text.Octets

/-! A running program: its files, its parameters and variables, where its
descriptors lead, and what it has written. Everything it handles is octets. -/

namespace StencilTiling.Shell

/-- Where a descriptor leads. -/
inductive Sink where
  | stdout
  | stderr
  /-- A pipe by its number. -/
  | pipe (n : Nat)
  | file (p : Place)
  | nowhere
  /-- A descriptor for reading. -/
  | input
  deriving DecidableEq, Repr

structure Variable where
  name : String
  value : String
  exported : Bool := false
  fixed : Bool := false
  deriving DecidableEq, Repr

/-- Whether a job goes on with its next command. -/
inductive Flow where
  | onward
  /-- Leaves that many loops, or goes on with the next round of the last of them. -/
  | leaveLoops (n : Nat) (again : Bool)
  | leaveFunction
  | ended (status : Status)
  deriving DecidableEq, Repr

structure Job where
  tree : Tree
  /-- The working folder. -/
  folder : Place
  /-- The name the job goes by. -/
  name : String
  args : List String := []
  vars : List Variable := []
  functions : List (String × Script) := []
  /-- Letters of the options in force. -/
  options : List Char := []
  /-- Commands by signal; number 0 is the end of the job. -/
  traps : List (Nat × String) := []
  stdin : String := ""
  sinks : List (Nat × Sink) := [(0, .input), (1, .stdout), (2, .stderr)]
  stdout : String := ""
  stderr : String := ""
  /-- What the open pipes hold, the innermost last. -/
  pipes : List String := []
  status : Nat := 0
  /-- The line of the command at work. -/
  line : Nat := 1
  /-- The part of the shell that complains, if it is not the shell as a whole. -/
  speaker : String := ""
  flow : Flow := .onward
  /-- The status of the last command inside a word, if there was one. -/
  inner : Option Nat := none
  /-- Loops around the command at work. -/
  loops : Nat := 0
  /-- How many jobs inside jobs this one is. -/
  depth : Nat := 0
  /-- A signal that an inner job has sent to the outermost one. -/
  pending : Option Nat := none
  /-- What the function at work has to restore, if there is one. -/
  locals : Option (List (String × Option Variable)) := none
  /-- Commands that were started aside, with their statuses. -/
  asides : List (Nat × Nat) := []
  /-- Something was written to a descriptor that leads nowhere. -/
  lost : Bool := false

/-- A path without slashes at its end. -/
def barePath (path : String) : String :=
  let cs := (path.toList.reverse.dropWhile (· == '/')).reverse
  if cs.isEmpty then path else String.ofList cs

namespace Job

/-! ### Flow -/

def isOnward (p : Job) : Bool := p.flow == .onward

/-- Goes on unless the flow says otherwise. -/
def andThen (p : Job) (f : Job → Job) : Job := if p.isOnward then f p else p

def leave (p : Job) (status : Nat) : Job := { p with status }

def finish (p : Job) (status : Status) : Job := { p with flow := .ended status }

def hasOption (p : Job) (c : Char) : Bool := p.options.contains c

/-! ### Output -/

/-- Appends octets to a file that was opened; they are lost if it is gone since. -/
def appendTo (p : Job) (place : Place) (s : String) : Job :=
  match p.tree.get? place with
  | some (.file c) => { p with tree := p.tree.insert place (.file (.ofOctets (c.octets ++ s))) }
  | _ => p

/-- Appends octets to a descriptor. -/
def emit (p : Job) (fd : Nat) (s : String) : Job :=
  match p.sinks.lookup fd with
  | some .stdout => { p with stdout := p.stdout ++ s }
  | some .stderr => { p with stderr := p.stderr ++ s }
  | some (.pipe n) => { p with pipes := p.pipes.modify n (· ++ s) }
  | some (.file place) => p.appendTo place s
  | some .nowhere => p
  | some .input | none => { p with lost := p.lost || (fd == 1 && !s.isEmpty) }

def print (p : Job) (s : String) : Job := p.emit 1 s

def complain (p : Job) (s : String) : Job := p.emit 2 (s ++ "\n")

/-- A complaint of a program, under the name by which it was started. -/
def report (p : Job) (s : String) : Job := p.complain s!"{p.name}: {s}"

/-- A complaint of the shell itself. -/
def warn (p : Job) (s : String) : Job := p.complain s!"{p.name}: {p.line}: {p.speaker}{s}"

/-- A complaint that ends the job. -/
def abort (p : Job) (s : String) : Job := ((p.warn s).leave 2).finish (.exited 2)

/-! ### Files -/

def resolve (p : Job) (path : String) : Except IoError Place := p.tree.resolve p.folder (Text.ofOctets path)

/-- The place of the last name of a path, which may be a link. -/
def locate (p : Job) (path : String) : Except IoError Place := p.tree.locate false p.folder (Text.ofOctets path)

/-- What stands at the last name of a path, which may be a link. -/
def entryAt? (p : Job) (path : String) : Option Entry :=
  match p.locate path with
  | .ok place => p.tree.get? place
  | .error _ => none

def nullDevice : String := "/dev/null"

/-- How much is taken from a source without an end. -/
def endlessOctets : Nat := 0x100000

/-- The octets of the file at a path. -/
def read (p : Job) (path : String) : Except IoError String :=
  if path == nullDevice then .ok ""
  else if path == "/dev/stdin" then .ok p.stdin
  else if path == "/dev/zero" then .ok (String.ofList (List.replicate endlessOctets '\x00'))
  else (p.tree.read p.folder (Text.ofOctets path)).map Content.octets

/-- What stands at a path; the working folder is there for the job even if it was removed. -/
def standing? (p : Job) (path : String) : Option Entry :=
  if path == nullDevice then some (.file (.text ""))
  else if !path.isEmpty && !Path.isAbsolute path && (Path.names path).isEmpty then some .folder
  else match p.resolve path with
    | .ok place => p.tree.get? place
    | .error _ => none

def isFolder (p : Job) (path : String) : Bool := p.standing? path == some .folder

/-- The bare reason of a failure, without its number. -/
def reason (e : IoError) : String :=
  match Text.splitOnce '(' e.message.toList with
  | some (before, _) => String.ofList (Text.trimEnd before)
  | none => e.message

/-! ### Variables -/

def lookup? (p : Job) (name : String) : Option Variable := p.vars.find? (·.name == name)

def value? (p : Job) (name : String) : Option String := (p.lookup? name).map Variable.value

/-- Sets a variable that is not fixed. -/
def setVar (p : Job) (name value : String) : Job :=
  match p.lookup? name with
  | some v =>
    if v.fixed then p.abort s!"{name}: is read only"
    else { p with vars := { v with value } :: p.vars.filter (·.name != name) }
  | none => { p with vars := ⟨name, value, p.hasOption 'a', false⟩ :: p.vars }

def unset (p : Job) (name : String) : Job := { p with vars := p.vars.filter (·.name != name) }

/-- Puts a variable back as it was. -/
def restore (p : Job) (name : String) (old : Option Variable) : Job :=
  { p.unset name with vars := old.toList ++ (p.unset name).vars }

def markExported (p : Job) (name : String) : Job :=
  match p.lookup? name with
  | some v => { p with vars := { v with exported := true } :: p.vars.filter (·.name != name) }
  | none => p

def markFixed (p : Job) (name : String) : Job :=
  match p.lookup? name with
  | some v => { p with vars := { v with fixed := true } :: p.vars.filter (·.name != name) }
  | none => p

/-- The variables that programs started by this one see. -/
def exported (p : Job) : List Variable := p.vars.filter Variable.exported

end Job

end StencilTiling.Shell
