import StencilTiling.Host.Tree
import StencilTiling.Text.Octets

/-! The outside of a run: its files, the programs it can start, and which of its
steps fail. Every step asks once whether it is refused, so a run can be
followed under any pattern of failures. -/

namespace StencilTiling

/-- The octets of a file. -/
def Content.octets : Content → String
  | .text s => Text.octets s
  | .bytes b => String.ofList (b.map fun n => Char.ofNat n.toNat)

/-- The content with the given octets. -/
def Content.ofOctets (s : String) : Content := .ofBytes (s.toList.map fun c => c.toNat.toUInt8)

/-! ### Programs -/

/-- A program and its arguments. -/
structure Command where
  program : String
  args : List String
  deriving DecidableEq, Repr

/-- How a program ended. -/
inductive Status where
  | exited (code : Nat)
  | killed (signal : Nat)
  deriving DecidableEq, Repr

/-- The exit code; a program that was killed counts as failing with 1. -/
def Status.code : Status → Nat
  | exited code => code
  | killed _ => 1

/-- A finished program: its status, what it wrote, and the files it left. -/
structure Execution where
  status : Status
  stdout : String
  stderr : String
  tree : Tree
  deriving DecidableEq, Repr

/-- Starts a command on a tree in a working folder and follows it to its end. -/
abbrev Launcher := Command → Tree → Place → Except IoError Execution

/-! ### Hosts -/

structure Host where
  tree : Tree := {}
  /-- The working folder. -/
  home : Place
  /-- The folder for temporary folders. -/
  temp : Place
  launcher : Launcher
  /-- Steps taken so far. -/
  clock : Nat := 0
  /-- The steps that fail whatever the files say. -/
  refusals : Nat → Option IoError := fun _ => none
  /-- How names that start with a stem are chosen, if one is found. -/
  names : Tree → Place → String → Option Suffix := Tree.firstVacant

/-- Where temporary folders are made unless something else is said. -/
def Host.usualTemp : Place := ["tmp", "scratch"]

/-- A host with an empty working folder beside what is there from the start. -/
def Host.new (launcher : Launcher) (system : Tree) : Host :=
  let home := ["work"]
  let temp := usualTemp
  { tree := (system.makeFolders home).makeFolders temp, home, temp, launcher }

/-- Computations outside the program. -/
abbrev Outside := ExceptT IoError (StateM Host)

namespace Host

/-- One step, unless it is refused. -/
def step : Outside Unit := fun h =>
  let next := { h with clock := h.clock + 1 }
  match h.refusals h.clock with
  | some e => (.error e, next)
  | none => (.ok (), next)

/-- A step that looks at the host. -/
def observe {α : Type} (f : Host → Except IoError α) : Outside α := do
  step
  fun h => (f h, h)

/-- A step that changes the files, if it can. -/
def alter (f : Tree → Except IoError Tree) : Outside Unit := do
  let tree ← observe fun h => f h.tree
  modify fun h => { h with tree }

def readText (path : String) : Outside String := observe fun h => h.tree.readText h.home path

def writeFile (p : Place) (text : String) : Outside Unit := alter fun t => .ok (t.insert p (.file (.text text)))

/-- A name for a file in a folder, if it is one that can be used. -/
def nameIn (folder : Place) (name : String) : Except IoError Place :=
  if Tree.maxNameBytes < name.utf8ByteSize then .error .nameTooLong else .ok (folder ++ [name])

/-- Removes the file or link at a place. -/
def removeFile (p : Place) : Outside Unit := alter fun t => match t.get? p with
  | some .folder => .error .isFolder
  | some _ => .ok (t.erase p)
  | none => .error .noSuchFile

/-- Removes the folder at a place with all that is in it, or a link that stands there. -/
def removeFolder (p : Place) : Outside Unit := alter fun t => match t.get? p with
  | some .folder => .ok (t.eraseBelow p)
  | some (.link _) => .ok (t.erase p)
  | some (.file _) => .error .notFolder
  | none => .error .noSuchFile

/-- A vacant place in a folder for a name that starts with `stem`. A name that is taken is no
use, however it was chosen. -/
def vacantPlace (h : Host) (folder : Place) (stem : String) : Except IoError Place :=
  match h.names h.tree folder stem with
  | some s =>
    if (h.tree.get? (Tree.stemmed folder stem s)).isNone then .ok (Tree.stemmed folder stem s)
    else .error .fileExists
  | none => .error .fileExists

/-- The start of the names of temporary folders. -/
def tempStem : String := "_KG"

/-- A new temporary folder. -/
def makeTempFolder : Outside Place := do
  let p ← observe fun h =>
    if h.tree.isFolder h.temp then h.vacantPlace h.temp tempStem else .error .noSuchFile
  modify fun h => { h with tree := h.tree.insert p .folder }
  return p

/-- The start of the names of files that are not finished. -/
def scratchStem : String := ".tmp"

/-- The length of those names. -/
def scratchBytes : Nat := 10

/-- A new empty file in the folder in which a path's last name stands. -/
def makeScratch (path : String) : Outside Place := do
  let p ← observe fun h => do
    let folder ← h.tree.parentFolder h.home path scratchBytes
    h.vacantPlace folder scratchStem
  modify fun h => { h with tree := h.tree.insert p (.file (.text "")) }
  return p

/-- Moves the file at `p` to the path, over a file that stands there. -/
def rename (p : Place) (path : String) : Outside Unit := do
  let (target, content) ← observe fun h => do
    let target ← h.tree.locate false h.home path
    match h.tree.get? target, h.tree.get? p with
    | some .folder, _ => throw .isFolder
    | _, some (.file content) => return (target, content)
    | _, _ => throw .noSuchFile
  modify fun h => { h with tree := (h.tree.erase p).insert target (.file content) }

/-- The files below each temporary folder that is still there, by their names from
that folder on, in order. -/
def tempFolders (h : Host) : List (List String) :=
  let below (p : Place) : List String := h.tree.files.filterMap fun (q, _) =>
    if p.isPrefixOf q && p.length < q.length then some ("/".intercalate (q.drop p.length)) else none
  let folders := (h.tree.names h.temp).map fun name => (below (h.temp ++ [name])).mergeSort fun a b => !decide (b < a)
  folders.mergeSort fun a b => !decide (b < a)

/-- The finished files that a run has changed in its working folder. -/
def written (before after : Host) : List (String × String) :=
  (before.tree.changes after.tree before.home).filterMap fun (names, c) =>
    if names.getLast?.any fun name => scratchStem.isPrefixOf name then none
    else some ("/".intercalate names, Text.ofOctets c.octets)

end Host

end StencilTiling
