import StencilTiling.Text.Blank

/-! Files and folders. A tree maps places to entries; a path is a text that is
followed from a folder, one piece at a time. -/

namespace StencilTiling

/-- Why a step outside the program fails. -/
inductive IoError where
  | noSuchFile
  | permissionDenied
  | notFolder
  | isFolder
  | fileExists
  | notEmpty
  | tooManyLinks
  | nameTooLong
  | argumentsTooLong
  /-- A file that may be run but is no program. -/
  | notProgram
  /-- A null character in a path. -/
  | badName
  /-- A null character in an argument of a program. -/
  | badArgument
  | notText
  | refused (reason : String)
  deriving DecidableEq, Repr

def IoError.message : IoError → String
  | noSuchFile => "No such file or directory (os error 2)"
  | permissionDenied => "Permission denied (os error 13)"
  | notFolder => "Not a directory (os error 20)"
  | isFolder => "Is a directory (os error 21)"
  | fileExists => "File exists (os error 17)"
  | notEmpty => "Directory not empty (os error 39)"
  | tooManyLinks => "Too many levels of symbolic links (os error 40)"
  | nameTooLong => "File name too long (os error 36)"
  | argumentsTooLong => "Argument list too long (os error 7)"
  | notProgram => "Exec format error (os error 8)"
  | badName => "file name contained an unexpected NUL byte"
  | badArgument => "nul byte found in provided data"
  | notText => "stream did not contain valid UTF-8"
  | refused reason => reason

/-! ### Paths -/

namespace Path

/-- The pieces between slashes, empty ones included. -/
def pieces (path : String) : List String := (Text.splitAt (· == '/') path.toList).map String.ofList

def isAbsolute (path : String) : Bool := path.toList.head? == some '/'

/-- The pieces that name something: neither empty nor the folder itself. -/
def names (path : String) : List String := (pieces path).filter fun s => s != "" && s != "."

/-- The last name, unless it leads upwards. -/
def fileName? (path : String) : Option String :=
  match (names path).getLast? with
  | some ".." => none
  | last => last

/-- A piece that names nothing; a path may start with one that still counts. -/
def isIdle (piece : String × Nat) : Bool := (piece.1 == "" || piece.1 == ".") && piece.2 != 0

/-- The pieces without idle ones at the end. -/
def dropIdle (pieces : List (String × Nat)) : List (String × Nat) := (pieces.reverse.dropWhile isIdle).reverse

/-- The text of a path up to its last name. -/
def parent (path : String) : String :=
  "/".intercalate ((dropIdle (dropIdle (pieces path).zipIdx).dropLast).map Prod.fst)

/-- A path followed from a folder; an absolute path stands for itself. -/
def join (folder path : String) : String :=
  if isAbsolute path || folder.isEmpty then path
  else if folder.toList.getLast? = some '/' then folder ++ path
  else folder ++ "/" ++ path

end Path

/-! ### Trees -/

/-- Where an entry stands: the names from the root down. -/
abbrev Place := List String

/-- Letters and digits, by which names that start alike differ. -/
structure Suffix where
  text : String
  plain : ∀ c ∈ text.toList, c.isAlphanum = true

/-- The digits of a number. -/
def Suffix.number (n : Nat) : Suffix where
  text := toString n
  plain c hc := by
    rw [Nat.toString_eq_ofList_toDigits, String.toList_ofList] at hc
    have hdigit := Nat.isDigit_of_mem_toDigits (by decide) (by decide) hc
    simp [Char.isAlphanum, hdigit]

/-- What a file holds: a text, or bytes that are not the encoding of one. -/
inductive Content where
  | text (s : String)
  | bytes (b : List UInt8)
  deriving DecidableEq, Repr

/-- The content with the given bytes. -/
def Content.ofBytes (b : List UInt8) : Content :=
  match String.fromUTF8? ⟨b.toArray⟩ with
  | some s => .text s
  | none => .bytes b

inductive Entry where
  | folder
  | file (content : Content)
  /-- Stands for what a path leads to from the link's folder. -/
  | link (path : String)
  deriving DecidableEq, Repr

/-- Entries by place; the first entry of a place counts, and the root is a folder. -/
structure Tree where
  entries : List (Place × Entry) := []
  /-- Files that may be run as programs. -/
  runnable : List Place := []
  deriving DecidableEq, Repr

namespace Tree

def get? (t : Tree) (p : Place) : Option Entry := if p.isEmpty then some .folder else t.entries.lookup p

def isFolder (t : Tree) (p : Place) : Bool := t.get? p == some .folder

def erase (t : Tree) (p : Place) : Tree := ⟨t.entries.filter (·.1 != p), t.runnable.filter (· != p)⟩

def insert (t : Tree) (p : Place) (e : Entry) : Tree := { t with entries := (p, e) :: t.entries.filter (·.1 != p) }

/-- Removes an entry and everything below it. -/
def eraseBelow (t : Tree) (p : Place) : Tree :=
  ⟨t.entries.filter fun (q, _) => !p.isPrefixOf q, t.runnable.filter fun q => !p.isPrefixOf q⟩

/-- Moves an entry and everything below it to a place, over what stands there. -/
def move (t : Tree) (source target : Place) : Tree :=
  let moved (q : Place) : Place := target ++ q.drop source.length
  let rest := (t.eraseBelow target).eraseBelow source
  ⟨((t.entries.filter fun (q, _) => source.isPrefixOf q).map fun (q, e) => (moved q, e)) ++ rest.entries,
    (t.runnable.filter fun q => source.isPrefixOf q).map moved ++ rest.runnable⟩

/-- The names of what stands in a folder. -/
def names (t : Tree) (folder : Place) : List String :=
  (t.entries.filterMap fun (q, _) => if q.dropLast == folder && !q.isEmpty then q.getLast? else none).eraseDups

/-- The files of the tree. -/
def files (t : Tree) : List (Place × Content) := t.entries.filterMap fun (p, e) =>
  match e with
  | .file c => some (p, c)
  | _ => none

/-- Makes the folders on the way to a place and the place itself. -/
def makeFolders (t : Tree) (p : Place) : Tree :=
  let stations := (List.range p.length).map fun n => p.take (n + 1)
  stations.foldl (fun t q => if (t.get? q).isSome then t else t.insert q .folder) t

/-- Puts a file in place, with the folders it needs. -/
def addFile (t : Tree) (p : Place) (c : Content) : Tree := (t.makeFolders p.dropLast).insert p (.file c)

/-- The longest name of an entry, in bytes. -/
def maxNameBytes : Nat := 255

/-- Paths are shorter than this, in bytes. -/
def maxPathBytes : Nat := 4096

/-- Where a walk along a path comes to: its place, or a link that leads on. -/
inductive Station where
  | here (p : Place)
  | link (folder : Place) (path : String) (rest : List String)
  deriving DecidableEq, Repr

/-- Walks from a folder along the pieces of a path. Only the last name may be
vacant, and only the last name may be a file. A link stops the walk, except as
the last name where `follow` is off. -/
def walkToLink (t : Tree) (follow : Bool) (here : Place) : List String → Except IoError Station
  | [] => .ok (.here here)
  | piece :: rest =>
    if piece = "" ∨ piece = "." then t.walkToLink follow here rest
    else if piece = ".." then t.walkToLink follow here.dropLast rest
    else if maxNameBytes < piece.utf8ByteSize then .error .nameTooLong
    else
      let next := here ++ [piece]
      match t.get? next with
      | some .folder => t.walkToLink follow next rest
      | some (.file _) => if rest.isEmpty then .ok (.here next) else .error .notFolder
      | some (.link path) => if rest.isEmpty && !follow then .ok (.here next) else .ok (.link here path rest)
      | none => if rest.isEmpty then .ok (.here next) else .error .noSuchFile

/-- Walks on through links, at most so many. -/
def walkOn (t : Tree) (follow : Bool) : Nat → Place → List String → Except IoError Place
  | 0, _, _ => .error .tooManyLinks
  | links + 1, here, pieces =>
    match t.walkToLink follow here pieces with
    | .error e => .error e
    | .ok (.here p) => .ok p
    | .ok (.link folder path rest) =>
      t.walkOn follow links (if Path.isAbsolute path then [] else folder) (Path.pieces path ++ rest)

/-- How many links a path may lead through. -/
def maxLinks : Nat := 40

/-- The place that pieces of a path lead to from a folder. -/
def walk (t : Tree) (here : Place) (pieces : List String) : Except IoError Place :=
  t.walkOn true (maxLinks + 1) here pieces

/-- The place a path leads to from a folder; a link as the last name is followed
if `follow` is on. From a folder that is gone, only the folder itself is reached. -/
def locate (t : Tree) (follow : Bool) (here : Place) (path : String) : Except IoError Place :=
  if path.toList.contains '\x00' then .error .badName
  else if path.isEmpty then .error .noSuchFile
  else if maxPathBytes ≤ path.utf8ByteSize then .error .nameTooLong
  else if Path.isAbsolute path then t.walkOn follow (maxLinks + 1) [] (Path.pieces path)
  else if t.isFolder here || (Path.names path).isEmpty then t.walkOn follow (maxLinks + 1) here (Path.pieces path)
  else .error .noSuchFile

/-- The place a path leads to from a folder, through all links. -/
def resolve (t : Tree) (here : Place) (path : String) : Except IoError Place := t.locate true here path

/-- The text of a place. -/
def placeText (p : Place) : String := "/" ++ "/".intercalate p

/-- The folder in which the last name of a path stands, if a new name of `extra`
bytes may be added to it; a path without names stands in the working folder. -/
def parentFolder (t : Tree) (here : Place) (path : String) (extra : Nat) : Except IoError Place := do
  let names := Path.names path
  let isRooted := Path.isAbsolute path && !names.isEmpty
  let parent := Path.parent path
  if parent.toList.contains '\x00' then throw .badName
  let start := if isRooted then 0 else (placeText here).utf8ByteSize + 1
  if maxPathBytes ≤ start + parent.utf8ByteSize + 1 + extra then throw .nameTooLong
  if !isRooted && !t.isFolder here then throw .noSuchFile
  let folder ← t.walk (if isRooted then [] else here) names.dropLast
  match t.get? folder with
  | some .folder => return folder
  | some _ => throw .notFolder
  | none => throw .noSuchFile

/-- The content of the file at a path. -/
def read (t : Tree) (here : Place) (path : String) : Except IoError Content := do
  match t.get? (← t.resolve here path) with
  | some (.file c) => return c
  | some .folder => throw .isFolder
  | _ => throw .noSuchFile

/-- The text of the file at a path. -/
def readText (t : Tree) (here : Place) (path : String) : Except IoError String := do
  match ← t.read here path with
  | .text s => return s
  | .bytes _ => throw .notText

/-- A place in a folder for a name that starts with `stem`. -/
def stemmed (folder : Place) (stem : String) (s : Suffix) : Place := folder ++ [stem ++ s.text]

/-- The first number that gives a vacant name, among one more than there are entries. -/
def firstVacant (t : Tree) (folder : Place) (stem : String) : Option Suffix :=
  ((List.range (t.entries.length + 1)).map Suffix.number).find? fun s =>
    (t.get? (stemmed folder stem s)).isNone

/-- The texts of the files below a folder that differ from those of an earlier
tree, with their names from that folder on. -/
def changes (before after : Tree) (folder : Place) : List (List String × Content) :=
  after.files.filterMap fun (p, c) =>
    if folder.isPrefixOf p && before.get? p != some (.file c) then some (p.drop folder.length, c) else none

end Tree

end StencilTiling
