import StencilTiling.Shell.Condition
import StencilTiling.Shell.Folders
import StencilTiling.Shell.LineEditor
import StencilTiling.Shell.Print

/-! The programs that a job can start, and the folders they stand in. -/

namespace StencilTiling.Shell

/-- Prints what is handed on to other programs. -/
def printVariables (p : Job) : Job :=
  (p.exported.reverse.foldl (fun p v => p.print s!"{v.name}={v.value}\n") p).leave 0

def sleep (p : Job) (args : List String) : Job :=
  let isTime (s : String) : Bool :=
    let cs := s.toList
    let cs := if cs.getLast?.any fun c => "smhd".toList.contains c then cs.dropLast else cs
    !cs.isEmpty && cs.all fun c => c.isDigit || c == '.'
  match args.find? fun s => !isTime s with
  | some s =>
    misuse p s!"invalid time interval '{s}'" 1
  | none => p.leave 0

/-! ### The table -/

def fileOperand : Option String := some "missing file operand"

def anyOperand : Option String := some "missing operand"

/-- Long names that several programs share. -/
def treeNames : List (String × Char) :=
  [("recursive", 'r'), ("force", 'f'), ("verbose", 'v'), ("no-clobber", 'n'), ("target-directory", 't'), ("parents", 'p'),
    ("archive", 'a'), ("symbolic", 's'), ("no-target-directory", 'T'), ("dir", 'd'), ("mode", 'm')]

/-- Programs that handle files as a whole. -/
def fileTools : List (String × Tool) :=
  [("cat", reading { letters := "AbeEnstTuv", long := [("number", 'n')] } cat),
    ("touch",
      reading { letters := "acfhm", valued := "drt", long := [("no-create", 'c')], missing := fileOperand } touch),
    ("rm", reading { letters := "dfiIrRv", long := treeNames, missing := anyOperand, excused := "f" } rm),
    ("cp", reading { letters := "abdfHilLnpPrRsTuvxZ", valued := "tS", long := treeNames, missing := fileOperand } cp),
    ("mv", reading { letters := "bfinTuvZ", valued := "tS", long := treeNames, missing := fileOperand } mv),
    ("ln", reading { letters := "bdfFiLnPrsTv", valued := "tS", long := treeNames, missing := fileOperand } ln),
    ("mkdir", reading { letters := "pvZ", valued := "m", long := treeNames, missing := anyOperand } mkdir),
    ("rmdir", reading { letters := "pv", long := treeNames, missing := anyOperand } rmdir),
    ("ls",
      reading { letters := "aAbBcCdDfFgGhHiklLmnNopqQrRsStuUvxXZ1", valued := "IwT", long := [("all", 'a')], status := 2 } ls),
    ("tee", reading { letters := "aip", long := [("append", 'a')] } tee),
    ("cmp", reading { letters := "bls", valued := "in", status := 2, signed := true } cmp),
    ("diff", reading { letters := "aBbEiNqrsTtuwy", valued := "UC", long := [("brief", 'q')], status := 2, signed := true } diff),
    ("find", find), ("chmod", chmod),
    ("basename", needing 1 basename), ("dirname", needing 1 dirname)]

def sortUsage : Usage where
  letters := "bcCdfghimMnrRsuVz"
  valued := "kotST"
  long := [("unique", 'u'), ("reverse", 'r'), ("numeric-sort", 'n')]
  status := 2

/-- Programs that work on lines. -/
def lineTools : List (String × Tool) :=
  [("grep", grep {}), ("egrep", grepAs { style := { extended := true } }), ("fgrep", grepAs { fixed := true }), ("sed", sed),
    ("head", partOf headText), ("tail", partOf tailText),
    ("wc", reading { letters := "clLmw", long := [("lines", 'l'), ("words", 'w'), ("bytes", 'c'), ("chars", 'm')] } wc),
    ("sort", reading sortUsage sort),
    ("tr", reading { letters := "cCdst", long := [("delete", 'd')], missing := anyOperand } tr)]

/-- Programs that need no files. -/
def plainTools : List (String × Tool) :=
  [("true", fun p _ => p.leave 0), ("false", fun p _ => p.leave 1), ("echo", echoProgram),
    ("printf", needing 1 printfProgram),
    ("test", fun p args => testWords ConditionError.programMessage false p (p.name ++ ": ") args),
    ("[", fun p args => testWords ConditionError.programMessage true p (p.name ++ ": ") args),
    ("sleep", needing 1 sleep),
    ("pwd", fun p _ => (p.print (Text.octets (Tree.placeText p.folder) ++ "\n")).leave 0)]

def tools : List (String × Tool) := plainTools ++ fileTools ++ lineTools

/-- Programs that start other programs. -/
def starters : List String := ["sh", "dash", "bash", "env", "timeout"]

def programNames : List String := starters ++ tools.map Prod.fst

/-- The folders that programs stand in. -/
def programFolders : List Place := [["bin"], ["usr", "bin"]]

/-- The name of the program that a command means, if it is one. -/
def programName? (program : String) : Option String :=
  if program.toList.contains '/' then
    let place := Path.names program
    if Path.isAbsolute program && programFolders.contains place.dropLast then
      place.getLast?.filter (programNames.contains ·)
    else none
  else if programNames.contains program then some program else none

/-- Folders that are there before anything is done. -/
def systemFolders : List Place :=
  [["dev"], ["etc"], ["home"], ["lib"], ["opt"], ["proc"], ["root"], ["run"], ["sbin"], ["sys"], ["tmp"], ["usr", "lib"],
    ["usr", "local", "bin"], ["usr", "sbin"], ["usr", "share"], ["var", "tmp"]]

/-- Folders and files that are there before anything is done. -/
def system : Tree :=
  let tree := systemFolders.foldl Tree.makeFolders {}
  let tree := tree.addFile ["dev", "null"] (.text "")
  programFolders.foldl (fun t folder => programNames.foldl (fun t name =>
    t.insert (folder ++ [name]) (.file (.bytes [0x7f]))) (t.makeFolders folder)) tree

end StencilTiling.Shell
