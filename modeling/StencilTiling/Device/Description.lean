import StencilTiling.Device.Draft
import StencilTiling.Text.Blank

/-! Device descriptions as text. A section header in brackets opens a level and
may name it; the lines after it hold a key, or a key and a value around an
equals sign. A number sign starts a comment. -/

namespace StencilTiling.Device

open Text

/-- One line without its comment and outer blanks. -/
inductive Line where
  | blank
  | malformed (text : String)
  | header (kind : String) (name : Option String)
  | property (text key : String) (value : Option String)
  deriving DecidableEq, Repr

/-- The inside of brackets around the whole line. -/
def bracketed? (rest : List Char) : Option (List Char) :=
  if rest.getLast? = some ']' then some rest.dropLast else none

def Line.ofHeader (inside : List Char) : Line :=
  match words inside with
  | [] => .header "" none
  | [kind] => .header (String.ofList kind) none
  | kind :: name :: _ => .header (String.ofList kind) (some (String.ofList name))

def Line.ofProperty (cs : List Char) : Line :=
  let text := String.ofList cs
  match splitOnce '=' cs with
  | none => .property text text none
  | some (key, value) =>
    let value := trim value
    .property text (String.ofList (trim key)) (if value.isEmpty then none else some (String.ofList value))

/-- Reads one line. -/
def Line.ofText (raw : List Char) : Line :=
  match trim (raw.takeWhile (· != '#')) with
  | [] => .blank
  | '[' :: rest => match bracketed? rest with
    | none => .malformed (String.ofList ('[' :: rest))
    | some inside => .ofHeader inside
  | cs => .ofProperty cs

/-- The draft and the open section after one line, with the line's problem if it has one. -/
def Line.apply (draft : DeviceDraft) (current : Option DeviceLevel) :
    Line → (DeviceDraft × Option DraftError) × Option DeviceLevel
  | .blank => ((draft, none), current)
  | .malformed text => ((draft, some (.malformedHeader text)), current)
  | .header kind name => match DeviceLevel.ofSection? kind with
    | none => ((draft, some (.unknownSection kind)), none)
    | some level => (draft.declare level name, some level)
  | .property text key value => match current with
    | none => ((draft, some (.outsideSection text)), none)
    | some level => (draft.set level key value, some level)

/-- Reads the numbered lines into a draft. -/
def readLines (file : String) (draft : DeviceDraft) (current : Option DeviceLevel) :
    List (List Char × Nat) → Reporting Abort DeviceDraft
  | [] => return draft
  | (raw, n) :: rest => fun diag =>
    let (step, current) := (Line.ofText raw).apply draft current
    match DeviceDraft.report (some ⟨file, n + 1⟩) step diag with
    | (.error a, _, diag) => (.error a, diag)
    | (.ok (), draft, diag) => readLines file draft current rest diag

/-- The device described by a text; `file` names it in diagnostics. -/
def ofText (text file : String) : Reporting DeviceError Device := do
  let numbered := (lines text.toList).zipIdx
  let draft ← ExceptT.adapt .aborted (readLines file (.named "device") none numbered)
  draft.finish

end StencilTiling.Device
