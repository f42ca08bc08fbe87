import StencilTiling.Device.Property
import StencilTiling.Diagnostics

/-! A device description under construction. Properties arrive one at a time;
each problem is reported and counted. Finishing fills in the defaults and
refuses a draft with any error on it. -/

namespace StencilTiling

/-- What is known of one level. -/
structure LevelDraft where
  declared : Bool := false
  name : Option String := none
  defined : List DeviceProperty := []
  memory : Option Nat := none
  cache : Option Nat := none
  dataCache : Bool := false
  toExt : Connectivities := {}
  toLateral : Connectivities := {}
  count : Option Nat := none
  hwThreads : Option Nat := none
  swThreads : Bool := false
  long : Option Support := none
  float : Option Support := none
  double : Option Support := none
  deriving DecidableEq, Repr

/-- The three levels and the number of errors reported so far. -/
structure DeviceDraft where
  device : LevelDraft := {}
  unit : LevelDraft := {}
  element : LevelDraft := {}
  errorCount : Nat := 0
  deriving DecidableEq, Repr

/-- Problems of a declaration or a property; `owner` names the level concerned. -/
inductive DraftError where
  | redefinedLevel (owner : String) (level : DeviceLevel)
  | unknownProperty (owner key : String)
  | redefinedProperty (owner key : String)
  | unknownValue (owner key value : String)
  | missingValue (owner key : String)
  | notPositive (owner key : String)
  | malformedHeader (line : String)
  | unknownSection (kind : String)
  | outsideSection (line : String)
  deriving DecidableEq, Repr

def DraftError.message : DraftError → String
  | redefinedLevel owner level => s!"{owner}: redefining a {level.text}"
  | unknownProperty owner key => s!"{owner}: unknown property '{key}'"
  | redefinedProperty owner key => s!"{owner}: redefining property '{key}'"
  | unknownValue owner key value => s!"{owner}: for property '{key}', unknown value '{value}'"
  | missingValue owner key => s!"{owner}: property '{key}' requires a value"
  | notPositive owner key => s!"{owner}: property '{key}' must be strictly positive"
  | malformedHeader line => s!"malformed section header '{line}'"
  | unknownSection kind => s!"unknown section '{kind}'"
  | outsideSection line => s!"property '{line}' outside of any section"

/-- Why there is no device. -/
inductive DeviceError where
  | unreadable (path reason : String)
  | aborted (abort : Abort)
  | invalid (name : String) (count : Nat)
  deriving DecidableEq, Repr

def DeviceError.message : DeviceError → String
  | unreadable path reason => s!"cannot read device description '{path}': {reason}"
  | aborted abort => abort.message
  | invalid name count => s!"device '{name}' has {count} configuration error(s)"

namespace LevelDraft

/-! ### Values -/

def setFlag (l : LevelDraft) : DeviceProperty → LevelDraft
  | .dataCache => { l with dataCache := true }
  | _ => { l with swThreads := true }

def setCount (l : LevelDraft) (n : Nat) : DeviceProperty → LevelDraft
  | .memorySize => { l with memory := some n }
  | .cacheSize => { l with cache := some n }
  | .hwThreads => { l with hwThreads := some n }
  | _ => { l with count := some n }

def addConnectivity (l : LevelDraft) (c : Connectivity) : DeviceProperty → LevelDraft
  | .connectivityToExt => { l with toExt := l.toExt.insert c }
  | _ => { l with toLateral := l.toLateral.insert c }

def setSupport (l : LevelDraft) (s : Support) : DeviceProperty → LevelDraft
  | .floatSupport => { l with float := some s }
  | .doubleSupport => { l with double := some s }
  | _ => { l with long := some s }

/-- The level with a property's value applied, or why the value is refused. -/
def applyValue (l : LevelDraft) (owner : String) (prop : DeviceProperty) (value : Option String) :
    Except DraftError LevelDraft :=
  match prop.kind, value with
  | .flag, none => .ok (l.setFlag prop)
  | .flag, some v => .error (.unknownValue owner prop.text v)
  | _, none => .error (.missingValue owner prop.text)
  | .integer, some v =>
    match Text.readInt? v.toList with
    | none => .error (.unknownValue owner prop.text v)
    | some n => if n ≤ 0 then .error (.notPositive owner prop.text) else .ok (l.setCount n.toNat prop)
  | .identifier, some v =>
    if prop.isCumulative then
      match Connectivity.ofText? v with
      | none => .error (.unknownValue owner prop.text v)
      | some c => .ok (l.addConnectivity c prop)
    else
      match (Support.ofText? v).filter (· ∈ prop.acceptedSupport) with
      | none => .error (.unknownValue owner prop.text v)
      | some s => .ok (l.setSupport s prop)

end LevelDraft

namespace DeviceDraft

/-- A draft of a named device. -/
def named (name : String) : DeviceDraft := { device := { declared := true, name := some name } }

def level (d : DeviceDraft) : DeviceLevel → LevelDraft
  | .device => d.device
  | .unit => d.unit
  | .element => d.element

def setLevel (d : DeviceDraft) (l : LevelDraft) : DeviceLevel → DeviceDraft
  | .device => { d with device := l }
  | .unit => { d with unit := l }
  | .element => { d with element := l }

def nameOf (d : DeviceDraft) (l : DeviceLevel) : String := (d.level l).name.getD l.defaultName

/-- How messages name a level. -/
def owner (d : DeviceDraft) (l : DeviceLevel) : String := s!"{l.text} '{d.nameOf l}'"

/-! ### Steps -/

/-- Opens a level, naming it; the unit and the element are opened once. -/
def declare (d : DeviceDraft) (l : DeviceLevel) (name : Option String) :
    DeviceDraft × Option DraftError :=
  if (d.level l).declared = true ∧ l ≠ .device then (d, some (.redefinedLevel (d.owner .device) l))
  else
    let opened := { d.level l with declared := true, name := name.or (d.level l).name }
    (d.setLevel opened l, none)

/-- Applies a key and maybe a value to a level. A key counts as defined even if
its value is refused. -/
def set (d : DeviceDraft) (l : DeviceLevel) (key : String) (value : Option String) :
    DeviceDraft × Option DraftError :=
  let owner := d.owner l
  match (DeviceProperty.ofText? key).filter (l ∈ ·.levels) with
  | none => (d, some (.unknownProperty owner key))
  | some prop =>
    let draft := d.level l
    if prop.isCumulative = false ∧ prop ∈ draft.defined then (d, some (.redefinedProperty owner key))
    else
      let marked := if prop.isCumulative then draft else { draft with defined := prop :: draft.defined }
      match marked.applyValue owner prop value with
      | .ok applied => (d.setLevel applied l, none)
      | .error e => (d.setLevel marked l, some e)

/-- Reports the problem of a step and counts it. -/
def report (location : Option Location) (step : DeviceDraft × Option DraftError) (diag : Diagnostics) :
    Except Abort Unit × DeviceDraft × Diagnostics :=
  match step with
  | (d, none) => (.ok (), d, diag)
  | (d, some e) =>
    let (outcome, diag) := Diagnostics.error location e.message diag
    (outcome, { d with errorCount := d.errorCount + 1 }, diag)

/-! ### Finishing -/

def undeclared (d : DeviceDraft) (l : DeviceLevel) : List (Severity × String) :=
  if (d.level l).declared then [] else [(.error, s!"{d.owner .device}: no {l.text} defined")]

def defaulted (prop : DeviceProperty) (value : Option Nat) : List (Severity × String) :=
  if value.isSome then [] else [(.warning, s!"setting default {prop.text} value (1)")]

def unconnected (d : DeviceDraft) (l : DeviceLevel) : List (Severity × String) :=
  if (d.level l).toExt.isEmpty then
    [(.error, s!"no connectivity to the external memory defined for {d.owner l}")]
  else []

/-- What finishing has to say, in order. -/
def remarks (d : DeviceDraft) : List (Severity × String) :=
  d.undeclared .unit ++ d.undeclared .element ++
    defaulted .computeUnits d.device.count ++ defaulted .computeElements d.unit.count ++
    defaulted .hwThreads d.element.hwThreads ++
    d.unconnected .unit ++ d.unconnected .element

/-- The device with every default filled in. -/
def freeze (d : DeviceDraft) : Device where
  name := d.nameOf .device
  memory := d.device.memory
  units := d.device.count.getD 1
  unit := {
    name := d.nameOf .unit, memory := d.unit.memory, cache := d.unit.cache,
    dataCache := d.unit.dataCache, toExt := d.unit.toExt, toLateral := d.unit.toLateral,
    elements := d.unit.count.getD 1 }
  element := {
    name := d.nameOf .element, memory := d.element.memory, cache := d.element.cache,
    dataCache := d.element.dataCache, toExt := d.element.toExt, toLateral := d.element.toLateral,
    hwThreads := d.element.hwThreads.getD 1, swThreads := d.element.swThreads,
    long := d.element.long.getD .native, float := d.element.float.getD .native,
    double := d.element.double.getD .native }

/-- Records one remark. -/
def remark : Severity × String → Reporting DeviceError Unit
  | (.error, text) => ExceptT.adapt .aborted (Diagnostics.error none text)
  | (_, text) => modify (·.warning none text)

/-- The finished device, unless an error was reported for it. -/
def finish (d : DeviceDraft) : Reporting DeviceError Device := do
  d.remarks.forM remark
  let count := d.errorCount + (d.remarks.filter (·.1 == .error)).length
  if count = 0 then return d.freeze else throw (.invalid (d.nameOf .device) count)

end DeviceDraft

end StencilTiling
