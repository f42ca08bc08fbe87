import StencilTiling.Analysis.Plan

/-! Whether a plan fits the device: element types, memory and work-group size.
Every problem is reported; the caller learns whether the schedule is usable. -/

namespace StencilTiling.Analysis

/-! ### Buffer sizes -/

/-- Pixels of one line of an item along a dimension: the slice and its halo. -/
def lineExtent (item : DataItem) (dim : Nat) (slice : Int) : Int :=
  match item.note.tile with
  | none => 0
  | some tile => slice * tile.grain.get dim + (tile.halo.last dim - tile.halo.first dim)

/-- Pixels of one slot: the line extents across the scan. -/
def slotPixels (item : DataItem) (plan : Plan) (scan : ScanOrder) : Int :=
  let s := scan.scanDim item.rank
  (((List.range item.rank).filter (· != s)).map fun d => lineExtent item d (plan.sliceGrains d)).foldr (· * ·) 1

/-- Local memory of an item's buffer. -/
def bufferBytes (item : DataItem) (plan : Plan) (scan : ScanOrder) : Nat :=
  if item.isControl ∨ item.note.pattern.access.isBuffered = false then 0
  else
    let pixels := Arith.wrap64 (slotPixels item plan scan)
    Arith.wrapSize (item.elemBytes * (max pixels 0).toNat * item.note.pattern.slots)

/-- The buffers that take any memory. -/
def buffersOf (k : Kernel) (plan : Plan) (scan : ScanOrder) : List BufferUsage :=
  (k.data.map fun d => (⟨d.id, d.name, bufferBytes d plan scan⟩ : BufferUsage)).filter (0 < ·.bytes)

def totalBytes (buffers : List BufferUsage) : Nat :=
  Arith.wrapSize ((buffers.map BufferUsage.bytes).foldr (· + ·) 0)

/-- The first of the largest buffers. -/
def largest? : List BufferUsage → Option BufferUsage
  | [] => none
  | b :: rest => match largest? rest with
    | none => some b
    | some c => if b.bytes < c.bytes then some c else some b

/-! ### Findings -/

/-- What makes a schedule unusable on a device. -/
inductive Shortfall where
  | elemType (elem : ElemType) (data element : String)
  | images (total memory : Nat)
  | buffer (usage : BufferUsage) (memory : Nat)
  | buffers (total memory : Nat) (largest : BufferUsage)
  | workItems (items threads : Nat) (unit : String)
  deriving DecidableEq, Repr

/-- What a user should know about a usable schedule. -/
inductive Caution where
  | emulatedType (elem : ElemType) (data element : String)
  | uncheckedBuffers
  | serializedGroups (groups units : Nat)
  deriving DecidableEq, Repr

def Shortfall.message (kernel : String) : Shortfall → String
  | elemType elem data element =>
    s!"kernel '{kernel}': type '{elem.text}' of '{data}' is not supported by compute element '{element}'"
  | images total memory =>
    s!"kernel '{kernel}': images need {total} bytes, more than the {memory} bytes of device memory"
  | buffer usage memory =>
    s!"kernel '{kernel}': buffer of '{usage.name}' needs {usage.bytes} bytes, more than the {memory} bytes of local memory"
  | buffers total memory largest =>
    s!"kernel '{kernel}': buffers need {total} bytes, more than the {memory} bytes of local memory (largest: '{largest.name}', {largest.bytes} bytes)"
  | workItems items threads unit =>
    s!"kernel '{kernel}': {items} work-items per group exceed the {threads} hardware threads of compute unit '{unit}'"

def Caution.message (kernel : String) : Caution → String
  | emulatedType elem data element =>
    s!"kernel '{kernel}': type '{elem.text}' of '{data}' is emulated in software on compute element '{element}'"
  | uncheckedBuffers => s!"kernel '{kernel}': no local memory size defined, buffers are not checked"
  | serializedGroups groups units =>
    s!"kernel '{kernel}': {groups} work-groups for {units} compute units, groups will be serialized"

inductive Finding where
  | shortfall (s : Shortfall)
  | caution (c : Caution)
  deriving DecidableEq, Repr

/-- Records a finding. -/
def Finding.report (kernel : String) : Finding → Reporting AnalysisError Unit
  | shortfall s => ExceptT.adapt .aborted (Diagnostics.error none (s.message kernel))
  | caution c => modify (·.warning none (c.message kernel))

/-! ### Checks -/

/-- The first item of each element type. -/
def typeWitnesses : List DataItem → List ElemType → List DataItem
  | [], _ => []
  | d :: rest, seen => if d.elem ∈ seen then typeWitnesses rest seen else d :: typeWitnesses rest (d.elem :: seen)

def typeFinding (device : Device) (item : DataItem) : Option Finding :=
  match device.support item.elem with
  | .no => some (.shortfall (.elemType item.elem item.name device.element.name))
  | .soft => some (.caution (.emulatedType item.elem item.name device.element.name))
  | .native => none

/-- Bytes of all images whose shapes are bounded. -/
def imageBytes (k : Kernel) : Nat :=
  Arith.wrapSize ((k.iterativeData.filterMap fun d =>
    (Shape.boundedElements d.shape).map (· * d.elemBytes)).foldr (· + ·) 0)

def imageFindings (k : Kernel) : Option Nat → List Finding
  | none => []
  | some memory => if memory < imageBytes k then [.shortfall (.images (imageBytes k) memory)] else []

/-- Every buffer that alone exceeds the memory, else their sum if it does. -/
def bufferFindings (buffers : List BufferUsage) : Option Nat → List Finding
  | none => [.caution .uncheckedBuffers]
  | some memory => match buffers.filter (memory < ·.bytes) with
    | [] =>
      if memory < totalBytes buffers then
        (largest? buffers).toList.map fun b => .shortfall (.buffers (totalBytes buffers) memory b)
      else []
    | oversized => oversized.map fun b => .shortfall (.buffer b memory)

def groupFindings (device : Device) (plan : Plan) : List Finding :=
  (if device.threadsPerUnit < plan.workItems then
    [.shortfall (.workItems plan.workItems device.threadsPerUnit device.unit.name)] else []) ++
  (if device.units < plan.workGroups then
    [.caution (.serializedGroups plan.workGroups device.units)] else [])

/-- The memory a mode is checked against. -/
def budgetOf (device : Device) (mode : Granularity) : Option Nat :=
  if mode.isWholeImage then device.memory else device.localBudget

/-- All findings: types, then memory, then work-groups. -/
def findings (k : Kernel) (device : Device) (plan : Plan) (mode : Granularity) (scan : ScanOrder) :
    List Finding :=
  (typeWitnesses k.data []).filterMap (typeFinding device) ++
    (if mode.isWholeImage then imageFindings k (budgetOf device mode)
      else bufferFindings (buffersOf k plan scan) (budgetOf device mode)) ++
    groupFindings device plan

/-- Outcome of the checks. -/
structure BudgetCheck where
  feasible : Bool
  buffers : List BufferUsage
  budget : Option Nat
  deriving DecidableEq, Repr

/-- Records all findings; feasible when none of them was an error. -/
def checkBudget (k : Kernel) (device : Device) (plan : Plan) (mode : Granularity) (scan : ScanOrder) :
    Reporting AnalysisError BudgetCheck := do
  let before := (← get).errorCount
  (findings k device plan mode scan).forM (Finding.report k.name)
  return {
    feasible := (← get).errorCount == before
    buffers := buffersOf k plan scan
    budget := budgetOf device mode }

end StencilTiling.Analysis
