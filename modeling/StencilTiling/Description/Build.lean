import StencilTiling.Description.Graph
import StencilTiling.Kernel.Build

/-! From descriptions to kernels: names are looked up, element types and border
modes are read, and every item is added in description order. -/

namespace StencilTiling.Description

/-- Why a description has no kernels. -/
inductive BuildError where
  | unknownType (kernel elem item : String)
  | notControl (kernel item param : String)
  | unknownData (kernel node item : String)
  | unknownBorder (node border : String)
  | kernel (e : KernelError)
  deriving DecidableEq, Repr

def BuildError.message : BuildError → String
  | unknownType name elem item => s!"kernel '{name}': unknown element type '{elem}' of '{item}'"
  | notControl name item param =>
    s!"kernel '{name}': extent of '{item}' refers to '{param}', which is not a declared control parameter"
  | unknownData name node item => s!"kernel '{name}': node '{node}' refers to unknown data '{item}'"
  | unknownBorder node border => s!"node '{node}': unknown border mode '{border}'"
  | kernel e => e.message

/-- A value, or the reason it is missing. -/
def found {α : Type} (e : BuildError) : Option α → Except BuildError α
  | some a => .ok a
  | none => .error e

def ofKernel {α : Type} : Except KernelError α → Except BuildError α := Except.mapError .kernel

def place (unit : String) (line : Option Nat) : Option Location := line.map fun n => ⟨unit, n⟩

/-! ### Data -/

/-- The control parameter of that name. -/
def control? (k : Kernel) (name : String) : Option DataId := do
  let d ← k.findData? name
  let item ← k.data[d]?
  if item.isControl then some d else none

def ExtentEntry.build (k : Kernel) (item : String) : ExtentEntry → Except BuildError Extent
  | .fixed n => .ok (.fixed n)
  | .dynamic param max => do
    let d ← found (.notControl k.name item param) (control? k param)
    return .dynamic d max

/-- The kernel with one more data item. A control parameter has no shape of its
own, though the one it is given must make sense. -/
def DataEntry.build (unit : String) (k : Kernel) (entry : DataEntry) : Except BuildError Kernel := do
  let elem ← found (.unknownType k.name entry.elem entry.name) (ElemType.ofText? entry.elem)
  let shape ← entry.shape.mapM (ExtentEntry.build k entry.name)
  let (d, k) ← ofKernel <| match entry.kind with
    | .input => k.addInput entry.name elem shape
    | .control => k.addControl entry.name elem
    | .temporary => k.addData entry.name elem shape
    | .output => k.addOutput entry.name elem shape
  return match place unit entry.line with
    | some l => k.locate d l
    | none => k

/-! ### Nodes -/

def windowOf (spans : List (Int × Int)) : Window := ⟨spans.map fun (first, last) => ⟨first, last⟩⟩

/-- The item a node names. -/
def namedItem (k : Kernel) (node item : String) : Except BuildError DataId :=
  found (.unknownData k.name node item) (k.findData? item)

def InputEntry.build (k : Kernel) (node : String) (entry : InputEntry) : Except BuildError NodeInput := do
  let source ← namedItem k node entry.data
  let rank := ((k.data[source]?).map DataItem.rank).getD 0
  let border ← match entry.border with
    | some b => found (.unknownBorder node b) (Border.ofText? b)
    | none => .ok .undef
  return { source, read := (entry.read.map windowOf).getD (.zero rank), border }

def NodeEntry.build (unit : String) (k : Kernel) (entry : NodeEntry) : Except BuildError NodeDecl := do
  let output ← namedItem k entry.name entry.output
  let inputs ← entry.inputs.mapM (InputEntry.build k entry.name)
  let controls ← entry.controls.mapM (namedItem k entry.name)
  return {
    name := entry.name, output, inputs, controls
    inStride := entry.inStride.map Size.mk
    outStride := entry.outStride.map Size.mk
    write := entry.write.map windowOf
    location := place unit entry.line }

/-- The kernel with one more node. -/
def NodeEntry.add (unit : String) (state : Kernel × Numbering) (entry : NodeEntry) :
    Except BuildError (Kernel × Numbering) := do
  let decl ← entry.build unit state.1
  let (_, k, numbering) ← ofKernel (state.1.addNode state.2 decl)
  return (k, numbering)

/-! ### Kernels -/

/-- The described kernel, and the numbers left for the kernels after it. -/
def KernelEntry.build (unit : String) (numbering : Numbering) (entry : KernelEntry) :
    Except BuildError (Kernel × Numbering) := do
  let empty : Kernel := { name := entry.name, location := place unit entry.line }
  let k ← entry.data.foldlM (DataEntry.build unit) empty
  entry.nodes.foldlM (NodeEntry.add unit) (k, numbering)

def buildKernels (unit : String) (numbering : Numbering) :
    List KernelEntry → Except BuildError (List Kernel × Numbering)
  | [] => .ok ([], numbering)
  | entry :: rest => do
    let (k, numbering) ← entry.build unit numbering
    let (ks, numbering) ← buildKernels unit numbering rest
    return (k :: ks, numbering)

/-- The kernels of a description, numbered across the whole unit. -/
def Graph.build (unit : String) (graph : Graph) : Except BuildError (List Kernel) :=
  (buildKernels unit {} graph.kernels).map Prod.fst

end StencilTiling.Description
