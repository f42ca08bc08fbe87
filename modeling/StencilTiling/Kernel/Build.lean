import StencilTiling.Kernel.Basic
import StencilTiling.Numbering

/-! Construction of kernel graphs. Every operation checks its references before
it adds anything, so a refused operation adds nothing. -/

namespace StencilTiling

/-- A read of a node under construction. -/
structure NodeInput where
  source : DataId
  read : Window
  border : Border := .undef
  deriving DecidableEq, Repr

/-- A node under construction. Strides default to one element per dimension of
the output, the write window to one output stride. -/
structure NodeDecl where
  name : String
  output : DataId
  inputs : List NodeInput := []
  controls : List DataId := []
  inStride : Option Size := none
  outStride : Option Size := none
  write : Option Window := none
  location : Option Location := none
  deriving DecidableEq, Repr

namespace Kernel

/-! ### Data -/

/-- Appends a data item under a fresh name. -/
def pushData (k : Kernel) (name : String) (elem : ElemType) (shape : Shape) (iterative : Bool)
    (role : Role) : Except KernelError (DataId × Kernel) :=
  if (k.findData? name).isSome then .error (.duplicateName k.name name)
  else
    let id := k.data.length
    .ok (id, { k with data := k.data ++ [{ id, name, elem, shape, iterative, role }] })

/-- Appends a parameter. -/
def pushInput (k : Kernel) (name : String) (elem : ElemType) (shape : Shape) (iterative : Bool) :
    Except KernelError (DataId × Kernel) := do
  let (id, k) ← k.pushData name elem shape iterative .input
  return (id, { k with inputs := k.inputs ++ [id] })

/-- An image or array parameter. -/
def addInput (k : Kernel) (name : String) (elem : ElemType) (shape : Shape) :
    Except KernelError (DataId × Kernel) :=
  k.pushInput name elem shape true

/-- A scalar parameter. -/
def addControl (k : Kernel) (name : String) (elem : ElemType) : Except KernelError (DataId × Kernel) :=
  k.pushInput name elem [] false

/-- A node output consumed inside the kernel. -/
def addData (k : Kernel) (name : String) (elem : ElemType) (shape : Shape) :
    Except KernelError (DataId × Kernel) :=
  k.pushData name elem shape true .temporary

/-- A node output returned by the kernel. -/
def addOutput (k : Kernel) (name : String) (elem : ElemType) (shape : Shape) :
    Except KernelError (DataId × Kernel) :=
  k.pushData name elem shape true .output

/-- Turns a temporary into an output; other roles stay. -/
def markOutput (k : Kernel) (d : DataId) : Except KernelError Kernel :=
  match k.data[d]? with
  | none => .error (.unknownId k.name .data d)
  | some item => .ok (if item.role = .temporary then k.setItem d { item with role := .output } else k)

/-- Records where an item was declared; an unknown item is ignored. -/
def locate (k : Kernel) (d : DataId) (location : Location) : Kernel :=
  { k with data := k.data.modify d fun item => { item with location := some location } }

/-! ### Nodes and edges -/

def checkData (k : Kernel) (d : DataId) : Except KernelError Unit :=
  ensure (d < k.data.length) (.unknownId k.name .data d)

/-- Appends an edge and links it at both ends. -/
def pushEdge (k : Kernel) (target : NodeId) (input : NodeInput) : Kernel :=
  let id := k.edges.length
  { k with
    edges := k.edges ++ [{ id, source := input.source, target, read := input.read, border := input.border }]
    nodes := k.nodes.modify target fun n => { n with inputs := n.inputs ++ [id] }
    data := k.data.modify input.source fun d => { d with users := d.users ++ [id] } }

/-- One more read of an existing node; the graph may become cyclic. -/
def addEdge (k : Kernel) (target : NodeId) (input : NodeInput) : Except KernelError (EdgeId × Kernel) := do
  k.checkData input.source
  ensure (target < k.nodes.length) (.unknownId k.name .node target)
  return (k.edges.length, k.pushEdge target input)

/-- Appends a node without its reads and makes it the producer of its output. -/
def pushNode (k : Kernel) (decl : NodeDecl) (uid : Nat) (symbol : String) (rank : Nat) : Kernel :=
  let id := k.nodes.length
  let outStride := decl.outStride.getD (.ones rank)
  { k with
    nodes := k.nodes ++ [{
      id, uid, name := decl.name, symbol, location := decl.location, inputs := [],
      controls := decl.controls, output := decl.output, inStride := decl.inStride.getD (.ones rank),
      outStride, write := decl.write.getD (.covering outStride), params := [] }]
    data := k.data.modify decl.output fun d => { d with producer := some id } }

/-- A node with its reads, numbered by the unit. -/
def addNode (k : Kernel) (numbering : Numbering) (decl : NodeDecl) :
    Except KernelError (NodeId × Kernel × Numbering) :=
  match k.data[decl.output]? with
  | none => .error (.unknownId k.name .data decl.output)
  | some output => do
    ensure (output.producer = none ∧ output.role ≠ .input) (.multipleProducers k.name output.name)
    ensure (output.iterative = true) (.scalarOutput k.name decl.name output.name)
    decl.controls.forM k.checkData
    decl.inputs.forM fun i => k.checkData i.source
    let (uid, numbering) := numbering.node
    let (symbol, numbering) := numbering.symbol decl.name
    let id := k.nodes.length
    let k := decl.inputs.foldl (·.pushEdge id ·) (k.pushNode decl uid symbol output.rank)
    return (id, k, numbering)

end Kernel

end StencilTiling
