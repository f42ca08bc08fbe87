import StencilTiling.Diagnostics
import StencilTiling.ElemType
import StencilTiling.Granularity
import StencilTiling.Kernel.Annotation

/-! Kernel graphs: data items, compute nodes and read edges, held in lists that
the identifiers index. Each node produces one data item; each edge is a read of
a data item by a node through a window. -/

namespace StencilTiling

/-- Place of a data item in the kernel's interface. -/
inductive Role where
  | input
  | output
  | temporary
  deriving DecidableEq, Repr

def Role.text : Role → String
  | input => "input"
  | output => "output"
  | temporary => "temporary"

/-- What a read outside the image gives. -/
inductive Border where
  | constValue
  | duplicate
  | mirrored
  | skip
  | exp
  | undef
  deriving DecidableEq, Repr

namespace Border

def all : List Border := [constValue, duplicate, mirrored, skip, exp, undef]

def text : Border → String
  | constValue => "const_value"
  | duplicate => "duplicate"
  | mirrored => "mirror"
  | skip => "skip"
  | exp => "exp"
  | undef => "undef"

def ofText? (s : String) : Option Border := all.find? (·.text == s)

end Border

/-- A named data item with what the analysis wrote on it. -/
structure DataItem where
  id : DataId
  name : String
  elem : ElemType
  shape : Shape
  /-- Varies with the schedule step; false for control scalars. -/
  iterative : Bool
  role : Role
  location : Option Location := none
  producer : Option NodeId := none
  users : List EdgeId := []
  note : Annotation := {}
  deriving DecidableEq, Repr

/-- A compute step producing one data item. -/
structure Node where
  id : NodeId
  /-- Number unique in the compilation unit. -/
  uid : Nat
  name : String
  /-- Symbol of the compute function. -/
  symbol : String
  location : Option Location
  inputs : List EdgeId
  controls : List DataId
  output : DataId
  /-- Input elements consumed per execution. -/
  inStride : Size
  /-- Output elements produced per execution. -/
  outStride : Size
  write : Window
  /-- Control parameters needed at run time. -/
  params : List DataId
  deriving DecidableEq, Repr

/-- The read of `source` by `target`. -/
structure Edge where
  id : EdgeId
  source : DataId
  target : NodeId
  read : Window
  border : Border
  deriving DecidableEq, Repr

/-- Local memory of one buffer. -/
structure BufferUsage where
  data : DataId
  name : String
  bytes : Nat
  deriving DecidableEq, Repr

/-- The schedule of a whole kernel. -/
structure Schedule where
  mode : Granularity
  scan : ScanOrder
  scanDim : Nat
  partitions : List Partition
  workGroups : Nat
  workItems : Nat
  /-- Nodes by ascending cycle. -/
  nodeOrder : List NodeId
  /-- The largest cycle of any node. -/
  depth : Nat
  buffers : List BufferUsage
  budget : Option Nat
  deriving DecidableEq, Repr

def Schedule.localBytes (s : Schedule) : Nat :=
  Arith.wrapSize ((s.buffers.map BufferUsage.bytes).foldr (· + ·) 0)

/-- A data-flow graph with its schedule, once it has one. -/
structure Kernel where
  name : String
  location : Option Location := none
  data : List DataItem := []
  nodes : List Node := []
  edges : List Edge := []
  /-- Parameters in declaration order. -/
  inputs : List DataId := []
  schedule : Option Schedule := none
  deriving DecidableEq, Repr

namespace DataItem

def rank (d : DataItem) : Nat := d.shape.length

def elemBytes (d : DataItem) : Nat := d.elem.bytes

def isControl (d : DataItem) : Bool := !d.iterative

def isInput (d : DataItem) : Bool := d.role == .input

def isOutput (d : DataItem) : Bool := d.role == .output

def cycle (d : DataItem) : Option Nat := d.note.pattern.cycle

/-- Applies a transition to the annotation, naming the item in errors. -/
def annotate (d : DataItem) (step : Annotation → String → Except KernelError Annotation) :
    Except KernelError DataItem := do
  return { d with note := ← step d.note d.name }

def setTile (d : DataItem) (tile : Tile) : Except KernelError DataItem :=
  d.annotate fun a name => a.setTile name tile

def scheduleAt (d : DataItem) (cycle : Nat) : Except KernelError DataItem :=
  d.annotate fun a name => a.scheduleAt name cycle

def assignAccess (d : DataItem) (access : Access) : Except KernelError DataItem :=
  d.annotate fun a name => a.assignAccess name access

def sizeSlots (d : DataItem) (slots : Nat) : Except KernelError DataItem :=
  d.annotate fun a name => a.sizeSlots name slots

def resolve (d : DataItem) (geometry : Geometry.Table) : Except KernelError DataItem :=
  d.annotate fun a name => a.resolve name geometry

/-- Drops what the analysis wrote. -/
def reset (d : DataItem) : DataItem := { d with note := {} }

/-- Declaration, then the pattern once a cycle is assigned. -/
def text (d : DataItem) : String :=
  let pattern := if d.note.pattern.isScheduled then d.note.pattern.text else ""
  s!"{d.elem.text} {d.name}{d.shape.text}{pattern}"

end DataItem

namespace Kernel

/-! ### Lookup -/

/-- An element of an arena; an index past the end is a fault. -/
def fetch {α : Type} (arena : List α) (index : Nat) : Except Fault α :=
  match arena[index]? with
  | some a => .ok a
  | none => .error .outOfRange

def item (k : Kernel) (d : DataId) : Except Fault DataItem := fetch k.data d

def node (k : Kernel) (n : NodeId) : Except Fault Node := fetch k.nodes n

def edge (k : Kernel) (e : EdgeId) : Except Fault Edge := fetch k.edges e

def findData? (k : Kernel) (name : String) : Option DataId :=
  (k.data.find? (·.name == name)).map DataItem.id

def findNode? (k : Kernel) (name : String) : Option NodeId :=
  (k.nodes.find? (·.name == name)).map Node.id

/-! ### Views -/

/-- Everything except control scalars. -/
def iterativeData (k : Kernel) : List DataItem := k.data.filter (·.iterative)

def outputs (k : Kernel) : List DataId := (k.data.filter (·.isOutput)).map DataItem.id

def temporaries (k : Kernel) : List DataId := (k.data.filter (·.role == .temporary)).map DataItem.id

/-- The rank of the iteration space: the largest rank of iterative data. -/
def rank (k : Kernel) : Nat := ((k.iterativeData.map DataItem.rank).max?).getD 0

/-! ### Updates -/

/-- The kernel with one item replaced. -/
def setItem (k : Kernel) (d : DataId) (item : DataItem) : Kernel := { k with data := k.data.set d item }

/-- Drops the schedule and every annotation. -/
def reset (k : Kernel) : Kernel := { k with schedule := none, data := k.data.map DataItem.reset }

end Kernel

end StencilTiling
