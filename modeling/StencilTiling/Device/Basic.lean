import StencilTiling.Arith
import StencilTiling.ElemType

/-! Target devices: identical compute units, each with identical compute
elements, their memories, connections and numeric support. -/

namespace StencilTiling

/-- A path between memory and a compute level. -/
inductive Connectivity where
  | dma
  | loadStore
  deriving DecidableEq, Repr

namespace Connectivity

def text : Connectivity → String
  | dma => "dma"
  | loadStore => "loadstore"

def ofText? : String → Option Connectivity
  | "dma" => some dma
  | "loadstore" => some loadStore
  | _ => none

end Connectivity

/-- The paths a level has. -/
structure Connectivities where
  dma : Bool := false
  loadStore : Bool := false
  deriving DecidableEq, Repr

namespace Connectivities

def insert (s : Connectivities) : Connectivity → Connectivities
  | .dma => { s with dma := true }
  | .loadStore => { s with loadStore := true }

def isEmpty (s : Connectivities) : Bool := !s.dma && !s.loadStore

def text (s : Connectivities) : String :=
  match s.dma, s.loadStore with
  | false, false => "none"
  | true, false => "dma"
  | false, true => "loadstore"
  | true, true => "dma loadstore"

end Connectivities

/-- How a compute element handles a precision class. -/
inductive Support where
  | no
  | soft
  | native
  deriving DecidableEq, Repr

namespace Support

def text : Support → String
  | no => "no"
  | soft => "soft"
  | native => "native"

def ofText? : String → Option Support
  | "no" => some no
  | "soft" => some soft
  | "native" => some native
  | _ => none

end Support

structure ComputeElement where
  name : String := "element"
  /-- Private memory in bytes. -/
  memory : Option Nat := none
  cache : Option Nat := none
  dataCache : Bool := false
  toExt : Connectivities := {}
  toLateral : Connectivities := {}
  hwThreads : Nat := 1
  swThreads : Bool := false
  long : Support := .native
  float : Support := .native
  double : Support := .native
  deriving DecidableEq, Repr

structure ComputeUnit where
  name : String := "unit"
  /-- Memory shared by the elements, in bytes. -/
  memory : Option Nat := none
  cache : Option Nat := none
  dataCache : Bool := false
  toExt : Connectivities := {}
  toLateral : Connectivities := {}
  elements : Nat := 1
  deriving DecidableEq, Repr

structure Device where
  name : String := "device"
  memory : Option Nat := none
  units : Nat := 1
  unit : ComputeUnit := {}
  element : ComputeElement := {}
  deriving DecidableEq, Repr

namespace Device

/-- Elements over the whole device. -/
def totalElements (d : Device) : Nat := d.units * d.unit.elements

/-- Work-items a compute unit runs at once. -/
def threadsPerUnit (d : Device) : Nat := Arith.wrapSize (d.unit.elements * d.element.hwThreads)

/-- Memory for the buffers of a work-group: that of the unit, else that of the device. -/
def localBudget (d : Device) : Option Nat := d.unit.memory.or d.memory

/-- Support for a precision class; short integers are always native. -/
def supportOf (d : Device) : Precision → Support
  | .integer => .native
  | .long => d.element.long
  | .float => d.element.float
  | .double => d.element.double

def support (d : Device) (t : ElemType) : Support := d.supportOf t.precision

/-- A device reaching external memory by DMA at both levels; every count is at least one. -/
def ofCounts (name : String) (units elements threads : Nat) (memory unitMemory : Option Nat)
    (float double long : Support) : Device where
  name := name
  memory := memory
  units := max units 1
  unit := { memory := unitMemory, toExt := { dma := true }, elements := max elements 1 }
  element := { toExt := { dma := true }, hwThreads := max threads 1, float, double, long }

end Device

/-! ### Text -/

/-- A memory size, or that there is none. -/
def memoryText (kind absent : String) : Option Nat → String
  | some bytes => s!"{kind} = {bytes} bytes"
  | none => s!"no {absent}"

def connectionText (ext lateral : Connectivities) : String :=
  s!", ext connectivity = {ext.text}, lateral connectivity = {lateral.text}"

def ComputeElement.text (e : ComputeElement) : String :=
  let cache := if e.dataCache then "data cache" else "no data cache"
  let threads := if e.swThreads then "sw threads" else "no sw threads"
  s!"compute element '{e.name}': " ++ memoryText "private memory" "private memory" e.memory ++
    connectionText e.toExt e.toLateral ++
    s!", {cache}, {e.hwThreads} hw threads, {threads}" ++
    s!", {e.long.text} long, {e.float.text} float, {e.double.text} double"

def ComputeUnit.text (u : ComputeUnit) : String :=
  s!"compute unit '{u.name}': nbComputeElements={u.elements}, " ++
    memoryText "local memory" "local memory" u.memory ++ connectionText u.toExt u.toLateral

def Device.text (d : Device) : String :=
  s!"device '{d.name}': nbComputeUnits={d.units}, " ++ memoryText "memory" "device memory" d.memory ++
    "\n" ++ d.unit.text ++ "\n" ++ d.element.text

end StencilTiling
