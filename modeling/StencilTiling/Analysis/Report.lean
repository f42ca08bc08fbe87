import StencilTiling.Kernel.Basic
import StencilTiling.Text.Kilobytes

/-! Reports on a scheduled kernel: the tiling of every data item and the local
memory of the buffers. -/

namespace StencilTiling.Analysis

/-- The tiling of one data item. -/
structure TilingEntry where
  data : DataId
  name : String
  grain : Size
  rate : Size
  halo : Window
  access : Access
  cycle : Nat
  slots : Nat
  deriving DecidableEq, Repr

structure TilingReport where
  kernel : String
  entries : List TilingEntry
  deriving DecidableEq, Repr

namespace TilingReport

def entryOf (d : DataItem) : Option TilingEntry := d.note.tile.map fun tile =>
  { data := d.id, name := d.name, grain := tile.grain, rate := tile.rate, halo := tile.halo,
    access := d.note.pattern.access, cycle := d.cycle.getD 0, slots := d.note.pattern.slots }

/-- The iterative items that have a tile. -/
def ofKernel (k : Kernel) : TilingReport := ⟨k.name, k.iterativeData.filterMap entryOf⟩

def find? (r : TilingReport) (name : String) : Option TilingEntry := r.entries.find? (·.name == name)

def line (e : TilingEntry) : String :=
  s!"  {e.name}: grain={e.grain.text} rate={e.rate.text} nbh={e.halo.text} {e.access.text} cycle={e.cycle} slots={e.slots}\n"

def text (r : TilingReport) : String :=
  s!"tiling of kernel '{r.kernel}':\n" ++ String.join (r.entries.map line)

end TilingReport

structure MemoryReport where
  kernel : String
  buffers : List BufferUsage
  budget : Option Nat
  deriving DecidableEq, Repr

namespace MemoryReport

def totalBytes (r : MemoryReport) : Nat :=
  Arith.wrapSize ((r.buffers.map BufferUsage.bytes).foldr (· + ·) 0)

def text (r : MemoryReport) : String :=
  let lines := r.buffers.map fun b => s!"  {b.name}: {Text.kilobytes b.bytes} KB\n"
  let limit := match r.budget with
    | some budget => s!" of {Text.kilobytes budget} KB"
    | none => ""
  s!"memory of kernel '{r.kernel}':\n" ++ String.join lines ++
    s!"  TOTAL: {Text.kilobytes r.totalBytes} KB{limit}\n"

end MemoryReport

/-- Both reports of a kernel. -/
structure Report where
  tiling : TilingReport
  memory : MemoryReport
  deriving DecidableEq, Repr

end StencilTiling.Analysis
