import StencilTiling.Analysis.Error

/-! Buffer slots. A slot is one line along the scan dimension; a buffer holds the
lines from the cycle they are produced to the last cycle they are read, and the
lines before them that the reader looks back at. -/

namespace StencilTiling.Analysis

/-- Lines a consumer keeps alive. -/
def consumerSlots (grain : Int) (produced consumed : Nat) (first : Int) : Int :=
  max (Arith.wrap64 (grain * ((consumed : Int) - produced + 1) - first)) 1

/-- Lines the reader of one edge keeps alive. -/
def edgeSlots (k : Kernel) (grain : Int) (produced scanDim : Nat) (e : Edge) : Except Fault Int := do
  let target ← k.node e.target
  let output ← k.item target.output
  return consumerSlots grain produced (output.cycle.getD 0) (e.read.first scanDim)

/-- Slots of an item: what its most demanding reader keeps alive, or one grain
without readers, and two grains at least for a kernel output. -/
def dataSlots (k : Kernel) (mode : Granularity) (scan : ScanOrder) (item : DataItem) :
    Except AnalysisError Nat :=
  if item.isControl ∨ mode.isWholeImage then return 1
  else match item.note.tile with
    | none => throw (.missingTile k.name item.name)
    | some tile => do
      let s := scan.scanDim item.rank
      let grain := tile.grain.get s
      let needs ← ofFault ((k.usersOf item).mapM (edgeSlots k grain (item.cycle.getD 0) s))
      let slots := needs.max?.getD grain
      let slots := if item.isOutput then max slots (Arith.mulWord 2 grain) else slots
      return Arith.wrap32 (max slots 1)

def sizeItem (mode : Granularity) (scan : ScanOrder) (k : Kernel) (d : DataId) :
    Except AnalysisError (DataId × DataItem) := do
  let item ← ofFault (k.item d)
  let slots ← dataSlots k mode scan item
  return (d, ← ofKernel (item.sizeSlots slots))

/-- Sizes the buffer of every data item. -/
def sizeSlots (mode : Granularity) (scan : ScanOrder) : Pass Unit := do
  revise (sizeItem mode scan) ((← get).data.map DataItem.id)

end StencilTiling.Analysis
