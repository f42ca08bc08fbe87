import StencilTiling.Analysis.Error

/-! The access type of each data item, and the switch of multi-slot line buffers
to their ring form. -/

namespace StencilTiling.Analysis

/-- No stencil: consumers read single elements and need no halo across the scan. -/
def isFlat (tile : Tile) (rank scanDim : Nat) : Bool :=
  tile.reads.isZero && ((List.range rank).filter (· != scanDim)).all fun d => tile.halo.span d == .zero

/-- The access type of an item; tiled images need their tile first. -/
def selectAccess (item : DataItem) (mode : Granularity) (scan : ScanOrder) : Option Access :=
  if item.isControl then some .byValue
  else if mode.isWholeImage then some (if 2 ≤ item.rank then .inPlace2 else .inPlace1)
  else if item.rank < 2 then some .chunks1
  else item.note.tile.map fun tile =>
    if isFlat tile item.rank (scan.scanDim item.rank) then .chunks2
    else match scan, mode with
      | .columns, .externalTiling => .columnBlock
      | .columns, _ => .column
      | .rows, _ => .row

def chooseAccess (mode : Granularity) (scan : ScanOrder) (k : Kernel) (d : DataId) :
    Except AnalysisError (DataId × DataItem) := do
  let item ← ofFault (k.item d)
  match selectAccess item mode scan with
  | none => throw (.missingTile k.name item.name)
  | some access => return (d, ← ofKernel (item.assignAccess access))

/-- Gives every data item its access type. -/
def assignAccess (mode : Granularity) (scan : ScanOrder) : Pass Unit := do
  revise (chooseAccess mode scan) ((← get).data.map DataItem.id)

/-- The ring form of an item with several slots, unless it has it already. -/
def ringOf? (item : DataItem) : Option Access :=
  if 2 ≤ item.rank ∧ 1 < item.note.pattern.slots then
    item.note.pattern.access.ring?.filter (· != item.note.pattern.access)
  else none

def promote (k : Kernel) (entry : DataId × Access) : Except AnalysisError (DataId × DataItem) := do
  let item ← ofFault (k.item entry.1)
  return (entry.1, ← ofKernel (item.assignAccess entry.2))

/-- Switches multi-slot line buffers to rings. -/
def promoteRings : Pass Unit := do
  revise promote ((← get).data.filterMap fun d => (ringOf? d).map fun access => (d.id, access))

end StencilTiling.Analysis
