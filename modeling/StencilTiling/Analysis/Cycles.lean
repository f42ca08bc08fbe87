import StencilTiling.Analysis.Error

/-! Pipeline cycles. Inputs and controls are there at cycle zero. A node runs a
cycle after its latest input, and one more for each grain of halo it has to wait
for along the scan dimension. -/

namespace StencilTiling.Analysis

/-- Cycles of the nodes and the order in which to run them. -/
structure Pipeline where
  /-- By node. -/
  cycles : List Nat
  /-- By ascending cycle. -/
  order : List NodeId
  /-- The largest cycle. -/
  depth : Nat
  deriving DecidableEq, Repr

/-- Cycles a consumer waits after the producer of what an edge reads. -/
def edgeLag (k : Kernel) (scan : ScanOrder) (e : Edge) : Except AnalysisError Nat := do
  let source ← ofFault (k.item e.source)
  match source.note.tile with
  | none => throw (.missingTile k.name source.name)
  | some tile =>
    let s := scan.scanDim source.rank
    let target ← ofFault (k.node e.target)
    let ahead := Arith.clampNonneg (e.read.last s - (target.inStride.get s - 1))
    return Arith.addCount 1 (Arith.wrap32 (Arith.ceilDiv ahead (max (tile.grain.get s) 1)))

/-- The cycle at which a data item read by a node is there. -/
def readyCycle (k : Kernel) (n : Node) (d : DataId) : Except AnalysisError Nat := do
  let source ← ofFault (k.item d)
  match source.cycle with
  | some cycle => return cycle
  | none => throw (.unscheduledProducer k.name n.name source.name)

/-- The least cycle after everything a node reads. -/
def nodeCycle (k : Kernel) (scan : ScanOrder) (n : Node) : Except AnalysisError Nat := do
  let afterReads ← (k.inputEdges n).foldlM
    (fun cycle e =>
      return max cycle (Arith.addCount (← readyCycle k n e.source) (← edgeLag k scan e))) 1
  n.controls.foldlM (fun cycle d => return max cycle (Arith.addCount (← readyCycle k n d) 1)) afterReads

def scheduleInput (k : Kernel) (d : DataId) : Except AnalysisError (DataId × DataItem) := do
  return (d, ← ofKernel ((← ofFault (k.item d)).scheduleAt 0))

def scheduleNode (scan : ScanOrder) (k : Kernel) (id : NodeId) : Except AnalysisError (DataId × DataItem) := do
  let n ← ofFault (k.node id)
  let cycle ← nodeCycle k scan n
  let output ← ofFault (k.item n.output)
  return (n.output, ← ofKernel (output.scheduleAt cycle))

/-- The recorded cycle of a node; zero for a node outside the order. -/
def cycleOf (k : Kernel) (order : List NodeId) (n : Node) : Nat :=
  if n.id ∈ order then ((k.data[n.output]?).bind DataItem.cycle).getD 0 else 0

/-- The pipeline as recorded on the data. -/
def pipelineOf (k : Kernel) (order : List NodeId) : Pipeline :=
  let cycles := k.nodes.map (cycleOf k order)
  { cycles
    order := order.mergeSort fun a b => cycles.getD a 0 ≤ cycles.getD b 0
    depth := cycles.max?.getD 0 }

/-- Assigns a cycle to every data item the order reaches. -/
def assignCycles (order : List NodeId) (scan : ScanOrder) : Pass Pipeline := do
  revise scheduleInput (← get).inputs
  revise (scheduleNode scan) order
  return pipelineOf (← get) order

end StencilTiling.Analysis
