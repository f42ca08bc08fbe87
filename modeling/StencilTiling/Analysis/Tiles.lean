import StencilTiling.Analysis.Error

/-! Tile grains and halos in three sweeps over the data: backward, the grain
every consumer can be fed from; forward, the grain used, so that a producer step
never yields a partial block; backward again, the halo consumers need around a
grain. Data go in the order of the iterative inputs, then of the node outputs. -/

namespace StencilTiling.Analysis

/-- Iterative inputs in declaration order, then the outputs of the ordered nodes. -/
def dataOrder (k : Kernel) (order : List NodeId) : Except Fault (List DataId) := do
  let inputs := k.inputs.filter fun d => (k.data[d]?).any (·.iterative)
  let outputs ← order.mapM fun n => return (← k.node n).output
  return inputs ++ outputs

/-! ### Feed grains -/

/-- The grain of a source from which one edge's target gets whole blocks. -/
def neededGrain (k : Kernel) (feed : DataId → Size) (e : Edge) : Except Fault Size := do
  let target ← k.node e.target
  let executions ← (feed target.output).divCeil? target.outStride
  return executions.mul target.inStride

/-- The least grain that serves every consumer and is whole blocks of the producer. -/
def feedGrain (k : Kernel) (feed : DataId → Size) (item : DataItem) : Except Fault Size := do
  let grain ← (k.usersOf item).foldlM (fun grain e => return grain.lcm (← neededGrain k feed e))
    (Size.ones item.rank)
  return match k.producerOf item with
    | some producer => grain.lcm producer.outStride
    | none => grain

/-- Feed grains, computed from the last data item to the first. -/
def feedGrains (k : Kernel) (ds : List DataId) : Except Fault (DataId → Size) :=
  ds.foldrM (fun d feed => return assign feed d (← feedGrain k feed (← k.item d))) fun _ => .empty

/-! ### Grains and rates -/

/-- The grain a source grain makes of the node's output. -/
def yieldedGrain (n : Node) (source : Size) : Except Fault Size := do
  return (← source.divCeil? n.inStride).mul n.outStride

/-- The grain of an item and the executions of its producer per grain. -/
def grainRate (k : Kernel) (own : Size) (grains : DataId → Size × Size) (item : DataItem) :
    Except Fault (Size × Size) :=
  match k.producerOf item with
  | none => return (own, own)
  | some n => do
    let grain ← (k.inputEdges n).foldlM
      (fun grain e => return grain.lcm (← yieldedGrain n (grains e.source).1)) own
    return (grain, ← grain.divCeil? n.outStride)

/-- Grains and rates, computed from the first data item to the last. -/
def grainRates (k : Kernel) (feed : DataId → Size) (ds : List DataId) :
    Except Fault (DataId → Size × Size) :=
  ds.foldlM (fun grains d => return assign grains d (← grainRate k (feed d) grains (← k.item d)))
    fun _ => (.empty, .empty)

/-! ### Halos -/

/-- The halo one edge asks of its source: that of the target's output brought
back through the strides, and what the read window has beyond one stride. -/
def edgeHalo (halos : DataId → Window × Window) (target : Node) (e : Edge) : Window :=
  ((halos target.output).1.scale target.inStride target.outStride).add (e.read.subSize target.inStride)

/-- The halo of an item in whole grains, and the union of its read windows. -/
def haloReads (k : Kernel) (grain : Size) (halos : DataId → Window × Window) (item : DataItem) :
    Except Fault (Window × Window) := do
  let (halo, reads) ← (k.usersOf item).foldlM
    (fun (acc : Window × Window) e =>
      return (acc.1.union (edgeHalo halos (← k.node e.target) e), acc.2.union e.read))
    (Window.zero item.rank, Window.zero item.rank)
  return (halo.inflate grain, reads)

/-- Halos and read unions, computed from the last data item to the first. -/
def halosReads (k : Kernel) (grains : DataId → Size × Size) (ds : List DataId) :
    Except Fault (DataId → Window × Window) :=
  ds.foldrM (fun d halos => return assign halos d (← haloReads k (grains d).1 halos (← k.item d)))
    fun _ => (.empty, .empty)

/-! ### The pass -/

/-- The tile of every data item the order reaches. -/
def tiles (k : Kernel) (ds : List DataId) : Except Fault (DataId → Tile) := do
  let feed ← feedGrains k ds
  let grains ← grainRates k feed ds
  let halos ← halosReads k grains ds
  return fun d => ⟨feed d, (grains d).1, (grains d).2, (halos d).1, (halos d).2⟩

/-- Each item with its tile; a tile is handed out once, so a repeated item gets an empty one. -/
def handOut (tile : DataId → Tile) (ds : List DataId) : List (DataId × Tile) :=
  ds.zipIdx.map fun (d, i) => (d, if d ∈ ds.take i then {} else tile d)

def recordTile (k : Kernel) (entry : DataId × Tile) : Except AnalysisError (DataId × DataItem) := do
  let item ← ofFault (k.item entry.1)
  return (entry.1, ← ofKernel (item.setTile entry.2))

/-- Computes and records the tile of every data item; control scalars get an empty one. -/
def analyzeTiles (order : List NodeId) : Pass Unit := fun k =>
  let computed : Except Fault (List (DataId × Tile)) := do
    let ds ← dataOrder k order
    return handOut (← tiles k ds) ds
  match computed with
  | .error f => (.error (.fault f), k)
  | .ok entries =>
    let controls := (k.data.filter (·.isControl)).map fun d => (d.id, ({} : Tile))
    revise recordTile (entries ++ controls) k

end StencilTiling.Analysis
