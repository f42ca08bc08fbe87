import StencilTiling.Analysis.Config
import StencilTiling.Analysis.Error
import StencilTiling.Device.Basic

/-! The partition plan. One partition per dimension serves the kernel: it covers
the most grains any data item has there, and each item scales it by its own
grain. -/

namespace StencilTiling.Analysis

/-- The partition of the iteration space and the shape of the work-groups. -/
structure Plan where
  rank : Nat
  scanDim : Nat
  partitions : List Partition
  workGroups : Nat
  workItems : Nat
  deriving DecidableEq, Repr

namespace Plan

/-- Grains per part; one past the last dimension. -/
def sliceGrains (p : Plan) (dim : Nat) : Int := ((p.partitions[dim]?).map Partition.sliceGrains).getD 1

/-- Parts along a dimension; one past the last. -/
def parts (p : Plan) (dim : Nat) : Int := ((p.partitions[dim]?).map Partition.parts).getD 1

def totalParts (p : Plan) : Int := (p.partitions.map Partition.parts).foldr (· * ·) 1

end Plan

/-- Why no plan fits. -/
inductive Refusal where
  | unbounded (data : String) (dim : Nat)
  | tooSmall (dim : Nat)
  | narrow (fixedTile : Bool) (data : String) (width : Int) (dim : Nat) (footprint : Int)
  deriving DecidableEq, Repr

def Refusal.message (kernel : String) : Refusal → String
  | unbounded data dim =>
    s!"kernel '{kernel}': '{data}' has no bound on its extent in dimension {dim}, cannot tile it"
  | tooSmall dim =>
    s!"kernel '{kernel}': local memory too small for a tile of one grain in dimension {dim}"
  | narrow fixedTile data width dim footprint =>
    let cause := if fixedTile then "tile" else "local memory budget"
    s!"kernel '{kernel}': {cause} limits '{data}' to {width} pixels in dimension {dim}, narrower than its {footprint}-pixel stencil"

/-- Why planning stops. -/
inductive PlanFailure where
  | fault (f : Fault)
  | refused (r : Refusal)
  deriving DecidableEq, Repr

/-! ### Counting grains -/

/-- The grain of an item, empty before tile analysis. -/
def grainOf (item : DataItem) : Size := (item.note.tile.map Tile.grain).getD .empty

/-- The halo of an item along a dimension, none before tile analysis. -/
def haloOf (item : DataItem) (dim : Nat) : Span := ((item.note.tile.map Tile.halo).getD .empty).span dim

/-- Grains of one item along a dimension. -/
def itemGrains (item : DataItem) (dim : Nat) : Except PlanFailure Int :=
  match item.shape[dim]? with
  | none => .error (.fault .outOfRange)
  | some extent => match extent.bound with
    | none => .error (.refused (.unbounded item.name dim))
    | some n => .ok (Arith.ceilDiv (Arith.wrap64 n) (max ((grainOf item).get dim) 1))

/-- Grains along a dimension: the most any iterative item has. -/
def countGrains (k : Kernel) (dim : Nat) : Except PlanFailure Int :=
  k.iterativeData.foldlM (fun most item => return max most (← itemGrains item dim)) 1

/-- Grains of every dimension. An unbounded extent counts as one grain of a whole image. -/
def grainCounts (k : Kernel) (mode : Granularity) : Except PlanFailure (List Int) :=
  (List.range k.rank).mapM fun dim => match countGrains k dim, mode with
    | .error (.refused _), .wholeImage => .ok 1
    | counted, _ => counted

/-! ### Work-group slices -/

/-- The scan dimension in as equal slices as there are groups, the others whole. -/
def groupSlices (groups : Nat) (scanDim : Nat) (grains : List Int) : List Partition :=
  grains.zipIdx.map fun (n, dim) =>
    if dim = scanDim then
      .split n (Arith.ceilDiv n (max (min (Arith.wrap64 groups) n) 1))
    else .whole n

/-! ### External tiles -/

/-- Bytes of one pixel across all slots of a buffer. -/
def lineBytes (item : DataItem) : Int := (item.elemBytes : Int) * item.note.pattern.slots

/-- Bytes the halos take along a dimension whatever the slice. -/
def haloBytes (k : Kernel) (dim : Nat) : Int :=
  (k.iterativeData.map fun d => lineBytes d * ((haloOf d dim).last - (haloOf d dim).first)).foldr (· + ·) 0

/-- Bytes one more grain of slice takes along a dimension. -/
def grainBytes (k : Kernel) (dim : Nat) : Int :=
  (k.iterativeData.map fun d => lineBytes d * (grainOf d).get dim).foldr (· + ·) 0

/-- The longest slice whose buffers fit the budget. -/
def fittedSlice (k : Kernel) (budget : Nat) (dim : Nat) (grains : Int) : Int :=
  if grainBytes k dim = 0 then grains
  else Arith.floorDiv (Arith.wrap64 budget - haloBytes k dim) (grainBytes k dim)

/-- The grain by which a fixed tile is measured: that of the first output. -/
def referenceGrain (k : Kernel) : Size := ((k.data.find? (·.isOutput)).map grainOf).getD .empty

/-- Grains per tile along a dimension, before any clamping. -/
def tileSlice (k : Kernel) (device : Device) (config : TilingConfig) (scanDim dim : Nat) (grains : Int) : Int :=
  match config.tile with
  | some tile =>
    if dim < tile.rank then Arith.ceilDiv (tile.get dim) (max ((referenceGrain k).get dim) 1) else grains
  | none =>
    if dim = scanDim then grains
    else match device.localBudget with
      | none => grains
      | some budget => fittedSlice k budget dim grains

/-- The first item whose stencil is wider than its tile. -/
def narrowItem (k : Kernel) (fixedTile : Bool) (dim : Nat) (p : Partition) : Option Refusal :=
  k.iterativeData.findSome? fun item => item.note.tile.bind fun tile =>
    let width := p.sliceGrains * tile.grain.get dim
    let footprint := tile.reads.length dim
    if width < footprint ∧ 1 < p.parts then some (.narrow fixedTile item.name width dim footprint) else none

/-- The tiles along one dimension. -/
def tilePartition (k : Kernel) (device : Device) (config : TilingConfig) (scanDim : Nat) :
    Int × Nat → Except PlanFailure Partition
  | (grains, dim) =>
    let slice := tileSlice k device config scanDim dim grains
    if slice < 1 then .error (.refused (.tooSmall dim))
    else
      let p := Partition.split grains slice
      match if dim = scanDim then none else narrowItem k config.isFixedTile dim p with
      | some r => .error (.refused r)
      | none => .ok p

def tilePartitions (k : Kernel) (device : Device) (config : TilingConfig) (scanDim : Nat)
    (grains : List Int) : Except PlanFailure (List Partition) :=
  grains.zipIdx.mapM (tilePartition k device config scanDim)

/-! ### The plan -/

/-- Work-groups asked for, at least one. -/
def groupsOf (device : Device) (config : TilingConfig) : Nat := max (config.workGroups.getD device.units) 1

/-- Work-items asked for, at least one. -/
def itemsOf (device : Device) (config : TilingConfig) : Nat :=
  max (config.workItems.getD device.unit.elements) 1

/-- The partition of every dimension under a configuration. -/
def partitionsOf (k : Kernel) (device : Device) (config : TilingConfig) (grains : List Int) :
    Except PlanFailure (List Partition) :=
  let scanDim := config.scan.scanDim k.rank
  match config.mode with
  | .wholeImage => .ok (grains.map Partition.whole)
  | .workGroupSlicing => .ok (groupSlices (groupsOf device config) scanDim grains)
  | .externalTiling => tilePartitions k device config scanDim grains

/-- Groups run: one for a whole image, one per slice, or as many as have tiles. -/
def workGroupsOf (device : Device) (config : TilingConfig) (total : Int) : Nat :=
  match config.mode with
  | .wholeImage => 1
  | .workGroupSlicing => total.toNat
  | .externalTiling => min (groupsOf device config) total.toNat

/-- The plan, or why there is none. -/
def choosePlan (k : Kernel) (device : Device) (config : TilingConfig) : Except PlanFailure Plan := do
  let grains ← grainCounts k config.mode
  let partitions ← partitionsOf k device config grains
  let total := (partitions.map Partition.parts).foldr (· * ·) 1
  return {
    rank := k.rank, scanDim := config.scan.scanDim k.rank, partitions,
    workGroups := workGroupsOf device config total, workItems := itemsOf device config }

/-- Chooses a plan; a refusal is reported and leaves none. -/
def planPartitions (k : Kernel) (device : Device) (config : TilingConfig) :
    Reporting AnalysisError (Option Plan) :=
  match choosePlan k device config with
  | .ok plan => return some plan
  | .error (.fault f) => throw (.fault f)
  | .error (.refused r) => do
    ExceptT.adapt .aborted (Diagnostics.error none (r.message k.name))
    return none

end StencilTiling.Analysis
