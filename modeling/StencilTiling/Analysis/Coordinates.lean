import StencilTiling.Analysis.Plan

/-! The coordinates of every data item. Along a dimension, with `g` the grain,
`S` the slice in grains, `N` the extent, `lo` and `hi` the halo in grains and
`nbg` the grains of the image, the grain entries are

    pos        = part * S
    size       = max (min S (nbg - pos)) 0
    left       = min lo pos
    right      = max (min hi (nbg - pos - size)) 0
    skipBegin  = lo - left
    skipEnd    = max (pos + S + hi - nbg) 0

Pixel entries scale by `g` and are clamped to `N`; block entries scale by the
execution rate and round partial blocks up. -/

namespace StencilTiling.Analysis

open StencilTiling.Geometry (Expr Key Table)

/-- The quotient rounded up. -/
def ceilBy (e : Expr) (den : Int) : Expr := e.mapBy ⟨0, ⟨1, max den 1, .up⟩⟩

/-- What the coordinates of one dimension are made from. -/
structure Axis where
  /-- The extent in pixels. -/
  extent : Expr
  /-- Pixels per grain. -/
  grain : Int
  /-- Blocks per grain. -/
  rate : Int
  /-- Pixels per block. -/
  stride : Int
  /-- Halo grains before the slice. -/
  lo : Expr
  /-- Halo grains after the slice. -/
  hi : Expr
  /-- First grain of the slice. -/
  pos : Expr
  /-- Grains of a full slice. -/
  slice : Expr
  deriving DecidableEq, Repr

namespace Axis

/-! ### Grain units -/

def grains (a : Axis) : Expr := ceilBy a.extent a.grain

def size (a : Axis) : Expr := (a.slice.atMost (a.grains.minus a.pos)).clampNonneg

def left (a : Axis) : Expr := a.lo.atMost a.pos

def right (a : Axis) : Expr := (a.hi.atMost ((a.grains.minus a.pos).minus a.size)).clampNonneg

def fullPos (a : Axis) : Expr := a.pos.minus a.left

def fullSize (a : Axis) : Expr := (a.size.plus a.left).plus a.right

def skipBegin (a : Axis) : Expr := a.lo.minus a.left

def skipEnd (a : Axis) : Expr := (((a.pos.plus a.slice).plus a.hi).minus a.grains).clampNonneg

/-! ### Pixel units -/

def posPx (a : Axis) : Expr := a.pos.scaled a.grain

def slicePx (a : Axis) : Expr := a.slice.scaled a.grain

def sizePx (a : Axis) : Expr := (a.slicePx.atMost (a.extent.minus a.posPx)).clampNonneg

def leftPx (a : Axis) : Expr := a.left.scaled a.grain

def rightPx (a : Axis) : Expr :=
  ((a.right.scaled a.grain).atMost ((a.extent.minus a.posPx).minus a.slicePx)).clampNonneg

def fullPosPx (a : Axis) : Expr := a.fullPos.scaled a.grain

def fullSizePx (a : Axis) : Expr :=
  ((a.fullSize.scaled a.grain).atMost (a.extent.minus a.fullPosPx)).clampNonneg

def skipBeginPx (a : Axis) : Expr := a.skipBegin.scaled a.grain

def skipEndPx (a : Axis) : Expr :=
  ((a.posPx.plus ((a.slice.plus a.hi).scaled a.grain)).minus a.extent).clampNonneg

/-! ### All entries -/

def inGrains (a : Axis) : Geometry.Quantity → Expr
  | .slicePosition => a.pos
  | .sliceSize => a.size
  | .fullSlicePosition => a.fullPos
  | .fullSliceSize => a.fullSize
  | .leftExtent => a.left
  | .rightExtent => a.right
  | .skipBegin => a.skipBegin
  | .skipEnd => a.skipEnd

def inPixels (a : Axis) : Geometry.Quantity → Expr
  | .slicePosition => a.posPx
  | .sliceSize => a.sizePx
  | .fullSlicePosition => a.fullPosPx
  | .fullSliceSize => a.fullSizePx
  | .leftExtent => a.leftPx
  | .rightExtent => a.rightPx
  | .skipBegin => a.skipBeginPx
  | .skipEnd => a.skipEndPx

def inBlocks (a : Axis) : Geometry.Quantity → Expr
  | .slicePosition => a.pos.scaled a.rate
  | .sliceSize => ceilBy a.sizePx a.stride
  | .fullSlicePosition => a.fullPos.scaled a.rate
  | .fullSliceSize => ceilBy a.fullSizePx a.stride
  | .leftExtent => a.left.scaled a.rate
  | .rightExtent => ceilBy a.rightPx a.stride
  | .skipBegin => a.skipBegin.scaled a.rate
  | .skipEnd => ceilBy a.skipEndPx a.stride

def entry (a : Axis) (quantity : Geometry.Quantity) : Geometry.Measure → Expr
  | .grain => a.inGrains quantity
  | .block => a.inBlocks quantity
  | .pixel => a.inPixels quantity

end Axis

/-- The extent of an item along a dimension, known now or at run time. -/
def extentExpr (item : DataItem) (dim : Nat) : Expr :=
  match item.shape[dim]? with
  | some (.fixed n) => .const (Arith.wrap64 n)
  | _ => .extent item.id

/-- Pixels per block: the output stride of the producer, one for inputs. -/
def blockStride (producer : Option Node) (dim : Nat) : Int :=
  max ((producer.map fun n => n.outStride.get dim).getD 1) 1

/-- The axis of an item along a dimension; a dimension with one part is one slice. -/
def axisOf (item : DataItem) (tile : Tile) (producer : Option Node) (plan : Plan) (dim : Nat) : Axis :=
  let g := max (tile.grain.get dim) 1
  let extent := extentExpr item dim
  let whole := plan.parts dim = 1
  { extent
    grain := g
    rate := max (tile.rate.get dim) 1
    stride := blockStride producer dim
    lo := .const ((Arith.negWord (tile.halo.first dim)).tdiv g)
    hi := .const ((tile.halo.last dim).tdiv g)
    pos := if whole then .const 0 else Expr.partIndex.scaled (plan.sliceGrains dim)
    slice := if whole then ceilBy extent g else .const (plan.sliceGrains dim) }

/-- The coordinates of an item; none for control scalars. -/
def coordinates (k : Kernel) (item : DataItem) (plan : Plan) : Except AnalysisError Table :=
  if item.isControl then return {}
  else match item.note.tile with
    | none => throw (.missingTile k.name item.name)
    | some tile =>
      let axis := axisOf item tile (k.producerOf item) plan
      return .ofFn item.rank fun key => (axis key.dim).entry key.quantity key.measure

def resolveItem (plan : Plan) (k : Kernel) (d : DataId) : Except AnalysisError (DataId × DataItem) := do
  let item ← ofFault (k.item d)
  return (d, ← ofKernel (item.resolve (← coordinates k item plan)))

/-- Resolves the coordinates of every data item. -/
def resolveGeometry (plan : Plan) : Pass Unit := do
  revise (resolveItem plan) ((← get).data.map DataItem.id)

end StencilTiling.Analysis
