import StencilTiling.Analysis.Coordinates

/-! Coordinates are built from few expressions. Along a dimension every entry is made of
the extent, the halo, and the position and the length of a slice, by sums, differences,
bounds, multiples and quotients. What these operations keep holds of all entries. -/

namespace StencilTiling.Analysis

open StencilTiling.Geometry

/-- A property of expressions that building keeps. Apart from extents, only what is clamped
is ever divided. -/
structure KeptByBuilding (P : Expr → Prop) : Prop where
  plus : ∀ {x y : Expr}, P x → P y → P (x.plus y)
  minus : ∀ {x y : Expr}, P x → P y → P (x.minus y)
  atMost : ∀ {x y : Expr}, P x → P y → P (x.atMost y)
  clampNonneg : ∀ {x : Expr}, P x → P x.clampNonneg
  scaled : ∀ {x : Expr} (c : Int), P x → P (x.scaled c)
  ceilBy : ∀ {x : Expr} (den : Int), P x → P (ceilBy x.clampNonneg den)

/-- The axis is made of expressions with the property. -/
structure Axis.MadeOf (P : Expr → Prop) (a : Axis) : Prop where
  extent : P a.extent
  grains : P a.grains
  lo : P a.lo
  hi : P a.hi
  pos : P a.pos
  slice : P a.slice

namespace Axis.MadeOf

variable {P : Expr → Prop} (hP : KeptByBuilding P) {a : Axis} (h : a.MadeOf P)

include hP h

theorem size : P a.size := hP.clampNonneg (hP.atMost h.slice (hP.minus h.grains h.pos))

theorem left : P a.left := hP.atMost h.lo h.pos

theorem right : P a.right :=
  hP.clampNonneg (hP.atMost h.hi (hP.minus (hP.minus h.grains h.pos) (h.size hP)))

theorem fullPos : P a.fullPos := hP.minus h.pos (h.left hP)

theorem fullSize : P a.fullSize := hP.plus (hP.plus (h.size hP) (h.left hP)) (h.right hP)

theorem skipBegin : P a.skipBegin := hP.minus h.lo (h.left hP)

theorem inGrains (q : Quantity) : P (a.inGrains q) := by
  cases q with
  | slicePosition => exact h.pos
  | sliceSize => exact h.size hP
  | fullSlicePosition => exact h.fullPos hP
  | fullSliceSize => exact h.fullSize hP
  | leftExtent => exact h.left hP
  | rightExtent => exact h.right hP
  | skipBegin => exact h.skipBegin hP
  | skipEnd => exact hP.clampNonneg (hP.minus (hP.plus (hP.plus h.pos h.slice) h.hi) h.grains)

/-- The sizes in pixels before they are clamped. -/
theorem unclamped :
    P (a.slicePx.atMost (a.extent.minus a.posPx)) ∧
      P ((a.fullSize.scaled a.grain).atMost (a.extent.minus a.fullPosPx)) ∧
      P ((a.right.scaled a.grain).atMost ((a.extent.minus a.posPx).minus a.slicePx)) ∧
      P ((a.posPx.plus ((a.slice.plus a.hi).scaled a.grain)).minus a.extent) := by
  have hpos := hP.scaled a.grain h.pos
  have hslice := hP.scaled a.grain h.slice
  refine ⟨hP.atMost hslice (hP.minus h.extent hpos), ?_, ?_, ?_⟩
  · exact hP.atMost (hP.scaled _ (h.fullSize hP)) (hP.minus h.extent (hP.scaled _ (h.fullPos hP)))
  · exact hP.atMost (hP.scaled _ (h.right hP)) (hP.minus (hP.minus h.extent hpos) hslice)
  · exact hP.minus (hP.plus hpos (hP.scaled _ (hP.plus h.slice h.hi))) h.extent

theorem inPixels (q : Quantity) : P (a.inPixels q) := by
  obtain ⟨hsize, hfull, hright, hend⟩ := h.unclamped hP
  cases q with
  | slicePosition => exact hP.scaled _ h.pos
  | sliceSize => exact hP.clampNonneg hsize
  | fullSlicePosition => exact hP.scaled _ (h.fullPos hP)
  | fullSliceSize => exact hP.clampNonneg hfull
  | leftExtent => exact hP.scaled _ (h.left hP)
  | rightExtent => exact hP.clampNonneg hright
  | skipBegin => exact hP.scaled _ (h.skipBegin hP)
  | skipEnd => exact hP.clampNonneg hend

/-- Blocks are multiples of grains, or clamped pixels divided. -/
theorem inBlocks (q : Quantity) : P (a.inBlocks q) := by
  obtain ⟨hsize, hfull, hright, hend⟩ := h.unclamped hP
  cases q with
  | slicePosition => exact hP.scaled _ h.pos
  | sliceSize => exact hP.ceilBy _ hsize
  | fullSlicePosition => exact hP.scaled _ (h.fullPos hP)
  | fullSliceSize => exact hP.ceilBy _ hfull
  | leftExtent => exact hP.scaled _ (h.left hP)
  | rightExtent => exact hP.ceilBy _ hright
  | skipBegin => exact hP.scaled _ (h.skipBegin hP)
  | skipEnd => exact hP.ceilBy _ hend

theorem entry (q : Quantity) (u : Measure) : P (a.entry q u) := by
  cases u with
  | grain => exact h.inGrains hP q
  | block => exact h.inBlocks hP q
  | pixel => exact h.inPixels hP q

end Axis.MadeOf

end StencilTiling.Analysis
