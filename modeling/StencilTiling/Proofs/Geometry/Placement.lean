import StencilTiling.Proofs.Geometry.Cut
import StencilTiling.Proofs.Geometry.Denotation

/-! The coordinate expressions of an axis denote the coordinates of a cut, as long
as the values they go through stay in the word. For the slice alone these are the
slice and its start in pixels; for all entries they are the halo before the slice
and the end of the padded slice. -/

namespace StencilTiling.Geometry

open Arith

namespace Cut

/-- The start and the length of the slice are words. -/
structure SliceFits (c : Cut) : Prop where
  extent_le : c.extent ≤ maxWord
  pos_le : c.pos * c.grain ≤ maxWord
  slice_le : c.slice * c.grain ≤ maxWord

/-- The extent, the halo before the slice and the end of the padded slice are words, and the
halo has not come back from the other end of the word. -/
structure Fits (c : Cut) : Prop where
  extent_le : c.extent ≤ maxWord
  lo_nonneg : 0 ≤ c.lo
  hi_nonneg : 0 ≤ c.hi
  lo_le : c.lo * c.grain ≤ maxWord
  end_le : (c.pos + c.slice + c.hi) * c.grain ≤ maxWord

instance (c : Cut) : Decidable c.SliceFits :=
  decidable_of_iff
    (c.extent ≤ maxWord ∧ c.pos * c.grain ≤ maxWord ∧ c.slice * c.grain ≤ maxWord)
    ⟨fun ⟨hN, hp, hs⟩ => ⟨hN, hp, hs⟩, fun ⟨hN, hp, hs⟩ => ⟨hN, hp, hs⟩⟩

instance (c : Cut) : Decidable c.Fits :=
  decidable_of_iff
    (c.extent ≤ maxWord ∧ (0 ≤ c.lo ∧ 0 ≤ c.hi) ∧ c.lo * c.grain ≤ maxWord ∧
      (c.pos + c.slice + c.hi) * c.grain ≤ maxWord)
    ⟨fun ⟨hN, ⟨hlo, hhi⟩, hl, he⟩ => ⟨hN, hlo, hhi, hl, he⟩,
      fun ⟨hN, hlo, hhi, hl, he⟩ => ⟨hN, ⟨hlo, hhi⟩, hl, he⟩⟩

variable {c : Cut}

/-- A count of at most `y` grains is a word in pixels if `y` grains are. -/
theorem Sliced.fits_grains (h : c.Sliced) {x y : Int} (h0 : 0 ≤ x) (hxy : x ≤ y)
    (hy : y * c.grain ≤ maxWord) : FitsWord (x * c.grain) :=
  fitsWord_of_nonneg (mul_nonneg h0 h.grain_pos.le)
    ((mul_le_mul_of_nonneg_right hxy h.grain_pos.le).trans hy)

/-- Blocks are not smaller than pixels, so a word in pixels is a word in blocks. -/
theorem Sliced.fits_blocks (h : c.Sliced) {x : Int} (h0 : 0 ≤ x)
    (hx : FitsWord (x * c.grain)) : FitsWord (x * c.rate) :=
  fitsWord_of_nonneg (mul_nonneg h0 h.rate_pos.le)
    ((mul_le_mul_of_nonneg_left h.rate_le_grain h0).trans hx.2)

theorem Sliced.proper (h : c.Sliced) (hf : c.Fits) : c.Proper := ⟨h, hf.lo_nonneg, hf.hi_nonneg⟩

theorem Fits.sliceFits (h : c.Sliced) (hf : c.Fits) : c.SliceFits := by
  have := h.pos_nonneg
  have := h.slice_nonneg
  have := hf.hi_nonneg
  exact ⟨hf.extent_le, (h.fits_grains h.pos_nonneg (by omega) hf.end_le).2,
    (h.fits_grains h.slice_nonneg (by omega) hf.end_le).2⟩

section Fits

variable (h : c.Proper) (hf : c.Fits)

include h hf

theorem fits_left : FitsWord (c.left * c.grain) :=
  h.fits_grains (h.value_nonneg .leftExtent .grain) (min_le_right _ _) (hf.sliceFits h.toSliced).pos_le

theorem fits_right : FitsWord (c.right * c.grain) := by
  refine h.fits_grains (h.value_nonneg .rightExtent .grain) ?_ hf.end_le
  have := h.pos_nonneg
  have := h.slice_nonneg
  have := h.hi_nonneg
  rw [right]
  omega

theorem fits_skipBegin : FitsWord (c.skipBegin * c.grain) :=
  h.fits_grains (h.value_nonneg .skipBegin .grain)
    (sub_le_self _ (h.value_nonneg .leftExtent .grain)) hf.lo_le

/-- The full slice starts no later than the slice. -/
theorem fits_fullPos : FitsWord (c.fullPos * c.grain) :=
  h.fits_grains (h.value_nonneg .fullSlicePosition .grain)
    (sub_le_self _ (h.value_nonneg .leftExtent .grain)) (hf.sliceFits h.toSliced).pos_le

/-- The full slice ends no later than the padded slice. -/
theorem fits_fullSize : FitsWord (c.fullSize * c.grain) := by
  refine h.fits_grains (h.value_nonneg .fullSliceSize .grain) ?_ hf.end_le
  have hend := h.fullEnd_eq
  have hpos : 0 ≤ c.fullPos := h.value_nonneg .fullSlicePosition .grain
  have := h.slice_nonneg
  have := h.hi_nonneg
  omega

end Fits

end Cut

/-- The parts of the axis denote those of the cut. -/
structure Places (part : Int) (extents : DataId → Int) (a : Analysis.Axis) (c : Cut) : Prop where
  grain_eq : a.grain = c.grain
  rate_eq : a.rate = c.rate
  stride_eq : a.stride = c.stride
  extent : Expr.Denotes part extents a.extent c.extent
  lo : Expr.Denotes part extents a.lo c.lo
  hi : Expr.Denotes part extents a.hi c.hi
  pos : Expr.Denotes part extents a.pos c.pos
  slice : Expr.Denotes part extents a.slice c.slice

namespace Places

open StencilTiling.Geometry.Expr (Denotes)

variable {part : Int} {extents : DataId → Int} {a : Analysis.Axis} {c : Cut}

theorem left (ha : Places part extents a c) : Denotes part extents a.left c.left :=
  ha.lo.atMost ha.pos

theorem fullPos (ha : Places part extents a c) : Denotes part extents a.fullPos c.fullPos :=
  ha.pos.minus ha.left

theorem skipBegin (ha : Places part extents a c) : Denotes part extents a.skipBegin c.skipBegin :=
  ha.lo.minus ha.left

section Slice

variable (ha : Places part extents a c) (h : c.Sliced) (hf : c.SliceFits)

include ha h hf

theorem grains : Denotes part extents a.grains c.grains := by
  rw [Analysis.Axis.grains, ha.grain_eq]
  exact ha.extent.ceilBy h.grain_pos h.extent_nonneg hf.extent_le

theorem size : Denotes part extents a.size c.size :=
  (ha.slice.atMost ((ha.grains h hf).minus ha.pos)).clampNonneg

theorem posPx : Denotes part extents a.posPx (c.pos * c.grain) := by
  rw [Analysis.Axis.posPx, ha.grain_eq]
  exact ha.pos.scaled (h.fits_grains h.pos_nonneg le_rfl hf.pos_le)

theorem slicePx : Denotes part extents a.slicePx (c.slice * c.grain) := by
  rw [Analysis.Axis.slicePx, ha.grain_eq]
  exact ha.slice.scaled (h.fits_grains h.slice_nonneg le_rfl hf.slice_le)

theorem sizePx : Denotes part extents a.sizePx c.sizePx :=
  ((ha.slicePx h hf).atMost (ha.extent.minus (ha.posPx h hf))).clampNonneg

/-- The slice in blocks is the slice in pixels rounded up. -/
theorem sizeBlocks :
    Denotes part extents (Analysis.ceilBy a.sizePx a.stride) (ceilDiv c.sizePx c.stride) := by
  rw [ha.stride_eq]
  refine (ha.sizePx h hf).ceilBy h.stride_pos (le_max_right _ _) ?_
  have := mul_nonneg h.slice_nonneg h.grain_pos.le
  have := hf.slice_le
  rw [Cut.sizePx]
  omega

theorem slicePosition (u : Measure) :
    Denotes part extents (a.entry .slicePosition u) (c.value .slicePosition u) := by
  cases u with
  | grain => exact ha.pos
  | block =>
    show Denotes part extents (a.pos.scaled a.rate) (c.pos * c.rate)
    rw [ha.rate_eq]
    exact ha.pos.scaled (h.fits_blocks h.pos_nonneg (h.fits_grains h.pos_nonneg le_rfl hf.pos_le))
  | pixel => exact ha.posPx h hf

theorem sliceSize (u : Measure) :
    Denotes part extents (a.entry .sliceSize u) (c.value .sliceSize u) := by
  cases u with
  | grain => exact ha.size h hf
  | block => exact ha.sizeBlocks h hf
  | pixel => exact ha.sizePx h hf

end Slice

section Halo

variable (ha : Places part extents a c) (h : c.Proper) (hf : c.Fits)

include ha h hf

theorem right : Denotes part extents a.right c.right :=
  have hs := hf.sliceFits h.toSliced
  (ha.hi.atMost (((ha.grains h.toSliced hs).minus ha.pos).minus (ha.size h.toSliced hs))).clampNonneg

theorem fullSize : Denotes part extents a.fullSize c.fullSize :=
  ((ha.size h.toSliced (hf.sliceFits h.toSliced)).plus ha.left).plus (ha.right h hf)

theorem skipEnd : Denotes part extents a.skipEnd c.skipEnd :=
  (((ha.pos.plus ha.slice).plus ha.hi).minus (ha.grains h.toSliced (hf.sliceFits h.toSliced))).clampNonneg

theorem inGrains (q : Quantity) : Denotes part extents (a.inGrains q) (c.inGrains q) := by
  cases q with
  | slicePosition => exact ha.pos
  | sliceSize => exact ha.size h.toSliced (hf.sliceFits h.toSliced)
  | fullSlicePosition => exact ha.fullPos
  | fullSliceSize => exact ha.fullSize h hf
  | leftExtent => exact ha.left
  | rightExtent => exact ha.right h hf
  | skipBegin => exact ha.skipBegin
  | skipEnd => exact ha.skipEnd h hf

theorem rightPx : Denotes part extents a.rightPx c.rightPx := by
  have hs := hf.sliceFits h.toSliced
  rw [Analysis.Axis.rightPx, ha.grain_eq]
  exact (((ha.right h hf).scaled (Cut.fits_right h hf)).atMost
    ((ha.extent.minus (ha.posPx h.toSliced hs)).minus (ha.slicePx h.toSliced hs))).clampNonneg

theorem fullSizePx : Denotes part extents a.fullSizePx c.fullSizePx := by
  rw [Analysis.Axis.fullSizePx, Analysis.Axis.fullPosPx, ha.grain_eq]
  exact (((ha.fullSize h hf).scaled (Cut.fits_fullSize h hf)).atMost
    (ha.extent.minus (ha.fullPos.scaled (Cut.fits_fullPos h hf)))).clampNonneg

theorem skipEndPx : Denotes part extents a.skipEndPx c.skipEndPx := by
  have := h.pos_nonneg
  have hpad : FitsWord ((c.slice + c.hi) * c.grain) :=
    h.fits_grains (add_nonneg h.slice_nonneg h.hi_nonneg) (by omega) hf.end_le
  rw [Analysis.Axis.skipEndPx, ha.grain_eq]
  exact (((ha.posPx h.toSliced (hf.sliceFits h.toSliced)).plus ((ha.slice.plus ha.hi).scaled hpad)).minus
    ha.extent).clampNonneg

theorem inPixels (q : Quantity) : Denotes part extents (a.inPixels q) (c.inPixels q) := by
  have hs := hf.sliceFits h.toSliced
  cases q with
  | slicePosition => exact ha.posPx h.toSliced hs
  | sliceSize => exact ha.sizePx h.toSliced hs
  | fullSlicePosition =>
    show Denotes part extents (a.fullPos.scaled a.grain) _
    rw [ha.grain_eq]
    exact ha.fullPos.scaled (Cut.fits_fullPos h hf)
  | fullSliceSize => exact ha.fullSizePx h hf
  | leftExtent =>
    show Denotes part extents (a.left.scaled a.grain) _
    rw [ha.grain_eq]
    exact ha.left.scaled (Cut.fits_left h hf)
  | rightExtent => exact ha.rightPx h hf
  | skipBegin =>
    show Denotes part extents (a.skipBegin.scaled a.grain) _
    rw [ha.grain_eq]
    exact ha.skipBegin.scaled (Cut.fits_skipBegin h hf)
  | skipEnd => exact ha.skipEndPx h hf

theorem inBlocks (q : Quantity) : Denotes part extents (a.inBlocks q) (c.inBlocks q) := by
  have hs := hf.sliceFits h.toSliced
  have hmax : (0 : Int) ≤ maxWord := by decide
  cases q with
  | slicePosition => exact ha.slicePosition h.toSliced hs .block
  | sliceSize => exact ha.sizeBlocks h.toSliced hs
  | fullSlicePosition =>
    show Denotes part extents (a.fullPos.scaled a.rate) _
    rw [ha.rate_eq]
    exact ha.fullPos.scaled
      (h.fits_blocks (h.value_nonneg .fullSlicePosition .grain) (Cut.fits_fullPos h hf))
  | fullSliceSize =>
    show Denotes part extents (Analysis.ceilBy a.fullSizePx a.stride) _
    rw [ha.stride_eq]
    exact (ha.fullSizePx h hf).ceilBy h.stride_pos (le_max_right _ _)
      (max_le ((min_le_left _ _).trans (Cut.fits_fullSize h hf).2) hmax)
  | leftExtent =>
    show Denotes part extents (a.left.scaled a.rate) _
    rw [ha.rate_eq]
    exact ha.left.scaled
      (h.fits_blocks (h.value_nonneg .leftExtent .grain) (Cut.fits_left h hf))
  | rightExtent =>
    show Denotes part extents (Analysis.ceilBy a.rightPx a.stride) _
    rw [ha.stride_eq]
    exact (ha.rightPx h hf).ceilBy h.stride_pos (le_max_right _ _)
      (max_le ((min_le_left _ _).trans (Cut.fits_right h hf).2) hmax)
  | skipBegin =>
    show Denotes part extents (a.skipBegin.scaled a.rate) _
    rw [ha.rate_eq]
    exact ha.skipBegin.scaled
      (h.fits_blocks (h.value_nonneg .skipBegin .grain) (Cut.fits_skipBegin h hf))
  | skipEnd =>
    show Denotes part extents (Analysis.ceilBy a.skipEndPx a.stride) _
    rw [ha.stride_eq]
    refine (ha.skipEndPx h hf).ceilBy h.stride_pos (le_max_right _ _) (max_le ?_ hmax)
    have hend := hf.end_le
    have := h.extent_nonneg
    rw [add_assoc, add_mul] at hend
    omega

/-- Every entry denotes its coordinate. -/
theorem entry (q : Quantity) (u : Measure) :
    Denotes part extents (a.entry q u) (c.value q u) := by
  cases u with
  | grain => exact ha.inGrains h hf q
  | block => exact ha.inBlocks h hf q
  | pixel => exact ha.inPixels h hf q

end Halo

end Places

end StencilTiling.Geometry
