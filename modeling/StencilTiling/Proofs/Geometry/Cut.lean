import Mathlib.Tactic.Positivity
import StencilTiling.Geometry.Table
import StencilTiling.Proofs.Arith

/-! The numbers behind the coordinates of one part: how long the image is, how
its pixels group into blocks and grains, and where the slice and its halo lie. The
coordinates are plain integer formulas in them. They describe intervals: the slice
is a window of grains cut off at the end of the image, the full slice is the slice
with its halo cut off at both ends, and the skips are what was cut off. -/

namespace StencilTiling.Geometry

open Arith

/-- One part of a data item along one dimension. -/
structure Cut where
  /-- Pixels of the image. -/
  extent : Int
  /-- Pixels per grain. -/
  grain : Int
  /-- Blocks per grain. -/
  rate : Int
  /-- Pixels per block. -/
  stride : Int
  /-- Halo grains before the slice. -/
  lo : Int
  /-- Halo grains after the slice. -/
  hi : Int
  /-- First grain of the slice. -/
  pos : Int
  /-- Grains of a full slice. -/
  slice : Int
  deriving DecidableEq, Repr

namespace Cut

variable (c : Cut)

/-! ### The coordinates -/

def grains : Int := ceilDiv c.extent c.grain

def size : Int := max (min c.slice (c.grains - c.pos)) 0

def left : Int := min c.lo c.pos

def right : Int := max (min c.hi (c.grains - c.pos - c.size)) 0

def fullPos : Int := c.pos - c.left

def fullSize : Int := c.size + c.left + c.right

def skipBegin : Int := c.lo - c.left

def skipEnd : Int := max (c.pos + c.slice + c.hi - c.grains) 0

def sizePx : Int := max (min (c.slice * c.grain) (c.extent - c.pos * c.grain)) 0

def rightPx : Int :=
  max (min (c.right * c.grain) (c.extent - c.pos * c.grain - c.slice * c.grain)) 0

def fullSizePx : Int := max (min (c.fullSize * c.grain) (c.extent - c.fullPos * c.grain)) 0

def skipEndPx : Int := max (c.pos * c.grain + (c.slice + c.hi) * c.grain - c.extent) 0

def inGrains : Quantity → Int
  | .slicePosition => c.pos
  | .sliceSize => c.size
  | .fullSlicePosition => c.fullPos
  | .fullSliceSize => c.fullSize
  | .leftExtent => c.left
  | .rightExtent => c.right
  | .skipBegin => c.skipBegin
  | .skipEnd => c.skipEnd

def inPixels : Quantity → Int
  | .slicePosition => c.pos * c.grain
  | .sliceSize => c.sizePx
  | .fullSlicePosition => c.fullPos * c.grain
  | .fullSliceSize => c.fullSizePx
  | .leftExtent => c.left * c.grain
  | .rightExtent => c.rightPx
  | .skipBegin => c.skipBegin * c.grain
  | .skipEnd => c.skipEndPx

def inBlocks : Quantity → Int
  | .slicePosition => c.pos * c.rate
  | .sliceSize => ceilDiv c.sizePx c.stride
  | .fullSlicePosition => c.fullPos * c.rate
  | .fullSliceSize => ceilDiv c.fullSizePx c.stride
  | .leftExtent => c.left * c.rate
  | .rightExtent => ceilDiv c.rightPx c.stride
  | .skipBegin => c.skipBegin * c.rate
  | .skipEnd => ceilDiv c.skipEndPx c.stride

/-- A coordinate of the part. -/
def value (quantity : Quantity) : Measure → Int
  | .grain => c.inGrains quantity
  | .block => c.inBlocks quantity
  | .pixel => c.inPixels quantity

/-- Pixels per unit. -/
def unitSize : Measure → Int
  | .grain => c.grain
  | .block => c.stride
  | .pixel => 1

/-- Units per grain. -/
def perGrain : Measure → Int
  | .grain => 1
  | .block => c.rate
  | .pixel => c.grain

/-- Units of the image, a partial one counted whole. -/
def total (u : Measure) : Int := ceilDiv c.extent (c.unitSize u)

/-- Counts and lengths of the slice have their signs, and a grain is whole blocks. -/
structure Sliced : Prop where
  extent_nonneg : 0 ≤ c.extent
  grain_pos : 0 < c.grain
  rate_pos : 0 < c.rate
  stride_pos : 0 < c.stride
  blocks : c.rate * c.stride = c.grain
  pos_nonneg : 0 ≤ c.pos
  slice_nonneg : 0 ≤ c.slice

/-- The halo has its sign as well. -/
structure Proper : Prop extends Sliced c where
  lo_nonneg : 0 ≤ c.lo
  hi_nonneg : 0 ≤ c.hi

variable {c}

namespace Sliced

variable (h : c.Sliced)

include h

theorem unitSize_pos (u : Measure) : 0 < c.unitSize u := by
  cases u
  · exact h.grain_pos
  · exact h.stride_pos
  · exact Int.one_pos

theorem perGrain_pos (u : Measure) : 0 < c.perGrain u := by
  cases u
  · exact Int.one_pos
  · exact h.rate_pos
  · exact h.grain_pos

theorem perGrain_mul_unitSize (u : Measure) : c.perGrain u * c.unitSize u = c.grain := by
  cases u
  · exact one_mul _
  · exact h.blocks
  · exact mul_one _

theorem rate_le_grain : c.rate ≤ c.grain := by
  have := h.blocks
  have := h.stride_pos
  nlinarith [h.rate_pos]

theorem extent_le_grains_mul : c.extent ≤ c.grains * c.grain := le_ceilDiv_mul h.grain_pos

theorem pos_lt_grains_iff : c.pos < c.grains ↔ c.pos * c.grain < c.extent :=
  lt_ceilDiv_iff h.grain_pos

/-- The image has no more units than its grains hold. -/
theorem total_le (u : Measure) : c.total u ≤ c.grains * c.perGrain u := by
  rw [total, ceilDiv_le_iff (h.unitSize_pos u), mul_assoc, h.perGrain_mul_unitSize]
  exact h.extent_le_grains_mul

end Sliced

/-! ### Slices -/

theorem value_slicePosition (u : Measure) : c.value .slicePosition u = c.pos * c.perGrain u := by
  cases u
  · exact (mul_one _).symm
  · rfl
  · rfl

/-- In every unit the slice is cut off where the image ends. -/
theorem Sliced.value_sliceSize (h : c.Sliced) (u : Measure) :
    c.value .sliceSize u =
      max (min (c.slice * c.perGrain u) (c.total u - c.pos * c.perGrain u)) 0 := by
  cases u with
  | grain => simp [value, inGrains, size, perGrain, total, unitSize, grains]
  | pixel => simp [value, inPixels, sizePx, perGrain, total, unitSize, ceilDiv_one]
  | block =>
    have hmono : Monotone fun n => ceilDiv n c.stride := fun _ _ => ceilDiv_mono h.stride_pos
    have hslice : ceilDiv (c.slice * c.grain) c.stride = c.slice * c.rate := by
      rw [← h.blocks, ← mul_assoc, ceilDiv_mul_self h.stride_pos]
    have hrest : ceilDiv (c.extent - c.pos * c.grain) c.stride =
        ceilDiv c.extent c.stride - c.pos * c.rate := by
      rw [← h.blocks, ← mul_assoc, sub_eq_add_neg, ← neg_mul, ceilDiv_add_mul h.stride_pos,
        sub_eq_add_neg]
    show ceilDiv (max (min _ _) 0) c.stride = _
    rw [hmono.map_max, hmono.map_min, hslice, hrest, ceilDiv_zero]
    rfl

/-- A unit lies in the slice if it lies in the slice's grains and in the image. -/
theorem Sliced.mem_slice_iff (h : c.Sliced) (u : Measure) (x : Int) :
    c.value .slicePosition u ≤ x ∧ x < c.value .slicePosition u + c.value .sliceSize u ↔
      c.pos * c.perGrain u ≤ x ∧ x < (c.pos + c.slice) * c.perGrain u ∧ x < c.total u := by
  rw [value_slicePosition, h.value_sliceSize, add_mul]
  omega

/-- A slice that is not empty lies in the image. -/
theorem Sliced.slice_le_total (h : c.Sliced) (u : Measure) (hne : 0 < c.value .sliceSize u) :
    0 ≤ c.value .slicePosition u ∧
      c.value .slicePosition u + c.value .sliceSize u ≤ c.total u := by
  have hpos := mul_nonneg h.pos_nonneg (h.perGrain_pos u).le
  rw [h.value_sliceSize] at hne ⊢
  rw [value_slicePosition]
  omega

/-- A slice is empty in all units or in none. -/
theorem Sliced.sliceSize_pos_iff (h : c.Sliced) (u : Measure) :
    0 < c.value .sliceSize u ↔ 0 < c.slice ∧ c.pos < c.grains := by
  have hG := h.perGrain_pos u
  have hslice : 0 < c.slice * c.perGrain u ↔ 0 < c.slice := mul_pos_iff_of_pos_right hG
  have hpos : c.pos * c.perGrain u < c.total u ↔ c.pos < c.grains := by
    rw [total, lt_ceilDiv_iff (h.unitSize_pos u), mul_assoc, h.perGrain_mul_unitSize,
      h.pos_lt_grains_iff]
  rw [h.value_sliceSize, ← hslice, ← hpos]
  omega

/-! ### Full slices -/

theorem fullPos_eq : c.fullPos = max (c.pos - c.lo) 0 := by
  rw [fullPos, left]
  omega

/-- The full slice ends in grains where its halo or the image does. -/
theorem Proper.fullEnd_eq (h : c.Proper) :
    c.fullPos + c.fullSize = max c.pos (min (c.pos + c.slice + c.hi) c.grains) := by
  have := h.slice_nonneg
  have := h.hi_nonneg
  simp only [fullPos, fullSize, right, size]
  omega

/-- The full slice ends in pixels where its halo or the image does. -/
theorem Proper.fullSizePx_eq (h : c.Proper) :
    c.fullSizePx =
      max (min ((c.pos + c.slice + c.hi) * c.grain) c.extent - c.fullPos * c.grain) 0 := by
  have hg := h.grain_pos
  have hN := h.extent_le_grains_mul
  have hhalo : c.pos * c.grain ≤ (c.pos + c.slice + c.hi) * c.grain :=
    mul_le_mul_of_nonneg_right (by have := h.slice_nonneg; have := h.hi_nonneg; omega) hg.le
  -- the end in grains, scaled: past the image both sides are cut off at its end
  have hend : min ((c.fullPos + c.fullSize) * c.grain) c.extent =
      min ((c.pos + c.slice + c.hi) * c.grain) c.extent := by
    rw [h.fullEnd_eq, max_mul_of_nonneg _ _ hg.le, min_mul_of_nonneg _ _ hg.le]
    omega
  rw [add_mul] at hend
  rw [fullSizePx]
  omega

/-- A line with room for the padded slice has room for the full slice. -/
theorem Proper.fullSizePx_le (h : c.Proper) {slice : Int} (hslice : c.slice ≤ slice) :
    c.fullSizePx ≤ (c.lo + slice + c.hi) * c.grain := by
  have hlo := h.lo_nonneg
  have hhi := h.hi_nonneg
  have hpos := h.slice_nonneg
  have hgrains : c.fullSize ≤ c.lo + slice + c.hi := by
    simp only [fullSize, size, left, right]
    omega
  have hscaled : c.fullSize * c.grain ≤ (c.lo + slice + c.hi) * c.grain :=
    mul_le_mul_of_nonneg_right hgrains h.grain_pos.le
  have hroom : 0 ≤ (c.lo + slice + c.hi) * c.grain := mul_nonneg (by omega) h.grain_pos.le
  rw [fullSizePx]
  omega

/-- The pixels of the full slice are those of the padded slice inside the image. -/
theorem Proper.mem_fullSlice_iff (h : c.Proper) (x : Int) :
    c.value .fullSlicePosition .pixel ≤ x ∧
        x < c.value .fullSlicePosition .pixel + c.value .fullSliceSize .pixel ↔
      ((c.pos - c.lo) * c.grain ≤ x ∧ x < (c.pos + c.slice + c.hi) * c.grain) ∧
        0 ≤ x ∧ x < c.extent := by
  have hpos : c.fullPos * c.grain = max ((c.pos - c.lo) * c.grain) 0 := by
    rw [fullPos_eq, max_mul_of_nonneg _ _ h.grain_pos.le, zero_mul]
  show c.fullPos * c.grain ≤ x ∧ x < c.fullPos * c.grain + c.fullSizePx ↔ _
  rw [h.fullSizePx_eq]
  omega

/-- The skips are exactly what the image cuts off the padded slice. -/
theorem Proper.skips_add_fullSize (h : c.Proper)
    (hpos : c.value .fullSlicePosition .pixel ≤ c.extent) :
    c.value .skipBegin .pixel + c.value .fullSliceSize .pixel + c.value .skipEnd .pixel =
      (c.lo + c.slice + c.hi) * c.grain := by
  have hle : c.fullPos * c.grain ≤ (c.pos + c.slice + c.hi) * c.grain := by
    refine mul_le_mul_of_nonneg_right ?_ h.grain_pos.le
    have := h.slice_nonneg
    have := h.hi_nonneg
    have := h.lo_nonneg
    have := h.pos_nonneg
    rw [fullPos_eq]
    omega
  have hpos : c.fullPos * c.grain ≤ c.extent := hpos
  show c.skipBegin * c.grain + c.fullSizePx + c.skipEndPx = _
  rw [h.fullSizePx_eq, skipEndPx, skipBegin]
  have hskip : (c.lo - c.left) * c.grain + (c.pos + c.slice + c.hi) * c.grain - c.fullPos * c.grain =
      (c.lo + c.slice + c.hi) * c.grain := by
    rw [fullPos]
    ring
  have hend : c.pos * c.grain + (c.slice + c.hi) * c.grain =
      (c.pos + c.slice + c.hi) * c.grain := by ring
  omega

/-- The blocks of the full slice are among those of the padded slice. -/
theorem Proper.block_of_mem_fullSlice (h : c.Proper) {b : Int}
    (hb : c.value .fullSlicePosition .block ≤ b)
    (hb' : b < c.value .fullSlicePosition .block + c.value .fullSliceSize .block) :
    (c.pos - c.lo) * c.rate ≤ b ∧ b < (c.pos + c.slice + c.hi) * c.rate := by
  have hb : c.fullPos * c.rate ≤ b := hb
  have hb' : b < c.fullPos * c.rate + ceilDiv c.fullSizePx c.stride := hb'
  constructor
  · refine le_trans (mul_le_mul_of_nonneg_right ?_ h.rate_pos.le) hb
    rw [fullPos_eq]
    exact le_max_left _ _
  · have hpx := (lt_ceilDiv_iff (n := c.fullSizePx) (k := b - c.fullPos * c.rate) h.stride_pos).mp
      (by omega)
    have hnonneg : 0 ≤ (b - c.fullPos * c.rate) * c.stride :=
      mul_nonneg (by omega) h.stride_pos.le
    have hend : b * c.stride < (c.pos + c.slice + c.hi) * c.rate * c.stride := by
      rw [h.fullSizePx_eq] at hpx
      rw [sub_mul, mul_assoc, h.blocks] at hpx hnonneg
      rw [mul_assoc, h.blocks]
      omega
    exact lt_of_mul_lt_mul_right hend h.stride_pos.le

/-- The full slice starts the available halo before the slice. -/
theorem value_fullSlicePosition (u : Measure) :
    c.value .fullSlicePosition u = c.value .slicePosition u - c.value .leftExtent u := by
  cases u
  · rfl
  · exact sub_mul _ _ _
  · exact sub_mul _ _ _

/-- Around a slice that is not empty, the pixels add up. -/
theorem Proper.fullSizePx_add (h : c.Proper) (hne : 0 < c.slice ∧ c.pos < c.grains) :
    c.fullSizePx = c.left * c.grain + (c.sizePx + c.rightPx) := by
  have hg := h.grain_pos
  have hN := h.extent_le_grains_mul
  have hpos := h.pos_lt_grains_iff.mp hne.2
  have hslice : 0 < c.slice * c.grain := mul_pos hne.1 hg
  have hleft : c.fullPos * c.grain = c.pos * c.grain - c.left * c.grain := sub_mul _ _ _
  have hlp : 0 ≤ c.left * c.grain :=
    mul_nonneg (le_min h.lo_nonneg h.pos_nonneg) hg.le
  -- the halo after the slice ends with the halo or with the last grain
  have hright : c.right * c.grain =
      max (min (c.hi * c.grain)
        (c.grains * c.grain - c.pos * c.grain - min (c.slice * c.grain)
          (c.grains * c.grain - c.pos * c.grain))) 0 := by
    have hsize : c.size = min c.slice (c.grains - c.pos) := by
      rw [size]
      omega
    rw [right, hsize, max_mul_of_nonneg _ _ hg.le, min_mul_of_nonneg _ _ hg.le, zero_mul, sub_mul,
      sub_mul, min_mul_of_nonneg _ _ hg.le, sub_mul]
  have hhi : 0 ≤ c.hi * c.grain := mul_nonneg h.hi_nonneg hg.le
  rw [h.fullSizePx_eq, sizePx, rightPx, hright, hleft, add_mul, add_mul]
  omega

/-- Around a slice that is not empty, the full slice is its halo and the slice, in
every unit. -/
theorem Proper.value_fullSliceSize (h : c.Proper) (hne : 0 < c.slice ∧ c.pos < c.grains)
    (u : Measure) :
    c.value .fullSliceSize u =
      c.value .leftExtent u + c.value .sliceSize u + c.value .rightExtent u := by
  cases u with
  | grain =>
    show c.size + c.left + c.right = _
    rw [add_comm c.size]
    rfl
  | pixel =>
    show c.fullSizePx = _
    rw [h.fullSizePx_add hne, ← add_assoc]
    rfl
  | block =>
    show ceilDiv c.fullSizePx c.stride = c.left * c.rate + ceilDiv c.sizePx c.stride +
      ceilDiv c.rightPx c.stride
    rw [h.fullSizePx_add hne, ← h.blocks, ← mul_assoc, add_comm (_ * _),
      ceilDiv_add_mul h.stride_pos, add_comm _ (c.left * c.rate), add_assoc]
    congr 1
    -- past the slice there are pixels only if the slice is whole, hence whole blocks
    by_cases hr : c.rightPx = 0
    · simp [hr]
    · have hwhole : c.sizePx = c.slice * c.rate * c.stride := by
        rw [mul_assoc, h.blocks]
        have hs : 0 < c.slice * c.grain := mul_pos hne.1 h.grain_pos
        rw [rightPx] at hr
        rw [sizePx]
        omega
      rw [hwhole, add_comm, ceilDiv_add_mul h.stride_pos, ceilDiv_mul_self h.stride_pos, add_comm]

/-- No coordinate is negative. -/
theorem Proper.value_nonneg (h : c.Proper) (q : Quantity) (u : Measure) : 0 ≤ c.value q u := by
  have hg := h.grain_pos.le
  have hr := h.rate_pos.le
  have hleft : 0 ≤ c.left := le_min h.lo_nonneg h.pos_nonneg
  have hfull : 0 ≤ c.fullPos := sub_nonneg.mpr (min_le_right _ _)
  have hskip : 0 ≤ c.skipBegin := sub_nonneg.mpr (min_le_left _ _)
  have hsize : 0 ≤ c.size := le_max_right _ _
  have hright : 0 ≤ c.right := le_max_right _ _
  have hceil : ∀ {n}, 0 ≤ n → 0 ≤ ceilDiv n c.stride := ceilDiv_nonneg h.stride_pos
  cases u with
  | grain =>
    cases q with
    | slicePosition => exact h.pos_nonneg
    | sliceSize => exact hsize
    | fullSlicePosition => exact hfull
    | fullSliceSize => exact add_nonneg (add_nonneg hsize hleft) hright
    | leftExtent => exact hleft
    | rightExtent => exact hright
    | skipBegin => exact hskip
    | skipEnd => exact le_max_right _ _
  | block =>
    cases q with
    | slicePosition => exact mul_nonneg h.pos_nonneg hr
    | fullSlicePosition => exact mul_nonneg hfull hr
    | leftExtent => exact mul_nonneg hleft hr
    | skipBegin => exact mul_nonneg hskip hr
    | _ => exact hceil (le_max_right _ _)
  | pixel =>
    cases q with
    | slicePosition => exact mul_nonneg h.pos_nonneg hg
    | fullSlicePosition => exact mul_nonneg hfull hg
    | leftExtent => exact mul_nonneg hleft hg
    | skipBegin => exact mul_nonneg hskip hg
    | _ => exact le_max_right _ _

end Cut

end StencilTiling.Geometry
