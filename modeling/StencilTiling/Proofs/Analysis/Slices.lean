import Mathlib.Tactic.IntervalCases
import StencilTiling.Proofs.Analysis.Parts

/-! Slices of an analysed kernel. The slices of the parts of a schedule partition every
image: each grain, block and pixel lies in the slice of one part, also where an item has
fewer grains than the schedule has or is shorter at run time than its bound. The full
slice of a part is its padded slice cut off at both ends of the image, the skips are
what was cut off, and the extents around the slice lead from the one to the other. All
this is about coordinates that stay in the word; a part index far outside of the
schedule makes them wrap. -/

namespace StencilTiling.Analysis

open StencilTiling.Arith StencilTiling.Geometry

/-! ### The parts of an image -/

/-- The extent of an item at run time is not negative and, where its dimension is cut,
at most the declared bound. -/
structure ExtentWithin (k : Kernel) (d : DataItem) (dim : Nat) (extents : DataId → Int) : Prop where
  nonneg : 0 ≤ runExtent d dim extents
  le_bound : partsOf k dim ≠ 1 → ∀ bound ∈ (d.shape[dim]?).bind Extent.bound,
    runExtent d dim extents ≤ bound ∧ (bound : Int) ≤ maxWord

section Parts

variable {k : Kernel} (hk : Scheduled k) {i : DataId} {d : DataItem} (hd : k.data[i]? = some d)
  (hi : d.iterative = true) {dim : Nat} (hdim : dim < d.rank) {extents : DataId → Int}
  (hrun : ExtentWithin k d dim extents)

include hk hd hi hdim hrun

/-- The slices of all parts have room for the image. -/
theorem grains_le_slices (hparts : partsOf k dim ≠ 1) :
    ceilDiv (runExtent d dim extents) ((tileOf d).grain.get dim) ≤ partsOf k dim * sliceOf k dim := by
  obtain ⟨-, -, bound, hbound, hcover⟩ := hk.covers hd hi hdim hparts
  obtain ⟨hle, hword⟩ := hrun.le_bound hparts bound hbound
  rw [wrap64_of_fits (fitsWord_of_nonneg (Int.natCast_nonneg bound) hword)] at hcover
  exact (ceilDiv_mono (hk.grain_pos hd hi hdim) hle).trans hcover

theorem mem_slice_cutOf_iff (u : Measure) {x p : Int} (hp : 0 ≤ p)
    (hx : x < ceilDiv (runExtent d dim extents) (unitOf k d dim u)) :
    (cutOf k d dim p (runExtent d dim extents)).value .slicePosition u ≤ x ∧
        x < (cutOf k d dim p (runExtent d dim extents)).value .slicePosition u +
          (cutOf k d dim p (runExtent d dim extents)).value .sliceSize u ↔
      (cutOf k d dim p (runExtent d dim extents)).pos * perGrainOf d dim u ≤ x ∧
        x < ((cutOf k d dim p (runExtent d dim extents)).pos +
          (cutOf k d dim p (runExtent d dim extents)).slice) * perGrainOf d dim u := by
  rw [(hk.sliced hd hi hdim hp hrun.nonneg).mem_slice_iff, perGrain_cutOf, total_cutOf]
  tauto

/-- Every unit of the image is in the slice of exactly one part. -/
theorem existsUnique_part (u : Measure) {x : Int} (h0 : 0 ≤ x)
    (hx : x < ceilDiv (runExtent d dim extents) (unitOf k d dim u)) :
    ∃! p, (0 ≤ p ∧ p < partsOf k dim) ∧
      (cutOf k d dim p (runExtent d dim extents)).value .slicePosition u ≤ x ∧
      x < (cutOf k d dim p (runExtent d dim extents)).value .slicePosition u +
        (cutOf k d dim p (runExtent d dim extents)).value .sliceSize u := by
  have hmem := fun p hp => mem_slice_cutOf_iff (p := p) hk hd hi hdim hrun u hp hx
  have hsliced := hk.sliced hd hi hdim (le_refl 0) hrun.nonneg
  have hper : 0 < perGrainOf d dim u := by
    rw [← perGrain_cutOf]
    exact hsliced.perGrain_pos u
  have htotal := hsliced.total_le u
  rw [total_cutOf, perGrain_cutOf] at htotal
  by_cases hparts : partsOf k dim = 1
  · -- the only part takes all grains of the image
    refine ⟨0, ⟨by omega, (hmem 0 le_rfl).mpr ?_⟩, ?_⟩
    · rw [pos_cutOf_one hparts, slice_cutOf_one hparts, zero_mul, zero_add]
      exact ⟨h0, hx.trans_le htotal⟩
    · rintro p ⟨hp, -⟩
      omega
  · obtain ⟨-, hslice, -⟩ := hk.covers hd hi hdim hparts
    have hlt : x < partsOf k dim * (sliceOf k dim * perGrainOf d dim u) :=
      calc x < _ := hx
        _ ≤ _ := htotal
        _ ≤ partsOf k dim * sliceOf k dim * perGrainOf d dim u :=
          mul_le_mul_of_nonneg_right (grains_le_slices hk hd hi hdim hrun hparts) hper.le
        _ = _ := mul_assoc _ _ _
    obtain ⟨p, ⟨hp, hxp⟩, hunique⟩ := existsUnique_window (mul_pos hslice hper) h0 hlt
    simp only [pos_cutOf hparts, slice_cutOf hparts, ← add_one_mul, mul_assoc] at hmem
    exact ⟨p, ⟨hp, (hmem p hp.1).mpr hxp⟩, fun q ⟨hq, hxq⟩ => hunique q ⟨hq, (hmem q hq.1).mp hxq⟩⟩

end Parts

/-- The slices of the parts partition every image, in grains, blocks and pixels. -/
theorem slices_partition_image {k : Kernel} {device : Device} {config : TilingConfig}
    {diag : Diagnostics} {r : Result} (hb : k.Built) (hr : analyze k device config diag = r)
    (hready : r.ready = true) (hgrains : GrainsFit r.kernel) {d : DataItem}
    (hd : d ∈ r.kernel.iterativeData) {dim : Nat} (hdim : dim < d.rank) {extents : DataId → Int}
    (hrun : ExtentWithin r.kernel d dim extents)
    (hfit : ∀ p, 0 ≤ p → p < partsOf r.kernel dim →
      (cutOf r.kernel d dim p (runExtent d dim extents)).SliceFits) (u : Measure) :
    ∃ position size : Int → Int,
      (∀ p, 0 ≤ p → p < partsOf r.kernel dim →
        coordinate d ⟨dim, .slicePosition, u⟩ p extents = some (position p) ∧
          coordinate d ⟨dim, .sliceSize, u⟩ p extents = some (size p)) ∧
      (∀ x, 0 ≤ x → x < ceilDiv (runExtent d dim extents) (unitOf r.kernel d dim u) →
        ∃! p, (0 ≤ p ∧ p < partsOf r.kernel dim) ∧ position p ≤ x ∧ x < position p + size p) ∧
      ∀ p, 0 ≤ p → p < partsOf r.kernel dim → 0 < size p →
        0 ≤ position p ∧
          position p + size p ≤ ceilDiv (runExtent d dim extents) (unitOf r.kernel d dim u) := by
  subst hr
  have hk := scheduled_of_ready hb hready hgrains
  obtain ⟨i, hget, hi⟩ := Kernel.mem_iterativeData_iff.mp hd
  refine ⟨_, _, fun p hp hlt => hk.coordinate_slice hget hi hdim hp hrun.nonneg (hfit p hp hlt) u,
    fun x h0 hx => existsUnique_part hk hget hi hdim hrun u h0 hx, fun p hp _ hne => ?_⟩
  rw [← total_cutOf]
  exact (hk.sliced hget hi hdim hp hrun.nonneg).slice_le_total u hne

/-- Halves an image and doubles it again; both ends are sized at run time. -/
def rescaling : Kernel :=
  .ofDeclarations "rescaling"
    [.control "n" .int, .input "a" .float [.dynamic 0 (some 21)], .data "b" .float [.fixed 11],
      .output "o" .float [.dynamic 0 (some 21)],
      .node {} { name := "half", output := 2, inStride := some ⟨[2]⟩,
                 inputs := [⟨1, ⟨[⟨-1, 2⟩]⟩, .undef⟩] },
      .node {} { name := "double", output := 3, outStride := some ⟨[2]⟩,
                 inputs := [⟨2, ⟨[⟨-1, 1⟩]⟩, .undef⟩] }]

def rescaled : Result := analyze rescaling { units := 4 } { mode := .workGroupSlicing } (.new 5 0)

theorem built_rescaling : rescaling.Built := Kernel.built_ofDeclarations _ _

theorem analyze_rescaling :
    analyze rescaling { units := 4 } { mode := .workGroupSlicing } (.new 5 0) = rescaled := rfl

/-- The result of the doubling, three blocks a part and the last one partial. -/
theorem slices_partition_rescaled :
    partsOf rescaled.kernel 0 = 4 ∧
      ∃ d ∈ rescaled.kernel.iterativeData, runExtent d 0 (fun _ => 19) = 19 ∧
        ∃ position size : Int → Int,
          (∀ p, 0 ≤ p → p < partsOf rescaled.kernel 0 →
            coordinate d ⟨0, .slicePosition, .block⟩ p (fun _ => 19) = some (position p) ∧
              coordinate d ⟨0, .sliceSize, .block⟩ p (fun _ => 19) = some (size p)) ∧
          (∀ x, 0 ≤ x → x < ceilDiv (runExtent d 0 fun _ => 19) (unitOf rescaled.kernel d 0 .block) →
            ∃! p, (0 ≤ p ∧ p < partsOf rescaled.kernel 0) ∧ position p ≤ x ∧ x < position p + size p) ∧
          ∀ p, 0 ≤ p → p < partsOf rescaled.kernel 0 → 0 < size p →
            0 ≤ position p ∧ position p + size p ≤
              ceilDiv (runExtent d 0 fun _ => 19) (unitOf rescaled.kernel d 0 .block) := by
  have hparts : partsOf rescaled.kernel 0 = 4 := by decide +kernel
  refine ⟨hparts, rescaled.kernel.data.get ⟨3, by decide +kernel⟩, by decide +kernel,
    by decide +kernel, slices_partition_image built_rescaling analyze_rescaling (by decide +kernel)
      (by decide +kernel) (by decide +kernel) (by decide +kernel)
      ⟨by decide +kernel, fun _ => by decide +kernel⟩ (fun p h0 hp => ?_) .block⟩
  rw [hparts] at hp
  interval_cases p <;> decide +kernel

/-! ### Full slices and their halo -/

/-- The coordinates of a part: none is negative, the full slice is the padded slice inside
of the image, the skips hold what was cut off, and the extents stand between slice and
full slice. -/
theorem coordinates_clip_padded_slice {k : Kernel} {device : Device} {config : TilingConfig}
    {diag : Diagnostics} {r : Result} (hb : k.Built) (hr : analyze k device config diag = r)
    (hready : r.ready = true) (hgrains : GrainsFit r.kernel) {d : DataItem}
    (hd : d ∈ r.kernel.iterativeData) {dim : Nat} (hdim : dim < d.rank) {extents : DataId → Int}
    (hextent : 0 ≤ runExtent d dim extents) {part : Int} (hpart : 0 ≤ part) {c : Cut}
    (hc : cutOf r.kernel d dim part (runExtent d dim extents) = c) (hfit : c.Fits) :
    ∃ value : Quantity → Measure → Int,
      (∀ q u, coordinate d ⟨dim, q, u⟩ part extents = some (value q u) ∧ 0 ≤ value q u) ∧
      (∀ x, value .fullSlicePosition .pixel ≤ x ∧
          x < value .fullSlicePosition .pixel + value .fullSliceSize .pixel ↔
        ((c.pos - c.lo) * c.grain ≤ x ∧ x < (c.pos + c.slice + c.hi) * c.grain) ∧
          0 ≤ x ∧ x < runExtent d dim extents) ∧
      (value .fullSlicePosition .pixel ≤ runExtent d dim extents →
        value .skipBegin .pixel + value .fullSliceSize .pixel + value .skipEnd .pixel =
          (c.lo + c.slice + c.hi) * c.grain) ∧
      (∀ u, value .fullSlicePosition u = value .slicePosition u - value .leftExtent u) ∧
      ∀ u u', 0 < value .sliceSize u' →
        value .fullSliceSize u = value .leftExtent u + value .sliceSize u + value .rightExtent u := by
  subst hr hc
  have hk := scheduled_of_ready hb hready hgrains
  obtain ⟨i, hget, hi⟩ := Kernel.mem_iterativeData_iff.mp hd
  have hproper := (hk.sliced hget hi hdim hpart hextent).proper hfit
  refine ⟨_, fun q u => ⟨hk.coordinate_eq hget hi hdim hpart hextent hfit q u,
    hproper.value_nonneg q u⟩, hproper.mem_fullSlice_iff, hproper.skips_add_fullSize,
    Cut.value_fullSlicePosition, fun u u' hne => ?_⟩
  exact hproper.value_fullSliceSize ((hproper.toSliced.sliceSize_pos_iff u').mp hne) u

/-- The last part of the halved image, whose slice and halo end with the image. -/
theorem coordinates_clip_rescaled :
    ∃ d ∈ rescaled.kernel.iterativeData, ∃ c, cutOf rescaled.kernel d 0 3 11 = c ∧ c.Fits ∧
      ∃ value : Quantity → Measure → Int,
        (∀ q u, coordinate d ⟨0, q, u⟩ 3 (fun _ => 19) = some (value q u) ∧ 0 ≤ value q u) ∧
        (∀ x, value .fullSlicePosition .pixel ≤ x ∧
            x < value .fullSlicePosition .pixel + value .fullSliceSize .pixel ↔
          ((c.pos - c.lo) * c.grain ≤ x ∧ x < (c.pos + c.slice + c.hi) * c.grain) ∧
            0 ≤ x ∧ x < runExtent d 0 fun _ => 19) ∧
        (value .fullSlicePosition .pixel ≤ (runExtent d 0 fun _ => 19) →
          value .skipBegin .pixel + value .fullSliceSize .pixel + value .skipEnd .pixel =
            (c.lo + c.slice + c.hi) * c.grain) ∧
        (∀ u, value .fullSlicePosition u = value .slicePosition u - value .leftExtent u) ∧
        ∀ u u', 0 < value .sliceSize u' → value .fullSliceSize u =
          value .leftExtent u + value .sliceSize u + value .rightExtent u :=
  ⟨rescaled.kernel.data.get ⟨2, by decide +kernel⟩, by decide +kernel, _, rfl, by decide +kernel,
    coordinates_clip_padded_slice built_rescaling analyze_rescaling (by decide +kernel)
      (by decide +kernel) (by decide +kernel) (by decide +kernel) (by decide +kernel)
      (by decide +kernel) (by decide +kernel) (by decide +kernel)⟩

/-- Copies an image of eight pixels. -/
def copying : Kernel :=
  .ofDeclarations "copying"
    [.input "a" .float [.fixed 8], .output "o" .float [.fixed 8],
      .node {} { name := "copy", output := 1, inputs := [⟨0, ⟨[⟨0, 0⟩]⟩, .undef⟩] }]

def copied : Result := analyze copying { units := 4 } { mode := .workGroupSlicing } (.new 5 0)

/-- Two grains a part: the start of a part far enough out leaves the word and comes back
as a negative number. -/
theorem slicePosition_wraps :
    copying.Built ∧ copied.ready = true ∧ GrainsFit copied.kernel ∧
      ∃ d ∈ copied.kernel.iterativeData, runExtent d 0 (fun _ => 0) = 8 ∧
        coordinate d ⟨0, .slicePosition, .grain⟩ maxWord (fun _ => 0) = some (-2) :=
  ⟨Kernel.built_ofDeclarations _ _, by decide +kernel, by decide +kernel, copied.kernel.data.get ⟨0, by decide +kernel⟩,
    by decide +kernel, by decide +kernel, by decide +kernel⟩

end StencilTiling.Analysis
