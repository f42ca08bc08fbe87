import StencilTiling.Proofs.Analysis.Grains
import StencilTiling.Proofs.Analysis.Run
import StencilTiling.Proofs.Geometry.Placement

/-! The parts of a data item, read off an analysed kernel: its tile and the schedule
give a cut for every part and every extent at run time, and the recorded coordinates
denote the coordinates of this cut as long as they stay in the word. -/

namespace StencilTiling

namespace Geometry.Table

/-- The keys of a table in order. -/
def keys (rank : Nat) : List Key :=
  (List.range rank).flatMap fun dim => Quantity.all.flatMap fun quantity =>
    Measure.all.map fun measure => ⟨dim, quantity, measure⟩

theorem mem_keys {rank : Nat} {key : Key} : key ∈ keys rank ↔ key.dim < rank := by
  obtain ⟨dim, quantity, measure⟩ := key
  simp only [keys, List.mem_flatMap, List.mem_range, List.mem_map, Key.mk.injEq]
  constructor
  · rintro ⟨dim, hdim, q, -, m, -, rfl, rfl, rfl⟩
    exact hdim
  · intro hdim
    exact ⟨dim, hdim, quantity, by cases quantity <;> decide, measure, by cases measure <;> decide,
      rfl, rfl, rfl⟩

theorem entries_ofFn (rank : Nat) (f : Key → Expr) :
    (ofFn rank f).entries = (keys rank).map fun key => (key, f key) := by
  simp [ofFn, keys, List.map_flatMap, Function.comp_def]

theorem get?_ofFn {rank : Nat} {f : Key → Expr} {key : Key} (h : key.dim < rank) :
    (ofFn rank f).get? key = some (f key) := by
  have hlookup : ∀ l : List Key, key ∈ l → (l.map fun key => (key, f key)).lookup key = some (f key) := by
    intro l hl
    induction l with
    | nil => cases hl
    | cons a rest ih =>
      rw [List.map_cons, List.lookup_cons]
      by_cases ha : key = a
      · simp [ha]
      · rw [beq_false_of_ne ha]
        exact ih (List.mem_of_ne_of_mem ha hl)
  rw [get?, entries_ofFn]
  exact hlookup _ (mem_keys.mpr h)

end Geometry.Table

namespace Analysis

open StencilTiling.Arith StencilTiling.Geometry

/-! ### Reading a kernel -/

/-- The parts a schedule cuts a dimension into. -/
def partsOf (k : Kernel) (dim : Nat) : Int :=
  ((k.schedule.bind fun s => s.partitions[dim]?).map Partition.parts).getD 1

/-- The grains of a slice of a schedule. -/
def sliceOf (k : Kernel) (dim : Nat) : Int :=
  ((k.schedule.bind fun s => s.partitions[dim]?).map Partition.sliceGrains).getD 1

def tileOf (d : DataItem) : Tile := d.note.tile.getD {}

/-- The extent of an item at run time: the declared size, or the one supplied. -/
def runExtent (d : DataItem) (dim : Nat) (extents : DataId → Int) : Int :=
  match d.shape[dim]? with
  | some (.fixed n) => n
  | _ => extents d.id

/-- The value of a recorded coordinate. -/
def coordinate (d : DataItem) (key : Key) (part : Int) (extents : DataId → Int) : Option Int :=
  (d.note.geometry.bind fun t => t.get? key).map fun e => e.eval part extents

/-- Pixels per block: the output stride of the producer, one for inputs. -/
def strideOf (k : Kernel) (d : DataItem) (dim : Nat) : Int :=
  ((k.producerOf d).map fun n => n.outStride.get dim).getD 1

/-- Pixels per unit of an item. -/
def unitOf (k : Kernel) (d : DataItem) (dim : Nat) : Measure → Int
  | .grain => (tileOf d).grain.get dim
  | .block => strideOf k d dim
  | .pixel => 1

/-- Units of an item per grain. -/
def perGrainOf (d : DataItem) (dim : Nat) : Measure → Int
  | .grain => 1
  | .block => (tileOf d).rate.get dim
  | .pixel => (tileOf d).grain.get dim

/-- A part of an item along a dimension, by its tile and the schedule. A dimension with
one part is one slice. -/
def cutOf (k : Kernel) (d : DataItem) (dim : Nat) (part extent : Int) : Cut where
  extent := extent
  grain := (tileOf d).grain.get dim
  rate := (tileOf d).rate.get dim
  stride := strideOf k d dim
  lo := (negWord ((tileOf d).halo.first dim)).tdiv ((tileOf d).grain.get dim)
  hi := ((tileOf d).halo.last dim).tdiv ((tileOf d).grain.get dim)
  pos := if partsOf k dim = 1 then 0 else part * sliceOf k dim
  slice := if partsOf k dim = 1 then ceilDiv extent ((tileOf d).grain.get dim) else sliceOf k dim

section Cuts

variable {k : Kernel} {d : DataItem} {dim : Nat} {part extent : Int}

theorem perGrain_cutOf (u : Measure) :
    (cutOf k d dim part extent).perGrain u = perGrainOf d dim u := by
  cases u <;> rfl

theorem total_cutOf (u : Measure) :
    (cutOf k d dim part extent).total u = ceilDiv extent (unitOf k d dim u) := by
  cases u <;> rfl

theorem pos_cutOf (h : partsOf k dim ≠ 1) :
    (cutOf k d dim part extent).pos = part * sliceOf k dim := if_neg h

theorem slice_cutOf (h : partsOf k dim ≠ 1) :
    (cutOf k d dim part extent).slice = sliceOf k dim := if_neg h

theorem pos_cutOf_one (h : partsOf k dim = 1) : (cutOf k d dim part extent).pos = 0 := if_pos h

theorem slice_cutOf_one (h : partsOf k dim = 1) :
    (cutOf k d dim part extent).slice = ceilDiv extent ((tileOf d).grain.get dim) := if_pos h

end Cuts

/-- A schedule has the parts and slices of the plan it records. -/
theorem parts_of_plan {k : Kernel} {plan : Plan} {s : Schedule} (hs : k.schedule = some s)
    (hps : s.partitions = plan.partitions) (dim : Nat) :
    plan.parts dim = partsOf k dim ∧ plan.sliceGrains dim = sliceOf k dim := by
  simp [partsOf, sliceOf, Plan.parts, Plan.sliceGrains, hs, hps]

/-- The extent of a table denotes the extent at run time. -/
theorem denotes_extentExpr {d : DataItem} {dim : Nat} {part : Int} {extents : DataId → Int}
    (h0 : 0 ≤ runExtent d dim extents) (hle : runExtent d dim extents ≤ maxWord) :
    Expr.Denotes part extents (extentExpr d dim) (runExtent d dim extents) := by
  have hword := wrap64_of_fits (fitsWord_of_nonneg h0 hle)
  rcases hx : d.shape[dim]? with _ | n | _
  all_goals simp only [extentExpr, runExtent, hx] at hword ⊢
  · exact .extent_leaf _
  · rw [hword]
    exact .const _
  · exact .extent_leaf _

/-! ### Cuts of an analysed kernel -/

/-- An analysed kernel whose grains are exact: its tiles, its coordinates and its schedule. -/
structure Scheduled (k : Kernel) : Prop where
  fit : GrainsFit k
  resolved : ∃ plan s, Resolved k plan ∧ k.schedule = some s ∧ s.partitions = plan.partitions

namespace Scheduled

variable {k : Kernel} (hk : Scheduled k) {i : DataId} {d : DataItem} (hd : k.data[i]? = some d)
  (hi : d.iterative = true) {dim : Nat} (hdim : dim < d.rank)

include hk

theorem tiled : Tiled k := by
  obtain ⟨plan, s, hr, -⟩ := hk.resolved
  exact hr.tiled

include hd

theorem strideOf_pos (dim : Nat) : 0 < strideOf k d dim := by
  rw [strideOf]
  cases hp : k.producerOf d with
  | none => exact Int.one_pos
  | some n =>
    exact hk.tiled.valid.outStride_pos (hk.tiled.wellFormed.output_of_producerOf hd hp).1 dim

include hi

theorem tileOf_eq : tileOf d = tileAt k i := by
  rw [tileOf, (hk.tiled.tileAt_eq hd hi).1, Option.getD_some]

include hdim

theorem dim_lt : dim < k.rank := hk.tiled.valid.rank_eq hd hi ▸ hdim

theorem grain_pos : 0 < (tileOf d).grain.get dim := by
  rw [hk.tileOf_eq hd hi]
  exact hk.tiled.grain_pos hk.fit (hk.dim_lt hd hi hdim) hd hi

/-- A plan that covers a dimension covers the bound of the item's extent. -/
theorem bound_le_slices {plan : Plan} (h : plan.Covers k dim) :
    ∃ bound, (d.shape[dim]?).bind Extent.bound = some bound ∧
      ceilDiv (wrap64 bound) ((tileOf d).grain.get dim) ≤ plan.parts dim * plan.sliceGrains dim := by
  obtain ⟨c, hc, hle⟩ := h.le_slices d (Kernel.mem_iterativeData_iff.mpr ⟨_, hd, hi⟩)
  obtain ⟨bound, hbound, hcount⟩ := itemGrains_eq_ok hc
  refine ⟨bound, hbound, ?_⟩
  have hg := hk.grain_pos hd hi hdim
  have hgrain : max ((grainOf d).get dim) 1 = (tileOf d).grain.get dim := by
    have htile : grainOf d = (tileOf d).grain := by
      rw [grainOf, tileOf, (hk.tiled.tileAt_eq hd hi).1]
      rfl
    rw [htile]
    omega
  rw [hcount, hgrain] at hle
  exact hle

/-- Where the schedule has several parts, their slices cover the bounded extent. -/
theorem covers (hparts : partsOf k dim ≠ 1) :
    1 ≤ partsOf k dim ∧ 1 ≤ sliceOf k dim ∧
      ∃ bound, (d.shape[dim]?).bind Extent.bound = some bound ∧
        ceilDiv (wrap64 bound) ((tileOf d).grain.get dim) ≤ partsOf k dim * sliceOf k dim := by
  obtain ⟨plan, s, hr, hs, hps⟩ := hk.resolved
  obtain ⟨hp, hsl⟩ := parts_of_plan hs hps dim
  rw [← hp] at hparts ⊢
  rw [← hsl]
  have hcovers := hr.covers hparts
  exact ⟨hcovers.parts_pos, hcovers.slice_pos, hk.bound_le_slices hd hi hdim hcovers⟩

/-- The halo is whole grains on both sides of the slice, unless its start is the one word whose
sign cannot be changed. -/
theorem halo_grains (hh : HalosFit k dim) {part extent : Int}
    (hlo : 0 ≤ (cutOf k d dim part extent).lo) :
    (tileOf d).halo.first dim = -((cutOf k d dim part extent).lo * (tileOf d).grain.get dim) ∧
      (tileOf d).halo.last dim = (cutOf k d dim part extent).hi * (tileOf d).grain.get dim := by
  have hg := hk.grain_pos hd hi hdim
  have hword := hk.tiled.fitsWord_haloAt hh hd hi
  have hgword := hk.tiled.fitsWord_grainAt hd hi dim
  obtain ⟨before, after, hb, -, hfirst, hlast⟩ :=
    hk.tiled.halo_eq hk.fit (hk.dim_lt hd hi hdim) hh hd hi
  simp only [haloAt, grainAt] at hfirst hlast hword hgword
  rw [← hk.tileOf_eq hd hi] at hfirst hlast hword hgword
  simp only [cutOf, Window.first, Window.last] at hlo ⊢
  set grain := (tileOf d).grain.get dim
  have hneg : FitsWord (-((tileOf d).halo.span dim).first) := by
    obtain ⟨⟨hmin, -⟩, -⟩ := hword
    rcases eq_or_lt_of_le hmin with heq | hlt
    · -- the quotient would be negative
      have hend : negWord minWord = minWord := by decide
      rw [← heq, hend, ← neg_neg minWord, Int.neg_tdiv] at hlo
      have hle : (1 : Int) ≤ (-minWord).tdiv grain := by
        rw [Int.tdiv_eq_ediv_of_nonneg (by decide)]
        exact (Int.le_ediv_iff_mul_le hg).mpr (by simp only [FitsWord, minWord, maxWord] at hgword ⊢; omega)
      omega
    · have := mul_nonneg hb hg.le
      simp only [FitsWord, minWord, maxWord] at hlt ⊢
      omega
  rw [negWord_of_fits hneg, hfirst, hlast, neg_neg, Int.mul_tdiv_cancel _ hg.ne',
    Int.mul_tdiv_cancel _ hg.ne']
  exact ⟨rfl, rfl⟩

/-- The slices of all parts have their signs. -/
theorem sliced {part extent : Int} (hpart : 0 ≤ part) (hextent : 0 ≤ extent) :
    (cutOf k d dim part extent).Sliced := by
  have hg := hk.grain_pos hd hi hdim
  have hstride := hk.strideOf_pos hd dim
  have hblocks := hk.tiled.rate_mul_stride hk.fit (hk.dim_lt hd hi hdim) hd hi
  rw [grainAt, ← hk.tileOf_eq hd hi] at hblocks
  have hslice : partsOf k dim ≠ 1 → 0 ≤ sliceOf k dim := fun hp => by
    have := (hk.covers hd hi hdim hp).2.1
    omega
  constructor
  case extent_nonneg => exact hextent
  case grain_pos => exact hg
  case rate_pos => exact (mul_pos_iff_of_pos_right hstride).mp (hblocks ▸ hg)
  case stride_pos => exact hstride
  case blocks => exact hblocks
  case pos_nonneg =>
    by_cases hp : partsOf k dim = 1
    · rw [pos_cutOf_one hp]
    · rw [pos_cutOf hp]
      exact mul_nonneg hpart (hslice hp)
  case slice_nonneg =>
    by_cases hp : partsOf k dim = 1
    · rw [slice_cutOf_one hp]
      exact ceilDiv_nonneg hg hextent
    · rw [slice_cutOf hp]
      exact hslice hp

/-- The recorded coordinates denote those of the cut. -/
theorem places {part : Int} {extents : DataId → Int} (hpart : 0 ≤ part)
    (hextent : 0 ≤ runExtent d dim extents)
    (hfit : (cutOf k d dim part (runExtent d dim extents)).SliceFits) :
    ∃ a : Axis, Places part extents a (cutOf k d dim part (runExtent d dim extents)) ∧
      ∀ q u, coordinate d ⟨dim, q, u⟩ part extents = some ((a.entry q u).eval part extents) := by
  obtain ⟨plan, s, hr, hs, hps⟩ := hk.resolved
  obtain ⟨hp, hsl⟩ := parts_of_plan hs hps dim
  have hsliced := hk.sliced hd hi hdim hpart hextent
  have hg := hk.grain_pos hd hi hdim
  have hmax : max ((tileOf d).grain.get dim) 1 = (tileOf d).grain.get dim := by omega
  have hN : Expr.Denotes part extents (extentExpr d dim) (runExtent d dim extents) :=
    denotes_extentExpr hextent hfit.extent_le
  refine ⟨axisOf d (tileAt k i) (k.producerOf d) plan dim, ?_, fun q u => ?_⟩
  · rw [← hk.tileOf_eq hd hi]
    constructor <;> simp only [axisOf, cutOf, hp, hsl, hmax, blockStride]
    case rate_eq =>
      have hrate := hsliced.rate_pos
      simp only [cutOf] at hrate
      omega
    case stride_eq =>
      have hstride := hk.strideOf_pos hd dim
      rw [strideOf] at hstride ⊢
      omega
    case extent => exact hN
    case lo => exact .const _
    case hi => exact .const _
    case pos =>
      split_ifs with hone
      · exact .const 0
      · have hpos := fitsWord_of_nonneg hsliced.pos_nonneg
          ((le_mul_of_one_le_right hsliced.pos_nonneg hsliced.grain_pos).trans hfit.pos_le)
        rw [pos_cutOf hone] at hpos
        exact Expr.Denotes.partIndex.scaled hpos
    case slice =>
      split_ifs with hone
      · exact hN.ceilBy hg hextent hfit.extent_le
      · exact .const _
  · rw [coordinate, hr.geometry hd hi, Option.bind_some, planTable, Table.get?_ofFn hdim]
    rfl

section Values

variable {part : Int} {extents : DataId → Int} (hpart : 0 ≤ part)
  (hextent : 0 ≤ runExtent d dim extents)

include hpart hextent

/-- The slice of a part is recorded as the cut has it. -/
theorem coordinate_slice (hfit : (cutOf k d dim part (runExtent d dim extents)).SliceFits)
    (u : Measure) :
    coordinate d ⟨dim, .slicePosition, u⟩ part extents =
        some ((cutOf k d dim part (runExtent d dim extents)).value .slicePosition u) ∧
      coordinate d ⟨dim, .sliceSize, u⟩ part extents =
        some ((cutOf k d dim part (runExtent d dim extents)).value .sliceSize u) := by
  obtain ⟨a, ha, hcoord⟩ := hk.places hd hi hdim hpart hextent hfit
  have hsliced := hk.sliced hd hi hdim hpart hextent
  rw [hcoord, hcoord, (ha.slicePosition hsliced hfit u).eval_eq, (ha.sliceSize hsliced hfit u).eval_eq]
  exact ⟨rfl, rfl⟩

/-- All coordinates of a part are recorded as the cut has them. -/
theorem coordinate_eq (hfit : (cutOf k d dim part (runExtent d dim extents)).Fits)
    (q : Quantity) (u : Measure) :
    coordinate d ⟨dim, q, u⟩ part extents =
      some ((cutOf k d dim part (runExtent d dim extents)).value q u) := by
  have hsliced := hk.sliced hd hi hdim hpart hextent
  obtain ⟨a, ha, hcoord⟩ := hk.places hd hi hdim hpart hextent (hfit.sliceFits hsliced)
  rw [hcoord, (ha.entry (hsliced.proper hfit) hfit q u).eval_eq]

end Values

end Scheduled

/-- A successful analysis whose grains are exact schedules its kernel. -/
theorem scheduled_of_ready {k : Kernel} {device : Device} {config : TilingConfig}
    {diag : Diagnostics} (hb : k.Built) (hready : (analyze k device config diag).ready = true)
    (hfit : GrainsFit (analyze k device config diag).kernel) :
    Scheduled (analyze k device config diag).kernel := by
  obtain ⟨plan, s, -, hr, hs, hps⟩ := analyze_ready hb.wellFormed hready
  exact ⟨hfit, plan, s, hr, hs, hps⟩

end Analysis

end StencilTiling
