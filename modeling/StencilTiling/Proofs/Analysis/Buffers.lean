import Mathlib.Algebra.Order.BigOperators.GroupWithZero.List
import StencilTiling.Proofs.Analysis.Feasibility
import StencilTiling.Proofs.Analysis.Parts
import StencilTiling.Proofs.Code.Body

/-! Local arrays of a tiled kernel. Every image has one, made of as many elements as its
slots take when each of them holds a line of the longest slice with its whole halo. A
part brings at most that, whatever its index and the extents at run time, since its full
slice is cut off at the image. Together the arrays fit the local memory of the device. -/

namespace StencilTiling.Analysis

open StencilTiling.Arith StencilTiling.Geometry

/-! ### Buffers of a completed analysis -/

/-- The buffers are read off tiles, access types and slots. -/
theorem buffersOf_of_keeps {k k' : Kernel} (hk : Keeps patternView k k') (plan : Plan)
    (scan : ScanOrder) : buffersOf k' plan scan = buffersOf k plan scan := by
  have hmap := congrArg
    (List.map fun d => (⟨d.id, d.name, bufferBytes d plan scan⟩ : BufferUsage)) hk.data
  rw [List.map_map, List.map_map] at hmap
  exact congrArg (List.filter (0 < ·.bytes)) hmap

section Completed

variable {k : Kernel} {device : Device} {config : TilingConfig} {r : Result}
  (c : Completed k device config r)

include c

theorem Completed.rank_eq : r.kernel.rank = c.annotated.rank :=
  c.keeps.of_patternView.of_tileView.sameGraph.rank_eq

theorem Completed.buffers_eq :
    (scheduleOf config c.pipeline c.plan c.check).buffers = buffersOf r.kernel c.plan config.scan := by
  obtain ⟨diag, diag', hcheck⟩ := c.checked
  rw [buffersOf_of_keeps c.keeps]
  exact (checkBudget_eq_ok hcheck).1

/-- In the tiled modes the buffers fit the local memory. -/
theorem Completed.totalBytes_le (hmode : config.mode.isTiled = true) {memory : Nat}
    (hm : device.localBudget = some memory) :
    totalBytes (buffersOf r.kernel c.plan config.scan) ≤ memory := by
  obtain ⟨diag, diag', hcheck⟩ := c.checked
  have hwhole : ¬ config.mode.isWholeImage = true := by simpa [Granularity.isTiled] using hmode
  have hnone := (checkBudget_eq_ok hcheck).2.2.mp c.feasible
  rw [buffersOf_of_keeps c.keeps]
  refine Analysis.totalBytes_le fun f hf => hnone f ?_
  rw [findings, if_neg hwhole, budgetOf, if_neg hwhole, hm]
  simp only [List.mem_append]
  exact .inl (.inr hf)

/-- Slots and access types are on record. -/
theorem Completed.pattern {d : DataItem} (hd : d ∈ r.kernel.data) :
    1 ≤ d.note.pattern.slots ∧
      d.note.pattern.access.isBuffered = (d.iterative && config.mode.isTiled) := by
  obtain ⟨i, hget⟩ := List.mem_iff_getElem?.mp hd
  obtain ⟨d₁, hd₁, hview⟩ := c.keeps.exists_item hget
  have hmem := List.mem_of_getElem? hd₁
  have hpattern : d.note.pattern = d₁.note.pattern := congrArg (·.note.pattern) hview
  have hiter : d.iterative = d₁.iterative := congrArg (·.iterative) hview
  rw [hpattern, hiter]
  exact ⟨(c.facts.slots d₁ hmem).2, c.facts.buffered d₁ hmem⟩

/-- In the tiled modes every dimension is covered. -/
theorem Completed.covers (hmode : config.mode.isTiled = true) {dim : Nat} (hdim : dim < r.kernel.rank) :
    c.plan.Covers r.kernel dim := by
  have hkeeps := c.keeps.of_patternView
  have hwhole : config.mode ≠ .wholeImage := fun hw => by simp [hw, Granularity.isTiled,
    Granularity.isWholeImage] at hmode
  exact (choosePlan_covers c.chosen hwhole
    (c.rank_eq ▸ hdim)).of_keeps hkeeps

end Completed

/-- The arrays of the schedule of a kernel are sized in words. -/
def ArraysFit (k : Kernel) : Prop :=
  ∀ s ∈ k.schedule, BuffersFit k ⟨k.rank, s.scanDim, s.partitions, s.workGroups, s.workItems⟩ s.scan

instance (k : Kernel) : Decidable (ArraysFit k) := inferInstanceAs (Decidable (∀ s ∈ _, _))

theorem Completed.buffersFit {k : Kernel} {device : Device} {config : TilingConfig} {r : Result}
    (c : Completed k device config r) (h : ArraysFit r.kernel) :
    BuffersFit r.kernel c.plan config.scan :=
  (h _ c.schedule).of_partitions rfl

/-! ### Lines and slots -/

/-- The dimensions of an item across the scan. -/
def crossDims (d : DataItem) (scanDim : Nat) : List Nat := (List.range d.rank).filter (· != scanDim)

theorem mem_crossDims {d : DataItem} {scanDim dim : Nat} :
    dim ∈ crossDims d scanDim ↔ dim < d.rank ∧ dim ≠ scanDim := by
  simp [crossDims]

theorem slotPixels_eq (d : DataItem) (plan : Plan) (scan : ScanOrder) :
    slotPixels d plan scan = ((crossDims d (scan.scanDim d.rank)).map fun dim =>
      lineExtent d dim (plan.sliceGrains dim)).prod :=
  List.prod_eq_foldr.symm

/-- A part of an item along one dimension: an index of the schedule, an extent at run time
within the declared bound, and coordinates that stay in the word. -/
structure PartWithin (k : Kernel) (d : DataItem) (dim : Nat) (part : Int) (extents : DataId → Int) :
    Prop where
  part_nonneg : 0 ≤ part
  part_lt : part < partsOf k dim
  extent_nonneg : 0 ≤ runExtent d dim extents
  extent_le : ∀ bound ∈ (d.shape[dim]?).bind Extent.bound,
    runExtent d dim extents ≤ bound ∧ (bound : Int) ≤ maxWord
  fits : (cutOf k d dim part (runExtent d dim extents)).Fits

/-- An array of `count` elements holds the full slice of every part in each slot. -/
def HoldsParts (k : Kernel) (scanDim : Nat) (d : DataItem) (count : Nat) : Prop :=
  ∀ (part : Nat → Int) (extents : Nat → DataId → Int),
    (∀ dim ∈ crossDims d scanDim, PartWithin k d dim (part dim) (extents dim)) →
      ∃ size : Nat → Int,
        (∀ dim ∈ crossDims d scanDim,
          coordinate d ⟨dim, .fullSliceSize, .pixel⟩ (part dim) (extents dim) = some (size dim)) ∧
        d.note.pattern.slots * ((crossDims d scanDim).map size).prod ≤ count

section Lines

variable {k : Kernel} (hk : Scheduled k) {i : DataId} {d : DataItem} (hd : k.data[i]? = some d)
  (hi : d.iterative = true) {dim : Nat} (hdim : dim < d.rank)

include hk hd hi hdim

/-- A line is a slice with its whole halo. -/
theorem lineExtent_eq (hh : HalosFit k dim) {part extent : Int}
    (hlo : 0 ≤ (cutOf k d dim part extent).lo) (slice : Int) :
    lineExtent d dim slice = ((cutOf k d dim part extent).lo + slice +
      (cutOf k d dim part extent).hi) * (tileOf d).grain.get dim := by
  obtain ⟨hfirst, hlast⟩ := hk.halo_grains hd hi hdim hh hlo
  rw [lineExtent, (hk.tiled.tileAt_eq hd hi).1]
  dsimp only
  rw [← hk.tileOf_eq hd hi, hfirst, hlast]
  ring

theorem lineExtent_pos (hh : HalosFit k dim) {slice : Int} (hs : 1 ≤ slice) :
    1 ≤ lineExtent d dim slice := by
  have hhalo := hk.tiled.halo_around_zero hh hd hi
  have hg := hk.grain_pos hd hi hdim
  have hmul := mul_pos (show 0 < slice by omega) hg
  rw [haloAt] at hhalo
  rw [lineExtent, (hk.tiled.tileAt_eq hd hi).1]
  rw [hk.tileOf_eq hd hi] at hmul
  simp only [Window.first, Window.last] at hhalo ⊢
  omega

/-- The slices of a plan are at least as long as those of the parts. -/
theorem slice_le_sliceGrains {plan : Plan} {s : Schedule} (hs : k.schedule = some s)
    (hps : s.partitions = plan.partitions) (hcovers : plan.Covers k dim) {part : Int}
    {extents : DataId → Int} (hw : PartWithin k d dim part extents) :
    (cutOf k d dim part (runExtent d dim extents)).slice ≤ plan.sliceGrains dim := by
  obtain ⟨hp, hsl⟩ := parts_of_plan hs hps dim
  by_cases hone : partsOf k dim = 1
  · obtain ⟨bound, hbound, hle⟩ := hk.bound_le_slices hd hi hdim hcovers
    obtain ⟨hextent, hword⟩ := hw.extent_le bound hbound
    rw [wrap64_of_fits (fitsWord_of_nonneg (Int.natCast_nonneg bound) hword), hp, hone, one_mul] at hle
    rw [slice_cutOf_one hone]
    exact (ceilDiv_mono (hk.grain_pos hd hi hdim) hextent).trans hle
  · rw [slice_cutOf hone, hsl]

/-- The full slice of a part fits into a line. -/
theorem fullSlice_le_lineExtent (hh : HalosFit k dim) {plan : Plan} {s : Schedule} (hs : k.schedule = some s)
    (hps : s.partitions = plan.partitions) (hcovers : plan.Covers k dim) {part : Int}
    {extents : DataId → Int} (hw : PartWithin k d dim part extents) :
    ∃ size, coordinate d ⟨dim, .fullSliceSize, .pixel⟩ part extents = some size ∧ 0 ≤ size ∧
      size ≤ lineExtent d dim (plan.sliceGrains dim) := by
  have hproper := (hk.sliced hd hi hdim hw.part_nonneg hw.extent_nonneg).proper hw.fits
  refine ⟨_, hk.coordinate_eq hd hi hdim hw.part_nonneg hw.extent_nonneg hw.fits _ _,
    hproper.value_nonneg _ _, ?_⟩
  rw [lineExtent_eq hk hd hi hdim hh hw.fits.lo_nonneg]
  exact hproper.fullSizePx_le (slice_le_sliceGrains hk hd hi hdim hs hps hcovers hw)

end Lines

/-! ### Arrays -/

section Arrays

variable {k : Kernel} {device : Device} {config : TilingConfig} {r : Result}
  (c : Completed k device config r) (hmode : config.mode.isTiled = true) (hk : Scheduled r.kernel)
  (hh : ∀ dim < r.kernel.rank, HalosFit r.kernel dim) {i : DataId} {d : DataItem}
  (hd : r.kernel.data[i]? = some d)

include c hmode hk hh hd

/-- An image takes some pixels per slot. -/
theorem slotPixels_pos (hi : d.iterative = true) : 0 < slotPixels d c.plan config.scan := by
  rw [slotPixels_eq]
  refine List.prod_pos fun x hx => ?_
  obtain ⟨dim, hdim, rfl⟩ := List.mem_map.mp hx
  have hlt := (mem_crossDims.mp hdim).1
  have hrank := hk.dim_lt hd hi hlt
  have := lineExtent_pos hk hd hi hlt (hh dim hrank) (c.covers hmode hrank).slice_pos
  omega

/-- An image takes whole elements, and at least one. -/
theorem bufferBytes_eq (hf : BuffersFit r.kernel c.plan config.scan) (hi : d.iterative = true) :
    bufferBytes d c.plan config.scan =
      (slotPixels d c.plan config.scan).toNat * d.note.pattern.slots * d.elemBytes ∧
      0 < bufferBytes d c.plan config.scan := by
  obtain ⟨hslots, hbuffered⟩ := c.pattern (List.mem_of_getElem? hd)
  have hpixels := slotPixels_pos c hmode hk hh hd hi
  have heq : bufferBytes d c.plan config.scan =
      (slotPixels d c.plan config.scan).toNat * d.note.pattern.slots * d.elemBytes := by
    rw [bufferBytes_eq_needed hf (List.mem_of_getElem? hd), neededBytes,
      if_neg (by simp [DataItem.isControl, hbuffered, hi, hmode]), mul_assoc, mul_comm]
  refine ⟨heq, ?_⟩
  rw [heq]
  exact Nat.mul_pos (Nat.mul_pos (by omega) hslots) (one_le_elemBytes d)

/-- Every image has a buffer. -/
theorem exists_usage (hf : BuffersFit r.kernel c.plan config.scan) (hi : d.iterative = true) :
    ∃ usage ∈ buffersOf r.kernel c.plan config.scan, usage.data = i := by
  obtain ⟨-, hpos⟩ := bufferBytes_eq c hmode hk hh hd hf hi
  refine ⟨⟨d.id, d.name, bufferBytes d c.plan config.scan⟩, ?_, hk.tiled.wellFormed.data_id hd⟩
  exact List.mem_filter.mpr ⟨List.mem_map.mpr ⟨d, List.mem_of_getElem? hd, rfl⟩, decide_eq_true hpos⟩

/-- An array of that many elements holds a line of every part in each slot. -/
theorem holdsParts_slotPixels (hi : d.iterative = true) :
    HoldsParts r.kernel (config.scan.scanDim d.rank) d
      ((slotPixels d c.plan config.scan).toNat * d.note.pattern.slots) := by
  intro part extents hw
  have hline : ∀ dim ∈ crossDims d (config.scan.scanDim d.rank), ∃ size,
      coordinate d ⟨dim, .fullSliceSize, .pixel⟩ (part dim) (extents dim) = some size ∧ 0 ≤ size ∧
        size ≤ lineExtent d dim (c.plan.sliceGrains dim) := fun dim hdim => by
    have hlt := (mem_crossDims.mp hdim).1
    have hrank := hk.dim_lt hd hi hlt
    exact fullSlice_le_lineExtent hk hd hi hlt (hh dim hrank) c.schedule rfl
      (c.covers hmode hrank) (hw dim hdim)
  choose! size hsize using hline
  refine ⟨size, fun dim hdim => (hsize dim hdim).1, ?_⟩
  have hprod : ((crossDims d (config.scan.scanDim d.rank)).map size).prod ≤
      slotPixels d c.plan config.scan := by
    rw [slotPixels_eq]
    exact List.prod_map_le_prod_map₀ _ _ (fun dim hdim => (hsize dim hdim).2.1)
      fun dim hdim => (hsize dim hdim).2.2
  have hpixels := slotPixels_pos c hmode hk hh hd hi
  rw [Nat.cast_mul, Int.toNat_of_nonneg hpixels.le, mul_comm]
  exact mul_le_mul_of_nonneg_right hprod (Int.natCast_nonneg _)

end Arrays

/-- The array declared for a buffer: whole elements of an image, with room for its parts. -/
theorem bufferStmt_eq_ok {k : Kernel} {device : Device} {config : TilingConfig} {r : Result}
    (c : Completed k device config r) (hmode : config.mode.isTiled = true) (hk : Scheduled r.kernel)
    (hh : ∀ dim < r.kernel.rank, HalosFit r.kernel dim)
    (hf : BuffersFit r.kernel c.plan config.scan) {usage : BufferUsage} (hu : usage ∈ buffersOf r.kernel c.plan config.scan) :
    ∃ d count, r.kernel.data[usage.data]? = some d ∧ d.iterative = true ∧
      Code.bufferStmt r.kernel usage = .ok (.buffer d.elem d.name count) ∧
      count * d.elemBytes = usage.bytes ∧ HoldsParts r.kernel (config.scan.scanDim r.kernel.rank) d count := by
  obtain ⟨hmem, hpos⟩ := List.mem_filter.mp hu
  obtain ⟨d, hd, rfl⟩ := List.mem_map.mp hmem
  have hget := hk.tiled.wellFormed.getElem?_id hd
  have hi : d.iterative = true := by
    by_contra hi
    have hcontrol : d.isControl = true := by simpa [DataItem.isControl] using hi
    simp [bufferBytes, hcontrol] at hpos
  have hbytes := (bufferBytes_eq c hmode hk hh hget hf hi).1
  have hone := one_le_elemBytes d
  refine ⟨d, _, hget, hi, ?_, hbytes.symm, ?_⟩
  · rw [Code.bufferStmt, Kernel.item_eq_ok.mpr hget]
    show Except.ok (Code.Stmt.buffer _ _ (bufferBytes d c.plan config.scan / max d.elemBytes 1)) = _
    rw [hbytes, max_eq_left hone, Nat.mul_div_cancel _ hone]
  · rw [← hk.tiled.valid.rank_eq hget hi]
    exact holdsParts_slotPixels c hmode hk hh hget hi

/-- Arrays of whole elements take the bytes of the buffers. -/
theorem sum_localBytes {k : Kernel} {buffers : List BufferUsage} {declared : List Code.Stmt}
    (h : buffers.mapM (Code.bufferStmt k) = .ok declared)
    (hexact : ∀ usage ∈ buffers, ∀ stmt, Code.bufferStmt k usage = .ok stmt →
      stmt.localBytes = usage.bytes) :
    (declared.map Code.Stmt.localBytes).sum = (buffers.map BufferUsage.bytes).sum := by
  obtain ⟨hlen, hall⟩ := List.forall₂_iff_get.mp (mapM_eq_ok.mp h)
  congr 1
  refine List.ext_getElem (by simp [hlen]) fun n hn _ => ?_
  rw [List.length_map] at hn
  rw [List.getElem_map, List.getElem_map]
  exact hexact _ (List.getElem_mem _) _ (hall n (by omega) hn)

/-- In the tiled modes every image has a local array with room for all its slots, whatever
part is in them and whatever the extents are at run time, and the arrays of a program
together fit the local memory of the device. -/
theorem local_arrays_hold_parts {k : Kernel} {device : Device} {config : TilingConfig}
    {diag : Diagnostics} {r : Result} (hb : k.Built) (hr : analyze k device config diag = r)
    (hready : r.ready = true) (hmode : config.mode.isTiled = true) (htiles : TilesFit r.kernel)
    (harrays : ArraysFit r.kernel) :
    ∃ s declared, r.kernel.schedule = some s ∧
      s.buffers.mapM (Code.bufferStmt r.kernel) = .ok declared ∧
      (∀ p, Code.emit r.kernel = .ok p → p.body.filter Code.Stmt.isBuffer = declared) ∧
      (∀ usage ∈ s.buffers, ∃ d count, r.kernel.data[usage.data]? = some d ∧ d.iterative = true ∧
        Code.bufferStmt r.kernel usage = .ok (.buffer d.elem d.name count) ∧
        count * d.elemBytes = usage.bytes ∧ HoldsParts r.kernel s.scanDim d count) ∧
      (∀ d ∈ r.kernel.iterativeData, ∃ usage ∈ s.buffers, usage.data = d.id) ∧
      ∀ memory, device.localBudget = some memory →
        (declared.map Code.Stmt.localBytes).sum ≤ memory := by
  subst hr
  have hk := scheduled_of_ready hb hready htiles.grains
  obtain ⟨c⟩ := analyze_completed hb.wellFormed hready
  have hf := c.buffersFit harrays
  have harray := fun usage (hu : usage ∈ buffersOf _ c.plan config.scan) =>
    bufferStmt_eq_ok c hmode hk htiles.halos hf hu
  have hscan : c.plan.scanDim = config.scan.scanDim (analyze k device config diag).kernel.rank := by
    rw [c.rank_eq]
    exact scanDim_of_choosePlan c.chosen
  rw [← c.buffers_eq] at harray
  obtain ⟨declared, hdeclared⟩ := exists_mapM fun usage hu => by
    obtain ⟨d, count, -, -, hstmt, -⟩ := harray usage hu
    exact ⟨_, hstmt⟩
  refine ⟨_, declared, c.schedule, hdeclared, fun p hp => ?_, fun usage hu => ?_, fun d hd => ?_,
    fun memory hm => ?_⟩
  · obtain ⟨s, hs, hbody⟩ := Code.emit_eq_ok hp
    obtain rfl := Option.some.inj (c.schedule.symm.trans hs)
    exact Code.filter_isBuffer_bodyOf hbody hdeclared
  · obtain ⟨d, count, hd, hi, hstmt, hbytes, hholds⟩ := harray usage hu
    rw [← hscan] at hholds
    exact ⟨d, count, hd, hi, hstmt, hbytes, hholds⟩
  · obtain ⟨hmem, hi⟩ := List.mem_filter.mp hd
    rw [c.buffers_eq]
    exact exists_usage c hmode hk htiles.halos (hk.tiled.wellFormed.getElem?_id hmem) hf hi
  · rw [sum_localBytes hdeclared fun usage hu stmt hstmt => ?_, c.buffers_eq]
    · rw [sum_buffersOf hf, ← totalBytes_buffersOf hf]
      exact c.totalBytes_le hmode hm
    · obtain ⟨d, count, -, -, hstmt', hbytes, -⟩ := harray usage hu
      obtain rfl := Except.ok.inj (hstmt.symm.trans hstmt')
      rw [← hbytes, mul_comm]
      rfl

/-- Blurs an image whose width is given at run time and finds its edges. -/
def etching : Kernel :=
  .ofDeclarations "etching"
    [.control "n" .int, .input "a" .float [.dynamic 0 (some 40), .fixed 24],
      .data "b" .float [.dynamic 0 (some 40), .fixed 24],
      .output "o" .uchar [.dynamic 0 (some 40), .fixed 24],
      .node {} { name := "blur", output := 2, inputs := [⟨1, ⟨[⟨-1, 1⟩, ⟨-1, 1⟩]⟩, .undef⟩] },
      .node {} { name := "edge", output := 3, inputs := [⟨2, ⟨[⟨-2, 2⟩, ⟨0, 1⟩]⟩, .undef⟩] }]

def etched : Result :=
  analyze etching { unit := { memory := some 700 } } { mode := .externalTiling } (.new 5 0)

/-- The second of three tiles of the image, cut off at its end: four slots of 22 pixels in
an array of 96. -/
theorem local_arrays_hold_etched :
    partsOf etched.kernel 0 = 3 ∧ ∃ s declared, etched.kernel.schedule = some s ∧
      s.buffers.mapM (Code.bufferStmt etched.kernel) = .ok declared ∧
      (declared.map Code.Stmt.localBytes).sum ≤ 700 ∧
      ∃ usage ∈ s.buffers, usage.data = 1 ∧ ∃ d count, etched.kernel.data[1]? = some d ∧
        Code.bufferStmt etched.kernel usage = .ok (.buffer d.elem d.name count) ∧
        coordinate d ⟨0, .fullSliceSize, .pixel⟩ 1 (fun _ => 37) = some 22 ∧
        d.note.pattern.slots = 4 ∧ 4 * 22 ≤ count := by
  obtain ⟨s, declared, hs, hdeclared, -, harrays, hlisted, hfit⟩ :=
    local_arrays_hold_parts (r := etched) (Kernel.built_ofDeclarations _ _) rfl (by decide +kernel)
      rfl (by decide +kernel) (by decide +kernel)
  have hscan : s.scanDim = 1 := by
    have : etched.kernel.schedule.map Schedule.scanDim = some 1 := by decide +kernel
    rw [hs] at this
    exact Option.some.inj this
  have hparts : partsOf etched.kernel 0 = 3 := by decide +kernel
  have hfacts : ∃ d ∈ etched.kernel.data[1]?, d ∈ etched.kernel.iterativeData ∧ d.id = 1 ∧ d.rank = 2 ∧
      0 ≤ runExtent d 0 (fun _ => 37) ∧
      (∀ bound ∈ (d.shape[0]?).bind Extent.bound,
        runExtent d 0 (fun _ => 37) ≤ bound ∧ (bound : Int) ≤ maxWord) ∧
      (cutOf etched.kernel d 0 1 (runExtent d 0 fun _ => 37)).Fits ∧
      coordinate d ⟨0, .fullSliceSize, .pixel⟩ 1 (fun _ => 37) = some 22 ∧
      d.note.pattern.slots = 4 := by decide +kernel
  obtain ⟨d, hget, hd, hid, hrank, hnonneg, hbound, hcut, hsize, hslots⟩ := hfacts
  have hdims : crossDims d s.scanDim = [0] := by
    rw [crossDims, hrank, hscan]
    decide
  obtain ⟨usage, hu, hdata⟩ := hlisted d hd
  rw [hid] at hdata
  obtain ⟨d', count, hget', -, hstmt, -, hholds⟩ := harrays usage hu
  rw [hdata] at hget'
  obtain rfl : d = d' := Option.some.inj (hget.symm.trans hget')
  obtain ⟨size, hsizes, hroom⟩ := hholds (fun _ => 1) (fun _ _ => 37) (by
    rw [hdims]
    rintro dim (_ | ⟨_, ⟨⟩⟩)
    exact ⟨by decide, by rw [hparts]; decide, hnonneg, hbound, hcut⟩)
  rw [hdims] at hsizes hroom
  have hsize0 : size 0 = 22 :=
    Option.some.inj ((hsizes 0 (List.mem_singleton.mpr rfl)).symm.trans hsize)
  rw [List.map_singleton, List.prod_singleton, hsize0, hslots] at hroom
  exact ⟨hparts, s, declared, hs, hdeclared, hfit 700 rfl, usage, hu, hdata, d, count, hget', hstmt,
    hsize, hslots, by exact_mod_cast hroom⟩

end StencilTiling.Analysis
