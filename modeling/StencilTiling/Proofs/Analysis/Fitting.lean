import Mathlib.Algebra.BigOperators.Ring.Finset
import StencilTiling.Proofs.Analysis.Feasibility
import StencilTiling.Proofs.Analysis.Halos
import StencilTiling.Proofs.Analysis.Run

/-! Tiles fitted to a memory. The buffers of a plane take bytes for the halos and as many
again for every grain of the slice across the scan, so the longest slice that fits is a
quotient. The bytes that planning divides by and those that the check adds up are the same. -/

namespace StencilTiling

/-- The dimension of a plane across the scan. -/
def ScanOrder.crossDim : ScanOrder → Nat
  | rows => 0
  | columns => 1

theorem ScanOrder.crossDim_lt (scan : ScanOrder) : scan.crossDim < 2 := by
  cases scan <;> decide

theorem ScanOrder.crossDim_ne (scan : ScanOrder) : scan.crossDim ≠ scan.scanDim 2 := by
  cases scan <;> decide

theorem ScanOrder.eq_crossDim {scan : ScanOrder} {dim : Nat} (hdim : dim < 2)
    (hne : dim ≠ scan.scanDim 2) : dim = scan.crossDim := by
  cases scan <;> simp [scanDim, crossDim] at hne ⊢ <;> omega

namespace Analysis

open StencilTiling.Arith

/-! ### Bytes of a plane -/

/-- The bytes of all buffers with slices of that many grains across the scan. -/
def planeBytes (k : Kernel) (dim : Nat) (slice : Int) : Int :=
  haloBytes k dim + slice * grainBytes k dim

/-- What the buffers of a plane are measured by: every image has two dimensions, a buffer with
slots, and along `dim` a positive grain and a halo. -/
structure Measured (k : Kernel) (dim : Nat) : Prop where
  nonempty : k.iterativeData ≠ []
  rank_eq : ∀ d ∈ k.iterativeData, d.rank = 2
  buffered : ∀ d ∈ k.iterativeData, d.note.pattern.access.isBuffered = true
  slots_pos : ∀ d ∈ k.iterativeData, 1 ≤ d.note.pattern.slots
  tile : ∀ d ∈ k.iterativeData, ∃ t, d.note.tile = some t ∧ 0 < t.grain.get dim ∧
    t.halo.first dim ≤ t.halo.last dim

/-- Grains are positive and halos go around zero if they are exact, here or after passes that
keep them. -/
theorem tileAt_bounds_of_keeps {k k' : Kernel} (ht : Tiled k) (hk : Keeps tileView k k')
    (hfit : TilesFit k') {dim : Nat} (hdim : dim < k.rank) {d : DataItem} (hd : d ∈ k.iterativeData) :
    0 < grainAt k dim d.id ∧ (haloAt k dim d.id).first ≤ 0 ∧ 0 ≤ (haloAt k dim d.id).last := by
  obtain ⟨hmem, hi⟩ := List.mem_filter.mp hd
  obtain ⟨d', hd', hview⟩ := hk.symm.exists_item (ht.wellFormed.getElem?_id hmem)
  have hi' := (congrArg (·.iterative) hview).symm.trans hi
  have hdim' : dim < k'.rank := hk.of_tileView.sameGraph.rank_eq ▸ hdim
  rw [← grainAt_of_keeps hk, haloAt, ← tileAt_of_keeps hk]
  exact ⟨(ht.of_keeps hk).grain_pos hfit.grains hdim' hd' hi',
    (ht.of_keeps hk).halo_around_zero (hfit.halos dim hdim') hd' hi'⟩

/-- An annotated kernel of planes in a tiled mode is measured where its grains are positive and
its halos go around zero. -/
theorem Annotated.measured {config : TilingConfig} {k : Kernel} (ha : Annotated config k)
    (hmode : config.mode.isTiled = true) (hrank : k.rank = 2) {dim : Nat}
    (hbounds : ∀ d ∈ k.iterativeData, 0 < grainAt k dim d.id ∧
      (haloAt k dim d.id).first ≤ 0 ∧ 0 ≤ (haloAt k dim d.id).last) : Measured k dim := by
  have hitem {d : DataItem} (hd : d ∈ k.iterativeData) :
      k.data[d.id]? = some d ∧ d.iterative = true :=
    ⟨ha.tiled.wellFormed.getElem?_id (List.mem_filter.mp hd).1, (List.mem_filter.mp hd).2⟩
  constructor
  case nonempty =>
    intro hnil
    simp [Kernel.rank, hnil] at hrank
  case rank_eq =>
    intro d hd
    obtain ⟨hget, hi⟩ := hitem hd
    exact (ha.tiled.valid.rank_eq hget hi).trans hrank
  case buffered =>
    intro d hd
    obtain ⟨hmem, hi⟩ := List.mem_filter.mp hd
    rw [ha.buffered d hmem, hi, hmode, Bool.and_self]
  case slots_pos => exact fun d hd => (ha.slots d (List.mem_filter.mp hd).1).2
  case tile =>
    intro d hd
    obtain ⟨hget, hi⟩ := hitem hd
    obtain ⟨hpos, hfirst, hlast⟩ := hbounds d hd
    exact ⟨tileAt k d.id, (ha.tiled.tileAt_eq hget hi).1, hpos, hfirst.trans hlast⟩

namespace Measured

variable {k : Kernel} {scan : ScanOrder} (hk : Measured k scan.crossDim)

include hk

/-- A slot holds a line across the scan, and no fewer pixels than none. -/
theorem slotPixels_eq {d : DataItem} (hd : d ∈ k.iterativeData) {plan : Plan}
    (hslice : 0 ≤ plan.sliceGrains scan.crossDim) :
    slotPixels d plan scan = plan.sliceGrains scan.crossDim * (grainOf d).get scan.crossDim +
        ((haloOf d scan.crossDim).last - (haloOf d scan.crossDim).first) ∧
      0 ≤ slotPixels d plan scan := by
  obtain ⟨t, ht, hgrain, hhalo⟩ := hk.tile d hd
  have hpixels : slotPixels d plan scan =
      lineExtent d scan.crossDim (plan.sliceGrains scan.crossDim) := by
    rw [slotPixels, hk.rank_eq d hd]
    cases scan <;> exact mul_one _
  have hnonneg := mul_nonneg hslice hgrain.le
  rw [hpixels, lineExtent, haloOf, grainOf, ht]
  exact ⟨rfl, add_nonneg hnonneg (sub_nonneg.mpr hhalo)⟩

/-- A buffer holds a line across the scan in each slot. -/
theorem neededBytes_eq {d : DataItem} (hd : d ∈ k.iterativeData) {plan : Plan}
    (hslice : 0 ≤ plan.sliceGrains scan.crossDim) :
    (neededBytes d plan scan : Int) =
      lineBytes d * ((haloOf d scan.crossDim).last - (haloOf d scan.crossDim).first) +
        plan.sliceGrains scan.crossDim * (lineBytes d * (grainOf d).get scan.crossDim) := by
  obtain ⟨hpixels, hnonneg⟩ := hk.slotPixels_eq hd hslice
  have hi : d.isControl = false := by simp [DataItem.isControl, (List.mem_filter.mp hd).2]
  rw [neededBytes, if_neg (by simp [hi, hk.buffered d hd])]
  push_cast
  rw [Int.toNat_of_nonneg hnonneg, hpixels, lineBytes]
  ring

/-- The check adds up what planning divides. -/
theorem neededLocalBytes_eq {plan : Plan} (hslice : 0 ≤ plan.sliceGrains scan.crossDim) :
    (neededLocalBytes k plan scan : Int) =
      planeBytes k scan.crossDim (plan.sliceGrains scan.crossDim) := by
  have himages : neededLocalBytes k plan scan =
      (k.iterativeData.map (neededBytes · plan scan)).sum := by
    unfold neededLocalBytes
    unfold Kernel.iterativeData
    induction k.data with
    | nil => rfl
    | cons d rest ih =>
      rw [List.map_cons, List.sum_cons, ih, List.filter_cons]
      split_ifs with hi
      · rw [List.map_cons, List.sum_cons]
      · have hcontrol : d.isControl = true := by simpa [DataItem.isControl] using hi
        rw [neededBytes, if_pos (.inl hcontrol), zero_add]
  have hterms := List.map_congr_left fun d (hd : d ∈ k.iterativeData) => hk.neededBytes_eq hd hslice
  rw [himages, Nat.cast_list_sum, List.map_map]
  refine (congrArg List.sum hterms).trans ?_
  rw [List.sum_map_add, List.sum_map_mul_left, planeBytes, haloBytes, grainBytes, ← List.sum_eq_foldr,
    ← List.sum_eq_foldr]

theorem grainBytes_pos : 0 < grainBytes k scan.crossDim := by
  rw [grainBytes, ← List.sum_eq_foldr]
  refine List.sum_pos _ (fun x hx => ?_) (by simpa using hk.nonempty)
  obtain ⟨d, hd, rfl⟩ := List.mem_map.mp hx
  obtain ⟨t, ht, hgrain, -⟩ := hk.tile d hd
  have hline : 0 < lineBytes d := mul_pos (mod_cast one_le_elemBytes d) (mod_cast hk.slots_pos d hd)
  rw [grainOf, ht]
  exact mul_pos hline hgrain

/-- The fitted slice is the longest whose buffers fit. -/
theorem le_fittedSlice {memory : Nat} (hword : memory < 2 ^ 63) {slice : Int} (grains : Int) :
    slice ≤ fittedSlice k memory scan.crossDim grains ↔ planeBytes k scan.crossDim slice ≤ memory := by
  have hpos := hk.grainBytes_pos
  have hfits : FitsWord (memory : Int) :=
    fitsWord_of_nonneg (Int.natCast_nonneg _) (by simp only [maxWord]; omega)
  rw [fittedSlice, if_neg hpos.ne', wrap64_of_fits hfits, floorDiv, Int.le_ediv_iff_mul_le hpos,
    planeBytes]
  omega

/-- The buffers of a plan fit exactly if its slice is no longer than the fitted one. -/
theorem needed_le_iff {memory : Nat} (hword : memory < 2 ^ 63) {plan : Plan}
    (hslice : 0 ≤ plan.sliceGrains scan.crossDim) (grains : Int) :
    neededLocalBytes k plan scan ≤ memory ↔
      plan.sliceGrains scan.crossDim ≤ fittedSlice k memory scan.crossDim grains := by
  rw [hk.le_fittedSlice hword grains, ← hk.neededLocalBytes_eq hslice, Nat.cast_le]

/-- Buffers that fit a memory are sized in words. -/
theorem buffersFit {memory : Nat} (hword : memory < 2 ^ 63) {plan : Plan}
    (hslice : 0 ≤ plan.sliceGrains scan.crossDim) (h : neededLocalBytes k plan scan ≤ memory) :
    BuffersFit k plan scan := by
  refine ⟨fun d hd => ?_, by omega⟩
  obtain ⟨hmem, hi⟩ := List.mem_filter.mp hd
  obtain ⟨-, hnonneg⟩ := hk.slotPixels_eq hd hslice
  have hbytes : neededBytes d plan scan ≤ memory := (neededBytes_le hmem).trans h
  rw [neededBytes, if_neg (by simp [DataItem.isControl, hi, hk.buffered d hd])] at hbytes
  have hle : (slotPixels d plan scan).toNat ≤
      d.elemBytes * (slotPixels d plan scan).toNat * d.note.pattern.slots :=
    (Nat.le_mul_of_pos_left _ (one_le_elemBytes d)).trans
      (Nat.le_mul_of_pos_right _ (hk.slots_pos d hd))
  exact fitsWord_of_nonneg hnonneg (by simp only [maxWord]; omega)

end Measured

/-! ### Refusals on record -/

/-- Texts that start differently are different. -/
theorem append_ne_append {a b : List Char} (n : Nat) (ha : n ≤ a.length) (hb : n ≤ b.length)
    (h : a.take n ≠ b.take n) (x y : List Char) : a ++ x ≠ b ++ y := by
  intro heq
  have htake := congrArg (List.take n) heq
  rw [List.take_append_of_le_length ha, List.take_append_of_le_length hb] at htake
  exact h htake

/-- That not even one grain fits is reported in words of its own. -/
theorem tooSmall_of_message {kernel : String} {r : Refusal} {dim : Nat}
    (h : r.message kernel = (Refusal.tooSmall dim).message kernel) : ∃ dim', r = .tooSmall dim' := by
  unfold Refusal.message at h
  cases r with
  | tooSmall dim' => exact ⟨dim', rfl⟩
  | unbounded data dim' =>
    have htext := congrArg String.toList h
    simp only [String.toList_append, List.append_assoc, List.append_cancel_left_eq] at htext
    exact absurd htext (append_ne_append 4 (by decide) (by decide) (by decide) _ _)
  | narrow fixedTile data width dim' footprint =>
    have htext := congrArg String.toList h
    simp only [String.toList_append, List.append_assoc, List.append_cancel_left_eq] at htext
    rw [← List.append_assoc] at htext
    cases fixedTile with
    | true => exact absurd htext (append_ne_append 4 (by decide) (by decide) (by decide) _ _)
    | false => exact absurd htext (append_ne_append 17 (by decide) (by decide) (by decide) _ _)

/-- A refusal is one more error on record, also where it is the last one. -/
theorem planPartitions_of_refused {k : Kernel} {device : Device} {config : TilingConfig} {r : Refusal}
    (h : choosePlan k device config = .error (.refused r)) (diag : Diagnostics) :
    (planPartitions k device config diag).2 = diag.withError none (r.message k.name) := by
  have hrun : (ExceptT.adapt .aborted (Diagnostics.error none (r.message k.name)) :
      Reporting AnalysisError Unit) diag =
      ((Diagnostics.error none (r.message k.name) diag).1.mapError .aborted,
        (Diagnostics.error none (r.message k.name) diag).2) := rfl
  simp only [planPartitions, h]
  rw [← Diagnostics.error_snd]
  cases herror : (Diagnostics.error none (r.message k.name) diag).1 with
  | error e =>
    rw [herror] at hrun
    rw [run_bind_of_error hrun]
  | ok _ =>
    rw [herror] at hrun
    rw [run_bind_of_ok hrun]
    rfl

/-- An error that planning puts on record is a refusal. -/
theorem refused_of_entries {k : Kernel} {device : Device} {config : TilingConfig} {diag : Diagnostics}
    {text : String}
    (h : (planPartitions k device config diag).2.entries = diag.entries ++ [⟨.error, none, text⟩]) :
    ∃ r, choosePlan k device config = .error (.refused r) ∧ r.message k.name = text := by
  rcases hchoose : choosePlan k device config with (f | r) | plan
  · have hrecord : (planPartitions k device config diag).2 = diag := by
      rw [planPartitions, hchoose]
      rfl
    rw [hrecord] at h
    exact absurd h (by simp)
  · rw [planPartitions_of_refused hchoose] at h
    exact ⟨r, rfl, by simpa [Diagnostics.withError, Diagnostics.push] using h⟩
  · rw [planPartitions_of_ok hchoose] at h
    exact absurd h (by simp)

/-! ### Fitted tiles -/

section Fitted

variable {k : Kernel} {device : Device} {config : TilingConfig} {memory : Nat}
  (htile : config.tile = none) (hm : device.localBudget = some memory)

include htile

/-- Along the scan a tile is the whole dimension. -/
theorem tileSlice_scan (scanDim : Nat) (grains : Int) :
    tileSlice k device config scanDim scanDim grains = grains := by
  rw [tileSlice, htile]
  exact if_pos rfl

include hm

/-- Across the scan a tile is fitted to the memory. -/
theorem tileSlice_cross {scanDim dim : Nat} (hdim : dim ≠ scanDim) (grains : Int) :
    tileSlice k device config scanDim dim grains = fittedSlice k memory dim grains := by
  rw [tileSlice, htile, hm]
  exact if_neg hdim

variable (hrank : k.rank = 2)

include hrank

/-- A tile of one grain is refused across the scan only. -/
theorem fittedSlice_of_tooSmall {dim : Nat}
    (h : choosePlan k device config = .error (.refused (.tooSmall dim))) :
    ∃ n, fittedSlice k memory config.scan.crossDim n < 1 := by
  obtain ⟨-, hdim, n, hcount, hslice⟩ := choosePlan_tooSmall h
  rw [hrank] at hdim hslice
  have hne : dim ≠ config.scan.scanDim 2 := by
    rintro rfl
    rw [tileSlice_scan htile] at hslice
    have := (countGrains_eq_ok hcount).1
    omega
  rw [tileSlice_cross htile hm hne, ScanOrder.eq_crossDim hdim hne] at hslice
  exact ⟨n, hslice⟩

variable (hmode : config.mode = .externalTiling)

include hmode

/-- The slice across the scan is the fitted one, or the whole dimension. -/
theorem slice_of_choosePlan {plan : Plan} (h : choosePlan k device config = .ok plan) :
    ∃ n, countGrains k config.scan.crossDim = .ok n ∧
      1 ≤ fittedSlice k memory config.scan.crossDim n ∧
      plan.sliceGrains config.scan.crossDim = min (fittedSlice k memory config.scan.crossDim n) n := by
  obtain ⟨n, p, hcount, hp, hpartition⟩ :=
    choosePlan_tile h hmode (hrank ▸ config.scan.crossDim_lt : config.scan.crossDim < k.rank)
  obtain ⟨hslice, rfl, -⟩ := tilePartition_eq_ok.mp hpartition
  rw [hrank, tileSlice_cross htile hm config.scan.crossDim_ne] at hslice hp
  have hn := (countGrains_eq_ok hcount).1
  refine ⟨n, hcount, hslice, ?_⟩
  rw [Plan.sliceGrains, hp, Option.map_some, Option.getD_some, Partition.split]
  dsimp only
  rw [if_neg (by omega), max_eq_left hn]

variable (hk : Measured k config.scan.crossDim) (hword : memory < 2 ^ 63)

include hk hword

/-- The buffers under a fitted plan fit the memory, and are sized in words. -/
theorem needed_le_memory {plan : Plan} (h : choosePlan k device config = .ok plan) :
    neededLocalBytes k plan config.scan ≤ memory ∧ BuffersFit k plan config.scan := by
  obtain ⟨n, hcount, hslice, heq⟩ := slice_of_choosePlan htile hm hrank hmode h
  have hn := (countGrains_eq_ok hcount).1
  have hnonneg : 0 ≤ plan.sliceGrains config.scan.crossDim := by omega
  have hle := (hk.needed_le_iff hword hnonneg n).mpr (heq ▸ min_le_left _ _)
  exact ⟨hle, hk.buffersFit hword hnonneg hle⟩

end Fitted

/-- Where planning fits the tiles of a plane to the local memory, its plan fits, so no memory
error is found, and its slice across the scan is the whole dimension or any longer one would not
fit. Where it records that the memory is too small for one grain, it is. -/
theorem fitted_tiles_maximal {k k' : Kernel} (hb : k.Built) {config : TilingConfig}
    (hmode : config.mode = .externalTiling) (htile : config.tile = none) {pipeline : Pipeline}
    (hrank : k.rank = 2) (hann : annotate config k = (.ok pipeline, k')) (htiles : TilesFit k')
    {device : Device} {memory : Nat} (hm : device.localBudget = some memory)
    (hword : memory < 2 ^ 63) (diag : Diagnostics) :
    (∀ plan diag', planPartitions k' device config diag = (.ok (some plan), diag') →
      (k'.data.map (bufferBytes · plan config.scan)).sum ≤ memory ∧
      (∀ f ∈ findings k' device plan config.mode config.scan, f.OffMemory) ∧
      ∃ grains, countGrains k' config.scan.crossDim = .ok grains ∧
        (plan.sliceGrains config.scan.crossDim = grains ∨
          ∀ wider : Plan,
            plan.sliceGrains config.scan.crossDim < wider.sliceGrains config.scan.crossDim →
            memory < neededLocalBytes k' wider config.scan)) ∧
    ∀ dim, (planPartitions k' device config diag).2.entries =
        diag.entries ++ [⟨.error, none, (Refusal.tooSmall dim).message k'.name⟩] →
      ∀ plan : Plan, 1 ≤ plan.sliceGrains config.scan.crossDim →
        memory < neededLocalBytes k' plan config.scan := by
  obtain ⟨hgraph, ha⟩ := annotate_annotated hb.wellFormed hann
  have hrank : k'.rank = 2 := hgraph.rank_eq.trans hrank
  have hk : Measured k' config.scan.crossDim :=
    ha.measured (by rw [hmode]; rfl) hrank fun d hd =>
      tileAt_bounds_of_keeps ha.tiled (.refl k') htiles (hrank ▸ config.scan.crossDim_lt) hd
  refine ⟨fun plan diag' hplan => ?_, fun dim hrecord plan hone => ?_⟩
  · obtain ⟨hchoose, -⟩ := choosePlan_of_planned hplan
    obtain ⟨hneeded, hfit⟩ := needed_le_memory htile hm hrank hmode hk hword hchoose
    refine ⟨(sum_bufferBytes hfit).trans_le hneeded, offMemory_findings hfit (by rw [hmode]; rfl) hm hneeded, ?_⟩
    obtain ⟨n, hcount, hslice, heq⟩ := slice_of_choosePlan htile hm hrank hmode hchoose
    refine ⟨n, hcount, ?_⟩
    rcases min_choice (fittedSlice k' memory config.scan.crossDim n) n with hmin | hmin
    · refine .inr fun wider hwider => ?_
      rw [heq, hmin] at hwider
      rw [← not_le, hk.needed_le_iff hword (by omega) n]
      omega
    · exact .inl (heq.trans hmin)
  · obtain ⟨r, hchoose, hmessage⟩ := refused_of_entries hrecord
    obtain ⟨dim', rfl⟩ := tooSmall_of_message hmessage
    obtain ⟨n, hslice⟩ := fittedSlice_of_tooSmall htile hm hrank hchoose
    rw [← not_le, hk.needed_le_iff hword (by omega) n]
    omega

/-- Averages an image to half its size. -/
def halving : Kernel :=
  .ofDeclarations "halving"
    [.input "a" .float [.fixed 60, .fixed 24], .output "o" .float [.fixed 30, .fixed 12],
      .node {} { name := "halve", output := 1, inStride := some ⟨[2, 2]⟩,
                 inputs := [⟨0, ⟨[⟨-1, 2⟩, ⟨0, 1⟩]⟩, .undef⟩] }]

def halved : Kernel := (annotate { mode := .externalTiling } halving).2

def halvingPlan (memory : Nat) : Except AnalysisError (Option Plan) × Diagnostics :=
  planPartitions halved (withLocalMemory memory) { mode := .externalTiling } (.new 5 0)

/-- Of 300 bytes 64 are for the halo and 40 for each of five grains; of 103 bytes there are not
enough left for one. -/
theorem fitted_tiles_maximal_halving :
    TilesFit halved ∧
    (∃ plan diag', halvingPlan 300 = (.ok (some plan), diag') ∧ plan.sliceGrains 0 = 5 ∧
      (halved.data.map (bufferBytes · plan .rows)).sum ≤ 300 ∧ countGrains halved 0 = .ok 30 ∧
      ∀ wider : Plan, 5 < wider.sliceGrains 0 → 300 < neededLocalBytes halved wider .rows) ∧
    (halvingPlan 103).2.entries = (Diagnostics.new 5 0).entries ++
        [⟨.error, none, (Refusal.tooSmall 0).message halved.name⟩] ∧
      ∀ plan : Plan, 1 ≤ plan.sliceGrains 0 → 103 < neededLocalBytes halved plan .rows := by
  have hfit : TilesFit halved := by decide +kernel
  have hcount : countGrains halved 0 = .ok 30 := by decide +kernel
  obtain ⟨pipeline, hpipeline, -⟩ := exists_of_toOption
    (show ∃ p ∈ (annotate { mode := .externalTiling } halving).1.toOption, p.depth = 1 by
      decide +kernel)
  have hann : annotate { mode := .externalTiling } halving = (.ok pipeline, halved) := by
    rw [halved, ← hpipeline, Prod.mk.eta]
  have hmaximal (memory : Nat) (hword : memory < 2 ^ 63) :=
    fitted_tiles_maximal (Kernel.built_ofDeclarations _ _) rfl rfl (by decide +kernel) hann hfit
      (show (withLocalMemory memory).localBudget = some memory from rfl) hword (.new 5 0)
  have hrecord : (halvingPlan 103).2.entries = (Diagnostics.new 5 0).entries ++
      [⟨.error, none, (Refusal.tooSmall 0).message halved.name⟩] := by decide +kernel
  obtain ⟨found, hfound, plan, hplan, hslice⟩ := exists_of_toOption
    (show ∃ found ∈ (halvingPlan 300).1.toOption, ∃ plan ∈ found, plan.sliceGrains 0 = 5 by
      decide +kernel)
  have hrun : halvingPlan 300 = (.ok (some plan), (halvingPlan 300).2) := by
    rw [← show found = some plan from hplan, ← hfound, Prod.mk.eta]
  obtain ⟨hsum, -, grains, hgrains, hlongest⟩ := (hmaximal 300 (by decide)).1 plan _ hrun
  have hsmall := (hmaximal 103 (by decide)).2 0
  rw [← halvingPlan] at hsmall
  refine ⟨hfit, ⟨plan, _, hrun, hslice, hsum, hcount, fun wider hwider => ?_⟩, hrecord,
    hsmall hrecord⟩
  obtain rfl : (30 : Int) = grains := Except.ok.inj (hcount.symm.trans hgrains)
  exact hlongest.resolve_left (hslice.trans_ne (by decide)) wider (hslice.trans_lt hwider)

end Analysis

end StencilTiling
