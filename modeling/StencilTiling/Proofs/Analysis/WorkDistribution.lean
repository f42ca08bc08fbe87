import StencilTiling.Proofs.Analysis.Parts
import StencilTiling.Proofs.Code.Launch

/-! How the parts of a plan are shared among work-groups. Every part of a dimension has
grains of its own, the groups launched are as many as the mode needs, and the passes of their
programs take every tuple of part indices once, if the variables of the programs can count
them. -/

namespace StencilTiling

namespace Partition

/-- Slices of at least one grain that cover the grains, none of them in vain. -/
structure Fills (p : Partition) : Prop where
  slice_pos : 1 ≤ p.sliceGrains
  lt_grains : (p.parts - 1) * p.sliceGrains < p.grains
  le_slices : p.grains ≤ p.parts * p.sliceGrains

theorem fills_whole {n : Int} (h : 1 ≤ n) : (whole n).Fills := by
  refine ⟨h, ?_, ?_⟩ <;> simp only [whole] <;> omega

theorem fills_split {n : Int} (h : 1 ≤ n) (slice : Int) : (split n slice).Fills := by
  obtain ⟨-, hslice, hle⟩ := covers_split n slice
  refine ⟨hslice, ?_, hle⟩
  set s := (split n slice).sliceGrains with hs
  have hparts : (split n slice).parts = (n + s - 1) / s := by
    have hone : 1 ≤ (n + s - 1) / s := by
      rw [Int.le_ediv_iff_mul_le (by omega)]
      omega
    have hdiv : (n + s - 1).tdiv s = (n + s - 1) / s := Int.tdiv_eq_ediv_of_nonneg (by omega)
    show max ((n + s - 1).tdiv s) 1 = _
    rw [hdiv, max_eq_left hone]
  have hmul := Int.ediv_mul_le (n + s - 1) (show s ≠ 0 by omega)
  show (_ - 1) * s < n
  rw [hparts, sub_mul, one_mul]
  omega

/-- There are no more parts than slices of a length cover. -/
theorem parts_split_le {n slice bound : Int} (hslice : 1 ≤ slice) (hn : slice ≤ n)
    (h : n ≤ bound * slice) : (split n slice).parts ≤ bound := by
  have hs : (split n slice).sliceGrains = slice := by
    show (if slice < 1 then 1 else min slice (max n 1)) = slice
    rw [if_neg (by omega), max_eq_left (by omega), min_eq_left hn]
  have hlt := (fills_split (show 1 ≤ n by omega) slice).lt_grains
  rw [hs] at hlt
  by_contra hgt
  have := mul_le_mul_of_nonneg_right (show bound ≤ (split n slice).parts - 1 by omega)
    (show 0 ≤ slice by omega)
  have hgrains : (split n slice).grains = n := rfl
  omega

theorem Fills.parts_pos {p : Partition} (h : p.Fills) (hg : 1 ≤ p.grains) : 1 ≤ p.parts := by
  by_contra hlt
  have := mul_nonpos_of_nonpos_of_nonneg (show p.parts ≤ 0 by omega)
    (show 0 ≤ p.sliceGrains from by have := h.slice_pos; omega)
  have := h.le_slices
  omega

end Partition

namespace Analysis

open Code (splitDims volume)

/-! ### Plans -/

theorem grainCounts_pos {k : Kernel} {mode : Granularity} {grains : List Int}
    (h : grainCounts k mode = .ok grains) : ∀ n ∈ grains, 1 ≤ n := by
  intro n hn
  obtain ⟨dim, -, hdim⟩ := exists_of_mem_mapM h hn
  split at hdim
  · rw [← Except.ok.inj hdim]
  · exact (countGrains_eq_ok hdim).1

/-- What a plan is made from. -/
theorem choosePlan_partitions {k : Kernel} {device : Device} {config : TilingConfig} {plan : Plan}
    (h : choosePlan k device config = .ok plan) :
    grainCounts k config.mode = .ok (plan.partitions.map Partition.grains) ∧
      partitionsOf k device config (plan.partitions.map Partition.grains) = .ok plan.partitions ∧
      plan.workGroups = workGroupsOf device config plan.totalParts ∧
      plan.workItems = itemsOf device config := by
  obtain ⟨grains, hgrains, h⟩ := bind_eq_ok.mp h
  obtain ⟨ps, hps, h⟩ := bind_eq_ok.mp h
  obtain rfl := pure_eq_ok.mp h
  obtain rfl : grains = ps.map Partition.grains := by
    rw [← List.forall₂_eq_eq_eq, List.forall₂_map_right_iff]
    refine (partitionsOf_form hps).imp fun n p hp => ?_
    obtain ⟨rfl | ⟨slice, rfl⟩, -⟩ := hp <;> rfl
  exact ⟨hgrains, hps, rfl, rfl⟩

/-- No part of a plan is empty. -/
theorem choosePlan_fills {k : Kernel} {device : Device} {config : TilingConfig} {plan : Plan}
    (h : choosePlan k device config = .ok plan) : ∀ p ∈ plan.partitions,
      p.Fills ∧ 1 ≤ p.parts ∧ (config.mode = .wholeImage → p.parts = 1) := by
  obtain ⟨hgrains, hps, -, -⟩ := choosePlan_partitions h
  have hform := partitionsOf_form hps
  rw [List.forall₂_map_left_iff, List.forall₂_same] at hform
  intro p hp
  have hpos : 1 ≤ p.grains := grainCounts_pos hgrains _ (List.mem_map_of_mem hp)
  obtain ⟨hsplit, hwhole⟩ := hform p hp
  have hfills : p.Fills := by
    rcases hsplit with hsplit | ⟨slice, hsplit⟩ <;> rw [hsplit]
    · exact Partition.fills_whole hpos
    · exact Partition.fills_split hpos slice
  refine ⟨hfills, hfills.parts_pos hpos, fun hmode => ?_⟩
  rw [hwhole hmode, Partition.whole]

/-- Slices of a length for so many groups are no more than the groups. -/
theorem parts_groupSlices_le {groups : Nat} (hg : 1 ≤ groups) {n : Int} (hn : 1 ≤ n) :
    (Partition.split n (Arith.ceilDiv n (max (min (Arith.wrap64 groups) n) 1))).parts ≤ groups := by
  set g := max (min (Arith.wrap64 groups) n) 1 with hgdef
  have hwrap := Arith.wrap64_le (Int.natCast_nonneg groups)
  have hg1 : 1 ≤ g := le_max_right _ _
  have hcover := Arith.le_ceilDiv_mul (n := n) (show 0 < g by omega)
  have hslice : 1 ≤ Arith.ceilDiv n g := by
    by_contra hlt
    have := mul_nonpos_of_nonpos_of_nonneg (show Arith.ceilDiv n g ≤ 0 by omega) (show 0 ≤ g by omega)
    omega
  have hle := Arith.ceilDiv_le_self (show 0 < g by omega) (show 0 ≤ n by omega)
  have hparts := Partition.parts_split_le hslice hle (mul_comm g _ ▸ hcover)
  omega

/-- Slices for work-groups cut the scan dimension alone, into no more parts than there are
groups. -/
theorem choosePlan_sliced {k : Kernel} {device : Device} {config : TilingConfig} {plan : Plan}
    (h : choosePlan k device config = .ok plan) (hmode : config.mode = .workGroupSlicing) {dim : Nat}
    {p : Partition} (hp : plan.partitions[dim]? = some p) :
    (dim ≠ plan.scanDim → p.parts = 1) ∧ p.parts ≤ groupsOf device config := by
  obtain ⟨hgrains, hps, -, -⟩ := choosePlan_partitions h
  have hone : 1 ≤ groupsOf device config := le_max_right _ _
  have hpos : 1 ≤ p.grains :=
    grainCounts_pos hgrains _ (List.mem_map_of_mem (List.mem_of_getElem? hp))
  rw [partitionsOf, hmode, ← scanDim_of_choosePlan h] at hps
  have hget := congrArg (·[dim]?) (Except.ok.inj hps)
  simp only [groupSlices, List.getElem?_map, List.getElem?_zipIdx, hp, Option.map_some, zero_add,
    Option.some.injEq] at hget
  by_cases hdim : dim = plan.scanDim
  · rw [if_pos hdim] at hget
    refine ⟨fun hne => absurd hdim hne, ?_⟩
    rw [← hget]
    exact parts_groupSlices_le hone hpos
  · rw [if_neg hdim] at hget
    have hparts : p.parts = 1 := by rw [← hget, Partition.whole]
    exact ⟨fun _ => hparts, by omega⟩

/-- Plans can be launched. -/
theorem distributed_of_choosePlan {k : Kernel} {device : Device} {config : TilingConfig} {plan : Plan}
    (h : choosePlan k device config = .ok plan) (pipeline : Pipeline) (check : BudgetCheck) :
    Code.Distributed (scheduleOf config pipeline plan check) := by
  obtain ⟨-, -, hgroups, hitems⟩ := choosePlan_partitions h
  have hfills := choosePlan_fills h
  have hparts : ∀ p ∈ plan.partitions, 1 ≤ p.parts := fun p hp => (hfills p hp).2.1
  have htotal : plan.totalParts = volume (splitDims plan.partitions) :=
    (Code.volume_splitDims hparts).symm
  have hvolume := Code.volume_pos (Code.splitDims_pos plan.partitions)
  have hasked : 1 ≤ groupsOf device config := le_max_right _ _
  refine ⟨hparts, ?_, ?_, fun hmode => ⟨?_, ?_⟩, fun hmode => ⟨?_, ?_⟩⟩
  · show 0 < plan.workItems
    rw [hitems]
    exact Nat.le_max_right _ _
  · show 0 < plan.workGroups
    rw [hgroups, workGroupsOf]
    split <;> omega
  · show plan.workGroups = 1
    rw [hgroups, workGroupsOf, show config.mode = _ from hmode]
  · refine List.eq_nil_iff_forall_not_mem.mpr fun d hd => ?_
    obtain ⟨p, hp, hsplit, -⟩ := Code.mem_splitDims.mp hd
    have := (hfills p (List.mem_of_getElem? hp)).2.2 hmode
    omega
  · show (plan.workGroups : Int) = _
    rw [hgroups, workGroupsOf, show config.mode = _ from hmode]
    exact (Int.toNat_of_nonneg (by omega)).trans htotal
  · -- all split dimensions are the scan dimension
    have hsub : (splitDims plan.partitions).map Prod.fst ⊆ [plan.scanDim] := by
      intro dim hdim
      obtain ⟨⟨_, parts⟩, hd, rfl⟩ := List.mem_map.mp hdim
      obtain ⟨p, hp, hsplit, -⟩ := Code.mem_splitDims.mp hd
      by_contra hne
      have := (choosePlan_sliced h hmode hp).1 (by simpa using hne)
      omega
    have hlen := (List.subperm_of_subset (Code.nodup_splitDims plan.partitions) hsub).length_le
    rwa [List.length_map] at hlen

/-- The parts of a plan that cuts one dimension are the parts of that. -/
theorem totalParts_of_single {ps : List Partition} {s : Nat}
    (h : ∀ dim p, ps[dim]? = some p → dim ≠ s → p.parts = 1) :
    (ps.map Partition.parts).foldr (· * ·) 1 = ((ps[s]?).map Partition.parts).getD 1 := by
  induction ps generalizing s with
  | nil => rfl
  | cons p rest ih =>
    rw [List.map_cons, List.foldr_cons]
    cases s with
    | zero =>
      rw [ih (s := rest.length) fun dim q hq _ => h (dim + 1) q hq (by omega)]
      simp
    | succ s =>
      rw [ih (s := s) fun dim q hq hne => h (dim + 1) q hq (by omega), h 0 p rfl (by omega), one_mul]
      rfl

/-! ### Counts of grains -/

theorem countGrains_of_keeps {k k' : Kernel} (hk : Keeps tileView k k') (dim : Nat) :
    countGrains k' dim = countGrains k dim := by
  have hview : ∀ k : Kernel, countGrains k dim = ((k.data.map tileView).filter (·.iterative)).foldlM
      (fun most item => return max most (← itemGrains item dim)) 1 := fun k => by
    rw [List.filter_map, List.foldlM_map]
    rfl
  rw [hview, hview, hk.data]

theorem grainCounts_of_keeps {k k' : Kernel} (hk : Keeps tileView k k') (mode : Granularity) :
    grainCounts k' mode = grainCounts k mode := by
  simp only [grainCounts, hk.of_tileView.sameGraph.rank_eq, countGrains_of_keeps hk]

/-- An image of two dimensions, each pixel from it and two neighbours. -/
def shading : Kernel :=
  .ofDeclarations "shading"
    [.input "a" .float [.fixed 6, .fixed 4], .output "o" .float [.fixed 6, .fixed 4],
      .node {} { name := "shade", output := 1, inputs := [⟨0, ⟨[⟨-1, 0⟩, ⟨0, 1⟩]⟩, .undef⟩] }]

def tiledShading : Result :=
  analyze shading { units := 4 } { mode := .externalTiling, tile := some ⟨[2, 2]⟩ } (.new 5 0)

def slicedShading : Result := analyze shading { units := 3 } { mode := .workGroupSlicing } (.new 5 0)

/-- A large image, pixel by pixel. -/
def mosaic : Kernel :=
  .ofDeclarations "mosaic"
    [.input "a" .float [.fixed 65536, .fixed 65536], .output "o" .float [.fixed 65536, .fixed 65536],
      .node {} { name := "lay", output := 1, inputs := [⟨0, ⟨[⟨0, 0⟩, ⟨0, 0⟩]⟩, .undef⟩] }]

def tiledMosaic : Result :=
  analyze mosaic { units := 4 } { mode := .externalTiling, tile := some ⟨[1, 1]⟩ } (.new 5 0)

end Analysis

end StencilTiling
