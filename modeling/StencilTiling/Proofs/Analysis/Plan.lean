import StencilTiling.Analysis.Plan
import StencilTiling.Proofs.Arith
import StencilTiling.Proofs.Checked

/-! A plan cuts every dimension of a tiled kernel into slices that together cover the
grains of every iterative item. A whole image is one part whatever its grains. -/

namespace StencilTiling

namespace Partition

/-- Slices of at least one grain that cover the grains. -/
structure Covers (p : Partition) (grains : Int) : Prop where
  parts_pos : 1 ≤ p.parts
  slice_pos : 1 ≤ p.sliceGrains
  le_slices : grains ≤ p.parts * p.sliceGrains

theorem covers_whole {grains : Int} (h : 1 ≤ grains) : (whole grains).Covers grains :=
  ⟨le_rfl, h, (one_mul grains).ge⟩

theorem covers_split (grains slice : Int) : (split grains slice).Covers grains := by
  set s : Int := if slice < 1 then 1 else min slice (max grains 1) with hs
  have hs1 : 1 ≤ s := by
    rw [hs]
    split_ifs <;> omega
  have hparts : 1 ≤ max ((grains + s - 1).tdiv s) 1 := le_max_right _ _
  refine ⟨hparts, hs1, ?_⟩
  show grains ≤ max ((grains + s - 1).tdiv s) 1 * s
  by_cases hg : grains ≤ 0
  · have := mul_pos (show (0 : Int) < max ((grains + s - 1).tdiv s) 1 by omega) (by omega : 0 < s)
    omega
  · rw [Int.tdiv_eq_ediv_of_nonneg (by omega)]
    have hlt := Int.lt_ediv_add_one_mul_self (grains + s - 1) (by omega : 0 < s)
    have hle : (grains + s - 1) / s * s ≤ max ((grains + s - 1) / s) 1 * s :=
      mul_le_mul_of_nonneg_right (le_max_left _ _) (by omega)
    rw [add_mul, one_mul] at hlt
    omega

end Partition

namespace Analysis

/-! ### Counting grains -/

/-- The count is at least one, and at least that of every item. -/
theorem countGrains_eq_ok {k : Kernel} {dim : Nat} {n : Int} (h : countGrains k dim = .ok n) :
    1 ≤ n ∧ ∀ item ∈ k.iterativeData, ∃ c, itemGrains item dim = .ok c ∧ c ≤ n := by
  suffices hfold : ∀ (l : List DataItem) (most : Int),
      (l.foldlM (fun most item => return max most (← itemGrains item dim)) most :
        Except PlanFailure Int) = .ok n →
      most ≤ n ∧ ∀ item ∈ l, ∃ c, itemGrains item dim = .ok c ∧ c ≤ n from hfold _ _ h
  intro l
  induction l with
  | nil => exact fun most hn => ⟨(pure_eq_ok.mp hn).le, by simp⟩
  | cons item rest ih =>
    intro most hn
    rw [List.foldlM_cons] at hn
    obtain ⟨most', hitem, hn⟩ := bind_eq_ok.mp hn
    obtain ⟨c, hc, hmax⟩ := bind_eq_ok.mp hitem
    obtain rfl := pure_eq_ok.mp hmax
    obtain ⟨hle, hrest⟩ := ih _ hn
    exact ⟨(le_max_left _ _).trans hle,
      List.forall_mem_cons.mpr ⟨⟨c, hc, (le_max_right _ _).trans hle⟩, hrest⟩⟩

/-- The grains of an item reach the bound of its extent. -/
theorem itemGrains_eq_ok {item : DataItem} {dim : Nat} {c : Int} (h : itemGrains item dim = .ok c) :
    ∃ bound, (item.shape[dim]?).bind Extent.bound = some bound ∧
      c = Arith.ceilDiv (Arith.wrap64 bound) (max ((grainOf item).get dim) 1) := by
  unfold itemGrains at h
  split at h
  · cases h
  · next extent hextent =>
    split at h
    · cases h
    · next bound hbound => exact ⟨bound, by rw [hextent, Option.bind_some, hbound], (Except.ok.inj h).symm⟩

/-- Related lists have related elements at every position. -/
theorem exists_getElem?_of_forall₂ {α β : Type} {R : α → β → Prop} {l : List α} {l' : List β}
    (h : List.Forall₂ R l l') {i : Nat} {a : α} (ha : l[i]? = some a) :
    ∃ b, l'[i]? = some b ∧ R a b := by
  obtain ⟨hlen, hall⟩ := List.forall₂_iff_get.mp h
  obtain ⟨hi, rfl⟩ := List.getElem?_eq_some_iff.mp ha
  exact ⟨l'[i], List.getElem?_eq_getElem (by omega), hall i hi (by omega)⟩

/-- In the tiled modes every dimension has its count. -/
theorem grainCounts_eq_ok {k : Kernel} {mode : Granularity} {grains : List Int}
    (h : grainCounts k mode = .ok grains) (hmode : mode ≠ .wholeImage) :
    List.Forall₂ (fun dim n => countGrains k dim = .ok n) (List.range k.rank) grains := by
  refine (mapM_eq_ok.mp h).imp fun dim n hn => ?_
  split at hn
  · next => exact absurd rfl hmode
  · exact hn

/-- The entries of the list are the counts of the dimensions. -/
theorem countGrains_of_mem {k : Kernel} {mode : Granularity} {grains : List Int}
    (h : grainCounts k mode = .ok grains) (hmode : mode ≠ .wholeImage) {n : Int} {dim : Nat}
    (hmem : (n, dim) ∈ grains.zipIdx) : dim < k.rank ∧ countGrains k dim = .ok n := by
  obtain ⟨dim', hrange, hcount⟩ := exists_getElem?_of_forall₂ (grainCounts_eq_ok h hmode).flip
    (List.mem_zipIdx_iff_getElem?.mp hmem)
  obtain ⟨hdim, rfl⟩ : dim < k.rank ∧ dim = dim' := by simpa [List.getElem?_eq_some_iff] using hrange
  exact ⟨hdim, hcount⟩

/-! ### Partitions -/

/-- Tiles are slices of one length, of at least a grain; across the scan they are as wide as
every stencil, or the only tile. -/
theorem tilePartition_eq_ok {k : Kernel} {device : Device} {config : TilingConfig} {scanDim : Nat}
    {grains : Int} {dim : Nat} {p : Partition} :
    tilePartition k device config scanDim (grains, dim) = .ok p ↔
      1 ≤ tileSlice k device config scanDim dim grains ∧
        p = .split grains (tileSlice k device config scanDim dim grains) ∧
        (dim = scanDim ∨ narrowItem k config.isFixedTile dim p = none) := by
  unfold tilePartition
  dsimp only
  split_ifs with hslice hdim
  · exact iff_of_false nofun fun ⟨hle, _⟩ => absurd hslice (by omega)
  · simp only [Except.ok.injEq, true_or, hdim, and_true] at hslice ⊢
    exact ⟨fun h => ⟨by omega, h.symm⟩, fun h => h.2.symm⟩
  · split
    · next r hr =>
      refine iff_of_false nofun ?_
      rintro ⟨-, rfl, hscan | hnone⟩
      · exact hdim hscan
      · cases hr.symm.trans hnone
    · next hnone =>
      simp only [Except.ok.injEq, hdim, false_or]
      exact ⟨fun h => ⟨by omega, h.symm, h ▸ hnone⟩, fun h => h.2.1.symm⟩

/-- Every dimension is whole or split; a whole image is not split. -/
theorem partitionsOf_form {k : Kernel} {device : Device} {config : TilingConfig} {grains : List Int}
    {ps : List Partition} (h : partitionsOf k device config grains = .ok ps) :
    List.Forall₂ (fun n p => (p = .whole n ∨ ∃ slice, p = .split n slice) ∧
      (config.mode = .wholeImage → p = .whole n)) grains ps := by
  unfold partitionsOf at h
  split at h
  · obtain rfl := Except.ok.inj h
    rw [List.forall₂_map_right_iff, List.forall₂_same]
    exact fun n _ => ⟨.inl rfl, fun _ => rfl⟩
  · next hmode =>
    obtain rfl := Except.ok.inj h
    refine List.forall₂_iff_get.mpr ⟨by simp [groupSlices], fun i hi _ => ?_⟩
    refine ⟨?_, fun hw => by rw [hmode] at hw; cases hw⟩
    simp only [groupSlices, List.get_eq_getElem, List.getElem_map, List.getElem_zipIdx]
    split_ifs
    · exact .inr ⟨_, rfl⟩
    · exact .inl rfl
  · next hmode =>
    obtain ⟨hlen, hall⟩ := List.forall₂_iff_get.mp (mapM_eq_ok.mp h)
    rw [List.length_zipIdx] at hlen
    refine List.forall₂_iff_get.mpr ⟨hlen, fun i hi hps => ?_⟩
    have htile := hall i (by simpa using hi) hps
    simp only [List.get_eq_getElem, List.getElem_zipIdx] at htile
    exact ⟨.inr ⟨_, (tilePartition_eq_ok.mp htile).2.1⟩, fun hw => by rw [hmode] at hw; cases hw⟩

/-- The partition of every dimension; a whole image is one part. -/
theorem partitionsOf_eq_ok {k : Kernel} {device : Device} {config : TilingConfig} {grains : List Int}
    {ps : List Partition} (h : partitionsOf k device config grains = .ok ps) :
    List.Forall₂ (fun n p => (1 ≤ n → p.Covers n) ∧ (config.mode = .wholeImage → p.parts = 1))
      grains ps := by
  refine (partitionsOf_form h).imp fun n p hp => ?_
  obtain ⟨rfl | ⟨slice, rfl⟩, hwhole⟩ := hp
  · exact ⟨Partition.covers_whole, fun _ => rfl⟩
  · exact ⟨fun _ => Partition.covers_split _ _, fun hw => by rw [hwhole hw, Partition.whole]⟩

theorem scanDim_of_choosePlan {k : Kernel} {device : Device} {config : TilingConfig} {plan : Plan}
    (h : choosePlan k device config = .ok plan) : plan.scanDim = config.scan.scanDim k.rank := by
  obtain ⟨grains, -, h⟩ := bind_eq_ok.mp h
  obtain ⟨ps, -, h⟩ := bind_eq_ok.mp h
  rw [← pure_eq_ok.mp h]

/-- In the tiled modes a plan cuts the count of every dimension. -/
theorem choosePlan_counts {k : Kernel} {device : Device} {config : TilingConfig} {plan : Plan}
    (h : choosePlan k device config = .ok plan) (hmode : config.mode ≠ .wholeImage) :
    ∃ grains, partitionsOf k device config grains = .ok plan.partitions ∧
      ∀ dim < k.rank, ∃ n, grains[dim]? = some n ∧ countGrains k dim = .ok n := by
  obtain ⟨grains, hgrains, h⟩ := bind_eq_ok.mp h
  obtain ⟨ps, hps, h⟩ := bind_eq_ok.mp h
  obtain rfl := pure_eq_ok.mp h
  exact ⟨grains, hps, fun dim hdim =>
    exists_getElem?_of_forall₂ (grainCounts_eq_ok hgrains hmode) (List.getElem?_range hdim)⟩

/-- A plan that covers a dimension: its slices have room for the grains of every item. -/
structure Plan.Covers (plan : Plan) (k : Kernel) (dim : Nat) : Prop where
  parts_pos : 1 ≤ plan.parts dim
  slice_pos : 1 ≤ plan.sliceGrains dim
  le_slices : ∀ item ∈ k.iterativeData,
    ∃ c, itemGrains item dim = .ok c ∧ c ≤ plan.parts dim * plan.sliceGrains dim

/-- In the tiled modes a plan covers every dimension. -/
theorem choosePlan_covers {k : Kernel} {device : Device} {config : TilingConfig} {plan : Plan}
    (h : choosePlan k device config = .ok plan) (hmode : config.mode ≠ .wholeImage) {dim : Nat}
    (hdim : dim < k.rank) : plan.Covers k dim := by
  obtain ⟨grains, hps, hcounts⟩ := choosePlan_counts h hmode
  obtain ⟨n, hn, hcount⟩ := hcounts dim hdim
  obtain ⟨p, hp, hcovers, -⟩ := exists_getElem?_of_forall₂ (partitionsOf_eq_ok hps) hn
  obtain ⟨hone, hitems⟩ := countGrains_eq_ok hcount
  obtain ⟨hpos, hslice, hle⟩ := hcovers hone
  refine ⟨?_, ?_, fun item hitem => ?_⟩
  · simpa [Plan.parts, hp] using hpos
  · simpa [Plan.sliceGrains, hp] using hslice
  · obtain ⟨c, hc, hcn⟩ := hitems item hitem
    refine ⟨c, hc, hcn.trans ?_⟩
    simpa [Plan.parts, Plan.sliceGrains, hp] using hle

/-- Under external tiling every dimension is cut into its tiles. -/
theorem choosePlan_tile {k : Kernel} {device : Device} {config : TilingConfig} {plan : Plan}
    (h : choosePlan k device config = .ok plan) (hmode : config.mode = .externalTiling) {dim : Nat}
    (hdim : dim < k.rank) :
    ∃ n p, countGrains k dim = .ok n ∧ plan.partitions[dim]? = some p ∧
      tilePartition k device config (config.scan.scanDim k.rank) (n, dim) = .ok p := by
  obtain ⟨grains, hps, hcounts⟩ := choosePlan_counts h (by simp [hmode])
  obtain ⟨n, hn, hcount⟩ := hcounts dim hdim
  simp only [partitionsOf, hmode] at hps
  have hentry : grains.zipIdx[dim]? = some (n, dim) := by simp [List.getElem?_zipIdx, hn]
  obtain ⟨p, hp, htile⟩ := exists_getElem?_of_forall₂ (mapM_eq_ok.mp hps) hentry
  exact ⟨n, p, hcount, hp, htile⟩

/-- Several parts are parts of a tiled kernel. -/
theorem choosePlan_eq_ok {k : Kernel} {device : Device} {config : TilingConfig} {plan : Plan}
    (h : choosePlan k device config = .ok plan) {dim : Nat} (hparts : plan.parts dim ≠ 1) :
    plan.Covers k dim := by
  have hchosen := h
  obtain ⟨grains, hgrains, h⟩ := bind_eq_ok.mp h
  obtain ⟨ps, hps, h⟩ := bind_eq_ok.mp h
  obtain rfl := pure_eq_ok.mp h
  obtain ⟨hlen, hcovers⟩ := List.forall₂_iff_get.mp (partitionsOf_eq_ok hps)
  simp only [Plan.parts] at hparts
  have hlt : dim < ps.length := by
    by_contra hge
    rw [List.getElem?_eq_none (by omega)] at hparts
    exact hparts rfl
  have hmode : config.mode ≠ .wholeImage := fun hm => by
    rw [List.getElem?_eq_getElem hlt] at hparts
    exact hparts ((hcovers dim (by omega) hlt).2 hm)
  have hrank := (grainCounts_eq_ok hgrains hmode).length_eq
  rw [List.length_range] at hrank
  exact choosePlan_covers hchosen hmode (by omega)

/-! ### Refusals -/

/-- Planning fails for a reason to report. -/
def PlanFailure.IsRefusal (e : PlanFailure) : Prop := ∃ r, e = .refused r

theorem itemGrains_failsOnly {item : DataItem} {dim : Nat} (h : dim < item.rank) :
    FailsOnly PlanFailure.IsRefusal (itemGrains item dim) := by
  unfold itemGrains
  rw [List.getElem?_eq_getElem h]
  dsimp only
  split
  · rintro _ ⟨⟩
    exact ⟨_, rfl⟩
  · exact failsOnly_ok _

/-- Counting grains does not refuse a tile. -/
theorem grainCounts_failsOnly (k : Kernel) (mode : Granularity) :
    FailsOnly (fun e => ∀ dim, e ≠ .refused (.tooSmall dim)) (grainCounts k mode) := by
  have hcount (dim : Nat) :
      FailsOnly (fun e => ∀ dim, e ≠ .refused (.tooSmall dim)) (countGrains k dim) := by
    refine failsOnly_foldlM (fun item _ most => FailsOnly.bind ?_ fun _ => failsOnly_ok _) 1
    unfold itemGrains
    split
    · rintro _ ⟨⟩ _ ⟨⟩
    · split
      · rintro _ ⟨⟩ _ ⟨⟩
      · exact failsOnly_ok _
  refine failsOnly_mapM fun dim _ => ?_
  split
  · exact failsOnly_ok 1
  · exact hcount dim

/-- A tile is refused as too small where its slice would be less than a grain. -/
theorem tilePartition_tooSmall {k : Kernel} {device : Device} {config : TilingConfig} {scanDim : Nat}
    {grains : Int} {i dim : Nat}
    (h : tilePartition k device config scanDim (grains, i) = .error (.refused (.tooSmall dim))) :
    i = dim ∧ tileSlice k device config scanDim dim grains < 1 := by
  unfold tilePartition at h
  dsimp only at h
  split at h
  · next hslice =>
    cases h
    exact ⟨rfl, hslice⟩
  · split at h
    · next r hr =>
      -- the other refusal names an item that is too narrow
      obtain rfl := PlanFailure.refused.inj (Except.error.inj h)
      split_ifs at hr
      obtain ⟨item, -, hitem⟩ := List.exists_of_findSome?_eq_some hr
      obtain ⟨tile, -, hnarrow⟩ := Option.bind_eq_some_iff.mp hitem
      dsimp only at hnarrow
      split_ifs at hnarrow
      cases hnarrow
    · cases h

/-- Planning refuses a tile as too small under external tiling only, for its slice. -/
theorem choosePlan_tooSmall {k : Kernel} {device : Device} {config : TilingConfig} {dim : Nat}
    (h : choosePlan k device config = .error (.refused (.tooSmall dim))) :
    config.mode = .externalTiling ∧ dim < k.rank ∧ ∃ n, countGrains k dim = .ok n ∧
      tileSlice k device config (config.scan.scanDim k.rank) dim n < 1 := by
  rcases bind_eq_error.mp h with hcounts | ⟨grains, hgrains, h⟩
  · exact absurd rfl (grainCounts_failsOnly k config.mode _ hcounts dim)
  rcases bind_eq_error.mp h with hparts | ⟨ps, -, h⟩
  swap
  · cases h
  unfold partitionsOf at hparts
  dsimp only at hparts
  split at hparts
  · cases hparts
  · cases hparts
  · next hmode =>
    obtain ⟨⟨n, i⟩, hmem, htile⟩ := failsOnly_mapM (P := fun e => ∃ entry ∈ grains.zipIdx,
      tilePartition k device config (config.scan.scanDim k.rank) entry = .error e)
      (fun entry hentry e he => ⟨entry, hentry, he⟩) _ hparts
    obtain ⟨rfl, hslice⟩ := tilePartition_tooSmall htile
    obtain ⟨hdim, hcount⟩ := countGrains_of_mem hgrains (by simp [hmode]) hmem
    exact ⟨hmode, hdim, n, hcount, hslice⟩

theorem tilePartition_failsOnly (k : Kernel) (device : Device) (config : TilingConfig) (scanDim : Nat)
    (entry : Int × Nat) : FailsOnly PlanFailure.IsRefusal (tilePartition k device config scanDim entry) := by
  unfold tilePartition
  dsimp only
  split_ifs with hslice
  · rintro _ ⟨⟩
    exact ⟨_, rfl⟩
  all_goals
    split
    · rintro _ ⟨⟩
      exact ⟨_, rfl⟩
    · exact failsOnly_ok _

/-- When the images share a rank, no plan is a matter of a refusal. -/
theorem choosePlan_failsOnly {k : Kernel} (hrank : ∀ d ∈ k.iterativeData, d.rank = k.rank)
    (device : Device) (config : TilingConfig) :
    FailsOnly PlanFailure.IsRefusal (choosePlan k device config) := by
  have hcount : ∀ dim ∈ List.range k.rank, FailsOnly PlanFailure.IsRefusal (countGrains k dim) := by
    intro dim hdim
    refine failsOnly_foldlM (fun item hitem most => ?_) 1
    have hlt : dim < item.rank := hrank item hitem ▸ List.mem_range.mp hdim
    exact (itemGrains_failsOnly hlt).bind fun _ => failsOnly_ok _
  refine FailsOnly.bind (failsOnly_mapM fun dim hdim => ?_) fun grains => ?_
  · split
    · exact failsOnly_ok 1
    · exact hcount dim hdim
  · refine FailsOnly.bind ?_ fun ps => failsOnly_ok _
    unfold partitionsOf
    dsimp only
    split
    · exact failsOnly_ok _
    · exact failsOnly_ok _
    · exact failsOnly_mapM fun entry _ => tilePartition_failsOnly k device config _ entry

end Analysis

end StencilTiling
