import StencilTiling.Proofs.Analysis.Grains
import StencilTiling.Proofs.Analysis.LeastOrder

/-! Grains hold whole blocks and are the least that do. Going backward, any sizes that feed
every reader whole blocks are multiples of the feed grains; going forward, any multiples of
the feed grains that hold what their readers make of them are multiples of the grains. -/

namespace StencilTiling.Analysis

open Arith

/-! ### Families of sizes -/

/-- Each output is whole blocks, and each source as many input strides as its reader has
blocks. -/
structure FeedsBlocks (k : Kernel) (dim : Nat) (q : DataId → Int) : Prop where
  output : ∀ n ∈ k.nodes, n.outStride.get dim ∣ q n.output
  source : ∀ e ∈ k.edges, ∀ n, k.nodes[e.target]? = some n →
    q n.output / n.outStride.get dim * n.inStride.get dim ∣ q e.source

/-- Each item is a multiple of its feed grain, and each output of the blocks that a source
makes. -/
structure YieldsBlocks (k : Kernel) (dim : Nat) (feed g : DataId → Int) : Prop where
  feed : ∀ d ∈ k.data, feed d.id ∣ g d.id
  output : ∀ e ∈ k.edges, ∀ n, k.nodes[e.target]? = some n →
    g e.source / n.inStride.get dim * n.outStride.get dim ∣ g n.output

/-- The recorded grains never split a block, and none that do so are smaller. -/
structure LeastGrains (k : Kernel) (dim : Nat) : Prop where
  pos : ∀ d ∈ k.data, 1 ≤ feedAt k dim d.id ∧ 1 ≤ grainAt k dim d.id ∧ 1 ≤ (tileAt k d.id).rate.get dim
  inStride : ∀ e ∈ k.edges, ∀ n, k.nodes[e.target]? = some n →
    n.inStride.get dim ∣ feedAt k dim e.source ∧ n.inStride.get dim ∣ grainAt k dim e.source
  outStride : ∀ n ∈ k.nodes,
    n.outStride.get dim ∣ feedAt k dim n.output ∧ n.outStride.get dim ∣ grainAt k dim n.output
  feeds : FeedsBlocks k dim (feedAt k dim)
  yields : YieldsBlocks k dim (feedAt k dim) (grainAt k dim)
  /-- A node with one read makes one grain of a grain. -/
  single : ∀ n ∈ k.nodes, ∀ e, k.inputEdges n = [e] →
    grainAt k dim e.source / n.inStride.get dim * n.outStride.get dim = grainAt k dim n.output
  rate : ∀ n ∈ k.nodes,
    (tileAt k n.output).rate.get dim * n.outStride.get dim = grainAt k dim n.output
  feed_least : ∀ q, FeedsBlocks k dim q → ∀ d ∈ k.data, feedAt k dim d.id ∣ q d.id
  grain_least : ∀ g, YieldsBlocks k dim (feedAt k dim) g → ∀ d ∈ k.data, grainAt k dim d.id ∣ g d.id

/-! ### One node -/

/-- Whole blocks of a divisor, converted between strides, divide those of the multiple. -/
theorem ediv_mul_dvd {a b s t : Int} (ha : s ∣ a) (hab : a ∣ b) :
    a / s * t ∣ b / s * t :=
  mul_dvd_mul_right (Int.ediv_dvd_ediv ha hab) t

namespace Tiled

variable {k : Kernel} (ht : Tiled k) (hf : GrainsFit k) {dim : Nat} (hdim : dim < k.rank)

include ht hf hdim

theorem inStride_dvd_feed {e : Edge} {n : Node} (he : e ∈ k.edges)
    (hn : k.nodes[e.target]? = some n) : n.inStride.get dim ∣ feedAt k dim e.source := by
  obtain ⟨q, -, hq⟩ := ht.needed_dvd_feed hf hdim he hn
  exact (Dvd.intro_left q rfl).trans hq

theorem feedsBlocks : FeedsBlocks k dim (feedAt k dim) where
  output n hn := by
    obtain ⟨j, hj⟩ := List.mem_iff_getElem?.mp hn
    exact ht.outStride_dvd_feed hf hdim hj
  source e he n hn := by
    obtain ⟨q, hq, hdvd⟩ := ht.needed_dvd_feed hf hdim he hn
    rwa [hq, Int.mul_ediv_cancel _ (ht.valid.outStride_pos hn dim).ne']

/-- Feed grains divide whatever feeds whole blocks; the induction runs against the flow. -/
theorem feed_dvd_of_feedsBlocks {q : DataId → Int} (hq : FeedsBlocks k dim q) {i : DataId}
    {d : DataItem} (hd : k.data[i]? = some d) (hi : d.iterative = true) : feedAt k dim i ∣ q i := by
  obtain ⟨ds, ho⟩ := ht.ordered
  refine ho.backward (P := fun j => feedAt k dim j ∣ q j) ht.wellFormed ht.valid
    (fun j hj hback => ?_) i ((ho.mem_iff i).mpr ⟨d, hd, hi⟩)
  obtain ⟨d, hd, hi⟩ := (ho.mem_iff j).mp hj
  refine (ht.feed_dvd_iff hf hdim hd hi).mpr fun s hs => ?_
  rcases List.mem_append.mp hs with hs | hs
  · obtain ⟨e, he, rfl⟩ := List.mem_map.mp hs
    obtain ⟨hmem, rfl⟩ := (ht.wellFormed.mem_usersOf_iff hd).mp he
    obtain ⟨n, hn⟩ := ht.wellFormed.exists_target hmem
    have hO := ht.valid.outStride_pos hn dim
    have hblocks := ht.outStride_dvd_feed hf hdim hn
    rw [ht.needed_eq hf hdim hmem hn, ceilDiv_of_dvd hO hblocks]
    exact (ediv_mul_dvd hblocks (hback _ (feeds_of_mem_usersOf ht.wellFormed hd he hn))).trans
      (hq.source e hmem n hn)
  · simp only [Option.mem_toList, Option.map_eq_some_iff] at hs
    obtain ⟨n, hn, rfl⟩ := hs
    obtain ⟨hn, rfl⟩ := ht.wellFormed.output_of_producerOf hd hn
    exact hq.output n (List.mem_of_getElem? hn)

theorem yieldsBlocks (hc : ∀ {i d}, k.data[i]? = some d → d.iterative = false → tileAt k i = {}) :
    YieldsBlocks k dim (feedAt k dim) (grainAt k dim) where
  feed d hd := by
    have hget := ht.wellFormed.getElem?_id hd
    cases hi : d.iterative with
    | true => exact ht.feed_dvd_grain hf hdim hget hi
    | false =>
      rw [feedAt, hc hget hi]
      exact one_dvd _
  output e he n hn := (ht.output_grain_dvd_iff hf hdim he hn).mp dvd_rfl e
    ((ht.wellFormed.mem_inputEdges_iff hn).mpr ⟨he, rfl⟩)

/-- Grains divide whatever holds what the readers make of it; the induction runs with the
flow. -/
theorem grain_dvd_of_yieldsBlocks {g : DataId → Int} (hg : YieldsBlocks k dim (feedAt k dim) g)
    {i : DataId} {d : DataItem} (hd : k.data[i]? = some d) (hi : d.iterative = true) :
    grainAt k dim i ∣ g i := by
  obtain ⟨ds, ho⟩ := ht.ordered
  refine ho.forward (P := fun j => grainAt k dim j ∣ g j) ht.wellFormed ht.valid
    (fun j hj hback => ?_) i ((ho.mem_iff i).mpr ⟨d, hd, hi⟩)
  obtain ⟨d, hd, hi⟩ := (ho.mem_iff j).mp hj
  refine (ht.grain_dvd_iff hf hdim hd hi).mpr ⟨?_, fun s hs => ?_⟩
  · exact ht.wellFormed.data_id hd ▸ hg.feed d (List.mem_of_getElem? hd)
  · rw [grainOperands] at hs
    split at hs
    · next n hp =>
      obtain ⟨e, he, rfl⟩ := List.mem_map.mp hs
      have hfeeds := feeds_of_mem_inputEdges ht.wellFormed hd hp he
      obtain ⟨hn, rfl⟩ := ht.wellFormed.output_of_producerOf hd hp
      obtain ⟨hmem, htarget⟩ := (ht.wellFormed.mem_inputEdges_iff hn).mp he
      rw [← htarget] at hn
      have hI := ht.valid.inStride_pos hn dim
      have hblocks := ht.inStride_dvd_grain hf hdim hmem hn
      rw [ht.yielded_eq hf hdim hmem hn, ceilDiv_of_dvd hI hblocks]
      exact (ediv_mul_dvd hblocks (hback _ hfeeds)).trans (hg.output e hmem n hn)
    · cases hs

theorem grain_of_single {j : NodeId} {n : Node} (hn : k.nodes[j]? = some n) {e : Edge}
    (he : k.inputEdges n = [e]) :
    grainAt k dim e.source / n.inStride.get dim * n.outStride.get dim = grainAt k dim n.output := by
  obtain ⟨hmem, rfl⟩ := (ht.wellFormed.mem_inputEdges_iff hn).mp (he ▸ List.mem_singleton_self e)
  obtain ⟨s, hs⟩ := ht.wellFormed.exists_source hmem
  obtain ⟨o, ho⟩ := ht.wellFormed.exists_output hn
  have hsource := ht.grain_pos hf hdim hs (ht.valid.source_iterative hmem hs)
  have houtput := ht.grain_pos hf hdim ho (ht.wellFormed.iterative_output hn ho)
  have hI := ht.valid.inStride_pos hn dim
  have hO := ht.valid.outStride_pos hn dim
  have hdvd (m : Int) := ht.output_grain_dvd_iff hf hdim hmem hn (m := m)
  simp only [he, List.mem_singleton, forall_eq] at hdvd
  exact Int.dvd_antisymm (mul_nonneg (Int.ediv_nonneg hsource.le hI.le) hO.le) houtput.le
    ((hdvd _).mp dvd_rfl) ((hdvd _).mpr dvd_rfl)

theorem output_rate_mul_stride {j : NodeId} {n : Node} (hn : k.nodes[j]? = some n) :
    (tileAt k n.output).rate.get dim * n.outStride.get dim = grainAt k dim n.output := by
  obtain ⟨o, ho⟩ := ht.wellFormed.exists_output hn
  have hrate := ht.rate_mul_stride hf hdim ho (ht.wellFormed.iterative_output hn ho)
  rwa [ht.wellFormed.producerOf_output hn ho] at hrate

theorem rate_pos {i : DataId} {d : DataItem} (hd : k.data[i]? = some d) (hi : d.iterative = true) :
    0 < (tileAt k i).rate.get dim := by
  have hgrain := ht.grain_pos hf hdim hd hi
  rw [← ht.rate_mul_stride hf hdim hd hi] at hgrain
  refine pos_of_mul_pos_left hgrain ?_
  cases hp : k.producerOf d with
  | none => exact Int.zero_le_ofNat 1
  | some n => exact (ht.valid.outStride_pos (ht.wellFormed.output_of_producerOf hd hp).1 dim).le

theorem leastGrains (hc : ∀ {i d}, k.data[i]? = some d → d.iterative = false → tileAt k i = {}) :
    LeastGrains k dim where
  pos d hd := by
    have hget := ht.wellFormed.getElem?_id hd
    cases hi : d.iterative with
    | true => exact ⟨ht.feed_pos hf hdim hget hi, ht.grain_pos hf hdim hget hi, ht.rate_pos hf hdim hget hi⟩
    | false =>
      rw [feedAt, grainAt, hc hget hi]
      exact ⟨le_rfl, le_rfl, le_rfl⟩
  inStride e he n hn := ⟨ht.inStride_dvd_feed hf hdim he hn, ht.inStride_dvd_grain hf hdim he hn⟩
  outStride n hn := by
    obtain ⟨j, hj⟩ := List.mem_iff_getElem?.mp hn
    exact ⟨ht.outStride_dvd_feed hf hdim hj, ht.outStride_dvd_grain hf hdim hj⟩
  feeds := ht.feedsBlocks hf hdim
  yields := ht.yieldsBlocks hf hdim hc
  single n hn e he := by
    obtain ⟨j, hj⟩ := List.mem_iff_getElem?.mp hn
    exact ht.grain_of_single hf hdim hj he
  rate n hn := by
    obtain ⟨j, hj⟩ := List.mem_iff_getElem?.mp hn
    exact ht.output_rate_mul_stride hf hdim hj
  feed_least q hq d hd := by
    have hget := ht.wellFormed.getElem?_id hd
    cases hi : d.iterative with
    | true => exact ht.feed_dvd_of_feedsBlocks hf hdim hq hget hi
    | false =>
      rw [feedAt, hc hget hi]
      exact one_dvd _
  grain_least g hg d hd := by
    have hget := ht.wellFormed.getElem?_id hd
    cases hi : d.iterative with
    | true => exact ht.grain_dvd_of_yieldsBlocks hf hdim hg hget hi
    | false =>
      rw [grainAt, hc hget hi]
      exact one_dvd _

end Tiled

/-! ### The pass -/

/-- The tile pass completes exactly if no item has a cycle yet, and the grains it records are
the least that never split a block, as long as no common multiple leaves the word. -/
theorem grains_whole_blocks {k : Kernel} {order : List NodeId} (hb : k.Built)
    (hv : k.validate = .ok ()) (ho : Linearizes k order) :
    ((∃ k', analyzeTiles order k = (.ok (), k')) ↔ ∀ d ∈ k.data, d.note.stage = .unscheduled) ∧
    ∀ k', analyzeTiles order k = (.ok (), k') → k.SameGraph k' ∧
      (GrainsFit k' → ∀ dim < k.rank, LeastGrains k' dim) := by
  have h := hb.wellFormed
  have hvalid := Kernel.valid_of_validate h hv
  have hto := (linearizes_iff h).mp ho
  refine ⟨analyzeTiles_completes_iff h hvalid hto, fun k' hrun => ?_⟩
  obtain ⟨hkeeps, ht⟩ := analyzeTiles_tiled h hvalid hto hrun
  refine ⟨hkeeps.sameGraph, fun hf dim hdim => ?_⟩
  refine ht.leastGrains hf (hkeeps.sameGraph.rank_eq ▸ hdim) fun {i d'} hd' hi => ?_
  obtain ⟨d, hd, hreset⟩ := hkeeps.exists_item hd'
  exact (analyzeTiles_data h hvalid hto hrun hd).2.2 ((congrArg (·.iterative) hreset).symm.trans hi)

/-- Takes every second and every third pixel of an image and combines them. -/
def sieving : Kernel :=
  .ofDeclarations "sieving"
    [.input "a" .float [.fixed 24], .data "b" .float [.fixed 12], .data "c" .float [.fixed 8],
      .output "o" .float [.fixed 12],
      .node {} { name := "half", output := 1, inStride := some ⟨[2]⟩,
                 inputs := [⟨0, ⟨[⟨0, 1⟩]⟩, .undef⟩] },
      .node {} { name := "third", output := 2, inStride := some ⟨[3]⟩,
                 inputs := [⟨0, ⟨[⟨0, 2⟩]⟩, .undef⟩] },
      .node {} { name := "join", output := 3,
                 inputs := [⟨1, ⟨[⟨0, 0⟩]⟩, .undef⟩, ⟨2, ⟨[⟨0, 0⟩]⟩, .undef⟩] }]

/-- Six pixels of the image are three of one part and two of the other, and it takes two and
three of these to make whole grains of the result. -/
theorem grains_whole_blocks_sieving :
    ∃ k', analyzeTiles [1, 0, 2] sieving = (.ok (), k') ∧
      k'.data.map (fun d => (feedAt k' 0 d.id, grainAt k' 0 d.id)) = [(6, 6), (1, 3), (1, 2), (1, 6)] ∧
      (∀ q, FeedsBlocks k' 0 q → 6 ∣ q 0) ∧
      ∀ g, YieldsBlocks k' 0 (feedAt k' 0) g → 6 ∣ g 3 := by
  have hbuilt : sieving.Built := Kernel.built_ofDeclarations _ _
  have horder : Linearizes sieving [1, 0, 2] :=
    linearizes_of_forall hbuilt.wellFormed (by decide +kernel) (by decide +kernel)
  obtain ⟨hcompletes, hgrains⟩ := grains_whole_blocks hbuilt (by decide +kernel) horder
  obtain ⟨k', hrun⟩ := hcompletes.mpr (by decide +kernel)
  obtain ⟨-, hleast⟩ := hgrains k' hrun
  obtain rfl : (analyzeTiles [1, 0, 2] sieving).2 = k' := by rw [hrun]
  have hgrains := hleast (by decide +kernel) 0 (by decide +kernel)
  have hfacts : ∃ a ∈ (analyzeTiles [1, 0, 2] sieving).2.data,
      ∃ o ∈ (analyzeTiles [1, 0, 2] sieving).2.data, (a.id = 0 ∧ o.id = 3) ∧
        feedAt (analyzeTiles [1, 0, 2] sieving).2 0 0 = 6 ∧
          grainAt (analyzeTiles [1, 0, 2] sieving).2 0 3 = 6 := by
    decide +kernel
  obtain ⟨a, ha, o, ho, hids, hfeed, hgrain⟩ := hfacts
  refine ⟨_, hrun, by decide +kernel, fun q hq => ?_, fun g hg => ?_⟩
  · have hdvd := hgrains.feed_least q hq a ha
    rwa [hids.1, hfeed] at hdvd
  · have hdvd := hgrains.grain_least g hg o ho
    rwa [hids.2, hgrain] at hdvd

end StencilTiling.Analysis
