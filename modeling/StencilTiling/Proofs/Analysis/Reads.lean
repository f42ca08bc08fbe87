import StencilTiling.Proofs.Analysis.Slices

/-! What the nodes of an analysed kernel read. A grain of an output is made of whole
grains of every source, and of one grain of a source exactly if the grains of all
sources of the node divide the grain of this one. Where one grain answers to one grain,
the pixels that the executions of a part read, and that lie in the image at all, lie in
the full slice of this part: the halo of the source holds the halo of the output and
the read window. Grains that leave the word lose this. -/

namespace StencilTiling.Analysis

open StencilTiling.Arith StencilTiling.Geometry

/-! ### Grains across an edge -/

/-- The tile pass completes on a fresh kernel. Unless a least common multiple leaves the
word, the grain of an output is whole grains of each source, and it is one grain of a
source exactly if the grains of all sources of the node divide the grain of this one. -/
theorem grain_correspondence {k : Kernel} (hb : k.Built) (hv : k.validate = .ok ())
    {order : List NodeId} (ho : topologicalOrder k = .ok order)
    (hs : ∀ d ∈ k.data, d.note.stage = .unscheduled) :
    ∃ k', analyzeTiles order k = (.ok (), k') ∧
      (GrainsFit k' → ∀ e ∈ k.edges, ∀ n, k.nodes[e.target]? = some n → ∀ dim < k.rank,
        grainAt k' dim e.source * n.outStride.get dim ∣
            grainAt k' dim n.output * n.inStride.get dim ∧
          (grainAt k' dim e.source * n.outStride.get dim =
              grainAt k' dim n.output * n.inStride.get dim ↔
            ∀ e' ∈ k.inputEdges n, grainAt k' dim e'.source ∣ grainAt k' dim e.source)) := by
  have hw := hb.wellFormed
  obtain ⟨k', hrun, hkeeps, ht⟩ :=
    analyzeTiles_eq_ok hw (Kernel.valid_of_validate hw hv) (topological_of_eq_ok hw ho) hs
  refine ⟨k', hrun, fun hf e he n hn dim hdim => ?_⟩
  rw [← hkeeps.edges] at he
  rw [← hkeeps.nodes] at hn
  rw [← hkeeps.sameGraph.rank_eq] at hdim
  have hinputs : k'.inputEdges n = k.inputEdges n := by
    rw [Kernel.inputEdges, Kernel.inputEdges, hkeeps.edges]
  rw [← hinputs]
  exact ⟨ht.grain_mul_outStride_dvd hf hdim he hn, ht.grain_mul_outStride_iff hf hdim he hn⟩

/-- Adds two images, of which the first is also halved: its grain is two, that of the
second one. -/
def joining : Kernel :=
  .ofDeclarations "joining"
    [.input "a" .float [.fixed 24], .input "b" .float [.fixed 24], .output "o" .float [.fixed 24],
      .output "p" .float [.fixed 12],
      .node {} { name := "join", output := 2,
                 inputs := [⟨0, ⟨[⟨0, 0⟩]⟩, .undef⟩, ⟨1, ⟨[⟨0, 0⟩]⟩, .undef⟩] },
      .node {} { name := "half", output := 3, inStride := some ⟨[2]⟩,
                 inputs := [⟨0, ⟨[⟨0, 1⟩]⟩, .undef⟩] }]

/-- The second image of the sum has half the grain of the result. -/
theorem joining_grains_differ :
    ∃ k', analyzeTiles [0, 1] joining = (.ok (), k') ∧ GrainsFit k' ∧
      grainAt k' 0 1 = 1 ∧ grainAt k' 0 2 = 2 ∧
      ∃ e ∈ joining.edges, ∃ n, joining.nodes[e.target]? = some n ∧ e.source = 1 ∧ n.output = 2 ∧
        grainAt k' 0 e.source * n.outStride.get 0 ≠ grainAt k' 0 n.output * n.inStride.get 0 := by
  obtain ⟨k', hrun, hgrain⟩ := grain_correspondence (k := joining) (Kernel.built_ofDeclarations _ _)
    (by decide +kernel) (show topologicalOrder joining = .ok [0, 1] by decide +kernel)
    (by decide +kernel)
  obtain rfl : (analyzeTiles [0, 1] joining).2 = k' := by rw [hrun]
  have hf : GrainsFit (analyzeTiles [0, 1] joining).2 := by decide +kernel
  refine ⟨_, hrun, hf, by decide +kernel, by decide +kernel,
    joining.edges.get ⟨1, by decide +kernel⟩, by decide +kernel,
    joining.nodes.get ⟨0, by decide +kernel⟩, by decide +kernel, by decide +kernel,
    by decide +kernel, ?_⟩
  rw [Ne, (hgrain hf _ (by decide +kernel) _ (by decide +kernel) 0 (by decide +kernel)).2]
  decide +kernel

/-! ### Reads of a part -/

section Reads

variable {k : Kernel} (hk : Scheduled k) {e : Edge} (he : e ∈ k.edges) {n : Node}
  (hn : k.nodes[e.target]? = some n) {s o : DataItem} (hs : k.data[e.source]? = some s)
  (ho : k.data[n.output]? = some o) {dim : Nat} (hdim : dim < k.rank)
  (hgrain : grainAt k dim e.source * n.outStride.get dim =
    grainAt k dim n.output * n.inStride.get dim)

include hk hn ho hdim hgrain hs he

/-- The executions of one output grain step over one source grain. -/
theorem rate_mul_inStride : (tileOf o).rate.get dim * n.inStride.get dim = (tileOf s).grain.get dim := by
  have hO := hk.tiled.valid.outStride_pos hn dim
  have hiter := hk.tiled.wellFormed.iterative_output hn ho
  have hrate := hk.tiled.rate_mul_stride hk.fit hdim ho hiter
  rw [hk.tiled.wellFormed.producerOf_output hn ho, Option.map_some, Option.getD_some] at hrate
  rw [hk.tileOf_eq ho hiter, hk.tileOf_eq hs (hk.tiled.valid.source_iterative he hs)]
  refine mul_right_cancel₀ hO.ne' ?_
  rw [mul_right_comm, hrate, ← hgrain, grainAt]

/-- The halo of the source holds the halo of the output and the read window. -/
theorem halo_reads (hh : HalosFit k dim) {part extent extent' : Int}
    (hlo : 0 ≤ (cutOf k s dim part extent).lo) (hlo' : 0 ≤ (cutOf k o dim part extent').lo) :
    (cutOf k o dim part extent').lo * (tileOf s).grain.get dim - e.read.first dim ≤
        (cutOf k s dim part extent).lo * (tileOf s).grain.get dim ∧
      (cutOf k o dim part extent').hi * (tileOf s).grain.get dim +
          (e.read.last dim + 1 - n.inStride.get dim) ≤
        (cutOf k s dim part extent).hi * (tileOf s).grain.get dim := by
  have hO := hk.tiled.valid.outStride_pos hn dim
  have hsi := hk.tiled.valid.source_iterative he hs
  have hoi := hk.tiled.wellFormed.iterative_output hn ho
  obtain ⟨hsfirst, hslast⟩ := hk.halo_grains hs hsi (hk.tiled.valid.rank_eq hs hsi ▸ hdim) hh hlo
  obtain ⟨hofirst, holast⟩ := hk.halo_grains ho hoi (hk.tiled.valid.rank_eq ho hoi ▸ hdim) hh hlo'
  obtain ⟨hbefore, hafter⟩ := hk.tiled.halo_covers hh he hn
  rw [grainAt, grainAt] at hgrain
  rw [haloAt, haloAt] at hbefore hafter
  rw [← hk.tileOf_eq hs hsi, ← hk.tileOf_eq ho hoi] at hgrain hbefore hafter
  simp only [Window.first, Window.last] at hsfirst hslast hofirst holast hbefore hafter ⊢
  have hscale : ∀ x, x * (tileOf o).grain.get dim * n.inStride.get dim =
      x * (tileOf s).grain.get dim * n.outStride.get dim := fun x => by
    rw [mul_assoc, ← hgrain, mul_assoc]
  rw [hsfirst, hofirst, ← neg_mul, ← neg_mul, hscale, floorDiv, Int.mul_ediv_cancel _ hO.ne',
    neg_mul, neg_mul] at hbefore
  rw [hslast, holast, hscale, ceilDiv_mul_self hO] at hafter
  exact ⟨by omega, hafter⟩

/-- What an execution of a padded part reads lies in the padded part of the source. -/
theorem read_mem_padded (hh : HalosFit k dim) (hparts : partsOf k dim ≠ 1)
    {part extent extent' b j : Int} (hlo : 0 ≤ (cutOf k s dim part extent).lo)
    (hlo' : 0 ≤ (cutOf k o dim part extent').lo)
    (hb : ((cutOf k o dim part extent').pos - (cutOf k o dim part extent').lo) *
      (tileOf o).rate.get dim ≤ b)
    (hb' : b < ((cutOf k o dim part extent').pos + (cutOf k o dim part extent').slice +
      (cutOf k o dim part extent').hi) * (tileOf o).rate.get dim)
    (hj : e.read.first dim ≤ j) (hj' : j ≤ e.read.last dim) :
    ((cutOf k s dim part extent).pos - (cutOf k s dim part extent).lo) *
        (tileOf s).grain.get dim ≤ b * n.inStride.get dim + j ∧
      b * n.inStride.get dim + j < ((cutOf k s dim part extent).pos +
        (cutOf k s dim part extent).slice + (cutOf k s dim part extent).hi) *
          (tileOf s).grain.get dim := by
  have hI := hk.tiled.valid.inStride_pos hn dim
  obtain ⟨hbefore, hafter⟩ := halo_reads hk he hn hs ho hdim hgrain hh hlo hlo'
  have hfirst := mul_le_mul_of_nonneg_right hb hI.le
  have hlast := mul_le_mul_of_nonneg_right (Int.add_one_le_iff.mpr hb') hI.le
  rw [mul_assoc, rate_mul_inStride hk he hn hs ho hdim hgrain] at hfirst hlast
  simp only [pos_cutOf hparts, slice_cutOf hparts, sub_mul, add_mul, one_mul] at hfirst hlast ⊢
  omega

/-- What an execution in the full slice of a part reads of the image is in the full slice of
this part of the source. -/
theorem read_mem_fullSlice (hh : HalosFit k dim) {part extent extent' b j : Int}
    (hsource : (cutOf k s dim part extent).Proper) (houtput : (cutOf k o dim part extent').Proper)
    (hb : (cutOf k o dim part extent').value .fullSlicePosition .block ≤ b)
    (hb' : b < (cutOf k o dim part extent').value .fullSlicePosition .block +
      (cutOf k o dim part extent').value .fullSliceSize .block)
    (hj : e.read.first dim ≤ j) (hj' : j ≤ e.read.last dim)
    (h0 : 0 ≤ b * n.inStride.get dim + j) (hlt : b * n.inStride.get dim + j < extent) :
    (cutOf k s dim part extent).value .fullSlicePosition .pixel ≤ b * n.inStride.get dim + j ∧
      b * n.inStride.get dim + j < (cutOf k s dim part extent).value .fullSlicePosition .pixel +
        (cutOf k s dim part extent).value .fullSliceSize .pixel := by
  refine (hsource.mem_fullSlice_iff _).mpr ⟨?_, h0, hlt⟩
  by_cases hparts : partsOf k dim = 1
  · -- the only slice is the whole image
    have hlo := mul_nonneg hsource.lo_nonneg hsource.grain_pos.le
    have hhi := mul_nonneg hsource.hi_nonneg hsource.grain_pos.le
    have hwhole : extent ≤ ceilDiv extent ((tileOf s).grain.get dim) * (tileOf s).grain.get dim :=
      hsource.toSliced.extent_le_grains_mul
    rw [pos_cutOf_one hparts, slice_cutOf_one hparts, zero_sub, zero_add, neg_mul, add_mul]
    exact ⟨(neg_nonpos.mpr hlo).trans h0, hlt.trans_le (hwhole.trans (le_add_of_nonneg_right hhi))⟩
  · obtain ⟨hge, hle⟩ := houtput.block_of_mem_fullSlice hb hb'
    exact read_mem_padded hk he hn hs ho hdim hgrain hh hparts hsource.lo_nonneg
      houtput.lo_nonneg hge hle hj hj'

end Reads

/-- The executions of a part read inside of the full slice of their part, along every
dimension where one source grain makes one output grain; a node with one source has
this property. -/
theorem reads_within_full_slice {k : Kernel} {device : Device} {config : TilingConfig}
    {diag : Diagnostics} {r : Result} (hb : k.Built) (hr : analyze k device config diag = r)
    (hready : r.ready = true) (htiles : TilesFit r.kernel) {e : Edge} (he : e ∈ r.kernel.edges)
    {n : Node} (hn : r.kernel.nodes[e.target]? = some n) {s o : DataItem}
    (hs : r.kernel.data[e.source]? = some s) (ho : r.kernel.data[n.output]? = some o) {dim : Nat}
    (hdim : dim < r.kernel.rank) :
    ((∀ e' ∈ r.kernel.inputEdges n, e'.source = e.source) →
      (tileOf s).grain.get dim * n.outStride.get dim =
        (tileOf o).grain.get dim * n.inStride.get dim) ∧
    ((tileOf s).grain.get dim * n.outStride.get dim =
        (tileOf o).grain.get dim * n.inStride.get dim →
      ∀ (part : Int) (extents : DataId → Int), 0 ≤ part → 0 ≤ runExtent s dim extents →
        0 ≤ runExtent o dim extents →
        (cutOf r.kernel s dim part (runExtent s dim extents)).Fits →
        (cutOf r.kernel o dim part (runExtent o dim extents)).Fits →
        ∃ blocks count pixels length,
          coordinate o ⟨dim, .fullSlicePosition, .block⟩ part extents = some blocks ∧
          coordinate o ⟨dim, .fullSliceSize, .block⟩ part extents = some count ∧
          coordinate s ⟨dim, .fullSlicePosition, .pixel⟩ part extents = some pixels ∧
          coordinate s ⟨dim, .fullSliceSize, .pixel⟩ part extents = some length ∧
          ∀ b, blocks ≤ b → b < blocks + count →
            ∀ j, e.read.first dim ≤ j → j ≤ e.read.last dim →
              0 ≤ b * n.inStride.get dim + j →
              b * n.inStride.get dim + j < runExtent s dim extents →
              pixels ≤ b * n.inStride.get dim + j ∧
                b * n.inStride.get dim + j < pixels + length) := by
  subst hr
  have hk := scheduled_of_ready hb hready htiles.grains
  have hsi := hk.tiled.valid.source_iterative he hs
  have hoi := hk.tiled.wellFormed.iterative_output hn ho
  have hsdim := hk.tiled.valid.rank_eq hs hsi ▸ hdim
  have hodim := hk.tiled.valid.rank_eq ho hoi ▸ hdim
  have hiff := hk.tiled.grain_mul_outStride_iff hk.fit hdim he hn
  rw [hk.tileOf_eq hs hsi, hk.tileOf_eq ho hoi]
  refine ⟨fun hsame => hiff.mpr fun e' he' => hsame e' he' ▸ dvd_rfl,
    fun hgrain part extents hpart hN hN' hfit hfit' => ⟨_, _, _, _,
      hk.coordinate_eq ho hoi hodim hpart hN' hfit' _ _,
      hk.coordinate_eq ho hoi hodim hpart hN' hfit' _ _,
      hk.coordinate_eq hs hsi hsdim hpart hN hfit _ _,
      hk.coordinate_eq hs hsi hsdim hpart hN hfit _ _, ?_⟩⟩
  intro b hge hlt j hj hj' h0 hin
  exact read_mem_fullSlice hk he hn hs ho hdim hgrain (htiles.halos dim hdim)
    ((hk.sliced hs hsi hsdim hpart hN).proper hfit) ((hk.sliced ho hoi hodim hpart hN').proper hfit')
    hge hlt hj hj' h0 hin

/-- The halving in its second part, where it reads into the halo on both sides. -/
theorem reads_within_rescaled :
    ∃ e ∈ rescaled.kernel.edges, ∃ n s o, rescaled.kernel.nodes[e.target]? = some n ∧
      rescaled.kernel.data[e.source]? = some s ∧ rescaled.kernel.data[n.output]? = some o ∧
      ∃ blocks count pixels length,
        coordinate o ⟨0, .fullSlicePosition, .block⟩ 1 (fun _ => 19) = some blocks ∧
        coordinate o ⟨0, .fullSliceSize, .block⟩ 1 (fun _ => 19) = some count ∧
        coordinate s ⟨0, .fullSlicePosition, .pixel⟩ 1 (fun _ => 19) = some pixels ∧
        coordinate s ⟨0, .fullSliceSize, .pixel⟩ 1 (fun _ => 19) = some length ∧
        ∀ b, blocks ≤ b → b < blocks + count →
          ∀ j, e.read.first 0 ≤ j → j ≤ e.read.last 0 → 0 ≤ b * n.inStride.get 0 + j →
            b * n.inStride.get 0 + j < (runExtent s 0 fun _ => 19) →
            pixels ≤ b * n.inStride.get 0 + j ∧ b * n.inStride.get 0 + j < pixels + length := by
  have h := reads_within_full_slice (e := rescaled.kernel.edges.get ⟨0, by decide +kernel⟩)
    (n := rescaled.kernel.nodes.get ⟨0, by decide +kernel⟩)
    (s := rescaled.kernel.data.get ⟨1, by decide +kernel⟩)
    (o := rescaled.kernel.data.get ⟨2, by decide +kernel⟩)
    built_rescaling analyze_rescaling (by decide +kernel) (by decide +kernel) (by decide +kernel)
    (by decide +kernel) (by decide +kernel) (by decide +kernel)
    (show 0 < rescaled.kernel.rank by decide +kernel)
  exact ⟨_, by decide +kernel, _, _, _, by decide +kernel, by decide +kernel, by decide +kernel,
    h.2 (h.1 (by decide +kernel)) 1 (fun _ => 19) (by decide +kernel) (by decide +kernel)
      (by decide +kernel) (by decide +kernel) (by decide +kernel)⟩

/-- Strides whose least common multiple, a multiple of both `2 ^ 32` and `2 ^ 32 - 1`, is
more than a word holds. -/
def overflowing : Kernel :=
  .ofDeclarations "overflowing"
    [.input "a" .float [.fixed 8], .data "b" .float [.fixed 8], .output "o" .float [.fixed 8],
      .output "q" .float [.fixed 8],
      .node {} { name := "f", output := 1, inStride := some ⟨[2]⟩, outStride := some ⟨[2]⟩,
                 inputs := [⟨0, ⟨[⟨0, 1⟩]⟩, .undef⟩] },
      .node {} { name := "g", output := 2, inStride := some ⟨[4294967295]⟩,
                 inputs := [⟨1, ⟨[⟨0, 4294967294⟩]⟩, .undef⟩] },
      .node {} { name := "h", output := 3, inStride := some ⟨[4294967296]⟩,
                 inputs := [⟨0, ⟨[⟨0, 4294967295⟩]⟩, .undef⟩] }]

def overflowed : Result :=
  analyze overflowing { units := 4 } { mode := .workGroupSlicing } (.new 5 0)

/-- The grains of a node with one source answer to each other, but they are truncated: in its
second part it executes block two, which reads pixel four, and the source holds pixels two
and three. -/
theorem reads_outside_full_slice :
    overflowing.Built ∧ overflowed.ready = true ∧ ¬ GrainsFit overflowed.kernel ∧
      1 < partsOf overflowed.kernel 0 ∧
      ∃ e ∈ overflowed.kernel.edges, ∃ n s o, overflowed.kernel.nodes[e.target]? = some n ∧
        overflowed.kernel.data[e.source]? = some s ∧ overflowed.kernel.data[n.output]? = some o ∧
        overflowed.kernel.inputEdges n = [e] ∧
        (tileOf s).grain.get 0 * n.outStride.get 0 = (tileOf o).grain.get 0 * n.inStride.get 0 ∧
        runExtent s 0 (fun _ => 0) = 8 ∧ runExtent o 0 (fun _ => 0) = 8 ∧
        coordinate o ⟨0, .fullSlicePosition, .block⟩ 1 (fun _ => 0) = some 2 ∧
        coordinate o ⟨0, .fullSliceSize, .block⟩ 1 (fun _ => 0) = some 1 ∧
        e.read.first 0 = 0 ∧ e.read.last 0 = 1 ∧ 2 * n.inStride.get 0 + 0 = 4 ∧
        coordinate s ⟨0, .fullSlicePosition, .pixel⟩ 1 (fun _ => 0) = some 2 ∧
        coordinate s ⟨0, .fullSliceSize, .pixel⟩ 1 (fun _ => 0) = some 2 := by
  refine ⟨Kernel.built_ofDeclarations _ _, by decide +kernel, by decide +kernel, by decide +kernel,
    overflowed.kernel.edges.get ⟨0, by decide +kernel⟩, by decide +kernel,
    overflowed.kernel.nodes.get ⟨0, by decide +kernel⟩,
    overflowed.kernel.data.get ⟨0, by decide +kernel⟩,
    overflowed.kernel.data.get ⟨1, by decide +kernel⟩, ?_⟩
  decide +kernel

end StencilTiling.Analysis
