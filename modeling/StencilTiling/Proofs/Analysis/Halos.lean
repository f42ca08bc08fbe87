import StencilTiling.Proofs.Analysis.Grains

/-! Halos hold what is read. Running the executions of a node that write into some
blocks, extended by the halo of its output, reads inside of the same blocks of each
source, extended by the halo of the source. Step by step this leads from the slice of an
item to everything the slice is computed from. A halo is the least window of whole grains
around zero for which its readers are served. The halos have to be computed in words for
this, and the halo of an output has to be whole blocks, which a grain cut to a negative
number does not give. -/

namespace StencilTiling.Analysis

open StencilTiling.Arith

/-! ### Serving an edge -/

/-- For all blocks `[a, b)`: what the executions read that write into these blocks of the
output, extended by the halo `out`, lies in these blocks of the source, extended by the
halo `source`. -/
def Serves (n : Node) (dim : Nat) (read out source : Span) : Prop :=
  ∀ a b pixel j r, a < b →
    a * n.outStride.get dim + out.first ≤ pixel → pixel ≤ b * n.outStride.get dim - 1 + out.last →
    j * n.outStride.get dim ≤ pixel → pixel < (j + 1) * n.outStride.get dim →
    read.first ≤ r → r ≤ read.last →
      a * n.inStride.get dim + source.first ≤ j * n.inStride.get dim + r ∧
        j * n.inStride.get dim + r ≤ b * n.inStride.get dim - 1 + source.last

section Serves

variable {n : Node} {dim : Nat} {read out source : Span} (hO : 0 < n.outStride.get dim) {x y : Int}
  (hfirst : out.first = x * n.outStride.get dim) (hlast : out.last = y * n.outStride.get dim)

include hO hfirst hlast

/-- Halos of whole blocks are read like blocks. -/
theorem serves_of_le (hI : 0 < n.inStride.get dim)
    (hbefore : source.first ≤ x * n.inStride.get dim + read.first)
    (hafter : y * n.inStride.get dim + (read.last + 1 - n.inStride.get dim) ≤ source.last) :
    Serves n dim read out source := by
  intro a b pixel j r _ hpixel hpixel' hj hj' hr hr'
  rw [hfirst, ← add_mul] at hpixel
  rw [hlast, sub_add_eq_add_sub, ← add_mul] at hpixel'
  have hjx : a + x < j + 1 := lt_of_mul_lt_mul_right (hpixel.trans_lt hj') hO.le
  have hjy : j < b + y := lt_of_mul_lt_mul_right (hj.trans_lt (by omega)) hO.le
  have hlow := mul_le_mul_of_nonneg_right (Int.lt_add_one_iff.mp hjx) hI.le
  have hhigh := mul_le_mul_of_nonneg_right (Int.le_sub_one_of_lt hjy) hI.le
  rw [add_mul] at hlow
  rw [sub_mul, add_mul, one_mul] at hhigh
  omega

/-- The blocks `[0, 1)` show that nothing less serves. -/
theorem le_of_serves (hx : x ≤ 0) (hy : 0 ≤ y) (hread : read.first ≤ read.last)
    (hs : Serves n dim read out source) :
    source.first ≤ x * n.inStride.get dim + read.first ∧
      y * n.inStride.get dim + (read.last + 1 - n.inStride.get dim) ≤ source.last := by
  have hxO : x * n.outStride.get dim ≤ 0 := mul_nonpos_of_nonpos_of_nonneg hx hO.le
  have hyO : 0 ≤ y * n.outStride.get dim := mul_nonneg hy hO.le
  constructor
  · have := (hs 0 1 out.first x read.first one_pos (by omega) (by omega) hfirst.ge
      (by rw [add_one_mul]; omega) le_rfl hread).1
    rwa [zero_mul, zero_add] at this
  · have := (hs 0 1 (n.outStride.get dim - 1 + out.last) y read.last one_pos (by omega) (by omega)
      (by omega) (by rw [add_one_mul]; omega) hread le_rfl).2
    omega

end Serves

/-! ### Recorded halos -/

/-- A window around zero of whole grains of an item for which all readers of the item are
served, given the halos of what they write. -/
structure ServesUsers (k : Kernel) (dim : Nat) (d : DataItem) (w : Span) : Prop where
  zero : w.first ≤ 0 ∧ 0 ≤ w.last
  grains : grainAt k dim d.id ∣ w.first ∧ grainAt k dim d.id ∣ w.last
  users : ∀ e ∈ k.usersOf d, ∀ n ∈ k.nodes[e.target]?,
    Serves n dim (e.read.span dim) (haloAt k dim n.output) w

/-- The pixels that a slice `[lo, hi)` of an item, extended by its halo, is computed from:
item, slice of this item and pixel. -/
inductive Traces (k : Kernel) (dim : Nat) (last : DataId) (lo hi : Int) :
    DataId → Int → Int → Int → Prop
  | slice {pixel : Int} : lo + (haloAt k dim last).first ≤ pixel →
      pixel ≤ hi - 1 + (haloAt k dim last).last → Traces k dim last lo hi last lo hi pixel
  | read {e : Edge} {n : Node} {a b pixel j r : Int} : e ∈ k.edges → k.nodes[e.target]? = some n →
      a < b →
      Traces k dim last lo hi n.output (a * n.outStride.get dim) (b * n.outStride.get dim) pixel →
      j * n.outStride.get dim ≤ pixel → pixel < (j + 1) * n.outStride.get dim →
      e.read.first dim ≤ r → r ≤ e.read.last dim →
      Traces k dim last lo hi e.source (a * n.inStride.get dim) (b * n.inStride.get dim)
        (j * n.inStride.get dim + r)

namespace Tiled

variable {k : Kernel} (ht : Tiled k) {dim : Nat} (hh : HalosFit k dim)

include ht hh

/-- A halo is whole grains, also of a negative grain. -/
theorem halo_dvd {i : DataId} {d : DataItem} (hd : k.data[i]? = some d) (hi : d.iterative = true)
    (hne : grainAt k dim i ≠ 0) :
    grainAt k dim i ∣ (haloAt k dim i).first ∧ grainAt k dim i ∣ (haloAt k dim i).last := by
  obtain ⟨x, y, -, -, hfirst, hlast⟩ := ht.halo_units hh hd hi
  have hdvd : grainAt k dim i ∣ unitAt k dim i := by
    rw [unitAt, max_eq_left (Int.one_le_abs hne), Int.abs_eq_natAbs]
    exact Int.dvd_natAbs.mpr dvd_rfl
  rw [hfirst, hlast]
  exact ⟨hdvd.mul_left x, hdvd.mul_left y⟩

/-- What an edge asks for, in blocks of the output's halo. -/
theorem askedHalo_blocks {e : Edge} {n : Node} (he : e ∈ k.edges) (hn : k.nodes[e.target]? = some n)
    {x y : Int} (hfirst : (haloAt k dim n.output).first = x * n.outStride.get dim)
    (hlast : (haloAt k dim n.output).last = y * n.outStride.get dim) :
    (askedHalo k (fun x => (tileAt k x).halo) e).span dim =
      ⟨x * n.inStride.get dim + e.read.first dim,
        y * n.inStride.get dim + (e.read.last dim + 1 - n.inStride.get dim)⟩ := by
  have hO := ht.valid.outStride_pos hn dim
  rw [ht.span_askedHalo hh he hn, hfirst, hlast, mul_right_comm x, mul_right_comm y,
    ceilDiv_mul_self hO, floorDiv, Int.mul_ediv_cancel _ hO.ne']

omit hh in
/-- Outputs are among the items with a positive grain. -/
theorem output_grain_pos (hpos : ∀ d ∈ k.iterativeData, 0 < grainAt k dim d.id) {m : NodeId} {n : Node}
    (hn : k.nodes[m]? = some n) : 0 < grainAt k dim n.output := by
  obtain ⟨o, ho⟩ := ht.wellFormed.exists_output hn
  rw [← ht.wellFormed.data_id ho]
  exact hpos o (Kernel.mem_iterativeData_iff.mpr ⟨_, ho, ht.wellFormed.iterative_output hn ho⟩)

section Positive

variable (hb : GrainsBounded k dim)

include hb

/-- The halo of an output with a positive grain is whole blocks. -/
theorem halo_blocks {e : Edge} {n : Node} (he : e ∈ k.edges) (hn : k.nodes[e.target]? = some n)
    (hpos : 0 < grainAt k dim n.output) :
    ∃ x y, x ≤ 0 ∧ 0 ≤ y ∧ (haloAt k dim n.output).first = x * n.outStride.get dim ∧
      (haloAt k dim n.output).last = y * n.outStride.get dim := by
  obtain ⟨o, ho⟩ := ht.wellFormed.exists_output hn
  obtain ⟨x, y, hx, hy, hfirst, hlast⟩ :=
    ht.halo_units hh ho (ht.wellFormed.iterative_output hn ho)
  rw [unitAt_of_pos hpos] at hfirst hlast
  obtain ⟨q, hq⟩ := ht.outStride_dvd_of_pos hb he hn hpos
  have hq0 : 0 ≤ q := by
    have hO := ht.valid.outStride_pos hn dim
    exact (pos_of_mul_pos_right (hq ▸ hpos) hO.le).le
  exact ⟨x * q, y * q, mul_nonpos_of_nonpos_of_nonneg hx hq0, mul_nonneg hy hq0,
    by rw [hfirst, hq]; ring, by rw [hlast, hq]; ring⟩

/-- Halos serve the edges to outputs with a positive grain. -/
theorem serves_edge {e : Edge} {n : Node} (he : e ∈ k.edges) (hn : k.nodes[e.target]? = some n)
    (hpos : 0 < grainAt k dim n.output) :
    Serves n dim (e.read.span dim) (haloAt k dim n.output) (haloAt k dim e.source) := by
  have hO := ht.valid.outStride_pos hn dim
  obtain ⟨x, y, -, -, hfirst, hlast⟩ := ht.halo_blocks hh hb he hn hpos
  obtain ⟨hbefore, hafter⟩ := ht.halo_covers hh he hn
  have hasked := ht.askedHalo_blocks hh he hn hfirst hlast
  rw [ht.span_askedHalo hh he hn, Span.mk.injEq] at hasked
  rw [hasked.1] at hbefore
  rw [hasked.2] at hafter
  exact serves_of_le hO hfirst hlast (ht.valid.inStride_pos hn dim) hbefore hafter

/-- Everything a slice is computed from lies in the extended slices on the way. -/
theorem traces_within (hpos : ∀ d ∈ k.iterativeData, 0 < grainAt k dim d.id) {last item : DataId}
    {lo hi lo' hi' pixel : Int} (h : Traces k dim last lo hi item lo' hi' pixel) :
    lo' + (haloAt k dim item).first ≤ pixel ∧ pixel ≤ hi' - 1 + (haloAt k dim item).last := by
  induction h with
  | slice hfirst hlast => exact ⟨hfirst, hlast⟩
  | @read e n a b pixel j r he hn hab _ hj hj' hr hr' ih =>
    exact ht.serves_edge hh hb he hn (ht.output_grain_pos hpos hn) a b pixel j r hab ih.1 ih.2 hj hj'
      hr hr'

/-- Among the windows that serve the readers of an item the halo is the least. -/
theorem halo_least (hpos : ∀ d ∈ k.iterativeData, 0 < grainAt k dim d.id) {i : DataId} {d : DataItem}
    (hd : k.data[i]? = some d) (hi : d.iterative = true) {w : Span} (hw : ServesUsers k dim d w) :
    w.first ≤ (haloAt k dim i).first ∧ (haloAt k dim i).last ≤ w.last := by
  have hwf := ht.wellFormed
  have hid := hwf.data_id hd
  have hg : 0 < grainAt k dim i := hid ▸ hpos d (Kernel.mem_iterativeData_iff.mpr ⟨_, hd, hi⟩)
  have hops : ∀ x ∈ haloOperands k (fun x => (tileAt k x).halo) d,
      w.first ≤ x.first dim ∧ x.last dim ≤ w.last := by
    intro x hx
    obtain ⟨e, he, rfl⟩ := List.mem_map.mp hx
    obtain ⟨hmem, -⟩ := (hwf.mem_usersOf_iff hd).mp he
    obtain ⟨n, hn⟩ := hwf.exists_target hmem
    obtain ⟨x, y, hx, hy, hfirst, hlast⟩ :=
      ht.halo_blocks hh hb hmem hn (ht.output_grain_pos hpos hn)
    have hread : (e.read.span dim).first ≤ (e.read.span dim).last := by
      have hlen := ht.valid.stride_le_read hmem hn dim
      have := ht.valid.inStride_pos hn dim
      rw [Window.last, Window.first] at hlen
      omega
    rw [Window.first, Window.last, ht.askedHalo_blocks hh hmem hn hfirst hlast]
    exact le_of_serves (ht.valid.outStride_pos hn dim) hfirst hlast hx hy hread (hw.users e he n hn)
  have hzero : w.first ≤ (Window.zero d.rank).first dim ∧ (Window.zero d.rank).last dim ≤ w.last := by
    rw [Window.first_zero, Window.last_zero]
    exact hw.zero
  obtain ⟨hfirst, hlast⟩ : w.first ≤ (askedAt k dim d).first ∧ (askedAt k dim d).last ≤ w.last :=
    Window.foldl_union_least hzero hops
  obtain ⟨hf, hl⟩ := ht.halo_inflated hh hd hi
  rw [unitAt_of_pos hg] at hf hl
  obtain ⟨⟨c, hc⟩, c', hc'⟩ := hw.grains
  rw [hid, mul_comm] at hc hc'
  constructor
  · rw [hf, hc]
    exact mul_le_mul_of_nonneg_right ((Int.le_ediv_iff_mul_le hg).mpr (hc ▸ hfirst)) hg.le
  · rw [hl, hc']
    exact mul_le_mul_of_nonneg_right ((ceilDiv_le_iff hg).mpr (hc' ▸ hlast)) hg.le

end Positive

end Tiled

/-- The tile pass completes on a fresh kernel. Where the halos are computed in words, every
recorded halo goes around zero and is whole grains. As long as no product leaves the word and
no least common multiple reaches 2⁶⁴ besides, halos serve every edge to an output with a
positive grain. If all grains are positive, everything that a slice of an item is computed
from lies in the extended slices of the items on the way, and every halo is the least one to
serve its readers. -/
theorem halos_serve_readers {k : Kernel} (hb : k.Built) (hv : k.validate = .ok ())
    {order : List NodeId} (ho : topologicalOrder k = .ok order)
    (hs : ∀ d ∈ k.data, d.note.stage = .unscheduled) :
    ∃ k', analyzeTiles order k = (.ok (), k') ∧ k.SameGraph k' ∧ ∀ dim, HalosFit k' dim →
      (∀ d ∈ k'.iterativeData,
        ((haloAt k' dim d.id).first ≤ 0 ∧ 0 ≤ (haloAt k' dim d.id).last) ∧
          (grainAt k' dim d.id ≠ 0 → grainAt k' dim d.id ∣ (haloAt k' dim d.id).first ∧
            grainAt k' dim d.id ∣ (haloAt k' dim d.id).last)) ∧
      (GrainsBounded k' dim →
        (∀ e ∈ k'.edges, ∀ n ∈ k'.nodes[e.target]?, 0 < grainAt k' dim n.output →
          Serves n dim (e.read.span dim) (haloAt k' dim n.output) (haloAt k' dim e.source)) ∧
        ((∀ d ∈ k'.iterativeData, 0 < grainAt k' dim d.id) →
          (∀ last lo hi item lo' hi' pixel, Traces k' dim last lo hi item lo' hi' pixel →
            lo' + (haloAt k' dim item).first ≤ pixel ∧
              pixel ≤ hi' - 1 + (haloAt k' dim item).last) ∧
          ∀ d ∈ k'.iterativeData, ServesUsers k' dim d (haloAt k' dim d.id) ∧
            ∀ w, ServesUsers k' dim d w →
              w.first ≤ (haloAt k' dim d.id).first ∧ (haloAt k' dim d.id).last ≤ w.last)) := by
  have hw := hb.wellFormed
  obtain ⟨k', hrun, hkeeps, ht⟩ :=
    analyzeTiles_eq_ok hw (Kernel.valid_of_validate hw hv) (topological_of_eq_ok hw ho) hs
  have hitem : ∀ d ∈ k'.iterativeData, k'.data[d.id]? = some d ∧ d.iterative = true := by
    intro d hd
    obtain ⟨hmem, hi⟩ := List.mem_filter.mp hd
    exact ⟨ht.wellFormed.getElem?_id hmem, hi⟩
  refine ⟨k', hrun, hkeeps.sameGraph, fun dim hh => ⟨fun d hd => ?_, fun hbounded => ⟨?_, fun hpos =>
    ⟨fun _ _ _ _ _ _ _ => ht.traces_within hh hbounded hpos, fun d hd => ?_⟩⟩⟩⟩
  · obtain ⟨hget, hi⟩ := hitem d hd
    exact ⟨ht.halo_around_zero hh hget hi, ht.halo_dvd hh hget hi⟩
  · exact fun e he n hn => ht.serves_edge hh hbounded he hn
  · obtain ⟨hget, hi⟩ := hitem d hd
    refine ⟨⟨ht.halo_around_zero hh hget hi, ht.halo_dvd hh hget hi (hpos d hd).ne',
      fun e he n hn => ?_⟩, fun w hw => ht.halo_least hh hbounded hpos hget hi hw⟩
    obtain ⟨hmem, hsource⟩ := (ht.wellFormed.mem_usersOf_iff hget).mp he
    exact hsource ▸ ht.serves_edge hh hbounded hmem hn (ht.output_grain_pos hpos hn)

/-- Halves an image, blurs it and doubles it again. -/
def smoothing : Kernel :=
  .ofDeclarations "smoothing"
    [.input "a" .float [.fixed 24], .data "b" .float [.fixed 12], .data "c" .float [.fixed 12],
      .output "o" .float [.fixed 24],
      .node {} { name := "half", output := 1, inStride := some ⟨[2]⟩,
                 inputs := [⟨0, ⟨[⟨-1, 2⟩]⟩, .undef⟩] },
      .node {} { name := "blur", output := 2, inputs := [⟨1, ⟨[⟨-1, 1⟩]⟩, .undef⟩] },
      .node {} { name := "double", output := 3, outStride := some ⟨[2]⟩,
                 inputs := [⟨2, ⟨[⟨0, 1⟩]⟩, .undef⟩] }]

/-- Pixels 8 and 9 of the result come from pixels 4 to 15 of the image, whose halo could not
be smaller. -/
theorem halos_serve_smoothing :
    ∃ k', analyzeTiles [0, 1, 2] smoothing = (.ok (), k') ∧ haloAt k' 0 0 = ⟨-4, 6⟩ ∧
      (∀ pixel, Traces k' 0 3 8 10 0 8 10 pixel → 4 ≤ pixel ∧ pixel ≤ 15) ∧
      ∃ d ∈ k'.iterativeData, d.id = 0 ∧ ServesUsers k' 0 d ⟨-4, 6⟩ ∧
        ∀ w, ServesUsers k' 0 d w → w.first ≤ -4 ∧ 6 ≤ w.last := by
  obtain ⟨k', hrun, -, hhalos⟩ := halos_serve_readers (k := smoothing)
    (Kernel.built_ofDeclarations _ _) (by decide +kernel)
    (show topologicalOrder smoothing = .ok [0, 1, 2] by decide +kernel) (by decide +kernel)
  obtain rfl : (analyzeTiles [0, 1, 2] smoothing).2 = k' := by rw [hrun]
  obtain ⟨-, htraces, hleast⟩ := And.imp_right (fun h => h (by decide +kernel))
    ((hhalos 0 (by decide +kernel)).2 (by decide +kernel))
  have hhalo : haloAt (analyzeTiles [0, 1, 2] smoothing).2 0 0 = ⟨-4, 6⟩ := by decide +kernel
  have hfacts : ∃ d ∈ (analyzeTiles [0, 1, 2] smoothing).2.iterativeData, d.id = 0 := by decide +kernel
  obtain ⟨d, hd, hid⟩ := hfacts
  have hd' := hleast d hd
  rw [hid, hhalo] at hd'
  refine ⟨_, hrun, hhalo, fun pixel h => ?_, d, hd, hid, hd'⟩
  have hwithin := htraces 3 8 10 0 8 10 pixel h
  rw [hhalo] at hwithin
  dsimp only at hwithin
  omega

/-- Mixes two images in blocks of three pixels; their grains have a least common multiple
above 2⁶³. -/
def mixing : Kernel :=
  .ofDeclarations "mixing"
    [.input "a" .float [.fixed 24], .input "b" .float [.fixed 24], .data "m" .float [.fixed 24],
      .output "o" .float [.fixed 24], .output "p" .float [.fixed 1], .output "q" .float [.fixed 1],
      .node {} { name := "mix", output := 2, inStride := some ⟨[3]⟩, outStride := some ⟨[3]⟩,
                 inputs := [⟨0, ⟨[⟨-0x80000000, -0x7ffffffe⟩]⟩, .undef⟩,
                   ⟨1, ⟨[⟨0, 2⟩]⟩, .undef⟩] },
      .node {} { name := "blur", output := 3, inputs := [⟨2, ⟨[⟨-1, 0⟩]⟩, .undef⟩] },
      .node {} { name := "f", output := 4, inStride := some ⟨[0x180000000]⟩,
                 inputs := [⟨0, ⟨[⟨0, 0x17fffffff⟩]⟩, .undef⟩] },
      .node {} { name := "g", output := 5, inStride := some ⟨[0x1fffffffb]⟩,
                 inputs := [⟨1, ⟨[⟨0, 0x1fffffffa⟩]⟩, .undef⟩] }]

def mixed : Kernel := (analyzeTiles [0, 1, 2, 3] mixing).2

/-- The halo of the mixed image is no whole blocks, since its grain is cut to a negative
number; the executions at its border then read beyond the halo of the first image. -/
theorem reads_beyond_halo :
    mixing.Built ∧ mixing.validate = .ok () ∧ topologicalOrder mixing = .ok [0, 1, 2, 3] ∧
      (analyzeTiles [0, 1, 2, 3] mixing).1 = .ok () ∧ HalosFit mixed 0 ∧ GrainsBounded mixed 0 ∧
      ∃ e ∈ mixed.edges, ∃ n ∈ mixed.nodes[e.target]?, e.source = 0 ∧ n.output = 2 ∧
        grainAt mixed 0 2 = -0x280000000 ∧ haloAt mixed 0 0 = ⟨-0x300000000, 0⟩ ∧
        ¬ Serves n 0 (e.read.span 0) (haloAt mixed 0 2) (haloAt mixed 0 0) := by
  have hfacts : ∃ e ∈ mixed.edges, ∃ n ∈ mixed.nodes[e.target]?, (e.source = 0 ∧ n.output = 2) ∧
      n.inStride.get 0 = 3 ∧ n.outStride.get 0 = 3 ∧
      e.read.span 0 = ⟨-0x80000000, -0x7ffffffe⟩ := by decide +kernel
  have hgrain : grainAt mixed 0 2 = -0x280000000 := by decide +kernel
  have hsource : haloAt mixed 0 0 = ⟨-0x300000000, 0⟩ := by decide +kernel
  have hout : haloAt mixed 0 2 = ⟨-0x280000000, 0⟩ := by decide +kernel
  obtain ⟨e, he, n, hn, hends, hI, hO, hread⟩ := hfacts
  refine ⟨Kernel.built_ofDeclarations _ _, by decide +kernel, by decide +kernel, by decide +kernel,
    by decide +kernel, by decide +kernel, e, he, n, hn, hends.1, hends.2, hgrain, hsource,
    fun hserves => ?_⟩
  -- the block at the lower end of the halo starts two pixels below it
  have hbelow := hserves 0 1 (-0x280000000) (-0xd5555556) (-0x80000000)
  rw [hread, hout, hsource, hI, hO] at hbelow
  norm_num at hbelow

end StencilTiling.Analysis
