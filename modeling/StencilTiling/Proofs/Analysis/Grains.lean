import StencilTiling.Proofs.Analysis.Tiles

/-! Grains in numbers. As long as the products and least common multiples of the tile
pass are words, the recorded grains are these multiples: a source grain is whole input
strides of every reader, and the grain of an output is the least common multiple of
what its node makes of the grains it reads. As long as the ends of the halos are words
on the way, a halo is whole grains and holds what every reader asks for. -/

namespace StencilTiling.Analysis

open Arith

/-! ### Common multiples -/

/-- The least common multiple of the lengths along a dimension. -/
def commonMultiple (sizes : List Size) (dim : Nat) : Nat :=
  sizes.foldr (fun s m => Int.lcm (s.get dim) m) 1

theorem commonMultiple_dvd_iff {sizes : List Size} {dim : Nat} {m : Int} :
    (commonMultiple sizes dim : Int) ∣ m ↔ ∀ s ∈ sizes, s.get dim ∣ m := by
  induction sizes with
  | nil => simp [commonMultiple]
  | cons s rest ih =>
    rw [commonMultiple, List.foldr_cons, Int.coe_lcm_dvd_iff, List.forall_mem_cons, ← ih]
    rfl

theorem commonMultiple_pos {sizes : List Size} {dim : Nat} (h : ∀ s ∈ sizes, 0 < s.get dim) :
    0 < commonMultiple sizes dim := by
  induction sizes with
  | nil => exact Nat.one_pos
  | cons s rest ih =>
    obtain ⟨hs, hrest⟩ := List.forall_mem_cons.mp h
    exact Int.lcm_pos hs.ne' (Int.natCast_ne_zero.mpr (ih hrest).ne')

/-- A multiple that is a word is what the sweeps compute. -/
theorem get_foldl_lcm_of_fits {sizes : List Size} {s : Size} {dim : Nat} (hs : 0 < s.get dim)
    (hpos : ∀ x ∈ sizes, 0 < x.get dim) (hfit : (commonMultiple (s :: sizes) dim : Int) ≤ maxWord) :
    0 < (sizes.foldl Size.lcm s).get dim ∧
      ∀ m, (sizes.foldl Size.lcm s).get dim ∣ m ↔ s.get dim ∣ m ∧ ∀ x ∈ sizes, x.get dim ∣ m := by
  have hM : 0 < commonMultiple (s :: sizes) dim :=
    commonMultiple_pos (List.forall_mem_cons.mpr ⟨hs, hpos⟩)
  have hdvd := List.forall_mem_cons.mp (commonMultiple_dvd_iff.mp
    (dvd_refl (commonMultiple (s :: sizes) dim : Int)))
  have := foldl_lcmWord (l := sizes.map (·.get dim)) hs (by simpa using hpos)
    (by exact_mod_cast hM) hfit hdvd.1 (by simpa using hdvd.2)
  rw [Size.get_foldl_lcm]
  simpa using this

/-! ### Cut multiples -/

/-- No least common multiple that is taken on the way reaches 2⁶⁴. -/
def MultiplesBounded : Int → List Int → Prop
  | _, [] => True
  | a, x :: rest => Int.lcm a x < 0x10000000000000000 ∧ MultiplesBounded (lcmWord a x) rest

instance : ∀ (a : Int) (l : List Int), Decidable (MultiplesBounded a l)
  | _, [] => .isTrue trivial
  | a, x :: rest =>
    have := instDecidableMultiplesBounded (lcmWord a x) rest
    inferInstanceAs (Decidable (_ ∧ _))

/-- A multiple below 2⁶⁴ that comes out positive was not cut. -/
theorem lcmWord_of_pos {a b : Int} (hlt : Int.lcm a b < 0x10000000000000000)
    (hpos : 0 < lcmWord a b) : lcmWord a b = Int.lcm a b := by
  refine lcmWord_of_fits ?_
  rw [lcmWord, lcm_eq, wrap64, Int.bmod_def] at hpos
  have hmod : ((Nat.lcm a.natAbs b.natAbs : Nat) : Int) % 0x10000000000000000 = Int.lcm a b :=
    Int.emod_eq_of_lt (Int.natCast_nonneg _) (by exact_mod_cast hlt)
  rw [show ((0x10000000000000000 : Nat) : Int) = 0x10000000000000000 from rfl, hmod] at hpos
  simp only [maxWord]
  split_ifs at hpos <;> omega

/-- What divides every operand divides a positive multiple, whatever was cut before the last. -/
theorem dvd_foldl_lcmWord {c : Int} {l : List Int} {a : Int} (hne : l ≠ []) (hb : MultiplesBounded a l)
    (hpos : 0 < l.foldl lcmWord a) (hl : ∀ x ∈ l, c ∣ x) : c ∣ l.foldl lcmWord a := by
  induction l generalizing a with
  | nil => exact absurd rfl hne
  | cons x rest ih =>
    obtain ⟨hlt, hrest⟩ := hb
    obtain ⟨hx, hl⟩ := List.forall_mem_cons.mp hl
    rw [List.foldl_cons] at hpos ⊢
    by_cases hnil : rest = []
    · subst hnil
      rw [List.foldl_nil] at hpos ⊢
      rw [lcmWord_of_pos hlt hpos]
      exact hx.trans (Int.coe_lcm_dvd_iff.mp dvd_rfl).2
    · exact ih hnil hrest hpos hl

/-! ### Feed grains and grains -/

def feedAt (k : Kernel) (dim : Nat) (i : DataId) : Int := (tileAt k i).feedGrain.get dim

def grainAt (k : Kernel) (dim : Nat) (i : DataId) : Int := (tileAt k i).grain.get dim

/-- What the feed grain of the output asks of the source, and what the grain of the source
makes of the output, are words. -/
def RestridesFit (k : Kernel) (dim : Nat) (e : Edge) : Prop :=
  ∀ n ∈ k.nodes[e.target]?,
    FitsWord (ceilDivWord (feedAt k dim n.output) (n.outStride.get dim) * n.inStride.get dim) ∧
      FitsWord (ceilDivWord (grainAt k dim e.source) (n.inStride.get dim) * n.outStride.get dim)

instance (k : Kernel) (dim : Nat) (e : Edge) : Decidable (RestridesFit k dim e) :=
  inferInstanceAs (Decidable (∀ n ∈ _, _ ∧ _))

/-- No product and no least common multiple of the tile pass leaves the word. -/
def GrainsFit (k : Kernel) : Prop :=
  ∀ d ∈ k.iterativeData, ∀ dim < d.rank,
    (∀ e ∈ k.usersOf d, RestridesFit k dim e) ∧
      (commonMultiple (feedOperands k (fun x => (tileAt k x).feedGrain) d) dim : Int) ≤ maxWord ∧
      (commonMultiple ((tileAt k d.id).feedGrain ::
        grainOperands k (fun x => (tileAt k x).grain) d) dim : Int) ≤ maxWord

instance (k : Kernel) : Decidable (GrainsFit k) :=
  inferInstanceAs (Decidable (∀ d ∈ _, ∀ dim < _, _ ∧ _))

/-- No product that the grains are made of leaves the word, and no least common multiple
reaches 2⁶⁴. -/
def GrainsBounded (k : Kernel) (dim : Nat) : Prop :=
  (∀ e ∈ k.edges, RestridesFit k dim e) ∧
    ∀ d ∈ k.iterativeData, MultiplesBounded (feedAt k dim d.id)
      ((grainOperands k (fun x => (tileAt k x).grain) d).map (·.get dim))

instance (k : Kernel) (dim : Nat) : Decidable (GrainsBounded k dim) :=
  inferInstanceAs (Decidable ((∀ e ∈ _, _) ∧ ∀ d ∈ _, _))

theorem get_neededSize {k : Kernel} {e : Edge} {n : Node} {dim : Nat} (h : RestridesFit k dim e)
    (hn : k.nodes[e.target]? = some n) :
    (neededSize k (fun x => (tileAt k x).feedGrain) e).get dim =
      ceilDivWord (feedAt k dim n.output) (n.outStride.get dim) * n.inStride.get dim := by
  rw [neededSize, hn, Size.get_mul, Size.get_divCeil]
  exact mulWord_of_fits (h n hn).1

theorem get_yieldedSize {k : Kernel} {e : Edge} {n : Node} {dim : Nat} (h : RestridesFit k dim e)
    (hn : k.nodes[e.target]? = some n) :
    (yieldedSize n (tileAt k e.source).grain).get dim =
      ceilDivWord (grainAt k dim e.source) (n.inStride.get dim) * n.outStride.get dim := by
  rw [yieldedSize, Size.get_mul, Size.get_divCeil]
  exact mulWord_of_fits (h n hn).2

/-- Positive lengths stay positive when converted between strides. -/
theorem ceilDiv_mul_pos {x c b : Int} (hx : 0 < x) (hc : 0 < c) (hb : 0 < b) :
    0 < ceilDiv x c * b :=
  mul_pos ((lt_ceilDiv_iff hc).mpr (by simpa using hx)) hb


/-! ### Halos in words -/

/-- The recorded halo of an item along a dimension. -/
def haloAt (k : Kernel) (dim : Nat) (i : DataId) : Span := (tileAt k i).halo.span dim

/-- What the readers of an item ask for along a dimension, before it is rounded to grains. -/
def askedAt (k : Kernel) (dim : Nat) (d : DataItem) : Span :=
  ((haloOperands k (fun x => (tileAt k x).halo) d).foldl Window.union (.zero d.rank)).span dim

/-- The unit to which a halo is rounded: the magnitude of the grain. -/
def unitAt (k : Kernel) (dim : Nat) (i : DataId) : Int := max |grainAt k dim i| 1

/-- The halos are computed in words along a dimension: what an edge asks for, from the halo of
its output and from its read window, and what the magnitude of the grain makes of it. -/
structure HalosFit (k : Kernel) (dim : Nat) : Prop where
  scaled : ∀ e ∈ k.edges, ∀ n ∈ k.nodes[e.target]?,
    FitsWord ((haloAt k dim n.output).first * n.inStride.get dim) ∧
      FitsWord ((haloAt k dim n.output).last * n.inStride.get dim)
  excess : ∀ e ∈ k.edges, ∀ n ∈ k.nodes[e.target]?,
    FitsWord (e.read.last dim - e.read.first dim + 1 - n.inStride.get dim) ∧
      FitsWord (e.read.last dim + 1 - n.inStride.get dim)
  asked : ∀ e ∈ k.edges, ∀ n ∈ k.nodes[e.target]?,
    FitsWord (floorDiv ((haloAt k dim n.output).first * n.inStride.get dim) (n.outStride.get dim) +
        e.read.first dim) ∧
      FitsWord (ceilDiv ((haloAt k dim n.output).last * n.inStride.get dim) (n.outStride.get dim) +
        (e.read.last dim + 1 - n.inStride.get dim))
  grain : ∀ d ∈ k.iterativeData, FitsWord |grainAt k dim d.id|
  rounded : ∀ d ∈ k.iterativeData,
    FitsWord (floorDiv (askedAt k dim d).first (unitAt k dim d.id) * unitAt k dim d.id) ∧
      FitsWord (ceilDiv (askedAt k dim d).last (unitAt k dim d.id) * unitAt k dim d.id)

instance (k : Kernel) (dim : Nat) : Decidable (HalosFit k dim) :=
  decidable_of_iff
    ((∀ e ∈ k.edges, ∀ n ∈ k.nodes[e.target]?,
      (FitsWord ((haloAt k dim n.output).first * n.inStride.get dim) ∧
        FitsWord ((haloAt k dim n.output).last * n.inStride.get dim)) ∧
      (FitsWord (e.read.last dim - e.read.first dim + 1 - n.inStride.get dim) ∧
        FitsWord (e.read.last dim + 1 - n.inStride.get dim)) ∧
      FitsWord (floorDiv ((haloAt k dim n.output).first * n.inStride.get dim) (n.outStride.get dim) +
          e.read.first dim) ∧
        FitsWord (ceilDiv ((haloAt k dim n.output).last * n.inStride.get dim) (n.outStride.get dim) +
          (e.read.last dim + 1 - n.inStride.get dim))) ∧
    ∀ d ∈ k.iterativeData, FitsWord |grainAt k dim d.id| ∧
      FitsWord (floorDiv (askedAt k dim d).first (unitAt k dim d.id) * unitAt k dim d.id) ∧
        FitsWord (ceilDiv (askedAt k dim d).last (unitAt k dim d.id) * unitAt k dim d.id))
    ⟨fun ⟨he, hd⟩ => ⟨fun e h n hn => (he e h n hn).1, fun e h n hn => (he e h n hn).2.1,
      fun e h n hn => (he e h n hn).2.2, fun d h => (hd d h).1, fun d h => (hd d h).2⟩,
    fun h => ⟨fun e he n hn => ⟨h.scaled e he n hn, h.excess e he n hn, h.asked e he n hn⟩,
      fun d hd => ⟨h.grain d hd, h.rounded d hd⟩⟩⟩

/-- No value of the tile pass leaves the word. -/
structure TilesFit (k : Kernel) : Prop where
  grains : GrainsFit k
  halos : ∀ dim < k.rank, HalosFit k dim

instance (k : Kernel) : Decidable (TilesFit k) :=
  decidable_of_iff (GrainsFit k ∧ ∀ dim < k.rank, HalosFit k dim)
    ⟨fun ⟨hg, hh⟩ => ⟨hg, hh⟩, fun ⟨hg, hh⟩ => ⟨hg, hh⟩⟩

theorem one_le_unitAt (k : Kernel) (dim : Nat) (i : DataId) : 1 ≤ unitAt k dim i := le_max_right _ _

theorem unitAt_of_pos {k : Kernel} {dim : Nat} {i : DataId} (hg : 0 < grainAt k dim i) :
    unitAt k dim i = grainAt k dim i := by
  rw [unitAt, abs_of_pos hg]
  omega

/-- The index zero is always asked for. -/
theorem askedAt_around_zero (k : Kernel) (dim : Nat) (d : DataItem) :
    (askedAt k dim d).first ≤ 0 ∧ 0 ≤ (askedAt k dim d).last := by
  obtain ⟨hzero, -⟩ := Window.foldl_union_bounds
    (haloOperands k (fun x => (tileAt k x).halo) d) (.zero d.rank) dim
  rwa [Window.first_zero, Window.last_zero] at hzero

namespace Tiled

variable {k : Kernel} (ht : Tiled k)

include ht

/-- A positive grain of an output is whole blocks. -/
theorem outStride_dvd_of_pos {dim : Nat} (hb : GrainsBounded k dim)
    {e : Edge} (he : e ∈ k.edges) {n : Node} (hn : k.nodes[e.target]? = some n)
    (hpos : 0 < grainAt k dim n.output) : n.outStride.get dim ∣ grainAt k dim n.output := by
  obtain ⟨o, ho⟩ := ht.wellFormed.exists_output hn
  have hi := ht.wellFormed.iterative_output hn ho
  have hbounded := hb.2 o (Kernel.mem_iterativeData_iff.mpr ⟨_, ho, hi⟩)
  have hgrain : grainAt k dim n.output =
      ((grainOperands k (fun x => (tileAt k x).grain) o).map (·.get dim)).foldl lcmWord
        (feedAt k dim n.output) := by
    rw [grainAt, (ht.tileAt_eq ho hi).2.grain, Size.get_foldl_lcm, feedAt]
  rw [ht.wellFormed.data_id ho] at hbounded
  rw [hgrain] at hpos ⊢
  refine dvd_foldl_lcmWord ?_ hbounded hpos ?_
  · rw [grainOperands, ht.wellFormed.producerOf_output hn ho]
    simp only [ne_eq, List.map_eq_nil_iff]
    exact List.ne_nil_of_mem ((ht.wellFormed.mem_inputEdges_iff hn).mpr ⟨he, rfl⟩)
  · rw [grainOperands, ht.wellFormed.producerOf_output hn ho]
    rw [List.forall_mem_map, List.forall_mem_map]
    intro e' he'
    obtain ⟨hmem, htarget⟩ := (ht.wellFormed.mem_inputEdges_iff hn).mp he'
    rw [get_yieldedSize (hb.1 e' hmem) (htarget ▸ hn)]
    exact Dvd.intro_left _ rfl

/-! ### Halos -/

section Halos

variable {dim : Nat} (hh : HalosFit k dim)

include hh

/-- A halo is what its readers ask for, rounded outward to units of the grain. -/
theorem halo_inflated {i : DataId} {d : DataItem} (hd : k.data[i]? = some d)
    (hi : d.iterative = true) :
    (haloAt k dim i).first = floorDiv (askedAt k dim d).first (unitAt k dim i) * unitAt k dim i ∧
      (haloAt k dim i).last = ceilDiv (askedAt k dim d).last (unitAt k dim i) * unitAt k dim i := by
  have hmem : d ∈ k.iterativeData := Kernel.mem_iterativeData_iff.mpr ⟨_, hd, hi⟩
  have hgrain := hh.grain d hmem
  obtain ⟨hfirst, hlast⟩ := hh.rounded d hmem
  rw [ht.wellFormed.data_id hd] at hgrain hfirst hlast
  have hword := (le_ceilDiv_mul (one_le_unitAt k dim i)).trans hlast.2
  have hrounds : Window.RoundsInWord ((haloOperands k (fun x => (tileAt k x).halo) d).foldl
      Window.union (.zero d.rank)) (tileAt k i).grain dim :=
    ⟨hgrain, fitsWord_neg_of_nonneg (askedAt_around_zero k dim d).2 hword, hfirst, hlast⟩
  rw [haloAt, (ht.tileAt_eq hd hi).2.halo, Window.span_inflate_of_fits hrounds]
  exact ⟨rfl, rfl⟩

/-- The ends of a halo are words. -/
theorem fitsWord_haloAt {i : DataId} {d : DataItem} (hd : k.data[i]? = some d)
    (hi : d.iterative = true) :
    FitsWord (haloAt k dim i).first ∧ FitsWord (haloAt k dim i).last := by
  obtain ⟨hfirst, hlast⟩ := ht.halo_inflated hh hd hi
  have hrounded := hh.rounded d (Kernel.mem_iterativeData_iff.mpr ⟨_, hd, hi⟩)
  rw [ht.wellFormed.data_id hd] at hrounded
  rwa [hfirst, hlast]

/-- A halo goes around zero and ends at whole units of the grain. -/
theorem halo_units {i : DataId} {d : DataItem} (hd : k.data[i]? = some d) (hi : d.iterative = true) :
    ∃ x y, x ≤ 0 ∧ 0 ≤ y ∧ (haloAt k dim i).first = x * unitAt k dim i ∧
      (haloAt k dim i).last = y * unitAt k dim i := by
  obtain ⟨hfirst, hlast⟩ := ht.halo_inflated hh hd hi
  obtain ⟨hbefore, hafter⟩ := askedAt_around_zero k dim d
  have hunit := one_le_unitAt k dim i
  exact ⟨_, _, Int.ediv_nonpos_of_nonpos_of_neg hbefore (by omega),
    ceilDiv_nonneg (by omega) hafter, hfirst, hlast⟩

/-- A halo goes around zero. -/
theorem halo_around_zero {i : DataId} {d : DataItem} (hd : k.data[i]? = some d)
    (hi : d.iterative = true) : (haloAt k dim i).first ≤ 0 ∧ 0 ≤ (haloAt k dim i).last := by
  obtain ⟨x, y, hx, hy, hfirst, hlast⟩ := ht.halo_units hh hd hi
  have hunit := one_le_unitAt k dim i
  rw [hfirst, hlast]
  exact ⟨mul_nonpos_of_nonpos_of_nonneg hx (by omega), mul_nonneg hy (by omega)⟩

/-- An edge asks for the halo of the output brought back through the strides, and for what
the read window has beyond one stride. -/
theorem span_askedHalo {e : Edge} {n : Node} (he : e ∈ k.edges) (hn : k.nodes[e.target]? = some n) :
    (askedHalo k (fun x => (tileAt k x).halo) e).span dim =
      ⟨floorDiv ((haloAt k dim n.output).first * n.inStride.get dim) (n.outStride.get dim) +
          e.read.first dim,
        ceilDiv ((haloAt k dim n.output).last * n.inStride.get dim) (n.outStride.get dim) +
          (e.read.last dim + 1 - n.inStride.get dim)⟩ := by
  have hI := ht.valid.inStride_pos hn dim
  have hO := ht.valid.outStride_pos hn dim
  obtain ⟨o, ho⟩ := ht.wellFormed.exists_output hn
  obtain ⟨hfirst, hlast⟩ := hh.scaled e he n hn
  obtain ⟨hlength, hend⟩ := hh.excess e he n hn
  obtain ⟨hbefore, hafter⟩ := hh.asked e he n hn
  have hnonneg :=
    mul_nonneg (ht.halo_around_zero hh ho (ht.wellFormed.iterative_output hn ho)).2 hI.le
  have hscales : (tileAt k n.output).halo.ScalesInWord n.inStride dim :=
    ⟨hfirst, hlast, fitsWord_neg_of_nonneg hnonneg hlast.2⟩
  rw [askedHalo, hn]
  show (Window.add _ _).span dim = _
  have hscale := Window.span_scale_of_fits hscales hO
  have hsub := Window.span_subSize_of_fits (ht.valid.stride_le_read he hn dim) hlength hend
  simp only [Window.span_add, Window.first, Window.last] at hscale hsub ⊢
  rw [hscale, hsub]
  exact congrArg₂ Span.mk (addWord_of_fits hbefore) (addWord_of_fits hafter)

/-- The halo of a source holds what each edge asks for. -/
theorem halo_covers {e : Edge} {n : Node} (he : e ∈ k.edges) (hn : k.nodes[e.target]? = some n) :
    (haloAt k dim e.source).first ≤
        floorDiv ((haloAt k dim n.output).first * n.inStride.get dim) (n.outStride.get dim) +
          e.read.first dim ∧
      ceilDiv ((haloAt k dim n.output).last * n.inStride.get dim) (n.outStride.get dim) +
          (e.read.last dim + 1 - n.inStride.get dim) ≤
        (haloAt k dim e.source).last := by
  obtain ⟨s, hs⟩ := ht.wellFormed.exists_source he
  obtain ⟨hfirst, hlast⟩ := ht.halo_inflated hh hs (ht.valid.source_iterative he hs)
  have hunit := one_le_unitAt k dim e.source
  obtain ⟨hbefore, hafter⟩ := (Window.foldl_union_bounds
    (haloOperands k (fun x => (tileAt k x).halo) s) (.zero s.rank) dim).2 _
      (List.mem_map_of_mem ((ht.wellFormed.mem_usersOf_iff hs).mpr ⟨he, rfl⟩))
  have hasked := ht.span_askedHalo hh he hn
  rw [hfirst, hlast]
  constructor
  · exact (Int.ediv_mul_le _ (by omega)).trans (hbefore.trans (congrArg Span.first hasked).le)
  · exact (congrArg Span.last hasked).ge.trans (hafter.trans (le_ceilDiv_mul (by omega)))

end Halos

/-! ### Grains in words -/

theorem fitsWord_feedAt {i : DataId} {d : DataItem} (hd : k.data[i]? = some d)
    (hi : d.iterative = true) (dim : Nat) : FitsWord (feedAt k dim i) := by
  rw [feedAt, (ht.tileAt_eq hd hi).2.feed, Size.get_foldl_lcm]
  exact fitsWord_foldl_lcmWord (by simp [FitsWord, minWord, maxWord])

theorem fitsWord_grainAt {i : DataId} {d : DataItem} (hd : k.data[i]? = some d)
    (hi : d.iterative = true) (dim : Nat) : FitsWord (grainAt k dim i) := by
  rw [grainAt, (ht.tileAt_eq hd hi).2.grain, Size.get_foldl_lcm]
  exact fitsWord_foldl_lcmWord (ht.fitsWord_feedAt hd hi dim)

/-- Positive feed grains are divided as integers are. -/
theorem get_neededSize_of_pos {dim : Nat} {e : Edge} {n : Node} (h : RestridesFit k dim e)
    (hn : k.nodes[e.target]? = some n) (hpos : 0 < feedAt k dim n.output) :
    (neededSize k (fun x => (tileAt k x).feedGrain) e).get dim =
      ceilDiv (feedAt k dim n.output) (n.outStride.get dim) * n.inStride.get dim := by
  obtain ⟨o, ho⟩ := ht.wellFormed.exists_output hn
  have hword := ht.fitsWord_feedAt ho (ht.wellFormed.iterative_output hn ho) dim
  rw [get_neededSize h hn, ceilDivWord_of_nonneg (ht.valid.outStride_pos hn dim) hpos.le hword.2]

/-- Positive grains are divided as integers are. -/
theorem get_yieldedSize_of_pos {dim : Nat} {e : Edge} {n : Node} (h : RestridesFit k dim e)
    (he : e ∈ k.edges) (hn : k.nodes[e.target]? = some n) (hpos : 0 < grainAt k dim e.source) :
    (yieldedSize n (tileAt k e.source).grain).get dim =
      ceilDiv (grainAt k dim e.source) (n.inStride.get dim) * n.outStride.get dim := by
  obtain ⟨s, hs⟩ := ht.wellFormed.exists_source he
  have hword := ht.fitsWord_grainAt hs (ht.valid.source_iterative he hs) dim
  rw [get_yieldedSize h hn, ceilDivWord_of_nonneg (ht.valid.inStride_pos hn dim) hpos.le hword.2]

section Fit

variable (hf : GrainsFit k) {dim : Nat} (hdim : dim < k.rank)

include hf hdim

theorem restridesFit {e : Edge} (he : e ∈ k.edges) : RestridesFit k dim e := by
  obtain ⟨s, hs⟩ := ht.wellFormed.exists_source he
  have hi := ht.valid.source_iterative he hs
  exact (hf s (Kernel.mem_iterativeData_iff.mpr ⟨_, hs, hi⟩) dim (ht.valid.rank_eq hs hi ▸ hdim)).1 e
    ((ht.wellFormed.mem_usersOf_iff hs).mpr ⟨he, rfl⟩)

theorem feed_step {i : DataId} {d : DataItem} (hd : k.data[i]? = some d) (hi : d.iterative = true)
    (hpos : ∀ x, Feeds k i x → 0 < feedAt k dim x) :
    0 < feedAt k dim i ∧ ∀ m, feedAt k dim i ∣ m ↔
      ∀ s ∈ feedOperands k (fun x => (tileAt k x).feedGrain) d, s.get dim ∣ m := by
  have hmem : d ∈ k.iterativeData := Kernel.mem_iterativeData_iff.mpr ⟨_, hd, hi⟩
  have hfit := (hf d hmem dim (ht.valid.rank_eq hd hi ▸ hdim)).2.1
  have hops : ∀ s ∈ feedOperands k (fun x => (tileAt k x).feedGrain) d, 0 < s.get dim := by
    intro s hs
    rcases List.mem_append.mp hs with hs | hs
    · obtain ⟨e, he, rfl⟩ := List.mem_map.mp hs
      have hmem := ((ht.wellFormed.mem_usersOf_iff hd).mp he).1
      obtain ⟨n, hn⟩ := ht.wellFormed.exists_target hmem
      have hfeed := hpos _ (feeds_of_mem_usersOf ht.wellFormed hd he hn)
      rw [ht.get_neededSize_of_pos (ht.restridesFit hf hdim hmem) hn hfeed]
      exact ceilDiv_mul_pos hfeed (ht.valid.outStride_pos hn dim) (ht.valid.inStride_pos hn dim)
    · simp only [Option.mem_toList, Option.map_eq_some_iff] at hs
      obtain ⟨n, hn, rfl⟩ := hs
      exact ht.valid.outStride_pos (ht.wellFormed.output_of_producerOf hd hn).1 dim
  have := get_foldl_lcm_of_fits (s := .ones d.rank) (by simp) hops (by
    simpa [commonMultiple, Int.lcm] using hfit)
  rw [← (ht.tileAt_eq hd hi).2.feed] at this
  simpa [feedAt] using this

/-- Feed grains are positive. -/
theorem feed_pos {i : DataId} {d : DataItem} (hd : k.data[i]? = some d) (hi : d.iterative = true) :
    0 < feedAt k dim i := by
  obtain ⟨ds, ho⟩ := ht.ordered
  refine ho.backward (P := fun j => 0 < feedAt k dim j) ht.wellFormed ht.valid
    (fun j hj hback => ?_) i ((ho.mem_iff i).mpr ⟨d, hd, hi⟩)
  obtain ⟨d', hd', hi'⟩ := (ho.mem_iff j).mp hj
  exact (ht.feed_step hf hdim hd' hi' hback).1

/-- The feed grain is the least common multiple of its operands. -/
theorem feed_dvd_iff {i : DataId} {d : DataItem} (hd : k.data[i]? = some d) (hi : d.iterative = true)
    {m : Int} : feedAt k dim i ∣ m ↔
      ∀ s ∈ feedOperands k (fun x => (tileAt k x).feedGrain) d, s.get dim ∣ m := by
  refine (ht.feed_step hf hdim hd hi fun x hx => ?_).2 m
  obtain ⟨ds, ho⟩ := ht.ordered
  obtain ⟨d', hd', hi'⟩ := (ho.mem_iff x).mp (ho.mem_of_feeds ht.wellFormed ht.valid hx).2
  exact ht.feed_pos hf hdim hd' hi'

theorem grain_step {i : DataId} {d : DataItem} (hd : k.data[i]? = some d) (hi : d.iterative = true)
    (hpos : ∀ x, Feeds k x i → 0 < grainAt k dim x) :
    0 < grainAt k dim i ∧ ∀ m, grainAt k dim i ∣ m ↔ feedAt k dim i ∣ m ∧
      ∀ s ∈ grainOperands k (fun x => (tileAt k x).grain) d, s.get dim ∣ m := by
  have hmem : d ∈ k.iterativeData := Kernel.mem_iterativeData_iff.mpr ⟨_, hd, hi⟩
  have hfit := (hf d hmem dim (ht.valid.rank_eq hd hi ▸ hdim)).2.2
  rw [ht.wellFormed.data_id hd] at hfit
  have hops : ∀ s ∈ grainOperands k (fun x => (tileAt k x).grain) d, 0 < s.get dim := by
    intro s hs
    rw [grainOperands] at hs
    split at hs
    · next n hp =>
      obtain ⟨e, he, rfl⟩ := List.mem_map.mp hs
      obtain ⟨hn, -⟩ := ht.wellFormed.output_of_producerOf hd hp
      obtain ⟨hmem, htarget⟩ := (ht.wellFormed.mem_inputEdges_iff hn).mp he
      rw [← htarget] at hn
      have hgrain := hpos _ (feeds_of_mem_inputEdges ht.wellFormed hd hp he)
      rw [ht.get_yieldedSize_of_pos (ht.restridesFit hf hdim hmem) hmem hn hgrain]
      exact ceilDiv_mul_pos hgrain (ht.valid.inStride_pos hn dim) (ht.valid.outStride_pos hn dim)
    · cases hs
  have := get_foldl_lcm_of_fits (ht.feed_pos hf hdim hd hi) hops hfit
  rw [← (ht.tileAt_eq hd hi).2.grain] at this
  exact this

/-- Grains are positive. -/
theorem grain_pos {i : DataId} {d : DataItem} (hd : k.data[i]? = some d) (hi : d.iterative = true) :
    0 < grainAt k dim i := by
  obtain ⟨ds, ho⟩ := ht.ordered
  refine ho.forward (P := fun j => 0 < grainAt k dim j) ht.wellFormed ht.valid
    (fun j hj hback => ?_) i ((ho.mem_iff i).mpr ⟨d, hd, hi⟩)
  obtain ⟨d', hd', hi'⟩ := (ho.mem_iff j).mp hj
  exact (ht.grain_step hf hdim hd' hi' hback).1

/-- The grain is the least common multiple of the feed grain and its operands. -/
theorem grain_dvd_iff {i : DataId} {d : DataItem} (hd : k.data[i]? = some d)
    (hi : d.iterative = true) {m : Int} : grainAt k dim i ∣ m ↔ feedAt k dim i ∣ m ∧
      ∀ s ∈ grainOperands k (fun x => (tileAt k x).grain) d, s.get dim ∣ m := by
  refine (ht.grain_step hf hdim hd hi fun x hx => ?_).2 m
  obtain ⟨ds, ho⟩ := ht.ordered
  obtain ⟨d', hd', hi'⟩ := (ho.mem_iff x).mp (ho.mem_of_feeds ht.wellFormed ht.valid hx).1
  exact ht.grain_pos hf hdim hd' hi'

theorem feed_dvd_grain {i : DataId} {d : DataItem} (hd : k.data[i]? = some d)
    (hi : d.iterative = true) : feedAt k dim i ∣ grainAt k dim i :=
  ((ht.grain_dvd_iff hf hdim hd hi).mp dvd_rfl).1

/-! ### Grains across a node -/

/-- What an edge asks of its source, in numbers. -/
theorem needed_eq {e : Edge} {n : Node} (he : e ∈ k.edges) (hn : k.nodes[e.target]? = some n) :
    (neededSize k (fun x => (tileAt k x).feedGrain) e).get dim =
      ceilDiv (feedAt k dim n.output) (n.outStride.get dim) * n.inStride.get dim := by
  obtain ⟨o, ho⟩ := ht.wellFormed.exists_output hn
  exact ht.get_neededSize_of_pos (ht.restridesFit hf hdim he) hn
    (ht.feed_pos hf hdim ho (ht.wellFormed.iterative_output hn ho))

/-- What a source makes of the output, in numbers. -/
theorem yielded_eq {e : Edge} {n : Node} (he : e ∈ k.edges) (hn : k.nodes[e.target]? = some n) :
    (yieldedSize n (tileAt k e.source).grain).get dim =
      ceilDiv (grainAt k dim e.source) (n.inStride.get dim) * n.outStride.get dim := by
  obtain ⟨s, hs⟩ := ht.wellFormed.exists_source he
  exact ht.get_yieldedSize_of_pos (ht.restridesFit hf hdim he) he hn
    (ht.grain_pos hf hdim hs (ht.valid.source_iterative he hs))

/-- A feed grain of an output is whole blocks. -/
theorem outStride_dvd_feed {j : NodeId} {n : Node} (hn : k.nodes[j]? = some n) :
    n.outStride.get dim ∣ feedAt k dim n.output := by
  obtain ⟨o, ho⟩ := ht.wellFormed.exists_output hn
  refine (ht.feed_dvd_iff hf hdim ho (ht.wellFormed.iterative_output hn ho)).mp dvd_rfl _ ?_
  refine List.mem_append_right _ ?_
  rw [ht.wellFormed.producerOf_output hn ho]
  exact List.mem_singleton_self _

/-- A grain of an output is whole blocks. -/
theorem outStride_dvd_grain {j : NodeId} {n : Node} (hn : k.nodes[j]? = some n) :
    n.outStride.get dim ∣ grainAt k dim n.output := by
  obtain ⟨o, ho⟩ := ht.wellFormed.exists_output hn
  exact (ht.outStride_dvd_feed hf hdim hn).trans
    (ht.feed_dvd_grain hf hdim ho (ht.wellFormed.iterative_output hn ho))

/-- The feed grain of a source is as many input strides as yield whole feed grains of the
output. -/
theorem needed_dvd_feed {e : Edge} {n : Node} (he : e ∈ k.edges)
    (hn : k.nodes[e.target]? = some n) :
    ∃ q, feedAt k dim n.output = q * n.outStride.get dim ∧
      q * n.inStride.get dim ∣ feedAt k dim e.source := by
  obtain ⟨s, hs⟩ := ht.wellFormed.exists_source he
  obtain ⟨q, hq⟩ := ht.outStride_dvd_feed hf hdim hn
  rw [mul_comm] at hq
  refine ⟨q, hq, ?_⟩
  have hmem : neededSize k (fun x => (tileAt k x).feedGrain) e ∈
      feedOperands k (fun x => (tileAt k x).feedGrain) s :=
    List.mem_append_left _ (List.mem_map_of_mem ((ht.wellFormed.mem_usersOf_iff hs).mpr ⟨he, rfl⟩))
  have hdvd := (ht.feed_dvd_iff hf hdim hs (ht.valid.source_iterative he hs)).mp dvd_rfl _ hmem
  rwa [ht.needed_eq hf hdim he hn, hq, ceilDiv_mul_self (ht.valid.outStride_pos hn dim)] at hdvd

/-- A source grain is as many input strides as yield whole feed grains of the output. -/
theorem needed_dvd_grain {e : Edge} {n : Node} (he : e ∈ k.edges)
    (hn : k.nodes[e.target]? = some n) :
    ∃ q, feedAt k dim n.output = q * n.outStride.get dim ∧
      q * n.inStride.get dim ∣ grainAt k dim e.source := by
  obtain ⟨s, hs⟩ := ht.wellFormed.exists_source he
  obtain ⟨q, hq, hdvd⟩ := ht.needed_dvd_feed hf hdim he hn
  exact ⟨q, hq, hdvd.trans (ht.feed_dvd_grain hf hdim hs (ht.valid.source_iterative he hs))⟩

/-- A source grain is whole input strides. -/
theorem inStride_dvd_grain {e : Edge} {n : Node} (he : e ∈ k.edges)
    (hn : k.nodes[e.target]? = some n) : n.inStride.get dim ∣ grainAt k dim e.source := by
  obtain ⟨q, -, hq⟩ := ht.needed_dvd_grain hf hdim he hn
  exact (Dvd.intro_left q rfl).trans hq

/-- The grain of an output is the least common multiple of the blocks that the grains of
the reads yield. -/
theorem output_grain_dvd_iff {e : Edge} {n : Node} (he : e ∈ k.edges)
    (hn : k.nodes[e.target]? = some n) {m : Int} :
    grainAt k dim n.output ∣ m ↔ ∀ e' ∈ k.inputEdges n,
      grainAt k dim e'.source / n.inStride.get dim * n.outStride.get dim ∣ m := by
  have hI := ht.valid.inStride_pos hn dim
  have hO := ht.valid.outStride_pos hn dim
  obtain ⟨o, ho⟩ := ht.wellFormed.exists_output hn
  have hops : ∀ m, (∀ s ∈ grainOperands k (fun x => (tileAt k x).grain) o, s.get dim ∣ m) ↔
      ∀ e' ∈ k.inputEdges n,
        grainAt k dim e'.source / n.inStride.get dim * n.outStride.get dim ∣ m := by
    intro m
    rw [grainOperands, ht.wellFormed.producerOf_output hn ho]
    rw [List.forall_mem_map]
    refine forall₂_congr fun e' he' => ?_
    obtain ⟨hmem, htarget⟩ := (ht.wellFormed.mem_inputEdges_iff hn).mp he'
    obtain ⟨g, hg⟩ := ht.inStride_dvd_grain hf hdim hmem (htarget ▸ hn)
    rw [mul_comm] at hg
    rw [ht.yielded_eq hf hdim hmem (htarget ▸ hn), hg, ceilDiv_mul_self hI,
      Int.mul_ediv_cancel _ hI.ne']
  rw [ht.grain_dvd_iff hf hdim ho (ht.wellFormed.iterative_output hn ho), hops,
    and_iff_right_iff_imp]
  -- the feed grain of the output already divides what one read yields
  intro hall
  refine dvd_trans ?_ (hall e ((ht.wellFormed.mem_inputEdges_iff hn).mpr ⟨he, rfl⟩))
  obtain ⟨q, hq, hdvd⟩ := ht.needed_dvd_grain hf hdim he hn
  obtain ⟨g, hg⟩ := ht.inStride_dvd_grain hf hdim he hn
  rw [mul_comm] at hg
  rw [hq, hg, Int.mul_ediv_cancel _ hI.ne']
  rw [hg, mul_dvd_mul_iff_right hI.ne'] at hdvd
  exact mul_dvd_mul_right hdvd _

/-- Converted to blocks and back, a source grain is what its input strides yield. -/
theorem grain_mul_outStride_eq {e : Edge} {n : Node} (he : e ∈ k.edges)
    (hn : k.nodes[e.target]? = some n) :
    grainAt k dim e.source * n.outStride.get dim =
      grainAt k dim e.source / n.inStride.get dim * n.outStride.get dim * n.inStride.get dim := by
  rw [mul_right_comm, Int.ediv_mul_cancel (ht.inStride_dvd_grain hf hdim he hn)]

/-- An output grain is made of whole grains of every source. -/
theorem grain_mul_outStride_dvd {e : Edge} {n : Node} (he : e ∈ k.edges)
    (hn : k.nodes[e.target]? = some n) :
    grainAt k dim e.source * n.outStride.get dim ∣ grainAt k dim n.output * n.inStride.get dim := by
  rw [ht.grain_mul_outStride_eq hf hdim he hn]
  exact mul_dvd_mul_right ((ht.output_grain_dvd_iff hf hdim he hn).mp dvd_rfl e
    ((ht.wellFormed.mem_inputEdges_iff hn).mpr ⟨he, rfl⟩)) _

/-- One source grain makes one output grain exactly if the grains of all reads of the node
divide it. -/
theorem grain_mul_outStride_iff {e : Edge} {n : Node} (he : e ∈ k.edges)
    (hn : k.nodes[e.target]? = some n) :
    grainAt k dim e.source * n.outStride.get dim = grainAt k dim n.output * n.inStride.get dim ↔
      ∀ e' ∈ k.inputEdges n, grainAt k dim e'.source ∣ grainAt k dim e.source := by
  have hI := ht.valid.inStride_pos hn dim
  have hO := ht.valid.outStride_pos hn dim
  have hback : grainAt k dim n.output * n.inStride.get dim ∣
      grainAt k dim e.source * n.outStride.get dim ↔
        ∀ e' ∈ k.inputEdges n, grainAt k dim e'.source ∣ grainAt k dim e.source := by
    rw [ht.grain_mul_outStride_eq hf hdim he hn, mul_dvd_mul_iff_right hI.ne',
      ht.output_grain_dvd_iff hf hdim he hn]
    refine forall₂_congr fun e' he' => ?_
    obtain ⟨hmem, htarget⟩ := (ht.wellFormed.mem_inputEdges_iff hn).mp he'
    rw [← mul_dvd_mul_iff_right hI.ne', ← ht.grain_mul_outStride_eq hf hdim he hn,
      ← ht.grain_mul_outStride_eq hf hdim hmem (htarget ▸ hn), mul_dvd_mul_iff_right hO.ne']
  obtain ⟨s, hs⟩ := ht.wellFormed.exists_source he
  obtain ⟨o, ho⟩ := ht.wellFormed.exists_output hn
  have hsource := ht.grain_pos hf hdim hs (ht.valid.source_iterative he hs)
  have houtput := ht.grain_pos hf hdim ho (ht.wellFormed.iterative_output hn ho)
  rw [← hback]
  exact ⟨fun heq => heq ▸ dvd_rfl, fun hdvd =>
    Int.dvd_antisymm (mul_nonneg hsource.le hO.le) (mul_nonneg houtput.le hI.le)
      (ht.grain_mul_outStride_dvd hf hdim he hn) hdvd⟩

/-- Executions per grain, times the pixels each of them writes, make a grain. -/
theorem rate_mul_stride {i : DataId} {d : DataItem} (hd : k.data[i]? = some d)
    (hi : d.iterative = true) :
    (tileAt k i).rate.get dim * ((k.producerOf d).map fun n => n.outStride.get dim).getD 1 =
      grainAt k dim i := by
  rw [(ht.tileAt_eq hd hi).2.rate]
  cases hp : k.producerOf d with
  | none => exact mul_one _
  | some n =>
    obtain ⟨hn, rfl⟩ := ht.wellFormed.output_of_producerOf hd hp
    obtain ⟨q, hq⟩ := ht.outStride_dvd_grain hf hdim hn
    rw [mul_comm] at hq
    have hO := ht.valid.outStride_pos hn dim
    show (Size.divCeil _ _).get dim * n.outStride.get dim = _
    rw [Size.get_divCeil]
    show ceilDivWord (grainAt k dim n.output) _ * _ = _
    rw [ceilDivWord_of_nonneg hO (ht.grain_pos hf hdim hd hi).le (ht.fitsWord_grainAt hd hi dim).2, hq,
      ceilDiv_mul_self hO]

/-- The halo on either side is whole grains. -/
theorem halo_eq (hh : HalosFit k dim) {i : DataId} {d : DataItem} (hd : k.data[i]? = some d)
    (hi : d.iterative = true) :
    ∃ before after, 0 ≤ before ∧ 0 ≤ after ∧
      (haloAt k dim i).first = -(before * grainAt k dim i) ∧
      (haloAt k dim i).last = after * grainAt k dim i := by
  obtain ⟨x, y, hx, hy, hfirst, hlast⟩ := ht.halo_units hh hd hi
  rw [unitAt_of_pos (ht.grain_pos hf hdim hd hi)] at hfirst hlast
  exact ⟨-x, y, by omega, hy, by rw [hfirst]; ring, hlast⟩

end Fit

end Tiled

end StencilTiling.Analysis
