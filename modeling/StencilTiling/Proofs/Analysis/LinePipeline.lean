import StencilTiling.Proofs.Analysis.Run

/-! The line pipeline. A buffer gets the lines of its item grain by grain, one grain a
cycle, and keeps the latest of them; each consumer runs the executions of one grain a
cycle. The recorded cycles let a consumer start late enough that every line it reads is
there, and the recorded slots keep each line until its last reader is done. Where grains
are positive, no buffer could be smaller. -/

namespace StencilTiling.Analysis

open StencilTiling.Arith

/-! ### Readers of lines -/

/-- A consumer of the lines of an item. The item delivers `grain` lines a cycle from the
cycle `produced` on; the consumer starts at the cycle `consumed` and steps over `stride`
lines an execution, each of which reads `read`. -/
structure LineReader where
  grain : Int
  produced : Nat
  consumed : Nat
  stride : Int
  read : Span

namespace LineReader

/-- The cycle at which a line is delivered. -/
def arrival (r : LineReader) (line : Int) : Int := r.produced + floorDiv line r.grain

/-- Some execution of a step reads the line. -/
def Reads (r : LineReader) (step line : Int) : Prop :=
  ∃ j, (step * r.grain ≤ j * r.stride ∧ j * r.stride < (step + 1) * r.grain) ∧
    j * r.stride + r.read.first ≤ line ∧ line ≤ j * r.stride + r.read.last

/-- At the given step no later line has taken the slot of this one. -/
def Intact (r : LineReader) (slots : Nat) (step line : Int) : Prop :=
  ∀ later, line < later → r.arrival later ≤ r.consumed + step →
    later % (slots : Int) ≠ line % (slots : Int)

/-- With this many slots every line is intact whenever it is read. -/
def Safe (r : LineReader) (slots : Nat) : Prop :=
  ∀ step line, 0 ≤ step → 0 ≤ line → r.Reads step line → r.Intact slots step line

/-- Lines that have to be kept for the reader. -/
def lines (r : LineReader) : Int :=
  max (r.grain * ((r.consumed : Int) - r.produced + 1) - r.read.first) 1

/-- Steps consist of whole executions, and the reader waits for the last line of its first
grain. -/
structure Paced (r : LineReader) : Prop where
  stride_pos : 0 < r.stride
  stride_dvd : r.stride ∣ r.grain
  stride_le : r.stride ≤ r.read.last - r.read.first + 1
  lag : r.produced + 1 + ceilDiv (clampNonneg (r.read.last - (r.stride - 1))) (max r.grain 1) ≤
    r.consumed

variable {r : LineReader} {step line : Int}

/-- A grain that is not positive leaves no execution to any step. -/
theorem grain_pos_of_reads (h : r.Reads step line) : 0 < r.grain := by
  obtain ⟨j, ⟨hle, hlt⟩, -⟩ := h
  rw [add_one_mul] at hlt
  omega

/-- Without executions nothing is read, so nothing is lost. -/
theorem safe_of_grain_nonpos (hg : r.grain ≤ 0) (slots : Nat) : r.Safe slots :=
  fun _ _ _ _ h => absurd (grain_pos_of_reads h) (not_lt.mpr hg)

/-- The lines a step reads. -/
theorem Paced.bounds_of_reads (hp : r.Paced) (h : r.Reads step line) :
    step * r.grain + r.read.first ≤ line ∧
      line < (step + 1) * r.grain + clampNonneg (r.read.last - (r.stride - 1)) := by
  obtain ⟨j, ⟨hle, hlt⟩, hfirst, hlast⟩ := h
  refine ⟨by omega, ?_⟩
  -- the last execution of a step ends where the next step begins
  obtain ⟨q, hq⟩ := hp.stride_dvd
  have hj : j * r.stride + r.stride ≤ (step + 1) * r.grain := by
    rw [hq, mul_left_comm, mul_comm r.stride] at hlt ⊢
    rw [← add_one_mul]
    exact mul_le_mul_of_nonneg_right (lt_of_mul_lt_mul_right hlt hp.stride_pos.le) hp.stride_pos.le
  have : r.read.last - (r.stride - 1) ≤ clampNonneg (r.read.last - (r.stride - 1)) := by
    unfold clampNonneg
    split_ifs <;> omega
  omega

/-- What a step reads was delivered before it. -/
theorem Paced.arrival_lt (hp : r.Paced) (h : r.Reads step line) :
    r.arrival line < r.consumed + step := by
  have hg := grain_pos_of_reads h
  have hlag := hp.lag
  rw [max_eq_left (by omega)] at hlag
  have hline := (hp.bounds_of_reads h).2
  have hahead := le_ceilDiv_mul (n := clampNonneg (r.read.last - (r.stride - 1))) hg
  have hdiv : line / r.grain <
      step + 1 + ceilDiv (clampNonneg (r.read.last - (r.stride - 1))) r.grain := by
    refine Int.ediv_lt_of_lt_mul hg ?_
    rw [add_mul]
    omega
  rw [arrival, floorDiv]
  omega

/-- What has been delivered by the end of a step. -/
theorem lt_of_arrival_le (hg : 0 < r.grain) (h : r.arrival line ≤ r.consumed + step) :
    line < ((r.consumed : Int) - r.produced + 1) * r.grain + step * r.grain := by
  rw [arrival, floorDiv] at h
  have hlt := Int.lt_ediv_add_one_mul_self line hg
  have hle : (line / r.grain + 1) * r.grain ≤
      ((r.consumed : Int) - r.produced + 1 + step) * r.grain :=
    mul_le_mul_of_nonneg_right (by omega) hg.le
  rw [add_mul _ step] at hle
  omega

/-- A buffer with the lines of the reader overwrites nothing the reader still needs. -/
theorem Paced.safe (hp : r.Paced) {slots : Nat} (hslots : r.lines ≤ slots) : r.Safe slots := by
  intro step line _ _ h later hlater harrival heq
  have hg := grain_pos_of_reads h
  have hfirst := (hp.bounds_of_reads h).1
  have hlast := lt_of_arrival_le hg harrival
  have hkept : r.grain * ((r.consumed : Int) - r.produced + 1) - r.read.first ≤ slots :=
    (le_max_left _ _).trans hslots
  rw [mul_comm] at hkept
  have hdvd : (slots : Int) ∣ later - line :=
    Int.dvd_of_emod_eq_zero (Int.emod_eq_emod_iff_emod_sub_eq_zero.mp heq)
  have := Int.le_of_dvd (by omega) hdvd
  omega

/-- With fewer slots a line of some step is overwritten before it is read. -/
theorem Paced.lines_le_of_safe (hp : r.Paced) (hg : 0 < r.grain) {slots : Nat} (hpos : 0 < slots)
    (hsafe : r.Safe slots) : r.lines ≤ slots := by
  refine max_le ?_ (by omega)
  by_contra hlt
  rw [not_le, mul_comm] at hlt
  -- the first line of a step late enough that the window has left the border
  obtain ⟨q, hq⟩ := hp.stride_dvd
  set t : Int := max (-r.read.first) 0 with ht
  have ht0 : 0 ≤ t := le_max_right _ _
  have hline : 0 ≤ t * r.grain + r.read.first := by
    have := le_mul_of_one_le_right ht0 hg
    omega
  have hreads : r.Reads t (t * r.grain + r.read.first) := by
    have hj : t * q * r.stride = t * r.grain := by rw [hq]; ring
    have hlen := hp.stride_le
    have := hp.stride_pos
    exact ⟨t * q, by rw [hj, add_one_mul]; omega, by rw [hj], by rw [hj]; omega⟩
  refine hsafe t _ ht0 hline hreads (t * r.grain + r.read.first + slots) (by omega) ?_
    (Int.add_emod_right _ _)
  -- the line one round further on is among those delivered by then
  have harrival : (t * r.grain + r.read.first + slots) / r.grain <
      (r.consumed : Int) - r.produced + 1 + t := by
    refine Int.ediv_lt_of_lt_mul hg ?_
    rw [add_mul _ t]
    omega
  rw [arrival, floorDiv]
  omega

end LineReader

/-! ### Recorded pipelines -/

/-- One grain of the source answers to one grain of what the target of the edge writes. -/
def Corresponds (k : Kernel) (dim : Nat) (e : Edge) (n : Node) : Prop :=
  grainAt k dim e.source * n.outStride.get dim = grainAt k dim n.output * n.inStride.get dim

instance (k : Kernel) (dim : Nat) (e : Edge) (n : Node) : Decidable (Corresponds k dim e n) :=
  inferInstanceAs (Decidable (_ = _))

/-- The reader at an edge of an annotated kernel. -/
def readerOf (k : Kernel) (dim : Nat) (e : Edge) (n : Node) : LineReader where
  grain := grainAt k dim e.source
  produced := cycleAt k e.source
  consumed := cycleAt k n.output
  stride := n.inStride.get dim
  read := e.read.span dim

theorem max_linesAlive {k : Kernel} {dim : Nat} {e : Edge} {n : Node}
    (hn : k.nodes[e.target]? = some n) :
    max (linesAlive k dim e) 1 = (readerOf k dim e n).lines := by
  rw [linesAlive, hn]
  rfl

section Recorded

variable {k : Kernel} {config : TilingConfig} (ha : Annotated config k)
  (hm : config.mode.isTiled = true) {dim : Nat} (hdim : dim = config.scan.scanDim k.rank)
  (hfit : CountsFit k dim)

include ha hdim hfit

/-- Where grains correspond, the recorded cycles pace the reader. -/
theorem paced_readerOf (hb : GrainsBounded k dim) {e : Edge} (he : e ∈ k.edges) {n : Node}
    (hn : k.nodes[e.target]? = some n) (hpos : 0 < grainAt k dim e.source)
    (hc : Corresponds k dim e n) : (readerOf k dim e n).Paced := by
  have hI := ha.tiled.valid.inStride_pos hn dim
  have hO := ha.tiled.valid.outStride_pos hn dim
  refine ⟨hI, ?_, ha.tiled.valid.stride_le_read he hn dim, ?_⟩
  · have hout : 0 < grainAt k dim n.output := by
      have : 0 < grainAt k dim n.output * n.inStride.get dim := hc ▸ mul_pos hpos hO
      exact pos_of_mul_pos_left this hI.le
    obtain ⟨q, hq⟩ := ha.tiled.outStride_dvd_of_pos hb he hn hout
    refine ⟨q, mul_right_cancel₀ hO.ne' (hc.trans ?_)⟩
    show _ = n.inStride.get dim * q * n.outStride.get dim
    rw [hq]
    ring
  · have hlag := (hdim ▸ ha.cycled : Cycled k dim).source_add_lag_le ha.tiled.wellFormed hfit.cycles he hn
    have heq := hfit.cycles.lagAt_eq he
    rw [grainsAhead, hn] at heq
    simp only [readerOf]
    simp only [Window.last] at heq
    omega

include hm

/-- The recorded slots are the needed ones. -/
theorem slots_eq_slotsNeeded {i : DataId} {d : DataItem} (hd : k.data[i]? = some d)
    (hi : d.iterative = true) : (d.note.pattern.slots : Int) = slotsNeeded k dim d := by
  subst hdim
  have hmem := List.mem_of_getElem? hd
  have hslots := (ha.slots d hmem).1
  rw [dataSlots_eq_ok ha.tiled ha.cycled hd hi hm,
    slotsCounted_eq ha.tiled.wellFormed hfit.lines hd hi] at hslots
  have hone := one_le_slotsNeeded k (config.scan.scanDim k.rank) d
  rw [← Except.ok.inj hslots]
  exact wrap32_of_lt (by omega) (hfit.slots d (List.mem_filter.mpr ⟨hmem, hi⟩))

/-- The buffer of an item holds what each of its readers keeps alive. -/
theorem lines_le_slots {e : Edge} (he : e ∈ k.edges) {d : DataItem} (hd : k.data[e.source]? = some d)
    {n : Node} (hn : k.nodes[e.target]? = some n) :
    (readerOf k dim e n).lines ≤ d.note.pattern.slots := by
  rw [slots_eq_slotsNeeded ha hm hdim hfit hd (ha.tiled.valid.source_iterative he hd),
    ← max_linesAlive hn, slotsNeeded, mostLines]
  have hmem : max (linesAlive k dim e) 1 ∈ (k.usersOf d).map fun e => max (linesAlive k dim e) 1 :=
    List.mem_map.mpr ⟨e, (ha.tiled.wellFormed.mem_usersOf_iff hd).mpr ⟨he, rfl⟩, rfl⟩
  cases hmax : ((k.usersOf d).map fun e => max (linesAlive k dim e) 1).max? with
  | none => simp [List.max?_eq_none_iff.mp hmax] at hmem
  | some m =>
    have hle := (List.max?_eq_some_iff.mp hmax).2 _ hmem
    rw [Option.getD_some]
    split_ifs <;> omega

/-- Some reader of a temporary or parameter needs all of its slots. -/
theorem exists_lines_eq_slots {i : DataId} {d : DataItem} (hd : k.data[i]? = some d)
    (hout : d.isOutput = false) (husers : k.usersOf d ≠ []) :
    ∃ e ∈ k.usersOf d, ∃ n, k.nodes[e.target]? = some n ∧
      (d.note.pattern.slots : Int) = (readerOf k dim e n).lines := by
  have hwf := ha.tiled.wellFormed
  obtain ⟨m, hmax⟩ := Option.ne_none_iff_exists'.mp (mt List.max?_eq_none_iff.mp
    (mt List.map_eq_nil_iff.mp husers) :
      ((k.usersOf d).map fun e => max (linesAlive k dim e) 1).max? ≠ none)
  obtain ⟨e, he, rfl⟩ := List.mem_map.mp (List.max?_eq_some_iff.mp hmax).1
  obtain ⟨hmem, rfl⟩ := (hwf.mem_usersOf_iff hd).mp he
  obtain ⟨n, hn⟩ := hwf.exists_target hmem
  refine ⟨e, he, n, hn, ?_⟩
  rw [slots_eq_slotsNeeded ha hm hdim hfit hd (ha.tiled.valid.source_iterative hmem hd), slotsNeeded,
    mostLines, hmax, Option.getD_some, hout, if_neg (by decide), max_linesAlive hn]
  exact max_eq_left (le_max_right _ _)

end Recorded

/-- A validated kernel without cycles is annotated, and its line pipelines run: where one
grain of an item answers to one grain of what a consumer writes, every line the consumer
reads was delivered before and is still in its slot. A buffer of an item with a positive
grain whose consumers are all of this kind is as small as they allow, unless the item is a
kernel output. -/
theorem line_pipelines_run {k k' : Kernel} {config : TilingConfig} {order : List NodeId}
    {r : Except AnalysisError Pipeline} {dim : Nat} (hb : k.Built) (hv : k.validate = .ok ())
    (ho : topologicalOrder k = .ok order) (hm : config.mode.isTiled = true)
    (hrun : annotate config k = (r, k')) (hdim : dim = config.scan.scanDim k'.rank)
    (hfit : CountsFit k' dim) (hgrains : GrainsBounded k' dim) :
    (∃ pipeline, r = .ok pipeline) ∧ k.SameGraph k' ∧
      (∀ e ∈ k'.edges, ∀ d n, k'.data[e.source]? = some d → k'.nodes[e.target]? = some n →
        Corresponds k' dim e n → ∀ step line, 0 ≤ step → 0 ≤ line →
        (readerOf k' dim e n).Reads step line →
          (readerOf k' dim e n).arrival line < cycleAt k' n.output + step ∧
            (readerOf k' dim e n).Intact d.note.pattern.slots step line) ∧
      ∀ d ∈ k'.data, d.isOutput = false → k'.usersOf d ≠ [] → 0 < grainAt k' dim d.id →
        (∀ e ∈ k'.usersOf d, ∀ n ∈ k'.nodes[e.target]?, Corresponds k' dim e n) →
        ∀ slots, 0 < slots →
          (∀ e ∈ k'.usersOf d, ∀ n ∈ k'.nodes[e.target]?, (readerOf k' dim e n).Safe slots) →
            d.note.pattern.slots ≤ slots := by
  have hw := hb.wellFormed
  obtain ⟨pipeline, rfl⟩ := annotate_complete hw hv ho hrun fun _ => hdim ▸ hfit
  obtain ⟨hgraph, ha⟩ := annotate_annotated hw hrun
  refine ⟨⟨pipeline, rfl⟩, hgraph, fun e he d n hd hn hc step line h0 hl hreads => ?_,
    fun d hmem hout husers hpos hall slots hslots hsafe => ?_⟩
  · have hp := paced_readerOf ha hdim hfit hgrains he hn (LineReader.grain_pos_of_reads hreads) hc
    exact ⟨hp.arrival_lt hreads,
      hp.safe (lines_le_slots ha hm hdim hfit he hd hn) step line h0 hl hreads⟩
  · have hd := ha.tiled.wellFormed.getElem?_id hmem
    obtain ⟨e, he, n, hn, heq⟩ := exists_lines_eq_slots ha hm hdim hfit hd hout husers
    obtain ⟨hedge, hsource⟩ := (ha.tiled.wellFormed.mem_usersOf_iff hd).mp he
    have hp := paced_readerOf ha hdim hfit hgrains hedge hn (hsource ▸ hpos) (hall e he n hn)
    have hle := hp.lines_le_of_safe (show 0 < grainAt k' dim e.source from hsource ▸ hpos) hslots
      (hsafe e he n hn)
    omega

/-- Blurs an image and combines it with the result, which it needs two lines ahead. -/
def sharpening : Kernel :=
  .ofDeclarations "sharpening"
    [.input "a" .float [.fixed 16], .data "t" .float [.fixed 16], .output "o" .float [.fixed 16],
      .node {} { name := "blur", output := 1, inputs := [⟨0, ⟨[⟨-2, 1⟩]⟩, .undef⟩] },
      .node {} { name := "sharpen", output := 2,
                 inputs := [⟨0, ⟨[⟨0, 0⟩]⟩, .undef⟩, ⟨1, ⟨[⟨-1, 2⟩]⟩, .undef⟩] }]

def sharpened : Except AnalysisError Pipeline × Kernel :=
  annotate { mode := .workGroupSlicing } sharpening

/-- The image stays in six slots until its second reader comes to it at cycle five; the
first reader, at cycle two, would need five. -/
theorem line_pipelines_sharpened :
    (∃ pipeline, sharpened.1 = .ok pipeline) ∧
      ∃ d ∈ sharpened.2.data, d.name = "a" ∧ d.note.pattern.slots = 6 ∧
        (∀ e ∈ sharpened.2.usersOf d, ∀ n ∈ sharpened.2.nodes[e.target]?, ∀ step line,
          0 ≤ step → 0 ≤ line → (readerOf sharpened.2 0 e n).Reads step line →
            (readerOf sharpened.2 0 e n).arrival line < cycleAt sharpened.2 n.output + step ∧
              (readerOf sharpened.2 0 e n).Intact 6 step line) ∧
        ∀ slots, 0 < slots → (∀ e ∈ sharpened.2.usersOf d, ∀ n ∈ sharpened.2.nodes[e.target]?,
          (readerOf sharpened.2 0 e n).Safe slots) → 6 ≤ slots := by
  have hdim : 0 = ScanOrder.rows.scanDim sharpened.2.rank := by decide +kernel
  obtain ⟨hok, -, hreads, hleast⟩ := line_pipelines_run (k := sharpening)
    (Kernel.built_ofDeclarations _ _) (by decide +kernel)
    (show topologicalOrder sharpening = .ok [0, 1] by decide +kernel) (by decide)
    (Prod.mk.eta (p := sharpened)).symm hdim (by decide +kernel) (by decide +kernel)
  have hfacts : ∃ d ∈ sharpened.2.data[0]?, d.name = "a" ∧ d.note.pattern.slots = 6 ∧
      d.isOutput = false ∧ sharpened.2.usersOf d ≠ [] ∧ 0 < grainAt sharpened.2 0 d.id ∧
      (∀ e ∈ sharpened.2.usersOf d, e ∈ sharpened.2.edges ∧ e.source = 0) ∧
      ∀ e ∈ sharpened.2.usersOf d, ∀ n ∈ sharpened.2.nodes[e.target]?, Corresponds sharpened.2 0 e n := by
    decide +kernel
  obtain ⟨d, hd, hname, hslots, hout, husers, hpos, hedges, hc⟩ := hfacts
  refine ⟨hok, d, List.mem_of_getElem? hd, hname, hslots, fun e he n hn => ?_, ?_⟩
  · obtain ⟨hedge, hsource⟩ := hedges e he
    rw [← hslots]
    exact hreads e hedge d n (hsource ▸ hd) hn (hc e he n hn)
  · rw [← hslots]
    exact hleast d (List.mem_of_getElem? hd) hout husers hpos hc

/-- Adds three images whose grains have a least common multiple of 2⁶⁴ - 2²². -/
def overlapping : Kernel :=
  .ofDeclarations "overlapping"
    [.input "a" .float [.fixed 8], .input "b" .float [.fixed 8], .input "c" .float [.fixed 8],
      .data "t" .float [.fixed 8], .output "o" .float [.fixed 8], .output "p" .float [.fixed 1],
      .output "q" .float [.fixed 1], .output "r" .float [.fixed 1],
      .node {} { name := "join", output := 3,
                 inputs := [⟨0, ⟨[⟨0, 0⟩]⟩, .undef⟩, ⟨1, ⟨[⟨0, 0⟩]⟩, .undef⟩,
                   ⟨2, ⟨[⟨0, 0⟩]⟩, .undef⟩] },
      .node {} { name := "look", output := 4,
                 inputs := [⟨3, ⟨[⟨-0x800005, 0⟩]⟩, .undef⟩, ⟨1, ⟨[⟨0, 0⟩]⟩, .undef⟩,
                   ⟨2, ⟨[⟨0, 0⟩]⟩, .undef⟩] },
      .node {} { name := "f", output := 5, inStride := some ⟨[0x400000]⟩,
                 inputs := [⟨0, ⟨[⟨0, 0x3fffff⟩]⟩, .undef⟩] },
      .node {} { name := "g", output := 6, inStride := some ⟨[0x1fffff]⟩,
                 inputs := [⟨1, ⟨[⟨0, 0x1ffffe⟩]⟩, .undef⟩] },
      .node {} { name := "h", output := 7, inStride := some ⟨[0x200001]⟩,
                 inputs := [⟨2, ⟨[⟨0, 0x200000⟩]⟩, .undef⟩] }]

def overlapped : Except AnalysisError Pipeline × Kernel :=
  annotate { mode := .workGroupSlicing } overlapping

/-- The grain of the sum is cut to a negative number. The consumer of the sum then never
runs, so one slot would do for it, but five are recorded. -/
theorem slots_exceed_negative_grain :
    overlapping.Built ∧ overlapping.validate = .ok () ∧
      topologicalOrder overlapping = .ok [0, 1, 2, 3, 4] ∧ CountsFit overlapped.2 0 ∧
      GrainsBounded overlapped.2 0 ∧
      ∃ d ∈ overlapped.2.data, d.isOutput = false ∧ overlapped.2.usersOf d ≠ [] ∧
        (∀ e ∈ overlapped.2.usersOf d, ∀ n ∈ overlapped.2.nodes[e.target]?,
          Corresponds overlapped.2 0 e n) ∧
        grainAt overlapped.2 0 d.id = -0x400000 ∧ d.note.pattern.slots = 5 ∧
        ∀ e ∈ overlapped.2.usersOf d, ∀ n ∈ overlapped.2.nodes[e.target]?,
          (readerOf overlapped.2 0 e n).Safe 1 := by
  have hfacts : ∃ d ∈ overlapped.2.data[3]?, d.isOutput = false ∧ overlapped.2.usersOf d ≠ [] ∧
      (∀ e ∈ overlapped.2.usersOf d, ∀ n ∈ overlapped.2.nodes[e.target]?,
        Corresponds overlapped.2 0 e n) ∧
      grainAt overlapped.2 0 d.id = -0x400000 ∧ d.note.pattern.slots = 5 ∧
      ∀ e ∈ overlapped.2.usersOf d, ∀ n ∈ overlapped.2.nodes[e.target]?,
        (readerOf overlapped.2 0 e n).grain ≤ 0 := by
    decide +kernel
  obtain ⟨d, hd, hout, husers, hc, hgrain, hslots, hnonpos⟩ := hfacts
  exact ⟨Kernel.built_ofDeclarations _ _, by decide +kernel, by decide +kernel, by decide +kernel,
    by decide +kernel, d, List.mem_of_getElem? hd, hout, husers, hc, hgrain, hslots,
    fun e he n hn => LineReader.safe_of_grain_nonpos (hnonpos e he n hn) 1⟩

end StencilTiling.Analysis
