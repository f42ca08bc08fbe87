import StencilTiling.Proofs.Analysis.LeastSchedule

/-! The equations of the tile and cycle passes over the integers: least common multiples,
hulls of windows and longest ways. Each quantity of an item follows from its neighbours on
one side, so in a graph without cycles there is one solution. As long as no number is cut,
it is the recorded one. -/

namespace StencilTiling.Analysis

open Arith

/-! ### The equations -/

/-- Sizes and windows of the items by dimension, and their cycles. -/
structure Sweeps where
  feed : DataId → Nat → Int
  grain : DataId → Nat → Int
  rate : DataId → Nat → Int
  halo : DataId → Nat → Span
  reads : DataId → Nat → Span
  cycle : DataId → Nat

/-- What the passes recorded. -/
def recorded (k : Kernel) : Sweeps where
  feed i dim := feedAt k dim i
  grain i dim := grainAt k dim i
  rate i dim := (tileAt k i).rate.get dim
  halo i dim := (tileAt k i).halo.span dim
  reads i dim := (tileAt k i).reads.span dim
  cycle := cycleAt k

/-- A value for each read of an item, with the node that reads. -/
def perUser {α : Type} (k : Kernel) (d : DataItem) (f : Edge → Node → α) : List α :=
  (k.usersOf d).filterMap fun e => (k.nodes[e.target]?).map (f e)

/-- A value for each read of the node that writes an item. -/
def perRead {α : Type} (k : Kernel) (d : DataItem) (f : Edge → Node → α) : List α :=
  (k.producerOf d).toList.flatMap fun n => (k.inputEdges n).map (f · n)

def leastMultiple (l : List Int) : Int := l.foldr (fun x m => (Int.lcm x m : Int)) 1

/-- A size in whole strides of one kind, converted to as many of another. -/
def restride (size a b : Int) : Int := ⌈(size : ℚ) / a⌉ * b

/-- The smallest span that holds the index zero and all of the spans. -/
def hull (l : List Span) : Span :=
  l.foldl (fun s t => ⟨min s.first t.first, max s.last t.last⟩) .zero

/-- Both ends moved outward to multiples of a grain. -/
def outward (s : Span) (grain : Int) : Span :=
  ⟨⌊(s.first : ℚ) / grain⌋ * grain, ⌈(s.last : ℚ) / grain⌉ * grain⟩

/-- What a reader needs around an item: the halo of what it writes, brought back through
its strides, and the read window less one input stride. -/
def readerHalo (halo : Span) (e : Edge) (n : Node) (dim : Nat) : Span :=
  ⟨⌊((halo.first * n.inStride.get dim : Int) : ℚ) / n.outStride.get dim⌋ + e.read.first dim,
    ⌈((halo.last * n.inStride.get dim : Int) : ℚ) / n.outStride.get dim⌉ +
      (e.read.last dim + 1 - n.inStride.get dim)⟩

/-- Feed grains and halos follow from the readers of an item, grains and cycles from the reads
of its producer. The hulls, also that of the read windows, start at the index zero. -/
structure SweepEquations (k : Kernel) (scanDim : Nat) (s : Sweeps) : Prop where
  feed : ∀ d ∈ k.iterativeData, ∀ dim, s.feed d.id dim = leastMultiple
    (perUser k d (fun _ n =>
        restride (s.feed n.output dim) (n.outStride.get dim) (n.inStride.get dim)) ++
      ((k.producerOf d).map fun n => n.outStride.get dim).toList)
  grain : ∀ d ∈ k.iterativeData, ∀ dim, s.grain d.id dim = leastMultiple
    (s.feed d.id dim :: perRead k d fun e n =>
      restride (s.grain e.source dim) (n.inStride.get dim) (n.outStride.get dim))
  rate : ∀ d ∈ k.iterativeData, ∀ dim,
    s.rate d.id dim * ((k.producerOf d).map fun n => n.outStride.get dim).getD 1 = s.grain d.id dim
  halo : ∀ d ∈ k.iterativeData, ∀ dim, s.halo d.id dim =
    outward (hull (perUser k d fun e n => readerHalo (s.halo n.output dim) e n dim))
      (s.grain d.id dim)
  reads : ∀ d ∈ k.iterativeData, ∀ dim,
    s.reads d.id dim = hull (perUser k d fun e _ => e.read.span dim)
  start : ∀ d ∈ k.data, d.role = .input ∨ d.iterative = false → s.cycle d.id = 0
  cycle : ∀ n ∈ k.nodes, (s.cycle n.output : Int) = ((k.inputEdges n).map fun e =>
    s.cycle e.source + waitFor e n scanDim (s.grain e.source scanDim)).foldl max 1

/-- The same sizes and windows for every image, and the same cycle for every item. -/
structure Agree (k : Kernel) (s t : Sweeps) : Prop where
  feed : ∀ d ∈ k.iterativeData, s.feed d.id = t.feed d.id
  grain : ∀ d ∈ k.iterativeData, s.grain d.id = t.grain d.id
  rate : ∀ d ∈ k.iterativeData, s.rate d.id = t.rate d.id
  halo : ∀ d ∈ k.iterativeData, s.halo d.id = t.halo d.id
  reads : ∀ d ∈ k.iterativeData, s.reads d.id = t.reads d.id
  cycle : ∀ d ∈ k.data, s.cycle d.id = t.cycle d.id

/-! ### One solution -/

section Neighbours

variable {α : Type} {k : Kernel} (h : k.WellFormed) {i : DataId} {d : DataItem}
  (hd : k.data[i]? = some d)

include h hd

theorem perUser_congr {f g : Edge → Node → α} (hfg : ∀ e n, Feeds k i n.output → f e n = g e n) :
    perUser k d f = perUser k d g := by
  refine List.filterMap_congr fun e he => ?_
  cases hn : k.nodes[e.target]? with
  | none => rfl
  | some n => exact congrArg some (hfg e n (feeds_of_mem_usersOf h hd he hn))

theorem perRead_congr {f g : Edge → Node → α} (hfg : ∀ e n, Feeds k e.source i → f e n = g e n) :
    perRead k d f = perRead k d g := by
  unfold perRead
  cases hp : k.producerOf d with
  | none => rfl
  | some n =>
    simp only [Option.toList_some, List.flatMap_singleton]
    exact List.map_congr_left fun e he => hfg e n (feeds_of_mem_inputEdges h hd hp he)

/-- Every read has a node that makes it. -/
theorem map_usersOf {f : Edge → Node → α} {g : Edge → α}
    (hfg : ∀ e ∈ k.usersOf d, ∀ n, k.nodes[e.target]? = some n → g e = f e n) :
    (k.usersOf d).map g = perUser k d f := by
  rw [perUser, ← List.filterMap_eq_map]
  refine List.filterMap_congr fun e he => ?_
  obtain ⟨n, hn⟩ := h.exists_target ((h.mem_usersOf_iff hd).mp he).1
  rw [hn]
  exact congrArg some (hfg e he n hn)

end Neighbours

theorem DataOrder.mem_image {k : Kernel} {ds : List DataId} (ho : DataOrder k ds) (h : k.WellFormed)
    {d : DataItem} (hd : d ∈ k.iterativeData) : d.id ∈ ds := by
  obtain ⟨hmem, hi⟩ := List.mem_filter.mp hd
  exact (ho.mem_iff _).mpr ⟨d, h.getElem?_id hmem, hi⟩

theorem DataOrder.exists_image {k : Kernel} {ds : List DataId} (ho : DataOrder k ds) (h : k.WellFormed)
    {i : DataId} (hi : i ∈ ds) : ∃ d, k.data[i]? = some d ∧ d.id = i ∧ d ∈ k.iterativeData := by
  obtain ⟨d, hd, hiter⟩ := (ho.mem_iff i).mp hi
  exact ⟨d, hd, h.data_id hd, Kernel.mem_iterativeData_iff.mpr ⟨_, hd, hiter⟩⟩

namespace SweepEquations

variable {k : Kernel} {scanDim : Nat} {s t : Sweeps} {ds : List DataId} (h : k.WellFormed) (hv : k.Valid)
  (ho : DataOrder k ds) (hs : SweepEquations k scanDim s) (ht : SweepEquations k scanDim t)

include h hv ho hs ht

/-- Against the flow the readers decide. -/
theorem feed_eq : ∀ i ∈ ds, s.feed i = t.feed i := by
  refine ho.backward h hv fun i hi hback => ?_
  obtain ⟨d, hd, rfl, hiter⟩ := ho.exists_image h hi
  funext dim
  rw [hs.feed d hiter, ht.feed d hiter, perUser_congr h hd fun e n hx => by rw [hback _ hx]]

/-- With the flow the producer's reads decide. -/
theorem grain_eq : ∀ i ∈ ds, s.grain i = t.grain i := by
  refine ho.forward h hv fun i hi hback => ?_
  have hfeed := feed_eq h hv ho hs ht i hi
  obtain ⟨d, hd, rfl, hiter⟩ := ho.exists_image h hi
  funext dim
  rw [hs.grain d hiter, ht.grain d hiter, hfeed, perRead_congr h hd fun e n hx => by rw [hback _ hx]]

theorem halo_eq : ∀ i ∈ ds, s.halo i = t.halo i := by
  refine ho.backward h hv fun i hi hback => ?_
  have hgrain := grain_eq h hv ho hs ht i hi
  obtain ⟨d, hd, rfl, hiter⟩ := ho.exists_image h hi
  funext dim
  rw [hs.halo d hiter, ht.halo d hiter, hgrain, perUser_congr h hd fun e n hx => by rw [hback _ hx]]

theorem cycle_eq : ∀ i ∈ ds, s.cycle i = t.cycle i := by
  refine ho.forward h hv fun i hi hback => ?_
  obtain ⟨d, hd, rfl, -⟩ := ho.exists_image h hi
  have hmem := List.mem_of_getElem? hd
  rcases hv.input_or_produced hd with hr | ⟨m, hm⟩
  · rw [hs.start d hmem (.inl hr), ht.start d hmem (.inl hr)]
  · obtain ⟨n, hn, hout⟩ := (h.producer_iff hd m).mp hm
    have hnode := List.mem_of_getElem? hn
    rw [← hout, ← Int.natCast_inj, hs.cycle n hnode, ht.cycle n hnode]
    congr 1
    refine List.map_congr_left fun e he => ?_
    obtain ⟨hedge, rfl⟩ := (h.mem_inputEdges_iff hn).mp he
    have hfeeds : Feeds k e.source d.id := ⟨e, hedge, n, hn, rfl, hout⟩
    rw [hback _ hfeeds, grain_eq h hv ho hs ht _ (ho.mem_of_feeds h hv hfeeds).1]

/-- In a graph without cycles the equations have one solution. -/
theorem agree : Agree k s t where
  feed d hd := feed_eq h hv ho hs ht _ (ho.mem_image h hd)
  grain d hd := grain_eq h hv ho hs ht _ (ho.mem_image h hd)
  rate d hd := by
    funext dim
    have hstride : ((k.producerOf d).map fun n => n.outStride.get dim).getD 1 ≠ 0 := by
      cases hp : k.producerOf d with
      | none => exact one_ne_zero
      | some n =>
        have hget := h.getElem?_id (List.mem_of_mem_filter hd)
        exact (hv.outStride_pos (h.output_of_producerOf hget hp).1 dim).ne'
    refine mul_right_cancel₀ hstride ?_
    rw [hs.rate d hd, ht.rate d hd, grain_eq h hv ho hs ht _ (ho.mem_image h hd)]
  halo d hd := halo_eq h hv ho hs ht _ (ho.mem_image h hd)
  reads d hd := by
    funext dim
    rw [hs.reads d hd, ht.reads d hd]
  cycle d hd := by
    cases hi : d.iterative with
    | true => exact cycle_eq h hv ho hs ht _ (ho.mem_image h (List.mem_filter.mpr ⟨hd, hi⟩))
    | false => rw [hs.start d hd (.inr hi), ht.start d hd (.inr hi)]

end SweepEquations

/-! ### What is recorded solves the equations -/

theorem leastMultiple_dvd_iff {l : List Int} {m : Int} : leastMultiple l ∣ m ↔ ∀ x ∈ l, x ∣ m := by
  induction l with
  | nil => simp [leastMultiple]
  | cons x rest ih =>
    rw [leastMultiple, List.foldr_cons, Int.coe_lcm_dvd_iff, List.forall_mem_cons, ← ih]
    rfl

theorem leastMultiple_nonneg : ∀ l : List Int, 0 ≤ leastMultiple l
  | [] => Int.one_nonneg
  | _ :: _ => Int.natCast_nonneg _

/-- A number is the least common multiple if it divides what the members divide. -/
theorem eq_leastMultiple {l : List Int} {x : Int} (hx : 0 ≤ x) (h : ∀ m, x ∣ m ↔ ∀ y ∈ l, y ∣ m) :
    x = leastMultiple l :=
  Int.dvd_antisymm hx (leastMultiple_nonneg l) ((h _).mpr (leastMultiple_dvd_iff.mp dvd_rfl))
    (leastMultiple_dvd_iff.mpr ((h x).mp dvd_rfl))

theorem restride_eq {size a : Int} (ha : 0 < a) (b : Int) : restride size a b = ceilDiv size a * b := by
  rw [restride, ceilDiv_eq_ceil ha]

/-- Unions of windows are hulls in every dimension. -/
theorem span_foldl_union (windows : List Window) (rank dim : Nat) :
    (windows.foldl Window.union (.zero rank)).span dim = hull (windows.map (·.span dim)) := by
  have hstep : ∀ (l : List Window) (w : Window), (l.foldl Window.union w).span dim =
      (l.map (·.span dim)).foldl (fun s t => ⟨min s.first t.first, max s.last t.last⟩) (w.span dim) := by
    intro l
    induction l with
    | nil => exact fun _ => rfl
    | cons x rest ih =>
      intro w
      rw [List.foldl_cons, ih, Window.span_union]
      rfl
  rw [hstep, Window.span_zero]
  rfl

theorem foldl_lcm_eq_one {sizes : List Size} {s : Size} {dim : Nat} (hs : s.get dim = 1)
    (hall : ∀ x ∈ sizes, x.get dim = 1) : (sizes.foldl Size.lcm s).get dim = 1 := by
  induction sizes generalizing s with
  | nil => exact hs
  | cons x rest ih =>
    obtain ⟨hx, hrest⟩ := List.forall_mem_cons.mp hall
    refine ih ?_ hrest
    rw [Size.get_lcm, hs, hx, lcmWord_one_one]

namespace Tiled

variable {k : Kernel} (ht : Tiled k) {dim : Nat} {i : DataId} {d : DataItem}

include ht

theorem stride_past_rank (hdim : k.rank ≤ dim) {m : NodeId} {n : Node} (hn : k.nodes[m]? = some n) :
    n.inStride.get dim = 1 ∧ n.outStride.get dim = 1 := by
  obtain ⟨hin, hout⟩ := ht.valid.stride_rank hn
  exact ⟨Size.get_of_rank_le (hin ▸ hdim), Size.get_of_rank_le (hout ▸ hdim)⟩

/-- Past the rank there is one element to feed. -/
theorem feed_past_rank (hdim : k.rank ≤ dim) (hd : k.data[i]? = some d) (hi : d.iterative = true) :
    feedAt k dim i = 1 ∧ ∀ s ∈ feedOperands k (fun x => (tileAt k x).feedGrain) d, s.get dim = 1 := by
  have hoperands : ∀ {j d}, k.data[j]? = some d → (∀ x, Feeds k j x → feedAt k dim x = 1) →
      ∀ s ∈ feedOperands k (fun x => (tileAt k x).feedGrain) d, s.get dim = 1 := by
    intro j d hd hback s hs
    rcases List.mem_append.mp hs with hs | hs
    · obtain ⟨e, he, rfl⟩ := List.mem_map.mp hs
      obtain ⟨n, hn⟩ := ht.wellFormed.exists_target ((ht.wellFormed.mem_usersOf_iff hd).mp he).1
      obtain ⟨hin, hout⟩ := ht.stride_past_rank hdim hn
      have hfeed : (tileAt k n.output).feedGrain.get dim = 1 :=
        hback _ (feeds_of_mem_usersOf ht.wellFormed hd he hn)
      rw [neededSize, hn, Size.get_mul, Size.get_divCeil, hfeed, hin, hout]
      rfl
    · simp only [Option.mem_toList, Option.map_eq_some_iff] at hs
      obtain ⟨n, hn, rfl⟩ := hs
      exact (ht.stride_past_rank hdim (ht.wellFormed.output_of_producerOf hd hn).1).2
  -- there is nothing to multiply, whatever is asked further down
  obtain ⟨ds, ho⟩ := ht.ordered
  have hfeed : ∀ j ∈ ds, feedAt k dim j = 1 := by
    refine ho.backward ht.wellFormed ht.valid fun j hj hback => ?_
    obtain ⟨d, hd, hi⟩ := (ho.mem_iff j).mp hj
    rw [feedAt, (ht.tileAt_eq hd hi).2.feed]
    exact foldl_lcm_eq_one (Size.get_ones _ _) (hoperands hd hback)
  exact ⟨hfeed i ((ho.mem_iff i).mpr ⟨d, hd, hi⟩), hoperands hd fun x hx =>
    hfeed x (ho.mem_of_feeds ht.wellFormed ht.valid hx).2⟩

theorem grain_past_rank (hdim : k.rank ≤ dim) (hd : k.data[i]? = some d) (hi : d.iterative = true) :
    grainAt k dim i = 1 ∧ ∀ s ∈ grainOperands k (fun x => (tileAt k x).grain) d, s.get dim = 1 := by
  have hoperands : ∀ {j d}, k.data[j]? = some d → (∀ x, Feeds k x j → grainAt k dim x = 1) →
      ∀ s ∈ grainOperands k (fun x => (tileAt k x).grain) d, s.get dim = 1 := by
    intro j d hd hback s hs
    rw [grainOperands] at hs
    split at hs
    · next n hp =>
      obtain ⟨e, he, rfl⟩ := List.mem_map.mp hs
      obtain ⟨hin, hout⟩ := ht.stride_past_rank hdim (ht.wellFormed.output_of_producerOf hd hp).1
      have hgrain : (tileAt k e.source).grain.get dim = 1 :=
        hback _ (feeds_of_mem_inputEdges ht.wellFormed hd hp he)
      rw [yieldedSize, Size.get_mul, Size.get_divCeil, hgrain, hin, hout]
      rfl
    · cases hs
  obtain ⟨ds, ho⟩ := ht.ordered
  have hgrain : ∀ j ∈ ds, grainAt k dim j = 1 := by
    refine ho.forward ht.wellFormed ht.valid fun j hj hback => ?_
    obtain ⟨d, hd, hi⟩ := (ho.mem_iff j).mp hj
    rw [grainAt, (ht.tileAt_eq hd hi).2.grain]
    exact foldl_lcm_eq_one (ht.feed_past_rank hdim hd hi).1 (hoperands hd hback)
  exact ⟨hgrain i ((ho.mem_iff i).mpr ⟨d, hd, hi⟩), hoperands hd fun x hx =>
    hgrain x (ho.mem_of_feeds ht.wellFormed ht.valid hx).1⟩

/-- Past the rank a window is the index zero. -/
theorem read_past_rank (hdim : k.rank ≤ dim) {e : Edge} (he : e ∈ k.edges) :
    e.read.span dim = .zero :=
  Window.span_of_rank_le (ht.valid.read_rank he ▸ hdim)

/-- Past the rank no halo is asked for. -/
theorem halo_past_rank (hdim : k.rank ≤ dim) (hd : k.data[i]? = some d) (hi : d.iterative = true) :
    haloAt k dim i = .zero ∧ askedAt k dim d = .zero := by
  have hzero : ∀ windows : List Window, (∀ w ∈ windows, w.span dim = .zero) → ∀ rank,
      (windows.foldl Window.union (.zero rank)).span dim = .zero := by
    intro windows hall rank
    rw [span_foldl_union, List.map_congr_left hall, hull]
    induction windows with
    | nil => rfl
    | cons w rest ih => exact ih fun x hx => hall x (List.mem_cons_of_mem _ hx)
  have hasked : ∀ {j d}, k.data[j]? = some d → (∀ x, Feeds k j x → haloAt k dim x = .zero) →
      askedAt k dim d = .zero := by
    intro j d hd hback
    refine hzero _ (fun w hw => ?_) _
    obtain ⟨e, he, rfl⟩ := List.mem_map.mp hw
    have hmem := ((ht.wellFormed.mem_usersOf_iff hd).mp he).1
    obtain ⟨n, hn⟩ := ht.wellFormed.exists_target hmem
    obtain ⟨hin, hout⟩ := ht.stride_past_rank hdim hn
    have hhalo : (tileAt k n.output).halo.span dim = .zero :=
      hback _ (feeds_of_mem_usersOf ht.wellFormed hd he hn)
    rw [askedHalo, hn]
    show (Window.add _ _).span dim = _
    rw [Window.span_add, Window.first, Window.last, Window.first, Window.last, Window.span_scale,
      Window.span_subSize, Window.first, Window.last, Window.first, Window.last, hhalo,
      ht.read_past_rank hdim hmem, hin, hout]
    rfl
  obtain ⟨ds, ho⟩ := ht.ordered
  have hhalo : ∀ j ∈ ds, haloAt k dim j = .zero := by
    refine ho.backward ht.wellFormed ht.valid fun j hj hback => ?_
    obtain ⟨d, hd, hi⟩ := (ho.mem_iff j).mp hj
    have hgrain : (tileAt k j).grain.get dim = 1 := (ht.grain_past_rank hdim hd hi).1
    have hspan : ((haloOperands k (fun x => (tileAt k x).halo) d).foldl Window.union
        (.zero d.rank)).span dim = .zero := hasked hd hback
    rw [haloAt, (ht.tileAt_eq hd hi).2.halo, Window.span_inflate, Window.first, Window.last, hspan,
      Window.unit, hgrain]
    rfl
  exact ⟨hhalo i ((ho.mem_iff i).mpr ⟨d, hd, hi⟩), hasked hd fun x hx =>
    hhalo x (ho.mem_of_feeds ht.wellFormed ht.valid hx).2⟩

/-- Past the rank everything is a word. -/
theorem halosFit_past_rank (hdim : k.rank ≤ dim) : HalosFit k dim := by
  have hedge : ∀ e ∈ k.edges, ∀ n ∈ k.nodes[e.target]?, haloAt k dim n.output = .zero ∧
      e.read.span dim = .zero ∧ n.inStride.get dim = 1 ∧ n.outStride.get dim = 1 := by
    intro e he n hn
    obtain ⟨o, ho⟩ := ht.wellFormed.exists_output hn
    exact ⟨(ht.halo_past_rank hdim ho (ht.wellFormed.iterative_output hn ho)).1,
      ht.read_past_rank hdim he, ht.stride_past_rank hdim hn⟩
  have himage : ∀ d ∈ k.iterativeData, grainAt k dim d.id = 1 ∧ askedAt k dim d = .zero := by
    intro d hd
    obtain ⟨hmem, hi⟩ := List.mem_filter.mp hd
    have hget := ht.wellFormed.getElem?_id hmem
    exact ⟨(ht.grain_past_rank hdim hget hi).1, (ht.halo_past_rank hdim hget hi).2⟩
  constructor
  case scaled =>
    intro e he n hn
    obtain ⟨hhalo, -, hin, -⟩ := hedge e he n hn
    rw [hhalo, hin]
    decide
  case excess =>
    intro e he n hn
    obtain ⟨-, hread, hin, -⟩ := hedge e he n hn
    rw [Window.last, Window.first, hread, hin]
    decide
  case asked =>
    intro e he n hn
    obtain ⟨hhalo, hread, hin, hout⟩ := hedge e he n hn
    rw [Window.first, Window.last, hhalo, hread, hin, hout]
    decide
  case grain =>
    intro d hd
    rw [(himage d hd).1]
    decide
  case rounded =>
    intro d hd
    rw [unitAt, (himage d hd).1, (himage d hd).2]
    decide

/-- The halos are words along all dimensions if they are along those of the kernel. -/
theorem halosFit (hf : TilesFit k) (dim : Nat) : HalosFit k dim := by
  rcases Nat.lt_or_ge dim k.rank with hdim | hdim
  · exact hf.halos dim hdim
  · exact ht.halosFit_past_rank hdim

section Strides

variable (hf : GrainsFit k) {e : Edge} (he : e ∈ k.edges) {n : Node} (hn : k.nodes[e.target]? = some n)

include hf he hn

theorem needed_restride (dim : Nat) : (neededSize k (fun x => (tileAt k x).feedGrain) e).get dim =
    restride (feedAt k dim n.output) (n.outStride.get dim) (n.inStride.get dim) := by
  rw [restride_eq (ht.valid.outStride_pos hn dim)]
  rcases Nat.lt_or_ge dim k.rank with hdim | hdim
  · exact ht.needed_eq hf hdim he hn
  · obtain ⟨o, ho⟩ := ht.wellFormed.exists_output hn
    have hfeed := (ht.feed_past_rank hdim ho (ht.wellFormed.iterative_output hn ho)).1
    obtain ⟨hin, hout⟩ := ht.stride_past_rank hdim hn
    rw [neededSize, hn, Size.get_mul, Size.get_divCeil]
    rw [feedAt] at hfeed
    rw [feedAt, hfeed, hin, hout]
    rfl

theorem yielded_restride (dim : Nat) : (yieldedSize n (tileAt k e.source).grain).get dim =
    restride (grainAt k dim e.source) (n.inStride.get dim) (n.outStride.get dim) := by
  rw [restride_eq (ht.valid.inStride_pos hn dim)]
  rcases Nat.lt_or_ge dim k.rank with hdim | hdim
  · exact ht.yielded_eq hf hdim he hn
  · obtain ⟨s, hs⟩ := ht.wellFormed.exists_source he
    have hgrain := (ht.grain_past_rank hdim hs (ht.valid.source_iterative he hs)).1
    obtain ⟨hin, hout⟩ := ht.stride_past_rank hdim hn
    rw [grainAt] at hgrain
    rw [yieldedSize, Size.get_mul, Size.get_divCeil, grainAt, hgrain, hin, hout]
    rfl

end Strides

variable (hf : GrainsFit k) (hd : k.data[i]? = some d) (hi : d.iterative = true)

include hf hd hi

theorem feed_eq_leastMultiple : feedAt k dim i = leastMultiple
    ((feedOperands k (fun x => (tileAt k x).feedGrain) d).map (·.get dim)) := by
  rcases Nat.lt_or_ge dim k.rank with hdim | hdim
  · refine eq_leastMultiple (ht.feed_pos hf hdim hd hi).le fun m => ?_
    rw [ht.feed_dvd_iff hf hdim hd hi, List.forall_mem_map]
  · obtain ⟨hone, hall⟩ := ht.feed_past_rank hdim hd hi
    rw [hone]
    refine eq_leastMultiple Int.one_nonneg fun m => iff_of_true (one_dvd m) ?_
    exact List.forall_mem_map.mpr fun s hs => hall s hs ▸ one_dvd m

theorem grain_eq_leastMultiple : grainAt k dim i = leastMultiple
    (feedAt k dim i :: (grainOperands k (fun x => (tileAt k x).grain) d).map (·.get dim)) := by
  rcases Nat.lt_or_ge dim k.rank with hdim | hdim
  · refine eq_leastMultiple (ht.grain_pos hf hdim hd hi).le fun m => ?_
    rw [ht.grain_dvd_iff hf hdim hd hi, List.forall_mem_cons, List.forall_mem_map]
  · obtain ⟨hone, hall⟩ := ht.grain_past_rank hdim hd hi
    rw [hone, (ht.feed_past_rank hdim hd hi).1]
    refine eq_leastMultiple Int.one_nonneg fun m => iff_of_true (one_dvd m) ?_
    exact List.forall_mem_cons.mpr ⟨one_dvd m, List.forall_mem_map.mpr fun s hs => hall s hs ▸ one_dvd m⟩

theorem grain_pos_all (dim : Nat) : 0 < grainAt k dim i := by
  rcases Nat.lt_or_ge dim k.rank with hdim | hdim
  · exact ht.grain_pos hf hdim hd hi
  · rw [(ht.grain_past_rank hdim hd hi).1]
    exact Int.one_pos

theorem rate_mul_stride_all (dim : Nat) :
    (tileAt k i).rate.get dim * ((k.producerOf d).map fun n => n.outStride.get dim).getD 1 =
      grainAt k dim i := by
  rcases Nat.lt_or_ge dim k.rank with hdim | hdim
  · exact ht.rate_mul_stride hf hdim hd hi
  · have hgrain : (tileAt k i).grain.get dim = 1 := (ht.grain_past_rank hdim hd hi).1
    rw [(ht.tileAt_eq hd hi).2.rate, grainAt, hgrain]
    cases hp : k.producerOf d with
    | none => exact (mul_one _).trans hgrain
    | some n =>
      have hout := (ht.stride_past_rank hdim (ht.wellFormed.output_of_producerOf hd hp).1).2
      show (Size.divCeil _ _).get dim * n.outStride.get dim = 1
      rw [Size.get_divCeil, hgrain, hout]
      rfl

theorem halo_eq_outward (hh : HalosFit k dim) :
    haloAt k dim i = outward (hull (perUser k d fun e n =>
      readerHalo (haloAt k dim n.output) e n dim)) (grainAt k dim i) := by
  have hgrain := ht.grain_pos_all hf hd hi dim
  have hasked : askedAt k dim d =
      hull (perUser k d fun e n => readerHalo (haloAt k dim n.output) e n dim) := by
    rw [askedAt, span_foldl_union, haloOperands, List.map_map]
    congr 1
    refine map_usersOf ht.wellFormed hd fun e he n hn => ?_
    have hO := ht.valid.outStride_pos hn dim
    rw [Function.comp_apply, ht.span_askedHalo hh ((ht.wellFormed.mem_usersOf_iff hd).mp he).1 hn,
      readerHalo, floorDiv_eq_floor hO, ceilDiv_eq_ceil hO]
  obtain ⟨hfirst, hlast⟩ := ht.halo_inflated hh hd hi
  rw [unitAt_of_pos hgrain, floorDiv_eq_floor hgrain] at hfirst
  rw [unitAt_of_pos hgrain, ceilDiv_eq_ceil hgrain] at hlast
  rw [← hasked, outward, ← hfirst, ← hlast]

end Tiled

theorem foldl_max_le_iff {l : List Int} {a b : Int} : l.foldl max a ≤ b ↔ a ≤ b ∧ ∀ x ∈ l, x ≤ b := by
  induction l generalizing a with
  | nil => simp
  | cons x rest ih => rw [List.foldl_cons, ih, max_le_iff, List.forall_mem_cons, and_assoc]

/-- A node runs in the first cycle that all its reads allow. -/
theorem Cycled.cycle_eq_foldl {k : Kernel} {dim : Nat} (hc : Cycled k dim) (ht : Tiled k)
    (hl : CyclesFit k dim) {m : NodeId} {n : Node} (hn : k.nodes[m]? = some n) :
    (cycleAt k n.output : Int) = ((k.inputEdges n).map fun e =>
      cycleAt k e.source + waitFor e n dim (waitGrain k dim e.source)).foldl max 1 := by
  have hlag : ∀ e ∈ k.inputEdges n,
      (cycleAt k e.source : Int) + waitFor e n dim (waitGrain k dim e.source) =
        ((cycleAt k e.source + lagAt k dim e : Nat) : Int) := by
    intro e he
    obtain ⟨hmem, rfl⟩ := (ht.wellFormed.mem_inputEdges_iff hn).mp he
    rw [Nat.cast_add, hl.lagAt_eq_waitFor hmem hn]
  rw [List.map_congr_left hlag]
  -- both sides have the same upper bounds; controls are ready at zero and set none
  refine eq_of_forall_ge_iff fun bound => ?_
  rw [foldl_max_le_iff, List.forall_mem_map]
  constructor
  · intro hle
    refine ⟨le_trans ?_ hle, fun e he => le_trans ?_ hle⟩
    · exact_mod_cast hc.one_le_output hn
    · obtain ⟨hmem, rfl⟩ := (ht.wellFormed.mem_inputEdges_iff hn).mp he
      exact_mod_cast hc.source_add_lag_le ht.wellFormed hl hmem hn
  · rintro ⟨hone, hreads⟩
    obtain ⟨b, rfl⟩ := Int.eq_ofNat_of_zero_le (Int.one_nonneg.trans hone)
    exact_mod_cast hc.node_cycle_le ht.wellFormed ht.valid hn (by exact_mod_cast hone)
      fun e he => (addCount_le _ _).trans (by exact_mod_cast hreads e he)

/-- Where nothing is cut the recorded tiles and cycles solve the equations. -/
theorem sweepEquations_recorded {k : Kernel} {scanDim : Nat} (ht : Tiled k) (hc : Cycled k scanDim)
    (hf : TilesFit k) (hl : CyclesFit k scanDim) : SweepEquations k scanDim (recorded k) := by
  have hitem : ∀ d ∈ k.iterativeData, k.data[d.id]? = some d ∧ d.iterative = true := by
    intro d hd
    obtain ⟨hmem, hi⟩ := List.mem_filter.mp hd
    exact ⟨ht.wellFormed.getElem?_id hmem, hi⟩
  constructor
  case feed =>
    intro d hd dim
    obtain ⟨hget, hi⟩ := hitem d hd
    refine (ht.feed_eq_leastMultiple hf.grains hget hi).trans ?_
    rw [feedOperands, List.map_append, List.map_map]
    congr 2
    · exact map_usersOf ht.wellFormed hget fun e he n hn =>
        ht.needed_restride hf.grains ((ht.wellFormed.mem_usersOf_iff hget).mp he).1 hn dim
    · cases k.producerOf d <;> rfl
  case grain =>
    intro d hd dim
    obtain ⟨hget, hi⟩ := hitem d hd
    refine (ht.grain_eq_leastMultiple hf.grains hget hi).trans ?_
    rw [grainOperands, perRead]
    cases hp : k.producerOf d with
    | none => rfl
    | some n =>
      have hn := (ht.wellFormed.output_of_producerOf hget hp).1
      simp only [List.map_map, Option.toList_some, List.flatMap_singleton]
      congr 2
      refine List.map_congr_left fun e he => ?_
      obtain ⟨hmem, htarget⟩ := (ht.wellFormed.mem_inputEdges_iff hn).mp he
      exact ht.yielded_restride hf.grains hmem (htarget ▸ hn) dim
  case rate =>
    intro d hd dim
    obtain ⟨hget, hi⟩ := hitem d hd
    exact ht.rate_mul_stride_all hf.grains hget hi dim
  case halo =>
    intro d hd dim
    obtain ⟨hget, hi⟩ := hitem d hd
    exact ht.halo_eq_outward hf.grains hget hi (ht.halosFit hf dim)
  case reads =>
    intro d hd dim
    obtain ⟨hget, hi⟩ := hitem d hd
    show (tileAt k d.id).reads.span dim = _
    rw [(ht.tileAt_eq hget hi).2.reads, span_foldl_union, List.map_map]
    congr 1
    exact map_usersOf ht.wellFormed hget fun _ _ _ _ => rfl
  case start =>
    intro d hd hrole
    have hget := ht.wellFormed.getElem?_id hd
    exact hc.input_cycle hget (hrole.elim id (ht.wellFormed.input_of_control hget))
  case cycle =>
    intro n hn
    obtain ⟨m, hm⟩ := List.mem_iff_getElem?.mp hn
    refine (hc.cycle_eq_foldl ht hl hm).trans ?_
    congr 1
    refine List.map_congr_left fun e he => ?_
    obtain ⟨hmem, -⟩ := (ht.wellFormed.mem_inputEdges_iff hm).mp he
    obtain ⟨s, hs⟩ := ht.wellFormed.exists_source hmem
    have hgrain := ht.grain_pos_all hf.grains hs (ht.valid.source_iterative hmem hs) scanDim
    rw [waitGrain, max_eq_left (show 1 ≤ grainAt k scanDim e.source from hgrain)]
    rfl

end StencilTiling.Analysis
