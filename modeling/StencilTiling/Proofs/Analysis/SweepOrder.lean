import StencilTiling.Proofs.Analysis.SweepEquations

/-! Tiles and cycles do not depend on the order in which the nodes are visited. Whatever the
order is, the passes record for each item what follows from its neighbours, in the arithmetic
of the program, and change nothing else. So two orders leave the same kernel, also where
numbers are cut. -/

namespace StencilTiling.Analysis

/-- Tiles, then cycles. -/
def sweep (order : List NodeId) (scan : ScanOrder) : Pass Pipeline := do
  analyzeTiles order
  assignCycles order scan

/-- There is one way for the tiles of all images to follow from their neighbours. -/
theorem tileOf_unique {k : Kernel} {ds : List DataId} (h : k.WellFormed) (hv : k.Valid)
    (ho : DataOrder k ds) {tile tile' : DataId → Tile}
    (ht : ∀ i ∈ ds, ∀ d, k.data[i]? = some d → TileOf k tile d (tile i))
    (ht' : ∀ i ∈ ds, ∀ d, k.data[i]? = some d → TileOf k tile' d (tile' i)) :
    ∀ i ∈ ds, tile i = tile' i := by
  have hfeed : ∀ i ∈ ds, (tile i).feedGrain = (tile' i).feedGrain := by
    refine ho.backward h hv fun i hi hback => ?_
    obtain ⟨d, hd⟩ := ho.exists_item hi
    rw [(ht i hi d hd).feed, (ht' i hi d hd).feed, feedOperands_congr h hd hback]
  have hgrain : ∀ i ∈ ds, (tile i).grain = (tile' i).grain := by
    refine ho.forward h hv fun i hi hback => ?_
    obtain ⟨d, hd⟩ := ho.exists_item hi
    rw [(ht i hi d hd).grain, (ht' i hi d hd).grain, hfeed i hi, grainOperands_congr h hd hback]
  have hhalo : ∀ i ∈ ds, (tile i).halo = (tile' i).halo := by
    refine ho.backward h hv fun i hi hback => ?_
    obtain ⟨d, hd⟩ := ho.exists_item hi
    rw [(ht i hi d hd).halo, (ht' i hi d hd).halo, hgrain i hi, haloOperands_congr h hd hback]
  intro i hi
  obtain ⟨d, hd⟩ := ho.exists_item hi
  have hrate : (tile i).rate = (tile' i).rate := by
    rw [(ht i hi d hd).rate, (ht' i hi d hd).rate, hgrain i hi]
  have hreads : (tile i).reads = (tile' i).reads := by
    rw [(ht i hi d hd).reads, (ht' i hi d hd).reads]
  show (⟨(tile i).feedGrain, (tile i).grain, (tile i).rate, (tile i).halo, (tile i).reads⟩ : Tile) = _
  rw [hfeed i hi, hgrain i hi, hrate, hhalo i hi, hreads]

/-! ### What the passes change -/

/-- The kernel without its items. -/
def frame (k : Kernel) : Kernel := { k with data := [] }

theorem eq_of_frame {k k' : Kernel} (h : frame k = frame k') (hd : k.data = k'.data) : k = k' := by
  cases k
  cases k'
  simp_all [frame]

theorem frame_revise {α : Type} (step : Kernel → α → Except AnalysisError (DataId × DataItem))
    (l : List α) (c : Kernel) : Preserves (fun k => frame k = c) (revise step l) :=
  preserves_revise (fun _ _ _ h => h) l

theorem frame_sweep (order : List NodeId) (scan : ScanOrder) (k : Kernel) :
    frame (sweep order scan k).2 = frame k := by
  have htiles : Preserves (fun k' => frame k' = frame k) (analyzeTiles order) := by
    intro k' hk'
    dsimp only [analyzeTiles]
    split
    · exact hk'
    · exact frame_revise _ _ _ k' hk'
  have hcycles : Preserves (fun k' => frame k' = frame k) (assignCycles order scan) := by
    refine Preserves.bind (fun _ hk' => hk') fun k₁ => ?_
    refine Preserves.bind (frame_revise _ _ _) fun _ => Preserves.bind (frame_revise _ _ _) fun _ => ?_
    exact Preserves.bind (fun _ hk' => hk') fun _ _ hk' => hk'
  exact Preserves.bind htiles (fun _ => hcycles) k rfl

/-- Nothing of an item changes but its cycle and its stage. -/
theorem assignCycles_keeps {order : List NodeId} {scan : ScanOrder} {k k' : Kernel} {pipeline : Pipeline}
    (hrun : assignCycles order scan k = (.ok pipeline, k')) : Keeps (fun d => scheduled d 0) k k' := by
  obtain ⟨_, _, hget, hrun⟩ := run_bind_eq_ok.mp hrun
  cases hget
  obtain ⟨_, k₁, hinputs, hrun⟩ := run_bind_eq_ok.mp hrun
  obtain ⟨_, k₂, hnodes, hrun⟩ := run_bind_eq_ok.mp hrun
  cases hrun
  have hinput : Respects scheduleInput fun d => scheduled d 0 := by
    intro k i d item' hstep
    obtain ⟨-, item, hget, rfl⟩ := scheduleInput_eq_ok hstep
    exact ⟨item, hget, rfl⟩
  exact (hinput.keeps hinputs).trans ((respects_scheduleNode (fun _ _ => rfl) scan).keeps hnodes)

/-- An item that differs in its cycle and its stage only. -/
theorem eq_scheduled {d d' : DataItem} {cycle : Nat} (hview : scheduled d 0 = scheduled d' 0)
    (hstage : d'.note.stage = .scheduled) (hcycle : d'.cycle = some cycle) : d' = scheduled d cycle :=
  calc d' = scheduled d' cycle := by rw [scheduled, ← hstage, ← hcycle]; rfl
    _ = scheduled (scheduled d' 0) cycle := rfl
    _ = scheduled (scheduled d 0) cycle := by rw [hview]
    _ = scheduled d cycle := rfl

/-- What both passes leave: every item with a tile and a cycle that follow from its
neighbours, and nothing else changed. -/
structure Swept (k : Kernel) (scanDim : Nat) (k' : Kernel) : Prop where
  frame_eq : frame k' = frame k
  keeps : Keeps DataItem.reset k k'
  tiles : Tiled k'
  cycles : Cycled k' scanDim
  data : k'.data = k.data.map fun d => scheduled (tiled d (tileAt k' d.id)) (cycleAt k' d.id)
  control : ∀ d ∈ k.data, d.iterative = false → tileAt k' d.id = {}

theorem sweep_swept {k : Kernel} {order : List NodeId} (h : k.WellFormed) (hv : k.Valid)
    (hto : Topological k order) (hs : ∀ d ∈ k.data, d.note.stage = .unscheduled) (scan : ScanOrder) :
    ∃ k', sweep order scan k = (.ok (pipelineOf k' order), k') ∧ Swept k (scan.scanDim k.rank) k' := by
  obtain ⟨k₁, htiles, hk₁, ht⟩ := analyzeTiles_eq_ok h hv hto hs
  obtain ⟨k', hcycles, hk', hcycled, hstage⟩ := assignCycles_eq_ok ht (hto.of_keeps hk₁)
    (analyzeTiles_unscheduled hs htiles) scan
  have hrun : sweep order scan k = (.ok (pipelineOf k' order), k') :=
    run_bind_eq_ok.mpr ⟨(), k₁, htiles, hcycles⟩
  have hkeeps := hk₁.trans hk'.of_tileView
  refine ⟨k', hrun, ?_, hkeeps, ht.of_keeps hk', hkeeps.sameGraph.rank_eq ▸ hcycled, ?_, ?_⟩
  · rw [← frame_sweep order scan k, hrun]
  · refine List.ext_getElem? fun i => ?_
    rw [List.getElem?_map]
    cases hd : k.data[i]? with
    | none =>
      cases hd' : k'.data[i]? with
      | none => rfl
      | some d' =>
        obtain ⟨d, hsome, -⟩ := hkeeps.exists_item hd'
        cases hd.symm.trans hsome
    | some d =>
      obtain ⟨-, hget, -⟩ := analyzeTiles_data h hv hto htiles hd
      obtain ⟨d', hd', hview⟩ := (assignCycles_keeps hcycles).symm.exists_item hget
      rw [hd', Option.map_some, tileAt_of_keeps hk', h.data_id hd,
        eq_scheduled hview (hstage d' (List.mem_of_getElem? hd')) (hcycled.cycle_eq hd')]
  · intro d hd hi
    rw [tileAt_of_keeps hk']
    exact (analyzeTiles_data h hv hto htiles (h.getElem?_id hd)).2.2 hi

/-! ### Two orders -/

namespace Swept

variable {k k₁ k₂ : Kernel} {scanDim : Nat} (h : k.WellFormed) (hv : k.Valid)
  (h₁ : Swept k scanDim k₁) (h₂ : Swept k scanDim k₂)

include h hv h₁ h₂

/-- The tiles are the solution of their equations over the graph. -/
theorem tileAt_eq {d : DataItem} (hd : d ∈ k.data) : tileAt k₁ d.id = tileAt k₂ d.id := by
  have hsolves : ∀ {k'}, Swept k scanDim k' → ∀ i d, k.data[i]? = some d → d.iterative = true →
      TileOf k (tileAt k') d (tileAt k' i) := by
    intro k' h' i d hd hi
    obtain ⟨d', hd', hreset⟩ := h'.keeps.symm.exists_item hd
    have hi' : d'.iterative = true := (congrArg (·.iterative) hreset).symm.trans hi
    exact (h'.tiles.tileAt_eq hd' hi').2.transfer h'.keeps.symm hreset
  cases hi : d.iterative with
  | false => rw [h₁.control d hd hi, h₂.control d hd hi]
  | true =>
    obtain ⟨ds, ho⟩ := h₁.tiles.ordered
    have ho := ho.of_keeps h₁.keeps.symm
    have hiter : ∀ i ∈ ds, ∀ d, k.data[i]? = some d → d.iterative = true := by
      intro i hi d hd
      obtain ⟨d', hd', hi'⟩ := (ho.mem_iff i).mp hi
      rwa [Option.some.inj (hd.symm.trans hd')]
    exact tileOf_unique h hv ho (fun i hi d hd => hsolves h₁ i d hd (hiter i hi d hd))
      (fun i hi d hd => hsolves h₂ i d hd (hiter i hi d hd)) _
      ((ho.mem_iff _).mpr ⟨d, h.getElem?_id hd, hi⟩)

theorem keeps_tileView : Keeps tileView k₁ k₂ := by
  have hgraph := h₁.keeps.symm.trans h₂.keeps
  refine ⟨hgraph.name, hgraph.edges, hgraph.inputs, hgraph.nodes, ?_⟩
  rw [h₁.data, h₂.data, List.map_map, List.map_map]
  refine List.map_congr_left fun d hd => ?_
  show tileView (tiled d (tileAt k₂ d.id)) = tileView (tiled d (tileAt k₁ d.id))
  rw [tileAt_eq h hv h₁ h₂ hd]

/-- With the same tiles the cycles are the solution of their equations. -/
theorem cycleAt_eq {d : DataItem} (hd : d ∈ k.data) : cycleAt k₁ d.id = cycleAt k₂ d.id := by
  -- the lags are those of the tiles, so the induction with the flow is about cycles only
  have hkeeps := keeps_tileView h hv h₁ h₂
  obtain ⟨ds, ho⟩ := h₁.tiles.ordered
  have hwf := h₁.tiles.wellFormed
  have hvalid := h₁.tiles.valid
  have hinput : ∀ {i d₁}, k₁.data[i]? = some d₁ → d₁.role = .input → cycleAt k₁ i = cycleAt k₂ i := by
    intro i d₁ hd₁ hr
    obtain ⟨d₂, hd₂, hview⟩ := hkeeps.symm.exists_item hd₁
    rw [h₁.cycles.input_cycle hd₁ hr,
      h₂.cycles.input_cycle hd₂ ((congrArg (·.role) hview).symm.trans hr)]
  have himage : ∀ i ∈ ds, cycleAt k₁ i = cycleAt k₂ i := by
    refine ho.forward hwf hvalid fun i hi hback => ?_
    obtain ⟨d₁, hd₁, -⟩ := (ho.mem_iff i).mp hi
    rcases hvalid.input_or_produced hd₁ with hr | ⟨m, hm⟩
    · exact hinput hd₁ hr
    · obtain ⟨n, hn, rfl⟩ := (hwf.producer_iff hd₁ m).mp hm
      rw [h₁.cycles.node_cycle hn, h₂.cycles.node_cycle (hkeeps.nodes ▸ hn)]
      refine (cycleAfterReads_congr hkeeps (fun e he => ?_) fun c hc => ?_).symm
      · obtain ⟨hmem, rfl⟩ := (hwf.mem_inputEdges_iff hn).mp he
        exact (hback _ ⟨e, hmem, n, hn, rfl, rfl⟩).symm
      · have hd := List.getElem?_eq_getElem (hwf.control_lt hn c hc)
        exact (hinput hd (hwf.input_of_control hd (hvalid.control_scalar hn hc hd))).symm
  obtain ⟨d₁, hd₁, hreset⟩ := h₁.keeps.symm.exists_item (h.getElem?_id hd)
  cases hi : d₁.iterative with
  | true => exact himage _ ((ho.mem_iff _).mpr ⟨d₁, hd₁, hi⟩)
  | false => exact hinput hd₁ (hwf.input_of_control hd₁ hi)

/-- There is one kernel that the passes can leave. -/
theorem unique : k₁ = k₂ := by
  refine eq_of_frame (h₁.frame_eq.trans h₂.frame_eq.symm) ?_
  rw [h₁.data, h₂.data]
  refine List.map_congr_left fun d hd => ?_
  rw [tileAt_eq h hv h₁ h₂ hd, cycleAt_eq h hv h₁ h₂ hd]

end Swept

/-- The result of the passes with some order: it is that of every order, and where nothing
is cut it is the solution of the equations. -/
structure OrderFree (k : Kernel) (scan : ScanOrder) (pipeline : Pipeline) (k' : Kernel) : Prop where
  graph : k.SameGraph k'
  tile : ∀ d ∈ k'.data, d.note.tile = some (tileAt k' d.id)
  cycle : ∀ d ∈ k'.data, d.cycle = some (cycleAt k' d.id)
  cycles : pipeline.cycles = k'.nodes.map fun n => cycleAt k' n.output
  same : ∀ order, Linearizes k order → ∃ other, sweep order scan k = (.ok other, k') ∧
    other.cycles = pipeline.cycles ∧ other.depth = pipeline.depth
  solves : TilesFit k' → CyclesFit k' (scan.scanDim k.rank) →
    SweepEquations k' (scan.scanDim k.rank) (recorded k') ∧
      ∀ s, SweepEquations k' (scan.scanDim k.rank) s → Agree k' s (recorded k')

theorem Swept.orderFree {k k' : Kernel} {scan : ScanOrder} {order : List NodeId} (h : k.WellFormed)
    (hv : k.Valid) (hs : ∀ d ∈ k.data, d.note.stage = .unscheduled) (hto : Topological k order)
    (hk' : Swept k (scan.scanDim k.rank) k') : OrderFree k scan (pipelineOf k' order) k' := by
  have ht := hk'.tiles
  have hcycles : ∀ {order}, Topological k order →
      (pipelineOf k' order).cycles = k'.nodes.map fun n => cycleAt k' n.output := fun hto =>
    cycles_pipelineOf ht (hto.of_keeps hk'.keeps)
  refine ⟨hk'.keeps.sameGraph, fun d hd => ?_, fun d hd => ?_, hcycles hto, fun order' ho' => ?_,
    fun hf hl => ⟨sweepEquations_recorded ht hk'.cycles hf hl, fun s hs => ?_⟩⟩
  · rw [hk'.data] at hd
    obtain ⟨d₀, -, rfl⟩ := List.mem_map.mp hd
    rfl
  · exact hk'.cycles.cycle_eq (ht.wellFormed.getElem?_id hd)
  · have hto' := (linearizes_iff h).mp ho'
    obtain ⟨k'', hrun, hk''⟩ := sweep_swept h hv hto' hs scan
    obtain rfl := hk'.unique h hv hk''
    have hsame : (pipelineOf k' order').cycles = (pipelineOf k' order).cycles :=
      (hcycles hto').trans (hcycles hto).symm
    exact ⟨_, hrun, hsame, congrArg (fun l => (l.max?).getD 0) hsame⟩
  · obtain ⟨ds, ho⟩ := ht.ordered
    exact hs.agree ht.wellFormed ht.valid ho (sweepEquations_recorded ht hk'.cycles hf hl)

/-- On every validated kernel without cycles the tile and cycle passes complete exactly if no
item has a cycle yet. What they record is the same for every order that puts producers first,
and where nothing is cut it is the one solution of the equations. -/
theorem sweeps_independent_of_order {k : Kernel} {order : List NodeId} (hb : k.Built)
    (hv : k.validate = .ok ()) (ho : Linearizes k order) (scan : ScanOrder) :
    ((∃ pipeline k', sweep order scan k = (.ok pipeline, k')) ↔
      ∀ d ∈ k.data, d.note.stage = .unscheduled) ∧
    ∀ pipeline k', sweep order scan k = (.ok pipeline, k') → OrderFree k scan pipeline k' := by
  have h := hb.wellFormed
  have hvalid := Kernel.valid_of_validate h hv
  have hto := (linearizes_iff h).mp ho
  have hstage : ∀ pipeline k', sweep order scan k = (.ok pipeline, k') →
      ∀ d ∈ k.data, d.note.stage = .unscheduled := by
    intro pipeline k' hrun
    obtain ⟨_, k₁, htiles, -⟩ := run_bind_eq_ok.mp hrun
    exact (analyzeTiles_completes_iff h hvalid hto).mp ⟨k₁, htiles⟩
  refine ⟨⟨fun ⟨pipeline, k', hrun⟩ => hstage pipeline k' hrun, fun hs => ?_⟩, fun pipeline k' hrun => ?_⟩
  · obtain ⟨k', hrun, -⟩ := sweep_swept h hvalid hto hs scan
    exact ⟨_, k', hrun⟩
  · have hs := hstage pipeline k' hrun
    obtain ⟨k'', hrun', hswept⟩ := sweep_swept h hvalid hto hs scan
    cases hrun.symm.trans hrun'
    exact hswept.orderFree h hvalid hs hto

/-- Two reductions of an image, by two with a pixel of halo and by three with one on the other
side, and a node that reads both. -/
def gathering : Kernel :=
  .ofDeclarations "gathering"
    [.input "a" .float [.fixed 24], .data "b" .float [.fixed 12], .data "c" .float [.fixed 8],
      .output "o" .float [.fixed 12],
      .node {} { name := "pairs", output := 1, inStride := some ⟨[2]⟩,
                 inputs := [⟨0, ⟨[⟨0, 2⟩]⟩, .undef⟩] },
      .node {} { name := "triples", output := 2, inStride := some ⟨[3]⟩,
                 inputs := [⟨0, ⟨[⟨-1, 2⟩]⟩, .undef⟩] },
      .node {} { name := "join", output := 3,
                 inputs := [⟨1, ⟨[⟨0, 0⟩]⟩, .undef⟩, ⟨2, ⟨[⟨0, 1⟩]⟩, .undef⟩] }]

/-- Either reduction can come first. Six pixels of the image, with six on either side, make whole
grains of both, and the last node runs in the third cycle in every solution. -/
theorem sweeps_independent_of_order_gathering :
    ∃ pipeline other k', sweep [0, 1, 2] .rows gathering = (.ok pipeline, k') ∧
      sweep [1, 0, 2] .rows gathering = (.ok other, k') ∧
      pipeline.cycles = [2, 1, 3] ∧ other.cycles = [2, 1, 3] ∧ other.depth = pipeline.depth ∧
      SweepEquations k' 0 (recorded k') ∧
      ∀ s, SweepEquations k' 0 s →
        s.grain 0 0 = 6 ∧ s.halo 0 0 = ⟨-6, 6⟩ ∧ s.reads 0 0 = ⟨-1, 2⟩ ∧ s.cycle 3 = 3 := by
  have hbuilt : gathering.Built := Kernel.built_ofDeclarations _ _
  have hpairs : Linearizes gathering [0, 1, 2] :=
    linearizes_of_forall hbuilt.wellFormed (by decide +kernel) (by decide +kernel)
  have htriples : Linearizes gathering [1, 0, 2] :=
    linearizes_of_forall hbuilt.wellFormed (by decide +kernel) (by decide +kernel)
  obtain ⟨hcompletes, hfree⟩ := sweeps_independent_of_order hbuilt (by decide +kernel) hpairs .rows
  obtain ⟨pipeline, k', hrun⟩ := hcompletes.mpr (by decide +kernel)
  obtain ⟨-, -, -, hcycles, horders, hsolves⟩ := hfree pipeline k' hrun
  obtain ⟨other, hother, hsame, hdepth⟩ := horders [1, 0, 2] htriples
  obtain rfl : (sweep [0, 1, 2] .rows gathering).2 = k' := by rw [hrun]
  have hcycles : pipeline.cycles = [2, 1, 3] := hcycles.trans (by decide +kernel)
  obtain ⟨hequations, hunique⟩ := hsolves (by decide +kernel) (by decide +kernel)
  have hfacts : ∃ a ∈ (sweep [0, 1, 2] .rows gathering).2.iterativeData,
      ∃ o ∈ (sweep [0, 1, 2] .rows gathering).2.data, (a.id = 0 ∧ o.id = 3) ∧
        (recorded (sweep [0, 1, 2] .rows gathering).2).grain 0 0 = 6 ∧
        (recorded (sweep [0, 1, 2] .rows gathering).2).halo 0 0 = ⟨-6, 6⟩ ∧
        (recorded (sweep [0, 1, 2] .rows gathering).2).reads 0 0 = ⟨-1, 2⟩ ∧
        (recorded (sweep [0, 1, 2] .rows gathering).2).cycle 3 = 3 := by
    decide +kernel
  obtain ⟨a, ha, o, ho, ⟨ha0, ho3⟩, hgrain, hhalo, hreads, hcycle⟩ := hfacts
  refine ⟨pipeline, other, _, hrun, hother, hcycles, hsame.trans hcycles, hdepth, hequations,
    fun s hs => ?_⟩
  obtain ⟨-, hgrains, -, hhalos, hreaders, hcycled⟩ := hunique s hs
  have hgrains := hgrains a ha
  have hhalos := hhalos a ha
  have hreaders := hreaders a ha
  have hcycled := hcycled o ho
  rw [ha0] at hgrains hhalos hreaders
  rw [ho3] at hcycled
  exact ⟨(congrFun hgrains 0).trans hgrain, (congrFun hhalos 0).trans hhalo,
    (congrFun hreaders 0).trans hreads, hcycled.trans hcycle⟩

/-- One node that reads one window of an image. -/
def glancing (read : Span) : Kernel :=
  .ofDeclarations "glancing"
    [.input "a" .float [.fixed 8], .output "o" .float [.fixed 8],
      .node {} { name := "f", output := 1, inputs := [⟨0, ⟨[read]⟩, .undef⟩] }]

/-- The kernel with its tiles and cycles. -/
def glanced (read : Span) : Kernel := (sweep [0] .rows (glancing read)).2

/-- The recorded union of the read windows holds the index zero, also where the only window
does not; and the lag of a window that ends at 2³² is cut to one cycle. -/
theorem reads_hold_zero_and_lag_is_cut :
    ((glancing ⟨3, 5⟩).Built ∧ (glancing ⟨3, 5⟩).validate = .ok () ∧
      topologicalOrder (glancing ⟨3, 5⟩) = .ok [0] ∧
      (glanced ⟨3, 5⟩).edges.map Edge.read = [⟨[⟨3, 5⟩]⟩] ∧
      (tileAt (glanced ⟨3, 5⟩) 0).reads = ⟨[⟨0, 5⟩]⟩) ∧
    ((glancing ⟨0, 0x100000000⟩).Built ∧ (glancing ⟨0, 0x100000000⟩).validate = .ok () ∧
      topologicalOrder (glancing ⟨0, 0x100000000⟩) = .ok [0] ∧
      (∀ e ∈ (glanced ⟨0, 0x100000000⟩).edges, ∀ n ∈ (glanced ⟨0, 0x100000000⟩).nodes,
        waitFor e n 0 (grainAt (glanced ⟨0, 0x100000000⟩) 0 e.source) = 0x100000001) ∧
      cycleAt (glanced ⟨0, 0x100000000⟩) 0 = 0 ∧ cycleAt (glanced ⟨0, 0x100000000⟩) 1 = 1) := by
  refine ⟨⟨Kernel.built_ofDeclarations _ _, ?_⟩, Kernel.built_ofDeclarations _ _, ?_⟩
  · decide +kernel
  · decide +kernel

end StencilTiling.Analysis
