import StencilTiling.Analysis.Run
import StencilTiling.Proofs.Analysis.Plan
import StencilTiling.Proofs.Analysis.Slots

/-! What a completed analysis leaves on a kernel: tiles, cycles, access types and slots,
none of which a later pass touches, and the coordinates that the plan gives every item. -/

namespace StencilTiling.Analysis

/-! ### Annotating -/

/-- A kernel with everything but the slots of its buffers. -/
structure Prepared (config : TilingConfig) (k : Kernel) : Prop where
  tiled : Tiled k
  cycled : Cycled k (config.scan.scanDim k.rank)
  stage : ∀ d ∈ k.data, d.note.stage = .patternAssigned
  buffered : ∀ d ∈ k.data, d.note.pattern.access.isBuffered = (d.iterative && config.mode.isTiled)

/-- A kernel with tiles, cycles, access types and slots. -/
structure Annotated (config : TilingConfig) (k : Kernel) : Prop where
  tiled : Tiled k
  cycled : Cycled k (config.scan.scanDim k.rank)
  stage : ∀ d ∈ k.data, d.note.stage = .slotSized
  slots : ∀ d ∈ k.data, SlotsRecorded k config.mode config.scan d
  buffered : ∀ d ∈ k.data, d.note.pattern.access.isBuffered = (d.iterative && config.mode.isTiled)

/-- The graph stayed, every node has its control parameters, and the pipeline runs all of
them. -/
structure Annotates (k k' : Kernel) (pipeline : Pipeline) : Prop where
  sameGraph : k.SameGraph k'
  nodes : k'.nodes = k.reset.deriveParams.nodes
  mem_order : ∀ n, n ∈ pipeline.order ↔ n < k'.nodes.length

theorem Annotates.of_keeps {k k₁ k' : Kernel} {pipeline : Pipeline} (h : Annotates k k₁ pipeline)
    (hk : Keeps tileView k₁ k') : Annotates k k' pipeline :=
  ⟨h.sameGraph.trans hk.of_tileView.sameGraph, hk.nodes.trans h.nodes, hk.nodes ▸ h.mem_order⟩

/-- The passes before the slots complete. -/
theorem annotate_prepared {k : Kernel} {order : List NodeId} (hk : k.WellFormed)
    (hv : k.reset.validate = .ok ()) (ho : topologicalOrder k.reset.deriveParams = .ok order)
    (config : TilingConfig) :
    ∃ k₁, Annotates k k₁ (pipelineOf k₁ order) ∧ Prepared config k₁ ∧ annotate config k =
      (do sizeSlots config.mode config.scan; promoteRings; return pipelineOf k₁ order :
        Pass Pipeline) k₁ := by
  set k₀ := k.reset.deriveParams with hk₀
  have hgraph : k.SameGraph k₀ :=
    (Kernel.sameGraph_reset k).trans (Kernel.sameGraph_deriveParams k.reset)
  have hwf : k₀.WellFormed := hk.of_sameGraph hgraph
  have hvalid : k₀.Valid := (Kernel.valid_of_validate (hk.of_sameGraph (Kernel.sameGraph_reset k))
    hv).of_sameGraph (Kernel.sameGraph_deriveParams k.reset)
  have hstage : ∀ d ∈ k₀.data, d.note.stage = .unscheduled := by
    intro d hd
    obtain ⟨d', -, rfl⟩ := List.mem_map.mp hd
    rfl
  have hto := topological_of_eq_ok hwf ho
  obtain ⟨kt, htiles, hkt, htiled⟩ := analyzeTiles_eq_ok hwf hvalid hto hstage
  obtain ⟨kc, hcycles, hkc, hcycled, hscheduled⟩ := assignCycles_eq_ok htiled (hto.of_keeps hkt)
    (analyzeTiles_unscheduled hstage htiles) config.scan
  obtain ⟨k₁, haccess, hk₁, hpattern⟩ := assignAccess_pass (htiled.of_keeps hkc) hscheduled
    config.mode config.scan
  have hrank : k₁.rank = kc.rank := hk₁.of_cycleView.of_tileView.sameGraph.rank_eq
  have hkeeps : Keeps DataItem.reset k₀ k₁ :=
    (hkt.trans hkc.of_tileView).trans hk₁.of_cycleView.of_tileView
  rw [← pipelineOf_of_keeps hk₁] at hcycles
  refine ⟨k₁, ⟨hgraph.trans hkeeps.sameGraph, hkeeps.nodes, fun n => ?_⟩,
    ⟨?_, ?_, fun d hd => (hpattern d hd).1, fun d hd => (hpattern d hd).2⟩, ?_⟩
  · rw [hkeeps.nodes, ← hto.mem_iff]
    exact List.mem_mergeSort
  · exact (htiled.of_keeps hkc).of_keeps hk₁.of_cycleView
  · exact hrank ▸ hcycled.of_keeps hk₁
  · have hlift : annotate.liftExcept (topologicalOrder k₀) k₀ = (.ok order, k₀) := by
      rw [ho]
      rfl
    have hcheck : annotate.liftExcept (ofKernel k.reset.validate) k.reset = (.ok (), k.reset) := by
      rw [hv]
      rfl
    unfold annotate
    rw [run_bind_of_ok (run_modify _ k), run_bind_of_ok (run_get _), run_bind_of_ok hcheck,
      run_bind_of_ok (run_modify _ _), run_bind_of_ok (run_get _), run_bind_of_ok hlift,
      run_bind_of_ok htiles, run_bind_of_ok hcycles, run_bind_of_ok haccess]

/-- With the slots sized the rest completes. -/
theorem Prepared.finish {config : TilingConfig} {k k₁ : Kernel} (hp : Prepared config k)
    (hrun : sizeSlots config.mode config.scan k = (.ok (), k₁)) :
    ∃ k', promoteRings k₁ = (.ok (), k') ∧ Keeps cycleView k k' ∧ Annotated config k' := by
  have hk₁ := (revises_sizeItem config.mode config.scan).respects.keeps hrun
  have htiled := hp.tiled.of_keeps hk₁.of_accessView.of_cycleView
  have hsized := sizeSlots_pass hp.tiled.wellFormed hrun
  obtain ⟨k', hrings, hk'⟩ := promoteRings_pass htiled.wellFormed fun d hd => (hsized d hd).1
  have hkeeps := hk₁.of_accessView.trans hk'.of_slotView
  have hrank : k'.rank = k.rank := hkeeps.of_cycleView.of_tileView.sameGraph.rank_eq
  refine ⟨k', hrings, hkeeps, htiled.of_keeps hk'.of_slotView.of_cycleView,
    hrank ▸ hp.cycled.of_keeps hkeeps, fun d' hd' => ?_, fun d' hd' => ?_, fun d' hd' => ?_⟩
  · obtain ⟨i, hget⟩ := List.mem_iff_getElem?.mp hd'
    obtain ⟨d, hd, hview⟩ := hk'.exists_item hget
    exact (congrArg (·.2.2.2) hview).trans (hsized d (List.mem_of_getElem? hd)).1
  · obtain ⟨i, hget⟩ := List.mem_iff_getElem?.mp hd'
    obtain ⟨d, hd, hview⟩ := hk'.exists_item hget
    obtain ⟨-, hslots, hpos⟩ := hsized d (List.mem_of_getElem? hd)
    have hsame : d'.note.pattern.slots = d.note.pattern.slots := congrArg (·.2.2.1) hview
    rw [SlotsRecorded, dataSlots_congr hk'.of_slotView (congrArg Prod.fst hview), hsame]
    exact ⟨hslots, hpos⟩
  · obtain ⟨i, hget⟩ := List.mem_iff_getElem?.mp hd'
    obtain ⟨d₁, hd₁, hview₁⟩ := hk'.exists_item hget
    obtain ⟨d, hd, hview⟩ := hk₁.exists_item hd₁
    have hiter : d'.iterative = d.iterative :=
      (congrArg (·.1.iterative) hview₁).trans (congrArg (·.1.iterative) hview)
    rw [hiter, ← hp.buffered d (List.mem_of_getElem? hd)]
    exact (congrArg (·.2.1) hview₁).trans (congrArg Prod.snd hview)

/-- What the annotation checks first. -/
theorem valid_of_annotate {config : TilingConfig} {k k' : Kernel} {pipeline : Pipeline}
    (h : annotate config k = (.ok pipeline, k')) :
    k.reset.validate = .ok () ∧ ∃ order, topologicalOrder k.reset.deriveParams = .ok order := by
  obtain ⟨_, k₀, hreset, h⟩ := run_bind_eq_ok.mp h
  cases hreset
  obtain ⟨_, k₁, hget, h⟩ := run_bind_eq_ok.mp h
  cases hget
  obtain ⟨_, k₂, hvalid, h⟩ := run_bind_eq_ok.mp h
  obtain ⟨hvalidate, rfl⟩ := Prod.mk.inj hvalid
  obtain ⟨_, k₃, hderive, h⟩ := run_bind_eq_ok.mp h
  cases hderive
  obtain ⟨_, k₄, hget, h⟩ := run_bind_eq_ok.mp h
  cases hget
  obtain ⟨order, k₅, horder, -⟩ := run_bind_eq_ok.mp h
  exact ⟨ofKernel_eq_ok.mp hvalidate, order, (Prod.mk.inj horder).1⟩

/-- What a completed annotation leaves, and the pipeline it returns. -/
theorem annotate_pipeline {config : TilingConfig} {k k' : Kernel} {pipeline : Pipeline}
    (hk : k.WellFormed) (h : annotate config k = (.ok pipeline, k')) :
    Annotates k k' pipeline ∧ Annotated config k' ∧
      ∃ order, topologicalOrder k = .ok order ∧ pipeline = pipelineOf k' order := by
  obtain ⟨hv, order, ho⟩ := valid_of_annotate h
  obtain ⟨k₁, hgraph, hp, heq⟩ := annotate_prepared hk hv ho config
  rw [heq] at h
  obtain ⟨_, k₂, hslots, h⟩ := run_bind_eq_ok.mp h
  obtain ⟨_, k₃, hrings, h⟩ := run_bind_eq_ok.mp h
  cases h
  obtain ⟨k₄, hrings', hkeeps, hann⟩ := hp.finish hslots
  obtain rfl : k' = k₄ := congrArg Prod.snd (hrings.symm.trans hrings')
  have horder := topologicalOrder_of_sameGraph
    ((Kernel.sameGraph_reset k).trans (Kernel.sameGraph_deriveParams k.reset))
  exact ⟨hgraph.of_keeps hkeeps.of_cycleView, hann, order, horder.symm.trans ho,
    by rw [pipelineOf_of_keeps hkeeps]⟩

/-- What a completed annotation leaves. -/
theorem annotate_result {config : TilingConfig} {k k' : Kernel} {pipeline : Pipeline}
    (hk : k.WellFormed) (h : annotate config k = (.ok pipeline, k')) :
    Annotates k k' pipeline ∧ Annotated config k' :=
  ⟨(annotate_pipeline hk h).1, (annotate_pipeline hk h).2.1⟩

/-- The annotated kernel has the graph of the given one. -/
theorem annotate_annotated {config : TilingConfig} {k k' : Kernel} {pipeline : Pipeline}
    (hk : k.WellFormed) (h : annotate config k = (.ok pipeline, k')) :
    k.SameGraph k' ∧ Annotated config k' :=
  ⟨(annotate_result hk h).1.sameGraph, (annotate_result hk h).2⟩

/-- A validated kernel without cycles is annotated, unless a count is cut to 32 bits. -/
theorem annotate_complete {config : TilingConfig} {k k' : Kernel} {order : List NodeId}
    {r : Except AnalysisError Pipeline} (hk : k.WellFormed) (hv : k.validate = .ok ())
    (ho : topologicalOrder k = .ok order) (hrun : annotate config k = (r, k'))
    (hfit : config.mode.isTiled = true → CountsFit k' (config.scan.scanDim k'.rank)) :
    ∃ pipeline, r = .ok pipeline := by
  have horder := topologicalOrder_of_sameGraph
    ((Kernel.sameGraph_reset k).trans (Kernel.sameGraph_deriveParams k.reset))
  obtain ⟨k₁, -, hp, heq⟩ :=
    annotate_prepared hk ((Kernel.validate_reset k).trans hv) (horder.trans ho) config
  rcases hslots : sizeSlots config.mode config.scan k₁ with ⟨e | _, k₂⟩
  · -- what was recorded before the failure shows that the counts are not cut
    have hk₂ := ((revises_sizeItem config.mode config.scan).respects.keeps hslots).of_accessView
    obtain rfl : k' = k₂ := by
      have := hrun.symm.trans heq
      rw [run_bind_of_error hslots] at this
      exact congrArg Prod.snd this
    have hrank : k'.rank = k₁.rank := hk₂.of_cycleView.of_tileView.sameGraph.rank_eq
    rw [hrank] at hfit
    obtain ⟨k₃, hok⟩ := sizeSlots_complete hp.tiled hp.cycled
      (fun hm => (hfit hm).of_keeps hk₂.symm) hp.stage
    cases hslots.symm.trans hok
  · obtain ⟨k₃, hrings, -, -⟩ := hp.finish hslots
    rw [run_bind_of_ok hslots, run_bind_of_ok hrings] at heq
    exact ⟨_, congrArg Prod.fst (hrun.symm.trans heq)⟩

/-! ### The plan -/

theorem planPartitions_of_ok {k : Kernel} {device : Device} {config : TilingConfig} {plan : Plan}
    (h : choosePlan k device config = .ok plan) (diag : Diagnostics) :
    planPartitions k device config diag = (.ok (some plan), diag) := by
  rw [planPartitions, h]
  rfl

theorem choosePlan_of_planned {k : Kernel} {device : Device} {config : TilingConfig}
    {diag diag' : Diagnostics} {plan : Plan}
    (h : planPartitions k device config diag = (.ok (some plan), diag')) :
    choosePlan k device config = .ok plan ∧ diag' = diag := by
  rcases hchoose : choosePlan k device config with (f | r) | plan₁
  · simp only [planPartitions, hchoose] at h
    cases h
  · simp only [planPartitions, hchoose] at h
    obtain ⟨_, diag₁, -, hnone⟩ := run_bind_eq_ok.mp h
    cases hnone
  · rw [planPartitions_of_ok hchoose] at h
    cases h
    exact ⟨rfl, rfl⟩

/-- A feasible plan was chosen and passed the checks. -/
theorem feasiblePlan_eq_ok {k : Kernel} {device : Device} {config : TilingConfig}
    {diag diag' : Diagnostics} {plan : Plan} {check : BudgetCheck}
    (h : feasiblePlan k device config diag = (.ok (some (plan, check)), diag')) :
    choosePlan k device config = .ok plan ∧ check.feasible = true ∧
      checkBudget k device plan config.mode config.scan diag = (.ok check, diag') := by
  obtain ⟨chosen, diag₁, hplan, h⟩ := run_bind_eq_ok.mp h
  cases chosen with
  | none => cases h
  | some plan₁ =>
    obtain ⟨check₁, diag₂, hcheck, h⟩ := run_bind_eq_ok.mp h
    obtain ⟨hsome, rfl⟩ := Prod.mk.inj h
    have hsome := Except.ok.inj hsome
    split_ifs at hsome with hfeasible
    obtain ⟨rfl, rfl⟩ := Prod.mk.inj (Option.some.inj hsome)
    obtain ⟨hchoose, rfl⟩ := choosePlan_of_planned hplan
    exact ⟨hchoose, hfeasible, hcheck⟩

/-- An item counts the same grains after a pass that keeps its tile. -/
theorem itemGrains_of_tileView {d d' : DataItem} (h : tileView d' = tileView d) (dim : Nat) :
    itemGrains d' dim = itemGrains d dim := by
  have hshape : d'.shape = d.shape := congrArg (·.shape) h
  have hname : d'.name = d.name := congrArg (·.name) h
  have htile : d'.note.tile = d.note.tile := congrArg (·.note.tile) h
  unfold itemGrains grainOf
  rw [hshape, hname, htile]

theorem Plan.Covers.of_keeps {plan : Plan} {k k' : Kernel} {dim : Nat} (h : plan.Covers k dim)
    (hk : Keeps tileView k k') : plan.Covers k' dim := by
  refine ⟨h.parts_pos, h.slice_pos, fun d' hd' => ?_⟩
  obtain ⟨d, hd, hview⟩ := hk.exists_iterative (fun h => congrArg (·.iterative) h) hd'
  rw [itemGrains_of_tileView hview]
  exact h.le_slices d hd

/-! ### Coordinates -/

/-- An item without the annotations that the coordinates are. -/
def patternView (d : DataItem) : DataItem :=
  { d with note := { tile := d.note.tile, pattern := d.note.pattern } }

theorem Keeps.of_patternView {k k' : Kernel} (h : Keeps patternView k k') : Keeps tileView k k' :=
  h.comp tileView

/-- The coordinates of an item under a plan. -/
def planTable (k : Kernel) (plan : Plan) (d : DataItem) (tile : Tile) : Geometry.Table :=
  .ofFn d.rank fun key => (axisOf d tile (k.producerOf d) plan key.dim).entry key.quantity key.measure

theorem resolveItem_eq_ok {plan : Plan} {k : Kernel} {i d : DataId} {item' : DataItem}
    (h : resolveItem plan k i = .ok (d, item')) :
    d = i ∧ ∃ item table, k.data[d]? = some item ∧ coordinates k item plan = .ok table ∧
      item' = withGeometry item table := by
  obtain ⟨item, hitem, h⟩ := bind_eq_ok.mp h
  obtain ⟨table, htable, h⟩ := bind_eq_ok.mp h
  obtain ⟨rfl, hget, hset⟩ := record_eq_ok hitem h
  obtain ⟨-, rfl⟩ := resolve_eq_ok.mp hset
  exact ⟨rfl, item, table, hget, htable, rfl⟩

theorem revises_resolveItem (plan : Plan) : Revises (resolveItem plan) patternView id := by
  intro k i d item' h
  obtain ⟨hd, item, table, hget, -, rfl⟩ := resolveItem_eq_ok h
  exact ⟨hd, item, hget, rfl⟩

/-- Iterative items get the coordinates of the plan. -/
theorem coordinates_eq_ok {k : Kernel} {d : DataItem} {plan : Plan} {table : Geometry.Table}
    (h : coordinates k d plan = .ok table) (hi : d.iterative = true) {t : Tile}
    (ht : d.note.tile = some t) : table = planTable k plan d t := by
  unfold coordinates at h
  rw [if_neg (by simp [DataItem.isControl, hi]), ht] at h
  exact (pure_eq_ok.mp h).symm

/-- The coordinates of every item are those it has in the given kernel. -/
theorem resolveGeometry_item {plan : Plan} {k k' : Kernel} (hk : k.WellFormed)
    (h : resolveGeometry plan k = (.ok (), k')) {i : DataId} {d' : DataItem}
    (hd' : k'.data[i]? = some d') :
    ∃ d table, k.data[i]? = some d ∧ coordinates k d plan = .ok table ∧ d' = withGeometry d table := by
  have hrun : revise (resolveItem plan) (k.data.map DataItem.id) k = (.ok (), k') := h
  obtain ⟨d, hd, -⟩ := ((revises_resolveItem plan).respects.keeps hrun).exists_item hd'
  obtain ⟨k₁, item', hk₁, hkey, hstep, hend⟩ := (revises_resolveItem plan).result hrun
    (nodup_ids hk) (mem_ids hk hd)
  obtain ⟨-, item, table, hget, htable, hset⟩ := resolveItem_eq_ok hstep
  obtain rfl : d' = item' := Option.some.inj (hd'.symm.trans hend)
  obtain rfl : d = item := Option.some.inj (hd.symm.trans (hkey.symm.trans hget))
  have hsame : coordinates k d plan = coordinates k₁ d plan := by
    simp only [coordinates, Kernel.producerOf, hk₁.nodes, hk₁.name]
  exact ⟨d, table, hd, hsame.trans htable, hset⟩

/-- A kernel with the tiles and the coordinates of a plan. -/
structure Resolved (k : Kernel) (plan : Plan) : Prop where
  tiled : Tiled k
  covers : ∀ {dim}, plan.parts dim ≠ 1 → plan.Covers k dim
  geometry : ∀ {i : DataId} {d : DataItem}, k.data[i]? = some d → d.iterative = true →
    d.note.geometry = some (planTable k plan d (tileAt k i))
  scalar : ∀ {i : DataId} {d : DataItem}, k.data[i]? = some d → d.iterative = false →
    d.note.geometry = some {}

theorem resolveGeometry_eq_ok {plan : Plan} {k k' : Kernel} {device : Device} {config : TilingConfig}
    (ht : Tiled k) (hplan : choosePlan k device config = .ok plan)
    (h : resolveGeometry plan k = (.ok (), k')) : Keeps patternView k k' ∧ Resolved k' plan := by
  have hrun : revise (resolveItem plan) (k.data.map DataItem.id) k = (.ok (), k') := h
  have hkept := (revises_resolveItem plan).respects.keeps hrun
  have hkeeps := hkept.of_patternView
  refine ⟨hkept, ht.of_keeps hkeeps, fun hparts => ?_, fun {i d'} hd' hi => ?_, fun {i d'} hd' hi => ?_⟩
  · exact (choosePlan_eq_ok hplan hparts).of_keeps hkeeps
  · obtain ⟨d, table, hd, htable, rfl⟩ := resolveGeometry_item ht.wellFormed h hd'
    -- the table looks at the declaration of the item, at its tile and at the nodes
    have hproducer : k'.producerOf (withGeometry d table) = k.producerOf d := by
      rw [Kernel.producerOf, Kernel.producerOf, hkeeps.nodes]
      rfl
    rw [planTable, hproducer, tileAt_of_keeps hkeeps]
    exact congrArg some (coordinates_eq_ok htable hi (ht.tileAt_eq hd hi).1)
  · obtain ⟨d, table, hd, htable, rfl⟩ := resolveGeometry_item ht.wellFormed h hd'
    have hcontrol : d.isControl = true := by
      rw [DataItem.isControl, show d.iterative = false from hi]
      rfl
    rw [coordinates, if_pos hcontrol] at htable
    obtain rfl := pure_eq_ok.mp htable
    rfl

/-- With the coordinates every item reached the last stage. -/
theorem resolveGeometry_stage {plan : Plan} {k k' : Kernel} (hk : k.WellFormed)
    (h : resolveGeometry plan k = (.ok (), k')) :
    ∀ d ∈ k'.data, d.note.stage = .geometryResolved := by
  intro d' hd'
  obtain ⟨i, hget⟩ := List.mem_iff_getElem?.mp hd'
  obtain ⟨d, table, -, -, rfl⟩ := resolveGeometry_item hk h hget
  rfl

/-! ### The whole analysis -/

/-- The analysis ended with a schedule. -/
def Result.ready (r : Result) : Bool :=
  match r.outcome with
  | .ok (.ready _) => true
  | _ => false

/-- The ways an analysis ends. -/
inductive Ending (k : Kernel) (device : Device) (config : TilingConfig) (diag : Diagnostics) :
    Result → Prop
  | refused {e : AnalysisError} {k₁ : Kernel} (annotated : annotate config k = (.error e, k₁)) :
      Ending k device config diag ⟨k₁, diag, .error e⟩
  | stopped {e : AnalysisError} {k₁ : Kernel} {pipeline : Pipeline} {diag₁ : Diagnostics}
      (annotated : annotate config k = (.ok pipeline, k₁))
      (planned : feasiblePlan k₁ device config diag = (.error e, diag₁)) :
      Ending k device config diag ⟨k₁, diag₁, .error e⟩
  | infeasible {k₁ : Kernel} {pipeline : Pipeline} {diag₁ : Diagnostics}
      (annotated : annotate config k = (.ok pipeline, k₁))
      (planned : feasiblePlan k₁ device config diag = (.ok none, diag₁)) :
      Ending k device config diag ⟨k₁, diag₁, .ok .infeasible⟩
  | unresolved {e : AnalysisError} {k₁ k₂ : Kernel} {pipeline : Pipeline} {diag₁ : Diagnostics}
      {plan : Plan} {check : BudgetCheck} (annotated : annotate config k = (.ok pipeline, k₁))
      (planned : feasiblePlan k₁ device config diag = (.ok (some (plan, check)), diag₁))
      (resolved : resolveGeometry plan k₁ = (.error e, k₂)) :
      Ending k device config diag ⟨k₂, diag₁, .error e⟩
  | ready {k₁ k₂ : Kernel} {pipeline : Pipeline} {diag₁ : Diagnostics} {plan : Plan}
      {check : BudgetCheck} (annotated : annotate config k = (.ok pipeline, k₁))
      (planned : feasiblePlan k₁ device config diag = (.ok (some (plan, check)), diag₁))
      (resolved : resolveGeometry plan k₁ = (.ok (), k₂)) :
      Ending k device config diag ⟨{ k₂ with schedule := some (scheduleOf config pipeline plan check) },
        noteReport (reportOf k₂ check) diag₁, .ok (.ready (reportOf k₂ check))⟩

theorem analyze_ending (k : Kernel) (device : Device) (config : TilingConfig) (diag : Diagnostics) :
    Ending k device config diag (analyze k device config diag) := by
  unfold analyze
  split
  · next hann => exact .refused hann
  · next hann =>
    split
    · next hplan => exact .stopped hann hplan
    · next hplan => exact .infeasible hann hplan
    · next hplan =>
      split
      · next hgeometry => exact .unresolved hann hplan hgeometry
      · next hgeometry => exact .ready hann hplan hgeometry

/-- What a successful analysis went through: the annotated kernel, the plan and the check
it passed, and the kernel with the coordinates. -/
structure Completed (k : Kernel) (device : Device) (config : TilingConfig) (r : Result) where
  annotated : Kernel
  plan : Plan
  check : BudgetCheck
  resolved : Kernel
  pipeline : Pipeline
  annotates : Annotates k annotated pipeline
  pipelined : ∃ order, topologicalOrder k = .ok order ∧ pipeline = pipelineOf annotated order
  facts : Annotated config annotated
  chosen : choosePlan annotated device config = .ok plan
  feasible : check.feasible = true
  checked : ∃ diag diag',
    checkBudget annotated device plan config.mode config.scan diag = (.ok check, diag')
  kept : Keeps patternView annotated resolved
  coordinates : Resolved resolved plan
  kernel_eq : r.kernel = { resolved with schedule := some (scheduleOf config pipeline plan check) }

theorem analyze_completed {k : Kernel} {device : Device} {config : TilingConfig} {diag : Diagnostics}
    (hk : k.WellFormed) (h : (analyze k device config diag).ready = true) :
    Nonempty (Completed k device config (analyze k device config diag)) := by
  have hend := analyze_ending k device config diag
  generalize analyze k device config diag = r at h hend
  cases hend with
  | @ready k₁ k₂ pipeline diag₁ plan check hann hplan hgeometry =>
    obtain ⟨hannotates, hannotated, hpipeline⟩ := annotate_pipeline hk hann
    obtain ⟨hchosen, hfeasible, hcheck⟩ := feasiblePlan_eq_ok hplan
    obtain ⟨hkeeps, hres⟩ := resolveGeometry_eq_ok hannotated.tiled hchosen hgeometry
    exact ⟨⟨k₁, plan, check, k₂, pipeline, hannotates, hpipeline, hannotated, hchosen, hfeasible,
      ⟨diag, diag₁, hcheck⟩, hkeeps, hres, rfl⟩⟩
  | _ => cases h

section Completed

variable {k : Kernel} {device : Device} {config : TilingConfig} {r : Result}
  (c : Completed k device config r)

/-- Nothing but the coordinates and the schedule was added after the checks. -/
theorem Completed.keeps : Keeps patternView c.annotated r.kernel := by
  rw [c.kernel_eq]
  exact c.kept.trans ⟨rfl, rfl, rfl, rfl, rfl⟩

include c in
theorem Completed.sameGraph : k.SameGraph r.kernel :=
  c.annotates.sameGraph.trans c.keeps.of_patternView.of_tileView.sameGraph

theorem Completed.resolves : Resolved r.kernel c.plan := by
  rw [c.kernel_eq]
  have hschedule : Keeps tileView c.resolved { c.resolved with
      schedule := some (scheduleOf config c.pipeline c.plan c.check) } := ⟨rfl, rfl, rfl, rfl, rfl⟩
  exact ⟨c.coordinates.tiled.of_keeps hschedule,
    fun hparts => (c.coordinates.covers hparts).of_keeps hschedule, c.coordinates.geometry,
    c.coordinates.scalar⟩

/-- The pipeline is that of the recorded cycles. -/
theorem Completed.pipeline_eq :
    ∃ order, topologicalOrder k = .ok order ∧ c.pipeline = pipelineOf r.kernel order := by
  obtain ⟨order, ho, heq⟩ := c.pipelined
  exact ⟨order, ho, by rw [heq, pipelineOf_of_keeps (c.keeps.comp cycleView)]⟩

theorem Completed.schedule :
    r.kernel.schedule = some (scheduleOf config c.pipeline c.plan c.check) := by
  rw [c.kernel_eq]

end Completed

/-- A successful analysis leaves the graph as it was, with the coordinates of the plan on
its items and the plan's partitions in the schedule. -/
theorem analyze_ready {k : Kernel} {device : Device} {config : TilingConfig} {diag : Diagnostics}
    (hk : k.WellFormed) (h : (analyze k device config diag).ready = true) :
    ∃ plan s, k.SameGraph (analyze k device config diag).kernel ∧
      Resolved (analyze k device config diag).kernel plan ∧
      (analyze k device config diag).kernel.schedule = some s ∧ s.partitions = plan.partitions := by
  obtain ⟨c⟩ := analyze_completed hk h
  exact ⟨c.plan, _, c.sameGraph, c.resolves, c.schedule, rfl⟩

end StencilTiling.Analysis
