import StencilTiling.Proofs.Analysis.Failures
import StencilTiling.Proofs.Kernel.ControlParams

/-! An analysis depends on the graph of its kernel and on nothing that an earlier analysis
left there. It drops the annotations, derives the control parameters anew from the
declarations, and from then on two kernels with the same graph differ only in where they were
declared, which no pass looks at. -/

namespace StencilTiling

/-! ### Declarations -/

namespace Kernel

/-- The kernel, declared somewhere else. -/
def relocate (k : Kernel) (location : Option Location) : Kernel := { k with location }

theorem validate_bare (k : Kernel) : k.bare.validate = k.validate := by
  have hnodes : k.bare.nodes.forM k.bare.checkNode = k.nodes.forM k.checkNode := List.forM_map
  unfold validate
  rw [hnodes]
  rfl

theorem deriveParams_relocate (k : Kernel) (location : Option Location) :
    (k.relocate location).deriveParams = k.deriveParams.relocate location := by
  have hsettle : ∀ fuel params, (k.relocate location).settleParams fuel params =
      k.settleParams fuel params := settleParams_congr fun _ => rfl
  unfold deriveParams
  rw [hsettle]
  rfl

theorem SameGraph.refl (k : Kernel) : SameGraph k k := ⟨rfl, rfl, rfl, rfl, rfl⟩

theorem sameGraph_relocate (k : Kernel) (location : Option Location) :
    SameGraph k (k.relocate location) := ⟨rfl, rfl, rfl, rfl, rfl⟩

section SameGraph

variable {k k' : Kernel} (h : SameGraph k k')

include h

/-- Without annotations the same graph is the same kernel, but for where it was declared. -/
theorem SameGraph.reset_bare : k'.reset.bare = k.reset.bare.relocate k'.location := by
  simp only [bare, reset, relocate, Kernel.mk.injEq, true_and]
  exact ⟨h.name, h.data, h.nodes, h.edges, h.inputs, trivial⟩

theorem SameGraph.validate_eq : k'.validate = k.validate := by
  rw [← validate_reset k', ← validate_bare, h.reset_bare, ← validate_reset k, ← validate_bare k.reset]
  rfl

theorem SameGraph.deriveParams_reset :
    k'.reset.deriveParams = k.reset.deriveParams.relocate k'.location := by
  rw [← deriveParams_bare, h.reset_bare, deriveParams_relocate, deriveParams_bare]

end SameGraph

end Kernel

namespace Analysis

/-! ### Passes -/

/-- The pass does not look at where the kernel was declared. -/
def Unplaced {α : Type} (pass : Pass α) : Prop :=
  ∀ k location, pass (k.relocate location) = ((pass k).1, (pass k).2.relocate location)

namespace Unplaced

theorem pure {α : Type} (a : α) : Unplaced (Pure.pure a : Pass α) := fun _ _ => rfl

theorem bind {α β : Type} {x : Pass α} {f : α → Pass β} (hx : Unplaced x)
    (hf : ∀ a, Unplaced (f a)) : Unplaced (x >>= f) := by
  intro k location
  have hx := hx k location
  rcases h : x k with ⟨e | a, k₁⟩
  · rw [h] at hx
    rw [run_bind_of_error h, run_bind_of_error hx]
  · rw [h] at hx
    rw [run_bind_of_ok h, run_bind_of_ok hx, hf]

/-- What is read off the kernel may not depend on the place either. -/
theorem get_bind {α : Type} {f : Kernel → Pass α}
    (hread : ∀ k location, f (k.relocate location) = f k) (hf : ∀ k, Unplaced (f k)) :
    Unplaced (get >>= f) := by
  intro k location
  rw [run_bind_of_ok (run_get _), run_bind_of_ok (run_get _), hread, hf]

theorem revise {α : Type} {step : Kernel → α → Except AnalysisError (DataId × DataItem)}
    (hstep : ∀ k location a, step (k.relocate location) a = step k a) (l : List α) :
    Unplaced (revise step l) := by
  intro k location
  induction l generalizing k with
  | nil => rfl
  | cons a rest ih =>
    simp only [Analysis.revise, hstep]
    split
    · rfl
    · next d item _ => exact ih (k.setItem d item)

end Unplaced

theorem unplaced_analyzeTiles (order : List NodeId) : Unplaced (analyzeTiles order) := by
  intro k location
  have hcomputed : (do
      let ds ← dataOrder (k.relocate location) order
      return handOut (← tiles (k.relocate location) ds) ds : Except Fault (List (DataId × Tile))) =
    (do
      let ds ← dataOrder k order
      return handOut (← tiles k ds) ds) := rfl
  unfold analyzeTiles
  dsimp only
  rw [hcomputed]
  split
  · rfl
  · exact Unplaced.revise (fun _ _ _ => rfl) _ k location

theorem unplaced_assignCycles (order : List NodeId) (scan : ScanOrder) :
    Unplaced (assignCycles order scan) := by
  refine .get_bind (fun _ _ => rfl) fun k => ?_
  refine (Unplaced.revise (fun _ _ _ => rfl) _).bind fun _ => ?_
  refine (Unplaced.revise (fun _ _ _ => rfl) _).bind fun _ => ?_
  exact .get_bind (fun _ _ => rfl) fun k => .pure _

theorem unplaced_assignAccess (mode : Granularity) (scan : ScanOrder) :
    Unplaced (assignAccess mode scan) :=
  .get_bind (fun _ _ => rfl) fun _ => .revise (fun _ _ _ => rfl) _

theorem unplaced_sizeSlots (mode : Granularity) (scan : ScanOrder) : Unplaced (sizeSlots mode scan) :=
  .get_bind (fun _ _ => rfl) fun _ => .revise (fun _ _ _ => rfl) _

theorem unplaced_promoteRings : Unplaced promoteRings :=
  .get_bind (fun _ _ => rfl) fun _ => .revise (fun _ _ _ => rfl) _

theorem unplaced_resolveGeometry (plan : Plan) : Unplaced (resolveGeometry plan) :=
  .get_bind (fun _ _ => rfl) fun _ => .revise (fun _ _ _ => rfl) _

/-- The passes on a valid kernel whose parameters are derived. -/
def annotateValid (config : TilingConfig) : Pass Pipeline := do
  let order ← annotate.liftExcept (topologicalOrder (← get))
  analyzeTiles order
  let pipeline ← assignCycles order config.scan
  assignAccess config.mode config.scan
  sizeSlots config.mode config.scan
  promoteRings
  return pipeline

theorem unplaced_annotateValid (config : TilingConfig) : Unplaced (annotateValid config) := by
  refine .get_bind (fun k location => ?_) fun k => ?_
  · rw [topologicalOrder_of_sameGraph (k.sameGraph_relocate location)]
  · have hlift : Unplaced (annotate.liftExcept (topologicalOrder k)) := fun _ _ => rfl
    exact hlift.bind fun order => (unplaced_analyzeTiles order).bind fun _ =>
      (unplaced_assignCycles order config.scan).bind fun pipeline =>
        (unplaced_assignAccess config.mode config.scan).bind fun _ =>
          (unplaced_sizeSlots config.mode config.scan).bind fun _ =>
            unplaced_promoteRings.bind fun _ => .pure pipeline

theorem annotate_of_valid {config : TilingConfig} {k : Kernel} (hv : k.validate = .ok ()) :
    annotate config k = annotateValid config k.reset.deriveParams := by
  have hcheck : annotate.liftExcept (ofKernel k.reset.validate) k.reset = (.ok (), k.reset) := by
    rw [Kernel.validate_reset, hv]
    rfl
  unfold annotate
  rw [run_bind_of_ok (run_modify _ k), run_bind_of_ok (run_get _), run_bind_of_ok hcheck,
    run_bind_of_ok (run_modify _ _)]
  rfl

/-! ### Analyses -/

theorem analyze_of_invalid {k : Kernel} {e : KernelError} (hv : k.validate = .error e)
    (device : Device) (config : TilingConfig) (diag : Diagnostics) :
    analyze k device config diag = ⟨k.reset, diag, .error (.kernel e)⟩ := by
  rw [analyze, annotate_of_invalid hv]

/-- On a valid graph an analysis gives the same whatever was annotated before. -/
theorem analyze_of_sameGraph {k k' : Kernel} (h : k.SameGraph k') (hv : k.validate = .ok ())
    (device : Device) (config : TilingConfig) (diag : Diagnostics) :
    analyze k' device config diag = { analyze k device config diag with
      kernel := (analyze k device config diag).kernel.relocate k'.location } := by
  have hann : annotate config k' =
      ((annotate config k).1, (annotate config k).2.relocate k'.location) := by
    rw [annotate_of_valid (h.validate_eq.trans hv), annotate_of_valid hv, h.deriveParams_reset]
    exact unplaced_annotateValid config _ _
  unfold analyze
  rw [hann]
  rcases annotate config k with ⟨e | pipeline, k₁⟩
  · rfl
  have hplan : feasiblePlan (k₁.relocate k'.location) device config diag =
      feasiblePlan k₁ device config diag := rfl
  dsimp only
  rw [hplan]
  rcases feasiblePlan k₁ device config diag with ⟨e | _ | ⟨plan, check⟩, diag₁⟩
  · rfl
  · rfl
  have hres := unplaced_resolveGeometry plan k₁ k'.location
  dsimp only
  rw [hres]
  rcases resolveGeometry plan k₁ with ⟨e | _, k₂⟩ <;> rfl

/-! ### The graph -/

/-- Revising items keeps the graph if every step respects a view that shows declarations. -/
theorem sameGraph_revise {α β : Type} {step : Kernel → α → Except AnalysisError (DataId × DataItem)}
    {view : DataItem → β} (hs : Respects step view)
    (hview : ∀ {k k'}, Keeps view k k' → Keeps DataItem.reset k k') (k : Kernel) (l : List α) :
    Preserves k.SameGraph (revise step l) :=
  fun _ hk => hk.trans (hview (hs.keeps rfl)).sameGraph

section Graph

variable (k : Kernel)

theorem sameGraph_analyzeTiles (order : List NodeId) : Preserves k.SameGraph (analyzeTiles order) := by
  intro k₁ hk
  unfold analyzeTiles
  dsimp only
  split
  · exact hk
  · exact sameGraph_revise revises_recordTile.respects id k _ k₁ hk

theorem sameGraph_assignCycles (order : List NodeId) (scan : ScanOrder) :
    Preserves k.SameGraph (assignCycles order scan) :=
  Preserves.bind (fun _ hk => hk) fun _ =>
    (sameGraph_revise revises_scheduleInput.respects Keeps.of_tileView k _).bind fun _ =>
      (sameGraph_revise (respects_scheduleNode (fun _ _ => rfl) scan) Keeps.of_tileView k _).bind fun _ =>
        fun _ hk => hk

theorem sameGraph_annotate (config : TilingConfig) : k.SameGraph (annotate config k).2 := by
  have haccess {k₁ k₂ : Kernel} (h : Keeps cycleView k₁ k₂) : Keeps DataItem.reset k₁ k₂ :=
    h.of_cycleView.of_tileView
  have hsame {α : Type} {pass : Pass α} (h : ∀ k₁, (pass k₁).2 = k₁) : Preserves k.SameGraph pass :=
    fun k₁ hk => by rwa [h k₁]
  have hget : Preserves k.SameGraph (get : Pass Kernel) := hsame fun _ => rfl
  unfold annotate
  rw [run_bind_of_ok (run_modify Kernel.reset k)]
  refine (hget.bind fun _ => (hsame fun _ => rfl).bind fun _ => Preserves.bind (fun k₁ hk => ?_)
    fun _ => hget.bind fun _ => (hsame fun _ => rfl).bind fun order => ?_) k.reset
      (Kernel.sameGraph_reset k)
  · exact hk.trans (Kernel.sameGraph_deriveParams k₁)
  · refine (sameGraph_analyzeTiles k order).bind fun _ =>
      (sameGraph_assignCycles k order config.scan).bind fun _ => ?_
    exact (hget.bind fun _ => sameGraph_revise (revises_chooseAccess _ _).respects haccess k _).bind
      fun _ => (hget.bind fun _ => sameGraph_revise (revises_sizeItem _ _).respects
        (fun h => haccess h.of_accessView) k _).bind
      fun _ => (hget.bind fun _ => sameGraph_revise revises_promote.respects haccess k _).bind
      fun _ => hsame fun _ => rfl

theorem sameGraph_resolveGeometry (plan : Plan) : Preserves k.SameGraph (resolveGeometry plan) :=
  Preserves.bind (fun _ hk => hk) fun _ =>
    sameGraph_revise (revises_resolveItem plan).respects (fun h => h.of_patternView.of_tileView) k _

/-- An analysis leaves the graph alone, however it ends. -/
theorem sameGraph_analyze (device : Device) (config : TilingConfig) (diag : Diagnostics) :
    k.SameGraph (analyze k device config diag).kernel := by
  have hann := sameGraph_annotate k config
  have hend := analyze_ending k device config diag
  generalize analyze k device config diag = r at hend ⊢
  cases hend with
  | refused heq | stopped heq | infeasible heq => rwa [heq] at hann
  | @unresolved e k₁ k₂ pipeline diag₁ plan check heq _ hgeometry =>
    rw [heq] at hann
    have hres := sameGraph_resolveGeometry k plan k₁ hann
    rwa [hgeometry] at hres
  | @ready k₁ k₂ pipeline diag₁ plan check heq _ hgeometry =>
    rw [heq] at hann
    have hres := sameGraph_resolveGeometry k plan k₁ hann
    rw [hgeometry] at hres
    exact hres.trans ⟨rfl, rfl, rfl, rfl, rfl⟩

end Graph

/-! ### Histories -/

/-- A second analysis finds what it would have found without the first. -/
theorem analyze_again (k : Kernel) (device device' : Device) (config config' : TilingConfig)
    (diag diag' : Diagnostics) :
    analyze (analyze k device config diag).kernel device' config' diag' =
      analyze k device' config' diag' := by
  rcases hv : k.validate with e | _
  · have hreset : k.reset.reset = k.reset := by
      simp [Kernel.reset, DataItem.reset, Function.comp_def]
    rw [analyze_of_invalid hv, analyze_of_invalid hv,
      analyze_of_invalid ((Kernel.validate_reset k).trans hv), hreset]
  · have hself := analyze_of_sameGraph (Kernel.SameGraph.refl k) hv
    have hplace : (analyze k device config diag).kernel.location = k.location :=
      congrArg (·.kernel.location) (hself device config diag)
    rw [analyze_of_sameGraph (sameGraph_analyze k device config diag) hv, hplace]
    exact (hself device' config' diag').symm

/-- The kernel after some analyses. -/
def reanalyzed (k : Kernel) (runs : List (Device × TilingConfig × Diagnostics)) : Kernel :=
  runs.foldl (fun k run => (analyze k run.1 run.2.1 run.2.2).kernel) k

theorem analyze_reanalyzed (runs : List (Device × TilingConfig × Diagnostics)) (k : Kernel)
    (device : Device) (config : TilingConfig) (diag : Diagnostics) :
    analyze (reanalyzed k runs) device config diag = analyze k device config diag := by
  induction runs generalizing k with
  | nil => rfl
  | cons run rest ih =>
    calc analyze (reanalyzed k (run :: rest)) device config diag
      _ = analyze (analyze k run.1 run.2.1 run.2.2).kernel device config diag := ih _
      _ = analyze k device config diag := analyze_again ..

/-- On kernels with the same graph an analysis ends the same, with the same record, schedule
and annotations, and on a valid graph with the same control parameters; so an analysis after
any number of others gives what it gave on the kernel at the start. -/
theorem analysis_ignores_history {k k' : Kernel} (h : k.SameGraph k') (device : Device)
    (config : TilingConfig) (diag : Diagnostics) :
    (analyze k' device config diag).outcome = (analyze k device config diag).outcome ∧
    (analyze k' device config diag).diagnostics = (analyze k device config diag).diagnostics ∧
    (analyze k' device config diag).kernel.schedule = (analyze k device config diag).kernel.schedule ∧
    (analyze k' device config diag).kernel.data = (analyze k device config diag).kernel.data ∧
    (k.validate = .ok () →
      (analyze k' device config diag).kernel.nodes = (analyze k device config diag).kernel.nodes) ∧
    ∀ runs, analyze (reanalyzed k runs) device config diag = analyze k device config diag := by
  rcases hv : k.validate with e | _
  · rw [analyze_of_invalid (h.validate_eq.trans hv), analyze_of_invalid hv]
    exact ⟨rfl, rfl, rfl, h.data, nofun, fun runs =>
      (analyze_reanalyzed runs ..).trans (analyze_of_invalid hv ..)⟩
  · rw [analyze_of_sameGraph h hv]
    exact ⟨rfl, rfl, rfl, rfl, fun _ => rfl, fun runs => analyze_reanalyzed runs ..⟩

/-- A kernel with leftovers that no analysis of it would write. -/
def stale : Kernel :=
  { relaying [] with
    data := (relaying []).data.map fun d =>
      { d with note := { stage := .geometryResolved, tile := some {}, geometry := some {} } }
    nodes := (relaying []).nodes.map fun n => { n with params := [3, 1] }
    schedule := some (scheduleOf {} ⟨[], [], 9⟩ ⟨1, 0, [], 5, 5⟩ ⟨true, [], none⟩) }

/-- The leftovers change neither the outcome nor what is on the kernel afterwards, and neither
do an analysis of the whole image and one that does not fit. -/
theorem analysis_ignores_history_relaying :
    (relaying []).SameGraph stale ∧ stale.data ≠ (relaying []).data ∧
    (analyze stale { units := 2 } { mode := .workGroupSlicing } (.new 1 0)).outcome =
      (relayed []).outcome ∧
    (analyze stale { units := 2 } { mode := .workGroupSlicing } (.new 1 0)).kernel.data =
      (relayed []).kernel.data ∧
    ((relaying []).validate = .ok () ∧
      (analyze stale { units := 2 } { mode := .workGroupSlicing } (.new 1 0)).kernel.nodes =
        (relayed []).kernel.nodes) ∧
    analyze (reanalyzed (relaying []) [({ units := 2 }, {}, .new 1 0),
        ({ units := 2, unit := { memory := some 16 } }, { mode := .workGroupSlicing }, .new 5 0)])
      { units := 2 } { mode := .workGroupSlicing } (.new 1 0) = relayed [] := by
  have hgraph : (relaying []).SameGraph stale :=
    ⟨rfl, rfl, rfl, by decide +kernel, by decide +kernel⟩
  have hvalid : (relaying []).validate = .ok () := by decide +kernel
  obtain ⟨houtcome, -, -, hdata, hnodes, hruns⟩ :=
    analysis_ignores_history hgraph { units := 2 } { mode := .workGroupSlicing } (.new 1 0)
  unfold relayed
  exact ⟨hgraph, by decide +kernel, houtcome, hdata, ⟨hvalid, hnodes hvalid⟩, hruns _⟩

end Analysis

end StencilTiling
