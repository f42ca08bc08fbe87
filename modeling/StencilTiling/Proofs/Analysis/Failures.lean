import StencilTiling.Proofs.Analysis.Acyclic
import StencilTiling.Proofs.Analysis.Budget
import StencilTiling.Proofs.Analysis.Run

/-! The ways an analysis fails. A graph that breaks an invariant or has a cycle is refused
for that. Any other graph is annotated, has a plan or a reason on record why there is none,
and gets its coordinates; only the bound on errors stops its analysis. -/

namespace StencilTiling.Analysis

/-! ### Refused graphs -/

section Refused

variable {config : TilingConfig} {k : Kernel}

theorem annotate_of_invalid {e : KernelError} (h : k.validate = .error e) :
    annotate config k = (.error (.kernel e), k.reset) := by
  have hcheck : annotate.liftExcept (ofKernel k.reset.validate) k.reset =
      (.error (.kernel e), k.reset) := by
    rw [Kernel.validate_reset, h]
    rfl
  unfold annotate
  rw [run_bind_of_ok (run_modify _ k), run_bind_of_ok (run_get _), run_bind_of_error hcheck]

theorem annotate_of_unordered {e : AnalysisError} (hv : k.validate = .ok ())
    (ho : topologicalOrder k = .error e) :
    annotate config k = (.error e, k.reset.deriveParams) := by
  have horder := topologicalOrder_of_sameGraph
    ((Kernel.sameGraph_reset k).trans (Kernel.sameGraph_deriveParams k.reset))
  have hcheck : annotate.liftExcept (ofKernel k.reset.validate) k.reset = (.ok (), k.reset) := by
    rw [Kernel.validate_reset, hv]
    rfl
  have hlift : annotate.liftExcept (topologicalOrder k.reset.deriveParams) k.reset.deriveParams =
      (.error e, k.reset.deriveParams) := by
    rw [horder, ho]
    rfl
  unfold annotate
  rw [run_bind_of_ok (run_modify _ k), run_bind_of_ok (run_get _), run_bind_of_ok hcheck,
    run_bind_of_ok (run_modify _ _), run_bind_of_ok (run_get _), run_bind_of_error hlift]

end Refused

/-! ### Planning and resolving -/

section Annotated

variable {config : TilingConfig} {k : Kernel} (ha : Annotated config k)

include ha

theorem Annotated.choosePlan_failsOnly (device : Device) :
    FailsOnly PlanFailure.IsRefusal (choosePlan k device config) := by
  refine Analysis.choosePlan_failsOnly (fun d hd => ?_) device config
  obtain ⟨i, hget, hi⟩ := Kernel.mem_iterativeData_iff.mp hd
  exact ha.tiled.valid.rank_eq hget hi

/-- Only the bound on errors stops the search for a plan. -/
theorem Annotated.tallies_feasiblePlan (device : Device) : Tallies (feasiblePlan k device config) := by
  have hpure {α : Type} (a : α) : Tallies (pure a : Reporting AnalysisError α) :=
    fun d => .of_ok rfl le_rfl a
  have hplan : Tallies (planPartitions k device config) := by
    rcases hchoose : choosePlan k device config with e | plan
    · obtain ⟨r, rfl⟩ := ha.choosePlan_failsOnly device e hchoose
      simp only [planPartitions, hchoose]
      exact Tallies.bind (fun d => (tally_error none _ d).1) fun _ => hpure none
    · simp only [planPartitions, hchoose]
      exact hpure (some plan)
  refine hplan.bind fun chosen => ?_
  cases chosen with
  | none => exact hpure none
  | some plan => exact Tallies.bind (tallies_checkBudget k device plan _ _) fun check => hpure _

/-- Every item of an annotated kernel gets coordinates. -/
theorem Annotated.resolveGeometry_complete (plan : Plan) :
    ∃ k', resolveGeometry plan k = (.ok (), k') := by
  refine (revises_resolveItem plan).complete (nodup_ids ha.tiled.wellFormed) fun i hi k₁ _ hkey => ?_
  obtain ⟨d, hd⟩ := exists_item_of_mem_ids ha.tiled.wellFormed hi
  have htable : ∃ table, coordinates k₁ d plan = .ok table := by
    unfold coordinates
    split_ifs with hcontrol
    · exact ⟨_, rfl⟩
    · have hiter : d.iterative = true := by simpa [DataItem.isControl] using hcontrol
      rw [(ha.tiled.tileAt_eq hd hiter).1]
      exact ⟨_, rfl⟩
  obtain ⟨table, htable⟩ := htable
  have hset : d.resolve table = .ok (withGeometry d table) :=
    resolve_eq_ok.mpr ⟨ha.stage d (List.mem_of_getElem? hd), rfl⟩
  exact ⟨_, bind_eq_ok.mpr ⟨d, item_of_getElem? (hkey.trans hd),
    bind_eq_ok.mpr ⟨table, htable, record_of_ok hset i⟩⟩⟩

end Annotated

/-- Three nodes that hand an image on, and what else is declared. -/
def relaying (more : List Kernel.Declaration) : Kernel :=
  .ofDeclarations "relaying" <|
    [.control "w" .float, .input "a" .float [.fixed 8], .data "t" .float [.fixed 8],
      .data "u" .float [.fixed 8], .output "o" .float [.fixed 8],
      .node {} { name := "first", output := 2, inputs := [⟨1, ⟨[⟨-1, 1⟩]⟩, .undef⟩], controls := [0] },
      .node {} { name := "second", output := 3, inputs := [⟨2, ⟨[⟨0, 0⟩]⟩, .undef⟩] },
      .node {} { name := "third", output := 4, inputs := [⟨3, ⟨[⟨-2, 0⟩]⟩, .undef⟩] }] ++ more

def relayed (more : List Kernel.Declaration) : Result :=
  analyze (relaying more) { units := 2 } { mode := .workGroupSlicing } (.new 1 0)

/-- Cycles that are not cut: parameters are there at zero, and an output comes at cycle one, or
when the last of its reads has waited. -/
def UncutCycles (k : Kernel) (dim : Nat) (cycle : DataId → Int) : Prop :=
  (∀ d ∈ k.data, d.role = .input → cycle d.id = 0) ∧
    ∀ n ∈ k.nodes, cycle n.output =
      (k.inputEdges n).foldl (fun m e => max m (cycle e.source + (1 + grainsAhead k dim e))) 1

/-- What `late` writes comes after cycle 2³², which is recorded as cycle 5. -/
def overtaking : Kernel :=
  .ofDeclarations "overtaking"
    [.input "a" .float [.fixed 8], .input "b" .float [.fixed 8], .data "s" .float [.fixed 8],
      .data "t" .float [.fixed 8], .output "o" .float [.fixed 8],
      .node {} { name := "early", output := 2, inputs := [⟨0, ⟨[⟨0, 0x7fffffff⟩]⟩, .undef⟩] },
      .node {} { name := "late", output := 3, inputs := [⟨2, ⟨[⟨0, 0x80000004⟩]⟩, .undef⟩] },
      .node {} { name := "last", output := 4, inputs := [⟨1, ⟨[⟨3999999999, 3999999999⟩]⟩, .undef⟩,
        ⟨3, ⟨[⟨-294967300, 0⟩]⟩, .undef⟩] }]

def overtaken : Result :=
  analyze overtaking { units := 2 } { mode := .workGroupSlicing } (.new 1 0)

end StencilTiling.Analysis
