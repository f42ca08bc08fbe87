import StencilTiling.Analysis.AccessChoice
import StencilTiling.Analysis.Budget
import StencilTiling.Analysis.Coordinates
import StencilTiling.Analysis.Cycles
import StencilTiling.Analysis.Order
import StencilTiling.Analysis.Report
import StencilTiling.Analysis.Slots
import StencilTiling.Analysis.Tiles
import StencilTiling.Kernel.ControlParams
import StencilTiling.Kernel.Validate
import StencilTiling.Text.Blank

/-! The whole analysis of a kernel on a device: annotate the data, choose a plan
that fits, resolve the coordinates and record the schedule. -/

namespace StencilTiling.Analysis

/-- How an analysis ends when nothing stops it. -/
inductive Outcome where
  | ready (report : Report)
  /-- The schedule does not fit; the reasons are on record. -/
  | infeasible
  deriving DecidableEq, Repr

/-- Drops the previous analysis, checks the graph, and writes tiles, cycles,
access types and slots on the data. -/
def annotate (config : TilingConfig) : Pass Pipeline := do
  modify Kernel.reset
  let valid := (← get).validate
  liftExcept (ofKernel valid)
  modify Kernel.deriveParams
  let order ← liftExcept (topologicalOrder (← get))
  analyzeTiles order
  let pipeline ← assignCycles order config.scan
  assignAccess config.mode config.scan
  sizeSlots config.mode config.scan
  promoteRings
  return pipeline
where
  liftExcept {α : Type} (x : Except AnalysisError α) : Pass α := fun k => (x, k)

/-- A plan that passes every check of the device, if there is one. -/
def feasiblePlan (k : Kernel) (device : Device) (config : TilingConfig) :
    Reporting AnalysisError (Option (Plan × BudgetCheck)) := do
  match ← planPartitions k device config with
  | none => return none
  | some plan =>
    let check ← checkBudget k device plan config.mode config.scan
    return if check.feasible then some (plan, check) else none

/-- The schedule of a planned kernel. -/
def scheduleOf (config : TilingConfig) (pipeline : Pipeline) (plan : Plan) (check : BudgetCheck) : Schedule where
  mode := config.mode
  scan := config.scan
  scanDim := plan.scanDim
  partitions := plan.partitions
  workGroups := plan.workGroups
  workItems := plan.workItems
  nodeOrder := pipeline.order
  depth := pipeline.depth
  buffers := check.buffers
  budget := check.budget

/-- The reports of a resolved kernel. -/
def reportOf (k : Kernel) (check : BudgetCheck) : Report :=
  ⟨.ofKernel k, ⟨k.name, check.buffers, check.budget⟩⟩

def trimmed (text : String) : String := String.ofList (Text.trimEnd text.toList)

/-- Notes both reports at their verbosity levels. -/
def noteReport (r : Report) (diag : Diagnostics) : Diagnostics :=
  (diag.message 1 (trimmed r.tiling.text)).message 2 (trimmed r.memory.text)

/-- The kernel after the analysis, the diagnostics, and how it ended. -/
structure Result where
  kernel : Kernel
  diagnostics : Diagnostics
  outcome : Except AnalysisError Outcome

/-- Schedules a kernel on a device. Any previous analysis is dropped first. -/
def analyze (k : Kernel) (device : Device) (config : TilingConfig) (diag : Diagnostics) : Result :=
  match annotate config k with
  | (.error e, k) => ⟨k, diag, .error e⟩
  | (.ok pipeline, k) => match feasiblePlan k device config diag with
    | (.error e, diag) => ⟨k, diag, .error e⟩
    | (.ok none, diag) => ⟨k, diag, .ok .infeasible⟩
    | (.ok (some (plan, check)), diag) => match resolveGeometry plan k with
      | (.error e, k) => ⟨k, diag, .error e⟩
      | (.ok (), k) =>
        let report := reportOf k check
        ⟨{ k with schedule := some (scheduleOf config pipeline plan check) }, noteReport report diag,
          .ok (.ready report)⟩

end StencilTiling.Analysis
