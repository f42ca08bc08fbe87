import StencilTiling.Kernel.Navigate

/-! Errors of the scheduling passes, and the shape of a pass: it updates the
annotations of a kernel item by item and keeps what it wrote when it stops. -/

namespace StencilTiling

/-- Why an analysis stops. A schedule that does not fit the device is no error. -/
inductive AnalysisError where
  | fault (f : Fault)
  | kernel (e : KernelError)
  | aborted (a : Abort)
  | cycle (kernel : String) (nodes : List String)
  | unscheduledProducer (kernel node data : String)
  | missingTile (kernel data : String)
  deriving DecidableEq, Repr

def AnalysisError.message : AnalysisError → String
  | fault _ => "fault"
  | kernel e => e.message
  | aborted a => a.message
  | cycle name nodes =>
    s!"kernel '{name}': dependency cycle between nodes " ++
      ", ".intercalate (nodes.map fun n => s!"'{n}'")
  | unscheduledProducer name node data =>
    s!"kernel '{name}': node '{node}' reads '{data}' before it is scheduled"
  | missingTile name data => s!"kernel '{name}': '{data}' has no tile analysis"

namespace Analysis

/-- A pass over a kernel. -/
abbrev Pass := ExceptT AnalysisError (StateM Kernel)

def ofFault {α : Type} (x : Except Fault α) : Except AnalysisError α := x.mapError .fault

def ofKernel {α : Type} (x : Except KernelError α) : Except AnalysisError α := x.mapError .kernel

/-- The table `f` with the value at `i` replaced. -/
def assign {α : Type} (f : Nat → α) (i : Nat) (a : α) : Nat → α := fun j => if j = i then a else f j

/-- Updates one item after the other; an error ends the pass and keeps the items
updated so far. -/
def revise {α : Type} (step : Kernel → α → Except AnalysisError (DataId × DataItem)) :
    List α → Pass Unit
  | [] => fun k => (.ok (), k)
  | a :: rest => fun k => match step k a with
    | .error e => (.error e, k)
    | .ok (d, item) => revise step rest (k.setItem d item)

end Analysis

end StencilTiling
