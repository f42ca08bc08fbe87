import StencilTiling.Access
import StencilTiling.Ratio
import StencilTiling.Window

/-! What can be wrong with a kernel graph or with the annotation of its data. -/

namespace StencilTiling

/-- The arena an identifier points into. -/
inductive Arena where
  | data
  | node
  deriving DecidableEq, Repr

def Arena.text : Arena → String
  | data => "data"
  | node => "node"

/-- The two strides of a node. -/
inductive StrideSide where
  | input
  | output
  deriving DecidableEq, Repr

def StrideSide.text : StrideSide → String
  | input => "input"
  | output => "output"

/-- What is wrong with a read window. -/
inductive ReadFlaw where
  | rank (window : Window) (dataRank : Nat)
  | empty (window : Window)
  | narrow (window : Window) (stride : Int) (dim : Nat)
  deriving DecidableEq, Repr

def ReadFlaw.message : ReadFlaw → String
  | rank w dataRank => s!"window {w.text} has {w.rank} dimension(s), data has {dataRank}"
  | empty w => s!"window {w.text} is empty"
  | narrow w stride dim =>
    s!"window {w.text} is narrower than the input stride {stride} along dimension {dim}"

/-- Errors of graph construction, validation and annotation. -/
inductive KernelError where
  | ratio (e : RatioError)
  | zeroSlots
  | strideRank (node : String) (side : StrideSide) (expected actual : Nat)
  | mixedRanks (kernel data : String) (expected actual : Nat)
  | duplicateName (kernel name : String)
  | unknownId (kernel : String) (arena : Arena) (index : Nat)
  | multipleProducers (kernel data : String)
  | invalidRead (kernel node data : String) (flaw : ReadFlaw)
  | invalidWrite (kernel node : String) (window : Window) (stride : Size)
  | invalidStride (kernel node : String) (side : StrideSide) (stride : Size)
  | iterativeControl (kernel node data : String)
  | scalarInput (kernel node data : String)
  | scalarOutput (kernel node data : String)
  | orphan (kernel data : String)
  | invalidTransition (data : String) (source target : Stage)
  deriving DecidableEq, Repr

def KernelError.message : KernelError → String
  | ratio e => e.message
  | zeroSlots => "number of buffer slots must be at least 1"
  | strideRank node side expected actual =>
    s!"{side.text} stride of '{node}': expected {expected} dimension(s), got {actual}"
  | mixedRanks kernel data expected actual =>
    s!"kernel '{kernel}': '{data}' has {actual} dimension(s), the kernel iterates over {expected}"
  | duplicateName kernel name => s!"kernel '{kernel}': data '{name}' is already defined"
  | unknownId kernel arena index => s!"kernel '{kernel}': unknown {arena.text} #{index}"
  | multipleProducers kernel data => s!"kernel '{kernel}': data '{data}' already has a producer"
  | invalidRead kernel node data flaw =>
    s!"kernel '{kernel}', node '{node}': invalid read of '{data}': {flaw.message}"
  | invalidWrite kernel node window stride =>
    s!"kernel '{kernel}', node '{node}': write pattern {window.text} does not cover output stride {stride.text}"
  | invalidStride kernel node side stride =>
    s!"kernel '{kernel}', node '{node}': {side.text} stride {stride.text} must be strictly positive"
  | iterativeControl kernel node data =>
    s!"kernel '{kernel}', node '{node}': control input '{data}' is iterative"
  | scalarInput kernel node data =>
    s!"kernel '{kernel}', node '{node}': data input '{data}' is not iterative"
  | scalarOutput kernel node data =>
    s!"kernel '{kernel}': output '{data}' of '{node}' is not iterative"
  | orphan kernel data =>
    s!"kernel '{kernel}': data '{data}' is neither an input nor produced by a node"
  | invalidTransition data source target =>
    s!"data '{data}': illegal transition {source.text} -> {target.text}"

/-- Passes when the condition holds, else fails with `e`. -/
def ensure {ε : Type} (p : Prop) [Decidable p] (e : ε) : Except ε Unit :=
  if p then .ok () else .error e

end StencilTiling
