import StencilTiling.Arith

/-! Declared extents of data: a fixed size, or a size carried by a control
parameter at run time. -/

namespace StencilTiling

/-- Position of a data item in its kernel. -/
abbrev DataId := Nat

/-- Position of a compute node in its kernel. -/
abbrev NodeId := Nat

/-- Position of a read edge in its kernel. -/
abbrev EdgeId := Nat

def dataLabel (d : DataId) : String := s!"d{d}"

def nodeLabel (n : NodeId) : String := s!"n{n}"

def edgeLabel (e : EdgeId) : String := s!"e{e}"

/-- One dimension of a declared size. -/
inductive Extent where
  | fixed (size : Nat)
  | dynamic (param : DataId) (max : Option Nat)
  deriving DecidableEq, Repr

namespace Extent

def isFixed : Extent → Bool
  | fixed _ => true
  | dynamic .. => false

/-- The largest size the dimension may take, when known. -/
def bound : Extent → Option Nat
  | fixed size => some size
  | dynamic _ max => max

/-- The control parameter carrying a run-time size. -/
def param : Extent → Option DataId
  | fixed _ => none
  | dynamic param _ => some param

def text : Extent → String
  | fixed size => toString size
  | dynamic param (some max) => s!"{dataLabel param}<={max}"
  | dynamic param none => dataLabel param

end Extent

/-- Declared extents, innermost first; empty for scalars. -/
abbrev Shape := List Extent

namespace Shape

def isStatic (shape : Shape) : Bool := shape.all Extent.isFixed

/-- Number of elements when every dimension has a bound. -/
def boundedElements (shape : Shape) : Option Nat :=
  (shape.mapM Extent.bound).map fun bounds => Arith.wrapSize (bounds.foldr (· * ·) 1)

def text (shape : Shape) : String := "[" ++ "x".intercalate (shape.map Extent.text) ++ "]"

end Shape

end StencilTiling
