/-! Numbers handed out once per compilation unit: node numbers and the numbers
that make compute-function symbols unique. A unit is taken to hand out fewer than
2³² of either, which is what a counter of 32 bits can tell apart. -/

namespace StencilTiling

/-- The next free numbers of a unit. -/
structure Numbering where
  nextNode : Nat := 0
  nextSymbol : Nat := 0
  deriving DecidableEq, Repr

namespace Numbering

/-- A fresh node number. -/
def node (n : Numbering) : Nat × Numbering := (n.nextNode, { n with nextNode := n.nextNode + 1 })

/-- A fresh symbol for the compute function `base`. -/
def symbol (n : Numbering) (base : String) : String × Numbering :=
  (s!"compute_{n.nextSymbol}_{base}", { n with nextSymbol := n.nextSymbol + 1 })

end Numbering

/-- The name of a unit that was given none. -/
def unnamedUnit : String := "<unit>"

end StencilTiling
