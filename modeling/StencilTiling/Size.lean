import StencilTiling.Arith

/-! Element counts per dimension: strides, tile grains, execution rates.
Dimensions past the end count one element, so sizes of different rank combine. -/

namespace StencilTiling

/-- Elements along each dimension, innermost first. -/
structure Size where
  dims : List Int
  deriving DecidableEq, Repr, Inhabited

namespace Size

open Arith

/-- One element in each of `rank` dimensions. -/
def ones (rank : Nat) : Size := ⟨List.replicate rank 1⟩

def empty : Size := ⟨[]⟩

def rank (s : Size) : Nat := s.dims.length

/-- Elements along `dim`; one past the end. -/
def get (s : Size) (dim : Nat) : Int := s.dims.getD dim 1

/-- Elements along `dim` replaced, after padding with ones up to it. -/
def set (s : Size) (dim : Nat) (value : Int) : Size :=
  ⟨(s.dims ++ List.replicate (dim + 1 - s.rank) 1).set dim value⟩

def product (s : Size) : Int := s.dims.foldr mulWord 1

def isOnes (s : Size) : Bool := s.dims.all (· == 1)

/-- Dimension by dimension, up to the larger rank. -/
def zipWith (f : Int → Int → Int) (a b : Size) : Size :=
  ⟨(List.range (max a.rank b.rank)).map fun d => f (a.get d) (b.get d)⟩

def lcm (a b : Size) : Size := zipWith lcmWord a b

def mul (a b : Size) : Size := zipWith mulWord a b

def divCeil (a b : Size) : Size := zipWith ceilDivWord a b

/-- Every dimension of `a` can be divided by that of `b`. -/
def Divisible (a b : Size) : Prop :=
  ∀ d < max a.rank b.rank, b.get d ≠ 0 ∧ ¬ (a.get d = minWord ∧ b.get d = -1)

instance (a b : Size) : Decidable (Divisible a b) :=
  inferInstanceAs (Decidable (∀ d < _, _))

/-- `divCeil`, refused when some dimension cannot be divided. -/
def divCeil? (a b : Size) : Except Fault Size :=
  if Divisible a b then .ok (a.divCeil b) else .error .divisionByZero

def text (s : Size) : String := "[" ++ ",".intercalate (s.dims.map toString) ++ "]"

end Size

end StencilTiling
