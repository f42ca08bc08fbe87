import StencilTiling.Arith

/-! Exact ratios with a rounding direction. A ratio built here is reduced, has
a positive denominator, and both parts fit a 64-bit word; applying it to an
integer multiplies exactly and rounds once. -/

namespace StencilTiling

/-- Where a fraction goes when an integer is wanted. -/
inductive Rounding where
  | down
  | up
  deriving DecidableEq, Repr

/-- A fraction and the direction in which its multiples are rounded. -/
structure Ratio where
  num : Int
  den : Int
  rounding : Rounding
  deriving DecidableEq, Repr

/-- Why a fraction has no ratio. -/
inductive RatioError where
  | zeroDenominator (num : Int)
  | outOfRange (num den : Int)
  deriving DecidableEq, Repr

def RatioError.message : RatioError → String
  | zeroDenominator num => s!"rational number {num}/0 has a zero denominator"
  | outOfRange num den => s!"rational number {num}/{den} does not fit in 64 bits"

namespace Ratio

open Arith

/-- Lowest terms of a fraction with a nonzero denominator, kept if both parts fit a word. -/
def reduce (num den : Int) (rounding : Rounding) : Except RatioError Ratio :=
  let n := if den < 0 then -num else num
  let d := if den < 0 then -den else den
  let g : Int := (max (gcdWide n.natAbs d.natAbs) 1 : Nat)
  if FitsWord (n / g) ∧ FitsWord (d / g) then .ok ⟨n / g, d / g, rounding⟩
  else .error (.outOfRange (n / g) (d / g))

/-- The ratio `num / den`. -/
def ofFraction (num den : Int) (rounding : Rounding) : Except RatioError Ratio :=
  if den = 0 then .error (.zeroDenominator num) else reduce num den rounding

/-- A whole number. -/
def ofInt (n : Int) : Ratio := ⟨n, 1, .down⟩

def one : Ratio := ofInt 1

/-- Product, rounded like the left factor. -/
def mul (a b : Ratio) : Except RatioError Ratio :=
  reduce (a.num * b.num) (a.den * b.den) a.rounding

/-- Quotient, rounded like the dividend. -/
def div (a b : Ratio) : Except RatioError Ratio :=
  if b.num = 0 then .error (.zeroDenominator a.num)
  else reduce (a.num * b.den) (a.den * b.num) a.rounding

/-- The multiple of `x`, rounded once and kept in a word. -/
def apply (r : Ratio) (x : Int) : Int :=
  match r.rounding with
  | .down => wrap64 (floorDiv (x * r.num) r.den)
  | .up => wrap64 (ceilDiv (x * r.num) r.den)

/-- Equality of the fractions by cross multiplication; the rounding does not count. -/
def sameValue (a b : Ratio) : Bool := a.num * b.den == b.num * a.den

def isOne (r : Ratio) : Bool := r.num == r.den

def isZero (r : Ratio) : Bool := r.num == 0

def isInteger (r : Ratio) : Bool := r.den == 1

def isPositive (r : Ratio) : Bool := 0 < r.num

def isNegative (r : Ratio) : Bool := r.num < 0

/-- A whole number stands alone; a proper fraction shows its rounding. -/
def text (r : Ratio) : String :=
  if r.den = 1 then toString r.num
  else match r.rounding with
    | .down => s!"floor({r.num}/{r.den})"
    | .up => s!"ceil({r.num}/{r.den})"

end Ratio

end StencilTiling
