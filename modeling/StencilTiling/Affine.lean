import StencilTiling.Code.Expr
import StencilTiling.Ratio

/-! Affine maps `a * (x + b)` with an exact ratio `a`. Tile, block and pixel
coordinates are affine in a part index; the printed form computes the same
value with integer operations whenever `(x + b) * num` is not negative. Only the
result is cut to a word; `x + b` is taken to be one. -/

namespace StencilTiling

/-- The map `x ↦ factor * (x + offset)`. -/
structure Affine where
  offset : Int
  factor : Ratio
  deriving DecidableEq, Repr

namespace Affine

def identity : Affine := ⟨0, .one⟩

/-- `k * x`. -/
def scale (k : Int) : Affine := ⟨0, .ofInt k⟩

/-- `x + b`. -/
def shift (b : Int) : Affine := ⟨b, .one⟩

/-- `num / den * (x + offset)`, rounded as given. -/
def ofFraction (offset num den : Int) (rounding : Rounding) : Except RatioError Affine := do
  return ⟨offset, ← Ratio.ofFraction num den rounding⟩

def isNeutral (a : Affine) : Bool := a.offset == 0 && a.factor.isOne

def apply (a : Affine) (x : Int) : Int := a.factor.apply (x + a.offset)

/-- Equal offsets and factors of equal value. -/
def sameValue (a b : Affine) : Bool := a.offset == b.offset && a.factor.sameValue b.factor

/-! ### Printed form -/

/-- The operand moved by an offset, always in parentheses. -/
def shiftCode (offset : Int) (x : Code.Expr) : Code.Expr :=
  if offset = 0 then .paren x
  else if offset < 0 then .paren (.sub (.paren x) (.lit (-offset)))
  else .paren (.add (.paren x) (.lit offset))

def scaleCode (num : Int) (x : Code.Expr) : Code.Expr :=
  if num = 1 then x else .paren (.mul x (.lit num))

/-- Division by the denominator; rounding up adds one less than the denominator first. -/
def divideCode (factor : Ratio) (x : Code.Expr) : Code.Expr :=
  if factor.den = 1 then x
  else match factor.rounding with
    | .down => .paren (.div x (.lit factor.den))
    | .up => .paren (.div (.paren (.add x (.lit (factor.den - 1)))) (.lit factor.den))

/-- Integer code computing the map at `x`. -/
def toCode (a : Affine) (x : Code.Expr) : Code.Expr :=
  if a.isNeutral then x
  else divideCode a.factor (scaleCode a.factor.num (shiftCode a.offset x))

/-- The factor times `(x + offset)`, the offset always with its sign. -/
def text (a : Affine) : String :=
  let sign := if a.offset < 0 then "" else "+"
  s!"{a.factor.text}*(x{sign}{a.offset})"

end Affine

end StencilTiling
