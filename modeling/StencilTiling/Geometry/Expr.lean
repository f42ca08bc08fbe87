import StencilTiling.Affine
import StencilTiling.Extent

/-! Coordinate expressions: integer trees over the part index and run-time
extents. The building operations fold constants and drop neutral steps, and the
clamps keep sizes at the image borders from going negative. Sums and differences
have no bound here; machine words give the same as long as no value on the way
leaves them. -/

namespace StencilTiling.Geometry

/-- What an expression can refer to. -/
inductive Leaf where
  | partIndex
  | extent (data : DataId)
  deriving DecidableEq, Repr

/-- Integer expressions over leaves. -/
inductive Expr where
  | const (n : Int)
  | leaf (l : Leaf)
  | affine (inner : Expr) (map : Affine)
  | add (a b : Expr)
  | sub (a b : Expr)
  | min (a b : Expr)
  | max (a b : Expr)
  deriving DecidableEq, Repr

namespace Expr

def partIndex : Expr := leaf .partIndex

def extent (data : DataId) : Expr := leaf (.extent data)

def asConst : Expr → Option Int
  | const n => some n
  | _ => none

/-- Equal trees up to the value of affine factors. -/
def same : Expr → Expr → Bool
  | const m, const n => m == n
  | leaf l, leaf r => l == r
  | affine e f, affine e' f' => e.same e' && f.sameValue f'
  | add a b, add a' b' => a.same a' && b.same b'
  | sub a b, sub a' b' => a.same a' && b.same b'
  | min a b, min a' b' => a.same a' && b.same b'
  | max a b, max a' b' => a.same a' && b.same b'
  | _, _ => false

/-! ### Building -/

/-- An affine step, dropped when neutral and folded on a constant. -/
def mapBy (e : Expr) (map : Affine) : Expr :=
  if map.isNeutral then e
  else match e with
    | const n => const (map.apply n)
    | e => affine e map

/-- A multiple. -/
def scaled (e : Expr) (k : Int) : Expr := e.mapBy (.scale k)

/-- A sum, folded on constants; a zero on either side is dropped. -/
def plus : Expr → Expr → Expr
  | const m, const n => const (m + n)
  | a, const 0 => a
  | const 0, b => b
  | a, b => add a b

/-- A difference, folded on constants; a zero on the right is dropped. -/
def minus : Expr → Expr → Expr
  | const m, const n => const (m - n)
  | a, const 0 => a
  | a, b => sub a b

/-- The lesser, folded on constants and on equal operands. -/
def atMost : Expr → Expr → Expr
  | const m, const n => const (Min.min m n)
  | a, b => if a.same b then a else min a b

/-- The greater, folded on constants and on equal operands. -/
def atLeast : Expr → Expr → Expr
  | const m, const n => const (Max.max m n)
  | a, b => if a.same b then a else max a b

/-- Zero below zero. -/
def clampNonneg (e : Expr) : Expr := e.atLeast (const 0)

/-! ### Meaning -/

/-- The value for one part, given the run-time extents. -/
def eval (e : Expr) (part : Int) (extent : DataId → Int) : Int :=
  match e with
  | const n => n
  | leaf .partIndex => part
  | leaf (.extent data) => extent data
  | affine inner map => map.apply (inner.eval part extent)
  | add a b => a.eval part extent + b.eval part extent
  | sub a b => a.eval part extent - b.eval part extent
  | min a b => Min.min (a.eval part extent) (b.eval part extent)
  | max a b => Max.max (a.eval part extent) (b.eval part extent)

/-- Some extent is only known at run time. -/
def hasExtent : Expr → Bool
  | const _ => false
  | leaf .partIndex => false
  | leaf (.extent _) => true
  | affine inner _ => inner.hasExtent
  | add a b | sub a b | min a b | max a b => a.hasExtent || b.hasExtent

/-- The data items whose extents occur, with repeats. -/
def extents : Expr → List DataId
  | const _ => []
  | leaf .partIndex => []
  | leaf (.extent data) => [data]
  | affine inner _ => inner.extents
  | add a b | sub a b | min a b | max a b => a.extents ++ b.extents

/-- The value for one part when no extent is needed. -/
def evalStatic (e : Expr) (part : Int) : Option Int :=
  if e.hasExtent then none else some (e.eval part fun _ => 0)

/-! ### Printed form -/

/-- Integer code of the expression; `name` spells the leaves. -/
def toCode (name : Leaf → String) : Expr → Code.Expr
  | const n => if n < 0 then .paren (.lit n) else .lit n
  | leaf l => .name (name l)
  | affine inner map => map.toCode (inner.toCode name)
  | add a b => .paren (.add (a.toCode name) (b.toCode name))
  | sub a b => .paren (.sub (a.toCode name) (b.toCode name))
  | min a b => .call .min (a.toCode name) (b.toCode name)
  | max a b => .call .max (a.toCode name) (b.toCode name)

def render (e : Expr) (name : Leaf → String) : String := (e.toCode name).print

end Expr

end StencilTiling.Geometry
