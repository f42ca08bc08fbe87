/-! Integer expressions of the emitted C code: their text and their value.
Parentheses are part of the tree, so the text is a plain concatenation and its
grouping is whatever the tree says. -/

namespace StencilTiling.Code

/-- The two-argument built-in functions of emitted expressions. -/
inductive Builtin where
  | min
  | max
  deriving DecidableEq, Repr

/-- Integer expressions over named operands. -/
inductive Expr where
  | lit (n : Int)
  | name (text : String)
  | paren (e : Expr)
  | add (a b : Expr)
  | sub (a b : Expr)
  | mul (a b : Expr)
  | div (a b : Expr)
  | call (f : Builtin) (a b : Expr)
  deriving DecidableEq, Repr

def Builtin.text : Builtin → String
  | .min => "min"
  | .max => "max"

namespace Expr

/-- The text of an expression, without blanks. -/
def print : Expr → String
  | lit n => toString n
  | name text => text
  | paren e => "(" ++ e.print ++ ")"
  | add a b => a.print ++ "+" ++ b.print
  | sub a b => a.print ++ "-" ++ b.print
  | mul a b => a.print ++ "*" ++ b.print
  | div a b => a.print ++ "/" ++ b.print
  | call f a b => f.text ++ "(" ++ a.print ++ "," ++ b.print ++ ")"

/-- The value of an expression; division drops the fraction. -/
def eval (value : String → Int) : Expr → Int
  | lit n => n
  | name text => value text
  | paren e => e.eval value
  | add a b => a.eval value + b.eval value
  | sub a b => a.eval value - b.eval value
  | mul a b => a.eval value * b.eval value
  | div a b => (a.eval value).tdiv (b.eval value)
  | call .min a b => min (a.eval value) (b.eval value)
  | call .max a b => max (a.eval value) (b.eval value)

end Expr

end StencilTiling.Code
