import StencilTiling.Arith

/-! Integers written in decimal: an optional sign, then digits, within a word. -/

namespace StencilTiling.Text

/-- The value of a digit sequence, most significant first. -/
def digitsValue (cs : List Char) : Nat :=
  cs.foldl (fun n c => 10 * n + (c.toNat - '0'.toNat)) 0

/-- A nonempty sequence of decimal digits. -/
def readDigits? (cs : List Char) : Option Nat :=
  if !cs.isEmpty && cs.all Char.isDigit then some (digitsValue cs) else none

/-- A natural number below `2 ^ 64`, with an optional plus sign. -/
def readNat? (cs : List Char) : Option Nat :=
  let digits := match cs with
    | '+' :: rest => rest
    | cs => cs
  (readDigits? digits).filter (· < 0x10000000000000000)

/-- A signed 64-bit integer, with an optional sign. -/
def readInt? (cs : List Char) : Option Int :=
  let value : Option Int := match cs with
    | '-' :: rest => (readDigits? rest).map fun n => -(n : Int)
    | '+' :: rest => (readDigits? rest).map fun n => (n : Int)
    | cs => (readDigits? cs).map fun n => (n : Int)
  value.filter fun n => decide (Arith.FitsWord n)

end StencilTiling.Text
