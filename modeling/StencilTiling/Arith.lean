import StencilTiling.Fault

/-! Integer arithmetic shared by ratios, sizes and the tiling passes: Euclid's
algorithm, least common multiples, division rounded down or up, and the
operators on machine words. What leaves a word comes back modulo its size; only
a quotient without a value is refused. -/

namespace StencilTiling.Arith

/-! ### Divisors and multiples -/

/-- Greatest common divisor by Euclid's algorithm; the larger operand goes first. -/
def gcd (a b : Nat) : Nat :=
  if a < b then gcd b a
  else if b = 0 then a
  else gcd b (a % b)
termination_by b
decreasing_by
  · assumption
  · exact Nat.mod_lt _ (by omega)

/-- Greatest common divisor without ordering the operands first. -/
def gcdWide (a b : Nat) : Nat :=
  if b = 0 then a else gcdWide b (a % b)
termination_by b
decreasing_by exact Nat.mod_lt _ (by omega)

/-- Least common multiple, dividing before multiplying; zero when either operand is zero. -/
def lcm (a b : Nat) : Nat :=
  if a = 0 ∨ b = 0 then 0 else a / gcd a b * b

/-! ### Words -/

/-- The least 64-bit integer. -/
def minWord : Int := -0x8000000000000000

/-- The greatest 64-bit integer. -/
def maxWord : Int := 0x7fffffffffffffff

/-- Membership in the signed 64-bit range. -/
def FitsWord (n : Int) : Prop := minWord ≤ n ∧ n ≤ maxWord

instance (n : Int) : Decidable (FitsWord n) := inferInstanceAs (Decidable (_ ∧ _))

/-- The signed 64-bit integer congruent to `n`. -/
def wrap64 (n : Int) : Int := n.bmod 0x10000000000000000

/-- The unsigned 32-bit integer congruent to `n`. -/
def wrap32 (n : Int) : Nat := (n % 0x100000000).toNat

/-- The unsigned 64-bit integer congruent to `n`. Reduction respects sums and products, so a
chain of them is reduced once. -/
def wrapSize (n : Nat) : Nat := n % 0x10000000000000000

def addWord (a b : Int) : Int := wrap64 (a + b)

def subWord (a b : Int) : Int := wrap64 (a - b)

def mulWord (a b : Int) : Int := wrap64 (a * b)

def negWord (n : Int) : Int := wrap64 (-n)

/-- The magnitude; the least word has none and stays as it is. -/
def absWord (n : Int) : Int := wrap64 n.natAbs

/-- Sum of 32-bit counts. -/
def addCount (a b : Nat) : Nat := wrap32 (a + b)

/-- Least common multiple of the magnitudes, kept in a signed word. -/
def lcmWord (a b : Int) : Int := wrap64 (lcm a.natAbs b.natAbs)

/-! ### Rounded division -/

/-- Zero below zero, the identity above. -/
def clampNonneg (n : Int) : Int := if n < 0 then 0 else n

/-- Quotient with a non-negative remainder: the floor for positive divisors. -/
def floorDiv (n d : Int) : Int := n / d

/-- The ceiling for positive divisors. -/
def ceilDiv (n d : Int) : Int := -((-n) / d)

/-- `ceilDiv` with both signs changed in words. -/
def ceilDivWord (n d : Int) : Int := negWord (floorDiv (negWord n) d)

/-- A word divides unless the divisor is zero or the quotient leaves the word. -/
def checkDivisor (n d : Int) : Except Fault Unit :=
  if d = 0 then .error .divisionByZero
  else if n = minWord ∧ d = -1 then .error .overflow
  else .ok ()

/-- `floorDiv` on words, refusing what `checkDivisor` refuses. -/
def floorDiv? (n d : Int) : Except Fault Int := do
  checkDivisor n d
  return floorDiv n d

/-- `ceilDivWord`, refusing what `checkDivisor` refuses. -/
def ceilDiv? (n d : Int) : Except Fault Int := do
  checkDivisor n d
  return ceilDivWord n d

end StencilTiling.Arith
