/-! Requests that no value answers: a zero divisor, a quotient outside the
64-bit range, or an index past the end of an arena. -/

namespace StencilTiling

/-- Why a computation has no result. -/
inductive Fault where
  | divisionByZero
  | overflow
  | outOfRange
  deriving DecidableEq, Repr

end StencilTiling
