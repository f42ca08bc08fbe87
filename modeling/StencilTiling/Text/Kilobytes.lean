import StencilTiling.Text.Double

/-! Byte counts shown in kilobytes with two places. The count is first taken to
53 significant bits, then the quotient by 1024 is rounded; a half goes to the
even neighbour both times. -/

namespace StencilTiling.Text

/-- Hundredths written with a point and two places. -/
def hundredths (n : Nat) : String :=
  let frac := n % 100
  let pad := if frac < 10 then "0" else ""
  s!"{n / 100}.{pad}{frac}"

/-- A byte count in kilobytes. -/
def kilobytes (bytes : Nat) : String :=
  hundredths (roundHalfEven (significant bytes * 100) 1024)

end StencilTiling.Text
