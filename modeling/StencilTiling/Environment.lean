/-! The variables a run sees. -/

namespace StencilTiling

/-- Named texts; the first entry of a name counts. -/
structure Environment where
  vars : List (String × String) := []
  deriving DecidableEq, Repr

/-- The text of a variable. -/
def Environment.get? (env : Environment) (name : String) : Option String := env.vars.lookup name

end StencilTiling
