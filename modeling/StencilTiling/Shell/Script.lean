import StencilTiling.Text.Blank
import StencilTiling.Text.Integer

/-! Command scripts as trees, and the words in them before expansion. Scripts
inside words are kept as text, since they are only read when they are run. -/

namespace StencilTiling.Shell

/-- What an expansion makes of a parameter. Those with a flag treat an empty
value like a missing one if it is set. -/
inductive ParamOp where
  | plain
  | length
  | fallback (ifEmpty : Bool)
  | assign (ifEmpty : Bool)
  | alternate (ifEmpty : Bool)
  | require (ifEmpty : Bool)
  | dropStart (longest : Bool)
  | dropEnd (longest : Bool)
  deriving DecidableEq, Repr

/-- A stretch of a word; quoted stretches are neither split nor matched. -/
inductive Part where
  | text (s : String) (quoted : Bool)
  | param (name : String) (op : ParamOp) (operand : String) (quoted : Bool)
  | command (line : Nat) (script : String) (quoted : Bool)
  | arith (expr : String) (quoted : Bool)
  /-- Braces after a dollar sign that hold no parameter. -/
  | unknown
  deriving DecidableEq, Repr

abbrev Word := List Part

/-- What a redirection does with its descriptor. -/
inductive RedirectKind where
  | read
  | write
  | append
  | copy
  /-- Input from the script itself. -/
  | here
  deriving DecidableEq, Repr

structure Redirect where
  fd : Nat
  kind : RedirectKind
  target : Word
  deriving DecidableEq, Repr

inductive Script where
  | skip
  | simple (line : Nat) (vars : List (String × Word)) (words : List Word) (redirects : List Redirect)
  | redirected (line : Nat) (body : Script) (redirects : List Redirect)
  | subshell (body : Script)
  | background (body : Script)
  | seq (a b : Script)
  | both (a b : Script)
  | either (a b : Script)
  | negate (a : Script)
  | pipe (a b : Script)
  | branch (cond yes no : Script)
  /-- Repeats while the condition's success is `on`. -/
  | repeated (on : Bool) (cond body : Script)
  | each (name : String) (words : List Word) (body : Script)
  /-- The body if the subject matches a pattern, else the remaining choices. -/
  | choice (subject : Word) (patterns : List Word) (body rest : Script)
  | define (name : String) (body : Script)
  deriving Repr, Inhabited

/-! ### Names -/

def isNameStart (c : Char) : Bool := c.isAlpha || c == '_'

def isNameChar (c : Char) : Bool := c.isAlphanum || c == '_'

def isName (cs : List Char) : Bool := (cs.head?.any isNameStart) && cs.all isNameChar

/-! ### Plain words -/

/-- The text of a stretch without quotes and expansions. -/
def Part.plain? : Part → Option String
  | .text s false => some s
  | _ => none

/-- The text of a word without quotes and expansions. -/
def plain? (w : Word) : Option String := (w.mapM Part.plain?).map String.join

/-- A name and a value, if a word assigns one. -/
def assignment? (w : Word) : Option (String × Word) :=
  let name := w.takeWhile fun part => match part with
    | .text s false => s.toList.all isNameChar
    | _ => false
  match w.drop name.length with
  | .text "=" false :: value => do
    let name ← plain? name
    if isName name.toList then some (name, value) else none
  | _ => none

end StencilTiling.Shell
