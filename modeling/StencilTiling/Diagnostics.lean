import StencilTiling.Environment
import StencilTiling.Text.Integer

/-! The diagnostics of one compilation unit. Analyses never print: they record
messages, warnings and errors here. Errors are counted against a bound, and
reaching it stops the unit. -/

namespace StencilTiling

/-- A line of a named file. -/
structure Location where
  file : String
  line : Nat
  deriving DecidableEq, Repr

def Location.text (l : Location) : String := s!"{l.file}:{l.line}"

inductive Severity where
  | message
  | warning
  | error
  | fatal
  deriving DecidableEq, Repr

def Severity.text : Severity → String
  | message => "message"
  | warning => "warning"
  | error => "error"
  | fatal => "fatal"

/-- One entry of the record. -/
structure Diagnostic where
  severity : Severity
  location : Option Location
  text : String
  deriving DecidableEq, Repr

/-- The entry as a user reads it: place, severity unless it is a plain message, text. -/
def Diagnostic.display (d : Diagnostic) : String :=
  let place := match d.location with
    | some l => l.text ++ ": "
    | none => ""
  match d.severity with
  | .message => place ++ d.text
  | severity => place ++ severity.text ++ ": " ++ d.text

/-- Why a unit stops. -/
inductive Abort where
  | tooManyErrors (count : Nat)
  | pendingErrors (count : Nat)
  | fatal (text : String)
  | internal (text : String)
  deriving DecidableEq, Repr

namespace Abort

def message : Abort → String
  | tooManyErrors count => s!"too many errors ({count}), stopping the compilation process"
  | pendingErrors count => s!"{count} error(s), stopping the compilation process"
  | fatal text => s!"fatal error: {text}"
  | internal text => s!"internal error: {text}"

def exitStatus (_ : Abort) : Int := 1

end Abort

/-- Recorded entries with the running counts. -/
structure Diagnostics where
  maxErrors : Nat
  verbosity : Nat
  entries : List Diagnostic
  errorCount : Nat
  warningCount : Nat
  deriving DecidableEq, Repr

/-- Computations that record diagnostics and may stop with an error. -/
abbrev Reporting (ε : Type) := ExceptT ε (StateM Diagnostics)

namespace Diagnostics

/-- Errors tolerated unless a unit says otherwise. -/
def defaultMaxErrors : Nat := 5

/-- An empty record; a bound of zero counts as one. -/
def new (maxErrors : Nat) (verbosity : Nat) : Diagnostics :=
  ⟨max maxErrors 1, verbosity, [], 0, 0⟩

/-- The error bound a run asks for through its environment. -/
def maxErrorsOf (env : Environment) : Nat :=
  match (env.get? "KGEN_MAX_ERRORS").bind fun s => Text.readNat? s.toList with
  | some n => if 0 < n then n else defaultMaxErrors
  | none => defaultMaxErrors

def hasErrors (d : Diagnostics) : Bool := 0 < d.errorCount

def push (d : Diagnostics) (entry : Diagnostic) : Diagnostics :=
  { d with entries := d.entries ++ [entry] }

/-- A message, kept when its level is within the verbosity. -/
def message (d : Diagnostics) (level : Nat) (text : String) : Diagnostics :=
  if level ≤ d.verbosity then d.push ⟨.message, none, text⟩ else d

def warning (d : Diagnostics) (location : Option Location) (text : String) : Diagnostics :=
  { d with warningCount := d.warningCount + 1 }.push ⟨.warning, location, text⟩

/-- The record after one more error. -/
def withError (d : Diagnostics) (location : Option Location) (text : String) : Diagnostics :=
  { d with errorCount := d.errorCount + 1 }.push ⟨.error, location, text⟩

/-- A recoverable error; the unit stops once the bound is reached. -/
def error (location : Option Location) (text : String) : Reporting Abort Unit := fun d =>
  let d' := d.withError location text
  if d'.maxErrors ≤ d'.errorCount then (.error (.tooManyErrors d'.errorCount), d') else (.ok (), d')

/-- The record after an unrecoverable error, and the abort to hand on. -/
def fatal (d : Diagnostics) (location : Option Location) (text : String) : Abort × Diagnostics :=
  (.fatal text, { d with errorCount := d.errorCount + 1 }.push ⟨.fatal, location, text⟩)

/-- The record after a broken invariant, and the abort to hand on. -/
def internal (d : Diagnostics) (text : String) : Abort × Diagnostics :=
  (.internal text,
    { d with errorCount := d.errorCount + 1 }.push ⟨.fatal, none, s!"internal error: {text}"⟩)

/-- Stops if any error is on record. -/
def exitIfError (d : Diagnostics) : Except Abort Unit :=
  if d.hasErrors then .error (.pendingErrors d.errorCount) else .ok ()

/-- The entries handed over; the counts stay. -/
def take (d : Diagnostics) : List Diagnostic × Diagnostics := (d.entries, { d with entries := [] })

end Diagnostics

end StencilTiling
