import StencilTiling.Shell.Job

/-! Conditions on texts, numbers and files. -/

namespace StencilTiling.Shell

/-- Signs with one operand behind them. -/
def unarySigns : List String :=
  ["-n", "-z", "-s", "-f", "-d", "-e", "-r", "-w", "-x", "-h", "-L", "-p", "-b", "-c", "-S", "-u", "-g", "-k", "-O",
    "-G", "-t"]

/-- Signs between two operands. -/
def binarySigns : List String :=
  ["=", "!=", "<", ">", "-eq", "-ne", "-lt", "-le", "-gt", "-ge", "-nt", "-ot", "-ef"]

/-- Why a condition makes no sense. -/
inductive ConditionError where
  | badNumber (s : String)
  | missingOperand (sign : String)
  | missingParen
  /-- Words are left over; these are all of them. -/
  | surplus (words : List String)
  | missingBracket
  deriving DecidableEq, Repr

/-- How the shell itself says it. -/
def ConditionError.message : ConditionError → String
  | badNumber s => s!"Illegal number: {s}"
  | missingOperand sign => s!"{sign}: argument expected"
  | missingParen => "closing paren expected"
  | surplus words =>
    let first := words.headD ""
    s!"{first}: unexpected operator"
  | missingBracket => "missing ]"

/-- How the program of the same name says it. -/
def ConditionError.programMessage : ConditionError → String
  | badNumber s => s!"invalid integer '{s}'"
  | missingOperand sign => s!"missing argument after '{sign}'"
  | missingParen => "')' expected"
  | surplus words => match words with
    | [_, b] => s!"missing argument after '{b}'"
    | [_, b, _] => s!"'{b}': binary operator expected"
    | _ =>
      let last := words.getLast?.getD ""
      s!"extra argument '{last}'"
  | missingBracket => "missing ']'"

/-- A condition that makes no sense, or its outcome. -/
abbrev Condition := Except ConditionError

def sizeOf (p : Job) (path : String) : Nat :=
  match p.read path with
  | .ok s => s.length
  | .error _ => 0

/-- Whether a path leads to a program of the system or to a file that may be run. -/
def isProgram (p : Job) (path : String) : Bool :=
  match p.resolve path with
  | .ok place => (place.dropLast.getLast? == some "bin" && (p.tree.get? place).isSome) || p.tree.runnable.contains place
  | .error _ => false

def isLink : Option Entry → Bool
  | some (.link _) => true
  | _ => false

def unary (p : Job) (sign operand : String) : Condition Bool :=
  let isFile := match p.standing? operand with
    | some (.file _) => operand != Job.nullDevice
    | _ => false
  match sign with
  | "-n" => .ok (!operand.isEmpty)
  | "-z" => .ok operand.isEmpty
  | "-s" => .ok (p.isFolder operand || 0 < sizeOf p operand)
  | "-f" => .ok isFile
  | "-d" => .ok (p.isFolder operand)
  | "-e" | "-r" | "-w" => .ok (p.standing? operand).isSome
  | "-x" => .ok (p.isFolder operand || isProgram p operand)
  | "-h" | "-L" => .ok (isLink (p.entryAt? operand))
  | "-c" => .ok (operand == Job.nullDevice)
  | "-O" | "-G" => .ok (p.standing? operand).isSome
  | _ => .ok false

def numberOf (s : String) : Condition Int :=
  match Text.readInt? (Text.trim s.toList) with
  | some n => .ok n
  | none => .error (.badNumber s)

def binary (p : Job) (a sign b : String) : Condition Bool :=
  let compare (f : Int → Int → Bool) : Condition Bool := do return f (← numberOf a) (← numberOf b)
  match sign with
  | "=" => .ok (a == b)
  | "!=" => .ok (a != b)
  | "<" => .ok (a < b)
  | ">" => .ok (b < a)
  | "-eq" => compare (· == ·)
  | "-ne" => compare (· != ·)
  | "-lt" => compare fun a b => a < b
  | "-le" => compare fun a b => a ≤ b
  | "-gt" => compare fun a b => b < a
  | "-ge" => compare fun a b => b ≤ a
  | "-ef" => .ok ((p.standing? a).isSome && (p.resolve a).toOption == (p.resolve b).toOption)
  | _ => .ok false

/-- Whether the sign at the head is only an operand where it stands. -/
def isOperand : List String → Bool
  | _ :: next :: _ :: _ => binarySigns.contains next
  | [_, _] => false
  | _ => true

mutual

/-- Conditions joined by `-o`; what is left behind the last operand. -/
def anyOf (p : Job) (fuel : Nat) (ws : List String) : Condition (Bool × List String) :=
  match fuel with
  | 0 => .ok (false, ws)
  | fuel + 1 => do
    let (a, ws) ← allOf p fuel ws
    match ws with
    | "-o" :: rest => do
      let (b, ws) ← anyOf p fuel rest
      return (a || b, ws)
    | ws => return (a, ws)

/-- Conditions joined by `-a`. -/
def allOf (p : Job) (fuel : Nat) (ws : List String) : Condition (Bool × List String) :=
  match fuel with
  | 0 => .ok (false, ws)
  | fuel + 1 => do
    let (a, ws) ← negated p fuel ws
    match ws with
    | "-a" :: rest => do
      let (b, ws) ← allOf p fuel rest
      return (a && b, ws)
    | ws => return (a, ws)

def negated (p : Job) (fuel : Nat) (ws : List String) : Condition (Bool × List String) :=
  match fuel with
  | 0 => .ok (false, ws)
  | fuel + 1 => match ws with
    | "!" :: next :: rest => do
      let (a, ws) ← negated p fuel (next :: rest)
      return (!a, ws)
    | ws => operand p fuel ws

def operand (p : Job) (fuel : Nat) (ws : List String) : Condition (Bool × List String) :=
  match fuel with
  | 0 => .ok (false, ws)
  | fuel + 1 => match ws with
    | [] => .ok (false, [])
    | "(" :: next :: rest => do
      if next == ")" then return (false, rest)
      let (a, ws) ← anyOf p fuel (next :: rest)
      match ws with
      | ")" :: rest => return (a, rest)
      | _ => throw .missingParen
    | w :: rest =>
      if unarySigns.contains w && !isOperand ws then
        match rest with
        | [] => throw (.missingOperand w)
        | o :: rest => do return (← unary p w o, rest)
      else match rest with
        | sign :: b :: more => do
          if binarySigns.contains sign then return (← binary p w sign b, more)
          else return (!w.isEmpty, rest)
        | [sign] =>
          if binarySigns.contains sign then throw (.missingOperand sign) else return (!w.isEmpty, rest)
        | [] => return (!w.isEmpty, [])

end

/-- The outcome of a condition. -/
def condition (p : Job) : List String → Condition Bool
  | [] => .ok false
  | [a, sign, b] =>
    if binarySigns.contains sign then binary p a sign b
    else if a == "!" then (condition p [sign, b]).map (!·)
    else if a == "(" && b == ")" then condition p [sign]
    else whole [a, sign, b]
  | ["!", a, b, c] => (condition p [a, b, c]).map (!·)
  | ["(", a, b, ")"] => condition p [a, b]
  | ws => whole ws
where
  whole (ws : List String) : Condition Bool := do
    match ← anyOf p (8 * ws.length + 8) ws with
    | (outcome, []) => return outcome
    | (_, _ :: _) => throw (.surplus ws)

/-- A condition in brackets, if `bracketed` holds, or one without. -/
def conditionOf (p : Job) (bracketed : Bool) (args : List String) : Condition Bool :=
  if !bracketed then condition p args
  else if args.getLast? = some "]" then condition p args.dropLast
  else .error .missingBracket

/-- Leaves the outcome of a condition as a status. -/
def testWords (say : ConditionError → String) (bracketed : Bool) (p : Job) (label : String) (args : List String) : Job :=
  match conditionOf p bracketed args with
  | .ok true => p.leave 0
  | .ok false => p.leave 1
  | .error e => (p.complain (label ++ say e)).leave 2

end StencilTiling.Shell
