import StencilTiling.Arith
import StencilTiling.Shell.Script

/-! Arithmetic of scripts: signed 64-bit integers, variables, and the operators
of C with their ranks. -/

namespace StencilTiling.Shell.Arith

open StencilTiling.Arith (wrap64)

/-- The digits of a number in a base, and what follows them. -/
def digitsIn (base : Nat) : List Char → Nat → Nat × List Char
  | [], n => (n, [])
  | c :: rest, n =>
    let digit := if c.isDigit then c.toNat - '0'.toNat
      else if 'a' ≤ c && c ≤ 'f' then c.toNat - 'a'.toNat + 10
      else if 'A' ≤ c && c ≤ 'F' then c.toNat - 'A'.toNat + 10
      else 99
    if digit < base then digitsIn base rest (n * base + digit) else (n, c :: rest)

/-- The magnitude a number starts with: hexadecimal after `0x`, octal after `0`. -/
def magnitude? (cs : List Char) : Option (Nat × List Char) :=
  match cs with
  | '0' :: x :: d :: rest =>
    if (x == 'x' || x == 'X') && (d.isDigit || ('a' ≤ d && d ≤ 'f') || ('A' ≤ d && d ≤ 'F')) then
      some (digitsIn 16 (d :: rest) 0)
    else some (digitsIn 8 cs 0)
  | '0' :: _ => some (digitsIn 8 cs 0)
  | c :: _ => if c.isDigit then some (digitsIn 10 cs 0) else none
  | [] => none

/-- A signed number at the start of a text, after blanks, and what follows it. -/
def number? (cs : List Char) : Option (Int × List Char) :=
  match cs.dropWhile fun c => c == ' ' || ('\t' ≤ c && c ≤ '\r') with
  | '-' :: rest => (magnitude? rest).map fun (n, rest) => (-(n : Int), rest)
  | '+' :: rest => (magnitude? rest).map fun (n, rest) => ((n : Int), rest)
  | cs => (magnitude? cs).map fun (n, rest) => ((n : Int), rest)

/-- Variables by name. -/
abbrev Scope := List (String × String)

abbrev Eval := StateT (Scope × List Char) (Except String)

def rest : Eval (List Char) := return (← get).2

def setRest (cs : List Char) : Eval Unit := modify fun (scope, _) => (scope, cs)

def skipBlanks : Eval Unit := do setRest ((← rest).dropWhile fun c => c == ' ' || c == '\t' || c == '\n')

/-- The value of a variable; one that is not set counts as zero. -/
def lookup (name : String) : Eval Int := do
  match (← get).1.lookup name with
  | none | some "" => return 0
  | some value => match number? value.toList with
    | some (n, []) => return n
    | _ => throw s!"Illegal number: {value}"

def assign (name : String) (n : Int) : Eval Unit :=
  modify fun (scope, cs) => ((name, toString n) :: scope, cs)

/-- Binary operators with their ranks, longer ones first. -/
def operators : List (String × Nat) :=
  [("<<", 8), (">>", 8), ("<=", 7), (">=", 7), ("==", 6), ("!=", 6), ("&&", 2), ("||", 1), ("<", 7), (">", 7),
    ("&", 5), ("^", 4), ("|", 3), ("+", 9), ("-", 9), ("*", 10), ("/", 10), ("%", 10)]

def truth (b : Bool) : Int := if b then 1 else 0

/-- Bits of a signed integer in 64-bit two's complement. -/
def bits (n : Int) : Nat := (n % 0x10000000000000000).toNat

def apply (op : String) (a b : Int) : Eval Int :=
  match op with
  | "+" => return wrap64 (a + b)
  | "-" => return wrap64 (a - b)
  | "*" => return wrap64 (a * b)
  | "/" => if b = 0 then throw "division by zero" else return wrap64 (a.tdiv b)
  | "%" => if b = 0 then throw "division by zero" else return a.tmod b
  | "<<" => return wrap64 (a * (Nat.pow 2 (bits b % 64) : Nat))
  | ">>" => return a.fdiv (Nat.pow 2 (bits b % 64) : Nat)
  | "<" => return truth (a < b)
  | "<=" => return truth (a ≤ b)
  | ">" => return truth (b < a)
  | ">=" => return truth (b ≤ a)
  | "==" => return truth (a == b)
  | "!=" => return truth (a != b)
  | "&" => return wrap64 ((bits a) &&& (bits b) : Nat)
  | "^" => return wrap64 ((bits a) ^^^ (bits b) : Nat)
  | "|" => return wrap64 ((bits a) ||| (bits b) : Nat)
  | "&&" => return truth (a != 0 && b != 0)
  | _ => return truth (a != 0 || b != 0)

/-- The operator that comes next, unless it belongs to an assignment. -/
def operator? (cs : List Char) : Option (String × Nat) := do
  let (op, rank) ← operators.find? fun (op, _) => op.toList.isPrefixOf cs
  let after := cs.drop op.length
  let compares := ["<=", ">=", "==", "!="].contains op
  if !compares && after.head? == some '=' && ["+", "-", "*", "/", "%", "&", "^", "|", "<<", ">>"].contains op
  then none
  else some (op, rank)

/-- An assignment sign with the operator in it, and what follows. -/
def assignment? (cs : List Char) : Option (Option String × List Char) :=
  match cs with
  | '=' :: '=' :: _ => none
  | '=' :: rest => some (none, rest)
  | cs => do
    let op ← ["<<", ">>", "+", "-", "*", "/", "%", "&", "^", "|"].find? fun op => (op.toList ++ ['=']).isPrefixOf cs
    return (some op, cs.drop (op.length + 1))

mutual

/-- A whole expression: a choice or an assignment. -/
def expression (fuel : Nat) : Eval Int :=
  match fuel with
  | 0 => throw "expecting primary"
  | fuel + 1 => do
    skipBlanks
    let cs ← rest
    let name := cs.takeWhile isNameChar
    let after := (cs.drop name.length).dropWhile (· == ' ')
    match if isName name then assignment? after else none with
    | some (op, cs) =>
      setRest cs
      let n ← expression fuel
      let name := String.ofList name
      let n ← match op with
        | none => pure n
        | some op => apply op (← lookup name) n
      assign name n
      return n
    | none =>
      let cond ← ranked fuel 1
      skipBlanks
      match ← rest with
      | '?' :: cs =>
        setRest cs
        let saved ← get
        let yes ← expression fuel
        let afterYes ← get
        skipBlanks
        match ← rest with
        | ':' :: cs =>
          if cond ≠ 0 then
            setRest cs
            discard (expression fuel)
            let cs ← rest
            set (afterYes.1, cs)
            return yes
          else
            set (saved.1, cs)
            expression fuel
        | _ => throw "expecting ':'"
      | _ => return cond

/-- Operators of at least a rank. -/
def ranked (fuel least : Nat) : Eval Int :=
  match fuel with
  | 0 => throw "expecting primary"
  | fuel + 1 => do
    let a ← primary fuel
    joined fuel least a

def joined (fuel least : Nat) (a : Int) : Eval Int :=
  match fuel with
  | 0 => return a
  | fuel + 1 => do
    skipBlanks
    match operator? (← rest) with
    | none => return a
    | some (op, rank) =>
      if rank < least then return a
      else
        setRest ((← rest).drop op.length)
        let decided := (op == "&&" && a == 0) || (op == "||" && a != 0)
        let saved ← get
        if decided then
          match (ranked fuel (rank + 1)) saved with
          | .ok (_, (_, cs)) =>
            set (saved.1, cs)
            joined fuel least (truth (op == "||"))
          | .error e => throw e
        else
          let b ← ranked fuel (rank + 1)
          joined fuel least (← apply op a b)

def primary (fuel : Nat) : Eval Int :=
  match fuel with
  | 0 => throw "expecting primary"
  | fuel + 1 => do
    skipBlanks
    match ← rest with
    | '(' :: cs =>
      setRest cs
      let n ← expression fuel
      skipBlanks
      match ← rest with
      | ')' :: cs =>
        setRest cs
        return n
      | _ => throw "expecting ')'"
    | '-' :: cs =>
      setRest cs
      return wrap64 (-(← primary fuel))
    | '+' :: cs =>
      setRest cs
      primary fuel
    | '!' :: cs =>
      setRest cs
      return truth ((← primary fuel) == 0)
    | '~' :: cs =>
      setRest cs
      return -(← primary fuel) - 1
    | cs =>
      match magnitude? cs with
      | some (n, cs) =>
        setRest cs
        return wrap64 n
      | none =>
        let name := cs.takeWhile isNameChar
        if name.isEmpty then throw "expecting primary"
        else
          setRest (cs.drop name.length)
          lookup (String.ofList name)

end

/-- The value of an expression and the variables after it. -/
def eval (text : String) (scope : Scope) : Except String (Int × Scope) := do
  let cs := text.toList
  if cs.all Text.isBlank then throw s!"arithmetic expression: expecting primary: \"{text}\""
  let wrap (e : String) : String :=
    if "Illegal".isPrefixOf e then e else s!"arithmetic expression: {e}: \"{text}\""
  match (do
    let n ← expression (4 * cs.length + 8)
    skipBlanks
    if (← rest).isEmpty then return n else throw "expecting EOF" : Eval Int) (scope, cs) with
  | .ok (n, (scope, _)) => return (n, scope)
  | .error e => throw (wrap e)

end StencilTiling.Shell.Arith
