import StencilTiling.Text.Double
import StencilTiling.Text.Integer

/-! JSON documents. Reading is strict: one value, blanks around it and nothing
else, no leading zeros, no raw control characters in texts. Numbers with a
fraction or an exponent are recognised but carry no value, because nothing in a
description is measured in them. -/

namespace StencilTiling.Description

/-- A document value. -/
inductive Value where
  | null
  | bool (b : Bool)
  /-- A number without fraction and exponent. -/
  | int (n : Int)
  /-- Any other number. -/
  | real
  | text (s : String)
  /-- A well-formed leaf that stands for nothing: a text with half a surrogate
  pair, or a number past the largest double. It can be skipped, never used. -/
  | unreadable
  | list (items : List Value)
  /-- Fields in document order; a key is absent when its text is unreadable. -/
  | object (fields : List (Option String × Value))

/-! ### Texts -/

/-- A character of a text as written: itself, or one escaped UTF-16 unit. -/
inductive Glyph where
  | char (c : Char)
  | unit (n : Nat)
  deriving DecidableEq, Repr

def hexDigit? (c : Char) : Option Nat :=
  if c.isDigit then some (c.toNat - '0'.toNat)
  else if 'a' ≤ c ∧ c ≤ 'f' then some (c.toNat - 'a'.toNat + 10)
  else if 'A' ≤ c ∧ c ≤ 'F' then some (c.toNat - 'A'.toNat + 10)
  else none

/-- A UTF-16 unit written with four hexadecimal digits. -/
def hexUnit? (a b c d : Char) : Option Nat := do
  return (((← hexDigit? a) * 16 + (← hexDigit? b)) * 16 + (← hexDigit? c)) * 16 + (← hexDigit? d)

/-- The character of a one-letter escape. -/
def escape? : Char → Option Char
  | '"' => some '"'
  | '\\' => some '\\'
  | '/' => some '/'
  | 'b' => some '\x08'
  | 'f' => some '\x0c'
  | 'n' => some '\n'
  | 'r' => some '\r'
  | 't' => some '\t'
  | _ => none

/-- The glyphs up to the closing quote, and what follows it. -/
def glyphs? : List Char → List Glyph → Option (List Glyph × List Char)
  | '"' :: rest, done => some (done.reverse, rest)
  | '\\' :: 'u' :: a :: b :: c :: d :: rest, done => do glyphs? rest (.unit (← hexUnit? a b c d) :: done)
  | '\\' :: e :: rest, done => do glyphs? rest (.char (← escape? e) :: done)
  | c :: rest, done => if c.toNat < 0x20 || c == '\\' then none else glyphs? rest (.char c :: done)
  | [], _ => none

/-- The characters of a text; absent when a surrogate stands alone. -/
def decode? : List Glyph → Option (List Char)
  | [] => some []
  | .char c :: rest => (decode? rest).map (c :: ·)
  | .unit hi :: .unit lo :: rest =>
    if 0xD800 ≤ hi ∧ hi < 0xDC00 ∧ 0xDC00 ≤ lo ∧ lo < 0xE000 then
      (decode? rest).map (Char.ofNat (0x10000 + (hi - 0xD800) * 0x400 + (lo - 0xDC00)) :: ·)
    else if 0xD800 ≤ hi ∧ hi < 0xE000 then none
    else (decode? (.unit lo :: rest)).map (Char.ofNat hi :: ·)
  | .unit n :: rest => if 0xD800 ≤ n ∧ n < 0xE000 then none else (decode? rest).map (Char.ofNat n :: ·)

/-- A text after its opening quote. -/
def text? (cs : List Char) : Option (Option String × List Char) := do
  let (glyphs, rest) ← glyphs? cs []
  return ((decode? glyphs).map String.ofList, rest)

/-! ### Numbers -/

/-- A nonempty run of digits. -/
def digits? (cs : List Char) : Option (List Char × List Char) :=
  let digits := cs.takeWhile Char.isDigit
  if digits.isEmpty then none else some (digits, cs.dropWhile Char.isDigit)

/-- The digits after the point, if there is one. -/
def fraction? : List Char → Option (Option (List Char) × List Char)
  | '.' :: rest => (digits? rest).map fun (ds, rest) => (some ds, rest)
  | cs => some (none, cs)

/-- The exponent, if there is one. -/
def exponent? : List Char → Option (Option Int × List Char)
  | c :: rest =>
    if c == 'e' || c == 'E' then
      let (sign, rest) : Int × List Char := match rest with
        | '-' :: rest => (-1, rest)
        | '+' :: rest => (1, rest)
        | rest => (1, rest)
      (digits? rest).map fun (ds, rest) => (some (sign * Text.digitsValue ds), rest)
    else some (none, c :: rest)
  | [] => some (none, [])

/-- A number as a significand of at most 64 bits and a power of ten. -/
structure Scaled where
  significand : Nat := 0
  exponent : Int := 0
  /-- A digit did not fit, so none is taken any more. -/
  full : Bool := false
  deriving DecidableEq, Repr

namespace Scaled

/-- Whether one more digit still fits. -/
def fits (s : Scaled) (digit : Nat) : Bool := !s.full && s.significand * 10 + digit < 0x10000000000000000

/-- A digit before the point; one that does not fit counts as a zero. -/
def addWhole (s : Scaled) (c : Char) : Scaled :=
  let digit := Text.digitsValue [c]
  if s.fits digit then { s with significand := s.significand * 10 + digit }
  else { s with exponent := s.exponent + 1, full := true }

/-- A digit after the point; one that does not fit is dropped. -/
def addPlace (s : Scaled) (c : Char) : Scaled :=
  let digit := Text.digitsValue [c]
  if s.fits digit then { s with significand := s.significand * 10 + digit, exponent := s.exponent - 1 }
  else { s with full := true }

/-- The number with these digits before and after the point, times a power of ten. -/
def ofDigits (whole places : List Char) (exponent : Int) : Scaled :=
  let s := whole.foldl addWhole {}
  let s := places.foldl addPlace { s with full := false }
  { s with exponent := s.exponent + exponent }

/-- Whether the product of significand and power, each taken to a double and
rounded once more, is past the largest double. -/
def isTooLarge (s : Scaled) : Bool :=
  s.significand != 0 && 0 ≤ s.exponent &&
    (308 < s.exponent || Nat.pow 2 1024 ≤
      Text.significant (Text.significant s.significand * Text.significant (Nat.pow 10 s.exponent.toNat)))

end Scaled

/-- A number. A negative zero is no integer. -/
def number? (cs : List Char) : Option (Value × List Char) := do
  let (negative, cs) := match cs with
    | '-' :: rest => (true, rest)
    | cs => (false, cs)
  let (whole, rest) ← digits? cs
  if 1 < whole.length ∧ whole.head? = some '0' then none
  let (fraction, rest) ← fraction? rest
  let (exponent, rest) ← exponent? rest
  let places := fraction.getD []
  if (Scaled.ofDigits whole places (exponent.getD 0)).isTooLarge then
    return (.unreadable, rest)
  let n := Text.digitsValue whole
  if fraction.isSome || exponent.isSome || (negative && n == 0) then return (.real, rest)
  return (.int (if negative then -(n : Int) else n), rest)

/-! ### Values -/

def isJsonBlank (c : Char) : Bool := c == ' ' || c == '\n' || c == '\r' || c == '\t'

def skip (cs : List Char) : List Char := cs.dropWhile isJsonBlank

/-- The key of a field and its colon. -/
def key? (cs : List Char) : Option (Option String × List Char) :=
  match skip cs with
  | '"' :: rest => do
    let (key, rest) ← text? rest
    match skip rest with
    | ':' :: rest => some (key, rest)
    | _ => none
  | _ => none

mutual

/-- One value and what follows it; `fuel` bounds the number of nested steps. -/
def value? (fuel : Nat) (cs : List Char) : Option (Value × List Char) :=
  match fuel with
  | 0 => none
  | fuel + 1 => match skip cs with
    | 'n' :: 'u' :: 'l' :: 'l' :: rest => some (.null, rest)
    | 't' :: 'r' :: 'u' :: 'e' :: rest => some (.bool true, rest)
    | 'f' :: 'a' :: 'l' :: 's' :: 'e' :: rest => some (.bool false, rest)
    | '"' :: rest => (text? rest).map fun (s, rest) => ((s.map .text).getD .unreadable, rest)
    | '[' :: rest => match skip rest with
      | ']' :: rest => some (.list [], rest)
      | rest => items? fuel rest []
    | '\x7b' :: rest => match skip rest with
      | '\x7d' :: rest => some (.object [], rest)
      | rest => fields? fuel rest []
    | cs => number? cs

/-- The items of a list from the next one on. -/
def items? (fuel : Nat) (cs : List Char) (done : List Value) : Option (Value × List Char) :=
  match fuel with
  | 0 => none
  | fuel + 1 => match value? fuel cs with
    | none => none
    | some (v, rest) => match skip rest with
      | ',' :: rest => items? fuel rest (v :: done)
      | ']' :: rest => some (.list (v :: done).reverse, rest)
      | _ => none

/-- The fields of an object from the next one on. -/
def fields? (fuel : Nat) (cs : List Char) (done : List (Option String × Value)) : Option (Value × List Char) :=
  match fuel with
  | 0 => none
  | fuel + 1 => match key? cs with
    | none => none
    | some (key, rest) => match value? fuel rest with
      | none => none
      | some (v, rest) => match skip rest with
        | ',' :: rest => fields? fuel rest ((key, v) :: done)
        | '\x7d' :: rest => some (.object ((key, v) :: done).reverse, rest)
        | _ => none

end

/-- The value of a document. Every nested step takes a character, so the length
of the document bounds the steps. -/
def Value.ofText? (cs : List Char) : Option Value :=
  match value? (cs.length + 1) cs with
  | some (v, rest) => if (skip rest).isEmpty then some v else none
  | none => none

/-! ### Nesting -/

mutual

/-- Whether every leaf and key is readable and the value nests at most `depth` levels. -/
def Value.fits (depth : Nat) : Value → Bool
  | .unreadable => false
  | .list items => match depth with
    | 0 => false
    | depth + 1 => itemsFit depth items
  | .object fields => match depth with
    | 0 => false
    | depth + 1 => fieldsFit depth fields
  | _ => true

def itemsFit (depth : Nat) : List Value → Bool
  | [] => true
  | v :: rest => v.fits depth && itemsFit depth rest

def fieldsFit (depth : Nat) : List (Option String × Value) → Bool
  | [] => true
  | (key, v) :: rest => key.isSome && v.fits depth && fieldsFit depth rest

end

end StencilTiling.Description
