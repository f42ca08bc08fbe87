/-! Octets. What programs exchange need not be text, so it is kept as one
character below 256 per octet. Going back, ill-formed stretches of UTF-8 become
replacement characters, one for each longest start of a character. -/

namespace StencilTiling.Text

/-- The octets of a text. -/
def octets (s : String) : String := String.ofList (s.toUTF8.toList.map fun b => Char.ofNat b.toNat)

/-- A character of which some octets are still owed. -/
structure Owed where
  value : Nat
  count : Nat
  /-- Bounds of the next octet. -/
  least : Nat
  greatest : Nat
  deriving DecidableEq, Repr

/-- What an octet opens that is more than one octet long. -/
def Owed.ofLead? (n : Nat) : Option Owed :=
  if 0xC2 ≤ n && n ≤ 0xDF then some ⟨n % 0x20, 1, 0x80, 0xBF⟩
  else if n == 0xE0 then some ⟨0, 2, 0xA0, 0xBF⟩
  else if n == 0xED then some ⟨0xD, 2, 0x80, 0x9F⟩
  else if 0xE1 ≤ n && n ≤ 0xEF then some ⟨n % 0x10, 2, 0x80, 0xBF⟩
  else if n == 0xF0 then some ⟨0, 3, 0x90, 0xBF⟩
  else if n == 0xF4 then some ⟨4, 3, 0x80, 0x8F⟩
  else if 0xF1 ≤ n && n ≤ 0xF3 then some ⟨n % 8, 3, 0x80, 0xBF⟩
  else none

/-- Stands for octets that make no character. -/
def replacement : Char := '�'

/-- The characters of octets read so far, the latest first, and what is owed. -/
structure Decoded where
  done : List Char := []
  owed : Option Owed := none
  deriving DecidableEq, Repr

/-- One octet between characters. -/
def Decoded.fresh (d : Decoded) (c : Char) : Decoded :=
  if c.toNat < 0x80 then ⟨c :: d.done, none⟩
  else match Owed.ofLead? c.toNat with
    | some owed => ⟨d.done, some owed⟩
    | none => ⟨replacement :: d.done, none⟩

/-- One octet; where it is not the one that is owed, the start of a character is lost. -/
def Decoded.next (d : Decoded) (c : Char) : Decoded :=
  match d.owed with
  | none => d.fresh c
  | some owed =>
    let n := c.toNat
    if owed.least ≤ n && n ≤ owed.greatest then
      let value := owed.value * 0x40 + n % 0x40
      if owed.count ≤ 1 then ⟨Char.ofNat value :: d.done, none⟩
      else ⟨d.done, some ⟨value, owed.count - 1, 0x80, 0xBF⟩⟩
    else Decoded.fresh ⟨replacement :: d.done, none⟩ c

/-- All characters, with one for what is still owed. -/
def Decoded.chars (d : Decoded) : List Char :=
  (if d.owed.isSome then replacement :: d.done else d.done).reverse

/-- The text of octets. -/
def ofOctets (s : String) : String := String.ofList (s.toList.foldl Decoded.next {}).chars

end StencilTiling.Text
