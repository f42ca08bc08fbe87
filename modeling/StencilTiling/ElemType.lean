/-! Element types of kernel data: their storage size, the precision class that
decides device support, and their spelling. -/

namespace StencilTiling

/-- Scalar element types. -/
inductive ElemType where
  | bool | char | uchar | short | ushort | int | uint | long | ulong | half | float | double
  deriving DecidableEq, Repr, Inhabited

/-- What a device must support to compute with a type. -/
inductive Precision where
  | integer
  | long
  | float
  | double
  deriving DecidableEq, Repr

namespace ElemType

def all : List ElemType :=
  [bool, char, uchar, short, ushort, int, uint, long, ulong, half, float, double]

/-- Bytes of one element. -/
def bytes : ElemType → Nat
  | bool | char | uchar => 1
  | short | ushort | half => 2
  | int | uint | float => 4
  | long | ulong | double => 8

def isSigned : ElemType → Bool
  | char | short | int | long => true
  | _ => false

def isUnsigned : ElemType → Bool
  | uchar | ushort | uint | ulong => true
  | _ => false

def isInt (t : ElemType) : Bool := t.isSigned || t.isUnsigned

def isFloat : ElemType → Bool
  | half | float | double => true
  | _ => false

def precision : ElemType → Precision
  | long | ulong => .long
  | half | float => .float
  | double => .double
  | _ => .integer

def text : ElemType → String
  | bool => "bool"
  | char => "char"
  | uchar => "uchar"
  | short => "short"
  | ushort => "ushort"
  | int => "int"
  | uint => "uint"
  | long => "long"
  | ulong => "ulong"
  | half => "half"
  | float => "float"
  | double => "double"

/-- Reads a type name; unsigned types also go by their long spelling. -/
def ofText? (s : String) : Option ElemType :=
  match s with
  | "unsigned char" => some uchar
  | "unsigned short" => some ushort
  | "unsigned int" => some uint
  | "unsigned long" => some ulong
  | _ => all.find? (·.text == s)

end ElemType

end StencilTiling
