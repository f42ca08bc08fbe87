import StencilTiling.Code.Expr
import StencilTiling.ElemType
import StencilTiling.Geometry.Table

/-! Emitted entry points as data: parameters, part indices, coordinate constants,
local buffers and node calls, and the OpenCL C text of all of them. -/

namespace StencilTiling.Code

/-! ### Identifiers -/

def isIdentChar (c : Char) : Bool := c.isAlphanum || c == '_'

/-- A name with every character outside identifiers replaced, and a leading digit guarded. -/
def ident (name : String) : String :=
  let cs := name.toList.map fun c => if isIdentChar c then c else '_'
  match cs with
  | c :: _ => if c.isDigit then String.ofList ('_' :: cs) else String.ofList cs
  | [] => ""

/-- The variable holding the part index along a dimension. -/
def partVar (dim : Nat) : String := s!"kg_part{dim}"

/-- The local buffer of a data item. -/
def bufferVar (data : String) : String := s!"kg_buf_{ident data}"

/-- The constant holding a coordinate of a data item. -/
def coordinateVar (key : Geometry.Key) (data : String) : String := s!"kg_{key.text}_{ident data}"

/-! ### Programs -/

/-- How an argument is passed. -/
inductive ArgKind where
  | input
  | output
  | control
  deriving DecidableEq, Repr

/-- A parameter of the entry point. -/
structure Param where
  data : String
  elem : ElemType
  kind : ArgKind
  deriving DecidableEq, Repr

inductive Stmt where
  /-- The part index is the group number. -/
  | partOfGroup (dim : Nat)
  /-- The part index is a digit of the tile number. -/
  | partOfTile (dim : Nat) (stride parts : Int)
  /-- Marks the coordinates of a data item. -/
  | itemNote (data pattern : String)
  | coordinate (key : Geometry.Key) (data : String) (value : Expr)
  | buffer (elem : ElemType) (data : String) (count : Nat)
  /-- Marks the calls of a cycle. -/
  | cycleNote (cycle : Nat)
  | call (symbol : String) (operands : List String)
  deriving DecidableEq, Repr

/-- One entry point. -/
structure Program where
  /-- The kernel's own name. -/
  kernel : String
  /-- Text of the leading comment. -/
  header : String
  params : List Param
  /-- Number of tiles to loop over, if the body is a loop. -/
  tileLoop : Option Int
  body : List Stmt
  workGroups : Nat
  workItems : Nat
  deriving DecidableEq, Repr

/-! ### Text -/

def Param.text (p : Param) : String :=
  match p.kind with
  | .control => s!"const {p.elem.text} {ident p.data}"
  | .input => s!"__global const {p.elem.text} *{ident p.data}"
  | .output => s!"__global {p.elem.text} *{ident p.data}"

def Stmt.text : Stmt → String
  | partOfGroup dim => s!"const int {partVar dim} = get_group_id(0);"
  | partOfTile dim stride parts => s!"const int {partVar dim} = (kg_tile / {stride}) % {parts};"
  | itemNote data pattern => s!"/* {data}:{pattern} */"
  | coordinate key data value => s!"const int {coordinateVar key data} = {value.print};"
  | buffer elem data count => s!"__local {elem.text} {bufferVar data}[{count}];"
  | cycleNote cycle => s!"/* cycle {cycle} */"
  | call symbol operands =>
    let list := ", ".intercalate operands
    s!"{symbol}({list});"

namespace Program

/-- The name of the entry point. -/
def entry (p : Program) : String := ident p.kernel

def globalSize (p : Program) : List Nat := [p.workGroups * p.workItems, 1, 1]

def localSize (p : Program) : List Nat := [p.workItems, 1, 1]

/-- One line at a depth of indentation. -/
def line (step depth : Nat) (text : String) : String :=
  String.ofList (List.replicate (step * depth) ' ') ++ text ++ "\n"

/-- The statements, inside the tile loop if there is one. -/
def bodyText (p : Program) (step : Nat) : String :=
  match p.tileLoop with
  | none => String.join (p.body.map fun s => line step 1 s.text)
  | some total =>
    line step 1 s!"for (int kg_tile = get_group_id(0); kg_tile < {total}; kg_tile += get_num_groups(0)) \x7b" ++
      String.join (p.body.map fun s => line step 2 s.text) ++ line step 1 "\x7d"

/-- The whole source of the entry point, indented by `step` blanks per level. -/
def print (p : Program) (step : Nat) : String :=
  let params := ", ".intercalate (p.params.map Param.text)
  s!"{p.header}\n__kernel void {p.entry}({params}) \x7b\n" ++ p.bodyText step ++ "\x7d\n"

end Program

end StencilTiling.Code
