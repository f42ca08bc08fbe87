import StencilTiling.Kernel.Navigate

/-! Control parameters of nodes. A node needs its explicit controls, the
parameters carrying the run-time extents of what it reads and writes, and
whatever its producers need. The sets grow in place, round by round, until a
round adds nothing, which also ends on cyclic graphs. -/

namespace StencilTiling.Kernel

/-! ### Sets of identifiers -/

/-- Insertion into a strictly increasing list. -/
def insertId (d : DataId) : List DataId → List DataId
  | [] => [d]
  | x :: xs => if d < x then d :: x :: xs else if d = x then x :: xs else x :: insertId d xs

/-- All of `ds` inserted. -/
def insertIds (ds : List DataId) (set : List DataId) : List DataId := ds.foldl (fun s d => insertId d s) set

/-! ### Rounds -/

/-- What a node needs by itself. -/
def ownParams (k : Kernel) (n : Node) : List DataId :=
  let touched := ((k.inputEdges n).map Edge.source) ++ [n.output]
  let extents := touched.flatMap fun d => match k.data[d]? with
    | some item => item.shape.filterMap Extent.param
    | none => []
  insertIds extents (insertIds n.controls [])

/-- A node takes over what its producers have by now. -/
def takeParams (k : Kernel) (params : List (List DataId)) (n : Node) : List (List DataId) :=
  params.modify n.id (insertIds ((k.predecessors n).flatMap fun p => params.getD p []))

/-- One round: node after node takes over from its producers. -/
def paramsRound (k : Kernel) (params : List (List DataId)) : List (List DataId) :=
  k.nodes.foldl k.takeParams params

/-- Rounds until one adds nothing, at most `fuel` of them. -/
def settleParams (k : Kernel) : Nat → List (List DataId) → List (List DataId)
  | 0, params => params
  | fuel + 1, params =>
    let next := k.paramsRound params
    if next = params then params else settleParams k fuel next

/-- Fills in the control parameters of every node; one round per node is enough. -/
def deriveParams (k : Kernel) : Kernel :=
  let params := k.settleParams k.nodes.length (k.nodes.map k.ownParams)
  { k with nodes := k.nodes.zipWith (fun n p => { n with params := p }) params }

end StencilTiling.Kernel
