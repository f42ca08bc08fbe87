import StencilTiling.Code.Program
import StencilTiling.Kernel.Navigate

/-! The entry point of a scheduled kernel. Emission reads the annotations and
decides nothing; a kernel whose data did not all reach the last stage, or that
has no schedule, is refused. -/

namespace StencilTiling.Code

inductive EmitError where
  | fault (f : Fault)
  | unresolved (kernel data : String) (stage : Stage)
  | notScheduled (kernel : String)
  deriving DecidableEq, Repr

def EmitError.message : EmitError → String
  | fault _ => "fault"
  | unresolved kernel data stage => s!"kernel '{kernel}': '{data}' reached the emitter in state {stage.text}"
  | notScheduled kernel => s!"kernel '{kernel}' reached the emitter without a schedule"

/-- The schedule of a kernel whose data are all resolved. -/
def resolvedSchedule (k : Kernel) : Except EmitError Schedule := do
  k.data.forM fun d => ensure (d.note.stage = .geometryResolved) (.unresolved k.name d.name d.note.stage)
  match k.schedule with
  | some schedule => return schedule
  | none => throw (.notScheduled k.name)

/-! ### Part indices -/

/-- The dimensions with several parts. -/
def splitDims (partitions : List Partition) : List (Nat × Int) :=
  (partitions.zipIdx.filter fun (p, _) => 1 < p.parts).map fun (p, dim) => (dim, p.parts)

/-- The digits of the tile number, least significant dimension first. -/
def tileDigits (stride : Int) : List (Nat × Int) → List Stmt
  | [] => []
  | (dim, parts) :: rest => .partOfTile dim stride parts :: tileDigits (stride * parts) rest

/-- The statements binding the part indices. -/
def partIndices (s : Schedule) : List Stmt :=
  match s.mode with
  | .wholeImage => []
  | .workGroupSlicing => (splitDims s.partitions).map fun (dim, _) => .partOfGroup dim
  | .externalTiling => tileDigits 1 (splitDims s.partitions)

/-- The number of tiles the body loops over. -/
def tileLoop (s : Schedule) : Option Int :=
  match s.mode with
  | .externalTiling => some (((splitDims s.partitions).map Prod.snd).foldr (· * ·) 1)
  | _ => none

/-! ### Coordinates -/

/-- The name of an extent along a dimension. -/
def extentName (k : Kernel) (dim : Nat) (d : DataId) : Except Fault String := do
  let item ← k.item d
  match item.shape[dim]? with
  | some (.dynamic param _) => return ident (← k.item param).name
  | some (.fixed n) => return toString n
  | none => return "0"

/-- The names of the leaves of an entry. -/
def leafName (k : Kernel) (dim : Nat) : Geometry.Leaf → String
  | .partIndex => partVar dim
  | .extent d => match extentName k dim d with
    | .ok name => name
    | .error _ => ""

/-- The declaration of one coordinate; every extent in it must have a name. -/
def coordinateStmt (k : Kernel) (item : DataItem) (entry : Geometry.Key × Geometry.Expr) :
    Except Fault Stmt := do
  entry.2.extents.forM fun d => discard (extentName k entry.1.dim d)
  return .coordinate entry.1 item.name (entry.2.toCode (leafName k entry.1.dim))

/-- The coordinates of one item under a note with its pattern. -/
def itemStmts (k : Kernel) (item : DataItem) : Except Fault (List Stmt) :=
  match item.note.geometry with
  | none => return []
  | some table =>
    if table.entries.isEmpty then return []
    else return .itemNote item.name item.note.pattern.text :: (← table.entries.mapM (coordinateStmt k item))

/-! ### Buffers and calls -/

def bufferStmt (k : Kernel) (usage : BufferUsage) : Except Fault Stmt := do
  let item ← k.item usage.data
  return .buffer item.elem item.name (usage.bytes / max item.elemBytes 1)

/-- What a call passes for an item: its buffer, or the parameter itself. -/
def operand (item : DataItem) : String :=
  if item.note.pattern.access.isBuffered then bufferVar item.name else ident item.name

/-- The operands of a node: what it reads, its control parameters, its output. -/
def operands (k : Kernel) (n : Node) (output : DataItem) : Except Fault (List String) := do
  let reads ← (k.inputEdges n).mapM fun e => return operand (← k.item e.source)
  let controls ← n.params.mapM fun d => return ident (← k.item d).name
  return reads ++ controls ++ [operand output]

/-- The calls in order, with a note wherever the cycle changes. -/
def callStmts (k : Kernel) : Option Nat → List NodeId → Except Fault (List Stmt)
  | _, [] => return []
  | current, id :: rest => do
    let n ← k.node id
    let output ← k.item n.output
    let note := if output.cycle = current then [] else [Stmt.cycleNote (output.cycle.getD 0)]
    let call := Stmt.call n.symbol (← operands k n output)
    return note ++ call :: (← callStmts k output.cycle rest)

/-! ### The program -/

def argKind (item : DataItem) : ArgKind :=
  if item.isControl then .control else if item.isInput then .input else .output

/-- Inputs in declaration order, then outputs. -/
def paramsOf (k : Kernel) : Except Fault (List Param) :=
  (k.inputs ++ k.outputs).mapM fun d => do
    let item ← k.item d
    return ⟨item.name, item.elem, argKind item⟩

def headerText (name : String) (s : Schedule) : String :=
  let parts := "x".intercalate (s.partitions.map fun p => toString p.parts)
  s!"/* kernel '{name}': {s.mode.text} {s.scan.text} parts={parts} work-groups={s.workGroups} work-items={s.workItems} depth={s.depth} local={s.localBytes}B */"

/-- The statements of a scheduled kernel. -/
def bodyOf (k : Kernel) (s : Schedule) : Except Fault (List Stmt) := do
  let coordinates ← k.data.mapM (itemStmts k)
  let buffers ← s.buffers.mapM (bufferStmt k)
  let calls ← callStmts k none s.nodeOrder
  return partIndices s ++ coordinates.flatten ++ buffers ++ calls

/-- The entry point of a kernel. -/
def emit (k : Kernel) : Except EmitError Program := do
  let s ← resolvedSchedule k
  let body ← (bodyOf k s).mapError .fault
  let params ← (paramsOf k).mapError .fault
  return {
    kernel := k.name, header := headerText k.name s, params, tileLoop := tileLoop s, body,
    workGroups := s.workGroups, workItems := s.workItems }

/-- Blanks per level of indentation. -/
def defaultIndent : Nat := 4

end StencilTiling.Code
