import StencilTiling.Description.Value

/-! Kernel graph descriptions: what a document says about kernels, before any
name in it is looked up. Data must be declared before extents and nodes name
them. -/

namespace StencilTiling.Description

inductive DataKind where
  | input
  | control
  | temporary
  | output
  deriving DecidableEq, Repr

/-- A fixed size, or the name of the control parameter that carries it. -/
inductive ExtentEntry where
  | fixed (n : Nat)
  | dynamic (param : String) (max : Option Nat)
  deriving DecidableEq, Repr

structure DataEntry where
  name : String
  kind : DataKind
  elem : String
  shape : List ExtentEntry := []
  line : Option Nat := none
  deriving DecidableEq, Repr

/-- A read of a node; pointwise when no window is given. -/
structure InputEntry where
  data : String
  read : Option (List (Int × Int)) := none
  border : Option String := none
  deriving DecidableEq, Repr

structure NodeEntry where
  name : String
  output : String
  inputs : List InputEntry := []
  controls : List String := []
  inStride : Option (List Int) := none
  outStride : Option (List Int) := none
  write : Option (List (Int × Int)) := none
  line : Option Nat := none
  deriving DecidableEq, Repr

structure KernelEntry where
  name : String
  line : Option Nat := none
  data : List DataEntry
  nodes : List NodeEntry
  deriving DecidableEq, Repr

/-- The kernels of one document, in order. -/
structure Graph where
  kernels : List KernelEntry
  deriving DecidableEq, Repr

/-! ### Leaves -/

namespace Value

def text? : Value → Option String
  | .text s => some s
  | _ => none

/-- An integer within the given bounds. -/
def intWithin? (low high : Int) : Value → Option Int
  | .int n => if low ≤ n ∧ n ≤ high then some n else none
  | _ => none

def word? (v : Value) : Option Int := v.intWithin? Arith.minWord Arith.maxWord

def count? (v : Value) : Option Nat := (v.intWithin? 0 0xffffffffffffffff).map Int.toNat

def line? (v : Value) : Option Nat := (v.intWithin? 0 0xffffffff).map Int.toNat

def listOf? {α : Type} (read : Value → Option α) : Value → Option (List α)
  | .list items => items.mapM read
  | _ => none

def pair? : Value → Option (Int × Int)
  | .list [a, b] => do return (← a.word?, ← b.word?)
  | _ => none

end Value

/-! ### Records -/

/-- The values of the declared fields of a record, absent ones as `none`. As an
object a record may have further fields, but no declared field twice; as a list
it holds the leading declared fields in order. -/
def record? (names : List String) : Value → Option (List (Option Value))
  | .object fields => do
    let keys ← fields.mapM Prod.fst
    if names.any fun name => 1 < keys.count name then none
    else return names.map fun name => fields.lookup (some name)
  | .list items =>
    if items.length ≤ names.length then some ((List.range names.length).map fun i => items[i]?)
    else none
  | _ => none

/-- A field that must be there. -/
def required? {α : Type} (read : Value → Option α) (v : Option Value) : Option α := v.bind read

/-- A field that may be absent or null. -/
def optional? {α : Type} (read : Value → Option α) : Option Value → Option (Option α)
  | none | some .null => some none
  | some v => (read v).map some

/-- A list that may be absent, but not null. -/
def listed? {α : Type} (read : Value → Option α) : Option Value → Option (List α)
  | none => some []
  | some v => v.listOf? read

def DataKind.ofText? : String → Option DataKind
  | "input" => some .input
  | "control" => some .control
  | "temporary" => some .temporary
  | "output" => some .output
  | _ => none

/-- A kind is its name, or an object with the name as its only key and null under it. -/
def DataKind.read? : Value → Option DataKind
  | .text s => DataKind.ofText? s
  | .object [(some s, .null)] => DataKind.ofText? s
  | _ => none

/-- Nesting that an extent may still have where it stands in a document. -/
def extentDepth : Nat := 121

/-- A dynamic extent is an object, never a list. -/
def ExtentEntry.read? : Value → Option ExtentEntry
  | .list _ => none
  | .object fields => do
    let v := Value.object fields
    if !v.fits extentDepth then none
    let [param, max] ← record? ["param", "max"] v | none
    return .dynamic (← required? Value.text? param) (← optional? Value.count? max)
  | v => v.count?.map .fixed

def DataEntry.read? (v : Value) : Option DataEntry := do
  let [name, kind, elem, shape, line] ← record? ["name", "kind", "type", "shape", "line"] v | none
  return {
    name := ← required? Value.text? name
    kind := ← required? DataKind.read? kind
    elem := ← required? Value.text? elem
    shape := ← listed? ExtentEntry.read? shape
    line := ← optional? Value.line? line }

def InputEntry.read? (v : Value) : Option InputEntry := do
  let [data, read, border] ← record? ["data", "read", "border"] v | none
  return {
    data := ← required? Value.text? data
    read := ← optional? (Value.listOf? Value.pair?) read
    border := ← optional? Value.text? border }

def NodeEntry.read? (v : Value) : Option NodeEntry := do
  let [name, output, inputs, controls, inStride, outStride, write, line] ←
    record? ["name", "output", "inputs", "controls", "input_stride", "output_stride", "write", "line"] v | none
  return {
    name := ← required? Value.text? name
    output := ← required? Value.text? output
    inputs := ← listed? InputEntry.read? inputs
    controls := ← listed? Value.text? controls
    inStride := ← optional? (Value.listOf? Value.word?) inStride
    outStride := ← optional? (Value.listOf? Value.word?) outStride
    write := ← optional? (Value.listOf? Value.pair?) write
    line := ← optional? Value.line? line }

def KernelEntry.read? (v : Value) : Option KernelEntry := do
  let [name, line, data, nodes] ← record? ["name", "line", "data", "nodes"] v | none
  return {
    name := ← required? Value.text? name
    line := ← optional? Value.line? line
    data := ← required? (Value.listOf? DataEntry.read?) data
    nodes := ← required? (Value.listOf? NodeEntry.read?) nodes }

def Graph.read? (v : Value) : Option Graph := do
  let [kernels] ← record? ["kernels"] v | none
  return { kernels := ← required? (Value.listOf? KernelEntry.read?) kernels }

/-- The description a text holds. -/
def Graph.ofText? (text : String) : Option Graph := (Value.ofText? text.toList).bind Graph.read?

end StencilTiling.Description
