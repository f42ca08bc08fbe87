/-! How compute functions reach data, the pattern recorded per data item, and
the stages its analysis goes through. -/

namespace StencilTiling

/-- How a compute function indexes a buffer. -/
inductive Access where
  /-- By value: control scalars. -/
  | byValue
  /-- A whole array in place. -/
  | inPlace1
  /-- An array streamed in chunks. -/
  | chunks1
  /-- A whole image in place. -/
  | inPlace2
  /-- An image streamed as flat chunks. -/
  | chunks2
  | row
  | column
  /-- A column scan over blocks. -/
  | columnBlock
  /-- A ring of row pointers. -/
  | rowRing
  /-- A ring of column pointers. -/
  | columnRing
  deriving DecidableEq, Repr

namespace Access

def all : List Access :=
  [byValue, inPlace1, chunks1, inPlace2, chunks2, row, column, columnBlock, rowRing, columnRing]

def text : Access → String
  | byValue => "NO"
  | inPlace1 => "D1_INTRINSIC"
  | chunks1 => "D1_BY_1D_CHUNKS"
  | inPlace2 => "D2_INTRINSIC"
  | chunks2 => "D2_BY_1D_CHUNKS"
  | row => "D2_BY_ROW"
  | column => "D2_BY_COLUMN"
  | columnBlock => "D2_BY_COLUMN_2D_BLOCK"
  | rowRing => "D2_BY_ROW_CIRCULAR_BUFFER"
  | columnRing => "D2_BY_COLUMN_CIRCULAR_BUFFER"

def ofText? (s : String) : Option Access := all.find? (·.text == s)

def isInPlace : Access → Bool
  | inPlace1 | inPlace2 => true
  | _ => false

def isRing : Access → Bool
  | rowRing | columnRing => true
  | _ => false

/-- Backed by a local scratch buffer. -/
def isBuffered (a : Access) : Bool := a != byValue && !a.isInPlace

/-- The ring form of a line access. -/
def ring? : Access → Option Access
  | row | rowRing => some rowRing
  | column | columnRing => some columnRing
  | _ => none

end Access

/-- Progress of the analysis of one data item. -/
inductive Stage where
  | unscheduled
  | scheduled
  | patternAssigned
  | slotSized
  | geometryResolved
  deriving DecidableEq, Repr

def Stage.text : Stage → String
  | unscheduled => "UNSCHEDULED"
  | scheduled => "SCHEDULED"
  | patternAssigned => "PATTERN_ASSIGNED"
  | slotSized => "SLOT_SIZED"
  | geometryResolved => "GEOMETRY_RESOLVED"

/-- Access type, pipeline cycle and buffer slots of a data item; no slots until they are sized. -/
structure Pattern where
  access : Access := .row
  cycle : Option Nat := none
  slots : Nat := 0
  deriving DecidableEq, Repr

namespace Pattern

def hasAccess (p : Pattern) : Bool := p.access != .byValue

def isScheduled (p : Pattern) : Bool := p.cycle.isSome

def text (p : Pattern) : String :=
  let cycle := match p.cycle with
    | some c => toString c
    | none => "-1"
  s!" {p.access.text} sched={cycle} slots={p.slots}"

end Pattern

end StencilTiling
