import StencilTiling.Geometry.Expr

/-! The coordinates of one data item: an expression for every dimension,
quantity and unit, listed in that order. -/

namespace StencilTiling.Geometry

/-- Units of measure. -/
inductive Measure where
  /-- One scheduler step of the data. -/
  | grain
  /-- The output of one node execution. -/
  | block
  /-- One element. -/
  | pixel
  deriving DecidableEq, Repr

/-- Coordinate families. -/
inductive Quantity where
  /-- Start of the part's own slice. -/
  | slicePosition
  /-- Length of the part's own slice. -/
  | sliceSize
  /-- Start of the slice with its available halo. -/
  | fullSlicePosition
  /-- Length of the slice with its available halo. -/
  | fullSliceSize
  /-- Halo available before the slice. -/
  | leftExtent
  /-- Halo available after the slice. -/
  | rightExtent
  /-- Halo missing before the image. -/
  | skipBegin
  /-- Padding past the end of the image. -/
  | skipEnd
  deriving DecidableEq, Repr

def Measure.all : List Measure := [.grain, .block, .pixel]

def Measure.text : Measure → String
  | grain => "Grain"
  | block => "Block"
  | pixel => "Pix"

def Quantity.all : List Quantity :=
  [.slicePosition, .sliceSize, .fullSlicePosition, .fullSliceSize, .leftExtent, .rightExtent,
    .skipBegin, .skipEnd]

def Quantity.text : Quantity → String
  | slicePosition => "SlicePos"
  | sliceSize => "SliceSize"
  | fullSlicePosition => "FullSlicePos"
  | fullSliceSize => "FullSliceSize"
  | leftExtent => "LeftExtent"
  | rightExtent => "RightExtent"
  | skipBegin => "SkipBegin"
  | skipEnd => "SkipEnd"

/-- What a table entry measures. -/
structure Key where
  dim : Nat
  quantity : Quantity
  measure : Measure
  deriving DecidableEq, Repr

def Key.text (k : Key) : String := s!"{k.quantity.text}{k.measure.text}{k.dim}"

/-- Entries in key order. -/
structure Table where
  entries : List (Key × Expr) := []
  deriving DecidableEq, Repr

namespace Table

def size (t : Table) : Nat := t.entries.length

def get? (t : Table) (key : Key) : Option Expr := t.entries.lookup key

/-- The table with an entry for every quantity and unit of `rank` dimensions. -/
def ofFn (rank : Nat) (f : Key → Expr) : Table :=
  ⟨(List.range rank).flatMap fun dim => Quantity.all.flatMap fun quantity =>
    Measure.all.map fun measure => (⟨dim, quantity, measure⟩, f ⟨dim, quantity, measure⟩)⟩

end Table

end StencilTiling.Geometry
