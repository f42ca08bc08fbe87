import StencilTiling.Size

/-! Index windows: an inclusive span per dimension, relative to an iteration
index. Read and write patterns and stencil neighbourhoods are windows.
Dimensions past the end are the single index zero. -/

namespace StencilTiling

/-- The indices from `first` to `last`, both included. -/
structure Span where
  first : Int
  last : Int
  deriving DecidableEq, Repr, Inhabited

namespace Span

open Arith

def zero : Span := ⟨0, 0⟩

def length (s : Span) : Int := addWord (subWord s.last s.first) 1

def text (s : Span) : String := s!"{s.first}:{s.last}"

end Span

/-- One span per dimension, innermost first. -/
structure Window where
  spans : List Span
  deriving DecidableEq, Repr, Inhabited

namespace Window

open Arith

def empty : Window := ⟨[]⟩

/-- The single index zero in each of `rank` dimensions. -/
def zero (rank : Nat) : Window := ⟨List.replicate rank .zero⟩

/-- The indices covered by one stride. -/
def covering (size : Size) : Window := ⟨size.dims.map fun n => ⟨0, subWord n 1⟩⟩

/-- `-k` to `k` in each of `rank` dimensions. -/
def symmetric (rank : Nat) (k : Int) : Window := ⟨List.replicate rank ⟨negWord k, k⟩⟩

def rank (w : Window) : Nat := w.spans.length

/-- The span along `dim`; index zero past the end. -/
def span (w : Window) (dim : Nat) : Span := w.spans.getD dim .zero

def first (w : Window) (dim : Nat) : Int := (w.span dim).first

def last (w : Window) (dim : Nat) : Int := (w.span dim).last

/-- Number of indices along `dim`. -/
def length (w : Window) (dim : Nat) : Int := (w.span dim).length

/-- Some dimension ends before it begins. -/
def isEmpty (w : Window) : Bool := w.spans.any fun s => s.last < s.first

def isZero (w : Window) : Bool := w.spans.all (· == .zero)

/-- Dimension by dimension, at least up to `rank`. -/
def mapUpTo (w : Window) (rank : Nat) (f : Nat → Span → Span) : Window :=
  ⟨(List.range (max w.rank rank)).map fun d => f d (w.span d)⟩

/-- The smallest window covering both. -/
def union (a b : Window) : Window :=
  a.mapUpTo b.rank fun d s => ⟨min s.first (b.first d), max s.last (b.last d)⟩

/-- Minkowski sum. -/
def add (a b : Window) : Window :=
  a.mapUpTo b.rank fun d s => ⟨addWord s.first (b.first d), addWord s.last (b.last d)⟩

/-- What exceeds one stride: the span keeps its start and loses a stride of its length. -/
def subSize (w : Window) (stride : Size) : Window :=
  w.mapUpTo stride.rank fun d s =>
    ⟨s.first, addWord s.first (clampNonneg (subWord s.length (stride.get d)))⟩

/-- The unit by which `grain` measures dimension `d`. -/
def unit (grain : Size) (d : Nat) : Int := max (absWord (grain.get d)) 1

/-- Both ends moved outward to multiples of the grain. -/
def inflate (w : Window) (grain : Size) : Window :=
  w.mapUpTo 0 fun d s =>
    ⟨mulWord (floorDiv s.first (unit grain d)) (unit grain d),
      mulWord (ceilDivWord s.last (unit grain d)) (unit grain d)⟩

/-- Both ends divided by the grain and rounded outward. -/
def divOutward (w : Window) (grain : Size) : Window :=
  w.mapUpTo 0 fun d s => ⟨floorDiv s.first (unit grain d), ceilDivWord s.last (unit grain d)⟩

/-- Both ends multiplied by `num / den` and rounded outward. -/
def scale (w : Window) (num den : Size) : Window :=
  w.mapUpTo 0 fun d s =>
    ⟨floorDiv (mulWord s.first (num.get d)) (max (den.get d) 1),
      ceilDivWord (mulWord s.last (num.get d)) (max (den.get d) 1)⟩

/-- The smallest symmetric window containing the ends. -/
def symmetricHull (w : Window) : Window :=
  w.mapUpTo 0 fun _ s =>
    ⟨negWord (max (negWord s.first) s.last), max (negWord s.first) s.last⟩

def text (w : Window) : String := "[" ++ ",".intercalate (w.spans.map Span.text) ++ "]"

end Window

end StencilTiling
