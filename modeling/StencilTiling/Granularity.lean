import StencilTiling.Arith

/-! Ways to cut the iteration space: granularity modes, scan orders and the
split of one dimension into parts. -/

namespace StencilTiling

/-- How the iteration space is cut. -/
inductive Granularity where
  /-- One part covers the image; data stays in global memory. -/
  | wholeImage
  /-- Tiles of a fixed size, copied to local memory. -/
  | externalTiling
  /-- The scan dimension is cut across work-groups. -/
  | workGroupSlicing
  deriving DecidableEq, Repr

namespace Granularity

def text : Granularity → String
  | wholeImage => "whole_image"
  | externalTiling => "external_tiling"
  | workGroupSlicing => "work_group_slicing"

def ofText? : String → Option Granularity
  | "image" | "whole_image" => some wholeImage
  | "tile" | "external_tiling" => some externalTiling
  | "wg" | "work_group_slicing" => some workGroupSlicing
  | _ => none

def isWholeImage (g : Granularity) : Bool := g == wholeImage

def isTiled (g : Granularity) : Bool := !g.isWholeImage

end Granularity

/-- Direction of the line pipeline. -/
inductive ScanOrder where
  | rows
  | columns
  deriving DecidableEq, Repr

namespace ScanOrder

def text : ScanOrder → String
  | rows => "rows"
  | columns => "columns"

def ofText? : String → Option ScanOrder
  | "rows" => some rows
  | "columns" => some columns
  | _ => none

/-- The pipelined dimension of data of a given rank. -/
def scanDim : ScanOrder → Nat → Nat
  | rows, rank => if 2 ≤ rank then 1 else 0
  | columns, _ => 0

end ScanOrder

/-- One dimension cut into parts of `sliceGrains` grains, the last one maybe shorter. -/
structure Partition where
  grains : Int
  sliceGrains : Int
  parts : Int
  deriving DecidableEq, Repr

namespace Partition

/-- A single part. -/
def whole (grains : Int) : Partition := ⟨grains, grains, 1⟩

/-- As many parts as slices of the given length cover; the length is at least
one grain and at most the dimension. -/
def split (grains slice : Int) : Partition :=
  let slice := if slice < 1 then 1 else min slice (max grains 1)
  ⟨grains, slice, max ((grains + slice - 1).tdiv slice) 1⟩

end Partition

end StencilTiling
