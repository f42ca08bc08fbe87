import StencilTiling.Environment
import StencilTiling.Granularity
import StencilTiling.Size
import StencilTiling.Text.Blank
import StencilTiling.Text.Integer

/-! What a user chooses about the tiling: mode, scan order, work-group shape and
a fixed tile. -/

namespace StencilTiling

structure TilingConfig where
  mode : Granularity := .wholeImage
  scan : ScanOrder := .rows
  /-- The device's compute units unless given. -/
  workGroups : Option Nat := none
  /-- The unit's compute elements unless given. -/
  workItems : Option Nat := none
  /-- External tile in pixels; fitted to the local memory unless given. -/
  tile : Option Size := none
  deriving DecidableEq, Repr

namespace TilingConfig

/-- A configuration in which counts of zero say nothing. -/
def ofChoices (mode : Granularity) (scan : ScanOrder) (workGroups workItems : Option Nat)
    (tile : Option Size) : TilingConfig :=
  ⟨mode, scan, workGroups.filter (0 < ·), workItems.filter (0 < ·), tile⟩

/-- Reads positive pixel counts separated by an `x` of either case, innermost first. -/
def parseTile? (text : String) : Option Size :=
  let sizes := (Text.splitAt (fun c => c == 'x' || c == 'X') text.toList).mapM fun piece =>
    (Text.readInt? (Text.trim piece)).filter (0 < ·)
  sizes.map Size.mk

/-- The choices a run makes through its environment. -/
def ofEnvironment (env : Environment) : TilingConfig :=
  let count (name : String) : Option Nat := (env.get? name).bind fun s => Text.readNat? s.toList
  ofChoices (((env.get? "KGEN_GRANULARITY").bind Granularity.ofText?).getD .wholeImage)
    (((env.get? "KGEN_SCAN_ORDER").bind ScanOrder.ofText?).getD .rows)
    (count "KGEN_NB_WG") (count "KGEN_NB_WI") ((env.get? "KGEN_TILE").bind parseTile?)

/-- The external tile is given rather than fitted. -/
def isFixedTile (c : TilingConfig) : Bool := c.mode == .externalTiling && c.tile.isSome

end TilingConfig

end StencilTiling
