import StencilTiling.Geometry.Table
import StencilTiling.Kernel.Error

/-! What the analysis writes on a data item, and the transitions that keep the
parts in step: tiling while unscheduled, then cycle, access, slots, geometry. -/

namespace StencilTiling

/-- Tile analysis of one data item. -/
structure Tile where
  /-- Smallest tile every consumer can be fed from without partial blocks. -/
  feedGrain : Size := .empty
  /-- One scheduler step. -/
  grain : Size := .empty
  /-- Producer executions per grain. -/
  rate : Size := .empty
  /-- Halo consumers need around a grain, in whole grains. -/
  halo : Window := .empty
  /-- Union of the read windows of all consumers. -/
  reads : Window := .empty
  deriving DecidableEq, Repr

/-- Everything the analysis records about a data item. -/
structure Annotation where
  stage : Stage := .unscheduled
  pattern : Pattern := {}
  tile : Option Tile := none
  geometry : Option Geometry.Table := none
  deriving DecidableEq, Repr

/-- A pattern with its slots sized; at least one slot. -/
def Pattern.sizeSlots (p : Pattern) (slots : Nat) : Except KernelError Pattern :=
  if 1 ≤ slots then .ok { p with slots := slots } else .error .zeroSlots

namespace Annotation

/-- Tile results are taken only before a cycle is assigned. -/
def setTile (a : Annotation) (data : String) (tile : Tile) : Except KernelError Annotation :=
  if a.stage = .unscheduled then .ok { a with tile := some tile }
  else .error (.invalidTransition data a.stage .unscheduled)

def scheduleAt (a : Annotation) (data : String) (cycle : Nat) : Except KernelError Annotation :=
  if a.stage = .unscheduled then
    .ok { a with stage := .scheduled, pattern := { a.pattern with cycle := some cycle } }
  else .error (.invalidTransition data a.stage .scheduled)

/-- A new access type; on a slot-sized item it keeps the slots and drops the geometry. -/
def assignAccess (a : Annotation) (data : String) (access : Access) : Except KernelError Annotation :=
  match a.stage with
  | .unscheduled => .error (.invalidTransition data a.stage .patternAssigned)
  | .scheduled | .patternAssigned =>
    .ok { a with stage := .patternAssigned, pattern := { a.pattern with access := access } }
  | .slotSized | .geometryResolved =>
    .ok { a with stage := .slotSized, geometry := none, pattern := { a.pattern with access := access } }

def sizeSlots (a : Annotation) (data : String) (slots : Nat) : Except KernelError Annotation := do
  ensure (a.stage = .patternAssigned ∨ a.stage = .slotSized) (.invalidTransition data a.stage .slotSized)
  let pattern ← a.pattern.sizeSlots slots
  return { a with stage := .slotSized, geometry := none, pattern := pattern }

def resolve (a : Annotation) (data : String) (geometry : Geometry.Table) :
    Except KernelError Annotation :=
  if a.stage = .slotSized then .ok { a with stage := .geometryResolved, geometry := some geometry }
  else .error (.invalidTransition data a.stage .geometryResolved)

end Annotation

end StencilTiling
