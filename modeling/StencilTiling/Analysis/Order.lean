import StencilTiling.Analysis.Error

/-! The topological order of a kernel's nodes. Among the nodes whose producers
are all placed the least goes first, so declaration order is kept wherever the
dependencies allow. -/

namespace StencilTiling.Analysis

/-- Insertion into an ascending list. -/
def insertReady (n : NodeId) : List NodeId → List NodeId
  | [] => [n]
  | m :: rest => if n ≤ m then n :: m :: rest else m :: insertReady n rest

/-- Takes one pending producer off each consumer; those without any left become ready. -/
def release (pending : NodeId → Nat) (ready : List NodeId) :
    List NodeId → Except Fault ((NodeId → Nat) × List NodeId)
  | [] => .ok (pending, ready)
  | n :: rest => match pending n with
    | 0 => .error .overflow
    | left + 1 =>
      release (assign pending n left) (if left = 0 then insertReady n ready else ready) rest

/-- Places the least ready node until none is ready, at most `fuel` nodes. The
result is the order and the pending counts left over. -/
def place (successors : NodeId → List NodeId) :
    Nat → (NodeId → Nat) → List NodeId → List NodeId → Except Fault (List NodeId × (NodeId → Nat))
  | 0, pending, _, placed => .ok (placed, pending)
  | _ + 1, pending, [], placed => .ok (placed, pending)
  | fuel + 1, pending, n :: ready, placed => do
    let (pending, ready) ← release pending ready (successors n)
    place successors fuel pending ready (placed ++ [n])

/-- Consumers by node. -/
def successorsOf (k : Kernel) (n : NodeId) : List NodeId := ((k.nodes[n]?).map k.successors).getD []

/-- Number of reads of produced data by node. -/
def pendingOf (k : Kernel) (n : NodeId) : Nat := ((k.nodes[n]?).map fun m => (k.predecessors m).length).getD 0

/-- The order, or the nodes that never became ready. -/
def topologicalOrder (k : Kernel) : Except AnalysisError (List NodeId) := do
  let ready := (k.nodes.filter fun n => pendingOf k n.id = 0).map Node.id
  let (order, pending) ← ofFault (place (successorsOf k) k.nodes.length (pendingOf k) ready [])
  if order.length < k.nodes.length then
    throw (.cycle k.name ((k.nodes.filter fun n => 0 < pending n.id).map Node.name))
  return order

end StencilTiling.Analysis
