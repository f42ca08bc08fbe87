import StencilTiling.Kernel.Navigate

/-! The invariants the scheduler relies on: every item is an input or produced,
iterative items share one rank, strides are positive and have the rank of the
output, writes cover the output stride, reads are windows of iterative data at
least one input stride wide, and controls are scalars. Cycles are not looked
for here. -/

namespace StencilTiling.Kernel

def checkOrphan (k : Kernel) (d : DataItem) : Except KernelError Unit :=
  ensure (d.role = .input ∨ d.producer.isSome = true) (.orphan k.name d.name)

def checkRank (k : Kernel) (d : DataItem) : Except KernelError Unit :=
  ensure (d.rank = k.rank) (.mixedRanks k.name d.name k.rank d.rank)

def checkStride (k : Kernel) (n : Node) (rank : Nat) (side : StrideSide) (stride : Size) :
    Except KernelError Unit := do
  ensure (stride.rank = rank) (.strideRank n.name side rank stride.rank)
  ensure (∀ s ∈ stride.dims, 0 < s) (.invalidStride k.name n.name side stride)

/-- The write window holds every index of one output stride. -/
def checkWrite (k : Kernel) (n : Node) (rank : Nat) : Except KernelError Unit :=
  ensure (n.write.rank = rank ∧ ∀ d < rank, n.write.first d ≤ 0 ∧ n.outStride.get d - 1 ≤ n.write.last d)
    (.invalidWrite k.name n.name n.write n.outStride)

def checkControl (k : Kernel) (n : Node) (d : DataItem) : Except KernelError Unit :=
  ensure (d.iterative = false) (.iterativeControl k.name n.name d.name)

def checkRead (k : Kernel) (n : Node) (source : DataItem) (read : Window) : Except KernelError Unit := do
  let flaw (f : ReadFlaw) : KernelError := .invalidRead k.name n.name source.name f
  ensure (source.iterative = true) (.scalarInput k.name n.name source.name)
  ensure (read.rank = source.rank) (flaw (.rank read source.rank))
  ensure (read.isEmpty = false) (flaw (.empty read))
  (List.range read.rank).forM fun d =>
    ensure (n.inStride.get d ≤ read.length d) (flaw (.narrow read (n.inStride.get d) d))

def checkNode (k : Kernel) (n : Node) : Except KernelError Unit :=
  match k.data[n.output]? with
  | none => .ok ()
  | some output => do
    k.checkStride n output.rank .input n.inStride
    k.checkStride n output.rank .output n.outStride
    k.checkWrite n output.rank
    (n.controls.filterMap (k.data[·]?)).forM (k.checkControl n)
    (k.inputEdges n).forM fun e => match k.data[e.source]? with
      | none => .ok ()
      | some source => k.checkRead n source e.read

/-- The first broken invariant, if any. -/
def validate (k : Kernel) : Except KernelError Unit := do
  k.data.forM k.checkOrphan
  k.iterativeData.forM k.checkRank
  k.nodes.forM k.checkNode

end StencilTiling.Kernel
