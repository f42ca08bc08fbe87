import StencilTiling.Kernel.Basic

/-! Following links: readers and producers of data, neighbours of nodes, and
the text of a kernel. Links are followed inside the arenas, with repeats and in
declaration order. -/

namespace StencilTiling.Kernel

/-- Edges reading a data item. -/
def usersOf (k : Kernel) (item : DataItem) : List Edge := item.users.filterMap (k.edges[·]?)

/-- The node producing a data item. -/
def producerOf (k : Kernel) (item : DataItem) : Option Node := item.producer.bind (k.nodes[·]?)

/-- Edges feeding a node. -/
def inputEdges (k : Kernel) (n : Node) : List Edge := n.inputs.filterMap (k.edges[·]?)

/-- Producers of what a node reads. -/
def predecessors (k : Kernel) (n : Node) : List NodeId :=
  (k.inputEdges n).filterMap fun e => (k.data[e.source]?).bind DataItem.producer

/-- Consumers of what a node produces. -/
def successors (k : Kernel) (n : Node) : List NodeId :=
  match k.data[n.output]? with
  | some output => (k.usersOf output).map Edge.target
  | none => []

/-- Nodes whose output nobody reads. -/
def sinks (k : Kernel) : List NodeId :=
  (k.nodes.filter fun n => (k.data[n.output]?).any (·.users.isEmpty)).map Node.id

/-- The name of a data item, empty when there is none. -/
def dataName (k : Kernel) (d : DataId) : String := ((k.data[d]?).map DataItem.name).getD ""

/-! ### Text -/

def nodeText (k : Kernel) (n : Node) : String :=
  let reads := ", ".intercalate ((k.inputEdges n).map fun e => k.dataName e.source ++ e.read.text)
  s!"  {k.dataName n.output} = {n.name}({reads})\n"

/-- Declarations, then one line per node. -/
def text (k : Kernel) : String :=
  let data := k.data.map fun d => s!"  {d.role.text} {d.text}\n"
  s!"kernel {k.name} \x7b\n" ++ String.join data ++ String.join (k.nodes.map k.nodeText) ++ "\x7d"

end StencilTiling.Kernel
