import Mathlib.Data.List.Nodup
import StencilTiling.Kernel.Build
import StencilTiling.Kernel.ControlParams
import StencilTiling.Proofs.Checked
import StencilTiling.Proofs.Kernel.Arena

/-! The kernels that construction can reach, and that their arenas are consistent.
Between construction steps an analysis may write whatever it likes on the kernel;
the graph stays. -/

namespace StencilTiling.Kernel

/-! ### The graph of a kernel -/

/-- The kernels differ at most in what an analysis writes. -/
structure SameGraph (k k' : Kernel) : Prop where
  name : k'.name = k.name
  edges : k'.edges = k.edges
  inputs : k'.inputs = k.inputs
  nodes : k'.nodes.map Node.bare = k.nodes.map Node.bare
  data : k'.data.map DataItem.reset = k.data.map DataItem.reset

/-- One step of construction. -/
inductive Declaration where
  | input (name : String) (elem : ElemType) (shape : Shape)
  | control (name : String) (elem : ElemType)
  | data (name : String) (elem : ElemType) (shape : Shape)
  | output (name : String) (elem : ElemType) (shape : Shape)
  | markOutput (data : DataId)
  | locate (data : DataId) (location : Location)
  | node (numbering : Numbering) (decl : NodeDecl)
  | edge (target : NodeId) (input : NodeInput)

/-- The kernel with one more declaration. -/
def declare (k : Kernel) : Declaration → Except KernelError Kernel
  | .input name elem shape => Prod.snd <$> k.addInput name elem shape
  | .control name elem => Prod.snd <$> k.addControl name elem
  | .data name elem shape => Prod.snd <$> k.addData name elem shape
  | .output name elem shape => Prod.snd <$> k.addOutput name elem shape
  | .markOutput d => k.markOutput d
  | .locate d location => .ok (k.locate d location)
  | .node numbering decl => (·.2.1) <$> k.addNode numbering decl
  | .edge target input => Prod.snd <$> k.addEdge target input

/-- What construction, with analyses in between, can make of an empty kernel. -/
inductive Built : Kernel → Prop
  | empty (name : String) (location : Option Location) : Built { name, location }
  | declare {k k' : Kernel} {d : Declaration} : Built k → k.declare d = .ok k' → Built k'
  | annotated {k k' : Kernel} : Built k → SameGraph k k' → Built k'

/-- A run of declarations. -/
theorem Built.foldlM {ds : List Declaration} {k k' : Kernel} (h : k.Built)
    (hk : ds.foldlM Kernel.declare k = .ok k') : k'.Built :=
  foldlM_invariant (fun _ _ _ _ hb hd => hb.declare hd) h hk

/-- The kernel of a list of declarations; empty if one of them is refused. -/
def ofDeclarations (name : String) (ds : List Declaration) : Kernel :=
  (ds.foldlM Kernel.declare { name }).toOption.getD { name }

theorem built_ofDeclarations (name : String) (ds : List Declaration) : (ofDeclarations name ds).Built := by
  unfold ofDeclarations
  cases h : ds.foldlM Kernel.declare { name } with
  | error e => exact .empty name none
  | ok k => exact Built.foldlM (.empty name none) h

namespace SameGraph

variable {k k' k'' : Kernel}

theorem trans (h : SameGraph k k') (h' : SameGraph k' k'') : SameGraph k k'' :=
  ⟨h'.name.trans h.name, h'.edges.trans h.edges, h'.inputs.trans h.inputs,
    h'.nodes.trans h.nodes, h'.data.trans h.data⟩

theorem symm (h : SameGraph k k') : SameGraph k' k :=
  ⟨h.name.symm, h.edges.symm, h.inputs.symm, h.nodes.symm, h.data.symm⟩

/-- Every item has a counterpart with the same declaration. -/
theorem exists_item (h : SameGraph k k') {i : DataId} {d' : DataItem} (hd : k'.data[i]? = some d') :
    ∃ d note, k.data[i]? = some d ∧ d' = { d with note } := by
  obtain ⟨d, hd, hr⟩ := exists_getElem?_of_map_eq h.data hd
  exact ⟨d, d'.note, hd, (congrArg (fun x : DataItem => { x with note := d'.note }) hr).symm⟩

/-- Every node has a counterpart with the same declaration. -/
theorem exists_node (h : SameGraph k k') {i : NodeId} {n' : Node} (hn : k'.nodes[i]? = some n') :
    ∃ n params, k.nodes[i]? = some n ∧ n' = { n with params } := by
  obtain ⟨n, hn, hb⟩ := exists_getElem?_of_map_eq h.nodes hn
  exact ⟨n, n'.params, hn, (congrArg (fun x : Node => { x with params := n'.params }) hb).symm⟩

end SameGraph

theorem sameGraph_reset (k : Kernel) : SameGraph k k.reset where
  name := rfl
  edges := rfl
  inputs := rfl
  nodes := rfl
  data := by simp [reset, DataItem.reset, Function.comp_def]

theorem length_foldl_takeParams (k : Kernel) (nodes : List Node) (params : List (List DataId)) :
    (nodes.foldl k.takeParams params).length = params.length := by
  induction nodes generalizing params with
  | nil => rfl
  | cons n rest ih => rw [List.foldl_cons, ih, takeParams, List.length_modify]

/-- Rounds never change the number of parameter sets. -/
theorem length_settleParams (k : Kernel) (fuel : Nat) (params : List (List DataId)) :
    (k.settleParams fuel params).length = params.length := by
  induction fuel generalizing params with
  | zero => rfl
  | succ fuel ih =>
    rw [settleParams]
    split_ifs
    · rfl
    · rw [ih, paramsRound, length_foldl_takeParams]

theorem sameGraph_deriveParams (k : Kernel) : SameGraph k k.deriveParams where
  name := rfl
  edges := rfl
  inputs := rfl
  nodes := by
    have hlen := k.length_settleParams k.nodes.length (k.nodes.map k.ownParams)
    simp only [deriveParams, List.map_zipWith]
    refine List.ext_getElem (by simp [hlen]) fun i h₁ h₂ => ?_
    simp [Node.bare]
  data := rfl

/-! ### Links -/

/-- What consistency is about in a data item. -/
structure DataLinks where
  id : DataId
  isInput : Bool
  iterative : Bool
  producer : Option NodeId
  users : List EdgeId

/-- What consistency is about in a node. -/
structure NodeLinks where
  id : NodeId
  inputs : List EdgeId
  controls : List DataId
  output : DataId

def dataLinks (d : DataItem) : DataLinks := ⟨d.id, d.isInput, d.iterative, d.producer, d.users⟩

def nodeLinks (n : Node) : NodeLinks := ⟨n.id, n.inputs, n.controls, n.output⟩

/-- Identifiers and roles decide the list of parameters. -/
theorem inputs_congr {data data' : List DataItem}
    (h : data'.map (fun d => (d.id, d.isInput)) = data.map fun d => (d.id, d.isInput)) :
    (data'.filter (·.isInput)).map DataItem.id = (data.filter (·.isInput)).map DataItem.id := by
  have hlist : ∀ data : List DataItem, (data.filter (·.isInput)).map DataItem.id =
      ((data.map fun d => (d.id, d.isInput)).filter Prod.snd).map Prod.fst := by
    intro data
    simp only [List.filter_map, List.map_map]
    rfl
  rw [hlist, h, ← hlist]

/-- Consistency depends on the links alone. -/
theorem WellFormed.of_links {k k' : Kernel} (h : k.WellFormed)
    (hdata : k'.data.map dataLinks = k.data.map dataLinks)
    (hnodes : k'.nodes.map nodeLinks = k.nodes.map nodeLinks) (hedges : k'.edges = k.edges)
    (hinputs : k'.inputs = k.inputs) : k'.WellFormed := by
  have hlen : k'.data.length = k.data.length := by simpa using congrArg List.length hdata
  have hlen' : k'.nodes.length = k.nodes.length := by simpa using congrArg List.length hnodes
  constructor
  case data_id =>
    intro i d' hd'
    obtain ⟨d, hd, hl⟩ := exists_getElem?_of_map_eq hdata hd'
    exact (congrArg DataLinks.id hl).symm.trans (h.data_id hd)
  case node_id =>
    intro i n' hn'
    obtain ⟨n, hn, hl⟩ := exists_getElem?_of_map_eq hnodes hn'
    exact (congrArg NodeLinks.id hl).symm.trans (h.node_id hn)
  case edge_id => exact fun he => h.edge_id (hedges ▸ he)
  case inputs_eq =>
    have := congrArg (List.map fun l => (l.id, l.isInput)) hdata
    rw [List.map_map, List.map_map] at this
    rw [hinputs, h.inputs_eq]
    exact (inputs_congr this).symm
  case input_of_control =>
    intro i d' hd' hc
    obtain ⟨d, hd, hl⟩ := exists_getElem?_of_map_eq hdata hd'
    have hr := h.input_of_control hd ((congrArg DataLinks.iterative hl).trans hc)
    have := (congrArg DataLinks.isInput hl).symm
    simpa [dataLinks, DataItem.isInput, hr] using this
  case output_lt =>
    intro i n' hn'
    obtain ⟨n, hn, hl⟩ := exists_getElem?_of_map_eq hnodes hn'
    have : n.output = n'.output := congrArg NodeLinks.output hl
    rw [← this, hlen]
    exact h.output_lt hn
  case producer_iff =>
    intro i d' hd' m
    obtain ⟨d, hd, hl⟩ := exists_getElem?_of_map_eq hdata hd'
    rw [show d'.producer = d.producer from (congrArg DataLinks.producer hl).symm, h.producer_iff hd]
    constructor
    · rintro ⟨n, hn, ho⟩
      obtain ⟨n', hn', hl⟩ := exists_getElem?_of_map_eq hnodes.symm hn
      exact ⟨n', hn', (congrArg NodeLinks.output hl).trans ho⟩
    · rintro ⟨n', hn', ho⟩
      obtain ⟨n, hn, hl⟩ := exists_getElem?_of_map_eq hnodes hn'
      exact ⟨n, hn, (congrArg NodeLinks.output hl).trans ho⟩
  case produced =>
    intro i d' m hd' hp
    obtain ⟨d, hd, hl⟩ := exists_getElem?_of_map_eq hdata hd'
    obtain ⟨hi, hr⟩ := h.produced hd ((congrArg DataLinks.producer hl).trans hp)
    have := (congrArg DataLinks.isInput hl).symm
    exact ⟨(congrArg DataLinks.iterative hl).symm.trans hi, by
      simpa [dataLinks, DataItem.isInput, hr] using this⟩
  case source_lt => exact fun he => hlen ▸ h.source_lt (hedges ▸ he)
  case target_lt => exact fun he => hlen' ▸ h.target_lt (hedges ▸ he)
  case control_lt =>
    intro i n' hn'
    obtain ⟨n, hn, hl⟩ := exists_getElem?_of_map_eq hnodes hn'
    rw [← show n.controls = n'.controls from congrArg NodeLinks.controls hl, hlen]
    exact h.control_lt hn
  case users_eq =>
    intro i d' hd'
    obtain ⟨d, hd, hl⟩ := exists_getElem?_of_map_eq hdata hd'
    rw [hedges]
    exact (congrArg DataLinks.users hl).symm.trans (h.users_eq hd)
  case reads_eq =>
    intro i n' hn'
    obtain ⟨n, hn, hl⟩ := exists_getElem?_of_map_eq hnodes hn'
    rw [hedges]
    exact (congrArg NodeLinks.inputs hl).symm.trans (h.reads_eq hn)

theorem WellFormed.of_sameGraph {k k' : Kernel} (h : k.WellFormed) (hs : SameGraph k k') :
    k'.WellFormed := by
  have hdata := congrArg (List.map dataLinks) hs.data
  have hnodes := congrArg (List.map nodeLinks) hs.nodes
  rw [List.map_map, List.map_map] at hdata hnodes
  exact h.of_links hdata hnodes hs.edges hs.inputs

/-! ### Data -/

theorem wellFormed_empty (name : String) (location : Option Location) :
    WellFormed { name, location } := by
  constructor <;> simp

/-- Appending an unlinked item keeps the links; its role decides whether it is listed. -/
theorem WellFormed.append {k : Kernel} (h : k.WellFormed) {d : DataItem} (hid : d.id = k.data.length)
    (hp : d.producer = none) (hu : d.users = []) (hc : d.iterative = false → d.role = .input) :
    WellFormed { k with
      data := k.data ++ [d]
      inputs := k.inputs ++ (if d.role = .input then [d.id] else []) } := by
  have hlen : k.data.length ≤ (k.data ++ [d]).length := by simp
  constructor
  case data_id =>
    intro i d' hd
    rcases getElem?_concat hd with hd | ⟨rfl, rfl⟩
    · exact h.data_id hd
    · exact hid
  case node_id => exact h.node_id
  case edge_id => exact h.edge_id
  case inputs_eq =>
    rw [h.inputs_eq]
    by_cases hr : d.role = .input <;> simp [DataItem.isInput, hr]
  case input_of_control =>
    intro i d' hd
    rcases getElem?_concat hd with hd | ⟨rfl, rfl⟩
    · exact h.input_of_control hd
    · exact hc
  case output_lt => exact fun hn => Nat.lt_of_lt_of_le (h.output_lt hn) hlen
  case producer_iff =>
    intro i d' hd m
    rcases getElem?_concat hd with hd | ⟨rfl, rfl⟩
    · exact h.producer_iff hd m
    · rw [hp]
      refine iff_of_false (by simp) ?_
      rintro ⟨n, hn, ho⟩
      exact Nat.ne_of_lt (h.output_lt hn) ho
  case produced =>
    intro i d' m hd hm
    rcases getElem?_concat hd with hd | ⟨rfl, rfl⟩
    · exact h.produced hd hm
    · simp [hp] at hm
  case source_lt => exact fun he => Nat.lt_of_lt_of_le (h.source_lt he) hlen
  case target_lt => exact h.target_lt
  case control_lt => exact fun hn c hc => Nat.lt_of_lt_of_le (h.control_lt hn c hc) hlen
  case users_eq =>
    intro i d' hd
    rcases getElem?_concat hd with hd | ⟨rfl, rfl⟩
    · exact h.users_eq hd
    · rw [hu, h.edges_from_next]
      rfl
  case reads_eq => exact h.reads_eq

theorem WellFormed.pushData {k k' : Kernel} (h : k.WellFormed) {name : String} {elem : ElemType}
    {shape : Shape} {iterative : Bool} {role : Role} {d : DataId} (hc : iterative = true)
    (hr : role ≠ .input) (hk : k.pushData name elem shape iterative role = .ok (d, k')) :
    k'.WellFormed := by
  unfold Kernel.pushData at hk
  split_ifs at hk
  obtain ⟨rfl, rfl⟩ : _ ∧ _ := by simpa using hk
  have := h.append (d := { id := k.data.length, name, elem, shape, iterative, role })
    rfl rfl rfl (by simp [hc])
  simpa [hr] using this

theorem WellFormed.pushInput {k k' : Kernel} (h : k.WellFormed) {name : String} {elem : ElemType}
    {shape : Shape} {iterative : Bool} {d : DataId}
    (hk : k.pushInput name elem shape iterative = .ok (d, k')) : k'.WellFormed := by
  unfold Kernel.pushInput Kernel.pushData at hk
  split_ifs at hk
  · simp [bind, Except.bind] at hk
  · simp only [bind, Except.bind, pure, Except.pure, Except.ok.injEq, Prod.mk.injEq] at hk
    obtain ⟨rfl, rfl⟩ := hk
    exact h.append (d := { id := k.data.length, name, elem, shape, iterative, role := .input })
      rfl rfl rfl (fun _ => rfl)

theorem WellFormed.locate {k : Kernel} (h : k.WellFormed) (d : DataId) (location : Location) :
    (k.locate d location).WellFormed :=
  h.of_links (map_modify_of_eq (f := fun item => { item with location := some location })
    (fun _ => rfl) k.data d) rfl rfl rfl

theorem WellFormed.markOutput {k k' : Kernel} (h : k.WellFormed) {d : DataId}
    (hk : k.markOutput d = .ok k') : k'.WellFormed := by
  unfold Kernel.markOutput at hk
  split at hk
  · cases hk
  · next item hitem =>
    obtain rfl := Except.ok.inj hk
    split_ifs with hr
    · refine h.of_links (map_set_of_eq hitem ?_) rfl rfl rfl
      simp [dataLinks, DataItem.isInput, hr]
    · exact h

/-! ### Nodes and edges -/

/-- The items after an edge was appended: its source has one more user. -/
theorem data_pushEdge {k : Kernel} {target : NodeId} {input : NodeInput} {i : DataId} {d' : DataItem}
    (hd' : (k.pushEdge target input).data[i]? = some d') : ∃ d, k.data[i]? = some d ∧
      d' = { d with users := d.users ++ if input.source = i then [k.edges.length] else [] } := by
  simp only [Kernel.pushEdge, List.getElem?_modify] at hd'
  obtain ⟨d, hd, rfl⟩ := Option.map_eq_some_iff.mp hd'
  exact ⟨d, hd, by by_cases hi : input.source = i <;> simp [hi]⟩

/-- The nodes after an edge was appended: its target has one more read. -/
theorem nodes_pushEdge {k : Kernel} {target : NodeId} {input : NodeInput} {i : NodeId} {n' : Node}
    (hn' : (k.pushEdge target input).nodes[i]? = some n') : ∃ n, k.nodes[i]? = some n ∧
      n' = { n with inputs := n.inputs ++ if target = i then [k.edges.length] else [] } := by
  simp only [Kernel.pushEdge, List.getElem?_modify] at hn'
  obtain ⟨n, hn, rfl⟩ := Option.map_eq_some_iff.mp hn'
  exact ⟨n, hn, by by_cases hi : target = i <;> simp [hi]⟩

/-- Appending an edge and linking it at both ends. -/
theorem WellFormed.pushEdge {k : Kernel} (h : k.WellFormed) {target : NodeId} {input : NodeInput}
    (ht : target < k.nodes.length) (hs : input.source < k.data.length) :
    (k.pushEdge target input).WellFormed := by
  have hlen : (k.pushEdge target input).data.length = k.data.length := List.length_modify ..
  have hlen' : (k.pushEdge target input).nodes.length = k.nodes.length := List.length_modify ..
  constructor
  case data_id =>
    intro i d' hd'
    obtain ⟨d, hd, rfl⟩ := data_pushEdge hd'
    exact (h.data_id hd :)
  case node_id =>
    intro i n' hn'
    obtain ⟨n, hn, rfl⟩ := nodes_pushEdge hn'
    exact (h.node_id hn :)
  case edge_id =>
    intro i e' he'
    rcases getElem?_concat he' with he' | ⟨rfl, rfl⟩
    · exact h.edge_id he'
    · rfl
  case inputs_eq =>
    refine h.inputs_eq.trans (inputs_congr ?_).symm
    exact map_modify_of_eq (f := fun d => { d with users := d.users ++ [k.edges.length] })
      (g := fun d : DataItem => (d.id, d.isInput)) (fun _ => rfl) k.data input.source
  case input_of_control =>
    intro i d' hd'
    obtain ⟨d, hd, rfl⟩ := data_pushEdge hd'
    exact (h.input_of_control hd :)
  case output_lt =>
    intro i n' hn'
    obtain ⟨n, hn, rfl⟩ := nodes_pushEdge hn'
    rw [hlen]
    exact (h.output_lt hn :)
  case producer_iff =>
    intro i d' hd' m
    obtain ⟨d, hd, rfl⟩ := data_pushEdge hd'
    have hnodes : (k.pushEdge target input).nodes.map Node.output = k.nodes.map Node.output :=
      map_modify_of_eq (f := fun n => { n with inputs := n.inputs ++ [k.edges.length] })
        (fun _ => rfl) k.nodes target
    rw [h.producer_iff hd]
    constructor
    · rintro ⟨n, hn, ho⟩
      obtain ⟨n', hn', heq⟩ := exists_getElem?_of_map_eq hnodes.symm hn
      exact ⟨n', hn', heq.trans ho⟩
    · rintro ⟨n', hn', ho⟩
      obtain ⟨n, hn, heq⟩ := exists_getElem?_of_map_eq hnodes hn'
      exact ⟨n, hn, heq.trans ho⟩
  case produced =>
    intro i d' m hd' hp
    obtain ⟨d, hd, rfl⟩ := data_pushEdge hd'
    exact (h.produced hd hp :)
  case source_lt =>
    intro i e' he'
    rw [hlen]
    rcases getElem?_concat he' with he' | ⟨rfl, rfl⟩
    · exact h.source_lt he'
    · exact hs
  case target_lt =>
    intro i e' he'
    rw [hlen']
    rcases getElem?_concat he' with he' | ⟨rfl, rfl⟩
    · exact h.target_lt he'
    · exact ht
  case control_lt =>
    intro i n' hn'
    obtain ⟨n, hn, rfl⟩ := nodes_pushEdge hn'
    rw [hlen]
    exact (h.control_lt hn :)
  case users_eq =>
    intro i d' hd'
    obtain ⟨d, hd, rfl⟩ := data_pushEdge hd'
    show d.users ++ _ = ((k.edges ++ [_]).filter _).map _
    rw [List.filter_append, List.map_append, ← h.users_eq hd]
    by_cases hi : input.source = i <;> simp [hi]
  case reads_eq =>
    intro i n' hn'
    obtain ⟨n, hn, rfl⟩ := nodes_pushEdge hn'
    show n.inputs ++ _ = ((k.edges ++ [_]).filter _).map _
    rw [List.filter_append, List.map_append, ← h.reads_eq hn]
    by_cases hi : target = i <;> simp [hi]

section PushNode

variable {k : Kernel} {decl : NodeDecl} {uid : Nat} {symbol : String} {rank : Nat}

/-- The items after a node was appended: its output names it as the producer. -/
theorem data_pushNode {i : DataId} {d' : DataItem}
    (hd' : (k.pushNode decl uid symbol rank).data[i]? = some d') : ∃ d, k.data[i]? = some d ∧
      d' = { d with producer := if decl.output = i then some k.nodes.length else d.producer } := by
  simp only [Kernel.pushNode, List.getElem?_modify] at hd'
  obtain ⟨d, hd, rfl⟩ := Option.map_eq_some_iff.mp hd'
  exact ⟨d, hd, by by_cases hi : decl.output = i <;> simp [hi]⟩

/-- The nodes after a node was appended. -/
theorem nodes_pushNode {i : NodeId} {n' : Node}
    (hn : (k.pushNode decl uid symbol rank).nodes[i]? = some n') :
    k.nodes[i]? = some n' ∨
      i = k.nodes.length ∧ n'.id = i ∧ n'.output = decl.output ∧ n'.inputs = [] ∧
        n'.controls = decl.controls := by
  rcases getElem?_concat hn with hn | ⟨rfl, rfl⟩
  · exact .inl hn
  · exact .inr ⟨rfl, rfl, rfl, rfl, rfl⟩

/-- The writers of an item after a node was appended. -/
theorem exists_writer_pushNode {i : DataId} {m : NodeId} :
    (∃ n, (k.pushNode decl uid symbol rank).nodes[m]? = some n ∧ n.output = i) ↔
      (∃ n, k.nodes[m]? = some n ∧ n.output = i) ∨ m = k.nodes.length ∧ decl.output = i := by
  constructor
  · rintro ⟨n', hn', ho⟩
    rcases nodes_pushNode hn' with hn | ⟨hm, -, hout, -⟩
    · exact .inl ⟨n', hn, ho⟩
    · exact .inr ⟨hm, hout.symm.trans ho⟩
  · rintro (⟨n, hn, ho⟩ | ⟨rfl, ho⟩)
    · refine ⟨n, ?_, ho⟩
      rw [Kernel.pushNode, List.getElem?_append_left (List.getElem?_eq_some_iff.mp hn).1]
      exact hn
    · exact ⟨_, List.getElem?_concat_length, ho⟩

/-- Appending a node without reads and making it the producer of an item that has none. -/
theorem WellFormed.pushNode (h : k.WellFormed) {output : DataItem}
    (hout : k.data[decl.output]? = some output) (hp : output.producer = none)
    (hr : output.role ≠ .input) (hi : output.iterative = true)
    (hc : ∀ c ∈ decl.controls, c < k.data.length) (uid : Nat) (symbol : String)
    (rank : Nat) : (k.pushNode decl uid symbol rank).WellFormed := by
  have hlen : (k.pushNode decl uid symbol rank).data.length = k.data.length := List.length_modify ..
  have hlen' : k.nodes.length ≤ (k.pushNode decl uid symbol rank).nodes.length := by
    simp [Kernel.pushNode]
  constructor
  case data_id =>
    intro i d' hd'
    obtain ⟨d, hd, rfl⟩ := data_pushNode hd'
    exact (h.data_id hd :)
  case node_id =>
    intro i n' hn'
    rcases nodes_pushNode hn' with hn | ⟨-, hid, -⟩
    · exact h.node_id hn
    · exact hid
  case edge_id => exact h.edge_id
  case inputs_eq =>
    refine h.inputs_eq.trans (inputs_congr ?_).symm
    exact map_modify_of_eq (f := fun d => { d with producer := some k.nodes.length })
      (g := fun d : DataItem => (d.id, d.isInput)) (fun _ => rfl) k.data decl.output
  case input_of_control =>
    intro i d' hd'
    obtain ⟨d, hd, rfl⟩ := data_pushNode hd'
    exact (h.input_of_control hd :)
  case output_lt =>
    intro i n' hn'
    rw [hlen]
    rcases nodes_pushNode hn' with hn | ⟨-, -, ho, -⟩
    · exact h.output_lt hn
    · rw [ho]
      exact (List.getElem?_eq_some_iff.mp hout).1
  case producer_iff =>
    intro i d' hd' m
    obtain ⟨d, hd, rfl⟩ := data_pushNode hd'
    rw [exists_writer_pushNode, ← h.producer_iff hd]
    by_cases ho : decl.output = i
    · -- no node wrote the item before, so the new one is its only producer
      subst ho
      obtain rfl : d = output := Option.some.inj (hd.symm.trans hout)
      simp [hp, eq_comm]
    · simp [ho]
  case produced =>
    intro i d' m hd' hm
    obtain ⟨d, hd, rfl⟩ := data_pushNode hd'
    by_cases ho : decl.output = i
    · subst ho
      obtain rfl : d = output := Option.some.inj (hd.symm.trans hout)
      exact ⟨hi, hr⟩
    · simp only [ho, ↓reduceIte] at hm
      exact (h.produced hd hm :)
  case source_lt => exact fun he => hlen ▸ h.source_lt he
  case target_lt => exact fun he => Nat.lt_of_lt_of_le (h.target_lt he) hlen'
  case control_lt =>
    intro i n' hn'
    rw [hlen]
    rcases nodes_pushNode hn' with hn | ⟨-, -, -, -, hcontrols⟩
    · exact h.control_lt hn
    · rw [hcontrols]
      exact hc
  case users_eq =>
    intro i d' hd'
    obtain ⟨d, hd, rfl⟩ := data_pushNode hd'
    exact (h.users_eq hd :)
  case reads_eq =>
    intro i n' hn'
    rcases nodes_pushNode hn' with hn | ⟨rfl, -, -, hreads, -⟩
    · exact h.reads_eq hn
    · rw [hreads]
      exact (congrArg (List.map Edge.id) h.edges_to_next).symm

end PushNode

/-- Edges can be appended one after the other. -/
theorem WellFormed.foldl_pushEdge {target : NodeId} (inputs : List NodeInput) {k : Kernel}
    (h : k.WellFormed) (ht : target < k.nodes.length)
    (hs : ∀ i ∈ inputs, i.source < k.data.length) :
    (inputs.foldl (·.pushEdge target ·) k).WellFormed := by
  induction inputs generalizing k with
  | nil => exact h
  | cons i rest ih =>
    rw [List.foldl_cons]
    refine ih (h.pushEdge ht (hs i (by simp))) ?_ fun j hj => ?_
    · rw [Kernel.pushEdge, List.length_modify]
      exact ht
    · rw [Kernel.pushEdge, List.length_modify]
      exact hs j (by simp [hj])

theorem checkData_eq_ok {k : Kernel} {d : DataId} : k.checkData d = .ok () ↔ d < k.data.length :=
  ensure_eq_ok

theorem WellFormed.addEdge {k k' : Kernel} (h : k.WellFormed) {target : NodeId} {input : NodeInput}
    {e : EdgeId} (hk : k.addEdge target input = .ok (e, k')) : k'.WellFormed := by
  unfold Kernel.addEdge at hk
  obtain ⟨_, hs, hk⟩ := bind_eq_ok.mp hk
  obtain ⟨_, ht, hk⟩ := bind_eq_ok.mp hk
  obtain ⟨-, rfl⟩ := Prod.mk.inj (pure_eq_ok.mp hk)
  exact h.pushEdge (ensure_eq_ok.mp ht) (checkData_eq_ok.mp hs)

/-- The kernel may take a node that writes this item. -/
structure Accepts (k : Kernel) (decl : NodeDecl) (output : DataItem) : Prop where
  found : k.data[decl.output]? = some output
  unproduced : output.producer = none
  role : output.role ≠ .input
  iterative : output.iterative = true
  controls : ∀ c ∈ decl.controls, c < k.data.length
  sources : ∀ i ∈ decl.inputs, i.source < k.data.length

/-- The kernel with one more node, labelled by the numbering. -/
def withNode (k : Kernel) (decl : NodeDecl) (numbering : Numbering) (rank : Nat) : Kernel :=
  decl.inputs.foldl (·.pushEdge k.nodes.length ·)
    (k.pushNode decl numbering.node.1 (numbering.node.2.symbol decl.name).1 rank)

/-- A node is accepted, numbered and linked. -/
theorem addNode_eq_ok {k k' : Kernel} {numbering numbering' : Numbering} {decl : NodeDecl}
    {n : NodeId} (hk : k.addNode numbering decl = .ok (n, k', numbering')) :
    ∃ output, k.Accepts decl output ∧ k' = k.withNode decl numbering output.rank ∧
      numbering' = (numbering.node.2.symbol decl.name).2 := by
  unfold Kernel.addNode at hk
  split at hk
  · cases hk
  · next output hout =>
    obtain ⟨_, hfree, hk⟩ := bind_eq_ok.mp hk
    obtain ⟨_, hiter, hk⟩ := bind_eq_ok.mp hk
    obtain ⟨_, hcontrols, hk⟩ := bind_eq_ok.mp hk
    obtain ⟨_, hreads, hk⟩ := bind_eq_ok.mp hk
    obtain ⟨hp, hr⟩ := ensure_eq_ok.mp hfree
    obtain ⟨-, hk, hnumbering⟩ := by simpa only [Prod.mk.injEq] using pure_eq_ok.mp hk
    exact ⟨output, ⟨hout, hp, hr, ensure_eq_ok.mp hiter,
      fun c hc => checkData_eq_ok.mp (forM_eq_ok.mp hcontrols c hc),
      fun i hi => checkData_eq_ok.mp (forM_eq_ok.mp hreads i hi)⟩, hk.symm, hnumbering.symm⟩

theorem WellFormed.addNode {k k' : Kernel} (h : k.WellFormed) {numbering numbering' : Numbering}
    {decl : NodeDecl} {n : NodeId} (hk : k.addNode numbering decl = .ok (n, k', numbering')) :
    k'.WellFormed := by
  obtain ⟨output, haccepts, rfl, -⟩ := addNode_eq_ok hk
  refine (h.pushNode haccepts.found haccepts.unproduced haccepts.role haccepts.iterative
    haccepts.controls _ _ _).foldl_pushEdge _ ?_ fun i hi => ?_
  · simp [Kernel.pushNode]
  · rw [Kernel.pushNode, List.length_modify]
    exact haccepts.sources i hi

theorem WellFormed.declare {k k' : Kernel} (h : k.WellFormed) {d : Declaration}
    (hk : k.declare d = .ok k') : k'.WellFormed := by
  cases d with
  | input name elem shape =>
    obtain ⟨_, hadd, rfl⟩ := map_eq_ok.mp hk
    exact h.pushInput hadd
  | control name elem =>
    obtain ⟨_, hadd, rfl⟩ := map_eq_ok.mp hk
    exact h.pushInput hadd
  | data name elem shape =>
    obtain ⟨_, hadd, rfl⟩ := map_eq_ok.mp hk
    exact h.pushData rfl (by decide) hadd
  | output name elem shape =>
    obtain ⟨_, hadd, rfl⟩ := map_eq_ok.mp hk
    exact h.pushData rfl (by decide) hadd
  | markOutput d => exact h.markOutput hk
  | locate d location => exact Except.ok.inj hk ▸ h.locate d location
  | node numbering decl =>
    obtain ⟨_, hadd, rfl⟩ := map_eq_ok.mp hk
    exact h.addNode hadd
  | edge target input =>
    obtain ⟨_, hadd, rfl⟩ := map_eq_ok.mp hk
    exact h.addEdge hadd

/-! ### Declared data -/

/-- What construction does not change of an item. -/
def declaredView (d : DataItem) : DataItem :=
  { d with role := .input, location := none, producer := none, users := [] }

/-- The shape that a declaration gives. -/
def Declaration.shape : Declaration → Shape
  | .input _ _ shape | .data _ _ shape | .output _ _ shape => shape
  | _ => []

theorem declaredView_pushEdge (k : Kernel) (target : NodeId) (input : NodeInput) :
    (k.pushEdge target input).data.map declaredView = k.data.map declaredView :=
  map_modify_of_eq (f := fun d : DataItem => { d with users := d.users ++ [k.edges.length] })
    (fun _ => rfl) _ _

theorem declaredView_pushEdges (k : Kernel) (target : NodeId) (inputs : List NodeInput) :
    (inputs.foldl (·.pushEdge target ·) k).data.map declaredView = k.data.map declaredView := by
  induction inputs generalizing k with
  | nil => rfl
  | cons input rest ih => exact (ih _).trans (declaredView_pushEdge k target input)

theorem declaredView_withNode (k : Kernel) (decl : NodeDecl) (numbering : Numbering) (rank : Nat) :
    (k.withNode decl numbering rank).data.map declaredView = k.data.map declaredView :=
  (declaredView_pushEdges _ _ _).trans
    (map_modify_of_eq (f := fun d : DataItem => { d with producer := some k.nodes.length })
      (fun _ => rfl) _ _)

/-- A new item has a name that no other item has. -/
theorem pushData_eq_ok {k k' : Kernel} {name : String} {elem : ElemType} {shape : Shape}
    {iterative : Bool} {role : Role} {d : DataId}
    (hk : k.pushData name elem shape iterative role = .ok (d, k')) :
    ∃ item, k' = { k with data := k.data ++ [item] } ∧ item.shape = shape ∧
      item.name ∉ k.data.map DataItem.name := by
  unfold Kernel.pushData at hk
  split_ifs at hk with hfound
  obtain ⟨-, rfl⟩ := Prod.mk.inj (Except.ok.inj hk)
  refine ⟨_, rfl, rfl, ?_⟩
  simpa [findData?] using hfound

theorem pushInput_eq_ok {k k' : Kernel} {name : String} {elem : ElemType} {shape : Shape}
    {iterative : Bool} {d : DataId} (hk : k.pushInput name elem shape iterative = .ok (d, k')) :
    ∃ item, k' = { k with data := k.data ++ [item], inputs := k.inputs ++ [d] } ∧
      item.shape = shape ∧ item.name ∉ k.data.map DataItem.name := by
  obtain ⟨⟨_, k₁⟩, hpush, hk⟩ := bind_eq_ok.mp hk
  obtain ⟨rfl, rfl⟩ := Prod.mk.inj (pure_eq_ok.mp hk)
  obtain ⟨item, rfl, hitem⟩ := pushData_eq_ok hpush
  exact ⟨item, rfl, hitem⟩

/-- A declaration adds an item of its shape under a new name, or changes links and roles only. -/
theorem declare_data {k k' : Kernel} {d : Declaration} (hk : k.declare d = .ok k') :
    (∃ item, k'.data = k.data ++ [item] ∧ item.shape = d.shape ∧
      item.name ∉ k.data.map DataItem.name) ∨
      k'.data.map declaredView = k.data.map declaredView := by
  cases d with
  | input name elem shape =>
    obtain ⟨⟨_, _⟩, hadd, rfl⟩ := map_eq_ok.mp hk
    obtain ⟨item, rfl, hitem⟩ := pushInput_eq_ok hadd
    exact .inl ⟨item, rfl, hitem⟩
  | control name elem =>
    obtain ⟨⟨_, _⟩, hadd, rfl⟩ := map_eq_ok.mp hk
    obtain ⟨item, rfl, hitem⟩ := pushInput_eq_ok hadd
    exact .inl ⟨item, rfl, hitem⟩
  | data name elem shape =>
    obtain ⟨⟨_, _⟩, hadd, rfl⟩ := map_eq_ok.mp hk
    obtain ⟨item, rfl, hitem⟩ := pushData_eq_ok hadd
    exact .inl ⟨item, rfl, hitem⟩
  | output name elem shape =>
    obtain ⟨⟨_, _⟩, hadd, rfl⟩ := map_eq_ok.mp hk
    obtain ⟨item, rfl, hitem⟩ := pushData_eq_ok hadd
    exact .inl ⟨item, rfl, hitem⟩
  | markOutput i =>
    right
    simp only [declare, Kernel.markOutput] at hk
    split at hk
    · cases hk
    · next item hitem =>
      obtain rfl := Except.ok.inj hk
      split_ifs
      · exact map_set_of_eq hitem rfl
      · rfl
  | locate i location =>
    right
    obtain rfl := Except.ok.inj hk
    exact map_modify_of_eq (f := fun item : DataItem => { item with location := some location })
      (fun _ => rfl) _ _
  | node numbering decl =>
    right
    obtain ⟨_, hadd, rfl⟩ := map_eq_ok.mp hk
    obtain ⟨output, -, hk', -⟩ := addNode_eq_ok hadd
    rw [hk']
    exact declaredView_withNode k decl numbering output.rank
  | edge target input =>
    right
    obtain ⟨_, hadd, rfl⟩ := map_eq_ok.mp hk
    obtain ⟨_, -, hadd⟩ := bind_eq_ok.mp hadd
    obtain ⟨_, -, hadd⟩ := bind_eq_ok.mp hadd
    rw [← pure_eq_ok.mp hadd]
    exact declaredView_pushEdge k target input

/-! ### Built kernels -/

/-- Construction keeps the arenas consistent. -/
theorem Built.wellFormed {k : Kernel} (h : k.Built) : k.WellFormed := by
  induction h with
  | empty name location => exact wellFormed_empty name location
  | declare _ hk ih => exact ih.declare hk
  | annotated _ hs ih => exact ih.of_sameGraph hs

/-- Different items have different names. -/
theorem Built.names_nodup {k : Kernel} (h : k.Built) : (k.data.map DataItem.name).Nodup := by
  induction h with
  | empty => exact List.nodup_nil
  | @declare k k' d _ hk ih =>
    rcases declare_data hk with ⟨item, hdata, -, hfresh⟩ | hview
    · rw [hdata, List.map_append, List.map_singleton, ← List.concat_eq_append]
      exact List.Nodup.concat hfresh ih
    · have hnames := congrArg (List.map DataItem.name) hview
      rw [List.map_map, List.map_map] at hnames
      exact hnames ▸ ih
  | annotated _ hs ih =>
    have hnames := congrArg (List.map DataItem.name) hs.data
    rw [List.map_map, List.map_map] at hnames
    exact hnames ▸ ih

end StencilTiling.Kernel
