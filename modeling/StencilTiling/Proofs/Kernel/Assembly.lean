import StencilTiling.Proofs.Analysis.Order
import StencilTiling.Proofs.Analysis.Pass
import StencilTiling.Proofs.Numbering

/-! Kernels under construction that share one numbering. A request changes a kernel in
place, and a node does so step by step: it takes its numbers and is linked to its output
before the reads are added, each of which may be refused. None of them is, because all
sources were looked up before; so a request either is one declaration or changes nothing.
From this the arenas of every kernel stay coherent, and the numbers and symbols of all nodes
are different. -/

namespace StencilTiling

/-! ### Building in place -/

/-- Construction in place. A step that fails keeps what was changed before it. -/
abbrev Building := ExceptT KernelError (StateM (Kernel × Numbering))

namespace Building

/-- A checked change of the kernel. -/
def update (f : Kernel → Except KernelError Kernel) : Building Unit := fun s =>
  match f s.1 with
  | .ok k => (.ok (), (k, s.2))
  | .error e => (.error e, s)

/-- A check that changes nothing. -/
def check (f : Kernel → Except KernelError Unit) : Building Unit := fun s => (f s.1, s)

/-- A number is used up whatever comes after. -/
def number {α : Type} (f : Numbering → α × Numbering) : Building α := fun s =>
  (.ok (f s.2).1, (s.1, (f s.2).2))

/-- The reads of a node, one after the other. -/
def addEdges (target : NodeId) (inputs : List NodeInput) : Building Unit :=
  inputs.forM fun input => update (·.declare (.edge target input))

/-- A node, added step by step. -/
def addNode (decl : NodeDecl) : Building Unit := do
  let k := (← get).1
  match k.data[decl.output]? with
  | none => throw (.unknownId k.name .data decl.output)
  | some output =>
    check fun k => ensure (output.producer = none ∧ output.role ≠ .input)
      (.multipleProducers k.name output.name)
    check fun k => ensure (output.iterative = true) (.scalarOutput k.name decl.name output.name)
    check fun k => decl.controls.forM k.checkData
    check fun k => decl.inputs.forM fun i => k.checkData i.source
    let uid ← number Numbering.node
    let symbol ← number (·.symbol decl.name)
    modify fun s => (s.1.pushNode decl uid symbol output.rank, s.2)
    addEdges k.nodes.length decl.inputs

theorem update_eq (f : Kernel → Except KernelError Kernel) (s : Kernel × Numbering) :
    update f s = settled s ((·, s.2) <$> f s.1) := by
  unfold update
  cases f s.1 <;> rfl

theorem declare_edge {k : Kernel} {target : NodeId} {input : NodeInput}
    (ht : target < k.nodes.length) (hs : input.source < k.data.length) :
    k.declare (.edge target input) = .ok (k.pushEdge target input) := by
  have hadd : k.addEdge target input = .ok (k.edges.length, k.pushEdge target input) :=
    bind_eq_ok.mpr ⟨(), Kernel.checkData_eq_ok.mpr hs, bind_eq_ok.mpr ⟨(), ensure_eq_ok.mpr ht, rfl⟩⟩
  exact map_eq_ok.mpr ⟨_, hadd, rfl⟩

/-- No read of an existing item is refused. -/
theorem addEdges_eq {target : NodeId} {inputs : List NodeInput} {k : Kernel}
    (numbering : Numbering) (ht : target < k.nodes.length)
    (hs : ∀ i ∈ inputs, i.source < k.data.length) :
    addEdges target inputs (k, numbering) =
      (.ok (), (inputs.foldl (·.pushEdge target ·) k, numbering)) := by
  induction inputs generalizing k with
  | nil => rfl
  | cons input rest ih =>
    obtain ⟨hinput, hrest⟩ := List.forall_mem_cons.mp hs
    have hfirst : update (·.declare (.edge target input)) (k, numbering) =
        (.ok (), (k.pushEdge target input, numbering)) := by
      rw [update_eq, declare_edge ht hinput]
      rfl
    have hnodes : (k.pushEdge target input).nodes.length = k.nodes.length := List.length_modify ..
    have hdata : (k.pushEdge target input).data.length = k.data.length := List.length_modify ..
    exact (run_bind_of_ok hfirst).trans (ih (hnodes ▸ ht) (hdata ▸ hrest))

/-- A sequence of checks and a change are one change. -/
theorem check_bind_eq {f : Kernel → Except KernelError Unit} {rest : Building Unit}
    {s : Kernel × Numbering} {x : Except KernelError (Kernel × Numbering)}
    (h : f s.1 = .ok () → rest s = settled s x) :
    (check f >>= fun _ => rest) s = settled s (f s.1 >>= fun _ => x) := by
  rcases hf : f s.1 with e | _
  · have hcheck : check f s = (.error e, s) := by rw [check, hf]
    exact run_bind_of_error hcheck
  · have hcheck : check f s = (.ok (), s) := by rw [check, hf]
    exact (run_bind_of_ok hcheck).trans (h hf)

/-- A node is added at once, or not at all. -/
theorem addNode_eq (decl : NodeDecl) (k : Kernel) (numbering : Numbering) :
    addNode decl (k, numbering) =
      settled (k, numbering) (Prod.snd <$> k.addNode numbering decl) := by
  unfold addNode Kernel.addNode
  rw [run_bind_of_ok (show (get : Building _) (k, numbering) = (.ok (k, numbering), _) from rfl)]
  dsimp only
  split
  · next hout =>
    rw [hout]
    rfl
  · next output hout =>
    rw [hout]
    dsimp only
    simp only [map_bind]
    refine check_bind_eq fun _ => check_bind_eq fun _ => check_bind_eq fun _ =>
      check_bind_eq fun hsources => ?_
    have hsources : ∀ i ∈ decl.inputs, i.source < k.data.length := fun i hi =>
      Kernel.checkData_eq_ok.mp (forM_eq_ok.mp hsources i hi)
    refine (run_bind_of_ok rfl).trans ((run_bind_of_ok rfl).trans ((run_bind_of_ok rfl).trans ?_))
    refine addEdges_eq _ ?_ fun i hi => ?_
    · simp [Kernel.pushNode]
    · rw [Kernel.pushNode, List.length_modify]
      exact hsources i hi

end Building

/-! ### Labels -/

def Node.label (n : Node) : Label := ⟨n.uid, n.name, n.symbol⟩

namespace Kernel

/-- The label that a declaration uses up. -/
def Declaration.labels : Declaration → List Label
  | .node numbering decl => [numbering.label decl.name]
  | _ => []

theorem labels_pushEdge (k : Kernel) (target : NodeId) (input : NodeInput) :
    (k.pushEdge target input).nodes.map Node.label = k.nodes.map Node.label :=
  map_modify_of_eq (f := fun n : Node => { n with inputs := n.inputs ++ [k.edges.length] })
    (fun _ => rfl) _ _

theorem labels_withNode (k : Kernel) (decl : NodeDecl) (numbering : Numbering) (rank : Nat) :
    (k.withNode decl numbering rank).nodes.map Node.label =
      k.nodes.map Node.label ++ [numbering.label decl.name] := by
  have hedges (inputs : List NodeInput) (k' : Kernel) :
      (inputs.foldl (·.pushEdge k.nodes.length ·) k').nodes.map Node.label =
        k'.nodes.map Node.label := by
    induction inputs generalizing k' with
    | nil => rfl
    | cons input rest ih => exact (ih _).trans (labels_pushEdge k' _ input)
  rw [withNode, hedges, pushNode, List.map_append]
  rfl

/-- Only a new node gets a label. -/
theorem labels_declare {k k' : Kernel} {d : Declaration} (hk : k.declare d = .ok k') :
    k'.nodes.map Node.label = k.nodes.map Node.label ++ d.labels := by
  cases d with
  | input name elem shape | control name elem =>
    obtain ⟨⟨_, _⟩, hadd, rfl⟩ := map_eq_ok.mp hk
    obtain ⟨item, rfl, -⟩ := pushInput_eq_ok hadd
    exact (List.append_nil _).symm
  | data name elem shape | output name elem shape =>
    obtain ⟨⟨_, _⟩, hadd, rfl⟩ := map_eq_ok.mp hk
    obtain ⟨item, rfl, -⟩ := pushData_eq_ok hadd
    exact (List.append_nil _).symm
  | markOutput i =>
    simp only [declare, Kernel.markOutput] at hk
    split at hk
    · cases hk
    · obtain rfl := Except.ok.inj hk
      split_ifs <;> exact (List.append_nil _).symm
  | locate i location =>
    obtain rfl := Except.ok.inj hk
    exact (List.append_nil _).symm
  | node numbering decl =>
    obtain ⟨⟨_, _, _⟩, hadd, rfl⟩ := map_eq_ok.mp hk
    obtain ⟨output, -, rfl, -⟩ := addNode_eq_ok hadd
    exact labels_withNode k decl numbering output.rank
  | edge target input =>
    obtain ⟨⟨_, _⟩, hadd, rfl⟩ := map_eq_ok.mp hk
    obtain ⟨_, -, hadd⟩ := bind_eq_ok.mp hadd
    obtain ⟨_, -, hadd⟩ := bind_eq_ok.mp hadd
    obtain ⟨-, rfl⟩ := Prod.mk.inj (pure_eq_ok.mp hadd)
    rw [labels_pushEdge]
    exact (List.append_nil _).symm

/-- The symbol of a node is made of its name. -/
theorem Built.label_eq {k : Kernel} (h : k.Built) {n : Node} (hn : n ∈ k.nodes) :
    ∃ numbering : Numbering, n.label = numbering.label n.name := by
  suffices hlabels : ∀ l ∈ k.nodes.map Node.label, ∃ numbering : Numbering,
      l = numbering.label l.name from hlabels _ (List.mem_map_of_mem hn)
  clear hn
  induction h with
  | empty => simp
  | @declare k k' d _ hk ih =>
    rw [labels_declare hk]
    refine List.forall_mem_append.mpr ⟨ih, ?_⟩
    cases d with
    | node numbering decl => exact List.forall_mem_singleton.mpr ⟨numbering, rfl⟩
    | _ => simp [Declaration.labels]
  | annotated _ hs ih =>
    have hlabels := congrArg (List.map Node.label) hs.nodes
    rw [List.map_map, List.map_map] at hlabels
    exact hlabels ▸ ih

end Kernel

/-! ### Coherence -/

namespace Kernel

/-- The arenas agree about everything that is recorded twice. -/
structure Coherent (k : Kernel) : Prop where
  data_ids : k.data.map DataItem.id = List.range k.data.length
  node_ids : k.nodes.map Node.id = List.range k.nodes.length
  edge_ids : k.edges.map Edge.id = List.range k.edges.length
  names_nodup : (k.data.map DataItem.name).Nodup
  /-- Parameters are listed in declaration order. -/
  inputs_eq : k.inputs = (k.data.filter (·.role = .input)).map DataItem.id
  input_of_control : ∀ d ∈ k.data, d.iterative = false → d.role = .input
  ends_lt : ∀ e ∈ k.edges, e.source < k.data.length ∧ e.target < k.nodes.length
  output_lt : ∀ n ∈ k.nodes, n.output < k.data.length
  /-- A node lists the edges that end at it, each once. -/
  count_inputs : ∀ n ∈ k.nodes, ∀ e, n.inputs.count e =
    if (k.edges[e]?).map Edge.target = some n.id then 1 else 0
  /-- An item lists the edges that start at it, each once. -/
  count_users : ∀ d ∈ k.data, ∀ e, d.users.count e =
    if (k.edges[e]?).map Edge.source = some d.id then 1 else 0
  producer_iff : ∀ d ∈ k.data, ∀ n,
    d.producer = some n ↔ (k.nodes[n]?).map Node.output = some d.id
  produced : ∀ d ∈ k.data, d.producer ≠ none → d.iterative = true ∧ d.role ≠ .input
  /-- A node precedes another as often as that one follows it. -/
  count_predecessors : ∀ m ∈ k.nodes, ∀ n ∈ k.nodes,
    (k.predecessors n).count m.id = (k.successors m).count n.id

namespace WellFormed

variable {k : Kernel} (h : k.WellFormed)

include h

theorem edge_ids : k.edges.map Edge.id = List.range k.edges.length := by
  refine List.ext_getElem (by simp) fun i hi _ => ?_
  rw [List.length_map] at hi
  simpa using h.edge_id (List.getElem?_eq_getElem hi)

/-- Some edges, listed by their identifiers, are listed once each. -/
theorem count_edges (p : Edge → Bool) (e : EdgeId) :
    ((k.edges.filter p).map Edge.id).count e = if (k.edges[e]?).any p then 1 else 0 := by
  have hnodup : ((k.edges.filter p).map Edge.id).Nodup := by
    refine (List.filter_sublist.map Edge.id).nodup ?_
    rw [h.edge_ids]
    exact List.nodup_range
  have hmem : e ∈ (k.edges.filter p).map Edge.id ↔ (k.edges[e]?).any p = true := by
    simp only [List.mem_map, List.mem_filter, Option.any_eq_true]
    constructor
    · rintro ⟨x, ⟨hx, hp⟩, rfl⟩
      obtain ⟨i, hi⟩ := List.mem_iff_getElem?.mp hx
      exact ⟨x, h.edge_id hi ▸ hi, hp⟩
    · rintro ⟨x, hx, hp⟩
      exact ⟨x, ⟨List.mem_of_getElem? hx, hp⟩, h.edge_id hx⟩
  rw [hnodup.count]
  exact if_congr hmem rfl rfl

/-- The edges at one end, listed by their identifiers. -/
theorem count_edges_at (f : Edge → Nat) (i : Nat) (e : EdgeId) :
    ((k.edges.filter (f · = i)).map Edge.id).count e =
      if (k.edges[e]?).map f = some i then 1 else 0 := by
  rw [h.count_edges]
  cases k.edges[e]? <;> simp

theorem coherent (hnames : (k.data.map DataItem.name).Nodup) : k.Coherent where
  data_ids := h.data_ids
  node_ids := h.node_ids
  edge_ids := h.edge_ids
  names_nodup := hnames
  inputs_eq := by
    refine h.inputs_eq.trans (congrArg _ (List.filter_congr fun d _ => ?_))
    simp [DataItem.isInput, Bool.beq_eq_decide_eq]
  input_of_control d hd := h.input_of_control (h.getElem?_id hd)
  ends_lt e he := by
    obtain ⟨i, hi⟩ := List.mem_iff_getElem?.mp he
    exact ⟨h.source_lt hi, h.target_lt hi⟩
  output_lt n hn := by
    obtain ⟨i, hi⟩ := List.mem_iff_getElem?.mp hn
    exact h.output_lt hi
  count_inputs n hn e := by
    obtain ⟨i, hi⟩ := List.mem_iff_getElem?.mp hn
    rw [h.reads_eq hi, h.count_edges_at, h.node_id hi]
  count_users d hd e := by
    rw [h.users_eq (h.getElem?_id hd), h.count_edges_at]
  producer_iff d hd n := by
    rw [h.producer_iff (h.getElem?_id hd), Option.map_eq_some_iff]
  produced d hd hp := by
    obtain ⟨m, hm⟩ := Option.ne_none_iff_exists'.mp hp
    exact h.produced (h.getElem?_id hd) hm
  count_predecessors m hm n hn := by
    obtain ⟨i, hi⟩ := List.mem_iff_getElem?.mp hm
    obtain ⟨j, hj⟩ := List.mem_iff_getElem?.mp hn
    have hcount := (Analysis.count_predecessorsOf h i j).trans (Analysis.count_successorsOf h i j).symm
    simpa [Analysis.predecessorsOf, Analysis.successorsOf, hi, hj, h.node_id hi, h.node_id hj]
      using hcount

end WellFormed

end Kernel

/-! ### Requests -/

/-- What is asked of a kernel under construction. -/
inductive Request where
  | input (name : String) (elem : ElemType) (shape : Shape)
  | control (name : String) (elem : ElemType)
  | data (name : String) (elem : ElemType) (shape : Shape)
  | output (name : String) (elem : ElemType) (shape : Shape)
  | markOutput (data : DataId)
  | locate (data : DataId) (location : Location)
  | node (decl : NodeDecl)
  | edge (target : NodeId) (read : NodeInput)

namespace Request

/-- Carries out a request in place. -/
def run : Request → Building Unit
  | input name elem shape => Building.update (·.declare (.input name elem shape))
  | control name elem => Building.update (·.declare (.control name elem))
  | data name elem shape => Building.update (·.declare (.data name elem shape))
  | output name elem shape => Building.update (·.declare (.output name elem shape))
  | markOutput d => Building.update (·.declare (.markOutput d))
  | locate d location => Building.update (·.declare (.locate d location))
  | node decl => Building.addNode decl
  | edge target read => Building.update (·.declare (.edge target read))

/-- The declaration that a request is. -/
def declaration (numbering : Numbering) : Request → Kernel.Declaration
  | input name elem shape => .input name elem shape
  | control name elem => .control name elem
  | data name elem shape => .data name elem shape
  | output name elem shape => .output name elem shape
  | markOutput d => .markOutput d
  | locate d location => .locate d location
  | node decl => .node numbering decl
  | edge target read => .edge target read

/-- The numbers left after a request that is not refused. -/
def numbersLeft (numbering : Numbering) : Request → Numbering
  | node decl => numbering.labelled decl.name
  | _ => numbering

/-- A request is its declaration, or it is refused and changes nothing. -/
theorem run_eq (r : Request) (k : Kernel) (numbering : Numbering) :
    r.run (k, numbering) = settled (k, numbering)
      ((·, r.numbersLeft numbering) <$> k.declare (r.declaration numbering)) := by
  have hplain (d : Kernel.Declaration) : Building.update (·.declare d) (k, numbering) =
      settled (k, numbering) ((·, numbering) <$> k.declare d) := Building.update_eq _ _
  cases r with
  | node decl =>
    refine (Building.addNode_eq decl k numbering).trans (congrArg _ ?_)
    simp only [declaration, Kernel.declare]
    rcases hadd : k.addNode numbering decl with e | ⟨n, k', numbering'⟩
    · rfl
    · obtain ⟨-, -, -, rfl⟩ := Kernel.addNode_eq_ok hadd
      rfl
  | locate d location => exact hplain (.locate d location)
  | _ => exact hplain _

end Request

/-! ### Calls -/

/-- Kernels that share one numbering. -/
structure Assembly where
  kernels : List Kernel
  numbering : Numbering

/-- A new kernel, or a request to one of the kernels. -/
inductive Call where
  | create (name : String) (location : Option Location)
  | request (kernel : Nat) (r : Request)

namespace Assembly

/-- How a call ends, and what there is then; nobody calls a kernel that is not there. -/
def call (a : Assembly) : Call → Except KernelError Unit × Assembly
  | .create name location => (.ok (), { a with kernels := a.kernels ++ [{ name, location }] })
  | .request i r => match a.kernels[i]? with
    | none => (.ok (), a)
    | some k =>
      ((r.run (k, a.numbering)).1,
        ⟨a.kernels.set i (r.run (k, a.numbering)).2.1, (r.run (k, a.numbering)).2.2⟩)

/-- What calls make of nothing, whatever numbers were used before. -/
def ofCalls (numbering : Numbering) (calls : List Call) : Assembly :=
  calls.foldl (fun a c => (a.call c).2) ⟨[], numbering⟩

/-- What a call can do. -/
inductive Effect (a : Assembly) : Except KernelError Unit → Assembly → Prop
  | created (name : String) (location : Option Location) :
      Effect a (.ok ()) { a with kernels := a.kernels ++ [{ name, location }] }
  | declared {i : Nat} {k k' : Kernel} (r : Request) (found : a.kernels[i]? = some k)
      (declared : k.declare (r.declaration a.numbering) = .ok k') :
      Effect a (.ok ()) ⟨a.kernels.set i k', r.numbersLeft a.numbering⟩
  | unchanged (outcome : Except KernelError Unit) : Effect a outcome a

theorem call_effect (a : Assembly) (c : Call) : Effect a (a.call c).1 (a.call c).2 := by
  cases c with
  | create name location => exact .created name location
  | request i r =>
    rcases hk : a.kernels[i]? with _ | k
    · simp only [call, hk]
      exact .unchanged _
    · simp only [call, hk]
      rw [r.run_eq]
      rcases hdeclare : k.declare (r.declaration a.numbering) with e | k'
      · obtain ⟨hi, rfl⟩ := List.getElem?_eq_some_iff.mp hk
        have hset : a.kernels.set i a.kernels[i] = a.kernels := List.set_getElem_self hi
        have hsame := Effect.unchanged (a := a) (.error e)
        simpa only [Except.map_error, settled, hset] using hsame
      · exact .declared r hk hdeclare

/-- A refused call changes nothing. -/
theorem Effect.eq_of_error {a a' : Assembly} {e : KernelError} (h : Effect a (.error e) a') :
    a' = a := by
  cases h
  rfl

theorem Effect.built {a a' : Assembly} {outcome : Except KernelError Unit}
    (h : Effect a outcome a') (hb : ∀ k ∈ a.kernels, k.Built) : ∀ k ∈ a'.kernels, k.Built := by
  cases h with
  | created name location => exact List.forall_mem_append.mpr ⟨hb, by simp [Kernel.Built.empty]⟩
  | declared r found declared =>
    intro k hk
    rcases List.mem_or_eq_of_mem_set hk with hk | rfl
    · exact hb k hk
    · exact (hb _ (List.mem_of_getElem? found)).declare declared
  | unchanged => exact hb

/-- The nodes of all kernels. -/
def nodes (a : Assembly) : List Node := a.kernels.flatMap Kernel.nodes

/-- A declaration adds its labels to those of all kernels. -/
theorem labels_set {kernels : List Kernel} {i : Nat} {k k' : Kernel} {d : Kernel.Declaration}
    (found : kernels[i]? = some k) (declared : k.declare d = .ok k') :
    (((kernels.set i k').flatMap Kernel.nodes).map Node.label).Perm
      (d.labels ++ (kernels.flatMap Kernel.nodes).map Node.label) := by
  obtain ⟨hi, rfl⟩ := List.getElem?_eq_some_iff.mp found
  have hset := ((List.set_perm_cons_eraseIdx hi k').flatMap_right Kernel.nodes).map Node.label
  have hold := ((List.getElem_cons_eraseIdx_perm hi).flatMap_right Kernel.nodes).map Node.label
  rw [List.flatMap_cons, List.map_append] at hset hold
  rw [Kernel.labels_declare declared] at hset
  refine hset.trans ((List.perm_append_comm.append_right _).trans ?_)
  rw [List.append_assoc]
  exact hold.append_left _

theorem Effect.issued {a a' : Assembly} {outcome : Except KernelError Unit}
    (h : Effect a outcome a') (hi : a.numbering.Issued (a.nodes.map Node.label)) :
    a'.numbering.Issued (a'.nodes.map Node.label) := by
  cases h with
  | created name location => simpa [nodes] using hi
  | declared r found declared =>
    refine Numbering.Issued.perm ?_ (labels_set found declared)
    cases r with
    | node decl => exact hi.cons decl.name
    | _ => exact hi
  | unchanged => exact hi

/-- What construction keeps of all kernels together. -/
structure Sound (a : Assembly) : Prop where
  built : ∀ k ∈ a.kernels, k.Built
  issued : a.numbering.Issued (a.nodes.map Node.label)

theorem sound_ofCalls (numbering : Numbering) (calls : List Call) : (ofCalls numbering calls).Sound := by
  have hrun (a : Assembly) (ha : a.Sound) : (calls.foldl (fun a c => (a.call c).2) a).Sound := by
    induction calls generalizing a with
    | nil => exact ha
    | cons c rest ih =>
      have heffect := a.call_effect c
      exact ih _ ⟨heffect.built ha.built, heffect.issued ha.issued⟩
  exact hrun _ ⟨by simp, .nil numbering⟩

/-- A request that the kernel accepts is carried out. -/
theorem call_of_accepted {a : Assembly} {i : Nat} {k k' : Kernel} {r : Request}
    (found : a.kernels[i]? = some k) (declared : k.declare (r.declaration a.numbering) = .ok k') :
    a.call (.request i r) = (.ok (), ⟨a.kernels.set i k', r.numbersLeft a.numbering⟩) := by
  simp only [call, found, r.run_eq, declared]
  rfl

/-- Over all kernels that share a numbering, construction keeps the arenas coherent and the
labels of nodes apart; a request is carried out as a whole, and a refused call changes
nothing. -/
theorem construction_coherent (numbering : Numbering) (calls : List Call) :
    let a := ofCalls numbering calls
    (∀ k ∈ a.kernels, k.Coherent) ∧
      (a.nodes.map Node.uid).Nodup ∧ (a.nodes.map Node.symbol).Nodup ∧
      (∀ i k k' r, a.kernels[i]? = some k → k.declare (r.declaration a.numbering) = .ok k' →
        a.call (.request i r) = (.ok (), ⟨a.kernels.set i k', r.numbersLeft a.numbering⟩)) ∧
      ∀ c e a', a.call c = (.error e, a') → a' = a := by
  intro a
  have hsound : a.Sound := sound_ofCalls numbering calls
  have huids := hsound.issued.uids_nodup
  have hsymbols := hsound.issued.symbols_nodup
  rw [List.map_map] at huids hsymbols
  refine ⟨fun k hk => ?_, huids, hsymbols, fun _ _ _ _ => call_of_accepted, fun c e a' hc => ?_⟩
  · have hbuilt := hsound.built k hk
    exact hbuilt.wellFormed.coherent hbuilt.names_nodup
  · have heffect := a.call_effect c
    rw [hc] at heffect
    exact heffect.eq_of_error

/-- A node with a name that starts like the number of another, and in a second kernel a node
that reads its own output twice. -/
def pairing : List Call :=
  [.create "left" none, .create "right" none, .request 0 (.input "a" .float [.fixed 8]),
    .request 0 (.output "o" .float [.fixed 8]),
    .request 0 (.node { name := "1_copy", output := 1, inputs := [⟨0, ⟨[⟨0, 0⟩]⟩, .undef⟩] }),
    .request 1 (.data "a" .float [.fixed 8]),
    .request 1 (.node { name := "copy", output := 0,
                        inputs := [⟨0, ⟨[⟨-1, 0⟩]⟩, .undef⟩, ⟨0, ⟨[⟨0, 1⟩]⟩, .undef⟩] })]

/-- A second node for an image that has one. -/
def secondProducer : Call := .request 0 (.node { name := "again", output := 1 })

theorem construction_coherent_pairing :
    ((ofCalls {} pairing).nodes.map Node.symbol = ["compute_0_1_copy", "compute_1_copy"] ∧
      ((ofCalls {} pairing).nodes.map Node.symbol).Nodup) ∧
      (∃ k n, (ofCalls {} pairing).kernels[1]? = some k ∧ k.nodes[0]? = some n ∧
        k.successors n = [0, 0] ∧ (k.predecessors n).count n.id = 2) ∧
      ((ofCalls {} pairing).call secondProducer).1 = .error (.multipleProducers "left" "o") ∧
      ((ofCalls {} pairing).call secondProducer).2 = ofCalls {} pairing := by
  obtain ⟨hcoherent, -, hsymbols, -, hrefused⟩ := construction_coherent {} pairing
  have herror : ((ofCalls {} pairing).call secondProducer).1 =
      .error (.multipleProducers "left" "o") := rfl
  refine ⟨⟨by decide +kernel, hsymbols⟩, ⟨_, _, rfl, rfl, by decide, ?_⟩, herror,
    hrefused secondProducer _ _ (Prod.ext herror rfl)⟩
  have hright := hcoherent _ (List.mem_of_getElem? (i := 1) rfl)
  rw [hright.count_predecessors _ (List.mem_of_getElem? (i := 0) rfl) _
    (List.mem_of_getElem? (i := 0) rfl)]
  decide

end Assembly

end StencilTiling
