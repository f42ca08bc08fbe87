import Mathlib.Data.List.Basic
import StencilTiling.Kernel.Navigate

/-! Consistency of the arenas of a kernel: identifiers are positions, the links
of data items and nodes list exactly the edges at their ends, and an item names
exactly the node that writes it. Navigation is then a matter of filtering the
edges. What the analysis writes does not belong to the graph. -/

namespace StencilTiling

/-! ### Lists of records -/

section Lists

variable {α β : Type} {g : α → β} {l l' : List α}

/-- An element of a list with one more element. -/
theorem getElem?_concat {a b : α} {i : Nat} (h : (l ++ [a])[i]? = some b) :
    l[i]? = some b ∨ i = l.length ∧ b = a := by
  rcases Nat.lt_or_ge i l.length with hi | hi
  · rw [List.getElem?_append_left hi] at h
    exact .inl h
  · rw [List.getElem?_append_right hi] at h
    obtain ⟨h0, h⟩ := List.getElem?_eq_some_iff.mp h
    rw [List.length_singleton] at h0
    exact .inr ⟨by omega, by simpa using h.symm⟩

/-- Lists that look the same have counterparts at every position. -/
theorem exists_getElem?_of_map_eq (h : l'.map g = l.map g) {i : Nat} {a' : α}
    (ha : l'[i]? = some a') : ∃ a, l[i]? = some a ∧ g a = g a' := by
  have hi := congrArg (·[i]?) h
  simp only [List.getElem?_map, ha, Option.map_some] at hi
  exact Option.map_eq_some_iff.mp hi.symm

/-- Changing an element without changing what is looked at. -/
theorem map_modify_of_eq {f : α → α} (h : ∀ a, g (f a) = g a) (l : List α) (i : Nat) :
    (l.modify i f).map g = l.map g := by
  refine List.ext_getElem? fun j => ?_
  rw [List.getElem?_map, List.getElem?_map, List.getElem?_modify]
  cases l[j]? with
  | none => rfl
  | some a => by_cases hj : i = j <;> simp [hj, h]

/-- Replacing an element by one that looks the same. -/
theorem map_set_of_eq {i : Nat} {a a' : α} (ha : l[i]? = some a) (h : g a' = g a) :
    (l.set i a').map g = l.map g := by
  refine List.ext_getElem? fun j => ?_
  rw [List.getElem?_map, List.getElem?_map, List.getElem?_set]
  split_ifs with hj hlt
  · subst hj
    rw [ha, Option.map_some, Option.map_some, h]
  · subst hj
    rw [List.getElem?_eq_none (Nat.le_of_not_lt hlt)]
  · rfl

end Lists

/-! ### Consistency -/

/-- A node without what the analysis derived for it. -/
def Node.bare (n : Node) : Node := { n with params := [] }

namespace Kernel

/-- Iterative items stand where other items do. -/
theorem mem_iterativeData_iff {k : Kernel} {d : DataItem} :
    d ∈ k.iterativeData ↔ ∃ i : DataId, k.data[i]? = some d ∧ d.iterative = true := by
  rw [iterativeData, List.mem_filter, List.mem_iff_getElem?, exists_and_right]

/-- The arenas of a kernel refer to each other consistently. -/
structure WellFormed (k : Kernel) : Prop where
  data_id : ∀ {i : DataId} {d : DataItem}, k.data[i]? = some d → d.id = i
  node_id : ∀ {i : NodeId} {n : Node}, k.nodes[i]? = some n → n.id = i
  edge_id : ∀ {i : EdgeId} {e : Edge}, k.edges[i]? = some e → e.id = i
  /-- Parameters are listed in declaration order. -/
  inputs_eq : k.inputs = (k.data.filter (·.isInput)).map DataItem.id
  /-- Control scalars are parameters. -/
  input_of_control : ∀ {i : DataId} {d : DataItem}, k.data[i]? = some d →
    d.iterative = false → d.role = .input
  output_lt : ∀ {i : NodeId} {n : Node}, k.nodes[i]? = some n → n.output < k.data.length
  producer_iff : ∀ {i : DataId} {d : DataItem}, k.data[i]? = some d →
    ∀ m, d.producer = some m ↔ ∃ n, k.nodes[m]? = some n ∧ n.output = i
  /-- Nodes write images that are no parameters. -/
  produced : ∀ {i : DataId} {d : DataItem} {m : NodeId}, k.data[i]? = some d →
    d.producer = some m → d.iterative = true ∧ d.role ≠ .input
  source_lt : ∀ {i : EdgeId} {e : Edge}, k.edges[i]? = some e → e.source < k.data.length
  target_lt : ∀ {i : EdgeId} {e : Edge}, k.edges[i]? = some e → e.target < k.nodes.length
  control_lt : ∀ {i : NodeId} {n : Node}, k.nodes[i]? = some n → ∀ c ∈ n.controls, c < k.data.length
  users_eq : ∀ {i : DataId} {d : DataItem}, k.data[i]? = some d →
    d.users = (k.edges.filter (·.source = i)).map Edge.id
  reads_eq : ∀ {i : NodeId} {n : Node}, k.nodes[i]? = some n →
    n.inputs = (k.edges.filter (·.target = i)).map Edge.id

/-! ### Navigation -/

theorem item_eq_ok {k : Kernel} {d : DataId} {item : DataItem} :
    k.item d = .ok item ↔ k.data[d]? = some item := by
  unfold Kernel.item fetch
  cases k.data[d]? <;> simp

theorem node_eq_ok {k : Kernel} {n : NodeId} {m : Node} : k.node n = .ok m ↔ k.nodes[n]? = some m := by
  unfold Kernel.node fetch
  cases k.nodes[n]? <;> simp

namespace WellFormed

variable {k : Kernel} (h : k.WellFormed)

include h

theorem data_ids : k.data.map DataItem.id = List.range k.data.length := by
  refine List.ext_getElem (by simp) fun i hi _ => ?_
  rw [List.length_map] at hi
  simpa using h.data_id (List.getElem?_eq_getElem hi)

theorem node_ids : k.nodes.map Node.id = List.range k.nodes.length := by
  refine List.ext_getElem (by simp) fun i hi _ => ?_
  rw [List.length_map] at hi
  simpa using h.node_id (List.getElem?_eq_getElem hi)

/-- An item stands at the position its identifier names. -/
theorem getElem?_id {d : DataItem} (hd : d ∈ k.data) : k.data[d.id]? = some d := by
  obtain ⟨i, hi⟩ := List.mem_iff_getElem?.mp hd
  exact h.data_id hi ▸ hi

theorem mem_inputs_iff {i : DataId} :
    i ∈ k.inputs ↔ ∃ d, k.data[i]? = some d ∧ d.role = .input := by
  simp only [h.inputs_eq, List.mem_map, List.mem_filter, DataItem.isInput, beq_iff_eq]
  constructor
  · rintro ⟨d, ⟨hd, hr⟩, rfl⟩
    exact ⟨d, h.getElem?_id hd, hr⟩
  · rintro ⟨d, hd, hr⟩
    exact ⟨d, ⟨List.mem_of_getElem? hd, hr⟩, h.data_id hd⟩

/-- No edge starts at an item that does not exist yet. -/
theorem edges_from_next : k.edges.filter (·.source = k.data.length) = [] := by
  rw [List.filter_eq_nil_iff]
  intro e he hs
  obtain ⟨i, hi⟩ := List.mem_iff_getElem?.mp he
  exact Nat.ne_of_lt (h.source_lt hi) (of_decide_eq_true hs)

/-- No edge ends at a node that does not exist yet. -/
theorem edges_to_next : k.edges.filter (·.target = k.nodes.length) = [] := by
  rw [List.filter_eq_nil_iff]
  intro e he ht
  obtain ⟨i, hi⟩ := List.mem_iff_getElem?.mp he
  exact Nat.ne_of_lt (h.target_lt hi) (of_decide_eq_true ht)

/-- Looking up the identifiers of some edges gives these edges. -/
theorem filterMap_edges (p : Edge → Bool) :
    ((k.edges.filter p).map Edge.id).filterMap (k.edges[·]?) = k.edges.filter p := by
  rw [List.filterMap_map]
  have hlookup : ∀ e ∈ k.edges.filter p, ((k.edges[·]?) ∘ Edge.id) e = some e := by
    intro e he
    obtain ⟨i, hi⟩ := List.mem_iff_getElem?.mp (List.mem_filter.mp he).1
    simp [h.edge_id hi, hi]
  rw [List.filterMap_congr hlookup]
  exact List.filterMap_some

theorem usersOf_eq {i : DataId} {d : DataItem} (hd : k.data[i]? = some d) :
    k.usersOf d = k.edges.filter (·.source = i) := by
  rw [usersOf, h.users_eq hd, h.filterMap_edges]

theorem inputEdges_eq {i : NodeId} {n : Node} (hn : k.nodes[i]? = some n) :
    k.inputEdges n = k.edges.filter (·.target = i) := by
  rw [inputEdges, h.reads_eq hn, h.filterMap_edges]

theorem mem_usersOf_iff {i : DataId} {d : DataItem} (hd : k.data[i]? = some d) {e : Edge} :
    e ∈ k.usersOf d ↔ e ∈ k.edges ∧ e.source = i := by
  simp [h.usersOf_eq hd]

theorem mem_inputEdges_iff {i : NodeId} {n : Node} (hn : k.nodes[i]? = some n) {e : Edge} :
    e ∈ k.inputEdges n ↔ e ∈ k.edges ∧ e.target = i := by
  simp [h.inputEdges_eq hn]

theorem exists_source {e : Edge} (he : e ∈ k.edges) : ∃ d, k.data[e.source]? = some d := by
  obtain ⟨i, hi⟩ := List.mem_iff_getElem?.mp he
  exact ⟨_, List.getElem?_eq_getElem (h.source_lt hi)⟩

theorem exists_target {e : Edge} (he : e ∈ k.edges) : ∃ n, k.nodes[e.target]? = some n := by
  obtain ⟨i, hi⟩ := List.mem_iff_getElem?.mp he
  exact ⟨_, List.getElem?_eq_getElem (h.target_lt hi)⟩

theorem exists_output {i : NodeId} {n : Node} (hn : k.nodes[i]? = some n) :
    ∃ d, k.data[n.output]? = some d :=
  ⟨_, List.getElem?_eq_getElem (h.output_lt hn)⟩

/-- The item a node writes names this node as its producer. -/
theorem producer_output {i : NodeId} {n : Node} (hn : k.nodes[i]? = some n) {d : DataItem}
    (hd : k.data[n.output]? = some d) : d.producer = some i :=
  (h.producer_iff hd i).mpr ⟨n, hn, rfl⟩

theorem producerOf_output {i : NodeId} {n : Node} (hn : k.nodes[i]? = some n) {d : DataItem}
    (hd : k.data[n.output]? = some d) : k.producerOf d = some n := by
  rw [producerOf, h.producer_output hn hd]
  exact hn

/-- The producer found by navigation writes the item. -/
theorem output_of_producerOf {i : DataId} {d : DataItem} (hd : k.data[i]? = some d) {n : Node}
    (hn : k.producerOf d = some n) : k.nodes[n.id]? = some n ∧ n.output = i := by
  obtain ⟨m, hm, hget⟩ := Option.bind_eq_some_iff.mp hn
  obtain ⟨n', hn', hout⟩ := (h.producer_iff hd m).mp hm
  obtain rfl : n' = n := by simpa [hn'] using hget
  exact ⟨h.node_id hn' ▸ hn', hout⟩

/-- Different nodes write different items. -/
theorem output_injective {i j : NodeId} {n m : Node} (hn : k.nodes[i]? = some n)
    (hm : k.nodes[j]? = some m) (hout : n.output = m.output) : i = j := by
  obtain ⟨d, hd⟩ := h.exists_output hn
  have hi := h.producer_output hn hd
  have hj := h.producer_output hm (hout ▸ hd)
  exact Option.some.inj (hi.symm.trans hj)

/-- The producers of a node write what it reads. -/
theorem mem_predecessors_iff {j : NodeId} {n : Node} (hn : k.nodes[j]? = some n) {p : NodeId} :
    p ∈ k.predecessors n ↔
      ∃ a, k.nodes[p]? = some a ∧ ∃ e ∈ k.edges, e.source = a.output ∧ e.target = j := by
  rw [predecessors, List.mem_filterMap]
  constructor
  · rintro ⟨e, he, hp⟩
    obtain ⟨hmem, rfl⟩ := (h.mem_inputEdges_iff hn).mp he
    obtain ⟨d, hd, hp⟩ := Option.bind_eq_some_iff.mp hp
    obtain ⟨a, ha, hout⟩ := (h.producer_iff hd p).mp hp
    exact ⟨a, ha, e, hmem, hout.symm, rfl⟩
  · rintro ⟨a, ha, e, hmem, hs, rfl⟩
    obtain ⟨d, hd⟩ := h.exists_output ha
    exact ⟨e, (h.mem_inputEdges_iff hn).mpr ⟨hmem, rfl⟩, by
      rw [hs, hd, Option.bind_some, h.producer_output ha hd]⟩

theorem iterative_output {i : NodeId} {n : Node} (hn : k.nodes[i]? = some n) {d : DataItem}
    (hd : k.data[n.output]? = some d) : d.iterative = true :=
  (h.produced hd (h.producer_output hn hd)).1

end WellFormed

end Kernel

end StencilTiling
