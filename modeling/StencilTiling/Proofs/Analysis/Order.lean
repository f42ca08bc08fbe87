import Mathlib.Data.List.Perm.Subperm
import Mathlib.Data.List.Perm.Lattice
import StencilTiling.Analysis.Order
import StencilTiling.Proofs.Checked
import StencilTiling.Proofs.Kernel.Construction

/-! The order lists every node once, after all nodes whose outputs it reads. The
pending count of a node is the number of its reads whose producers are not placed
yet. Releasing the consumers of a placed node keeps this, because a node stands
among the consumers of another as often as that one stands among its producers. -/

namespace StencilTiling.Analysis

/-- Producers by node. -/
def predecessorsOf (k : Kernel) (n : NodeId) : List NodeId :=
  ((k.nodes[n]?).map k.predecessors).getD []

/-- Every node stands in the order once and after the nodes whose outputs it reads. -/
structure Topological (k : Kernel) (order : List NodeId) : Prop where
  mem_iff : ∀ n, n ∈ order ↔ n < k.nodes.length
  ordered : order.Pairwise fun m n => m ≠ n ∧ n ∉ predecessorsOf k m
  irrefl : ∀ n, n ∉ predecessorsOf k n

theorem pendingOf_eq (k : Kernel) (n : NodeId) : pendingOf k n = (predecessorsOf k n).length := by
  unfold pendingOf predecessorsOf
  cases k.nodes[n]? <;> rfl

/-! ### Consumers and producers -/

/-- The edge leads from the output of one node to another. -/
def Links (k : Kernel) (m n : NodeId) (e : Edge) : Prop :=
  (k.data[e.source]?).bind DataItem.producer = some m ∧ e.target = n

instance (k : Kernel) (m n : NodeId) (e : Edge) : Decidable (Links k m n e) :=
  inferInstanceAs (Decidable (_ ∧ _))

theorem not_links {k : Kernel} (h : k.WellFormed) {m n : NodeId} {e : Edge} (he : e ∈ k.edges)
    (hmn : k.nodes[m]? = none ∨ k.nodes[n]? = none) : ¬ Links k m n e := by
  rintro ⟨hm, rfl⟩
  obtain ⟨d, hd⟩ := h.exists_source he
  obtain ⟨t, ht⟩ := h.exists_target he
  rw [hd, Option.bind_some] at hm
  obtain ⟨a, ha, -⟩ := (h.producer_iff hd m).mp hm
  rcases hmn with h' | h'
  · simp [ha] at h'
  · simp [ht] at h'

theorem count_predecessorsOf {k : Kernel} (h : k.WellFormed) (m n : NodeId) :
    (predecessorsOf k n).count m = k.edges.countP (Links k m n ·) := by
  unfold predecessorsOf
  cases hn : k.nodes[n]? with
  | none =>
    symm
    rw [Option.map_none, Option.getD_none, List.count_nil, List.countP_eq_zero]
    exact fun e he => by simpa using not_links h he (.inr hn)
  | some b =>
    rw [Option.map_some, Option.getD_some, Kernel.predecessors, h.inputEdges_eq hn,
      List.count_eq_countP, List.countP_filterMap, List.countP_filter]
    refine List.countP_congr fun e _ => ?_
    rw [decide_eq_true_iff, Links]
    cases (k.data[e.source]?).bind DataItem.producer <;> simp

theorem count_successorsOf {k : Kernel} (h : k.WellFormed) (m n : NodeId) :
    (successorsOf k m).count n = k.edges.countP (Links k m n ·) := by
  unfold successorsOf
  cases hm : k.nodes[m]? with
  | none =>
    symm
    rw [Option.map_none, Option.getD_none, List.count_nil, List.countP_eq_zero]
    exact fun e he => by simpa using not_links h he (.inl hm)
  | some a =>
    obtain ⟨d, hd⟩ := h.exists_output hm
    simp only [Option.map_some, Option.getD_some, Kernel.successors, hd, h.usersOf_eq hd]
    rw [List.count_eq_countP, List.countP_map, List.countP_filter]
    refine List.countP_congr fun e he => ?_
    obtain ⟨s, hs⟩ := h.exists_source he
    have hprod : s.producer = some m ↔ e.source = a.output := by
      rw [h.producer_iff hs]
      constructor
      · rintro ⟨a', ha', ho⟩
        obtain rfl : a' = a := Option.some.inj (ha'.symm.trans hm)
        exact ho.symm
      · exact fun ho => ⟨a, hm, ho.symm⟩
    simp [Links, hs, hprod, and_comm]

/-! ### Releasing consumers -/

theorem insertReady_perm (n : NodeId) (l : List NodeId) : (insertReady n l).Perm (n :: l) := by
  induction l with
  | nil => rfl
  | cons m rest ih =>
    unfold insertReady
    split_ifs
    · rfl
    · exact (ih.cons m).trans (List.Perm.swap n m rest)

theorem mem_ready_step {n x : NodeId} {left : Nat} {ready : List NodeId} :
    x ∈ (if left = 0 then insertReady n ready else ready) ↔ x ∈ ready ∨ left = 0 ∧ x = n := by
  split_ifs with h0
  · rw [(insertReady_perm n ready).mem_iff, List.mem_cons]
    tauto
  · tauto

section Release

variable {succ : List NodeId} {pending pending' : NodeId → Nat} {ready ready' : List NodeId}

theorem release_cons {n : NodeId} {result : (NodeId → Nat) × List NodeId}
    (h : release pending ready (n :: succ) = .ok result) : ∃ left, pending n = left + 1 ∧
      release (assign pending n left) (if left = 0 then insertReady n ready else ready) succ =
        .ok result := by
  unfold release at h
  split at h
  · cases h
  · next left hleft => exact ⟨left, hleft, h⟩

/-- Each consumer loses one pending read for each time it is listed. -/
theorem release_count (h : release pending ready succ = .ok (pending', ready')) (n : NodeId) :
    pending' n + succ.count n = pending n := by
  induction succ generalizing pending ready with
  | nil =>
    obtain ⟨rfl, -⟩ := Prod.mk.inj (Except.ok.inj h)
    rfl
  | cons m rest ih =>
    obtain ⟨left, hleft, h⟩ := release_cons h
    have hcount := ih h
    by_cases hn : n = m
    · subst hn
      rw [assign, if_pos rfl] at hcount
      rw [List.count_cons_self, hleft]
      omega
    · rw [assign, if_neg hn] at hcount
      rw [List.count_cons_of_ne (Ne.symm hn)]
      exact hcount

/-- The new ready nodes are consumers without pending reads. -/
theorem mem_of_release (h : release pending ready succ = .ok (pending', ready')) {n : NodeId}
    (hn : n ∈ ready') : n ∈ ready ∨ n ∈ succ ∧ pending' n = 0 := by
  induction succ generalizing pending ready with
  | nil =>
    obtain ⟨-, rfl⟩ := Prod.mk.inj (Except.ok.inj h)
    exact .inl hn
  | cons m rest ih =>
    obtain ⟨left, hleft, h⟩ := release_cons h
    rcases ih h with hready | ⟨hrest, h0⟩
    · rcases mem_ready_step.mp hready with hready | ⟨h0, rfl⟩
      · exact .inl hready
      · have hcount := release_count h n
        rw [assign, if_pos rfl] at hcount
        exact .inr ⟨List.mem_cons_self, by omega⟩
    · exact .inr ⟨List.mem_cons_of_mem _ hrest, h0⟩

/-- A consumer still has a pending read, so it is not ready yet and enters the list once. -/
theorem nodup_of_release (h : release pending ready succ = .ok (pending', ready'))
    (hfree : ∀ n ∈ ready, pending n = 0) (hnodup : ready.Nodup) : ready'.Nodup := by
  induction succ generalizing pending ready with
  | nil =>
    obtain ⟨-, rfl⟩ := Prod.mk.inj (Except.ok.inj h)
    exact hnodup
  | cons m rest ih =>
    obtain ⟨left, hleft, h⟩ := release_cons h
    have hm : m ∉ ready := fun hm => by
      have := hfree m hm
      omega
    refine ih h (fun x hx => ?_) ?_
    · rcases mem_ready_step.mp hx with hx | ⟨h0, rfl⟩
      · rw [assign, if_neg (ne_of_mem_of_not_mem hx hm), hfree x hx]
      · rw [assign, if_pos rfl, h0]
    · split_ifs
      · exact (insertReady_perm m ready).nodup_iff.mpr (List.nodup_cons.mpr ⟨hm, hnodup⟩)
      · exact hnodup

end Release

/-! ### Placing nodes -/

/-- What holds while nodes are placed. -/
structure Placing (k : Kernel) (pending : NodeId → Nat) (ready placed : List NodeId) : Prop where
  pending_eq : ∀ n, pending n = (predecessorsOf k n).countP (· ∉ placed)
  ready_lt : ∀ n ∈ ready, n < k.nodes.length
  ready_nodup : ready.Nodup
  ready_free : ∀ n ∈ ready, pending n = 0 ∧ n ∉ placed
  placed_lt : ∀ n ∈ placed, n < k.nodes.length
  closed : ∀ n ∈ placed, ∀ m ∈ predecessorsOf k n, m ∈ placed
  ordered : placed.Pairwise fun m n => m ≠ n ∧ n ∉ predecessorsOf k m
  irrefl : ∀ n ∈ placed, n ∉ predecessorsOf k n

namespace Placing

variable {k : Kernel} {pending pending' : NodeId → Nat} {ready ready' placed : List NodeId}

/-- A node without pending reads reads placed outputs only. -/
theorem predecessors_placed (hp : Placing k pending ready placed) {n : NodeId} (hn : pending n = 0) :
    ∀ m ∈ predecessorsOf k n, m ∈ placed := by
  intro m hm
  have := List.countP_eq_zero.mp ((hp.pending_eq n).symm.trans hn) m hm
  simpa using this

/-- A producer is unplaced before a step if it is the placed node or unplaced after it. -/
theorem countP_unplaced {n : NodeId} (hn : n ∉ placed) (l : List NodeId) :
    l.countP (· ∉ placed) = l.countP (· ∉ placed ++ [n]) + l.count n := by
  induction l with
  | nil => rfl
  | cons m l ih =>
    rw [List.countP_cons, List.countP_cons, List.count_cons, ih]
    by_cases hm : m = n
    · simp [hm, hn]
      omega
    · by_cases hmp : m ∈ placed <;> simp [hm, hmp]; omega

theorem lt_of_mem_successorsOf (h : k.WellFormed) {m n : NodeId} (hm : m ∈ successorsOf k n) :
    m < k.nodes.length := by
  have hpos := List.count_pos_iff.mpr hm
  rw [count_successorsOf h] at hpos
  obtain ⟨e, he, hl⟩ := List.countP_pos_iff.mp hpos
  obtain ⟨-, rfl⟩ := of_decide_eq_true hl
  obtain ⟨i, hi⟩ := List.mem_iff_getElem?.mp he
  exact h.target_lt hi

/-- Placing a ready node. -/
theorem step {n : NodeId} (h : k.WellFormed) (hp : Placing k pending (n :: ready) placed)
    (hr : release pending ready (successorsOf k n) = .ok (pending', ready')) :
    Placing k pending' ready' (placed ++ [n]) := by
  have hcount := release_count hr
  obtain ⟨hn0, hnp⟩ := hp.ready_free n List.mem_cons_self
  have hpreds := hp.predecessors_placed hn0
  obtain ⟨hnr, hrn⟩ := List.nodup_cons.mp hp.ready_nodup
  have hfree : ∀ x ∈ ready, pending x = 0 ∧ x ∉ placed := fun x hx =>
    hp.ready_free x (List.mem_cons_of_mem n hx)
  constructor
  case pending_eq =>
    intro x
    have hx := hcount x
    rw [hp.pending_eq, count_successorsOf h, ← count_predecessorsOf h, countP_unplaced hnp] at hx
    omega
  case ready_lt =>
    intro x hx
    rcases mem_of_release hr hx with hx | ⟨hx, -⟩
    · exact hp.ready_lt x (List.mem_cons_of_mem n hx)
    · exact lt_of_mem_successorsOf h hx
  case ready_nodup => exact nodup_of_release hr (fun x hx => (hfree x hx).1) hrn
  case ready_free =>
    intro x hx
    rcases mem_of_release hr hx with hx | ⟨hx, h0⟩
    · have hx' := hcount x
      rw [(hfree x hx).1] at hx'
      refine ⟨by omega, fun hxp => ?_⟩
      rcases List.mem_append.mp hxp with hxp | hxn
      · exact (hfree x hx).2 hxp
      · exact hnr (List.mem_singleton.mp hxn ▸ hx)
    · -- a node that became ready had a pending read before the step
      have hpos := List.count_pos_iff.mpr hx
      have hx' := hcount x
      refine ⟨h0, fun hxp => ?_⟩
      rcases List.mem_append.mp hxp with hxp | hxn
      · rw [hp.pending_eq, List.countP_eq_zero.mpr fun m hm => by simpa using hp.closed x hxp m hm]
          at hx'
        omega
      · obtain rfl := List.mem_singleton.mp hxn
        omega
  case placed_lt =>
    intro x hx
    rcases List.mem_append.mp hx with hx | hx
    · exact hp.placed_lt x hx
    · exact hp.ready_lt x (by simp [List.mem_singleton.mp hx])
  case closed =>
    intro x hx m hm
    rcases List.mem_append.mp hx with hx | hx
    · exact List.mem_append_left _ (hp.closed x hx m hm)
    · exact List.mem_append_left _ (hpreds m (List.mem_singleton.mp hx ▸ hm))
  case ordered =>
    refine List.pairwise_append.mpr ⟨hp.ordered, List.pairwise_singleton _ _, fun x hx y hy => ?_⟩
    obtain rfl := List.mem_singleton.mp hy
    exact ⟨fun hxy => hnp (hxy ▸ hx), fun hy => hnp (hp.closed x hx y hy)⟩
  case irrefl =>
    intro x hx hself
    rcases List.mem_append.mp hx with hx | hx
    · exact hp.irrefl x hx hself
    · obtain rfl := List.mem_singleton.mp hx
      exact hnp (hpreds x hself)

theorem place (h : k.WellFormed) {fuel : Nat} {order : List NodeId}
    (hp : Placing k pending ready placed)
    (ho : Analysis.place (successorsOf k) fuel pending ready placed = .ok (order, pending')) :
    ∃ ready', Placing k pending' ready' order := by
  induction fuel generalizing pending ready placed with
  | zero =>
    obtain ⟨rfl, rfl⟩ := Prod.mk.inj (Except.ok.inj ho)
    exact ⟨ready, hp⟩
  | succ fuel ih =>
    cases ready with
    | nil =>
      obtain ⟨rfl, rfl⟩ := Prod.mk.inj (Except.ok.inj ho)
      exact ⟨[], hp⟩
    | cons n ready =>
      obtain ⟨⟨pending₁, ready₁⟩, hr, ho⟩ := bind_eq_ok.mp ho
      exact ih (hp.step h hr) ho

end Placing

/-- At the start the ready nodes are those that read no output. -/
theorem placing_start {k : Kernel} (h : k.WellFormed) :
    Placing k (pendingOf k) ((k.nodes.filter fun n => pendingOf k n.id = 0).map Node.id) [] := by
  have hready : ∀ n ∈ (k.nodes.filter fun n => pendingOf k n.id = 0).map Node.id,
      n < k.nodes.length ∧ pendingOf k n = 0 := by
    simp only [List.mem_map, List.mem_filter, decide_eq_true_eq]
    rintro _ ⟨n, ⟨hn, h0⟩, rfl⟩
    exact ⟨List.mem_range.mp (h.node_ids ▸ List.mem_map_of_mem hn), h0⟩
  refine ⟨fun n => by simp [pendingOf_eq], fun n hn => (hready n hn).1, ?_,
    fun n hn => ⟨(hready n hn).2, by simp⟩, by simp, by simp, .nil, by simp⟩
  exact (h.node_ids ▸ List.nodup_range).sublist (List.filter_sublist.map _)

/-- A successful analysis gives a topological order. -/
theorem topological_of_eq_ok {k : Kernel} (h : k.WellFormed) {order : List NodeId}
    (ho : topologicalOrder k = .ok order) : Topological k order := by
  obtain ⟨⟨order', pending⟩, hplace, ho⟩ := bind_eq_ok.mp ho
  obtain ⟨ready, hp⟩ := (placing_start h).place h (ofFault_eq_ok.mp hplace)
  dsimp only at ho
  split_ifs at ho with hlen
  · cases ho
  obtain rfl := pure_eq_ok.mp ho
  have hnodup : order'.Nodup := hp.ordered.imp fun hmn => hmn.1
  -- as many distinct nodes as there are positions
  have hperm : order'.Perm (List.range k.nodes.length) :=
    (hnodup.subperm fun n hn => List.mem_range.mpr (hp.placed_lt n hn)).perm_of_length_le
      (by simpa using hlen)
  have hmem : ∀ n, n ∈ order' ↔ n < k.nodes.length := fun n => by rw [hperm.mem_iff, List.mem_range]
  refine ⟨hmem, hp.ordered, fun n hn => ?_⟩
  by_cases hlt : n < k.nodes.length
  · exact hp.irrefl n ((hmem n).mpr hlt) hn
  · simp [predecessorsOf, List.getElem?_eq_none (Nat.le_of_not_lt hlt)] at hn

/-! ### The graph -/

/-- What is read off the declarations of the nodes is the same on the same graph. -/
theorem map_nodes_of_sameGraph {k k' : Kernel} (hs : k.SameGraph k') {β : Type} {f : Node → β}
    (hf : ∀ n : Node, f n.bare = f n) : k'.nodes.map f = k.nodes.map f := by
  have := congrArg (List.map f) hs.nodes
  simpa only [List.map_map, Function.comp_def, hf] using this

/-- The order is a matter of the graph. -/
theorem topologicalOrder_of_sameGraph {k k' : Kernel} (hs : k.SameGraph k') :
    topologicalOrder k' = topologicalOrder k := by
  have hget : ∀ i : DataId, (k'.data[i]?).map DataItem.reset = (k.data[i]?).map DataItem.reset := by
    intro i
    simpa only [List.getElem?_map] using congrArg (·[i]?) hs.data
  have hsucc : k'.successors = k.successors := by
    funext n
    have hi := hget n.output
    unfold Kernel.successors Kernel.usersOf
    rw [hs.edges]
    cases h : k.data[n.output]? with
    | none =>
      rw [h, Option.map_none, Option.map_eq_none_iff] at hi
      rw [hi]
    | some d =>
      rw [h, Option.map_some, Option.map_eq_some_iff] at hi
      obtain ⟨d', hd', hr⟩ := hi
      rw [hd']
      dsimp only
      rw [show d'.users = d.users from congrArg (·.users) hr]
  have hpred : k'.predecessors = k.predecessors := by
    funext n
    unfold Kernel.predecessors Kernel.inputEdges
    rw [hs.edges]
    refine List.filterMap_congr fun e _ => ?_
    have := congrArg (fun o : Option DataItem => o.bind DataItem.producer) (hget e.source)
    simpa [Option.bind_map, Function.comp_def, DataItem.reset] using this
  have hnode : ∀ {β : Type} {f : Node → β}, (∀ n : Node, f n.bare = f n) → ∀ m : NodeId,
      (k'.nodes[m]?).map f = (k.nodes[m]?).map f := by
    intro β f hf m
    rw [← List.getElem?_map, map_nodes_of_sameGraph hs hf, List.getElem?_map]
  have hsuccessors : successorsOf k' = successorsOf k := by
    funext m
    rw [successorsOf, successorsOf, hsucc, hnode fun _ => rfl]
  have hpending : pendingOf k' = pendingOf k := by
    funext m
    rw [pendingOf, pendingOf, hpred, hnode fun _ => rfl]
  have hfilter : ∀ {β : Type} (p : NodeId → Bool) {f : Node → β}, (∀ n : Node, f n.bare = f n) →
      (k'.nodes.filter fun n => p n.id).map f = (k.nodes.filter fun n => p n.id).map f := by
    intro β p f hf
    have hpairs : ∀ l : List Node, (l.filter fun n => p n.id).map f =
        ((l.map fun n => (n.id, f n)).filter fun x => p x.1).map Prod.snd := by
      intro l
      simp [List.filter_map, Function.comp_def]
    rw [hpairs, hpairs, map_nodes_of_sameGraph hs fun n => by rw [hf]; rfl]
  have hlen : k'.nodes.length = k.nodes.length := by
    simpa using congrArg List.length hs.nodes
  have hids := fun p => hfilter p (f := Node.id) fun _ => rfl
  have hnames := fun p => hfilter p (f := Node.name) fun _ => rfl
  unfold topologicalOrder
  simp only [hsuccessors, hpending, hlen, hs.name, hids fun n => decide (pendingOf k n = 0)]
  refine congrArg (_ >>= ·) (funext fun placed => ?_)
  rw [hnames fun n => decide (0 < placed.2 n)]

end StencilTiling.Analysis
