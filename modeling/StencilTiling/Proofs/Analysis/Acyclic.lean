import Mathlib.Data.Fintype.EquivFin
import Mathlib.Order.WellFounded
import StencilTiling.Proofs.Analysis.Order

/-! An order exists exactly on the graphs without cycles. Placing nodes never runs out of
pending reads to take off, and a node whose producers are all placed is placed or ready.
So when no node is ready any more, every node that is left reads an output of another one
that is left, which cannot go on forever unless there is a cycle. -/

namespace StencilTiling.Analysis

/-- One node reads the output of another. -/
def Precedes (k : Kernel) (m n : NodeId) : Prop := m ∈ predecessorsOf k n

/-- No node depends on its own output. -/
def Acyclic (k : Kernel) : Prop := ∀ n, ¬ Relation.TransGen (Precedes k) n n

/-- Both ends of a read are nodes. -/
theorem Precedes.lt {k : Kernel} (h : k.WellFormed) {m n : NodeId} (hmn : Precedes k m n) :
    m < k.nodes.length ∧ n < k.nodes.length := by
  have hpos : 0 < (predecessorsOf k n).count m := List.count_pos_iff.mpr hmn
  rw [count_predecessorsOf h] at hpos
  obtain ⟨e, he, hl⟩ := List.countP_pos_iff.mp hpos
  by_contra hlt
  rw [not_and_or, not_lt, not_lt] at hlt
  exact not_links h he (hlt.imp List.getElem?_eq_none List.getElem?_eq_none) (of_decide_eq_true hl)

/-! ### Orders exclude cycles -/

/-- In a list in which no producer stands after its consumers, the producers that are listed
stand before them. -/
theorem idxOf_lt_of_ordered {k : Kernel} {l : List NodeId}
    (hl : l.Pairwise fun m n => m ≠ n ∧ n ∉ predecessorsOf k m) {m n : NodeId} (hm : m ∈ l) (hn : n ∈ l)
    (hirrefl : n ∉ predecessorsOf k n) (hmn : Precedes k m n) : l.idxOf m < l.idxOf n := by
  have hm' := List.idxOf_lt_length_iff.mpr hm
  have hn' := List.idxOf_lt_length_iff.mpr hn
  by_contra hle
  rcases Nat.lt_or_eq_of_le (Nat.le_of_not_lt hle) with hlt | heq
  · have hpair := List.pairwise_iff_getElem.mp hl _ _ hn' hm' hlt
    rw [List.getElem_idxOf, List.getElem_idxOf] at hpair
    exact hpair.2 hmn
  · have hsame : l[l.idxOf n]? = l[l.idxOf m]? := by rw [heq]
    rw [List.getElem?_eq_getElem hn', List.getElem?_eq_getElem hm', List.getElem_idxOf,
      List.getElem_idxOf] at hsame
    obtain rfl := Option.some.inj hsame
    exact hirrefl hmn

/-- Producers stand before their consumers. -/
theorem Topological.idxOf_lt {k : Kernel} {order : List NodeId} (h : k.WellFormed)
    (ht : Topological k order) {m n : NodeId} (hmn : Precedes k m n) :
    order.idxOf m < order.idxOf n := by
  obtain ⟨hm, hn⟩ := hmn.lt h
  exact idxOf_lt_of_ordered ht.ordered ((ht.mem_iff m).mpr hm) ((ht.mem_iff n).mpr hn)
    (ht.irrefl n) hmn

theorem Topological.acyclic {k : Kernel} {order : List NodeId} (h : k.WellFormed)
    (ht : Topological k order) : Acyclic k := by
  have hlt : ∀ {m n}, Relation.TransGen (Precedes k) m n → order.idxOf m < order.idxOf n := by
    intro m n hmn
    induction hmn with
    | single hstep => exact ht.idxOf_lt h hstep
    | tail _ hstep ih => exact ih.trans (ht.idxOf_lt h hstep)
  exact fun n hn => lt_irrefl _ (hlt hn)

/-! ### Nodes left over -/

/-- Among nodes that lie on no cycle there is one that reads no output of another. -/
theorem exists_first {k : Kernel} (h : k.WellFormed) {P : NodeId → Prop}
    (hP : ∀ n, P n → ¬ Relation.TransGen (Precedes k) n n) {n : NodeId} (hn : n < k.nodes.length)
    (hPn : P n) : ∃ m < k.nodes.length, P m ∧ ∀ p ∈ predecessorsOf k m, ¬ P p := by
  let before : Fin k.nodes.length → Fin k.nodes.length → Prop := fun a b =>
    P a ∧ Relation.TransGen (Precedes k) a b
  have : IsTrans (Fin k.nodes.length) before := ⟨fun _ _ _ hab hbc => ⟨hab.1, hab.2.trans hbc.2⟩⟩
  have : Std.Irrefl before := ⟨fun a haa => hP a haa.1 haa.2⟩
  have hwf : WellFounded before := Finite.wellFounded_of_trans_of_irrefl before
  obtain ⟨m, hm, hmin⟩ := hwf.has_min {a | P a.1} ⟨⟨n, hn⟩, hPn⟩
  exact ⟨m, m.2, hm, fun p hp hPp => hmin ⟨p, (Precedes.lt h hp).1⟩ hPp ⟨hPp, .single hp⟩⟩

/-- Without cycles one of the nodes that are left reads placed outputs only. -/
theorem Acyclic.exists_free {k : Kernel} (ha : Acyclic k) (h : k.WellFormed) {placed : List NodeId}
    {n : NodeId} (hn : n < k.nodes.length) (hnp : n ∉ placed) :
    ∃ m < k.nodes.length, m ∉ placed ∧ ∀ p ∈ predecessorsOf k m, p ∈ placed := by
  obtain ⟨m, hm, hmp, hfirst⟩ := exists_first h (P := (· ∉ placed)) (fun n _ => ha n) hn hnp
  exact ⟨m, hm, hmp, fun p hp => not_not.mp (hfirst p hp)⟩

/-! ### Placing goes on -/

section Release

variable {succ : List NodeId} {pending pending' : NodeId → Nat} {ready ready' : List NodeId}

/-- Releasing succeeds as long as no consumer is listed more often than it has pending reads. -/
theorem exists_release (hcount : ∀ n, succ.count n ≤ pending n) :
    ∃ result, release pending ready succ = .ok result := by
  induction succ generalizing pending ready with
  | nil => exact ⟨_, rfl⟩
  | cons m rest ih =>
    have hm := hcount m
    rw [List.count_cons_self] at hm
    obtain ⟨left, hleft⟩ := Nat.exists_eq_add_one.mpr (show 0 < pending m by omega)
    rw [release, hleft]
    refine ih fun n => ?_
    have hn := hcount n
    unfold assign
    split_ifs with heq
    · subst heq
      omega
    · rwa [List.count_cons_of_ne (Ne.symm heq)] at hn

/-- A consumer that has no pending reads left is ready. -/
theorem mem_ready_of_release (h : release pending ready succ = .ok (pending', ready')) {n : NodeId}
    (hn : n ∈ ready ∨ n ∈ succ ∧ pending' n = 0) : n ∈ ready' := by
  induction succ generalizing pending ready with
  | nil =>
    obtain ⟨-, rfl⟩ := Prod.mk.inj (Except.ok.inj h)
    exact hn.resolve_right fun hnil => by cases hnil.1
  | cons m rest ih =>
    obtain ⟨left, hleft, h⟩ := release_cons h
    refine ih h ?_
    rcases hn with hn | ⟨hn, h0⟩
    · exact .inl (mem_ready_step.mpr (.inl hn))
    · by_cases hrest : n ∈ rest
      · exact .inr ⟨hrest, h0⟩
      · -- the last time the node is listed takes off its last pending read
        obtain rfl : n = m := (List.mem_cons.mp hn).resolve_right hrest
        have hcount := release_count h n
        rw [assign, if_pos rfl, h0, List.count_eq_zero_of_not_mem hrest] at hcount
        exact .inl (mem_ready_step.mpr (.inr ⟨hcount.symm, rfl⟩))

end Release

/-- Every node without pending reads is placed or ready. -/
def NoneMissed (k : Kernel) (pending : NodeId → Nat) (ready placed : List NodeId) : Prop :=
  ∀ n < k.nodes.length, pending n = 0 → n ∈ placed ∨ n ∈ ready

namespace Placing

variable {k : Kernel} {pending pending' : NodeId → Nat} {ready ready' placed : List NodeId}

/-- The consumers of a ready node can be released. -/
theorem exists_step {n : NodeId} (h : k.WellFormed) (hp : Placing k pending (n :: ready) placed) :
    ∃ pending' ready', release pending ready (successorsOf k n) = .ok (pending', ready') := by
  obtain ⟨-, hnp⟩ := hp.ready_free n List.mem_cons_self
  have hcount : ∀ x, (successorsOf k n).count x ≤ pending x := fun x => by
    rw [hp.pending_eq, count_successorsOf h, ← count_predecessorsOf h, countP_unplaced hnp]
    omega
  obtain ⟨⟨pending', ready'⟩, hr⟩ := exists_release hcount
  exact ⟨pending', ready', hr⟩

theorem noneMissed_step {n : NodeId} (hm : NoneMissed k pending (n :: ready) placed)
    (hr : release pending ready (successorsOf k n) = .ok (pending', ready')) :
    NoneMissed k pending' ready' (placed ++ [n]) := by
  intro x hx h0
  by_cases hsucc : x ∈ successorsOf k n
  · exact .inr (mem_ready_of_release hr (.inr ⟨hsucc, h0⟩))
  · have hcount := release_count hr x
    rw [List.count_eq_zero_of_not_mem hsucc, h0] at hcount
    rcases hm x hx hcount.symm with hplaced | hready
    · exact .inl (List.mem_append_left _ hplaced)
    · rcases List.mem_cons.mp hready with rfl | hready
      · exact .inl (List.mem_append_right _ (List.mem_singleton.mpr rfl))
      · exact .inr (mem_ready_of_release hr (.inl hready))

/-- Placing ends with as many nodes as it may place, or with all that can be. -/
theorem exists_place (h : k.WellFormed) (fuel : Nat) (hp : Placing k pending ready placed)
    (hm : NoneMissed k pending ready placed) :
    ∃ order pending', Analysis.place (successorsOf k) fuel pending ready placed = .ok (order, pending') ∧
      (order.length = placed.length + fuel ∨ ∀ n < k.nodes.length, pending' n = 0 → n ∈ order) := by
  induction fuel generalizing pending ready placed with
  | zero => exact ⟨placed, pending, rfl, .inl rfl⟩
  | succ fuel ih =>
    cases ready with
    | nil => exact ⟨placed, pending, rfl, .inr fun n hn h0 => (hm n hn h0).resolve_right (by simp)⟩
    | cons n ready =>
      obtain ⟨pending₁, ready₁, hr⟩ := hp.exists_step h
      obtain ⟨order, pending', hplace, hend⟩ := ih (hp.step h hr) (noneMissed_step hm hr)
      refine ⟨order, pending', bind_eq_ok.mpr ⟨_, hr, hplace⟩, hend.imp_left fun hlen => ?_⟩
      rw [hlen, List.length_append, List.length_singleton]
      omega

end Placing

theorem noneMissed_start {k : Kernel} (h : k.WellFormed) : NoneMissed k (pendingOf k)
    ((k.nodes.filter fun n => pendingOf k n.id = 0).map Node.id) [] := by
  intro n hn h0
  have hget : k.nodes[n]? = some k.nodes[n] := List.getElem?_eq_getElem hn
  have hid := h.node_id hget
  refine .inr (List.mem_map.mpr ⟨k.nodes[n], List.mem_filter.mpr ⟨List.getElem_mem hn, ?_⟩, hid⟩)
  rw [hid]
  exact decide_eq_true h0

/-! ### The order -/

/-- The outcome when placing has ended. -/
theorem topologicalOrder_of_place {k : Kernel} {order : List NodeId} {pending : NodeId → Nat}
    (h : place (successorsOf k) k.nodes.length (pendingOf k)
      ((k.nodes.filter fun n => pendingOf k n.id = 0).map Node.id) [] = .ok (order, pending)) :
    topologicalOrder k =
      if order.length < k.nodes.length then
        .error (.cycle k.name ((k.nodes.filter fun n => 0 < pending n.id).map Node.name))
      else .ok order := by
  rw [topologicalOrder, h]
  rfl

/-- The order is found, or some nodes are left over and reported. -/
theorem topologicalOrder_cases {k : Kernel} (h : k.WellFormed) :
    (∃ order, topologicalOrder k = .ok order) ∨
      (∃ nodes, topologicalOrder k = .error (.cycle k.name nodes)) ∧
        ∃ placed : List NodeId, (∃ n < k.nodes.length, n ∉ placed) ∧
          ∀ n < k.nodes.length, (∀ p ∈ predecessorsOf k n, p ∈ placed) → n ∈ placed := by
  obtain ⟨order, pending, hplace, hend⟩ :=
    (placing_start h).exists_place h k.nodes.length (noneMissed_start h)
  obtain ⟨ready, hp⟩ := (placing_start h).place h hplace
  rw [topologicalOrder_of_place hplace]
  by_cases hlen : order.length < k.nodes.length
  · rw [if_pos hlen]
    refine .inr ⟨⟨_, rfl⟩, order, ?_, fun n hn hpreds => ?_⟩
    · by_contra hall
      have hsub : List.range k.nodes.length ⊆ order := fun n hn => by
        by_contra hno
        exact hall ⟨n, List.mem_range.mp hn, hno⟩
      have hle := (List.nodup_range.subperm hsub).length_le
      rw [List.length_range] at hle
      omega
    · have h0 : pending n = 0 := by
        rw [hp.pending_eq, List.countP_eq_zero]
        exact fun p hp' => by simpa using hpreds p hp'
      rcases hend with hfull | hnone
      · rw [hfull, List.length_nil] at hlen
        omega
      · exact hnone n hn h0
  · rw [if_neg hlen]
    exact .inl ⟨order, rfl⟩

theorem topologicalOrder_of_acyclic {k : Kernel} (h : k.WellFormed) (ha : Acyclic k) :
    ∃ order, topologicalOrder k = .ok order := by
  rcases topologicalOrder_cases h with hok | ⟨-, placed, ⟨n, hn, hnp⟩, hclosed⟩
  · exact hok
  · obtain ⟨m, hm, hmp, hpreds⟩ := ha.exists_free h hn hnp
    exact absurd (hclosed m hm hpreds) hmp

theorem topologicalOrder_of_cyclic {k : Kernel} (h : k.WellFormed) (hc : ¬ Acyclic k) :
    ∃ nodes, topologicalOrder k = .error (.cycle k.name nodes) := by
  rcases topologicalOrder_cases h with ⟨order, ho⟩ | ⟨herr, -⟩
  · exact absurd ((topological_of_eq_ok h ho).acyclic h) hc
  · exact herr

end StencilTiling.Analysis
