import Mathlib.Data.List.Lex
import Mathlib.Data.List.Sort
import StencilTiling.Proofs.Analysis.Acyclic

/-! The order is the least of all orders that put producers before consumers. The ready
nodes are kept ascending, and a node that could stand next in any such order is ready, so
the node placed next is never larger than the one another order has in its place. When
sorting ends without all nodes, those left are the nodes on a cycle and the nodes that
depend on one. -/

namespace StencilTiling.Analysis

/-- All nodes, every producer before its consumers. -/
structure Linearizes (k : Kernel) (order : List NodeId) : Prop where
  perm : order.Perm (k.nodes.map Node.id)
  before : ∀ m n, Precedes k m n → order.idxOf m < order.idxOf n

/-- The node lies on a cycle or depends on one. -/
def AfterCycle (k : Kernel) (n : NodeId) : Prop :=
  ∃ c, Relation.TransGen (Precedes k) c c ∧ Relation.ReflTransGen (Precedes k) c n

theorem linearizes_iff {k : Kernel} (h : k.WellFormed) {order : List NodeId} :
    Linearizes k order ↔ Topological k order := by
  have hids := h.node_ids
  constructor
  · intro hl
    have hnodup : order.Nodup := hl.perm.nodup_iff.mpr (hids ▸ List.nodup_range)
    refine ⟨fun n => ?_, List.pairwise_iff_getElem.mpr fun i j hi hj hij => ⟨?_, fun hp => ?_⟩,
      fun n hn => lt_irrefl _ (hl.before n n hn)⟩
    · rw [hl.perm.mem_iff, hids, List.mem_range]
    · exact fun heq => hij.ne (hnodup.getElem_inj_iff.mp heq)
    · have hlt := hl.before _ _ hp
      rw [hnodup.idxOf_getElem _ _, hnodup.idxOf_getElem _ _] at hlt
      omega
  · intro ht
    have hnodup : order.Nodup := ht.ordered.imp fun hmn => hmn.1
    refine ⟨(List.perm_ext_iff_of_nodup hnodup (hids ▸ List.nodup_range)).mpr fun n => ?_,
      fun m n => ht.idxOf_lt h⟩
    rw [ht.mem_iff, hids, List.mem_range]

/-- Node by node, as it can be computed. -/
theorem linearizes_of_forall {k : Kernel} (h : k.WellFormed) {order : List NodeId}
    (hperm : order.Perm (k.nodes.map Node.id))
    (hbefore : ∀ n ∈ k.nodes, ∀ m ∈ k.predecessors n, order.idxOf m < order.idxOf n.id) :
    Linearizes k order := by
  refine ⟨hperm, fun m i hm => ?_⟩
  rw [Precedes, predecessorsOf] at hm
  cases hn : k.nodes[i]? with
  | none =>
    rw [hn] at hm
    cases hm
  | some n =>
    rw [hn] at hm
    exact h.node_id hn ▸ hbefore n (List.mem_of_getElem? hn) m hm

/-! ### The ready nodes -/

theorem insertReady_eq (n : NodeId) (l : List NodeId) : insertReady n l = l.orderedInsert (· ≤ ·) n := by
  induction l with
  | nil => rfl
  | cons m rest ih => rw [insertReady, ih, List.orderedInsert_cons]

/-- The consumers that lose their last pending read, in this order. -/
def freed (pending : NodeId → Nat) : List NodeId → List NodeId
  | [] => []
  | n :: rest => (if pending n = 1 then [n] else []) ++ freed (assign pending n (pending n - 1)) rest

section Release

variable {succ : List NodeId} {pending pending' : NodeId → Nat} {ready ready' : List NodeId}

theorem sorted_of_release (h : release pending ready succ = .ok (pending', ready'))
    (hsorted : ready.Pairwise (· ≤ ·)) : ready'.Pairwise (· ≤ ·) := by
  induction succ generalizing pending ready with
  | nil =>
    obtain ⟨-, rfl⟩ := Prod.mk.inj (Except.ok.inj h)
    exact hsorted
  | cons n rest ih =>
    obtain ⟨left, -, h⟩ := release_cons h
    refine ih h ?_
    split_ifs
    · rw [insertReady_eq]
      exact hsorted.orderedInsert n ready
    · exact hsorted

/-- What is ready after releasing was ready before or has been freed. -/
theorem perm_of_release (h : release pending ready succ = .ok (pending', ready')) :
    ready'.Perm (ready ++ freed pending succ) := by
  induction succ generalizing pending ready with
  | nil =>
    obtain ⟨-, rfl⟩ := Prod.mk.inj (Except.ok.inj h)
    rw [freed, List.append_nil]
  | cons n rest ih =>
    obtain ⟨left, hleft, h⟩ := release_cons h
    have hperm := ih h
    rw [freed, hleft, Nat.add_sub_cancel]
    by_cases h0 : left = 0
    · subst h0
      rw [if_pos rfl] at hperm ⊢
      refine hperm.trans (((insertReady_perm n ready).append_right _).trans ?_)
      exact List.perm_middle.symm
    · rw [if_neg h0] at hperm
      rw [if_neg (by omega), List.nil_append]
      exact hperm

end Release

/-! ### Sorting, state by state -/

/-- A state of the sort. -/
structure Sorting where
  pending : NodeId → Nat
  ready : List NodeId
  placed : List NodeId
  /-- Every node that was made ready so far, as often as it was. -/
  entered : List NodeId

/-- The nodes that read no output. -/
def firstReady (k : Kernel) : List NodeId := (k.nodes.filter fun n => pendingOf k n.id = 0).map Node.id

namespace Sorting

/-- The states a sort passes through. -/
inductive Reached (k : Kernel) : Sorting → Prop
  | start : Reached k ⟨pendingOf k, firstReady k, [], firstReady k⟩
  | place {pending pending' : NodeId → Nat} {n : NodeId} {ready ready' placed entered : List NodeId} :
      Reached k ⟨pending, n :: ready, placed, entered⟩ →
      release pending ready (successorsOf k n) = .ok (pending', ready') →
      Reached k ⟨pending', ready', placed ++ [n], entered ++ freed pending (successorsOf k n)⟩

/-- Placing from a state on ends in a state, with the nodes it may place or with none ready. -/
theorem Reached.run {k : Kernel} {fuel : Nat} {s : Sorting} (hs : s.Reached k) {order : List NodeId}
    {pending : NodeId → Nat}
    (h : Analysis.place (successorsOf k) fuel s.pending s.ready s.placed = .ok (order, pending)) :
    ∃ t : Sorting, t.Reached k ∧ t.placed = order ∧ t.pending = pending ∧
      (order.length = s.placed.length + fuel ∨ t.ready = []) := by
  induction fuel generalizing s with
  | zero =>
    obtain ⟨rfl, rfl⟩ := Prod.mk.inj (Except.ok.inj h)
    exact ⟨s, hs, rfl, rfl, .inl rfl⟩
  | succ fuel ih =>
    obtain ⟨pending₀, ready, placed, entered⟩ := s
    cases ready with
    | nil =>
      obtain ⟨rfl, rfl⟩ := Prod.mk.inj (Except.ok.inj h)
      exact ⟨_, hs, rfl, rfl, .inr rfl⟩
    | cons n ready =>
      obtain ⟨⟨pending₁, ready₁⟩, hr, h⟩ := bind_eq_ok.mp h
      obtain ⟨t, ht, hplaced, hpending, hend⟩ := ih (hs.place hr) h
      refine ⟨t, ht, hplaced, hpending, hend.imp_left fun hlen => ?_⟩
      rw [hlen, List.length_append, List.length_singleton]
      dsimp only
      omega

/-- What holds in every state. -/
structure Sound (k : Kernel) (s : Sorting) : Prop where
  placing : Placing k s.pending s.ready s.placed
  noneMissed : NoneMissed k s.pending s.ready s.placed
  sorted : s.ready.Pairwise (· ≤ ·)
  entered_perm : s.entered.Perm (s.placed ++ s.ready)

theorem Reached.sound {k : Kernel} (h : k.WellFormed) {s : Sorting} (hs : s.Reached k) : s.Sound k := by
  induction hs with
  | start =>
    refine ⟨placing_start h, noneMissed_start h, ?_, .refl _⟩
    have hrange : (k.nodes.map Node.id).Pairwise (· ≤ ·) := by
      rw [h.node_ids]
      exact List.pairwise_le_range
    exact hrange.sublist (List.filter_sublist.map _)
  | @place pending pending' n ready ready' placed entered _ hr ih =>
    refine ⟨ih.placing.step h hr, Placing.noneMissed_step ih.noneMissed hr,
      sorted_of_release hr (List.pairwise_cons.mp ih.sorted).2, ?_⟩
    calc entered ++ freed pending (successorsOf k n)
        |>.Perm ((placed ++ n :: ready) ++ freed pending (successorsOf k n)) :=
          ih.entered_perm.append_right _
      _ = (placed ++ [n]) ++ (ready ++ freed pending (successorsOf k n)) := by simp
      _ |>.Perm ((placed ++ [n]) ++ ready') := (perm_of_release hr).symm.append_left _

/-- No node is made ready twice. -/
theorem Sound.nodup_entered {k : Kernel} {s : Sorting} (hs : s.Sound k) : s.entered.Nodup := by
  rw [hs.entered_perm.nodup_iff, List.nodup_append]
  refine ⟨hs.placing.ordered.imp fun hmn => hmn.1, hs.placing.ready_nodup, ?_⟩
  rintro n hplaced _ hready rfl
  exact (hs.placing.ready_free n hready).2 hplaced

/-! ### The least order -/

/-- The first place at which two lists differ has the smaller entry in the first one. -/
def FirstBelow (order other : List NodeId) : Prop :=
  ∃ common n m tail tail', order = common ++ n :: tail ∧ other = common ++ m :: tail' ∧ n < m

theorem FirstBelow.lex {order other : List NodeId} (h : FirstBelow order other) :
    List.Lex (· < ·) order other := by
  obtain ⟨common, n, m, tail, tail', rfl, rfl, hlt⟩ := h
  exact List.Lex.append_left (· < ·) (.rel hlt) common

/-- A node that may stand next is ready. -/
theorem Sound.mem_ready {k : Kernel} {s : Sorting} (h : k.WellFormed) (hs : s.Sound k) {m : NodeId}
    {tail : List NodeId} (ho : Topological k (s.placed ++ m :: tail)) : m ∈ s.ready := by
  obtain ⟨-, hpairs, hcross⟩ := List.pairwise_append.mp ho.ordered
  have hm : m < k.nodes.length := (ho.mem_iff m).mp (by simp)
  have hpending : s.pending m = 0 := by
    rw [hs.placing.pending_eq, List.countP_eq_zero]
    intro p hp
    have hmem := (ho.mem_iff p).mpr (Precedes.lt h hp).1
    rcases List.mem_append.mp hmem with hplaced | hrest
    · simpa using hplaced
    · rcases List.mem_cons.mp hrest with rfl | htail
      · exact absurd hp (ho.irrefl p)
      · exact absurd hp ((List.pairwise_cons.mp hpairs).1 p htail).2
  exact (hs.noneMissed m hm hpending).resolve_left fun hmp => (hcross m hmp m List.mem_cons_self).1 rfl

/-- Every other order goes on like the nodes placed so far, or is larger where it first differs. -/
theorem Reached.least {k : Kernel} (h : k.WellFormed) {s : Sorting} (hs : s.Reached k)
    {other : List NodeId} (ho : Topological k other) :
    s.placed <+: other ∨ FirstBelow s.placed other := by
  induction hs with
  | start => exact .inl ⟨other, rfl⟩
  | @place pending pending' n ready ready' placed entered hs hr ih =>
    have hsound := hs.sound h
    rcases ih with ⟨rest, rfl⟩ | ⟨common, a, b, tail, tail', hplaced, hother, hab⟩
    · obtain ⟨-, hnp⟩ := hsound.placing.ready_free n List.mem_cons_self
      have hn := (ho.mem_iff n).mpr (hsound.placing.ready_lt n List.mem_cons_self)
      cases rest with
      | nil => exact absurd (by simpa using hn) hnp
      | cons m rest =>
        -- both `n` and `m` are ready, and `n` is the least ready node
        have hm : m ∈ n :: ready := hsound.mem_ready h ho
        rcases List.mem_cons.mp hm with rfl | hm
        · exact .inl ⟨rest, by simp⟩
        · have hle := (List.pairwise_cons.mp hsound.sorted).1 m hm
          rcases Nat.lt_or_eq_of_le hle with hlt | rfl
          · exact .inr ⟨placed, n, m, [], rest, rfl, rfl, hlt⟩
          · exact .inl ⟨rest, by simp⟩
    · refine .inr ⟨common, a, b, tail ++ [n], tail', ?_, hother, hab⟩
      rw [show placed = common ++ a :: tail from hplaced, List.append_assoc, List.cons_append]

/-! ### Nodes left over -/

/-- What a placed node depends on is placed, and before it. -/
theorem Sound.placed_of_transGen {k : Kernel} {s : Sorting} (hs : s.Sound k) {m n : NodeId}
    (hmn : Relation.TransGen (Precedes k) m n) (hn : n ∈ s.placed) :
    m ∈ s.placed ∧ s.placed.idxOf m < s.placed.idxOf n := by
  have hstep : ∀ {a b}, Precedes k a b → b ∈ s.placed →
      a ∈ s.placed ∧ s.placed.idxOf a < s.placed.idxOf b := fun {a b} hab hb =>
    have ha := hs.placing.closed b hb a hab
    ⟨ha, idxOf_lt_of_ordered hs.placing.ordered ha hb (hs.placing.irrefl b hb) hab⟩
  induction hmn with
  | single hab => exact hstep hab hn
  | tail _ hbc ih =>
    obtain ⟨hb, hlt⟩ := hstep hbc hn
    exact ⟨(ih hb).1, (ih hb).2.trans hlt⟩

/-- Once no node is ready, a node whose producers are all placed is placed. -/
theorem Sound.mem_placed {k : Kernel} {s : Sorting} (hs : s.Sound k) (hend : s.ready = []) {n : NodeId}
    (hn : n < k.nodes.length) (hpreds : ∀ p ∈ predecessorsOf k n, p ∈ s.placed) : n ∈ s.placed := by
  have h0 : s.pending n = 0 := by
    rw [hs.placing.pending_eq, List.countP_eq_zero]
    exact fun p hp => by simpa using hpreds p hp
  exact (hs.noneMissed n hn h0).resolve_right (by simp [hend])

/-- Once no node is ready, the nodes left are those on a cycle and those that depend on one. -/
theorem Sound.not_mem_placed_iff {k : Kernel} {s : Sorting} (h : k.WellFormed) (hs : s.Sound k)
    (hend : s.ready = []) {n : NodeId} (hn : n < k.nodes.length) :
    n ∉ s.placed ↔ AfterCycle k n := by
  constructor
  · intro hnp
    by_contra hac
    -- of the nodes left that depend on no cycle, one has no such producer, so all its producers are placed
    obtain ⟨m, hm, ⟨hmp, hmc⟩, hfirst⟩ := exists_first h (P := fun a => a ∉ s.placed ∧ ¬ AfterCycle k a)
      (fun a ha hcycle => ha.2 ⟨a, hcycle, .refl⟩) hn ⟨hnp, hac⟩
    refine hmp (hs.mem_placed hend hm fun p hp => ?_)
    by_contra hpp
    refine hfirst p hp ⟨hpp, ?_⟩
    rintro ⟨c, hcycle, hreach⟩
    exact hmc ⟨c, hcycle, hreach.tail hp⟩
  · rintro ⟨c, hcycle, hreach⟩ hnp
    have hc : c ∈ s.placed := by
      rcases Relation.reflTransGen_iff_eq_or_transGen.mp hreach with rfl | htrans
      · exact hnp
      · exact (hs.placed_of_transGen htrans hnp).1
    exact lt_irrefl _ (hs.placed_of_transGen hcycle hc).2

theorem Sound.pending_pos_iff {k : Kernel} {s : Sorting} (hs : s.Sound k) (hend : s.ready = [])
    {n : NodeId} (hn : n < k.nodes.length) : 0 < s.pending n ↔ n ∉ s.placed := by
  constructor
  · intro hpos hplaced
    rw [hs.placing.pending_eq, List.countP_eq_zero.mpr fun p hp => by
      simpa using hs.placing.closed n hplaced p hp] at hpos
    exact lt_irrefl 0 hpos
  · intro hnp
    refine Nat.pos_of_ne_zero fun h0 => ?_
    exact hnp ((hs.noneMissed n hn h0).resolve_right (by simp [hend]))

/-- The sort ends in a state without ready nodes, and the outcome is read off it. -/
theorem exists_end {k : Kernel} (h : k.WellFormed) : ∃ s : Sorting, s.Reached k ∧ s.ready = [] ∧
    topologicalOrder k =
      if s.placed.length < k.nodes.length then
        .error (.cycle k.name ((k.nodes.filter fun n => 0 < s.pending n.id).map Node.name))
      else .ok s.placed := by
  obtain ⟨order, pending, hplace, -⟩ :=
    (placing_start h).exists_place h k.nodes.length (noneMissed_start h)
  obtain ⟨s, hs, rfl, rfl, hend⟩ := Reached.start.run hplace
  refine ⟨s, hs, ?_, topologicalOrder_of_place hplace⟩
  rcases hend with hfull | hready
  · -- all nodes are placed, and a ready node would be one more
    have hp := (hs.sound h).placing
    have hperm : s.placed.Perm (List.range k.nodes.length) :=
      (List.Nodup.subperm (hp.ordered.imp fun hmn => hmn.1) fun n hn =>
        List.mem_range.mpr (hp.placed_lt n hn)).perm_of_length_le (by simp [hfull])
    refine List.eq_nil_iff_forall_not_mem.mpr fun n hn => (hp.ready_free n hn).2 ?_
    exact hperm.mem_iff.mpr (List.mem_range.mpr (hp.ready_lt n hn))
  · exact hready

end Sorting

/-- There is an order exactly if no node depends on its own output. It is the least of all
orders that put every producer before its consumers. Otherwise the nodes on a cycle and those
that depend on one are reported, by ascending number. On the way no pending count is taken
below zero and no node is made ready twice. -/
theorem order_exact {k : Kernel} (hb : k.Built) :
    ((∃ order, topologicalOrder k = .ok order) ↔ Acyclic k) ∧
    (∀ order, topologicalOrder k = .ok order → Linearizes k order ∧
      ∀ other, Linearizes k other → order = other ∨ List.Lex (· < ·) order other) ∧
    (¬ Acyclic k → ∃ left : List Node, left.Sublist k.nodes ∧
      (∀ n ∈ k.nodes, n ∈ left ↔ AfterCycle k n.id) ∧
      topologicalOrder k = .error (.cycle k.name (left.map Node.name))) ∧
    ∀ s : Sorting, s.Reached k → s.entered.Nodup ∧
      ∀ n rest, s.ready = n :: rest → ∃ next, release s.pending rest (successorsOf k n) = .ok next := by
  have h := hb.wellFormed
  obtain ⟨s, hs, hend, hresult⟩ := Sorting.exists_end h
  have hsound := hs.sound h
  refine ⟨⟨fun ⟨order, ho⟩ => (topological_of_eq_ok h ho).acyclic h, topologicalOrder_of_acyclic h⟩,
    fun order ho => ?_, fun hc => ?_, fun t ht => ⟨(ht.sound h).nodup_entered, fun n rest hready => ?_⟩⟩
  · have horder := (linearizes_iff h).mpr (topological_of_eq_ok h ho)
    refine ⟨horder, fun other hother => ?_⟩
    obtain rfl : s.placed = order := by
      rw [hresult] at ho
      split_ifs at ho
      exact Except.ok.inj ho
    rcases hs.least h ((linearizes_iff h).mp hother) with hstart | hbelow
    · exact .inl (hstart.eq_of_length (horder.perm.trans hother.perm.symm).length_eq)
    · exact .inr hbelow.lex
  · obtain ⟨nodes, hcycle⟩ := topologicalOrder_of_cyclic h hc
    refine ⟨k.nodes.filter fun n => 0 < s.pending n.id, List.filter_sublist, fun n hn => ?_, ?_⟩
    · have hlt : n.id < k.nodes.length := List.mem_range.mp (h.node_ids ▸ List.mem_map_of_mem hn)
      rw [List.mem_filter, decide_eq_true_iff, hsound.pending_pos_iff hend hlt,
        hsound.not_mem_placed_iff h hend hlt]
      exact and_iff_right hn
    · split_ifs at hresult
      · exact hresult
      · cases hcycle.symm.trans hresult
  · have hplacing := (ht.sound h).placing
    rw [hready] at hplacing
    obtain ⟨pending, ready, hr⟩ := hplacing.exists_step h
    exact ⟨_, hr⟩

/-- A node that reads one image twice and writes what two earlier nodes read, and what else
is declared. -/
def braiding (more : List Kernel.Declaration) : Kernel :=
  .ofDeclarations "braiding" <|
    [.input "a" .float [.fixed 8], .data "t" .float [.fixed 8], .data "u" .float [.fixed 8],
      .output "o" .float [.fixed 8], .output "p" .float [.fixed 8],
      .node {} { name := "last", output := 3, inputs := [⟨1, ⟨[⟨0, 0⟩]⟩, .undef⟩, ⟨1, ⟨[⟨-1, 1⟩]⟩, .undef⟩] },
      .node {} { name := "side", output := 4, inputs := [⟨0, ⟨[⟨0, 0⟩]⟩, .undef⟩] },
      .node {} { name := "middle", output := 1, inputs := [⟨2, ⟨[⟨0, 0⟩]⟩, .undef⟩] },
      .node {} { name := "first", output := 2, inputs := [⟨0, ⟨[⟨0, 0⟩]⟩, .undef⟩] }] ++ more

/-- Numbers against the flow of data, and the same with a node that reads its own output. -/
theorem order_exact_braiding :
    (topologicalOrder (braiding []) = .ok [1, 3, 2, 0] ∧ Linearizes (braiding []) [1, 3, 2, 0] ∧
      ∀ other, Linearizes (braiding []) other →
        [1, 3, 2, 0] = other ∨ List.Lex (· < ·) [1, 3, 2, 0] other) ∧
    ¬ Acyclic (braiding [.edge 2 ⟨1, ⟨[⟨0, 0⟩]⟩, .undef⟩]) ∧
      topologicalOrder (braiding [.edge 2 ⟨1, ⟨[⟨0, 0⟩]⟩, .undef⟩]) =
        .error (.cycle "braiding" ["last", "middle"]) ∧
      ∃ left : List Node, (∀ n ∈ (braiding [.edge 2 ⟨1, ⟨[⟨0, 0⟩]⟩, .undef⟩]).nodes,
          n ∈ left ↔ AfterCycle (braiding [.edge 2 ⟨1, ⟨[⟨0, 0⟩]⟩, .undef⟩]) n.id) ∧
        left.map Node.name = ["last", "middle"] := by
  have hbuilt : ∀ more, (braiding more).Built := fun more => Kernel.built_ofDeclarations _ _
  have horder : topologicalOrder (braiding []) = .ok [1, 3, 2, 0] := by decide +kernel
  have hself : Precedes (braiding [.edge 2 ⟨1, ⟨[⟨0, 0⟩]⟩, .undef⟩]) 2 2 :=
    show 2 ∈ predecessorsOf _ 2 by decide +kernel
  have hcyclic : ¬ Acyclic (braiding [.edge 2 ⟨1, ⟨[⟨0, 0⟩]⟩, .undef⟩]) := fun h => h 2 (.single hself)
  have herror : topologicalOrder (braiding [.edge 2 ⟨1, ⟨[⟨0, 0⟩]⟩, .undef⟩]) =
    .error (.cycle "braiding" ["last", "middle"]) := by decide +kernel
  obtain ⟨left, -, hleft, hresult⟩ := (order_exact (hbuilt _)).2.2.1 hcyclic
  refine ⟨⟨horder, (order_exact (hbuilt [])).2.1 _ horder⟩, hcyclic, herror, left, hleft, ?_⟩
  have hsame := hresult.symm.trans herror
  injection hsame with hsame
  injection hsame with _ hnames

end StencilTiling.Analysis
