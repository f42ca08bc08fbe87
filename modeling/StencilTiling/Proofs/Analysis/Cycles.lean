import StencilTiling.Analysis.Cycles
import StencilTiling.Proofs.Analysis.Grains

/-! What the cycle pass records. On a tiled kernel with a topological order it never
fails, and the recorded cycles solve their equations: parameters are there at cycle
zero, and what a node writes comes a lag after everything the node reads. -/

namespace StencilTiling.Analysis

open Arith

/-! ### The equations -/

/-- The recorded cycle of an item, zero if there is none. -/
def cycleAt (k : Kernel) (i : DataId) : Nat := ((k.data[i]?).bind DataItem.cycle).getD 0

/-- Grains of its source that a reader waits for besides the one it is about to use. -/
def grainsAhead (k : Kernel) (dim : Nat) (e : Edge) : Int :=
  match k.nodes[e.target]? with
  | some n =>
    ceilDiv (clampNonneg (e.read.last dim - (n.inStride.get dim - 1))) (max (grainAt k dim e.source) 1)
  | none => 0

/-- Cycles from the source of an edge to what its target writes. -/
def lagAt (k : Kernel) (dim : Nat) (e : Edge) : Nat := addCount 1 (wrap32 (grainsAhead k dim e))

/-- The least cycle after everything a node reads. -/
def cycleAfterReads (k : Kernel) (dim : Nat) (n : Node) : Nat :=
  n.controls.foldl (fun cycle d => max cycle (addCount (cycleAt k d) 1))
    ((k.inputEdges n).foldl (fun cycle e => max cycle (addCount (cycleAt k e.source) (lagAt k dim e))) 1)

/-- No lag and no cycle that a reader is due at is cut to 32 bits. -/
def CyclesFit (k : Kernel) (dim : Nat) : Prop :=
  ∀ e ∈ k.edges, (cycleAt k e.source : Int) + (1 + grainsAhead k dim e) < 0x100000000

instance (k : Kernel) (dim : Nat) : Decidable (CyclesFit k dim) :=
  inferInstanceAs (Decidable (∀ e ∈ _, _))

/-- Every item has a cycle, and the cycles solve their equations. -/
structure Cycled (k : Kernel) (dim : Nat) : Prop where
  cycle_eq : ∀ {i : DataId} {d : DataItem}, k.data[i]? = some d → d.cycle = some (cycleAt k i)
  input_cycle : ∀ {i : DataId} {d : DataItem}, k.data[i]? = some d → d.role = .input →
    cycleAt k i = 0
  node_cycle : ∀ {m : NodeId} {n : Node}, k.nodes[m]? = some n →
    cycleAt k n.output = cycleAfterReads k dim n

/-- A running maximum reaches its start and everything it went through. -/
theorem le_foldl_max {α : Type} (f : α → Nat) (l : List α) (a : Nat) :
    a ≤ l.foldl (fun m x => max m (f x)) a ∧ ∀ x ∈ l, f x ≤ l.foldl (fun m x => max m (f x)) a := by
  induction l generalizing a with
  | nil => simp
  | cons y rest ih =>
    obtain ⟨hstart, hrest⟩ := ih (max a (f y))
    rw [List.foldl_cons, List.forall_mem_cons]
    exact ⟨(le_max_left _ _).trans hstart, (le_max_right _ _).trans hstart, hrest⟩

theorem wrap32_of_lt {n : Int} (h0 : 0 ≤ n) (h : n < 0x100000000) : (wrap32 n : Int) = n := by
  rw [wrap32, Int.emod_eq_of_lt h0 h, Int.toNat_of_nonneg h0]

theorem grainsAhead_nonneg (k : Kernel) (dim : Nat) (e : Edge) : 0 ≤ grainsAhead k dim e := by
  unfold grainsAhead
  split
  · refine ceilDiv_nonneg (by omega) ?_
    unfold clampNonneg
    split_ifs <;> omega
  · exact le_rfl

/-- A lag is never more than the grains to wait for ask. -/
theorem lagAt_le (k : Kernel) (dim : Nat) (e : Edge) : (lagAt k dim e : Int) ≤ 1 + grainsAhead k dim e := by
  have hnonneg := grainsAhead_nonneg k dim e
  have hcut := addCount_le 1 (wrap32 (grainsAhead k dim e))
  rw [lagAt]
  simp only [wrap32] at hcut ⊢
  omega

namespace CyclesFit

variable {k : Kernel} {dim : Nat} (hf : CyclesFit k dim) {e : Edge} (he : e ∈ k.edges)

include hf he

/-- A lag that is not cut. -/
theorem lagAt_eq : (lagAt k dim e : Int) = 1 + grainsAhead k dim e := by
  have hlt := hf e he
  have hahead := wrap32_of_lt (grainsAhead_nonneg k dim e) (by omega)
  rw [lagAt, addCount_of_lt (by omega)]
  omega

/-- The cycle that a reader is due at. -/
theorem due_eq : addCount (cycleAt k e.source) (lagAt k dim e) = cycleAt k e.source + lagAt k dim e := by
  have hlt := hf e he
  have hlag := hf.lagAt_eq he
  exact addCount_of_lt (by omega)

end CyclesFit

/-- What a node writes comes the lag of each of its reads after what it reads. -/
theorem Cycled.source_add_lag_le {k : Kernel} {dim : Nat} (hc : Cycled k dim) (h : k.WellFormed)
    (hf : CyclesFit k dim) {e : Edge} (he : e ∈ k.edges) {n : Node}
    (hn : k.nodes[e.target]? = some n) : cycleAt k e.source + lagAt k dim e ≤ cycleAt k n.output := by
  rw [hc.node_cycle hn, ← hf.due_eq he]
  refine le_trans ?_ (le_foldl_max _ _ _).1
  exact (le_foldl_max (fun e => addCount (cycleAt k e.source) (lagAt k dim e)) (k.inputEdges n) 1).2 e
    ((h.mem_inputEdges_iff hn).mpr ⟨he, rfl⟩)

/-! ### Computing a cycle -/

/-- The item has its cycle. -/
def HasCycle (k : Kernel) (i : DataId) : Prop :=
  ∃ d, k.data[i]? = some d ∧ d.note.stage = .scheduled ∧ d.cycle = some (cycleAt k i)

theorem edgeLag_eq_ok {k : Kernel} (ht : Tiled k) (scan : ScanOrder) {e : Edge} (he : e ∈ k.edges) :
    edgeLag k scan e = .ok (lagAt k (scan.scanDim k.rank) e) := by
  obtain ⟨s, hs⟩ := ht.wellFormed.exists_source he
  obtain ⟨n, hn⟩ := ht.wellFormed.exists_target he
  have hiter := ht.valid.source_iterative he hs
  refine bind_eq_ok.mpr ⟨s, item_of_getElem? hs, ?_⟩
  rw [(ht.tileAt_eq hs hiter).1, ht.valid.rank_eq hs hiter, Kernel.node_eq_ok.mpr hn, lagAt,
    grainsAhead, hn]
  rfl

theorem readyCycle_eq_ok {k : Kernel} {n : Node} {i : DataId} (h : HasCycle k i) :
    readyCycle k n i = .ok (cycleAt k i) := by
  obtain ⟨d, hd, -, hcycle⟩ := h
  refine bind_eq_ok.mpr ⟨d, item_of_getElem? hd, ?_⟩
  rw [hcycle]
  rfl

theorem nodeCycle_eq_ok {k : Kernel} (ht : Tiled k) (scan : ScanOrder) {m : NodeId} {n : Node}
    (hn : k.nodes[m]? = some n) (hreads : ∀ e ∈ k.inputEdges n, HasCycle k e.source)
    (hcontrols : ∀ c ∈ n.controls, HasCycle k c) :
    nodeCycle k scan n = .ok (cycleAfterReads k (scan.scanDim k.rank) n) := by
  unfold nodeCycle
  rw [foldlM_of_ok (g := fun cycle e =>
    max cycle (addCount (cycleAt k e.source) (lagAt k (scan.scanDim k.rank) e)))]
  · refine foldlM_of_ok (fun c hc cycle => ?_) _
    rw [readyCycle_eq_ok (hcontrols c hc)]
    rfl
  · intro e he cycle
    rw [readyCycle_eq_ok (hreads e he),
      edgeLag_eq_ok ht scan ((ht.wellFormed.mem_inputEdges_iff hn).mp he).1]
    rfl

/-- The cycle of a node depends on the tiles and on the cycles of what it reads. -/
theorem cycleAfterReads_congr {k k' : Kernel} (hk : Keeps tileView k k') {dim : Nat} {n : Node}
    (hreads : ∀ e ∈ k.inputEdges n, cycleAt k' e.source = cycleAt k e.source)
    (hcontrols : ∀ c ∈ n.controls, cycleAt k' c = cycleAt k c) :
    cycleAfterReads k' dim n = cycleAfterReads k dim n := by
  have hinput : k'.inputEdges n = k.inputEdges n := by
    rw [Kernel.inputEdges, Kernel.inputEdges, hk.edges]
  have hlag : lagAt k' dim = lagAt k dim := by
    funext e
    simp only [lagAt, grainsAhead, grainAt, hk.nodes, tileAt_of_keeps hk]
  have hafter : (k.inputEdges n).foldl
        (fun cycle e => max cycle (addCount (cycleAt k' e.source) (lagAt k dim e))) 1 =
      (k.inputEdges n).foldl
        (fun cycle e => max cycle (addCount (cycleAt k e.source) (lagAt k dim e))) 1 :=
    List.foldl_ext _ _ _ fun cycle e he => by rw [hreads e he]
  rw [cycleAfterReads, hinput, hlag, hafter]
  exact List.foldl_ext _ _ _ fun cycle c hc => by rw [hcontrols c hc]

/-! ### One item at a time -/

section SetItem

variable {k : Kernel} {i j : DataId} {d x : DataItem}

/-- An item of a kernel with one item replaced. -/
theorem getElem?_setItem (h : (k.setItem i x).data[j]? = some d) :
    j = i ∧ d = x ∨ j ≠ i ∧ k.data[j]? = some d := by
  rw [Kernel.setItem, List.getElem?_set] at h
  split_ifs at h with hij hlt
  · exact .inl ⟨hij.symm, (Option.some.inj h).symm⟩
  · exact .inr ⟨Ne.symm hij, h⟩

theorem cycleAt_setItem_of_ne (hne : j ≠ i) : cycleAt (k.setItem i x) j = cycleAt k j := by
  rw [cycleAt, cycleAt, Kernel.setItem, List.getElem?_set_ne hne.symm]

theorem cycleAt_setItem_scheduled (hd : k.data[i]? = some d) (cycle : Nat) :
    cycleAt (k.setItem i (scheduled d cycle)) i = cycle := by
  rw [cycleAt, Kernel.setItem, List.getElem?_set_self (List.getElem?_eq_some_iff.mp hd).1]
  rfl

end SetItem

/-- Producers of the nodes up to a place of the order stand before this place. -/
theorem Topological.mem_before {k : Kernel} {order before after : List NodeId} {m : NodeId}
    (ht : Topological k order) (horder : order = before ++ m :: after) {n p : NodeId}
    (hn : n ∈ before ++ [m]) (hp : p ∈ predecessorsOf k n) (hlt : p < k.nodes.length) :
    p ∈ before := by
  have hordered := ht.ordered
  have hmem := (ht.mem_iff p).mpr hlt
  rw [horder, List.pairwise_append, List.pairwise_cons] at hordered
  obtain ⟨-, ⟨hafter, -⟩, hbefore⟩ := hordered
  rw [horder, List.mem_append, List.mem_cons] at hmem
  rcases List.mem_append.mp hn with hn | hn
  · rcases hmem with hmem | hmem
    · exact hmem
    · exact absurd hp (hbefore n hn p (List.mem_cons.mpr hmem)).2
  · obtain rfl := List.mem_singleton.mp hn
    rcases hmem with hmem | rfl | hmem
    · exact hmem
    · exact absurd hp (ht.irrefl p)
    · exact absurd hp (hafter p hmem).2

/-- What holds while the nodes get their cycles. -/
structure Scheduling (k₀ : Kernel) (dim : Nat) (done : List NodeId) (k : Kernel) : Prop where
  keeps : Keeps tileView k₀ k
  input : ∀ {i : DataId} {d : DataItem}, k.data[i]? = some d → d.role = .input →
    HasCycle k i ∧ cycleAt k i = 0
  done_cycle : ∀ m ∈ done, ∀ {n : Node}, k.nodes[m]? = some n →
    HasCycle k n.output ∧ cycleAt k n.output = cycleAfterReads k dim n
  waiting : ∀ {i : DataId} {d : DataItem}, k.data[i]? = some d → d.role ≠ .input →
    (∀ m ∈ done, d.producer ≠ some m) → d.note.stage = .unscheduled

namespace Scheduling

variable {k₀ k : Kernel} {dim : Nat} {order done rest : List NodeId} {m : NodeId}

/-- What the nodes up to the next one read has its cycle already. -/
theorem hasCycle_reads (ht : Tiled k) (hto : Topological k order) (horder : order = done ++ m :: rest)
    (hs : Scheduling k₀ dim done k) {j : NodeId} (hj : j ∈ done ++ [m]) {n : Node}
    (hn : k.nodes[j]? = some n) :
    (∀ e ∈ k.inputEdges n, HasCycle k e.source) ∧ ∀ c ∈ n.controls, HasCycle k c := by
  constructor
  · intro e he
    obtain ⟨hmem, rfl⟩ := (ht.wellFormed.mem_inputEdges_iff hn).mp he
    obtain ⟨s, hsource⟩ := ht.wellFormed.exists_source hmem
    rcases ht.valid.input_or_produced hsource with hr | ⟨p, hp⟩
    · exact (hs.input hsource hr).1
    · obtain ⟨np, hnp, hout⟩ := (ht.wellFormed.producer_iff hsource p).mp hp
      have hpred := mem_predecessorsOf ht.wellFormed hmem hnp hout.symm
      have hbefore := hto.mem_before horder hj hpred (List.getElem?_eq_some_iff.mp hnp).1
      exact hout ▸ (hs.done_cycle p hbefore hnp).1
  · intro c hc
    have hd := List.getElem?_eq_getElem (ht.wellFormed.control_lt hn c hc)
    exact (hs.input hd (ht.wellFormed.input_of_control hd (ht.valid.control_scalar hn hc hd))).1

/-- Giving the next node its cycle. -/
theorem step {scan : ScanOrder} (ht : Tiled k) (hto : Topological k order)
    (horder : order = done ++ m :: rest) (hs : Scheduling k₀ (scan.scanDim k.rank) done k) :
    ∃ d item, scheduleNode scan k m = .ok (d, item) ∧
      Scheduling k₀ (scan.scanDim k.rank) (done ++ [m]) (k.setItem d item) := by
  have hwf := ht.wellFormed
  obtain ⟨n, hn⟩ : ∃ n, k.nodes[m]? = some n :=
    ⟨_, List.getElem?_eq_getElem ((hto.mem_iff m).mp (by simp [horder]))⟩
  obtain ⟨o, ho⟩ := hwf.exists_output hn
  have hproducer := hwf.producer_output hn ho
  have hrole := (hwf.produced ho hproducer).2
  have hfresh : m ∉ done := by
    have hordered := hto.ordered
    rw [horder, List.pairwise_append] at hordered
    exact fun hm => (hordered.2.2 m hm m List.mem_cons_self).1 rfl
  have hstage : o.note.stage = .unscheduled := hs.waiting ho hrole fun j hj hp =>
    hfresh (Option.some.inj (hproducer.symm.trans hp) ▸ hj)
  obtain ⟨hreads, hcontrols⟩ := hs.hasCycle_reads ht hto horder (by simp) hn
  have hcycle := nodeCycle_eq_ok ht scan hn hreads hcontrols
  set cycle := cycleAfterReads k (scan.scanDim k.rank) n with hdef
  -- items with a cycle are not the one written now, so they keep it
  have hother : ∀ {i}, HasCycle k i → i ≠ n.output := by
    rintro i ⟨d, hd, hst, -⟩ rfl
    obtain rfl := Option.some.inj (hd.symm.trans ho)
    rw [hstage] at hst
    cases hst
  have hkept : ∀ {i}, HasCycle k i → HasCycle (k.setItem n.output (scheduled o cycle)) i := by
    intro i hi
    obtain ⟨d, hd, hst, hc⟩ := hi
    refine ⟨d, ?_, hst, ?_⟩
    · rw [Kernel.setItem, List.getElem?_set_ne (hother ⟨d, hd, hst, hc⟩).symm, hd]
    · rw [cycleAt_setItem_of_ne (hother ⟨d, hd, hst, hc⟩), hc]
  have hset : Keeps tileView k (k.setItem n.output (scheduled o cycle)) := .setItem ho rfl
  have hafter : ∀ j ∈ done ++ [m], ∀ {n'}, k.nodes[j]? = some n' →
      cycleAfterReads (k.setItem n.output (scheduled o cycle)) (scan.scanDim k.rank) n' =
        cycleAfterReads k (scan.scanDim k.rank) n' := by
    intro j hj n' hn'
    obtain ⟨hreads', hcontrols'⟩ := hs.hasCycle_reads ht hto horder hj hn'
    exact cycleAfterReads_congr hset (fun e he => cycleAt_setItem_of_ne (hother (hreads' e he)))
      fun c hc => cycleAt_setItem_of_ne (hother (hcontrols' c hc))
  refine ⟨n.output, scheduled o cycle, ?_, hs.keeps.trans hset, ?_, ?_, ?_⟩
  · refine bind_eq_ok.mpr ⟨n, ofFault_eq_ok.mpr (Kernel.node_eq_ok.mpr hn), ?_⟩
    refine bind_eq_ok.mpr ⟨cycle, hcycle, bind_eq_ok.mpr ⟨o, item_of_getElem? ho, ?_⟩⟩
    exact record_of_ok (scheduleAt_eq_ok.mpr ⟨hstage, rfl⟩) _
  · intro i d hd hr
    rcases getElem?_setItem hd with ⟨rfl, rfl⟩ | ⟨hne, hd⟩
    · exact absurd hr hrole
    · obtain ⟨hi, hzero⟩ := hs.input hd hr
      exact ⟨hkept hi, (cycleAt_setItem_of_ne hne).trans hzero⟩
  · intro j hj n' hn'
    rw [hafter j hj hn']
    rcases List.mem_append.mp hj with hj | hj
    · obtain ⟨hi, heq⟩ := hs.done_cycle j hj hn'
      exact ⟨hkept hi, (cycleAt_setItem_of_ne (hother hi)).trans heq⟩
    · obtain rfl := List.mem_singleton.mp hj
      obtain rfl : n = n' := Option.some.inj (hn.symm.trans hn')
      have hnew := cycleAt_setItem_scheduled ho cycle
      refine ⟨⟨scheduled o cycle, ?_, rfl, by rw [hnew]; rfl⟩, hnew⟩
      exact List.getElem?_set_self (List.getElem?_eq_some_iff.mp ho).1
  · intro i d hd hr hp
    rcases getElem?_setItem hd with ⟨rfl, rfl⟩ | ⟨-, hd⟩
    · exact absurd hproducer (hp m (by simp))
    · exact hs.waiting hd hr fun j hj => hp j (List.mem_append_left _ hj)

end Scheduling

/-! ### The pass -/

theorem scheduleInput_eq_ok {k : Kernel} {i d : DataId} {item' : DataItem}
    (h : scheduleInput k i = .ok (d, item')) :
    d = i ∧ ∃ item, k.data[d]? = some item ∧ item' = scheduled item 0 := by
  obtain ⟨item, hitem, h⟩ := bind_eq_ok.mp h
  obtain ⟨rfl, hget, hset⟩ := record_eq_ok hitem h
  exact ⟨rfl, item, hget, (scheduleAt_eq_ok.mp hset).2⟩

theorem revises_scheduleInput : Revises scheduleInput tileView id := by
  intro k i d item' h
  obtain ⟨hd, item, hget, rfl⟩ := scheduleInput_eq_ok h
  exact ⟨hd, item, hget, rfl⟩

/-- Every view that does not show the cycle is respected. -/
theorem respects_scheduleNode {β : Type} {view : DataItem → β}
    (hview : ∀ d cycle, view (scheduled d cycle) = view d) (scan : ScanOrder) :
    Respects (scheduleNode scan) view := by
  intro k id d item' h
  obtain ⟨n, -, h⟩ := bind_eq_ok.mp h
  obtain ⟨cycle, -, h⟩ := bind_eq_ok.mp h
  obtain ⟨item, hitem, h⟩ := bind_eq_ok.mp h
  obtain ⟨rfl, hget, hset⟩ := record_eq_ok hitem h
  obtain ⟨-, rfl⟩ := scheduleAt_eq_ok.mp hset
  exact ⟨item, hget, hview item cycle⟩

/-- Parameters come first. -/
theorem scheduling_start {k : Kernel} (h : k.WellFormed)
    (hs : ∀ d ∈ k.data, d.note.stage = .unscheduled) (dim : Nat) :
    ∃ k', revise scheduleInput k.inputs k = (.ok (), k') ∧ Scheduling k dim [] k' := by
  have hnodup : (k.inputs.map id).Nodup := by
    rw [List.map_id, h.inputs_eq]
    exact (h.data_ids ▸ List.nodup_range).sublist (List.filter_sublist.map _)
  obtain ⟨k', hrun⟩ := revises_scheduleInput.complete (k := k) hnodup fun i hi k₁ _ hkey => by
    obtain ⟨d, hd, -⟩ := h.mem_inputs_iff.mp hi
    refine ⟨(i, scheduled d 0), bind_eq_ok.mpr ⟨d, item_of_getElem? (hkey.trans hd), ?_⟩⟩
    exact record_of_ok (scheduleAt_eq_ok.mpr ⟨hs d (List.mem_of_getElem? hd), rfl⟩) _
  have hkeeps := revises_scheduleInput.respects.keeps hrun
  refine ⟨k', hrun, hkeeps, fun {i d'} hd' hr => ?_, by simp, fun {i d'} hd' hr _ => ?_⟩
  · obtain ⟨d, hd, hview⟩ := hkeeps.exists_item hd'
    have hi : i ∈ k.inputs := h.mem_inputs_iff.mpr ⟨d, hd, (congrArg (·.role) hview).symm.trans hr⟩
    obtain ⟨k₁, item', -, -, hstep, hend⟩ := revises_scheduleInput.result hrun hnodup hi
    obtain ⟨-, item, -, rfl⟩ := scheduleInput_eq_ok hstep
    have hzero : cycleAt k' i = 0 := by
      rw [cycleAt, show k'.data[i]? = some (scheduled item 0) from hend]
      rfl
    exact ⟨⟨_, hend, rfl, by rw [hzero]; rfl⟩, hzero⟩
  · obtain ⟨d, hd, hview⟩ := hkeeps.exists_item hd'
    have hi : i ∉ k.inputs.map id := by
      rw [List.map_id, h.mem_inputs_iff]
      rintro ⟨d₁, hd₁, hr₁⟩
      obtain rfl := Option.some.inj (hd₁.symm.trans hd)
      exact hr ((congrArg (·.role) hview).trans hr₁)
    rw [revises_scheduleInput.frame hrun hi] at hd'
    exact hs d' (List.mem_of_getElem? hd')

/-- A topological order is about the graph. -/
theorem Topological.of_keeps {k k' : Kernel} {order : List NodeId} (ht : Topological k order)
    (hk : Keeps DataItem.reset k k') : Topological k' order := by
  have hproducer : ∀ i : DataId,
      (k'.data[i]?).bind DataItem.producer = (k.data[i]?).bind DataItem.producer := by
    intro i
    have := congrArg (fun l => (l[i]?).bind DataItem.producer) hk.data
    simpa [List.getElem?_map, Option.bind_map, Function.comp_def, DataItem.reset] using this
  have hpred : predecessorsOf k' = predecessorsOf k := by
    funext n
    have : k'.predecessors = k.predecessors := by
      funext n
      simp only [Kernel.predecessors, Kernel.inputEdges, hk.edges, hproducer]
    rw [predecessorsOf, predecessorsOf, hk.nodes, this]
  exact ⟨fun n => hk.nodes ▸ ht.mem_iff n, hpred ▸ ht.ordered, hpred ▸ ht.irrefl⟩

/-- On a tiled kernel without cycles the pass completes, and the recorded cycles solve
their equations. -/
theorem assignCycles_eq_ok {k : Kernel} {order : List NodeId} (ht : Tiled k)
    (hto : Topological k order) (hs : ∀ d ∈ k.data, d.note.stage = .unscheduled) (scan : ScanOrder) :
    ∃ k', assignCycles order scan k = (.ok (pipelineOf k' order), k') ∧ Keeps tileView k k' ∧
      Cycled k' (scan.scanDim k'.rank) ∧ ∀ d ∈ k'.data, d.note.stage = .scheduled := by
  obtain ⟨k₁, hinputs, hstart⟩ := scheduling_start ht.wellFormed hs (scan.scanDim k.rank)
  have hrank : ∀ {k'}, Keeps tileView k k' → k'.rank = k.rank := fun hk =>
    hk.of_tileView.sameGraph.rank_eq
  have hstep : ∀ done m rest k₂, order = done ++ m :: rest →
      Scheduling k (scan.scanDim k.rank) done k₂ → ∃ d item, scheduleNode scan k₂ m = .ok (d, item) ∧
        Scheduling k (scan.scanDim k.rank) (done ++ [m]) (k₂.setItem d item) := by
    intro done m rest k₂ horder hs₂
    rw [← hrank hs₂.keeps] at hs₂ ⊢
    exact hs₂.step (ht.of_keeps hs₂.keeps) (hto.of_keeps hs₂.keeps.of_tileView) horder
  obtain ⟨k', hnodes, hend⟩ := revise_of_invariant hstep hstart
  have hwf := (ht.of_keeps hend.keeps).wellFormed
  have hvalid := (ht.of_keeps hend.keeps).valid
  have hall : ∀ {i : DataId} {d : DataItem}, k'.data[i]? = some d → HasCycle k' i := by
    intro i d hd
    rcases hvalid.input_or_produced hd with hr | ⟨m, hm⟩
    · exact (hend.input hd hr).1
    · obtain ⟨n, hn, rfl⟩ := (hwf.producer_iff hd m).mp hm
      refine (hend.done_cycle m ?_ hn).1
      rw [hto.mem_iff, ← hend.keeps.nodes]
      exact (List.getElem?_eq_some_iff.mp hn).1
  refine ⟨k', ?_, hend.keeps, ⟨fun {i d} hd => ?_, fun hd hr => (hend.input hd hr).2,
    fun {m n} hn => ?_⟩, fun d hd => ?_⟩
  · refine run_bind_eq_ok.mpr ⟨k, k, rfl, run_bind_eq_ok.mpr ⟨(), k₁, hinputs, ?_⟩⟩
    exact run_bind_eq_ok.mpr ⟨(), k', hnodes, rfl⟩
  · obtain ⟨d', hd', -, hcycle⟩ := hall hd
    rwa [Option.some.inj (hd.symm.trans hd')]
  · rw [hrank hend.keeps]
    refine (hend.done_cycle m ?_ hn).2
    rw [hto.mem_iff, ← hend.keeps.nodes]
    exact (List.getElem?_eq_some_iff.mp hn).1
  · obtain ⟨i, hi⟩ := List.mem_iff_getElem?.mp hd
    obtain ⟨d', hd', hstage, -⟩ := hall hi
    rwa [Option.some.inj (hi.symm.trans hd')]

end StencilTiling.Analysis
