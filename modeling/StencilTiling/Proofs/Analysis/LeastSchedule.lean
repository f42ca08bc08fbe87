import Mathlib.Order.Bounds.Defs
import StencilTiling.Proofs.Analysis.Declarations
import StencilTiling.Proofs.Analysis.LeastOrder
import StencilTiling.Proofs.Code.Calls
import StencilTiling.Proofs.Ratio

/-! The cycles are the least schedule. Whatever keeps the waits of all reads comes no earlier,
by induction with the flow, so a cycle is the longest way from the parameters. A node runs
after everything it reads, and sorting the nodes by cycle, with ties in the order they had,
gives an order in which producers still come first. The calls are emitted in this order. -/

namespace StencilTiling.Analysis

open Arith

/-! ### Schedules -/

/-- Cycles from a source to what its reader writes: one, and one for each grain of the source
that the read window reaches beyond an input stride. -/
def waitFor (e : Edge) (n : Node) (dim : Nat) (grain : Int) : Int :=
  1 + ⌈((max 0 (e.read.last dim - (n.inStride.get dim - 1)) : Int) : ℚ) / grain⌉

/-- Outputs come at cycle one or later, and the wait after everything they are made from. -/
structure Paces (k : Kernel) (dim : Nat) (grain : DataId → Int) (cycle : DataId → Nat) : Prop where
  start : ∀ n ∈ k.nodes, 1 ≤ cycle n.output
  wait : ∀ e ∈ k.edges, ∀ n, k.nodes[e.target]? = some n →
    (cycle e.source : Int) + waitFor e n dim (grain e.source) ≤ cycle n.output

/-- The grain that a reader waits in. -/
def waitGrain (k : Kernel) (dim : Nat) (i : DataId) : Int := max (grainAt k dim i) 1

/-- One node runs in an earlier cycle than another, or in the same and comes first in the
order. -/
def RunsBefore (k : Kernel) (order : List NodeId) (m n : NodeId) : Prop :=
  cycleAt k (outputOf k m) < cycleAt k (outputOf k n) ∨
    cycleAt k (outputOf k m) = cycleAt k (outputOf k n) ∧ order.idxOf m < order.idxOf n

instance (k : Kernel) (order : List NodeId) (m n : NodeId) : Decidable (RunsBefore k order m n) :=
  inferInstanceAs (Decidable (_ ∨ _))

/-- The recorded cycles are the least schedule, and the pipeline runs the nodes by cycle. -/
structure Paced (k : Kernel) (dim : Nat) (order : List NodeId) (pipeline : Pipeline) : Prop where
  recorded : ∀ d ∈ k.data, d.cycle = some (cycleAt k d.id)
  input : ∀ d ∈ k.data, d.role = .input ∨ d.iterative = false → cycleAt k d.id = 0
  least : IsLeast {cycle | Paces k dim (waitGrain k dim) cycle} (cycleAt k)
  reads : ∀ e ∈ k.edges, ∀ n, k.nodes[e.target]? = some n →
    cycleAt k e.source < cycleAt k n.output
  controls : ∀ n ∈ k.nodes, ∀ c ∈ n.controls, cycleAt k c < cycleAt k n.output
  cycles : pipeline.cycles = k.nodes.map fun n => cycleAt k n.output
  depth_ge : ∀ n ∈ k.nodes, cycleAt k n.output ≤ pipeline.depth
  depth_eq : k.nodes = [] ∧ pipeline.depth = 0 ∨ ∃ n ∈ k.nodes, cycleAt k n.output = pipeline.depth
  sorted : pipeline.order.Pairwise (RunsBefore k order)
  linearizes : Linearizes k pipeline.order

/-! ### Waits -/

theorem waitFor_eq {k : Kernel} {dim : Nat} {e : Edge} {n : Node} (hn : k.nodes[e.target]? = some n) :
    waitFor e n dim (waitGrain k dim e.source) = 1 + grainsAhead k dim e := by
  have hclamp (x : Int) : clampNonneg x = max 0 x := by
    unfold clampNonneg
    split_ifs <;> omega
  have hgrain : 0 < waitGrain k dim e.source := lt_max_of_lt_right one_pos
  rw [waitFor, ← ceilDiv_eq_ceil hgrain, ← hclamp, grainsAhead, hn]
  rfl

/-- The recorded lag is the wait, or less where that is cut. -/
theorem lagAt_le_waitFor {k : Kernel} (dim : Nat) {e : Edge} {n : Node}
    (hn : k.nodes[e.target]? = some n) :
    (lagAt k dim e : Int) ≤ waitFor e n dim (waitGrain k dim e.source) :=
  waitFor_eq hn ▸ lagAt_le k dim e

/-- A wait that is not cut is the recorded lag. -/
theorem CyclesFit.lagAt_eq_waitFor {k : Kernel} {dim : Nat} (hf : CyclesFit k dim) {e : Edge}
    (he : e ∈ k.edges) {n : Node} (hn : k.nodes[e.target]? = some n) :
    (lagAt k dim e : Int) = waitFor e n dim (waitGrain k dim e.source) :=
  waitFor_eq hn ▸ hf.lagAt_eq he

/-! ### Least cycles -/

namespace Cycled

variable {k : Kernel} {dim : Nat} (hc : Cycled k dim) (ht : Tiled k)

include hc

theorem one_le_output {m : NodeId} {n : Node} (hn : k.nodes[m]? = some n) :
    1 ≤ cycleAt k n.output := by
  rw [hc.node_cycle hn]
  exact (le_foldl_max _ _ _).1.trans (le_foldl_max _ _ _).1

/-- Controls are there at cycle zero and never delay a node. -/
theorem node_cycle_le {m : NodeId} {n : Node} (h : k.WellFormed) (hv : k.Valid)
    (hn : k.nodes[m]? = some n) {bound : Nat} (hone : 1 ≤ bound)
    (hreads : ∀ e ∈ k.inputEdges n, addCount (cycleAt k e.source) (lagAt k dim e) ≤ bound) :
    cycleAt k n.output ≤ bound := by
  have hmax : ∀ {α : Type} (f : α → Nat) (l : List α) (a : Nat), a ≤ bound → (∀ x ∈ l, f x ≤ bound) →
      l.foldl (fun m x => max m (f x)) a ≤ bound := by
    intro α f l
    induction l with
    | nil => exact fun _ ha _ => ha
    | cons x rest ih =>
      intro a ha hall
      obtain ⟨hx, hrest⟩ := List.forall_mem_cons.mp hall
      exact ih _ (max_le ha hx) hrest
  rw [hc.node_cycle hn]
  refine hmax _ _ _ (hmax _ _ _ hone hreads) fun c hc' => ?_
  have hd := List.getElem?_eq_getElem (h.control_lt hn c hc')
  rw [hc.input_cycle hd (h.input_of_control hd (hv.control_scalar hn hc' hd))]
  exact hone

include ht

theorem source_lt_output (hf : CyclesFit k dim) {e : Edge} (he : e ∈ k.edges) {n : Node}
    (hn : k.nodes[e.target]? = some n) : cycleAt k e.source < cycleAt k n.output := by
  have hle := hc.source_add_lag_le ht.wellFormed hf he hn
  have hlag := hf.lagAt_eq he
  have hnonneg := grainsAhead_nonneg k dim e
  omega

theorem paces (hf : CyclesFit k dim) : Paces k dim (waitGrain k dim) (cycleAt k) where
  start n hn := by
    obtain ⟨m, hm⟩ := List.mem_iff_getElem?.mp hn
    exact hc.one_le_output hm
  wait e he n hn := by
    rw [← hf.lagAt_eq_waitFor he hn]
    exact_mod_cast hc.source_add_lag_le ht.wellFormed hf he hn

/-- No schedule is earlier anywhere, also where waits or cycles are cut; the induction goes with
the flow. -/
theorem cycleAt_le {cycle : DataId → Nat} (hp : Paces k dim (waitGrain k dim) cycle) (i : DataId) :
    cycleAt k i ≤ cycle i := by
  cases hd : k.data[i]? with
  | none =>
    rw [cycleAt, hd]
    exact Nat.zero_le _
  | some d =>
    cases hi : d.iterative with
    | false =>
      rw [hc.input_cycle hd (ht.wellFormed.input_of_control hd hi)]
      exact Nat.zero_le _
    | true =>
      obtain ⟨ds, ho⟩ := ht.ordered
      refine ho.forward (P := fun j => cycleAt k j ≤ cycle j) ht.wellFormed ht.valid
        (fun j hj hback => ?_) i ((ho.mem_iff i).mpr ⟨d, hd, hi⟩)
      obtain ⟨d, hd, -⟩ := (ho.mem_iff j).mp hj
      rcases ht.valid.input_or_produced hd with hr | ⟨m, hm⟩
      · rw [hc.input_cycle hd hr]
        exact Nat.zero_le _
      · obtain ⟨n, hn, rfl⟩ := (ht.wellFormed.producer_iff hd m).mp hm
        refine hc.node_cycle_le ht.wellFormed ht.valid hn (hp.start n (List.mem_of_getElem? hn))
          fun e he => ?_
        obtain ⟨hmem, rfl⟩ := (ht.wellFormed.mem_inputEdges_iff hn).mp he
        have hsource := hback e.source ⟨e, hmem, n, hn, rfl, rfl⟩
        have hwait := hp.wait e hmem n hn
        have hlag := lagAt_le_waitFor dim hn
        have hdue := addCount_le (cycleAt k e.source) (lagAt k dim e)
        omega

/-- Where some schedule stays below 2³² nothing is cut. -/
theorem cyclesFit_of_paces {cycle : DataId → Nat} (hp : Paces k dim (waitGrain k dim) cycle)
    (hlt : ∀ n ∈ k.nodes, cycle n.output < 0x100000000) : CyclesFit k dim := by
  intro e he
  obtain ⟨n, hn⟩ := ht.wellFormed.exists_target he
  have hwait := hp.wait e he n hn
  have hsource := hc.cycleAt_le ht hp e.source
  have houtput := hlt n (List.mem_of_getElem? hn)
  rw [waitFor_eq hn] at hwait
  omega

end Cycled

/-! ### The order of the pipeline -/

theorem cycleOf_eq {k : Kernel} {order : List NodeId} (hto : Topological k order) (h : k.WellFormed)
    {n : Node} (hn : n ∈ k.nodes) : cycleOf k order n = cycleAt k n.output := by
  obtain ⟨m, hm⟩ := List.mem_iff_getElem?.mp hn
  refine if_pos ((hto.mem_iff _).mpr ?_)
  rw [h.node_id hm]
  exact (List.getElem?_eq_some_iff.mp hm).1

/-- Elements of a list without repetitions stand in the order of their positions. -/
theorem pairwise_idxOf {l : List NodeId} (hl : l.Nodup) :
    l.Pairwise fun a b => l.idxOf a < l.idxOf b := by
  refine List.pairwise_iff_getElem.mpr fun i j hi hj hij => ?_
  rwa [hl.idxOf_getElem, hl.idxOf_getElem]

/-- Two elements of a list, the earlier one first. -/
theorem pair_sublist_of_idxOf_lt {l : List NodeId} {a b : NodeId} (hb : b ∈ l)
    (hab : l.idxOf a < l.idxOf b) : [a, b].Sublist l := by
  have hpairs : l.Pairwise fun x y => [x, y].Sublist l :=
    List.pairwise_iff_forall_sublist.mpr fun h => h
  have hb' := List.idxOf_lt_length_iff.mpr hb
  have := List.pairwise_iff_getElem.mp hpairs _ _ (hab.trans hb') hb' hab
  rwa [List.getElem_idxOf, List.getElem_idxOf] at this

/-- Sorting by a key keeps the order of elements with the same key. -/
theorem pairwise_mergeSort_of_nodup {l : List NodeId} (hl : l.Nodup) (key : NodeId → Nat) :
    (l.mergeSort fun a b => key a ≤ key b).Pairwise fun a b =>
      key a < key b ∨ key a = key b ∧ l.idxOf a < l.idxOf b := by
  have htrans : ∀ a b c : NodeId, decide (key a ≤ key b) = true → decide (key b ≤ key c) = true →
      decide (key a ≤ key c) = true := by
    simp only [decide_eq_true_eq]
    exact fun _ _ _ => le_trans
  have htotal : ∀ a b : NodeId, (decide (key a ≤ key b) || decide (key b ≤ key a)) = true := by
    simp only [Bool.or_eq_true, decide_eq_true_eq]
    exact fun a b => le_total _ _
  have hperm := List.mergeSort_perm l fun a b => key a ≤ key b
  have hnodup := hperm.nodup_iff.mpr hl
  have hsorted := List.pairwise_mergeSort htrans htotal l
  refine List.pairwise_iff_forall_sublist.mpr fun {a b} hab => ?_
  have hkey : key a ≤ key b := of_decide_eq_true (List.pairwise_iff_forall_sublist.mp hsorted hab)
  refine hkey.lt_or_eq.imp_right fun heq => ⟨heq, ?_⟩
  -- the other way round the sort would have kept them so
  have hlt := List.pairwise_iff_forall_sublist.mp (pairwise_idxOf hnodup) hab
  have ha : a ∈ l := hperm.mem_iff.mp (hab.subset List.mem_cons_self)
  by_contra hge
  rcases (Nat.le_of_not_lt hge).lt_or_eq with hba | hsame
  · have hback := List.pair_sublist_mergeSort htrans htotal (decide_eq_true heq.ge)
      (pair_sublist_of_idxOf_lt ha hba)
    exact Nat.lt_asymm hlt (List.pairwise_iff_forall_sublist.mp (pairwise_idxOf hnodup) hback)
  · obtain rfl := (List.idxOf_inj ha).mp hsame.symm
    exact Nat.lt_irrefl _ hlt

section Pipeline

variable {k : Kernel} {dim : Nat} {order : List NodeId} (ht : Tiled k) (hc : Cycled k dim)
  (hto : Topological k order)

section Order

include ht hto

theorem cycles_pipelineOf : (pipelineOf k order).cycles = k.nodes.map fun n => cycleAt k n.output :=
  List.map_congr_left fun _ hn => cycleOf_eq hto ht.wellFormed hn

theorem depth_pipelineOf : (∀ n ∈ k.nodes, cycleAt k n.output ≤ (pipelineOf k order).depth) ∧
    (k.nodes = [] ∧ (pipelineOf k order).depth = 0 ∨
      ∃ n ∈ k.nodes, cycleAt k n.output = (pipelineOf k order).depth) := by
  have hdepth : (pipelineOf k order).depth = ((k.nodes.map fun n => cycleAt k n.output).max?).getD 0 := by
    rw [← cycles_pipelineOf ht hto]
    rfl
  cases hmax : (k.nodes.map fun n => cycleAt k n.output).max? with
  | none =>
    have hnil := List.map_eq_nil_iff.mp (List.max?_eq_none_iff.mp hmax)
    rw [hdepth, hmax, hnil]
    exact ⟨by simp, .inl ⟨rfl, rfl⟩⟩
  | some depth =>
    obtain ⟨hmem, hle⟩ := List.max?_eq_some_iff.mp hmax
    obtain ⟨n, hn, heq⟩ := List.mem_map.mp hmem
    rw [hdepth, hmax, Option.getD_some]
    exact ⟨fun n hn => hle _ (List.mem_map_of_mem hn), .inr ⟨n, hn, heq⟩⟩

theorem sorted_pipelineOf : (pipelineOf k order).order.Pairwise (RunsBefore k order) := by
  have hnodup : order.Nodup := hto.ordered.imp fun hmn => hmn.1
  have hsort := pairwise_mergeSort_of_nodup hnodup ((pipelineOf k order).cycles.getD · 0)
  have hkey : ∀ m ∈ order, (pipelineOf k order).cycles.getD m 0 = cycleAt k (outputOf k m) := by
    intro m hm
    obtain ⟨n, hn, hout⟩ := exists_output_eq hto hm
    rw [cycles_pipelineOf ht hto, List.getD_eq_getElem?_getD, List.getElem?_map, hn, ← hout]
    rfl
  refine hsort.imp_of_mem fun ha hb hab => ?_
  rw [hkey _ (List.mem_mergeSort.mp ha), hkey _ (List.mem_mergeSort.mp hb)] at hab
  exact hab

end Order

variable (hf : CyclesFit k dim)

include ht hc hf

theorem cycle_lt_of_precedes {m n : NodeId} (hmn : Precedes k m n) :
    cycleAt k (outputOf k m) < cycleAt k (outputOf k n) := by
  obtain ⟨b, hb⟩ : ∃ b, k.nodes[n]? = some b :=
    ⟨_, List.getElem?_eq_getElem (hmn.lt ht.wellFormed).2⟩
  rw [Precedes, predecessorsOf, hb, Option.map_some, Option.getD_some,
    ht.wellFormed.mem_predecessors_iff hb] at hmn
  obtain ⟨a, ha, e, he, hs, rfl⟩ := hmn
  have hlt := hc.source_lt_output ht hf he hb
  rw [hs] at hlt
  rw [outputOf, outputOf, ha, hb]
  exact hlt

include hto

/-- Sorted by cycle the nodes still come after their producers. -/
theorem topological_pipelineOf : Topological k (pipelineOf k order).order := by
  refine ⟨fun n => ?_, (sorted_pipelineOf ht hto).imp fun {m n} hmn => ⟨?_, fun hp => ?_⟩, hto.irrefl⟩
  · rw [← hto.mem_iff]
    exact List.mem_mergeSort
  · rintro rfl
    exact hmn.elim (Nat.lt_irrefl _) fun h => Nat.lt_irrefl _ h.2
  · have hlt := cycle_lt_of_precedes ht hc hf hp
    rcases hmn with h | h <;> omega

theorem paced_pipelineOf : Paced k dim order (pipelineOf k order) where
  recorded d hd := hc.cycle_eq (ht.wellFormed.getElem?_id hd)
  input d hd hrole := by
    have hget := ht.wellFormed.getElem?_id hd
    exact hc.input_cycle hget (hrole.elim id (ht.wellFormed.input_of_control hget))
  least := ⟨hc.paces ht hf, fun _ hp i => hc.cycleAt_le ht hp i⟩
  reads e he n hn := hc.source_lt_output ht hf he hn
  controls n hn c hmem := by
    obtain ⟨m, hm⟩ := List.mem_iff_getElem?.mp hn
    have hd := List.getElem?_eq_getElem (ht.wellFormed.control_lt hm c hmem)
    rw [hc.input_cycle hd (ht.wellFormed.input_of_control hd (ht.valid.control_scalar hm hmem hd))]
    exact hc.one_le_output hm
  cycles := cycles_pipelineOf ht hto
  depth_ge := (depth_pipelineOf ht hto).1
  depth_eq := (depth_pipelineOf ht hto).2
  sorted := sorted_pipelineOf ht hto
  linearizes := (linearizes_iff ht.wellFormed).mpr (topological_pipelineOf ht hc hto hf)

end Pipeline

/-- There is one way to sort the nodes. -/
theorem Paced.order_eq {k : Kernel} {dim : Nat} {order l : List NodeId} {pipeline : Pipeline}
    (h : Paced k dim order pipeline) (hperm : l.Perm (k.nodes.map Node.id))
    (hl : l.Pairwise (RunsBefore k order)) : pipeline.order = l := by
  refine (h.linearizes.perm.trans hperm.symm).eq_of_pairwise (fun m n _ _ hmn hnm => ?_) h.sorted hl
  rcases hmn with hmn | hmn <;> rcases hnm with hnm | hnm <;> omega

/-! ### Analysed kernels -/

/-- An extent is a number or the name of an item. -/
theorem exists_extentName {k : Kernel} (hn : k.ExtentsNamed) {i : DataId} {d : DataItem}
    (hd : k.data[i]? = some d) (dim : Nat) : ∃ name, Code.extentName k dim i = .ok name := by
  unfold Code.extentName
  rw [Kernel.item_eq_ok.mpr hd]
  cases hextent : d.shape[dim]? with
  | none => exact ⟨_, bind_eq_ok.mpr ⟨d, rfl, by rw [hextent]; rfl⟩⟩
  | some extent =>
    cases extent with
    | fixed n => exact ⟨_, bind_eq_ok.mpr ⟨d, rfl, by rw [hextent]; rfl⟩⟩
    | dynamic param max =>
      have hlt := hn d (List.mem_of_getElem? hd) param
        (List.mem_filterMap.mpr ⟨_, List.mem_of_getElem? hextent, rfl⟩)
      have hitem := Kernel.item_eq_ok.mpr (List.getElem?_eq_getElem hlt)
      exact ⟨_, bind_eq_ok.mpr ⟨d, rfl, by rw [hextent]; exact bind_eq_ok.mpr ⟨_, hitem, rfl⟩⟩⟩

/-- What the analysis schedules is the least schedule, and what is emitted for it calls the
nodes by cycle. -/
structure CallsByCycle (k : Kernel) (r : Result) (scan : ScanOrder) : Prop where
  paced : ∃ s order pipeline, r.kernel.schedule = some s ∧ topologicalOrder k = .ok order ∧
    s.nodeOrder = pipeline.order ∧ s.depth = pipeline.depth ∧
      Paced r.kernel (scan.scanDim k.rank) order pipeline
  emitted : k.ExtentsNamed → ∃ p, Code.emit r.kernel = .ok p
  calls : ∀ p, Code.emit r.kernel = .ok p → ∃ s before sections, r.kernel.schedule = some s ∧
    p.body = before ++ sections.flatMap Code.CallSection.stmts ∧
      (∀ stmt ∈ before, stmt.segment ≠ .calls) ∧ Code.CallsNodes r.kernel s.nodeOrder sections

namespace Completed

variable {k : Kernel} {device : Device} {config : TilingConfig} {r : Result}
  (c : Completed k device config r)

include c

theorem tiled_cycled : Tiled r.kernel ∧ Cycled r.kernel (config.scan.scanDim k.rank) := by
  have hrank : c.annotated.rank = k.rank := c.annotates.sameGraph.rank_eq
  exact ⟨c.resolves.tiled, hrank ▸ c.facts.cycled.of_keeps (c.keeps.comp cycleView)⟩

theorem topological {order : List NodeId} (ho : topologicalOrder k = .ok order) :
    Topological r.kernel order := by
  have horder := topologicalOrder_of_sameGraph c.sameGraph
  exact topological_of_eq_ok c.resolves.tiled.wellFormed (horder.trans ho)

/-- A program is emitted where every extent has a name. -/
theorem exists_emit (hk : k.WellFormed) (hn : k.ExtentsNamed)
    (hstage : ∀ d ∈ r.kernel.data, d.note.stage = .geometryResolved) :
    ∃ p, Code.emit r.kernel = .ok p := by
  have hw := c.resolves.tiled.wellFormed
  have hnamed := hn.of_view c.sameGraph.extentView_eq
  obtain ⟨items, hitems⟩ := exists_mapM fun d hd => by
    obtain ⟨table, hgeometry, hentries⟩ := c.exists_table hd
    obtain ⟨stmts, hstmts, -⟩ := Code.exists_itemStmts hgeometry fun entry he i hi => by
      obtain ⟨rfl, -⟩ := (hentries entry he).2 _ hi
      exact exists_extentName hnamed (hw.getElem?_id hd) entry.1.dim
    exact ⟨stmts, hstmts⟩
  obtain ⟨buffers, hbuffers, -⟩ := c.exists_bufferStmts
  have hreset := k.sameGraph_reset
  have hparams : ∀ n ∈ r.kernel.nodes, ∀ i ∈ n.params, i < r.kernel.data.length := by
    have hnodes : r.kernel.nodes = k.reset.deriveParams.nodes := c.keeps.nodes.trans c.annotates.nodes
    have hlength : r.kernel.data.length = k.reset.data.length := by
      simpa using congrArg List.length (hreset.symm.trans c.sameGraph).data
    rw [hnodes, hlength]
    exact Kernel.deriveParams_forall (Kernel.ownParams_lt (hk.of_sameGraph hreset)
      (hn.of_view hreset.extentView_eq))
  obtain ⟨calls, hcalls, -⟩ := Code.exists_callStmts hw hparams (fun n hn => (c.mem_order n).mp hn) none
  obtain ⟨params, hparams, -⟩ := Code.exists_paramsOf hw
  obtain ⟨p, hp, -⟩ := Code.exists_emit (Code.resolvedSchedule_eq_ok.mpr ⟨c.schedule, hstage⟩)
    (bind_eq_ok.mpr ⟨items, hitems, bind_eq_ok.mpr ⟨buffers, hbuffers,
      bind_eq_ok.mpr ⟨calls, hcalls, rfl⟩⟩⟩) hparams
  exact ⟨p, hp⟩

/-- The emitted calls follow the cycles. -/
theorem calls_by_cycle (hf : CyclesFit r.kernel (config.scan.scanDim k.rank)) {p : Code.Program}
    (hp : Code.emit r.kernel = .ok p) :
    ∃ before sections, p.body = before ++ sections.flatMap Code.CallSection.stmts ∧
      (∀ stmt ∈ before, stmt.segment ≠ .calls) ∧
        Code.CallsNodes r.kernel c.pipeline.order sections := by
  obtain ⟨ht, hc⟩ := c.tiled_cycled
  obtain ⟨order, ho, hpipeline⟩ := c.pipeline_eq
  have hto := c.topological ho
  refine Code.emit_calls hp c.schedule (fun m => cycleAt r.kernel (outputOf r.kernel m))
    (fun m hm => ?_) ?_
  · have hmem : m ∈ c.pipeline.order := hm
    rw [hpipeline] at hmem
    obtain ⟨n, hn, hout⟩ := exists_output_eq (topological_pipelineOf ht hc hto hf) hmem
    obtain ⟨o, ho⟩ := ht.wellFormed.exists_output hn
    exact ⟨n, o, hn, ho, hout ▸ hc.cycle_eq ho⟩
  · have hsorted := sorted_pipelineOf ht hto
    rw [← hpipeline] at hsorted
    exact hsorted.imp fun hmn => hmn.elim le_of_lt fun h => h.1.le

end Completed

/-- The cycle pass on a tiled kernel. -/
theorem assignCycles_paced {k k₁ : Kernel} {order : List NodeId} {scan : ScanOrder} (h : k.WellFormed)
    (hv : k.Valid) (hto : Topological k order) (hrun : analyzeTiles order k = (.ok (), k₁)) :
    ∃ k₂ pipeline, assignCycles order scan k₁ = (.ok pipeline, k₂) ∧ Keeps tileView k₁ k₂ ∧
      (CyclesFit k₂ (scan.scanDim k.rank) → Paced k₂ (scan.scanDim k.rank) order pipeline) := by
  obtain ⟨hkeeps, ht⟩ := analyzeTiles_tiled h hv hto hrun
  have hs := analyzeTiles_unscheduled ((analyzeTiles_completes_iff h hv hto).mp ⟨k₁, hrun⟩) hrun
  have hto₁ := hto.of_keeps hkeeps
  obtain ⟨k₂, hcycles, hk₂, hcycled, -⟩ := assignCycles_eq_ok ht hto₁ hs scan
  have hrank : k₂.rank = k.rank :=
    (hkeeps.trans hk₂.of_tileView).sameGraph.rank_eq
  rw [hrank] at hcycled
  exact ⟨k₂, _, hcycles, hk₂, paced_pipelineOf (ht.of_keeps hk₂) hcycled
    (hto₁.of_keeps hk₂.of_tileView)⟩

theorem Completed.callsByCycle {k : Kernel} {device : Device} {config : TilingConfig} {r : Result}
    (c : Completed k device config r) (hf : CyclesFit r.kernel (config.scan.scanDim k.rank))
    (hemit : k.ExtentsNamed → ∃ p, Code.emit r.kernel = .ok p) : CallsByCycle k r config.scan := by
  obtain ⟨ht, hc⟩ := c.tiled_cycled
  obtain ⟨order, ho, hpipeline⟩ := c.pipeline_eq
  refine ⟨⟨_, order, c.pipeline, c.schedule, ho, rfl, rfl, ?_⟩, hemit, fun p hp => ?_⟩
  · rw [hpipeline]
    exact paced_pipelineOf ht hc (c.topological ho) hf
  · obtain ⟨before, sections, hcalls⟩ := c.calls_by_cycle hf hp
    exact ⟨_, before, sections, c.schedule, hcalls⟩

/-- On every validated kernel without cycles, in either scan order, the cycle pass completes.
Where no cycle is cut, the cycles are the least schedule, the pipeline sorts the nodes by cycle
with ties in the given order, and what is emitted calls each node once in this order under
increasing cycle comments. -/
theorem cycles_least_schedule {k : Kernel} (hb : k.Built) :
    (∀ order scan k₁, k.validate = .ok () → Linearizes k order →
      analyzeTiles order k = (.ok (), k₁) →
        ∃ k₂ pipeline, assignCycles order scan k₁ = (.ok pipeline, k₂) ∧ Keeps tileView k₁ k₂ ∧
          (CyclesFit k₂ (scan.scanDim k.rank) → Paced k₂ (scan.scanDim k.rank) order pipeline)) ∧
    ∀ device config diag r, analyze k device config diag = r → r.ready = true →
      CyclesFit r.kernel (config.scan.scanDim k.rank) → CallsByCycle k r config.scan := by
  have h := hb.wellFormed
  constructor
  · intro order scan k₁ hv ho hrun
    exact assignCycles_paced h (Kernel.valid_of_validate h hv) ((linearizes_iff h).mp ho) hrun
  · rintro device config diag _ rfl hready hf
    obtain ⟨c⟩ := analyze_completed h hready
    exact c.callsByCycle hf fun hn =>
      c.exists_emit h hn ((analyze_ending k device config diag).stage h hready)

/-- An image read at once by one node and with two pixels of halo by another, both read by a
third, which looks three pixels ahead in the plain one. -/
def layering : Kernel :=
  .ofDeclarations "layering"
    [.control "size" .int, .input "a" .float [.dynamic 0 (some 24)],
      .data "b" .float [.dynamic 0 (some 24)], .data "c" .float [.dynamic 0 (some 24)],
      .output "o" .float [.dynamic 0 (some 24)],
      .node {} { name := "blur", output := 2, inputs := [⟨1, ⟨[⟨-1, 2⟩]⟩, .undef⟩] },
      .node {} { name := "scale", output := 3, controls := [0], inputs := [⟨1, ⟨[⟨0, 0⟩]⟩, .undef⟩] },
      .node {} { name := "join", output := 4,
                 inputs := [⟨2, ⟨[⟨0, 0⟩]⟩, .undef⟩, ⟨3, ⟨[⟨0, 3⟩]⟩, .undef⟩] }]

def layered : Result := analyze layering { units := 4 } { mode := .workGroupSlicing } (.new 5 0)

/-- The second node runs before the first one, and the way over it is the longer one. -/
theorem cycles_least_schedule_layering :
    layered.ready = true ∧
      layered.kernel.nodes.map (fun n => cycleAt layered.kernel n.output) = [3, 1, 5] ∧
      IsLeast {cycle | Paces layered.kernel 0 (waitGrain layered.kernel 0) cycle}
        (cycleAt layered.kernel) ∧
      ∃ p before sections, Code.emit layered.kernel = .ok p ∧
        p.body = before ++ sections.flatMap Code.CallSection.stmts ∧
          Code.CallsNodes layered.kernel [1, 0, 2] sections := by
  have hready : layered.ready = true := by decide +kernel
  have horder : topologicalOrder layering = .ok [0, 1, 2] := by decide +kernel
  obtain ⟨⟨s, order, pipeline, hs, ho, hsame, -, hpaced⟩, hemitted, hcalls⟩ :=
    (cycles_least_schedule (k := layering) (Kernel.built_ofDeclarations _ _)).2 _ _ _ layered rfl hready
      (by decide +kernel)
  obtain rfl := Except.ok.inj (ho.symm.trans horder)
  obtain ⟨p, hp⟩ := hemitted (by decide +kernel)
  obtain ⟨s', before, sections, hs', hbody, -, hnodes⟩ := hcalls p hp
  obtain rfl := Option.some.inj (hs.symm.trans hs')
  rw [hsame, hpaced.order_eq (l := [1, 0, 2]) (by decide +kernel) (by decide +kernel)] at hnodes
  exact ⟨hready, by decide +kernel, hpaced.least, p, before, sections, hp, hbody, hnodes⟩

/-- Joins three images whose grains have a least common multiple of 2⁶⁴ - 2²², and looks one
pixel ahead in the result. -/
def peeking : Kernel :=
  .ofDeclarations "peeking"
    [.input "a" .float [.fixed 8], .input "b" .float [.fixed 8], .input "c" .float [.fixed 8],
      .data "t" .float [.fixed 8], .output "o" .float [.fixed 8], .output "p" .float [.fixed 1],
      .output "q" .float [.fixed 1], .output "r" .float [.fixed 1],
      .node {} { name := "join", output := 3,
                 inputs := [⟨0, ⟨[⟨0, 0⟩]⟩, .undef⟩, ⟨1, ⟨[⟨0, 0⟩]⟩, .undef⟩,
                   ⟨2, ⟨[⟨0, 0⟩]⟩, .undef⟩] },
      .node {} { name := "look", output := 4, inputs := [⟨3, ⟨[⟨0, 1⟩]⟩, .undef⟩] },
      .node {} { name := "f", output := 5, inStride := some ⟨[0x400000]⟩,
                 inputs := [⟨0, ⟨[⟨0, 0x3fffff⟩]⟩, .undef⟩] },
      .node {} { name := "g", output := 6, inStride := some ⟨[0x1fffff]⟩,
                 inputs := [⟨1, ⟨[⟨0, 0x1ffffe⟩]⟩, .undef⟩] },
      .node {} { name := "h", output := 7, inStride := some ⟨[0x200001]⟩,
                 inputs := [⟨2, ⟨[⟨0, 0x200000⟩]⟩, .undef⟩] }]

/-- The kernel with its tiles and cycles. -/
def peeked : Kernel :=
  (assignCycles [0, 1, 2, 3, 4] .rows (analyzeTiles [0, 1, 2, 3, 4] peeking).2).2

/-- The grain of the joined image is cut to a negative number. Waiting in that grain the reader
of this image could run in cycle two, but waits in single pixels and runs in cycle three. -/
theorem waits_in_pixels_of_negative_grain :
    peeking.Built ∧ peeking.validate = .ok () ∧ topologicalOrder peeking = .ok [0, 1, 2, 3, 4] ∧
      (analyzeTiles [0, 1, 2, 3, 4] peeking).1 = .ok () ∧
      (assignCycles [0, 1, 2, 3, 4] .rows (analyzeTiles [0, 1, 2, 3, 4] peeking).2).1.toOption.isSome ∧
      grainAt peeked 0 3 = -0x400000 ∧ cycleAt peeked 4 = 3 ∧
      (∀ e ∈ peeked.edges, ∀ n ∈ peeked.nodes[e.target]?,
        waitFor e n 0 (grainAt peeked 0 e.source) < 0x100000000) ∧
      ¬ IsLeast {cycle | Paces peeked 0 (grainAt peeked 0) cycle} (cycleAt peeked) := by
  have hearlier : (∀ n ∈ peeked.nodes, 1 ≤ [0, 0, 0, 1, 2, 1, 1, 1].getD n.output 0) ∧
      ∀ e ∈ peeked.edges, ∀ n ∈ peeked.nodes[e.target]?,
        (([0, 0, 0, 1, 2, 1, 1, 1].getD e.source 0 : Nat) : Int) +
            waitFor e n 0 (grainAt peeked 0 e.source) ≤
          ([0, 0, 0, 1, 2, 1, 1, 1].getD n.output 0 : Nat) := by
    decide +kernel
  have hrecorded : cycleAt peeked 4 = 3 := by decide +kernel
  refine ⟨Kernel.built_ofDeclarations _ _, by decide +kernel, by decide +kernel, by decide +kernel,
    by decide +kernel, by decide +kernel, hrecorded, by decide +kernel, fun hleast => ?_⟩
  have hpaces : Paces peeked 0 (grainAt peeked 0) fun i => [0, 0, 0, 1, 2, 1, 1, 1].getD i 0 :=
    ⟨hearlier.1, hearlier.2⟩
  have hle : cycleAt peeked 4 ≤ 2 := hleast.2 hpaces 4
  omega

end StencilTiling.Analysis
