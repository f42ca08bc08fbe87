import Mathlib.Data.List.Induction
import StencilTiling.Analysis.Tiles
import StencilTiling.Proofs.Analysis.Order
import StencilTiling.Proofs.Analysis.Pass
import StencilTiling.Proofs.Kernel.Validity

/-! The order in which the tile sweeps go through the data, and what a sweep along
it computes. An item comes before every item computed from it, so a sweep that
derives a value from neighbours on one side finds their final values: the table it
leaves solves its defining equations. -/

namespace StencilTiling.Analysis

/-! ### Flow -/

/-- Some node reads the first item and writes the second. -/
def Feeds (k : Kernel) (d x : DataId) : Prop :=
  ∃ e ∈ k.edges, ∃ n, k.nodes[e.target]? = some n ∧ e.source = d ∧ n.output = x

/-- All iterative items once, each before the items computed from it. -/
structure DataOrder (k : Kernel) (ds : List DataId) : Prop where
  mem_iff : ∀ d, d ∈ ds ↔ ∃ item, k.data[d]? = some item ∧ item.iterative = true
  ordered : ds.Pairwise fun a b => a ≠ b ∧ ¬ Feeds k b a
  irrefl : ∀ d, ¬ Feeds k d d

/-- A node that writes what another reads is among its producers. -/
theorem mem_predecessorsOf {k : Kernel} (h : k.WellFormed) {e : Edge} (he : e ∈ k.edges) {m : NodeId}
    {n : Node} (hn : k.nodes[m]? = some n) (hs : e.source = n.output) :
    m ∈ predecessorsOf k e.target := by
  obtain ⟨t, ht⟩ := h.exists_target he
  rw [predecessorsOf, ht, Option.map_some, Option.getD_some, h.mem_predecessors_iff ht]
  exact ⟨n, hn, e, he, hs, rfl⟩

/-- Parameters are computed from nothing. -/
theorem not_feeds_input {k : Kernel} (h : k.WellFormed) {d x : DataId} {item : DataItem}
    (hx : k.data[x]? = some item) (hr : item.role = .input) : ¬ Feeds k d x := by
  rintro ⟨e, -, n, hn, -, rfl⟩
  exact (h.produced hx (h.producer_output hn hx)).2 hr

/-- The item a node writes. -/
def outputOf (k : Kernel) (n : NodeId) : DataId := ((k.nodes[n]?).map Node.output).getD 0

/-- The parameters that are images. -/
def imageInputs (k : Kernel) : List DataId :=
  k.inputs.filter fun d => (k.data[d]?).any (·.iterative)

theorem outputs_eq_ok {k : Kernel} {order : List NodeId} (ht : Topological k order) :
    (order.mapM fun n => return (← k.node n).output) = (.ok (order.map (outputOf k)) : Except Fault _) := by
  refine mapM_eq_ok.mpr (List.forall₂_map_right_iff.mpr (List.forall₂_same.mpr fun n hn => ?_))
  have hnode := List.getElem?_eq_getElem ((ht.mem_iff n).mp hn)
  rw [Kernel.node_eq_ok.mpr hnode, outputOf, hnode]
  rfl

theorem dataOrder_of_topological {k : Kernel} {order : List NodeId} (ht : Topological k order) :
    dataOrder k order = .ok (imageInputs k ++ order.map (outputOf k)) := by
  unfold dataOrder
  rw [outputs_eq_ok ht]
  rfl

theorem mem_imageInputs_iff {k : Kernel} (h : k.WellFormed) {d : DataId} : d ∈ imageInputs k ↔
    ∃ item, k.data[d]? = some item ∧ item.role = .input ∧ item.iterative = true := by
  rw [imageInputs, List.mem_filter, h.mem_inputs_iff, Option.any_eq_true]
  constructor
  · rintro ⟨⟨item, hd, hr⟩, item', hd', hi⟩
    obtain rfl : item = item' := Option.some.inj (hd.symm.trans hd')
    exact ⟨item, hd, hr, hi⟩
  · rintro ⟨item, hd, hr, hi⟩
    exact ⟨⟨item, hd, hr⟩, item, hd, hi⟩

theorem nodup_imageInputs {k : Kernel} (h : k.WellFormed) : (imageInputs k).Nodup := by
  rw [imageInputs, h.inputs_eq]
  exact ((h.data_ids ▸ List.nodup_range).sublist (List.filter_sublist.map _)).filter _

section Order

variable {k : Kernel} {order : List NodeId} (ht : Topological k order)

include ht

theorem exists_output_eq {m : NodeId} (hm : m ∈ order) :
    ∃ n, k.nodes[m]? = some n ∧ n.output = outputOf k m := by
  have hn := List.getElem?_eq_getElem ((ht.mem_iff m).mp hm)
  exact ⟨_, hn, by rw [outputOf, hn]; rfl⟩

theorem mem_outputs_iff {d : DataId} : d ∈ order.map (outputOf k) ↔
    ∃ (m : NodeId) (n : Node), k.nodes[m]? = some n ∧ n.output = d := by
  rw [List.mem_map]
  constructor
  · rintro ⟨m, hm, rfl⟩
    obtain ⟨n, hn, ho⟩ := exists_output_eq ht hm
    exact ⟨m, n, hn, ho⟩
  · rintro ⟨m, n, hn, rfl⟩
    refine ⟨m, (ht.mem_iff m).mpr (List.getElem?_eq_some_iff.mp hn).1, ?_⟩
    rw [outputOf, hn]
    rfl

/-- Outputs of an order of the nodes follow the flow. -/
theorem ordered_outputs (h : k.WellFormed) :
    (order.map (outputOf k)).Pairwise fun a b => a ≠ b ∧ ¬ Feeds k b a := by
  refine List.pairwise_map.mpr (ht.ordered.imp_of_mem fun {m n} hm hn hmn => ?_)
  obtain ⟨a, ha, hao⟩ := exists_output_eq ht hm
  obtain ⟨b, hb, hbo⟩ := exists_output_eq ht hn
  rw [← hao, ← hbo]
  refine ⟨fun ho => hmn.1 (h.output_injective ha hb ho), ?_⟩
  rintro ⟨e, he, t, ht', hs, ho⟩
  obtain rfl := h.output_injective ht' ha ho
  exact hmn.2 (mem_predecessorsOf h he hb hs)

/-- Parameters first, then the outputs in the order of their nodes. -/
theorem dataOrder_eq_ok (h : k.WellFormed) (hv : k.Valid) :
    ∃ ds, dataOrder k order = .ok ds ∧ DataOrder k ds := by
  refine ⟨_, dataOrder_of_topological ht, ?_⟩
  constructor
  case mem_iff =>
    intro d
    rw [List.mem_append, mem_imageInputs_iff h, mem_outputs_iff ht]
    constructor
    · rintro (⟨item, hd, -, hi⟩ | ⟨m, n, hn, rfl⟩)
      · exact ⟨item, hd, hi⟩
      · obtain ⟨item, hd⟩ := h.exists_output hn
        exact ⟨item, hd, h.iterative_output hn hd⟩
    · rintro ⟨item, hd, hi⟩
      rcases hv.input_or_produced hd with hr | ⟨m, hm⟩
      · exact .inl ⟨item, hd, hr, hi⟩
      · obtain ⟨n, hn, ho⟩ := (h.producer_iff hd m).mp hm
        exact .inr ⟨m, n, hn, ho⟩
  case ordered =>
    refine List.pairwise_append.mpr ⟨?_, ordered_outputs ht h, fun a ha b hb => ?_⟩
    · refine (nodup_imageInputs h).imp_of_mem fun ha hb hab => ⟨hab, ?_⟩
      obtain ⟨item, hd, hr, -⟩ := (mem_imageInputs_iff h).mp ha
      exact not_feeds_input h hd hr
    · obtain ⟨item, hd, hr, -⟩ := (mem_imageInputs_iff h).mp ha
      obtain ⟨m, n, hn, rfl⟩ := (mem_outputs_iff ht).mp hb
      refine ⟨?_, not_feeds_input h hd hr⟩
      rintro rfl
      exact (h.produced hd (h.producer_output hn hd)).2 hr
  case irrefl =>
    rintro d ⟨e, he, n, hn, rfl, ho⟩
    exact ht.irrefl e.target (mem_predecessorsOf h he hn ho.symm)

end Order

namespace DataOrder

variable {k : Kernel} {ds : List DataId} (ho : DataOrder k ds)

include ho

theorem nodup : ds.Nodup := ho.ordered.imp fun hab => hab.1

theorem exists_item {i : DataId} (hi : i ∈ ds) : ∃ d, k.data[i]? = some d :=
  have ⟨d, hd, _⟩ := (ho.mem_iff i).mp hi
  ⟨d, hd⟩

/-- Both ends of a flow are in the order. -/
theorem mem_of_feeds (h : k.WellFormed) (hv : k.Valid) {a b : DataId} (hf : Feeds k a b) :
    a ∈ ds ∧ b ∈ ds := by
  obtain ⟨e, he, n, hn, rfl, rfl⟩ := hf
  obtain ⟨s, hs⟩ := h.exists_source he
  obtain ⟨o, hout⟩ := h.exists_output hn
  exact ⟨(ho.mem_iff _).mpr ⟨s, hs, hv.source_iterative he hs⟩,
    (ho.mem_iff _).mpr ⟨o, hout, h.iterative_output hn hout⟩⟩

/-- The order is one of the graph. -/
theorem of_keeps {k' : Kernel} (hk : Keeps DataItem.reset k k') : DataOrder k' ds := by
  have hfeeds : ∀ a b, Feeds k' a b ↔ Feeds k a b := fun a b => by
    rw [Feeds, Feeds, hk.edges, hk.nodes]
  refine ⟨fun i => ?_, ho.ordered.imp fun hab => ⟨hab.1, fun hf => hab.2 ((hfeeds _ _).mp hf)⟩,
    fun d hf => ho.irrefl d ((hfeeds d d).mp hf)⟩
  rw [ho.mem_iff]
  constructor
  · rintro ⟨d, hd, hiter⟩
    obtain ⟨d', hd', hreset⟩ := hk.symm.exists_item hd
    exact ⟨d', hd', (congrArg (·.iterative) hreset).symm.trans hiter⟩
  · rintro ⟨d', hd', hiter⟩
    obtain ⟨d, hd, hreset⟩ := hk.exists_item hd'
    exact ⟨d, hd, (congrArg (·.iterative) hreset).symm.trans hiter⟩

/-- What follows for an item once it holds of the items computed from it. -/
theorem backward {P : DataId → Prop} (h : k.WellFormed) (hv : k.Valid)
    (hstep : ∀ i ∈ ds, (∀ x, Feeds k i x → P x) → P i) : ∀ i ∈ ds, P i := by
  -- the induction is on how much of the order is left
  suffices hsuffix : ∀ right left, ds = left ++ right → ∀ i ∈ right, P i from hsuffix ds [] rfl
  intro right
  induction right with
  | nil => exact fun _ _ _ hi => absurd hi List.not_mem_nil
  | cons a rest ih =>
    intro left hds
    have hrest : ∀ i ∈ rest, P i := ih (left ++ [a]) (by rw [hds, List.append_assoc]; rfl)
    have ha : P a := by
      refine hstep a (by simp [hds]) fun x hx => ?_
      have hmem := (ho.mem_of_feeds h hv hx).2
      obtain ⟨-, -, hcross⟩ := List.pairwise_append.mp (hds ▸ ho.ordered)
      rw [hds, List.mem_append, List.mem_cons] at hmem
      rcases hmem with hleft | rfl | hright
      · exact absurd hx (hcross x hleft a List.mem_cons_self).2
      · exact absurd hx (ho.irrefl x)
      · exact hrest x hright
    exact List.forall_mem_cons.mpr ⟨ha, hrest⟩

/-- What follows for an item once it holds of the items it is computed from. -/
theorem forward {P : DataId → Prop} (h : k.WellFormed) (hv : k.Valid)
    (hstep : ∀ i ∈ ds, (∀ x, Feeds k x i → P x) → P i) : ∀ i ∈ ds, P i := by
  -- the induction is on how much of the order is done
  suffices hprefix : ∀ left right, ds = left ++ right → ∀ i ∈ left, P i from
    hprefix ds [] (List.append_nil ds).symm
  intro left
  induction left using List.reverseRecOn with
  | nil => exact fun _ _ _ hi => absurd hi List.not_mem_nil
  | append_singleton done a ih =>
    intro right hds
    have hdone : ∀ i ∈ done, P i := ih (a :: right) (by rw [hds, List.append_assoc]; rfl)
    have ha : P a := by
      refine hstep a (by simp [hds]) fun x hx => ?_
      have hmem := (ho.mem_of_feeds h hv hx).1
      obtain ⟨-, -, hcross⟩ := List.pairwise_append.mp (hds ▸ ho.ordered)
      rw [hds, List.mem_append, List.mem_append, List.mem_singleton] at hmem
      rcases hmem with (hdone' | rfl) | hright
      · exact hdone x hdone'
      · exact absurd hx (ho.irrefl x)
      · exact absurd hx (hcross a (by simp) x hright).2
    intro i hi
    rcases List.mem_append.mp hi with hi | hi
    · exact hdone i hi
    · exact List.mem_singleton.mp hi ▸ ha

end DataOrder

/-! ### Sweeps -/

section Sweep

variable {α ε : Type} {step : DataId → (DataId → α) → Except ε (DataId → α)}
  {P : (DataId → α) → DataId → α → Prop} {ds : List DataId} {R : DataId → DataId → Prop}

/-- A sweep from the last item to the first. If each value is right for the table it was
computed from, and this depends only on items behind it, the final table is right everywhere. -/
theorem foldrM_assign (hds : ds.Pairwise fun a b => a ≠ b ∧ ¬ R b a) (hirr : ∀ d, ¬ R d d)
    (hstep : ∀ d ∈ ds, ∀ t, ∃ v, step d t = .ok (assign t d v) ∧ P t d v)
    (hlocal : ∀ d ∈ ds, ∀ t t' v, (∀ x, R d x → t x = t' x) → P t d v → P t' d v)
    (init : DataId → α) : ∃ t, ds.foldrM step init = .ok t ∧ ∀ d ∈ ds, P t d (t d) := by
  induction ds with
  | nil => exact ⟨init, rfl, by simp⟩
  | cons a rest ih =>
    obtain ⟨ha, hrest⟩ := List.pairwise_cons.mp hds
    obtain ⟨t, ht, hP⟩ := ih hrest (fun d hd => hstep d (List.mem_cons_of_mem _ hd))
      (fun d hd => hlocal d (List.mem_cons_of_mem _ hd))
    obtain ⟨v, hv, hPv⟩ := hstep a List.mem_cons_self t
    refine ⟨assign t a v, by rw [List.foldrM_cons, ht]; exact hv, fun d hd => ?_⟩
    -- the last assignment touches nothing that the value at `d` looks at
    have hkeep : ∀ x, R d x → t x = assign t a v x := by
      intro x hx
      refine (if_neg ?_).symm
      rintro rfl
      rcases List.mem_cons.mp hd with rfl | hd
      · exact hirr _ hx
      · exact (ha d hd).2 hx
    refine hlocal d hd t _ _ hkeep ?_
    rcases List.mem_cons.mp hd with rfl | hd
    · rw [assign, if_pos rfl]
      exact hPv
    · rw [assign, if_neg (ha d hd).1.symm]
      exact hP d hd

/-- The same from the first item to the last. -/
theorem foldlM_assign (hds : ds.Pairwise fun a b => a ≠ b ∧ ¬ R a b) (hirr : ∀ d, ¬ R d d)
    (hstep : ∀ d ∈ ds, ∀ t, ∃ v, step d t = .ok (assign t d v) ∧ P t d v)
    (hlocal : ∀ d ∈ ds, ∀ t t' v, (∀ x, R d x → t x = t' x) → P t d v → P t' d v)
    (init : DataId → α) :
    ∃ t, ds.foldlM (fun t d => step d t) init = .ok t ∧ ∀ d ∈ ds, P t d (t d) := by
  have hrev : ds.reverse.Pairwise fun a b => a ≠ b ∧ ¬ R b a :=
    List.pairwise_reverse.mpr (hds.imp fun hab => ⟨hab.1.symm, hab.2⟩)
  obtain ⟨t, ht, hP⟩ := foldrM_assign hrev hirr (fun d hd => hstep d (List.mem_reverse.mp hd))
    (fun d hd => hlocal d (List.mem_reverse.mp hd)) init
  rw [List.foldrM_reverse] at ht
  exact ⟨t, ht, fun d hd => hP d (List.mem_reverse.mpr hd)⟩

end Sweep

end StencilTiling.Analysis
