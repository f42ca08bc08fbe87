import StencilTiling.Proofs.Kernel.Validity

/-! Control parameters of nodes. Where every extent at run time is carried by a control
scalar, whatever a node needs is one: its own controls by validation, the parameters of
what it reads and writes by their declaration, and the rest because a round only hands on
what some node already had. -/

namespace StencilTiling.Kernel

/-- The item is a control scalar. -/
def HasControl (k : Kernel) (i : DataId) : Prop := ∃ c, k.data[i]? = some c ∧ c.iterative = false

/-- Every extent at run time is carried by a control scalar. -/
def ExtentsCarried (k : Kernel) : Prop :=
  ∀ d ∈ k.data, ∀ i ∈ d.shape.filterMap Extent.param, k.HasControl i

/-- Every extent at run time names an item. -/
def ExtentsNamed (k : Kernel) : Prop :=
  ∀ d ∈ k.data, ∀ i ∈ d.shape.filterMap Extent.param, i < k.data.length

instance (k : Kernel) : Decidable k.ExtentsNamed :=
  inferInstanceAs (Decidable (∀ d ∈ _, ∀ i ∈ _, _ < _))

/-! ### Construction -/

/-- What an item has to do with extents. -/
def extentView (d : DataItem) : Shape × Bool := (d.shape, d.iterative)

section Views

variable {k k' : Kernel}

theorem HasControl.of_view (hdata : k'.data.map extentView = k.data.map extentView) {i : DataId}
    (h : k.HasControl i) : k'.HasControl i := by
  obtain ⟨c, hc, hscalar⟩ := h
  obtain ⟨c', hc', hview⟩ := exists_getElem?_of_map_eq hdata.symm hc
  exact ⟨c', hc', (congrArg Prod.snd hview).trans hscalar⟩

theorem ExtentsCarried.of_view (hdata : k'.data.map extentView = k.data.map extentView)
    (h : k.ExtentsCarried) : k'.ExtentsCarried := by
  intro d' hd' i hi
  obtain ⟨j, hj⟩ := List.mem_iff_getElem?.mp hd'
  obtain ⟨d, hd, hview⟩ := exists_getElem?_of_map_eq hdata hj
  have hshape : d.shape = d'.shape := congrArg Prod.fst hview
  exact (h d (List.mem_of_getElem? hd) i (hshape ▸ hi)).of_view hdata

theorem ExtentsNamed.of_view (hdata : k'.data.map extentView = k.data.map extentView)
    (h : k.ExtentsNamed) : k'.ExtentsNamed := by
  intro d' hd' i hi
  obtain ⟨j, hj⟩ := List.mem_iff_getElem?.mp hd'
  obtain ⟨d, hd, hview⟩ := exists_getElem?_of_map_eq hdata hj
  have hshape : d.shape = d'.shape := congrArg Prod.fst hview
  have hlength : k'.data.length = k.data.length := by simpa using congrArg List.length hdata
  exact hlength ▸ h d (List.mem_of_getElem? hd) i (hshape ▸ hi)

theorem SameGraph.extentView_eq (hs : SameGraph k k') :
    k'.data.map extentView = k.data.map extentView := by
  have := congrArg (List.map extentView) hs.data
  rwa [List.map_map, List.map_map] at this

/-- A new item may refer to the controls that are there. -/
theorem ExtentsCarried.append (h : k.ExtentsCarried) {d : DataItem}
    (hdata : k'.data = k.data ++ [d])
    (hd : ∀ i ∈ d.shape.filterMap Extent.param, k.HasControl i) : k'.ExtentsCarried := by
  have hmore : ∀ i, k.HasControl i → k'.HasControl i := by
    rintro i ⟨c, hc, hscalar⟩
    refine ⟨c, ?_, hscalar⟩
    rw [hdata, List.getElem?_append_left (List.getElem?_eq_some_iff.mp hc).1]
    exact hc
  intro d' hd' i hi
  rw [hdata, List.mem_append, List.mem_singleton] at hd'
  rcases hd' with hd' | rfl
  · exact hmore i (h d' hd' i hi)
  · exact hmore i (hd i hi)

end Views

theorem ExtentsCarried.declare {k k' : Kernel} {d : Declaration} (h : k.ExtentsCarried)
    (hd : ∀ i ∈ d.shape.filterMap Extent.param, k.HasControl i) (hk : k.declare d = .ok k') :
    k'.ExtentsCarried := by
  rcases declare_data hk with ⟨item, hdata, hshape, -⟩ | hview
  · exact h.append hdata (hshape ▸ hd)
  · have hextents := congrArg (List.map extentView) hview
    rw [List.map_map, List.map_map] at hextents
    exact h.of_view hextents

/-! ### Derived parameters -/

theorem mem_insertId {d x : DataId} {set : List DataId} : x ∈ insertId d set ↔ x = d ∨ x ∈ set := by
  induction set with
  | nil => simp [insertId]
  | cons y rest ih =>
    unfold insertId
    split_ifs with hlt heq
    · simp
    · simp [heq]
    · simp only [List.mem_cons, ih]
      tauto

theorem mem_insertIds {ds set : List DataId} {x : DataId} :
    x ∈ insertIds ds set ↔ x ∈ ds ∨ x ∈ set := by
  induction ds generalizing set with
  | nil => simp [insertIds]
  | cons d rest ih =>
    rw [insertIds, List.foldl_cons, ← insertIds, ih, mem_insertId, List.mem_cons]
    tauto

section Rounds

variable {k : Kernel} {P : DataId → Prop}

/-- A node takes over what its producers have, and nothing else changes. -/
theorem mem_takeParams {params : List (List DataId)} {n : Node} {i : NodeId} {x : DataId} :
    x ∈ (k.takeParams params n).getD i [] ↔ x ∈ params.getD i [] ∨
      i = n.id ∧ i < params.length ∧ ∃ p ∈ k.predecessors n, x ∈ params.getD p [] := by
  rw [takeParams, List.getD_eq_getElem?_getD, List.getElem?_modify]
  by_cases hi : i < params.length
  · simp only [List.getD_eq_getElem?_getD, List.getElem?_eq_getElem hi]
    by_cases hn : n.id = i
    · simp [hn, hi, mem_insertIds, or_comm]
    · simp [hn, Ne.symm hn]
  · simp [hi]

/-- What the set of every node is made of is kept by a round that hands it on. -/
theorem paramsRound_invariant {Q : NodeId → DataId → Prop} (hQ : ∀ n ∈ k.nodes, ∀ p ∈ k.predecessors n,
      ∀ x, Q p x → Q n.id x) {params : List (List DataId)} (h : ∀ i, ∀ x ∈ params.getD i [], Q i x) :
    ∀ i, ∀ x ∈ (k.paramsRound params).getD i [], Q i x := by
  suffices hfold : ∀ nodes : List Node, (∀ n ∈ nodes, n ∈ k.nodes) → ∀ params : List (List DataId),
      (∀ i, ∀ x ∈ params.getD i [], Q i x) →
        ∀ i, ∀ x ∈ (nodes.foldl k.takeParams params).getD i [], Q i x from
    hfold k.nodes (fun _ hn => hn) params h
  intro nodes
  induction nodes with
  | nil => exact fun _ _ h => h
  | cons n rest ih =>
    intro hnodes params h
    obtain ⟨hn, hrest⟩ := List.forall_mem_cons.mp hnodes
    refine ih hrest _ fun i x hx => ?_
    rcases mem_takeParams.mp hx with hx | ⟨rfl, -, p, hp, hx⟩
    · exact h i x hx
    · exact hQ n hn p hp x (h p x hx)

theorem settleParams_invariant {Q : NodeId → DataId → Prop} (hQ : ∀ n ∈ k.nodes, ∀ p ∈ k.predecessors n,
      ∀ x, Q p x → Q n.id x) (fuel : Nat) {params : List (List DataId)}
    (h : ∀ i, ∀ x ∈ params.getD i [], Q i x) :
    ∀ i, ∀ x ∈ (k.settleParams fuel params).getD i [], Q i x := by
  induction fuel generalizing params with
  | zero => exact h
  | succ fuel ih =>
    rw [settleParams]
    split_ifs
    · exact h
    · exact ih (paramsRound_invariant hQ h)

/-- What the rounds start from. -/
theorem mem_ownParams_iff {i : NodeId} {x : DataId} : x ∈ (k.nodes.map k.ownParams).getD i [] ↔
    ∃ n, k.nodes[i]? = some n ∧ x ∈ k.ownParams n := by
  rw [List.getD_eq_getElem?_getD, List.getElem?_map]
  cases k.nodes[i]? <;> simp

/-- A node of the derived kernel has the set that the rounds settled on. -/
theorem deriveParams_node {i : NodeId} {n' : Node} (hn' : k.deriveParams.nodes[i]? = some n') :
    ∃ n, k.nodes[i]? = some n ∧ n' = { n with
      params := (k.settleParams k.nodes.length (k.nodes.map k.ownParams)).getD i [] } := by
  simp only [deriveParams, List.getElem?_zipWith_eq_some] at hn'
  obtain ⟨n, set, hn, hset, rfl⟩ := hn'
  exact ⟨n, hn, by rw [List.getD_eq_getElem?_getD, hset, Option.getD_some]⟩

/-- The derived parameters are among what nodes need by themselves. -/
theorem deriveParams_forall (h : ∀ n ∈ k.nodes, ∀ d ∈ k.ownParams n, P d) :
    ∀ n ∈ k.deriveParams.nodes, ∀ d ∈ n.params, P d := by
  intro n hn d hd
  obtain ⟨i, hi⟩ := List.mem_iff_getElem?.mp hn
  obtain ⟨m, -, rfl⟩ := deriveParams_node hi
  refine settleParams_invariant (Q := fun _ => P) (fun _ _ _ _ _ hx => hx) _ (fun j x hx => ?_) i d hd
  obtain ⟨m, hm, hx⟩ := mem_ownParams_iff.mp hx
  exact h m (List.mem_of_getElem? hm) x hx

end Rounds

/-- The kernel with its nodes as they were declared. -/
def bare (k : Kernel) : Kernel := { k with nodes := k.nodes.map Node.bare }

/-- Rounds that do the same settle on the same. -/
theorem settleParams_congr {k k' : Kernel} (h : ∀ params, k'.paramsRound params = k.paramsRound params)
    (fuel : Nat) (params : List (List DataId)) :
    k'.settleParams fuel params = k.settleParams fuel params := by
  induction fuel generalizing params with
  | zero => rfl
  | succ fuel ih => simp only [settleParams, h, ih]

theorem deriveParams_bare (k : Kernel) : k.bare.deriveParams = k.deriveParams := by
  have hown : k.bare.nodes.map k.bare.ownParams = k.nodes.map k.ownParams := List.map_map
  have hround (params : List (List DataId)) : k.bare.paramsRound params = k.paramsRound params :=
    List.foldl_map
  have hlength : k.bare.nodes.length = k.nodes.length := List.length_map _
  unfold deriveParams
  rw [hown, hlength, settleParams_congr hround]
  simp only [bare, List.zipWith_map_left]
  rfl

/-- What a node needs are its controls and what names an extent. -/
theorem ownParams_forall {k : Kernel} {P : DataId → Prop}
    (hcontrols : ∀ n ∈ k.nodes, ∀ d ∈ n.controls, P d)
    (hextents : ∀ item ∈ k.data, ∀ d ∈ item.shape.filterMap Extent.param, P d) :
    ∀ n ∈ k.nodes, ∀ d ∈ k.ownParams n, P d := by
  intro n hn d hd
  rcases mem_insertIds.mp hd with hd | hd
  · obtain ⟨x, -, hd⟩ := List.mem_flatMap.mp hd
    split at hd
    · next item hitem => exact hextents item (List.mem_of_getElem? hitem) d hd
    · cases hd
  · exact hcontrols n hn d (by simpa [mem_insertIds] using hd)

/-- Nodes need items. -/
theorem ownParams_lt {k : Kernel} (h : k.WellFormed) (he : k.ExtentsNamed) :
    ∀ n ∈ k.nodes, ∀ d ∈ k.ownParams n, d < k.data.length := by
  refine ownParams_forall (fun n hn => ?_) he
  obtain ⟨i, hi⟩ := List.mem_iff_getElem?.mp hn
  exact h.control_lt hi

/-- Nodes need control scalars. -/
theorem hasControl_ownParams {k : Kernel} (h : k.WellFormed) (hv : k.Valid) (he : k.ExtentsCarried) :
    ∀ n ∈ k.nodes, ∀ d ∈ k.ownParams n, k.HasControl d := by
  refine ownParams_forall (fun n hn d hd => ?_) he
  obtain ⟨i, hi⟩ := List.mem_iff_getElem?.mp hn
  have hget := List.getElem?_eq_getElem (h.control_lt hi d hd)
  exact ⟨_, hget, hv.control_scalar hi hd hget⟩

theorem hasControl_deriveParams {k : Kernel} (h : k.WellFormed) (hv : k.Valid)
    (he : k.ExtentsCarried) : ∀ n ∈ k.deriveParams.nodes, ∀ d ∈ n.params, k.HasControl d :=
  deriveParams_forall (hasControl_ownParams h hv he)

end StencilTiling.Kernel
