import Mathlib.Data.Finset.Card
import Mathlib.Logic.Relation
import Mathlib.Order.Bounds.Defs
import StencilTiling.Proofs.Kernel.ControlParams

/-! Control parameters flow from producers to consumers. The rounds stop, on cyclic graphs
too: an identifier that some node still lacks reaches one more node in every round, and there
are only so many nodes. A round that adds nothing leaves a family of sets closed under the
flow, and nothing enters a set but along the flow, so the family is the least closed one and
its sets are what the nodes upstream need. -/

namespace StencilTiling.Kernel

/-! ### Needs and flow -/

/-- The item is an explicit control of the node, or carries an extent of something the node
reads or writes. -/
def Needs (k : Kernel) (m : NodeId) (x : DataId) : Prop :=
  ∃ n, k.nodes[m]? = some n ∧ (x ∈ n.controls ∨ ∃ d max, Extent.dynamic x max ∈ d.shape ∧
    (k.data[n.output]? = some d ∨ ∃ e ∈ k.edges, e.target = m ∧ k.data[e.source]? = some d))

/-- The second node reads what the first one writes. -/
def Supplies (k : Kernel) (m n : NodeId) : Prop :=
  ∃ a, k.nodes[m]? = some a ∧ ∃ e ∈ k.edges, e.source = a.output ∧ e.target = n

/-- Sets of identifiers that hold what each node needs and what its producers have. -/
structure Provides (k : Kernel) (sets : NodeId → Set DataId) : Prop where
  needs : ∀ {m x}, k.Needs m x → x ∈ sets m
  supplies : ∀ {m n}, k.Supplies m n → sets m ⊆ sets n

/-- The control parameters recorded on a node. -/
def paramSet (k : Kernel) (i : NodeId) : Set DataId := {x | ∃ n, k.nodes[i]? = some n ∧ x ∈ n.params}

/-- Rounds follow each other until one adds nothing. -/
inductive Settles (k : Kernel) : List (List DataId) → List (List DataId) → Prop
  | done {params : List (List DataId)} : k.paramsRound params = params → Settles k params params
  | again {params result : List (List DataId)} : k.paramsRound params ≠ params →
      Settles k (k.paramsRound params) result → Settles k params result

theorem mem_filterMap_param {shape : Shape} {x : DataId} :
    x ∈ shape.filterMap Extent.param ↔ ∃ max, Extent.dynamic x max ∈ shape := by
  rw [List.mem_filterMap]
  constructor
  · rintro ⟨extent, hmem, hparam⟩
    cases extent with
    | fixed size => cases hparam
    | dynamic param max =>
      obtain rfl := Option.some.inj hparam
      exact ⟨max, hmem⟩
  · rintro ⟨max, hmem⟩
    exact ⟨_, hmem, rfl⟩

section Flow

variable {k : Kernel} (h : k.WellFormed)

include h

/-- What a node starts with is what it needs. -/
theorem mem_ownParams_iff_needs {i : NodeId} {x : DataId} :
    x ∈ (k.nodes.map k.ownParams).getD i [] ↔ k.Needs i x := by
  rw [mem_ownParams_iff]
  refine exists_congr fun n => and_congr_right fun hn => ?_
  have hcontrols : x ∈ insertIds n.controls [] ↔ x ∈ n.controls := by simp [mem_insertIds]
  rw [ownParams, mem_insertIds, hcontrols, or_comm]
  refine or_congr_right ?_
  rw [List.mem_flatMap]
  constructor
  · rintro ⟨i, hi, hx⟩
    split at hx
    · next d hd =>
      obtain ⟨max, hmem⟩ := mem_filterMap_param.mp hx
      refine ⟨d, max, hmem, ?_⟩
      rcases List.mem_append.mp hi with hi | hi
      · obtain ⟨e, he, rfl⟩ := List.mem_map.mp hi
        obtain ⟨he, ht⟩ := (h.mem_inputEdges_iff hn).mp he
        exact .inr ⟨e, he, ht, hd⟩
      · exact .inl (List.mem_singleton.mp hi ▸ hd)
    · cases hx
  · rintro ⟨d, max, hmem, hd⟩
    have hx := mem_filterMap_param.mpr ⟨max, hmem⟩
    rcases hd with hd | ⟨e, he, ht, hd⟩
    · exact ⟨n.output, List.mem_append_right _ (List.mem_singleton_self _), by rw [hd]; exact hx⟩
    · have he := (h.mem_inputEdges_iff hn).mpr ⟨he, ht⟩
      exact ⟨e.source, List.mem_append_left _ (List.mem_map_of_mem he), by rw [hd]; exact hx⟩

end Flow

/-! ### Increasing lists -/

theorem pairwise_insertId (d : DataId) {set : List DataId} (h : set.Pairwise (· < ·)) :
    (insertId d set).Pairwise (· < ·) := by
  induction set with
  | nil => exact List.pairwise_singleton _ _
  | cons x rest ih =>
    obtain ⟨hx, hrest⟩ := List.pairwise_cons.mp h
    unfold insertId
    split_ifs with hlt heq
    · refine List.pairwise_cons.mpr ⟨fun y hy => ?_, h⟩
      rcases List.mem_cons.mp hy with rfl | hy
      · exact hlt
      · exact hlt.trans (hx y hy)
    · exact h
    · refine List.pairwise_cons.mpr ⟨fun y hy => ?_, ih hrest⟩
      rcases mem_insertId.mp hy with rfl | hy
      · exact Nat.lt_of_le_of_ne (Nat.le_of_not_lt hlt) (Ne.symm heq)
      · exact hx y hy

theorem pairwise_insertIds (ds : List DataId) {set : List DataId} (h : set.Pairwise (· < ·)) :
    (insertIds ds set).Pairwise (· < ·) := by
  induction ds generalizing set with
  | nil => exact h
  | cons d rest ih => exact ih (pairwise_insertId d h)

theorem insertId_of_mem {d : DataId} {set : List DataId} (h : set.Pairwise (· < ·)) (hd : d ∈ set) :
    insertId d set = set := by
  induction set with
  | nil => cases hd
  | cons x rest ih =>
    obtain ⟨hx, hrest⟩ := List.pairwise_cons.mp h
    unfold insertId
    rcases List.mem_cons.mp hd with rfl | hd
    · rw [if_neg (Nat.lt_irrefl d), if_pos rfl]
    · rw [if_neg (Nat.lt_asymm (hx d hd)), if_neg (Nat.ne_of_gt (hx d hd)), ih hrest hd]

theorem insertIds_of_subset {ds set : List DataId} (h : set.Pairwise (· < ·)) (hds : ds ⊆ set) :
    insertIds ds set = set := by
  induction ds with
  | nil => rfl
  | cons d rest ih =>
    obtain ⟨hd, hrest⟩ := List.cons_subset.mp hds
    rw [insertIds, List.foldl_cons, insertId_of_mem h hd]
    exact ih hrest

/-! ### Rounds -/

/-- Every set is strictly increasing. -/
def Increasing (params : List (List DataId)) : Prop := ∀ i : NodeId, (params.getD i []).Pairwise (· < ·)

/-- Whoever reads from a node that has the identifier has it as well. -/
def ClosedAt (k : Kernel) (params : List (List DataId)) (x : DataId) : Prop :=
  ∀ n ∈ k.nodes, ∀ p ∈ k.predecessors n, x ∈ params.getD p [] → x ∈ params.getD n.id []

/-- The nodes that have the identifier. -/
def holders (k : Kernel) (params : List (List DataId)) (x : DataId) : Finset NodeId :=
  (Finset.range k.nodes.length).filter fun i => x ∈ params.getD i []

section Rounds

variable {k : Kernel} {params : List (List DataId)}

theorem increasing_ownParams (k : Kernel) : Increasing (k.nodes.map k.ownParams) := by
  intro i
  rw [List.getD_eq_getElem?_getD, List.getElem?_map]
  cases k.nodes[i]? with
  | none => exact .nil
  | some n => exact pairwise_insertIds _ (pairwise_insertIds _ .nil)

theorem Increasing.takeParams (h : Increasing params) (n : Node) :
    Increasing (k.takeParams params n) := by
  intro i
  rw [Kernel.takeParams, List.getD_eq_getElem?_getD, List.getElem?_modify]
  have hi := h i
  rw [List.getD_eq_getElem?_getD] at hi
  cases hset : params[i]? with
  | none => exact .nil
  | some set =>
    rw [hset, Option.getD_some] at hi
    by_cases hn : n.id = i
    · simpa [hn] using pairwise_insertIds _ hi
    · simpa [hn] using hi

theorem Increasing.paramsRound (h : Increasing params) : Increasing (k.paramsRound params) := by
  suffices hfold : ∀ (nodes : List Node) (params : List (List DataId)), Increasing params →
      Increasing (nodes.foldl k.takeParams params) from hfold k.nodes params h
  intro nodes
  induction nodes with
  | nil => exact fun _ h => h
  | cons n rest ih => exact fun params h => ih _ (h.takeParams n)

/-- Sets only grow. -/
theorem mem_foldl_takeParams {x : DataId} {i : NodeId} (nodes : List Node)
    (hx : x ∈ params.getD i []) : x ∈ (nodes.foldl k.takeParams params).getD i [] := by
  induction nodes generalizing params with
  | nil => exact hx
  | cons n rest ih => exact ih (mem_takeParams.mpr (.inl hx))

theorem mem_paramsRound {x : DataId} {i : NodeId} (hx : x ∈ params.getD i []) :
    x ∈ (k.paramsRound params).getD i [] := mem_foldl_takeParams k.nodes hx

/-- A round hands on to every node what its producers had before. -/
theorem mem_paramsRound_of_predecessor {n : Node} (hn : n ∈ k.nodes) (hlt : n.id < params.length)
    {p : NodeId} (hp : p ∈ k.predecessors n) {x : DataId} (hx : x ∈ params.getD p []) :
    x ∈ (k.paramsRound params).getD n.id [] := by
  obtain ⟨before, after, hnodes⟩ := List.append_of_mem hn
  rw [paramsRound, hnodes, List.foldl_append, List.foldl_cons]
  refine mem_foldl_takeParams after (mem_takeParams.mpr (.inr ⟨rfl, ?_, p, hp, ?_⟩))
  · rwa [length_foldl_takeParams]
  · exact mem_foldl_takeParams before hx

/-- Where nothing is left to hand on, a round changes nothing. -/
theorem paramsRound_of_closed (hs : Increasing params) (h : ∀ x, k.ClosedAt params x) :
    k.paramsRound params = params := by
  have htake : ∀ n ∈ k.nodes, k.takeParams params n = params := by
    intro n hn
    refine List.ext_getElem? fun i => ?_
    rw [takeParams, List.getElem?_modify]
    by_cases hi : n.id = i
    · cases hset : params[i]? with
      | none => rfl
      | some set =>
        have hsi := hs i
        rw [List.getD_eq_getElem?_getD, hset, Option.getD_some] at hsi
        rw [Option.map_eq_map, Option.map_some, if_pos hi, insertIds_of_subset hsi]
        intro x hx
        obtain ⟨p, hp, hx⟩ := List.mem_flatMap.mp hx
        have hxi := h x n hn p hp hx
        rwa [hi, List.getD_eq_getElem?_getD, hset, Option.getD_some] at hxi
    · simp [hi]
  suffices hfold : ∀ nodes : List Node, (∀ n ∈ nodes, n ∈ k.nodes) →
      nodes.foldl k.takeParams params = params from hfold k.nodes fun _ hn => hn
  intro nodes hnodes
  induction nodes with
  | nil => rfl
  | cons n rest ih =>
    obtain ⟨hn, hrest⟩ := List.forall_mem_cons.mp hnodes
    rw [List.foldl_cons, htake n hn, ih hrest]

/-- An identifier with nothing left to hand on stays where it is. -/
theorem ClosedAt.mem_paramsRound_iff {x : DataId} (h : k.ClosedAt params x) {i : NodeId} :
    x ∈ (k.paramsRound params).getD i [] ↔ x ∈ params.getD i [] := by
  refine ⟨fun hx => ?_, mem_paramsRound⟩
  refine paramsRound_invariant (Q := fun i y => y = x → y ∈ params.getD i []) ?_ (fun _ _ hy _ => hy)
    i x hx rfl
  rintro n hn p hp y hy rfl
  exact h n hn p hp (hy rfl)

theorem ClosedAt.paramsRound {x : DataId} (h : k.ClosedAt params x) :
    k.ClosedAt (k.paramsRound params) x := by
  intro n hn p hp hx
  rw [h.mem_paramsRound_iff] at hx ⊢
  exact h n hn p hp hx

section Growth

variable (hw : k.WellFormed) (hlen : params.length = k.nodes.length)

include hw hlen

/-- A round adds a holder wherever something is left to hand on. -/
theorem card_holders_lt {x : DataId} (h : ¬k.ClosedAt params x) :
    (k.holders params x).card < (k.holders (k.paramsRound params) x).card := by
  simp only [ClosedAt, not_forall] at h
  obtain ⟨n, hn, p, hp, hx, hlacks⟩ := h
  obtain ⟨i, hi⟩ := List.mem_iff_getElem?.mp hn
  have hlt : n.id < k.nodes.length := by
    rw [hw.node_id hi]
    exact (List.getElem?_eq_some_iff.mp hi).1
  refine Finset.card_lt_card (Finset.ssubset_iff_subset_ne.mpr ⟨?_, fun heq => hlacks ?_⟩)
  · exact Finset.monotone_filter_right _ fun _ _ hx => mem_paramsRound hx
  · have hmem : n.id ∈ k.holders (k.paramsRound params) x := Finset.mem_filter.mpr
      ⟨Finset.mem_range.mpr hlt, mem_paramsRound_of_predecessor hn (hlen ▸ hlt) hp hx⟩
    rw [← heq] at hmem
    exact (Finset.mem_filter.mp hmem).2

/-- A closed family is one that a round leaves alone. -/
theorem closedAt_of_fixed (h : k.paramsRound params = params) (x : DataId) : k.ClosedAt params x := by
  by_contra hopen
  have := card_holders_lt hw hlen hopen
  rw [h] at this
  exact Nat.lt_irrefl _ this

/-- What all nodes have is handed on. -/
theorem closedAt_of_card {x : DataId} (h : k.nodes.length ≤ (k.holders params x).card) :
    k.ClosedAt params x := by
  by_contra hopen
  have hlt := card_holders_lt hw hlen hopen
  have hle := Finset.card_le_card (Finset.filter_subset
    (fun i => x ∈ (k.paramsRound params).getD i []) (Finset.range k.nodes.length))
  rw [Finset.card_range] at hle
  exact absurd (h.trans_lt hlt) (Nat.not_lt_of_le hle)

/-- The rounds settle where each identifier has arrived or has as many rounds left as there are
nodes without it. -/
theorem settles_of_holders (hs : Increasing params) {fuel : Nat} (h : ∀ x, k.ClosedAt params x ∨
      k.nodes.length ≤ fuel + (k.holders params x).card) :
    k.Settles params (k.settleParams fuel params) := by
  induction fuel generalizing params with
  | zero =>
    refine .done (paramsRound_of_closed hs fun x => (h x).elim id fun hx => ?_)
    exact closedAt_of_card hw hlen (by omega)
  | succ fuel ih =>
    rw [settleParams]
    split_ifs with hfixed
    · exact .done hfixed
    · refine .again hfixed (ih (by rw [paramsRound, length_foldl_takeParams, hlen]) hs.paramsRound
        fun x => ?_)
      by_cases hx : k.ClosedAt params x
      · exact .inl hx.paramsRound
      · have := card_holders_lt hw hlen hx
        have := (h x).resolve_left hx
        exact .inr (by omega)

end Growth

/-- What every round keeps holds where the rounds end. -/
theorem Settles.invariant {P : List (List DataId) → Prop} (hstep : ∀ params, P params → P (k.paramsRound params))
    {result : List (List DataId)} (h : k.Settles params result) (hp : P params) : P result := by
  induction h with
  | done _ => exact hp
  | again _ _ ih => exact ih (hstep _ hp)

theorem Settles.fixed {result : List (List DataId)} (h : k.Settles params result) :
    k.paramsRound result = result := by
  induction h with
  | done hfixed => exact hfixed
  | again _ _ ih => exact ih

end Rounds

/-! ### The least family -/

/-- The parameter sets that the rounds end with. -/
def settledParams (k : Kernel) : List (List DataId) :=
  k.settleParams k.nodes.length (k.nodes.map k.ownParams)

section Least

variable {k : Kernel}

theorem length_settledParams (k : Kernel) : k.settledParams.length = k.nodes.length := by
  rw [settledParams, length_settleParams, List.length_map]

theorem mem_paramSet_deriveParams {i : NodeId} {x : DataId} :
    x ∈ k.deriveParams.paramSet i ↔ x ∈ k.settledParams.getD i [] := by
  constructor
  · rintro ⟨n', hn', hx⟩
    obtain ⟨n, -, rfl⟩ := deriveParams_node hn'
    exact hx
  · intro hx
    have hlen : k.deriveParams.nodes.length = k.nodes.length := by
      simpa using congrArg List.length (sameGraph_deriveParams k).nodes
    have hi : i < k.deriveParams.nodes.length := by
      by_contra hge
      rw [hlen, ← length_settledParams, Nat.not_lt] at hge
      rw [List.getD_eq_default _ _ hge] at hx
      cases hx
    obtain ⟨n', hn'⟩ : ∃ n', k.deriveParams.nodes[i]? = some n' := ⟨_, List.getElem?_eq_getElem hi⟩
    obtain ⟨n, -, rfl⟩ := deriveParams_node hn'
    exact ⟨_, hn', hx⟩

section WellFormed

variable (h : k.WellFormed)

include h

theorem settles_settledParams : k.Settles (k.nodes.map k.ownParams) k.settledParams :=
  settles_of_holders h (List.length_map _) (increasing_ownParams k) fun _ => .inr (Nat.le_add_right _ _)

/-- The rounds end with what the nodes upstream need. -/
theorem mem_settledParams_iff {i : NodeId} {x : DataId} : x ∈ k.settledParams.getD i [] ↔
    ∃ m, Relation.ReflTransGen k.Supplies m i ∧ k.Needs m x := by
  constructor
  · refine settleParams_invariant (Q := fun i x => ∃ m, Relation.ReflTransGen k.Supplies m i ∧ k.Needs m x)
      ?_ _ (fun i x hx => ⟨i, .refl, (mem_ownParams_iff_needs h).mp hx⟩) i x
    rintro n hn p hp x ⟨m, hm, hx⟩
    obtain ⟨j, hj⟩ := List.mem_iff_getElem?.mp hn
    rw [h.node_id hj]
    exact ⟨m, hm.tail ((h.mem_predecessors_iff hj).mp hp), hx⟩
  · rintro ⟨m, hm, hx⟩
    have hs := settles_settledParams h
    induction hm with
    | refl =>
      exact hs.invariant (P := fun params => x ∈ params.getD m []) (fun _ => mem_paramsRound)
        ((mem_ownParams_iff_needs h).mpr hx)
    | @tail p j _ hsupplies ih =>
      obtain ⟨a, ha, e, he, hsource, rfl⟩ := hsupplies
      obtain ⟨n, hn⟩ := h.exists_target he
      have hp := (h.mem_predecessors_iff hn).mpr ⟨a, ha, e, he, hsource, rfl⟩
      have hclosed := closedAt_of_fixed h (length_settledParams k) hs.fixed x
      exact h.node_id hn ▸ hclosed n (List.mem_of_getElem? hn) p hp ih

theorem mem_deriveParams_iff {i : NodeId} {x : DataId} : x ∈ k.deriveParams.paramSet i ↔
    ∃ m, Relation.ReflTransGen k.Supplies m i ∧ k.Needs m x :=
  mem_paramSet_deriveParams.trans (mem_settledParams_iff h)

theorem increasing_settledParams : Increasing k.settledParams :=
  (settles_settledParams h).invariant (P := Increasing) (fun _ hs => hs.paramsRound) (increasing_ownParams k)

theorem isLeast_deriveParams : IsLeast {sets | k.Provides sets} k.deriveParams.paramSet := by
  refine ⟨⟨fun hx => ?_, fun hsupplies x hx => ?_⟩, fun sets hsets i x hx => ?_⟩
  · exact (mem_deriveParams_iff h).mpr ⟨_, .refl, hx⟩
  · obtain ⟨m, hm, hx⟩ := (mem_deriveParams_iff h).mp hx
    exact (mem_deriveParams_iff h).mpr ⟨m, hm.tail hsupplies, hx⟩
  · obtain ⟨m, hm, hneeds⟩ := (mem_deriveParams_iff h).mp hx
    clear hx
    induction hm with
    | refl => exact hsets.needs hneeds
    | tail _ hsupplies ih => exact hsets.supplies hsupplies ih

end WellFormed

/-- What was derived before plays no part. -/
theorem deriveParams_deriveParams (k : Kernel) : k.deriveParams.deriveParams = k.deriveParams := by
  have hbare : k.deriveParams.bare = k.bare :=
    congrArg (fun nodes => { k with nodes }) (sameGraph_deriveParams k).nodes
  rw [← deriveParams_bare, hbare, deriveParams_bare]

/-- On every kernel that can be built, cyclic ones included, the rounds end. The sets they end
with are strictly increasing lists of what the nodes upstream need, the least ones that
provide for every node. Deriving them once more changes nothing, and nothing else changes. -/
theorem control_params_least (hb : k.Built) :
    (∃ params, k.Settles (k.nodes.map k.ownParams) params ∧
      k.deriveParams.nodes = k.nodes.zipWith (fun n set => { n with params := set }) params) ∧
    IsLeast {sets | k.Provides sets} k.deriveParams.paramSet ∧
    (∀ i n, k.deriveParams.nodes[i]? = some n → n.params.Pairwise (· < ·) ∧
      ∀ x, x ∈ n.params ↔ ∃ m, Relation.ReflTransGen k.Supplies m i ∧ k.Needs m x) ∧
    k.deriveParams.deriveParams = k.deriveParams ∧
    k.deriveParams = { k with nodes := k.deriveParams.nodes } ∧
    k.deriveParams.nodes.map Node.bare = k.nodes.map Node.bare := by
  have h := hb.wellFormed
  refine ⟨⟨_, settles_settledParams h, rfl⟩, isLeast_deriveParams h, fun i n hn => ?_,
    deriveParams_deriveParams k, rfl, (sameGraph_deriveParams k).nodes⟩
  obtain ⟨m, -, rfl⟩ := deriveParams_node hn
  exact ⟨increasing_settledParams h i, fun x => mem_settledParams_iff h⟩

/-- Two filters feed each other. The one that reads their result is declared first and the one
with a control last. -/
def feedback : Kernel :=
  .ofDeclarations "feedback"
    [.control "gain" .int, .control "rows" .int, .data "a" .float [.fixed 8], .data "b" .float [.dynamic 1 (some 8)],
      .output "o" .float [.fixed 8],
      .node {} { name := "show", output := 4, inputs := [⟨3, ⟨[⟨0, 0⟩]⟩, .undef⟩] },
      .node {} { name := "decay", output := 3, inputs := [⟨2, ⟨[⟨0, 0⟩]⟩, .undef⟩] },
      .node {} { name := "amplify", output := 2, controls := [0], inputs := [⟨3, ⟨[⟨0, 0⟩]⟩, .undef⟩] }]

/-- The control of the last node goes round the cycle and reaches the first one in the second
round. -/
theorem control_params_least_feedback :
    feedback.Supplies 1 2 ∧ feedback.Supplies 2 1 ∧
      feedback.nodes.map feedback.ownParams = [[1], [1], [0, 1]] ∧
      feedback.paramsRound [[1], [1], [0, 1]] = [[1], [0, 1], [0, 1]] ∧
      feedback.deriveParams.nodes.map Node.params = [[0, 1], [0, 1], [0, 1]] ∧
      IsLeast {sets | feedback.Provides sets} feedback.deriveParams.paramSet := by
  have hlink : (∃ a ∈ feedback.nodes[1]?, ∃ e ∈ feedback.edges, e.source = a.output ∧ e.target = 2) ∧
      ∃ a ∈ feedback.nodes[2]?, ∃ e ∈ feedback.edges, e.source = a.output ∧ e.target = 1 := by
    decide +kernel
  exact ⟨hlink.1, hlink.2, by decide +kernel, by decide +kernel, by decide +kernel,
    (control_params_least (built_ofDeclarations _ _)).2.1⟩

end Least

end StencilTiling.Kernel
