import StencilTiling.Kernel.Validate
import StencilTiling.Proofs.Kernel.Construction
import StencilTiling.Proofs.Pointwise

/-! What a kernel that passes validation offers the scheduler. The checks look at
the dimensions that strides and windows have; the facts below hold of all
dimensions, since further on a stride is one element and a window one index. -/

namespace StencilTiling.Kernel

/-- The invariants of a validated kernel. -/
structure Valid (k : Kernel) : Prop where
  input_or_produced : ∀ {i : DataId} {d : DataItem}, k.data[i]? = some d →
    d.role = .input ∨ ∃ m, d.producer = some m
  rank_eq : ∀ {i : DataId} {d : DataItem}, k.data[i]? = some d → d.iterative = true →
    d.rank = k.rank
  inStride_pos : ∀ {i : NodeId} {n : Node}, k.nodes[i]? = some n → ∀ dim, 0 < n.inStride.get dim
  outStride_pos : ∀ {i : NodeId} {n : Node}, k.nodes[i]? = some n → ∀ dim, 0 < n.outStride.get dim
  control_scalar : ∀ {i : NodeId} {n : Node}, k.nodes[i]? = some n → ∀ {c : DataId} {d : DataItem},
    c ∈ n.controls → k.data[c]? = some d → d.iterative = false
  source_iterative : ∀ {e : Edge} {s : DataItem}, e ∈ k.edges → k.data[e.source]? = some s →
    s.iterative = true
  stride_le_read : ∀ {e : Edge} {n : Node}, e ∈ k.edges → k.nodes[e.target]? = some n →
    ∀ dim, n.inStride.get dim ≤ e.read.last dim - e.read.first dim + 1
  stride_rank : ∀ {i : NodeId} {n : Node}, k.nodes[i]? = some n →
    n.inStride.rank = k.rank ∧ n.outStride.rank = k.rank
  read_rank : ∀ {e : Edge}, e ∈ k.edges → e.read.rank = k.rank

theorem checkStride_eq_ok {k : Kernel} {n : Node} {rank : Nat} {side : StrideSide} {stride : Size}
    (h : k.checkStride n rank side stride = .ok ()) :
    stride.rank = rank ∧ ∀ dim, 0 < stride.get dim := by
  obtain ⟨_, hrank, hpos⟩ := bind_eq_ok.mp h
  refine ⟨ensure_eq_ok.mp hrank, fun dim => ?_⟩
  by_cases hdim : dim < stride.rank
  · rw [Size.get, List.getD_eq_getElem _ _ hdim]
    exact ensure_eq_ok.mp hpos _ (List.getElem_mem _)
  · rw [Size.get_of_rank_le (Nat.le_of_not_lt hdim)]
    exact Int.one_pos

theorem checkRead_eq_ok {k : Kernel} {n : Node} {source : DataItem} {read : Window}
    (hrank : n.inStride.rank = source.rank) (h : k.checkRead n source read = .ok ()) :
    source.iterative = true ∧
      (∀ dim, n.inStride.get dim ≤ read.last dim - read.first dim + 1) ∧
      read.rank = source.rank := by
  obtain ⟨_, hiter, h⟩ := bind_eq_ok.mp h
  obtain ⟨_, hread, h⟩ := bind_eq_ok.mp h
  obtain ⟨_, hempty, h⟩ := bind_eq_ok.mp h
  have hread : read.rank = source.rank := ensure_eq_ok.mp hread
  refine ⟨ensure_eq_ok.mp hiter, fun dim => ?_, hread⟩
  by_cases hdim : dim < read.rank
  · have hlength := ensure_eq_ok.mp (forM_eq_ok.mp h dim (List.mem_range.mpr hdim))
    exact hlength.trans (Window.length_le (ensure_eq_ok.mp hempty) dim)
  · rw [Size.get_of_rank_le (by omega), Window.last, Window.first,
      Window.span_of_rank_le (Nat.le_of_not_lt hdim)]
    decide

theorem valid_of_validate {k : Kernel} (h : k.WellFormed) (hv : k.validate = .ok ()) : k.Valid := by
  obtain ⟨_, horphan, hv⟩ := bind_eq_ok.mp hv
  obtain ⟨_, hrank, hnodes⟩ := bind_eq_ok.mp hv
  have hrank : ∀ {i : DataId} {d : DataItem}, k.data[i]? = some d → d.iterative = true →
      d.rank = k.rank := fun hd hi =>
    ensure_eq_ok.mp (forM_eq_ok.mp hrank _ (Kernel.mem_iterativeData_iff.mpr ⟨_, hd, hi⟩))
  have hnode : ∀ {i : NodeId} {n : Node}, k.nodes[i]? = some n →
      (n.inStride.rank = k.rank ∧ ∀ dim, 0 < n.inStride.get dim) ∧
        (n.outStride.rank = k.rank ∧ ∀ dim, 0 < n.outStride.get dim) ∧
        (∀ c ∈ n.controls, ∀ d, k.data[c]? = some d → d.iterative = false) ∧
        ∀ e ∈ k.inputEdges n, ∀ s, k.data[e.source]? = some s → k.checkRead n s e.read = .ok () := by
    intro i n hn
    obtain ⟨o, ho⟩ := h.exists_output hn
    have hcheck : k.checkNode n = .ok () := forM_eq_ok.mp hnodes n (List.mem_of_getElem? hn)
    simp only [checkNode, ho] at hcheck
    obtain ⟨_, hin, hcheck⟩ := bind_eq_ok.mp hcheck
    obtain ⟨_, hout, hcheck⟩ := bind_eq_ok.mp hcheck
    obtain ⟨_, -, hcheck⟩ := bind_eq_ok.mp hcheck
    obtain ⟨_, hcontrols, hreads⟩ := bind_eq_ok.mp hcheck
    rw [hrank ho (h.iterative_output hn ho)] at hin hout
    refine ⟨checkStride_eq_ok hin, checkStride_eq_ok hout, fun c hc d hd => ?_, fun e he s hs => ?_⟩
    · exact ensure_eq_ok.mp (forM_eq_ok.mp hcontrols d (List.mem_filterMap.mpr ⟨c, hc, hd⟩))
    · simpa [hs] using forM_eq_ok.mp hreads e he
  have hread : ∀ {e : Edge} {n : Node} {s : DataItem}, e ∈ k.edges → k.nodes[e.target]? = some n →
      k.data[e.source]? = some s →
      s.iterative = true ∧ (∀ dim, n.inStride.get dim ≤ e.read.last dim - e.read.first dim + 1) ∧
        e.read.rank = s.rank := by
    intro e n s he hn hs
    obtain ⟨⟨hin, -⟩, -, -, hreads⟩ := hnode hn
    have hcheck := hreads e ((h.mem_inputEdges_iff hn).mpr ⟨he, rfl⟩) s hs
    have hiter : s.iterative = true := by
      obtain ⟨_, hiter, -⟩ := bind_eq_ok.mp hcheck
      exact ensure_eq_ok.mp hiter
    exact checkRead_eq_ok (hin.trans (hrank hs hiter).symm) hcheck
  refine ⟨fun hd => ?_, hrank, fun hn => (hnode hn).1.2, fun hn => (hnode hn).2.1.2,
    fun hn c d hc hd => (hnode hn).2.2.1 c hc d hd, ?_, ?_,
    fun hn => ⟨(hnode hn).1.1, (hnode hn).2.1.1⟩, ?_⟩
  · have := ensure_eq_ok.mp (forM_eq_ok.mp horphan _ (List.mem_of_getElem? hd))
    rwa [Option.isSome_iff_exists] at this
  · intro e s he hs
    obtain ⟨n, hn⟩ := h.exists_target he
    exact (hread he hn hs).1
  · intro e n he hn
    obtain ⟨s, hs⟩ := h.exists_source he
    exact (hread he hn hs).2.1
  · intro e he
    obtain ⟨n, hn⟩ := h.exists_target he
    obtain ⟨s, hs⟩ := h.exists_source he
    obtain ⟨hiter, -, hlength⟩ := hread he hn hs
    exact hlength.trans (hrank hs hiter)

/-- The ranks of the data decide the rank of the kernel. -/
theorem SameGraph.rank_eq {k k' : Kernel} (hs : SameGraph k k') : k'.rank = k.rank := by
  have hview : ∀ k : Kernel, k.iterativeData.map DataItem.rank =
      ((k.data.map DataItem.reset).filter (·.iterative)).map DataItem.rank := by
    intro k
    rw [List.filter_map, List.map_map]
    rfl
  rw [Kernel.rank, Kernel.rank, hview, hs.data, ← hview]

/-- A node is checked against the declarations. -/
theorem checkNode_reset (k : Kernel) (n : Node) : k.reset.checkNode n = k.checkNode n := by
  have hdata : ∀ i : DataId, k.reset.data[i]? = (k.data[i]?).map DataItem.reset := fun i =>
    List.getElem?_map
  unfold checkNode
  rw [hdata]
  cases k.data[n.output]? with
  | none => rfl
  | some output =>
    have hcontrols : (n.controls.filterMap (k.reset.data[·]?)).forM (k.reset.checkControl n) =
        (n.controls.filterMap (k.data[·]?)).forM (k.checkControl n) := by
      simp only [hdata, ← List.map_filterMap]
      exact List.forM_map
    simp only [Option.map_some]
    rw [hcontrols]
    refine congrArg (_ >>= ·) (funext fun _ => congrArg (_ >>= ·) (funext fun _ =>
      congrArg (_ >>= ·) (funext fun _ => congrArg (_ >>= ·) (funext fun _ => ?_))))
    refine congrArg (List.forM (k.inputEdges n)) (funext fun e => ?_)
    rw [hdata]
    cases k.data[e.source]? <;> rfl

/-- Annotations do not matter to the checks. -/
theorem validate_reset (k : Kernel) : k.reset.validate = k.validate := by
  have horphan : k.reset.data.forM k.reset.checkOrphan = k.data.forM k.checkOrphan := List.forM_map
  have hrank : k.reset.iterativeData.forM k.reset.checkRank = k.iterativeData.forM k.checkRank := by
    rw [show k.reset.iterativeData = k.iterativeData.map DataItem.reset from List.filter_map]
    refine List.forM_map.trans (congrArg (List.forM k.iterativeData) (funext fun d => ?_))
    rw [checkRank, checkRank, (sameGraph_reset k).rank_eq]
    rfl
  have hnode : k.reset.nodes.forM k.reset.checkNode = k.nodes.forM k.checkNode :=
    congrArg (List.forM k.nodes) (funext k.checkNode_reset)
  unfold validate
  rw [horphan, hrank, hnode]

/-- Validity is a matter of the graph. -/
theorem Valid.of_sameGraph {k k' : Kernel} (h : k.Valid) (hs : SameGraph k k') : k'.Valid := by
  refine ⟨?_, ?_, ?_, ?_, ?_, ?_, ?_, ?_, ?_⟩
  · intro i d' hd'
    obtain ⟨d, note, hd, rfl⟩ := hs.exists_item hd'
    exact (h.input_or_produced hd :)
  · intro i d' hd' hi
    obtain ⟨d, note, hd, rfl⟩ := hs.exists_item hd'
    exact (h.rank_eq hd hi).trans hs.rank_eq.symm
  · intro i n' hn'
    obtain ⟨n, params, hn, rfl⟩ := hs.exists_node hn'
    exact (h.inStride_pos hn :)
  · intro i n' hn'
    obtain ⟨n, params, hn, rfl⟩ := hs.exists_node hn'
    exact (h.outStride_pos hn :)
  · intro i n' hn' c d' hc hd'
    obtain ⟨n, params, hn, rfl⟩ := hs.exists_node hn'
    obtain ⟨d, note, hd, rfl⟩ := hs.exists_item hd'
    exact (h.control_scalar hn hc hd :)
  · intro e s' he hs'
    obtain ⟨s, note, hs'', rfl⟩ := hs.exists_item hs'
    exact (h.source_iterative (hs.edges ▸ he) hs'' :)
  · intro e n' he hn'
    obtain ⟨n, params, hn, rfl⟩ := hs.exists_node hn'
    exact (h.stride_le_read (hs.edges ▸ he) hn :)
  · intro i n' hn'
    obtain ⟨n, params, hn, rfl⟩ := hs.exists_node hn'
    rw [hs.rank_eq]
    exact (h.stride_rank hn :)
  · intro e he
    rw [hs.rank_eq]
    exact h.read_rank (hs.edges ▸ he)

end StencilTiling.Kernel
