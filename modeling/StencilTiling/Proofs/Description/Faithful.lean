import StencilTiling.Proofs.Description.Picture

/-! Descriptions build faithfully. Every node that goes on with the declarations adds itself and
its reads to the picture, so a description is accepted where all it names is declared, and its
kernels are the ones it says. -/

namespace StencilTiling.Description

/-! ### Reads and nodes -/

section Named

variable {unit : String} {first : Nat} {label : String} {location : Option Location}
  {data : List DataEntry} {nodes : List NodeEntry} {reads : List (NodeId × InputEntry)}

theorem rank_picture (i : Nat) (d : DataEntry) : (d.picture unit data nodes reads i).rank = d.rank := by
  unfold DataItem.rank DataEntry.picture DataEntry.rank
  split_ifs <;> simp

theorem namedItem_eq_ok_iff {node item : String} {i : DataId} :
    namedItem (sketch unit first label location data nodes reads) node item = .ok i ↔
      (∃ d ∈ data, d.name = item) ∧ i = position data item := by
  rw [namedItem, found_eq_ok, findData?_sketch_eq_some_iff]

theorem InputEntry.borderMode_of_ofText? {name text : String} {window : Option (List (Int × Int))}
    {b : Border} (h : Border.ofText? text = some b) :
    InputEntry.borderMode ⟨name, window, some text⟩ = b :=
  congrArg (·.getD Border.undef) h

/-- The read of a node under construction. -/
def InputEntry.picture (data : List DataEntry) (entry : InputEntry) : NodeInput where
  source := position data entry.data
  read := entry.window data
  border := entry.borderMode

theorem InputEntry.build_eq_ok_iff {node : String} {entry : InputEntry} {input : NodeInput} :
    entry.build (sketch unit first label location data nodes reads) node = .ok input ↔
      ((∃ d ∈ data, d.name = entry.data) ∧ ∀ text ∈ entry.border, ∃ b : Border, b.text = text) ∧
        input = entry.picture data := by
  have hrank : (((sketch unit first label location data nodes reads).data[position data entry.data]?).map
      DataItem.rank).getD 0 = rankOf data entry.data := by
    simp [getElem?_data_sketch, rankOf, Function.comp_def, rank_picture]
  obtain ⟨name, window, border⟩ := entry
  simp only [InputEntry.build, bind_eq_ok, namedItem_eq_ok_iff]
  cases border with
  | none =>
    simp only [bind_eq_ok, Except.ok.injEq, pure_eq_ok]
    constructor
    · rintro ⟨_, ⟨hdata, rfl⟩, _, rfl, rfl⟩
      exact ⟨⟨hdata, by simp⟩, by rw [hrank]; rfl⟩
    · rintro ⟨⟨hdata, -⟩, rfl⟩
      exact ⟨_, ⟨hdata, rfl⟩, _, rfl, by rw [hrank]; rfl⟩
  | some text =>
    simp only [bind_eq_ok, found_eq_ok, pure_eq_ok]
    constructor
    · rintro ⟨_, ⟨hdata, rfl⟩, b, hb, rfl⟩
      refine ⟨⟨hdata, ?_⟩, by rw [hrank, ← InputEntry.borderMode_of_ofText? hb]; rfl⟩
      rintro _ ⟨⟩
      exact ⟨b, Border.ofText?_eq_some_iff.mp hb⟩
    · rintro ⟨⟨hdata, hborder⟩, rfl⟩
      obtain ⟨b, hb⟩ := hborder text rfl
      have hb := Border.ofText?_eq_some_iff.mpr hb
      exact ⟨_, ⟨hdata, rfl⟩, b, hb, by rw [hrank, ← InputEntry.borderMode_of_ofText? hb]; rfl⟩

/-- The node under construction. -/
def NodeEntry.decl (unit : String) (data : List DataEntry) (entry : NodeEntry) : NodeDecl where
  name := entry.name
  output := position data entry.output
  inputs := entry.inputs.map (·.picture data)
  controls := entry.controls.map (position data)
  inStride := entry.inStride.map Size.mk
  outStride := entry.outStride.map Size.mk
  write := entry.write.map windowOf
  location := place unit entry.line

theorem NodeEntry.build_eq_ok_iff {entry : NodeEntry} {decl : NodeDecl} :
    entry.build unit (sketch unit first label location data nodes reads) = .ok decl ↔
      ((∃ d ∈ data, d.name = entry.output) ∧
        (∀ r ∈ entry.inputs, (∃ d ∈ data, d.name = r.data) ∧ ∀ text ∈ r.border, ∃ b : Border, b.text = text) ∧
        ∀ c ∈ entry.controls, ∃ d ∈ data, d.name = c) ∧ decl = entry.decl unit data := by
  have hinputs : ∀ inputs, entry.inputs.mapM
      (InputEntry.build (sketch unit first label location data nodes reads) entry.name) = .ok inputs ↔ _ :=
    fun inputs => mapM_eq_ok_iff fun _ _ _ => InputEntry.build_eq_ok_iff
  have hcontrols : ∀ controls, entry.controls.mapM
      (namedItem (sketch unit first label location data nodes reads) entry.name) = .ok controls ↔ _ :=
    fun controls => mapM_eq_ok_iff fun _ _ _ => namedItem_eq_ok_iff
  simp only [NodeEntry.build, bind_eq_ok, namedItem_eq_ok_iff, hinputs, hcontrols, pure_eq_ok]
  constructor
  · rintro ⟨_, ⟨houtput, rfl⟩, _, ⟨hreads, rfl⟩, _, ⟨hnamed, rfl⟩, rfl⟩
    exact ⟨⟨houtput, hreads, hnamed⟩, rfl⟩
  · rintro ⟨⟨houtput, hreads, hnamed⟩, rfl⟩
    exact ⟨_, ⟨houtput, rfl⟩, _, ⟨hreads, rfl⟩, _, ⟨hnamed, rfl⟩, rfl⟩

end Named

/-! ### Links -/

/-- A change at one place of a list that is drawn by place. -/
theorem modify_mapIdx {α β : Type} {l : List α} {f f' : Nat → α → β} {g : β → β} {j : Nat}
    (h : ∀ i a, l[i]? = some a → f' i a = if j = i then g (f i a) else f i a) :
    (l.mapIdx f).modify j g = l.mapIdx f' := by
  refine List.ext_getElem? fun i => ?_
  rw [List.getElem?_modify, List.getElem?_mapIdx, List.getElem?_mapIdx]
  cases ha : l[i]? with
  | none => rfl
  | some a => exact congrArg some (h i a ha).symm

/-- A kernel takes the nodes that it accepts. -/
theorem addNode_eq_ok_iff {k k' : Kernel} {numbering numbering' : Numbering} {decl : NodeDecl} :
    (∃ n, k.addNode numbering decl = .ok (n, k', numbering')) ↔
      ∃ output, k.Accepts decl output ∧ k' = k.withNode decl numbering output.rank ∧
        numbering' = (numbering.node.2.symbol decl.name).2 := by
  constructor
  · rintro ⟨n, h⟩
    exact Kernel.addNode_eq_ok h
  · rintro ⟨output, haccepts, rfl, rfl⟩
    refine ⟨k.nodes.length, ?_⟩
    unfold Kernel.addNode
    rw [haccepts.found]
    refine bind_eq_ok.mpr ⟨(), ensure_eq_ok.mpr ⟨haccepts.unproduced, haccepts.role⟩, ?_⟩
    refine bind_eq_ok.mpr ⟨(), ensure_eq_ok.mpr haccepts.iterative, ?_⟩
    refine bind_eq_ok.mpr ⟨(), forM_eq_ok.mpr fun c hc => ?_, ?_⟩
    · exact Kernel.checkData_eq_ok.mpr (haccepts.controls c hc)
    refine bind_eq_ok.mpr ⟨(), forM_eq_ok.mpr fun i hi => ?_, rfl⟩
    exact Kernel.checkData_eq_ok.mpr (haccepts.sources i hi)

theorem NodeEntry.add_eq_ok_iff {unit : String} {entry : NodeEntry} {k k' : Kernel}
    {numbering numbering' : Numbering} :
    entry.add unit (k, numbering) = .ok (k', numbering') ↔ ∃ decl, entry.build unit k = .ok decl ∧
      ∃ output, k.Accepts decl output ∧ k' = k.withNode decl numbering output.rank ∧
        numbering' = (numbering.node.2.symbol decl.name).2 := by
  simp only [NodeEntry.add, bind_eq_ok, ofKernel, mapError_eq_ok, Prod.exists, pure_eq_ok, Prod.mk.injEq,
    ← addNode_eq_ok_iff]
  constructor
  · rintro ⟨decl, hdecl, i, _, _, hadd, rfl, rfl⟩
    exact ⟨decl, hdecl, i, hadd⟩
  · rintro ⟨decl, hdecl, i, hadd⟩
    exact ⟨decl, hdecl, i, _, _, hadd, rfl, rfl⟩

section Links

variable {unit : String} {first : Nat} {label : String} {location : Option Location}
  {data : List DataEntry} {nodes : List NodeEntry} {reads : List (NodeId × InputEntry)}

/-- One more read is drawn at the end and linked at both ends. -/
theorem pushEdge_sketch (hnames : (data.map DataEntry.name).Nodup) (t : NodeId) (r : InputEntry) :
    (sketch unit first label location data nodes reads).pushEdge t (r.picture data) =
      sketch unit first label location data nodes (reads ++ [(t, r)]) := by
  have hnodes : (nodes.mapIdx (NodeEntry.picture unit first data reads)).modify t
      (fun n => { n with inputs := n.inputs ++ [reads.length] }) =
      nodes.mapIdx (NodeEntry.picture unit first data (reads ++ [(t, r)])) := by
    refine modify_mapIdx fun i n _ => ?_
    by_cases ht : t = i
    · simp [NodeEntry.picture, ht]
    · simp [NodeEntry.picture, ht]
  have hdata : (data.mapIdx (DataEntry.picture unit data nodes reads)).modify (position data r.data)
      (fun d => { d with users := d.users ++ [reads.length] }) =
      data.mapIdx (DataEntry.picture unit data nodes (reads ++ [(t, r)])) := by
    refine modify_mapIdx fun i d hd => ?_
    rw [if_congr (position_eq_iff hnames hd) rfl rfl]
    by_cases hname : d.name = r.data
    · simp [DataEntry.picture, hname]
    · simp [DataEntry.picture, hname, Ne.symm hname]
  simp only [sketch, Kernel.pushEdge, List.length_mapIdx, List.mapIdx_concat, ← hnodes, ← hdata]
  rfl

theorem foldl_pushEdge_sketch (hnames : (data.map DataEntry.name).Nodup) (t : NodeId) (rs : List InputEntry) :
    (rs.map (·.picture data)).foldl (·.pushEdge t ·) (sketch unit first label location data nodes reads) =
      sketch unit first label location data nodes (reads ++ rs.map (t, ·)) := by
  induction rs generalizing reads with
  | nil => simp
  | cons r rest ih =>
    rw [List.map_cons, List.foldl_cons, pushEdge_sketch hnames, ih]
    simp

/-- One more node is drawn at the end, so far without reads, and becomes the producer of its
output. -/
theorem pushNode_sketch (hnames : (data.map DataEntry.name).Nodup) {n : NodeEntry}
    (hfree : ∀ m ∈ nodes, m.output ≠ n.output) (hreads : ∀ r ∈ reads, r.1 < nodes.length) :
    (sketch unit first label location data nodes reads).pushNode (n.decl unit data) (first + nodes.length)
        s!"compute_{first + nodes.length}_{n.name}" (rankOf data n.output) =
      sketch unit first label location data (nodes ++ [n]) reads := by
  -- reads so far belong to nodes before this one
  have hunread : reads.findIdxs (·.1 == nodes.length) = [] := by
    refine List.findIdxs_eq_nil_iff.mpr fun r hr => ?_
    simpa using (hreads r hr).ne
  have hdata : (data.mapIdx (DataEntry.picture unit data nodes reads)).modify (position data n.output)
      (fun d => { d with producer := some nodes.length }) =
      data.mapIdx (DataEntry.picture unit data (nodes ++ [n]) reads) := by
    refine modify_mapIdx fun i d hd => ?_
    rw [if_congr (position_eq_iff hnames hd) rfl rfl]
    by_cases hname : d.name = n.output
    -- the first producer is the new one, as no other node writes this item
    · have hnone : nodes.findIdx? (·.output == n.output) = none := by simpa using hfree
      simp [DataEntry.picture, hname, hnone]
    · simp [DataEntry.picture, hname, Ne.symm hname]
  simp only [sketch, Kernel.pushNode, List.length_mapIdx, List.mapIdx_concat, ← hdata]
  simp only [NodeEntry.picture, hunread]
  rfl

theorem readsOf_concat {n : NodeEntry} :
    readsOf (nodes ++ [n]) = readsOf nodes ++ n.inputs.map (nodes.length, ·) := by
  simp [readsOf, List.zipIdx_append]

theorem lt_of_mem_readsOf {r : NodeId × InputEntry} (hr : r ∈ readsOf nodes) : r.1 < nodes.length := by
  obtain ⟨⟨n, i⟩, hn, hr⟩ := List.mem_flatMap.mp hr
  obtain ⟨_, -, rfl⟩ := List.mem_map.mp hr
  exact List.snd_lt_of_mem_zipIdx hn

/-- One more node is drawn with all its reads. -/
theorem withNode_sketch (hnames : (data.map DataEntry.name).Nodup) {n : NodeEntry}
    (hfree : ∀ m ∈ nodes, m.output ≠ n.output) :
    (sketch unit first label location data nodes (readsOf nodes)).withNode (n.decl unit data)
        ⟨first + nodes.length, first + nodes.length⟩ (rankOf data n.output) =
      sketch unit first label location data (nodes ++ [n]) (readsOf (nodes ++ [n])) := by
  rw [readsOf_concat, ← foldl_pushEdge_sketch hnames, ← pushNode_sketch hnames hfree fun _ => lt_of_mem_readsOf,
    Kernel.withNode, length_nodes_sketch]
  rfl

/-! ### Nodes -/

theorem nodesDeclared_nil : NodesDeclared data [] := ⟨by simp, by simp⟩

theorem NodesDeclared.of_append {rest : List NodeEntry} (h : NodesDeclared data (nodes ++ rest)) :
    NodesDeclared data nodes where
  each n hn := h.each n (List.mem_append_left _ hn)
  producers := (List.nodup_append.mp (List.map_append ▸ h.producers)).1

theorem nodesDeclared_concat (hnodes : NodesDeclared data nodes) {n : NodeEntry} :
    NodesDeclared data (nodes ++ [n]) ↔ NodeDeclared data n ∧ ∀ m ∈ nodes, m.output ≠ n.output := by
  have hproducers : ((nodes ++ [n]).map NodeEntry.output).Nodup ↔ ∀ m ∈ nodes, m.output ≠ n.output := by
    simp [List.nodup_append, hnodes.producers]
  constructor
  · exact fun h => ⟨h.each n (by simp), hproducers.mp h.producers⟩
  · rintro ⟨hn, hfree⟩
    refine ⟨fun m hm => ?_, hproducers.mpr hfree⟩
    obtain hm | rfl : m ∈ nodes ∨ m = n := by simpa using hm
    · exact hnodes.each m hm
    · exact hn

/-- The items that a kernel lets a node write. -/
theorem accepts_sketch_iff (hnames : (data.map DataEntry.name).Nodup) {n : NodeEntry}
    (hinputs : ∀ r ∈ n.inputs, ∃ d ∈ data, d.name = r.data) (hcontrols : ∀ c ∈ n.controls, ∃ d ∈ data, d.name = c)
    {output : DataItem} :
    (sketch unit first label location data nodes reads).Accepts (n.decl unit data) output ↔
      (∃ d ∈ data, (d.name = n.output ∧ d.kind ≠ .input ∧ d.kind ≠ .control) ∧
        output = d.picture unit data nodes reads (position data n.output)) ∧
        ∀ m ∈ nodes, m.output ≠ n.output := by
  have hrole : ∀ d : DataEntry, d.kind.role ≠ .input ↔ d.kind ≠ .input ∧ d.kind ≠ .control := by
    intro d
    cases d.kind <;> decide
  constructor
  · intro h
    obtain ⟨d, hd, rfl⟩ := Option.map_eq_some_iff.mp ((getElem?_data_sketch _).symm.trans h.found)
    have hname : d.name = n.output := (position_eq_iff hnames hd).mp rfl
    refine ⟨⟨d, List.mem_of_getElem? hd, ⟨hname, (hrole d).mp h.role⟩, rfl⟩, ?_⟩
    simpa [DataEntry.picture, hname] using h.unproduced
  · rintro ⟨⟨d, hd, ⟨hname, hkind⟩, rfl⟩, hfree⟩
    obtain ⟨i, hi⟩ := List.mem_iff_getElem?.mp hd
    obtain rfl := (position_eq_iff hnames hi).mpr hname
    refine ⟨?_, ?_, (hrole d).mpr hkind, decide_eq_true hkind.2, ?_, ?_⟩
    · rw [getElem?_data_sketch, NodeEntry.decl, hi]
      rfl
    · simpa [DataEntry.picture, hname] using hfree
    · simpa [NodeEntry.decl, position_lt_iff] using hcontrols
    · simpa [NodeEntry.decl, InputEntry.picture, position_lt_iff] using hinputs

/-- A kernel drawn so far, with the numbers of its next node. -/
def drawn (unit : String) (first : Nat) (label : String) (location : Option Location) (data : List DataEntry)
    (nodes : List NodeEntry) : Kernel × Numbering :=
  (sketch unit first label location data nodes (readsOf nodes), ⟨first + nodes.length, first + nodes.length⟩)

/-- A node that goes on with the declarations is drawn, and no other. -/
theorem NodeEntry.add_drawn_eq_ok_iff (hdata : DataDeclared data) (hnodes : NodesDeclared data nodes)
    {n : NodeEntry} {state : Kernel × Numbering} :
    n.add unit (drawn unit first label location data nodes) = .ok state ↔
      NodesDeclared data (nodes ++ [n]) ∧ state = drawn unit first label location data (nodes ++ [n]) := by
  obtain ⟨k, numbering⟩ := state
  -- the drawn items have the ranks that are described
  have hnode : ∀ {d : DataEntry}, d ∈ data → d.name = n.output → (∀ m ∈ nodes, m.output ≠ n.output) →
      (sketch unit first label location data nodes (readsOf nodes)).withNode (n.decl unit data)
        ⟨first + nodes.length, first + nodes.length⟩
        (d.picture unit data nodes (readsOf nodes) (position data n.output)).rank =
      sketch unit first label location data (nodes ++ [n]) (readsOf (nodes ++ [n])) := by
    intro d hd hname hfree
    rw [rank_picture, ← rankOf_eq hdata.names hd, hname, withNode_sketch hdata.names hfree]
  simp only [drawn, NodeEntry.add_eq_ok_iff, NodeEntry.build_eq_ok_iff, nodesDeclared_concat hnodes, Prod.mk.injEq]
  constructor
  · rintro ⟨_, ⟨⟨-, hreads, hcontrols⟩, rfl⟩, output, haccepts, rfl, rfl⟩
    have hinputs := fun r hr => (hreads r hr).1
    obtain ⟨⟨d, hd, houtput, rfl⟩, hfree⟩ := (accepts_sketch_iff hdata.names hinputs hcontrols).mp haccepts
    refine ⟨⟨⟨⟨d, hd, houtput⟩, hinputs, fun r hr => (hreads r hr).2, hcontrols⟩, hfree⟩,
      hnode hd houtput.1 hfree, ?_⟩
    simp [Numbering.node, Numbering.symbol, Nat.add_assoc]
  · rintro ⟨⟨hn, hfree⟩, rfl, rfl⟩
    obtain ⟨d, hd, houtput⟩ := hn.output
    refine ⟨_, ⟨⟨⟨d, hd, houtput.1⟩, fun r hr => ⟨hn.inputs r hr, hn.borders r hr⟩, hn.controls⟩, rfl⟩, _,
      (accepts_sketch_iff hdata.names hn.inputs hn.controls).mpr ⟨⟨d, hd, houtput, rfl⟩, hfree⟩,
      (hnode hd houtput.1 hfree).symm, ?_⟩
    simp [Numbering.node, Numbering.symbol, Nat.add_assoc]

/-- The nodes of a kernel are drawn if they are declared. -/
theorem foldlM_nodes_eq_ok_iff (hdata : DataDeclared data) {state : Kernel × Numbering} :
    nodes.foldlM (NodeEntry.add unit) (sketch unit first label location data [] [], ⟨first, first⟩) = .ok state ↔
      NodesDeclared data nodes ∧ state = drawn unit first label location data nodes :=
  foldlM_eq_ok_iff (NodesDeclared data) (drawn unit first label location data)
    (fun _ _ _ hdone => NodeEntry.add_drawn_eq_ok_iff hdata hdone) (fun _ _ h => h.of_append) nodesDeclared_nil

end Links

/-! ### Kernels -/

theorem KernelEntry.build_eq_ok_iff {unit : String} {first : Nat} {entry : KernelEntry}
    {state : Kernel × Numbering} :
    entry.build unit ⟨first, first⟩ = .ok state ↔ entry.Declared ∧
      state = (entry.picture unit first, ⟨first + entry.nodes.length, first + entry.nodes.length⟩) := by
  rw [KernelEntry.build, bind_eq_ok]
  constructor
  · rintro ⟨k, hk, hstate⟩
    obtain ⟨hdata, rfl⟩ := (foldlM_data_eq_ok_iff first).mp hk
    obtain ⟨hnodes, rfl⟩ := (foldlM_nodes_eq_ok_iff hdata).mp hstate
    exact ⟨⟨hdata, hnodes⟩, rfl⟩
  · rintro ⟨⟨hdata, hnodes⟩, rfl⟩
    exact ⟨_, (foldlM_data_eq_ok_iff first).mpr ⟨hdata, rfl⟩, (foldlM_nodes_eq_ok_iff hdata).mpr ⟨hnodes, rfl⟩⟩

theorem buildKernels_eq_ok_iff {unit : String} {first : Nat} {entries : List KernelEntry} {ks : List Kernel} :
    (∃ numbering, buildKernels unit ⟨first, first⟩ entries = .ok (ks, numbering)) ↔
      (∀ entry ∈ entries, entry.Declared) ∧ ks = pictures unit first entries := by
  induction entries generalizing first ks with
  | nil => simp [buildKernels, pictures, eq_comm]
  | cons entry rest ih =>
    simp only [buildKernels, bind_eq_ok, KernelEntry.build_eq_ok_iff, Prod.exists, pure_eq_ok, Prod.mk.injEq,
      List.forall_mem_cons, pictures]
    constructor
    · rintro ⟨_, _, _, ⟨hentry, rfl, rfl⟩, ks', numbering, hrest, rfl, rfl⟩
      obtain ⟨hdeclared, rfl⟩ := ih.mp ⟨_, hrest⟩
      exact ⟨⟨hentry, hdeclared⟩, rfl⟩
    · rintro ⟨⟨hentry, hdeclared⟩, rfl⟩
      obtain ⟨numbering, hrest⟩ := ih.mpr ⟨hdeclared, rfl⟩
      exact ⟨numbering, _, _, ⟨hentry, rfl, rfl⟩, _, numbering, hrest, rfl, rfl⟩

theorem uids_pictures (unit : String) (first : Nat) (entries : List KernelEntry) :
    ((pictures unit first entries).flatMap Kernel.nodes).map Node.uid =
      List.range' first (entries.map (·.nodes.length)).sum := by
  induction entries generalizing first with
  | nil => rfl
  | cons entry rest ih =>
    have huids : (entry.picture unit first).nodes.map Node.uid = List.range' first entry.nodes.length := by
      refine List.ext_getElem (by simp [KernelEntry.picture, sketch]) fun i _ _ => ?_
      simp [KernelEntry.picture, sketch, NodeEntry.picture]
    rw [pictures, List.flatMap_cons, List.map_append, huids, ih, List.map_cons, List.sum_cons]
    exact List.range'_append_1

/-- Two kernels of a document. The first has a width that is given at run time, the second
leaves out all that may be left out. -/
def twoKernels : Graph :=
  ⟨[{ name := "smooth", line := some 3
      data := [
        { name := "n", kind := .control, elem := "unsigned int", shape := [.fixed 4] },
        { name := "a", kind := .input, elem := "float", shape := [.dynamic "n" (some 40), .fixed 24], line := some 5 },
        { name := "t", kind := .temporary, elem := "float", shape := [.dynamic "n" none, .fixed 24] },
        { name := "o", kind := .output, elem := "uchar", shape := [.fixed 20, .fixed 24] }]
      nodes := [
        { name := "blur", output := "t", controls := ["n"]
          inputs := [{ data := "a", read := some [(-1, 1), (0, 0)], border := some "mirror" }] },
        { name := "shrink", output := "o", inputs := [{ data := "t" }, { data := "a" }]
          inStride := some [2, 1], write := some [(0, 1), (0, 0)], line := some 9 }] },
    { name := "copy"
      data := [
        { name := "a", kind := .input, elem := "int" },
        { name := "o", kind := .output, elem := "int" }]
      nodes := [{ name := "blur", output := "o", inputs := [{ data := "a" }] }] }]⟩

end StencilTiling.Description
