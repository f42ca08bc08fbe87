import StencilTiling.Proofs.Analysis.Axes
import StencilTiling.Proofs.Analysis.Buffers
import StencilTiling.Proofs.Analysis.Outcomes
import StencilTiling.Proofs.Analysis.WorkDistribution
import StencilTiling.Proofs.Code.Scope
import StencilTiling.Proofs.Description.Build

/-! Which names of an emitted program are declared. The coordinates of an item refer to a
part index only where its image is cut, and to an extent only where it is given at run
time, so they are closed. Calls refer to items and to control parameters. In the tiled modes
the items are local arrays, which all have a declaration unless a grain was cut to a
negative number; over a whole image they are parameters, unless they are temporaries. -/

namespace StencilTiling

/-! ### Leaves of coordinates -/

namespace Geometry.Expr

/-- All leaves of an expression have a property. -/
def Over (Q : Leaf → Prop) (e : Expr) : Prop := ∀ l ∈ e.leaves, Q l

section Over

variable {Q : Leaf → Prop} {a b e : Expr}

theorem over_const (n : Int) : (const n).Over Q := by simp [Over, leaves]

theorem Over.plus (ha : a.Over Q) (hb : b.Over Q) : (a.plus b).Over Q := by
  unfold Expr.plus
  split
  · exact over_const _
  · exact ha
  · exact hb
  · exact List.forall_mem_append.mpr ⟨ha, hb⟩

theorem Over.minus (ha : a.Over Q) (hb : b.Over Q) : (a.minus b).Over Q := by
  unfold Expr.minus
  split
  · exact over_const _
  · exact ha
  · exact List.forall_mem_append.mpr ⟨ha, hb⟩

theorem Over.atMost (ha : a.Over Q) (hb : b.Over Q) : (a.atMost b).Over Q := by
  unfold Expr.atMost
  split
  · exact over_const _
  · split_ifs
    · exact ha
    · exact List.forall_mem_append.mpr ⟨ha, hb⟩

theorem Over.clampNonneg (h : e.Over Q) : e.clampNonneg.Over Q := by
  unfold Expr.clampNonneg Expr.atLeast
  split
  · exact over_const _
  · split_ifs
    · exact h
    · exact List.forall_mem_append.mpr ⟨h, over_const 0⟩

theorem Over.mapBy (h : e.Over Q) (map : Affine) : (e.mapBy map).Over Q := by
  unfold Expr.mapBy
  split_ifs
  · exact h
  · cases e with
    | const n => exact over_const _
    | _ => exact h

end Over

end Geometry.Expr

namespace Analysis

open StencilTiling.Geometry StencilTiling.Description

theorem keptByBuilding_over (Q : Leaf → Prop) : KeptByBuilding (Expr.Over Q) where
  plus := Expr.Over.plus
  minus := Expr.Over.minus
  atMost := Expr.Over.atMost
  clampNonneg := Expr.Over.clampNonneg
  scaled _ h := h.mapBy _
  ceilBy _ h := h.clampNonneg.mapBy _

/-- What the coordinates of an item along a dimension refer to. -/
def RefersTo (d : DataItem) (plan : Plan) (dim : Nat) : Leaf → Prop
  | .partIndex => plan.parts dim ≠ 1
  | .extent i => i = d.id ∧ ∀ n, d.shape[dim]? ≠ some (.fixed n)

theorem refersTo_axisOf (d : DataItem) (tile : Tile) (producer : Option Node) (plan : Plan)
    (dim : Nat) : (axisOf d tile producer plan dim).MadeOf (Expr.Over (RefersTo d plan dim)) := by
  have hextent : (extentExpr d dim).Over (RefersTo d plan dim) := by
    unfold extentExpr
    split
    · exact Expr.over_const _
    · next hshape =>
      intro l hl
      obtain rfl := List.mem_singleton.mp hl
      exact ⟨rfl, hshape⟩
  constructor
  case extent => exact hextent
  case grains => exact hextent.mapBy _
  case lo => exact Expr.over_const _
  case hi => exact Expr.over_const _
  case pos =>
    dsimp only [axisOf]
    split_ifs with hwhole
    · exact Expr.over_const 0
    · refine Expr.Over.mapBy (fun l hl => ?_) _
      obtain rfl := List.mem_singleton.mp hl
      exact hwhole
  case slice =>
    dsimp only [axisOf]
    split_ifs
    · exact hextent.mapBy _
    · exact Expr.over_const _

theorem refersTo_of_mem_planTable {k : Kernel} {plan : Plan} {d : DataItem} {tile : Tile}
    {entry : Key × Expr} (h : entry ∈ (planTable k plan d tile).entries) :
    entry.1.dim < d.rank ∧ ∀ l ∈ entry.2.leaves, RefersTo d plan entry.1.dim l := by
  rw [planTable, Table.entries_ofFn] at h
  obtain ⟨key, hkey, rfl⟩ := List.mem_map.mp h
  exact ⟨Table.mem_keys.mp hkey, (refersTo_axisOf d tile _ plan key.dim).entry (keptByBuilding_over _) _ _⟩

/-! ### Programs of a completed analysis -/

section Completed

variable {k : Kernel} {device : Device} {config : TilingConfig} {r : Result}
  (c : Completed k device config r) (hk : Described k)

include c hk

theorem Completed.carried : r.kernel.ExtentsCarried := hk.carried.of_view c.sameGraph.extentView_eq

/-- The parameters of the nodes are control scalars. -/
theorem Completed.hasControl_params : ∀ n ∈ r.kernel.nodes, ∀ i ∈ n.params, r.kernel.HasControl i := by
  have hreset := k.sameGraph_reset
  have hgraph : k.reset.SameGraph r.kernel := hreset.symm.trans c.sameGraph
  have hnodes : r.kernel.nodes = k.reset.deriveParams.nodes := c.keeps.nodes.trans c.annotates.nodes
  intro n hn i hi
  rw [hnodes] at hn
  have hcontrol := Kernel.hasControl_deriveParams (hk.built.wellFormed.of_sameGraph hreset)
    (c.resolves.tiled.valid.of_sameGraph hgraph.symm) (hk.carried.of_view hreset.extentView_eq) n hn i hi
  exact hcontrol.of_view hgraph.extentView_eq

/-- The name of an extent at run time is that of a control scalar. -/
theorem Completed.extentName_eq {d : DataItem} (hd : d ∈ r.kernel.data) {dim : Nat}
    (hdim : dim < d.rank) (hdynamic : ∀ n, d.shape[dim]? ≠ some (.fixed n)) :
    ∃ x ∈ r.kernel.data, x.iterative = false ∧
      Code.extentName r.kernel dim d.id = .ok (Code.ident x.name) := by
  have hw := c.resolves.tiled.wellFormed
  have hshape : d.shape[dim]? = some d.shape[dim] := List.getElem?_eq_getElem hdim
  have hitem := Kernel.item_eq_ok.mpr (hw.getElem?_id hd)
  cases hextent : d.shape[dim] with
  | fixed n => exact absurd (hshape.trans (congrArg some hextent)) (hdynamic n)
  | dynamic param max =>
    rw [hextent] at hshape
    obtain ⟨x, hx, hscalar⟩ := c.carried hk d hd param
      (List.mem_filterMap.mpr ⟨_, List.mem_of_getElem? hshape, rfl⟩)
    refine ⟨x, List.mem_of_getElem? hx, hscalar, ?_⟩
    simp [Code.extentName, hitem, hshape, Kernel.item_eq_ok.mpr hx, bind, Except.bind, pure,
      Except.pure]

/-- Coordinates refer to what is bound before them. -/
theorem Completed.bindsCoordinate {p : Code.Program} (hp : Code.Takes p.params r.kernel)
    {d : DataItem} (hd : d ∈ r.kernel.data) {dim : Nat} (hdim : dim < d.rank) {l : Leaf}
    (hl : RefersTo d c.plan dim l) :
    p.bindsCoordinate (Code.partIndices (scheduleOf config c.pipeline c.plan c.check)) dim
      (Code.leafName r.kernel dim l) = true := by
  cases l with
  | partIndex =>
    have hparts : c.plan.parts dim ≠ 1 := hl
    obtain ⟨q, hq⟩ : ∃ q, c.plan.partitions[dim]? = some q := by
      refine Option.ne_none_iff_exists'.mp fun hnone => hparts ?_
      rw [Plan.parts, hnone]
      rfl
    obtain ⟨-, hpos, hwhole⟩ := choosePlan_fills c.chosen q (List.mem_of_getElem? hq)
    have hne : q.parts ≠ 1 := by simpa [Plan.parts, hq] using hparts
    have hbound := Code.any_bindsPart_partIndices
      (s := scheduleOf config c.pipeline c.plan c.check) (fun hmode => hne (hwhole hmode)) hq (by omega)
    simp [Code.Program.bindsCoordinate, Code.leafName, hbound]
  | extent i =>
    obtain ⟨rfl, hdynamic⟩ := hl
    obtain ⟨x, hx, hscalar, hname⟩ := c.extentName_eq hk hd hdim hdynamic
    have hw := c.resolves.tiled.wellFormed
    have hrole := hw.input_of_control (hw.getElem?_id hx) hscalar
    rw [Code.leafName, hname]
    exact hp.bindsCoordinate hx hrole hscalar _ _

omit hk in
/-- The coordinates of an item, and what they refer to. -/
theorem Completed.exists_table {d : DataItem} (hd : d ∈ r.kernel.data) :
    ∃ table, d.note.geometry = some table ∧ ∀ entry ∈ table.entries, entry.1.dim < d.rank ∧
      ∀ l ∈ entry.2.leaves, RefersTo d c.plan entry.1.dim l := by
  have hget := c.resolves.tiled.wellFormed.getElem?_id hd
  cases hi : d.iterative with
  | true => exact ⟨_, c.resolves.geometry hget hi, fun entry => refersTo_of_mem_planTable⟩
  | false => exact ⟨{}, c.resolves.scalar hget hi, fun entry he => by cases he⟩

/-- The coordinates of an item are emitted and closed. -/
theorem Completed.exists_itemStmts {d : DataItem} (hd : d ∈ r.kernel.data) :
    ∃ stmts, Code.itemStmts r.kernel d = .ok stmts ∧
      ∀ p : Code.Program, Code.Takes p.params r.kernel → ∀ stmt ∈ stmts,
        stmt.unbound p (Code.partIndices (scheduleOf config c.pipeline c.plan c.check)) = [] := by
  obtain ⟨table, hgeometry, hentries⟩ := c.exists_table hd
  obtain ⟨stmts, hstmts, hform⟩ := Code.exists_itemStmts hgeometry fun entry he i hi => by
    obtain ⟨hdim, hleaves⟩ := hentries entry he
    obtain ⟨rfl, hdynamic⟩ := hleaves _ hi
    obtain ⟨x, -, -, hname⟩ := c.extentName_eq hk hd hdim hdynamic
    exact ⟨_, hname⟩
  refine ⟨stmts, hstmts, fun p hp stmt hstmt => ?_⟩
  rcases hform stmt hstmt with rfl | ⟨entry, he, rfl⟩
  · rfl
  · obtain ⟨hdim, hleaves⟩ := hentries entry he
    exact Code.unbound_coordinate fun l hl => c.bindsCoordinate hk hp hd hdim (hleaves l hl)

omit hk in
/-- Every buffer is declared under the name of its item. -/
theorem Completed.exists_bufferStmts :
    ∃ buffers, (scheduleOf config c.pipeline c.plan c.check).buffers.mapM
        (Code.bufferStmt r.kernel) = .ok buffers ∧
      ∀ name, buffers.any (Code.Stmt.declaresArray name) = true ↔
        ∃ usage ∈ buffersOf r.kernel c.plan config.scan, ∃ d, r.kernel.data[usage.data]? = some d ∧
          Code.bufferVar d.name = name := by
  rw [c.buffers_eq]
  obtain ⟨buffers, hbuffers, hmem⟩ := Code.exists_mapM_items (k := r.kernel)
    (buffersOf r.kernel c.plan config.scan) BufferUsage.data
    (fun usage d => Code.Stmt.buffer d.elem d.name (usage.bytes / max d.elemBytes 1))
    fun usage hu => by
      obtain ⟨d, hd, rfl⟩ := List.mem_map.mp (List.mem_filter.mp hu).1
      exact (List.getElem?_eq_some_iff.mp (c.resolves.tiled.wellFormed.getElem?_id hd)).1
  refine ⟨buffers, hbuffers, fun name => ?_⟩
  rw [List.any_eq_true]
  constructor
  · rintro ⟨stmt, hstmt, hname⟩
    obtain ⟨usage, hu, d, hd, rfl⟩ := (hmem stmt).mp hstmt
    exact ⟨usage, hu, d, hd, by simpa [Code.Stmt.declaresArray] using hname⟩
  · rintro ⟨usage, hu, d, hd, rfl⟩
    exact ⟨_, (hmem _).mpr ⟨usage, hu, d, hd, rfl⟩, by simp [Code.Stmt.declaresArray]⟩

omit hk in
/-- The calls follow an order of all nodes. -/
theorem Completed.mem_order (n : NodeId) : n ∈ c.pipeline.order ↔ n < r.kernel.nodes.length := by
  rw [c.keeps.nodes]
  exact c.annotates.mem_order n

omit hk in
theorem Completed.exists_ordered (P : Node → Prop) :
    (∃ id ∈ c.pipeline.order, ∃ n, r.kernel.nodes[id]? = some n ∧ P n) ↔ ∃ n ∈ r.kernel.nodes, P n := by
  constructor
  · rintro ⟨id, -, n, hn, hP⟩
    exact ⟨n, List.mem_of_getElem? hn, hP⟩
  · rintro ⟨n, hn, hP⟩
    obtain ⟨id, hid⟩ := List.mem_iff_getElem?.mp hn
    exact ⟨id, (c.mem_order id).mpr (List.getElem?_eq_some_iff.mp hid).1, n, hid, hP⟩

/-- The program of a completed analysis, and the names in it that nothing declares: operands
that are neither the array of a buffer nor an input or output. -/
theorem Completed.exists_program (hstage : ∀ d ∈ r.kernel.data, d.note.stage = .geometryResolved) :
    ∃ p, Code.emit r.kernel = .ok p ∧
      ∀ name, name ∈ p.unbound ↔ (∃ n ∈ r.kernel.nodes, Code.IsOperand r.kernel n name) ∧
        (∀ usage ∈ buffersOf r.kernel c.plan config.scan, ∀ d, r.kernel.data[usage.data]? = some d →
          Code.bufferVar d.name ≠ name) ∧
        ∀ d ∈ r.kernel.data, d.role ≠ .temporary → Code.ident d.name ≠ name := by
  have hw := c.resolves.tiled.wellFormed
  obtain ⟨items, hitems⟩ := exists_mapM fun d hd => by
    obtain ⟨stmts, hstmts, -⟩ := c.exists_itemStmts hk hd
    exact ⟨stmts, hstmts⟩
  obtain ⟨buffers, hbuffers, hdeclared⟩ := c.exists_bufferStmts
  obtain ⟨calls, hcalls, hoperands⟩ := Code.exists_callStmts hw
    (fun n hn i hi => by
      obtain ⟨x, hx, -⟩ := c.hasControl_params hk n hn i hi
      exact (List.getElem?_eq_some_iff.mp hx).1)
    (fun n hn => (c.mem_order n).mp hn) none
  obtain ⟨params, hparams, htakes⟩ := Code.exists_paramsOf hw
  obtain ⟨p, hp, hbody, rfl, hloop⟩ := Code.exists_emit
    (Code.resolvedSchedule_eq_ok.mpr ⟨c.schedule, hstage⟩)
    (bind_eq_ok.mpr ⟨items, hitems, bind_eq_ok.mpr ⟨buffers, hbuffers,
      bind_eq_ok.mpr ⟨calls, hcalls, rfl⟩⟩⟩) hparams
  have hclosed : ∀ stmt ∈ items.flatten,
      stmt.unbound p (Code.partIndices (scheduleOf config c.pipeline c.plan c.check)) = [] := by
    intro stmt hstmt
    obtain ⟨stmts, hmem, hstmt⟩ := List.mem_flatten.mp hstmt
    obtain ⟨d, hd, hok⟩ := exists_of_mem_mapM hitems hmem
    obtain ⟨stmts', hok', hall⟩ := c.exists_itemStmts hk hd
    obtain rfl := Except.ok.inj (hok.symm.trans hok')
    exact hall p htakes stmt hstmt
  have hunbound := Code.unbound_of_segments hbody hloop (Code.segment_coordinates hitems)
    (Code.segment_buffers hbuffers) (Code.segment_callStmts hcalls) hclosed
  refine ⟨p, hp, fun name => ?_⟩
  rw [hunbound, List.mem_filter, hoperands, c.exists_ordered]
  refine and_congr_right fun _ => ?_
  rw [Bool.not_eq_true', Code.Program.bindsOperand, Bool.or_eq_false_iff, htakes.any_ident_eq_false,
    ← Bool.not_eq_true, hdeclared]
  simp only [not_exists, not_and, ne_eq]

/-- An undeclared operand stands for an image. -/
theorem Completed.exists_image {n : Node} (hn : n ∈ r.kernel.nodes) {name : String}
    (hop : Code.IsOperand r.kernel n name)
    (hnone : ∀ d ∈ r.kernel.data, d.role ≠ .temporary → Code.ident d.name ≠ name) :
    ∃ d ∈ r.kernel.iterativeData, Code.operand d = name := by
  have hw := c.resolves.tiled.wellFormed
  obtain ⟨m, hm⟩ := List.mem_iff_getElem?.mp hn
  rcases hop with ⟨i, hi, d, hd, hname⟩ | ⟨i, hi, d, hd, hname⟩
  · have hiter : d.iterative = true := by
      rcases List.mem_append.mp hi with hi | hi
      · obtain ⟨e, he, rfl⟩ := List.mem_map.mp hi
        exact c.resolves.tiled.valid.source_iterative ((hw.mem_inputEdges_iff hm).mp he).1 hd
      · obtain rfl := List.mem_singleton.mp hi
        exact hw.iterative_output hm hd
    exact ⟨d, Kernel.mem_iterativeData_iff.mpr ⟨_, hd, hiter⟩, hname⟩
  · -- a control scalar is a parameter
    obtain ⟨x, hx, hscalar⟩ := c.hasControl_params hk n hn i hi
    obtain rfl : x = d := Option.some.inj (hx.symm.trans hd)
    have hrole := hw.input_of_control hd hscalar
    exact absurd hname (hnone x (List.mem_of_getElem? hd) (by simp [hrole]))

omit hk in
/-- Calls get images as local arrays in the tiled modes. -/
theorem Completed.operand_eq {d : DataItem} (hd : d ∈ r.kernel.iterativeData) :
    Code.operand d = if config.mode.isTiled then Code.bufferVar d.name else Code.ident d.name := by
  obtain ⟨hmem, hi⟩ := List.mem_filter.mp hd
  rw [Code.operand, (c.pattern hmem).2, hi, Bool.true_and]

omit hk in
theorem Completed.buffersOf_eq_nil (hmode : config.mode.isTiled = false) :
    buffersOf r.kernel c.plan config.scan = [] := by
  refine List.filter_eq_nil_iff.mpr (List.forall_mem_map.mpr fun d hd => ?_)
  simp [bufferBytes, (c.pattern hd).2, hmode]

omit hk in
/-- A temporary is an operand of the call that writes it. -/
theorem Completed.isOperand_temporary {t : DataItem} (ht : t ∈ r.kernel.data)
    (hr : t.role = .temporary) :
    t ∈ r.kernel.iterativeData ∧ ∃ n ∈ r.kernel.nodes, Code.IsOperand r.kernel n (Code.operand t) := by
  have hw := c.resolves.tiled.wellFormed
  have hget := hw.getElem?_id ht
  rcases c.resolves.tiled.valid.input_or_produced hget with hinput | ⟨m, hm⟩
  · rw [hr] at hinput
    cases hinput
  · obtain ⟨n, hn, hout⟩ := (hw.producer_iff hget m).mp hm
    refine ⟨List.mem_filter.mpr ⟨ht, (hw.produced hget hm).1⟩, n, List.mem_of_getElem? hn, ?_⟩
    exact .inl ⟨t.id, by simp [Code.touched, hout], t, hget, rfl⟩

end Completed

/-- What is emitted for a ready kernel of a description. -/
theorem exists_program_of_ready {k : Kernel} (hk : Described k) {device : Device}
    {config : TilingConfig} {diag : Diagnostics} {r : Result}
    (hr : analyze k device config diag = r) (hready : r.ready = true) :
    ∃ (c : Completed k device config r) (p : Code.Program), Code.emit r.kernel = .ok p ∧
      ∀ name, name ∈ p.unbound ↔ (∃ n ∈ r.kernel.nodes, Code.IsOperand r.kernel n name) ∧
        (∀ usage ∈ buffersOf r.kernel c.plan config.scan, ∀ d, r.kernel.data[usage.data]? = some d →
          Code.bufferVar d.name ≠ name) ∧
        ∀ d ∈ r.kernel.data, d.role ≠ .temporary → Code.ident d.name ≠ name := by
  subst hr
  have hw := hk.built.wellFormed
  obtain ⟨c⟩ := analyze_completed hw hready
  obtain ⟨p, hp, hunbound⟩ :=
    c.exists_program hk ((analyze_ending k device config diag).stage hw hready)
  exact ⟨c, p, hp, hunbound⟩

/-- The kernels of a description that an analysis makes ready are emitted. Their coordinates
and control parameters are declared. Over a whole image the undeclared names are those of
temporaries; in the tiled modes they are those of images without a buffer, of which there
are none where tiles and arrays are computed in words. -/
theorem undeclared_names {unit : String} {graph : Graph} {ks : List Kernel}
    (hbuild : graph.build unit = .ok ks) {k : Kernel} (hk : k ∈ ks) {device : Device}
    {config : TilingConfig} {diag : Diagnostics} {r : Result}
    (hr : analyze k device config diag = r) (hready : r.ready = true) :
    ∃ p s, Code.emit r.kernel = .ok p ∧ r.kernel.schedule = some s ∧
      (config.mode.isTiled = false → ∀ name, name ∈ p.unbound ↔
        (∃ t ∈ r.kernel.data, t.role = .temporary ∧ Code.ident t.name = name) ∧
          ∀ d ∈ r.kernel.data, d.role ≠ .temporary → Code.ident d.name ≠ name) ∧
      (config.mode.isTiled = true → ∀ name ∈ p.unbound, ∃ d ∈ r.kernel.iterativeData,
        Code.bufferVar d.name = name ∧ ∀ usage ∈ s.buffers, usage.data ≠ d.id) ∧
      (config.mode.isTiled = true → TilesFit r.kernel → ArraysFit r.kernel → p.unbound = []) := by
  have hdesc := described_of_build hbuild k hk
  obtain ⟨c, p, hp, hunbound⟩ := exists_program_of_ready hdesc hr hready
  have hw := c.resolves.tiled.wellFormed
  have htiled : config.mode.isTiled = true → ∀ name ∈ p.unbound, ∃ d ∈ r.kernel.iterativeData,
      Code.bufferVar d.name = name ∧
        ∀ usage ∈ buffersOf r.kernel c.plan config.scan, usage.data ≠ d.id := by
    intro hmode name hname
    obtain ⟨⟨n, hn, hop⟩, harray, hparam⟩ := (hunbound name).mp hname
    obtain ⟨d, hd, rfl⟩ := c.exists_image hdesc hn hop hparam
    rw [c.operand_eq hd, if_pos hmode] at harray ⊢
    refine ⟨d, hd, rfl, fun usage hu hdata => harray usage hu d ?_ rfl⟩
    rw [hdata]
    exact hw.getElem?_id (List.mem_filter.mp hd).1
  refine ⟨p, _, hp, c.schedule, fun hmode name => ?_, fun hmode => ?_,
    fun hmode htiles harrays => ?_⟩
  · rw [hunbound, c.buffersOf_eq_nil hmode]
    constructor
    · rintro ⟨⟨n, hn, hop⟩, -, hparam⟩
      obtain ⟨d, hd, rfl⟩ := c.exists_image hdesc hn hop hparam
      rw [c.operand_eq hd, if_neg (by simp [hmode])] at hparam ⊢
      have hmem := (List.mem_filter.mp hd).1
      exact ⟨⟨d, hmem, not_not.mp fun hrole => hparam d hmem hrole rfl, rfl⟩, hparam⟩
    · rintro ⟨⟨t, ht, hrole, rfl⟩, hparam⟩
      obtain ⟨hiter, hop⟩ := c.isOperand_temporary ht hrole
      rw [c.operand_eq hiter, if_neg (by simp [hmode])] at hop
      exact ⟨hop, by simp, hparam⟩
  · rw [c.buffers_eq]
    exact htiled hmode
  · subst hr
    refine List.eq_nil_iff_forall_not_mem.mpr fun name hname => ?_
    obtain ⟨d, hd, -, hnone⟩ := htiled hmode name hname
    obtain ⟨hmem, hi⟩ := List.mem_filter.mp hd
    obtain ⟨usage, hu, hdata⟩ := exists_usage c hmode
      (scheduled_of_ready hdesc.built hready htiles.grains) htiles.halos (hw.getElem?_id hmem)
      (c.buffersFit harrays) hi
    exact hnone usage hu hdata

/-- An image blurred along a width given at run time and then searched for edges. -/
def twoPass : Graph :=
  ⟨[{ name := "smooth"
      data := [
        { name := "n", kind := .control, elem := "int" },
        { name := "a", kind := .input, elem := "float", shape := [.dynamic "n" (some 40), .fixed 24] },
        { name := "t", kind := .temporary, elem := "float", shape := [.dynamic "n" (some 40), .fixed 24] },
        { name := "o", kind := .output, elem := "float", shape := [.dynamic "n" (some 40), .fixed 24] }]
      nodes := [
        { name := "blur", output := "t", inputs := [{ data := "a", read := some [(-1, 1), (0, 0)] }] },
        { name := "edge", output := "o", inputs := [{ data := "t", read := some [(0, 0), (-1, 1)] }] }] }]⟩

/-- The first kernel of a description. -/
def firstKernel (graph : Graph) : Kernel :=
  ((graph.build "unit").toOption.bind List.head?).getD { name := "" }

def twoPassTiled : Result :=
  analyze (firstKernel twoPass) { unit := { memory := some 600 } } { mode := .externalTiling } (.new 5 0)

def twoPassWhole : Result :=
  analyze (firstKernel twoPass) { units := 4 } { mode := .wholeImage } (.new 5 0)

/-- Cut into tiles the program is closed, its temporary included; over the whole image the
temporary is not declared, while the width is. -/
theorem undeclared_names_twoPass :
    (∃ p, Code.emit twoPassTiled.kernel = .ok p ∧ partsOf twoPassTiled.kernel 0 = 3 ∧ p.unbound = []) ∧
      ∃ p, Code.emit twoPassWhole.kernel = .ok p ∧ "t" ∈ p.unbound ∧ "n" ∉ p.unbound := by
  obtain ⟨ks, hbuild, hk⟩ := exists_of_toOption
    (show ∃ ks ∈ (twoPass.build "unit").toOption, firstKernel twoPass ∈ ks by decide +kernel)
  obtain ⟨tiled, -, htiled, -, -, -, hclosed⟩ :=
    undeclared_names (r := twoPassTiled) hbuild hk rfl (by decide +kernel)
  obtain ⟨whole, -, hwhole, -, hnames, -⟩ :=
    undeclared_names (r := twoPassWhole) hbuild hk rfl (by decide +kernel)
  refine ⟨⟨tiled, htiled, by decide +kernel, hclosed rfl (by decide +kernel) (by decide +kernel)⟩,
    whole, hwhole, (hnames rfl "t").mpr (by decide +kernel), fun hn => ?_⟩
  have hnone : ¬ ∃ t ∈ twoPassWhole.kernel.data, t.role = .temporary ∧ Code.ident t.name = "n" := by
    decide +kernel
  exact hnone ((hnames rfl "n").mp hn).1

/-- Adds three images that other nodes read at strides whose least common multiple is
2⁶⁴ - 2²². -/
def wideSum : Graph :=
  let image (name : String) (kind : DataKind) : DataEntry :=
    { name, kind, elem := "float", shape := [.fixed 8, .fixed 8] }
  let reader (name output data : String) (stride : Int) : NodeEntry :=
    { name, output, inputs := [{ data, read := some [(0, stride - 1), (0, 0)] }]
      inStride := some [stride, 1] }
  ⟨[{ name := "wide"
      data := [image "a" .input, image "b" .input, image "c" .input, image "t" .temporary,
        image "o" .output, image "p" .output, image "q" .output, image "r" .output]
      nodes := [
        { name := "join", output := "t", inputs := [{ data := "a" }, { data := "b" }, { data := "c" }] },
        { name := "look", output := "o", inputs := [{ data := "t" }] },
        reader "f" "p" "a" 0x400000, reader "g" "q" "b" 0x1fffff, reader "h" "r" "c" 0x200001] }]⟩

def wideSumSliced : Result :=
  analyze (firstKernel wideSum) { units := 4 } { mode := .workGroupSlicing } (.new 5 0)

/-- An operand that stands neither for a buffer nor for a parameter is not declared. -/
theorem mem_unbound_of_ready {k : Kernel} (hk : Described k) {device : Device}
    {config : TilingConfig} {diag : Diagnostics} {r : Result}
    (hr : analyze k device config diag = r) (hready : r.ready = true) {name : String}
    (hop : ∃ n ∈ r.kernel.nodes, ∃ i ∈ Code.touched r.kernel n, ∃ d ∈ r.kernel.data[i]?,
      Code.operand d = name)
    (harray : ∀ s ∈ r.kernel.schedule, ∀ usage ∈ s.buffers, ∀ d ∈ r.kernel.data[usage.data]?,
      Code.bufferVar d.name ≠ name)
    (hparam : ∀ d ∈ r.kernel.data, d.role ≠ .temporary → Code.ident d.name ≠ name) :
    ∃ p, Code.emit r.kernel = .ok p ∧ name ∈ p.unbound := by
  obtain ⟨c, p, hp, hunbound⟩ := exists_program_of_ready hk hr hready
  obtain ⟨n, hn, hop⟩ := hop
  refine ⟨p, hp, (hunbound name).mpr ⟨⟨n, hn, .inl hop⟩, ?_, hparam⟩⟩
  rw [← c.buffers_eq]
  exact harray _ c.schedule

/-- Over a whole image the calls pass a temporary that is no parameter and has no array; and
where the grain of a temporary is cut to a negative number, its array has no bytes and no
declaration, though the calls pass it. -/
theorem temporaries_undeclared :
    (∃ ks, twoPass.build "unit" = .ok ks ∧ firstKernel twoPass ∈ ks ∧ twoPassWhole.ready = true ∧
      ∃ p, Code.emit twoPassWhole.kernel = .ok p ∧ "t" ∈ p.unbound) ∧
    ∃ ks, wideSum.build "unit" = .ok ks ∧ firstKernel wideSum ∈ ks ∧ wideSumSliced.ready = true ∧
      ∃ p, Code.emit wideSumSliced.kernel = .ok p ∧ "kg_buf_t" ∈ p.unbound := by
  constructor
  · obtain ⟨ks, hbuild, hk⟩ := exists_of_toOption
      (show ∃ ks ∈ (twoPass.build "unit").toOption, firstKernel twoPass ∈ ks by decide +kernel)
    have hready : twoPassWhole.ready = true := by decide +kernel
    exact ⟨ks, hbuild, hk, hready, mem_unbound_of_ready (described_of_build hbuild _ hk) rfl hready
      (by decide +kernel) (by decide +kernel) (by decide +kernel)⟩
  · obtain ⟨ks, hbuild, hk⟩ := exists_of_toOption
      (show ∃ ks ∈ (wideSum.build "unit").toOption, firstKernel wideSum ∈ ks by decide +kernel)
    have hready : wideSumSliced.ready = true := by decide +kernel
    exact ⟨ks, hbuild, hk, hready, mem_unbound_of_ready (described_of_build hbuild _ hk) rfl hready
      (by decide +kernel) (by decide +kernel) (by decide +kernel)⟩

end Analysis

end StencilTiling
