import StencilTiling.Proofs.Code.Launch
import StencilTiling.Proofs.Geometry.Rendering
import StencilTiling.Proofs.Kernel.Construction

/-! Names in emitted programs. A part index is read off the group or off the tile of the
loop, a coordinate refers to the part index along its dimension and to control parameters,
and a call to local arrays and to parameters. A name is unbound where nothing of its kind is
declared before. Part indices and coordinates come before the arrays and these before the
calls, so in a body only operands of calls can be unbound. -/

namespace StencilTiling

/-! ### Names of expressions -/

namespace Code.Expr

/-- The names in an expression, with repeats. -/
def names : Expr → List String
  | lit _ => []
  | name text => [text]
  | paren e => e.names
  | add a b | sub a b | mul a b | div a b | call _ a b => a.names ++ b.names

end Code.Expr

namespace Affine

variable (x : Code.Expr)

@[simp] theorem names_shiftCode (offset : Int) : (shiftCode offset x).names = x.names := by
  unfold shiftCode
  split_ifs <;> simp [Code.Expr.names]

@[simp] theorem names_scaleCode (num : Int) : (scaleCode num x).names = x.names := by
  unfold scaleCode
  split_ifs <;> simp [Code.Expr.names]

@[simp] theorem names_divideCode (factor : Ratio) : (divideCode factor x).names = x.names := by
  unfold divideCode
  split_ifs
  · rfl
  · cases factor.rounding <;> simp [Code.Expr.names]

@[simp] theorem names_toCode (a : Affine) : (a.toCode x).names = x.names := by
  unfold toCode
  split_ifs <;> simp

end Affine

/-- The names in the code of an expression are those of its leaves. -/
theorem Geometry.Expr.names_toCode (name : Leaf → String) (e : Expr) :
    (e.toCode name).names = e.leaves.map name := by
  induction e with
  | const n =>
    rw [toCode]
    split_ifs <;> rfl
  | leaf l => rfl
  | affine inner map ih => simpa [toCode, leaves] using ih
  | add a b iha ihb | sub a b iha ihb | min a b iha ihb | max a b iha ihb =>
    simp [toCode, leaves, Code.Expr.names, iha, ihb]

namespace Code

/-! ### Scopes -/

/-- The statement binds the part index along a dimension. -/
def Stmt.bindsPart (dim : Nat) : Stmt → Bool
  | partOfGroup d | partOfTile d _ _ => d == dim
  | _ => false

/-- The statement declares the local array of that name. -/
def Stmt.declaresArray (name : String) : Stmt → Bool
  | buffer _ data _ => bufferVar data == name
  | _ => false

def Stmt.operands : Stmt → List String
  | call _ args => args
  | _ => []

namespace Program

variable (p : Program) (before : List Stmt)

/-- The name stands for the part index along the dimension, or for a control parameter. -/
def bindsCoordinate (dim : Nat) (name : String) : Bool :=
  (name == partVar dim && before.any (Stmt.bindsPart dim)) ||
    p.params.any fun q => q.kind == .control && ident q.data == name

/-- The name stands for a local array or a parameter. -/
def bindsOperand (name : String) : Bool :=
  before.any (Stmt.declaresArray name) || p.params.any fun q => ident q.data == name

end Program

/-- The names in a statement that nothing before it declares. -/
def Stmt.unbound (p : Program) (before : List Stmt) : Stmt → List String
  | partOfTile .. => if p.tileLoop.isSome then [] else ["kg_tile"]
  | coordinate key _ value => value.names.filter fun name => !p.bindsCoordinate before key.dim name
  | call _ args => args.filter fun name => !p.bindsOperand before name
  | _ => []

/-- The unbound names of statements that stand after others. -/
def Program.unboundAfter (p : Program) (before : List Stmt) : List Stmt → List String
  | [] => []
  | stmt :: rest => stmt.unbound p before ++ p.unboundAfter (before ++ [stmt]) rest

/-- The names in the body that nothing declares where they are used. -/
def Program.unbound (p : Program) : List String := p.unboundAfter [] p.body

variable {p : Program}

theorem unboundAfter_append (before xs ys : List Stmt) :
    p.unboundAfter before (xs ++ ys) = p.unboundAfter before xs ++ p.unboundAfter (before ++ xs) ys := by
  induction xs generalizing before with
  | nil => simp [Program.unboundAfter]
  | cons x rest ih => simp [Program.unboundAfter, ih]

/-- What is bound stays so further on. -/
theorem Stmt.unbound_append_subset (before more : List Stmt) (stmt : Stmt) :
    stmt.unbound p (before ++ more) ⊆ stmt.unbound p before := by
  cases stmt with
  | coordinate key data value =>
    intro name
    simp only [unbound, List.mem_filter, Program.bindsCoordinate, List.any_append]
    grind
  | call symbol args =>
    intro name
    simp only [unbound, List.mem_filter, Program.bindsOperand, List.any_append]
    grind
  | _ => exact List.Subset.refl _

theorem unboundAfter_eq_nil {before stmts : List Stmt} (h : ∀ stmt ∈ stmts, stmt.unbound p before = []) :
    p.unboundAfter before stmts = [] := by
  induction stmts generalizing before with
  | nil => rfl
  | cons stmt rest ih =>
    obtain ⟨hstmt, hrest⟩ := List.forall_mem_cons.mp h
    rw [Program.unboundAfter, hstmt, List.nil_append]
    refine ih fun x hx => List.eq_nil_of_subset_nil ?_
    exact hrest x hx ▸ x.unbound_append_subset before [stmt]

/-- Arrays are declared in their segment alone. -/
theorem any_declaresArray_of_segment {stmts : List Stmt} {g : Segment}
    (h : ∀ stmt ∈ stmts, stmt.segment = g) (hg : g ≠ .buffers) (name : String) :
    stmts.any (Stmt.declaresArray name) = false := by
  rw [List.any_eq_false]
  intro stmt hstmt
  cases stmt with
  | buffer elem data count => exact absurd (h _ hstmt).symm hg
  | _ => simp [Stmt.declaresArray]

/-- The unbound names of calls, none of which declares anything. -/
theorem unboundAfter_calls {before calls : List Stmt} (h : ∀ stmt ∈ calls, stmt.segment = .calls) :
    p.unboundAfter before calls =
      (calls.flatMap Stmt.operands).filter fun name => !p.bindsOperand before name := by
  induction calls generalizing before with
  | nil => rfl
  | cons stmt rest ih =>
    obtain ⟨hstmt, hrest⟩ := List.forall_mem_cons.mp h
    have hsame : ∀ name, p.bindsOperand (before ++ [stmt]) name = p.bindsOperand before name := by
      intro name
      have hcall : ∀ x ∈ [stmt], x.segment = .calls := by simpa using hstmt
      have hnone := any_declaresArray_of_segment hcall (by decide) name
      simp only [Program.bindsOperand, List.any_append, hnone, Bool.or_false]
    have hhead : stmt.unbound p before =
        stmt.operands.filter fun name => !p.bindsOperand before name := by
      cases stmt with
      | cycleNote cycle => rfl
      | call symbol args => rfl
      | _ => cases hstmt
    rw [Program.unboundAfter, List.flatMap_cons, List.filter_append, hhead, ih hrest]
    simp only [hsame]

/-! ### Part indices -/

theorem unbound_tileDigits (hloop : p.tileLoop.isSome = true) (before : List Stmt) (stride : Int)
    (dims : List (Nat × Int)) : ∀ stmt ∈ tileDigits stride dims, stmt.unbound p before = [] := by
  induction dims generalizing stride with
  | nil => simp [tileDigits]
  | cons dim rest ih =>
    refine List.forall_mem_cons.mpr ⟨?_, ih _⟩
    rw [Stmt.unbound, if_pos hloop]

theorem unbound_partIndices {s : Schedule} (hloop : p.tileLoop = tileLoop s) (before : List Stmt) :
    ∀ stmt ∈ partIndices s, stmt.unbound p before = [] := by
  unfold partIndices
  split
  · simp
  · exact List.forall_mem_map.mpr fun _ _ => rfl
  · next hmode =>
    refine unbound_tileDigits ?_ before 1 _
    rw [hloop, tileLoop, hmode]
    rfl

theorem any_bindsPart_tileDigits {dim : Nat} {parts : Int} {dims : List (Nat × Int)}
    (h : (dim, parts) ∈ dims) (stride : Int) :
    (tileDigits stride dims).any (Stmt.bindsPart dim) = true := by
  induction dims generalizing stride with
  | nil => cases h
  | cons head rest ih =>
    rw [tileDigits, List.any_cons]
    rcases List.mem_cons.mp h with rfl | h
    · simp [Stmt.bindsPart]
    · simp [ih h]

/-- Where an image is cut, the index of its part is bound. -/
theorem any_bindsPart_partIndices {s : Schedule} (hmode : s.mode ≠ .wholeImage) {dim : Nat}
    {q : Partition} (hq : s.partitions[dim]? = some q) (hparts : 1 < q.parts) :
    (partIndices s).any (Stmt.bindsPart dim) = true := by
  have hsplit : (dim, q.parts) ∈ splitDims s.partitions := mem_splitDims.mpr ⟨q, hq, hparts, rfl⟩
  unfold partIndices
  split
  · next hwhole => exact absurd hwhole hmode
  · rw [List.any_map, List.any_eq_true]
    exact ⟨_, hsplit, by simp [Stmt.bindsPart]⟩
  · exact any_bindsPart_tileDigits hsplit 1

/-! ### Traversals -/

/-- What a traversal of items gives. -/
theorem exists_mapM_items {k : Kernel} {α β : Type} (l : List α) (key : α → DataId)
    (f : α → DataItem → β) (h : ∀ a ∈ l, key a < k.data.length) :
    ∃ bs, (l.mapM fun a => do return f a (← k.item (key a)) : Except Fault (List β)) = .ok bs ∧
      ∀ b, b ∈ bs ↔ ∃ a ∈ l, ∃ d, k.data[key a]? = some d ∧ f a d = b := by
  obtain ⟨bs, hbs⟩ := exists_mapM (l := l)
    (f := fun a => (do return f a (← k.item (key a)) : Except Fault β)) fun a ha =>
      ⟨_, bind_eq_ok.mpr ⟨_, Kernel.item_eq_ok.mpr (List.getElem?_eq_getElem (h a ha)), rfl⟩⟩
  refine ⟨bs, hbs, fun b => ⟨fun hb => ?_, ?_⟩⟩
  · obtain ⟨a, ha, hb⟩ := exists_of_mem_mapM hbs hb
    obtain ⟨d, hd, hb⟩ := bind_eq_ok.mp hb
    exact ⟨a, ha, d, Kernel.item_eq_ok.mp hd, pure_eq_ok.mp hb⟩
  · rintro ⟨a, ha, d, hd, rfl⟩
    obtain ⟨b, hmem, hb⟩ := exists_mem_of_mapM hbs ha
    obtain ⟨d', hd', hb⟩ := bind_eq_ok.mp hb
    obtain rfl : d' = d := Option.some.inj ((Kernel.item_eq_ok.mp hd').symm.trans hd)
    exact pure_eq_ok.mp hb ▸ hmem

/-! ### Parameters -/

/-- The parameters are the inputs and the outputs of a kernel. -/
def Takes (params : List Param) (k : Kernel) : Prop :=
  ∀ q, q ∈ params ↔ ∃ d ∈ k.data, d.role ≠ .temporary ∧ q = ⟨d.name, d.elem, argKind d⟩

theorem exists_paramsOf {k : Kernel} (h : k.WellFormed) :
    ∃ params, paramsOf k = .ok params ∧ Takes params k := by
  have hids : ∀ i, i ∈ k.inputs ++ k.outputs ↔ ∃ d, k.data[i]? = some d ∧ d.role ≠ .temporary := by
    intro i
    rw [List.mem_append, h.mem_inputs_iff]
    simp only [Kernel.outputs, List.mem_map, List.mem_filter, DataItem.isOutput, beq_iff_eq]
    constructor
    · rintro (⟨d, hd, hr⟩ | ⟨d, ⟨hd, hr⟩, rfl⟩)
      · exact ⟨d, hd, by simp [hr]⟩
      · exact ⟨d, h.getElem?_id hd, by simp [hr]⟩
    · rintro ⟨d, hd, hr⟩
      cases hrole : d.role with
      | input => exact .inl ⟨d, hd, hrole⟩
      | output => exact .inr ⟨d, ⟨List.mem_of_getElem? hd, hrole⟩, h.data_id hd⟩
      | temporary => exact absurd hrole hr
  obtain ⟨params, hparams, hmem⟩ := exists_mapM_items (k.inputs ++ k.outputs) id
    (fun _ item => (⟨item.name, item.elem, argKind item⟩ : Param)) fun i hi => by
      obtain ⟨d, hd, -⟩ := (hids i).mp hi
      exact (List.getElem?_eq_some_iff.mp hd).1
  refine ⟨params, hparams, fun q => (hmem q).trans ⟨?_, ?_⟩⟩
  · rintro ⟨i, hi, d, hd, rfl⟩
    obtain ⟨d', hd', hr⟩ := (hids i).mp hi
    obtain rfl : d = d' := Option.some.inj (hd.symm.trans hd')
    exact ⟨d, List.mem_of_getElem? hd, hr, rfl⟩
  · rintro ⟨d, hd, hr, rfl⟩
    have hget := h.getElem?_id hd
    exact ⟨d.id, (hids d.id).mpr ⟨d, hget, hr⟩, d, hget, rfl⟩

theorem Takes.exists_param {k : Kernel} (h : Takes p.params k) {d : DataItem} (hd : d ∈ k.data)
    (hr : d.role ≠ .temporary) : ∃ q ∈ p.params, q.kind = argKind d ∧ ident q.data = ident d.name :=
  ⟨_, (h _).mpr ⟨d, hd, hr, rfl⟩, rfl, rfl⟩

/-- A name is no parameter if no input or output has it. -/
theorem Takes.any_ident_eq_false {k : Kernel} (h : Takes p.params k) {name : String} :
    (p.params.any fun q => ident q.data == name) = false ↔
      ∀ d ∈ k.data, d.role ≠ .temporary → ident d.name ≠ name := by
  rw [List.any_eq_false]
  constructor
  · intro hnone d hd hr hname
    exact hnone _ ((h _).mpr ⟨d, hd, hr, rfl⟩) (beq_iff_eq.mpr hname)
  · intro hnone q hq hname
    obtain ⟨d, hd, hr, rfl⟩ := (h q).mp hq
    exact hnone d hd hr (beq_iff_eq.mp hname)

/-- Coordinates may refer to control scalars. -/
theorem Takes.bindsCoordinate {k : Kernel} (h : Takes p.params k) {d : DataItem} (hd : d ∈ k.data)
    (hr : d.role = .input) (hc : d.iterative = false) (before : List Stmt) (dim : Nat) :
    p.bindsCoordinate before dim (ident d.name) = true := by
  obtain ⟨q, hq, hkind, hname⟩ := h.exists_param hd (by simp [hr])
  have hcontrol : argKind d = .control := by simp [argKind, DataItem.isControl, hc]
  rw [Program.bindsCoordinate, Bool.or_eq_true, List.any_eq_true]
  exact .inr ⟨q, hq, by simp [hkind, hcontrol, hname]⟩

/-! ### Coordinates -/

theorem mem_extents_iff {e : Geometry.Expr} {i : DataId} : i ∈ e.extents ↔ .extent i ∈ e.leaves := by
  induction e with
  | const n => simp [Geometry.Expr.extents, Geometry.Expr.leaves]
  | leaf l => cases l <;> simp [Geometry.Expr.extents, Geometry.Expr.leaves]
  | affine inner map ih => exact ih
  | add a b iha ihb | sub a b iha ihb | min a b iha ihb | max a b iha ihb =>
    simp [Geometry.Expr.extents, Geometry.Expr.leaves, iha, ihb]

theorem coordinateStmt_of_named {k : Kernel} (item : DataItem) {entry : Geometry.Key × Geometry.Expr}
    (h : ∀ i, .extent i ∈ entry.2.leaves → ∃ name, extentName k entry.1.dim i = .ok name) :
    coordinateStmt k item entry =
      .ok (.coordinate entry.1 item.name (entry.2.toCode (leafName k entry.1.dim))) := by
  refine bind_eq_ok.mpr ⟨(), forM_eq_ok.mpr fun i hi => ?_, rfl⟩
  obtain ⟨name, hname⟩ := h i (mem_extents_iff.mp hi)
  rw [hname]
  rfl

/-- The coordinates of an item whose extents have names. -/
theorem exists_itemStmts {k : Kernel} {item : DataItem} {table : Geometry.Table}
    (hg : item.note.geometry = some table)
    (h : ∀ entry ∈ table.entries, ∀ i, .extent i ∈ entry.2.leaves →
      ∃ name, extentName k entry.1.dim i = .ok name) :
    ∃ stmts, itemStmts k item = .ok stmts ∧ ∀ stmt ∈ stmts,
      stmt = .itemNote item.name item.note.pattern.text ∨ ∃ entry ∈ table.entries,
        stmt = .coordinate entry.1 item.name (entry.2.toCode (leafName k entry.1.dim)) := by
  unfold itemStmts
  rw [hg]
  dsimp only
  split_ifs
  · exact ⟨[], rfl, by simp⟩
  · obtain ⟨coords, hcoords⟩ := exists_mapM fun entry he =>
      ⟨_, coordinateStmt_of_named item (h entry he)⟩
    refine ⟨_, bind_eq_ok.mpr ⟨coords, hcoords, rfl⟩, List.forall_mem_cons.mpr ⟨.inl rfl, ?_⟩⟩
    intro stmt hstmt
    obtain ⟨entry, he, hentry⟩ := exists_of_mem_mapM hcoords hstmt
    rw [coordinateStmt_of_named item (h entry he)] at hentry
    exact .inr ⟨entry, he, (Except.ok.inj hentry).symm⟩

/-- A coordinate is closed if its leaves are bound. -/
theorem unbound_coordinate {k : Kernel} {before : List Stmt} {key : Geometry.Key} {data : String}
    {e : Geometry.Expr}
    (h : ∀ l ∈ e.leaves, p.bindsCoordinate before key.dim (leafName k key.dim l) = true) :
    (Stmt.coordinate key data (e.toCode (leafName k key.dim))).unbound p before = [] := by
  rw [Stmt.unbound, List.filter_eq_nil_iff, Geometry.Expr.names_toCode]
  exact List.forall_mem_map.mpr fun l hl => by simp [h l hl]

/-! ### Calls -/

/-- What a node reads or writes. -/
def touched (k : Kernel) (n : Node) : List DataId := (k.inputEdges n).map Edge.source ++ [n.output]

/-- The name stands for something that a node reads or writes, or for one of its control
parameters. -/
def IsOperand (k : Kernel) (n : Node) (name : String) : Prop :=
  (∃ i ∈ touched k n, ∃ d, k.data[i]? = some d ∧ operand d = name) ∨
    ∃ i ∈ n.params, ∃ d, k.data[i]? = some d ∧ ident d.name = name

section Calls

variable {k : Kernel} (h : k.WellFormed)
  (hparams : ∀ n ∈ k.nodes, ∀ i ∈ n.params, i < k.data.length)

include h hparams

theorem exists_operands {m : NodeId} {n : Node} {output : DataItem} (hn : k.nodes[m]? = some n)
    (hout : k.data[n.output]? = some output) :
    ∃ args, operands k n output = .ok args ∧ ∀ name, name ∈ args ↔ IsOperand k n name := by
  obtain ⟨reads, hreads, hmemReads⟩ := exists_mapM_items (k.inputEdges n) Edge.source
    (fun _ => operand) fun e he => by
      obtain ⟨d, hd⟩ := h.exists_source ((h.mem_inputEdges_iff hn).mp he).1
      exact (List.getElem?_eq_some_iff.mp hd).1
  obtain ⟨controls, hcontrols, hmemControls⟩ := exists_mapM_items n.params id
    (fun _ d => ident d.name) (hparams n (List.mem_of_getElem? hn))
  refine ⟨reads ++ controls ++ [operand output], bind_eq_ok.mpr ⟨reads, hreads,
    bind_eq_ok.mpr ⟨controls, hcontrols, rfl⟩⟩, fun name => ?_⟩
  simp only [List.mem_append, List.mem_singleton, hmemReads, hmemControls, IsOperand, touched,
    List.mem_map]
  constructor
  · rintro ((⟨e, he, d, hd, rfl⟩ | hcontrol) | rfl)
    · exact .inl ⟨_, .inl ⟨e, he, rfl⟩, d, hd, rfl⟩
    · exact .inr hcontrol
    · exact .inl ⟨_, .inr rfl, output, hout, rfl⟩
  · rintro (⟨i, ⟨e, he, rfl⟩ | rfl, d, hd, rfl⟩ | hcontrol)
    · exact .inl (.inl ⟨e, he, d, hd, rfl⟩)
    · obtain rfl : d = output := Option.some.inj (hd.symm.trans hout)
      exact .inr rfl
    · exact .inl (.inr hcontrol)

/-- The calls of the nodes in an order, and what they pass. -/
theorem exists_callStmts {ids : List NodeId} (hids : ∀ id ∈ ids, id < k.nodes.length)
    (current : Option Nat) :
    ∃ calls, callStmts k current ids = .ok calls ∧ ∀ name, name ∈ calls.flatMap Stmt.operands ↔
      ∃ id ∈ ids, ∃ n, k.nodes[id]? = some n ∧ IsOperand k n name := by
  induction ids generalizing current with
  | nil => exact ⟨[], rfl, by simp⟩
  | cons id rest ih =>
    obtain ⟨hid, hrest⟩ := List.forall_mem_cons.mp hids
    have hn : k.nodes[id]? = some k.nodes[id] := List.getElem?_eq_getElem hid
    obtain ⟨output, hout⟩ := h.exists_output hn
    obtain ⟨args, hargs, hmem⟩ := exists_operands h hparams hn hout
    obtain ⟨calls, hcalls, hnames⟩ := ih hrest output.cycle
    refine ⟨_, bind_eq_ok.mpr ⟨_, Kernel.node_eq_ok.mpr hn, bind_eq_ok.mpr ⟨output,
      Kernel.item_eq_ok.mpr hout, bind_eq_ok.mpr ⟨args, hargs, bind_eq_ok.mpr ⟨calls, hcalls,
        rfl⟩⟩⟩⟩, fun name => ?_⟩
    have hnote : (if output.cycle = current then [] else [Stmt.cycleNote (output.cycle.getD 0)]).flatMap
        Stmt.operands = [] := by
      split_ifs <;> rfl
    rw [List.flatMap_append, hnote, List.nil_append, List.flatMap_cons, List.mem_append, hnames,
      Stmt.operands, hmem]
    simp [hn]

end Calls

/-! ### Bodies -/

/-- In a body with closed coordinates only operands can be unbound. -/
theorem unbound_of_segments {s : Schedule} {coordinates buffers calls : List Stmt}
    (hbody : p.body = partIndices s ++ coordinates ++ buffers ++ calls)
    (hloop : p.tileLoop = tileLoop s)
    (hcoordinates : ∀ stmt ∈ coordinates, stmt.segment = .coordinates)
    (hbuffers : ∀ stmt ∈ buffers, stmt.segment = .buffers)
    (hcalls : ∀ stmt ∈ calls, stmt.segment = .calls)
    (hclosed : ∀ stmt ∈ coordinates, stmt.unbound p (partIndices s) = []) :
    p.unbound = (calls.flatMap Stmt.operands).filter fun name => !p.bindsOperand buffers name := by
  have hparts := unboundAfter_eq_nil (unbound_partIndices hloop [])
  have hitems := unboundAfter_eq_nil hclosed
  have harrays : p.unboundAfter (partIndices s ++ coordinates) buffers = [] := by
    refine unboundAfter_eq_nil fun stmt hstmt => ?_
    have hsegment := hbuffers stmt hstmt
    cases stmt with
    | buffer elem data count => rfl
    | _ => cases hsegment
  have hsame : ∀ name, p.bindsOperand (partIndices s ++ coordinates ++ buffers) name =
      p.bindsOperand buffers name := by
    intro name
    have hnone := any_declaresArray_of_segment (segment_partIndices s) (by decide) name
    have hnone' := any_declaresArray_of_segment hcoordinates (by decide) name
    simp only [Program.bindsOperand, List.any_append, hnone, hnone', Bool.false_or]
  rw [Program.unbound, hbody]
  simp only [unboundAfter_append, List.nil_append, hparts, hitems, harrays, unboundAfter_calls hcalls,
    hsame]

end Code

end StencilTiling
