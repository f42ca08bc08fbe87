import Mathlib.Data.Set.Pairwise.List
import StencilTiling.Proofs.Analysis.Declarations
import StencilTiling.Proofs.Code.Words
import StencilTiling.Proofs.Kernel.Assembly

/-! The names in the program of a ready kernel. Local names are always identifiers, and
names of kernels and data are unless they are empty; the symbol of a node holds the name of
the node as it is. Names that differ may be spelled alike, so parameters and local names
clash exactly if spelling does not keep the items apart. With plain names all is well. -/

namespace StencilTiling

open Code

/-! ### Items told apart by their spelling -/

namespace Kernel

/-- The images that have coordinates. -/
def images (k : Kernel) : List DataId := (k.iterativeData.filter (0 < ·.rank)).map DataItem.id

/-- The names are their own spelling, and none looks like a local name. -/
structure PlainNames (k : Kernel) : Prop where
  kernel : IsIdentifier k.name
  data : ∀ d ∈ k.data, IsIdentifier d.name ∧ ¬ "kg_".toList <+: d.name.toList
  nodes : ∀ n ∈ k.nodes, n.name.toList.all isIdentChar = true

namespace WellFormed

variable {k : Kernel} (h : k.WellFormed)

include h

theorem data_nodup : k.data.Nodup := by
  refine List.Nodup.of_map DataItem.id ?_
  rw [h.data_ids]
  exact List.nodup_range

theorem sublist_ids_nodup {ids : List DataId} (hids : ids.Sublist (k.data.map DataItem.id)) : ids.Nodup :=
  hids.nodup (h.data_ids ▸ List.nodup_range)

/-- The parameters of the entry point are listed once. -/
theorem signature_nodup : (k.inputs ++ k.outputs).Nodup := by
  rw [List.nodup_append]
  refine ⟨?_, h.sublist_ids_nodup (List.filter_sublist.map _), ?_⟩
  · rw [h.inputs_eq]
    exact h.sublist_ids_nodup (List.filter_sublist.map _)
  · rintro i hi _ ho rfl
    obtain ⟨d, hd, hinput⟩ := h.mem_inputs_iff.mp hi
    obtain ⟨d', hd', rfl⟩ := List.mem_map.mp ho
    obtain ⟨hmem, houtput⟩ := List.mem_filter.mp hd'
    obtain rfl : d' = d := Option.some.inj ((h.getElem?_id hmem).symm.trans hd)
    simp [DataItem.isOutput, hinput] at houtput

theorem exists_item_of_mem_signature {i : DataId} (hi : i ∈ k.inputs ++ k.outputs) :
    ∃ d, k.data[i]? = some d := by
  rcases List.mem_append.mp hi with hi | hi
  · obtain ⟨d, hd, -⟩ := h.mem_inputs_iff.mp hi
    exact ⟨d, hd⟩
  · obtain ⟨d, hd, rfl⟩ := List.mem_map.mp hi
    exact ⟨d, h.getElem?_id (List.mem_filter.mp hd).1⟩

theorem mem_images_iff {i : DataId} :
    i ∈ k.images ↔ ∃ d, k.data[i]? = some d ∧ d.iterative = true ∧ 0 < d.rank := by
  simp only [images, iterativeData, List.mem_map, List.mem_filter, decide_eq_true_eq]
  constructor
  · rintro ⟨d, ⟨⟨hd, hi⟩, hrank⟩, rfl⟩
    exact ⟨d, h.getElem?_id hd, hi, hrank⟩
  · rintro ⟨d, hd, hi, hrank⟩
    exact ⟨d, ⟨⟨List.mem_of_getElem? hd, hi⟩, hrank⟩, h.data_id hd⟩

end WellFormed

/-- Different names that are their own spelling are spelled apart. -/
theorem spelledApart_of_plain {k : Kernel} (hnames : (k.data.map DataItem.name).Nodup)
    (hplain : ∀ d ∈ k.data, IsIdentifier d.name) {ids : List DataId}
    (hids : ∀ i ∈ ids, ∃ d, k.data[i]? = some d) : SpelledApart k ids := by
  intro i hi j hj heq
  obtain ⟨d, hd⟩ := hids i hi
  obtain ⟨e, he⟩ := hids j hj
  rw [dataName_eq hd, dataName_eq he, ident_of_isIdentifier (hplain d (List.mem_of_getElem? hd)),
    ident_of_isIdentifier (hplain e (List.mem_of_getElem? he))] at heq
  have hlookup : (k.data.map DataItem.name)[i]? = (k.data.map DataItem.name)[j]? := by
    simp [hd, he, heq]
  refine (List.getElem?_inj ?_ hnames).mp hlookup
  simpa using (List.getElem?_eq_some_iff.mp hd).1

end Kernel

namespace Analysis

open StencilTiling.Geometry StencilTiling.Description

section Completed

variable {k : Kernel} {device : Device} {config : TilingConfig} {r : Result}
  (c : Completed k device config r)

include c

/-! ### Local names -/

theorem Completed.keysOf_eq {d : DataItem} (hd : d ∈ r.kernel.data) :
    keysOf d = Table.keys (if d.iterative then d.rank else 0) := by
  have hget := c.resolves.tiled.wellFormed.getElem?_id hd
  cases hi : d.iterative with
  | true =>
    simp [keysOf, c.resolves.geometry hget hi, planTable, Table.entries_ofFn, Function.comp_def]
  | false =>
    simp [keysOf, c.resolves.scalar hget hi, Table.keys]

theorem Completed.mem_keysOf_iff {d : DataItem} (hd : d ∈ r.kernel.data) {key : Key} :
    key ∈ keysOf d ↔ d.iterative = true ∧ key.dim < d.rank := by
  rw [c.keysOf_eq hd, Table.mem_keys]
  cases d.iterative <;> simp

/-- Only images have coordinates. -/
theorem Completed.mem_images_of_mem_keysOf {d : DataItem} (hd : d ∈ r.kernel.data) {key : Key}
    (hkey : key ∈ keysOf d) : d.id ∈ r.kernel.images := by
  have hw := c.resolves.tiled.wellFormed
  obtain ⟨hi, hdim⟩ := (c.mem_keysOf_iff hd).mp hkey
  exact hw.mem_images_iff.mpr ⟨d, hw.getElem?_id hd, hi, Nat.zero_lt_of_lt hdim⟩

/-- The coordinates have different names exactly if the images are spelled apart. -/
theorem Completed.nodup_coordinates_iff :
    (r.kernel.data.flatMap fun d => (keysOf d).map (coordinateVar · d.name)).Nodup ↔
      SpelledApart r.kernel r.kernel.images := by
  have hw := c.resolves.tiled.wellFormed
  have hkeys : ∀ d ∈ r.kernel.data, ((keysOf d).map (coordinateVar · d.name)).Nodup := by
    intro d hd
    rw [c.keysOf_eq hd]
    exact (Table.nodup_keys _).map fun _ _ h => (coordinateVar_eq_iff.mp h).1
  have hsymm : Std.Symm (Function.onFun List.Disjoint fun d : DataItem =>
      (keysOf d).map (coordinateVar · d.name)) := ⟨fun _ _ h => h.symm⟩
  rw [List.nodup_flatMap, ← hw.data_nodup.pairwise_coe]
  constructor
  · rintro ⟨-, hpairwise⟩ i hi j hj hident
    obtain ⟨d, hd, hdi, hrank⟩ := hw.mem_images_iff.mp hi
    obtain ⟨e, he, hei, hrank'⟩ := hw.mem_images_iff.mp hj
    by_contra hne
    have hde : d ≠ e := by
      rintro rfl
      exact hne ((hw.data_id hd).symm.trans (hw.data_id he))
    rw [dataName_eq hd, dataName_eq he] at hident
    have hd := List.mem_of_getElem? hd
    have he := List.mem_of_getElem? he
    -- every image has coordinates along its first dimension
    have hkey : (⟨0, .slicePosition, .grain⟩ : Key) ∈ keysOf d := (c.mem_keysOf_iff hd).mpr ⟨hdi, hrank⟩
    have hkey' : (⟨0, .slicePosition, .grain⟩ : Key) ∈ keysOf e := (c.mem_keysOf_iff he).mpr ⟨hei, hrank'⟩
    refine hpairwise hd he hde (List.mem_map_of_mem hkey) ?_
    exact List.mem_map.mpr ⟨_, hkey', coordinateVar_eq_iff.mpr ⟨rfl, hident.symm⟩⟩
  · intro hapart
    refine ⟨hkeys, fun d hd e he hde name hname hname' => hde ?_⟩
    obtain ⟨key, hkey, rfl⟩ := List.mem_map.mp hname
    obtain ⟨key', hkey', heq⟩ := List.mem_map.mp hname'
    have hid := hapart d.id (c.mem_images_of_mem_keysOf hd hkey) e.id
      (c.mem_images_of_mem_keysOf he hkey') (by
        rw [dataName_eq (hw.getElem?_id hd), dataName_eq (hw.getElem?_id he)]
        exact (coordinateVar_eq_iff.mp heq).2.symm)
    exact Option.some.inj ((hw.getElem?_id hd).symm.trans (hid ▸ hw.getElem?_id he))

theorem Completed.nodup_buffers :
    ((scheduleOf config c.pipeline c.plan c.check).buffers.map BufferUsage.data).Nodup := by
  refine c.resolves.tiled.wellFormed.sublist_ids_nodup ?_
  have hsub := (List.filter_sublist (p := fun usage => decide (0 < usage.bytes))
    (l := r.kernel.data.map fun d =>
      (⟨d.id, d.name, bufferBytes d c.plan config.scan⟩ : BufferUsage))).map BufferUsage.data
  rw [List.map_map] at hsub
  rw [c.buffers_eq]
  exact hsub

theorem Completed.nodup_locals_iff {p : Program} {s : Schedule} (hs : r.kernel.schedule = some s)
    (hbody : bodyOf r.kernel s = .ok p.body) :
    p.locals.Nodup ↔ SpelledApart r.kernel r.kernel.images ∧
      SpelledApart r.kernel (s.buffers.map BufferUsage.data) := by
  obtain rfl := Option.some.inj (hs.symm.trans c.schedule)
  obtain ⟨coordinates, buffers, calls, hcoordinates, hbuffers, hcalls, hp⟩ := bodyOf_eq_ok hbody
  rw [Program.locals, hp, nodup_declared_iff (segment_partIndices _) (segment_coordinates hcoordinates)
    (segment_buffers hbuffers) (segment_callStmts hcalls), declared_of_coordinates hcoordinates,
    c.nodup_coordinates_iff, declared_of_bufferStmts hbuffers,
    nodup_spelled_iff c.nodup_buffers bufferVar_eq_iff]
  exact and_iff_right (nodup_declared_partIndices _)

/-! ### Identifiers -/

/-- The leaves of a coordinate are spelled as part indices and as items. -/
theorem Completed.leafName_cases {d : DataItem} (hd : d ∈ r.kernel.data) {table : Table}
    (htable : d.note.geometry = some table) {entry : Key × Geometry.Expr} (he : entry ∈ table.entries)
    {l : Leaf} (hl : l ∈ entry.2.leaves)
    (hok : ∀ i, l = .extent i → ∃ name, extentName r.kernel entry.1.dim i = .ok name) :
    leafName r.kernel entry.1.dim l = partVar entry.1.dim ∨
      ∃ x ∈ r.kernel.data, leafName r.kernel entry.1.dim l = ident x.name := by
  obtain ⟨_, htable', hentries⟩ := c.exists_table hd
  obtain rfl := Option.some.inj (htable.symm.trans htable')
  obtain ⟨hdim, hleaves⟩ := hentries entry he
  cases l with
  | partIndex => exact .inl rfl
  | extent i =>
    right
    obtain ⟨rfl, hdynamic⟩ := hleaves _ hl
    obtain ⟨name, hname⟩ := hok d.id rfl
    have hshape : d.shape[entry.1.dim]? = some d.shape[entry.1.dim] := List.getElem?_eq_getElem hdim
    cases hextent : d.shape[entry.1.dim] with
    | fixed n => exact absurd (hshape.trans (congrArg some hextent)) (hdynamic n)
    | dynamic param max =>
      rw [hextent] at hshape
      obtain ⟨x, hx, rfl⟩ := extentName_of_dynamic
        (c.resolves.tiled.wellFormed.getElem?_id hd) hshape hname
      exact ⟨x, hx, by rw [leafName, hname]⟩

/-- What the text refers to is an identifier if every item has a name. -/
theorem Completed.isIdentifier_references {p : Program} {s : Schedule}
    (hbody : bodyOf r.kernel s = .ok p.body) (hnamed : ∀ d ∈ r.kernel.data, d.name ≠ "") :
    ∀ name ∈ p.body.flatMap Stmt.references, IsIdentifier name := by
  intro name hname
  have hitem {x : DataItem} (hx : x ∈ r.kernel.data) : IsIdentifier (ident x.name) :=
    isIdentifier_ident.mpr (hnamed x hx)
  rcases references_of_bodyOf hbody hname with
    ⟨d, hd, table, htable, entry, he, l, hl, rfl, hok⟩ | ⟨d, hd, rfl | rfl⟩
  · rcases c.leafName_cases hd htable he hl (fun i hi => ⟨_, hok i hi⟩) with hpart | ⟨x, hx, hname⟩
    · rw [hpart]
      exact isIdentifier_partVar _
    · rw [hname]
      exact hitem hx
  · exact hitem hd
  · exact isIdentifier_bufferVar _

/-- The symbols of the text are those of the nodes. -/
theorem Completed.mem_symbols_iff {p : Program} {s : Schedule} (hs : r.kernel.schedule = some s)
    (hbody : bodyOf r.kernel s = .ok p.body) {name : String} :
    name ∈ p.body.flatMap Stmt.symbols ↔ ∃ n ∈ r.kernel.nodes, n.symbol = name := by
  obtain rfl := Option.some.inj (hs.symm.trans c.schedule)
  rw [symbols_of_bodyOf hbody, ← c.exists_ordered]
  simp only [List.mem_filterMap, Option.map_eq_some_iff]
  rfl

/-- A symbol is an identifier if the name of its node consists of identifier characters. -/
theorem Completed.isIdentifier_symbol (hbuilt : k.Built) {n : Node} (hn : n ∈ r.kernel.nodes) :
    IsIdentifier n.symbol ↔ n.name.toList.all isIdentChar = true := by
  obtain ⟨numbering, hlabel⟩ := (hbuilt.annotated c.sameGraph).label_eq hn
  have hsymbol : n.symbol = (numbering.node.2.symbol n.name).1 := congrArg Label.symbol hlabel
  rw [hsymbol, List.all_eq_true]
  exact Code.isIdentifier_symbol _ _

/-- The parameters are spelled like the inputs and outputs. -/
theorem Completed.exists_item_of_mem_paramNames {p : Program} (hp : emit r.kernel = .ok p)
    {name : String} (hname : name ∈ p.paramNames) : ∃ d ∈ r.kernel.data, name = ident d.name := by
  rw [Program.paramNames, paramNames_of_paramsOf (signature_of_emit hp).2] at hname
  obtain ⟨i, hi, rfl⟩ := List.mem_map.mp hname
  obtain ⟨d, hd⟩ := c.resolves.tiled.wellFormed.exists_item_of_mem_signature hi
  exact ⟨d, List.mem_of_getElem? hd, by rw [dataName_eq hd]⟩

/-- If every item has a name, the names of the nodes decide whether all names of the text are
identifiers. -/
theorem Completed.isIdentifier_iff (hbuilt : k.Built) {p : Program} (hp : emit r.kernel = .ok p)
    (hname : r.kernel.name ≠ "") (hnamed : ∀ d ∈ r.kernel.data, d.name ≠ "") :
    (∀ name ∈ p.identifiers, IsIdentifier name) ↔
      ∀ n ∈ r.kernel.nodes, n.name.toList.all isIdentChar = true := by
  obtain ⟨s, hs, hbody⟩ := emit_eq_ok hp
  have hentry : IsIdentifier p.entry := by
    rw [Program.entry, (signature_of_emit hp).1]
    exact isIdentifier_ident.mpr hname
  have hparams : ∀ name ∈ p.paramNames, IsIdentifier name := by
    intro name hname
    obtain ⟨d, hd, rfl⟩ := c.exists_item_of_mem_paramNames hp hname
    exact isIdentifier_ident.mpr (hnamed d hd)
  have hreferences := c.isIdentifier_references hbody hnamed
  constructor
  · intro hall n hn
    obtain ⟨stmt, hstmt, hsymbol⟩ :=
      List.mem_flatMap.mp ((c.mem_symbols_iff hs hbody).mpr ⟨n, hn, rfl⟩)
    refine (c.isIdentifier_symbol hbuilt hn).mp (hall _ ?_)
    exact List.mem_append_right _ (List.mem_flatMap.mpr ⟨stmt, hstmt, by simp [Stmt.identifiers, hsymbol]⟩)
  · intro hnodes
    refine List.forall_mem_cons.mpr ⟨hentry, List.forall_mem_append.mpr ⟨hparams, fun name hname => ?_⟩⟩
    obtain ⟨stmt, hstmt, hname⟩ := List.mem_flatMap.mp hname
    simp only [Stmt.identifiers, List.mem_append] at hname
    rcases hname with (hdeclared | hsymbol) | hreference
    · exact isIdentifier_of_mem_declared hdeclared
    · obtain ⟨n, hn, rfl⟩ :=
        (c.mem_symbols_iff hs hbody).mp (List.mem_flatMap.mpr ⟨stmt, hstmt, hsymbol⟩)
      exact (c.isIdentifier_symbol hbuilt hn).mpr (hnodes n hn)
    · exact hreferences name (List.mem_flatMap.mpr ⟨stmt, hstmt, hreference⟩)

/-- The parameters have different names exactly if the inputs and outputs are spelled apart. -/
theorem Completed.nodup_paramNames_iff {p : Program} (hp : emit r.kernel = .ok p) :
    p.paramNames.Nodup ↔ SpelledApart r.kernel (r.kernel.inputs ++ r.kernel.outputs) := by
  rw [Program.paramNames, paramNames_of_paramsOf (signature_of_emit hp).2]
  exact nodup_spelled_iff c.resolves.tiled.wellFormed.signature_nodup Iff.rfl

/-- With plain names, no name is changed and none looks like a local name. -/
theorem Completed.hygienic (hbuilt : k.Built) {p : Program} (hp : emit r.kernel = .ok p)
    (hplain : r.kernel.PlainNames) : p.Hygienic := by
  have hw := c.resolves.tiled.wellFormed
  have hne {name : String} (h : IsIdentifier name) : name ≠ "" := by
    rw [← ident_of_isIdentifier h] at h
    exact isIdentifier_ident.mp h
  have hnames := (hbuilt.annotated c.sameGraph).names_nodup
  have hidentifiers := fun d hd => (hplain.data d hd).1
  obtain ⟨s, hs, hbody⟩ := emit_eq_ok hp
  constructor
  case identifiers =>
    exact (c.isIdentifier_iff hbuilt hp (hne hplain.kernel) fun d hd => hne (hidentifiers d hd)).mpr
      hplain.nodes
  case params_nodup =>
    refine (c.nodup_paramNames_iff hp).mpr ?_
    exact Kernel.spelledApart_of_plain hnames hidentifiers fun i => hw.exists_item_of_mem_signature
  case locals_nodup =>
    refine (c.nodup_locals_iff hs hbody).mpr ⟨?_, ?_⟩
    · refine Kernel.spelledApart_of_plain hnames hidentifiers fun i hi => ?_
      obtain ⟨d, hd, -⟩ := hw.mem_images_iff.mp hi
      exact ⟨d, hd⟩
    · refine Kernel.spelledApart_of_plain hnames hidentifiers fun i hi => ?_
      obtain rfl := Option.some.inj (hs.symm.trans c.schedule)
      obtain ⟨usage, husage, rfl⟩ := List.mem_map.mp hi
      rw [c.buffers_eq] at husage
      obtain ⟨d, hd, rfl⟩ := List.mem_map.mp (List.mem_filter.mp husage).1
      exact ⟨d, hw.getElem?_id hd⟩
  case apart =>
    refine Program.apart_of_prefix fun name hname => ?_
    obtain ⟨d, hd, rfl⟩ := c.exists_item_of_mem_paramNames hp hname
    rw [ident_of_isIdentifier (hidentifiers d hd)]
    exact (hplain.data d hd).2

end Completed

/-! ### Programs of ready kernels -/

/-- What the names of an emitted program are like. -/
structure Spelling (k : Kernel) (s : Schedule) (p : Program) : Prop where
  words : ∀ name ∈ p.identifiers, ∀ step, StandsIn name.toList (p.print step).toList
  locals : ∀ name ∈ p.locals, IsIdentifier name
  /-- If everything has a name, those of the nodes decide. -/
  identifiers_iff : k.name ≠ "" → (∀ d ∈ k.data, d.name ≠ "") →
    ((∀ name ∈ p.identifiers, IsIdentifier name) ↔
      ∀ n ∈ k.nodes, n.name.toList.all isIdentChar = true)
  params_iff : p.paramNames.Nodup ↔ SpelledApart k (k.inputs ++ k.outputs)
  locals_iff : p.locals.Nodup ↔
    SpelledApart k k.images ∧ SpelledApart k (s.buffers.map BufferUsage.data)
  apart : (∀ name ∈ p.paramNames, ¬ "kg_".toList <+: name.toList) →
    ∀ name ∈ p.locals, name ∉ p.paramNames
  hygienic : k.PlainNames → p.Hygienic

/-- A ready kernel whose extents are its control scalars is emitted, and the names of what is
emitted are identifiers and different as far as the names of the kernel allow. -/
theorem emitted_names {k : Kernel} (hk : k.Built) {device : Device} {config : TilingConfig}
    {diag : Diagnostics} {r : Result} (hr : analyze k device config diag = r)
    (hready : r.ready = true) :
    (k.ExtentsCarried → ∃ p, emit r.kernel = .ok p) ∧
      ∀ p, emit r.kernel = .ok p → ∃ s, r.kernel.schedule = some s ∧ Spelling r.kernel s p := by
  constructor
  · intro hcarried
    obtain ⟨-, p, hp, -⟩ := exists_program_of_ready ⟨hk, hcarried⟩ hr hready
    exact ⟨p, hp⟩
  · intro p hp
    subst hr
    obtain ⟨c⟩ := analyze_completed hk.wellFormed hready
    obtain ⟨s, hs, hbody⟩ := emit_eq_ok hp
    refine ⟨s, hs, ?_⟩
    constructor
    case words => exact fun name hname => Program.standsIn_print hname
    case locals =>
      intro name hname
      obtain ⟨stmt, -, hdeclared⟩ := List.mem_flatMap.mp hname
      exact isIdentifier_of_mem_declared hdeclared
    case identifiers_iff => exact c.isIdentifier_iff hk hp
    case params_iff => exact c.nodup_paramNames_iff hp
    case locals_iff => exact c.nodup_locals_iff hs hbody
    case apart => exact Program.apart_of_prefix
    case hygienic => exact c.hygienic hk hp

/-- Two images blended under given names. -/
def blending (kernel scalar left right node : String) : Kernel :=
  .ofDeclarations kernel
    [.control scalar .int, .input left .float [.fixed 8], .input right .float [.fixed 8],
      .output "o" .float [.fixed 8],
      .node {} { name := node, output := 3, controls := [0],
                 inputs := [⟨1, ⟨[⟨0, 0⟩]⟩, .undef⟩, ⟨2, ⟨[⟨0, 0⟩]⟩, .undef⟩] }]

def blended (kernel scalar left right node : String) : Result :=
  analyze (blending kernel scalar left right node) { units := 2 } { mode := .workGroupSlicing } (.new 5 0)

/-- Nothing clashes where all names are plain. -/
theorem emitted_names_blended : ∃ p, emit (blended "mix" "w" "a" "b" "1st").kernel = .ok p ∧
    "compute_0_1st" ∈ p.identifiers ∧ "kg_buf_a" ∈ p.locals ∧ p.Hygienic := by
  obtain ⟨p, hp, hcall, harray⟩ := exists_of_toOption
    (show ∃ p ∈ (emit (blended "mix" "w" "a" "b" "1st").kernel).toOption,
      "compute_0_1st" ∈ p.identifiers ∧ "kg_buf_a" ∈ p.locals by decide +kernel)
  have hnames := emitted_names (Kernel.built_ofDeclarations "mix" _)
    (r := blended "mix" "w" "a" "b" "1st") rfl (by decide +kernel)
  obtain ⟨s, -, hspelling⟩ := hnames.2 p hp
  refine ⟨p, hp, hcall, harray, hspelling.hygienic ⟨?_, ?_, ?_⟩⟩ <;> decide +kernel

/-- A kernel without a name, a node with a hyphen in its name, images whose names are spelled
alike, and a scalar named like a part index: no symbol and no entry point that could be
compiled, and parameters, local names and both of them together clash. -/
theorem names_clash : (blended "" "kg_part0" "a.b" "a_b" "left-eye").ready = true ∧
    ((blending "" "kg_part0" "a.b" "a_b" "left-eye").data.map DataItem.name).Nodup ∧
    ∃ p, emit (blended "" "kg_part0" "a.b" "a_b" "left-eye").kernel = .ok p ∧
      ("compute_0_left-eye" ∈ p.identifiers ∧ ¬ IsIdentifier "compute_0_left-eye") ∧
      ¬ IsIdentifier p.entry ∧ ¬ p.paramNames.Nodup ∧ ¬ p.locals.Nodup ∧
      ∃ name ∈ p.locals, name ∈ p.paramNames := by
  refine ⟨by decide +kernel, by decide +kernel, exists_of_toOption ?_⟩
  decide +kernel

end Analysis

end StencilTiling
