import Mathlib.Data.List.Basic
import StencilTiling.Proofs.Description.Build

/-! The kernel that a description says, written down at once: items, nodes and reads by their
places in the description, names by the place where they are declared, and what is left out by
its default. Building a description entry by entry draws this picture. -/

namespace StencilTiling

/-! ### Spellings -/

/-- The texts that name an element type; unsigned types also go by a long spelling. -/
def ElemType.spellings : ElemType → List String
  | .uchar => ["uchar", "unsigned char"]
  | .ushort => ["ushort", "unsigned short"]
  | .uint => ["uint", "unsigned int"]
  | .ulong => ["ulong", "unsigned long"]
  | t => [t.text]

theorem ElemType.text_mem_spellings (t : ElemType) : t.text ∈ t.spellings := by
  cases t <;> decide

theorem ElemType.ofText?_eq_some_iff {s : String} {t : ElemType} :
    ElemType.ofText? s = some t ↔ s ∈ t.spellings := by
  unfold ElemType.ofText?
  split
  · cases t <;> decide
  · cases t <;> decide
  · cases t <;> decide
  · cases t <;> decide
  · next huchar hushort huint hulong =>
    constructor
    · intro h
      have htext : t.text = s := by simpa using List.find?_some h
      exact htext ▸ t.text_mem_spellings
    · intro h
      have htext : s = t.text := by
        cases t <;> simp_all [ElemType.spellings, ElemType.text]
      subst htext
      cases t <;> rfl

theorem Border.ofText?_eq_some_iff {s : String} {b : Border} :
    Border.ofText? s = some b ↔ b.text = s := by
  constructor
  · intro h
    simpa using List.find?_some h
  · rintro rfl
    cases b <;> rfl

namespace Description

/-! ### What a description says -/

def DataKind.role : DataKind → Role
  | .input | .control => .input
  | .temporary => .temporary
  | .output => .output

/-- The place of the first item declared under a name. -/
def position (data : List DataEntry) (name : String) : DataId := data.findIdx (·.name == name)

/-- An extent says its size, or the control parameter that carries it. -/
def ExtentEntry.picture (data : List DataEntry) : ExtentEntry → Extent
  | .fixed n => .fixed n
  | .dynamic param max => .dynamic (position data param) max

/-- The element type that an entry names. -/
def DataEntry.elemType (entry : DataEntry) : ElemType :=
  (ElemType.all.find? (entry.elem ∈ ·.spellings)).getD default

/-- Control parameters are scalars, whatever shape they are given. -/
def DataEntry.rank (entry : DataEntry) : Nat := if entry.kind = .control then 0 else entry.shape.length

/-- The rank of the item declared under a name. -/
def rankOf (data : List DataEntry) (name : String) : Nat :=
  ((data[position data name]?).map DataEntry.rank).getD 0

/-- The reads of all nodes, each with the place of its node. -/
def readsOf (nodes : List NodeEntry) : List (NodeId × InputEntry) :=
  nodes.zipIdx.flatMap fun (n, i) => n.inputs.map (i, ·)

/-- The window of a read is pointwise unless it is given. -/
def InputEntry.window (data : List DataEntry) (entry : InputEntry) : Window :=
  (entry.read.map windowOf).getD (.zero (rankOf data entry.data))

def InputEntry.borderMode (entry : InputEntry) : Border :=
  (entry.border.bind fun text => Border.all.find? (·.text == text)).getD Border.undef

/-- An item among others, with the nodes and reads that name it. Its extents name items that
are declared before it. -/
def DataEntry.picture (unit : String) (data : List DataEntry) (nodes : List NodeEntry)
    (reads : List (NodeId × InputEntry)) (i : Nat) (entry : DataEntry) : DataItem where
  id := i
  name := entry.name
  elem := entry.elemType
  shape := if entry.kind = .control then [] else entry.shape.map (·.picture (data.take i))
  iterative := entry.kind ≠ .control
  role := entry.kind.role
  location := place unit entry.line
  producer := nodes.findIdx? (·.output == entry.name)
  users := reads.findIdxs (·.2.data == entry.name)

/-- A node with its reads. Strides are ones and the write window covers the output stride
unless they are given. -/
def NodeEntry.picture (unit : String) (first : Nat) (data : List DataEntry)
    (reads : List (NodeId × InputEntry)) (i : Nat) (entry : NodeEntry) : Node :=
  let outStride := (entry.outStride.map Size.mk).getD (.ones (rankOf data entry.output))
  { id := i
    uid := first + i
    name := entry.name
    symbol := s!"compute_{first + i}_{entry.name}"
    location := place unit entry.line
    inputs := reads.findIdxs (·.1 == i)
    controls := entry.controls.map (position data)
    output := position data entry.output
    inStride := (entry.inStride.map Size.mk).getD (.ones (rankOf data entry.output))
    outStride
    write := (entry.write.map windowOf).getD (.covering outStride)
    params := [] }

def edgePicture (data : List DataEntry) (i : Nat) (read : NodeId × InputEntry) : Edge where
  id := i
  source := position data read.2.data
  target := read.1
  read := read.2.window data
  border := read.2.borderMode

/-- The kernel of some items, nodes and reads. -/
def sketch (unit : String) (first : Nat) (name : String) (location : Option Location) (data : List DataEntry)
    (nodes : List NodeEntry) (reads : List (NodeId × InputEntry)) : Kernel where
  name
  location
  data := data.mapIdx (DataEntry.picture unit data nodes reads)
  nodes := nodes.mapIdx (NodeEntry.picture unit first data reads)
  edges := reads.mapIdx (edgePicture data)
  inputs := data.findIdxs (·.kind.role == .input)

/-- The kernel that an entry says, with its nodes numbered from `first` on. -/
def KernelEntry.picture (unit : String) (first : Nat) (entry : KernelEntry) : Kernel :=
  sketch unit first entry.name (place unit entry.line) entry.data entry.nodes (readsOf entry.nodes)

/-- The kernels of some entries, numbered one after another. -/
def pictures (unit : String) (first : Nat) : List KernelEntry → List Kernel
  | [] => []
  | entry :: rest => entry.picture unit first :: pictures unit (first + entry.nodes.length) rest

/-! ### What a description must declare -/

/-- Items have known types and different names, and run-time extents are carried by control
parameters declared before. -/
structure DataDeclared (data : List DataEntry) : Prop where
  elems : ∀ d ∈ data, ∃ t : ElemType, d.elem ∈ t.spellings
  names : (data.map DataEntry.name).Nodup
  extents : ∀ i d, data[i]? = some d → ∀ param max, .dynamic param max ∈ d.shape →
    ∃ c ∈ data.take i, c.name = param ∧ c.kind = .control

/-- A node names declared items and known borders, and writes no parameter. -/
structure NodeDeclared (data : List DataEntry) (n : NodeEntry) : Prop where
  output : ∃ d ∈ data, d.name = n.output ∧ d.kind ≠ .input ∧ d.kind ≠ .control
  inputs : ∀ r ∈ n.inputs, ∃ d ∈ data, d.name = r.data
  borders : ∀ r ∈ n.inputs, ∀ text ∈ r.border, ∃ b : Border, b.text = text
  controls : ∀ c ∈ n.controls, ∃ d ∈ data, d.name = c

/-- No two nodes write the same item. -/
structure NodesDeclared (data : List DataEntry) (nodes : List NodeEntry) : Prop where
  each : ∀ n ∈ nodes, NodeDeclared data n
  producers : (nodes.map NodeEntry.output).Nodup

structure KernelEntry.Declared (entry : KernelEntry) : Prop where
  data : DataDeclared entry.data
  nodes : NodesDeclared entry.data entry.nodes

/-! ### Names -/

section Names

variable {data : List DataEntry} {name : String} {i : Nat} {d : DataEntry}

theorem position_lt_iff : position data name < data.length ↔ ∃ d ∈ data, d.name = name := by
  simp [position, List.findIdx_lt_length]

/-- A name stands for an item declared under it. -/
theorem exists_position (h : ∃ d ∈ data, d.name = name) :
    ∃ d, data[position data name]? = some d ∧ d.name = name := by
  have hlt := position_lt_iff.mpr h
  exact ⟨_, List.getElem?_eq_getElem hlt, eq_of_beq (List.findIdx_getElem (w := hlt))⟩

/-- Under different names, the place of an item is that of its name. -/
theorem position_eq_iff (hnames : (data.map DataEntry.name).Nodup) (hd : data[i]? = some d) :
    position data name = i ↔ d.name = name := by
  constructor
  · rintro rfl
    obtain ⟨d', hd', hname⟩ := exists_position
      (position_lt_iff.mp (List.getElem?_eq_some_iff.mp hd).1)
    obtain rfl := Option.some.inj (hd.symm.trans hd')
    exact hname
  · rintro rfl
    obtain ⟨d', hd', hname⟩ := exists_position ⟨d, List.mem_of_getElem? hd, rfl⟩
    refine (List.getElem?_inj (by simpa using position_lt_iff.mpr ⟨d, List.mem_of_getElem? hd, rfl⟩) hnames).mp ?_
    rw [List.getElem?_map, List.getElem?_map, hd', hd, Option.map_some, Option.map_some, hname]

theorem rankOf_eq (hnames : (data.map DataEntry.name).Nodup) (hd : d ∈ data) : rankOf data d.name = d.rank := by
  obtain ⟨i, hi⟩ := List.mem_iff_getElem?.mp hd
  rw [rankOf, (position_eq_iff hnames hi).mpr rfl, hi]
  rfl

end Names

/-! ### Looking up a sketch -/

/-- Looking up by place. -/
theorem find?_mapIdx {α β : Type} {l : List α} {f : Nat → α → β} {p : β → Bool} {q : α → Bool}
    {g : β → Nat} {n : Nat} (hp : ∀ i a, p (f i a) = q a) (hg : ∀ i a, g (f i a) = i + n) :
    ((l.mapIdx f).find? p).map g = (l.findIdx? q).map (· + n) := by
  induction l generalizing f n with
  | nil => rfl
  | cons a rest ih =>
    rw [List.mapIdx_cons, List.find?_cons, List.findIdx?_cons, hp]
    cases q a with
    | true => simp [hg]
    | false =>
      have hrest := ih (f := fun i => f (i + 1)) (n := n + 1) (fun i a => hp _ a)
        (fun i a => (hg _ a).trans (by omega))
      simpa [Function.comp_def, Nat.add_assoc, Nat.add_comm n] using hrest

section Sketch

variable {unit : String} {first : Nat} {label : String} {location : Option Location}
  {data : List DataEntry} {nodes : List NodeEntry} {reads : List (NodeId × InputEntry)}

theorem findData?_sketch (name : String) :
    (sketch unit first label location data nodes reads).findData? name =
      data.findIdx? (·.name == name) := by
  have h := find?_mapIdx (l := data) (f := DataEntry.picture unit data nodes reads)
    (p := fun item => item.name == name) (q := fun entry => entry.name == name) (g := DataItem.id) (n := 0)
    (fun _ _ => rfl) (fun _ _ => rfl)
  simpa [Kernel.findData?, sketch] using h

/-- A name is found where it is declared. -/
theorem findData?_sketch_eq_some_iff {name : String} {i : DataId} :
    (sketch unit first label location data nodes reads).findData? name = some i ↔
      (∃ d ∈ data, d.name = name) ∧ i = position data name := by
  rw [findData?_sketch, List.findIdx?_eq_some_iff_findIdx_eq, ← position_lt_iff, eq_comm (a := i)]
  constructor
  · rintro ⟨hlt, rfl⟩
    exact ⟨hlt, rfl⟩
  · rintro ⟨hlt, rfl⟩
    exact ⟨hlt, rfl⟩

theorem findData?_sketch_eq_none_iff {name : String} :
    (sketch unit first label location data nodes reads).findData? name = none ↔
      ∀ d ∈ data, d.name ≠ name := by
  rw [findData?_sketch]
  simp

@[simp]
theorem length_data_sketch : (sketch unit first label location data nodes reads).data.length = data.length :=
  List.length_mapIdx

@[simp]
theorem length_nodes_sketch : (sketch unit first label location data nodes reads).nodes.length = nodes.length :=
  List.length_mapIdx

theorem getElem?_data_sketch (i : DataId) :
    (sketch unit first label location data nodes reads).data[i]? =
      (data[i]?).map (DataEntry.picture unit data nodes reads i) := by
  simp [sketch]

/-- A control parameter is found where it is declared. -/
theorem control?_sketch_eq_some_iff (hnames : (data.map DataEntry.name).Nodup) {name : String} {i : DataId} :
    control? (sketch unit first label location data nodes reads) name = some i ↔
      (∃ c ∈ data, c.name = name ∧ c.kind = .control) ∧ i = position data name := by
  have hcontrol : ∀ j (c : DataEntry),
      (c.picture unit data nodes reads j).isControl = true ↔ c.kind = .control := by
    simp [DataItem.isControl, DataEntry.picture]
  simp only [control?, Option.bind_eq_bind, Option.bind_eq_some_iff, findData?_sketch_eq_some_iff,
    getElem?_data_sketch, Option.map_eq_some_iff]
  constructor
  · rintro ⟨_, ⟨-, rfl⟩, _, ⟨c, hc, rfl⟩, h⟩
    split_ifs at h with hctl
    refine ⟨⟨c, List.mem_of_getElem? hc, (position_eq_iff hnames hc).mp rfl, (hcontrol _ c).mp hctl⟩, ?_⟩
    exact (Option.some.inj h).symm
  · rintro ⟨⟨c, hc, rfl, hkind⟩, rfl⟩
    obtain ⟨j, hj⟩ := List.mem_iff_getElem?.mp hc
    obtain rfl := (position_eq_iff hnames hj).mpr rfl
    exact ⟨_, ⟨⟨c, hc, rfl⟩, rfl⟩, _, ⟨c, hj, rfl⟩, if_pos ((hcontrol _ c).mpr hkind)⟩

end Sketch

/-! ### Data -/

/-- The kernel with one more item, which is a parameter or not. -/
def withItem (k : Kernel) (item : DataItem) : Kernel :=
  { k with
    data := k.data ++ [item]
    inputs := if item.role = .input then k.inputs ++ [item.id] else k.inputs }

theorem pushData_eq_ok_iff {k k' : Kernel} {name : String} {elem : ElemType} {shape : Shape}
    {iterative : Bool} {role : Role} {i : DataId} :
    k.pushData name elem shape iterative role = .ok (i, k') ↔ k.findData? name = none ∧
      i = k.data.length ∧ k' = { k with data := k.data ++ [{ id := i, name, elem, shape, iterative, role }] } := by
  unfold Kernel.pushData
  cases k.findData? name with
  | some j => simp
  | none =>
    simp only [Option.isSome_none, Bool.false_eq_true, if_false, Except.ok.injEq, Prod.mk.injEq, true_and]
    constructor
    · rintro ⟨rfl, rfl⟩
      exact ⟨rfl, rfl⟩
    · rintro ⟨rfl, rfl⟩
      exact ⟨rfl, rfl⟩

theorem pushInput_eq_ok_iff {k k' : Kernel} {name : String} {elem : ElemType} {shape : Shape}
    {iterative : Bool} {i : DataId} :
    k.pushInput name elem shape iterative = .ok (i, k') ↔ k.findData? name = none ∧ i = k.data.length ∧
      k' = withItem k { id := i, name, elem, shape, iterative, role := .input } := by
  simp only [Kernel.pushInput, bind_eq_ok, Prod.exists, pushData_eq_ok_iff, pure_eq_ok, Prod.mk.injEq]
  constructor
  · rintro ⟨_, _, ⟨hfresh, rfl, rfl⟩, rfl, rfl⟩
    exact ⟨hfresh, rfl, rfl⟩
  · rintro ⟨hfresh, rfl, rfl⟩
    exact ⟨_, _, ⟨hfresh, rfl, rfl⟩, rfl, rfl⟩

/-- The item of an entry in a kernel that has `id` items. -/
def DataEntry.item (unit : String) (entry : DataEntry) (id : DataId) (elem : ElemType) (shape : Shape) :
    DataItem where
  id
  name := entry.name
  elem
  shape := if entry.kind = .control then [] else shape
  iterative := entry.kind ≠ .control
  role := entry.kind.role
  location := place unit entry.line

section Entry

variable {unit : String} {k k' : Kernel} {entry : DataEntry}

/-- Every kind pushes its item, so far without a place. -/
theorem DataEntry.push_eq_ok_iff (unit : String) {elem : ElemType} {shape : Shape} {i : DataId} :
    (match entry.kind with
      | .input => k.addInput entry.name elem shape
      | .control => k.addControl entry.name elem
      | .temporary => k.addData entry.name elem shape
      | .output => k.addOutput entry.name elem shape) = .ok (i, k') ↔
      k.findData? entry.name = none ∧ i = k.data.length ∧
        k' = withItem k { entry.item unit i elem shape with location := none } := by
  obtain ⟨name, kind, text, extents, line⟩ := entry
  cases kind with
  | input => exact pushInput_eq_ok_iff
  | control => exact pushInput_eq_ok_iff
  | temporary => exact pushData_eq_ok_iff
  | output => exact pushData_eq_ok_iff

/-- The place of an item is recorded where it is given. -/
theorem place_withItem (item : DataItem) :
    (match item.location with
      | some l => (withItem k { item with location := none }).locate k.data.length l
      | none => withItem k { item with location := none }) = withItem k item := by
  cases hl : item.location with
  | some l => simp [withItem, Kernel.locate, List.modify_eq_take_cons_drop, ← hl]
  | none =>
    dsimp only
    rw [← hl]

/-- What an entry adds to any kernel, and when. -/
theorem DataEntry.build_eq_ok_iff :
    entry.build unit k = .ok k' ↔ ∃ elem shape, ElemType.ofText? entry.elem = some elem ∧
      entry.shape.mapM (ExtentEntry.build k entry.name) = .ok shape ∧ k.findData? entry.name = none ∧
      k' = withItem k (entry.item unit k.data.length elem shape) := by
  simp only [DataEntry.build, bind_eq_ok, found_eq_ok, ofKernel, mapError_eq_ok, Prod.exists, pure_eq_ok]
  constructor
  · rintro ⟨elem, helem, shape, hshape, i, k₁, hpush, rfl⟩
    obtain ⟨hfresh, rfl, rfl⟩ := (DataEntry.push_eq_ok_iff unit).mp hpush
    exact ⟨elem, shape, helem, hshape, hfresh, place_withItem (entry.item unit k.data.length elem shape)⟩
  · rintro ⟨elem, shape, helem, hshape, hfresh, rfl⟩
    exact ⟨elem, helem, shape, hshape, _, _, (DataEntry.push_eq_ok_iff unit).mpr ⟨hfresh, rfl, rfl⟩,
      place_withItem (entry.item unit k.data.length elem shape)⟩

end Entry

/-- The type that an entry names, if it names one. -/
theorem DataEntry.ofText?_elem_eq_some_iff {entry : DataEntry} {t : ElemType} :
    ElemType.ofText? entry.elem = some t ↔
      (∃ t : ElemType, entry.elem ∈ t.spellings) ∧ t = entry.elemType := by
  -- no text spells two types, so the first type found is the only one
  have hnamed : ∀ t : ElemType, entry.elem ∈ t.spellings → t = entry.elemType := by
    intro t ht
    have hmem : t ∈ ElemType.all := by cases t <;> decide
    obtain ⟨t', ht'⟩ := Option.isSome_iff_exists.mp
      (List.find?_isSome (p := fun t : ElemType => entry.elem ∈ t.spellings).mpr ⟨t, hmem, decide_eq_true ht⟩)
    have hspelled : entry.elem ∈ t'.spellings := by simpa using List.find?_some ht'
    rw [DataEntry.elemType, ht', Option.getD_some]
    exact Option.some.inj ((ElemType.ofText?_eq_some_iff.mpr ht).symm.trans
      (ElemType.ofText?_eq_some_iff.mpr hspelled))
  rw [ElemType.ofText?_eq_some_iff]
  constructor
  · exact fun ht => ⟨⟨t, ht⟩, hnamed t ht⟩
  · rintro ⟨⟨t', ht'⟩, rfl⟩
    exact hnamed t' ht' ▸ ht'

section Step

variable {unit : String} {first : Nat} {label : String} {location : Option Location}
  {data : List DataEntry} {d : DataEntry}

theorem ExtentEntry.build_eq_ok_iff (hnames : (data.map DataEntry.name).Nodup) {item : String}
    {entry : ExtentEntry} {extent : Extent} :
    entry.build (sketch unit first label location data [] []) item = .ok extent ↔
      (∀ param max, entry = .dynamic param max → ∃ c ∈ data, c.name = param ∧ c.kind = .control) ∧
        extent = entry.picture data := by
  cases entry with
  | fixed n => simp [ExtentEntry.build, ExtentEntry.picture, eq_comm]
  | dynamic param max =>
    simp only [ExtentEntry.build, bind_eq_ok, found_eq_ok, control?_sketch_eq_some_iff hnames, pure_eq_ok,
      ExtentEntry.dynamic.injEq]
    constructor
    · rintro ⟨_, ⟨hcontrol, rfl⟩, rfl⟩
      exact ⟨by rintro _ _ ⟨rfl, rfl⟩; exact hcontrol, rfl⟩
    · rintro ⟨hcontrol, rfl⟩
      exact ⟨_, ⟨hcontrol param max ⟨rfl, rfl⟩, rfl⟩, rfl⟩

theorem dataDeclared_nil : DataDeclared [] := ⟨by simp, by simp, by simp⟩

theorem DataDeclared.of_append {rest : List DataEntry} (h : DataDeclared (data ++ rest)) :
    DataDeclared data where
  elems d hd := h.elems d (List.mem_append_left _ hd)
  names := (List.nodup_append.mp (List.map_append ▸ h.names)).1
  extents i d hd param max hmem := by
    have hi : i < data.length := (List.getElem?_eq_some_iff.mp hd).1
    have hcontrol := h.extents i d (by rwa [List.getElem?_append_left hi]) param max hmem
    rwa [List.take_append_of_le_length hi.le] at hcontrol

/-- What one more item must declare. -/
theorem dataDeclared_concat (hdata : DataDeclared data) :
    DataDeclared (data ++ [d]) ↔ (∃ t : ElemType, d.elem ∈ t.spellings) ∧
      (∀ c ∈ data, c.name ≠ d.name) ∧ ∀ extent ∈ d.shape, ∀ param max, extent = .dynamic param max →
        ∃ c ∈ data, c.name = param ∧ c.kind = .control := by
  have hnames : ((data ++ [d]).map DataEntry.name).Nodup ↔ ∀ c ∈ data, c.name ≠ d.name := by
    simp [List.nodup_append, hdata.names]
  have hlast : (data ++ [d])[data.length]? = some d := by simp
  constructor
  · intro h
    refine ⟨h.elems d (by simp), hnames.mp h.names, ?_⟩
    rintro _ hextent param max rfl
    simpa using h.extents _ d hlast param max hextent
  · rintro ⟨htype, hfresh, hextents⟩
    refine ⟨?_, hnames.mpr hfresh, fun i e he param max hextent => ?_⟩
    · simpa [or_imp, forall_and] using ⟨hdata.elems, htype⟩
    · obtain hi | rfl : i < data.length ∨ i = data.length := by
        have := (List.getElem?_eq_some_iff.mp he).1
        simp only [List.length_append, List.length_singleton] at this
        omega
      · rw [List.getElem?_append_left hi] at he
        rw [List.take_append_of_le_length hi.le]
        exact hdata.extents i e he param max hextent
      · obtain rfl := Option.some.inj (hlast.symm.trans he)
        simpa using hextents _ hextent param max rfl

/-- One more item is drawn at the end and changes no other. -/
theorem sketch_concat : sketch unit first label location (data ++ [d]) [] [] =
    withItem (sketch unit first label location data [] [])
      (d.item unit data.length d.elemType (d.shape.map (·.picture data))) := by
  -- extents look at the items before their own, which the new item is not among
  have hold : data.mapIdx (DataEntry.picture unit (data ++ [d]) [] []) =
      data.mapIdx (DataEntry.picture unit data [] []) := by
    refine List.mapIdx_eq_mapIdx_iff.mpr fun i hi => ?_
    simp only [DataEntry.picture, List.take_append_of_le_length hi.le]
  have hnew : d.picture unit (data ++ [d]) [] [] data.length =
      d.item unit data.length d.elemType (d.shape.map (·.picture data)) := by
    simp [DataEntry.picture, DataEntry.item]
  have hinputs : (data ++ [d]).findIdxs (·.kind.role == .input) =
      if d.kind.role = .input then data.findIdxs (·.kind.role == .input) ++ [data.length]
      else data.findIdxs (·.kind.role == .input) := by
    rw [List.findIdxs_append, List.findIdxs_singleton]
    split_ifs <;> simp_all
  simp only [sketch, withItem, List.mapIdx_concat, hold, hnew, hinputs, List.mapIdx_nil]
  rfl

/-- An entry that goes on with the declarations is drawn, and no other. -/
theorem DataEntry.build_sketch_eq_ok_iff (hdata : DataDeclared data) {k : Kernel} :
    d.build unit (sketch unit first label location data [] []) = .ok k ↔
      DataDeclared (data ++ [d]) ∧ k = sketch unit first label location (data ++ [d]) [] [] := by
  have hshape : ∀ shape, d.shape.mapM (ExtentEntry.build (sketch unit first label location data [] []) d.name) =
      .ok shape ↔ _ := fun shape => mapM_eq_ok_iff fun _ _ _ => ExtentEntry.build_eq_ok_iff hdata.names
  simp only [DataEntry.build_eq_ok_iff, DataEntry.ofText?_elem_eq_some_iff, hshape, findData?_sketch_eq_none_iff,
    dataDeclared_concat hdata, sketch_concat, length_data_sketch]
  constructor
  · rintro ⟨_, _, ⟨htype, rfl⟩, ⟨hextents, rfl⟩, hfresh, rfl⟩
    exact ⟨⟨htype, hfresh, hextents⟩, rfl⟩
  · rintro ⟨⟨htype, hfresh, hextents⟩, rfl⟩
    exact ⟨_, _, ⟨htype, rfl⟩, ⟨hextents, rfl⟩, hfresh, rfl⟩

/-- The items of a kernel are drawn if they are declared. -/
theorem foldlM_data_eq_ok_iff (first : Nat) {k : Kernel} :
    data.foldlM (DataEntry.build unit) { name := label, location } = .ok k ↔
      DataDeclared data ∧ k = sketch unit first label location data [] [] :=
  foldlM_eq_ok_iff DataDeclared (fun data => sketch unit first label location data [] [])
    (fun _ _ _ hdone => DataEntry.build_sketch_eq_ok_iff hdone) (fun _ _ h => h.of_append) dataDeclared_nil

end Step

end Description

end StencilTiling
