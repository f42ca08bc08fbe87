import StencilTiling.Proofs.Code.Scope
import StencilTiling.Proofs.Numbering

/-! The spelling of names in emitted programs. Names of kernels and data may hold any
characters; the emitter replaces those that identifiers may not hold, which can make two
names equal. A local name starts with a mark of its kind, and a coordinate names its key
before the item, so different keys never clash. A symbol holds the name of its node as it
is. -/

namespace StencilTiling.Code

/-! ### Identifiers -/

/-- The text is an identifier of the emitted language. -/
def IsIdentifier (name : String) : Prop := isIdentifier name.toList = true

instance : DecidablePred IsIdentifier := fun name =>
  inferInstanceAs (Decidable (isIdentifier name.toList = true))

theorem isIdentifier_cons {c : Char} {w : List Char} :
    isIdentifier (c :: w) = true ↔
      c.isDigit = false ∧ isIdentChar c = true ∧ ∀ x ∈ w, isIdentChar x = true := by
  simp [isIdentifier, and_comm]

/-- What may follow the start of an identifier. -/
theorem isIdentifier_append {start w : List Char} (h : isIdentifier start = true) :
    isIdentifier (start ++ w) = true ↔ ∀ x ∈ w, isIdentChar x = true := by
  cases start with
  | nil => simp [isIdentifier] at h
  | cons c start =>
    obtain ⟨hdigit, hc, hstart⟩ := isIdentifier_cons.mp h
    simp only [List.cons_append, isIdentifier_cons, List.forall_mem_append]
    tauto

/-- A character as it is spelled. -/
def spell (c : Char) : Char := if isIdentChar c then c else '_'

theorem isIdentChar_spell (c : Char) : isIdentChar (spell c) = true := by
  unfold spell
  split_ifs with hc
  · exact hc
  · rfl

theorem spell_of_isIdentChar {c : Char} (h : isIdentChar c = true) : spell c = c := if_pos h

/-- Every character is spelled, behind an underscore if the first one is a digit. -/
theorem toList_ident (name : String) : (ident name).toList =
    (if (name.toList.map spell).head?.any Char.isDigit then ['_'] else []) ++
      name.toList.map spell := by
  have hmap : (name.toList.map fun c => if isIdentChar c then c else '_') = name.toList.map spell := rfl
  unfold ident
  dsimp only
  rw [hmap]
  cases name.toList.map spell with
  | nil => rfl
  | cons c cs => by_cases hc : c.isDigit <;> simp [hc]

theorem isIdentChar_of_mem_ident {name : String} : ∀ c ∈ (ident name).toList, isIdentChar c = true := by
  have hspelled : ∀ c ∈ name.toList.map spell, isIdentChar c = true := by simp [isIdentChar_spell]
  rw [toList_ident, List.forall_mem_append]
  refine ⟨?_, hspelled⟩
  split_ifs
  · simp [isIdentChar]
  · simp

/-- Only an empty name has no spelling. -/
theorem isIdentifier_ident {name : String} : IsIdentifier (ident name) ↔ name ≠ "" := by
  rw [IsIdentifier, ne_eq, ← String.toList_eq_nil_iff, toList_ident]
  cases name.toList with
  | nil => simp [isIdentifier]
  | cons c cs =>
    have hunderscore : isIdentChar '_' = true := rfl
    by_cases hc : (spell c).isDigit <;>
      simp [hc, isIdentifier_cons, isIdentChar_spell, hunderscore]

theorem ident_of_isIdentifier {name : String} (h : IsIdentifier name) : ident name = name := by
  refine String.toList_injective ?_
  rw [toList_ident]
  unfold IsIdentifier at h
  cases hname : name.toList with
  | nil => simp
  | cons c cs =>
    rw [hname] at h
    obtain ⟨hdigit, hc, hcs⟩ := isIdentifier_cons.mp h
    have hmap : (c :: cs).map spell = c :: cs :=
      List.map_congr_left (List.forall_mem_cons.mpr ⟨spell_of_isIdentChar hc,
        fun x hx => spell_of_isIdentChar (hcs x hx)⟩) |>.trans (List.map_id _)
    rw [hmap]
    simp [hdigit]

/-! ### Local names and symbols -/

theorem toList_partVar (dim : Nat) : (partVar dim).toList = "kg_part".toList ++ Nat.toDigits 10 dim := by
  simp only [partVar, String.toList_append, toList_toString]
  rfl

theorem toList_bufferVar (data : String) :
    (bufferVar data).toList = "kg_buf_".toList ++ (ident data).toList := by
  simp only [bufferVar, String.toList_append]
  rfl

theorem toList_coordinateVar (key : Geometry.Key) (data : String) :
    (coordinateVar key data).toList =
      "kg_".toList ++ (key.text.toList ++ '_' :: (ident data).toList) := by
  simp only [coordinateVar, String.toList_append, List.append_assoc]
  rfl

theorem toList_keyText (key : Geometry.Key) : key.text.toList =
    (key.quantity.text.toList ++ key.measure.text.toList) ++ Nat.toDigits 10 key.dim := by
  simp only [Geometry.Key.text, String.toList_append, toList_toString]
  rfl

/-- A quantity and a unit are written in letters. -/
theorem letters_of_mem_text (quantity : Geometry.Quantity) (measure : Geometry.Measure) :
    ∀ c ∈ quantity.text.toList ++ measure.text.toList,
      c.isDigit = false ∧ c ≠ '_' ∧ isIdentChar c = true := by
  have hletters : (quantity.text.toList ++ measure.text.toList).all
      (fun c => !c.isDigit && c != '_' && isIdentChar c) = true := by
    rw [List.all_append, Bool.and_eq_true]
    constructor
    · cases quantity <;> rfl
    · cases measure <;> rfl
  intro c hc
  simpa [and_assoc] using List.all_eq_true.mp hletters c hc

/-- The last letter tells the unit, and what is before it the quantity. -/
theorem text_append_injective {quantity quantity' : Geometry.Quantity}
    {measure measure' : Geometry.Measure}
    (h : quantity.text.toList ++ measure.text.toList =
      quantity'.text.toList ++ measure'.text.toList) : quantity = quantity' ∧ measure = measure' := by
  have hlast := congrArg List.getLast? h
  obtain rfl : measure = measure' := by
    cases measure <;> cases measure' <;> first | rfl | simp [Geometry.Measure.text] at hlast
  refine ⟨?_, rfl⟩
  have hquantity := List.append_cancel_right h
  cases quantity <;> cases quantity' <;> first | rfl | simp [Geometry.Quantity.text] at hquantity

theorem isDigit_of_mem_toDigits {n : Nat} : ∀ c ∈ Nat.toDigits 10 n, c.isDigit = true :=
  fun _ hc => Nat.isDigit_of_mem_toDigits (by decide) (by decide) hc

/-- The digits of a key are its dimension. -/
theorem filter_isDigit_keyText (key : Geometry.Key) :
    key.text.toList.filter Char.isDigit = Nat.toDigits 10 key.dim := by
  have hletters := letters_of_mem_text key.quantity key.measure
  have hnone : (key.quantity.text.toList ++ key.measure.text.toList).filter Char.isDigit = [] :=
    List.filter_eq_nil_iff.mpr fun c hc => by simp [hletters c hc]
  rw [toList_keyText, List.filter_append, hnone, List.nil_append,
    List.filter_eq_self.mpr isDigit_of_mem_toDigits]

theorem keyText_injective {key key' : Geometry.Key} (h : key.text.toList = key'.text.toList) :
    key = key' := by
  have hdigits := congrArg (List.filter Char.isDigit) h
  rw [filter_isDigit_keyText, filter_isDigit_keyText] at hdigits
  rw [toList_keyText, toList_keyText, hdigits] at h
  obtain ⟨hquantity, hmeasure⟩ := text_append_injective (List.append_cancel_right h)
  obtain ⟨dim, quantity, measure⟩ := key
  exact Geometry.Key.mk.injEq .. ▸ ⟨eq_of_toDigits_eq hdigits, hquantity, hmeasure⟩

theorem underscore_notMem_keyText (key : Geometry.Key) : '_' ∉ key.text.toList := by
  rw [toList_keyText, List.mem_append]
  rintro (hmem | hmem)
  · exact (letters_of_mem_text key.quantity key.measure _ hmem).2.1 rfl
  · exact underscore_notMem_toDigits _ hmem

theorem partVar_injective {dim dim' : Nat} (h : partVar dim = partVar dim') : dim = dim' := by
  have hlist := congrArg String.toList h
  rw [toList_partVar, toList_partVar] at hlist
  exact eq_of_toDigits_eq (List.append_cancel_left hlist)

theorem bufferVar_eq_iff {data data' : String} :
    bufferVar data = bufferVar data' ↔ ident data = ident data' := by
  rw [← String.toList_inj, ← String.toList_inj, toList_bufferVar, toList_bufferVar,
    List.append_cancel_left_eq]

theorem coordinateVar_eq_iff {key key' : Geometry.Key} {data data' : String} :
    coordinateVar key data = coordinateVar key' data' ↔ key = key' ∧ ident data = ident data' := by
  constructor
  · intro h
    have hlist := congrArg String.toList h
    rw [toList_coordinateVar, toList_coordinateVar] at hlist
    obtain ⟨hkey, hdata⟩ := append_separator_inj (underscore_notMem_keyText key)
      (underscore_notMem_keyText key') (List.append_cancel_left hlist)
    exact ⟨keyText_injective hkey, String.toList_injective hdata⟩
  · rintro ⟨rfl, hdata⟩
    rw [coordinateVar, hdata, coordinateVar]

theorem isIdentifier_partVar (dim : Nat) : IsIdentifier (partVar dim) := by
  rw [IsIdentifier, toList_partVar, isIdentifier_append rfl]
  exact fun _ hc => Expr.isIdentChar_of_mem_toDigits hc

theorem isIdentifier_bufferVar (data : String) : IsIdentifier (bufferVar data) := by
  rw [IsIdentifier, toList_bufferVar, isIdentifier_append rfl]
  exact isIdentChar_of_mem_ident

theorem isIdentifier_coordinateVar (key : Geometry.Key) (data : String) :
    IsIdentifier (coordinateVar key data) := by
  rw [IsIdentifier, toList_coordinateVar, isIdentifier_append rfl, toList_keyText]
  simp only [List.forall_mem_append, List.forall_mem_cons]
  have hletters := List.forall_mem_append.mp (letters_of_mem_text key.quantity key.measure)
  exact ⟨⟨⟨fun c hc => (hletters.1 c hc).2.2, fun c hc => (hletters.2 c hc).2.2⟩,
    fun _ hc => Expr.isIdentChar_of_mem_toDigits hc⟩, rfl, isIdentChar_of_mem_ident⟩

/-- A symbol is an identifier if the name of the node consists of its characters. -/
theorem isIdentifier_symbol (n : Numbering) (name : String) :
    IsIdentifier (n.symbol name).1 ↔ ∀ c ∈ name.toList, isIdentChar c = true := by
  rw [IsIdentifier, Numbering.toList_symbol, isIdentifier_append rfl, List.forall_mem_append,
    List.forall_mem_cons]
  have hdigits : ∀ c ∈ Nat.toDigits 10 n.nextSymbol, isIdentChar c = true :=
    fun _ hc => Expr.isIdentChar_of_mem_toDigits hc
  have hunderscore : isIdentChar '_' = true := rfl
  tauto

/-! ### Names of programs -/

/-- What a statement declares. -/
def Stmt.declared : Stmt → List String
  | partOfGroup dim | partOfTile dim _ _ => [partVar dim]
  | coordinate key data _ => [coordinateVar key data]
  | buffer _ data _ => [bufferVar data]
  | itemNote .. | cycleNote _ | call .. => []

/-- What a statement calls. -/
def Stmt.symbols : Stmt → List String
  | call symbol _ => [symbol]
  | _ => []

/-- The names in the value of a statement. -/
def Stmt.references : Stmt → List String
  | coordinate _ _ value => value.names
  | call _ args => args
  | _ => []

def Stmt.identifiers (stmt : Stmt) : List String := stmt.declared ++ stmt.symbols ++ stmt.references

def Param.name (q : Param) : String := ident q.data

namespace Program

variable (p : Program)

def paramNames : List String := p.params.map Param.name

/-- The names that the body declares, in order. -/
def locals : List String := p.body.flatMap Stmt.declared

/-- The names in the text of a program, with repeats. -/
def identifiers : List String := p.entry :: p.paramNames ++ p.body.flatMap Stmt.identifiers

/-- All names are identifiers, and none is declared twice. -/
structure Hygienic : Prop where
  identifiers : ∀ name ∈ p.identifiers, IsIdentifier name
  params_nodup : p.paramNames.Nodup
  locals_nodup : p.locals.Nodup
  apart : ∀ name ∈ p.locals, name ∉ p.paramNames

end Program

theorem isIdentifier_of_mem_declared {stmt : Stmt} {name : String} (h : name ∈ stmt.declared) :
    IsIdentifier name := by
  cases stmt with
  | partOfGroup dim | partOfTile dim stride parts =>
    exact List.mem_singleton.mp h ▸ isIdentifier_partVar dim
  | coordinate key data value => exact List.mem_singleton.mp h ▸ isIdentifier_coordinateVar key data
  | buffer elem data count => exact List.mem_singleton.mp h ▸ isIdentifier_bufferVar data
  | _ => cases h

/-- Local names start alike. -/
theorem prefix_of_mem_declared {stmt : Stmt} {name : String} (h : name ∈ stmt.declared) :
    "kg_".toList <+: name.toList := by
  cases stmt with
  | partOfGroup dim | partOfTile dim stride parts =>
    rw [List.mem_singleton.mp h, toList_partVar]
    exact List.IsPrefix.trans ⟨"part".toList, rfl⟩ (List.prefix_append ..)
  | coordinate key data value =>
    rw [List.mem_singleton.mp h, toList_coordinateVar]
    exact List.prefix_append ..
  | buffer elem data count =>
    rw [List.mem_singleton.mp h, toList_bufferVar]
    exact List.IsPrefix.trans ⟨"buf_".toList, rfl⟩ (List.prefix_append ..)
  | _ => cases h

/-- Only a parameter that starts like a local name can clash with one. -/
theorem Program.apart_of_prefix {p : Program}
    (h : ∀ name ∈ p.paramNames, ¬ "kg_".toList <+: name.toList) :
    ∀ name ∈ p.locals, name ∉ p.paramNames := by
  intro name hlocal hparam
  obtain ⟨stmt, -, hdeclared⟩ := List.mem_flatMap.mp hlocal
  exact h name hparam (prefix_of_mem_declared hdeclared)

/-- The character after the common start tells part indices and arrays from coordinates,
whose keys start with capital letters. -/
theorem mark_of_mem_declared {stmt : Stmt} {name : String} (h : name ∈ stmt.declared) :
    (name.toList[3]? = some 'p' ↔ stmt.segment = .parts) ∧
      (name.toList[3]? = some 'b' ↔ stmt.segment = .buffers) := by
  cases stmt with
  | partOfGroup dim | partOfTile dim stride parts =>
    rw [List.mem_singleton.mp h, toList_partVar]
    simp [Stmt.segment]
  | coordinate key data value =>
    rw [List.mem_singleton.mp h, toList_coordinateVar, toList_keyText]
    cases key.quantity <;> simp [Stmt.segment, Geometry.Quantity.text]
  | buffer elem data count =>
    rw [List.mem_singleton.mp h, toList_bufferVar]
    simp [Stmt.segment]
  | _ => cases h

/-! ### Bodies -/

theorem declared_of_segment_calls {calls : List Stmt} (h : ∀ stmt ∈ calls, stmt.segment = .calls) :
    calls.flatMap Stmt.declared = [] := by
  refine List.flatMap_eq_nil_iff.mpr fun stmt hstmt => ?_
  have hsegment := h stmt hstmt
  cases stmt <;> first | rfl | cases hsegment

/-- Names of different segments are different. -/
theorem nodup_declared_iff {parts coordinates buffers calls : List Stmt}
    (hparts : ∀ stmt ∈ parts, stmt.segment = .parts)
    (hcoordinates : ∀ stmt ∈ coordinates, stmt.segment = .coordinates)
    (hbuffers : ∀ stmt ∈ buffers, stmt.segment = .buffers)
    (hcalls : ∀ stmt ∈ calls, stmt.segment = .calls) :
    ((parts ++ coordinates ++ buffers ++ calls).flatMap Stmt.declared).Nodup ↔
      (parts.flatMap Stmt.declared).Nodup ∧ (coordinates.flatMap Stmt.declared).Nodup ∧
        (buffers.flatMap Stmt.declared).Nodup := by
  have hp : ∀ name ∈ parts.flatMap Stmt.declared, name.toList[3]? = some 'p' := by
    intro name hname
    obtain ⟨stmt, hstmt, hname⟩ := List.mem_flatMap.mp hname
    exact (mark_of_mem_declared hname).1.mpr (hparts stmt hstmt)
  have hb : ∀ name ∈ buffers.flatMap Stmt.declared, name.toList[3]? = some 'b' := by
    intro name hname
    obtain ⟨stmt, hstmt, hname⟩ := List.mem_flatMap.mp hname
    exact (mark_of_mem_declared hname).2.mpr (hbuffers stmt hstmt)
  have hc : ∀ name ∈ coordinates.flatMap Stmt.declared,
      name.toList[3]? ≠ some 'p' ∧ name.toList[3]? ≠ some 'b' := by
    intro name hname
    obtain ⟨stmt, hstmt, hname⟩ := List.mem_flatMap.mp hname
    simp [mark_of_mem_declared hname, hcoordinates stmt hstmt]
  simp only [List.flatMap_append, declared_of_segment_calls hcalls, List.append_nil,
    List.nodup_append, List.mem_append]
  constructor
  · rintro ⟨⟨h₁, h₂, -⟩, h₃, -⟩
    exact ⟨h₁, h₂, h₃⟩
  · rintro ⟨h₁, h₂, h₃⟩
    refine ⟨⟨h₁, h₂, ?_⟩, h₃, ?_⟩
    · rintro a ha _ ha' rfl
      exact (hc a ha').1 (hp a ha)
    · rintro a (ha | ha) _ ha' rfl
      · simpa [hp a ha] using hb a ha'
      · exact (hc a ha).2 (hb a ha')

theorem declared_tileDigits (stride : Int) (dims : List (Nat × Int)) :
    (tileDigits stride dims).flatMap Stmt.declared = (dims.map Prod.fst).map partVar := by
  induction dims generalizing stride with
  | nil => rfl
  | cons dim rest ih => simp [tileDigits, Stmt.declared, ih]

theorem nodup_declared_partIndices (s : Schedule) : ((partIndices s).flatMap Stmt.declared).Nodup := by
  have hdims : (((splitDims s.partitions).map Prod.fst).map partVar).Nodup :=
    (nodup_splitDims s.partitions).map fun _ _ => partVar_injective
  unfold partIndices
  split
  · exact List.nodup_nil
  · rw [List.flatMap_map]
    simpa [Stmt.declared, ← List.map_eq_flatMap, Function.comp_def] using hdims
  · rw [declared_tileDigits]
    exact hdims

/-! ### Names of a kernel -/

/-- The names of these items are spelled differently. -/
def SpelledApart (k : Kernel) (ids : List DataId) : Prop :=
  ∀ i ∈ ids, ∀ j ∈ ids, ident (k.dataName i) = ident (k.dataName j) → i = j

instance (k : Kernel) (ids : List DataId) : Decidable (SpelledApart k ids) :=
  inferInstanceAs (Decidable (∀ i ∈ ids, ∀ j ∈ ids, _ → _))

/-- What an item records coordinates for. -/
def keysOf (d : DataItem) : List Geometry.Key :=
  (d.note.geometry.map fun table => table.entries.map Prod.fst).getD []

variable {k : Kernel}

theorem dataName_eq {i : DataId} {d : DataItem} (h : k.data[i]? = some d) : k.dataName i = d.name := by
  rw [Kernel.dataName, h]
  rfl

/-- Names made of the spelling of items are different if the items are spelled apart. -/
theorem nodup_spelled_iff {ids : List DataId} (hids : ids.Nodup) {f : String → String}
    (hf : ∀ {x y}, f x = f y ↔ ident x = ident y) :
    (ids.map fun i => f (k.dataName i)).Nodup ↔ SpelledApart k ids := by
  rw [List.nodup_map_iff_inj_on hids]
  simp only [hf]
  rfl

theorem paramNames_of_paramsOf {params : List Param} (h : paramsOf k = .ok params) :
    params.map Param.name = (k.inputs ++ k.outputs).map fun i => ident (k.dataName i) := by
  refine map_of_mapM h fun i q hq => ?_
  obtain ⟨d, hd, hq⟩ := bind_eq_ok.mp hq
  obtain rfl := pure_eq_ok.mp hq
  rw [dataName_eq (Kernel.item_eq_ok.mp hd)]
  rfl

theorem declared_of_bufferStmts {usages : List BufferUsage} {buffers : List Stmt}
    (h : usages.mapM (bufferStmt k) = .ok buffers) :
    buffers.flatMap Stmt.declared =
      (usages.map BufferUsage.data).map fun i => bufferVar (k.dataName i) := by
  have hdeclared := map_of_mapM (g := Stmt.declared)
    (h := fun usage => [bufferVar (k.dataName usage.data)]) h fun usage stmt hstmt => by
      obtain ⟨d, hd, hstmt⟩ := bind_eq_ok.mp hstmt
      obtain rfl := pure_eq_ok.mp hstmt
      rw [dataName_eq (Kernel.item_eq_ok.mp hd)]
      rfl
  rw [List.flatMap_def, hdeclared, ← List.flatMap_def, ← List.map_eq_flatMap, List.map_map]
  rfl

theorem declared_of_itemStmts {d : DataItem} {stmts : List Stmt} (h : itemStmts k d = .ok stmts) :
    stmts.flatMap Stmt.declared = (keysOf d).map (coordinateVar · d.name) := by
  unfold itemStmts at h
  split at h
  · next hnone =>
    obtain rfl := pure_eq_ok.mp h
    simp [keysOf, hnone]
  · next table htable =>
    split_ifs at h with hempty
    · obtain rfl := pure_eq_ok.mp h
      simp [keysOf, htable, List.isEmpty_iff.mp hempty]
    · obtain ⟨coordinates, hcoordinates, h⟩ := bind_eq_ok.mp h
      obtain rfl := pure_eq_ok.mp h
      have hdeclared := map_of_mapM (g := Stmt.declared)
        (h := fun entry => [coordinateVar entry.1 d.name]) hcoordinates fun entry stmt hstmt => by
          obtain ⟨_, -, hstmt⟩ := bind_eq_ok.mp hstmt
          obtain rfl := pure_eq_ok.mp hstmt
          rfl
      rw [List.flatMap_cons, Stmt.declared, List.nil_append, List.flatMap_def, hdeclared,
        ← List.flatMap_def, ← List.map_eq_flatMap]
      simp [keysOf, htable]

theorem declared_of_coordinates {coordinates : List (List Stmt)}
    (h : k.data.mapM (itemStmts k) = .ok coordinates) :
    coordinates.flatten.flatMap Stmt.declared =
      k.data.flatMap fun d => (keysOf d).map (coordinateVar · d.name) := by
  have hdeclared := map_of_mapM (g := (·.flatMap Stmt.declared))
    (h := fun d => (keysOf d).map (coordinateVar · d.name)) h fun d stmts => declared_of_itemStmts
  rw [← List.flatMap_id, List.flatMap_assoc, List.flatMap_def]
  exact (congrArg List.flatten hdeclared).trans List.flatMap_def.symm

/-! ### References -/

/-- An extent given at run time is spelled as its item. -/
theorem extentName_of_dynamic {dim : Nat} {i param : DataId} {max : Option Nat} {d : DataItem}
    {name : String} (hd : k.data[i]? = some d) (hshape : d.shape[dim]? = some (.dynamic param max))
    (h : extentName k dim i = .ok name) : ∃ x ∈ k.data, name = ident x.name := by
  obtain ⟨d', hd', h⟩ := bind_eq_ok.mp h
  obtain rfl : d' = d := Option.some.inj ((Kernel.item_eq_ok.mp hd').symm.trans hd)
  rw [hshape] at h
  obtain ⟨x, hx, h⟩ := bind_eq_ok.mp h
  exact ⟨x, List.mem_of_getElem? (Kernel.item_eq_ok.mp hx), (pure_eq_ok.mp h).symm⟩

/-- Coordinates refer to the leaves of their expressions, all of which have names. -/
theorem references_of_itemStmts {d : DataItem} {stmts : List Stmt} (h : itemStmts k d = .ok stmts)
    {name : String} (hname : name ∈ stmts.flatMap Stmt.references) :
    ∃ table, d.note.geometry = some table ∧ ∃ entry ∈ table.entries, ∃ l ∈ entry.2.leaves,
      name = leafName k entry.1.dim l ∧
        ∀ i, l = .extent i → extentName k entry.1.dim i = .ok name := by
  unfold itemStmts at h
  split at h
  · obtain rfl := pure_eq_ok.mp h
    cases hname
  · next table htable =>
    split_ifs at h
    · obtain rfl := pure_eq_ok.mp h
      cases hname
    · obtain ⟨coordinates, hcoordinates, h⟩ := bind_eq_ok.mp h
      obtain rfl := pure_eq_ok.mp h
      obtain ⟨stmt, hstmt, hname⟩ := List.mem_flatMap.mp (show name ∈ coordinates.flatMap _ from hname)
      obtain ⟨entry, hentry, hok⟩ := exists_of_mem_mapM hcoordinates hstmt
      obtain ⟨_, hextents, hok⟩ := bind_eq_ok.mp hok
      obtain rfl := pure_eq_ok.mp hok
      rw [Stmt.references, Geometry.Expr.names_toCode] at hname
      obtain ⟨l, hl, rfl⟩ := List.mem_map.mp hname
      refine ⟨table, htable, entry, hentry, l, hl, rfl, ?_⟩
      rintro i rfl
      have hextent := forM_eq_ok.mp hextents i (mem_extents_iff.mpr hl)
      cases hi : extentName k entry.1.dim i with
      | error e =>
        rw [hi] at hextent
        cases hextent
      | ok name => simp only [leafName, hi]

/-- Calls name the arrays of items, or the items. -/
theorem exists_item_of_mem_operands {n : Node} {output : DataItem} {i : DataId} {args : List String}
    (hout : k.data[i]? = some output) (h : operands k n output = .ok args) {name : String}
    (hname : name ∈ args) : ∃ d ∈ k.data, name = ident d.name ∨ name = bufferVar d.name := by
  have hoperand {d : DataItem} (hd : d ∈ k.data) :
      ∃ d' ∈ k.data, operand d = ident d'.name ∨ operand d = bufferVar d'.name := by
    unfold operand
    split_ifs
    · exact ⟨d, hd, .inr rfl⟩
    · exact ⟨d, hd, .inl rfl⟩
  obtain ⟨reads, hreads, h⟩ := bind_eq_ok.mp h
  obtain ⟨controls, hcontrols, h⟩ := bind_eq_ok.mp h
  obtain rfl := pure_eq_ok.mp h
  simp only [List.mem_append, List.mem_singleton] at hname
  rcases hname with (hread | hcontrol) | rfl
  · obtain ⟨e, -, he⟩ := exists_of_mem_mapM hreads hread
    obtain ⟨d, hd, he⟩ := bind_eq_ok.mp he
    obtain rfl := pure_eq_ok.mp he
    exact hoperand (List.mem_of_getElem? (Kernel.item_eq_ok.mp hd))
  · obtain ⟨c, -, hc⟩ := exists_of_mem_mapM hcontrols hcontrol
    obtain ⟨d, hd, hc⟩ := bind_eq_ok.mp hc
    obtain rfl := pure_eq_ok.mp hc
    exact ⟨d, List.mem_of_getElem? (Kernel.item_eq_ok.mp hd), .inl rfl⟩
  · exact hoperand (List.mem_of_getElem? hout)

/-- The calls of an order: the symbols of its nodes, and what they pass. -/
theorem callStmts_eq_ok {current : Option Nat} {ids : List NodeId} {calls : List Stmt}
    (h : callStmts k current ids = .ok calls) :
    (calls.flatMap Stmt.symbols = ids.filterMap fun id => (k.nodes[id]?).map Node.symbol) ∧
      ∀ name ∈ calls.flatMap Stmt.references, ∃ d ∈ k.data, name = ident d.name ∨ name = bufferVar d.name := by
  induction ids generalizing current calls with
  | nil =>
    obtain rfl := pure_eq_ok.mp h
    simp
  | cons id rest ih =>
    obtain ⟨n, hn, h⟩ := bind_eq_ok.mp h
    obtain ⟨output, hout, h⟩ := bind_eq_ok.mp h
    obtain ⟨args, hargs, h⟩ := bind_eq_ok.mp h
    obtain ⟨more, hmore, h⟩ := bind_eq_ok.mp h
    obtain rfl := pure_eq_ok.mp h
    obtain ⟨hsymbols, hreferences⟩ := ih hmore
    have hnote (f : Stmt → List String) (hf : ∀ cycle, f (.cycleNote cycle) = []) :
        (if output.cycle = current then [] else [Stmt.cycleNote (output.cycle.getD 0)]).flatMap f = [] := by
      split_ifs <;> simp [hf]
    simp only [List.flatMap_append, List.flatMap_cons, hnote Stmt.symbols fun _ => rfl,
      hnote Stmt.references fun _ => rfl, List.nil_append]
    constructor
    · rw [List.filterMap_cons, Kernel.node_eq_ok.mp hn, hsymbols]
      rfl
    · refine List.forall_mem_append.mpr ⟨fun name hname => ?_, hreferences⟩
      exact exists_item_of_mem_operands (Kernel.item_eq_ok.mp hout) hargs hname

/-- Calls are made in their segment alone. -/
theorem symbols_of_segment {stmts : List Stmt} {g : Segment} (h : ∀ stmt ∈ stmts, stmt.segment = g)
    (hg : g ≠ .calls) : stmts.flatMap Stmt.symbols = [] := by
  refine List.flatMap_eq_nil_iff.mpr fun stmt hstmt => ?_
  cases stmt with
  | call symbol args => exact absurd (h _ hstmt).symm hg
  | _ => rfl

/-- Part indices and arrays refer to nothing. -/
theorem references_of_segment {stmts : List Stmt} {g : Segment} (h : ∀ stmt ∈ stmts, stmt.segment = g)
    (hg : g ≠ .calls ∧ g ≠ .coordinates) : stmts.flatMap Stmt.references = [] := by
  refine List.flatMap_eq_nil_iff.mpr fun stmt hstmt => ?_
  cases stmt with
  | call symbol args => exact absurd (h _ hstmt).symm hg.1
  | coordinate key data value => exact absurd (h _ hstmt).symm hg.2
  | _ => rfl

/-- The symbols of a body are those of the nodes in their order. -/
theorem symbols_of_bodyOf {s : Schedule} {body : List Stmt} (h : bodyOf k s = .ok body) :
    body.flatMap Stmt.symbols = s.nodeOrder.filterMap fun id => (k.nodes[id]?).map Node.symbol := by
  obtain ⟨coordinates, buffers, calls, hcoordinates, hbuffers, hcalls, rfl⟩ := bodyOf_eq_ok h
  simp only [List.flatMap_append, symbols_of_segment (segment_partIndices s) (by decide),
    symbols_of_segment (segment_coordinates hcoordinates) (by decide),
    symbols_of_segment (segment_buffers hbuffers) (by decide), List.nil_append]
  exact (callStmts_eq_ok hcalls).1

/-- A body refers to leaves of coordinates, to items and to their arrays. -/
theorem references_of_bodyOf {s : Schedule} {body : List Stmt} (h : bodyOf k s = .ok body)
    {name : String} (hname : name ∈ body.flatMap Stmt.references) :
    (∃ d ∈ k.data, ∃ table, d.note.geometry = some table ∧ ∃ entry ∈ table.entries,
      ∃ l ∈ entry.2.leaves, name = leafName k entry.1.dim l ∧
        ∀ i, l = .extent i → extentName k entry.1.dim i = .ok name) ∨
    ∃ d ∈ k.data, name = ident d.name ∨ name = bufferVar d.name := by
  obtain ⟨coordinates, buffers, calls, hcoordinates, hbuffers, hcalls, rfl⟩ := bodyOf_eq_ok h
  simp only [List.flatMap_append, references_of_segment (segment_partIndices s) (by decide),
    references_of_segment (segment_buffers hbuffers) (by decide), List.nil_append, List.append_nil,
    List.mem_append] at hname
  rcases hname with hname | hname
  · left
    obtain ⟨stmt, hstmt, hname⟩ := List.mem_flatMap.mp hname
    obtain ⟨stmts, hstmts, hstmt⟩ := List.mem_flatten.mp hstmt
    obtain ⟨d, hd, hok⟩ := exists_of_mem_mapM hcoordinates hstmts
    exact ⟨d, hd, references_of_itemStmts hok (List.mem_flatMap.mpr ⟨stmt, hstmt, hname⟩)⟩
  · exact .inr ((callStmts_eq_ok hcalls).2 name hname)

end StencilTiling.Code
