import StencilTiling.Code.Emit
import StencilTiling.Proofs.Analysis.Axes
import StencilTiling.Proofs.Analysis.Slices
import StencilTiling.Proofs.Geometry.Rendering

/-! Emitted coordinates compute the predicted values. Truncating division agrees with the
rounding of an expression wherever nothing negative is divided, and in the coordinates of an
item only extents and clamped sizes are. -/

namespace StencilTiling

namespace Geometry.Expr

/-! ### Building -/

section Building

variable {part : Int} {extent : DataId → Int} {a b e : Expr}

theorem NonnegQuotients.plus (ha : a.NonnegQuotients part extent) (hb : b.NonnegQuotients part extent) :
    (a.plus b).NonnegQuotients part extent := by
  unfold Expr.plus
  split
  · trivial
  · exact ha
  · exact hb
  · exact ⟨ha, hb⟩

theorem NonnegQuotients.minus (ha : a.NonnegQuotients part extent) (hb : b.NonnegQuotients part extent) :
    (a.minus b).NonnegQuotients part extent := by
  unfold Expr.minus
  split
  · trivial
  · exact ha
  · exact ⟨ha, hb⟩

theorem NonnegQuotients.atMost (ha : a.NonnegQuotients part extent)
    (hb : b.NonnegQuotients part extent) : (a.atMost b).NonnegQuotients part extent := by
  unfold Expr.atMost
  split
  · trivial
  · split_ifs
    · exact ha
    · exact ⟨ha, hb⟩

theorem NonnegQuotients.clampNonneg (ha : a.NonnegQuotients part extent) :
    a.clampNonneg.NonnegQuotients part extent := by
  unfold Expr.clampNonneg Expr.atLeast
  split
  · trivial
  · split_ifs
    · exact ha
    · exact ⟨ha, trivial⟩

/-- An affine step divides nothing on a constant, which it folds. -/
theorem NonnegQuotients.mapBy {map : Affine} (h : e.NonnegQuotients part extent)
    (hden : 0 < map.factor.den) (hq : e.asConst = none → map.factor.den ≠ 1 →
      0 ≤ (e.value part extent + map.offset) * map.factor.num) :
    (e.mapBy map).NonnegQuotients part extent := by
  unfold Expr.mapBy
  split_ifs
  · exact h
  · cases e with
    | const n => trivial
    | _ => exact ⟨h, hden, hq rfl⟩

theorem NonnegQuotients.scaled (h : e.NonnegQuotients part extent) (c : Int) :
    (e.scaled c).NonnegQuotients part extent :=
  h.mapBy Int.one_pos fun _ hden => absurd rfl hden

theorem NonnegQuotients.ceilBy (h : e.NonnegQuotients part extent)
    (h0 : e.asConst = none → 0 ≤ e.value part extent) (den : Int) :
    (Analysis.ceilBy e den).NonnegQuotients part extent := by
  refine h.mapBy (lt_max_of_lt_right Int.one_pos) fun hconst _ => ?_
  have := h0 hconst
  simpa using this

theorem value_clampNonneg (part : Int) (extent : DataId → Int) (e : Expr) :
    0 ≤ e.clampNonneg.value part extent := by
  cases e with
  | const n => exact le_max_right n 0
  | _ => exact le_max_right _ 0

end Building

end Geometry.Expr

namespace Analysis

open StencilTiling.Geometry

/-! ### Coordinates -/

theorem keptByBuilding_nonnegQuotients (part : Int) (extents : DataId → Int) :
    KeptByBuilding (Expr.NonnegQuotients part extents) where
  plus := Expr.NonnegQuotients.plus
  minus := Expr.NonnegQuotients.minus
  atMost := Expr.NonnegQuotients.atMost
  clampNonneg := Expr.NonnegQuotients.clampNonneg
  scaled c hx := hx.scaled c
  ceilBy den hx := hx.clampNonneg.ceilBy (fun _ => Expr.value_clampNonneg _ _ _) den

theorem nonnegQuotients_axisOf (d : DataItem) (tile : Tile) (producer : Option Node) (plan : Plan)
    (dim : Nat) {part : Int} {extents : DataId → Int} (hextents : ∀ i, 0 ≤ extents i) :
    (axisOf d tile producer plan dim).MadeOf (Expr.NonnegQuotients part extents) := by
  have hextent : (extentExpr d dim).NonnegQuotients part extents ∧
      ((extentExpr d dim).asConst = none → 0 ≤ (extentExpr d dim).value part extents) := by
    unfold extentExpr
    split
    · exact ⟨trivial, fun h => by cases h⟩
    · exact ⟨trivial, fun _ => hextents d.id⟩
  constructor
  case extent => exact hextent.1
  case grains => exact hextent.1.ceilBy hextent.2 _
  case lo => trivial
  case hi => trivial
  case pos =>
    dsimp only [axisOf]
    split_ifs
    · trivial
    · exact Expr.NonnegQuotients.scaled (e := .partIndex) trivial _
  case slice =>
    dsimp only [axisOf]
    split_ifs
    · exact hextent.1.ceilBy hextent.2 _
    · trivial

/-- The coordinates of an item divide nothing negative. -/
theorem coordinates_nonnegQuotients {k : Kernel} {d : DataItem} {plan : Plan} {table : Table}
    (h : coordinates k d plan = .ok table) {entry : Key × Expr} (he : entry ∈ table.entries)
    {part : Int} {extents : DataId → Int} (hextents : ∀ i, 0 ≤ extents i) :
    entry.2.NonnegQuotients part extents := by
  unfold coordinates at h
  split_ifs at h
  · obtain rfl := pure_eq_ok.mp h
    cases he
  · split at h
    · cases h
    · obtain rfl := pure_eq_ok.mp h
      rw [Table.entries_ofFn] at he
      obtain ⟨key, -, rfl⟩ := List.mem_map.mp he
      exact (nonnegQuotients_axisOf d _ _ plan key.dim hextents).entry
        (keptByBuilding_nonnegQuotients part extents) _ _

/-! ### Geometries of an analysis -/

/-- The geometry on record, if there is one, is that of some item under some plan. -/
def GeometryResolved (d : DataItem) : Prop :=
  ∀ table ∈ d.note.geometry, ∃ k item plan, coordinates k item plan = .ok table

theorem GeometryResolved.of_kept {d d' : DataItem} (h : GeometryResolved d)
    (hd : d'.note.geometry = none ∨ d'.note.geometry = d.note.geometry) : GeometryResolved d' := by
  intro table ht
  rcases hd with hd | hd
  · rw [hd] at ht
    cases ht
  · exact h table (hd ▸ ht)

/-- The pass leaves no other geometries, however it ends. -/
def Maintains {α : Type} (pass : Pass α) : Prop :=
  ∀ k : Kernel, (∀ d ∈ k.data, GeometryResolved d) → ∀ d ∈ (pass k).2.data, GeometryResolved d

theorem Maintains.bind {α β : Type} {x : Pass α} {f : α → Pass β} (hx : Maintains x)
    (hf : ∀ a, Maintains (f a)) : Maintains (x >>= f) :=
  Preserves.bind hx hf

/-- A step that keeps or drops the geometry of its item. -/
theorem maintains_revise {α : Type} {step : Kernel → α → Except AnalysisError (DataId × DataItem)}
    (hstep : ∀ k a d item', step k a = .ok (d, item') → ∃ item, k.data[d]? = some item ∧
      (item'.note.geometry = none ∨ item'.note.geometry = item.note.geometry)) (l : List α) :
    Maintains (revise step l) := by
  intro k hk
  refine revise_forall (fun k a d item' hk hok => ?_) hk
  obtain ⟨item, hget, hkept⟩ := hstep k a d item' hok
  exact (hk item (List.mem_of_getElem? hget)).of_kept hkept

theorem maintains_analyzeTiles (order : List NodeId) : Maintains (analyzeTiles order) := by
  intro k hk
  unfold analyzeTiles
  dsimp only
  split
  · exact hk
  · refine maintains_revise (fun k entry d item' h => ?_) _ k hk
    obtain ⟨-, item, hget, -, rfl⟩ := recordTile_eq_ok h
    exact ⟨item, hget, .inr rfl⟩

theorem maintains_assignCycles (order : List NodeId) (scan : ScanOrder) :
    Maintains (assignCycles order scan) := by
  refine Maintains.bind (fun _ hk => hk) fun k => ?_
  refine Maintains.bind (maintains_revise (fun k i d item' h => ?_) _) fun _ => ?_
  · obtain ⟨-, item, hget, rfl⟩ := scheduleInput_eq_ok h
    exact ⟨item, hget, .inr rfl⟩
  · refine Maintains.bind (maintains_revise (fun k i d item' h => ?_) _) fun _ => fun _ hk => hk
    obtain ⟨n, -, h⟩ := bind_eq_ok.mp h
    obtain ⟨cycle, -, h⟩ := bind_eq_ok.mp h
    obtain ⟨item, hitem, h⟩ := bind_eq_ok.mp h
    obtain ⟨rfl, hget, hset⟩ := record_eq_ok hitem h
    obtain ⟨-, rfl⟩ := scheduleAt_eq_ok.mp hset
    exact ⟨item, hget, .inr rfl⟩

theorem maintains_assignAccess (mode : Granularity) (scan : ScanOrder) :
    Maintains (assignAccess mode scan) := by
  refine Maintains.bind (fun _ hk => hk) fun k => maintains_revise (fun k i d item' h => ?_) _
  obtain ⟨-, item, access, hget, -, hset⟩ := chooseAccess_eq_ok h
  obtain ⟨geometry, hkept, rfl⟩ := assignAccess_eq_ok hset
  exact ⟨item, hget, hkept⟩

theorem maintains_sizeSlots (mode : Granularity) (scan : ScanOrder) :
    Maintains (sizeSlots mode scan) := by
  refine Maintains.bind (fun _ hk => hk) fun k => maintains_revise (fun k i d item' h => ?_) _
  obtain ⟨-, item, slots, hget, -, -, rfl⟩ := sizeItem_eq_ok h
  exact ⟨item, hget, .inl rfl⟩

theorem maintains_promoteRings : Maintains promoteRings := by
  refine Maintains.bind (fun _ hk => hk) fun k => maintains_revise (fun k i d item' h => ?_) _
  obtain ⟨-, item, hget, hset⟩ := promote_eq_ok h
  obtain ⟨geometry, hkept, rfl⟩ := assignAccess_eq_ok hset
  exact ⟨item, hget, hkept⟩

theorem maintains_resolveGeometry (plan : Plan) : Maintains (resolveGeometry plan) := by
  refine Maintains.bind (fun _ hk => hk) fun k => fun k hk => ?_
  refine revise_forall (fun k i d item' hk h => ?_) hk
  obtain ⟨-, item, table, -, htable, rfl⟩ := resolveItem_eq_ok h
  intro table' ht
  obtain rfl : table = table' := Option.some.inj ht
  exact ⟨k, item, plan, htable⟩

/-- The annotations start from nothing. -/
theorem annotate_geometryResolved (config : TilingConfig) (k : Kernel) :
    ∀ d ∈ (annotate config k).2.data, GeometryResolved d := by
  have hreset : ∀ d ∈ k.reset.data, GeometryResolved d := by
    intro d hd
    obtain ⟨d', -, rfl⟩ := List.mem_map.mp hd
    rintro table ⟨⟩
  -- reading the kernel, checks and parameters leave the items alone
  have hkept {α : Type} {pass : Pass α} (h : ∀ k, (pass k).2.data = k.data) : Maintains pass :=
    fun k hk => by rwa [h k]
  unfold annotate
  rw [run_bind_of_ok (show (modify Kernel.reset : Pass Unit) k = (.ok (), k.reset) from rfl)]
  refine (hkept fun _ => rfl).bind (fun _ => (hkept fun _ => rfl).bind fun _ =>
    (hkept fun _ => rfl).bind fun _ => (hkept fun _ => rfl).bind fun _ =>
      (hkept fun _ => rfl).bind fun order => ?_) k.reset hreset
  exact (maintains_analyzeTiles order).bind fun _ =>
    (maintains_assignCycles order config.scan).bind fun _ =>
      (maintains_assignAccess config.mode config.scan).bind fun _ =>
        (maintains_sizeSlots config.mode config.scan).bind fun _ =>
          maintains_promoteRings.bind fun _ => hkept fun _ => rfl

/-- Whatever its outcome, an analysis leaves no geometry but coordinates. -/
theorem analyze_geometryResolved (k : Kernel) (device : Device) (config : TilingConfig)
    (diag : Diagnostics) : ∀ d ∈ (analyze k device config diag).kernel.data, GeometryResolved d := by
  have hann := annotate_geometryResolved config k
  unfold analyze
  split
  · next heq => rwa [heq] at hann
  · next heq =>
    rw [heq] at hann
    split
    · exact hann
    · exact hann
    · next plan check _ _ =>
      have hgeom := maintains_resolveGeometry plan _ hann
      split
      · next heq => rwa [heq] at hgeom
      · next heq => rwa [heq] at hgeom

/-- The text of an expression reads as a C expression whose value is that of the
expression, wherever denominators are positive and nothing negative is divided; and this is
so in every geometry that an analysis leaves, for all parts and all extents that are not
negative. -/
theorem emitted_coordinates_compute :
    (∀ (e : Expr) (part : Int) (extents : DataId → Int) (name : Leaf → String) (env : String → Int),
      e.NonnegQuotients part extents →
      (∀ l ∈ e.leaves, Code.isOperand (name l) = true ∧
        (Code.Reading.ofName (name l)).eval env = l.value part extents) →
      ∃ t, Code.parse (e.render name) = some t ∧ Code.Reads (e.render name) t ∧
        t.eval env = e.value part extents ∧
        (e.InWord part extents → t.eval env = e.eval part extents)) ∧
    ∀ (k : Kernel) (device : Device) (config : TilingConfig) (diag : Diagnostics),
      ∀ d ∈ (analyze k device config diag).kernel.data, ∀ table ∈ d.note.geometry,
        ∀ entry ∈ table.entries, ∀ (part : Int) (extents : DataId → Int), 0 ≤ part →
          (∀ i, 0 ≤ extents i) → entry.2.NonnegQuotients part extents := by
  refine ⟨fun e part extents name env hq hnames => ?_,
    fun k device config diag d hd table ht entry he part extents _ hextents => ?_⟩
  · have hgrouped := Expr.grouped_toCode fun l hl => (hnames l hl).1
    have hreads := Code.Expr.reads_print (hgrouped.of_primary .sum)
    have hvalue : (e.toCode name).reading.eval env = e.value part extents := by
      rw [Code.Expr.eval_reading]
      exact Expr.eval_toCode hq fun l hl => (hnames l hl).2
    exact ⟨_, hreads.parse_eq, hreads, hvalue, fun hword => hvalue.trans (Expr.eval_eq_value hword).symm⟩
  · obtain ⟨k', item, plan, htable⟩ := analyze_geometryResolved k device config diag d hd table ht
    exact coordinates_nonnegQuotients htable he hextents

/-- The blocks of the last part of a doubled image of 19 pixels. -/
theorem emitted_coordinates_rescaled :
    ∃ d ∈ rescaled.kernel.data, ∃ table ∈ d.note.geometry, ∃ entry ∈ table.entries,
      entry.1 = ⟨0, .sliceSize, .block⟩ ∧
      entry.2.render (Code.leafName rescaled.kernel 0) =
        "(((max(min(6,(n-((((kg_part0)*3))*2))),0))+1)/2)" ∧
      ∃ t, Code.parse "(((max(min(6,(n-((((kg_part0)*3))*2))),0))+1)/2)" = some t ∧
        t.eval (fun x => if x = "n" then 19 else 3) = 1 := by
  have hfacts : ∃ d ∈ rescaled.kernel.data[3]?, ∃ table ∈ d.note.geometry, ∃ entry ∈ table.entries,
      entry.1 = ⟨0, .sliceSize, .block⟩ ∧ entry.2.value 3 (fun _ => 19) = 1 ∧
      entry.2.render (Code.leafName rescaled.kernel 0) =
        "(((max(min(6,(n-((((kg_part0)*3))*2))),0))+1)/2)" ∧
      ∀ l ∈ entry.2.leaves, Code.isOperand (Code.leafName rescaled.kernel 0 l) = true ∧
        (Code.Reading.ofName (Code.leafName rescaled.kernel 0 l)).eval
          (fun x => if x = "n" then 19 else 3) = l.value 3 (fun _ => 19) := by decide +kernel
  obtain ⟨d, hd, table, ht, entry, he, hkey, hvalue, htext, hnames⟩ := hfacts
  obtain ⟨hcompute, hquotients⟩ := emitted_coordinates_compute
  have hmem := List.mem_of_getElem? hd
  have hq := hquotients rescaling { units := 4 } { mode := .workGroupSlicing } (.new 5 0) d
    (by rwa [analyze_rescaling]) table ht entry he 3 (fun _ => 19) (by decide) fun _ => by decide
  obtain ⟨t, hparse, -, heval, -⟩ := hcompute entry.2 3 (fun _ => 19) _ _ hq hnames
  rw [htext] at hparse
  exact ⟨d, hmem, table, ht, entry, he, hkey, htext, t, hparse, heval.trans hvalue⟩

end Analysis

end StencilTiling
