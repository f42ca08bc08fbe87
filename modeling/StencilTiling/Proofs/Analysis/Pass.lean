import Mathlib.Data.List.Nodup
import StencilTiling.Analysis.Error
import StencilTiling.Proofs.Checked
import StencilTiling.Proofs.Kernel.Construction

/-! What passes keep. A pass changes annotations item by item, so the graph stays,
and so does every view of the items that its steps respect. When the steps concern
different items, each of them finds its item untouched and its result is final. -/

namespace StencilTiling.Analysis

/-! ### Sequencing -/

theorem run_get (k : Kernel) : (get : Pass Kernel) k = (.ok k, k) := rfl

theorem run_modify (f : Kernel → Kernel) (k : Kernel) : (modify f : Pass Unit) k = (.ok (), f k) := rfl

/-- The pass keeps a property of the kernel, however it ends. -/
def Preserves {α : Type} (P : Kernel → Prop) (pass : Pass α) : Prop := ∀ k, P k → P (pass k).2

theorem Preserves.bind {α β : Type} {P : Kernel → Prop} {x : Pass α} {f : α → Pass β}
    (hx : Preserves P x) (hf : ∀ a, Preserves P (f a)) : Preserves P (x >>= f) := by
  intro k hk
  have hk' := hx k hk
  show P (ExceptT.bindCont f (x k).1 (x k).2).2
  cases (x k).1 with
  | error e => exact hk'
  | ok a => exact hf a _ hk'

/-! ### Views -/

/-- The kernels have the same graph, and the view of their items is the same. -/
structure Keeps {β : Type} (view : DataItem → β) (k k' : Kernel) : Prop where
  name : k'.name = k.name
  edges : k'.edges = k.edges
  inputs : k'.inputs = k.inputs
  nodes : k'.nodes = k.nodes
  data : k'.data.map view = k.data.map view

/-- An item without the annotations that passes after the tiles write. -/
def tileView (d : DataItem) : DataItem := { d with note := { tile := d.note.tile } }

namespace Keeps

variable {β : Type} {view : DataItem → β} {k k' k'' : Kernel}

theorem refl (k : Kernel) : Keeps view k k := ⟨rfl, rfl, rfl, rfl, rfl⟩

theorem trans (h : Keeps view k k') (h' : Keeps view k' k'') : Keeps view k k'' :=
  ⟨h'.name.trans h.name, h'.edges.trans h.edges, h'.inputs.trans h.inputs,
    h'.nodes.trans h.nodes, h'.data.trans h.data⟩

/-- A coarser view. -/
theorem comp {γ : Type} (h : Keeps view k k') (f : β → γ) : Keeps (f ∘ view) k k' :=
  ⟨h.name, h.edges, h.inputs, h.nodes, by simpa using congrArg (List.map f) h.data⟩

theorem sameGraph (h : Keeps DataItem.reset k k') : k.SameGraph k' :=
  ⟨h.name, h.edges, h.inputs, by rw [h.nodes], h.data⟩

theorem of_tileView (h : Keeps tileView k k') : Keeps DataItem.reset k k' := h.comp DataItem.reset

theorem exists_item (h : Keeps view k k') {i : DataId} {d' : DataItem} (hd : k'.data[i]? = some d') :
    ∃ d, k.data[i]? = some d ∧ view d' = view d := by
  obtain ⟨d, hd, hv⟩ := exists_getElem?_of_map_eq h.data hd
  exact ⟨d, hd, hv.symm⟩

/-- An iterative item comes from one that was kept, if the view shows that it is iterative. -/
theorem exists_iterative (h : Keeps view k k')
    (hshown : ∀ {d d' : DataItem}, view d' = view d → d'.iterative = d.iterative) {d' : DataItem}
    (hd' : d' ∈ k'.iterativeData) : ∃ d ∈ k.iterativeData, view d' = view d := by
  obtain ⟨i, hget, hi⟩ := Kernel.mem_iterativeData_iff.mp hd'
  obtain ⟨d, hd, hview⟩ := h.exists_item hget
  exact ⟨d, Kernel.mem_iterativeData_iff.mpr ⟨i, hd, (hshown hview).symm.trans hi⟩, hview⟩

theorem symm (h : Keeps view k k') : Keeps view k' k :=
  ⟨h.name.symm, h.edges.symm, h.inputs.symm, h.nodes.symm, h.data.symm⟩

/-- Replacing an item by one that looks the same. -/
theorem setItem {d : DataId} {item item' : DataItem} (hd : k.data[d]? = some item)
    (hv : view item' = view item) : Keeps view k (k.setItem d item') :=
  ⟨rfl, rfl, rfl, rfl, map_set_of_eq hd hv⟩

end Keeps

/-! ### Revising items -/

section Revise

variable {α β : Type} {step : Kernel → α → Except AnalysisError (DataId × DataItem)}
  {view : DataItem → β} {key : α → DataId}

/-- The step replaces an item by one that looks the same. -/
def Respects (step : Kernel → α → Except AnalysisError (DataId × DataItem)) (view : DataItem → β) :
    Prop :=
  ∀ k a d item', step k a = .ok (d, item') → ∃ item, k.data[d]? = some item ∧ view item' = view item

/-- The step replaces the item of its key by one that looks the same. -/
def Revises (step : Kernel → α → Except AnalysisError (DataId × DataItem)) (view : DataItem → β)
    (key : α → DataId) : Prop :=
  ∀ k a d item', step k a = .ok (d, item') →
    d = key a ∧ ∃ item, k.data[d]? = some item ∧ view item' = view item

theorem Revises.respects (hs : Revises step view key) : Respects step view :=
  fun k a d item' h => (hs k a d item' h).2

theorem Respects.keeps (hs : Respects step view) {l : List α} {k k' : Kernel}
    {r : Except AnalysisError Unit} (hrun : revise step l k = (r, k')) : Keeps view k k' := by
  induction l generalizing k with
  | nil =>
    obtain ⟨-, rfl⟩ := Prod.mk.inj hrun
    exact .refl k
  | cons a rest ih =>
    unfold revise at hrun
    split at hrun
    · obtain ⟨-, rfl⟩ := Prod.mk.inj hrun
      exact .refl k
    · next d item' hstep =>
      obtain ⟨item, hd, hv⟩ := hs _ _ _ _ hstep
      exact (Keeps.setItem hd hv).trans (ih hrun)

/-- Items that are not listed stay as they are. -/
theorem Revises.frame (hs : Revises step view key) {l : List α} {k k' : Kernel}
    {r : Except AnalysisError Unit} (hrun : revise step l k = (r, k')) {d : DataId}
    (hd : d ∉ l.map key) : k'.data[d]? = k.data[d]? := by
  induction l generalizing k with
  | nil =>
    obtain ⟨-, rfl⟩ := Prod.mk.inj hrun
    rfl
  | cons a rest ih =>
    rw [List.map_cons, List.mem_cons, not_or] at hd
    unfold revise at hrun
    split at hrun
    · obtain ⟨-, rfl⟩ := Prod.mk.inj hrun
      rfl
    · next d' item' hstep =>
      obtain ⟨rfl, -⟩ := hs _ _ _ _ hstep
      rw [ih hrun hd.2]
      exact List.getElem?_set_ne (Ne.symm hd.1)

/-- Of a completed run over different items, every step saw its item as it was at the
start and left it as it is at the end. -/
theorem Revises.result (hs : Revises step view key) {l : List α} {k k' : Kernel}
    (hrun : revise step l k = (.ok (), k')) (hnodup : (l.map key).Nodup) {a : α} (ha : a ∈ l) :
    ∃ k₁ item', Keeps view k k₁ ∧ k₁.data[key a]? = k.data[key a]? ∧
      step k₁ a = .ok (key a, item') ∧ k'.data[key a]? = some item' := by
  induction l generalizing k with
  | nil => cases ha
  | cons b rest ih =>
    obtain ⟨hb, hnodup⟩ := List.nodup_cons.mp (List.map_cons ▸ hnodup)
    unfold revise at hrun
    split at hrun
    · cases hrun
    · next d item' hstep =>
      obtain ⟨rfl, item, hd, hv⟩ := hs _ _ _ _ hstep
      rcases List.mem_cons.mp ha with rfl | ha
      · refine ⟨k, item', .refl k, rfl, hstep, ?_⟩
        rw [hs.frame hrun hb]
        exact List.getElem?_set_self (List.getElem?_eq_some_iff.mp hd).1
      · obtain ⟨k₁, item₁, hk, hkey, hstep₁, hend⟩ := ih hrun hnodup ha
        refine ⟨k₁, item₁, (Keeps.setItem hd hv).trans hk, hkey.trans ?_, hstep₁, hend⟩
        exact List.getElem?_set_ne (ne_of_mem_of_not_mem (List.mem_map_of_mem ha) hb).symm

/-- A run completes if each step succeeds wherever its item is untouched. -/
theorem Revises.complete (hs : Revises step view key) {l : List α} {k : Kernel}
    (hnodup : (l.map key).Nodup)
    (hok : ∀ a ∈ l, ∀ k₁, Keeps view k k₁ → k₁.data[key a]? = k.data[key a]? →
      ∃ r, step k₁ a = .ok r) :
    ∃ k', revise step l k = (.ok (), k') := by
  induction l generalizing k with
  | nil => exact ⟨k, rfl⟩
  | cons a rest ih =>
    obtain ⟨ha, hnodup⟩ := List.nodup_cons.mp (List.map_cons ▸ hnodup)
    obtain ⟨⟨d, item'⟩, hstep⟩ := hok a List.mem_cons_self k (.refl k) rfl
    obtain ⟨rfl, item, hd, hv⟩ := hs _ _ _ _ hstep
    simp only [revise, hstep]
    refine ih hnodup fun b hb k₁ hk hkey => ?_
    refine hok b (List.mem_cons_of_mem _ hb) k₁ ((Keeps.setItem hd hv).trans hk) (hkey.trans ?_)
    exact List.getElem?_set_ne (ne_of_mem_of_not_mem (List.mem_map_of_mem hb) ha).symm

/-- However a run over different items ends, it left an item as it was, or a step saw it so
and gave what there is at the end. -/
theorem Revises.cases (hs : Revises step view key) {l : List α} {k k' : Kernel}
    {r : Except AnalysisError Unit} (hrun : revise step l k = (r, k')) (hnodup : (l.map key).Nodup)
    {a : α} (ha : a ∈ l) :
    k'.data[key a]? = k.data[key a]? ∨
      ∃ k₁ item', Keeps view k k₁ ∧ step k₁ a = .ok (key a, item') ∧ k'.data[key a]? = some item' := by
  induction l generalizing k with
  | nil => cases ha
  | cons b rest ih =>
    obtain ⟨hb, hnodup⟩ := List.nodup_cons.mp (List.map_cons ▸ hnodup)
    unfold revise at hrun
    split at hrun
    · obtain ⟨-, rfl⟩ := Prod.mk.inj hrun
      exact .inl rfl
    · next d item' hstep =>
      obtain ⟨rfl, item, hd, hv⟩ := hs _ _ _ _ hstep
      rcases List.mem_cons.mp ha with rfl | ha
      · refine .inr ⟨k, item', .refl k, hstep, ?_⟩
        rw [hs.frame hrun hb]
        exact List.getElem?_set_self (List.getElem?_eq_some_iff.mp hd).1
      · refine (ih hrun hnodup ha).imp (fun h => h.trans ?_) fun ⟨k₁, item₁, hk, hstep₁, hend⟩ => ?_
        · exact List.getElem?_set_ne (ne_of_mem_of_not_mem (List.mem_map_of_mem ha) hb).symm
        · exact ⟨k₁, item₁, (Keeps.setItem hd hv).trans hk, hstep₁, hend⟩

/-- A run over different items fails at a step that saw its item as it was at the start. -/
theorem Revises.failure (hs : Revises step view key) {l : List α} {k k' : Kernel} {e : AnalysisError}
    (hrun : revise step l k = (.error e, k')) (hnodup : (l.map key).Nodup) :
    ∃ a ∈ l, ∃ k₁, Keeps view k k₁ ∧ k₁.data[key a]? = k.data[key a]? ∧ step k₁ a = .error e := by
  induction l generalizing k with
  | nil => cases hrun
  | cons a rest ih =>
    obtain ⟨ha, hnodup⟩ := List.nodup_cons.mp (List.map_cons ▸ hnodup)
    unfold revise at hrun
    split at hrun
    · next e' hstep =>
      obtain rfl : e' = e := Except.error.inj (congrArg Prod.fst hrun)
      exact ⟨a, List.mem_cons_self, k, .refl k, rfl, hstep⟩
    · next d item' hstep =>
      obtain ⟨rfl, item, hd, hv⟩ := hs _ _ _ _ hstep
      obtain ⟨b, hb, k₁, hk, hkey, hfails⟩ := ih hrun hnodup
      refine ⟨b, List.mem_cons_of_mem _ hb, k₁, (Keeps.setItem hd hv).trans hk, hkey.trans ?_, hfails⟩
      exact List.getElem?_set_ne (ne_of_mem_of_not_mem (List.mem_map_of_mem hb) ha).symm

/-- What each step establishes for the part of the list behind it holds of the whole list
at the end. -/
theorem revise_of_invariant {Inv : List α → Kernel → Prop} {l : List α} {k : Kernel}
    (hstep : ∀ done a rest k, l = done ++ a :: rest → Inv done k →
      ∃ d item, step k a = .ok (d, item) ∧ Inv (done ++ [a]) (k.setItem d item))
    (hk : Inv [] k) : ∃ k', revise step l k = (.ok (), k') ∧ Inv l k' := by
  suffices hrun : ∀ rest done k, l = done ++ rest → Inv done k →
      ∃ k', revise step rest k = (.ok (), k') ∧ Inv l k' from hrun l [] k rfl hk
  intro rest
  induction rest with
  | nil =>
    intro done k hl hinv
    rw [List.append_nil] at hl
    exact ⟨k, rfl, hl ▸ hinv⟩
  | cons a rest ih =>
    intro done k hl hinv
    obtain ⟨d, item, hok, hinv'⟩ := hstep done a rest k hl hinv
    simp only [revise, hok]
    exact ih (done ++ [a]) _ (by rw [hl, List.append_assoc, List.singleton_append]) hinv'

/-- A property that no replaced item touches is kept. -/
theorem preserves_revise {P : Kernel → Prop} (hP : ∀ k d item, P k → P (k.setItem d item))
    (l : List α) : Preserves P (revise step l) := by
  intro k hk
  induction l generalizing k with
  | nil => exact hk
  | cons a rest ih =>
    unfold revise
    split
    · exact hk
    · exact ih _ (hP _ _ _ hk)

/-- A run fails as one of its steps does. -/
theorem revise_failsOnly {P : AnalysisError → Prop} (hP : ∀ k a, FailsOnly P (step k a))
    (l : List α) (k : Kernel) : FailsOnly P (revise step l k).1 := by
  induction l generalizing k with
  | nil => exact failsOnly_ok ()
  | cons a rest ih =>
    unfold revise
    split
    · next e hstep =>
      rintro _ ⟨⟩
      exact hP k a e hstep
    · exact ih _

/-- A property of all items that every step keeps holds after a run, however it ends. -/
theorem revise_forall {P : DataItem → Prop}
    (hstep : ∀ k a d item', (∀ x ∈ k.data, P x) → step k a = .ok (d, item') → P item')
    {l : List α} {k : Kernel} (hk : ∀ x ∈ k.data, P x) : ∀ x ∈ (revise step l k).2.data, P x := by
  induction l generalizing k with
  | nil => exact hk
  | cons a rest ih =>
    unfold revise
    split
    · exact hk
    · next d item' hok =>
      refine ih fun x hx => ?_
      rcases List.mem_or_eq_of_mem_set hx with hx | rfl
      · exact hk x hx
      · exact hstep k a d x hk hok

end Revise

theorem item_of_getElem? {k : Kernel} {i : DataId} {item : DataItem} (h : k.data[i]? = some item) :
    ofFault (k.item i) = .ok item :=
  ofFault_eq_ok.mpr (Kernel.item_eq_ok.mpr h)

theorem record_of_ok {item' : DataItem} {x : Except KernelError DataItem} (hx : x = .ok item')
    (d : DataId) :
    (return (d, ← ofKernel x) : Except AnalysisError (DataId × DataItem)) = .ok (d, item') :=
  bind_eq_ok.mpr ⟨item', ofKernel_eq_ok.mpr hx, rfl⟩

/-- How steps end: the transition of an item goes under the key of the item. -/
theorem record_eq_ok {k : Kernel} {d d' : DataId} {item item' : DataItem}
    {x : Except KernelError DataItem} (hitem : ofFault (k.item d) = .ok item)
    (h : (return (d, ← ofKernel x) : Except AnalysisError (DataId × DataItem)) = .ok (d', item')) :
    d' = d ∧ k.data[d']? = some item ∧ x = .ok item' := by
  obtain ⟨item₁, hx, h⟩ := bind_eq_ok.mp h
  obtain ⟨rfl, rfl⟩ := Prod.mk.inj (pure_eq_ok.mp h)
  exact ⟨rfl, Kernel.item_eq_ok.mp (ofFault_eq_ok.mp hitem), ofKernel_eq_ok.mp hx⟩

/-- A transition changes nothing but the annotation. -/
theorem annotate_eq_ok {step : Annotation → String → Except KernelError Annotation} {d d' : DataItem} :
    d.annotate step = .ok d' ↔ ∃ note, step d.note d.name = .ok note ∧ d' = { d with note } := by
  simp only [DataItem.annotate, bind_eq_ok, pure_eq_ok, eq_comm (b := d')]

/-! ### Transitions -/

/-- An item with its cycle. -/
def scheduled (d : DataItem) (cycle : Nat) : DataItem :=
  { d with note := { d.note with
      stage := .scheduled, pattern := { d.note.pattern with cycle := some cycle } } }

/-- An item with its buffer slots. -/
def slotSized (d : DataItem) (slots : Nat) : DataItem :=
  { d with note := { d.note with
      stage := .slotSized, geometry := none, pattern := { d.note.pattern with slots } } }

/-- An item with its coordinates. -/
def withGeometry (d : DataItem) (table : Geometry.Table) : DataItem :=
  { d with note := { d.note with stage := .geometryResolved, geometry := some table } }

theorem scheduleAt_eq_ok {d d' : DataItem} {cycle : Nat} :
    d.scheduleAt cycle = .ok d' ↔ d.note.stage = .unscheduled ∧ d' = scheduled d cycle := by
  rw [DataItem.scheduleAt, annotate_eq_ok]
  unfold Annotation.scheduleAt
  split_ifs with hs
  · simp [hs, scheduled]
  · simp [hs]

/-- An access type is given as soon as there is a cycle. -/
theorem assignAccess_of_scheduled {d : DataItem} (hs : d.note.stage ≠ .unscheduled)
    (access : Access) : ∃ d', d.assignAccess access = .ok d' := by
  simp only [DataItem.assignAccess, annotate_eq_ok, Annotation.assignAccess]
  cases h : d.note.stage with
  | unscheduled => exact absurd h hs
  | _ => exact ⟨_, _, rfl, rfl⟩

/-- A new access type keeps the slots of an item that has them. -/
theorem assignAccess_eq_ok {d d' : DataItem} {access : Access} (h : d.assignAccess access = .ok d') :
    ∃ geometry, (geometry = none ∨ geometry = d.note.geometry) ∧ d' = { d with note := { d.note with
      stage := if d.note.stage = .scheduled ∨ d.note.stage = .patternAssigned
        then .patternAssigned else .slotSized
      geometry, pattern := { d.note.pattern with access } } } := by
  obtain ⟨note, hnote, rfl⟩ := annotate_eq_ok.mp h
  unfold Annotation.assignAccess at hnote
  split at hnote
  · cases hnote
  all_goals
    next hs =>
      rw [← Except.ok.inj hnote, hs]
      first
        | exact ⟨_, .inr rfl, rfl⟩
        | exact ⟨_, .inl rfl, rfl⟩

theorem sizeSlots_eq_ok {d d' : DataItem} {slots : Nat} : d.sizeSlots slots = .ok d' ↔
    (d.note.stage = .patternAssigned ∨ d.note.stage = .slotSized) ∧ 1 ≤ slots ∧
      d' = slotSized d slots := by
  simp only [DataItem.sizeSlots, annotate_eq_ok, Annotation.sizeSlots, Pattern.sizeSlots, bind_eq_ok,
    ensure_eq_ok, pure_eq_ok]
  constructor
  · rintro ⟨_, ⟨_, hstage, pattern, hpattern, rfl⟩, rfl⟩
    split_ifs at hpattern with hslots
    obtain rfl := Except.ok.inj hpattern
    exact ⟨hstage, hslots, rfl⟩
  · rintro ⟨hstage, hslots, rfl⟩
    exact ⟨_, ⟨(), hstage, _, if_pos hslots, rfl⟩, rfl⟩

theorem resolve_eq_ok {d d' : DataItem} {table : Geometry.Table} :
    d.resolve table = .ok d' ↔ d.note.stage = .slotSized ∧ d' = withGeometry d table := by
  rw [DataItem.resolve, annotate_eq_ok]
  unfold Annotation.resolve
  split_ifs with hs
  · simp [hs, withGeometry]
  · simp [hs]

end StencilTiling.Analysis
