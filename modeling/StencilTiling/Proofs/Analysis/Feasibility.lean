import Mathlib.Algebra.Order.BigOperators.Group.List
import Mathlib.Algebra.Order.Ring.Nat
import StencilTiling.Analysis.Run
import StencilTiling.Proofs.Analysis.Budget
import StencilTiling.Proofs.Arith
import StencilTiling.Proofs.Kernel.Construction

/-! When a plan fits a device. Each of the checks is silent exactly if its condition holds:
types by a witness of each element type, memory by the sum of all images or of all buffers,
threads by the size of a work-group. A buffer that alone exceeds the memory is reported
instead of the sum, which it would exceed as well. The sums are those of machine words, so
they decide about the plan as long as the sizes themselves are words. -/

namespace StencilTiling.Analysis

open Arith

/-! ### The record -/

/-- The entry a finding leaves on the record. -/
def Finding.entry (kernel : String) : Finding → Diagnostic
  | shortfall s => ⟨.error, none, s.message kernel⟩
  | caution c => ⟨.warning, none, c.message kernel⟩

theorem Finding.severity_entry (kernel : String) (f : Finding) :
    (f.entry kernel).severity = .error ↔ f.isShortfall = true := by
  cases f <;> simp [entry, isShortfall]

theorem Finding.entries_report {kernel : String} {f : Finding} {diag diag' : Diagnostics}
    (h : f.report kernel diag = (.ok (), diag')) :
    diag'.entries = diag.entries ++ [f.entry kernel] := by
  cases f with
  | caution c =>
    obtain ⟨-, rfl⟩ := Prod.mk.inj h
    rfl
  | shortfall s =>
    obtain ⟨-, rfl⟩ := Prod.mk.inj h
    show (Diagnostics.error none (s.message kernel) diag).2.entries = _
    rw [Diagnostics.error_snd]
    rfl

theorem entries_reports {kernel : String} {fs : List Finding} {diag diag' : Diagnostics}
    (h : fs.forM (Finding.report kernel) diag = (.ok (), diag')) :
    diag'.entries = diag.entries ++ fs.map (Finding.entry kernel) := by
  induction fs generalizing diag with
  | nil =>
    obtain ⟨-, rfl⟩ := Prod.mk.inj h
    simp
  | cons f rest ih =>
    obtain ⟨_, diag₁, hreport, hrest⟩ := run_bind_eq_ok.mp h
    rw [ih hrest, Finding.entries_report hreport]
    simp

theorem entries_checkBudget {k : Kernel} {device : Device} {plan : Plan} {mode : Granularity}
    {scan : ScanOrder} {diag diag' : Diagnostics} {check : BudgetCheck}
    (h : checkBudget k device plan mode scan diag = (.ok check, diag')) :
    diag'.entries = diag.entries ++ (findings k device plan mode scan).map (Finding.entry k.name) := by
  obtain ⟨_, diag₁, hget, h⟩ := run_bind_eq_ok.mp h
  cases hget
  obtain ⟨_, diag₂, hreports, h⟩ := run_bind_eq_ok.mp h
  cases h
  exact entries_reports hreports

/-! ### Silent checks -/

/-- None of the findings makes the schedule unusable. -/
def Clear (fs : List Finding) : Prop := ∀ f ∈ fs, f.isShortfall = false

@[simp] theorem clear_nil : Clear [] := by simp [Clear]

@[simp] theorem clear_cons {f : Finding} {fs : List Finding} :
    Clear (f :: fs) ↔ f.isShortfall = false ∧ Clear fs := by
  simp [Clear]

@[simp] theorem clear_append {fs gs : List Finding} : Clear (fs ++ gs) ↔ Clear fs ∧ Clear gs := by
  simp [Clear, or_imp, forall_and]

/-- Every type has a witness, unless it was seen before. -/
theorem exists_typeWitness {data : List DataItem} {seen : List ElemType} {d : DataItem}
    (hd : d ∈ data) (hseen : d.elem ∉ seen) : ∃ w ∈ typeWitnesses data seen, w.elem = d.elem := by
  induction data generalizing seen with
  | nil => cases hd
  | cons a rest ih =>
    rw [typeWitnesses]
    split_ifs with ha
    · rcases List.mem_cons.mp hd with rfl | hd
      · exact absurd ha hseen
      · exact ih hd hseen
    · by_cases hsame : d.elem = a.elem
      · exact ⟨a, List.mem_cons_self, hsame.symm⟩
      · have hrest : d ∈ rest := (List.mem_cons.mp hd).resolve_left fun h => hsame (h ▸ rfl)
        obtain ⟨w, hw, helem⟩ := ih hrest (List.not_mem_cons_of_ne_of_not_mem hsame hseen)
        exact ⟨w, List.mem_cons_of_mem _ hw, helem⟩

theorem typeWitnesses_subset (data : List DataItem) (seen : List ElemType) :
    typeWitnesses data seen ⊆ data := by
  induction data generalizing seen with
  | nil => simp [typeWitnesses]
  | cons a rest ih =>
    rw [typeWitnesses]
    split_ifs
    · exact List.subset_cons_of_subset _ (ih _)
    · exact List.cons_subset_cons _ (ih _)

theorem clear_types {device : Device} {data : List DataItem} :
    Clear ((typeWitnesses data []).filterMap (typeFinding device)) ↔
      ∀ d ∈ data, device.support d.elem ≠ .no := by
  constructor
  · intro h d hd hno
    obtain ⟨w, hw, helem⟩ := exists_typeWitness hd (List.not_mem_nil (a := d.elem))
    have hfinding : typeFinding device w =
        some (.shortfall (.elemType w.elem w.name device.element.name)) := by
      rw [typeFinding, helem, hno]
    exact Bool.noConfusion (h _ (List.mem_filterMap.mpr ⟨w, hw, hfinding⟩))
  · intro h f hf
    obtain ⟨w, hw, hfinding⟩ := List.mem_filterMap.mp hf
    have hw := h w (typeWitnesses_subset data [] hw)
    unfold typeFinding at hfinding
    split at hfinding
    · next hno => exact absurd hno hw
    · exact Option.some.inj hfinding ▸ rfl
    · cases hfinding

theorem clear_images {k : Kernel} {memory : Option Nat} :
    Clear (imageFindings k memory) ↔ ∀ m ∈ memory, imageBytes k ≤ m := by
  cases memory with
  | none => simp [imageFindings]
  | some m =>
    rw [imageFindings]
    split_ifs with h <;> simp [Finding.isShortfall] <;> omega

/-- Buffers that fit one by one and together are no finding. -/
theorem bufferFindings_of_le {buffers : List BufferUsage} {memory : Nat}
    (hall : ∀ b ∈ buffers, b.bytes ≤ memory) (htotal : totalBytes buffers ≤ memory) :
    bufferFindings buffers (some memory) = [] := by
  have hnone : buffers.filter (memory < ·.bytes) = [] := List.filter_eq_nil_iff.mpr fun b hb => by
    have := hall b hb
    simp
    omega
  simp only [bufferFindings, hnone, if_neg (Nat.not_lt.mpr htotal)]

/-- The sum decides about the buffers that fit one by one. -/
theorem clear_buffers {buffers : List BufferUsage} {memory : Option Nat} :
    Clear (bufferFindings buffers memory) ↔
      ∀ m ∈ memory, (∀ b ∈ buffers, b.bytes ≤ m) ∧ totalBytes buffers ≤ m := by
  cases memory with
  | none => simp [bufferFindings, Finding.isShortfall]
  | some m =>
    refine ⟨fun h m' hm' => ?_, fun h => ?_⟩
    · obtain rfl := Option.some.inj hm'
      refine ⟨fun b hb => ?_, totalBytes_le h⟩
      by_contra hlarge
      have hmem : b ∈ buffers.filter (m < ·.bytes) :=
        List.mem_filter.mpr ⟨hb, decide_eq_true (Nat.lt_of_not_le hlarge)⟩
      rw [bufferFindings] at h
      split at h
      · next hnone => exact List.not_mem_nil (hnone ▸ hmem)
      · exact Bool.noConfusion (h _ (List.mem_map_of_mem hmem))
    · obtain ⟨hall, htotal⟩ := h m rfl
      rw [bufferFindings_of_le hall htotal]
      exact clear_nil

theorem clear_groups {device : Device} {plan : Plan} :
    Clear (groupFindings device plan) ↔ plan.workItems ≤ device.threadsPerUnit := by
  rw [groupFindings, clear_append]
  split_ifs <;> simp [Finding.isShortfall] <;> omega

/-- What the checks compare, in machine words. -/
structure Passes (k : Kernel) (device : Device) (plan : Plan) (mode : Granularity) (scan : ScanOrder) :
    Prop where
  types : ∀ d ∈ k.data, device.support d.elem ≠ .no
  images : mode.isWholeImage = true → ∀ m ∈ device.memory, imageBytes k ≤ m
  buffers : mode.isWholeImage = false → ∀ m ∈ device.localBudget,
    (∀ b ∈ buffersOf k plan scan, b.bytes ≤ m) ∧ totalBytes (buffersOf k plan scan) ≤ m
  threads : plan.workItems ≤ device.threadsPerUnit

theorem clear_findings {k : Kernel} {device : Device} {plan : Plan} {mode : Granularity}
    {scan : ScanOrder} : Clear (findings k device plan mode scan) ↔ Passes k device plan mode scan := by
  rw [findings, clear_append, clear_append, clear_types, clear_groups, budgetOf]
  cases hmode : mode.isWholeImage with
  | true =>
    simp only [if_true, clear_images]
    exact ⟨fun ⟨⟨htypes, hmemory⟩, hthreads⟩ => ⟨htypes, fun _ => hmemory, by simp [hmode], hthreads⟩,
      fun h => ⟨⟨h.types, h.images hmode⟩, h.threads⟩⟩
  | false =>
    simp only [Bool.false_eq_true, if_false, clear_buffers]
    exact ⟨fun ⟨⟨htypes, hmemory⟩, hthreads⟩ => ⟨htypes, by simp [hmode], fun _ => hmemory, hthreads⟩,
      fun h => ⟨⟨h.types, h.buffers hmode⟩, h.threads⟩⟩

/-! ### Sizes -/

/-- Elements of a shape with bounds along every dimension. -/
def elements? (shape : Shape) : Option Nat := (shape.mapM Extent.bound).map List.prod

/-- Bytes that the buffer of an item needs. -/
def neededBytes (d : DataItem) (plan : Plan) (scan : ScanOrder) : Nat :=
  if d.isControl ∨ d.note.pattern.access.isBuffered = false then 0
  else d.elemBytes * (slotPixels d plan scan).toNat * d.note.pattern.slots

/-- Bytes that the images with bounded shapes need. -/
def neededImageBytes (k : Kernel) : Nat :=
  (k.iterativeData.filterMap fun d => (elements? d.shape).map (· * d.elemBytes)).sum

/-- Bytes that all buffers need. -/
def neededLocalBytes (k : Kernel) (plan : Plan) (scan : ScanOrder) : Nat :=
  (k.data.map (neededBytes · plan scan)).sum

/-- The pixels of the slots are words, and so are the bytes of all buffers together. -/
structure BuffersFit (k : Kernel) (plan : Plan) (scan : ScanOrder) : Prop where
  pixels : ∀ d ∈ k.iterativeData, FitsWord (slotPixels d plan scan)
  bytes : neededLocalBytes k plan scan < 0x10000000000000000

instance (k : Kernel) (plan : Plan) (scan : ScanOrder) : Decidable (BuffersFit k plan scan) :=
  decidable_of_iff ((∀ d ∈ k.iterativeData, FitsWord (slotPixels d plan scan)) ∧
    neededLocalBytes k plan scan < 0x10000000000000000)
    ⟨fun h => ⟨h.1, h.2⟩, fun h => ⟨h.1, h.2⟩⟩

/-- The pixels of a slot depend on the partitions of a plan only. -/
theorem slotPixels_congr {plan plan' : Plan} (h : plan'.partitions = plan.partitions) (d : DataItem)
    (scan : ScanOrder) : slotPixels d plan' scan = slotPixels d plan scan := by
  simp only [slotPixels, Plan.sliceGrains, h]

theorem BuffersFit.of_partitions {k : Kernel} {plan plan' : Plan} {scan : ScanOrder}
    (hf : BuffersFit k plan scan) (h : plan'.partitions = plan.partitions) :
    BuffersFit k plan' scan := by
  obtain ⟨hpixels, hbytes⟩ := hf
  unfold neededLocalBytes neededBytes at hbytes
  constructor
  · intro d hd
    rw [slotPixels_congr h]
    exact hpixels d hd
  · unfold neededLocalBytes neededBytes
    simpa only [slotPixels_congr h] using hbytes

theorem imageBytes_eq {k : Kernel} (h : neededImageBytes k < 0x10000000000000000) :
    imageBytes k = neededImageBytes k := by
  have hterms : k.iterativeData.filterMap (fun d =>
      (Shape.boundedElements d.shape).map (· * d.elemBytes)) =
      k.iterativeData.filterMap fun d => (elements? d.shape).map (· * d.elemBytes) := by
    refine List.filterMap_congr fun d hd => ?_
    rw [Shape.boundedElements, elements?]
    cases hbounds : d.shape.mapM Extent.bound with
    | none => rfl
    | some bounds =>
      have hmem : bounds.prod * d.elemBytes ∈ k.iterativeData.filterMap fun d =>
          (elements? d.shape).map (· * d.elemBytes) :=
        List.mem_filterMap.mpr ⟨d, hd, by rw [elements?, hbounds]; rfl⟩
      have hle : bounds.prod * d.elemBytes ≤ neededImageBytes k := List.le_sum_of_mem hmem
      have hone := Nat.le_mul_of_pos_right bounds.prod (one_le_elemBytes d)
      simp only [Option.map_some]
      rw [← List.prod_eq_foldr, wrapSize_of_lt (by omega)]
  rw [imageBytes, hterms, ← List.sum_eq_foldr]
  exact wrapSize_of_lt h

section Buffers

variable {k : Kernel} {plan : Plan} {scan : ScanOrder}

theorem neededBytes_le {d : DataItem} (hd : d ∈ k.data) :
    neededBytes d plan scan ≤ neededLocalBytes k plan scan :=
  List.le_sum_of_mem (List.mem_map_of_mem hd)

variable (hf : BuffersFit k plan scan)

include hf

theorem bufferBytes_eq_needed {d : DataItem} (hd : d ∈ k.data) :
    bufferBytes d plan scan = neededBytes d plan scan := by
  have hlt := (neededBytes_le hd).trans_lt hf.bytes
  unfold bufferBytes neededBytes at *
  split_ifs at * with hnone
  · rfl
  · have hiter : d.iterative = true := by
      simp only [not_or, DataItem.isControl] at hnone
      simpa using hnone.1
    have hmax (x : Int) : (max x 0).toNat = x.toNat := by omega
    dsimp only
    rw [wrap64_of_fits (hf.pixels d (List.mem_filter.mpr ⟨hd, hiter⟩)), hmax,
      wrapSize_of_lt hlt]

theorem sum_bufferBytes :
    (k.data.map (bufferBytes · plan scan)).sum = neededLocalBytes k plan scan :=
  congrArg List.sum (List.map_congr_left fun _ hd => bufferBytes_eq_needed hf hd)

/-- Empty buffers do not count. -/
theorem sum_buffersOf :
    ((buffersOf k plan scan).map BufferUsage.bytes).sum = neededLocalBytes k plan scan := by
  have hfilter : ((buffersOf k plan scan).map BufferUsage.bytes).sum =
      (k.data.map (bufferBytes · plan scan)).sum := by
    unfold buffersOf
    induction k.data with
    | nil => rfl
    | cons d rest ih =>
      rw [List.map_cons, List.filter_cons, List.map_cons, List.sum_cons, ← ih]
      split_ifs with hpos
      · rfl
      · simp at hpos
        omega
  exact hfilter.trans (sum_bufferBytes hf)

theorem totalBytes_buffersOf : totalBytes (buffersOf k plan scan) = neededLocalBytes k plan scan := by
  rw [totalBytes, ← List.sum_eq_foldr, sum_buffersOf hf]
  exact wrapSize_of_lt hf.bytes

theorem bytes_le_totalBytes {b : BufferUsage} (hb : b ∈ buffersOf k plan scan) :
    b.bytes ≤ totalBytes (buffersOf k plan scan) := by
  obtain ⟨d, hd, rfl⟩ := List.mem_map.mp (List.mem_filter.mp hb).1
  rw [totalBytes_buffersOf hf]
  exact (bufferBytes_eq_needed hf hd).trans_le (neededBytes_le hd)

end Buffers

/-! ### Fitting -/

/-- The device can run the plan: it knows every element type, holds all bounded images or
all buffers of a group, and has a thread for every work-item. -/
structure Fits (k : Kernel) (device : Device) (plan : Plan) (mode : Granularity) (scan : ScanOrder) :
    Prop where
  types : ∀ d ∈ k.data, device.support d.elem ≠ .no
  images : mode.isWholeImage = true → ∀ m ∈ device.memory, neededImageBytes k ≤ m
  buffers : mode.isWholeImage = false → ∀ m ∈ device.localBudget, neededLocalBytes k plan scan ≤ m
  threads : plan.workItems ≤ device.unit.elements * device.element.hwThreads

/-- The sizes that a mode compares are words. -/
structure SizesFit (k : Kernel) (device : Device) (plan : Plan) (mode : Granularity)
    (scan : ScanOrder) : Prop where
  images : mode.isWholeImage = true → neededImageBytes k < 0x10000000000000000
  buffers : mode.isWholeImage = false → BuffersFit k plan scan
  threads : device.unit.elements * device.element.hwThreads < 0x10000000000000000

instance (k : Kernel) (device : Device) (plan : Plan) (mode : Granularity) (scan : ScanOrder) :
    Decidable (SizesFit k device plan mode scan) :=
  decidable_of_iff ((mode.isWholeImage = true → neededImageBytes k < 0x10000000000000000) ∧
    (mode.isWholeImage = false → BuffersFit k plan scan) ∧
    device.unit.elements * device.element.hwThreads < 0x10000000000000000)
    ⟨fun h => ⟨h.1, h.2.1, h.2.2⟩, fun h => ⟨h.1, h.2, h.3⟩⟩

/-- Sizes that are words are compared as they are. -/
theorem passes_iff_fits {k : Kernel} {device : Device} {plan : Plan} {mode : Granularity}
    {scan : ScanOrder} (hs : SizesFit k device plan mode scan) :
    Passes k device plan mode scan ↔ Fits k device plan mode scan := by
  have hthreads : device.threadsPerUnit = device.unit.elements * device.element.hwThreads :=
    wrapSize_of_lt hs.threads
  constructor
  · intro h
    refine ⟨h.types, fun hwhole m hm => ?_, fun htiled m hm => ?_, hthreads ▸ h.threads⟩
    · exact imageBytes_eq (hs.images hwhole) ▸ h.images hwhole m hm
    · exact totalBytes_buffersOf (hs.buffers htiled) ▸ (h.buffers htiled m hm).2
  · intro h
    refine ⟨h.types, fun hwhole m hm => ?_, fun htiled m hm => ?_, hthreads ▸ h.threads⟩
    · exact (imageBytes_eq (hs.images hwhole)).trans_le (h.images hwhole m hm)
    · have htotal := (totalBytes_buffersOf (hs.buffers htiled)).trans_le (h.buffers htiled m hm)
      exact ⟨fun b hb => (bytes_le_totalBytes (hs.buffers htiled) hb).trans htotal, htotal⟩

/-! ### Memory errors -/

/-- The finding is about a total of memory. -/
def Finding.isTotal : Finding → Bool
  | shortfall (.images ..) | shortfall (.buffers ..) => true
  | _ => false

/-- The buffer that a finding is about. -/
def Finding.oversized? : Finding → Option BufferUsage
  | shortfall (.buffer usage _) => some usage
  | _ => none

/-- The buffers that alone exceed the memory they are checked against. -/
def oversizedBuffers (k : Kernel) (device : Device) (plan : Plan) (mode : Granularity)
    (scan : ScanOrder) : List BufferUsage :=
  if mode.isWholeImage then []
  else match device.localBudget with
    | none => []
    | some memory => (buffersOf k plan scan).filter (memory < ·.bytes)

/-- The findings about memory: at most one total, or the oversized buffers one by one. -/
structure MemoryErrors (fs : List Finding) (oversized : List BufferUsage) : Prop where
  totals_le : fs.countP Finding.isTotal ≤ 1
  buffers_eq : fs.filterMap Finding.oversized? = oversized
  totals_eq : oversized ≠ [] → fs.countP Finding.isTotal = 0

/-- The finding is not about memory. -/
def Finding.OffMemory (f : Finding) : Prop := f.isTotal = false ∧ f.oversized? = none

/-- Findings about other things do not matter. -/
theorem MemoryErrors.pad {fs before after : List Finding} {oversized : List BufferUsage}
    (h : MemoryErrors fs oversized) (hbefore : ∀ f ∈ before, f.OffMemory)
    (hafter : ∀ f ∈ after, f.OffMemory) : MemoryErrors (before ++ fs ++ after) oversized := by
  have hcount {gs : List Finding} (hgs : ∀ f ∈ gs, f.OffMemory) : gs.countP Finding.isTotal = 0 :=
    List.countP_eq_zero.mpr fun f hf => by simp [(hgs f hf).1]
  have hnone {gs : List Finding} (hgs : ∀ f ∈ gs, f.OffMemory) :
      gs.filterMap Finding.oversized? = [] :=
    List.filterMap_eq_nil_iff.mpr fun f hf => (hgs f hf).2
  constructor
  · simpa [hcount hbefore, hcount hafter] using h.totals_le
  · simpa [hnone hbefore, hnone hafter] using h.buffers_eq
  · simpa [hcount hbefore, hcount hafter] using h.totals_eq

/-- A single finding is at most one total. -/
theorem MemoryErrors.of_length {fs : List Finding} (hlen : fs.length ≤ 1)
    (hnone : fs.filterMap Finding.oversized? = []) : MemoryErrors fs [] :=
  ⟨List.countP_le_length.trans hlen, hnone, by simp⟩

theorem memoryErrors_images (k : Kernel) (memory : Option Nat) :
    MemoryErrors (imageFindings k memory) [] := by
  cases memory with
  | none => exact .of_length (by simp [imageFindings]) rfl
  | some m =>
    rw [imageFindings]
    split_ifs <;> exact .of_length (by simp) rfl

theorem memoryErrors_buffers (buffers : List BufferUsage) (memory : Nat) :
    MemoryErrors (bufferFindings buffers (some memory)) (buffers.filter (memory < ·.bytes)) := by
  rw [bufferFindings]
  split
  · next hnone =>
    rw [hnone]
    split_ifs
    · cases largest? buffers <;> exact .of_length (by simp) rfl
    · exact .of_length (by simp) rfl
  · next oversized _ =>
    have hcount : (buffers.filter (memory < ·.bytes)).countP
        (Finding.isTotal ∘ fun b => .shortfall (.buffer b memory)) = 0 :=
      List.countP_eq_zero.mpr fun _ _ => by simp [Finding.isTotal]
    refine ⟨?_, ?_, fun _ => ?_⟩
    · rw [List.countP_map, hcount]
      exact Nat.zero_le 1
    · rw [List.filterMap_map]
      exact List.filterMap_some
    · rw [List.countP_map, hcount]

theorem offMemory_types (device : Device) (items : List DataItem) :
    ∀ f ∈ items.filterMap (typeFinding device), f.OffMemory := by
  intro f hf
  obtain ⟨d, -, hfinding⟩ := List.mem_filterMap.mp hf
  unfold typeFinding at hfinding
  split at hfinding
  · exact Option.some.inj hfinding ▸ ⟨rfl, rfl⟩
  · exact Option.some.inj hfinding ▸ ⟨rfl, rfl⟩
  · cases hfinding

theorem offMemory_groups (device : Device) (plan : Plan) :
    ∀ f ∈ groupFindings device plan, f.OffMemory := by
  intro f hf
  rw [groupFindings] at hf
  split_ifs at hf <;> simp at hf
  · rcases hf with rfl | rfl <;> exact ⟨rfl, rfl⟩
  · exact hf ▸ ⟨rfl, rfl⟩
  · exact hf ▸ ⟨rfl, rfl⟩

/-- Buffers that fit are no finding. -/
theorem offMemory_findings {k : Kernel} {device : Device} {plan : Plan} {mode : Granularity}
    {scan : ScanOrder} (hf : BuffersFit k plan scan) {memory : Nat} (hmode : mode.isWholeImage = false)
    (hm : device.localBudget = some memory) (h : neededLocalBytes k plan scan ≤ memory) :
    ∀ f ∈ findings k device plan mode scan, f.OffMemory := by
  rw [← totalBytes_buffersOf hf] at h
  have hnone : bufferFindings (buffersOf k plan scan) (budgetOf device mode) = [] := by
    rw [budgetOf, hmode, hm]
    exact bufferFindings_of_le (fun b hb => (bytes_le_totalBytes hf hb).trans h) h
  intro f hf
  rw [findings, hmode, hnone] at hf
  simp only [Bool.false_eq_true, if_false, List.append_nil, List.mem_append] at hf
  exact hf.elim (offMemory_types device _ f) (offMemory_groups device plan f)

theorem memoryErrors_findings (k : Kernel) (device : Device) (plan : Plan) (mode : Granularity)
    (scan : ScanOrder) :
    MemoryErrors (findings k device plan mode scan) (oversizedBuffers k device plan mode scan) := by
  refine MemoryErrors.pad ?_ (offMemory_types device _) (offMemory_groups device plan)
  unfold oversizedBuffers budgetOf
  split_ifs
  · exact memoryErrors_images k device.memory
  · cases device.localBudget with
    | none => exact .of_length (by simp [bufferFindings]) rfl
    | some memory => exact memoryErrors_buffers _ memory

/-- An image that is cloned in slices, annotated. -/
def cloning : Kernel :=
  (annotate { mode := .workGroupSlicing } (.ofDeclarations "cloning"
    [.input "a" .float [.fixed 256, .fixed 64], .output "o" .float [.fixed 256, .fixed 64],
      .node {} { name := "clone", output := 1, inputs := [⟨0, ⟨[⟨0, 0⟩, ⟨0, 0⟩]⟩, .undef⟩] }])).2

/-- Four slices of sixteen lines. -/
def fourSlices : Plan := ⟨2, 1, [.whole 256, .split 64 16], 4, 1⟩

def withLocalMemory (memory : Nat) : Device := { units := 4, unit := { memory := some memory } }

def checkedClone (memory : Nat) : Except AnalysisError BudgetCheck × Diagnostics :=
  checkBudget cloning (withLocalMemory memory) fourSlices .workGroupSlicing .rows (.new 5 0)

def cloneFindings (memory : Nat) : List Finding :=
  findings cloning (withLocalMemory memory) fourSlices .workGroupSlicing .rows

/-- Two images of 2³² by 2³² pixels, annotated as wholes. -/
def flooding : Kernel :=
  (annotate { mode := .wholeImage } (.ofDeclarations "flooding"
    [.input "a" .float [.fixed 0x100000000, .fixed 0x100000000],
      .output "o" .float [.fixed 0x100000000, .fixed 0x100000000],
      .node {} { name := "flood", output := 1, inputs := [⟨0, ⟨[⟨0, 0⟩, ⟨0, 0⟩]⟩, .undef⟩] }])).2

def withMemory (memory : Nat) : Device := { memory := some memory }

/-- The images as wholes, for a single work-group. -/
def wholePlan : Plan := ⟨2, 1, [.whole 0x100000000, .whole 0x100000000], 1, 1⟩

end StencilTiling.Analysis
