import StencilTiling.Analysis.AccessChoice
import StencilTiling.Analysis.Slots
import StencilTiling.Proofs.Analysis.Cycles

/-! What the passes after the cycles record: an access type for every item, which in
the tiled modes is that of a buffer, and as many slots as the readers of the item keep
alive. Rings change the access type and nothing else. -/

namespace StencilTiling.Analysis

open Arith

/-! ### Views -/

/-- An item without the annotations that passes after the cycles write. -/
def cycleView (d : DataItem) : DataItem :=
  { d with note := { tile := d.note.tile, pattern := { cycle := d.note.pattern.cycle } } }

/-- An item before its slots are sized. -/
def accessView (d : DataItem) : DataItem × Bool := (cycleView d, d.note.pattern.access.isBuffered)

/-- An item whose access type may still become that of a ring. -/
def slotView (d : DataItem) : DataItem × Bool × Nat × Stage :=
  (cycleView d, d.note.pattern.access.isBuffered, d.note.pattern.slots, d.note.stage)

theorem Keeps.of_cycleView {k k' : Kernel} (h : Keeps cycleView k k') : Keeps tileView k k' :=
  h.comp tileView

theorem Keeps.of_accessView {k k' : Kernel} (h : Keeps accessView k k') : Keeps cycleView k k' :=
  h.comp Prod.fst

theorem Keeps.of_slotView {k k' : Kernel} (h : Keeps slotView k k') : Keeps cycleView k k' :=
  h.comp Prod.fst

theorem cycleAt_of_keeps {k k' : Kernel} (hk : Keeps cycleView k k') : cycleAt k' = cycleAt k := by
  funext i
  have := congrArg (fun l => (l[i]?).bind DataItem.cycle) hk.data
  simp only [List.getElem?_map, Option.bind_map, Function.comp_def, cycleView, DataItem.cycle] at this
  exact congrArg (·.getD 0) this

theorem pipelineOf_of_keeps {k k' : Kernel} (hk : Keeps cycleView k k') :
    pipelineOf k' = pipelineOf k := by
  funext order
  have hcycle : k'.nodes.map (cycleOf k' order) = k.nodes.map (cycleOf k order) := by
    rw [hk.nodes]
    refine List.map_congr_left fun n _ => ?_
    have := congrFun (cycleAt_of_keeps hk) n.output
    simp only [cycleAt] at this
    rw [cycleOf, cycleOf, this]
  simp only [pipelineOf, hcycle]

theorem grainAt_of_keeps {k k' : Kernel} (hk : Keeps tileView k k') : grainAt k' = grainAt k := by
  funext dim i
  rw [grainAt, grainAt, tileAt_of_keeps hk]

/-- Passes that leave the cycles alone keep their equations. -/
theorem Cycled.of_keeps {k k' : Kernel} {dim : Nat} (hc : Cycled k dim) (hk : Keeps cycleView k k') :
    Cycled k' dim := by
  have hcycle := cycleAt_of_keeps hk
  refine ⟨fun {i d'} hd' => ?_, fun {i d'} hd' hr => ?_, fun {m n} hn => ?_⟩
  · obtain ⟨d, hd, hview⟩ := hk.exists_item hd'
    rw [hcycle, ← hc.cycle_eq hd]
    exact congrArg (·.note.pattern.cycle) hview
  · obtain ⟨d, hd, hview⟩ := hk.exists_item hd'
    rw [hcycle]
    exact hc.input_cycle hd ((congrArg (·.role) hview).symm.trans hr)
  · rw [hcycle, hc.node_cycle (hk.nodes ▸ hn), cycleAfterReads_congr hk.of_cycleView]
    · exact fun e _ => congrFun hcycle e.source
    · exact fun c _ => congrFun hcycle c

/-! ### Slots in numbers -/

/-- Lines of its source between the cycle of the source and that of the reader of an edge, with
those the reader looks back at. -/
def linesAlive (k : Kernel) (dim : Nat) (e : Edge) : Int :=
  match k.nodes[e.target]? with
  | some n => grainAt k dim e.source * ((cycleAt k n.output : Int) - cycleAt k e.source + 1) -
      e.read.first dim
  | none => 0

/-- The most of the given lines that a buffer holds at once: those its readers keep alive, or a
grain without readers, two for what the kernel returns, and one in any case. -/
def mostLines (k : Kernel) (dim : Nat) (d : DataItem) (kept : Edge → Int) (double : Int) : Int :=
  let slots := (((k.usersOf d).map kept).max?).getD (grainAt k dim d.id)
  max (if d.isOutput then max slots double else slots) 1

/-- Lines that the buffer of an item has to hold. -/
def slotsNeeded (k : Kernel) (dim : Nat) (d : DataItem) : Int :=
  mostLines k dim d (fun e => max (linesAlive k dim e) 1) (2 * grainAt k dim d.id)

/-- Lines that it is given, as counted in words. -/
def slotsCounted (k : Kernel) (dim : Nat) (d : DataItem) : Int :=
  mostLines k dim d (fun e => max (wrap64 (linesAlive k dim e)) 1) (mulWord 2 (grainAt k dim d.id))

/-- The lines that are counted are words. -/
structure LinesFit (k : Kernel) (dim : Nat) : Prop where
  alive : ∀ e ∈ k.edges, FitsWord (linesAlive k dim e)
  double : ∀ d ∈ k.iterativeData, d.isOutput = true → FitsWord (2 * grainAt k dim d.id)

instance (k : Kernel) (dim : Nat) : Decidable (LinesFit k dim) :=
  decidable_of_iff ((∀ e ∈ k.edges, FitsWord (linesAlive k dim e)) ∧
    ∀ d ∈ k.iterativeData, d.isOutput = true → FitsWord (2 * grainAt k dim d.id))
    ⟨fun h => ⟨h.1, h.2⟩, fun h => ⟨h.1, h.2⟩⟩

/-- No lag, no cycle and no slot count is cut to 32 bits, and the lines are counted in words. -/
structure CountsFit (k : Kernel) (dim : Nat) : Prop where
  cycles : CyclesFit k dim
  lines : LinesFit k dim
  slots : ∀ d ∈ k.iterativeData, slotsNeeded k dim d < 0x100000000

instance (k : Kernel) (dim : Nat) : Decidable (CountsFit k dim) :=
  decidable_of_iff (CyclesFit k dim ∧ LinesFit k dim ∧
    ∀ d ∈ k.iterativeData, slotsNeeded k dim d < 0x100000000)
    ⟨fun h => ⟨h.1, h.2.1, h.2.2⟩, fun h => ⟨h.1, h.2, h.3⟩⟩

theorem one_le_slotsNeeded (k : Kernel) (dim : Nat) (d : DataItem) : 1 ≤ slotsNeeded k dim d :=
  le_max_right _ _

/-- Lines that are words are counted as they are. -/
theorem slotsCounted_eq {k : Kernel} (h : k.WellFormed) {dim : Nat} (hl : LinesFit k dim) {i : DataId}
    {d : DataItem} (hd : k.data[i]? = some d) (hi : d.iterative = true) :
    slotsCounted k dim d = slotsNeeded k dim d := by
  have hkept : (k.usersOf d).map (fun e => max (wrap64 (linesAlive k dim e)) 1) =
      (k.usersOf d).map (fun e => max (linesAlive k dim e) 1) :=
    List.map_congr_left fun e he => by
      rw [wrap64_of_fits (hl.alive e ((h.mem_usersOf_iff hd).mp he).1)]
  rw [slotsCounted, slotsNeeded, mostLines, mostLines, hkept]
  split_ifs with hout
  · rw [mulWord_of_fits (hl.double d (Kernel.mem_iterativeData_iff.mpr ⟨_, hd, hi⟩) hout)]
  · rfl

section Keeps

variable {k k' : Kernel} (hk : Keeps cycleView k k')

include hk

theorem linesAlive_of_keeps : linesAlive k' = linesAlive k := by
  funext dim e
  rw [linesAlive, linesAlive, hk.nodes, cycleAt_of_keeps hk, grainAt_of_keeps hk.of_cycleView]

theorem mostLines_of_keeps {dim : Nat} {d d' : DataItem} (hd : cycleView d' = cycleView d) :
    mostLines k' dim d' = mostLines k dim d := by
  have husers : k'.usersOf d' = k.usersOf d := by
    rw [Kernel.usersOf, Kernel.usersOf, hk.edges, show d'.users = d.users from congrArg (·.users) hd]
  have hid : d'.id = d.id := congrArg (·.id) hd
  have hout : d'.isOutput = d.isOutput := congrArg (·.isOutput) hd
  funext kept double
  simp only [mostLines, husers, hid, hout, grainAt_of_keeps hk.of_cycleView]

theorem slotsNeeded_of_keeps {dim : Nat} {d d' : DataItem} (hd : cycleView d' = cycleView d) :
    slotsNeeded k' dim d' = slotsNeeded k dim d := by
  have hid : d'.id = d.id := congrArg (·.id) hd
  rw [slotsNeeded, slotsNeeded, mostLines_of_keeps hk hd, linesAlive_of_keeps hk,
    grainAt_of_keeps hk.of_cycleView, hid]

theorem slotsCounted_of_keeps {dim : Nat} {d d' : DataItem} (hd : cycleView d' = cycleView d) :
    slotsCounted k' dim d' = slotsCounted k dim d := by
  have hid : d'.id = d.id := congrArg (·.id) hd
  rw [slotsCounted, slotsCounted, mostLines_of_keeps hk hd, linesAlive_of_keeps hk,
    grainAt_of_keeps hk.of_cycleView, hid]

theorem CyclesFit.of_keeps {dim : Nat} (h : CyclesFit k dim) : CyclesFit k' dim := by
  intro e he
  have hahead : grainsAhead k' dim e = grainsAhead k dim e := by
    rw [grainsAhead, grainsAhead, hk.nodes, grainAt_of_keeps hk.of_cycleView]
  rw [hahead, cycleAt_of_keeps hk]
  exact h e (hk.edges ▸ he)

theorem LinesFit.of_keeps {dim : Nat} (h : LinesFit k dim) : LinesFit k' dim := by
  constructor
  case alive =>
    intro e he
    rw [linesAlive_of_keeps hk]
    exact h.alive e (hk.edges ▸ he)
  case double =>
    intro d' hd' hout
    obtain ⟨d, hd, hview⟩ := hk.exists_iterative (fun h => congrArg (·.iterative) h) hd'
    rw [grainAt_of_keeps hk.of_cycleView, show d'.id = d.id from congrArg (·.id) hview]
    exact h.double d hd ((congrArg (·.isOutput) hview).symm.trans hout)

theorem CountsFit.of_keeps {dim : Nat} (h : CountsFit k dim) : CountsFit k' dim := by
  refine ⟨h.cycles.of_keeps hk, h.lines.of_keeps hk, fun d' hd' => ?_⟩
  obtain ⟨d, hd, hview⟩ := hk.exists_iterative (fun h => congrArg (·.iterative) h) hd'
  rw [slotsNeeded_of_keeps hk hview]
  exact h.slots d hd

end Keeps

/-! ### Computing slots -/

section DataSlots

variable {k : Kernel} (ht : Tiled k) {dim : Nat} (hc : Cycled k dim) {i : DataId} {d : DataItem}
  (hd : k.data[i]? = some d) (hi : d.iterative = true)

include ht hc hd in
theorem edgeSlots_eq_ok (scanDim : Nat) {e : Edge} (he : e ∈ k.usersOf d) :
    edgeSlots k (grainAt k scanDim i) (cycleAt k i) scanDim e =
      .ok (max (wrap64 (linesAlive k scanDim e)) 1) := by
  obtain ⟨hmem, rfl⟩ := (ht.wellFormed.mem_usersOf_iff hd).mp he
  obtain ⟨n, hn⟩ := ht.wellFormed.exists_target hmem
  obtain ⟨o, ho⟩ := ht.wellFormed.exists_output hn
  rw [edgeSlots, Kernel.node_eq_ok.mpr hn]
  show (k.item n.output >>= _) = _
  rw [Kernel.item_eq_ok.mpr ho, linesAlive, hn]
  show Except.ok _ = _
  rw [hc.cycle_eq ho, Option.getD_some, consumerSlots]

include ht hc hd hi in
/-- In the tiled modes an image has the slots that are counted for it, cut to 32 bits. -/
theorem dataSlots_eq_ok {mode : Granularity} (hm : mode.isTiled = true) (scan : ScanOrder) :
    dataSlots k mode scan d = .ok (wrap32 (slotsCounted k (scan.scanDim k.rank) d)) := by
  have hmode : ¬ (d.isControl = true ∨ mode.isWholeImage = true) := by
    simpa [DataItem.isControl, hi, Granularity.isTiled] using hm
  have hneeds : (k.usersOf d).mapM
      (edgeSlots k (grainAt k (scan.scanDim k.rank) i) (cycleAt k i) (scan.scanDim k.rank)) =
      .ok ((k.usersOf d).map fun e => max (wrap64 (linesAlive k (scan.scanDim k.rank) e)) 1) :=
    mapM_eq_ok.mpr (List.forall₂_map_right_iff.mpr (List.forall₂_same.mpr fun e he =>
      edgeSlots_eq_ok ht hc hd _ he))
  have hcycle : d.cycle.getD 0 = cycleAt k i := by rw [hc.cycle_eq hd, Option.getD_some]
  rw [dataSlots, if_neg hmode, (ht.tileAt_eq hd hi).1, ht.valid.rank_eq hd hi, hcycle]
  show (ofFault ((k.usersOf d).mapM
    (edgeSlots k (grainAt k (scan.scanDim k.rank) i) (cycleAt k i) (scan.scanDim k.rank))) >>= _) = _
  rw [hneeds, slotsCounted, mostLines, ht.wellFormed.data_id hd]
  rfl

include ht hc hd in
/-- Without a count that is cut every item gets its slots; a whole image needs none. -/
theorem dataSlots_pos {mode : Granularity} (hfit : mode.isTiled = true → CountsFit k dim)
    (scan : ScanOrder) (hdim : dim = scan.scanDim k.rank) : ∃ slots, dataSlots k mode scan d = .ok slots ∧ 1 ≤ slots := by
  by_cases hmode : d.isControl = true ∨ mode.isWholeImage = true
  · exact ⟨1, if_pos hmode, le_rfl⟩
  · obtain ⟨hcontrol, hwhole⟩ := not_or.mp hmode
    have hi : d.iterative = true := by simpa [DataItem.isControl] using hcontrol
    have htiled : mode.isTiled = true := by simpa [Granularity.isTiled] using hwhole
    refine ⟨_, dataSlots_eq_ok ht hc hd hi htiled scan, ?_⟩
    have hslots := (hfit htiled).slots d (Kernel.mem_iterativeData_iff.mpr ⟨_, hd, hi⟩)
    have hone := one_le_slotsNeeded k dim d
    have := wrap32_of_lt (by omega) hslots
    rw [← hdim, slotsCounted_eq ht.wellFormed (hfit htiled).lines hd hi]
    omega

end DataSlots

/-- Slots depend on the tiles and the cycles. -/
theorem dataSlots_congr {k k' : Kernel} (hk : Keeps cycleView k k') {d d' : DataItem}
    (hd : cycleView d' = cycleView d) (mode : Granularity) (scan : ScanOrder) :
    dataSlots k' mode scan d' = dataSlots k mode scan d := by
  have husers : k'.usersOf d' = k.usersOf d := by
    rw [Kernel.usersOf, Kernel.usersOf, hk.edges, show d'.users = d.users from congrArg (·.users) hd]
  have hedge : edgeSlots k' = edgeSlots k := by
    funext grain produced scanDim e
    unfold edgeSlots
    rw [Kernel.node, Kernel.node, hk.nodes]
    refine congrArg (Kernel.fetch k.nodes e.target >>= ·) (funext fun n => ?_)
    have hcycle := congrArg (fun l => (l[n.output]?).map DataItem.cycle) hk.data
    simp only [List.getElem?_map, Option.map_map, Function.comp_def, cycleView, DataItem.cycle]
      at hcycle
    unfold Kernel.item Kernel.fetch
    cases h : k.data[n.output]? with
    | none =>
      rw [h, Option.map_none, Option.map_eq_none_iff] at hcycle
      rw [hcycle]
    | some o =>
      rw [h, Option.map_some] at hcycle
      obtain ⟨o', ho', heq⟩ := Option.map_eq_some_iff.mp hcycle
      rw [ho']
      show Except.ok _ = Except.ok _
      rw [DataItem.cycle, heq]
      rfl
  have hcontrol : d'.isControl = d.isControl := congrArg (·.isControl) hd
  have htile : d'.note.tile = d.note.tile := congrArg (·.note.tile) hd
  have hrank : d'.rank = d.rank := congrArg (·.rank) hd
  have hcycle : d'.cycle = d.cycle := congrArg (·.cycle) hd
  have hout : d'.isOutput = d.isOutput := congrArg (·.isOutput) hd
  have hname : d'.name = d.name := congrArg (·.name) hd
  simp only [dataSlots, hcontrol, htile, hrank, hcycle, hout, hname, hk.name, husers, hedge]

/-! ### Access types -/

/-- Buffered are the images of the tiled modes. -/
theorem isBuffered_selectAccess {d : DataItem} {mode : Granularity} {scan : ScanOrder}
    {access : Access} (h : selectAccess d mode scan = some access) :
    access.isBuffered = (d.iterative && mode.isTiled) := by
  unfold selectAccess at h
  by_cases hcontrol : d.isControl = true
  · have hi : d.iterative = false := by simpa [DataItem.isControl] using hcontrol
    rw [if_pos hcontrol] at h
    rw [← Option.some.inj h, hi]
    rfl
  have hi : d.iterative = true := by simpa [DataItem.isControl] using hcontrol
  rw [if_neg hcontrol] at h
  rw [hi, Bool.true_and, Granularity.isTiled]
  by_cases hwhole : mode.isWholeImage = true
  · rw [if_pos hwhole] at h
    rw [← Option.some.inj h, hwhole]
    split_ifs <;> rfl
  rw [if_neg hwhole] at h
  rw [Bool.eq_false_iff.mpr hwhole]
  split_ifs at h
  · rw [← Option.some.inj h]
    rfl
  · obtain ⟨tile, -, rfl⟩ := Option.map_eq_some_iff.mp h
    split_ifs
    · rfl
    · split <;> rfl

theorem exists_selectAccess {k : Kernel} (ht : Tiled k) {i : DataId} {d : DataItem}
    (hd : k.data[i]? = some d) (mode : Granularity) (scan : ScanOrder) :
    ∃ access, selectAccess d mode scan = some access := by
  unfold selectAccess
  split_ifs with hcontrol
  · exact ⟨_, rfl⟩
  · exact ⟨_, rfl⟩
  · exact ⟨_, rfl⟩
  · exact ⟨_, rfl⟩
  · have hi : d.iterative = true := by simpa [DataItem.isControl] using hcontrol
    rw [(ht.tileAt_eq hd hi).1]
    exact ⟨_, rfl⟩

theorem chooseAccess_eq_ok {mode : Granularity} {scan : ScanOrder} {k : Kernel} {i d : DataId}
    {item' : DataItem} (h : chooseAccess mode scan k i = .ok (d, item')) :
    d = i ∧ ∃ item access, k.data[d]? = some item ∧ selectAccess item mode scan = some access ∧
      item.assignAccess access = .ok item' := by
  obtain ⟨item, hitem, h⟩ := bind_eq_ok.mp h
  split at h
  · cases h
  · next access haccess =>
    obtain ⟨rfl, hget, hset⟩ := record_eq_ok hitem h
    exact ⟨rfl, item, access, hget, haccess, hset⟩

theorem revises_chooseAccess (mode : Granularity) (scan : ScanOrder) :
    Revises (chooseAccess mode scan) cycleView id := by
  intro k i d item' h
  obtain ⟨hd, item, access, hget, -, hset⟩ := chooseAccess_eq_ok h
  obtain ⟨geometry, -, rfl⟩ := assignAccess_eq_ok hset
  exact ⟨hd, item, hget, rfl⟩

theorem nodup_ids {k : Kernel} (h : k.WellFormed) : ((k.data.map DataItem.id).map id).Nodup := by
  rw [List.map_id, h.data_ids]
  exact List.nodup_range

theorem mem_ids {k : Kernel} (h : k.WellFormed) {i : DataId} {d : DataItem} (hd : k.data[i]? = some d) :
    i ∈ k.data.map DataItem.id := by
  rw [h.data_ids, List.mem_range]
  exact (List.getElem?_eq_some_iff.mp hd).1

theorem exists_item_of_mem_ids {k : Kernel} (h : k.WellFormed) {i : DataId}
    (hi : i ∈ k.data.map DataItem.id) : ∃ d, k.data[i]? = some d := by
  rw [h.data_ids, List.mem_range] at hi
  exact ⟨_, List.getElem?_eq_getElem hi⟩

/-- Every scheduled item gets its access type. -/
theorem assignAccess_pass {k : Kernel} (ht : Tiled k) (hs : ∀ d ∈ k.data, d.note.stage = .scheduled)
    (mode : Granularity) (scan : ScanOrder) :
    ∃ k', assignAccess mode scan k = (.ok (), k') ∧ Keeps cycleView k k' ∧
      ∀ d ∈ k'.data, d.note.stage = .patternAssigned ∧
        d.note.pattern.access.isBuffered = (d.iterative && mode.isTiled) := by
  have hstep := revises_chooseAccess mode scan
  obtain ⟨k', hrun⟩ := hstep.complete (nodup_ids ht.wellFormed) (k := k) fun i hi k₁ _ hkey => by
    obtain ⟨d, hd⟩ := exists_item_of_mem_ids ht.wellFormed hi
    obtain ⟨access, haccess⟩ := exists_selectAccess ht hd mode scan
    have hstage : d.note.stage ≠ .unscheduled := by
      rw [hs d (List.mem_of_getElem? hd)]
      decide
    obtain ⟨d', hd'⟩ := assignAccess_of_scheduled hstage access
    refine ⟨(i, d'), bind_eq_ok.mpr ⟨d, item_of_getElem? (hkey.trans hd), ?_⟩⟩
    rw [haccess]
    exact record_of_ok hd' _
  have hkeeps := hstep.respects.keeps hrun
  refine ⟨k', hrun, hkeeps, fun d' hd' => ?_⟩
  obtain ⟨i, hi⟩ := List.mem_iff_getElem?.mp hd'
  obtain ⟨d, hd, -⟩ := hkeeps.exists_item hi
  obtain ⟨k₁, item', -, hkey, hok, hend⟩ :=
    hstep.result hrun (nodup_ids ht.wellFormed) (mem_ids ht.wellFormed hd)
  obtain rfl : d' = item' := Option.some.inj (hi.symm.trans hend)
  obtain ⟨-, item, access, hget, haccess, hset⟩ := chooseAccess_eq_ok hok
  obtain rfl : d = item := Option.some.inj (hd.symm.trans (hkey.symm.trans hget))
  obtain ⟨geometry, -, rfl⟩ := assignAccess_eq_ok hset
  exact ⟨if_pos (.inl (hs d (List.mem_of_getElem? hd))), isBuffered_selectAccess haccess⟩

/-! ### Sizing buffers -/

theorem sizeItem_eq_ok {mode : Granularity} {scan : ScanOrder} {k : Kernel} {i d : DataId}
    {item' : DataItem} (h : sizeItem mode scan k i = .ok (d, item')) :
    d = i ∧ ∃ item slots, k.data[d]? = some item ∧ dataSlots k mode scan item = .ok slots ∧
      1 ≤ slots ∧ item' = slotSized item slots := by
  obtain ⟨item, hitem, h⟩ := bind_eq_ok.mp h
  obtain ⟨slots, hslots, h⟩ := bind_eq_ok.mp h
  obtain ⟨rfl, hget, hset⟩ := record_eq_ok hitem h
  obtain ⟨-, hpos, rfl⟩ := sizeSlots_eq_ok.mp hset
  exact ⟨rfl, item, slots, hget, hslots, hpos, rfl⟩

theorem revises_sizeItem (mode : Granularity) (scan : ScanOrder) :
    Revises (sizeItem mode scan) accessView id := by
  intro k i d item' h
  obtain ⟨hd, item, slots, hget, -, -, rfl⟩ := sizeItem_eq_ok h
  exact ⟨hd, item, hget, rfl⟩

/-- The slots are on record, and there is at least one. -/
def SlotsRecorded (k : Kernel) (mode : Granularity) (scan : ScanOrder) (d : DataItem) : Prop :=
  dataSlots k mode scan d = .ok d.note.pattern.slots ∧ 1 ≤ d.note.pattern.slots

theorem sizeSlots_pass {k k' : Kernel} (h : k.WellFormed) {mode : Granularity} {scan : ScanOrder}
    (hrun : sizeSlots mode scan k = (.ok (), k')) :
    ∀ d ∈ k'.data, d.note.stage = .slotSized ∧ SlotsRecorded k' mode scan d := by
  have hstep := revises_sizeItem mode scan
  have hkeeps := hstep.respects.keeps hrun
  intro d' hd'
  obtain ⟨i, hi⟩ := List.mem_iff_getElem?.mp hd'
  obtain ⟨d, hd, -⟩ := hkeeps.exists_item hi
  obtain ⟨k₁, item', hk₁, hkey, hok, hend⟩ := hstep.result hrun (nodup_ids h) (mem_ids h hd)
  obtain rfl : d' = item' := Option.some.inj (hi.symm.trans hend)
  obtain ⟨-, item, slots, -, hslots, hpos, rfl⟩ := sizeItem_eq_ok hok
  have hback : Keeps cycleView k₁ k' := hk₁.of_accessView.symm.trans hkeeps.of_accessView
  refine ⟨rfl, ?_, hpos⟩
  exact (dataSlots_congr hback (d := item) rfl mode scan).trans hslots

/-- Without a count that is cut every item gets its slots. -/
theorem sizeSlots_complete {k : Kernel} (ht : Tiled k) {scan : ScanOrder}
    (hc : Cycled k (scan.scanDim k.rank)) {mode : Granularity}
    (hfit : mode.isTiled = true → CountsFit k (scan.scanDim k.rank))
    (hs : ∀ d ∈ k.data, d.note.stage = .patternAssigned) :
    ∃ k', sizeSlots mode scan k = (.ok (), k') := by
  refine (revises_sizeItem mode scan).complete (nodup_ids ht.wellFormed) fun i hi k₁ hk hkey => ?_
  obtain ⟨d, hd⟩ := exists_item_of_mem_ids ht.wellFormed hi
  obtain ⟨slots, hslots, hpos⟩ := dataSlots_pos ht hc hd hfit scan rfl
  rw [← dataSlots_congr hk.of_accessView (d := d) rfl] at hslots
  refine ⟨(i, slotSized d slots), bind_eq_ok.mpr ⟨d, item_of_getElem? (hkey.trans hd), ?_⟩⟩
  refine bind_eq_ok.mpr ⟨slots, hslots, ?_⟩
  exact record_of_ok (sizeSlots_eq_ok.mpr ⟨.inl (hs d (List.mem_of_getElem? hd)), hpos, rfl⟩) _

/-! ### Rings -/

/-- The items to promote with their new access types. -/
def ringEntries (k : Kernel) : List (DataId × Access) :=
  k.data.filterMap fun d => (ringOf? d).map fun access => (d.id, access)

/-- Only buffered items have a ring form, and it is buffered too. -/
theorem isBuffered_of_ringOf? {d : DataItem} {access : Access} (h : ringOf? d = some access) :
    d.note.pattern.access.isBuffered = true ∧ access.isBuffered = true := by
  unfold ringOf? at h
  split_ifs at h
  obtain ⟨hring, -⟩ := Option.filter_eq_some_iff.mp h
  cases ha : d.note.pattern.access <;> rw [ha] at hring <;> cases hring <;> exact ⟨rfl, rfl⟩

/-- Entries name different items. -/
theorem nodup_ringEntries {k : Kernel} (h : k.WellFormed) : ((ringEntries k).map Prod.fst).Nodup := by
  have hsub : ((ringEntries k).map Prod.fst).Sublist (k.data.map DataItem.id) := by
    have hkeys : (ringEntries k).map Prod.fst =
        k.data.filterMap fun d => (ringOf? d).map fun _ => d.id := by
      rw [ringEntries, List.map_filterMap]
      simp only [Option.map_map, Function.comp_def]
    rw [hkeys]
    generalize k.data = data
    induction data with
    | nil => exact .slnil
    | cons d rest ih =>
      rw [List.map_cons, List.filterMap_cons]
      cases ringOf? d with
      | none => exact ih.cons _
      | some access => exact ih.cons_cons _
  exact (h.data_ids ▸ List.nodup_range).sublist hsub

theorem mem_ringEntries {k : Kernel} (h : k.WellFormed) {entry : DataId × Access}
    (hentry : entry ∈ ringEntries k) :
    ∃ d, k.data[entry.1]? = some d ∧ ringOf? d = some entry.2 := by
  obtain ⟨d, hd, heq⟩ := List.mem_filterMap.mp hentry
  obtain ⟨access, haccess, rfl⟩ := Option.map_eq_some_iff.mp heq
  exact ⟨d, h.getElem?_id hd, haccess⟩

theorem promote_eq_ok {k : Kernel} {entry : DataId × Access} {d : DataId} {item' : DataItem}
    (h : promote k entry = .ok (d, item')) :
    d = entry.1 ∧ ∃ item, k.data[d]? = some item ∧ item.assignAccess entry.2 = .ok item' := by
  obtain ⟨item, hitem, h⟩ := bind_eq_ok.mp h
  obtain ⟨rfl, hget, hset⟩ := record_eq_ok hitem h
  exact ⟨rfl, item, hget, hset⟩

theorem revises_promote : Revises promote cycleView Prod.fst := by
  intro k entry d item' h
  obtain ⟨hd, item, hget, hset⟩ := promote_eq_ok h
  obtain ⟨geometry, -, rfl⟩ := assignAccess_eq_ok hset
  exact ⟨hd, item, hget, rfl⟩

/-- Sized items stay sized and buffered ones buffered. -/
theorem promoteRings_pass {k : Kernel} (h : k.WellFormed) (hs : ∀ d ∈ k.data, d.note.stage = .slotSized) :
    ∃ k', promoteRings k = (.ok (), k') ∧ Keeps slotView k k' := by
  have hnodup := nodup_ringEntries h
  obtain ⟨k', hrun⟩ := revises_promote.complete hnodup (k := k) fun entry hentry k₁ _ hkey => by
    obtain ⟨d, hd, -⟩ := mem_ringEntries h hentry
    have hstage : d.note.stage ≠ .unscheduled := by
      rw [hs d (List.mem_of_getElem? hd)]
      decide
    obtain ⟨d', hd'⟩ := assignAccess_of_scheduled hstage entry.2
    exact ⟨(entry.1, d'), bind_eq_ok.mpr ⟨d, item_of_getElem? (hkey.trans hd), record_of_ok hd' _⟩⟩
  have hkeeps := revises_promote.respects.keeps hrun
  refine ⟨k', hrun, hkeeps.name, hkeeps.edges, hkeeps.inputs, hkeeps.nodes,
    List.ext_getElem? fun i => ?_⟩
  rw [List.getElem?_map, List.getElem?_map]
  by_cases hi : i ∈ (ringEntries k).map Prod.fst
  · obtain ⟨entry, hentry, rfl⟩ := List.mem_map.mp hi
    obtain ⟨k₁, item', -, hkey, hok, hend⟩ := revises_promote.result hrun hnodup hentry
    obtain ⟨d, hd, hring⟩ := mem_ringEntries h hentry
    obtain ⟨-, item, hget, hset⟩ := promote_eq_ok hok
    obtain rfl : d = item := Option.some.inj (hd.symm.trans (hkey.symm.trans hget))
    obtain ⟨geometry, -, rfl⟩ := assignAccess_eq_ok hset
    obtain ⟨hold, hnew⟩ := isBuffered_of_ringOf? hring
    have hstage := hs d (List.mem_of_getElem? hd)
    rw [hend, hd, Option.map_some, Option.map_some]
    simp [slotView, cycleView, hold, hnew, hstage]
  · rw [revises_promote.frame hrun hi]

end StencilTiling.Analysis
