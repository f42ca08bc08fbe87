import Mathlib.Data.Set.Finite.Lemmas
import Mathlib.Order.Lattice.Nat
import StencilTiling.Proofs.Analysis.LeastSchedule
import StencilTiling.Proofs.Kernel.Stages

/-! Cycles and slots as whole numbers of any size, and what is recorded of them. The exact
cycles are the least schedule, the exact slots of a buffer the most lines that it has to hold
under these cycles. Lags, cycles and slots are cut to 32 bits, so a recorded cycle may be smaller
than the exact one, but never larger. As long as the exact cycles are below 2³² they are
recorded, and the slots, if the lines are words, are recorded up to multiples of 2³²; a multiple
itself is refused. -/

namespace StencilTiling.Analysis

open Arith

/-! ### Exact numbers -/

/-- Numbers of lines that the buffer of an item has to hold at once: those between the cycle
of the item and that of a reader, with the lines the reader looks back at; a grain without
readers, and two for what the kernel returns; and one in any case. -/
inductive HoldsLines (k : Kernel) (dim : Nat) (cycle : DataId → Nat) (d : DataItem) : Int → Prop
  | one : HoldsLines k dim cycle d 1
  | reader {e : Edge} {n : Node} (edge : e ∈ k.edges) (source : e.source = d.id)
    (target : k.nodes[e.target]? = some n) :
    HoldsLines k dim cycle d
      (grainAt k dim d.id * ((cycle n.output : Int) - cycle d.id + 1) - e.read.first dim)
  | unread (unread : ∀ e ∈ k.edges, e.source ≠ d.id) : HoldsLines k dim cycle d (grainAt k dim d.id)
  | output (output : d.isOutput = true) : HoldsLines k dim cycle d (2 * grainAt k dim d.id)

/-- The cycles of the least schedule, and the slots that the buffers need under it. Whole
images and scalars have no buffer and count one slot. -/
structure ExactCounts (k : Kernel) (mode : Granularity) (dim : Nat) (cycle : DataId → Nat)
    (slots : DataId → Int) : Prop where
  least : IsLeast {c | Paces k dim (waitGrain k dim) c} cycle
  buffered : ∀ d ∈ k.data, d.iterative = true → mode.isTiled = true →
    IsGreatest {lines | HoldsLines k dim cycle d lines} (slots d.id)
  unbuffered : ∀ d ∈ k.data, d.iterative = false ∨ mode.isTiled = false → slots d.id = 1

theorem ExactCounts.one_le {k : Kernel} {mode : Granularity} {dim : Nat} {cycle : DataId → Nat}
    {slots : DataId → Int} (h : ExactCounts k mode dim cycle slots) {d : DataItem} (hd : d ∈ k.data) :
    1 ≤ slots d.id := by
  by_cases hbuffered : d.iterative = true ∧ mode.isTiled = true
  · exact (h.buffered d hd hbuffered.1 hbuffered.2).2 .one
  · rw [not_and_or, Bool.not_eq_true, Bool.not_eq_true] at hbuffered
    exact (h.unbuffered d hd hbuffered).ge

/-! ### Least schedules -/

/-- Where there is a schedule, there is a least one: all of them can be met at once. -/
theorem Paces.exists_least {k : Kernel} {dim : Nat} {grain : DataId → Int} {c₀ : DataId → Nat}
    (h : Paces k dim grain c₀) : ∃ cycle, IsLeast {c | Paces k dim grain c} cycle := by
  let at' (i : DataId) : Set Nat := (fun c => c i) '' {c | Paces k dim grain c}
  have hmem (i : DataId) : ∃ c, Paces k dim grain c ∧ c i = sInf (at' i) :=
    Nat.sInf_mem (s := at' i) ⟨c₀ i, c₀, h, rfl⟩
  have hle {c : DataId → Nat} (hc : Paces k dim grain c) (i : DataId) : sInf (at' i) ≤ c i :=
    Nat.sInf_le ⟨c, hc, rfl⟩
  refine ⟨fun i => sInf (at' i), ⟨fun n hn => ?_, fun e he n hn => ?_⟩, fun c hc i => hle hc i⟩
  · obtain ⟨c, hc, heq⟩ := hmem n.output
    exact heq ▸ hc.start n hn
  · obtain ⟨c, hc, heq⟩ := hmem n.output
    have hwait := hc.wait e he n hn
    have hsource := hle hc e.source
    rw [heq] at hwait
    omega

/-- What an item feeds comes after it. -/
theorem DataOrder.idxOf_lt {k : Kernel} {ds : List DataId} (ho : DataOrder k ds) {a b : DataId}
    (ha : a ∈ ds) (hab : Feeds k a b) : ds.idxOf a < ds.idxOf b := by
  by_contra hge
  rcases (Nat.le_of_not_lt hge).lt_or_eq with hlt | heq
  · have hpair := pair_sublist_of_idxOf_lt ha hlt
    exact (List.pairwise_iff_forall_sublist.mp ho.ordered hpair).2 hab
  · obtain rfl := (List.idxOf_inj ha).mp heq.symm
    exact ho.irrefl a hab

/-- The places in an order of the data, stretched by the longest wait, are a schedule. -/
theorem Tiled.exists_paces {k : Kernel} (ht : Tiled k) (dim : Nat) :
    ∃ c, Paces k dim (waitGrain k dim) c := by
  let wait (e : Edge) : Nat := (1 + grainsAhead k dim e).toNat
  obtain ⟨hone, hlongest⟩ := le_foldl_max wait k.edges 1
  set longest := k.edges.foldl (fun m e => max m (wait e)) 1
  obtain ⟨ds, ho⟩ := ht.ordered
  refine ⟨fun i => longest * (ds.idxOf i + 1), fun n hn => Nat.mul_pos hone (Nat.succ_pos _),
    fun e he n hn => ?_⟩
  have hfeeds : Feeds k e.source n.output := ⟨e, he, n, hn, rfl, rfl⟩
  have hlt := ho.idxOf_lt (ho.mem_of_feeds ht.wellFormed ht.valid hfeeds).1 hfeeds
  have hstretched : longest * (ds.idxOf e.source + 1) + longest ≤
      longest * (ds.idxOf n.output + 1) :=
    Nat.mul_le_mul_left longest (Nat.succ_le_succ hlt)
  have hwait : (1 + grainsAhead k dim e).toNat ≤ longest := hlongest e he
  rw [waitFor_eq hn]
  omega

/-- Where no cycle is cut the recorded cycles are the exact ones. -/
theorem Cycled.cycleAt_eq {k : Kernel} {dim : Nat} (ht : Tiled k) (hc : Cycled k dim)
    {cycle : DataId → Nat} (hleast : IsLeast {c | Paces k dim (waitGrain k dim) c} cycle)
    (hf : CyclesFit k dim) : cycleAt k = cycle := by
  funext i
  exact le_antisymm (hc.cycleAt_le ht hleast.1 i) (hleast.2 (hc.paces ht hf) i)

/-! ### Most lines -/

/-- Only finitely many counts come up. -/
theorem exists_isGreatest_holdsLines (k : Kernel) (dim : Nat) (cycle : DataId → Nat) (d : DataItem) :
    ∃ slots, IsGreatest {lines | HoldsLines k dim cycle d lines} slots := by
  let live (p : Edge × Node) : Int :=
    grainAt k dim d.id * ((cycle p.2.output : Int) - cycle d.id + 1) - p.1.read.first dim
  have hfinite : {lines | HoldsLines k dim cycle d lines}.Finite := by
    refine Set.Finite.subset (s := {1, grainAt k dim d.id, 2 * grainAt k dim d.id} ∪
      live '' {p | p ∈ k.edges ×ˢ k.nodes}) (.union (by simp) ((List.finite_toSet _).image live)) ?_
    rintro _ (_ | @⟨e, n, he, _, hn⟩ | _ | _)
    · simp
    · exact .inr ⟨(e, n), List.mem_product.mpr ⟨he, List.mem_of_getElem? hn⟩, rfl⟩
    · simp
    · simp
  obtain ⟨slots, hslots, hmax⟩ := Set.exists_max_image _ id hfinite ⟨1, .one⟩
  exact ⟨slots, hslots, fun lines hlines => hmax lines hlines⟩

theorem HoldsLines.max {k : Kernel} {dim : Nat} {cycle : DataId → Nat} {d : DataItem} {a b : Int}
    (ha : HoldsLines k dim cycle d a) (hb : HoldsLines k dim cycle d b) :
    HoldsLines k dim cycle d (max a b) := by
  rcases max_choice a b with h | h <;> rwa [h]

/-- Every count of lines that goes into the slots is a word. -/
def LinesInWord (k : Kernel) (dim : Nat) (cycle : DataId → Nat) : Prop :=
  ∀ d ∈ k.iterativeData, ∀ lines, HoldsLines k dim cycle d lines → FitsWord lines

/-- The lines under the recorded cycles are counted in words exactly if they are words. -/
theorem linesInWord_iff {k : Kernel} (ht : Tiled k) (dim : Nat) :
    LinesInWord k dim (cycleAt k) ↔ LinesFit k dim := by
  have hitem {d : DataItem} (hd : d ∈ k.iterativeData) : k.data[d.id]? = some d ∧ d.iterative = true :=
    ⟨ht.wellFormed.getElem?_id (List.mem_filter.mp hd).1, (List.mem_filter.mp hd).2⟩
  constructor
  · intro h
    refine ⟨fun e he => ?_, fun d hd hout => h d hd _ (.output hout)⟩
    obtain ⟨s, hs⟩ := ht.wellFormed.exists_source he
    obtain ⟨n, hn⟩ := ht.wellFormed.exists_target he
    have hid := ht.wellFormed.data_id hs
    have hmem : s ∈ k.iterativeData :=
      Kernel.mem_iterativeData_iff.mpr ⟨_, hs, ht.valid.source_iterative he hs⟩
    have hlines := h s hmem _ (.reader he hid.symm hn)
    rw [hid] at hlines
    rw [linesAlive, hn]
    exact hlines
  · rintro ⟨halive, hdouble⟩ d hd _ (_ | @⟨e, n, he, hs, hn⟩ | _ | hout)
    · decide
    · have hlines := halive e he
      rw [linesAlive, hn, hs] at hlines
      exact hlines
    · exact ht.fitsWord_grainAt (hitem hd).1 (hitem hd).2 dim
    · exact hdouble d hd hout

theorem linesAlive_eq {k : Kernel} {i : DataId} {e : Edge} (hs : e.source = i) {n : Node}
    (hn : k.nodes[e.target]? = some n) (dim : Nat) :
    linesAlive k dim e =
      grainAt k dim i * ((cycleAt k n.output : Int) - cycleAt k i + 1) - e.read.first dim := by
  rw [linesAlive, hn, ← hs]

/-- The most lines that the readers of an item keep alive, or a grain without readers. -/
theorem exists_linesRead {k : Kernel} (h : k.WellFormed) {d : DataItem} (hd : k.data[d.id]? = some d)
    (dim : Nat) :
    ∃ slots, (((k.usersOf d).map fun e => max (linesAlive k dim e) 1).max?).getD
        (grainAt k dim d.id) = slots ∧
      HoldsLines k dim (cycleAt k) d slots ∧ (∀ e ∈ k.usersOf d, linesAlive k dim e ≤ slots) ∧
      (k.usersOf d = [] → slots = grainAt k dim d.id) := by
  cases hmax : ((k.usersOf d).map fun e => max (linesAlive k dim e) 1).max? with
  | none =>
    have hnil := List.map_eq_nil_iff.mp (List.max?_eq_none_iff.mp hmax)
    refine ⟨_, rfl, .unread fun e he hs => ?_, by simp [hnil], fun _ => rfl⟩
    exact List.not_mem_nil (hnil ▸ (h.mem_usersOf_iff hd).mpr ⟨he, hs⟩)
  | some slots =>
    obtain ⟨hmem, hle⟩ := List.max?_eq_some_iff.mp hmax
    obtain ⟨e, he, rfl⟩ := List.mem_map.mp hmem
    obtain ⟨hedge, hs⟩ := (h.mem_usersOf_iff hd).mp he
    obtain ⟨n, hn⟩ := h.exists_target hedge
    refine ⟨_, rfl, ?_, fun e' he' => ?_, fun hnil => ?_⟩
    · rw [Option.getD_some, linesAlive_eq hs hn]
      exact .max (.reader hedge hs hn) .one
    · exact (le_max_left _ _).trans (hle _ (List.mem_map.mpr ⟨e', he', rfl⟩))
    · rw [hnil] at he
      cases he

/-- The count from the recorded cycles is the most lines under these cycles. -/
theorem isGreatest_slotsNeeded {k : Kernel} (h : k.WellFormed) {i : DataId} {d : DataItem}
    (hd : k.data[i]? = some d) (dim : Nat) :
    IsGreatest {lines | HoldsLines k dim (cycleAt k) d lines} (slotsNeeded k dim d) := by
  obtain rfl := h.data_id hd
  obtain ⟨slots, hslots, hholds, hbound, hunread⟩ := exists_linesRead h hd dim
  have hneeded : slotsNeeded k dim d =
      max (if d.isOutput then max slots (2 * grainAt k dim d.id) else slots) 1 := by
    rw [slotsNeeded, mostLines, hslots]
  constructor
  · show HoldsLines k dim (cycleAt k) d _
    rw [hneeded]
    split_ifs with hout
    · exact (hholds.max (.output hout)).max .one
    · exact hholds.max .one
  · have hle : slots ≤ slotsNeeded k dim d := by
      rw [hneeded]
      split_ifs <;> omega
    rintro lines hlines
    cases hlines with
    | one => exact one_le_slotsNeeded k dim d
    | reader he hs hn =>
      have halive := hbound _ ((h.mem_usersOf_iff hd).mpr ⟨he, hs⟩)
      rw [linesAlive_eq hs hn] at halive
      exact halive.trans hle
    | unread hno =>
      have hnil : k.usersOf d = [] := List.eq_nil_iff_forall_not_mem.mpr fun e he =>
        hno e ((h.mem_usersOf_iff hd).mp he).1 ((h.mem_usersOf_iff hd).mp he).2
      exact (hunread hnil).ge.trans hle
    | output hout =>
      rw [hneeded, if_pos hout]
      omega

/-! ### Recorded counts -/

/-- Slots of an item before they are cut. -/
def slotCount (k : Kernel) (config : TilingConfig) (d : DataItem) : Int :=
  if d.iterative && config.mode.isTiled then slotsCounted k (config.scan.scanDim k.rank) d else 1

theorem slotCount_of_keeps {k k' : Kernel} (hk : Keeps cycleView k k') (config : TilingConfig)
    {d d' : DataItem} (hd : cycleView d' = cycleView d) :
    slotCount k' config d' = slotCount k config d := by
  have hiter : d'.iterative = d.iterative := congrArg (·.iterative) hd
  have hrank : k'.rank = k.rank := hk.of_cycleView.of_tileView.sameGraph.rank_eq
  rw [slotCount, slotCount, hiter, hrank, slotsCounted_of_keeps hk hd]

theorem dataSlots_eq {config : TilingConfig} {k : Kernel} (ht : Tiled k)
    (hc : Cycled k (config.scan.scanDim k.rank)) {i : DataId} {d : DataItem}
    (hd : k.data[i]? = some d) :
    dataSlots k config.mode config.scan d = .ok (wrap32 (slotCount k config d)) := by
  cases hbuffered : d.iterative && config.mode.isTiled with
  | true =>
    obtain ⟨hi, hm⟩ := Bool.and_eq_true_iff.mp hbuffered
    rw [slotCount, hbuffered, if_pos rfl]
    exact dataSlots_eq_ok ht hc hd hi hm config.scan
  | false =>
    rw [slotCount, hbuffered, if_neg Bool.false_ne_true]
    refine if_pos ?_
    have hwhole := Bool.and_eq_false_iff.mp hbuffered
    simpa [DataItem.isControl, Granularity.isTiled] using hwhole

/-- What an analysis of a kernel without cycles leaves: all items have cycles, and the items
with slots have what is left of their count. An analysis that is refused found a count of which
nothing is left. -/
structure Counted (config : TilingConfig) (k : Kernel) (refused : Prop) : Prop where
  tiled : Tiled k
  cycled : Cycled k (config.scan.scanDim k.rank)
  slots : ∀ d ∈ k.data, .slotSized ≤ d.note.stage →
    d.note.pattern.slots = wrap32 (slotCount k config d)
  sized : ¬ refused → ∀ d ∈ k.data, .slotSized ≤ d.note.stage
  refused_iff : refused ↔ ∃ d ∈ k.data, wrap32 (slotCount k config d) = 0

/-- An item is sized unless nothing is left of its count. -/
theorem Prepared.sizeItem_eq_error {config : TilingConfig} {k k₁ : Kernel} (hp : Prepared config k)
    (hk₁ : Keeps cycleView k k₁) {i : DataId} {d : DataItem} (hd : k.data[i]? = some d)
    (hd₁ : k₁.data[i]? = some d) {e : AnalysisError}
    (h : sizeItem config.mode config.scan k₁ i = .error e) :
    e = .kernel .zeroSlots ∧ wrap32 (slotCount k config d) = 0 := by
  have hslots := dataSlots_eq hp.tiled hp.cycled hd
  rw [← dataSlots_congr hk₁ (d := d) rfl] at hslots
  have hsize : sizeItem config.mode config.scan k₁ i =
      (do return (i, ← ofKernel (d.sizeSlots (wrap32 (slotCount k config d))))) := by
    rw [sizeItem, item_of_getElem? hd₁]
    show (dataSlots k₁ config.mode config.scan d >>= _) = _
    rw [hslots]
    rfl
  rw [hsize] at h
  have hstage := hp.stage d (List.mem_of_getElem? hd)
  rcases Nat.eq_zero_or_pos (wrap32 (slotCount k config d)) with hzero | hpos
  · have hrefused : d.sizeSlots 0 = .error .zeroSlots := by
      rw [DataItem.sizeSlots, DataItem.annotate, Annotation.sizeSlots, hstage]
      rfl
    rw [hzero, hrefused] at h
    exact ⟨(Except.error.inj h).symm, hzero⟩
  · rw [record_of_ok (sizeSlots_eq_ok.mpr ⟨.inl hstage, hpos, rfl⟩)] at h
    cases h

/-- However the sizing ends, the items that it went through have what is left of their count. -/
theorem Prepared.counted {config : TilingConfig} {k k₁ : Kernel} (hp : Prepared config k)
    {r : Except AnalysisError Unit} (hrun : sizeSlots config.mode config.scan k = (r, k₁)) :
    Counted config k₁ (r ≠ .ok ()) ∧ (r = .ok () ∨ r = .error (.kernel .zeroSlots)) := by
  have hw := hp.tiled.wellFormed
  have hstep := revises_sizeItem config.mode config.scan
  have hk₁ := (hstep.respects.keeps hrun).of_accessView
  have hrank : k₁.rank = k.rank := hk₁.of_cycleView.of_tileView.sameGraph.rank_eq
  have hcases {i : DataId} {d₁ : DataItem} (hd₁ : k₁.data[i]? = some d₁) :
      d₁.note.stage = .patternAssigned ∨ d₁.note.stage = .slotSized ∧ 1 ≤ d₁.note.pattern.slots ∧
        d₁.note.pattern.slots = wrap32 (slotCount k₁ config d₁) := by
    obtain ⟨d, hd, -⟩ := hk₁.exists_item hd₁
    rcases hstep.cases hrun (nodup_ids hw) (mem_ids hw hd) with hend | ⟨k₂, item, hk₂, hok, hend⟩
    · exact .inl (hp.stage d₁ (List.mem_of_getElem? (hend.symm.trans hd₁)))
    · obtain rfl : d₁ = item := Option.some.inj (hd₁.symm.trans hend)
      obtain ⟨-, item, slots, hget, hslots, hpos, rfl⟩ := sizeItem_eq_ok hok
      refine .inr ⟨rfl, hpos, ?_⟩
      have hrank₂ : k₂.rank = k.rank := hk₂.of_accessView.of_cycleView.of_tileView.sameGraph.rank_eq
      have hcount := dataSlots_eq (hp.tiled.of_keeps hk₂.of_accessView.of_cycleView)
        (hrank₂ ▸ hp.cycled.of_keeps hk₂.of_accessView) hget
      have hview : cycleView (slotSized item slots) = cycleView item := rfl
      rw [slotCount_of_keeps (hk₂.of_accessView.symm.trans hk₁) config hview]
      exact Except.ok.inj (hslots.symm.trans hcount)
  have hsized (hr : r = .ok ()) {d : DataItem} (hd : d ∈ k₁.data) : d.note.stage = .slotSized :=
    (sizeSlots_pass hw (hr ▸ hrun) d hd).1
  have hfailed {e : AnalysisError} (hr : r = .error e) :
      e = .kernel .zeroSlots ∧ ∃ d ∈ k₁.data, wrap32 (slotCount k₁ config d) = 0 := by
    subst hr
    obtain ⟨i, hi, k₂, hk₂, hkey, herror⟩ := hstep.failure hrun (nodup_ids hw)
    obtain ⟨d, hd⟩ := exists_item_of_mem_ids hw hi
    obtain ⟨he, hzero⟩ := hp.sizeItem_eq_error hk₂.of_accessView hd (hkey.trans hd) herror
    obtain ⟨d₁, hd₁, hview⟩ := hk₁.symm.exists_item hd
    exact ⟨he, d₁, List.mem_of_getElem? hd₁, (slotCount_of_keeps hk₁ config hview.symm).symm ▸ hzero⟩
  refine ⟨⟨hp.tiled.of_keeps hk₁.of_cycleView, hrank ▸ hp.cycled.of_keeps hk₁, fun d hd hstage => ?_,
    fun hr d hd => ?_, fun hr => ?_, fun ⟨d, hd, hzero⟩ hr => ?_⟩, ?_⟩
  · obtain ⟨i, hget⟩ := List.mem_iff_getElem?.mp hd
    rcases hcases hget with hassigned | ⟨-, -, hslots⟩
    · rw [hassigned] at hstage
      exact absurd hstage (by decide)
    · exact hslots
  · rw [hsized (not_not.mp hr) hd]
    decide
  · cases r with
    | ok => exact absurd rfl hr
    | error e => exact (hfailed rfl).2
  · obtain ⟨i, hget⟩ := List.mem_iff_getElem?.mp hd
    have hstage := hsized hr hd
    rcases hcases hget with hassigned | ⟨-, hpos, hslots⟩
    · cases hassigned.symm.trans hstage
    · omega
  · cases r with
    | ok => exact .inl rfl
    | error e => exact .inr (congrArg Except.error (hfailed rfl).1)

/-- Passes that change no cycle and no slots keep the counts, as long as items stay sized. -/
theorem Counted.of_keeps {config : TilingConfig} {k k' : Kernel} (h : Counted config k False)
    (hk : Keeps cycleView k k')
    (hkept : ∀ (i : DataId) (d' : DataItem), k'.data[i]? = some d' → .slotSized ≤ d'.note.stage ∧
      ∃ d, k.data[i]? = some d ∧ cycleView d' = cycleView d ∧
        d'.note.pattern.slots = d.note.pattern.slots) :
    Counted config k' False := by
  have hrank : k'.rank = k.rank := hk.of_cycleView.of_tileView.sameGraph.rank_eq
  refine ⟨h.tiled.of_keeps hk.of_cycleView, hrank ▸ h.cycled.of_keeps hk, fun d' hd' _ => ?_,
    fun _ d' hd' => ?_, False.elim, fun ⟨d', hd', hzero⟩ => h.refused_iff.mpr ?_⟩
  · obtain ⟨i, hget⟩ := List.mem_iff_getElem?.mp hd'
    obtain ⟨-, d, hd, hview, hslots⟩ := hkept i d' hget
    have hmem := List.mem_of_getElem? hd
    rw [hslots, slotCount_of_keeps hk config hview]
    exact h.slots d hmem (h.sized id d hmem)
  · obtain ⟨i, hget⟩ := List.mem_iff_getElem?.mp hd'
    exact (hkept i d' hget).1
  · obtain ⟨i, hget⟩ := List.mem_iff_getElem?.mp hd'
    obtain ⟨-, d, hd, hview, -⟩ := hkept i d' hget
    exact ⟨d, List.mem_of_getElem? hd, slotCount_of_keeps hk config hview ▸ hzero⟩

section Analyze

variable {k : Kernel} (hk : k.WellFormed) (hv : k.validate = .ok ()) (ha : Acyclic k)
  {config : TilingConfig}

include hk hv ha

/-- A validated kernel without cycles is annotated, or nothing is left of a count. -/
theorem annotate_counted {k' : Kernel} {r : Except AnalysisError Pipeline}
    (hrun : annotate config k = (r, k')) :
    r = .error (.kernel .zeroSlots) ∧ Counted config k' True ∨
      ∃ pipeline, r = .ok pipeline ∧ Counted config k' False := by
  obtain ⟨order, ho⟩ := topologicalOrder_of_acyclic hk ha
  have horder := topologicalOrder_of_sameGraph
    ((Kernel.sameGraph_reset k).trans (Kernel.sameGraph_deriveParams k.reset))
  obtain ⟨k₁, -, hp, heq⟩ :=
    annotate_prepared hk ((Kernel.validate_reset k).trans hv) (horder.trans ho) config
  rcases hslots : sizeSlots config.mode config.scan k₁ with ⟨e | _, k₂⟩
  · obtain ⟨hcounted, hzero⟩ := hp.counted hslots
    obtain rfl : e = .kernel .zeroSlots := by simpa using hzero
    rw [run_bind_of_error hslots, hrun] at heq
    cases heq
    exact .inl ⟨rfl, by simpa using hcounted⟩
  · have hcounted : Counted config k₂ False := by simpa using (hp.counted hslots).1
    obtain ⟨k₃, hrings, hk₃⟩ := promoteRings_pass hcounted.tiled.wellFormed
      fun d hd => (sizeSlots_pass hp.tiled.wellFormed hslots d hd).1
    rw [run_bind_of_ok hslots, run_bind_of_ok hrings, hrun] at heq
    cases heq
    refine .inr ⟨_, rfl, hcounted.of_keeps hk₃.of_slotView fun i d' hd' => ?_⟩
    obtain ⟨d, hd, hview⟩ := hk₃.exists_item hd'
    have hstage : d'.note.stage = d.note.stage := congrArg (·.2.2.2) hview
    exact ⟨hstage ▸ hcounted.sized id d (List.mem_of_getElem? hd), d, hd, congrArg Prod.fst hview,
      congrArg (·.2.2.1) hview⟩

/-- The analysis stops for slots only where nothing is left of a count. -/
theorem analyze_counted (device : Device) (config : TilingConfig) (diag : Diagnostics) :
    Counted config (analyze k device config diag).kernel
      ((analyze k device config diag).outcome = .error (.kernel .zeroSlots)) := by
  have hcounted {r : Except AnalysisError Pipeline} {k' : Kernel} (h : annotate config k = (r, k')) :=
    annotate_counted hk hv ha h
  have hend := analyze_ending k device config diag
  generalize analyze k device config diag = r at hend ⊢
  cases hend with
  | refused hann =>
    obtain ⟨herror, hc⟩ | ⟨_, hok, -⟩ := hcounted hann
    · simpa [Except.error.inj herror] using hc
    · cases hok
  | stopped hann hplan =>
    obtain ⟨herror, -⟩ | ⟨_, -, hc⟩ := hcounted hann
    · cases herror
    · have htally := (annotate_annotated hk hann).2.tallies_feasiblePlan device diag
      rw [hplan] at htally
      obtain ⟨⟨a, rfl⟩, -⟩ := htally.stopped _ rfl
      simpa using hc
  | infeasible hann hplan =>
    obtain ⟨herror, -⟩ | ⟨_, -, hc⟩ := hcounted hann
    · cases herror
    · simpa using hc
  | @unresolved e k₁ k₂ pipeline diag₁ plan check hann hplan hgeometry =>
    obtain ⟨k₃, hok⟩ := (annotate_annotated hk hann).2.resolveGeometry_complete plan
    cases hgeometry.symm.trans hok
  | @ready k₁ k₂ pipeline diag₁ plan check hann hplan hgeometry =>
    obtain ⟨herror, -⟩ | ⟨_, -, hc⟩ := hcounted hann
    · cases herror
    · have hk₂ : Keeps patternView k₁ k₂ := (revises_resolveItem plan).respects.keeps hgeometry
      have hkeeps := hk₂.comp cycleView
      have hready : Counted config
          { k₂ with schedule := some (scheduleOf config pipeline plan check) } False := by
        refine hc.of_keeps ⟨hkeeps.name, hkeeps.edges, hkeeps.inputs, hkeeps.nodes, hkeeps.data⟩
          fun i d' hd' => ?_
        obtain ⟨d, table, hd, -, rfl⟩ := resolveGeometry_item hc.tiled.wellFormed hgeometry hd'
        exact ⟨by simp [withGeometry, Stage.le_iff, Stage.place], d, hd, rfl, rfl⟩
      simpa using hready

end Analyze

/-! ### Exact counts -/

namespace Counted

variable {config : TilingConfig} {k : Kernel} {refused : Prop} (h : Counted config k refused)

include h

theorem exists_exactCounts :
    ∃ cycle slots, ExactCounts k config.mode (config.scan.scanDim k.rank) cycle slots := by
  obtain ⟨_, hp⟩ := h.tiled.exists_paces (config.scan.scanDim k.rank)
  obtain ⟨cycle, hleast⟩ := hp.exists_least
  choose most hmost using exists_isGreatest_holdsLines k (config.scan.scanDim k.rank) cycle
  let slots (i : DataId) : Int :=
    ((k.data[i]?).map fun d => if d.iterative && config.mode.isTiled then most d else 1).getD 1
  have hslots {d : DataItem} (hd : d ∈ k.data) :
      slots d.id = if d.iterative && config.mode.isTiled then most d else 1 := by
    simp only [slots, h.tiled.wellFormed.getElem?_id hd, Option.map_some, Option.getD_some]
  refine ⟨cycle, slots, hleast, fun d hd hi hm => ?_, fun d hd hnone => ?_⟩
  · rw [hslots hd, hi, hm, Bool.and_self, if_pos rfl]
    exact hmost d
  · rw [hslots hd, Bool.and_eq_false_iff.mpr hnone, if_neg Bool.false_ne_true]

variable {cycle : DataId → Nat} {slots : DataId → Int}
  (hx : ExactCounts k config.mode (config.scan.scanDim k.rank) cycle slots)

include hx

/-- Where the exact cycles are recorded and the lines are words, the exact slots are the count
before it is cut. -/
theorem slotCount_eq (hcycle : cycleAt k = cycle)
    (hlines : LinesInWord k (config.scan.scanDim k.rank) cycle) {d : DataItem} (hd : d ∈ k.data) :
    slots d.id = slotCount k config d := by
  cases hbuffered : d.iterative && config.mode.isTiled with
  | true =>
    obtain ⟨hi, hm⟩ := Bool.and_eq_true_iff.mp hbuffered
    have hget := h.tiled.wellFormed.getElem?_id hd
    have hmost := isGreatest_slotsNeeded h.tiled.wellFormed hget (config.scan.scanDim k.rank)
    have hcounted := slotsCounted_eq h.tiled.wellFormed
      ((linesInWord_iff h.tiled _).mp (hcycle ▸ hlines)) hget hi
    rw [hcycle] at hmost
    rw [slotCount, hbuffered, if_pos rfl, hcounted]
    exact (hx.buffered d hd hi hm).unique hmost
  | false =>
    rw [slotCount, hbuffered, if_neg Bool.false_ne_true]
    exact hx.unbuffered d hd (Bool.and_eq_false_iff.mp hbuffered)

end Counted

/-- Recorded cycles never exceed the exact ones. If these are below 2³² they are recorded. If
also the lines are words, the slots that are recorded are the exact ones modulo 2³², and the
analysis stops where that leaves nothing. If the exact slots are below 2³² as well, they are
recorded everywhere. -/
theorem counts_recorded_modulo {k : Kernel} (hb : k.Built) (hv : k.validate = .ok ()) (ha : Acyclic k)
    (device : Device) (config : TilingConfig) (diag : Diagnostics) {r : Result}
    (hr : analyze k device config diag = r) :
    ∃ cycle slots,
      ExactCounts r.kernel config.mode (config.scan.scanDim r.kernel.rank) cycle slots ∧
      (∀ d ∈ r.kernel.data, ∃ recorded ≤ cycle d.id, d.cycle = some recorded) ∧
      ((∀ d ∈ r.kernel.data, cycle d.id < 0x100000000) →
        (∀ d ∈ r.kernel.data, d.cycle = some (cycle d.id)) ∧
        (r.outcome ≠ .error (.kernel .zeroSlots) →
          ∀ d ∈ r.kernel.data, .slotSized ≤ d.note.stage) ∧
        (LinesInWord r.kernel (config.scan.scanDim r.kernel.rank) cycle →
          (∀ d ∈ r.kernel.data, .slotSized ≤ d.note.stage →
            (d.note.pattern.slots : Int) = slots d.id % 0x100000000) ∧
          (r.outcome = .error (.kernel .zeroSlots) ↔
            ∃ d ∈ r.kernel.data, slots d.id % 0x100000000 = 0))) ∧
      ((∀ d ∈ r.kernel.data, cycle d.id < 0x100000000 ∧ slots d.id < 0x100000000) →
        LinesInWord r.kernel (config.scan.scanDim r.kernel.rank) cycle →
        r.outcome ≠ .error (.kernel .zeroSlots) ∧
          ∀ d ∈ r.kernel.data, d.cycle = some (cycle d.id) ∧
            (d.note.pattern.slots : Int) = slots d.id) := by
  subst hr
  have h := analyze_counted hb.wellFormed hv ha device config diag
  generalize analyze k device config diag = r at h ⊢
  obtain ⟨cycle, slots, hx⟩ := h.exists_exactCounts
  have hw := h.tiled.wellFormed
  have hwrap (n : Int) : (wrap32 n : Int) = n % 0x100000000 :=
    Int.toNat_of_nonneg (Int.emod_nonneg n (by decide))
  have hcycle (hfit : ∀ d ∈ r.kernel.data, cycle d.id < 0x100000000) : cycleAt r.kernel = cycle := by
    refine h.cycled.cycleAt_eq h.tiled hx.least (h.cycled.cyclesFit_of_paces h.tiled hx.least.1 ?_)
    intro n hn
    obtain ⟨m, hm⟩ := List.mem_iff_getElem?.mp hn
    obtain ⟨o, ho⟩ := hw.exists_output hm
    exact hw.data_id ho ▸ hfit o (List.mem_of_getElem? ho)
  have hcycles (hfit : ∀ d ∈ r.kernel.data, cycle d.id < 0x100000000) {d : DataItem}
      (hd : d ∈ r.kernel.data) : d.cycle = some (cycle d.id) := by
    rw [← hcycle hfit]
    exact h.cycled.cycle_eq (hw.getElem?_id hd)
  have hcut (hfit : ∀ d ∈ r.kernel.data, cycle d.id < 0x100000000)
      (hlines : LinesInWord r.kernel (config.scan.scanDim r.kernel.rank) cycle) :
      (∀ d ∈ r.kernel.data, .slotSized ≤ d.note.stage →
        (d.note.pattern.slots : Int) = slots d.id % 0x100000000) ∧
      (r.outcome = .error (.kernel .zeroSlots) ↔
        ∃ d ∈ r.kernel.data, slots d.id % 0x100000000 = 0) := by
    have hslots {d : DataItem} (hd : d ∈ r.kernel.data) := h.slotCount_eq hx (hcycle hfit) hlines hd
    refine ⟨fun d hd hstage => ?_, ?_⟩
    · rw [h.slots d hd hstage, hwrap, hslots hd]
    · rw [h.refused_iff]
      refine exists_congr fun d => and_congr_right fun hd => ?_
      rw [hslots hd, ← hwrap]
      exact Int.natCast_eq_zero.symm
  refine ⟨cycle, slots, hx, fun d hd => ?_,
    fun hfit => ⟨fun d hd => hcycles hfit hd, h.sized, hcut hfit⟩, fun hfit hlines => ?_⟩
  · exact ⟨_, h.cycled.cycleAt_le h.tiled hx.least.1 d.id, h.cycled.cycle_eq (hw.getElem?_id hd)⟩
  · obtain ⟨hslots, hrefused⟩ := hcut (fun d hd => (hfit d hd).1) hlines
    have hmod {d : DataItem} (hd : d ∈ r.kernel.data) : slots d.id % 0x100000000 = slots d.id := by
      have hone := hx.one_le hd
      exact Int.emod_eq_of_lt (by omega) (hfit d hd).2
    have hok : r.outcome ≠ .error (.kernel .zeroSlots) := by
      intro herror
      obtain ⟨d, hd, hzero⟩ := hrefused.mp herror
      have hone := hx.one_le hd
      rw [hmod hd] at hzero
      omega
    exact ⟨hok, fun d hd => ⟨hcycles (fun d hd => (hfit d hd).1) hd,
      (hslots d hd (h.sized hok d hd)).trans (hmod hd)⟩⟩

/-- An image that is read in the given window. -/
def windowing (read : Span) : Kernel :=
  .ofDeclarations "windowing"
    [.input "a" .float [.fixed 8], .output "o" .float [.fixed 8],
      .node {} { name := "f", output := 1, inputs := [⟨0, ⟨[read]⟩, .undef⟩] }]

def windowed (read : Span) : Result :=
  analyze (windowing read) { units := 2 } { mode := .workGroupSlicing } (.new 1 0)

theorem acyclic_windowing {read : Span} (ho : topologicalOrder (windowing read) = .ok [0]) :
    Acyclic (windowing read) := by
  have hb : (windowing read).Built := Kernel.built_ofDeclarations _ _
  exact (topological_of_eq_ok hb.wellFormed ho).acyclic hb.wellFormed

theorem counted_windowed {read : Span} (hv : (windowing read).validate = .ok ())
    (ho : topologicalOrder (windowing read) = .ok [0]) :
    Counted { mode := .workGroupSlicing } (windowed read).kernel
      ((windowed read).outcome = .error (.kernel .zeroSlots)) :=
  analyze_counted (Kernel.built_ofDeclarations _ _).wellFormed hv (acyclic_windowing ho) _ _ _

/-- Where nothing is cut before the slots, the exact counts can be computed. -/
theorem exactCounts_windowed {read : Span} (hv : (windowing read).validate = .ok ())
    (ho : topologicalOrder (windowing read) = .ok [0])
    (hfit : CyclesFit (windowed read).kernel 0 ∧ LinesFit (windowed read).kernel 0)
    (hdim : ScanOrder.rows.scanDim (windowed read).kernel.rank = 0) {cycle : DataId → Nat}
    {slots : DataId → Int}
    (hx : ExactCounts (windowed read).kernel .workGroupSlicing 0 cycle slots) :
    cycleAt (windowed read).kernel = cycle ∧ LinesInWord (windowed read).kernel 0 cycle ∧
      ∀ d ∈ (windowed read).kernel.data,
        slots d.id = slotCount (windowed read).kernel { mode := .workGroupSlicing } d := by
  have h := counted_windowed hv ho
  rw [← hdim] at hfit hx ⊢
  have hcycle := h.cycled.cycleAt_eq h.tiled hx.least hfit.1
  have hlines := hcycle ▸ (linesInWord_iff h.tiled _).mpr hfit.2
  exact ⟨hcycle, hlines, fun d hd => h.slotCount_eq hx hcycle hlines hd⟩

/-- A window of six pixels; and one that begins 2³² - 2 pixels back, so that the image needs
2³² slots. -/
theorem counts_recorded_modulo_windowing :
    (∃ cycle slots, ExactCounts (windowed ⟨-3, 2⟩).kernel .workGroupSlicing 0 cycle slots ∧
      (cycle 0 = 0 ∧ cycle 1 = 3) ∧ (slots 0 = 7 ∧ slots 1 = 2) ∧
      ∀ d ∈ (windowed ⟨-3, 2⟩).kernel.data,
        d.cycle = some (cycle d.id) ∧ (d.note.pattern.slots : Int) = slots d.id) ∧
    ∃ cycle slots,
      ExactCounts (windowed ⟨-0xfffffffe, 0⟩).kernel .workGroupSlicing 0 cycle slots ∧
      slots 0 = 0x100000000 ∧
      (windowed ⟨-0xfffffffe, 0⟩).outcome = .error (.kernel .zeroSlots) := by
  have hb (read : Span) : (windowing read).Built := Kernel.built_ofDeclarations _ _
  constructor
  · have hv : (windowing ⟨-3, 2⟩).validate = .ok () := by decide +kernel
    have ho : topologicalOrder (windowing ⟨-3, 2⟩) = .ok [0] := by decide +kernel
    have hdim : ScanOrder.rows.scanDim (windowed ⟨-3, 2⟩).kernel.rank = 0 := by decide +kernel
    obtain ⟨cycle, slots, hx, -, -, hexact⟩ := counts_recorded_modulo (hb _) hv (acyclic_windowing ho)
      { units := 2 } { mode := .workGroupSlicing } (.new 1 0) (r := windowed ⟨-3, 2⟩) rfl
    rw [hdim] at hx hexact
    obtain ⟨rfl, hlines, hslots⟩ := exactCounts_windowed hv ho (by decide +kernel) hdim hx
    have hfacts : ∃ a ∈ (windowed ⟨-3, 2⟩).kernel.data, ∃ o ∈ (windowed ⟨-3, 2⟩).kernel.data,
        (a.id = 0 ∧ o.id = 1) ∧
        slotCount (windowed ⟨-3, 2⟩).kernel { mode := .workGroupSlicing } a = 7 ∧
        slotCount (windowed ⟨-3, 2⟩).kernel { mode := .workGroupSlicing } o = 2 := by
      decide +kernel
    have hfit : ∀ d ∈ (windowed ⟨-3, 2⟩).kernel.data,
        cycleAt (windowed ⟨-3, 2⟩).kernel d.id < 0x100000000 ∧
        slotCount (windowed ⟨-3, 2⟩).kernel { mode := .workGroupSlicing } d < 0x100000000 := by
      decide +kernel
    obtain ⟨a, ha, o, ho, ⟨ha0, ho1⟩, haslots, hoslots⟩ := hfacts
    have hrecorded := hexact (fun d hd => ⟨(hfit d hd).1, (hslots d hd).trans_lt (hfit d hd).2⟩)
      hlines
    refine ⟨_, slots, hx, by decide +kernel, ⟨?_, ?_⟩, hrecorded.2⟩
    · rw [← ha0]
      exact (hslots a ha).trans haslots
    · rw [← ho1]
      exact (hslots o ho).trans hoslots
  · have hv : (windowing ⟨-0xfffffffe, 0⟩).validate = .ok () := by decide +kernel
    have ho : topologicalOrder (windowing ⟨-0xfffffffe, 0⟩) = .ok [0] := by decide +kernel
    have hdim : ScanOrder.rows.scanDim (windowed ⟨-0xfffffffe, 0⟩).kernel.rank = 0 := by decide +kernel
    obtain ⟨cycle, slots, hx, -, hcut, -⟩ := counts_recorded_modulo (hb _) hv (acyclic_windowing ho)
      { units := 2 } { mode := .workGroupSlicing } (.new 1 0) (r := windowed ⟨-0xfffffffe, 0⟩) rfl
    rw [hdim] at hx hcut
    obtain ⟨rfl, hlines, hslots⟩ := exactCounts_windowed hv ho (by decide +kernel) hdim hx
    have hfacts : ∃ a ∈ (windowed ⟨-0xfffffffe, 0⟩).kernel.data, a.id = 0 ∧
        slotCount (windowed ⟨-0xfffffffe, 0⟩).kernel { mode := .workGroupSlicing } a =
          0x100000000 := by
      decide +kernel
    obtain ⟨a, ha, ha0, haslots⟩ := hfacts
    obtain ⟨-, hrefused⟩ := (hcut (by decide +kernel)).2.2 hlines
    have hneeds := (hslots a ha).trans haslots
    refine ⟨_, slots, hx, ha0 ▸ hneeds, hrefused.mpr ⟨a, ha, ?_⟩⟩
    rw [hneeds]
    rfl

/-- The image needs 2³² + 1 slots, or the output comes in cycle 2³² + 1; the analysis completes
with one slot on record, or with cycle one. -/
theorem smaller_counts_recorded :
    ((windowing ⟨-0xffffffff, 0⟩).validate = .ok () ∧ Acyclic (windowing ⟨-0xffffffff, 0⟩) ∧
      (windowed ⟨-0xffffffff, 0⟩).ready = true ∧
      ∃ cycle slots, ExactCounts (windowed ⟨-0xffffffff, 0⟩).kernel .workGroupSlicing 0 cycle slots ∧
        ∃ d ∈ (windowed ⟨-0xffffffff, 0⟩).kernel.data,
          slots d.id = 0x100000001 ∧ d.note.pattern.slots = 1) ∧
    ((windowing ⟨0, 0x100000000⟩).validate = .ok () ∧ Acyclic (windowing ⟨0, 0x100000000⟩) ∧
      (windowed ⟨0, 0x100000000⟩).ready = true ∧
      ∃ cycle slots, ExactCounts (windowed ⟨0, 0x100000000⟩).kernel .workGroupSlicing 0 cycle slots ∧
        ∃ d ∈ (windowed ⟨0, 0x100000000⟩).kernel.data,
          0x100000001 ≤ cycle d.id ∧ d.cycle = some 1) := by
  constructor
  · have hv : (windowing ⟨-0xffffffff, 0⟩).validate = .ok () := by decide +kernel
    have ho : topologicalOrder (windowing ⟨-0xffffffff, 0⟩) = .ok [0] := by decide +kernel
    have hdim : ScanOrder.rows.scanDim (windowed ⟨-0xffffffff, 0⟩).kernel.rank = 0 := by decide +kernel
    obtain ⟨cycle, slots, hx⟩ := (counted_windowed hv ho).exists_exactCounts
    rw [hdim] at hx
    obtain ⟨rfl, -, hslots⟩ := exactCounts_windowed hv ho (by decide +kernel) hdim hx
    have hfacts : ∃ d ∈ (windowed ⟨-0xffffffff, 0⟩).kernel.data,
        slotCount (windowed ⟨-0xffffffff, 0⟩).kernel { mode := .workGroupSlicing } d = 0x100000001 ∧
          d.note.pattern.slots = 1 := by
      decide +kernel
    obtain ⟨d, hd, hcount, hone⟩ := hfacts
    exact ⟨hv, acyclic_windowing ho, by decide +kernel, _, slots, hx, d, hd,
      (hslots d hd).trans hcount, hone⟩
  · have hv : (windowing ⟨0, 0x100000000⟩).validate = .ok () := by decide +kernel
    have ho : topologicalOrder (windowing ⟨0, 0x100000000⟩) = .ok [0] := by decide +kernel
    have hdim : ScanOrder.rows.scanDim (windowed ⟨0, 0x100000000⟩).kernel.rank = 0 := by decide +kernel
    obtain ⟨cycle, slots, hx⟩ := (counted_windowed hv ho).exists_exactCounts
    rw [hdim] at hx
    have hfacts : ∃ e ∈ (windowed ⟨0, 0x100000000⟩).kernel.edges,
        ∃ n ∈ (windowed ⟨0, 0x100000000⟩).kernel.nodes[e.target]?,
          waitFor e n 0 (waitGrain (windowed ⟨0, 0x100000000⟩).kernel 0 e.source) = 0x100000001 ∧
            ∃ d ∈ (windowed ⟨0, 0x100000000⟩).kernel.data, d.id = n.output ∧ d.cycle = some 1 := by
      decide +kernel
    obtain ⟨e, he, n, hn, hwaits, d, hd, hout, hone⟩ := hfacts
    have hwait := hx.least.1.wait e he n hn
    refine ⟨hv, acyclic_windowing ho, by decide +kernel, cycle, slots, hx, d, hd, ?_, hone⟩
    rw [hout]
    omega

end StencilTiling.Analysis
