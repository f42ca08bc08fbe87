import StencilTiling.Proofs.Analysis.Failures
import StencilTiling.Proofs.Analysis.Fitting

/-! More memory does no harm. Only tiles that are fitted to a memory depend on its size: the
slice across the scan grows with it, so there are fewer and wider tiles, none of which is too
narrow for a stencil that the smaller ones held. Every other plan is the same, and what fits
the smaller memory fits the larger one. -/

namespace StencilTiling

/-! ### Devices -/

/-- The devices are equal up to the memories of the unit and of the device, which both of them
or none of them has, the second at least as large. -/
structure Device.Extends (small large : Device) : Prop where
  same : small = { large with
    memory := small.memory, unit := { large.unit with memory := small.unit.memory } }
  memory : Option.Rel (· ≤ ·) small.memory large.memory
  unit : Option.Rel (· ≤ ·) small.unit.memory large.unit.memory

namespace Device.Extends

variable {small large : Device} (h : small.Extends large)

include h

theorem units_eq : small.units = large.units := by rw [h.same]

theorem elements_eq : small.unit.elements = large.unit.elements := by rw [h.same]

theorem element_eq : small.element = large.element := by rw [h.same]

theorem support_eq (elem : ElemType) : small.support elem = large.support elem := by
  simp only [Device.support, Device.supportOf, h.element_eq]

theorem localBudget : Option.Rel (· ≤ ·) small.localBudget large.localBudget := by
  unfold Device.localBudget
  cases hs : small.unit.memory <;> cases hl : large.unit.memory
  all_goals
    have hunit := h.unit
    rw [hs, hl] at hunit
  · exact h.memory
  · cases hunit
  · cases hunit
  · exact hunit

end Device.Extends

theorem le_of_rel {a b : Option Nat} (h : Option.Rel (· ≤ ·) a b) {n : Nat} (hn : n ∈ b) :
    ∃ m ∈ a, m ≤ n := by
  cases h with
  | none => cases hn
  | some hle => exact ⟨_, rfl, Option.some.inj hn ▸ hle⟩

/-! ### Longer slices -/

/-- Longer slices are fewer. -/
theorem Partition.split_grows {grains slice slice' : Int} (hgrains : 1 ≤ grains) (hslice : 1 ≤ slice)
    (hle : slice ≤ slice') :
    (split grains slice).sliceGrains ≤ (split grains slice').sliceGrains ∧
      (split grains slice').parts ≤ (split grains slice).parts := by
  have hcovers := covers_split grains slice
  have hlen : (split grains slice).sliceGrains ≤ (split grains slice').sliceGrains := by
    simp only [split, if_neg (not_lt.mpr hslice), if_neg (not_lt.mpr (hslice.trans hle))]
    exact min_le_min_right _ hle
  refine ⟨hlen, ?_⟩
  have hpos := hcovers.slice_pos
  show max ((grains + (split grains slice').sliceGrains - 1).tdiv (split grains slice').sliceGrains) 1 ≤ _
  rw [Int.tdiv_eq_ediv_of_nonneg (by omega)]
  refine max_le (Int.lt_add_one_iff.mp (Int.ediv_lt_of_lt_mul (by omega) ?_)) hcovers.parts_pos
  have hmul := mul_le_mul_of_nonneg_left hlen (zero_le_one.trans hcovers.parts_pos)
  have hle := hcovers.le_slices
  rw [add_mul, one_mul]
  omega

namespace Analysis

/-- Fewer and wider tiles are as wide as the stencils. -/
theorem narrowItem_of_le {k : Kernel} {dim : Nat} (hk : Measured k dim) {fixedTile : Bool}
    {p p' : Partition} (h : narrowItem k fixedTile dim p = none)
    (hslice : p.sliceGrains ≤ p'.sliceGrains) (hparts : p'.parts ≤ p.parts) :
    narrowItem k fixedTile dim p' = none := by
  unfold narrowItem at h ⊢
  rw [List.findSome?_eq_none_iff] at h ⊢
  intro d hd
  obtain ⟨t, ht, hgrain, -⟩ := hk.tile d hd
  have hwide := h d hd
  rw [ht, Option.bind_some] at hwide ⊢
  dsimp only at hwide ⊢
  split_ifs at hwide with hnarrow
  have hmul := mul_le_mul_of_nonneg_right hslice hgrain.le
  exact if_neg fun hnarrow' => hnarrow ⟨by omega, by omega⟩

/-! ### Plans -/

section Plans

variable {k : Kernel} {small large : Device} (h : small.Extends large) {config : TilingConfig}

include h

/-- Where every tile of a plan has one that follows it on the larger device, so has the plan. -/
theorem choosePlan_transfer {R : Partition → Partition → Prop} (hR : ∀ p, R p p)
    (htiles : config.mode = .externalTiling → ∀ dim < k.rank, ∀ n p, countGrains k dim = .ok n →
      tilePartition k small config (config.scan.scanDim k.rank) (n, dim) = .ok p →
      ∃ p', tilePartition k large config (config.scan.scanDim k.rank) (n, dim) = .ok p' ∧ R p p')
    {plan : Plan} (hplan : choosePlan k small config = .ok plan) :
    ∃ plan', choosePlan k large config = .ok plan' ∧ List.Forall₂ R plan.partitions plan'.partitions ∧
      plan'.workItems = plan.workItems := by
  obtain ⟨grains, hgrains, hplan⟩ := bind_eq_ok.mp hplan
  obtain ⟨ps, hps, hplan⟩ := bind_eq_ok.mp hplan
  obtain rfl := pure_eq_ok.mp hplan
  have hsame : List.Forall₂ R ps ps := List.forall₂_same.mpr fun p _ => hR p
  have hparts : ∃ ps', partitionsOf k large config grains = .ok ps' ∧ List.Forall₂ R ps ps' := by
    unfold partitionsOf at hps ⊢
    dsimp only at hps ⊢
    cases hmode : config.mode with
    | wholeImage =>
      rw [hmode] at hps
      exact ⟨ps, hps, hsame⟩
    | workGroupSlicing =>
      rw [hmode] at hps
      rw [groupsOf, ← h.units_eq]
      exact ⟨ps, hps, hsame⟩
    | externalTiling =>
      rw [hmode] at hps
      refine mapM_transfer hps fun entry hentry p hp => ?_
      obtain ⟨hdim, hcount⟩ := countGrains_of_mem hgrains (by simp [hmode]) hentry
      exact htiles hmode entry.2 hdim entry.1 p hcount hp
  obtain ⟨ps', hps', hall⟩ := hparts
  exact ⟨_, bind_eq_ok.mpr ⟨grains, hgrains, bind_eq_ok.mpr ⟨ps', hps', rfl⟩⟩, hall, by
    simp only [itemsOf, h.elements_eq]⟩

variable (config) in
/-- A slice depends on the memory where a plane has one to fit its tiles to, and nowhere else. -/
theorem slices_same_or_fitted (hrank : k.rank ≤ 2) :
    (config.mode = .externalTiling → ∀ dim < k.rank, ∀ n,
      tileSlice k large config (config.scan.scanDim k.rank) dim n =
        tileSlice k small config (config.scan.scanDim k.rank) dim n) ∨
    config.mode = .externalTiling ∧ config.tile = none ∧ k.rank = 2 ∧ ∃ m m',
      small.localBudget = some m ∧ large.localBudget = some m' ∧ m ≤ m' := by
  by_cases hmode : config.mode = .externalTiling
  swap
  · exact .inl fun hext => absurd hext hmode
  rcases htile : config.tile with _ | tile
  swap
  · exact .inl fun _ dim _ n => by simp only [tileSlice, htile]
  by_cases hplane : k.rank = 2
  swap
  · -- along its only dimension an image is scanned
    refine .inl fun _ dim hdim n => ?_
    have hscan : config.scan.scanDim k.rank = 0 := by
      cases config.scan with
      | rows => exact if_neg (by omega)
      | columns => rfl
    obtain rfl : dim = config.scan.scanDim k.rank := by omega
    rw [tileSlice_scan htile, tileSlice_scan htile]
  have hbudget := h.localBudget
  rcases hs : small.localBudget with _ | m <;> rcases hl : large.localBudget with _ | m' <;>
    rw [hs, hl] at hbudget
  · exact .inl fun _ dim _ n => by simp only [tileSlice, htile, hs, hl]
  · cases hbudget
  · cases hbudget
  · cases hbudget with
    | some hle => exact .inr ⟨hmode, rfl, hplane, m, m', rfl, rfl, hle⟩

end Plans

/-- A tile fitted to more memory is at least as long. -/
theorem tilePartition_grows {k : Kernel} {small large : Device} {config : TilingConfig}
    (hk : Measured k config.scan.crossDim) (htile : config.tile = none) {m m' : Nat}
    (hm : small.localBudget = some m) (hm' : large.localBudget = some m') (hle : m ≤ m')
    (hword : m' < 2 ^ 63) {n : Int} (hn : 1 ≤ n) {scanDim : Nat} (hdim : config.scan.crossDim ≠ scanDim)
    {p : Partition} (hp : tilePartition k small config scanDim (n, config.scan.crossDim) = .ok p) :
    ∃ p', tilePartition k large config scanDim (n, config.scan.crossDim) = .ok p' ∧
      p.sliceGrains ≤ p'.sliceGrains := by
  obtain ⟨hslice, rfl, hscan | hwide⟩ := tilePartition_eq_ok.mp hp
  · exact absurd hscan hdim
  have hgrows : tileSlice k small config scanDim config.scan.crossDim n ≤
      tileSlice k large config scanDim config.scan.crossDim n := by
    rw [tileSlice_cross htile hm hdim, tileSlice_cross htile hm' hdim, hk.le_fittedSlice hword n]
    exact ((hk.le_fittedSlice (hle.trans_lt hword) n).mp le_rfl).trans (mod_cast hle)
  obtain ⟨hlen, hparts⟩ := Partition.split_grows hn hslice hgrows
  exact ⟨_, tilePartition_eq_ok.mpr ⟨hslice.trans hgrows, rfl,
    .inr (narrowItem_of_le hk hwide hlen hparts)⟩, hlen⟩

/-- The buffers depend on the partitions of a plan only. -/
theorem buffersOf_congr {plan plan' : Plan} (h : plan'.partitions = plan.partitions) {k : Kernel}
    {scan : ScanOrder} : buffersOf k plan' scan = buffersOf k plan scan := by
  simp only [buffersOf, bufferBytes, slotPixels_congr h]

/-- What passes does not depend on the memory but for the sizes. -/
theorem Passes.of_extends {k : Kernel} {small large : Device} (h : small.Extends large)
    {plan plan' : Plan} {mode : Granularity} {scan : ScanOrder} (hpasses : Passes k small plan mode scan)
    (hitems : plan'.workItems = plan.workItems)
    (hbuffers : mode.isWholeImage = false → ∀ m ∈ large.localBudget,
      (∀ b ∈ buffersOf k plan' scan, b.bytes ≤ m) ∧ totalBytes (buffersOf k plan' scan) ≤ m) :
    Passes k large plan' mode scan := by
  constructor
  case types => exact fun d hd => h.support_eq d.elem ▸ hpasses.types d hd
  case images =>
    intro hwhole m' hm'
    obtain ⟨m, hm, hle⟩ := le_of_rel h.memory hm'
    exact (hpasses.images hwhole m hm).trans hle
  case buffers => exact hbuffers
  case threads =>
    rw [hitems, Device.threadsPerUnit, ← h.elements_eq, ← h.element_eq]
    exact hpasses.threads

/-- A plan that passes has one on the larger device that passes and has no shorter slice. -/
theorem Passes.grows {k : Kernel} {small large : Device} (h : small.Extends large)
    (hword : ∀ m ∈ large.localBudget, m < 2 ^ 63) {config : TilingConfig} (hrank : k.rank ≤ 2)
    (hk : config.mode = .externalTiling → config.tile = none → k.rank = 2 →
      Measured k config.scan.crossDim)
    {plan : Plan} (hplan : choosePlan k small config = .ok plan)
    (hpasses : Passes k small plan config.mode config.scan) :
    ∃ plan', choosePlan k large config = .ok plan' ∧ Passes k large plan' config.mode config.scan ∧
      List.Forall₂ (·.sliceGrains ≤ ·.sliceGrains) plan.partitions plan'.partitions := by
  rcases slices_same_or_fitted h config hrank with
    hsame | ⟨hmode, htile, hplane, m, m', hm, hm', hle⟩
  · obtain ⟨plan', hplan', hall, hitems⟩ := choosePlan_transfer h (R := Eq) (fun _ => rfl)
      (fun hmode dim hdim n p _ hp => by
        simp only [tilePartition, ← hsame hmode dim hdim n] at hp
        exact ⟨p, hp, rfl⟩) hplan
    have hparts : plan.partitions = plan'.partitions := List.forall₂_eq_eq_eq ▸ hall
    refine ⟨plan', hplan', hpasses.of_extends h hitems fun hwhole m' hm' => ?_, ?_⟩
    · obtain ⟨m, hm, hle⟩ := le_of_rel h.localBudget hm'
      obtain ⟨hall, htotal⟩ := hpasses.buffers hwhole m hm
      rw [buffersOf_congr hparts.symm]
      exact ⟨fun b hb => (hall b hb).trans hle, htotal.trans hle⟩
    · rw [← hparts]
      exact List.forall₂_same.mpr fun _ _ => le_rfl
  · have hmeasured := hk hmode htile hplane
    have hword' := hword m' hm'
    obtain ⟨plan', hplan', hall, hitems⟩ := choosePlan_transfer h
      (R := (·.sliceGrains ≤ ·.sliceGrains)) (fun _ => le_rfl)
      (fun _ dim hdim n p hcount hp => by
        rw [hplane] at hdim hp ⊢
        by_cases hscan : dim = config.scan.scanDim 2
        · subst hscan
          simp only [tilePartition, tileSlice_scan htile] at hp ⊢
          exact ⟨p, hp, le_rfl⟩
        · obtain rfl := ScanOrder.eq_crossDim hdim hscan
          have hn := (countGrains_eq_ok hcount).1
          exact tilePartition_grows hmeasured htile hm hm' hle hword' hn hscan hp) hplan
    refine ⟨plan', hplan', hpasses.of_extends h hitems fun _ m₁ hm₁ => ?_, hall⟩
    obtain rfl := Option.some.inj (hm'.symm.trans hm₁)
    obtain ⟨hneeded, hfit⟩ := needed_le_memory htile hm' hplane hmode hmeasured hword' hplan'
    rw [← totalBytes_buffersOf hfit] at hneeded
    exact ⟨fun b hb => (bytes_le_totalBytes hfit hb).trans hneeded, hneeded⟩

/-! ### Analyses -/

/-- Cautions are recorded without a stop. -/
theorem reports_of_clear (kernel : String) {fs : List Finding} (h : Clear fs) (diag : Diagnostics) :
    ∃ diag', fs.forM (Finding.report kernel) diag = (.ok (), diag') := by
  induction fs generalizing diag with
  | nil => exact ⟨diag, rfl⟩
  | cons f rest ih =>
    obtain ⟨hf, hrest⟩ := clear_cons.mp h
    cases f with
    | shortfall s => cases hf
    | caution c => exact ih hrest _

/-- A plan that passes is feasible. -/
theorem feasiblePlan_of_passes {k : Kernel} {device : Device} {config : TilingConfig} {plan : Plan}
    (hplan : choosePlan k device config = .ok plan)
    (hpasses : Passes k device plan config.mode config.scan) (diag : Diagnostics) :
    ∃ check diag', feasiblePlan k device config diag = (.ok (some (plan, check)), diag') := by
  obtain ⟨diag', hreports⟩ := reports_of_clear k.name (clear_findings.mpr hpasses) diag
  obtain ⟨check, hcheck⟩ : ∃ check,
      checkBudget k device plan config.mode config.scan diag = (.ok check, diag') :=
    ⟨_, run_bind_eq_ok.mpr ⟨_, diag, rfl, run_bind_eq_ok.mpr ⟨(), diag', hreports, rfl⟩⟩⟩
  have hfeasible := (checkBudget_eq_ok hcheck).2.2.mpr (clear_findings.mpr hpasses)
  refine ⟨check, diag', run_bind_eq_ok.mpr ⟨_, _, planPartitions_of_ok hplan diag,
    run_bind_eq_ok.mpr ⟨check, diag', hcheck, ?_⟩⟩⟩
  rw [hfeasible]
  rfl

/-- An annotated kernel with a feasible plan is scheduled by it. -/
theorem analyze_of_feasible {k k₁ : Kernel} (hk : k.WellFormed) {device : Device}
    {config : TilingConfig} {pipeline : Pipeline} {diag diag' : Diagnostics} {plan : Plan}
    {check : BudgetCheck} (hann : annotate config k = (.ok pipeline, k₁))
    (hplan : feasiblePlan k₁ device config diag = (.ok (some (plan, check)), diag')) :
    (analyze k device config diag).ready = true ∧
      (analyze k device config diag).kernel.schedule = some (scheduleOf config pipeline plan check) := by
  obtain ⟨k₂, hresolved⟩ := (annotate_annotated hk hann).2.resolveGeometry_complete plan
  simp only [analyze, hann, hplan, hresolved, Result.ready, and_self]

/-- A kernel of at most two dimensions that is scheduled on a device is scheduled on one with
more memory, and where tiles are fitted to the memory, no slice across the scan gets shorter. -/
theorem more_memory_keeps_schedule {k : Kernel} (hb : k.Built) (hrank : k.rank ≤ 2)
    {small large : Device} (hext : small.Extends large)
    (hmemory : ∀ m ∈ large.memory, m < 2 ^ 63) (hunit : ∀ m ∈ large.unit.memory, m < 2 ^ 63)
    {config : TilingConfig} {diag : Diagnostics} (hready : (analyze k small config diag).ready = true)
    (htiles : config.mode = .externalTiling → config.tile = none →
      TilesFit (analyze k small config diag).kernel) :
    (analyze k large config diag).ready = true ∧
    ∃ s s', (analyze k small config diag).kernel.schedule = some s ∧
      (analyze k large config diag).kernel.schedule = some s' ∧
      (config.mode = .externalTiling → config.tile = none →
        ∀ dim < k.rank, dim ≠ s.scanDim → ∃ p p', s.partitions[dim]? = some p ∧
          s'.partitions[dim]? = some p' ∧ p.sliceGrains ≤ p'.sliceGrains) := by
  have hword : ∀ m ∈ large.localBudget, m < 2 ^ 63 := by
    intro m hm
    rw [Device.localBudget] at hm
    rcases Option.or_eq_some_iff.mp hm with hm | ⟨-, hm⟩
    · exact hunit m hm
    · exact hmemory m hm
  have hend := analyze_ending k small config diag
  generalize analyze k small config diag = r at hend hready htiles ⊢
  cases hend with
  | @ready k₁ k₂ pipeline diag₁ plan check hann hplan hresolved =>
    obtain ⟨hgraph, ha⟩ := annotate_annotated hb.wellFormed hann
    have hrank₁ := hgraph.rank_eq
    obtain ⟨hchoose, hfeasible, hcheck⟩ := feasiblePlan_eq_ok hplan
    have hpasses := clear_findings.mp ((checkBudget_eq_ok hcheck).2.2.mp hfeasible)
    have hkeeps : Keeps tileView k₁
        { k₂ with schedule := some (scheduleOf config pipeline plan check) } :=
      (resolveGeometry_eq_ok ha.tiled hchoose hresolved).1.of_patternView.trans
        ⟨rfl, rfl, rfl, rfl, rfl⟩
    obtain ⟨plan', hchoose', hpasses', hslices⟩ := hpasses.grows hext hword (hrank₁ ▸ hrank)
      (fun hmode htile hplane => ha.measured (by rw [hmode]; rfl) hplane fun d hd =>
        tileAt_bounds_of_keeps ha.tiled hkeeps (htiles hmode htile)
          (hplane ▸ config.scan.crossDim_lt) hd) hchoose
    obtain ⟨check', diag', hplan'⟩ := feasiblePlan_of_passes hchoose' hpasses' diag
    obtain ⟨hready', hschedule'⟩ := analyze_of_feasible hb.wellFormed hann hplan'
    refine ⟨hready', _, _, rfl, hschedule', fun hmode _ dim hdim _ => ?_⟩
    obtain ⟨n, p, -, hp, -⟩ := choosePlan_tile hchoose hmode (hrank₁ ▸ hdim : dim < k₁.rank)
    obtain ⟨p', hp', hle⟩ := exists_getElem?_of_forall₂ hslices hp
    exact ⟨p, p', hp, hp', hle⟩
  | _ => cases hready

def halvedWith (memory : Nat) : Result :=
  analyze halving (withLocalMemory memory) { mode := .externalTiling } (.new 5 0)

/-- With twice the memory, slices of 5 grains become slices of 13. -/
theorem more_memory_keeps_schedule_halving :
    (withLocalMemory 300).Extends (withLocalMemory 600) ∧ (halvedWith 300).ready = true ∧
    TilesFit (halvedWith 300).kernel ∧ (halvedWith 600).ready = true ∧
    ∃ s s' p p', (halvedWith 300).kernel.schedule = some s ∧
      (halvedWith 600).kernel.schedule = some s' ∧
      s.partitions[0]? = some p ∧ s'.partitions[0]? = some p' ∧ p.sliceGrains = 5 ∧
      p'.sliceGrains = 13 ∧ p.sliceGrains ≤ p'.sliceGrains := by
  have hext : (withLocalMemory 300).Extends (withLocalMemory 600) :=
    ⟨rfl, .none, .some (by decide)⟩
  have hready : (halvedWith 300).ready = true := by decide +kernel
  have hfit : TilesFit (halvedWith 300).kernel := by decide +kernel
  have hbuilt : halving.Built := Kernel.built_ofDeclarations _ _
  have hscans : (halvedWith 300).kernel.schedule.map Schedule.scanDim = some 1 := by decide +kernel
  have hslices (memory : Nat) (slices : List Int) {s : Schedule} {p : Partition}
      (h : (halvedWith memory).kernel.schedule.map (·.partitions.map Partition.sliceGrains) =
        some slices)
      (hs : (halvedWith memory).kernel.schedule = some s) (hp : s.partitions[0]? = some p) :
      slices[0]? = some p.sliceGrains := by
    rw [hs, Option.map_some, Option.some.injEq] at h
    rw [← h, List.getElem?_map, hp, Option.map_some]
  obtain ⟨hready', s, s', hs, hs', hgrows⟩ := more_memory_keeps_schedule hbuilt (by decide +kernel)
    hext nofun (by rintro m ⟨⟩; decide) hready fun _ _ => hfit
  rw [← halvedWith] at hs hs' hready'
  have hscan : s.scanDim = 1 := by
    rw [hs] at hscans
    exact Option.some.inj hscans
  obtain ⟨p, p', hp, hp', hle⟩ := hgrows rfl rfl 0 (by decide +kernel) (by rw [hscan]; decide)
  exact ⟨hext, hready, hfit, hready', s, s', p, p', hs, hs', hp, hp',
    (Option.some.inj (hslices 300 [5, 12] (by decide +kernel) hs hp)).symm,
    (Option.some.inj (hslices 600 [13, 12] (by decide +kernel) hs' hp')).symm, hle⟩

end Analysis

end StencilTiling
