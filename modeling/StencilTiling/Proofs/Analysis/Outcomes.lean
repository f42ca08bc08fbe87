import StencilTiling.Proofs.Analysis.Failures
import StencilTiling.Proofs.Analysis.Parts
import StencilTiling.Proofs.Code.Body
import StencilTiling.Session.Compile

/-! What the outcome of an analysis says about the kernel and about the record. Only a
ready kernel has a schedule, so emission refuses any other; and since a kernel that does not
fit leaves an error on record, a unit without errors has ready kernels only. -/

namespace StencilTiling

/-! ### Tables -/

namespace Geometry.Table

theorem length_keys (rank : Nat) : (keys rank).length = 24 * rank := by
  simp [keys, List.length_flatMap, Quantity.all, Measure.all, Nat.mul_comm]

theorem nodup_keys (rank : Nat) : (keys rank).Nodup := by
  refine List.nodup_flatMap.mpr ⟨fun dim _ => ?_, ?_⟩
  · simp [Quantity.all, Measure.all]
  · refine List.nodup_range.imp fun {a b} hab => ?_
    simp only [List.disjoint_left, List.mem_flatMap, List.mem_map]
    rintro _ ⟨_, -, _, -, rfl⟩ ⟨_, -, _, -, h⟩
    exact hab (congrArg Key.dim h).symm

end Geometry.Table

namespace Analysis

/-! ### Schedules -/

/-- The kernel has no schedule. -/
def Unscheduled (k : Kernel) : Prop := k.schedule = none

theorem unscheduled_revise {α : Type} {step : Kernel → α → Except AnalysisError (DataId × DataItem)}
    (l : List α) : Preserves Unscheduled (revise step l) :=
  preserves_revise (fun _ _ _ hk => hk) l

theorem unscheduled_annotate (config : TilingConfig) (k : Kernel) :
    Unscheduled (annotate config k).2 := by
  have hkept {α : Type} {pass : Pass α} (h : ∀ k, (pass k).2.schedule = k.schedule) :
      Preserves Unscheduled pass := fun k hk => (h k).trans hk
  have hget : Preserves Unscheduled (get : Pass Kernel) := hkept fun _ => rfl
  unfold annotate
  rw [run_bind_of_ok (run_modify Kernel.reset k)]
  refine (hget.bind fun _ => (hkept fun _ => rfl).bind fun _ => (hkept fun _ => rfl).bind fun _ =>
    hget.bind fun _ => (hkept fun _ => rfl).bind fun order => ?_) k.reset rfl
  refine Preserves.bind (fun k hk => ?_) fun _ => Preserves.bind ?_ fun _ =>
    (hget.bind fun _ => unscheduled_revise _).bind fun _ =>
      (hget.bind fun _ => unscheduled_revise _).bind fun _ =>
        (hget.bind fun _ => unscheduled_revise _).bind fun _ => hkept fun _ => rfl
  · unfold analyzeTiles
    dsimp only
    split
    · exact hk
    · exact unscheduled_revise _ k hk
  · exact hget.bind fun _ => (unscheduled_revise _).bind fun _ =>
      (unscheduled_revise _).bind fun _ => hkept fun _ => rfl

theorem unscheduled_resolveGeometry (plan : Plan) : Preserves Unscheduled (resolveGeometry plan) :=
  Preserves.bind (fun _ hk => hk) fun _ => unscheduled_revise _

/-- Without success there is no schedule, whatever there was before. -/
theorem Ending.unscheduled {k : Kernel} {device : Device} {config : TilingConfig}
    {diag : Diagnostics} {r : Result} (h : Ending k device config diag r) (hready : r.ready = false) :
    Unscheduled r.kernel := by
  have hann := unscheduled_annotate config k
  cases h with
  | refused heq => rwa [heq] at hann
  | stopped heq _ => rwa [heq] at hann
  | infeasible heq _ => rwa [heq] at hann
  | @unresolved e k₁ k₂ pipeline diag₁ plan check heq _ hgeometry =>
    rw [heq] at hann
    have hres := unscheduled_resolveGeometry plan k₁ hann
    rwa [hgeometry] at hres
  | ready => cases hready

/-- A kernel without a schedule is refused. -/
theorem emit_of_unscheduled {k : Kernel} (h : Unscheduled k) :
    (∃ data stage, Code.emit k = .error (.unresolved k.name data stage)) ∨
      Code.emit k = .error (.notScheduled k.name) := by
  have hemit {e : Code.EmitError} (he : Code.resolvedSchedule k = .error e) : Code.emit k = .error e := by
    rw [Code.emit, he]
    rfl
  have hdata : FailsOnly (fun e => ∃ data stage, e = .unresolved k.name data stage)
      (k.data.forM fun d => ensure (d.note.stage = .geometryResolved)
        (Code.EmitError.unresolved k.name d.name d.note.stage)) :=
    failsOnly_forM fun d _ => failsOnly_ensure ⟨d.name, d.note.stage, rfl⟩
  rcases hforM : k.data.forM (fun d => ensure (d.note.stage = .geometryResolved)
      (Code.EmitError.unresolved k.name d.name d.note.stage)) with e | _
  · obtain ⟨data, stage, rfl⟩ := hdata e hforM
    exact .inl ⟨data, stage, hemit (by rw [Code.resolvedSchedule, hforM]; rfl)⟩
  · exact .inr (hemit (by rw [Code.resolvedSchedule, hforM, h]; rfl))

/-! ### The record -/

theorem errorCount_message (diag : Diagnostics) (level : Nat) (text : String) :
    (diag.message level text).errorCount = diag.errorCount ∧
      (diag.message level text).maxErrors = diag.maxErrors := by
  unfold Diagnostics.message
  split_ifs <;> exact ⟨rfl, rfl⟩

theorem errorCount_noteReport (report : Report) (diag : Diagnostics) :
    (noteReport report diag).errorCount = diag.errorCount ∧
      (noteReport report diag).maxErrors = diag.maxErrors := by
  obtain ⟨hc₁, hm₁⟩ := errorCount_message diag 1 (trimmed report.tiling.text)
  obtain ⟨hc₂, hm₂⟩ := errorCount_message (diag.message 1 (trimmed report.tiling.text)) 2
    (trimmed report.memory.text)
  exact ⟨hc₂.trans hc₁, hm₂.trans hm₁⟩

/-- No plan is an error on record, a plan is none. -/
theorem feasiblePlan_count {k : Kernel} {device : Device} {config : TilingConfig}
    {diag diag' : Diagnostics} {found : Option (Plan × BudgetCheck)}
    (h : feasiblePlan k device config diag = (.ok found, diag')) :
    diag.errorCount ≤ diag'.errorCount ∧ (found = none ↔ diag.errorCount < diag'.errorCount) := by
  obtain ⟨chosen, diag₁, hplan, h⟩ := run_bind_eq_ok.mp h
  rcases hchoose : choosePlan k device config with (f | refusal) | plan
  · rw [planPartitions, hchoose] at hplan
    cases hplan
  · rw [planPartitions, hchoose] at hplan
    obtain ⟨_, diag₂, herror, hnone⟩ := run_bind_eq_ok.mp hplan
    cases hnone
    cases h
    have hcount : diag'.errorCount = diag.errorCount + 1 := by
      simpa only [herror] using (tally_error none (refusal.message k.name) diag).2
    exact ⟨by omega, by simp; omega⟩
  · rw [planPartitions_of_ok hchoose] at hplan
    cases hplan
    obtain ⟨check, diag₂, hcheck, h⟩ := run_bind_eq_ok.mp h
    cases h
    have hcount := checkBudget_count hcheck
    have hle : diag.errorCount ≤ diag'.errorCount := by
      simpa only [hcheck] using (tallies_checkBudget k device plan config.mode config.scan diag).le
    refine ⟨hle, ?_⟩
    cases hf : check.feasible with
    | true => simp [hcount.mp hf]
    | false =>
      have hne : diag'.errorCount ≠ diag.errorCount := fun heq => by simp [hcount.mpr heq] at hf
      simp
      omega

/-- A ready kernel adds no error, one that does not fit adds some. -/
theorem Ending.errorCount {k : Kernel} {device : Device} {config : TilingConfig}
    {diag : Diagnostics} {r : Result} (h : Ending k device config diag r) :
    (r.ready = true → r.diagnostics.errorCount = diag.errorCount) ∧
      (r.outcome = .ok .infeasible → diag.errorCount < r.diagnostics.errorCount) := by
  cases h with
  | infeasible _ hplan =>
    exact ⟨nofun, fun _ => (feasiblePlan_count hplan).2.mp rfl⟩
  | ready _ hplan _ =>
    obtain ⟨hle, hnone⟩ := feasiblePlan_count hplan
    refine ⟨fun _ => ?_, nofun⟩
    rw [(errorCount_noteReport _ _).1]
    simp only [reduceCtorEq, false_iff, not_lt] at hnone
    omega
  | _ => exact ⟨nofun, nofun⟩

/-! ### The bound on errors -/

/-- The error is no stop at the bound. -/
def Unstopped (e : AnalysisError) : Prop := ∀ a, e ≠ .aborted a

theorem sizeItem_failsOnly (mode : Granularity) (scan : ScanOrder) (k : Kernel) (d : DataId) :
    FailsOnly Unstopped (sizeItem mode scan k d) := by
  have hfault {α : Type} (x : Except Fault α) : FailsOnly Unstopped (ofFault x) :=
    failsOnly_mapError (fun f a => nofun) x
  refine (hfault _).bind fun item => FailsOnly.bind ?_ fun slots => ?_
  · unfold dataSlots
    by_cases hmode : item.isControl = true ∨ mode.isWholeImage = true
    · rw [if_pos hmode]
      exact failsOnly_ok 1
    · rw [if_neg hmode]
      split
      · rintro _ ⟨⟩
        exact nofun
      · exact (hfault _).bind fun needs => failsOnly_ok _
  · exact (failsOnly_mapError (fun e a => nofun) _).bind fun item' => failsOnly_ok _

/-- Annotating does not look at the record. -/
theorem annotate_failsOnly (config : TilingConfig) {k : Kernel} (hk : k.WellFormed) :
    FailsOnly Unstopped (annotate config k).1 := by
  rcases hv : k.validate with e | _
  · rw [annotate_of_invalid hv]
    rintro _ ⟨⟩
    exact nofun
  rcases topologicalOrder_cases hk with ⟨order, ho⟩ | ⟨⟨nodes, ho⟩, -⟩
  · have horder := topologicalOrder_of_sameGraph
      ((Kernel.sameGraph_reset k).trans (Kernel.sameGraph_deriveParams k.reset))
    obtain ⟨k₁, -, hp, heq⟩ :=
      annotate_prepared hk ((Kernel.validate_reset k).trans hv) (horder.trans ho) config
    rcases hslots : sizeSlots config.mode config.scan k₁ with ⟨e | _, k₂⟩
    · rw [heq, run_bind_of_error hslots]
      rintro _ ⟨⟩
      exact revise_failsOnly (sizeItem_failsOnly config.mode config.scan) _ k₁ e
        (congrArg Prod.fst hslots)
    · obtain ⟨k₃, hrings, -, -⟩ := hp.finish hslots
      rw [heq, run_bind_of_ok hslots, run_bind_of_ok hrings]
      exact failsOnly_ok _
  · rw [annotate_of_unordered hv ho]
    rintro _ ⟨⟩
    exact nofun

/-- The bound stays, and an analysis that is stopped has reached it. -/
theorem Ending.bound {k : Kernel} (hk : k.WellFormed) {device : Device} {config : TilingConfig}
    {diag : Diagnostics} {r : Result} (h : Ending k device config diag r) :
    r.diagnostics.maxErrors = diag.maxErrors ∧
      ∀ a, r.outcome = .error (.aborted a) → diag.maxErrors ≤ r.diagnostics.errorCount := by
  cases h with
  | refused hann =>
    refine ⟨rfl, ?_⟩
    rintro a ⟨⟩
    exact absurd rfl (annotate_failsOnly config hk _ (congrArg Prod.fst hann) a)
  | stopped hann hplan =>
    have htally := (annotate_annotated hk hann).2.tallies_feasiblePlan device diag
    rw [hplan] at htally
    refine ⟨htally.bound, fun a _ => htally.bound ▸ ?_⟩
    exact (htally.stopped _ rfl).2
  | infeasible hann hplan =>
    have htally := (annotate_annotated hk hann).2.tallies_feasiblePlan device diag
    rw [hplan] at htally
    exact ⟨htally.bound, nofun⟩
  | @unresolved e k₁ k₂ pipeline diag₁ plan check hann hplan hgeometry =>
    obtain ⟨k₃, hok⟩ := (annotate_annotated hk hann).2.resolveGeometry_complete plan
    cases hgeometry.symm.trans hok
  | ready hann hplan hgeometry =>
    have htally := (annotate_annotated hk hann).2.tallies_feasiblePlan device diag
    rw [hplan] at htally
    exact ⟨(errorCount_noteReport _ _).2.trans htally.bound, nofun⟩

/-! ### Ready kernels -/

theorem size_planTable (k : Kernel) (plan : Plan) (d : DataItem) (tile : Tile) :
    (planTable k plan d tile).size = 24 * d.rank ∧
      ((planTable k plan d tile).entries.map Prod.fst).Nodup := by
  have hentries := Geometry.Table.entries_ofFn d.rank fun key =>
    (axisOf d tile (k.producerOf d) plan key.dim).entry key.quantity key.measure
  rw [Geometry.Table.size, planTable, hentries, List.length_map, Geometry.Table.length_keys,
    List.map_map]
  exact ⟨rfl, by simpa [Function.comp_def] using Geometry.Table.nodup_keys d.rank⟩

theorem Ending.stage {k : Kernel} (hk : k.WellFormed) {device : Device} {config : TilingConfig}
    {diag : Diagnostics} {r : Result} (h : Ending k device config diag r) (hready : r.ready = true) :
    ∀ d ∈ r.kernel.data, d.note.stage = .geometryResolved := by
  cases h with
  | ready hann _ hgeometry =>
    have hstage := resolveGeometry_stage (annotate_annotated hk hann).2.tiled.wellFormed hgeometry
    exact hstage
  | _ => cases hready

/-! ### Units -/

/-- A kernel of a unit was ready, or an error was added. -/
theorem analyzeKernel_eq_ok {device : Device} {tiling : TilingConfig} {k k' : Kernel}
    {u u' : CompileUnit} (h : Compiling.analyzeKernel device tiling k u = (.ok k', u')) :
    k' = (analyze k device tiling u.diag).kernel ∧
      u'.diag = (analyze k device tiling u.diag).diagnostics ∧
      ((analyze k device tiling u.diag).ready = true ∨
        (analyze k device tiling u.diag).outcome = .ok .infeasible) := by
  obtain ⟨_, u₁, hget, h⟩ := run_bind_eq_ok.mp h
  cases hget
  obtain ⟨_, u₂, hmodify, h⟩ := run_bind_eq_ok.mp h
  cases hmodify
  dsimp only at h
  generalize analyze k device tiling u.diag = r at h ⊢
  obtain ⟨kernel, diag, outcome⟩ := r
  rcases outcome with e | report | _
  · cases e <;> cases h
  · cases h
    exact ⟨rfl, rfl, .inl rfl⟩
  · cases h
    exact ⟨rfl, rfl, .inr rfl⟩

/-- The errors of a unit never become fewer, and a run that adds none finds every kernel ready. -/
theorem analyzeKernels_count {device : Device} {tiling : TilingConfig} {kernels ks : List Kernel}
    {u u' : CompileUnit} (h : kernels.mapM (Compiling.analyzeKernel device tiling) u = (.ok ks, u')) :
    u.diag.errorCount ≤ u'.diag.errorCount ∧
      (u'.diag.errorCount = u.diag.errorCount →
        List.Forall₂ (fun k k' => ∃ diag, (analyze k device tiling diag).ready = true ∧
          (analyze k device tiling diag).kernel = k') kernels ks) := by
  induction kernels generalizing ks u with
  | nil =>
    rw [List.mapM_nil] at h
    cases h
    exact ⟨le_rfl, fun _ => .nil⟩
  | cons k rest ih =>
    rw [List.mapM_cons] at h
    obtain ⟨k', u₁, hk, h⟩ := run_bind_eq_ok.mp h
    obtain ⟨ks', u₂, hrest, h⟩ := run_bind_eq_ok.mp h
    cases h
    obtain ⟨rfl, hdiag, hout⟩ := analyzeKernel_eq_ok hk
    obtain ⟨hready, hinfeasible⟩ := (analyze_ending k device tiling u.diag).errorCount
    obtain ⟨hle, hall⟩ := ih hrest
    rw [hdiag] at hle hall
    rcases hout with hout | hout
    · have hcount := hready hout
      exact ⟨by omega, fun heq => .cons ⟨u.diag, hout, rfl⟩ (hall (by omega))⟩
    · have hlt := hinfeasible hout
      exact ⟨by omega, fun heq => by omega⟩

/-- The outcome of an analysis agrees with the record and with emission: a ready kernel added
no error and can be emitted, one that does not fit added an error, a stop is at the bound, and
without success there is no schedule; and if the kernels of a unit leave no error on a record
without errors, they are all ready. -/
theorem outcome_agrees_with_record (device : Device) (config : TilingConfig) :
    (∀ (k : Kernel) (diag : Diagnostics) (r : Result), k.Built → analyze k device config diag = r →
      (r.ready = true → r.diagnostics.errorCount = diag.errorCount ∧
        (∀ d ∈ r.kernel.data, d.note.stage = .geometryResolved) ∧
        (∀ d ∈ r.kernel.iterativeData, ∃ table, d.note.geometry = some table ∧
          table.size = 24 * d.rank ∧ (table.entries.map Prod.fst).Nodup) ∧
        ∃ s, r.kernel.schedule = some s ∧ Code.resolvedSchedule r.kernel = .ok s) ∧
      (r.outcome = .ok .infeasible → diag.errorCount < r.diagnostics.errorCount) ∧
      (r.diagnostics.maxErrors = diag.maxErrors ∧
        ∀ a, r.outcome = .error (.aborted a) → diag.maxErrors ≤ r.diagnostics.errorCount) ∧
      (r.ready = false → r.kernel.schedule = none ∧
        ((∃ data stage, Code.emit r.kernel = .error (.unresolved r.kernel.name data stage)) ∨
          Code.emit r.kernel = .error (.notScheduled r.kernel.name)))) ∧
    ∀ (kernels ks : List Kernel) (u u' : CompileUnit), u.diag.errorCount = 0 →
      kernels.mapM (Compiling.analyzeKernel device config) u = (.ok ks, u') →
      u'.diag.hasErrors = false →
      List.Forall₂ (fun k k' => ∃ diag, (analyze k device config diag).ready = true ∧
        (analyze k device config diag).kernel = k') kernels ks := by
  refine ⟨fun k diag r hb hr => ?_, fun kernels ks u u' hempty hrun hclean => ?_⟩
  · have hend : Ending k device config diag r := hr ▸ analyze_ending k device config diag
    refine ⟨fun hready => ⟨hend.errorCount.1 hready, ?_⟩, hend.errorCount.2,
      hend.bound hb.wellFormed, fun hready => ?_⟩
    · subst hr
      obtain ⟨plan, s, -, hres, hschedule, -⟩ := analyze_ready hb.wellFormed hready
      have hstage := hend.stage hb.wellFormed hready
      refine ⟨hstage, fun d hd => ?_, s, hschedule, Code.resolvedSchedule_eq_ok.mpr ⟨hschedule, hstage⟩⟩
      obtain ⟨i, hget, hi⟩ := Kernel.mem_iterativeData_iff.mp hd
      exact ⟨_, hres.geometry hget hi, size_planTable ..⟩
    · have hschedule := hend.unscheduled hready
      exact ⟨hschedule, emit_of_unscheduled hschedule⟩
  · refine (analyzeKernels_count hrun).2 ?_
    simpa [Diagnostics.hasErrors, hempty] using hclean

/-- Two units with little memory of their own. -/
def cramped : Device := { units := 2, unit := { memory := some 16 } }

/-- A kernel with a schedule, analysed again for less memory. -/
def recramped (maxErrors : Nat) : Result :=
  analyze (relayed []).kernel cramped { mode := .workGroupSlicing } (.new maxErrors 0)

/-- Two kernels of a unit on a record that is empty. -/
def unitRun : Except SessionError (List Kernel) × CompileUnit :=
  [relaying [], relaying []].mapM
    (Compiling.analyzeKernel { units := 2 } { mode := .workGroupSlicing })
    { diag := .new 1 0, outputs :=
      { host := { home := [], temp := [], launcher := fun _ _ _ => .error .noSuchFile }, keep := false } }

/-- A ready kernel loses its schedule where it does not fit, after one error or at the first;
two kernels that fit leave no error. -/
theorem outcome_agrees_with_record_relaying :
    ((relayed []).ready = true ∧ (relayed []).diagnostics.errorCount = 0 ∧
      ∀ d ∈ (relayed []).kernel.iterativeData, ∃ table, d.note.geometry = some table ∧
        table.size = 24 * d.rank) ∧
    ((recramped 2).outcome = .ok .infeasible ∧ 0 < (recramped 2).diagnostics.errorCount ∧
      (relayed []).kernel.schedule ≠ none ∧ (recramped 2).kernel.schedule = none) ∧
    ((recramped 1).outcome = .error (.aborted (.tooManyErrors 1)) ∧
      1 ≤ (recramped 1).diagnostics.errorCount) ∧
    ∃ ks, unitRun.1 = .ok ks ∧ unitRun.2.diag.hasErrors = false ∧
      List.Forall₂ (fun k k' => ∃ diag,
        (analyze k { units := 2 } { mode := .workGroupSlicing } diag).ready = true ∧
        (analyze k { units := 2 } { mode := .workGroupSlicing } diag).kernel = k')
        [relaying [], relaying []] ks := by
  have hb : (relaying []).Built := Kernel.built_ofDeclarations _ _
  have hready : (relayed []).ready = true := by decide +kernel
  obtain ⟨-, -, hgraph, -⟩ := analyze_ready hb.wellFormed hready
  obtain ⟨hfits, hunit⟩ := outcome_agrees_with_record { units := 2 } { mode := .workGroupSlicing }
  obtain ⟨hcramped, -⟩ := outcome_agrees_with_record cramped { mode := .workGroupSlicing }
  obtain ⟨hrelayed, -⟩ := hfits _ (.new 1 0) (relayed []) hb rfl
  obtain ⟨hcount, -, htables, s, hschedule, -⟩ := hrelayed hready
  have hb' : (relayed []).kernel.Built := hb.annotated hgraph
  obtain ⟨-, hinfeasible, -, hnone⟩ := hcramped _ (.new 2 0) (recramped 2) hb' rfl
  obtain ⟨-, -, hbound, -⟩ := hcramped _ (.new 1 0) (recramped 1) hb' rfl
  have hout : (recramped 2).outcome = .ok .infeasible := by decide +kernel
  have hstop : (recramped 1).outcome = .error (.aborted (.tooManyErrors 1)) := by decide +kernel
  refine ⟨⟨hready, hcount, fun d hd => ?_⟩, ⟨hout, hinfeasible hout, ?_, ?_⟩,
    ⟨hstop, hbound.2 _ hstop⟩, ?_⟩
  · obtain ⟨table, hgeometry, hsize, -⟩ := htables d hd
    exact ⟨table, hgeometry, hsize⟩
  · rw [hschedule]
    exact Option.some_ne_none s
  · exact (hnone (by decide +kernel)).1
  · have hok : unitRun.1.isOk = true := by decide +kernel
    have hclean : unitRun.2.diag.hasErrors = false := by decide +kernel
    rcases hrun : unitRun with ⟨e | ks, u'⟩
    · rw [hrun] at hok
      cases hok
    · rw [hrun] at hclean
      exact ⟨ks, rfl, hclean, hunit _ _ _ u' rfl hrun hclean⟩

end Analysis

end StencilTiling
