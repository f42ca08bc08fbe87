import StencilTiling.Analysis.Budget
import StencilTiling.Proofs.Analysis.Pass

/-! What the checks of a plan find. Every shortfall is one more error on record, so a
check that adds no error found none; then the buffers together fit the memory that they
were checked against. Recording stops at the bound on errors and nowhere else. -/

namespace StencilTiling

/-- An error is on record also where it is the last one. -/
theorem Diagnostics.error_snd (location : Option Location) (text : String) (d : Diagnostics) :
    (Diagnostics.error location text d).2 = d.withError location text := by
  unfold Diagnostics.error
  dsimp only
  split_ifs <;> rfl

namespace Analysis

/-! ### Errors on record -/

def Finding.isShortfall : Finding → Bool
  | shortfall _ => true
  | caution _ => false

/-- A shortfall is one error, a caution none. -/
theorem Finding.report_eq_ok {kernel : String} {f : Finding} {diag diag' : Diagnostics}
    (h : f.report kernel diag = (.ok (), diag')) :
    diag'.errorCount = diag.errorCount + f.isShortfall.toNat := by
  cases f with
  | caution c =>
    obtain ⟨-, rfl⟩ := Prod.mk.inj h
    rfl
  | shortfall s =>
    obtain ⟨-, rfl⟩ := Prod.mk.inj h
    show (Diagnostics.error none (s.message kernel) diag).2.errorCount = _
    rw [Diagnostics.error_snd]
    rfl

theorem reports_eq_ok {kernel : String} {fs : List Finding} {diag diag' : Diagnostics}
    (h : fs.forM (Finding.report kernel) diag = (.ok (), diag')) :
    diag'.errorCount = diag.errorCount + fs.countP Finding.isShortfall := by
  induction fs generalizing diag with
  | nil =>
    obtain ⟨-, rfl⟩ := Prod.mk.inj h
    rfl
  | cons f rest ih =>
    obtain ⟨_, diag₁, hreport, hrest⟩ := run_bind_eq_ok.mp h
    have hf := Finding.report_eq_ok hreport
    have hcount := ih hrest
    rw [List.countP_cons]
    cases hs : f.isShortfall <;> simp [hs] at hf ⊢ <;> omega

/-! ### The bound -/

/-- How a computation leaves the record it started from: with the same bound and no fewer
errors, and at the bound if it was stopped. -/
structure Tally {α : Type} (d : Diagnostics) (r : Except AnalysisError α × Diagnostics) : Prop where
  bound : r.2.maxErrors = d.maxErrors
  le : d.errorCount ≤ r.2.errorCount
  stopped : FailsOnly (fun e => (∃ a, e = .aborted a) ∧ r.2.maxErrors ≤ r.2.errorCount) r.1

/-- A computation that is stopped by the bound only. -/
def Tallies {α : Type} (x : Reporting AnalysisError α) : Prop := ∀ d, Tally d (x d)

theorem Tally.of_ok {α : Type} {d d' : Diagnostics} (hbound : d'.maxErrors = d.maxErrors)
    (hle : d.errorCount ≤ d'.errorCount) (a : α) : Tally d (.ok a, d') :=
  ⟨hbound, hle, failsOnly_ok a⟩

theorem Tallies.bind {α β : Type} {x : Reporting AnalysisError α} {f : α → Reporting AnalysisError β}
    (hx : Tallies x) (hf : ∀ a, Tallies (f a)) : Tallies (x >>= f) := by
  intro d
  have hd := hx d
  rcases h : x d with ⟨e | a, d₁⟩
  · rw [h] at hd
    rw [run_bind_of_error h]
    refine ⟨hd.bound, hd.le, ?_⟩
    rintro _ ⟨⟩
    exact hd.stopped e rfl
  · rw [h] at hd
    rw [run_bind_of_ok h]
    have hrest := hf a d₁
    exact ⟨hrest.bound.trans hd.bound, Nat.le_trans hd.le hrest.le, hrest.stopped⟩

/-- An error counts one, and is the last one at the bound. -/
theorem tally_error (location : Option Location) (text : String) (d : Diagnostics) :
    let r := (ExceptT.adapt .aborted (Diagnostics.error location text) :
      Reporting AnalysisError Unit) d
    Tally d r ∧ r.2.errorCount = d.errorCount + 1 := by
  show Tally d ((Diagnostics.error location text d).1.mapError .aborted,
    (Diagnostics.error location text d).2) ∧ (Diagnostics.error location text d).2.errorCount = _
  unfold Diagnostics.error
  dsimp only
  split_ifs with hmax
  · refine ⟨⟨rfl, Nat.le_succ _, ?_⟩, rfl⟩
    rintro _ ⟨⟩
    exact ⟨⟨_, rfl⟩, hmax⟩
  · exact ⟨⟨rfl, Nat.le_succ _, failsOnly_ok ()⟩, rfl⟩

theorem tallies_reports (kernel : String) (fs : List Finding) :
    Tallies (fs.forM (Finding.report kernel)) := by
  induction fs with
  | nil => exact fun d => .of_ok rfl (Nat.le_refl _) ()
  | cons f rest ih =>
    refine Tallies.bind (x := f.report kernel) ?_ fun _ => ih
    cases f with
    | shortfall s => exact fun d => (tally_error none _ d).1
    | caution c => exact fun d => ⟨rfl, Nat.le_refl _, failsOnly_ok ()⟩

theorem tallies_checkBudget (k : Kernel) (device : Device) (plan : Plan) (mode : Granularity)
    (scan : ScanOrder) : Tallies (checkBudget k device plan mode scan) := by
  have hget : Tallies (get : Reporting AnalysisError Diagnostics) := fun d => .of_ok rfl (Nat.le_refl _) d
  refine hget.bind fun before => (tallies_reports k.name _).bind fun _ => hget.bind fun after => ?_
  exact fun d => .of_ok rfl (Nat.le_refl _) _

/-- A check is feasible when it added no error. -/
theorem checkBudget_count {k : Kernel} {device : Device} {plan : Plan} {mode : Granularity}
    {scan : ScanOrder} {diag diag' : Diagnostics} {check : BudgetCheck}
    (h : checkBudget k device plan mode scan diag = (.ok check, diag')) :
    check.feasible = true ↔ diag'.errorCount = diag.errorCount := by
  obtain ⟨_, diag₁, hget, h⟩ := run_bind_eq_ok.mp h
  cases hget
  obtain ⟨_, diag₂, -, h⟩ := run_bind_eq_ok.mp h
  cases h
  exact beq_iff_eq

/-- A check is feasible when it found no shortfall. -/
theorem checkBudget_eq_ok {k : Kernel} {device : Device} {plan : Plan} {mode : Granularity}
    {scan : ScanOrder} {diag diag' : Diagnostics} {check : BudgetCheck}
    (h : checkBudget k device plan mode scan diag = (.ok check, diag')) :
    check.buffers = buffersOf k plan scan ∧ check.budget = budgetOf device mode ∧
      (check.feasible = true ↔ ∀ f ∈ findings k device plan mode scan, f.isShortfall = false) := by
  obtain ⟨_, diag₁, hget, h⟩ := run_bind_eq_ok.mp h
  cases hget
  obtain ⟨_, diag₂, hreports, h⟩ := run_bind_eq_ok.mp h
  have hcount := reports_eq_ok hreports
  cases h
  refine ⟨rfl, rfl, ?_⟩
  rw [beq_iff_eq, hcount, Nat.add_eq_left, List.countP_eq_zero]
  simp only [Bool.not_eq_true]

/-! ### Memory -/

theorem one_le_elemBytes (d : DataItem) : 1 ≤ d.elemBytes := by
  rw [DataItem.elemBytes]
  cases d.elem <;> decide

theorem exists_largest {buffers : List BufferUsage} (h : buffers ≠ []) :
    ∃ b, largest? buffers = some b := by
  cases buffers with
  | nil => exact absurd rfl h
  | cons b rest =>
    rw [largest?]
    split
    · exact ⟨_, rfl⟩
    · split_ifs <;> exact ⟨_, rfl⟩

/-- Without a shortfall the buffers together fit the memory. -/
theorem totalBytes_le {buffers : List BufferUsage} {memory : Nat}
    (h : ∀ f ∈ bufferFindings buffers (some memory), f.isShortfall = false) :
    totalBytes buffers ≤ memory := by
  refine Nat.le_of_not_lt fun hlt => ?_
  simp only [bufferFindings] at h
  split at h
  · -- no buffer alone is too large, so their sum is reported with the largest
    have hne : buffers ≠ [] := by
      rintro rfl
      exact absurd hlt (Nat.not_lt_zero _)
    obtain ⟨b, hb⟩ := exists_largest hne
    rw [if_pos hlt, hb] at h
    exact Bool.noConfusion (h _ (List.mem_singleton.mpr rfl))
  · next hne =>
    obtain ⟨b, hb⟩ := List.exists_mem_of_ne_nil _ hne
    exact Bool.noConfusion (h _ (List.mem_map.mpr ⟨b, hb, rfl⟩))

end Analysis

end StencilTiling
