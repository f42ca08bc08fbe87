import StencilTiling.Proofs.Device.Calls

/-! Which descriptions make a device. Every problem is reported as an error and counted, so
that a device is made exactly if there was none and nothing is missing at the end. What it
holds is known from the calls alone, and so is the same for the calls in another order. -/

namespace StencilTiling.DeviceDraft

/-! ### Reporting -/

/-- How a computation ends and how many errors it reports, unless the bound stops it. -/
def Reports {ε α : Type} (x : Reporting ε α) (result : Except ε α) (errors : Nat) : Prop :=
  ∀ diag, (x diag).2.maxErrors = diag.maxErrors ∧
    ((x diag).1 = result ∧ (x diag).2.errorCount = diag.errorCount + errors ∨
      (∃ e, (x diag).1 = .error e) ∧ diag.maxErrors ≤ (x diag).2.errorCount)

theorem Reports.bind {ε α β : Type} {x : Reporting ε α} {f : α → Reporting ε β} {a : α}
    {result : Except ε β} {m n : Nat} (hx : Reports x (.ok a) m) (hf : Reports (f a) result n) :
    Reports (x >>= f) result (m + n) := by
  intro diag
  obtain ⟨hbound, hx⟩ := hx diag
  rcases h : x diag with ⟨e | b, diag₁⟩
  · rw [h] at hx hbound
    rw [run_bind_of_error h]
    exact ⟨hbound, .inr ⟨⟨e, rfl⟩, (hx.resolve_left fun hok => by cases hok.1).2⟩⟩
  · rw [h] at hx hbound
    obtain ⟨hok, hcount⟩ := hx.resolve_right fun ⟨⟨e, he⟩, _⟩ => by cases he
    obtain rfl := Except.ok.inj hok
    rw [run_bind_of_ok h]
    obtain ⟨hbound₁, hrest⟩ := hf diag₁
    dsimp only at hbound hcount
    refine ⟨hbound₁.trans hbound, hrest.imp (fun ⟨hr, hn⟩ => ⟨hr, by omega⟩) fun ⟨he, hle⟩ => ⟨he, ?_⟩⟩
    omega

theorem Reports.adapt {ε δ α : Type} {x : Reporting ε α} {a : α} {n : Nat} (f : ε → δ)
    (hx : Reports x (.ok a) n) : Reports (ExceptT.adapt f x) (.ok a) n := by
  intro diag
  obtain ⟨hbound, hx⟩ := hx diag
  have hrun : ExceptT.adapt f x diag = ((x diag).1.mapError f, (x diag).2) := rfl
  rw [hrun]
  refine ⟨hbound, hx.imp (fun ⟨hok, hn⟩ => ⟨?_, hn⟩) fun ⟨⟨e, he⟩, hle⟩ => ⟨⟨f e, ?_⟩, hle⟩⟩
  · dsimp only
    rw [hok]
    rfl
  · dsimp only
    rw [he]
    rfl

theorem reports_pure {ε α : Type} (a : α) : Reports (pure a : Reporting ε α) (.ok a) 0 :=
  fun _ => ⟨rfl, .inl ⟨rfl, rfl⟩⟩

theorem reports_throw {ε α : Type} (e : ε) : Reports (throw e : Reporting ε α) (.error e) 0 :=
  fun _ => ⟨rfl, .inl ⟨rfl, rfl⟩⟩

theorem reports_error (location : Option Location) (text : String) :
    Reports (Diagnostics.error location text) (.ok ()) 1 := by
  intro diag
  unfold Diagnostics.error
  dsimp only
  split_ifs with hmax
  · exact ⟨rfl, .inr ⟨⟨_, rfl⟩, hmax⟩⟩
  · exact ⟨rfl, .inl ⟨rfl, rfl⟩⟩

section Make

variable {d d' : DeviceDraft} {c : Call} (rest : List Call)

theorem make_of_none (h : c.step d = (d', none)) :
    d.advance c = d' ∧ make d (c :: rest) = make d' rest := by
  refine ⟨by rw [advance, h], funext fun diag => ?_⟩
  rw [make, h]
  rfl

theorem report_some (location : Option Location) (d : DeviceDraft) (e : DraftError)
    (diag : Diagnostics) : report location (d, some e) diag =
      ((Diagnostics.error location e.message diag).1, { d with errorCount := d.errorCount + 1 },
        (Diagnostics.error location e.message diag).2) := rfl

theorem make_of_some {e : DraftError} (h : c.step d = (d', some e)) :
    make d (c :: rest) =
      (Diagnostics.error c.location e.message >>= fun _ => make (d.advance c) rest) := by
  funext diag
  rcases herror : Diagnostics.error c.location e.message diag with ⟨a | _, diag'⟩
  · rw [run_bind_of_error herror, make, h]
    dsimp only
    rw [report_some, herror]
  · rw [run_bind_of_ok herror, make, h]
    dsimp only
    rw [report_some, herror, advance, h]

end Make

/-- Every problem is reported as one error. -/
theorem reports_make (d : DeviceDraft) (calls : List Call) :
    Reports (make d calls) (.ok (calls.foldl advance d)) (problems d calls).length := by
  induction calls generalizing d with
  | nil => exact reports_pure _
  | cons c rest ih =>
    rw [problems, List.foldl_cons, List.length_append]
    rcases hstep : c.step d with ⟨d', _ | e⟩
    · obtain ⟨hadvance, hmake⟩ := make_of_none rest hstep
      rw [hmake, hadvance, Option.toList_none, List.length_nil, Nat.zero_add]
      exact ih d'
    · rw [make_of_some rest hstep]
      exact (reports_error _ _).bind (ih _)

/-- Calls without a problem leave the record alone. -/
theorem make_of_problems_nil {d : DeviceDraft} {calls : List Call} (h : problems d calls = []) :
    make d calls = pure (calls.foldl advance d) := by
  induction calls generalizing d with
  | nil => rfl
  | cons c rest ih =>
    obtain ⟨hc, hrest⟩ := List.append_eq_nil_iff.mp h
    obtain ⟨hadvance, hmake⟩ := make_of_none rest
      (Prod.ext rfl (Option.toList_eq_nil_iff.mp hc) : c.step d = ((c.step d).1, none))
    rw [hmake, List.foldl_cons, hadvance]
    exact ih (hadvance ▸ hrest)

theorem errorCount_step (d : DeviceDraft) (c : Call) : (c.step d).1.errorCount = d.errorCount := by
  have hset (x : LevelDraft) (l : DeviceLevel) : (d.setLevel x l).errorCount = d.errorCount := by
    cases l <;> rfl
  cases c with
  | declare location l name =>
    change (d.declare l name).1.errorCount = _
    unfold declare
    split_ifs
    · rfl
    · exact hset _ _
  | set location l key value =>
    change (d.set l key value).1.errorCount = _
    unfold set
    dsimp only
    split
    · rfl
    · split_ifs
      · rfl
      · split <;> exact hset _ _
      · split <;> exact hset _ _

theorem errorCount_foldl (d : DeviceDraft) (calls : List Call) :
    (calls.foldl advance d).errorCount = d.errorCount + (problems d calls).length := by
  induction calls generalizing d with
  | nil => rfl
  | cons c rest ih =>
    have hcount := errorCount_step d c
    rw [List.foldl_cons, ih, problems, List.length_append, advance]
    rcases hstep : c.step d with ⟨d', _ | e⟩
    · rw [hstep] at hcount
      dsimp only at hcount ⊢
      rw [hcount, Option.toList_none, List.length_nil, Nat.zero_add]
    · rw [hstep] at hcount
      dsimp only at hcount ⊢
      rw [hcount, Option.toList_some, List.length_singleton, Nat.add_assoc]

/-! ### Finishing -/

/-- The errors among the remarks. -/
def remarkErrors (d : DeviceDraft) : Nat := (d.remarks.filter (·.1 == .error)).length

theorem reports_remarks (remarks : List (Severity × String)) :
    Reports (remarks.forM remark) (.ok ()) (remarks.filter (·.1 == .error)).length := by
  induction remarks with
  | nil => exact reports_pure _
  | cons r rest ih =>
    obtain ⟨severity, text⟩ := r
    cases severity with
    | error =>
      rw [List.filter_cons_of_pos rfl, List.length_cons, Nat.add_comm]
      exact ((reports_error none text).adapt DeviceError.aborted).bind ih
    | _ =>
      have hwarning : Reports (modify (·.warning none text) : Reporting DeviceError Unit) (.ok ()) 0 :=
        fun diag => ⟨rfl, .inl ⟨rfl, rfl⟩⟩
      rw [List.filter_cons_of_neg (by simp), ← Nat.zero_add (List.length _)]
      exact hwarning.bind ih

/-- How finishing ends. -/
def verdict (d : DeviceDraft) : Except DeviceError Device :=
  if d.errorCount + d.remarkErrors = 0 then .ok d.freeze
  else .error (.invalid (d.nameOf .device) (d.errorCount + d.remarkErrors))

theorem reports_finish (d : DeviceDraft) : Reports d.finish d.verdict d.remarkErrors := by
  unfold finish verdict remarkErrors
  refine Reports.bind (n := 0) (reports_remarks d.remarks) ?_
  by_cases hzero : d.errorCount + (d.remarks.filter (·.1 == .error)).length = 0
  · rw [if_pos hzero, if_pos hzero]
    exact reports_pure _
  · rw [if_neg hzero, if_neg hzero]
    exact reports_throw _

theorem reports_describe (name : Option String) (calls : List Call) :
    Reports (describe name calls) (calls.foldl advance (fresh name)).verdict
      ((problems (fresh name) calls).length + (calls.foldl advance (fresh name)).remarkErrors) :=
  ((reports_make (fresh name) calls).adapt DeviceError.aborted).bind (reports_finish _)

theorem remarkErrors_eq_zero {d : DeviceDraft} : d.remarkErrors = 0 ↔
    ∀ l ≠ .device, (d.level l).declared = true ∧ (d.level l).toExt.isEmpty = false := by
  have hundeclared (l : DeviceLevel) : (d.undeclared l).filter (·.1 == .error) = [] ↔
      (d.level l).declared = true := by
    unfold undeclared
    split_ifs with h <;> simp [h]
  have hdefaulted (p : DeviceProperty) (value : Option Nat) :
      (defaulted p value).filter (·.1 == .error) = [] := by
    unfold defaulted
    split_ifs <;> rfl
  have hunconnected (l : DeviceLevel) : (d.unconnected l).filter (·.1 == .error) = [] ↔
      (d.level l).toExt.isEmpty = false := by
    unfold unconnected
    split_ifs with h <;> simp [h]
  have hlevels {P : DeviceLevel → Prop} : (∀ l ≠ .device, P l) ↔ P .unit ∧ P .element :=
    ⟨fun h => ⟨h _ (by decide), h _ (by decide)⟩, fun ⟨hu, he⟩ l hl => by cases l <;> trivial⟩
  rw [hlevels, remarkErrors, List.length_eq_zero_iff, remarks]
  simp only [List.filter_append, List.append_eq_nil_iff, hundeclared, hdefaulted, hunconnected]
  tauto

/-! ### Drafts of the same calls -/

namespace Drafted

variable {name : Option String} {calls : List Call} {d : DeviceDraft} (h : Drafted name calls d)

include h

/-- A level reaches external memory as soon as a path is set. -/
theorem toExt_isEmpty {l : DeviceLevel} (hl : l ∈ DeviceProperty.connectivityToExt.levels) :
    (d.level l).toExt.isEmpty = false ↔ ∃ v, Sets calls l .connectivityToExt v := by
  rw [Connectivities.isEmpty_eq, List.isEmpty_eq_false_iff_exists_mem]
  constructor
  · rintro ⟨c, hc⟩
    exact ⟨.path c, (h.values l _ hl _).mp (List.mem_map_of_mem hc)⟩
  · rintro ⟨v, hv⟩
    obtain ⟨c, hc, -⟩ := List.mem_map.mp ((h.values l _ hl v).mpr hv)
    exact ⟨c, hc⟩

/-- The finished device is the one that the calls describe. -/
theorem describes : Describes name calls d.freeze := by
  have hname (l : DeviceLevel) : d.nameOf l = ((namesFor calls l).getLast?.or
      (if l = .device then name else none)).getD l.defaultName := by
    rw [nameOf, h.name]
  refine ⟨hname .device, ?_, ?_, fun l p v => ?_⟩
  · rw [← Option.or_none (o := (namesFor calls .unit).getLast?)]
    exact hname .unit
  · rw [← Option.or_none (o := (namesFor calls .element).getLast?)]
    exact hname .element
  by_cases hl : l ∈ p.levels
  · rw [values_freeze d hl, ← h.values l p hl v]
    simp only [← h.values l p hl]
    split_ifs with hnil
    · simp [hnil, hl]
    · obtain ⟨w, hw⟩ := List.exists_mem_of_ne_nil _ hnil
      have hsome : ¬ ∀ w, w ∉ (d.level l).values p := fun hno => hno w hw
      simp [hsome]
  · have hsets : ¬ Sets calls l p v := fun ⟨_, _, _, _, hsetting⟩ => hl (takes_of_setting hsetting).2
    have hvalues : v ∉ d.freeze.values l p := fun hv => hl (Device.levels_of_mem_values hv)
    simp [hl, hsets, hvalues]

end Drafted

/-- There is one device that calls describe. -/
theorem Describes.unique {name : Option String} {calls : List Call} {device device' : Device}
    (h : Describes name calls device) (h' : Describes name calls device') : device = device' := by
  refine Device.ext_values (fun l => ?_) fun l p v => (h.values l p v).trans (h'.values l p v).symm
  cases l with
  | device => exact h.name.trans h'.name.symm
  | unit => exact h.unitName.trans h'.unitName.symm
  | element => exact h.elementName.trans h'.elementName.symm

/-- Drafts that know the same finish alike. -/
theorem Drafted.finish_eq {name : Option String} {calls : List Call} {d d' : DeviceDraft}
    (h : Drafted name calls d) (h' : Drafted name calls d') (hcount : d.errorCount = d'.errorCount) :
    d.finish = d'.finish := by
  have hfreeze : d.freeze = d'.freeze := h.describes.unique h'.describes
  have hname (l : DeviceLevel) : d.nameOf l = d'.nameOf l := by
    rw [← nameOf_freeze, hfreeze, nameOf_freeze]
  have howner (l : DeviceLevel) : d.owner l = d'.owner l := by
    rw [owner, owner, hname]
  have hvalues {l : DeviceLevel} {p : DeviceProperty} (hl : l ∈ p.levels) (v : PropertyValue) :
      v ∈ (d.level l).values p ↔ v ∈ (d'.level l).values p :=
    (h.values l p hl v).trans (h'.values l p hl v).symm
  have hundeclared {l : DeviceLevel} (hl : l ≠ .device) : d.undeclared l = d'.undeclared l := by
    rw [undeclared, undeclared, howner,
      Bool.eq_iff_iff.mpr ((h.declared l hl).trans (h'.declared l hl).symm)]
  have hunconnected {l : DeviceLevel} (hl : l ∈ DeviceProperty.connectivityToExt.levels) :
      d.unconnected l = d'.unconnected l := by
    rw [unconnected, unconnected, howner, Device.paths_ext (hvalues hl)]
  have hcounts : Function.Injective PropertyValue.count := fun _ _ => PropertyValue.count.inj
  have hunits : d.device.count = d'.device.count :=
    Device.option_ext hcounts (hvalues (l := .device) (p := .computeUnits) (by decide))
  have helements : d.unit.count = d'.unit.count :=
    Device.option_ext hcounts (hvalues (l := .unit) (p := .computeElements) (by decide))
  have hthreads : d.element.hwThreads = d'.element.hwThreads :=
    Device.option_ext hcounts (hvalues (l := .element) (p := .hwThreads) (by decide))
  have hremarks : d.remarks = d'.remarks := by
    unfold remarks
    rw [hundeclared (by decide), hundeclared (by decide), hunits, helements, hthreads,
      hunconnected (by decide), hunconnected (by decide)]
  unfold finish
  rw [hremarks, hfreeze, hcount, hname]

/-! ### The order of calls -/

section Perm

variable {calls calls' : List Call} (hperm : calls'.Perm calls)

include hperm

theorem sets_perm {l : DeviceLevel} {p : DeviceProperty} {v : PropertyValue} :
    Sets calls' l p v ↔ Sets calls l p v := by
  simp only [Sets, hperm.mem_iff]

theorem declares_perm {l : DeviceLevel} : Declares calls' l ↔ Declares calls l := by
  simp only [Declares, hperm.mem_iff]

theorem Faultless.perm (h : Faultless calls) : Faultless calls' := by
  have hsymm {a b : Call} (hab : a.Compatible b) : b.Compatible a := by
    cases a with
    | declare => cases b with
      | declare => exact fun heq => heq ▸ hab heq.symm
      | set => trivial
    | set => cases b with
      | declare => trivial
      | set => exact fun p v v' hv hv' heq => hab p v' v hv' hv heq.symm
  exact ⟨fun c hc => h.valid c (hperm.mem_iff.mp hc), (hperm.pairwise_iff hsymm).mpr h.compatible⟩

end Perm

/-- Only declarations give names. -/
theorem namesFor_filter (calls : List Call) (l : DeviceLevel) :
    namesFor (calls.filter Call.isDeclare) l = namesFor calls l := by
  unfold namesFor
  rw [List.filterMap_filter]
  refine List.filterMap_congr fun c _ => ?_
  cases c <;> rfl

/-- A draft of rearranged calls is one of the calls. -/
theorem Drafted.perm {name : Option String} {calls calls' : List Call} {d : DeviceDraft}
    (h : Drafted name calls' d) (hperm : calls'.Perm calls)
    (hnames : calls'.filter Call.isDeclare = calls.filter Call.isDeclare) : Drafted name calls d := by
  have hsets {l : DeviceLevel} {p : DeviceProperty} {v : PropertyValue} :=
    sets_perm hperm (l := l) (p := p) (v := v)
  refine ⟨fun l hl => (h.declared l hl).trans (declares_perm hperm), fun l => ?_, fun l p => ?_,
    fun l p hl v => (h.values l p hl v).trans hsets⟩
  · rw [← namesFor_filter calls, ← hnames, namesFor_filter]
    exact h.name l
  · simp only [h.defined l p, hsets]

/-! ### Acceptance -/

theorem describe_of_faultless (name : Option String) {calls : List Call} (h : Faultless calls) :
    describe name calls = (calls.foldl advance (fresh name)).finish := by
  funext diag
  unfold describe
  rw [make_of_problems_nil ((problems_eq_nil_iff name calls).1.mpr h)]
  rfl

/-- Faultless calls in another order, with the declarations as they were, give the same. -/
theorem describe_perm (name : Option String) {calls calls' : List Call} (h : Faultless calls)
    (hperm : calls'.Perm calls)
    (hnames : calls'.filter Call.isDeclare = calls.filter Call.isDeclare) :
    describe name calls' = describe name calls := by
  have h' := h.perm hperm
  have hcount {calls : List Call} (h : Faultless calls) :
      (calls.foldl advance (fresh name)).errorCount = (fresh name).errorCount := by
    rw [errorCount_foldl, (problems_eq_nil_iff name calls).1.mpr h]
    rfl
  rw [describe_of_faultless name h, describe_of_faultless name h']
  exact (((problems_eq_nil_iff name calls').2 h').perm hperm hnames).finish_eq
    ((problems_eq_nil_iff name calls).2 h) ((hcount h').trans (hcount h).symm)

/-- Numbers are positive, whether set or not. -/
theorem Describes.one_le {name : Option String} {calls : List Call} {device : Device}
    (h : Describes name calls device) {l : DeviceLevel} {p : DeviceProperty} {n : Nat}
    (hn : .count n ∈ device.values l p) : 1 ≤ n := by
  rcases (h.values l p _).mp hn with ⟨_, _, _, _, hsetting⟩ | ⟨-, hdefault, -⟩
  · exact (takes_of_setting hsetting).1.2
  · cases p <;> simp [DeviceProperty.default?] at hdefault <;> omega

/-- A device is made exactly if no call reports an error and the unit and the element are
declared and reach external memory; otherwise the errors are counted. No error is reported
exactly if the calls are faultless. The device has what the calls set, or its defaults, and it
stays the same if the settings come in another order. -/
theorem accepted_iff_no_error (name : Option String) (calls : List Call) (diag : Diagnostics)
    {r : Except DeviceError Device} {diag' : Diagnostics}
    (hrun : describe name calls diag = (r, diag')) (hbound : diag'.errorCount < diag'.maxErrors) :
    ((∃ device, r = .ok device) ↔ problems (fresh name) calls = [] ∧
      ∀ l ≠ .device, Declares calls l ∧ ∃ v, Sets calls l .connectivityToExt v) ∧
    (problems (fresh name) calls = [] ↔ Faultless calls) ∧
    ((∀ device, r ≠ .ok device) → ∃ owner count, r = .error (.invalid owner count) ∧
      diag'.errorCount = diag.errorCount + count) ∧
    ∀ device, r = .ok device → Describes name calls device ∧
      (∀ l p n, .count n ∈ device.values l p → 1 ≤ n) ∧
      ∀ calls', calls'.Perm calls →
        calls'.filter Call.isDeclare = calls.filter Call.isDeclare →
        describe name calls' diag = (.ok device, diag') := by
  obtain ⟨hproblems, hdrafted⟩ := problems_eq_nil_iff name calls
  obtain ⟨hmax, hreports⟩ := reports_describe name calls diag
  rw [hrun] at hmax hreports
  dsimp only at hmax hreports
  obtain ⟨rfl, hcount⟩ := hreports.resolve_right fun ⟨_, hle⟩ => by omega
  have herrors : (calls.foldl advance (fresh name)).errorCount =
      (problems (fresh name) calls).length := by
    rw [errorCount_foldl]
    cases name <;> exact Nat.zero_add _
  have haccepted : (∃ device, (calls.foldl advance (fresh name)).verdict = .ok device) ↔
      problems (fresh name) calls = [] ∧ (calls.foldl advance (fresh name)).remarkErrors = 0 := by
    rw [verdict, ← List.length_eq_zero_iff, ← herrors, ← Nat.add_eq_zero_iff]
    split_ifs with hzero
    · exact iff_of_true ⟨_, rfl⟩ hzero
    · exact iff_of_false (fun ⟨_, hok⟩ => by cases hok) hzero
  refine ⟨?_, hproblems, fun hrefused => ?_, fun device hdevice => ?_⟩
  · rw [haccepted]
    refine and_congr_right fun hnil => ?_
    have hd := hdrafted (hproblems.mp hnil)
    rw [remarkErrors_eq_zero]
    refine forall₂_congr fun l hl => and_congr (hd.declared l hl) (hd.toExt_isEmpty ?_)
    cases l <;> first | exact absurd rfl hl | decide
  · unfold verdict at hrefused ⊢
    split_ifs at hrefused ⊢ with hzero
    · exact absurd rfl (hrefused _)
    · exact ⟨_, _, rfl, by omega⟩
  · have hfaultless := hproblems.mp (haccepted.mp ⟨device, hdevice⟩).1
    have hfreeze : (calls.foldl advance (fresh name)).freeze = device := by
      unfold verdict at hdevice
      split_ifs at hdevice
      exact Except.ok.inj hdevice
    have hdescribes : Describes name calls device := hfreeze ▸ (hdrafted hfaultless).describes
    refine ⟨hdescribes, fun l p n hn => hdescribes.one_le hn, fun calls' hperm hnames => ?_⟩
    rw [describe_perm name hfaultless hperm hnames, hrun, hdevice]

/-- A device with two units, in two orders. -/
def paired : List Call :=
  [.declare none .unit (some "u"), .set none .device "nbComputeUnits" (some "2"),
    .set none .unit "dataConnectivityToExt" (some "dma"),
    .set none .unit "dataConnectivityToExt" (some "loadstore"),
    .declare none .element none, .set none .element "dataConnectivityToExt" (some "dma"),
    .set none .element "Tdouble" (some "soft")]

def pairedAgain : List Call :=
  [.set none .element "Tdouble" (some "soft"), .declare none .unit (some "u"),
    .set none .unit "dataConnectivityToExt" (some "loadstore"), .declare none .element none,
    .set none .element "dataConnectivityToExt" (some "dma"),
    .set none .unit "dataConnectivityToExt" (some "dma"),
    .set none .device "nbComputeUnits" (some "2")]

/-- The settings with a key that is set twice and a size of zero. -/
def pairedBadly : List Call :=
  paired ++ [.set none .device "nbComputeUnits" (some "3"), .set none .unit "cacheSize" (some "0")]

/-- The settings can be rearranged; two bad ones are counted. -/
theorem accepted_iff_no_error_paired :
    (∃ device diag', describe (some "d") paired (.new 3 0) = (.ok device, diag') ∧
      Describes (some "d") paired device ∧ (device.name = "d" ∧ device.units = 2) ∧
      describe (some "d") pairedAgain (.new 3 0) = (.ok device, diag')) ∧
    ∃ owner diag', describe (some "d") pairedBadly (.new 3 0) = (.error (.invalid owner 2), diag') := by
  constructor
  · have hfacts : (∃ device ∈ (describe (some "d") paired (.new 3 0)).1.toOption,
        device.name = "d" ∧ device.units = 2) ∧
        (describe (some "d") paired (.new 3 0)).2.errorCount <
          (describe (some "d") paired (.new 3 0)).2.maxErrors := by
      decide +kernel
    rcases hrun : describe (some "d") paired (.new 3 0) with ⟨r, diag'⟩
    rw [hrun] at hfacts
    obtain ⟨device, rfl, hname⟩ := exists_of_toOption hfacts.1
    obtain ⟨-, -, -, hdevice⟩ := accepted_iff_no_error (some "d") paired (.new 3 0) hrun hfacts.2
    obtain ⟨hdescribes, -, hperm⟩ := hdevice device rfl
    exact ⟨device, diag', rfl, hdescribes, hname,
      hperm pairedAgain (by decide +kernel) (by decide +kernel)⟩
  · have hfacts : (describe (some "d") pairedBadly (.new 3 0)).1.toOption = none ∧
        (describe (some "d") pairedBadly (.new 3 0)).2.errorCount = 2 ∧
        (describe (some "d") pairedBadly (.new 3 0)).2.maxErrors = 3 := by
      decide +kernel
    rcases hrun : describe (some "d") pairedBadly (.new 3 0) with ⟨r, diag'⟩
    rw [hrun] at hfacts
    obtain ⟨hnone, hcount, hmax⟩ := hfacts
    obtain ⟨-, -, hrefused, -⟩ := accepted_iff_no_error (some "d") pairedBadly (.new 3 0) hrun
      (by rw [hcount, hmax]; decide)
    obtain ⟨owner, count, rfl, htotal⟩ := hrefused fun device hok => by
      rw [hok] at hnone
      cases hnone
    rw [hcount, show (Diagnostics.new 3 0).errorCount = 0 from rfl, Nat.zero_add] at htotal
    exact ⟨owner, diag', by rw [htotal]⟩

end StencilTiling.DeviceDraft
