import StencilTiling.Proofs.Analysis.Outcomes
import StencilTiling.Proofs.Session.Staging

/-! Compiling a file is all or nothing, but for the last step. A unit that fails leaves every
file as it was, whichever of its steps fails; one that succeeds puts the sources of all its
kernels at its target; one that is only checked writes nothing. Only closing comes after the
commit: if it fails, the file counts as failed while its output is there. -/

namespace StencilTiling

namespace Host

variable {h a b c : Host} {path text : String}

/-- A text was put where a path leads, and nothing else was changed. Places that the run takes
for itself do not count. -/
def Puts (h : Host) (path text : String) (a b : Host) : Prop :=
  ∃ (t : Tree) (p : Place), (∀ q, ¬ h.Makes q → t.get? q = a.tree.get? q) ∧ t.locate false a.home path = .ok p ∧ p ≠ [] ∧
    Touches h.Makes (a.put p (.file (.text text))) b

theorem Touches.put {P : Place → Prop} (hab : Touches P a b) (p : Place) (e : Entry) :
    Touches P (a.put p e) (b.put p e) where
  home := hab.home
  temp := hab.temp
  launcher := hab.launcher
  tree q hq := by
    unfold Host.put
    by_cases hroot : q = []
    · rw [hroot, Tree.get?_root, Tree.get?_root]
    · by_cases hqp : q = p
      · subst hqp
        rw [Tree.get?_insert_self hroot, Tree.get?_insert_self hroot]
      · rw [Tree.get?_insert_of_ne hqp, Tree.get?_insert_of_ne hqp, hab.tree q hq]

theorem Puts.later (hab : Touches h.Makes a b) (hbc : h.Puts path text b c) : h.Puts path text a c := by
  obtain ⟨t, p, ht, hp, hroot, htouch⟩ := hbc
  refine ⟨t, p, fun q hq => (ht q hq).trans (hab.tree q hq), ?_, hroot, (hab.put p _).trans htouch⟩
  rw [← hab.home]
  exact hp

theorem Puts.trans (hab : h.Puts path text a b) (hbc : Touches h.Makes b c) : h.Puts path text a c := by
  obtain ⟨t, p, ht, hp, hroot, htouch⟩ := hab
  exact ⟨t, p, ht, hp, hroot, htouch.trans hbc⟩

end Host

namespace Compiling

open Host Outputs

/-! ### Producing the output -/

section Output

variable {h : Host} {o : Outputs}

/-- What is written through a number adds up. -/
theorem writes_cases {id : StreamId} {s : OutStream} (hs : o.stream? id = some s) (programs : List Code.Program) :
    (∃ e o', ¬ e.IsCleanup ∧ (programs.forM fun p => write id (sourceText p)) o = (.error e, o')) ∨
      ∃ o', o'.stream? id = some { s with text := s.text ++ String.join (programs.map sourceText) } ∧
        (programs.forM fun p => write id (sourceText p)) o = (.ok (), o') := by
  induction programs generalizing o s with
  | nil => exact .inr ⟨o, by simp [hs], rfl⟩
  | cons p rest ih =>
    have hcons : ((p :: rest).forM fun p => write id (sourceText p)) =
        (write id (sourceText p) >>= fun _ => rest.forM fun p => write id (sourceText p)) := rfl
    rw [hcons]
    rcases write_cases id (sourceText p) o with ⟨hnone, -⟩ | ⟨s', hs', ⟨e, he⟩ | hok⟩
    · cases hnone.symm.trans hs
    · exact .inl ⟨.write s'.target e, _, not_false, run_bind_of_error he⟩
    · obtain rfl := Option.some.inj (hs.symm.trans hs')
      rw [run_bind_of_ok hok]
      have hnext := (stream?_of_set { o with
        host := o.host.ticked
        streams := o.streams.set id (some { s with text := s.text ++ sourceText p }) } rfl
        (lt_of_stream? hs) id).trans (if_pos rfl)
      rcases ih hnext with hfail | ⟨o', ho', hrun⟩
      · exact .inl hfail
      · refine .inr ⟨o', ?_, hrun⟩
        simpa [String.append_assoc] using ho'

/-- A number that was returned is that of an empty stream. -/
theorem openStream_empty (target : String) (o : Outputs) :
    (∃ e o', ¬ e.IsCleanup ∧ openStream target o = (.error e, o')) ∨
      ∃ id scratch o', o'.stream? id = some ⟨target, scratch, ""⟩ ∧ openStream target o = (.ok id, o') := by
  rcases openStream_cases target o with ⟨e, he⟩ | ⟨folder, n, -, hok⟩
  · exact .inl ⟨.write target e, _, not_false, he⟩
  · exact .inr ⟨_, _, _, (stream?_of_concat _ rfl _).trans (if_pos rfl), hok⟩

/-- The output is put in place, or nothing is. -/
def Produces (h : Host) (target text : String) (o : Outputs) (x : Op String) : Prop :=
  Sound h (x o).2 ∧
    ((∃ e, (x o).1 = .error e ∧ ¬ e.IsCleanup ∧ Touches h.Makes o.host (x o).2.host) ∨
      ((x o).1 = .ok target ∧ h.Puts target text o.host (x o).2.host))

theorem commit_produces (hs : Sound h o) {id : StreamId} {s : OutStream} (hstream : o.stream? id = some s) :
    Produces h s.target s.text o (commit id) := by
  obtain ⟨hsound, hfail | ⟨s', p, hs', hdone, hp, hroot, hput⟩⟩ := commit_effect hs id
  · exact ⟨hsound, .inl hfail⟩
  · obtain rfl := Option.some.inj (hstream.symm.trans hs')
    refine ⟨hsound, .inr ⟨hdone, s.flushed o.host.tree, p, fun q hq => ?_, hp, hroot, hput⟩⟩
    exact Tree.get?_insert_of_ne (ne_of_not (hs.makes_of_stream? hstream) hq)

/-- What comes before the output touches nothing. -/
theorem Produces.after {target text : String} {α : Type} {x : Op α} {f : α → Op String} {a : α} {o' : Outputs}
    (hrun : x o = (.ok a, o')) (htouch : Touches h.Makes o.host o'.host) (hf : Produces h target text o' (f a)) :
    Produces h target text o (x >>= f) := by
  unfold Produces
  rw [run_bind_of_ok hrun]
  obtain ⟨hsound, ⟨e, herr, he, hfail⟩ | ⟨hdone, hputs⟩⟩ := hf
  · exact ⟨hsound, .inl ⟨e, herr, he, htouch.trans hfail⟩⟩
  · exact ⟨hsound, .inr ⟨hdone, hputs.later htouch⟩⟩

theorem Produces.of_error {target text : String} {α : Type} {x : Op α} {f : α → Op String} {e : SessionError}
    {o' : Outputs} (hrun : x o = (.error e, o')) (he : ¬ e.IsCleanup) (hs : Sound h o')
    (htouch : Touches h.Makes o.host o'.host) : Produces h target text o (x >>= f) := by
  unfold Produces
  rw [run_bind_of_error hrun]
  exact ⟨hs, .inl ⟨e, rfl, he, htouch⟩⟩

theorem commitSources_produces (hs : Sound h o) (target : String) (programs : List Code.Program) :
    Produces h target (String.join (programs.map sourceText)) o (commitSources target programs) := by
  obtain ⟨hopened, htouch⟩ := within_openStream target o hs
  rcases openStream_empty target o with ⟨e, o', he, hrun⟩ | ⟨id, scratch, o₁, hstream, hrun⟩
  · rw [hrun] at hopened htouch
    exact .of_error hrun he hopened htouch
  · rw [hrun] at hopened htouch
    refine .after hrun htouch ?_
    obtain ⟨hwritten, hsame⟩ := within_forM (fun p _ => within_write id (sourceText p)) o₁ hopened (l := programs)
    rcases writes_cases hstream programs with ⟨e, o₂, he, hrun⟩ | ⟨o₂, hfull, hrun⟩
    · rw [hrun] at hwritten hsame
      exact .of_error hrun he hwritten hsame
    · rw [hrun] at hwritten hsame
      refine .after hrun hsame ?_
      simpa using commit_produces hwritten hfull

/-- Validates the sources, if asked to, and commits them. -/
def produce (o : Options) (input : String) (programs : List Code.Program) : Op String := do
  if o.keep || !o.validator.isEmpty then validate o.validator programs
  commitSources (o.outputPath input codeExtension) programs

theorem produce_produces {options : Options} (hl : h.launcher.Confined options.validator h.temp)
    (hs : Sound h o) (input : String) (programs : List Code.Program) :
    Produces h (options.outputPath input codeExtension) (String.join (programs.map sourceText)) o
      (produce options input programs) := by
  unfold produce
  split_ifs
  · obtain ⟨hvalid, htouch⟩ := within_validate hl programs o hs
    have hfail := validate_failsOnly options.validator programs o
    rcases hrun : validate options.validator programs o with ⟨e | u, o'⟩
    · rw [hrun] at hvalid htouch hfail
      exact .of_error hrun (hfail e rfl) hvalid htouch
    · rw [hrun] at hvalid htouch
      exact .after hrun htouch (commitSources_produces hvalid _ programs)
  · exact commitSources_produces hs _ programs

end Output

/-! ### From the file to its programs -/

/-- The kernels of a file, as it declares them. -/
def kernelsOf? (h : Host) (input : String) : Option (List Kernel) := do
  let text ← (h.tree.readText h.home input).toOption
  let graph ← Description.Graph.ofText? text
  (graph.build input).toOption

/-- Kernels that are analysed one after another on one record. -/
def analyzed (device : Device) (tiling : TilingConfig) : List Kernel → Diagnostics → List Kernel
  | [], _ => []
  | k :: rest, diag =>
    let result := Analysis.analyze k device tiling diag
    result.kernel :: analyzed device tiling rest result.diagnostics

/-- The programs of a file's kernels, in the order in which it declares them. -/
def programsOf? (o : Options) (device : Device) (input : String) (h : Host) : Option (List Code.Program) := do
  let kernels ← kernelsOf? h input
  (analyzed device o.tiling kernels o.diagnostics).mapM fun k => (Code.emit k).toOption

/-- The unit one step outside later. -/
def ticked (u : CompileUnit) : CompileUnit :=
  { u with outputs := { u.outputs with host := u.outputs.host.ticked } }

/-- Leaves the outputs alone and does not fail with the error of a closing. -/
def Quiet {α : Type} (x : Compiling α) : Prop :=
  ∀ u, (x u).2.outputs = u.outputs ∧ FailsOnly (fun e => ¬ e.IsCleanup) (x u).1

section Quiet

variable {α β : Type}

theorem quiet_pure (a : α) : Quiet (pure a : Compiling α) := fun _ => ⟨rfl, failsOnly_ok a⟩

theorem quiet_throw {e : SessionError} (he : ¬ e.IsCleanup) : Quiet (throw e : Compiling α) := by
  refine fun u => ⟨rfl, ?_⟩
  rintro _ ⟨⟩
  exact he

theorem quiet_throw_bind {e : SessionError} (he : ¬ e.IsCleanup) (f : α → Compiling β) :
    Quiet ((throw e : Compiling α) >>= f) := by
  intro u
  have hthrow : (throw e : Compiling α) u = (.error e, u) := rfl
  rw [run_bind_of_error hthrow]
  refine ⟨rfl, ?_⟩
  rintro _ ⟨⟩
  exact he

theorem Quiet.bind {x : Compiling α} {f : α → Compiling β} (hx : Quiet x) (hf : ∀ a, Quiet (f a)) :
    Quiet (x >>= f) := by
  intro u
  obtain ⟨hout, hfail⟩ := hx u
  rcases hrun : x u with ⟨e | a, u'⟩
  · rw [run_bind_of_error hrun]
    rw [hrun] at hout hfail
    refine ⟨hout, ?_⟩
    rintro _ ⟨⟩
    exact hfail e rfl
  · rw [run_bind_of_ok hrun]
    rw [hrun] at hout
    exact ⟨(hf a u').1.trans hout, (hf a u').2⟩

theorem quiet_mapM {l : List α} {f : α → Compiling β} (hf : ∀ a, Quiet (f a)) : Quiet (l.mapM f) := by
  induction l with
  | nil => exact quiet_pure []
  | cons a rest ih =>
    rw [List.mapM_cons]
    exact (hf a).bind fun b => ih.bind fun bs => quiet_pure _

theorem quiet_internal (text : String) : Quiet (internal text : Compiling α) := by
  refine fun u => ⟨rfl, ?_⟩
  rintro _ ⟨⟩
  exact not_false

theorem quiet_analyzeKernel (device : Device) (tiling : TilingConfig) (k : Kernel) :
    Quiet (analyzeKernel device tiling k) := by
  have hget : Quiet (get : Compiling CompileUnit) := fun u => ⟨rfl, failsOnly_ok u⟩
  have hmodify : ∀ f : CompileUnit → CompileUnit, (∀ u, (f u).outputs = u.outputs) →
      Quiet (modify f : Compiling PUnit) := fun f hf u => ⟨hf u, failsOnly_ok _⟩
  refine hget.bind fun u => ?_
  dsimp only
  refine Quiet.bind (hmodify _ ?_) fun _ => ?_
  · exact fun _ => rfl
  · generalize Analysis.analyze k device tiling u.diag = result
    obtain ⟨kernel, diag, outcome⟩ := result
    rcases outcome with e | report | _
    · cases e with
      | fault f => exact quiet_throw_bind (by exact not_false) _
      | kernel e => exact quiet_throw_bind (by exact not_false) _
      | aborted a => exact quiet_throw_bind (by exact not_false) _
      | cycle kernel nodes => exact quiet_throw_bind (by exact not_false) _
      | unscheduledProducer kernel node data => exact (quiet_internal _).bind fun _ => quiet_pure _
      | missingTile kernel data => exact (quiet_internal _).bind fun _ => quiet_pure _
    · refine Quiet.bind (hmodify _ ?_) fun _ => quiet_pure _
      exact fun _ => rfl
    · exact quiet_pure _

theorem quiet_emitKernel (k : Kernel) : Quiet (emitKernel k) := by
  unfold emitKernel
  cases Code.emit k with
  | ok program => exact quiet_pure program
  | error e =>
    cases e with
    | fault f => exact quiet_throw not_false
    | unresolved kernel data stage => exact quiet_internal _
    | notScheduled kernel => exact quiet_internal _

end Quiet

/-! ### Results on the way -/

section Results

variable {device : Device} {tiling : TilingConfig} {u u' : CompileUnit}

theorem inputText_cases (input : String) (u : CompileUnit) :
    (∃ e u', ¬ e.IsCleanup ∧ u'.outputs = (ticked u).outputs ∧ inputText input u = (.error e, u')) ∨
      ∃ text, u.outputs.host.tree.readText u.outputs.host.home input = .ok text ∧
        inputText input u = (.ok text, ticked u) := by
  unfold inputText
  rcases observe_cases (fun h => h.tree.readText h.home input) u.outputs.host with ⟨e, he⟩ | ⟨text, htext, hok⟩
  · rw [show Host.readText input u.outputs.host = _ from he]
    refine .inl ⟨_, _, ?_, ?_, rfl⟩
    · exact not_false
    · rfl
  · rw [show Host.readText input u.outputs.host = _ from hok]
    exact .inr ⟨text, htext, rfl⟩

theorem readKernels_cases (input : String) (u : CompileUnit) :
    (∃ e u', ¬ e.IsCleanup ∧ u'.outputs = (ticked u).outputs ∧ readKernels input u = (.error e, u')) ∨
      ∃ kernels, kernelsOf? u.outputs.host input = some kernels ∧
        readKernels input u = (.ok kernels, ticked u) := by
  unfold readKernels kernelsOf?
  rcases inputText_cases input u with ⟨e, u', he, hout, hrun⟩ | ⟨text, htext, hrun⟩
  · exact .inl ⟨e, u', he, hout, run_bind_of_error hrun⟩
  · rw [run_bind_of_ok hrun, htext]
    simp only [Except.toOption, Option.bind_eq_bind, Option.bind_some]
    cases Description.Graph.ofText? text with
    | none => exact .inl ⟨.malformed input, _, not_false, rfl, rfl⟩
    | some graph =>
      dsimp only [Option.bind_some]
      cases graph.build input with
      | error e =>
        refine .inl ⟨.ofBuild input e, _, ?_, rfl, rfl⟩
        cases e <;> exact not_false
      | ok kernels => exact .inr ⟨kernels, rfl, rfl⟩

theorem analyzeKernels_eq {kernels ks : List Kernel}
    (h : kernels.mapM (analyzeKernel device tiling) u = (.ok ks, u')) : ks = analyzed device tiling kernels u.diag := by
  induction kernels generalizing ks u with
  | nil =>
    rw [List.mapM_nil] at h
    cases h
    rfl
  | cons k rest ih =>
    rw [List.mapM_cons] at h
    obtain ⟨k', u₁, hk, h⟩ := run_bind_eq_ok.mp h
    obtain ⟨ks', u₂, hrest, h⟩ := run_bind_eq_ok.mp h
    cases h
    obtain ⟨rfl, hdiag, -⟩ := Analysis.analyzeKernel_eq_ok hk
    rw [analyzed, ih hrest, hdiag]

theorem emitKernel_eq {k : Kernel} {p : Code.Program} (h : emitKernel k u = (.ok p, u')) :
    (Code.emit k).toOption = some p := by
  unfold emitKernel at h
  rcases hemit : Code.emit k with e | program
  · rw [hemit] at h
    cases e <;> cases h
  · rw [hemit] at h
    cases h
    rfl

theorem emitKernels_eq {kernels : List Kernel} {ps : List Code.Program}
    (h : kernels.mapM emitKernel u = (.ok ps, u')) : kernels.mapM (fun k => (Code.emit k).toOption) = some ps := by
  induction kernels generalizing ps u with
  | nil =>
    rw [List.mapM_nil] at h
    cases h
    rfl
  | cons k rest ih =>
    rw [List.mapM_cons] at h
    obtain ⟨p, u₁, hk, h⟩ := run_bind_eq_ok.mp h
    obtain ⟨ps', u₂, hrest, h⟩ := run_bind_eq_ok.mp h
    cases h
    rw [List.mapM_cons, emitKernel_eq hk, ih hrest]
    rfl

end Results

/-! ### Units -/

theorem onOutputs_run {α : Type} (x : Op α) (u : CompileUnit) :
    onOutputs x u = ((x u.outputs).1, { u with outputs := (x u.outputs).2 }) := rfl

theorem onOutputs_bind {α β : Type} (x : Op α) (f : α → Op β) :
    onOutputs (x >>= f) = onOutputs x >>= fun a => onOutputs (f a) := by
  funext u
  have hstep := onOutputs_run x u
  rw [onOutputs_run]
  rcases hx : x u.outputs with ⟨e | a, outputs⟩
  · rw [hx] at hstep
    rw [run_bind_of_error hx, run_bind_of_error hstep]
  · rw [hx] at hstep
    rw [run_bind_of_ok hx, run_bind_of_ok hstep]
    rfl

theorem onOutputs_some (x : Op String) (u : CompileUnit) :
    (onOutputs x >>= fun path => pure (some path)) u =
      ((x u.outputs).1.map some, { u with outputs := (x u.outputs).2 }) := by
  have hstep := onOutputs_run x u
  rcases hx : x u.outputs with ⟨e | path, outputs⟩
  · rw [hx] at hstep
    exact run_bind_of_error hstep
  · rw [hx] at hstep
    exact run_bind_of_ok hstep

/-- How a unit ends: before it has anything to write, after its check, or with its output. -/
theorem compileUnit_cases (o : Options) (device : Device) (input : String) {u : CompileUnit}
    (hdiag : u.diag = o.diagnostics) :
    (∃ e u', ¬ e.IsCleanup ∧ u'.outputs = (ticked u).outputs ∧ compileUnit o device input u = (.error e, u')) ∨
    (∃ u', o.checkOnly = true ∧ u'.outputs = (ticked u).outputs ∧ compileUnit o device input u = (.ok none, u')) ∨
    ∃ (programs : List Code.Program) (u' : CompileUnit), o.checkOnly = false ∧ programsOf? o device input u.outputs.host = some programs ∧
      u'.outputs = (ticked u).outputs ∧
      compileUnit o device input u = ((produce o input programs u'.outputs).1.map some,
        { u' with outputs := (produce o input programs u'.outputs).2 }) := by
  unfold compileUnit
  rcases readKernels_cases input u with ⟨e, u', he, hout, hrun⟩ | ⟨kernels, hkernels, hrun⟩
  · exact .inl ⟨e, u', he, hout, run_bind_of_error hrun⟩
  rw [run_bind_of_ok hrun]
  obtain ⟨hsame, hfail⟩ := quiet_mapM (quiet_analyzeKernel device o.tiling) (ticked u) (l := kernels)
  rcases hrun : kernels.mapM (analyzeKernel device o.tiling) (ticked u) with ⟨e | ks, u₁⟩
  · rw [hrun] at hsame hfail
    exact .inl ⟨e, u₁, hfail e rfl, hsame, run_bind_of_error hrun⟩
  obtain rfl := analyzeKernels_eq hrun
  rw [hrun] at hsame
  rw [run_bind_of_ok hrun]
  have hget : (get : Compiling CompileUnit) u₁ = (.ok u₁, u₁) := rfl
  rw [run_bind_of_ok hget]
  dsimp only
  by_cases herrors : u₁.diag.hasErrors = true
  · rw [if_pos herrors]
    exact .inl ⟨.failed input u₁.diag.errorCount, u₁, not_false, hsame, rfl⟩
  rw [if_neg herrors]
  by_cases hcheck : o.checkOnly = true
  · rw [if_pos hcheck]
    exact .inr (.inl ⟨u₁, hcheck, hsame, rfl⟩)
  rw [if_neg hcheck]
  obtain ⟨hsame', hfail⟩ := quiet_mapM quiet_emitKernel u₁ (l := analyzed device o.tiling kernels (ticked u).diag)
  rcases hemit : (analyzed device o.tiling kernels (ticked u).diag).mapM emitKernel u₁ with ⟨e | programs, u₂⟩
  · rw [hemit] at hsame' hfail
    exact .inl ⟨e, u₂, hfail e rfl, hsame'.trans hsame, run_bind_of_error hemit⟩
  rw [hemit] at hsame'
  rw [run_bind_of_ok hemit]
  refine .inr (.inr ⟨programs, u₂, by simpa using hcheck, ?_, hsame'.trans hsame, ?_⟩)
  · unfold programsOf?
    rw [hkernels, ← hdiag]
    exact emitKernels_eq hemit
  · rw [← onOutputs_some]
    unfold produce
    split_ifs
    · rw [onOutputs_bind, bind_assoc]
    · rfl

/-! ### Files -/

section Files

variable {o : Options} {device : Device} {input : String} {h : Host} {u : CompileUnit}

/-- The unit in which a file is compiled. -/
def unitOf (o : Options) (h : Host) : CompileUnit := { diag := o.diagnostics, outputs := { host := h, keep := o.keep } }

theorem compileFile_of_error {e : SessionError} (hrun : compileUnit o device input (unitOf o h) = (.error e, u)) :
    (compileFile o device input h).1.result = .error e ∧ (compileFile o device input h).1.output = none ∧
      (compileFile o device input h).2 = (close u.outputs).2.drop := by
  unfold unitOf at hrun
  unfold compileFile
  rw [hrun]
  exact ⟨rfl, rfl, rfl⟩

theorem compileFile_of_ok {output : Option String}
    (hrun : compileUnit o device input (unitOf o h) = (.ok output, u)) :
    (compileFile o device input h).2 = (close u.outputs).2.drop ∧
      (((close u.outputs).1 = .ok () ∧ (compileFile o device input h).1.result = .ok () ∧
          (compileFile o device input h).1.output = output) ∨
        ∃ e, (close u.outputs).1 = .error e ∧ (compileFile o device input h).1.result = .error e ∧
          (compileFile o device input h).1.output = none) := by
  unfold unitOf at hrun
  unfold compileFile
  rw [hrun]
  dsimp only
  rcases close u.outputs with ⟨e | v, outputs⟩
  · exact ⟨rfl, .inr ⟨e, rfl, rfl, rfl⟩⟩
  · exact ⟨rfl, .inl ⟨rfl, rfl, rfl⟩⟩

/-- Outputs that nothing was opened on are closed without a trace. -/
theorem closed_of_unused {e : Outputs} (hu : e = { host := h, keep := o.keep }) :
    (close e).1 = .ok () ∧ (close e).2.drop = h := by
  subst hu
  cases o.keep <;> exact ⟨rfl, rfl⟩

theorem touches_drop {outputs : Outputs} (hs : Sound h outputs) :
    Touches h.Makes outputs.host (close outputs).2.drop := by
  obtain ⟨hs', hclose⟩ := within_close outputs hs
  obtain ⟨hs'', hagain⟩ := within_close (close outputs).2 hs'
  exact hclose.trans (hagain.trans (within_release false _ hs'').2)

/-- How the compilation of a file ends: with an error and nothing written, after its check, or
with its output in place. In the last case closing may still fail. -/
theorem compileFile_cases (device : Device) (input : String) (hl : h.launcher.Confined o.validator h.temp) :
    (∃ e, ¬ e.IsCleanup ∧ (compileFile o device input h).1.result = .error e ∧
      (compileFile o device input h).1.output = none ∧ Touches h.Makes h (compileFile o device input h).2 ∧
      (o.checkOnly = true → (compileFile o device input h).2.tree = h.tree)) ∨
    (o.checkOnly = true ∧ (compileFile o device input h).1.result = .ok () ∧
      (compileFile o device input h).1.output = none ∧ Touches h.Makes h (compileFile o device input h).2 ∧
      (compileFile o device input h).2.tree = h.tree) ∨
    (o.checkOnly = false ∧ ∃ programs, programsOf? o device input h = some programs ∧
      h.Puts (o.outputPath input codeExtension) (String.join (programs.map sourceText)) h
        (compileFile o device input h).2 ∧
      (((compileFile o device input h).1.result = .ok () ∧
          (compileFile o device input h).1.output = some (o.outputPath input codeExtension)) ∨
        ∃ e, e.IsCleanup ∧ (compileFile o device input h).1.result = .error e ∧
          (compileFile o device input h).1.output = none)) := by
  rcases compileUnit_cases o device input (u := unitOf o h) rfl with
    ⟨e, u, he, hout, hrun⟩ | ⟨u, hcheck, hout, hrun⟩ | ⟨programs, u, hcheck, hprograms, hout, hrun⟩
  · obtain ⟨hresult, houtput, hhost⟩ := compileFile_of_error hrun
    rw [hhost, (closed_of_unused hout).2]
    exact .inl ⟨e, he, hresult, houtput, .ticked _ h, fun _ => rfl⟩
  · obtain ⟨hhost, ⟨-, hresult, houtput⟩ | ⟨e, hclose, -⟩⟩ := compileFile_of_ok hrun
    · rw [hhost, (closed_of_unused hout).2]
      exact .inr (.inl ⟨hcheck, hresult, houtput, .ticked _ h, rfl⟩)
    · cases (closed_of_unused hout).1.symm.trans hclose
  · have hs : Sound h u.outputs := by
      rw [hout]
      exact (Sound.start h o.keep).touches (.ticked _ h)
    have hticked : Touches h.Makes h u.outputs.host := by
      rw [hout]
      exact .ticked _ h
    obtain ⟨hsound, ⟨e, herr, he, hfail⟩ | ⟨hdone, hputs⟩⟩ := produce_produces hl hs input programs
    · rw [herr] at hrun
      obtain ⟨hresult, houtput, hhost⟩ := compileFile_of_error hrun
      rw [hhost]
      refine .inl ⟨e, he, hresult, houtput, hticked.trans (hfail.trans (touches_drop hsound)), fun hno => ?_⟩
      simp [hno] at hcheck
    · rw [hdone] at hrun
      obtain ⟨hhost, hend⟩ := compileFile_of_ok hrun
      rw [hhost]
      refine .inr (.inr ⟨hcheck, programs, hprograms, .later hticked (hputs.trans (touches_drop hsound)), ?_⟩)
      rcases hend with ⟨-, hresult, houtput⟩ | ⟨e, hclose, hresult, houtput⟩
      · exact .inl ⟨hresult, houtput⟩
      · exact .inr ⟨e, close_failsOnly _ e hclose, hresult, houtput⟩

end Files

end Compiling

/-! ### All or nothing -/

namespace Host

/-- The path leads the same way whatever a run does with places of its own, and to none of them. -/
structure Steady (h : Host) (path : String) : Prop where
  locate : ∀ t : Tree, (∀ q, ¬ h.Makes q → t.get? q = h.tree.get? q) →
    t.locate false h.home path = h.tree.locate false h.home path
  foreign : ∀ p, h.tree.locate false h.home path = .ok p → ¬ h.Makes p

/-- What stands where a path leads to. -/
def entryAt? (h : Host) (path : String) : Option Entry :=
  (h.tree.locate false h.home path).toOption.bind h.tree.get?

theorem Steady.entryAt? {h a : Host} {path : String} (hp : h.Steady path) (ha : Touches h.Makes h a) :
    a.entryAt? path = h.entryAt? path := by
  unfold Host.entryAt?
  rw [ha.home, hp.locate a.tree ha.tree]
  cases hlocate : h.tree.locate false h.home path with
  | error e => rfl
  | ok p => exact ha.tree p (hp.foreign p hlocate)

/-- A place holds a text, and all other places are as they were. -/
structure Holds (h a : Host) (p : Place) (text : String) : Prop where
  held : a.tree.get? p = some (.file (.text text))
  others : ∀ q, ¬ h.Makes q → q ≠ p → a.tree.get? q = h.tree.get? q

theorem Steady.holds {h a : Host} {path text : String} (hp : h.Steady path) (ha : h.Puts path text h a) :
    ∃ p, h.tree.locate false h.home path = .ok p ∧ h.Holds a p text := by
  obtain ⟨t, p, ht, hlocate, hroot, htouch⟩ := ha
  rw [hp.locate t ht] at hlocate
  refine ⟨p, hlocate, ?_, fun q hq hqp => ?_⟩
  · exact (htouch.tree p (hp.foreign p hlocate)).trans (Tree.get?_insert_self hroot)
  · exact (htouch.tree q hq).trans (Tree.get?_insert_of_ne hqp)

end Host

open Compiling Host

/-- What the compilation of a file leaves behind. -/
structure AllOrNothing (o : Options) (device : Device) (input : String) (h : Host)
    (outcome : FileOutcome) (after : Host) : Prop where
  /-- Without an output if there was an error, and with all as before unless it was in closing. -/
  failed : ∀ e, outcome.result = .error e → outcome.output = none ∧
    (¬ e.IsCleanup → after.entryAt? (o.outputPath input codeExtension) = h.entryAt? (o.outputPath input codeExtension) ∧
      ∀ q, ¬ h.Makes q → after.tree.get? q = h.tree.get? q)
  /-- With the sources of all kernels in place if there was none, or only in closing. -/
  written : o.checkOnly = false → (outcome.result = .ok () ∨ ∃ e, e.IsCleanup ∧ outcome.result = .error e) →
    (outcome.result = .ok () → outcome.output = some (o.outputPath input codeExtension)) ∧
      ∃ programs p, programsOf? o device input h = some programs ∧
        h.tree.locate false h.home (o.outputPath input codeExtension) = .ok p ∧
        h.Holds after p (String.join (programs.map sourceText))
  /-- With nothing written if it was only checked. -/
  checked : o.checkOnly = true → outcome.output = none ∧ after.tree = h.tree

theorem compilation_all_or_nothing (o : Options) (device : Device) (input : String) (h : Host)
    (hl : h.launcher.Confined o.validator h.temp) (hp : h.Steady (o.outputPath input codeExtension)) :
    AllOrNothing o device input h (compileFile o device input h).1 (compileFile o device input h).2 := by
  rcases compileFile_cases device input hl with ⟨e, he, hresult, houtput, htouch, hsame⟩ |
    ⟨hcheck, hresult, houtput, -, hsame⟩ | ⟨hcheck, programs, hprograms, hputs, hend⟩
  · refine ⟨fun e' he' => ⟨houtput, fun _ => ⟨hp.entryAt? htouch, htouch.tree⟩⟩, fun _ hno => ?_,
      fun hcheck => ⟨houtput, hsame hcheck⟩⟩
    rcases hno with hno | ⟨e', hclean, hno⟩
    · cases hresult.symm.trans hno
    · cases hresult.symm.trans hno
      exact absurd hclean he
  · refine ⟨fun e he => ?_, fun hno => ?_, fun _ => ⟨houtput, hsame⟩⟩
    · cases hresult.symm.trans he
    · cases hcheck.symm.trans hno
  · obtain ⟨p, hlocate, hholds⟩ := hp.holds hputs
    refine ⟨fun e he => ?_, fun _ _ => ⟨fun hok => ?_, programs, p, hprograms, hlocate, hholds⟩, fun hno => ?_⟩
    · rcases hend with ⟨hok, -⟩ | ⟨e', hclean, herr, houtput⟩
      · cases hok.symm.trans he
      · cases herr.symm.trans he
        exact ⟨houtput, fun hno => absurd hclean hno⟩
    · rcases hend with ⟨-, houtput⟩ | ⟨e, -, herr, -⟩
      · exact houtput
      · cases herr.symm.trans hok
    · cases hcheck.symm.trans hno

/-! ### Examples -/

/-- A description of one kernel with one node. -/
def relay : String :=
  "\x7b\"kernels\": [\x7b\"name\": \"k\", \"data\": [" ++
    "\x7b\"name\": \"a\", \"kind\": \"input\", \"type\": \"float\", \"shape\": [8]\x7d, " ++
    "\x7b\"name\": \"o\", \"kind\": \"output\", \"type\": \"float\", \"shape\": [8]\x7d], " ++
    "\"nodes\": [\x7b\"name\": \"f\", \"output\": \"o\", \"inputs\": [\x7b\"data\": \"a\"\x7d]\x7d]\x7d]\x7d"

/-- A host with one file to compile, where every program succeeds and does nothing. -/
def workshop (text : String) (refusals : Nat → Option IoError) : Host where
  tree := ⟨[(["work"], .folder), (["tmp"], .folder), (["work", "a.json"], .file (.text text))], []⟩
  home := ["work"]
  temp := ["tmp"]
  launcher _ t _ := .ok ⟨.exited 0, "", "", t⟩
  refusals

/-- Every source is checked. -/
def checking : Options := { inputs := ["a.json"], device := "d", maxErrors := 5, validator := ["check"] }

theorem workshop_confined (text : String) (refusals : Nat → Option IoError) :
    (workshop text refusals).launcher.Confined checking.validator (workshop text refusals).temp := by
  rintro program args - n name t home done ⟨⟩ p -
  rfl

theorem workshop_steady (text : String) (refusals : Nat → Option IoError) :
    (workshop text refusals).Steady (checking.outputPath "a.json" codeExtension) := by
  have hpath : checking.outputPath "a.json" codeExtension = "./a.cl" := by decide +kernel
  have hpieces : Path.pieces "./a.cl" = [".", "a.cl"] := by decide +kernel
  have hlead : ∀ t : Tree, t.get? ["work"] = some .folder → t.get? ["work", "a.cl"] = none →
      t.locate false ["work"] "./a.cl" = .ok ["work", "a.cl"] := by
    intro t hwork hvacant
    have hfolder : t.isFolder ["work"] = true := by
      unfold Tree.isFolder
      rw [hwork]
      rfl
    have hwalk : t.walkToLink false ["work"] [".", "a.cl"] = .ok (.here ["work", "a.cl"]) := by
      rw [Tree.walkToLink, if_pos (by decide), Tree.walkToLink, if_neg (by decide), if_neg (by decide),
        if_neg (by decide +kernel)]
      dsimp only [List.cons_append, List.nil_append]
      rw [hvacant]
      rfl
    unfold Tree.locate
    rw [if_neg (by decide +kernel), if_neg (by decide +kernel), if_neg (by decide +kernel),
      if_neg (by decide +kernel), hfolder, hpieces, Bool.true_or, if_pos rfl, Tree.walkOn, hwalk]
  have hwork : ¬ (workshop text refusals).Makes ["work"] := by
    refine not_makes (show ¬ ["tmp"] <+: ["work"] by decide) ?_
    rintro name ⟨⟩
    decide
  have htarget : ¬ (workshop text refusals).Makes ["work", "a.cl"] := by
    refine not_makes (show ¬ ["tmp"] <+: ["work", "a.cl"] by decide) ?_
    rintro name ⟨⟩
    decide
  have hhere : (workshop text refusals).tree.locate false ["work"] "./a.cl" = .ok ["work", "a.cl"] :=
    hlead _ rfl rfl
  rw [hpath]
  constructor
  · intro t ht
    refine (hlead t ?_ ?_).trans hhere.symm
    · exact ht _ hwork
    · exact ht _ htarget
  · intro p hp
    cases hhere.symm.trans hp
    exact htarget

theorem compilation_all_or_nothing_relay :
    (compileFile checking { units := 4 } "a.json" (workshop relay fun _ => none)).1.output = some "./a.cl" ∧
      AllOrNothing checking { units := 4 } "a.json" (workshop relay fun _ => none)
        (compileFile checking { units := 4 } "a.json" (workshop relay fun _ => none)).1
        (compileFile checking { units := 4 } "a.json" (workshop relay fun _ => none)).2 :=
  ⟨by decide +kernel, compilation_all_or_nothing _ _ _ _ (workshop_confined _ _) (workshop_steady _ _)⟩

/-- The step that removes the temporary folder is refused, after the output was put in place. -/
def lastRefused (n : Nat) : Option IoError := if n = 5 then some .permissionDenied else none

/-- A file without kernels counts as failed, and its output is there. -/
theorem output_of_failed_file :
    (compileFile checking { units := 4 } "a.json" (workshop "\x7b\"kernels\": []\x7d" lastRefused)).1.result =
        .error (.cleanup "/tmp/_KG0" .permissionDenied) ∧
      (workshop "\x7b\"kernels\": []\x7d" lastRefused).entryAt? "./a.cl" = none ∧
      (compileFile checking { units := 4 } "a.json" (workshop "\x7b\"kernels\": []\x7d" lastRefused)).2.entryAt?
        "./a.cl" = some (.file (.text "")) := by
  decide +kernel

end StencilTiling
