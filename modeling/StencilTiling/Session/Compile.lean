import StencilTiling.Analysis.Run
import StencilTiling.Code.Emit
import StencilTiling.Device.Description
import StencilTiling.Session.Options
import StencilTiling.Session.Outputs

/-! Compiling input files. Each file is a unit of its own: its kernels are read,
analysed, emitted, checked by the validator and committed as one program, or
nothing is committed. -/

namespace StencilTiling

/-- Ending of the files written. -/
def codeExtension : String := "cl"

/-- What happened to one input file. -/
structure FileOutcome where
  input : String
  diagnostics : List Diagnostic
  reports : List Analysis.Report
  /-- The committed output, if there is one. -/
  output : Option String
  result : Except SessionError Unit

/-- The outcomes of a run, in input order. -/
structure Session where
  files : List FileOutcome

/-- The failure of a file, if it failed. -/
def FileOutcome.error? (f : FileOutcome) : Option SessionError :=
  match f.result with
  | .ok () => none
  | .error e => some e

/-- 0 if every file compiled, else the status of the first failure. -/
def Session.exitStatus (s : Session) : Int := ((s.files.findSome? FileOutcome.error?).map (·.exitStatus)).getD 0

/-- The state of a unit under compilation. -/
structure CompileUnit where
  diag : Diagnostics
  reports : List Analysis.Report := []
  outputs : Outputs

abbrev Compiling := ExceptT SessionError (StateM CompileUnit)

namespace Compiling

/-- A step on the unit's outputs. -/
def onOutputs {α : Type} (x : Outputs.Op α) : Compiling α := fun u =>
  let (a, outputs) := x u.outputs
  (a, { u with outputs })

def ofExcept {ε α : Type} (wrap : ε → SessionError) : Except ε α → Compiling α
  | .ok a => return a
  | .error e => throw (wrap e)

/-- Stops with an unrecoverable error on record. -/
def fatal {α : Type} (text : String) : Compiling α := fun u =>
  let (a, diag) := u.diag.fatal none text
  (.error (.aborted a), { u with diag })

/-- Stops with a broken invariant on record. -/
def internal {α : Type} (text : String) : Compiling α := fun u =>
  let (a, diag) := u.diag.internal text
  (.error (.aborted a), { u with diag })

/-! ### Reading -/

/-- The text of an input. One that cannot be read is fatal. -/
def inputText (input : String) : Compiling String := fun u =>
  let (text, host) := Host.readText input u.outputs.host
  let u := { u with outputs := { u.outputs with host } }
  match text with
  | .ok text => (.ok text, u)
  | .error e => fatal (SessionError.unreadable input e).message u

/-- The kernels of an input. -/
def readKernels (input : String) : Compiling (List Kernel) := do
  match Description.Graph.ofText? (← inputText input) with
  | none => throw (.malformed input)
  | some graph => ofExcept (.ofBuild input) (graph.build input)

/-! ### Analysing -/

/-- A kernel after its analysis. The graph's own defects and aborts end the
unit as they are; any other error is a broken invariant. -/
def analyzeKernel (device : Device) (tiling : TilingConfig) (k : Kernel) : Compiling Kernel := do
  let result := Analysis.analyze k device tiling (← get).diag
  modify fun u => { u with diag := result.diagnostics }
  match result.outcome with
  | .ok (.ready report) => modify fun u => { u with reports := u.reports ++ [report] }
  | .ok .infeasible => pure ()
  | .error (.fault f) => throw (.fault f)
  | .error (.aborted a) => throw (.aborted a)
  | .error e@(.kernel _) | .error e@(.cycle ..) => throw (.analysis e)
  | .error e => internal e.message
  return result.kernel

/-! ### Emitting -/

def emitKernel (k : Kernel) : Compiling Code.Program := do
  match Code.emit k with
  | .ok program => return program
  | .error (.fault f) => throw (.fault f)
  | .error e => internal e.message

/-- The name of the file for one kernel's source. -/
def sourceName (p : Code.Program) : String := p.entry ++ "." ++ codeExtension

def sourceText (p : Code.Program) : String := p.print Code.defaultIndent

/-! ### Validating -/

/-- Writes one source into the folder and starts the validator on it, if there is one. -/
def stageSource (folder : Place) (validator : List String) (p : Code.Program) : Hosted (Option Command) := do
  let path := Tree.placeText (folder ++ [sourceName p])
  .ofOutside (.write path) do
    let place ← ExceptT.mk (pure (Host.nameIn folder (sourceName p)))
    Host.writeFile place (sourceText p)
  match validator with
  | [] => return none
  | program :: args => return some (← start ⟨program, args ++ [path]⟩)

/-- Stages the sources up to the first failure. The commands started by then
are handed on with it. -/
def stageSources (folder : Place) (validator : List String) :
    List Code.Program → Host → (List Command × Except SessionError Unit) × Host
  | [], h => (([], .ok ()), h)
  | p :: rest, h => match stageSource folder validator p h with
    | (.error e, h) => (([], .error e), h)
    | (.ok started, h) =>
      let ((cmds, result), h) := stageSources folder validator rest h
      ((started.toList ++ cmds, result), h)

/-- Stages the sources in a temporary folder and waits for every validator. -/
def validate (validator : List String) (programs : List Code.Program) : Outputs.Op Unit := do
  let folder ← Outputs.tempFolder
  Outputs.onHost fun h =>
    let ((cmds, staged), h) := stageSources folder validator programs h
    let (waited, h) := waitAll cmds h
    (match staged with
      | .ok () => waited
      | .error e => .error e, h)

/-! ### Committing -/

/-- Writes the sources to the target as one program. -/
def commitSources (target : String) (programs : List Code.Program) : Outputs.Op String := do
  let id ← Outputs.openStream target
  programs.forM fun p => Outputs.write id (sourceText p)
  Outputs.commit id

end Compiling

open Compiling

/-- Compiles a unit; the path of its output, unless it is only checked. -/
def compileUnit (o : Options) (device : Device) (input : String) : Compiling (Option String) := do
  let kernels ← readKernels input
  let kernels ← kernels.mapM (analyzeKernel device o.tiling)
  let diag := (← get).diag
  if diag.hasErrors then throw (.failed input diag.errorCount)
  if o.checkOnly then return none
  let programs ← kernels.mapM emitKernel
  if o.keep || !o.validator.isEmpty then onOutputs (validate o.validator programs)
  return some (← onOutputs (commitSources (o.outputPath input codeExtension) programs))

/-- Compiles one file. Whatever happens, its outputs are closed before the
outcome is known. -/
def compileFile (o : Options) (device : Device) (input : String) (host : Host) : FileOutcome × Host :=
  let (result, u) := compileUnit o device input { diag := o.diagnostics, outputs := { host, keep := o.keep } }
  let (closing, outputs) := Outputs.close u.outputs
  let result : Except SessionError (Option String) := match result, closing with
    | .ok output, .ok () => .ok output
    | .error e, _ | .ok _, .error e => .error e
  let outcome : FileOutcome := {
    input
    diagnostics := u.diag.entries
    reports := u.reports
    output := (result.toOption).bind id
    result := result.map fun _ => () }
  (outcome, outputs.drop)

/-- Compiles files one after another, as a single worker does; steps of several workers are
not interleaved. -/
def compileFiles (o : Options) (device : Device) : List String → Host → List FileOutcome × Host
  | [], host => ([], host)
  | input :: rest, host =>
    let (outcome, host) := compileFile o device input host
    let (outcomes, host) := compileFiles o device rest host
    (outcome :: outcomes, host)

/-- Compiles every input of a run. -/
def compileAll (o : Options) (device : Device) : Hosted Session := fun host =>
  match o.check with
  | .error e => (.error (.usage e), host)
  | .ok () =>
    let (files, host) := compileFiles o device o.inputs host
    (.ok ⟨files⟩, host)

/-- Reads the target device. Problems of its description are left in the
diagnostics, and any error among them refuses the device. -/
def loadDevice (path : String) (host : Host) (diag : Diagnostics) : (Except SessionError Device × Diagnostics) × Host :=
  match Host.readText path host with
  | (.error e, host) => ((.error (.device (.unreadable path e.message)), diag), host)
  | (.ok text, host) => match Device.ofText text path diag with
    | (.error e, diag) => ((.error (.device e), diag), host)
    | (.ok device, diag) => match diag.exitIfError with
      | .error a => ((.error (.aborted a), diag), host)
      | .ok () => ((.ok device, diag), host)

end StencilTiling
