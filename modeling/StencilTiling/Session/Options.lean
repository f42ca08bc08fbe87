import StencilTiling.Analysis.Config
import StencilTiling.Diagnostics
import StencilTiling.Host.Tree
import StencilTiling.Session.Error

/-! What a run is asked to do. -/

namespace StencilTiling

structure Options where
  inputs : List String
  /-- Path of the target device's description. -/
  device : String
  /-- Name of the generated program; the input's own otherwise. -/
  program : Option String := none
  folder : String := "."
  tiling : TilingConfig := {}
  maxErrors : Nat
  verbosity : Nat := 0
  /-- Workers to use; as many as there are otherwise. -/
  jobs : Option Nat := none
  /-- Keep the sources of single kernels. -/
  keep : Bool := false
  /-- Analyse only, write nothing. -/
  checkOnly : Bool := false
  /-- Command run on the source of every kernel before the output is committed. -/
  validator : List String := []
  deriving DecidableEq, Repr

namespace Options

/-- A bound of zero errors says nothing, so the environment's is taken. -/
def maxErrorsOf (env : Environment) (choice : Option Nat) : Nat :=
  (choice.filter (0 < ·)).getD (Diagnostics.maxErrorsOf env)

/-- Zero workers say nothing. -/
def jobsOf (choice : Option Nat) : Option Nat := choice.filter (0 < ·)

/-- Refuses choices that do not go together. -/
def check (o : Options) : Except UsageError Unit :=
  if o.inputs.isEmpty then .error .noInput
  else if o.program.isSome && o.inputs.length != 1 then .error .programForMany
  else .ok ()

/-- A fresh record for one compilation unit. -/
def diagnostics (o : Options) : Diagnostics := .new o.maxErrors o.verbosity

/-- Endings that an input's name loses. -/
def inputEndings : List (List Char) := [".json".toList, ".ikg".toList, ".kg".toList]

/-- The name before the first ending that it has. -/
def stripEnding? (name : List Char) : Option (List Char) :=
  (inputEndings.find? fun e => e.isSuffixOf name).map fun e => name.take (name.length - e.length)

/-- Strips endings as long as there are any; each is longer than nothing. -/
def stripEndings (fuel : Nat) (name : List Char) : List Char :=
  match fuel with
  | 0 => name
  | fuel + 1 => match stripEnding? name with
    | some shorter => stripEndings fuel shorter
    | none => name

/-- The name of the program generated from an input. -/
def programName (o : Options) (input : String) : String :=
  match o.program with
  | some name => name
  | none =>
    let name := ((Path.fileName? input).getD "").toList
    let stem := stripEndings name.length name
    if stem.isEmpty then "kernel" else String.ofList stem

/-- Where the output of an input goes. -/
def outputPath (o : Options) (input extension : String) : String :=
  Path.join o.folder (o.programName input ++ "." ++ extension)

end Options

end StencilTiling
