import StencilTiling.Session.Compile

/-! The command line: options with a letter or a name, a value that stands in
the same argument or in the next, and paths of inputs. Arguments are taken from
left to right, and the first that makes no sense decides. -/

namespace StencilTiling.CommandLine

/-! ### Options -/

/-- What an option is about. -/
inductive Flag where
  | device
  | output
  | folder
  | granularity
  | scan
  | workGroups
  | workItems
  | tile
  | maxErrors
  | jobs
  | keep
  | parse
  | report
  | validate
  | verbose
  | help
  | version
  deriving DecidableEq, Repr

namespace Flag

def ofLetter? : Char → Option Flag
  | 'd' => some device
  | 'o' => some output
  | 'j' => some jobs
  | 'v' => some verbose
  | 'h' => some help
  | 'V' => some version
  | _ => none

def ofName? : String → Option Flag
  | "target-device" => some device
  | "outdir" => some folder
  | "granularity" => some granularity
  | "scan" => some scan
  | "nb-wg" => some workGroups
  | "nb-wi" => some workItems
  | "tile" => some tile
  | "max-errors" => some maxErrors
  | "jobs" => some jobs
  | "keep" => some keep
  | "parse" => some parse
  | "report" => some report
  | "validate" => some validate
  | "verbose" => some verbose
  | "help" => some help
  | "version" => some version
  | _ => none

/-- Whether a value goes with the option. -/
def takesValue : Flag → Bool
  | keep | parse | report | verbose | help | version => false
  | _ => true

end Flag

/-! ### Choices -/

/-- What the arguments say. -/
structure Choices where
  inputs : List String := []
  device : Option String := none
  output : Option String := none
  folder : Option String := none
  granularity : Option Granularity := none
  scan : Option ScanOrder := none
  workGroups : Option Nat := none
  workItems : Option Nat := none
  tile : Option Size := none
  maxErrors : Option Nat := none
  jobs : Option Nat := none
  keep : Bool := false
  parse : Bool := false
  report : Bool := false
  validator : List String := []
  verbosity : Nat := 0
  deriving DecidableEq, Repr

/-- Why the arguments are not followed. -/
inductive Stop where
  | usage
  | help
  | version
  deriving DecidableEq, Repr

/-- Arguments taken so far, or a reason to stop. -/
abbrev Reading := Except Stop Choices

namespace Choices

/-- A value for a choice that has none yet. -/
def once {α : Type} (old : Option α) (value : Option α) : Except Stop (Option α) :=
  match old, value with
  | none, some v => .ok (some v)
  | _, _ => .error .usage

/-- Paths are never empty. -/
def path? (s : String) : Option String := if s.isEmpty then none else some s

def count? (s : String) : Option Nat := Text.readNat? s.toList

/-- Takes an option with its value. Options are given once, but the validator's
words add up. -/
def value (c : Choices) (flag : Flag) (s : String) : Reading := do
  match flag with
  | .device => return { c with device := ← once c.device (path? s) }
  | .output => return { c with output := ← once c.output (some s) }
  | .folder => return { c with folder := ← once c.folder (path? s) }
  | .granularity => return { c with granularity := ← once c.granularity (Granularity.ofText? s) }
  | .scan => return { c with scan := ← once c.scan (ScanOrder.ofText? s) }
  | .workGroups => return { c with workGroups := ← once c.workGroups (count? s) }
  | .workItems => return { c with workItems := ← once c.workItems (count? s) }
  | .tile => return { c with tile := ← once c.tile (TilingConfig.parseTile? s) }
  | .maxErrors => return { c with maxErrors := ← once c.maxErrors (count? s) }
  | .jobs => return { c with jobs := ← once c.jobs (count? s) }
  | .validate =>
    return { c with validator := c.validator ++ (Text.splitAt (· == ' ') s.toList).map String.ofList }
  | _ => throw .usage

/-- Takes an option without a value. -/
def switch (c : Choices) (flag : Flag) : Reading :=
  match flag with
  | .keep => if c.keep then .error .usage else .ok { c with keep := true }
  | .parse => if c.parse then .error .usage else .ok { c with parse := true }
  | .report => if c.report then .error .usage else .ok { c with report := true }
  | .verbose => .ok { c with verbosity := min (c.verbosity + 1) 255 }
  | .help => .error .help
  | .version => .error .version
  | _ => .error .usage

/-- Takes a path of an input. -/
def input (c : Choices) (s : String) : Reading :=
  match path? s with
  | some path => .ok { c with inputs := c.inputs ++ [path] }
  | none => .error .usage

/-- Takes letters after one dash. A letter with a value takes the rest, if there
is a rest, and waits for the next argument otherwise. -/
def letters (c : Choices) : List Char → Except Stop (Choices × Option Flag)
  | [] => .ok (c, none)
  | x :: rest => match Flag.ofLetter? x with
    | none => .error .usage
    | some flag =>
      if flag.takesValue then
        match rest with
        | [] => .ok (c, some flag)
        | '=' :: s | s => (c.value flag (String.ofList s)).map fun c => (c, none)
      else do letters (← c.switch flag) rest

/-- Takes a name after two dashes, with its value behind an equals sign if it has one there. -/
def name (c : Choices) (cs : List Char) : Except Stop (Choices × Option Flag) :=
  let (name, attached) : List Char × Option (List Char) := match Text.splitOnce '=' cs with
    | some (name, s) => (name, some s)
    | none => (cs, none)
  match Flag.ofName? (String.ofList name), attached with
  | none, _ => .error .usage
  | some flag, some s =>
    if flag.takesValue then (c.value flag (String.ofList s)).map fun c => (c, none) else .error .usage
  | some flag, none =>
    if flag.takesValue then .ok (c, some flag) else (c.switch flag).map fun c => (c, none)

/-- Whether an argument looks like an option. -/
def isOption : List Char → Bool
  | ['-'] => false
  | '-' :: _ => true
  | _ => false

/-- Takes the arguments in order; `pending` waits for its value. -/
def read (c : Choices) (pending : Option Flag) : List String → Reading
  | [] => if pending.isSome then .error .usage else .ok c
  | arg :: rest =>
    let cs := arg.toList
    match pending with
    | some flag => if isOption cs then .error .usage else do read (← c.value flag arg) none rest
    | none => match cs with
      | ['-', '-'] => rest.foldlM input c
      | '-' :: '-' :: name => do
        let (c, pending) ← c.name name
        read c pending rest
      | '-' :: x :: more => do
        let (c, pending) ← c.letters (x :: more)
        read c pending rest
      | _ => do read (← c.input arg) none rest

/-- The choices of complete arguments: a device and at least one input. -/
def ofArgs (args : List String) : Reading := do
  let c ← read {} none args
  if c.device.isNone || c.inputs.isEmpty then throw .usage else return c

/-- The options of a run: the environment's defaults under the choices. -/
def options (c : Choices) (env : Environment) : Options :=
  let defaults := TilingConfig.ofEnvironment env
  { inputs := c.inputs
    device := c.device.getD ""
    program := c.output
    folder := c.folder.getD "."
    tiling := .ofChoices (c.granularity.getD defaults.mode) (c.scan.getD defaults.scan)
      (c.workGroups.or defaults.workGroups) (c.workItems.or defaults.workItems) (c.tile.or defaults.tile)
    maxErrors := Options.maxErrorsOf env c.maxErrors
    verbosity := c.verbosity
    jobs := Options.jobsOf c.jobs
    keep := c.keep
    checkOnly := c.parse
    validator := c.validator }

end Choices

/-! ### Runs -/

/-- What a run leaves: its exit status and what it prints. -/
structure Transcript where
  status : Int
  stdout : String := ""
  stderr : String := ""
  deriving DecidableEq, Repr

def programName : String := "kgenc"

def versionText : String := programName ++ " 0.1.0\n"

def usageText : String := s!"Usage: {programName} [OPTIONS] -d <DEVICE> <INPUTS>...\n"

/-- Lines, each ended. -/
def linesText (lines : List String) : String := String.join (lines.map (· ++ "\n"))

def displays (entries : List Diagnostic) : String := linesText (entries.map Diagnostic.display)

/-- What is said about one file on the error stream. -/
def fileText (f : FileOutcome) : String :=
  displays f.diagnostics ++ linesText (f.error?.toList.map fun e => s!"{f.input}: {e.message}")

def reportText (f : FileOutcome) : String :=
  String.join (f.reports.map fun r => r.tiling.text ++ r.memory.text)

/-- An exit status as the outside sees it. -/
def exitCode (status : Int) : Int := if 0 ≤ status ∧ status < 256 then status else 1

/-- Runs the choices on a host. -/
def runChoices (c : Choices) (env : Environment) (host : Host) : Transcript × Host :=
  let o := c.options env
  let ((device, diag), host) := loadDevice o.device host (.new o.maxErrors 0)
  let said := displays diag.entries
  match device with
  | .error e => ({ status := exitCode e.exitStatus, stderr := said }, host)
  | .ok device => match compileAll o device host with
    | (.error e, host) =>
      ({ status := exitCode e.exitStatus, stderr := said ++ s!"{programName}: {e.message}\n" }, host)
    | (.ok session, host) =>
      ({ status := exitCode session.exitStatus
         stdout := if c.report then String.join (session.files.map reportText) else ""
         stderr := said ++ String.join (session.files.map fileText) }, host)

/-- Runs a command line on a host. -/
def run (args : List String) (env : Environment) (host : Host) : Transcript × Host :=
  match Choices.ofArgs args with
  | .ok c => runChoices c env host
  | .error .usage => ({ status := 2, stderr := usageText }, host)
  | .error .help => ({ status := 0, stdout := usageText }, host)
  | .error .version => ({ status := 0, stdout := versionText }, host)

end StencilTiling.CommandLine
