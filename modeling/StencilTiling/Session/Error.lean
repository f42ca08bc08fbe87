import StencilTiling.Analysis.Error
import StencilTiling.Description.Build
import StencilTiling.Device.Draft
import StencilTiling.Host.Basic

/-! What ends the compilation of one input, or of the whole run. -/

namespace StencilTiling

/-- Choices that do not go together. -/
inductive UsageError where
  | noInput
  | programForMany
  deriving DecidableEq, Repr

def UsageError.message : UsageError → String
  | noInput => "no file to compile in the command line"
  | programForMany => "cannot specify -o with multiple files"

inductive SessionError where
  | usage (e : UsageError)
  | unreadable (path : String) (e : IoError)
  | malformed (path : String)
  | content (file : String) (e : Description.BuildError)
  | kernel (e : KernelError)
  | device (e : DeviceError)
  | analysis (e : AnalysisError)
  | aborted (a : Abort)
  | failed (file : String) (count : Nat)
  | tempFolder (e : IoError)
  | write (path : String) (e : IoError)
  | persist (path : String) (e : IoError)
  | cleanup (path : String) (e : IoError)
  | unknownStream (index : Nat)
  | start (program : String) (e : IoError)
  | program (program : String) (status : Nat) (stderr : String)
  | fault (f : Fault)
  deriving DecidableEq, Repr

namespace SessionError

def message : SessionError → String
  | usage e => e.message
  | unreadable path e => s!"cannot read '{path}': {e.message}"
  | malformed path => s!"'{path}' is not a kernel graph description"
  | content file e => s!"{file}: {e.message}"
  | kernel e => e.message
  | device e => e.message
  | analysis e => e.message
  | aborted a => a.message
  | failed file count => s!"{file}: {count} error(s), no output generated"
  | tempFolder e => s!"cannot create a temporary directory: {e.message}"
  | write path e => s!"cannot write '{path}': {e.message}"
  | persist path e => s!"cannot move the output to '{path}': {e.message}"
  | cleanup path e => s!"cleanup failed for '{path}': {e.message}"
  | unknownStream index => s!"unknown output stream #{index}"
  | start name e => s!"cannot run '{name}': {e.message}"
  | program name status _ => s!"'{name}' failed with status {status}"
  | fault _ => "fault"

/-- The exit status a run ends with on this error. -/
def exitStatus : SessionError → Int
  | program _ status _ => status
  | aborted a => a.exitStatus
  | fault _ => 101
  | _ => 1

/-- A description's own defects keep the name of its file; the kernel's do not. -/
def ofBuild (file : String) : Description.BuildError → SessionError
  | .kernel e => kernel e
  | e => content file e

end SessionError

end StencilTiling
