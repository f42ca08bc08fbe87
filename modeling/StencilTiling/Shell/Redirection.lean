import StencilTiling.Shell.Builtins

/-! Redirections: where the descriptors of a command lead while it runs. -/

namespace StencilTiling.Shell

def setSink (sinks : List (Nat × Sink)) (fd : Nat) (s : Sink) : List (Nat × Sink) :=
  (fd, s) :: sinks.filter fun (n, _) => n != fd

/-- Why a file cannot be opened or made. -/
def openReason (absent : String) : IoError → String
  | .noSuchFile | .notFolder => absent
  | e => Job.reason e

/-- A file made ready for writing. -/
def openFile (p : Job) (path : String) (keep : Bool) : Except IoError (Job × Sink) :=
  match path with
  | "/dev/null" => .ok (p, .nowhere)
  | "/dev/stdout" | "/dev/fd/1" => .ok (p, (p.sinks.lookup 1).getD .nowhere)
  | "/dev/stderr" | "/dev/fd/2" => .ok (p, (p.sinks.lookup 2).getD .nowhere)
  | path => do
    let place ← p.resolve (barePath path)
    match p.tree.get? place with
    | some .folder => throw .isFolder
    | old =>
      if path.toList.getLast? == some '/' then throw .isFolder
      else if keep && old.isSome then return (p, .file place)
      else return ({ p with tree := p.tree.insert place (.file (.text "")) }, .file place)

/-- One redirection; a job without a new descriptor if it fails. -/
def redirectOne (sub : Substitute) (p : Job) (r : Redirect) : Job × Bool :=
  let (p, target) := expandText sub p r.target
  if !p.isOnward then (p, false)
  else
    let put (p : Job) (s : Sink) : Job × Bool := ({ p with sinks := setSink p.sinks r.fd s }, true)
    let give (p : Job) (s : String) : Job × Bool := put (if r.fd = 0 then { p with stdin := s } else p) .input
    let write (keep : Bool) : Job × Bool := match openFile p target keep with
      | .ok (p, s) => put p s
      | .error e =>
        let reason := openReason "Directory nonexistent" e
        (p.fail s!"cannot create {target}: {reason}", false)
    match r.kind with
    | .read => match p.read target with
      | .ok s => give p s
      | .error .isFolder => give p ""
      | .error e =>
        let reason := openReason "No such file" e
        (p.fail s!"cannot open {target}: {reason}", false)
    | .here => give p target
    | .write => write false
    | .append => write true
    | .copy =>
      if target == "-" then ({ p with sinks := p.sinks.filter fun (n, _) => n != r.fd }, true)
      else match Text.readDigits? target.toList with
        | none => (p.abort "Syntax error: Bad fd number", false)
        | some n => match p.sinks.lookup n with
          | some s => put p s
          | none => (p.fail s!"{n}: Bad file descriptor", false)

/-- Redirections in order, up to the first that fails. -/
def redirectAll (sub : Substitute) (p : Job) (rs : List Redirect) : Job × Bool :=
  rs.foldl (fun (p, ok) r => if ok then redirectOne sub p r else (p, ok)) (p, true)

/-- The descriptors as they were before redirections. -/
def Job.unredirect (p before : Job) (rs : List Redirect) : Job :=
  let p := { p with sinks := before.sinks }
  if rs.any fun r => r.fd = 0 then { p with stdin := before.stdin } else p

end StencilTiling.Shell
