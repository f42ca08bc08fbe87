import StencilTiling.Shell.Run

/-! Launching a program on a tree, and a host on which programs run. -/

namespace StencilTiling.Shell

/-- How deep commands may stand in commands. -/
def maxDepth : Nat := 4000

/-- One argument of a program is shorter than this, in bytes. -/
def maxArgumentBytes : Nat := 0x20000

/-- The variables of a program that nothing else has set. -/
def initialVars : List Variable :=
  [⟨"PATH", "/usr/local/sbin:/usr/local/bin:/usr/sbin:/usr/bin:/sbin:/bin", true, false⟩, ⟨"HOME", "/root", true, false⟩,
    ⟨"TMPDIR", Tree.placeText Host.usualTemp, true, false⟩]

/-- Why a program cannot be started; nothing if it can. -/
def launchError? (c : Command) (tree : Tree) (here : Place) : Option IoError :=
  let words := c.program :: c.args
  if words.any fun s => s.toList.contains '\x00' then some .badArgument
  else if words.any fun s => maxArgumentBytes ≤ s.utf8ByteSize then some .argumentsTooLong
  else if c.program.isEmpty then some .noSuchFile
  else if (programName? c.program).isSome then none
  else if c.program.toList.contains '/' then
    match tree.resolve here c.program with
    | .error e => some e
    | .ok place => match tree.get? place, tree.runnable.contains place with
      | none, _ => some .noSuchFile
      | some (.file content), true => match interpreter? content.octets with
        | some (name, _) => if (programName? name).isSome then none else some .noSuchFile
        | none => some .notProgram
      | some _, _ => some .permissionDenied
  else if c.program == "." || c.program == ".." then some .permissionDenied
  else if Tree.maxNameBytes < c.program.utf8ByteSize then some .nameTooLong
  else some .noSuchFile

/-- Starts a program and follows it to its end. -/
def launch : Launcher := fun c tree here =>
  match launchError? c tree here with
  | some e => .error e
  | none =>
    let folder : Variable := ⟨"PWD", Text.octets (Tree.placeText here), true, false⟩
    let job : Job := { tree, folder := here, name := Text.octets c.program, vars := folder :: initialVars }
    let (q, status) := runProgram (run maxDepth) programDepth job (Text.octets c.program) (c.args.map Text.octets)
    .ok { status, stdout := Text.ofOctets q.stdout, stderr := Text.ofOctets q.stderr, tree := q.tree }

/-- A host on which these programs run. -/
def host : Host := Host.new launch system

end StencilTiling.Shell
