import StencilTiling.Session.Error

/-! Starting programs and waiting for them. Several may be started before the
first is waited for; what a program does shows when it is waited for. -/

namespace StencilTiling

/-- Computations of a session on its host. -/
abbrev Hosted := ExceptT SessionError (StateM Host)

/-- A step outside, with its failure as the session sees it. -/
def Hosted.ofOutside {α : Type} (wrap : IoError → SessionError) (x : Outside α) : Hosted α := fun h =>
  match x h with
  | (.ok a, h) => (.ok a, h)
  | (.error e, h) => (.error (wrap e), h)

/-- Starts a command, if its program can be found. -/
def start (cmd : Command) : Hosted Command :=
  .ofOutside (.start cmd.program) <| Host.observe fun h => (h.launcher cmd h.tree h.home).map fun _ => cmd

/-- Follows a started command to its end. -/
def finish (cmd : Command) : Outside Execution := do
  let done ← Host.observe fun h => h.launcher cmd h.tree h.home
  modify fun h => { h with tree := done.tree }
  return done

/-- Waits for a started command, which must succeed. -/
def wait (cmd : Command) : Hosted Execution := do
  let done ← .ofOutside (.start cmd.program) (finish cmd)
  if done.status = .exited 0 then return done
  else throw (.program cmd.program done.status.code (String.ofList (Text.trimEnd done.stderr.toList)))

/-- Runs a command to its end. -/
def runCommand (cmd : Command) : Hosted Execution := do wait (← start cmd)

/-- Waits for every command, then hands on the first failure. -/
def waitAll : List Command → Hosted Unit
  | [] => return
  | cmd :: rest => fun h =>
    let (first, h) := wait cmd h
    let (others, h) := waitAll rest h
    (match first with
      | .ok _ => others
      | .error e => .error e, h)

/-- Starts every command, then waits for all of them. -/
def runAll (cmds : List Command) : Hosted Unit := do
  let started ← cmds.mapM start
  waitAll started

end StencilTiling
