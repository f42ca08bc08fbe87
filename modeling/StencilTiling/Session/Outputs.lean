import StencilTiling.Session.Programs

/-! Output streams and temporary folders of one compilation. A stream is written
to a scratch file beside its target and only moved into place by a commit, so a
compilation that fails leaves no output behind. Closing discards what is left
and runs once. -/

namespace StencilTiling

/-- A stream that is open: its target, its scratch file and the text written so far. -/
structure OutStream where
  target : String
  scratch : Place
  text : String
  deriving DecidableEq, Repr

/-- The number of a stream. -/
abbrev StreamId := Nat

structure Outputs where
  host : Host
  /-- Temporary folders stay when the outputs are closed. -/
  keep : Bool
  tempFolders : List Place := []
  /-- Streams by number; absent once committed. -/
  streams : List (Option OutStream) := []
  closed : Bool := false

namespace Outputs

/-- Computations on the outputs of a compilation. -/
abbrev Op := ExceptT SessionError (StateM Outputs)

/-- A step on the host. -/
def onHost {α : Type} (x : Hosted α) : Op α := fun o =>
  let (a, host) := x o.host
  (a, { o with host })

/-- A step outside, with its failure as the session sees it. -/
def outside {α : Type} (wrap : IoError → SessionError) (x : Outside α) : Op α := onHost (.ofOutside wrap x)

/-- A fresh temporary folder. -/
def tempFolder : Op Place := do
  let p ← outside .tempFolder Host.makeTempFolder
  modify fun o => { o with tempFolders := o.tempFolders ++ [p] }
  return p

/-- A stream whose commit moves it to the target. -/
def openStream (target : String) : Op StreamId := do
  let scratch ← outside (.write target) (Host.makeScratch target)
  let id := (← get).streams.length
  modify fun o => { o with streams := o.streams ++ [some ⟨target, scratch, ""⟩] }
  return id

/-- The open stream of that number. -/
def stream (id : StreamId) : Op OutStream := do
  match (← get).streams[id]? with
  | some (some s) => return s
  | _ => throw (.unknownStream id)

def setStream (id : StreamId) (s : Option OutStream) : Op Unit :=
  modify fun o => { o with streams := o.streams.set id s }

/-- Writes text to a stream. -/
def write (id : StreamId) (text : String) : Op Unit := do
  let s ← stream id
  outside (.write s.target) Host.step
  setStream id (some { s with text := s.text ++ text })

/-- Removes a file or folder that nobody waits for. -/
def discard (x : Outside Unit) : Op Unit := fun o => (.ok (), { o with host := (x o.host).2 })

/-- Runs the last step of a stream; if it fails, the scratch file goes. -/
def orDiscard (s : OutStream) (x : Op Unit) : Op Unit := fun o =>
  match x o with
  | (.ok (), o) => (.ok (), o)
  | (.error e, o) => (.error e, (discard (Host.removeFile s.scratch) o).2)

/-- Flushes a stream and moves it to its target. -/
def commit (id : StreamId) : Op String := do
  let s ← stream id
  setStream id none
  orDiscard s (outside (.write s.target) (Host.writeFile s.scratch s.text))
  orDiscard s (outside (.persist s.target) (Host.rename s.scratch s.target))
  return s.target

/-- Streams that are open. -/
def openCount (o : Outputs) : Nat := (o.streams.filter Option.isSome).length

/-- Runs every step, then hands on the first failure. -/
def allOf : List (Op Unit) → Op Unit
  | [] => return
  | x :: rest => fun o =>
    let (first, o) := x o
    let (others, o) := allOf rest o
    (match first with
      | .ok () => others
      | .error e => .error e, o)

/-- Removes the scratch files of open streams, then the temporary folders unless they are kept. -/
def releases (o : Outputs) (keep : Bool) : List (Op Unit) :=
  let files := (o.streams.filterMap id).map fun s =>
    outside (.cleanup (Tree.placeText s.scratch)) (Host.removeFile s.scratch)
  let folders := o.tempFolders.map fun p => outside (.cleanup (Tree.placeText p)) (Host.removeFolder p)
  if keep then files else files ++ folders

/-- Releases everything that is open. -/
def release (keep : Bool) : Op Unit := do
  let o ← get
  set { o with streams := [], tempFolders := [] }
  allOf (o.releases keep)

/-- Discards open streams and temporary folders; later calls do nothing. -/
def close : Op Unit := do
  if (← get).closed then return
  modify fun o => { o with closed := true }
  release (← get).keep

/-- Gives the host back. What was opened after closing goes too. -/
def drop (o : Outputs) : Host :=
  let (_, o) := close o
  let (_, o) := release false o
  o.host

end Outputs

end StencilTiling
