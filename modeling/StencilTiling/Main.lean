import StencilTiling.CommandLine
import StencilTiling.Shell.Launch

/-! The program. The files that the arguments name are read into a tree, the
command line runs on it, and what changed goes back to the disk. -/

namespace StencilTiling.Main

/-- The variables that a run looks at. -/
def variableNames : List String :=
  ["KGEN_GRANULARITY", "KGEN_SCAN_ORDER", "KGEN_NB_WG", "KGEN_NB_WI", "KGEN_TILE", "KGEN_MAX_ERRORS"]

def readEnvironment : IO Environment := do
  let vars ← variableNames.filterMapM fun name => return (← IO.getEnv name).map fun s => (name, s)
  return ⟨vars⟩

/-- Adds what stands on the disk at a path, if anything does. -/
def loadEntry (tree : Tree) (path : String) : IO Tree := do
  try
    let real ← IO.FS.realPath path
    let place := Path.names real.toString
    if ← real.isDir then return tree.makeFolders place
    let bytes ← IO.FS.readBinFile path
    return tree.addFile place (.ofBytes bytes.data.toList)
  catch _ => return tree

/-- Adds a path and the folders on the way to it. -/
def loadPath (tree : Tree) (path : String) : IO Tree := do
  let pieces := Path.pieces path
  let stations := (List.range pieces.length).map fun n => "/".intercalate (pieces.take (n + 1))
  (stations.filter (!·.isEmpty)).foldlM loadEntry tree

/-- The paths that a run may look at. -/
def pathsOf (o : Options) : List String :=
  o.device :: o.folder :: o.inputs ++ o.inputs.map fun input => o.outputPath input codeExtension

/-- The host of a run. -/
def loadHost (o : Options) : IO Host := do
  let home := Path.names (← IO.FS.realPath ".").toString
  let tempPath := (← IO.getEnv "TMPDIR").getD "/tmp"
  let temp := Path.names (← IO.FS.realPath tempPath).toString
  let tree := (({} : Tree).makeFolders home).makeFolders temp
  let taken ← (← IO.FS.realPath tempPath).readDir
  let tree := taken.foldl (fun t e => t.insert (temp ++ [e.fileName]) .folder) tree
  let tree ← (pathsOf o).foldlM loadPath tree
  return { tree, home, temp, launcher := Shell.launch }

/-- Writes the files that a run changed and removes those it removed. -/
def store (before after : Tree) : IO Unit := do
  for (place, content) in Tree.changes before after [] do
    let path := Tree.placeText place
    IO.FS.createDirAll (Tree.placeText place.dropLast)
    match content with
    | .text s => IO.FS.writeFile path s
    | .bytes b => IO.FS.writeBinFile path ⟨b.toArray⟩
  for (place, _) in before.files do
    if (after.get? place).isNone then IO.FS.removeFile (Tree.placeText place)

end StencilTiling.Main

open StencilTiling in
def main (args : List String) : IO UInt32 := do
  let env ← Main.readEnvironment
  let host ← match CommandLine.Choices.ofArgs args with
    | .ok c => Main.loadHost (c.options env)
    | .error _ => pure (Shell.host)
  let (transcript, after) := CommandLine.run args env host
  Main.store host.tree after.tree
  (← IO.getStdout).putStr transcript.stdout
  (← IO.getStderr).putStr transcript.stderr
  return transcript.status.toNat.toUInt32
