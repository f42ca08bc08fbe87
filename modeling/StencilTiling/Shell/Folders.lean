import StencilTiling.Shell.Files

/-! Programs that make, remove, copy, move and link files and folders. -/

namespace StencilTiling.Shell

/-- Why nothing can be put at a path; a path that ends in a slash asks for a folder. -/
def absentReason (path : String) (e : IoError) : String :=
  if e == .noSuchFile && path.toList.getLast? == some '/' then Job.reason .notFolder else Job.reason e

/-! ### Making and removing folders -/

/-- A path up to each of its names. -/
def pathStages (path : String) : List String :=
  let pieces := Path.pieces path
  let stages := (List.range pieces.length).filterMap fun n =>
    if (pieces[n]?).any fun s => s.isEmpty then none else some ("/".intercalate (pieces.take (n + 1)))
  stages

def makeFolder (g : Given) (p : Job) (path : String) : Except IoError Job := do
  let place ← p.locate (barePath path)
  match p.tree.get? place with
  | some _ => throw .fileExists
  | none =>
    let p := { p with tree := p.tree.insert place .folder }
    return if g.has 'v' then p.print s!"{p.name}: created directory '{path}'\n" else p

/-- Makes every folder on the way that is missing. -/
def makeStages (g : Given) (p : Job) (path : String) : Job :=
  let stages := pathStages (barePath path)
  stages.foldl (fun p stage =>
    if p.status != 0 || p.isFolder stage then p
    else match makeFolder g p stage with
      | .ok p => p
      | .error e =>
        let e := if e == .fileExists && stages.getLast? != some stage then .notFolder else e
        (p.report s!"cannot create directory '{stage}': {Job.reason e}").leave 1) p

def mkdir (p : Job) (g : Given) : Job :=
  g.operands.foldl (fun p path =>
    if g.has 'p' then
      let q := makeStages g (p.leave 0) path
      q.leave (max p.status q.status)
    else match makeFolder g p path with
      | .ok p => p
      | .error e => (p.report s!"cannot create directory '{path}': {Job.reason e}").leave 1) p

def rmdir (p : Job) (g : Given) : Job :=
  g.operands.foldl (fun p path =>
    let refuse (p : Job) (e : IoError) : Job :=
      (p.report s!"failed to remove '{path}': {Job.reason e}").leave 1
    match p.locate (barePath path) with
    | .error e => refuse p e
    | .ok place => match p.tree.get? place with
      | none => refuse p .noSuchFile
      | some .folder =>
        if (p.tree.names place).isEmpty then { p with tree := p.tree.erase place } else refuse p .notEmpty
      | some _ => refuse p .notFolder) p

/-! ### Removing -/

/-- Says what is removed, the innermost first. -/
def sayRemoved (p : Job) (place : Place) (path : String) : Job :=
  let below := (p.tree.entries.filter fun (q, _) => place.isPrefixOf q).mergeSort fun a b => !decide (a.1.length < b.1.length)
  below.foldl (fun p (q, e) =>
    let shown := "/".intercalate (barePath path :: (q.drop place.length).map Text.octets)
    p.print (if e == .folder then s!"removed directory '{shown}'\n" else s!"removed '{shown}'\n")) p

def rm (p : Job) (g : Given) : Job :=
  let deep := g.has 'r' || g.has 'R'
  g.operands.foldl (fun p path =>
    let refuse (p : Job) (note : String) : Job := (p.report s!"cannot remove '{path}': {note}").leave 1
    let gone (p : Job) (e : IoError) : Job :=
      if g.has 'f' && (e == .noSuchFile || e == .notFolder) then p else refuse p (Job.reason e)
    let last := ((Path.pieces (barePath path)).getLast?).getD ""
    match p.locate path with
    | .error e => gone p e
    | .ok place => match p.tree.get? place with
      | none => gone p .noSuchFile
      | some .folder =>
        if deep then
          if last == "." || last == ".." then
            (p.report s!"refusing to remove '.' or '..' directory: skipping '{path}'").leave 1
          else if place.isEmpty then
            ((p.report "it is dangerous to operate recursively on '/'").report
              "use --no-preserve-root to override this failsafe").leave 1
          else
            let p := if g.has 'v' then sayRemoved p place path else p
            { p with tree := p.tree.eraseBelow place }
        else if g.has 'd' then
          if (p.tree.names place).isEmpty then { p with tree := p.tree.erase place } else refuse p (Job.reason .notEmpty)
        else refuse p (Job.reason .isFolder)
      | some _ =>
        let p := if g.has 'v' then sayRemoved p place path else p
        { p with tree := p.tree.erase place }) p

/-! ### Copying, moving, linking -/

/-- The last name of a path. -/
def lastName (path : String) : String := ((Path.pieces (barePath path)).getLast?).getD ""

/-- Why a path is no folder. -/
def folderReason (p : Job) (path : String) : String :=
  match p.resolve path with
  | .error e => Job.reason e
  | .ok place => if (p.tree.get? place).isSome then Job.reason .notFolder else Job.reason .noSuchFile

/-- What goes where. -/
def pairsOf (p : Job) (g : Given) : Except String (List (String × String)) :=
  let into (folder : String) (sources : List String) : List (String × String) :=
    sources.map fun s => (s, Path.join folder (lastName s))
  match g.value? 't', g.operands.getLast?, g.operands.dropLast with
  | some folder, _, _ =>
    if p.isFolder folder then .ok (into folder g.operands)
    else
      let reason := folderReason p folder
      .error s!"target directory '{folder}': {reason}"
  | none, none, _ => .ok []
  | none, some only, [] => .error s!"missing destination file operand after '{only}'"
  | none, some path, sources =>
    if p.isFolder path && !g.has 'T' then .ok (into path sources)
    else match sources with
      | [source] => .ok [(source, path)]
      | _ =>
        let reason := folderReason p path
        .error s!"target '{path}': {reason}"

/-- Does something with each pair. -/
def eachPair (f : Given → Job → String → String → Job) (p : Job) (g : Given) : Job :=
  match pairsOf p g with
  | .ok pairs => pairs.foldl (fun p (source, target) => f g p source target) p
  | .error note =>
    if g.operands.length < 2 && (g.value? 't').isNone then misuse p note 1 else (p.report note).leave 1

/-- Copies a folder and all that is in it. -/
def copyFolder (p : Job) (source target : String) (place : Place) : Job :=
  match p.locate (barePath target) with
  | .error e => (p.report s!"cannot create directory '{target}': {Job.reason e}").leave 1
  | .ok aim =>
    if place.isPrefixOf aim then
      (p.report s!"cannot copy a directory, '{source}', into itself, '{target}'").leave 1
    else if (p.tree.get? aim).any (· != .folder) then
      (p.report s!"cannot overwrite non-directory '{target}' with directory '{source}'").leave 1
    else
      let copied (q : Place) : Place := aim ++ q.drop place.length
      let below := p.tree.entries.filter fun (q, _) => place.isPrefixOf q
      let tree := below.reverse.foldl (fun t (q, e) => t.insert (copied q) e) p.tree
      let runnable := (p.tree.runnable.filter fun q => place.isPrefixOf q).map copied
      { p with tree := { tree with runnable := runnable ++ tree.runnable } }

def copyFile (p : Job) (source target : String) (place : Place) (content : Content) : Job :=
  match p.resolve target with
  | .error e => (p.report s!"cannot create regular file '{target}': {absentReason target e}").leave 1
  | .ok aim =>
    if aim = place then (p.report s!"'{source}' and '{target}' are the same file").leave 1
    else match p.tree.get? aim with
      | some .folder => (p.report s!"cannot overwrite directory '{target}' with non-directory").leave 1
      | old =>
        let runs := old.isNone && p.tree.runnable.contains place
        let tree := p.tree.insert aim (.file content)
        { p with tree := if runs then { tree with runnable := aim :: tree.runnable } else tree }

def copyOne (g : Given) (p : Job) (source target : String) : Job :=
  let deep := g.has 'r' || g.has 'R' || g.has 'a'
  let missing (e : IoError) : Job := (p.report s!"cannot stat '{source}': {Job.reason e}").leave 1
  if g.has 'n' && (p.entryAt? target).isSome then p
  else match p.resolve source with
    | .error e => missing e
    | .ok place =>
      let q := match p.tree.get? place with
        | some .folder =>
          if deep then copyFolder p source target place
          else (p.report s!"-r not specified; omitting directory '{source}'").leave 1
        | some (.file content) => copyFile p source target place content
        | _ => if source == Job.nullDevice then copyFile p source target place (.text "") else missing .noSuchFile
      if g.has 'v' && q.status == 0 then q.print s!"'{source}' -> '{target}'\n" else q

def moveOne (g : Given) (p : Job) (source target : String) : Job :=
  let refuse (note : String) : Job := (p.report s!"{note}").leave 1
  match p.locate source with
  | .error e => refuse s!"cannot stat '{source}': {Job.reason e}"
  | .ok place => match p.tree.get? place, p.locate (if p.isFolder source then barePath target else target) with
    | none, _ => refuse s!"cannot stat '{source}': {Job.reason .noSuchFile}"
    | some _, .error e => refuse s!"cannot move '{source}' to '{target}': {absentReason target e}"
    | some entry, .ok aim =>
      let isFolder := entry == .folder
      if g.has 'n' && (p.tree.get? aim).isSome then p
      else if place = aim then refuse s!"'{source}' and '{target}' are the same file"
      else if isFolder && place.isPrefixOf aim then
        refuse s!"cannot move '{source}' to a subdirectory of itself, '{target}'"
      else match p.tree.get? aim, isFolder with
        | some .folder, false => refuse s!"cannot overwrite directory '{target}' with non-directory"
        | some (.file _), true | some (.link _), true =>
          refuse s!"cannot overwrite non-directory '{target}' with directory '{source}'"
        | old, _ =>
          if old == some .folder && !(p.tree.names aim).isEmpty then
            refuse s!"cannot overwrite '{target}': {Job.reason .notEmpty}"
          else
            let folder := if place.isPrefixOf p.folder then aim ++ p.folder.drop place.length else p.folder
            let p := { p with tree := p.tree.move place aim, folder }
            if g.has 'v' then p.print s!"renamed '{source}' -> '{target}'\n" else p

/-- Makes a link by name, or a second entry with the same content. -/
def linkOne (g : Given) (p : Job) (source target : String) : Job :=
  let refuse (note : String) : Job := (p.report s!"{note}").leave 1
  let kind := if g.has 's' then "symbolic link" else "hard link"
  let entry : Except String Entry :=
    if g.has 's' then .ok (.link (Text.ofOctets source))
    else match p.locate source with
      | .error e => .error s!"failed to access '{source}': {Job.reason e}"
      | .ok place => match p.tree.get? place with
        | none => .error s!"failed to access '{source}': {Job.reason .noSuchFile}"
        | some .folder => .error s!"{source}: hard link not allowed for directory"
        | some e => .ok e
  match entry, p.locate target with
  | .error note, _ => refuse note
  | .ok _, .error e => refuse s!"failed to create {kind} '{target}': {Job.reason e}"
  | .ok entry, .ok aim =>
    if (p.tree.get? aim).isSome && !g.has 'f' then
      refuse s!"failed to create {kind} '{target}': {Job.reason .fileExists}"
    else { p with tree := p.tree.insert aim entry }

def cp : Job → Given → Job := eachPair copyOne

def mv : Job → Given → Job := eachPair moveOne

/-- One operand alone is linked into the working folder. -/
def ln (p : Job) (g : Given) : Job :=
  match g.operands with
  | [only] => eachPair linkOne p { g with operands := [only, "."] }
  | _ => eachPair linkOne p g

/-! ### Rights -/

/-- Whether a mode lets a file run: nothing for a mode that makes no sense. -/
def modeRuns? (mode : String) (before : Bool) : Option Bool :=
  let isOctal := !mode.isEmpty && mode.toList.all fun c => '0' ≤ c && c ≤ '7'
  if isOctal then some (mode.toList.any fun c => (c.toNat - '0'.toNat) % 2 == 1)
  else (Text.splitAt (· == ',') mode.toList).foldl (fun runs clause => runs.bind fun runs =>
    let change := clause.dropWhile fun c => "ugoa".toList.contains c
    match change with
    | sign :: rights =>
      let valid := "+-=".toList.contains sign && rights.all fun c => "rwxXst".toList.contains c
      if !valid then none
      else if sign == '=' then some (rights.contains 'x')
      else if rights.contains 'x' then some (sign == '+') else some runs
    | [] => none) (some before)

def chmod (p : Job) (args : List String) : Job :=
  let args := args.dropWhile fun s => ["-R", "-v", "-f", "-c", "--"].contains s
  match args with
  | [] => misuse p "missing operand" 1
  | [mode] => misuse p s!"missing operand after '{mode}'" 1
  | mode :: paths =>
    if (modeRuns? mode false).isNone then misuse p s!"invalid mode: '{mode}'" 1
    else paths.foldl (fun p path =>
      match p.resolve path with
      | .error e => (p.report s!"cannot access '{path}': {Job.reason e}").leave 1
      | .ok place =>
        if (p.tree.get? place).isNone then
          (p.report s!"cannot access '{path}': {Job.reason .noSuchFile}").leave 1
        else
          let others := p.tree.runnable.filter (· != place)
          let runs := (modeRuns? mode (p.tree.runnable.contains place)).getD false
          { p with tree := { p.tree with runnable := if runs then place :: others else others } }) (p.leave 0)

/-! ### Looking around -/

def ls (p : Job) (g : Given) : Job :=
  let all := g.has 'a' || g.has 'f'
  let shown (place : Place) : String :=
    let names := namesIn p.tree place
    let dots := if all then [".", ".."] else []
    let names := if all || g.has 'A' then names else names.filter fun s => s.toList.head? != some '.'
    let names := if g.has 'r' then (dots ++ names).reverse else dots ++ names
    String.join (names.map (· ++ "\n"))
  let paths := if g.operands.isEmpty then ["."] else g.operands
  let isThere (path : String) : Bool := (p.standing? path).isSome || (p.entryAt? path).isSome
  let q := (paths.filter fun path => !isThere path).foldl (fun q path => match p.resolve path with
    | .error e => (q.report s!"cannot access '{path}': {Job.reason e}").leave 2
    | .ok _ => (q.report s!"cannot access '{path}': {Job.reason .noSuchFile}").leave 2) p
  let sorted := (paths.filter isThere).mergeSort fun a b => !decide (b < a)
  let isFile (path : String) : Bool := g.has 'd' || !p.isFolder path
  let q := (sorted.filter isFile).foldl (fun q path => q.print (path ++ "\n")) q
  (sorted.filter fun path => !isFile path).zipIdx.foldl (fun q (path, i) => match p.resolve path with
    | .ok place =>
      let heading := (if 0 < i || sorted.any isFile then "\n" else "") ++ path ++ ":\n"
      (if 1 < paths.length then q.print heading else q).print (shown place)
    | .error _ => q) q

/-- What a search asks of a file. -/
structure FindFilter where
  name : Option (List Wild) := none
  folders : Option Bool := none
  empty : Bool := false
  deepest : Option Nat := none
  least : Nat := 0
  deletes : Bool := false

def findFilter : List String → FindFilter → FindFilter
  | "-name" :: s :: rest, f =>
    let cs := s.toList.map fun c => (c, false)
    findFilter rest { f with name := some (Wild.ofMarked (cs.length + 1) cs) }
  | "-type" :: s :: rest, f => findFilter rest { f with folders := some (s == "d") }
  | "-maxdepth" :: s :: rest, f => findFilter rest { f with deepest := Text.readDigits? s.toList }
  | "-mindepth" :: s :: rest, f => findFilter rest { f with least := (Text.readDigits? s.toList).getD 0 }
  | "-empty" :: rest, f => findFilter rest { f with empty := true }
  | "-delete" :: rest, f => findFilter rest { f with deletes := true }
  | _ :: rest, f => findFilter rest f
  | [], f => f

/-- The paths below one, each after the folder it is in, with their depths. -/
def pathsBelow (t : Tree) (fuel : Nat) (place : Place) (path : String) (depth : Nat) : List (String × Place × Nat) :=
  match fuel with
  | 0 => []
  | fuel + 1 => (path, place, depth) :: (namesIn t place).flatMap fun name =>
    pathsBelow t fuel (place ++ [Text.ofOctets name]) (Path.join path name) (depth + 1)

def FindFilter.accepts (f : FindFilter) (t : Tree) (path : String) (place : Place) (depth : Nat) : Bool :=
  let isEmpty := match t.get? place with
    | some (.file c) => c.octets.isEmpty
    | _ => (t.names place).isEmpty
  f.least ≤ depth && (f.deepest.all fun n => depth ≤ n) && (!f.empty || isEmpty) &&
    (f.name.all fun q => Wild.accepts q ((Path.pieces path).getLastD "").toList) &&
    f.folders.all fun on => t.isFolder place == on

def find (p : Job) (args : List String) : Job :=
  let starts := args.takeWhile fun s => s.toList.head? != some '-'
  let filter := findFilter (args.drop starts.length) {}
  let starts := if starts.isEmpty then ["."] else starts
  starts.foldl (fun p start => match p.locate start with
    | .error e => (p.report s!"'{start}': {Job.reason e}").leave 1
    | .ok place =>
      if (p.tree.get? place).isNone then (p.report s!"'{start}': {Job.reason .noSuchFile}").leave 1
      else
        let hits := (pathsBelow p.tree (p.tree.entries.length + 1) place start 0).filter fun (path, q, depth) =>
          filter.accepts p.tree path q depth
        if filter.deletes then { p with tree := hits.foldl (fun t (_, q, _) => t.eraseBelow q) p.tree }
        else p.print (String.join (hits.map fun (path, _) => path ++ "\n"))) (p.leave 0)

end StencilTiling.Shell
