import StencilTiling.Shell.Usage

/-! Programs that read and write whole files. -/

namespace StencilTiling.Shell

/-- The input of a program: a file, or its standard input. -/
def inputText (p : Job) (path : String) : Except IoError String :=
  if path == "-" then .ok p.stdin else p.read path

/-- Writes a file that may stand there already. -/
def storeFile (p : Job) (path s : String) : Except IoError Job := do
  if path == Job.nullDevice then return p
  let place ← p.resolve path
  match p.tree.get? place with
  | some .folder => throw .isFolder
  | _ => return { p with tree := p.tree.insert place (.file (.ofOctets s)) }

def cat (p : Job) (g : Given) : Job :=
  let letters := g.letters
  let paths := g.operands
  let number (s : String) : String :=
    if letters.contains 'n' then
      let lines := Text.splitAt (· == '\n') s.toList
      let lines := if lines.getLast? = some [] then lines.dropLast else lines
      let ended := s.toList.getLast? == some '\n'
      let shown := lines.zipIdx.map fun (line, i) =>
        let n := toString (i + 1)
        String.ofList (List.replicate (6 - n.length) ' ') ++ n ++ "\t" ++ String.ofList line
      "\n".intercalate shown ++ (if ended then "\n" else "")
    else s
  if paths.isEmpty then { p.print (number p.stdin) with stdin := "" }.leave 0
  else paths.foldl (fun p path => match inputText p path with
    | .ok s => p.print (number s)
    | .error e => (p.report s!"{path}: {Job.reason e}").leave 1) (p.leave 0)

/-- A new empty file, unless something is there. -/
def touch (p : Job) (g : Given) : Job :=
  let letters := g.letters
  let paths := g.operands
  paths.foldl (fun p path => match p.resolve path with
    | .ok place =>
      if (p.tree.get? place).isSome || letters.contains 'c' then p
      else { p with tree := p.tree.insert place (.file (.text "")) }
    | .error e => (p.report s!"cannot touch '{path}': {Job.reason e}").leave 1) (p.leave 0)

/-- Copies the input to files and on. -/
def tee (p : Job) (g : Given) : Job :=
  let letters := g.letters
  let paths := g.operands
  let s := p.stdin
  let p := { p.print s with stdin := "" }
  paths.foldl (fun p path =>
    let old := if letters.contains 'a' then (p.read path).toOption.getD "" else ""
    match storeFile p path (old ++ s) with
    | .ok p => p
    | .error e => (p.report s!"{path}: {Job.reason e}").leave 1) (p.leave 0)

/-- Compares two files octet by octet. -/
def cmp (p : Job) (g : Given) : Job :=
  let letters := g.letters
  let paths := g.operands
  match if paths.length == 1 then paths ++ ["-"] else paths with
  | [] => misuseSigned p s!"missing operand after '{p.name}'" 2
  | [a, b] => match inputText p a, inputText p b with
    | .error e, _ => (p.report s!"{a}: {Job.reason e}").leave 2
    | _, .error e => (p.report s!"{b}: {Job.reason e}").leave 2
    | .ok x, .ok y =>
      if x == y then p.leave 0
      else if letters.contains 's' then p.leave 1
      else
        let same := ((x.toList.zip y.toList).takeWhile fun (c, d) => c == d).length
        if same == min x.length y.length then
          let short := if x.length < y.length then a else b
          (p.report s!"EOF on {short} after byte {same}").leave 1
        else
          let line := ((x.toList.take same).filter (· == '\n')).length + 1
          (p.print s!"{a} {b} differ: char {same + 1}, line {line}\n").leave 1
  | _ => p.leave 2

/-- Whether two files differ; only the short answer is given. -/
def diff (p : Job) (g : Given) : Job :=
  let letters := g.letters
  let paths := g.operands
  match paths with
  | [a, b] => match inputText p a, inputText p b with
    | .error e, .error f => ((p.report s!"{a}: {Job.reason e}").report s!"{b}: {Job.reason f}").leave 2
    | .error e, _ => (p.report s!"{a}: {Job.reason e}").leave 2
    | _, .error e => (p.report s!"{b}: {Job.reason e}").leave 2
    | .ok x, .ok y =>
      if x == y then p.leave 0
      else if letters.contains 'q' then (p.print s!"Files {a} and {b} differ\n").leave 1
      else p.leave 1
  | [] => misuseSigned p s!"missing operand after '{p.name}'" 2
  | [only] => misuseSigned p s!"missing operand after '{only}'" 2
  | _ => p.leave 2

/-- The last name of a path, without an ending. -/
def basename (p : Job) (args : List String) : Job :=
  match args with
  | [] => p.leave 1
  | path :: rest =>
    let names := (Path.pieces path).filter (!·.isEmpty)
    let name := (names.getLast?).getD (if path.isEmpty then "" else "/")
    let ending := rest.headD ""
    let name := if ending.toList.isSuffixOf name.toList && name != ending then
      String.ofList (name.toList.take (name.length - ending.length)) else name
    (p.print (name ++ "\n")).leave 0

def dirname (p : Job) (paths : List String) : Job :=
  paths.foldl (fun p path =>
    let cs := path.toList
    let trimmed := (cs.reverse.dropWhile (· == '/')).reverse
    let upper := ((trimmed.reverse.dropWhile (· != '/')).dropWhile (· == '/')).reverse
    let text := if !upper.isEmpty then String.ofList upper else if cs.head? == some '/' then "/" else "."
    p.print (text ++ "\n")) (p.leave 0)

end StencilTiling.Shell
