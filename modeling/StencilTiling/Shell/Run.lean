import StencilTiling.Shell.Grammar
import StencilTiling.Shell.Redirection
import StencilTiling.Shell.Tools

/-! Running scripts. One step of the interpreter takes the interpreter for what
stands inside as an argument; the fuel of `run` bounds how deep that goes. -/

namespace StencilTiling.Shell

/-- An interpreter. The flag says that something looks at the outcome of the
command, so that its failure ends nothing. -/
abbrev Runner := Bool → Script → Job → Job

/-! ### Texts as scripts -/

/-- Runs a text line by line. -/
def runLines (again : Runner) (tested : Bool) : Nat → Source → Job → Job
  | 0, _, p => p
  | fuel + 1, s, p => match readLine s with
    | .error e => { p with line := e.line }.abort s!"Syntax error: {e.text}"
    | .ok (none, _) => p
    | .ok (some script, s) =>
      let p := if p.hasOption 'n' then p else again tested script p
      p.andThen (runLines again tested fuel s)

def runText (again : Runner) (tested : Bool) (line : Nat) (text : String) (p : Job) : Job :=
  let cs := text.toList.filter (· != '\x00')
  if Text.trim cs = [] then p.leave 0 else runLines again tested (cs.length + 1) { rest := cs, line } p

/-! ### Jobs inside jobs -/

/-- The status with which a job ends. -/
def Job.ending (p : Job) : Status :=
  match p.flow with
  | .ended status => status
  | _ => .exited p.status

/-- The number by which scripts know a status. -/
def statusNumber : Status → Nat
  | .exited n => n % 256
  | .killed n => 128 + n

/-- Runs what the job has set aside for its end. -/
def settle (again : Runner) (p : Job) : Job :=
  match p.ending, p.traps.lookup 0 with
  | .killed _, _ | .exited _, none | .exited _, some "" => { p with flow := .ended p.ending }
  | .exited n, some action =>
    let q := { p with flow := .onward, status := n, traps := p.traps.filter fun (m, _) => m != 0 }
    let q := runText again false 1 action q
    match q.flow with
    | .ended status => { q with flow := .ended status }
    | _ => { q with flow := .ended (.exited n) }

/-- What a signal that came from an inner job does. -/
def deliver (again : Runner) (p : Job) : Job :=
  match p.pending with
  | none => p
  | some signal =>
    if 0 < p.depth then p
    else
      let p := { p with pending := none }
      match if signal = 9 then none else p.traps.lookup signal with
      | some action =>
        let q := runText again false p.line action p
        if q.isOnward then q.leave p.status else q
      | none => signalJob p signal

/-- The outer job after an inner one: files, input and output are shared. -/
def Job.rejoin (p q : Job) : Job :=
  { p with tree := q.tree, stdin := q.stdin, stdout := q.stdout, stderr := q.stderr, pipes := q.pipes, pending := q.pending }

/-- Runs a part of a job that changes nothing in the job itself. -/
def apart (again : Runner) (f : Job → Job) (p : Job) : Job :=
  let traps := p.traps.filter fun (n, action) => action.isEmpty && n != 0
  let q := settle again (f { p with depth := p.depth + 1, traps })
  deliver again ((p.rejoin q).leave (statusNumber q.ending))

/-- Runs a part with its output in a pipe; what the pipe then holds. -/
def piped (again : Runner) (f : Job → Job) (p : Job) : Job × String :=
  let n := p.pipes.length
  let q := apart again f { p with pipes := p.pipes ++ [""], sinks := setSink p.sinks 1 (.pipe n) }
  ({ q with pipes := q.pipes.take n, sinks := p.sinks }, q.pipes.getD n "")

/-- Runs the commands that stand in words. -/
def substitute (again : Runner) : Substitute := fun p line text =>
  let (q, s) := piped again (runText again false line text) p
  ({ q with status := p.status, inner := some q.status }, String.ofList (s.toList.filter (· != '\x00')))

/-! ### Shells -/

/-- How a shell is started. -/
inductive Start where
  | text (script : String) (name : String) (args : List String)
  | file (path : String) (args : List String)
  | input (args : List String)
  | refused (note : String)

/-- Reads the arguments of a shell, with the option letters so far. -/
def readStart (name : String) : List String → List Char → Start × List Char
  | [], letters => (if letters.contains 'c' then .refused "-c requires an argument" else .input [], letters)
  | s :: rest, letters => match s.toList with
    | ['-', '-'] | ['-'] => (operands rest letters, letters)
    | ['-', 'o'] => match rest with
      | option :: rest => match optionNames.lookup option with
        | some c => readStart name rest (letters ++ [c])
        | none => (.refused s!"Illegal option -o {option}", letters)
      | [] => (.input [], letters)
    | '-' :: more => match more.find? fun c => !(c == 'c' || c == 'l' || optionNames.any fun (_, d) => d == c) with
      | some c =>
        let letter := String.singleton c
        (.refused (if c == '-' then s!"Illegal option --" else s!"Illegal option -{letter}"), letters)
      | none => readStart name rest (letters ++ more)
    | '+' :: more => readStart name rest (letters.filter (!more.contains ·))
    | _ => (operands (s :: rest) letters, letters)
where
  operands (rest : List String) (letters : List Char) : Start :=
    if letters.contains 'c' then
      match rest with
      | [] => .refused "-c requires an argument"
      | [script] => .text script name []
      | script :: name :: args => .text script name args
    else if letters.contains 's' then .input rest
    else match rest with
      | [] => .input []
      | path :: args => .file path args

/-- The variables that a shell starts with. -/
def shellVars : List Variable :=
  [⟨"IFS", defaultSeparators, false, false⟩, ⟨"OPTIND", "1", false, false⟩, ⟨"PS1", "# ", false, false⟩,
    ⟨"PS2", "> ", false, false⟩, ⟨"PS4", "+ ", false, false⟩]

/-- A shell as a program of its own. -/
def runShell (again : Runner) (p : Job) (name : String) (args : List String) : Job × Status :=
  let (start, letters) := readStart name args []
  let fresh : Job := { p with
    name, args := [], vars := shellVars ++ p.exported, functions := [], traps := [], line := 1, speaker := "", flow := .onward
    status := 0, loops := 0, depth := 0, pending := none, locals := none, asides := []
    options := letters.filter fun c => c != 'c' && c != 'l' }
  let done (q : Job) : Job × Status :=
    let q := settle again q
    let p := { p.rejoin q with pending := p.pending }
    (p, match q.ending with
      | .exited n => .exited (n % 256)
      | status => status)
  match start with
  | .text script name args => done (runText again false 1 script { fresh with name, args })
  | .input args => done (runText again false 1 fresh.stdin { fresh with args, stdin := "" })
  | .file path args => match p.read path with
    | .ok s => done (runText again false 1 s { fresh with name := path, args })
    | .error .isFolder => done (runText again false 1 "" { fresh with name := path, args })
    | .error e =>
      let reason := openReason "No such file" e
      (p.complain s!"{name}: 0: cannot open {path}: {reason}", .exited 2)
  | .refused note => (p.complain s!"{name}: 0: {note}", .exited 2)

/-! ### Programs -/

def isAssignment (s : String) : Bool :=
  match splitVariable s with
  | (name, some _) => isName name.toList
  | _ => false

/-- Puts a variable where programs see it. -/
def setExported (p : Job) (s : String) : Job :=
  match splitVariable s with
  | (name, some value) => (p.setVar name value).markExported name
  | _ => p

/-- The program that the first line of a file asks for, and the argument it gets. -/
def interpreter? (text : String) : Option (String × List String) :=
  match text.toList with
  | '#' :: '!' :: rest =>
    let isGap (c : Char) : Bool := c == ' ' || c == '\t'
    let line := (rest.takeWhile (· != '\n')).dropWhile isGap
    let name := line.takeWhile fun c => !isGap c
    let argument := ((line.drop name.length).dropWhile isGap).reverse.dropWhile isGap
    if name.isEmpty then none
    else some (String.ofList name, if argument.isEmpty then [] else [String.ofList argument.reverse])
  | _ => none

/-- The text of a file that may be run. -/
def Job.runnableText? (p : Job) (path : String) : Option String :=
  match p.resolve path with
  | .error _ => none
  | .ok place => match p.tree.get? place with
    | some (.file content) => if p.tree.runnable.contains place then some content.octets else none
    | _ => none

/-- Runs a program by its name; `fuel` bounds programs that start programs. -/
def runProgram (again : Runner) : Nat → Job → String → List String → Job × Status
  | 0, p, _, _ => (p, .exited 127)
  | fuel + 1, p, program, args =>
    let absent (starter : String) (name : String) : Job × Status :=
      let missing := match starter with
        | "timeout" => s!"failed to run command '{name}': "
        | _ => s!"'{name}': "
      (p.complain s!"{program}: {missing}{Job.reason .noSuchFile}", .exited 127)
    let start (starter : String) (p : Job) (words : List String) : Job × Status := match words with
      | [] => (p, .exited 0)
      | name :: args =>
        if (programName? name).isSome || (p.runnableText? name).isSome then runProgram again fuel p name args
        else absent starter name
    match programName? program with
    | none => match p.runnableText? program with
      | none => (p, .exited 127)
      | some text => match interpreter? text with
        | some (name, first) => runProgram again fuel p name (first ++ program :: args)
        | none => runShell again p "sh" ("--" :: program :: args)
    | some "sh" | some "dash" | some "bash" => runShell again p program args
    | some "env" =>
      let rest := args.dropWhile fun s => s == "-i" || s == "-"
      let base := if rest.length < args.length then { p with vars := [] } else p
      let vars := rest.takeWhile isAssignment
      let words := rest.drop vars.length
      let q := vars.foldl setExported base
      let (q, status) := if words.isEmpty then (printVariables q, .exited 0) else start "env" q words
      ({ q with vars := p.vars }, status)
    | some "timeout" => start "timeout" p (args.drop 1)
    | some name => match tools.lookup name with
      | some tool =>
        let q := tool { p with status := 0, name := program } args
        ({ q with status := p.status, flow := p.flow, name := p.name }, .exited q.status)
      | none => (p, .exited 127)

/-- How deep programs may start programs directly. -/
def programDepth : Nat := 16

/-- Whether programs are looked for where they are. -/
def findsPrograms (p : Job) : Bool :=
  match p.value? "PATH" with
  | none => true
  | some s => (Text.splitAt (· == ':') s.toList).any fun piece =>
    programFolders.contains (Path.names (String.ofList piece)) && Path.isAbsolute (String.ofList piece)

/-- Why a command cannot be run, and the status that leaves; nothing if it can. -/
def obstacle? (p : Job) (name : String) : Option (String × Nat) :=
  if name.toList.contains '/' then
    if (programName? name).isSome then none
    else match p.resolve name with
      | .error .noSuchFile | .error .notFolder => some ("not found", 127)
      | .error .nameTooLong => some (Job.reason .nameTooLong, 127)
      | .error e => some (Job.reason e, 126)
      | .ok place => match p.tree.get? place, p.runnableText? name with
        | none, _ => some ("not found", 127)
        | some _, none => some (Job.reason .permissionDenied, 126)
        | some _, some text => match interpreter? text with
          | some (program, _) => if (programName? program).isSome then none else some ("not found", 127)
          | none => none
  else if name == "" || name == ".." then some (Job.reason .permissionDenied, 127)
  else if (programName? name).isSome && findsPrograms p then none
  else some ("not found", 127)

/-- Starts a program from a script. -/
def startProgram (again : Runner) (p : Job) (name : String) (args : List String) : Job :=
  match obstacle? p name with
  | some (note, status) => (p.warn s!"{name}: {note}").leave status
  | none => match runProgram again programDepth p name args with
    | (p, .exited n) => p.leave n
    | (p, .killed n) =>
      let p := match Signal.notes.lookup n with
        | some note => p.complain note
        | none => p
      p.leave (128 + n)

/-! ### Commands -/

/-- Ends the job after a failure that nothing looks at, if the job asks for that. -/
def checked (tested : Bool) (p : Job) : Job :=
  if p.isOnward && p.status != 0 && !tested && p.hasOption 'e' then p.finish (.exited p.status) else p

/-- Runs a function. -/
def callFunction (again : Runner) (tested : Bool) (body : Script) (args : List String) (p : Job) : Job :=
  let q := again tested body { p with args, locals := some [], loops := 0 }
  let q := (q.locals.getD []).foldl (fun q (name, old) => q.restore name old) q
  let flow := if q.flow == .leaveFunction then .onward else q.flow
  { q with args := p.args, locals := p.locals, loops := p.loops, flow }

/-- How a command is described. -/
def describe (p : Job) (name : String) : Option String :=
  if p.functions.any fun (f, _) => f == name then some "a shell function"
  else if specialBuiltins.contains name then some "a special shell builtin"
  else if regularBuiltins.contains name then some "a shell builtin"
  else if reservedWords.contains name then some "a shell keyword"
  else if (obstacle? p name).isNone then
    some (if name.toList.contains '/' then name else "/usr/bin/" ++ name)
  else none

/-- Says what commands are. -/
def typeOf (p : Job) (names : List String) : Job :=
  names.foldl (fun p name => match describe p name with
    | some note => p.print s!"{name} is {note}\n"
    | none => (p.print s!"{name}: not found\n").leave 127) (p.leave 0)

/-- Says how a command would be found. -/
def whereIs (p : Job) (name : String) : Job :=
  if (p.functions.any fun (f, _) => f == name) || isBuiltin name || reservedWords.contains name then
    (p.print (name ++ "\n")).leave 0
  else if (obstacle? p name).isNone then
    (p.print ((if name.toList.contains '/' then name else "/usr/bin/" ++ name) ++ "\n")).leave 0
  else p.leave 127

/-- Runs a file in the job itself. -/
def runFile (again : Runner) (path : String) (p : Job) : Job :=
  if !path.toList.contains '/' then p.abort s!"{path}: not found"
  else match p.read path with
    | .error e =>
      let reason := openReason "No such file" e
      p.abort s!"cannot open {path}: {reason}"
    | .ok s =>
      let q := runText again false 1 s { p with speaker := path ++ ": " }
      let flow := if q.flow == .leaveFunction then .onward else q.flow
      { q with line := p.line, flow }

/-- Runs a builtin that starts other commands, or one that does not. -/
def runBuiltin (again : Runner) (tested : Bool) (p : Job) (name : String) (args : List String) : Job :=
  let p := { p with speaker := name ++ ": " }
  match name with
  | "eval" =>
    let args := if args.head? = some "--" then args.tail else args
    runText again tested p.line (" ".intercalate args) p
  | "." => match args with
    | [] => p.leave 0
    | path :: _ => runFile again path p
  | "type" => typeOf p args
  | _ => match builtin? name with
    | some f => f p args
    | none => p.leave 0

/-- Runs a command that is no function. -/
def runPlain (again : Runner) (tested : Bool) (p : Job) (name : String) (args : List String) : Job :=
  if isBuiltin name then
    let q := { runBuiltin again tested p name args with speaker := p.speaker }
    if q.lost then { q.warn s!"{name}: {name}: I/O error" with lost := false, status := 1 } else q
  else startProgram again p name args

/-- Lets a program take the place of the job. -/
def replaceJob (again : Runner) (p : Job) (args : List String) : Job :=
  match args with
  | [] => p.leave 0
  | name :: args => match obstacle? p name with
    | some (note, status) => (({ p with speaker := "exec: " }.warn s!"{name}: {note}").leave status).finish (.exited status)
    | none =>
      let (p, status) := runProgram again programDepth p name args
      { p.finish status with traps := [] }

/-- Runs a command with its words expanded and its descriptors in place. -/
def runNamed (again : Runner) (tested : Bool) (p : Job) (name : String) (args : List String) : Job :=
  match name, args with
  | "exec", args => replaceJob again p args
  | "command", "-v" :: names => names.foldl whereIs (p.leave 0)
  | "command", "-V" :: names => typeOf p names
  | "command", [] => p.leave 0
  | "command", name :: args =>
    let q := runPlain again tested p name args
    match q.flow with
    | .ended (.exited 2) => if specialBuiltins.contains name && name != "exit" then { q with flow := p.flow, status := 2 } else q
    | _ => q
  | name, args => match if specialBuiltins.contains name then none else p.functions.lookup name with
    | some body => callFunction again tested body args p
    | none => runPlain again tested p name args

/-- Builtins whose assignments are not split. -/
def declaring : List String := ["export", "readonly", "local"]

/-- The words of a command, expanded. -/
def expandCommand (sub : Substitute) (p : Job) (ws : List Word) : Job × List String :=
  match ws with
  | w :: rest =>
    if (plain? w).any (declaring.contains ·) then
      rest.foldl (fun (p, done) w =>
        if p.isOnward then
          if (assignment? w).isSome then
            let (p, s) := expandText sub p w
            (p, done ++ [s])
          else
            let (p, texts) := expandWord sub p w
            (p, done ++ texts)
        else (p, done)) (p, [(plain? w).getD ""])
    else expandWords sub p ws
  | [] => (p, [])

/-- Assigns variables in order. -/
def assignAll (sub : Substitute) (exporting : Bool) (p : Job) (vars : List (String × Word)) : Job :=
  vars.foldl (fun p (name, w) => p.andThen fun p =>
    let (p, s) := expandText sub p w
    p.andThen fun p =>
      let p := p.setVar name s
      if exporting then p.markExported name else p) p

/-- Shows a command before it runs, if the job asks for that. -/
def trace (p : Job) (words : List String) : Job :=
  if p.hasOption 'x' then p.complain ((p.value? "PS4").getD "+ " ++ " ".intercalate words) else p

/-- Runs a simple command. -/
def runSimple (again : Runner) (tested : Bool) (line : Nat) (vars : List (String × Word)) (words : List Word)
    (rs : List Redirect) (p : Job) : Job :=
  let sub := substitute again
  let (p, args) := expandCommand sub { p with line, inner := none } words
  p.andThen fun p =>
    let (q, ok) := redirectAll sub p rs
    if !q.isOnward then q.unredirect p rs
    else match args with
      | [] =>
        if !ok then q.unredirect p rs
        else
          let q := assignAll sub false q vars
          let q := q.andThen fun q =>
            trace (q.leave (q.inner.getD 0)) (vars.map fun (name, _) => name ++ "=" ++ (q.value? name).getD "")
          let q := if vars.isEmpty then { q with stderr := if p.hasOption 'x' then p.stderr else q.stderr } else q
          q.unredirect p rs
      | name :: args =>
        let special := specialBuiltins.contains name
        let saved := vars.map fun (name, _) => (name, q.lookup? name)
        let q := assignAll sub true q vars
        q.andThen fun q =>
          let q := if p.hasOption 'x' then
              { trace { q with sinks := p.sinks } (name :: args) with sinks := q.sinks } else q
          if !ok then
            let q := q.unredirect p rs
            if special then q.finish (.exited 2) else q
          else
            let q := runNamed again tested q name args
            let q := if special then q else saved.foldl (fun q (name, old) => q.restore name old) q
            let q := if name == "exec" && args.isEmpty then q else q.unredirect p rs
            deliver again q

/-! ### Compound commands -/

/-- How many rounds a loop may make. -/
def maxRounds : Nat := 1000000

/-- What a round of a loop leaves: the job, and whether there is a next round. -/
def afterRound (p : Job) : Job × Bool :=
  match p.flow with
  | .onward => (p, true)
  | .leaveLoops 0 again | .leaveLoops 1 again => ({ p with flow := .onward }, again)
  | .leaveLoops (n + 2) again => ({ p with flow := .leaveLoops (n + 1) again }, false)
  | _ => (p, false)

/-- Runs a body while a condition's success is `on`. -/
def runRounds (cond body : Job → Job) (on : Bool) : Nat → Nat → Job → Job
  | 0, status, p => p.leave status
  | fuel + 1, status, p =>
    let p := cond p
    match p.flow with
    | .onward =>
      if (p.status == 0) == on then
        let (p, more) := afterRound (body p)
        if more then runRounds cond body on fuel p.status p else p
      else p.leave status
    | _ =>
      let (p, more) := afterRound p
      if more then runRounds cond body on fuel status p else p

/-- Runs a body once for each text. -/
def runEach (name : String) (body : Job → Job) : List String → Job → Job
  | [], p => p
  | s :: rest, p =>
    let (p, more) := afterRound ((p.setVar name s).andThen body)
    if more then runEach name body rest p else p

/-- Runs the arm of a choice that accepts a text. -/
def choose (again : Runner) (tested : Bool) (s : String) : Script → Job → Job
  | .choice _ patterns body rest, p =>
    let (p, hit) := patterns.foldl (fun (p, hit) w =>
      if hit || !p.isOnward then (p, hit)
      else
        let (p, atoms) := atomsOf (substitute again) p w
        (p, Wild.accepts (wildOf atoms) s.toList)) (p, false)
    if !p.isOnward then p
    else if hit then
      match body with
      | .skip => p.leave 0
      | body => again tested body p
    else choose again tested s rest p
  | _, p => p.leave 0

/-- One step of the interpreter. -/
def step (again : Runner) (tested : Bool) (script : Script) (p : Job) : Job :=
  match script with
  | .skip => p
  | .simple line vars words rs => checked tested (runSimple again tested line vars words rs p)
  | .redirected line body rs =>
    let (q, ok) := redirectAll (substitute again) { p with line } rs
    let q := if ok then again tested body q else q
    checked tested (q.unredirect p rs)
  | .subshell body => checked tested (apart again (again tested body) p)
  | .background body =>
    let q := apart again (again false body) { p with stdin := "" }
    let id := jobNumber + 1 + q.asides.length
    { q with stdin := p.stdin, asides := (id, q.status) :: q.asides, status := 0 }
  | .seq a b => (again tested a p).andThen (again tested b)
  | .both a b =>
    (again true a p).andThen fun p => if p.status = 0 then again tested b p else p
  | .either a b =>
    (again true a p).andThen fun p => if p.status = 0 then p else again tested b p
  | .negate a => (again true a p).andThen fun p => p.leave (if p.status = 0 then 1 else 0)
  | .pipe a b =>
    let (q, s) := piped again (again tested a) p
    q.andThen fun q =>
      let r := apart again (again tested b) { q with stdin := s, status := p.status }
      checked tested { r with stdin := q.stdin }
  | .branch cond yes no =>
    (again true cond p).andThen fun p =>
      if p.status = 0 then again tested yes p
      else match no with
        | .skip => p.leave 0
        | no => again tested no p
  | .repeated on cond body =>
    let q := runRounds (again true cond) (again tested body) on maxRounds 0 { p with loops := p.loops + 1 }
    { q with loops := p.loops }
  | .each name words body =>
    let (p, texts) := expandWords (substitute again) p words
    p.andThen fun p =>
      let q := runEach name (again tested body) texts { p with loops := p.loops + 1, status := 0 }
      { q with loops := p.loops }
  | .choice subject .. =>
    let (p, s) := expandText (substitute again) p subject
    p.andThen (choose again tested s script)
  | .define name body =>
    { p with functions := (name, body) :: p.functions.filter fun (f, _) => f != name, status := 0 }

/-- The interpreter; a job that goes too deep is ended. -/
def run : Nat → Runner
  | 0, _, _, p => p.abort "Maximum function recursion depth (1000) reached"
  | fuel + 1, tested, script, p => step (run fuel) tested script p

end StencilTiling.Shell
