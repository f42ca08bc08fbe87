import StencilTiling.Shell.Condition
import StencilTiling.Shell.Expand
import StencilTiling.Shell.Print
import StencilTiling.Shell.Signal

/-! The commands that are part of the shell and start no others. -/

namespace StencilTiling.Shell

/-- Failures of these end the job. -/
def specialBuiltins : List String :=
  [":", ".", "break", "continue", "eval", "exec", "exit", "export", "local", "readonly", "return", "set", "shift", "times",
    "trap", "unset"]

def regularBuiltins : List String :=
  ["[", "alias", "bg", "cd", "chdir", "command", "echo", "false", "fg", "hash", "jobs", "kill", "printf", "pwd",
    "read", "test", "true", "type", "ulimit", "umask", "unalias", "wait"]

def isBuiltin (name : String) : Bool := specialBuiltins.contains name || regularBuiltins.contains name

/-- A complaint that fails the command at work. -/
def Job.fail (p : Job) (s : String) : Job := (p.warn s).leave 2

/-- The greatest number that counts and statuses may be. -/
def maxNumber : Nat := 0x7fffffff

/-- A count or a status. -/
def countOf? (s : String) : Option Nat := (Text.readDigits? s.toList).filter (· ≤ maxNumber)

/-- Takes a count, or ends the job. -/
def withCount (p : Job) (s : String) (f : Nat → Job) : Job :=
  match countOf? s with
  | some n => f n
  | none => p.abort s!"Illegal number: {s}"

/-! ### Flow -/

def exitJob (p : Job) : List String → Job
  | [] => p.finish (.exited p.status)
  | s :: _ => withCount p s fun n => (p.leave n).finish (.exited n)

def returnJob (p : Job) : List String → Job
  | [] => { p with flow := .leaveFunction }
  | s :: _ => withCount p s fun n => { p with status := n, flow := .leaveFunction }

def leaveLoops (again : Bool) (p : Job) (args : List String) : Job :=
  let s := args.headD "1"
  withCount p s fun n =>
    if n = 0 then p.abort s!"Illegal number: {s}"
    else if p.loops = 0 then p.leave 0
    else { p with status := 0, flow := .leaveLoops (min n p.loops) again }

def shiftArgs (p : Job) (args : List String) : Job :=
  withCount p (args.headD "1") fun n =>
    if p.args.length < n then p.abort "can't shift that many" else { p with args := p.args.drop n, status := 0 }

/-! ### Signals -/

/-- Sends a signal to the outermost job. An inner job only notes it. -/
def signalJob (p : Job) (signal : Nat) : Job :=
  if signal = 0 then p
  else if 0 < p.depth then { p with pending := some signal }
  else match if signal = 9 || signal = 19 then none else p.traps.lookup signal with
    | some "" => p
    | some _ => { p with pending := some signal }
    | none => if Signal.isIdle signal then p else p.finish (.killed signal)

def sendTo (p : Job) (signal : Nat) (target : String) : Job :=
  match Text.readInt? target.toList with
  | none => p.fail s!"Illegal number: {target}"
  | some n =>
    if n = jobNumber || n = 0 then signalJob (p.leave 0) signal
    else if p.asides.any fun (id, _) => (id : Int) == n then
      let asides := p.asides.map fun (id, status) =>
        if (id : Int) == n && 0 < signal then (id, 128 + signal) else (id, status)
      { p with asides, status := 0 }
    else (p.warn "No such process").leave 1

def killUsage : String :=
  "Usage: kill [-s sigspec | -signum | -sigspec] [pid | job]... or\nkill -l [exitstatus]"

def kill (p : Job) (args : List String) : Job :=
  let send (signal : Nat) (targets : List String) : Job :=
    if targets.isEmpty then p.fail killUsage
    else targets.foldl (fun p target => p.andThen fun p => sendTo p signal target) p
  match args with
  | [] => p.fail killUsage
  | "-l" :: _ => (p.print ("\n".intercalate (Signal.names.drop 1) ++ "\n")).leave 0
  | "--" :: targets => send 15 targets
  | "-s" :: name :: targets => match Signal.number? name with
    | some n => send n targets
    | none => p.fail s!"invalid signal number or name: {name}"
  | s :: targets => match s.toList with
    | '-' :: c :: cs => match Signal.number? (String.ofList (c :: cs)) with
      | some n => send n (if targets.head? = some "--" then targets.tail else targets)
      | none =>
        let letter := String.singleton c
        if c == 's' then
          let name := String.ofList cs
          match Signal.number? name with
          | some n => send n targets
          | none => p.fail s!"invalid signal number or name: {name}"
        else p.fail s!"Illegal option -{letter}"
    | _ => send 15 args

/-- A command for the end of the job or for signals. -/
def trap (p : Job) (args : List String) : Job :=
  let set (p : Job) (action : Option String) (names : List String) : Job :=
    names.foldl (fun p name => match Signal.number? name with
      | none => (p.complain s!"trap: {name}: bad trap").leave 1
      | some n =>
        let others := p.traps.filter fun (m, _) => m != n
        { p with traps := (action.map fun a => (n, a)).toList ++ others }) (p.leave 0)
  match args with
  | "--" :: rest => go p set rest
  | args => go p set args
where
  go (p : Job) (set : Job → Option String → List String → Job) : List String → Job
    | [] =>
      let shown := (List.range Signal.count).filterMap fun n => (p.traps.lookup n).map fun action =>
        s!"trap -- '{action}' {Signal.names.getD n (toString n)}\n"
      (p.print (String.join shown)).leave 0
    | [name] => set p none [name]
    | "-" :: names => set p none names
    | action :: names =>
      if (Text.readDigits? action.toList).isSome then set p none (action :: names) else set p (some action) names

/-! ### Variables -/

/-- A name and perhaps a value. -/
def splitVariable (s : String) : String × Option String :=
  match Text.splitOnce '=' s.toList with
  | some (name, value) => (String.ofList name, some (String.ofList value))
  | none => (s, none)

/-- Sets and marks each variable that is named. -/
def declare (mark : Job → String → Job) (p : Job) (args : List String) : Job :=
  let args := args.filter fun s => s != "-p" && s != "--"
  args.foldl (fun p s => p.andThen fun p =>
    let (name, value) := splitVariable s
    if !isName name.toList then p.abort s!"{name}: bad variable name"
    else
      let p := match value with
        | some v => p.setVar name v
        | none => p
      p.andThen fun p => mark p name) (p.leave 0)

/-- Marks a variable, making an empty one if it is missing. -/
def markExport (p : Job) (name : String) : Job :=
  if (p.lookup? name).isSome then p.markExported name else p

def markReadonly (p : Job) (name : String) : Job :=
  if (p.lookup? name).isSome then p.markFixed name else (p.setVar name "").markFixed name

/-- Variables that go back to what they were when the function ends. -/
def localVars (p : Job) (args : List String) : Job :=
  match p.locals with
  | none => p.abort "not in a function"
  | some saved =>
    let names := args.map fun s => (splitVariable s).1
    let p := { p with locals := some (saved ++ names.map fun name => (name, p.lookup? name)) }
    declare (fun p _ => p) p args

def unsetVars (p : Job) (args : List String) : Job :=
  let (letters, names) : List Char × List String := match args with
    | "-f" :: rest => (['f'], rest)
    | "-v" :: rest => ([], rest)
    | args => ([], args)
  names.foldl (fun p name => p.andThen fun p =>
    if letters.contains 'f' then { p with functions := p.functions.filter fun (f, _) => f != name }
    else if (p.lookup? name).any Variable.fixed then p.abort s!"{name}: is read only"
    else p.unset name) (p.leave 0)

/-- A line of input, each character with a mark that a backslash stood before it,
then the rest, and whether the line was ended. -/
def takeLine : List Char → List (Char × Bool) × List Char × Bool
  | [] => ([], [], false)
  | '\n' :: rest => ([], rest, true)
  | '\\' :: c :: rest =>
    let (line, rest, ended) := takeLine rest
    (if c == '\n' then line else (c, true) :: line, rest, ended)
  | c :: rest =>
    let (line, rest, ended) := takeLine rest
    ((c, false) :: line, rest, ended)

/-- A line of input in which backslashes are like other characters. -/
def takeRawLine (cs : List Char) : List (Char × Bool) × List Char × Bool :=
  let line := cs.takeWhile (· != '\n')
  (line.map fun c => (c, false), cs.drop (line.length + 1), line.length < cs.length)

/-- Gives the fields of a line to variables; the last takes all that is left. -/
def shareFields (seps : List Char) : List String → List (Char × Bool) → List (String × String)
  | [], _ => []
  | [name], line =>
    let isBlank : Char × Bool → Bool := fun (c, quoted) => !quoted && seps.contains c && isSpaceSep c
    let line := ((line.dropWhile isBlank).reverse.dropWhile isBlank).reverse
    [(name, String.ofList (line.map Prod.fst))]
  | name :: more, line =>
    let isSep : Char × Bool → Bool := fun (c, quoted) => !quoted && seps.contains c
    let isBlank : Char × Bool → Bool := fun x => isSep x && isSpaceSep x.1
    let line := line.dropWhile isBlank
    let field := line.takeWhile fun x => !isSep x
    let rest := (line.drop field.length).dropWhile isBlank
    let rest := if (line.drop field.length).head?.any isBlank then
        (if rest.head?.any isSep then rest.drop 1 else rest)
      else rest.drop 1
    (name, String.ofList (field.map Prod.fst)) :: shareFields seps more rest
where
  isSpaceSep (c : Char) : Bool := defaultSeparators.toList.contains c

def readVars (p : Job) (args : List String) : Job :=
  let rec options : List String → Bool → Bool × List String
    | "-r" :: rest, _ => options rest true
    | "-p" :: _ :: rest, raw => options rest raw
    | "--" :: rest, raw => (raw, rest)
    | args, raw => (raw, args)
  let (raw, names) := options args false
  if names.isEmpty then p.fail "arg count"
  else match names.find? fun s => !isName s.toList with
    | some s => p.fail s!"{s}: bad variable name"
    | none =>
      let (line, rest, ended) := (if raw then takeRawLine else takeLine) p.stdin.toList
      let p := { p with stdin := String.ofList rest }
      let p := (shareFields (separators p) names line).foldl (fun p (name, value) => p.setVar name value) p
      p.andThen fun p => p.leave (if ended then 0 else 1)

/-! ### Options -/

def optionNames : List (String × Char) :=
  [("errexit", 'e'), ("noglob", 'f'), ("ignoreeof", 'I'), ("interactive", 'i'), ("monitor", 'm'), ("noexec", 'n'),
    ("stdin", 's'), ("xtrace", 'x'), ("verbose", 'v'), ("vi", 'V'), ("emacs", 'E'), ("noclobber", 'C'),
    ("allexport", 'a'), ("notify", 'b'), ("nounset", 'u')]

def setOption (p : Job) (on : Bool) (c : Char) : Job :=
  let others := p.options.filter (· != c)
  { p with options := if on then others ++ [c] else others }

/-- Takes option letters; one that is unknown ends the job. -/
def setLetters (on : Bool) (p : Job) (letters : List Char) : Job :=
  letters.foldl (fun p c => p.andThen fun p =>
    if optionNames.any fun (_, d) => d == c then setOption p on c
    else
      let sign := String.ofList [if on then '-' else '+', c]
      p.abort s!"Illegal option {sign}") p

/-- Takes the options at the head of arguments; what is left, if anything was said about arguments. -/
def takeOptions : List String → Job → Job × Option (List String)
  | [], p => (p, none)
  | "--" :: rest, p => (p, some rest)
  | "-" :: rest, p => (p, if rest.isEmpty then none else some rest)
  | "-o" :: name :: rest, p => match optionNames.lookup name with
    | some c => takeOptions rest (setOption p true c)
    | none => (p.abort s!"Illegal option -o {name}", none)
  | "+o" :: name :: rest, p => match optionNames.lookup name with
    | some c => takeOptions rest (setOption p false c)
    | none => (p.abort s!"Illegal option +o {name}", none)
  | s :: rest, p => match s.toList with
    | '-' :: letters => takeOptions rest (setLetters true p letters)
    | '+' :: letters => takeOptions rest (setLetters false p letters)
    | _ => (p, some (s :: rest))

def setArgs (p : Job) (args : List String) : Job :=
  let (p, rest) := takeOptions args (p.leave 0)
  match rest with
  | some args => { p with args }
  | none => p

/-! ### Folders -/

def changeFolder (p : Job) (args : List String) : Job :=
  let args := args.filter fun s => s != "--" && s != "-P" && s != "-L"
  let (path, shown) := match args with
    | [] => ((p.value? "HOME").getD "", false)
    | "-" :: _ => ((p.value? "OLDPWD").getD "", true)
    | path :: _ => (path, false)
  if path.isEmpty then p.leave 0
  else match p.resolve path with
    | .ok place =>
      if p.tree.get? place = some .folder then
        let text := Text.octets (Tree.placeText place)
        let old := Text.octets (Tree.placeText p.folder)
        let p := ({ p with folder := place }.setVar "OLDPWD" old).setVar "PWD" text
        (if shown then p.print (text ++ "\n") else p).leave 0
      else p.fail s!"can't cd to {path}"
    | .error _ => p.fail s!"can't cd to {path}"

/-- Waits for commands that were started aside; they are all done. -/
def wait (p : Job) (args : List String) : Job :=
  match args with
  | [] => p.leave 0
  | args => args.foldl (fun p s => match Text.readDigits? s.toList with
    | some n => p.leave ((p.asides.lookup n).getD 127)
    | none => p.fail s!"Illegal number: {s}") p

/-- The commands of the shell that start no others. -/
def builtin? (name : String) : Option (Job → List String → Job) :=
  match name with
  | ":" | "true" | "hash" | "times" | "alias" | "unalias" | "ulimit" | "jobs" => some fun p _ => p.leave 0
  | "false" => some fun p _ => p.leave 1
  | "echo" => some shellEcho
  | "printf" => some shellPrintf
  | "test" => some fun p args => testWords ConditionError.message false p s!"{p.name}: {p.line}: test: " args
  | "[" => some fun p args => testWords ConditionError.message true p s!"{p.name}: {p.line}: [: " args
  | "exit" => some exitJob
  | "return" => some returnJob
  | "break" => some (leaveLoops false)
  | "continue" => some (leaveLoops true)
  | "shift" => some shiftArgs
  | "kill" => some kill
  | "trap" => some trap
  | "export" => some (declare markExport)
  | "readonly" => some (declare markReadonly)
  | "local" => some localVars
  | "unset" => some unsetVars
  | "read" => some readVars
  | "set" => some setArgs
  | "cd" | "chdir" => some changeFolder
  | "pwd" => some fun p _ => (p.print (Text.octets (Tree.placeText p.folder) ++ "\n")).leave 0
  | "umask" => some fun p args => (if args.isEmpty then p.print "0022\n" else p).leave 0
  | "wait" => some wait
  | _ => none

end StencilTiling.Shell
