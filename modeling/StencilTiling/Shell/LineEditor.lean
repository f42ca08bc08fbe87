import StencilTiling.Shell.Filters

/-! The line editor: short programs of addressed commands, run on every line. -/

namespace StencilTiling.Shell

inductive Address where
  | line (n : Nat)
  | last
  | pattern (q : LinePattern)
  deriving Inhabited

/-- Which lines a command is for: all, one kind, or from one to another. -/
structure Range where
  first : Option Address := none
  second : Option Address := none
  negated : Bool := false
  /-- A comma without a second address. -/
  broken : Bool := false

structure SubstituteFlags where
  everywhere : Bool := false
  prints : Bool := false
  caseless : Bool := false
  /-- The first match that is replaced. -/
  nth : Nat := 1

inductive EditCommand where
  | print
  | delete
  | quit (status : Nat)
  | number
  | substitute (q : LinePattern) (into : List Char) (flags : SubstituteFlags)
  | exchange (a b : List Char)
  | append (text : String)
  | insert (text : String)
  | change (text : String)

structure Edit where
  range : Range
  command : EditCommand

/-! ### Reading -/

/-- Up to a delimiter that is not escaped; an escaped delimiter loses its backslash. -/
def untilDelimiter (d : Char) : List Char → Option (List Char × List Char)
  | [] => none
  | '\\' :: c :: rest =>
    (untilDelimiter d rest).map fun (inside, rest) => (if c == d then c :: inside else '\\' :: c :: inside, rest)
  | c :: rest =>
    if c == d then some ([], rest) else (untilDelimiter d rest).map fun (inside, rest) => (c :: inside, rest)

def readAddress? (style : PatternStyle) (cs : List Char) : Option (Address × List Char) :=
  match cs with
  | '$' :: rest => some (.last, rest)
  | '/' :: rest => (untilDelimiter '/' rest).map fun (inside, rest) => (.pattern (.ofText style inside), rest)
  | cs =>
    let ds := cs.takeWhile Char.isDigit
    (Text.readDigits? ds).map fun n => (.line n, cs.drop ds.length)

def readRange (style : PatternStyle) (cs : List Char) : Range × List Char :=
  let skip (cs : List Char) : List Char := cs.dropWhile (· == ' ')
  let (range, cs) : Range × List Char := match readAddress? style cs with
    | none => ({}, cs)
    | some (first, cs) => match skip cs with
      | ',' :: rest => match readAddress? style (skip rest) with
        | some (second, cs) => ({ first, second }, cs)
        | none => ({ first, broken := true }, rest)
      | cs => ({ first }, cs)
  match skip cs with
  | '!' :: rest => ({ range with negated := true }, skip rest)
  | cs => (range, cs)

/-- Flags of a substitution. -/
def readFlags : List Char → SubstituteFlags → SubstituteFlags × List Char
  | 'g' :: rest, f => readFlags rest { f with everywhere := true }
  | 'p' :: rest, f => readFlags rest { f with prints := true }
  | 'i' :: rest, f | 'I' :: rest, f => readFlags rest { f with caseless := true }
  | c :: rest, f =>
    if c.isDigit then readFlags rest { f with nth := c.toNat - '0'.toNat } else (f, c :: rest)
  | [], f => (f, [])

/-- The text of a command that adds lines. -/
def readText (cs : List Char) : String × List Char :=
  let cs := cs.dropWhile (· == ' ')
  let cs := match cs with
    | '\\' :: '\n' :: rest => rest
    | '\\' :: rest => rest
    | cs => cs
  let line := cs.takeWhile (· != '\n')
  (String.ofList line ++ "\n", cs.drop line.length)

/-- What is wrong with a program. -/
inductive EditError where
  | unknown (c : Char)
  | unterminated (c : Char)
  | missing
  | extra
  | badAddress
  deriving DecidableEq, Repr

def EditError.message : EditError → String
  | unknown c => "unknown command: \x60" ++ String.singleton c ++ "'"
  | unterminated c => "unterminated \x60" ++ String.singleton c ++ "' command"
  | missing => "missing command"
  | extra => "extra characters after command"
  | badAddress => "unexpected \x60,'"

/-- A program that is wrong, and how much of it is left behind the fault. -/
abbrev EditReader := Except (EditError × Nat)

/-- One command after its addresses. -/
def readEdit (style : PatternStyle) (range : Range) (cs : List Char) : EditReader (Edit × List Char) :=
  match cs with
  | 'p' :: rest => .ok (⟨range, .print⟩, rest)
  | 'd' :: rest => .ok (⟨range, .delete⟩, rest)
  | '=' :: rest => .ok (⟨range, .number⟩, rest)
  | 'q' :: rest =>
    let ds := (rest.dropWhile (· == ' ')).takeWhile Char.isDigit
    .ok (⟨range, .quit (Text.digitsValue ds)⟩, (rest.dropWhile (· == ' ')).drop ds.length)
  | 'a' :: rest => let (text, rest) := readText rest; .ok (⟨range, .append text⟩, rest)
  | 'i' :: rest => let (text, rest) := readText rest; .ok (⟨range, .insert text⟩, rest)
  | 'c' :: rest => let (text, rest) := readText rest; .ok (⟨range, .change text⟩, rest)
  | c :: d :: rest =>
    if c == 's' || c == 'y' then
      match (untilDelimiter d rest).bind fun (a, rest) => (untilDelimiter d rest).map fun (b, rest) => (a, b, rest) with
      | none => .error (.unterminated c, 0)
      | some (a, b, rest) =>
        if c == 'y' then .ok (⟨range, .exchange a b⟩, rest)
        else
          let (flags, rest) := readFlags rest {}
          .ok (⟨range, .substitute (.ofText style a) b flags⟩, rest)
    else .error (.unknown c, rest.length + 1)
  | [c] => .error (if c == 's' || c == 'y' then .unterminated c else .unknown c, 0)
  | [] => .error (.missing, 0)

/-- The commands of a program. -/
def readEdits (style : PatternStyle) (fuel : Nat) (cs : List Char) : EditReader (List Edit) :=
  match fuel with
  | 0 => .ok []
  | fuel + 1 =>
    match cs.dropWhile fun c => c == ' ' || c == ';' || c == '\n' with
    | [] => .ok []
    | cs => do
      let (range, cs) := readRange style cs
      if range.second.isNone && range.broken then throw (.badAddress, cs.length - 1)
      let (edit, cs) ← readEdit style range cs
      match cs.dropWhile (· == ' ') with
      | [] => return [edit]
      | ';' :: rest | '\n' :: rest => return edit :: (← readEdits style fuel rest)
      | _ :: rest => throw (.extra, rest.length)

/-! ### Running -/

/-- The replacement of a match. -/
def replacementText (into : List Char) (whole : List Char) (groups : List (Nat × List Char)) : List Char :=
  match into with
  | [] => []
  | '&' :: rest => whole ++ replacementText rest whole groups
  | '\\' :: c :: rest =>
    let text := if c.isDigit then
        (if c == '0' then whole else (groups.lookup (c.toNat - '0'.toNat)).getD [])
      else if c == 'n' then ['\n'] else if c == 't' then ['\t'] else [c]
    text ++ replacementText rest whole groups
  | c :: rest => c :: replacementText rest whole groups

/-- A line with matches replaced, from the `nth` on, and whether any was. An empty
match right behind another match does not count; `fresh` says there is none. -/
def replaceIn (q : LinePattern) (into : List Char) (flags : SubstituteFlags) (fuel nth : Nat) (fresh : Bool)
    (before ahead : List Char) : List Char × Bool :=
  match fuel with
  | 0 => (ahead, false)
  | fuel + 1 => match LinePattern.find? flags.caseless q before ahead with
    | none => (ahead, false)
    | some (start, stop) =>
      let kept := ahead.take (ahead.length - start.ahead.length)
      let whole := start.ahead.take (start.ahead.length - stop.ahead.length)
      let counts := !whole.isEmpty || fresh || !kept.isEmpty
      let hit := counts && nth ≤ 1
      let text := if hit then replacementText into whole stop.groups else whole
      let nth := if counts then nth - 1 else nth
      let (after, more) : List Char × Bool :=
        if hit && !flags.everywhere then (stop.ahead, true)
        else match whole, stop.ahead with
          | [], [] => ([], false)
          | [], c :: rest =>
            let (after, more) := replaceIn q into flags fuel nth true (c :: stop.before) rest
            (c :: after, more)
          | _, rest => replaceIn q into flags fuel nth false stop.before rest
      (kept ++ text ++ after, more || hit)

/-- The line at work and what was printed. -/
structure EditState where
  out : String := ""
  line : List Char := []
  number : Nat := 0
  isLast : Bool := false
  /-- Printed after the line. -/
  after : String := ""
  alive : Bool := true
  quits : Option Nat := none
  /-- Ranges that have been entered, by the place of their command. -/
  inside : List Nat := []

def Address.selects (a : Address) (s : EditState) : Bool :=
  match a with
  | .line n => s.number == n
  | .last => s.isLast
  | .pattern q => LinePattern.accepts false q s.line

/-- Whether a command is for the line at work. -/
def Range.selects (r : Range) (index : Nat) (s : EditState) : Bool × EditState :=
  let (hit, s) : Bool × EditState := match r.first, r.second with
    | none, _ => (true, s)
    | some a, none => (a.selects s, s)
    | some a, some b =>
      if s.inside.contains index then
        let ends : Bool := match b with
          | .line n => n ≤ s.number
          | b => b.selects s
        let past : Bool := match b with
          | .line n => n < s.number
          | _ => false
        let s := if ends then { s with inside := s.inside.filter (· != index) } else s
        if past then (a.selects s, s) else (true, s)
      else if a.selects s then
        let single : Bool := match b with
          | .line n => n ≤ s.number
          | .last => s.isLast
          | _ => false
        (true, if single then s else { s with inside := index :: s.inside })
      else (false, s)
  (hit != r.negated, s)

def runEdit (s : EditState) (entry : Edit × Nat) : EditState :=
  let (edit, index) := entry
  if !s.alive || s.quits.isSome then s
  else
    let (hit, s) := edit.range.selects index s
    if !hit then s
    else match edit.command with
      | .print => { s with out := s.out ++ lineText s.line }
      | .delete => { s with alive := false }
      | .quit status => { s with quits := some status }
      | .number => { s with out := s.out ++ toString s.number ++ "\n" }
      | .substitute q into flags =>
        let (line, changed) := replaceIn q into flags (s.line.length + 2) flags.nth true [] s.line
        let s := { s with line }
        if changed && flags.prints then { s with out := s.out ++ lineText line } else s
      | .exchange a b => { s with line := s.line.map fun c => match a.idxOf? c with
          | some i => b.getD i c
          | none => c }
      | .append text => { s with after := s.after ++ text }
      | .insert text => { s with out := s.out ++ text }
      | .change text => { s with out := s.out ++ text, alive := false }

/-- Runs the program on every line. -/
def editLines (edits : List Edit) (silent : Bool) (total : Nat) (ended : Bool) :
    List (List Char) → EditState → EditState
  | [], s => s
  | line :: rest, s =>
    if s.quits.isSome then s
    else
      let s := { s with line, number := s.number + 1, isLast := s.number + 1 == total, after := "", alive := true }
      let s := edits.zipIdx.foldl runEdit s
      let shown := if s.isLast && !ended then String.ofList s.line else lineText s.line
      let s := if s.alive && !silent then { s with out := s.out ++ shown } else s
      editLines edits silent total ended rest { s with out := s.out ++ s.after }

structure EditOptions where
  silent : Bool := false
  inPlace : Bool := false
  style : PatternStyle := {}
  programs : List String := []

def editArguments : List String → EditOptions → List String → EditOptions × List String
  | [], o, operands => (o, operands)
  | "-e" :: s :: rest, o, operands => editArguments rest { o with programs := o.programs ++ [s] } operands
  | "-n" :: rest, o, operands => editArguments rest { o with silent := true } operands
  | "-i" :: rest, o, operands => editArguments rest { o with inPlace := true } operands
  | "-E" :: rest, o, operands | "-r" :: rest, o, operands =>
    editArguments rest { o with style := { o.style with extended := true } } operands
  | "-ne" :: s :: rest, o, operands =>
    editArguments rest { o with silent := true, programs := o.programs ++ [s] } operands
  | "-nE" :: rest, o, operands | "-En" :: rest, o, operands | "-nr" :: rest, o, operands =>
    editArguments rest { o with silent := true, style := { o.style with extended := true } } operands
  | "--" :: rest, o, operands => (o, operands ++ rest)
  | s :: rest, o, operands => editArguments rest o (operands ++ [s])

def editText (edits : List Edit) (silent : Bool) (s : String) : EditState :=
  let (lines, ended) := linesOf s
  editLines edits silent lines.length ended lines {}

def sed (p : Job) (args : List String) : Job :=
  let (o, operands) := editArguments args {} []
  let (program, paths) := match o.programs, operands with
    | [], s :: paths => (some s, paths)
    | [], [] => (none, [])
    | programs, paths => (some ("\n".intercalate programs), paths)
  match program with
  | none => (p.complain "Usage: sed [OPTION]... \x7bscript-only-if-no-other-script\x7d [input-file]...").leave 1
  | some program => match readEdits o.style (program.length + 1) program.toList with
    | .error (e, left) =>
      let place := program.length - left
      (p.report s!"-e expression #1, char {place}: {e.message}").leave 1
    | .ok edits =>
      if o.inPlace then
        paths.foldl (fun p path => match p.read path with
          | .error e => (p.report s!"can't read {path}: {Job.reason e}").leave 2
          | .ok s => match storeFile p path (editText edits o.silent s).out with
            | .ok p => p
            | .error e => (p.report s!"couldn't edit {path}: {Job.reason e}").leave 4) (p.leave 0)
      else
        let texts := if paths.isEmpty then [("-", Except.ok p.stdin)] else paths.map fun path => (path, inputText p path)
        let p := texts.foldl (fun p (path, text) => match text with
          | .error e => (p.report s!"can't read {path}: {Job.reason e}").leave 2
          | .ok _ => p) (p.leave 0)
        let whole := String.join (texts.filterMap fun (_, text) => text.toOption)
        let s := editText edits o.silent whole
        let p := if paths.isEmpty then { p with stdin := "" } else p
        (p.print s.out).leave (match s.quits with
          | some (n + 1) => n + 1
          | _ => p.status)

end StencilTiling.Shell
