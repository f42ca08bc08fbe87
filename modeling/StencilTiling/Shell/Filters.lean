import StencilTiling.Shell.Files
import StencilTiling.Shell.LinePattern

/-! Programs that read lines and print some of them or something about them. -/

namespace StencilTiling.Shell

/-- The lines of octets, and whether the last one is ended. -/
def linesOf (s : String) : List (List Char) × Bool :=
  let pieces := Text.splitAt (· == '\n') s.toList
  if pieces.getLast? = some [] then (pieces.dropLast, true) else (pieces, false)

def lineText (line : List Char) : String := String.ofList line ++ "\n"

def linesText (lines : List (List Char)) : String := String.join (lines.map lineText)

/-! ### Searching -/

structure GrepOptions where
  quiet : Bool := false
  silent : Bool := false
  negated : Bool := false
  fixed : Bool := false
  style : PatternStyle := {}
  counting : Bool := false
  numbered : Bool := false
  named : Option Bool := none
  onlyNames : Bool := false
  onlyMatches : Bool := false
  wholeLine : Bool := false
  wholeWord : Bool := false
  limit : Option Nat := none
  patterns : List String := []

/-- The options with one letter taken, or nothing for a letter that is unknown. -/
def GrepOptions.take? (o : GrepOptions) : Char → Option GrepOptions
  | 'q' => some { o with quiet := true }
  | 's' => some { o with silent := true }
  | 'v' => some { o with negated := true }
  | 'F' => some { o with fixed := true }
  | 'E' => some { o with style := { o.style with extended := true } }
  | 'G' => some { o with style := { o.style with extended := false } }
  | 'i' | 'y' => some { o with style := { o.style with caseless := true } }
  | 'c' => some { o with counting := true }
  | 'n' => some { o with numbered := true }
  | 'H' => some { o with named := some true }
  | 'h' => some { o with named := some false }
  | 'l' => some { o with onlyNames := true }
  | 'o' => some { o with onlyMatches := true }
  | 'x' => some { o with wholeLine := true }
  | 'w' => some { o with wholeWord := true }
  | 'a' | 'U' => some o
  | _ => none

/-- Takes the letters of one argument; `e` and `m` take the rest or the next argument. -/
def grepLetters : List Char → List String → GrepOptions → Option (GrepOptions × List String)
  | [], rest, o => some (o, rest)
  | 'e' :: text, rest, o => match text, rest with
    | [], s :: rest => some ({ o with patterns := o.patterns ++ [s] }, rest)
    | [], [] => none
    | text, rest => some ({ o with patterns := o.patterns ++ [String.ofList text] }, rest)
  | 'm' :: text, rest, o => match text, rest with
    | [], s :: rest => some ({ o with limit := Text.readNat? s.toList }, rest)
    | [], [] => none
    | text, rest => some ({ o with limit := Text.readNat? text }, rest)
  | c :: letters, rest, o => (o.take? c).bind (grepLetters letters rest)

/-- Options and operands in any order. -/
def grepArguments (fuel : Nat) (args : List String) (o : GrepOptions) (operands : List String) :
    Option (GrepOptions × List String) :=
  match fuel with
  | 0 => none
  | fuel + 1 => match args with
    | [] => some (o, operands)
    | "--" :: rest => some (o, operands ++ rest)
    | s :: rest => match s.toList with
      | '-' :: c :: letters => do
        let (o, rest) ← grepLetters (c :: letters) rest o
        grepArguments fuel rest o operands
      | _ => grepArguments fuel rest o (operands ++ [s])

/-- The pattern of a search: one of several lines may match. -/
def GrepOptions.pattern (o : GrepOptions) : LinePattern :=
  let texts := o.patterns.flatMap fun s => Text.splitAt (· == '\n') s.toList
  let one (cs : List Char) : LinePattern :=
    let q := if o.fixed then LinePattern.literal cs else .ofText o.style cs
    if o.wholeLine then .seq .atStart (.seq q .atEnd) else q
  match texts.map one with
  | [] => .empty
  | q :: rest => rest.foldl .alt q

/-- The places in a line where the pattern matches. -/
def GrepOptions.hits (o : GrepOptions) (q : LinePattern) (fuel : Nat) (before ahead : List Char) :
    List (List Char) :=
  match fuel with
  | 0 => []
  | fuel + 1 => match LinePattern.find? o.style.caseless q before ahead with
    | none => []
    | some (start, stop) =>
      let text := start.ahead.take (start.ahead.length - stop.ahead.length)
      let bounded := !LinePattern.isWordChar start.before.head? && !LinePattern.isWordChar stop.ahead.head?
      let accepted := !o.wholeWord || bounded
      let more := match text, stop.ahead with
        | [], [] => []
        | [], c :: rest => o.hits q fuel (c :: stop.before) rest
        | _, _ => o.hits q fuel stop.before stop.ahead
      if accepted then text :: more else more

/-- Searches one text. -/
def grepText (o : GrepOptions) (many : Bool) (p : Job) (path s : String) : Job :=
  let (lines, _) := linesOf s
  let q := o.pattern
  let found := lines.zipIdx.filterMap fun (line, i) =>
    let hits := o.hits q (line.length + 2) [] line
    if hits.isEmpty == o.negated then some (line, i + 1, hits) else none
  let found := match o.limit with
    | some n => found.take n
    | none => found
  let p := if found.isEmpty then p else p.leave (if p.status == 1 then 0 else p.status)
  let name := if path == "-" then "(standard input)" else path
  let label := if o.named.getD many then name ++ ":" else ""
  if o.quiet then p
  else if o.onlyNames then (if found.isEmpty then p else p.print (name ++ "\n"))
  else if o.counting then p.print (label ++ toString found.length ++ "\n")
  else found.foldl (fun p (line, n, hits) =>
    let place := if o.numbered then label ++ toString n ++ ":" else label
    if o.onlyMatches then
      if o.negated then p
      else (hits.filter (!·.isEmpty)).foldl (fun p hit => p.print (place ++ lineText hit)) p
    else p.print (place ++ lineText line)) p

def grepUsage (p : Job) : Job :=
  ((p.complain "Usage: grep [OPTION]... PATTERNS [FILE]...").complain
    "Try 'grep --help' for more information.").leave 2

def grep (start : GrepOptions) (p : Job) (args : List String) : Job :=
  match grepArguments (args.length + 1) args start [] with
  | none => grepUsage p
  | some (o, operands) =>
    let chosen : Option (GrepOptions × List String) := match o.patterns, operands with
      | [], [] => none
      | [], s :: paths => some ({ o with patterns := [s] }, paths)
      | _, paths => some (o, paths)
    match chosen with
    | none => grepUsage p
    | some (o, paths) =>
      if paths.isEmpty then { grepText o false (p.leave 1) "-" p.stdin with stdin := "" }
      else paths.foldl (fun p path => match inputText p path with
        | .ok s => grepText o (1 < paths.length) p path s
        | .error e =>
          let p := if o.silent then p else p.report s!"{path}: {Job.reason e}"
          if o.quiet && p.status == 0 then p else p.leave 2) (p.leave 1)

/-- A search that goes by the plain name. -/
def grepAs (start : GrepOptions) (p : Job) (args : List String) : Job := grep start { p with name := "grep" } args

/-! ### Beginnings and ends -/

/-- How much of an input is asked for. -/
structure Amount where
  count : Nat := 10
  octets : Bool := false
  /-- Counted from the start instead. -/
  fromStart : Bool := false
  /-- All but the last so many. -/
  allBut : Bool := false

/-- An amount of lines or octets; a text that is no number is refused. -/
def Amount.read (octets : Bool) (s : String) (a : Amount) : Except String Amount :=
  let a := { a with octets }
  let (a, ds) := match s.toList with
    | '+' :: ds => ({ a with fromStart := true }, ds)
    | '-' :: ds => ({ a with allBut := true }, ds)
    | ds => (a, ds)
  match Text.readDigits? ds with
  | some count => .ok { a with count }
  | none => .error (if octets then s!"invalid number of bytes: '{s}'" else s!"invalid number of lines: '{s}'")

/-- A number right after the hyphen of the first argument stands for lines. -/
def spelledAmount (s : String) : List String :=
  match s.toList with
  | '-' :: d :: ds => if d.isDigit then ["-n", String.ofList (d :: ds)] else [s]
  | _ => [s]

def amountUsage : Usage :=
  { letters := "fqvz", valued := "nc", long := [("lines", 'n'), ("bytes", 'c'), ("quiet", 'q'), ("verbose", 'v')] }

def Given.amount (g : Given) : Except String Amount :=
  g.options.foldl (fun a (c, s) => a.bind fun a =>
    if c == 'n' then Amount.read false s a else if c == 'c' then Amount.read true s a else .ok a) (.ok {})

/-- Units of a text: octets, or lines with their ends. -/
def unitsOf (a : Amount) (s : String) : List String :=
  if a.octets then s.toList.map String.singleton
  else
    let (lines, ended) := linesOf s
    let last := if ended then lines.length + 1 else lines.length
    lines.zipIdx.map fun (line, i) => if i + 1 == last then String.ofList line else lineText line

def headText (a : Amount) (s : String) : String :=
  let units := unitsOf a s
  String.join (units.take (if a.allBut then units.length - a.count else a.count))

def tailText (a : Amount) (s : String) : String :=
  let units := unitsOf a s
  String.join (units.drop (if a.fromStart then a.count - 1 else units.length - a.count))

/-- Prints a part of every input, under a heading if there are several. -/
def partOfEach (f : Amount → String → String) (p : Job) (g : Given) : Job :=
  let paths := g.operands
  match g.amount with
  | .error note => (p.report note).leave 1
  | .ok a =>
    if paths.isEmpty then ({ p.print (f a p.stdin) with stdin := "" }).leave 0
    else paths.zipIdx.foldl (fun p (path, i) => match inputText p path with
      | .error .isFolder => (p.report s!"error reading '{path}': {Job.reason .isFolder}").leave 1
      | .error e => (p.report s!"cannot open '{path}' for reading: {Job.reason e}").leave 1
      | .ok s =>
        let headed := (1 < paths.length || g.has 'v') && !g.has 'q'
        let heading := if headed then (if 0 < i then "\n" else "") ++ s!"==> {path} <==\n" else ""
        p.print (heading ++ f a s)) (p.leave 0)

def partOf (f : Amount → String → String) : Tool := fun p args =>
  reading amountUsage (partOfEach f) p ((args.take 1).flatMap spelledAmount ++ args.drop 1)

/-! ### Counting -/

structure Tally where
  lines : Nat := 0
  words : Nat := 0
  octets : Nat := 0

def isSpace (c : Char) : Bool := c == ' ' || ('\t' ≤ c && c ≤ '\r')

def Tally.ofText (s : String) : Tally :=
  let cs := s.toList
  ⟨(cs.filter (· == '\n')).length, ((Text.splitAt isSpace cs).filter (!·.isEmpty)).length, cs.length⟩

def padLeft (width : Nat) (s : String) : String := String.ofList (List.replicate (width - s.length) ' ') ++ s

def wc (p : Job) (g : Given) : Job :=
  let letters := g.letters
  let paths := g.operands
  let letters := if letters.isEmpty then ['l', 'w', 'c'] else letters
  let columns (t : Tally) : List Nat :=
    (if letters.contains 'l' then [t.lines] else []) ++ (if letters.contains 'w' then [t.words] else []) ++
      (if letters.contains 'c' || letters.contains 'm' then [t.octets] else [])
  let row (width : Nat) (t : Tally) (path : String) : String :=
    " ".intercalate ((columns t).map fun n => padLeft width (toString n)) ++
      (if path.isEmpty then "" else " " ++ path) ++ "\n"
  if paths.isEmpty then
    let t := Tally.ofText p.stdin
    ({ p.print (row (if (columns t).length == 1 then 1 else 7) t "") with stdin := "" }).leave 0
  else
    let tallies := paths.map fun path => (path, (inputText p path).map Tally.ofText)
    let good := tallies.filterMap fun (_, t) => t.toOption
    let total := good.foldl (fun (a : Tally) t => ⟨a.lines + t.lines, a.words + t.words, a.octets + t.octets⟩) {}
    let width := if paths.length == 1 && (columns total).length == 1 then 1 else (toString total.octets).length
    let p := tallies.foldl (fun p (path, t) => match t with
      | .ok t => p.print (row width t path)
      | .error e => (p.report s!"{path}: {Job.reason e}").leave 1) (p.leave 0)
    if 1 < paths.length then p.print (row width total "total") else p

/-! ### Ordering -/

/-- The number at the start of a line, as a count of thousandths. -/
def leadingNumber (line : List Char) : Int :=
  let cs := line.dropWhile isSpace
  let (sign, cs) : Int × List Char := match cs with
    | '-' :: rest => (-1, rest)
    | cs => (1, cs)
  let whole := cs.takeWhile Char.isDigit
  let places := match cs.drop whole.length with
    | '.' :: rest => (rest.takeWhile Char.isDigit).take 3
    | _ => []
  let places := places ++ List.replicate (3 - places.length) '0'
  sign * (Text.digitsValue (whole ++ places) : Nat)

def lineLess (a b : List Char) : Bool := decide (String.ofList a < String.ofList b)

/-- A part of a line that lines are ordered by: fields up to a last one, and how they are compared. -/
structure SortKey where
  first : Nat := 1
  last : Option Nat := none
  letters : List Char := []

/-- Reads a key: a field with option letters, or two of them. -/
def SortKey.read? (s : String) : Option SortKey :=
  let ends := Text.splitAt (· == ',') s.toList
  let number (cs : List Char) : Option Nat := Text.readDigits? (cs.takeWhile Char.isDigit)
  let letters := (ends.flatMap fun cs => cs.dropWhile fun c => c.isDigit || c == '.').filter Char.isAlpha
  match ends with
  | [first] => (number first).map fun n => { first := n, letters }
  | [first, last] => do return { first := ← number first, last := some (← number last), letters }
  | _ => none

/-- The fields of a line: between separators, or each with the blanks before it. -/
def sortFields (separator : Option Char) (line : List Char) : List (List Char) :=
  match separator with
  | some c => Text.splitAt (· == c) line
  | none =>
    let isGap (c : Char) : Bool := c == ' ' || c == '\t'
    (line.foldr (fun c (done : List (List Char)) => match done with
      | (d :: piece) :: rest => if isGap d && !isGap c then [c] :: (d :: piece) :: rest else (c :: d :: piece) :: rest
      | _ => [[c]]) [])

def SortKey.part (separator : Option Char) (k : SortKey) (line : List Char) : List Char :=
  let fields := sortFields separator line
  let fields := match k.last with
    | some n => fields.take n
    | none => fields
  (separator.toList).intercalate (fields.drop (k.first - 1))

def textOrder (a b : List Char) : Ordering := if lineLess a b then .lt else if a = b then .eq else .gt

/-- The order of two parts under option letters. -/
def partOrder (letters : List Char) (a b : List Char) : Ordering :=
  let prepared (cs : List Char) : List Char :=
    let cs := if letters.contains 'b' then cs.dropWhile isSpace else cs
    if letters.contains 'f' then cs.map Char.toUpper else cs
  let order := if letters.contains 'n' then compare (leadingNumber a) (leadingNumber b)
    else textOrder (prepared a) (prepared b)
  if letters.contains 'r' then order.swap else order

/-- How lines are ordered: by keys, and then as a whole. -/
structure SortOrder where
  letters : List Char := []
  separator : Option Char := none
  keys : List SortKey := []

def SortOrder.byKeys (o : SortOrder) (a b : List Char) : Ordering :=
  let keys := if o.keys.isEmpty then [{}] else o.keys
  keys.foldl (fun order k =>
    let letters := if k.letters.isEmpty then o.letters else k.letters
    let part (line : List Char) : List Char := if o.keys.isEmpty then line else k.part o.separator line
    order.then (partOrder letters (part a) (part b))) .eq

def SortOrder.compare (o : SortOrder) (a b : List Char) : Ordering :=
  let whole := if o.letters.contains 'r' then (textOrder a b).swap else textOrder a b
  (o.byKeys a b).then (if o.letters.contains 'u' || o.letters.contains 's' then .eq else whole)

/-- The number of the first line that stands after one it belongs before. -/
def SortOrder.disorder? (o : SortOrder) (lines : List (List Char)) : Option (Nat × List Char) :=
  (((lines.zip (lines.drop 1)).zipIdx).find? fun ((a, b), _) => o.compare a b == .gt).map fun ((_, b), i) => (i + 2, b)

def sort (p : Job) (g : Given) : Job :=
  let keys := (g.options.filter fun (c, _) => c == 'k').map Prod.snd
  let o : SortOrder :=
    { letters := g.letters, separator := (g.value? 't').bind fun s => s.toList.head?, keys := keys.filterMap SortKey.read? }
  let paths := g.operands
  let texts := (if paths.isEmpty then ["-"] else paths).map fun path => (path, inputText p path)
  match keys.find? fun s => (SortKey.read? s).isNone, texts.find? fun (_, s) => s.toOption.isNone with
  | some key, _ => (p.report s!"invalid number at field start: invalid count at start of '{key}'").leave 2
  | none, some (path, s) =>
    let reason := match s with
      | .error e => Job.reason e
      | .ok _ => ""
    (p.report (if s matches .error .isFolder then s!"read failed: {path}: {reason}"
      else s!"cannot read: {path}: {reason}")).leave 2
  | none, none =>
    let given := texts.flatMap fun (_, s) => (linesOf (s.toOption.getD "")).1
    let p := if paths.isEmpty then { p with stdin := "" } else p
    match if g.has 'c' then o.disorder? given else none with
    | some (n, line) =>
      let path := paths.headD "-"
      let shown := String.ofList line
      (p.report s!"{path}:{n}: disorder: {shown}").leave 1
    | none =>
      let lines := given.mergeSort fun a b => o.compare a b != .gt
      let same (a b : List Char) : Bool := o.byKeys a b == .eq
      let lines := if g.has 'u' then
        (lines.foldl (fun kept line => if kept.head?.any (same line) then kept else line :: kept) []).reverse else lines
      match g.has 'c', g.value? 'o' with
      | true, _ => p.leave 0
      | false, none => (p.print (linesText lines)).leave 0
      | false, some path => match storeFile p path (linesText lines) with
        | .ok p => p.leave 0
        | .error e => (p.report s!"open failed: {path}: {Job.reason e}").leave 2

/-! ### Characters -/

/-- The characters that a set lists. -/
def charsOfSet (fuel : Nat) (cs : List Char) : List Char :=
  match fuel with
  | 0 => []
  | fuel + 1 => match cs with
    | [] => []
    | '[' :: ':' :: rest => match Text.splitOnce ':' rest with
      | some (name, ']' :: rest) =>
        (CharSet.classRanges (String.ofList name)).flatMap (fun (a, b) =>
          (List.range (b.toNat - a.toNat + 1)).map fun i => Char.ofNat (a.toNat + i)) ++ charsOfSet fuel rest
      | _ => '[' :: charsOfSet fuel (':' :: rest)
    | a :: '-' :: b :: rest =>
      (List.range (b.toNat + 1 - a.toNat)).map (fun i => Char.ofNat (a.toNat + i)) ++ charsOfSet fuel rest
    | c :: rest => c :: charsOfSet fuel rest

def squeeze (set : List Char) (cs : List Char) : List Char :=
  cs.foldr (fun c done => if set.contains c && done.head? == some c then done else c :: done) []

def tr (p : Job) (g : Given) : Job :=
  let letters := g.letters
  let sets := g.operands
  let read (s : String) : List Char :=
    let cs := (unescapeSet s.toList)
    charsOfSet (cs.length + 1) cs
  let texts := sets
  let sets := sets.map read
  let first := sets.headD []
  let second := (sets.drop 1).headD []
  let inFirst (c : Char) : Bool := first.contains c != (letters.contains 'c' || letters.contains 'C')
  let last := second.getLast?.getD ' '
  let map (c : Char) : Char :=
    if second.isEmpty then c
    else if letters.contains 'c' || letters.contains 'C' then (if inFirst c then last else c)
    else match first.idxOf? c with
      | some i => second.getD i last
      | none => c
  let cs := p.stdin.toList
  let out :=
    if letters.contains 'd' then
      let kept := cs.filter fun c => !inFirst c
      if letters.contains 's' then squeeze second kept else kept
    else
      let mapped := cs.map map
      if letters.contains 's' then squeeze (if second.isEmpty then first else second) mapped else mapped
  match texts, letters.contains 'd' || letters.contains 's' with
  | [s], false =>
    (((p.report s!"missing operand after '{s}'").complain "Two strings must be given when translating.").complain
      (hint p)).leave 1
  | _, _ => ({ p.print (String.ofList out) with stdin := "" }).leave 0
where
  /-- The escapes of sets. -/
  unescapeSet : List Char → List Char
    | '\\' :: 'n' :: rest => '\n' :: unescapeSet rest
    | '\\' :: 't' :: rest => '\t' :: unescapeSet rest
    | '\\' :: 'r' :: rest => '\r' :: unescapeSet rest
    | '\\' :: '\\' :: rest => '\\' :: unescapeSet rest
    | '\\' :: '0' :: rest => '\x00' :: unescapeSet rest
    | c :: rest => c :: unescapeSet rest
    | [] => []

end StencilTiling.Shell
