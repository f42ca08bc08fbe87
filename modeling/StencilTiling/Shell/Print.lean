import StencilTiling.Shell.Arith
import StencilTiling.Shell.Job

/-! Printing: escapes, and formats with their conversions. The shell's own
printers and the programs of the same names differ in what they escape. -/

namespace StencilTiling.Shell

/-! ### Escapes -/

/-- Which escapes a printer knows. -/
structure EscapeStyle where
  /-- Octal numbers start with a zero. -/
  zeroFirst : Bool := false
  /-- A `c` ends all output. -/
  stops : Bool := false
  /-- Hexadecimal numbers, the escape character and quotes. -/
  wide : Bool := false
  deriving DecidableEq, Repr

def isOctal (c : Char) : Bool := '0' ≤ c && c ≤ '7'

def isHex (c : Char) : Bool := c.isDigit || ('a' ≤ c && c ≤ 'f') || ('A' ≤ c && c ≤ 'F')

def octet (n : Nat) : Char := Char.ofNat (n % 256)

/-- What an escape stands for, after its backslash: a character and the number
of characters it takes. -/
def escape? (style : EscapeStyle) (cs : List Char) : Option (Char × Nat) :=
  let octal (ds : List Char) : Char × Nat :=
    let ds := (ds.take 3).takeWhile isOctal
    (octet (Arith.digitsIn 8 ds 0).1, ds.length)
  match cs with
  | [] => none
  | '0' :: rest =>
    if style.zeroFirst && rest.head?.any isOctal then
      let (c, n) := octal rest
      some (c, n + 1)
    else some (octal cs)
  | '\\' :: _ => some ('\\', 1)
  | 'a' :: _ => some ('\x07', 1)
  | 'b' :: _ => some ('\x08', 1)
  | 'f' :: _ => some ('\x0c', 1)
  | 'n' :: _ => some ('\n', 1)
  | 'r' :: _ => some ('\r', 1)
  | 't' :: _ => some ('\t', 1)
  | 'v' :: _ => some ('\x0b', 1)
  | c :: rest =>
    if isOctal c && (!style.zeroFirst || !style.wide) then some (octal cs)
    else if style.wide then
      match c with
      | 'e' => some ('\x1b', 1)
      | '"' => if style.zeroFirst then none else some ('"', 1)
      | 'x' =>
        let ds := (rest.take 2).takeWhile isHex
        if ds.isEmpty then none else some (octet (Arith.digitsIn 16 ds 0).1, ds.length + 1)
      | _ => none
    else none

/-- A text with its escapes replaced, and whether one of them ends all output;
`done` holds what came before, the latest first. -/
def unescape (style : EscapeStyle) (fuel : Nat) (done cs : List Char) : List Char × Bool :=
  match fuel with
  | 0 => (done.reverse ++ cs, false)
  | fuel + 1 => match cs with
    | [] => (done.reverse, false)
    | '\\' :: rest =>
      if style.stops && rest.head? == some 'c' then (done.reverse, true)
      else match escape? style rest with
        | some (c, n) => unescape style fuel (c :: done) (rest.drop n)
        | none => unescape style fuel ('\\' :: done) rest
    | c :: rest => unescape style fuel (c :: done) rest

def unescapeText (style : EscapeStyle) (s : String) : String × Bool :=
  let (cs, stopped) := unescape style (s.length + 1) [] s.toList
  (String.ofList cs, stopped)

/-! ### Plain printing -/

/-- The shell's own printer: escapes always count. -/
def shellEcho (p : Job) (args : List String) : Job :=
  let (last, args) := match args with
    | "-n" :: rest => ("", rest)
    | args => ("\n", args)
  let (s, stopped) := unescapeText { zeroFirst := true, stops := true } (" ".intercalate args)
  (p.print (if stopped then s else s ++ last)).leave 0

/-- Letters of an option of the program, if the argument is one. -/
def echoOption? (s : String) : Option (List Char) :=
  match s.toList with
  | '-' :: c :: rest => if (c :: rest).all fun c => c == 'n' || c == 'e' || c == 'E' then some (c :: rest) else none
  | _ => none

/-- The program of the same name: escapes count after an option. -/
def echoProgram (p : Job) (args : List String) : Job :=
  let options := (args.takeWhile fun s => (echoOption? s).isSome).filterMap echoOption?
  let letters := options.flatten
  let text := " ".intercalate (args.drop options.length)
  let escapes := (letters.filter (· != 'n')).getLast? == some 'e'
  let (s, stopped) := if escapes then unescapeText { zeroFirst := true, stops := true, wide := true } text
    else (text, false)
  (p.print (if stopped || letters.contains 'n' then s else s ++ "\n")).leave 0

/-! ### Formats -/

/-- A conversion: its flags, its width, its precision and its letter. -/
structure Conversion where
  flags : List Char := []
  width : Nat := 0
  precision : Option Nat := none
  letter : Char
  deriving DecidableEq, Repr

namespace Conversion

def has (c : Conversion) (flag : Char) : Bool := c.flags.contains flag

/-- Filled up to the width. -/
def fill (c : Conversion) (s : List Char) (zeros : Bool) (signLength : Nat) : List Char :=
  let missing := c.width - s.length
  if c.has '-' then s ++ List.replicate missing ' '
  else if zeros then s.take signLength ++ List.replicate missing '0' ++ s.drop signLength
  else List.replicate missing ' ' ++ s

def text (c : Conversion) (s : List Char) : List Char :=
  c.fill (match c.precision with
    | some n => s.take n
    | none => s) false 0

/-- Digits with sign, precision and width. -/
def digits (c : Conversion) (sign : List Char) (ds : List Char) : List Char :=
  let ds := if c.precision == some 0 && ds == ['0'] then [] else ds
  let ds := List.replicate (c.precision.getD 0 - ds.length) '0' ++ ds
  c.fill (sign ++ ds) (c.has '0' && c.precision.isNone) sign.length

def number (c : Conversion) (n : Int) : List Char :=
  let low := Arith.bits n
  match c.letter with
  | 'd' | 'i' =>
    let sign := if n < 0 then ['-'] else if c.has '+' then ['+'] else if c.has ' ' then [' '] else []
    c.digits sign (toString n.natAbs).toList
  | 'o' => c.digits (if c.has '#' && low != 0 then ['0'] else []) (Nat.toDigits 8 low)
  | 'x' => c.digits (if c.has '#' && low != 0 then ['0', 'x'] else []) (Nat.toDigits 16 low)
  | 'X' => c.digits (if c.has '#' && low != 0 then ['0', 'X'] else []) ((Nat.toDigits 16 low).map Char.toUpper)
  | _ => c.digits [] (toString low).toList

end Conversion

/-- The differences between the shell's own format printer and the program. -/
structure FormatStyle where
  escapes : EscapeStyle
  /-- What stands before complaints. -/
  label : String
  /-- What stands around arguments in them. -/
  quote : String
  expected : String
  partly : String
  invalid : String
  invalidStatus : Nat
  /-- Said of a format that ends in a conversion. -/
  cut : String
  /-- Arguments that the format has no use for are worth a warning. -/
  warnsOfExcess : Bool

/-- What a pass over a format has done so far. -/
structure FormatState where
  job : Job
  args : List String
  used : Bool := false
  status : Nat := 0
  stopped : Bool := false

namespace FormatState

def put (s : FormatState) (cs : List Char) : FormatState := { s with job := s.job.print (String.ofList cs) }

def nextText (s : FormatState) : String × FormatState :=
  (s.args.headD "", { s with args := s.args.tail, used := true })

def nextNumber (style : FormatStyle) (s : FormatState) : Int × FormatState :=
  let (text, s) := s.nextText
  let bad (note : String) : FormatState :=
    { s with job := s.job.complain s!"{style.label}{style.quote}{text}{style.quote}: {note}", status := 1 }
  match text.toList with
  | [] => (0, s)
  | q :: c :: _ =>
    if q == '"' || q == '\'' then (c.toNat, s)
    else match Arith.number? text.toList with
      | some (n, []) => (n, s)
      | some (n, _) => (n, bad style.partly)
      | none => (0, bad style.expected)
  | _ => match Arith.number? text.toList with
    | some (n, _) => (n, s)
    | none => (0, bad style.expected)

end FormatState

/-- A number or a star at the start: its value and what follows. -/
def readWidth (style : FormatStyle) (cs : List Char) (s : FormatState) : Int × List Char × FormatState :=
  match cs with
  | '*' :: rest =>
    let (n, s) := s.nextNumber style
    (n, rest, s)
  | cs =>
    let ds := cs.takeWhile Char.isDigit
    (Text.digitsValue ds, cs.drop ds.length, s)

/-- One conversion after its percent sign. -/
def convert (style : FormatStyle) (cs : List Char) (s : FormatState) : List Char × FormatState :=
  let flags := cs.takeWhile fun c => "#-+ 0".toList.contains c
  let (width, cs, s) := readWidth style (cs.drop flags.length) s
  let flags := if width < 0 then '-' :: flags else flags
  let (precision, cs, s) : Option Nat × List Char × FormatState := match cs with
    | '.' :: rest =>
      let (n, cs, s) := readWidth style rest s
      (if n < 0 then none else some n.toNat, cs, s)
    | cs => (none, cs, s)
  match cs with
  | [] => ([], { s with job := s.job.complain (style.label ++ style.cut), status := style.invalidStatus, stopped := true })
  | letter :: rest =>
    let c : Conversion := ⟨flags, width.natAbs, precision, letter⟩
    match letter with
    | 's' => let (text, s) := s.nextText; (rest, s.put (c.text text.toList))
    | 'c' => let (text, s) := s.nextText; (rest, s.put (c.text (if text.isEmpty then ['\x00'] else text.toList.take 1)))
    | 'b' =>
      let (text, s) := s.nextText
      let (text, stopped) := unescapeText { style.escapes with zeroFirst := true, stops := true } text
      (rest, { s.put (c.text text.toList) with stopped })
    | letter =>
      if "diouxX".toList.contains letter then
        let (n, s) := s.nextNumber style
        (rest, s.put (c.number n))
      else
        let spec := String.ofList ('%' :: flags ++ [letter])
        (rest, { s with job := s.job.complain s!"{style.label}{spec}: {style.invalid}", status := style.invalidStatus, stopped := true })

/-- One pass over a format. -/
def formatOnce (style : FormatStyle) (fuel : Nat) (cs : List Char) (s : FormatState) : FormatState :=
  match fuel with
  | 0 => s
  | fuel + 1 =>
    if s.stopped then s
    else match cs with
      | [] => s
      | '%' :: '%' :: rest => formatOnce style fuel rest (s.put ['%'])
      | '%' :: rest => let (rest, s) := convert style rest s; formatOnce style fuel rest s
      | '\\' :: rest =>
        if style.escapes.wide && rest.head? == some 'c' then { s with stopped := true }
        else match escape? style.escapes rest with
          | some (c, n) => formatOnce style fuel (rest.drop n) (s.put [c])
          | none => formatOnce style fuel rest (s.put ['\\'])
      | c :: rest => formatOnce style fuel rest (s.put [c])

/-- The format over and over until the arguments are used up. -/
def formatAll (style : FormatStyle) (cs : List Char) : Nat → FormatState → FormatState
  | 0, s => s
  | fuel + 1, s =>
    let s := formatOnce style (cs.length + 1) cs { s with used := false }
    if s.args.isEmpty || !s.used || s.stopped then s else formatAll style cs fuel s

def printFormat (style : FormatStyle) (p : Job) (format : String) (args : List String) : Job :=
  let s := formatAll style format.toList (args.length + 1) { job := p, args }
  let job := match s.args with
    | arg :: _ =>
      if style.warnsOfExcess && !s.stopped then
        s.job.complain s!"{style.label}warning: ignoring excess arguments, starting with '{arg}'"
      else s.job
    | [] => s.job
  job.leave s.status

/-- The shell's own format printer. -/
def shellPrintf (p : Job) (args : List String) : Job :=
  let style : FormatStyle := {
    escapes := {}
    label := s!"{p.name}: {p.line}: printf: "
    quote := ""
    expected := "expected numeric value"
    partly := "not completely converted"
    invalid := "invalid directive"
    invalidStatus := 2
    cut := "missing format character"
    warnsOfExcess := false }
  match args with
  | [] | ["--"] => (p.warn "usage: printf format [arg ...]").leave 2
  | "--" :: format :: args | format :: args => printFormat style p format args

/-- The program of the same name. -/
def printfProgram (p : Job) (args : List String) : Job :=
  let style : FormatStyle := {
    escapes := { wide := true }
    label := p.name ++ ": "
    quote := "'"
    expected := "expected a numeric value"
    partly := "value not completely converted"
    invalid := "invalid conversion specification"
    invalidStatus := 1
    cut := "%: invalid conversion specification"
    warnsOfExcess := true }
  match args with
  | [] | ["--"] => p.leave 1
  | "--" :: format :: args | format :: args => printFormat style p format args

end StencilTiling.Shell
