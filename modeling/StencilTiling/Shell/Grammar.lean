import StencilTiling.Shell.Reader

/-! The grammar of scripts. A script is read line by line, since a line is run
before the next is looked at; a command that spans lines is read whole. -/

namespace StencilTiling.Shell

open Reader

/-- Where a list of commands stands. -/
inductive ListMode where
  /-- Up to the end of the line. -/
  | line
  /-- Inside a command, with at least one command in it. -/
  | inner
  /-- Inside a choice, perhaps empty. -/
  | arm
  deriving DecidableEq, Repr

/-- Whether a token closes the list before it. -/
def Token.endsList : Token → Bool
  | .finish => true
  | .sign s => s == ")" || s == ";;"
  | .reserved s => ["do", "done", "elif", "else", "esac", "fi", "then", "\x7d"].contains s
  | _ => false

/-! ### Redirections -/

/-- The lines of a here-document, and how many there are with the closing one. -/
def hereLines (delimiter : List Char) (tabs : Bool) : List (List Char) → List (List Char) × Nat
  | [] => ([], 0)
  | line :: rest =>
    let line := if tabs then line.dropWhile (· == '\t') else line
    if line = delimiter then ([], 1)
    else
      let (body, n) := hereLines delimiter tabs rest
      (line :: body, n + 1)

/-- The text of the here-document that starts on the next line, which is taken
out of the source. -/
def takeHere (delimiter : List Char) (tabs : Bool) : Reader String := do
  let s ← get
  let here := s.rest.takeWhile (· != '\n')
  let after := (s.rest.drop here.length).drop 1
  let lines := Text.splitAt (· == '\n') after
  let (body, n) := hereLines delimiter tabs lines
  let body := if n = lines.length && body.getLast? = some [] then body.dropLast else body
  let rest := List.intercalate ['\n'] (lines.drop n)
  let rest := if n < lines.length then '\n' :: rest else []
  set { s with rest := here ++ rest, skipped := s.skipped + n }
  return String.join (body.map fun line => String.ofList line ++ "\n")

/-- The quoted text of a word, and whether any of it was quoted. -/
def delimiterOf (w : Word) : List Char × Bool :=
  let texts := w.map fun part => match part with
    | .text s quoted => (s, quoted)
    | _ => ("", false)
  ((String.join (texts.map Prod.fst)).toList, texts.any Prod.snd)

/-- A redirection after its arrow. -/
def readRedirect (fd : Option Nat) (arrow : String) : Reader Redirect := do
  let w ← match ← readToken false with
    | .word w => pure w
    | t => unexpected t
  match arrow with
  | "<" => return ⟨fd.getD 0, .read, w⟩
  | "<>" => return ⟨fd.getD 0, .read, w⟩
  | "<&" => return ⟨fd.getD 0, .copy, w⟩
  | ">&" => return ⟨fd.getD 1, .copy, w⟩
  | ">>" => return ⟨fd.getD 1, .append, w⟩
  | "<<" | "<<-" =>
    let (delimiter, quoted) := delimiterOf w
    let body ← takeHere delimiter (arrow == "<<-")
    return ⟨fd.getD 0, .here, if quoted then [.text body true] else wordOf body true⟩
  | _ => return ⟨fd.getD 1, .write, w⟩

/-- The redirections after a command. -/
def readRedirects (fuel : Nat) (done : List Redirect) : Reader (List Redirect) :=
  match fuel with
  | 0 => return done
  | fuel + 1 => do
    let s ← get
    match ← readToken true with
    | .arrow fd arrow => readRedirects fuel (done ++ [← readRedirect fd arrow])
    | _ =>
      set s
      return done

/-! ### Simple commands -/

/-- A simple command being read. -/
structure SimpleDraft where
  line : Nat
  vars : List (String × Word) := []
  words : List Word := []
  redirects : List Redirect := []

/-- The words of a simple command. If it turns out to define a function, the
function's name comes back instead. -/
def readSimple (fuel : Nat) (d : SimpleDraft) : Reader (Script ⊕ String) :=
  match fuel with
  | 0 => return .inl .skip
  | fuel + 1 => do
    let s ← get
    match ← readToken false with
    | .word w => match if d.words.isEmpty then assignment? w else none with
      | some v => readSimple fuel { d with vars := d.vars ++ [v] }
      | none => readSimple fuel { d with words := d.words ++ [w] }
    | .arrow fd arrow => readSimple fuel { d with redirects := d.redirects ++ [← readRedirect fd arrow] }
    | t =>
      match t, d with
      | .sign "(", ⟨_, [], [w], []⟩ =>
        match ← readToken false with
        | .sign ")" => match plain? w with
          | some name => if isName name.toList then return .inr name else fail "Bad function name"
          | none => fail "Bad function name"
        | t => expecting t "\")\""
      | _, _ =>
        set s
        return .inl (.simple d.line d.vars d.words d.redirects)

/-- Words up to a token of another kind. -/
def readWords (fuel : Nat) (done : List Word) : Reader (List Word × Token) :=
  match fuel with
  | 0 => return (done, .finish)
  | fuel + 1 => do
    match ← readToken false with
    | .word w => readWords fuel (done ++ [w])
    | t => return (done, t)

/-- The patterns of an arm, from its first token on, up to the closing parenthesis. -/
def readPatterns (fuel : Nat) (t : Token) (done : List Word) : Reader (List Word) :=
  match fuel with
  | 0 => return done
  | fuel + 1 => do
    let w : Word := match t with
      | .word w => w
      | .reserved s => [.text s false]
      | _ => []
    let done := done ++ [w]
    match ← readToken false with
    | .sign "|" => readPatterns fuel (← readToken false) done
    | .sign ")" => return done
    | t => expecting t "\")\""

/-- Takes an expected reserved word or sign. -/
def expect (t : Token) : Reader Unit := do
  let got ← readToken true
  if got = t then return else expecting got t.label

/-! ### Commands -/

mutual

/-- Commands up to the end of their list. -/
def readList (fuel : Nat) (mode : ListMode) (done : Script) (started : Bool) : Reader Script :=
  match fuel with
  | 0 => fail "nesting too deep"
  | fuel + 1 => do
    if mode ≠ .line then skipLines ((← get).rest.length + 1)
    let s ← get
    let t ← readToken true
    if t = .newline then return done
    set s
    if t = .finish then return done
    if (started || mode = .arm) && t.endsList && (mode ≠ .line || t = .finish) then return done
    let a ← readChain fuel
    let s ← get
    let t ← readToken true
    let a := if t = .sign "&" then Script.background a else a
    let done := match done with
      | .skip => a
      | done => .seq done a
    match t with
    | .sign ";" | .sign "&" => readList fuel mode done true
    | .newline =>
      set s
      readList fuel mode done true
    | .finish =>
      set s
      return done
    | t =>
      if mode = .line then unexpected t
      else
        set s
        return done

/-- Pipelines joined by conditions. -/
def readChain (fuel : Nat) : Reader Script :=
  match fuel with
  | 0 => fail "nesting too deep"
  | fuel + 1 => do
    let a ← readPipeline fuel
    readJoined fuel a

def readJoined (fuel : Nat) (a : Script) : Reader Script :=
  match fuel with
  | 0 => fail "nesting too deep"
  | fuel + 1 => do
    let s ← get
    match ← readToken true with
    | .sign "&&" =>
      skipLines ((← get).rest.length + 1)
      let b ← readPipeline fuel
      readJoined fuel (.both a b)
    | .sign "||" =>
      skipLines ((← get).rest.length + 1)
      let b ← readPipeline fuel
      readJoined fuel (.either a b)
    | _ =>
      set s
      return a

def readPipeline (fuel : Nat) : Reader Script :=
  match fuel with
  | 0 => fail "nesting too deep"
  | fuel + 1 => do
    let s ← get
    if (← readToken true) = .reserved "!" then
      let a ← readPiped fuel
      return .negate a
    else
      set s
      readPiped fuel

/-- Commands joined by pipes. -/
def readPiped (fuel : Nat) : Reader Script :=
  match fuel with
  | 0 => fail "nesting too deep"
  | fuel + 1 => do
    let a ← readCommand fuel
    let s ← get
    match ← readToken true with
    | .sign "|" =>
      skipLines ((← get).rest.length + 1)
      let b ← readPiped fuel
      return .pipe a b
    | _ =>
      set s
      return a

/-- One command with its redirections. -/
def readCommand (fuel : Nat) : Reader Script :=
  match fuel with
  | 0 => fail "nesting too deep"
  | fuel + 1 => do
    let s ← get
    skipBlanks
    let line := (← get).line
    let closed (body : Script) : Reader Script := do
      let redirects ← readRedirects ((← get).rest.length + 1) []
      return if redirects.isEmpty then body else .redirected line body redirects
    match ← readToken true with
    | .reserved "if" =>
      let body ← readBranch fuel
      closed body
    | .reserved "while" =>
      let body ← readRepeated fuel true
      closed body
    | .reserved "until" =>
      let body ← readRepeated fuel false
      closed body
    | .reserved "for" =>
      let body ← readEach fuel
      closed body
    | .reserved "case" =>
      let subject ← match ← readToken false with
        | .word w => pure w
        | t => expecting t "word"
      let t ← tokenAfterLines
      if t ≠ .reserved "in" then expecting t "\"in\""
      let body ← readArms fuel subject
      closed body
    | .sign "(" =>
      let body ← readList fuel .inner .skip false
      expect (.sign ")")
      closed (.subshell body)
    | .reserved "\x7b" =>
      let body ← readList fuel .inner .skip false
      expect (.reserved "\x7d")
      closed body
    | .word _ | .arrow .. =>
      set s
      match ← readSimple (s.rest.length + 1) { line } with
      | .inl script => return script
      | .inr name =>
        skipLines ((← get).rest.length + 1)
        return .define name (← readCommand fuel)
    | t => unexpected t

/-- A condition and its branches, after the word that opens it. -/
def readBranch (fuel : Nat) : Reader Script :=
  match fuel with
  | 0 => fail "nesting too deep"
  | fuel + 1 => do
    let cond ← readList fuel .inner .skip false
    expect (.reserved "then")
    let yes ← readList fuel .inner .skip false
    match ← readToken true with
    | .reserved "elif" => return .branch cond yes (← readBranch fuel)
    | .reserved "else" =>
      let no ← readList fuel .inner .skip false
      expect (.reserved "fi")
      return .branch cond yes no
    | .reserved "fi" => return .branch cond yes .skip
    | t => expecting t "\"fi\""

def readRepeated (fuel : Nat) (on : Bool) : Reader Script :=
  match fuel with
  | 0 => fail "nesting too deep"
  | fuel + 1 => do
    let cond ← readList fuel .inner .skip false
    expect (.reserved "do")
    let body ← readList fuel .inner .skip false
    expect (.reserved "done")
    return .repeated on cond body

def readEach (fuel : Nat) : Reader Script :=
  match fuel with
  | 0 => fail "nesting too deep"
  | fuel + 1 => do
    let name ← match ← readToken false with
      | .word w => match (plain? w).filter (isName ·.toList) with
        | some name => pure name
        | none => fail "Bad for loop variable"
      | _ => fail "Bad for loop variable"
    skipLines ((← get).rest.length + 1)
    let s ← get
    let words ← match ← readToken true with
      | .reserved "in" =>
        let (words, t) ← readWords ((← get).rest.length + 1) []
        match t with
        | .newline | .sign ";" => pure words
        | t => unexpected t
      | .sign ";" => pure [[.param "@" .plain "" true]]
      | _ =>
        set s
        pure [[.param "@" .plain "" true]]
    skipLines ((← get).rest.length + 1)
    expect (.reserved "do")
    let body ← readList fuel .inner .skip false
    expect (.reserved "done")
    return .each name words body

/-- The arms of a choice up to its closing word. -/
def readArms (fuel : Nat) (subject : Word) : Reader Script :=
  match fuel with
  | 0 => fail "nesting too deep"
  | fuel + 1 => do
    let t ← tokenAfterLines
    if t = .reserved "esac" then return .skip
    let t ← if t = .sign "(" then readToken false else pure t
    let patterns ← readPatterns ((← get).rest.length + 1) t []
    let body ← readList fuel .arm .skip false
    match ← tokenAfterLines with
    | .reserved "esac" => return .choice subject patterns body .skip
    | .sign ";;" => return .choice subject patterns body (← readArms fuel subject)
    | t => expecting t "\";;\""

end

/-- The commands of the next line; nothing at the end. -/
def readLine : Reader (Option Script) := do
  if (← peekToken true) = .finish then return none
  return some (← readList (16 * ((← get).rest.length + 4)) .line .skip false)

end StencilTiling.Shell
