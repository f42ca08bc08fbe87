import StencilTiling.Shell.Script

/-! The words and signs of a script. Reading keeps count of lines, because
complaints name them. -/

namespace StencilTiling.Shell

/-- A text that is no script, and the line where that shows. -/
structure SyntaxError where
  line : Nat
  text : String
  deriving DecidableEq, Repr

/-- The text still to be read. -/
structure Source where
  rest : List Char
  line : Nat := 1
  /-- Lines taken out ahead of the next line end. -/
  skipped : Nat := 0
  deriving DecidableEq, Repr

abbrev Reader := StateT Source (Except SyntaxError)

namespace Reader

def fail {α : Type} (text : String) : Reader α := do throw ⟨(← get).line, text⟩

/-- Takes characters, counting the lines they end. -/
def take (n : Nat) : Reader (List Char) := fun s =>
  let cs := s.rest.take n
  let ends := (cs.filter (· == '\n')).length
  let skipped := if ends = 0 then s.skipped else 0
  .ok (cs, { rest := s.rest.drop n, line := s.line + ends + (s.skipped - skipped), skipped })

end Reader

open Reader

/-! ### Balanced stretches -/

/-- Length of what stands before a quote that is not escaped, if one follows. -/
def quoteLength : List Char → Option Nat
  | [] => none
  | '"' :: _ => some 0
  | '\\' :: _ :: rest => (quoteLength rest).map (· + 2)
  | _ :: rest => (quoteLength rest).map (· + 1)

/-- How a balanced stretch ends. -/
inductive Balance where
  | closed (length : Nat)
  | openQuote
  | openStretch
  deriving DecidableEq, Repr

/-- The length up to the sign that closes `depth` open ones. -/
def balance (opening closing : Char) (fuel depth length : Nat) (cs : List Char) : Balance :=
  match fuel with
  | 0 => .openStretch
  | fuel + 1 => match cs with
    | [] => .openStretch
    | '\\' :: _ :: rest => balance opening closing fuel depth (length + 2) rest
    | '\'' :: rest => match Text.splitOnce '\'' rest with
      | some (inside, rest) => balance opening closing fuel depth (length + inside.length + 2) rest
      | none => .openQuote
    | '"' :: rest => match quoteLength rest with
      | some n => balance opening closing fuel depth (length + n + 2) (rest.drop (n + 1))
      | none => .openQuote
    | c :: rest =>
      if c == closing then
        if depth ≤ 1 then .closed length else balance opening closing fuel (depth - 1) (length + 1) rest
      else balance opening closing fuel (if c == opening then depth + 1 else depth) (length + 1) rest

/-- The stretch up to the closing sign, which goes too. -/
def takeBalanced (opening closing : Char) (missing : String) : Reader (List Char) := do
  let cs := (← get).rest
  match balance opening closing (cs.length + 1) 1 0 cs with
  | .closed n =>
    let inside ← Reader.take n
    discard (Reader.take 1)
    return inside
  | .openQuote => fail "Unterminated quoted string"
  | .openStretch => fail missing

def closingParen : String := "end of file unexpected (expecting \")\")"

/-! ### Expansions -/

/-- A comparison sign of a parameter with its flag, and the characters it takes. -/
def paramOp? : List Char → Option (ParamOp × Nat)
  | ':' :: '-' :: _ => some (.fallback true, 2)
  | ':' :: '=' :: _ => some (.assign true, 2)
  | ':' :: '+' :: _ => some (.alternate true, 2)
  | ':' :: '?' :: _ => some (.require true, 2)
  | '-' :: _ => some (.fallback false, 1)
  | '=' :: _ => some (.assign false, 1)
  | '+' :: _ => some (.alternate false, 1)
  | '?' :: _ => some (.require false, 1)
  | '#' :: '#' :: _ => some (.dropStart true, 2)
  | '#' :: _ => some (.dropStart false, 1)
  | '%' :: '%' :: _ => some (.dropEnd true, 2)
  | '%' :: _ => some (.dropEnd false, 1)
  | [] => some (.plain, 0)
  | _ => none

def isSpecialParam (c : Char) : Bool := "@*#?$!-".toList.contains c

/-- The name of a parameter at the start of a text. -/
def paramName? : List Char → Option (List Char)
  | [] => none
  | c :: rest =>
    if c.isDigit then some (c :: rest.takeWhile Char.isDigit)
    else if isNameStart c then some (c :: rest.takeWhile isNameChar)
    else if isSpecialParam c then some [c] else none

/-- The parameter between braces. -/
def bracedPart (inside : List Char) (quoted : Bool) : Part :=
  let plain : Part := match paramName? inside with
    | none => .unknown
    | some name => match paramOp? (inside.drop name.length) with
      | some (op, n) =>
        .param (String.ofList name) op (String.ofList (inside.drop (name.length + n))) quoted
      | none => .unknown
  match inside with
  | '#' :: rest => match paramName? rest with
    | some name => if name.length == rest.length then .param (String.ofList name) .length "" quoted else plain
    | none => plain
  | _ => plain

/-- Drops the backslashes that only protect signs between backquotes. -/
def unprotect (quoted : Bool) : List Char → List Char
  | '\\' :: c :: rest =>
    if c == '$' || c == '\\' || c == '\x60' || (quoted && c == '"') then c :: unprotect quoted rest
    else '\\' :: c :: unprotect quoted rest
  | c :: rest => c :: unprotect quoted rest
  | [] => []

/-- Length of what stands before a backquote that is not escaped. -/
def backquoteLength : List Char → Option Nat
  | [] => none
  | '\x60' :: _ => some 0
  | '\\' :: _ :: rest => (backquoteLength rest).map (· + 2)
  | _ :: rest => (backquoteLength rest).map (· + 1)

/-- A command between backquotes, after the first. -/
def readBackquoted (quoted : Bool) : Reader Part := do
  let s ← get
  match backquoteLength s.rest with
  | none => fail "EOF in backquote substitution"
  | some n =>
    let inside ← Reader.take n
    discard (Reader.take 1)
    return .command s.line (String.ofList (unprotect quoted inside)) quoted

/-- What a dollar sign opens, after the sign. -/
def readDollar (quoted : Bool) : Reader Part := do
  let s ← get
  match s.rest with
  | '(' :: '(' :: rest =>
    match balance '(' ')' (rest.length + 1) 2 0 rest with
    | .closed n =>
      if (rest.drop (n - 1)).head? == some ')' && 0 < n then
        discard (Reader.take 2)
        let inside ← Reader.take (n - 1)
        discard (Reader.take 2)
        return .arith (String.ofList inside) quoted
      else
        discard (Reader.take 1)
        return .command s.line (String.ofList (← takeBalanced '(' ')' closingParen)) quoted
    | _ => fail "Missing '))'"
  | '(' :: _ =>
    discard (Reader.take 1)
    return .command s.line (String.ofList (← takeBalanced '(' ')' closingParen)) quoted
  | '\x7b' :: _ =>
    discard (Reader.take 1)
    return bracedPart (← takeBalanced '\x7b' '\x7d' "Missing '\x7d'") quoted
  | cs => match paramName? cs with
    | none => return .text "$" quoted
    | some name =>
      let name := if name.head?.any Char.isDigit then name.take 1 else name
      discard (Reader.take name.length)
      return .param (String.ofList name) .plain "" quoted

/-! ### Words -/

/-- Characters that mean nothing special between double quotes. -/
def isQuiet (c : Char) : Bool := !(c == '"' || c == '\\' || c == '$' || c == '\x60')

/-- The parts up to the closing double quote, or all of them where nothing closes;
`done` holds those before, the latest first. -/
def readQuoted (fuel : Nat) (closes : Bool) (done : Word) : Reader Word :=
  match fuel with
  | 0 => return done.reverse
  | fuel + 1 => do
    let cs := (← get).rest
    match cs with
    | [] => if closes then fail "Unterminated quoted string" else return done.reverse
    | '"' :: _ =>
      discard (Reader.take 1)
      if closes then return done.reverse else readQuoted fuel closes (.text "\"" true :: done)
    | '\\' :: '\n' :: _ =>
      discard (Reader.take 2)
      readQuoted fuel closes done
    | '\\' :: c :: _ =>
      if c == '$' || (c == '"' && closes) || c == '\\' || c == '\x60' then
        discard (Reader.take 2)
        readQuoted fuel closes (.text (String.singleton c) true :: done)
      else
        discard (Reader.take 1)
        readQuoted fuel closes (.text "\\" true :: done)
    | '$' :: _ =>
      discard (Reader.take 1)
      let part ← readDollar true
      readQuoted fuel closes (part :: done)
    | '\x60' :: _ =>
      discard (Reader.take 1)
      let part ← readBackquoted true
      readQuoted fuel closes (part :: done)
    | _ :: _ =>
      let run ← Reader.take (max 1 (cs.takeWhile isQuiet).length)
      readQuoted fuel closes (.text (String.ofList run) true :: done)

/-- Whether a part is the quoted list of all arguments, which may be no field at all. -/
def Part.isArguments : Part → Bool
  | .param "@" _ _ true => true
  | _ => false

/-- Quotes leave an empty stretch behind, so that an empty field stays a field. -/
def quotedWord (inside : Word) : Word :=
  if inside.any Part.isArguments then inside else .text "" true :: inside

/-- The rest of a word, up to a sign in `isEnd`; `done` holds what came before, the
latest first. Letters and digits that stand together are one stretch. -/
def readWord (isEnd : Char → Bool) (fuel : Nat) (done : Word) : Reader Word :=
  match fuel with
  | 0 => return done.reverse
  | fuel + 1 => do
    let cs := (← get).rest
    match cs with
    | [] => return done.reverse
    | '\'' :: rest =>
      match Text.splitOnce '\'' rest with
      | none => fail "Unterminated quoted string"
      | some (inside, _) =>
        discard (Reader.take (inside.length + 2))
        readWord isEnd fuel (.text (String.ofList inside) true :: done)
    | '"' :: rest =>
      discard (Reader.take 1)
      let inside ← readQuoted (rest.length + 1) true []
      readWord isEnd fuel ((quotedWord inside).reverse ++ done)
    | '\\' :: '\n' :: _ =>
      discard (Reader.take 2)
      readWord isEnd fuel done
    | '\\' :: c :: _ =>
      discard (Reader.take 2)
      readWord isEnd fuel (.text (String.singleton c) true :: done)
    | '$' :: _ =>
      discard (Reader.take 1)
      let part ← readDollar false
      readWord isEnd fuel (part :: done)
    | '\x60' :: _ =>
      discard (Reader.take 1)
      let part ← readBackquoted false
      readWord isEnd fuel (part :: done)
    | c :: _ =>
      if isEnd c then return done.reverse
      else
        let run ← Reader.take (max 1 (cs.takeWhile isNameChar).length)
        readWord isEnd fuel (.text (String.ofList run) false :: done)

/-- A whole text as one word, as it stands inside or outside double quotes. -/
def wordOf (text : String) (quoted : Bool) : Word :=
  let cs := text.toList
  let reader := if quoted then readQuoted (cs.length + 1) false [] else readWord (fun _ => false) (cs.length + 1) []
  match reader { rest := cs } with
  | .ok (w, _) => w
  | .error _ => [.unknown]

/-! ### Tokens -/

inductive Token where
  | finish
  | newline
  | sign (s : String)
  | reserved (s : String)
  | word (w : Word)
  | arrow (fd : Option Nat) (s : String)
  deriving DecidableEq, Repr

/-- How complaints name a token. -/
def Token.label : Token → String
  | finish => "end of file"
  | newline => "newline"
  | sign s | reserved s => "\"" ++ s ++ "\""
  | word _ => "word"
  | arrow .. => "redirection"

def reservedWords : List String :=
  ["!", "case", "do", "done", "elif", "else", "esac", "fi", "for", "if", "in", "then", "until", "while", "\x7b", "\x7d"]

def isBreak (c : Char) : Bool := " \t\n;&|<>()".toList.contains c

def unexpected {α : Type} (t : Token) : Reader α := fail (t.label ++ " unexpected")

def expecting {α : Type} (t : Token) (wanted : String) : Reader α :=
  fail (t.label ++ " unexpected (expecting " ++ wanted ++ ")")

def signs : List String := [";;", "&&", "||", ";", "&", "|", "(", ")"]

def arrows : List String := ["<<-", "<<", "<&", "<>", "<", ">>", ">&", ">|", ">"]

/-- The first of some texts that stands at the start. -/
def startOf? (texts : List String) (cs : List Char) : Option String :=
  texts.find? fun s => s.toList.isPrefixOf cs

/-- Length of the blanks, comments and line joints at the start. -/
def blankLength (inComment : Bool) : List Char → Nat
  | [] => 0
  | '\\' :: '\n' :: rest => if inComment then 1 else blankLength false rest + 2
  | c :: rest =>
    if inComment then (if c == '\n' then 0 else blankLength true rest + 1)
    else if c == ' ' || c == '\t' then blankLength false rest + 1
    else if c == '#' then blankLength true rest + 1
    else 0

/-- Skips blanks, comments and line joints. -/
def skipBlanks : Reader Unit := do discard (Reader.take (blankLength false (← get).rest))

/-- The next token; words are recognised as reserved ones where `keywords` holds. -/
def readToken (keywords : Bool) : Reader Token := do
  skipBlanks
  let cs := (← get).rest
  match cs with
  | [] => return .finish
  | '\n' :: _ =>
    discard (Reader.take 1)
    return .newline
  | c :: rest =>
    match startOf? arrows cs, startOf? signs cs with
    | some s, _ =>
      discard (Reader.take s.length)
      return .arrow none s
    | none, some s =>
      discard (Reader.take s.length)
      return .sign s
    | none, none =>
      match if c.isDigit then startOf? arrows rest else none with
      | some s =>
        discard (Reader.take (s.length + 1))
        return .arrow (some (c.toNat - '0'.toNat)) s
      | none =>
        let w ← readWord isBreak (cs.length + 1) []
        match if keywords then (plain? w).filter (reservedWords.contains ·) else none with
        | some s => return .reserved s
        | none => return .word w

/-- The next token without taking it. -/
def peekToken (keywords : Bool) : Reader Token := do
  let s ← get
  let t ← readToken keywords
  set s
  return t

/-- Skips line ends. -/
def skipLines (fuel : Nat) : Reader Unit :=
  match fuel with
  | 0 => return
  | fuel + 1 => do
    let s ← get
    match ← readToken true with
    | .newline => skipLines fuel
    | _ => set s

/-- The next token after line ends. -/
def tokenAfterLines : Reader Token := do
  skipLines ((← get).rest.length + 1)
  readToken true

end StencilTiling.Shell
