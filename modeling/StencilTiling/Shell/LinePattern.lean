import StencilTiling.Shell.Pattern
import StencilTiling.Text.Integer

/-! Line patterns: basic and extended regular expressions over characters. Of
all matches the leftmost counts, and of those the longest. -/

namespace StencilTiling.Shell

inductive LinePattern where
  | empty
  | char (c : Char)
  | any
  | set (s : CharSet)
  | seq (a b : LinePattern)
  | alt (a b : LinePattern)
  | many (p : LinePattern) (least : Nat) (greatest : Option Nat)
  | group (n : Nat) (p : LinePattern)
  | atStart
  | atEnd
  | atWordStart
  | atWordEnd
  /-- What a group matched, once more. -/
  | again (n : Nat)
  deriving Repr, Inhabited

/-- How a pattern is written and compared. -/
structure PatternStyle where
  extended : Bool := false
  /-- Letters match in either case. -/
  caseless : Bool := false
  deriving DecidableEq, Repr

namespace LinePattern

/-! ### Reading -/

/-- A pattern in which every character stands for itself. -/
def literal (cs : List Char) : LinePattern := cs.foldr (fun c p => .seq (.char c) p) .empty

/-- Bounds of a repetition between braces, and what follows them. -/
def bounds? (cs : List Char) : Option ((Nat × Option Nat) × List Char) :=
  let low := cs.takeWhile Char.isDigit
  let least := (Text.readDigits? low).getD 0
  match cs.drop low.length with
  | ',' :: rest =>
    let high := rest.takeWhile Char.isDigit
    some ((least, Text.readDigits? high), rest.drop high.length)
  | rest => if low.isEmpty then none else some ((least, some least), rest)

/-- The repetitions written after an item. -/
def readRepeats (extended : Bool) (fuel : Nat) (p : LinePattern) (cs : List Char) : LinePattern × List Char :=
  match fuel with
  | 0 => (p, cs)
  | fuel + 1 =>
    let braced (rest : List Char) (close : List Char) : LinePattern × List Char :=
      match bounds? rest with
      | some ((least, greatest), after) =>
        if close.isPrefixOf after then readRepeats extended fuel (.many p least greatest) (after.drop close.length)
        else (p, cs)
      | none => (p, cs)
    match extended, cs with
    | _, '*' :: rest => readRepeats extended fuel (.many p 0 none) rest
    | true, '+' :: rest | false, '\\' :: '+' :: rest => readRepeats extended fuel (.many p 1 none) rest
    | true, '?' :: rest | false, '\\' :: '?' :: rest => readRepeats extended fuel (.many p 0 (some 1)) rest
    | true, '\x7b' :: rest => braced rest ['\x7d']
    | false, '\\' :: '\x7b' :: rest => braced rest ['\\', '\x7d']
    | _, cs => (p, cs)

/-- Characters that a letter after a backslash stands for. -/
def escape? : Char → Option LinePattern
  | 'w' => some (.set ⟨false, CharSet.classRanges "alnum" ++ [('_', '_')]⟩)
  | 'W' => some (.set ⟨true, CharSet.classRanges "alnum" ++ [('_', '_')]⟩)
  | 's' => some (.set ⟨false, CharSet.classRanges "space"⟩)
  | 'S' => some (.set ⟨true, CharSet.classRanges "space"⟩)
  | 'b' => some (.alt .atWordStart .atWordEnd)
  | '<' => some .atWordStart
  | '>' => some .atWordEnd
  | 'n' => some (.char '\n')
  | 't' => some (.char '\t')
  | _ => none

mutual

/-- Alternatives, with the next group's number before and after. -/
def readAlternatives (extended : Bool) (fuel group : Nat) (cs : List Char) : LinePattern × Nat × List Char :=
  match fuel with
  | 0 => (.empty, group, cs)
  | fuel + 1 =>
    let (a, group, cs) := readItems extended fuel group true cs
    match extended, cs with
    | true, '|' :: rest | false, '\\' :: '|' :: rest =>
      let (b, group, cs) := readAlternatives extended fuel group rest
      (.alt a b, group, cs)
    | _, cs => (a, group, cs)

/-- Items one after another; `first` tells that none stands before. -/
def readItems (extended : Bool) (fuel group : Nat) (first : Bool) (cs : List Char) : LinePattern × Nat × List Char :=
  match fuel with
  | 0 => (.empty, group, cs)
  | fuel + 1 =>
    let item (p : LinePattern) (group : Nat) (rest : List Char) : LinePattern × Nat × List Char :=
      let (p, rest) := readRepeats extended fuel p rest
      let (more, group, rest) := readItems extended fuel group false rest
      (.seq p more, group, rest)
    let anchor (p : LinePattern) (rest : List Char) (first : Bool) : LinePattern × Nat × List Char :=
      let (more, group, rest) := readItems extended fuel group first rest
      (.seq p more, group, rest)
    let grouped (rest close : List Char) : LinePattern × Nat × List Char :=
      let (p, next, rest) := readAlternatives extended fuel (group + 1) rest
      item (.group group p) next (if close.isPrefixOf rest then rest.drop close.length else rest)
    match extended, cs with
    | _, [] => (.empty, group, [])
    | true, '|' :: _ | true, ')' :: _ => (.empty, group, cs)
    | false, '\\' :: '|' :: _ | false, '\\' :: ')' :: _ => (.empty, group, cs)
    | true, '(' :: rest => grouped rest [')']
    | false, '\\' :: '(' :: rest => grouped rest ['\\', ')']
    | true, '^' :: rest => anchor .atStart rest true
    | false, '^' :: rest => if first then anchor .atStart rest true else item (.char '^') group rest
    | true, '$' :: rest => anchor .atEnd rest false
    | false, '$' :: rest =>
      if rest.isEmpty || ['\\', ')'].isPrefixOf rest || ['\\', '|'].isPrefixOf rest then anchor .atEnd rest false
      else item (.char '$') group rest
    | _, '*' :: rest => if first then item (.char '*') group rest else item .empty group rest
    | _, '.' :: rest => item .any group rest
    | _, '[' :: rest => match CharSet.read? rest with
      | some (s, rest) => item (.set s) group rest
      | none => item (.char '[') group rest
    | _, '\\' :: c :: rest =>
      if c.isDigit && c != '0' then item (.again (c.toNat - '0'.toNat)) group rest
      else item ((escape? c).getD (.char c)) group rest
    | _, c :: rest => item (.char c) group rest

end

/-- The pattern a text writes. -/
def ofText (style : PatternStyle) (cs : List Char) : LinePattern :=
  (readAlternatives style.extended (8 * (cs.length + 2)) 1 cs).1

/-! ### Matching -/

/-- A position in a line: what lies before, nearest first, what lies ahead, and
the groups matched so far. -/
structure Position where
  before : List Char
  ahead : List Char
  groups : List (Nat × List Char)
  deriving DecidableEq, Repr

def isWordChar (c : Option Char) : Bool := c.any fun c => c.isAlphanum || c == '_'

def sameChar (caseless : Bool) (a b : Char) : Bool := a == b || (caseless && a.toLower == b.toLower)

/-- One position per place, the first that was found. -/
def distinct (ps : List Position) : List Position :=
  ps.foldl (fun kept p => if kept.any (·.ahead.length == p.ahead.length) then kept else kept ++ [p]) []

/-- Takes a character that satisfies a test. -/
def step (test : Char → Bool) (p : Position) : List Position :=
  match p.ahead with
  | c :: rest => if test c then [{ p with before := c :: p.before, ahead := rest }] else []
  | [] => []

/-- The positions after repeating a step, those after more rounds first. -/
def rounds (next : Position → List Position) (least : Nat) (greatest : Option Nat) :
    Nat → Nat → List Position → List Position
  | 0, count, ps => if least ≤ count then ps else []
  | fuel + 1, count, ps =>
    let stays := if least ≤ count then ps else []
    if ps.isEmpty || greatest == some count then stays
    else
      let fresh := distinct (ps.flatMap fun p =>
        (next p).filter fun q => q.ahead.length < p.ahead.length || count < least)
      rounds next least greatest fuel (count + 1) fresh ++ stays

/-- The positions that a pattern leads to from a position. -/
def reach (caseless : Bool) : LinePattern → Position → List Position
  | .empty, p => [p]
  | .char c, p => step (sameChar caseless c) p
  | .any, p => step (fun _ => true) p
  | .set s, p => step (fun c => s.contains c || (caseless && (s.contains c.toLower || s.contains c.toUpper))) p
  | .seq a b, p => distinct ((reach caseless a p).flatMap (reach caseless b))
  | .alt a b, p => distinct (reach caseless a p ++ reach caseless b p)
  | .many q least greatest, p =>
    distinct (rounds (reach caseless q) least greatest (p.ahead.length + least + 1) 0 [p])
  | .group n q, p => (reach caseless q p).map fun r =>
    { r with groups := (n, p.ahead.take (p.ahead.length - r.ahead.length)) :: r.groups }
  | .atStart, p => if p.before.isEmpty then [p] else []
  | .atEnd, p => if p.ahead.isEmpty then [p] else []
  | .atWordStart, p => if !isWordChar p.before.head? && isWordChar p.ahead.head? then [p] else []
  | .atWordEnd, p => if isWordChar p.before.head? && !isWordChar p.ahead.head? then [p] else []
  | .again n, p => match p.groups.lookup n with
    | some text =>
      if text.isPrefixOf p.ahead then
        [{ p with before := text.reverse ++ p.before, ahead := p.ahead.drop text.length }]
      else []
    | none => []

/-- The longest match from a position. -/
def longest? (caseless : Bool) (q : LinePattern) (p : Position) : Option Position :=
  (reach caseless q p).foldl (fun best r => match best with
    | none => some r
    | some b => if r.ahead.length < b.ahead.length then some r else some b) none

/-- The first match at or after a position: where it starts and where it ends. -/
def find? (caseless : Bool) (q : LinePattern) : List Char → List Char → Option (Position × Position)
  | before, [] =>
    let p : Position := ⟨before, [], []⟩
    (longest? caseless q p).map fun r => (p, r)
  | before, c :: rest =>
    let p : Position := ⟨before, c :: rest, []⟩
    match longest? caseless q p with
    | some r => some (p, r)
    | none => find? caseless q (c :: before) rest

/-- Whether a line has a match. -/
def accepts (caseless : Bool) (q : LinePattern) (line : List Char) : Bool := (find? caseless q [] line).isSome

end LinePattern

end StencilTiling.Shell
