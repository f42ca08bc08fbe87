/-! Wildcard patterns, which match a whole text, and the sets of characters that
they share with line patterns. -/

namespace StencilTiling.Shell

/-- A set of characters as ranges, or its complement. -/
structure CharSet where
  negated : Bool
  ranges : List (Char × Char)
  deriving DecidableEq, Repr

namespace CharSet

def contains (s : CharSet) (c : Char) : Bool := (s.ranges.any fun (a, b) => a ≤ c && c ≤ b) != s.negated

/-- The ranges of a named class. -/
def classRanges (name : String) : List (Char × Char) :=
  match name with
  | "alpha" => [('A', 'Z'), ('a', 'z')]
  | "digit" => [('0', '9')]
  | "alnum" => [('0', '9'), ('A', 'Z'), ('a', 'z')]
  | "upper" => [('A', 'Z')]
  | "lower" => [('a', 'z')]
  | "space" => [('\t', '\r'), (' ', ' ')]
  | "blank" => [('\t', '\t'), (' ', ' ')]
  | "punct" => [('!', '/'), (':', '@'), ('[', '\x60'), ('\x7b', '~')]
  | "xdigit" => [('0', '9'), ('A', 'F'), ('a', 'f')]
  | "cntrl" => [('\x00', '\x1f'), ('\x7f', '\x7f')]
  | "print" => [(' ', '~')]
  | "graph" => [('!', '~')]
  | _ => []

/-- Ranges up to the closing bracket, and what follows it. -/
def readRanges (first : Bool) : List Char → List (Char × Char) → Option (List (Char × Char) × List Char)
  | [], _ => none
  | ']' :: rest, done => if first then readRanges false rest (done ++ [(']', ']')]) else some (done, rest)
  | '[' :: ':' :: rest, done =>
    let name := rest.takeWhile (· != ':')
    match h : rest.drop name.length with
    | ':' :: ']' :: rest' =>
      have : rest'.length < rest.length := by
        have := congrArg List.length h
        simp at this
        omega
      readRanges false rest' (done ++ classRanges (String.ofList name))
    | _ => readRanges false (':' :: rest) (done ++ [('[', '[')])
  | a :: '-' :: b :: rest, done =>
    if b == ']' then readRanges false ('-' :: b :: rest) (done ++ [(a, a)])
    else readRanges false rest (done ++ [(a, b)])
  | a :: rest, done => readRanges false rest (done ++ [(a, a)])
  termination_by cs => cs.length

/-- The set after an opening bracket, and what follows it. -/
def read? (cs : List Char) : Option (CharSet × List Char) :=
  match cs with
  | '!' :: rest | '^' :: rest => (readRanges true rest []).map fun (ranges, rest) => (⟨true, ranges⟩, rest)
  | cs => (readRanges true cs []).map fun (ranges, rest) => (⟨false, ranges⟩, rest)

end CharSet

/-- A character of a wildcard pattern; quoted characters stand for themselves. -/
inductive Wild where
  | char (c : Char)
  | one
  | many
  | set (s : CharSet)
  deriving DecidableEq, Repr

namespace Wild

/-- A pattern from its characters, each with a mark that it is quoted. -/
def ofMarked (fuel : Nat) (cs : List (Char × Bool)) : List Wild :=
  match fuel with
  | 0 => []
  | fuel + 1 => match cs with
    | [] => []
    | (c, true) :: rest => .char c :: ofMarked fuel rest
    | ('*', false) :: rest => .many :: ofMarked fuel rest
    | ('?', false) :: rest => .one :: ofMarked fuel rest
    | ('[', false) :: rest => match CharSet.read? (rest.map Prod.fst) with
      | some (s, after) => .set s :: ofMarked fuel (rest.drop (rest.length - after.length))
      | none => .char '[' :: ofMarked fuel rest
    | ('\\', false) :: (c, _) :: rest => .char c :: ofMarked fuel rest
    | (c, false) :: rest => .char c :: ofMarked fuel rest

/-- Whether the whole text matches. -/
def accepts : List Wild → List Char → Bool
  | [], text => text.isEmpty
  | .char c :: ps, x :: xs => c == x && accepts ps xs
  | .one :: ps, _ :: xs => accepts ps xs
  | .set s :: ps, x :: xs => s.contains x && accepts ps xs
  | .char _ :: _, [] | .one :: _, [] | .set _ :: _, [] => false
  | .many :: ps, [] => accepts ps []
  | .many :: ps, x :: xs => accepts ps (x :: xs) || accepts (.many :: ps) xs
  termination_by ps text => ps.length + text.length

/-- Drops a matching start: the shortest, or the longest. -/
def dropStart (p : List Wild) (longest : Bool) (text : List Char) : List Char :=
  let cuts := List.range (text.length + 1)
  match (if longest then cuts.reverse else cuts).find? fun n => accepts p (text.take n) with
  | some n => text.drop n
  | none => text

/-- Drops a matching end: the shortest, or the longest. -/
def dropEnd (p : List Wild) (longest : Bool) (text : List Char) : List Char :=
  let cuts := List.range (text.length + 1)
  match (if longest then cuts else cuts.reverse).find? fun n => accepts p (text.drop n) with
  | some n => text.take n
  | none => text

end Wild

end StencilTiling.Shell
