import StencilTiling.Shell.Arith
import StencilTiling.Shell.Job
import StencilTiling.Shell.Pattern
import StencilTiling.Shell.Reader

/-! Expansion of words: parameters, commands and arithmetic in them, then the
split into fields, then the match with the files. -/

namespace StencilTiling.Shell

/-- Runs a script that stands in a word, from a line on; what it prints. -/
abbrev Substitute := Job → Nat → String → Job × String

/-- What a word turns into before it is split. -/
inductive Atom where
  | char (c : Char) (quoted splits : Bool)
  /-- A field starts here, even if it stays empty. -/
  | mark
  /-- A field ends here. -/
  | cut
  deriving DecidableEq, Repr

/-! ### Parameters -/

/-- The number that stands for the job itself. -/
def jobNumber : Nat := 4711

def defaultSeparators : String := " \t\n"

def separators (p : Job) : List Char := ((p.value? "IFS").getD defaultSeparators).toList

/-- The value of a parameter that is a single text. -/
def paramValue? (p : Job) (name : String) : Option String :=
  match name with
  | "@" => some (" ".intercalate p.args)
  | "*" =>
    let sep := match p.value? "IFS" with
      | none => " "
      | some s => String.ofList (s.toList.take 1)
    some (sep.intercalate p.args)
  | "#" => some (toString p.args.length)
  | "?" => some (toString p.status)
  | "$" => some (toString jobNumber)
  | "-" => some (String.ofList p.options)
  | "!" => p.asides.head?.map fun (n, _) => toString n
  | name => match Text.readDigits? name.toList with
    | some 0 => some p.name
    | some (n + 1) => p.args[n]?
    | none => p.value? name

def textAtoms (s : String) (quoted splits : Bool) : List Atom := s.toList.map fun c => .char c quoted splits

/-- A value where it is used: quoted values are not split. -/
def valueAtoms (s : String) (quoted : Bool) : List Atom := textAtoms s quoted (!quoted)

/-- The arguments as fields of their own. -/
def argumentAtoms (args : List String) (quoted : Bool) : List Atom :=
  let each := args.map fun s => if quoted then Atom.mark :: valueAtoms s true else valueAtoms s false
  List.intercalate [.cut] each

/-- The characters of atoms, each with a mark that it is quoted. -/
def markedChars (atoms : List Atom) : List (Char × Bool) :=
  atoms.filterMap fun a => match a with
    | .char c quoted _ => some (c, quoted)
    | .cut => some (' ', true)
    | .mark => none

def plainText (atoms : List Atom) : String := String.ofList ((markedChars atoms).map Prod.fst)

def wildOf (atoms : List Atom) : List Wild :=
  let cs := markedChars atoms
  Wild.ofMarked (cs.length + 1) cs

def isSpecialName (name : String) : Bool := name.toList.all fun c => c.isDigit || isSpecialParam c

/-- Drops line ends at the end. -/
def dropLineEnds (s : String) : String := String.ofList (s.toList.reverse.dropWhile (· == '\n')).reverse

mutual

/-- The atoms of a word; `depth` bounds words inside words. -/
def expandParts (sub : Substitute) (depth : Nat) (p : Job) (parts : Word) : Job × List Atom :=
  match depth with
  | 0 => (p, [])
  | depth + 1 =>
    let (p, done) := parts.foldl (fun (p, done) part =>
      if p.isOnward then
        let (p, atoms) := expandPart sub depth p part
        (p, atoms :: done)
      else (p, done)) (p, [])
    (p, done.reverse.flatten)

def expandPart (sub : Substitute) (depth : Nat) (p : Job) (part : Part) : Job × List Atom :=
  match depth with
  | 0 => (p, [])
  | depth + 1 => match part with
    | .text "" true => (p, [.mark])
    | .text s quoted => (p, textAtoms s quoted false)
    | .unknown => (p.abort "Bad substitution", [])
    | .command line script quoted =>
      let (p, s) := sub p line script
      (p, valueAtoms (dropLineEnds s) quoted)
    | .arith text quoted =>
      let (p, atoms) := expandParts sub depth p (wordOf text true)
      if p.isOnward then
        match Arith.eval (plainText atoms) (p.vars.map fun v => (v.name, v.value)) with
        | .error e => (p.abort e, [])
        | .ok (n, scope) =>
          let changed := scope.take (scope.length - p.vars.length)
          let p := changed.reverse.foldl (fun p (name, value) => p.setVar name value) p
          (p, valueAtoms (toString n) quoted)
      else (p, [])
    | .param name op operand quoted =>
      let value := paramValue? p name
      let present (ifEmpty : Bool) : Bool := match value with
        | none => false
        | some s => if (name == "@" || name == "*") && p.args.isEmpty then false else !(ifEmpty && s.isEmpty)
      let asIs : Job × List Atom :=
        if name == "@" || (name == "*" && !quoted) then (p, argumentAtoms p.args quoted)
        else match value with
          | some s => (p, valueAtoms s quoted)
          | none =>
            if p.hasOption 'u' && !(name == "@" || name == "*") then (p.abort s!"{name}: parameter not set", [])
            else (p, [])
      let other (p : Job) : Job × List Atom :=
        let (p, atoms) := expandParts sub depth p (wordOf operand quoted)
        (p, atoms.map fun a => match a with
          | .char c false _ => .char c false true
          | a => a)
      match op with
      | .plain => asIs
      | .length =>
        if name == "@" || name == "*" then (p, valueAtoms (toString p.args.length) quoted)
        else (p, valueAtoms (toString (value.getD "").length) quoted)
      | .fallback ifEmpty => if present ifEmpty then asIs else other p
      | .alternate ifEmpty => if present ifEmpty then other p else (p, [])
      | .assign ifEmpty =>
        if present ifEmpty then asIs
        else if isSpecialName name then (p.abort s!"{name}: bad variable name", [])
        else
          let (p, atoms) := other p
          let s := plainText atoms
          (p.setVar name s, valueAtoms s quoted)
      | .require ifEmpty =>
        if present ifEmpty then asIs
        else
          let (p, atoms) := other p
          let note := if operand.isEmpty then "parameter not set" ++ (if ifEmpty then " or null" else "")
            else plainText atoms
          (p.abort s!"{name}: {note}", [])
      | .dropStart longest =>
        let (p, atoms) := expandParts sub depth p (wordOf operand false)
        (p, valueAtoms (String.ofList (Wild.dropStart (wildOf atoms) longest (value.getD "").toList)) quoted)
      | .dropEnd longest =>
        let (p, atoms) := expandParts sub depth p (wordOf operand false)
        (p, valueAtoms (String.ofList (Wild.dropEnd (wildOf atoms) longest (value.getD "").toList)) quoted)

end

/-- How deep words may stand in words. -/
def wordDepth : Nat := 64

def atomsOf (sub : Substitute) (p : Job) (w : Word) : Job × List Atom := expandParts sub wordDepth p w

/-- Whether a part ends a name of the home folder. -/
def endsHome : Option Part → Bool
  | none | some (.text "/" false) | some (.text ":" false) => true
  | _ => false

/-- A word with the home folder in place of a tilde at its start, and after each
colon where `everywhere` holds. -/
def homeParts (home : Option String) (everywhere : Bool) : Bool → Word → Word
  | true, .text "~" false :: rest => match home with
    | some s =>
      if endsHome rest.head? then .text s true :: homeParts home everywhere false rest
      else .text "~" false :: homeParts home everywhere false rest
    | none => .text "~" false :: homeParts home everywhere false rest
  | _, part :: rest => part :: homeParts home everywhere (everywhere && part == .text ":" false) rest
  | _, [] => []

def withHome (p : Job) (everywhere : Bool) (w : Word) : Word := homeParts (p.value? "HOME") everywhere true w

/-! ### Fields -/

/-- Finished fields and the one being built, the latest first. -/
structure Fields where
  done : List (List (Char × Bool)) := []
  current : Option (List (Char × Bool)) := none
  /-- The last field was ended by a blank. -/
  afterBlank : Bool := false

def Fields.close (f : Fields) : Fields :=
  match f.current with
  | some field => { f with done := field.reverse :: f.done, current := none }
  | none => f

def Fields.add (seps : List Char) (f : Fields) : Atom → Fields
  | .mark => { f with current := some (f.current.getD []), afterBlank := false }
  | .cut => { f.close with afterBlank := false }
  | .char c quoted splits =>
    if splits && seps.contains c then
      if defaultSeparators.toList.contains c then
        { f.close with afterBlank := f.afterBlank || f.current.isSome }
      else if f.current.isSome then { f.close with afterBlank := false }
      else if f.afterBlank then { f with afterBlank := false }
      else { f with done := [] :: f.done }
    else { f with current := some ((c, quoted) :: f.current.getD []), afterBlank := false }

/-- The fields of atoms. -/
def fieldsOf (seps : List Char) (atoms : List Atom) : List (List (Char × Bool)) :=
  (atoms.foldl (Fields.add seps) {}).close.done.reverse

/-! ### Files -/

def isMagic (field : List (Char × Bool)) : Bool :=
  field.any fun (c, quoted) => !quoted && (c == '*' || c == '?' || c == '[')

/-- The pieces of a field between slashes. -/
def fieldPieces : List (Char × Bool) → List (List (Char × Bool))
  | [] => [[]]
  | (c, quoted) :: rest =>
    if c == '/' then [] :: fieldPieces rest
    else match fieldPieces rest with
      | piece :: more => ((c, quoted) :: piece) :: more
      | [] => [[(c, quoted)]]

/-- The names in a folder, in order. -/
def namesIn (t : Tree) (folder : Place) : List String :=
  ((t.names folder).map Text.octets).mergeSort fun a b => !decide (b < a)

/-- The paths that lead on from one by a pattern for the next name. -/
def nextPaths (p : Job) (piece : List (Char × Bool)) (last : Bool) (path : String) : List String :=
  let text := String.ofList (piece.map Prod.fst)
  if isMagic piece then
    let pattern := Wild.ofMarked (piece.length + 1) piece
    let hidden := (piece.head?.map Prod.fst) == some '.'
    match p.resolve (if path.isEmpty then "." else path) with
    | .ok folder => ((namesIn p.tree folder).filter fun name =>
        (hidden || name.toList.head? != some '.') && Wild.accepts pattern name.toList &&
          (last || p.isFolder (path ++ name))).map fun name => path ++ name ++ (if last then "" else "/")
    | .error _ => []
  else
    let next := path ++ text
    if last then (if text.isEmpty || (p.entryAt? next).isSome then [next] else []) else [next ++ "/"]

def allPaths (p : Job) : List (List (Char × Bool)) → List String → List String
  | [], paths => paths
  | [piece], paths => paths.flatMap (nextPaths p piece true)
  | piece :: rest, paths => allPaths p rest (paths.flatMap (nextPaths p piece false))

/-- The files a field names, or the field itself. -/
def fieldTexts (p : Job) (field : List (Char × Bool)) : List String :=
  let text := String.ofList (field.map Prod.fst)
  if isMagic field && !p.hasOption 'f' then
    match allPaths p (fieldPieces field) [""] with
    | [] => [text]
    | paths => paths
  else [text]

/-! ### Words -/

/-- The texts a word stands for. -/
def expandWord (sub : Substitute) (p : Job) (w : Word) : Job × List String :=
  let (p, atoms) := atomsOf sub p (withHome p false w)
  (p, (fieldsOf (separators p) atoms).flatMap (fieldTexts p))

def expandWords (sub : Substitute) (p : Job) (ws : List Word) : Job × List String :=
  ws.foldl (fun (p, done) w =>
    if p.isOnward then
      let (p, texts) := expandWord sub p w
      (p, done ++ texts)
    else (p, done)) (p, [])

/-- The one text a word stands for where it is not split. -/
def expandText (sub : Substitute) (p : Job) (w : Word) : Job × String :=
  let (p, atoms) := atomsOf sub p (withHome p true w)
  (p, plainText atoms)

end StencilTiling.Shell
