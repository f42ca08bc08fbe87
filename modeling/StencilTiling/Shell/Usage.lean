import StencilTiling.Shell.Expand

/-! The arguments of programs: options, their values, and operands in any order. -/

namespace StencilTiling.Shell

/-- A program that needs no other: its arguments, and the job before and after. -/
abbrev Tool := Job → List String → Job

/-- Options with their values, empty where there is none, and operands. -/
structure Given where
  options : List (Char × String) := []
  operands : List String := []

namespace Given

def has (g : Given) (c : Char) : Bool := g.options.any fun (d, _) => d == c

/-- The value that was given last. -/
def value? (g : Given) (c : Char) : Option String := ((g.options.filter fun (d, _) => d == c).getLast?).map Prod.snd

def letters (g : Given) : List Char := g.options.map Prod.fst

def add (g : Given) (c : Char) (value : String) : Given := { g with options := g.options ++ [(c, value)] }

end Given

/-- What a program takes. -/
structure Usage where
  /-- Options without a value. -/
  letters : String := ""
  /-- Options with a value. -/
  valued : String := ""
  /-- Long names of options. -/
  long : List (String × Char) := []
  /-- What is said if there are no operands. -/
  missing : Option String := none
  /-- Options that make up for missing operands. -/
  excused : String := ""
  /-- The status of misuse. -/
  status : Nat := 1
  /-- Whether the hint after a complaint starts with the program's name, too. -/
  signed : Bool := false

namespace Usage

def isValued (u : Usage) (c : Char) : Bool := u.valued.toList.contains c

/-- Takes the letters of one argument; a value is the rest of it or the next argument. -/
def readLetters (u : Usage) : List Char → List String → Given → Except String (Given × List String)
  | [], rest, g => .ok (g, rest)
  | c :: cs, rest, g =>
    let letter := String.singleton c
    if u.isValued c then
      match cs, rest with
      | [], value :: rest => .ok (g.add c value, rest)
      | [], [] => .error s!"option requires an argument -- '{letter}'"
      | cs, rest => .ok (g.add c (String.ofList cs), rest)
    else if u.letters.toList.contains c then u.readLetters cs rest (g.add c "")
    else .error s!"invalid option -- '{letter}'"

/-- Takes an option by its long name. -/
def readLong (u : Usage) (s : String) (rest : List String) (g : Given) : Except String (Given × List String) :=
  let name := s.toList.drop 2
  let (name, value) := match Text.splitOnce '=' name with
    | some (name, value) => (name, some (String.ofList value))
    | none => (name, none)
  match u.long.lookup (String.ofList name), value with
  | none, _ => .error s!"unrecognized option '{s}'"
  | some c, some value => .ok (g.add c value, rest)
  | some c, none =>
    if u.isValued c then
      match rest with
      | value :: rest => .ok (g.add c value, rest)
      | [] => .error s!"option '{s}' requires an argument"
    else .ok (g.add c "", rest)

/-- Reads arguments; two hyphens end the options. -/
def readAll (u : Usage) : Nat → List String → Given → Except String Given
  | 0, _, g => .ok g
  | fuel + 1, args, g => match args with
    | [] => .ok g
    | "--" :: rest => .ok { g with operands := g.operands ++ rest }
    | s :: rest => match s.toList with
      | '-' :: '-' :: _ => do
        let (g, rest) ← u.readLong s rest g
        u.readAll fuel rest g
      | '-' :: c :: cs => do
        let (g, rest) ← u.readLetters (c :: cs) rest g
        u.readAll fuel rest g
      | _ => u.readAll fuel rest { g with operands := g.operands ++ [s] }

/-- What is given, or what is wrong with it. -/
def read (u : Usage) (args : List String) : Except String Given := do
  let g ← u.readAll (args.length + 1) args {}
  match u.missing with
  | some note => if g.operands.isEmpty && !u.excused.toList.any g.has then throw note else return g
  | none => return g

end Usage

/-- Where a program says more about itself. -/
def hint (p : Job) : String := s!"Try '{p.name} --help' for more information."

/-- A complaint about the arguments of a program, with a hint. -/
def misuse (p : Job) (note : String) (status : Nat) : Job := ((p.report note).complain (hint p)).leave status

/-- The same with the program's name before the hint. -/
def misuseSigned (p : Job) (note : String) (status : Nat) : Job := ((p.report note).report (hint p)).leave status

/-- A program that reads its arguments in the usual way. -/
def reading (u : Usage) (f : Job → Given → Job) : Tool := fun p args =>
  match u.read args with
  | .ok g => f (p.leave 0) g
  | .error note => if u.signed then misuseSigned p note u.status else misuse p note u.status

/-- A program that reads its arguments itself but needs some. -/
def needing (status : Nat) (tool : Tool) : Tool := fun p args =>
  if args.isEmpty then misuse p "missing operand" status else tool p args

end StencilTiling.Shell
