import Mathlib.Data.List.Basic
import StencilTiling.Code.Program

/-! The integer expressions of C, read from text. Adjacent characters that would form one
token are never taken apart: letters and digits run together, and so do doubled signs and
the openings of comments, which are no tokens here. The grammar has the usual precedences,
and both sums and products group to the left. The reader finds the tree of every
derivation, so no text has two. -/

namespace StencilTiling.Code

/-! ### Tokens -/

inductive Token where
  | number (n : Nat)
  | word (text : String)
  | plus
  | minus
  | star
  | slash
  | opening
  | closing
  | comma
  deriving DecidableEq, Repr

/-- Adjacent characters of one token. -/
def glued (a b : Char) : Bool :=
  isIdentChar a && isIdentChar b || a == '+' && b == '+' || a == '-' && b == '-' ||
    a == '/' && (b == '/' || b == '*')

/-- The text cut wherever adjacent characters are not glued. -/
def lexemes : List Char → List (List Char)
  | [] => []
  | c :: cs => match lexemes cs with
    | (d :: w) :: rest => if glued c d then (c :: d :: w) :: rest else [c] :: (d :: w) :: rest
    | rest => [c] :: rest

/-- A decimal numeral; a zero in front would make it octal. -/
def isNumeral (w : List Char) : Bool := w.all Char.isDigit && w ≠ [] && (w.head? ≠ some '0' || w = ['0'])

/-- Letters, digits and underscores, no digit in front. -/
def isIdentifier (w : List Char) : Bool :=
  w.all isIdentChar && (w.head?.map fun c => !c.isDigit).getD false

def Token.ofLexeme? : List Char → Option Token
  | ['+'] => some .plus
  | ['-'] => some .minus
  | ['*'] => some .star
  | ['/'] => some .slash
  | ['('] => some .opening
  | [')'] => some .closing
  | [','] => some .comma
  | w =>
    if isNumeral w then some (.number (Nat.ofDigitChars 10 w 0))
    else if isIdentifier w then some (.word (String.ofList w))
    else none

def lex (text : List Char) : Option (List Token) := (lexemes text).mapM Token.ofLexeme?

theorem lexemes_cons_of {c d : Char} {w cs : List Char} {rest : List (List Char)}
    (h : lexemes cs = (d :: w) :: rest) :
    lexemes (c :: cs) = if glued c d then (c :: d :: w) :: rest else [c] :: (d :: w) :: rest := by
  rw [lexemes, h]

theorem lexemes_cons (c : Char) (cs : List Char) : ∃ w rest, lexemes (c :: cs) = (c :: w) :: rest := by
  rw [lexemes]
  split
  · split_ifs <;> exact ⟨_, _, rfl⟩
  · exact ⟨_, _, rfl⟩

/-- Texts that are not glued at the seam are cut apart there. -/
theorem lexemes_append {xs ys : List Char}
    (h : ∀ a ∈ xs.getLast?, ∀ b ∈ ys.head?, glued a b = false) :
    lexemes (xs ++ ys) = lexemes xs ++ lexemes ys := by
  induction xs with
  | nil => rfl
  | cons c cs ih =>
    cases cs with
    | nil =>
      cases ys with
      | nil => rfl
      | cons b ys =>
        obtain ⟨w, rest, hys⟩ := lexemes_cons b ys
        have hcb : glued c b = false := h c rfl b rfl
        rw [List.singleton_append, lexemes_cons_of hys, hcb, hys]
        rfl
    | cons d cs =>
      have hih := ih fun a ha => h a (by rwa [List.getLast?_cons_cons])
      obtain ⟨w, rest, hds⟩ := lexemes_cons d cs
      rw [hds] at hih
      rw [List.cons_append, lexemes_cons_of hih, lexemes_cons_of hds]
      split_ifs <;> rfl

theorem lexemes_word {w : List Char} (hne : w ≠ []) (h : ∀ c ∈ w, isIdentChar c = true) :
    lexemes w = [w] := by
  induction w with
  | nil => exact absurd rfl hne
  | cons c cs ih =>
    cases cs with
    | nil => rfl
    | cons d cs =>
      have hglued : glued c d = true := by
        simp [glued, h c (by simp), h d (by simp)]
      have hcs := ih (by simp) fun c hc => h c (List.mem_cons_of_mem _ hc)
      rw [lexemes_cons_of hcs, if_pos hglued]

theorem lex_append {xs ys : List Char} {ts us : List Token} (hx : lex xs = some ts)
    (hy : lex ys = some us) (h : ∀ a ∈ xs.getLast?, ∀ b ∈ ys.head?, glued a b = false) :
    lex (xs ++ ys) = some (ts ++ us) := by
  rw [lex] at hx hy
  rw [lex, lexemes_append h, List.mapM_append, hx, hy]
  rfl

theorem lex_cons {c : Char} {ys : List Char} {token : Token} {us : List Token}
    (hc : lex [c] = some [token]) (hy : lex ys = some us) (h : ∀ b ∈ ys.head?, glued c b = false) :
    lex (c :: ys) = some (token :: us) := by
  refine lex_append hc hy ?_
  rintro a ⟨⟩
  exact h

/-! ### The grammar -/

/-- Trees of integer expressions. -/
inductive Reading where
  | number (n : Nat)
  | ident (name : String)
  | negate (t : Reading)
  | add (t u : Reading)
  | subtract (t u : Reading)
  | multiply (t u : Reading)
  | divide (t u : Reading)
  | call (f : Builtin) (t u : Reading)
  deriving DecidableEq, Repr

/-- The value of a tree; division truncates toward zero. -/
def Reading.eval (env : String → Int) : Reading → Int
  | number n => n
  | ident name => env name
  | negate t => -t.eval env
  | add t u => t.eval env + u.eval env
  | subtract t u => t.eval env - u.eval env
  | multiply t u => t.eval env * u.eval env
  | divide t u => (t.eval env).tdiv (u.eval env)
  | call .min t u => min (t.eval env) (u.eval env)
  | call .max t u => max (t.eval env) (u.eval env)

/-- The precedences, tightest first. -/
inductive Level where
  | primary
  | unary
  | product
  | sum
  deriving DecidableEq, Repr

inductive Derives : Level → List Token → Reading → Prop
  | number (n : Nat) : Derives .primary [.number n] (.number n)
  | ident (x : String) : Derives .primary [.word x] (.ident x)
  | group {ts t} : Derives .sum ts t → Derives .primary (.opening :: (ts ++ [.closing])) t
  | call (f : Builtin) {ts us t u} : Derives .sum ts t → Derives .sum us u →
      Derives .primary (.word f.text :: .opening :: (ts ++ .comma :: (us ++ [.closing]))) (.call f t u)
  | ofPrimary {ts t} : Derives .primary ts t → Derives .unary ts t
  | negate {ts t} : Derives .unary ts t → Derives .unary (.minus :: ts) (.negate t)
  | ofUnary {ts t} : Derives .unary ts t → Derives .product ts t
  | multiply {ts us t u} : Derives .product ts t → Derives .unary us u →
      Derives .product (ts ++ .star :: us) (.multiply t u)
  | divide {ts us t u} : Derives .product ts t → Derives .unary us u →
      Derives .product (ts ++ .slash :: us) (.divide t u)
  | ofProduct {ts t} : Derives .product ts t → Derives .sum ts t
  | add {ts us t u} : Derives .sum ts t → Derives .product us u →
      Derives .sum (ts ++ .plus :: us) (.add t u)
  | subtract {ts us t u} : Derives .sum ts t → Derives .product us u →
      Derives .sum (ts ++ .minus :: us) (.subtract t u)

theorem Derives.of_product {l : Level} {ts : List Token} {t : Reading} (h : Derives .product ts t)
    (hl : l = .product ∨ l = .sum) : Derives l ts t := by
  rcases hl with rfl | rfl
  · exact h
  · exact h.ofProduct

theorem Derives.of_unary {l : Level} {ts : List Token} {t : Reading} (h : Derives .unary ts t)
    (hl : l ≠ .primary) : Derives l ts t := by
  cases l with
  | primary => exact absurd rfl hl
  | unary => exact h
  | product => exact h.ofUnary
  | sum => exact h.ofUnary.ofProduct

theorem Derives.of_primary {ts : List Token} {t : Reading} (h : Derives .primary ts t) (l : Level) :
    Derives l ts t := by
  cases l with
  | primary => exact h
  | _ => exact h.ofPrimary.of_unary (by decide)

/-- The text is an expression with this tree. -/
def Reads (text : String) (t : Reading) : Prop :=
  ∃ ts, lex text.toList = some ts ∧ Derives .sum ts t

/-! ### The reader -/

def Builtin.ofText? (s : String) : Option Builtin :=
  if s = "min" then some .min else if s = "max" then some .max else none

theorem Builtin.ofText?_text (f : Builtin) : Builtin.ofText? f.text = some f := by
  cases f <;> decide

/-- An open parenthesis, with the operators around it that wait for its value. -/
inductive Frame where
  | group (term factor : Reading → Reading)
  | first (f : Builtin) (term factor : Reading → Reading)
  | second (f : Builtin) (t : Reading) (term factor : Reading → Reading)

/-- Where the reader stands: before an operand or after a product. The term is what to do
with the product at hand, the factor what to do with the operand. -/
inductive State where
  | operand (term factor : Reading → Reading) (stack : List Frame)
  | operator (term : Reading → Reading) (product : Reading) (stack : List Frame)

def run : State → List Token → Option Reading
  | .operand term factor stack, .number n :: ts => run (.operator term (factor (.number n)) stack) ts
  | .operand term factor stack, .word x :: .opening :: ts => match Builtin.ofText? x with
    | some f => run (.operand id id (.first f term factor :: stack)) ts
    | none => none
  | .operand term factor stack, .word x :: ts => run (.operator term (factor (.ident x)) stack) ts
  | .operand term factor stack, .opening :: ts => run (.operand id id (.group term factor :: stack)) ts
  | .operand term factor stack, .minus :: ts => run (.operand term (factor ∘ .negate) stack) ts
  | .operator term p stack, .star :: ts => run (.operand term (.multiply p) stack) ts
  | .operator term p stack, .slash :: ts => run (.operand term (.divide p) stack) ts
  | .operator term p stack, .plus :: ts => run (.operand (.add (term p)) id stack) ts
  | .operator term p stack, .minus :: ts => run (.operand (.subtract (term p)) id stack) ts
  | .operator term p (.group term' factor :: stack), .closing :: ts =>
    run (.operator term' (factor (term p)) stack) ts
  | .operator term p (.first f term' factor :: stack), .comma :: ts =>
    run (.operand id id (.second f (term p) term' factor :: stack)) ts
  | .operator term p (.second f t term' factor :: stack), .closing :: ts =>
    run (.operator term' (factor (.call f t (term p))) stack) ts
  | .operator term p [], [] => some (term p)
  | _, _ => none

/-- The tree of a text, if it is an expression. -/
def parse (text : String) : Option Reading :=
  (lex text.toList).bind (run (.operand id id []))

/-- What the reader does with tokens of a level, whatever follows but a parenthesis, which
would make a call of a name. -/
def Consumes : Level → List Token → Reading → Prop
  | .primary, ts, t | .unary, ts, t => ∀ term factor stack rest, rest.head? ≠ some .opening →
      run (.operand term factor stack) (ts ++ rest) = run (.operator term (factor t) stack) rest
  | .product, ts, t => ∀ term stack rest, rest.head? ≠ some .opening →
      run (.operand term id stack) (ts ++ rest) = run (.operator term t stack) rest
  | .sum, ts, t => ∀ stack rest, rest.head? ≠ some .opening → ∃ term p, term p = t ∧
      run (.operand id id stack) (ts ++ rest) = run (.operator term p stack) rest

theorem consumes_ident (x : String) : Consumes .primary [.word x] (.ident x) := by
  intro term factor stack rest hrest
  cases rest with
  | nil => rfl
  | cons token rest => cases token <;> first | rfl | exact absurd rfl hrest

theorem Derives.consumes {l : Level} {ts : List Token} {t : Reading} (h : Derives l ts t) :
    Consumes l ts t := by
  induction h with
  | number n => exact fun term factor stack rest _ => rfl
  | ident x => exact consumes_ident x
  | group _ ih =>
    intro term factor stack rest _
    obtain ⟨term', p, rfl, hrun⟩ := ih (.group term factor :: stack) (.closing :: rest) (by simp)
    rw [List.cons_append, List.append_assoc, List.singleton_append, run, hrun, run]
  | @call f ts us _ _ _ _ iht ihu =>
    intro term factor stack rest _
    rw [List.cons_append, List.cons_append, List.append_assoc, List.cons_append, List.append_assoc,
      List.singleton_append, run, Builtin.ofText?_text]
    obtain ⟨term₁, p₁, rfl, hfirst⟩ := iht (.first f term factor :: stack)
      (.comma :: (us ++ .closing :: rest)) (by simp)
    obtain ⟨term₂, p₂, rfl, hsecond⟩ := ihu (.second f (term₁ p₁) term factor :: stack)
      (.closing :: rest) (by simp)
    dsimp only
    rw [hfirst, run, hsecond, run]
  | ofPrimary _ ih => exact ih
  | negate _ ih =>
    intro term factor stack rest hrest
    rw [List.cons_append, run, ih _ _ _ _ hrest]
    rfl
  | ofUnary _ ih => exact fun term stack rest hrest => ih term id stack rest hrest
  | multiply _ _ iht ihu | divide _ _ iht ihu =>
    intro term stack rest hrest
    rw [List.append_assoc, iht _ _ _ (by simp), List.cons_append, run, ihu _ _ _ _ hrest]
  | ofProduct _ ih => exact fun stack rest hrest => ⟨id, _, rfl, ih id stack rest hrest⟩
  | @add ts us _ _ _ _ iht ihu =>
    intro stack rest hrest
    obtain ⟨term, p, rfl, hrun⟩ := iht stack (.plus :: (us ++ rest)) (by simp)
    refine ⟨_, _, rfl, ?_⟩
    rw [List.append_assoc, List.cons_append, hrun, run, ihu _ _ _ hrest]
  | @subtract ts us _ _ _ _ iht ihu =>
    intro stack rest hrest
    obtain ⟨term, p, rfl, hrun⟩ := iht stack (.minus :: (us ++ rest)) (by simp)
    refine ⟨_, _, rfl, ?_⟩
    rw [List.append_assoc, List.cons_append, hrun, run, ihu _ _ _ hrest]

/-- The reader finds the tree of every expression. -/
theorem Reads.parse_eq {text : String} {t : Reading} (h : Reads text t) : parse text = some t := by
  obtain ⟨ts, hlex, hderives⟩ := h
  obtain ⟨term, p, rfl, hrun⟩ := hderives.consumes [] [] (by simp)
  rw [parse, hlex, Option.bind_some, ← List.append_nil ts, hrun, run]

example : parse "a-b-min(c,2)*-d/4" =
    some (.subtract (.subtract (.ident "a") (.ident "b"))
      (.divide (.multiply (.call .min (.ident "c") (.number 2)) (.negate (.ident "d"))) (.number 4))) := by
  decide +kernel

end StencilTiling.Code
