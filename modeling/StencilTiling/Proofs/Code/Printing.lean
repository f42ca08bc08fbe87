import Mathlib.Tactic.IntervalCases
import StencilTiling.Proofs.Code.Grammar

/-! Printed expressions read back. The text of an expression groups as C groups it wherever
its operands are as tight as its operators ask for, and no sign follows a minus. The tree
that is read then has the value of the expression. -/

namespace StencilTiling.Code

/-! ### Operands -/

theorem isIdentChar_of_isDigit {c : Char} (h : c.isDigit = true) : isIdentChar c = true := by
  simp [isIdentChar, Char.isAlphanum, h]

theorem ofLexeme?_word {w : List Char} (h : ∀ c ∈ w, isIdentChar c = true) :
    Token.ofLexeme? w = if isNumeral w then some (.number (Nat.ofDigitChars 10 w 0))
      else if isIdentifier w then some (.word (String.ofList w)) else none := by
  have hsign : ∀ c, isIdentChar c = false → w ≠ [c] := by
    rintro c hc rfl
    rw [h c (by simp)] at hc
    cases hc
  unfold Token.ofLexeme?
  split
  · exact absurd rfl (hsign _ (by decide))
  · exact absurd rfl (hsign _ (by decide))
  · exact absurd rfl (hsign _ (by decide))
  · exact absurd rfl (hsign _ (by decide))
  · exact absurd rfl (hsign _ (by decide))
  · exact absurd rfl (hsign _ (by decide))
  · exact absurd rfl (hsign _ (by decide))
  · rfl

/-- The text of a name or of a number. -/
def isOperand (text : String) : Bool := isNumeral text.toList || isIdentifier text.toList

def Reading.ofName (text : String) : Reading :=
  if isNumeral text.toList then .number (Nat.ofDigitChars 10 text.toList 0) else .ident text

theorem isIdentChar_of_isOperand {text : String} (h : isOperand text = true) :
    text.toList ≠ [] ∧ ∀ c ∈ text.toList, isIdentChar c = true := by
  rw [isOperand, Bool.or_eq_true] at h
  rcases h with h | h
  · simp only [isNumeral, Bool.and_eq_true, decide_eq_true_eq, List.all_eq_true] at h
    exact ⟨h.1.2, fun c hc => isIdentChar_of_isDigit (h.1.1 c hc)⟩
  · simp only [isIdentifier, Bool.and_eq_true, List.all_eq_true] at h
    refine ⟨fun hnil => ?_, h.1⟩
    rw [hnil] at h
    cases h.2

theorem derives_ofName {text : String} (h : isOperand text = true) :
    ∃ token, lex text.toList = some [token] ∧ Derives .primary [token] (.ofName text) := by
  obtain ⟨hne, hall⟩ := isIdentChar_of_isOperand h
  rw [lex, lexemes_word hne hall, List.mapM_cons, List.mapM_nil, ofLexeme?_word hall, Reading.ofName]
  by_cases hnum : isNumeral text.toList = true
  · rw [if_pos hnum, if_pos hnum]
    exact ⟨_, rfl, .number _⟩
  · have hident : isIdentifier text.toList = true := by simpa [isOperand, hnum] using h
    rw [if_neg hnum, if_neg hnum, if_pos hident, String.ofList_toList]
    exact ⟨_, rfl, .ident _⟩

/-! ### Numbers -/

/-- No number but zero starts with a zero. -/
theorem head?_toDigits {n : Nat} (hn : 0 < n) : (Nat.toDigits 10 n).head? ≠ some '0' := by
  induction n using Nat.strongRecOn with
  | ind n ih =>
    by_cases hlt : n < 10
    · rw [Nat.toDigits_of_lt_base hlt]
      interval_cases n <;> decide
    · rw [Nat.toDigits_of_base_le (by decide) (by omega), List.head?_append_of_ne_nil _ Nat.toDigits_ne_nil]
      exact ih (n / 10) (by omega) (by omega)

theorem isNumeral_toDigits (n : Nat) : isNumeral (Nat.toDigits 10 n) = true := by
  have hdigits : ∀ c ∈ Nat.toDigits 10 n, c.isDigit = true := fun c =>
    Nat.isDigit_of_mem_toDigits (by decide) (by decide)
  rcases Nat.eq_zero_or_pos n with rfl | hn
  · decide
  · simp only [isNumeral, Bool.and_eq_true, List.all_eq_true]
    exact ⟨⟨hdigits, by simp [Nat.toDigits_ne_nil]⟩, by simp [head?_toDigits hn]⟩

theorem toList_toString (n : Nat) : (toString n).toList = Nat.toDigits 10 n := by
  rw [Nat.toString_eq_ofList_toDigits, String.toList_ofList]

/-! ### Seams -/

/-- An operand is never glued to the operator after it. -/
theorem not_glued_left {a op : Char} (ha : isIdentChar a = true ∨ a = ')')
    (hop : isIdentChar op = false) : glued a op = false := by
  have hne : a ≠ '+' ∧ a ≠ '-' ∧ a ≠ '/' := by
    rcases ha with ha | rfl
    · refine ⟨?_, ?_, ?_⟩ <;> rintro rfl <;> exact absurd ha (by decide)
    · decide
  simp [glued, hop, hne]

/-- Only a sign is glued to an operator before it, and only to a minus. -/
theorem not_glued_right {op b : Char} (hop : isIdentChar op = false)
    (hb : isIdentChar b = true ∨ b = '(' ∨ b = '-' ∧ op ≠ '-') : glued op b = false := by
  have hne : b ≠ '+' ∧ b ≠ '/' ∧ b ≠ '*' ∧ (op = '-' → b ≠ '-') := by
    rcases hb with hb | rfl | ⟨rfl, hop⟩
    · refine ⟨?_, ?_, ?_, fun _ => ?_⟩ <;> rintro rfl <;> exact absurd hb (by decide)
    · exact ⟨by decide, by decide, by decide, fun _ => by decide⟩
    · exact ⟨by decide, by decide, by decide, fun h => absurd h hop⟩
  simp only [glued, hop, Bool.false_and, Bool.false_or, Bool.or_eq_false_iff, Bool.and_eq_false_iff,
    beq_eq_false_iff_ne]
  tauto

/-- Two texts around an operator. -/
theorem lex_infix {xs ys : List Char} {ts us : List Token} {op : Char} {token : Token}
    (hx : lex xs = some ts) (hy : lex ys = some us) (htoken : lex [op] = some [token])
    (hl : ∀ a ∈ xs.getLast?, glued a op = false) (hr : ∀ b ∈ ys.head?, glued op b = false) :
    lex (xs ++ op :: ys) = some (ts ++ token :: us) := by
  refine lex_append hx (lex_cons htoken hy hr) ?_
  rintro a ha b ⟨⟩
  exact hl a ha

/-! ### Expressions -/

namespace Expr

/-- The text starts with a sign. -/
def signed : Expr → Bool
  | lit n => n < 0
  | add a _ | sub a _ | mul a _ | div a _ => a.signed
  | name _ | paren _ | call .. => false

/-- The operands are as tight as the operators ask for. -/
def Grouped : Level → Expr → Prop
  | l, lit n => l = .primary → 0 ≤ n
  | _, name text => isOperand text = true
  | _, paren e => e.Grouped .sum
  | l, add a b => l = .sum ∧ a.Grouped .sum ∧ b.Grouped .product
  | l, sub a b => l = .sum ∧ a.Grouped .sum ∧ b.Grouped .product ∧ b.signed = false
  | l, mul a b | l, div a b => (l = .product ∨ l = .sum) ∧ a.Grouped .product ∧ b.Grouped .unary
  | _, call _ a b => a.Grouped .sum ∧ b.Grouped .sum

/-- What stands alone stands anywhere. -/
theorem Grouped.of_primary {e : Expr} (h : e.Grouped .primary) (l : Level) : e.Grouped l := by
  cases e with
  | lit n => exact fun _ => h rfl
  | name text => exact h
  | paren e => exact h
  | call f a b => exact h
  | add a b | sub a b => cases h.1
  | mul a b | div a b => rcases h.1 with h | h <;> cases h

theorem Grouped.signed_eq_false {e : Expr} (h : e.Grouped .primary) : e.signed = false := by
  cases e with
  | lit n => exact decide_eq_false (not_lt.mpr (h rfl))
  | name text => rfl
  | paren e => rfl
  | call f a b => rfl
  | add a b | sub a b => cases h.1
  | mul a b | div a b => rcases h.1 with h | h <;> cases h

theorem grouped_lit {l : Level} (hl : l ≠ .primary) (n : Int) : (lit n).Grouped l := fun h => absurd h hl

/-- The tree of the text. -/
def reading : Expr → Reading
  | lit n => if n < 0 then .negate (.number n.natAbs) else .number n.natAbs
  | name text => .ofName text
  | paren e => e.reading
  | add a b => .add a.reading b.reading
  | sub a b => .subtract a.reading b.reading
  | mul a b => .multiply a.reading b.reading
  | div a b => .divide a.reading b.reading
  | call f a b => .call f a.reading b.reading

theorem eval_reading (env : String → Int) (e : Expr) :
    e.reading.eval env = e.eval fun text => (Reading.ofName text).eval env := by
  induction e with
  | lit n =>
    rw [reading]
    split_ifs <;> simp only [Reading.eval, eval] <;> omega
  | name text => rfl
  | paren e ih => exact ih
  | call f a b iha ihb => cases f <;> simp only [reading, Reading.eval, eval, iha, ihb]
  | add a b iha ihb | sub a b iha ihb | mul a b iha ihb | div a b iha ihb =>
    simp only [reading, Reading.eval, eval, iha, ihb]

/-- The characters of the text. -/
def chars : Expr → List Char
  | lit n => (if n < 0 then ['-'] else []) ++ Nat.toDigits 10 n.natAbs
  | name text => text.toList
  | paren e => '(' :: (e.chars ++ [')'])
  | add a b => a.chars ++ '+' :: b.chars
  | sub a b => a.chars ++ '-' :: b.chars
  | mul a b => a.chars ++ '*' :: b.chars
  | div a b => a.chars ++ '/' :: b.chars
  | call f a b => f.text.toList ++ '(' :: (a.chars ++ ',' :: (b.chars ++ [')']))

theorem toList_print (e : Expr) : e.print.toList = e.chars := by
  induction e with
  | lit n =>
    rw [print, chars]
    cases n with
    | ofNat m => exact toList_toString m
    | negSucc m =>
      rw [if_pos (Int.negSucc_lt_zero m)]
      show ("-" ++ Nat.repr m.succ).toList = _
      rw [String.toList_append, ← Nat.toString_eq_repr, toList_toString]
      rfl
  | name text => rfl
  | paren e ih => simp [print, chars, ih]
  | add a b iha ihb | sub a b iha ihb | mul a b iha ihb | div a b iha ihb =>
    simp [print, chars, iha, ihb]
  | call f a b iha ihb => simp [print, chars, iha, ihb]

theorem isIdentChar_of_mem_toDigits {n : Nat} {c : Char} (h : c ∈ Nat.toDigits 10 n) :
    isIdentChar c = true :=
  isIdentChar_of_isDigit (Nat.isDigit_of_mem_toDigits (by decide) (by decide) h)

/-- What the text of an expression starts with. -/
theorem head?_chars {l : Level} {e : Expr} (h : e.Grouped l) : ∃ c, e.chars.head? = some c ∧
    (isIdentChar c = true ∨ c = '(' ∨ c = '-' ∧ e.signed = true) := by
  induction e generalizing l with
  | lit n =>
    by_cases hn : n < 0
    · exact ⟨'-', by simp [chars, hn], .inr (.inr ⟨rfl, by simpa [signed] using hn⟩)⟩
    · have hc := List.head?_eq_some_head (Nat.toDigits_ne_nil (b := 10) (n := n.natAbs))
      refine ⟨_, by simpa [chars, hn] using hc, .inl ?_⟩
      exact isIdentChar_of_mem_toDigits (List.head_mem _)
  | name text =>
    obtain ⟨hne, hall⟩ := isIdentChar_of_isOperand h
    exact ⟨_, List.head?_eq_some_head hne, .inl (hall _ (List.head_mem hne))⟩
  | paren e ih => exact ⟨'(', rfl, .inr (.inl rfl)⟩
  | call f a b => cases f <;> exact ⟨'m', rfl, .inl (by decide)⟩
  | add a b iha ihb | sub a b iha ihb | mul a b iha ihb | div a b iha ihb =>
    obtain ⟨c, hc, hstart⟩ := iha h.2.1
    exact ⟨c, by simp [chars, hc], hstart⟩

/-- What the text of an expression ends with. -/
theorem getLast?_chars {l : Level} {e : Expr} (h : e.Grouped l) :
    ∃ c, e.chars.getLast? = some c ∧ (isIdentChar c = true ∨ c = ')') := by
  induction e generalizing l with
  | lit n =>
    have hc := List.getLast?_eq_some_getLast (Nat.toDigits_ne_nil (b := 10) (n := n.natAbs))
    refine ⟨_, by rw [chars, List.getLast?_append, hc, Option.some_or], .inl ?_⟩
    exact isIdentChar_of_mem_toDigits (List.getLast_mem _)
  | name text =>
    obtain ⟨hne, hall⟩ := isIdentChar_of_isOperand h
    exact ⟨_, List.getLast?_eq_some_getLast hne, .inl (hall _ (List.getLast_mem hne))⟩
  | paren e ih => exact ⟨')', by simp [chars, List.getLast?_cons], .inr rfl⟩
  | call f a b => exact ⟨')', by simp [chars, List.getLast?_append, List.getLast?_cons], .inr rfl⟩
  | add a b iha ihb | mul a b iha ihb | div a b iha ihb =>
    obtain ⟨c, hc, hend⟩ := ihb h.2.2
    exact ⟨c, by simp [chars, List.getLast?_append, List.getLast?_cons, hc], hend⟩
  | sub a b iha ihb =>
    obtain ⟨c, hc, hend⟩ := ihb h.2.2.1
    exact ⟨c, by simp [chars, List.getLast?_append, List.getLast?_cons, hc], hend⟩

/-- Operators stand apart from the operands around them. -/
theorem lex_operator {l m : Level} {a b : Expr} {op : Char} {token : Token} {ts us : List Token}
    (ha : a.Grouped l) (hb : b.Grouped m) (hop : isIdentChar op = false)
    (hminus : op = '-' → b.signed = false) (htoken : lex [op] = some [token])
    (hts : lex a.chars = some ts) (hus : lex b.chars = some us) :
    lex (a.chars ++ op :: b.chars) = some (ts ++ token :: us) := by
  obtain ⟨c, hc, hend⟩ := getLast?_chars ha
  obtain ⟨d, hd, hstart⟩ := head?_chars hb
  refine lex_infix hts hus htoken (fun x hx => ?_) fun y hy => ?_
  · obtain rfl := Option.some.inj (hc.symm.trans hx)
    exact not_glued_left hend hop
  · obtain rfl := Option.some.inj (hd.symm.trans hy)
    refine not_glued_right hop (hstart.imp_right (Or.imp_right fun ⟨hsign, hsigned⟩ => ⟨hsign, ?_⟩))
    intro hop
    rw [hminus hop] at hsigned
    cases hsigned

/-- Parentheses stand apart from what they enclose. -/
theorem lex_enclosed {cs : List Char} {ts : List Token} (hts : lex cs = some ts)
    (hstart : ∃ c, cs.head? = some c ∧ (isIdentChar c = true ∨ c = '(' ∨ c = '-'))
    (hend : ∃ c, cs.getLast? = some c ∧ (isIdentChar c = true ∨ c = ')')) :
    lex ('(' :: (cs ++ [')'])) = some (.opening :: (ts ++ [.closing])) := by
  obtain ⟨c, hc, hstart⟩ := hstart
  obtain ⟨d, hd, hend⟩ := hend
  have hclose : lex (cs ++ [')']) = some (ts ++ [.closing]) := by
    refine lex_append hts rfl ?_
    rintro x hx b ⟨⟩
    obtain rfl := Option.some.inj (hd.symm.trans hx)
    exact not_glued_left hend (by decide)
  refine lex_cons rfl hclose fun y hy => ?_
  obtain rfl : c = y := by simpa [List.head?_append, hc] using hy
  exact not_glued_right (by decide) (hstart.imp_right (Or.imp_right fun h => ⟨h, by decide⟩))

theorem lex_text (f : Builtin) : lex f.text.toList = some [.word f.text] := by
  cases f <;> decide +kernel

theorem lex_toDigits (n : Nat) : lex (Nat.toDigits 10 n) = some [.number n] := by
  have hall : ∀ c ∈ Nat.toDigits 10 n, isIdentChar c = true := fun _ => isIdentChar_of_mem_toDigits
  rw [lex, lexemes_word Nat.toDigits_ne_nil hall, List.mapM_cons, List.mapM_nil, ofLexeme?_word hall,
    if_pos (isNumeral_toDigits n), Nat.ofDigitChars_ten_toDigits]
  rfl

/-- The text of a grouped expression has its tree. -/
theorem derives_chars {l : Level} {e : Expr} (h : e.Grouped l) :
    ∃ ts, lex e.chars = some ts ∧ Derives l ts e.reading := by
  induction e generalizing l with
  | lit n =>
    have hdigits := lex_toDigits n.natAbs
    rw [chars, reading]
    by_cases hn : n < 0
    · rw [if_pos hn, if_pos hn]
      refine ⟨_, lex_cons rfl hdigits fun b hb => ?_, ?_⟩
      · exact not_glued_right (by decide) (.inl (isIdentChar_of_mem_toDigits (List.mem_of_mem_head? hb)))
      · refine (Derives.negate (.ofPrimary (.number _))).of_unary fun hl => ?_
        exact absurd (h hl) (by omega)
    · rw [if_neg hn, if_neg hn]
      exact ⟨_, hdigits, (Derives.number _).of_primary l⟩
  | name text =>
    obtain ⟨token, hlex, hderives⟩ := derives_ofName h
    exact ⟨_, hlex, hderives.of_primary l⟩
  | paren e ih =>
    have he : e.Grouped .sum := h
    obtain ⟨ts, hts, hderives⟩ := ih he
    obtain ⟨c, hc, hstart⟩ := head?_chars he
    refine ⟨_, lex_enclosed hts ⟨c, hc, ?_⟩ (getLast?_chars he), hderives.group.of_primary l⟩
    exact hstart.imp_right (Or.imp_right And.left)
  | call f a b iha ihb =>
    obtain ⟨ts, hts, ht⟩ := iha h.1
    obtain ⟨us, hus, hu⟩ := ihb h.2
    obtain ⟨c, hc, hstart⟩ := head?_chars h.1
    obtain ⟨d, hd, hend⟩ := getLast?_chars h.2
    have hargs : lex (a.chars ++ ',' :: b.chars) = some (ts ++ .comma :: us) :=
      lex_operator h.1 h.2 (by decide) (fun h => absurd h (by decide)) rfl hts hus
    have hclosed := lex_enclosed hargs ⟨c, by simp [hc], hstart.imp_right (Or.imp_right And.left)⟩
      ⟨d, by simp [List.getLast?_append, List.getLast?_cons, hd], hend⟩
    refine ⟨.word f.text :: .opening :: (ts ++ .comma :: (us ++ [.closing])), ?_,
      (Derives.call f ht hu).of_primary l⟩
    rw [chars]
    have hcall := lex_append (lex_text f) hclosed ?_
    · simpa using hcall
    · rintro x hx y ⟨⟩
      refine not_glued_left (.inl ?_) (by decide)
      cases f <;> cases hx <;> decide
  | add a b iha ihb =>
    obtain ⟨rfl, ha, hb⟩ := h
    obtain ⟨ts, hts, ht⟩ := iha ha
    obtain ⟨us, hus, hu⟩ := ihb hb
    exact ⟨_, lex_operator ha hb (by decide) (fun h => absurd h (by decide)) rfl hts hus, ht.add hu⟩
  | sub a b iha ihb =>
    obtain ⟨rfl, ha, hb, hsigned⟩ := h
    obtain ⟨ts, hts, ht⟩ := iha ha
    obtain ⟨us, hus, hu⟩ := ihb hb
    exact ⟨_, lex_operator ha hb (by decide) (fun _ => hsigned) rfl hts hus, ht.subtract hu⟩
  | mul a b iha ihb =>
    obtain ⟨hl, ha, hb⟩ := h
    obtain ⟨ts, hts, ht⟩ := iha ha
    obtain ⟨us, hus, hu⟩ := ihb hb
    exact ⟨_, lex_operator ha hb (by decide) (fun h => absurd h (by decide)) rfl hts hus,
      (ht.multiply hu).of_product hl⟩
  | div a b iha ihb =>
    obtain ⟨hl, ha, hb⟩ := h
    obtain ⟨ts, hts, ht⟩ := iha ha
    obtain ⟨us, hus, hu⟩ := ihb hb
    exact ⟨_, lex_operator ha hb (by decide) (fun h => absurd h (by decide)) rfl hts hus,
      (ht.divide hu).of_product hl⟩

theorem reads_print {e : Expr} (h : e.Grouped .sum) : Reads e.print e.reading := by
  obtain ⟨ts, hts, hderives⟩ := derives_chars h
  exact ⟨ts, by rw [toList_print, hts], hderives⟩

end Expr

end StencilTiling.Code
