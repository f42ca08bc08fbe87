import Mathlib.Data.Nat.GCD.Basic
import Mathlib.Algebra.Order.Ring.Nat
import StencilTiling.Proofs.Arith

/-! Euclid's recursion on words of a fixed width. Every second call halves the smaller
operand, so the recursion returns within twice the width and two more calls, also where the
first call only exchanges the operands. The quotient that a least common multiple is made of
is exact, so the one product overflows only if the multiple itself is no word. -/

namespace StencilTiling.Arith

/-! ### Recursions on two words -/

/-- What a recursion on two operands returns within so many calls. A call hands on the
operands that `next` makes of its own, or returns the first one. -/
def returnWithin {α : Type} (next : α × α → Option (α × α)) : Nat → α × α → Option α
  | 0, _ => none
  | calls + 1, p => match next p with
    | none => some p.1
    | some q => returnWithin next calls q

section Calls

variable {α : Type} {next : α × α → Option (α × α)} {p q : α × α}

theorem returnWithin_of_none (h : next p = none) (calls : Nat) :
    returnWithin next (calls + 1) p = some p.1 := by
  rw [returnWithin, h]

theorem returnWithin_of_some (h : next p = some q) (calls : Nat) :
    returnWithin next (calls + 1) p = returnWithin next calls q := by
  rw [returnWithin, h]

/-- One more call changes no result. -/
theorem returnWithin_succ {calls : Nat} {r : α} (h : returnWithin next calls p = some r) :
    returnWithin next (calls + 1) p = some r := by
  induction calls generalizing p with
  | zero => cases h
  | succ calls ih =>
    cases hnext : next p with
    | none =>
      rw [returnWithin_of_none hnext] at h ⊢
      exact h
    | some q =>
      rw [returnWithin_of_some hnext] at h ⊢
      exact ih h

end Calls

variable {w : Nat}

/-- The operands that a call of `gcd` on words hands on. -/
def gcdCall (p : BitVec w × BitVec w) : Option (BitVec w × BitVec w) :=
  if p.1 < p.2 then some (p.2, p.1)
  else if p.2 = 0#w then none
  else some (p.2, p.1 % p.2)

/-- The operands that a call of `gcdWide` on words hands on. -/
def gcdWideCall (p : BitVec w × BitVec w) : Option (BitVec w × BitVec w) :=
  if p.2 = 0#w then none else some (p.2, p.1 % p.2)

/-- Least common multiple on words; none if the recursion does not return or the product
overflows. -/
def lcmWords? (a b : BitVec w) : Option (BitVec w) :=
  if a = 0#w ∨ b = 0#w then some 0#w
  else (returnWithin gcdCall (2 * w + 2) (a, b)).bind fun g =>
    if BitVec.umulOverflow (a / g) b then none else some (a / g * b)

/-! ### Euclid's recursion returns -/

/-- The second remainder is less than half the divisor. -/
theorem two_mul_mod_lt {b r : Nat} (hr : 0 < r) (hrb : r < b) : 2 * (b % r) < b := by
  have hmod : b % r < r := Nat.mod_lt _ hr
  have hdiv : r * 1 ≤ r * (b / r) := Nat.mul_le_mul_left r (Nat.div_pos hrb.le hr)
  have hsplit := Nat.div_add_mod b r
  omega

theorem gcdCall_of_le {a b : BitVec w} (h : b.toNat ≤ a.toNat) : gcdCall (a, b) = gcdWideCall (a, b) :=
  if_neg (Nat.not_lt.mpr h)

/-- A recursion that goes on like Euclid's once its operands are ordered returns from there,
with two calls for every binary digit of the smaller one. -/
theorem exists_returnWithin_of_le {next : BitVec w × BitVec w → Option (BitVec w × BitVec w)}
    (hnext : ∀ {a b : BitVec w}, b.toNat ≤ a.toNat → next (a, b) = gcdWideCall (a, b))
    {digits : Nat} {a b : BitVec w} (hab : b.toNat ≤ a.toNat) (hb : b.toNat < 2 ^ digits) :
    ∃ g, returnWithin next (2 * digits + 1) (a, b) = some g := by
  have hreturn (a : BitVec w) (calls : Nat) : returnWithin next (calls + 1) (a, 0#w) = some a :=
    returnWithin_of_none ((hnext (by simp)).trans (if_pos rfl)) calls
  have hcall {a b : BitVec w} (hab : b.toNat ≤ a.toNat) (hb : b ≠ 0#w) :
      next (a, b) = some (b, a % b) :=
    (hnext hab).trans (if_neg hb)
  have hrem {a b : BitVec w} (hb : b ≠ 0#w) : (a % b).toNat < b.toNat := by
    rw [BitVec.toNat_umod]
    exact Nat.mod_lt _ (BitVec.toNat_pos_of_ne_zero hb)
  induction digits generalizing a b with
  | zero =>
    obtain rfl : b = 0#w := BitVec.eq_of_toNat_eq (by simpa using hb)
    exact ⟨a, hreturn a 0⟩
  | succ digits ih =>
    by_cases hb0 : b = 0#w
    · exact ⟨a, hb0 ▸ hreturn a _⟩
    rw [show 2 * (digits + 1) + 1 = 2 * digits + 1 + 1 + 1 from rfl, returnWithin_of_some (hcall hab hb0)]
    by_cases hr0 : a % b = 0#w
    · exact ⟨b, hr0 ▸ hreturn b _⟩
    rw [returnWithin_of_some (hcall (hrem hb0).le hr0)]
    -- two calls on, the smaller operand has lost a digit
    refine ih (hrem hr0).le ?_
    have hhalf := two_mul_mod_lt (BitVec.toNat_pos_of_ne_zero hr0) (hrem (a := a) hb0)
    rw [BitVec.toNat_umod]
    omega

theorem exists_gcdCall_returns (a b : BitVec w) :
    ∃ g, returnWithin gcdCall (2 * w + 2) (a, b) = some g := by
  by_cases hab : b.toNat ≤ a.toNat
  · obtain ⟨g, hg⟩ := exists_returnWithin_of_le gcdCall_of_le hab b.isLt
    exact ⟨g, returnWithin_succ hg⟩
  · rw [returnWithin_of_some (if_pos (Nat.lt_of_not_le hab))]
    exact exists_returnWithin_of_le gcdCall_of_le (Nat.le_of_not_le hab) a.isLt

theorem exists_gcdWideCall_returns (a b : BitVec w) :
    ∃ g, returnWithin gcdWideCall (2 * w + 2) (a, b) = some g := by
  by_cases hb0 : b = 0#w
  · exact ⟨a, returnWithin_of_none (if_pos hb0) _⟩
  · rw [returnWithin_of_some (if_neg hb0)]
    have hrem : (a % b).toNat < b.toNat := by
      rw [BitVec.toNat_umod]
      exact Nat.mod_lt _ (BitVec.toNat_pos_of_ne_zero hb0)
    exact exists_returnWithin_of_le (fun _ => rfl) hrem.le (a % b).isLt

/-! ### What it returns -/

/-- The numbers that the words stand for go through the same calls, so where these return,
the word stands for the result. -/
theorem toNat_of_returnWithin {next : BitVec w × BitVec w → Option (BitVec w × BitVec w)}
    {f : Nat → Nat → Nat}
    (hf : ∀ p, f p.1.toNat p.2.toNat = (next p).elim p.1.toNat fun q => f q.1.toNat q.2.toNat)
    {calls : Nat} {p : BitVec w × BitVec w} {r : BitVec w} (h : returnWithin next calls p = some r) :
    r.toNat = f p.1.toNat p.2.toNat := by
  induction calls generalizing p with
  | zero => cases h
  | succ calls ih =>
    rw [hf]
    cases hnext : next p with
    | none =>
      rw [returnWithin_of_none hnext] at h
      exact congrArg BitVec.toNat (Option.some.inj h).symm
    | some q =>
      rw [returnWithin_of_some hnext] at h
      exact ih h

theorem gcd_toNat (p : BitVec w × BitVec w) :
    gcd p.1.toNat p.2.toNat = (gcdCall p).elim p.1.toNat fun q => gcd q.1.toNat q.2.toNat := by
  rw [gcd, gcdCall]
  simp only [BitVec.lt_def, ← BitVec.toNat_inj]
  split_ifs <;> simp_all

theorem gcdWide_toNat (p : BitVec w × BitVec w) :
    gcdWide p.1.toNat p.2.toNat =
      (gcdWideCall p).elim p.1.toNat fun q => gcdWide q.1.toNat q.2.toNat := by
  rw [gcdWide, gcdWideCall]
  simp only [← BitVec.toNat_inj]
  split_ifs <;> simp_all

/-- Euclid's recursion on words ends, and computes what it computes on the numbers. -/
theorem exists_gcd_words (a b : BitVec w) :
    ∃ g, returnWithin gcdCall (2 * w + 2) (a, b) = some g ∧ g.toNat = gcd a.toNat b.toNat := by
  obtain ⟨g, hg⟩ := exists_gcdCall_returns a b
  exact ⟨g, hg, toNat_of_returnWithin gcd_toNat hg⟩

theorem exists_gcdWide_words (a b : BitVec w) :
    ∃ g, returnWithin gcdWideCall (2 * w + 2) (a, b) = some g ∧ g.toNat = gcdWide a.toNat b.toNat := by
  obtain ⟨g, hg⟩ := exists_gcdWideCall_returns a b
  exact ⟨g, hg, toNat_of_returnWithin gcdWide_toNat hg⟩

/-! ### Least common multiples -/

/-- A product of words comes out exactly if it is a word. -/
theorem mulWords_eq_some_iff {a b r : BitVec w} :
    (if BitVec.umulOverflow a b then none else some (a * b)) = some r ↔
      a.toNat * b.toNat = r.toNat := by
  simp only [BitVec.umulOverflow, decide_eq_true_eq, ge_iff_le]
  split_ifs with hover
  · have := r.isLt
    exact iff_of_false (by simp) (by omega)
  · rw [Option.some.injEq, ← BitVec.toNat_inj, BitVec.toNat_mul, Nat.mod_eq_of_lt (by omega)]

/-- The multiple of two words comes out exactly if it is a word. -/
theorem lcmWords?_eq_some_iff {a b l : BitVec w} :
    lcmWords? a b = some l ↔ lcm a.toNat b.toNat = l.toNat := by
  have hzero : a = 0#w ∨ b = 0#w ↔ a.toNat = 0 ∨ b.toNat = 0 := by
    simp [← BitVec.toNat_inj]
  obtain ⟨g, hg, hgcd⟩ := exists_gcd_words a b
  unfold lcmWords? lcm
  by_cases h : a = 0#w ∨ b = 0#w
  · rw [if_pos h, if_pos (hzero.mp h), Option.some.injEq, ← BitVec.toNat_inj, BitVec.toNat_zero]
  · rw [if_neg h, if_neg (hzero.not.mp h), hg, Option.bind_some, mulWords_eq_some_iff,
      BitVec.toNat_udiv, hgcd]

/-- No product overflows on the way to a multiple that is a word. -/
theorem exists_lcmWords?_iff {a b : BitVec w} :
    (∃ l, lcmWords? a b = some l) ↔ lcm a.toNat b.toNat < 2 ^ w := by
  simp only [lcmWords?_eq_some_iff]
  constructor
  · rintro ⟨l, hl⟩
    exact hl ▸ l.isLt
  · exact fun h => ⟨BitVec.ofNatLT _ h, (BitVec.toNat_ofNatLT _ _).symm⟩

end StencilTiling.Arith
