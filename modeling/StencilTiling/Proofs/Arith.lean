import Mathlib.Data.Nat.GCD.Basic
import Mathlib.Algebra.Order.Group.Unbundled.Int
import Mathlib.Tactic.Linarith
import Mathlib.Tactic.Ring
import StencilTiling.Arith

/-! Facts about the shared arithmetic: the divisor and multiple algorithms
compute the mathematical functions, a value inside the word survives the
reduction to it, and the rounded-up quotient is the least integer whose multiple
reaches the dividend. -/

namespace StencilTiling.Arith

/-! ### Divisors and multiples -/

theorem gcd_eq (a b : Nat) : gcd a b = Nat.gcd a b := by
  fun_induction gcd a b with
  | case1 a b _ ih => rw [ih, Nat.gcd_comm]
  | case2 a => simp
  | case3 a b _ _ ih => rw [ih, Nat.gcd_comm b, ← Nat.gcd_rec, Nat.gcd_comm]

theorem lcm_eq (a b : Nat) : lcm a b = Nat.lcm a b := by
  unfold lcm
  split_ifs with h
  · rcases h with rfl | rfl <;> simp
  · rw [gcd_eq, Nat.lcm_eq_mul_div, Nat.div_mul_right_comm (Nat.gcd_dvd_left a b)]

/-! ### Words -/

theorem wrap64_of_fits {n : Int} (h : FitsWord n) : wrap64 n = n := by
  obtain ⟨hmin, hmax⟩ := h
  simp only [minWord, maxWord] at hmin hmax
  unfold wrap64
  rw [Int.bmod_eq_of_le] <;> omega

theorem wrap64_le {n : Int} (h : 0 ≤ n) : wrap64 n ≤ n := by
  unfold wrap64 Int.bmod
  dsimp only
  split_ifs <;> omega

/-- Reductions inside a sum make no difference to its own. -/
theorem wrap64_add_wrap64 (a b : Int) : wrap64 (wrap64 a + b) = wrap64 (a + b) :=
  Int.bmod_add_bmod

theorem fitsWord_of_nonneg {n : Int} (h0 : 0 ≤ n) (h : n ≤ maxWord) : FitsWord n :=
  ⟨by simp only [minWord]; omega, h⟩

theorem fitsWord_neg_of_nonneg {n : Int} (h0 : 0 ≤ n) (h : n ≤ maxWord) : FitsWord (-n) := by
  simp only [FitsWord, minWord, maxWord] at h ⊢
  omega

/-- The reduction ends in the word. -/
theorem fitsWord_wrap64 (n : Int) : FitsWord (wrap64 n) := by
  have hlo := Int.le_bmod (x := n) (m := 0x10000000000000000) (by decide)
  have hhi := Int.bmod_lt (x := n) (m := 0x10000000000000000) (by decide)
  simp only [FitsWord, minWord, maxWord, wrap64]
  omega

/-! The word operators agree with those of the integers on results that are words. -/

section Agree

variable {a b n d : Int}

theorem addWord_of_fits (h : FitsWord (a + b)) : addWord a b = a + b := wrap64_of_fits h

theorem subWord_of_fits (h : FitsWord (a - b)) : subWord a b = a - b := wrap64_of_fits h

theorem mulWord_of_fits (h : FitsWord (a * b)) : mulWord a b = a * b := wrap64_of_fits h

theorem negWord_of_fits (h : FitsWord (-n)) : negWord n = -n := wrap64_of_fits h

theorem absWord_of_fits (h : FitsWord |n|) : absWord n = |n| := by
  rw [absWord, Int.natCast_natAbs, wrap64_of_fits h]

/-- Dividing a word whose sign can be changed rounds up as for integers. -/
theorem ceilDivWord_of_fits (hd : 0 < d) (hn : n ≤ maxWord) (h : FitsWord (-n)) :
    ceilDivWord n d = ceilDiv n d := by
  rw [ceilDivWord, negWord_of_fits h, floorDiv, ceilDiv]
  refine negWord_of_fits ?_
  obtain ⟨-, hmax⟩ := h
  simp only [FitsWord, minWord, maxWord] at hmax hn ⊢
  have hlow : -0x7fffffffffffffff ≤ -n / d := (Int.le_ediv_iff_mul_le hd).mpr (by nlinarith)
  have hhigh : -n / d ≤ 0x7fffffffffffffff := Int.ediv_le_of_le_mul hd (by nlinarith)
  omega

theorem ceilDivWord_of_nonneg (hd : 0 < d) (h0 : 0 ≤ n) (hn : n ≤ maxWord) :
    ceilDivWord n d = ceilDiv n d :=
  ceilDivWord_of_fits hd hn (fitsWord_neg_of_nonneg h0 hn)

end Agree

theorem addCount_of_lt {a b : Nat} (h : a + b < 0x100000000) : addCount a b = a + b := by
  unfold addCount wrap32
  omega

theorem addCount_le (a b : Nat) : addCount a b ≤ a + b := by
  unfold addCount wrap32
  omega

theorem wrapSize_of_lt {n : Nat} (h : n < 0x10000000000000000) : wrapSize n = n :=
  Nat.mod_eq_of_lt h

/-- A least common multiple within the word is kept as it is. -/
theorem lcmWord_of_fits {a b : Int} (h : (Int.lcm a b : Int) ≤ maxWord) : lcmWord a b = Int.lcm a b := by
  rw [lcmWord, lcm_eq]
  exact wrap64_of_fits (fitsWord_of_nonneg (Int.natCast_nonneg _) h)

@[simp] theorem lcmWord_one_one : lcmWord 1 1 = 1 := lcmWord_of_fits (by decide)

theorem fitsWord_foldl_lcmWord {l : List Int} {a : Int} (ha : FitsWord a) :
    FitsWord (l.foldl lcmWord a) := by
  induction l generalizing a with
  | nil => exact ha
  | cons x rest ih =>
    rw [List.foldl_cons]
    refine ih ?_
    rw [lcmWord]
    exact fitsWord_wrap64 _

/-- Multiples taken one after the other give the least common multiple, as long as some
common multiple is a word. -/
theorem foldl_lcmWord {l : List Int} {a M : Int} (ha : 0 < a) (hl : ∀ x ∈ l, 0 < x) (hM : 0 < M)
    (hfit : M ≤ maxWord) (haM : a ∣ M) (hlM : ∀ x ∈ l, x ∣ M) :
    0 < l.foldl lcmWord a ∧ ∀ m, l.foldl lcmWord a ∣ m ↔ a ∣ m ∧ ∀ x ∈ l, x ∣ m := by
  induction l generalizing a with
  | nil => exact ⟨ha, by simp⟩
  | cons x rest ih =>
    obtain ⟨hx, hrest⟩ := List.forall_mem_cons.mp hl
    obtain ⟨hxM, hrestM⟩ := List.forall_mem_cons.mp hlM
    have hdvd : (Int.lcm a x : Int) ∣ M := Int.coe_lcm_dvd_iff.mpr ⟨haM, hxM⟩
    have hword : lcmWord a x = Int.lcm a x := lcmWord_of_fits ((Int.le_of_dvd hM hdvd).trans hfit)
    have hpos : 0 < (Int.lcm a x : Int) := by
      exact_mod_cast Int.lcm_pos ha.ne' hx.ne'
    rw [List.foldl_cons, hword]
    obtain ⟨hpos', hiff⟩ := ih hpos hrest hdvd hrestM
    refine ⟨hpos', fun m => ?_⟩
    rw [hiff, Int.coe_lcm_dvd_iff, List.forall_mem_cons, and_assoc]

/-! ### Rounding up -/

section CeilDiv

variable {n d k : Int}

theorem ceilDiv_le_iff (hd : 0 < d) : ceilDiv n d ≤ k ↔ n ≤ k * d := by
  rw [ceilDiv, neg_le, Int.le_ediv_iff_mul_le hd, neg_mul, neg_le_neg_iff]

theorem lt_ceilDiv_iff (hd : 0 < d) : k < ceilDiv n d ↔ k * d < n := by
  rw [← not_le, ceilDiv_le_iff hd, not_le]

/-- The rounded-up multiple reaches the dividend. -/
theorem le_ceilDiv_mul (hd : 0 < d) : n ≤ ceilDiv n d * d := (ceilDiv_le_iff hd).mp le_rfl

theorem ceilDiv_nonneg (hd : 0 < d) (hn : 0 ≤ n) : 0 ≤ ceilDiv n d := by
  have := (lt_ceilDiv_iff (k := -1) (n := n) hd).mpr (by omega)
  omega

/-- Whole multiples come out of the quotient. -/
theorem ceilDiv_add_mul (hd : 0 < d) : ceilDiv (n + k * d) d = ceilDiv n d + k := by
  refine le_antisymm ((ceilDiv_le_iff hd).mpr ?_) ?_
  · rw [add_mul]
    have := le_ceilDiv_mul (n := n) hd
    omega
  · have := (ceilDiv_le_iff (n := n) (k := ceilDiv (n + k * d) d - k) hd).mpr (by
      rw [sub_mul]
      have := le_ceilDiv_mul (n := n + k * d) hd
      omega)
    omega

@[simp] theorem ceilDiv_zero : ceilDiv 0 d = 0 := by simp [ceilDiv]

theorem ceilDiv_mul_self (hd : 0 < d) : ceilDiv (k * d) d = k := by
  simpa using ceilDiv_add_mul (n := 0) (k := k) hd

/-- Where the quotient is whole nothing is rounded. -/
theorem ceilDiv_of_dvd (hd : 0 < d) (h : d ∣ n) : ceilDiv n d = n / d := by
  obtain ⟨q, rfl⟩ := h
  rw [mul_comm, ceilDiv_mul_self hd, Int.mul_ediv_cancel _ hd.ne']

theorem ceilDiv_one : ceilDiv n 1 = n := by simp [ceilDiv]

theorem ceilDiv_mono (hd : 0 < d) {m : Int} (h : n ≤ m) : ceilDiv n d ≤ ceilDiv m d :=
  (ceilDiv_le_iff hd).mpr (h.trans (le_ceilDiv_mul hd))

theorem ceilDiv_le_self (hd : 0 < d) (hn : 0 ≤ n) : ceilDiv n d ≤ n := by
  rw [ceilDiv_le_iff hd]
  nlinarith

end CeilDiv

/-- Windows of one width, side by side from zero, hold every index once. -/
theorem existsUnique_window {width count x : Int} (hw : 0 < width) (h0 : 0 ≤ x)
    (hx : x < count * width) :
    ∃! p, (0 ≤ p ∧ p < count) ∧ p * width ≤ x ∧ x < (p + 1) * width := by
  refine ⟨x / width, ⟨⟨Int.ediv_nonneg h0 hw.le, Int.ediv_lt_of_lt_mul hw hx⟩,
    Int.ediv_mul_le _ hw.ne', Int.lt_ediv_add_one_mul_self _ hw⟩, ?_⟩
  rintro p ⟨-, hle, hlt⟩
  have hp : p ≤ x / width := (Int.le_ediv_iff_mul_le hw).mpr hle
  have hp' : x / width < p + 1 := (Int.ediv_lt_iff_lt_mul hw).mpr hlt
  omega

end StencilTiling.Arith
