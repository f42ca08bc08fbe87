import Mathlib.Data.Int.ModEq
import Mathlib.Data.Rat.Floor
import Mathlib.Data.Rat.Lemmas
import StencilTiling.Proofs.Arith
import StencilTiling.Ratio

/-! Ratios compute in the rational numbers. A fraction that can be written with two words is
stored in lowest terms with a positive denominator; products and quotients are those of the
values, and fail exactly if the value has no such form. Every step on the way fits a double
word, so that a machine with checked double words computes the same. -/

namespace StencilTiling

namespace Arith

theorem gcdWide_eq (a b : Nat) : gcdWide a b = Nat.gcd a b := by
  fun_induction gcdWide a b with
  | case1 a => simp
  | case2 a b _ ih => rw [ih, Nat.gcd_comm b, ← Nat.gcd_rec, Nat.gcd_comm]

/-! ### Words -/

theorem wrap64_modEq (n : Int) : wrap64 n ≡ n [ZMOD 0x10000000000000000] :=
  Int.bmod_emod

/-! ### Rounded quotients -/

theorem floorDiv_eq_floor {d : Int} (hd : 0 < d) (n : Int) : floorDiv n d = ⌊(n : ℚ) / d⌋ := by
  lift d to Nat using hd.le
  exact (Rat.floor_intCast_div_natCast n d).symm

theorem ceilDiv_eq_ceil {d : Int} (hd : 0 < d) (n : Int) : ceilDiv n d = ⌈(n : ℚ) / d⌉ := by
  have hfloor := floorDiv_eq_floor hd (-n)
  rw [floorDiv, Int.cast_neg, neg_div, Int.floor_neg] at hfloor
  rw [ceilDiv, hfloor, neg_neg]

/-! ### Double words -/

/-- Membership in the signed 128-bit range. -/
def FitsWide (n : Int) : Prop :=
  -0x80000000000000000000000000000000 ≤ n ∧ n < 0x80000000000000000000000000000000

instance (n : Int) : Decidable (FitsWide n) := inferInstanceAs (Decidable (_ ∧ _))

/-- The integer as a double word, if it is one. -/
def wide? (n : Int) : Option Int := if FitsWide n then some n else none

/-- At most 126 bits and a sign, which is what a product of two words takes. -/
def FitsProduct (n : Int) : Prop := |n| ≤ 0x40000000000000000000000000000000

/-- A step that fits hands its result on. -/
theorem FitsProduct.wide {n : Int} (h : FitsProduct n) {α : Type} (f : Int → Option α) :
    (wide? n >>= f) = f n := by
  obtain ⟨hlo, hhi⟩ := abs_le.mp h
  have hn : wide? n = some n := by
    refine if_pos ?_
    simp only [FitsWide]
    omega
  rw [hn]
  rfl

theorem FitsProduct.neg {n : Int} (h : FitsProduct n) : FitsProduct (-n) := by
  rwa [FitsProduct, abs_neg]

theorem FitsProduct.ediv {n : Int} (h : FitsProduct n) (d : Int) : FitsProduct (n / d) :=
  (Int.abs_ediv_le_abs n d).trans h

theorem FitsWord.abs_le {n : Int} (h : FitsWord n) : |n| ≤ 0x8000000000000000 := by
  simp only [FitsWord, minWord, maxWord] at h
  exact abs_le'.mpr ⟨by omega, by omega⟩

theorem FitsWord.product {n : Int} (h : FitsWord n) : FitsProduct n :=
  h.abs_le.trans (by decide)

theorem FitsWord.mul {m n : Int} (hm : FitsWord m) (hn : FitsWord n) : FitsProduct (m * n) := by
  rw [FitsProduct, abs_mul]
  exact mul_le_mul hm.abs_le hn.abs_le (abs_nonneg n) (by decide)

end Arith

/-- The integer next to a rational number, on the side of the rounding. -/
def Rounding.round : Rounding → ℚ → Int
  | down, v => ⌊v⌋
  | up, v => ⌈v⌉

namespace Ratio

open Arith

/-! ### Values -/

/-- The rational number that a ratio stands for. -/
def value (r : Ratio) : ℚ := r.num / r.den

/-- In lowest terms, with a positive denominator, in two words. -/
@[mk_iff] structure Canonical (r : Ratio) : Prop where
  den_pos : 0 < r.den
  coprime : r.num.natAbs.Coprime r.den.natAbs
  num_fits : FitsWord r.num
  den_fits : FitsWord r.den

instance (r : Ratio) : Decidable r.Canonical := decidable_of_iff _ (canonical_iff r).symm

/-- A rational number whose lowest terms are two words. -/
def Storable (v : ℚ) : Prop := FitsWord v.num ∧ FitsWord v.den

instance (v : ℚ) : Decidable (Storable v) := inferInstanceAs (Decidable (_ ∧ _))

/-- The lowest terms of a rational number. -/
def ofRat (v : ℚ) (rounding : Rounding) : Ratio := ⟨v.num, v.den, rounding⟩

@[simp] theorem value_ofRat (v : ℚ) (rounding : Rounding) : (ofRat v rounding).value = v :=
  Rat.num_div_den v

theorem canonical_ofRat {v : ℚ} (h : Storable v) (rounding : Rounding) :
    (ofRat v rounding).Canonical :=
  ⟨by simpa [ofRat] using v.den_pos, v.reduced, h.1, h.2⟩

/-- A canonical ratio is the lowest terms of its value. -/
theorem Canonical.num_value {r : Ratio} (h : r.Canonical) : r.value.num = r.num :=
  Rat.num_div_eq_of_coprime h.den_pos h.coprime

theorem Canonical.den_value {r : Ratio} (h : r.Canonical) : (r.value.den : Int) = r.den :=
  Rat.den_div_eq_of_coprime h.den_pos h.coprime

theorem Canonical.storable {r : Ratio} (h : r.Canonical) : Storable r.value := by
  rw [Storable, h.num_value, h.den_value]
  exact ⟨h.num_fits, h.den_fits⟩

theorem Canonical.ofRat_value {r : Ratio} (h : r.Canonical) : ofRat r.value r.rounding = r := by
  rw [ofRat, h.num_value, h.den_value]

theorem Canonical.ofInt {n : Int} (h : FitsWord n) : (ofInt n).Canonical :=
  ⟨Int.one_pos, by simp [Ratio.ofInt], h, (by decide : FitsWord 1)⟩

/-- The value decides the fraction. -/
theorem Canonical.sameValue_iff {r s : Ratio} (hr : r.Canonical) (hs : s.Canonical) :
    r.sameValue s = true ↔ r.num = s.num ∧ r.den = s.den := by
  rw [sameValue, beq_iff_eq]
  constructor
  · intro hcross
    refine Rat.div_int_inj hr.den_pos hs.den_pos hr.coprime hs.coprime ?_
    have hr0 : (r.den : ℚ) ≠ 0 := by exact_mod_cast hr.den_pos.ne'
    have hs0 : (s.den : ℚ) ≠ 0 := by exact_mod_cast hs.den_pos.ne'
    rw [div_eq_div_iff hr0 hs0]
    exact_mod_cast hcross
  · rintro ⟨hnum, hden⟩
    rw [hnum, hden]

/-! ### Exact results -/

/-- The ratio of a value, or that it does not fit. -/
def store (v : ℚ) (rounding : Rounding) : Except RatioError Ratio :=
  if Storable v then .ok (ofRat v rounding) else .error (.outOfRange v.num v.den)

/-- Reducing a fraction stores its value. -/
theorem reduce_eq_store {num den : Int} (hden : den ≠ 0) (rounding : Rounding) :
    reduce num den rounding = store (num / den) rounding := by
  have hgcd : (max (gcdWide (if den < 0 then -num else num).natAbs
      (if den < 0 then -den else den).natAbs) 1 : Nat) = den.gcd num := by
    have hpos : 1 ≤ den.gcd num := Int.gcd_pos_of_ne_zero_left num hden
    have habs : (if den < 0 then -num else num).natAbs = num.natAbs ∧
        (if den < 0 then -den else den).natAbs = den.natAbs := by
      split_ifs <;> simp
    rw [habs.1, habs.2, gcdWide_eq, Nat.gcd_comm]
    exact max_eq_left hpos
  have hnum : (num / den : ℚ).num = (if den < 0 then -num else num) / (den.gcd num : Int) := by
    rw [Rat.intCast_div_eq_divInt, Rat.num_divInt]
    rcases lt_or_gt_of_ne hden with hneg | hpos
    · rw [if_pos hneg, Int.sign_eq_neg_one_of_neg hneg, neg_one_mul]
    · rw [if_neg hpos.not_gt, Int.sign_eq_one_of_pos hpos, one_mul]
  have hden' : ((num / den : ℚ).den : Int) = (if den < 0 then -den else den) / (den.gcd num : Int) := by
    have habs : (if den < 0 then -den else den) = (den.natAbs : Int) := by
      split_ifs <;> omega
    rw [Rat.intCast_div_eq_divInt, Rat.den_divInt, if_neg hden, habs, Int.natCast_ediv]
  simp only [reduce, store, Storable, ofRat, hgcd, hnum, hden']

theorem mul_eq_store {r s : Ratio} (hr : r.Canonical) (hs : s.Canonical) :
    r.mul s = store (r.value * s.value) r.rounding := by
  rw [mul, reduce_eq_store (mul_pos hr.den_pos hs.den_pos).ne', value, value, div_mul_div_comm]
  push_cast
  rfl

theorem div_eq_store {r s : Ratio} (hr : r.Canonical) (hs : s.num ≠ 0) :
    r.div s = store (r.value / s.value) r.rounding := by
  rw [div, if_neg hs, reduce_eq_store (mul_ne_zero hr.den_pos.ne' hs), value, value, div_div_div_eq]
  push_cast
  rfl

/-- A computation of a ratio: the exact value with its rounding, and no result exactly if
there is no value or it does not fit. -/
structure Computes (x : Except RatioError Ratio) (undefined : Prop) (v : ℚ) (rounding : Rounding) :
    Prop where
  exact : ∀ r, x = .ok r → r.Canonical ∧ r.value = v ∧ r.rounding = rounding
  fails : (∃ e, x = .error e) ↔ undefined ∨ ¬ Storable v

theorem computes_store (v : ℚ) (rounding : Rounding) {undefined : Prop} (h : ¬ undefined) :
    Computes (store v rounding) undefined v rounding := by
  rw [store]
  split_ifs with hv
  · refine ⟨?_, by simp [h, hv]⟩
    rintro _ ⟨⟩
    exact ⟨canonical_ofRat hv rounding, value_ofRat v rounding, rfl⟩
  · exact ⟨nofun, by simp [hv]⟩

theorem computes_error {e : RatioError} {undefined : Prop} (h : undefined) (v : ℚ)
    (rounding : Rounding) : Computes (.error e) undefined v rounding :=
  ⟨nofun, by simp [h]⟩

theorem computes_ofFraction (num den : Int) (rounding : Rounding) :
    Computes (ofFraction num den rounding) (den = 0) (num / den) rounding := by
  rw [ofFraction]
  split_ifs with h
  · exact computes_error h _ _
  · rw [reduce_eq_store h]
    exact computes_store _ _ h

theorem computes_mul {r s : Ratio} (hr : r.Canonical) (hs : s.Canonical) :
    Computes (r.mul s) False (r.value * s.value) r.rounding := by
  rw [mul_eq_store hr hs]
  exact computes_store _ _ id

theorem Canonical.value_eq_zero_iff {r : Ratio} (h : r.Canonical) : r.value = 0 ↔ r.num = 0 := by
  rw [← Rat.num_eq_zero, h.num_value]

theorem computes_div {r s : Ratio} (hr : r.Canonical) (hs : s.Canonical) :
    Computes (r.div s) (s.value = 0) (r.value / s.value) r.rounding := by
  by_cases h : s.num = 0
  · rw [div, if_pos h]
    exact computes_error (hs.value_eq_zero_iff.mpr h) _ _
  · rw [div_eq_store hr h]
    exact computes_store _ _ fun hv => h (hs.value_eq_zero_iff.mp hv)

/-- A quotient multiplied back. -/
theorem mul_of_div {r s q : Ratio} (hr : r.Canonical) (hs : s.Canonical) (h : r.div s = .ok q) :
    q.mul s = .ok r := by
  have hdiv := computes_div hr hs
  obtain ⟨hq, hvalue, hrounding⟩ := hdiv.exact q h
  have hs0 : s.value ≠ 0 := fun h0 => by
    obtain ⟨e, he⟩ := hdiv.fails.mpr (.inl h0)
    cases h.symm.trans he
  rw [mul_eq_store hq hs, hvalue, div_mul_cancel₀ _ hs0, hrounding, store, if_pos hr.storable,
    hr.ofRat_value]

/-! ### Multiples -/

theorem apply_eq_round {r : Ratio} (h : 0 < r.den) (x : Int) :
    r.apply x = wrap64 (r.rounding.round (x * r.value)) := by
  have hvalue : (x * r.value : ℚ) = ((x * r.num : Int) : ℚ) / r.den := by
    rw [value, mul_div_assoc', Int.cast_mul]
  rw [apply, hvalue]
  cases r.rounding with
  | down => rw [Rounding.round, floorDiv_eq_floor h]
  | up => rw [Rounding.round, ceilDiv_eq_ceil h]

/-! ### Double words -/

/-- `reduce` in double words. -/
def reduceWide (num den : Int) (rounding : Rounding) : Option (Except RatioError Ratio) := do
  let n ← wide? (if den < 0 then -num else num)
  let d ← wide? (if den < 0 then -den else den)
  let g ← wide? (max (gcdWide n.natAbs d.natAbs) 1 : Nat)
  let n ← wide? (n.tdiv g)
  let d ← wide? (d.tdiv g)
  return if FitsWord n ∧ FitsWord d then .ok ⟨n, d, rounding⟩ else .error (.outOfRange n d)

/-- `ofFraction` in double words. -/
def ofFractionWide (num den : Int) (rounding : Rounding) : Option (Except RatioError Ratio) :=
  if den = 0 then some (.error (.zeroDenominator num)) else reduceWide num den rounding

/-- `mul` in double words. -/
def mulWide (a b : Ratio) : Option (Except RatioError Ratio) := do
  reduceWide (← wide? (a.num * b.num)) (← wide? (a.den * b.den)) a.rounding

/-- `div` in double words. -/
def divWide (a b : Ratio) : Option (Except RatioError Ratio) :=
  if b.num = 0 then some (.error (.zeroDenominator a.num))
  else do reduceWide (← wide? (a.num * b.den)) (← wide? (a.den * b.num)) a.rounding

/-- `sameValue` in double words. -/
def sameValueWide (a b : Ratio) : Option Bool := do
  return (← wide? (a.num * b.den)) == (← wide? (b.num * a.den))

/-- `apply` in double words; only the result is cut to a word. -/
def applyWide (r : Ratio) (x : Int) : Option Int := do
  let p ← wide? (x * r.num)
  match r.rounding with
  | .down => return wrap64 (← wide? (p / r.den))
  | .up =>
    let q ← wide? ((← wide? (-p)) / r.den)
    return wrap64 (← wide? (-q))

theorem reduceWide_eq {num den : Int} (hn : FitsProduct num) (hd : FitsProduct den) (hden : den ≠ 0)
    (rounding : Rounding) : reduceWide num den rounding = some (reduce num den rounding) := by
  have hn' : FitsProduct (if den < 0 then -num else num) := by
    split_ifs
    exacts [hn.neg, hn]
  have hd' : FitsProduct (if den < 0 then -den else den) := by
    split_ifs
    exacts [hd.neg, hd]
  have hpos : 0 < (if den < 0 then -den else den) := by
    split_ifs <;> omega
  rw [reduceWide, reduce]
  generalize (if den < 0 then -num else num) = n at *
  generalize (if den < 0 then -den else den) = d at *
  have hgd : Nat.gcd n.natAbs d.natAbs ∣ d.natAbs := Nat.gcd_dvd_right _ _
  have hg1 : 1 ≤ Nat.gcd n.natAbs d.natAbs := Nat.pos_of_dvd_of_pos hgd (by omega)
  have hg : (max (gcdWide n.natAbs d.natAbs) 1 : Nat) = Nat.gcd n.natAbs d.natAbs := by
    rw [gcdWide_eq]
    exact max_eq_left hg1
  have hgw : FitsProduct (Nat.gcd n.natAbs d.natAbs : Nat) := by
    have hle := Nat.le_of_dvd (by omega) hgd
    refine le_trans ?_ hd'
    rw [Nat.abs_cast, Int.abs_eq_natAbs]
    exact_mod_cast hle
  -- the divisor goes into both, so that truncating loses nothing
  have hqn : n.tdiv (Nat.gcd n.natAbs d.natAbs) = n / (Nat.gcd n.natAbs d.natAbs) :=
    Int.tdiv_eq_ediv_of_dvd (Int.natCast_dvd.mpr (Nat.gcd_dvd_left _ _))
  have hqd : d.tdiv (Nat.gcd n.natAbs d.natAbs) = d / (Nat.gcd n.natAbs d.natAbs) :=
    Int.tdiv_eq_ediv_of_dvd (Int.natCast_dvd.mpr hgd)
  rw [hn'.wide, hd'.wide, hg, hgw.wide, hqn, hqd, (hn'.ediv _).wide, (hd'.ediv _).wide]
  rfl

theorem ofFractionWide_eq {num den : Int} (hn : FitsWord num) (hd : FitsWord den)
    (rounding : Rounding) : ofFractionWide num den rounding = some (ofFraction num den rounding) := by
  rw [ofFractionWide, ofFraction]
  split_ifs with h
  · rfl
  · exact reduceWide_eq hn.product hd.product h rounding

section Wide

variable {r s : Ratio} (hr : r.Canonical)

include hr

theorem mulWide_eq (hs : s.Canonical) : r.mulWide s = some (r.mul s) := by
  have hn := hr.num_fits.mul hs.num_fits
  have hd := hr.den_fits.mul hs.den_fits
  rw [mulWide, hn.wide, hd.wide]
  exact reduceWide_eq hn hd (mul_pos hr.den_pos hs.den_pos).ne' _

theorem divWide_eq (hs : s.Canonical) : r.divWide s = some (r.div s) := by
  rw [divWide, div]
  split_ifs with h
  · rfl
  · have hn := hr.num_fits.mul hs.den_fits
    have hd := hr.den_fits.mul hs.num_fits
    rw [hn.wide, hd.wide]
    exact reduceWide_eq hn hd (mul_ne_zero hr.den_pos.ne' h) _

theorem sameValueWide_eq (hs : s.Canonical) : r.sameValueWide s = some (r.sameValue s) := by
  rw [sameValueWide, (hr.num_fits.mul hs.den_fits).wide, (hs.num_fits.mul hr.den_fits).wide]
  rfl

theorem applyWide_eq {x : Int} (hx : FitsWord x) : r.applyWide x = some (r.apply x) := by
  have hp := hx.mul hr.num_fits
  rw [applyWide, apply, hp.wide]
  cases r.rounding with
  | down =>
    dsimp only
    rw [(hp.ediv _).wide]
    rfl
  | up =>
    dsimp only
    rw [hp.neg.wide, (hp.neg.ediv _).wide, (hp.neg.ediv _).neg.wide]
    rfl

end Wide

/-! ### Ratios made from words -/

/-- What the operations make from words. -/
inductive Reachable : Ratio → Prop
  | ofFraction {num den : Int} {rounding : Rounding} {r : Ratio} (hn : FitsWord num)
      (hd : FitsWord den) (h : Ratio.ofFraction num den rounding = .ok r) : Reachable r
  | ofInt {n : Int} (h : FitsWord n) : Reachable (Ratio.ofInt n)
  | mul {r s q : Ratio} (hr : Reachable r) (hs : Reachable s) (h : Ratio.mul r s = .ok q) : Reachable q
  | div {r s q : Ratio} (hr : Reachable r) (hs : Reachable s) (h : Ratio.div r s = .ok q) : Reachable q

theorem Reachable.canonical {r : Ratio} (h : Reachable r) : r.Canonical := by
  induction h with
  | ofFraction _ _ h => exact ((computes_ofFraction _ _ _).exact _ h).1
  | ofInt h => exact .ofInt h
  | mul _ _ h hr hs => exact ((computes_mul hr hs).exact _ h).1
  | div _ _ h hr hs => exact ((computes_div hr hs).exact _ h).1

/-- Ratios made from words are in lowest terms with a positive denominator. Fractions, products
and quotients are exact and rounded as the left operand is; they fail exactly if the divisor is
zero or the result in lowest terms is no pair of words. Ratios are equal exactly if both parts
are, a quotient multiplied back is the dividend, and a multiple is rounded once and reduced to
the word. No step overflows a double word. -/
theorem ratios_exact :
    (∀ r : Ratio, r.Reachable → 0 < r.den ∧ r.num.natAbs.Coprime r.den.natAbs) ∧
    (∀ n, FitsWord n → (ofInt n).value = n) ∧
    (∀ num den rounding, FitsWord num → FitsWord den →
      Computes (ofFraction num den rounding) (den = 0) (num / den) rounding ∧
      ofFractionWide num den rounding = some (ofFraction num den rounding)) ∧
    ∀ r s : Ratio, r.Reachable → s.Reachable →
      Computes (r.mul s) False (r.value * s.value) r.rounding ∧
      Computes (r.div s) (s.value = 0) (r.value / s.value) r.rounding ∧
      (r.mulWide s = some (r.mul s) ∧ r.divWide s = some (r.div s)) ∧
      ((r.sameValue s = true ↔ r.num = s.num ∧ r.den = s.den) ∧
        r.sameValueWide s = some (r.sameValue s)) ∧
      (∀ q, r.div s = .ok q → q.mul s = .ok r) ∧
      ∀ x, FitsWord x → FitsWord (r.apply x) ∧
        r.apply x ≡ r.rounding.round (x * r.value) [ZMOD 0x10000000000000000] ∧
        r.applyWide x = some (r.apply x) := by
  refine ⟨fun r hr => ⟨hr.canonical.den_pos, hr.canonical.coprime⟩, fun n _ => by simp [value, ofInt],
    fun num den rounding hn hd => ⟨computes_ofFraction num den rounding, ofFractionWide_eq hn hd rounding⟩,
    fun r s hr hs => ?_⟩
  have hr := hr.canonical
  have hs := hs.canonical
  refine ⟨computes_mul hr hs, computes_div hr hs, ⟨mulWide_eq hr hs, divWide_eq hr hs⟩,
    ⟨hr.sameValue_iff hs, sameValueWide_eq hr hs⟩, fun q hq => mul_of_div hr hs hq, fun x hx => ?_⟩
  rw [applyWide_eq hr hx, apply_eq_round hr.den_pos]
  exact ⟨fitsWord_wrap64 _, wrap64_modEq _, rfl⟩

/-- The least word: one over it has no ratio, it over itself has; a third of it divided by a
ninth is three, multiplied it has no ratio, and the multiple of the least word wraps. -/
theorem ratios_exact_minWord :
    (∃ e, ofFraction 1 minWord .down = .error e) ∧
    (∃ r, ofFraction minWord minWord .down = .ok r ∧ r.value = 1) ∧
    ∃ r s q, ofFraction minWord 3 .up = .ok r ∧ ofFraction minWord 9 .down = .ok s ∧
      r.div s = .ok q ∧ q.value = 3 ∧ q.rounding = .up ∧ q.mul s = .ok r ∧
      (∃ e, r.mul s = .error e) ∧ r.mulWide s = some (r.mul s) ∧
      r.apply minWord = 6148914691236517206 ∧
      6148914691236517206 ≡ ⌈minWord * r.value⌉ [ZMOD 0x10000000000000000] := by
  obtain ⟨-, -, hfraction, hpair⟩ := ratios_exact
  have hmin : FitsWord minWord := by decide
  have hself : ofFraction minWord minWord .down = .ok ⟨1, 1, .down⟩ := by decide +kernel
  have hthird : ofFraction minWord 3 .up = .ok ⟨minWord, 3, .up⟩ := by decide +kernel
  have hninth : ofFraction minWord 9 .down = .ok ⟨minWord, 9, .down⟩ := by decide +kernel
  have hdiv : div ⟨minWord, 3, .up⟩ ⟨minWord, 9, .down⟩ = .ok ⟨3, 1, .up⟩ := by decide +kernel
  have happly : apply ⟨minWord, 3, .up⟩ minWord = 6148914691236517206 := by decide +kernel
  obtain ⟨hmul, -, ⟨hwide, -⟩, -, hback, hmultiple⟩ := hpair ⟨minWord, 3, .up⟩ ⟨minWord, 9, .down⟩
    (.ofFraction hmin (by decide) hthird) (.ofFraction hmin (by decide) hninth)
  obtain ⟨-, hround, -⟩ := hmultiple minWord hmin
  refine ⟨?_, ⟨_, hself, ?_⟩, _, _, _, hthird, hninth, hdiv, by simp [value], rfl, hback _ hdiv, ?_, hwide,
    happly, happly ▸ hround⟩
  · exact (hfraction 1 minWord .down (by decide) hmin).1.fails.mpr (.inr (by decide +kernel))
  · rw [((hfraction minWord minWord .down hmin hmin).1.exact _ hself).2.1]
    norm_num [minWord]
  · exact hmul.fails.mpr (.inr (by decide +kernel))

end Ratio

end StencilTiling
