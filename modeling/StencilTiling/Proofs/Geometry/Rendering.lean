import StencilTiling.Geometry.Expr
import StencilTiling.Proofs.Arith
import StencilTiling.Proofs.Code.Printing

/-! Coordinate expressions as code. Their text is grouped by parentheses alone, and what it
computes with truncating division is the value of the expression, as long as nothing
negative is divided. -/

namespace StencilTiling

open Arith

/-! ### Values without a word size -/

/-- The multiple of `x`, rounded once. -/
def Ratio.exact (r : Ratio) (x : Int) : Int :=
  match r.rounding with
  | .down => floorDiv (x * r.num) r.den
  | .up => ceilDiv (x * r.num) r.den

def Affine.exact (a : Affine) (x : Int) : Int := a.factor.exact (x + a.offset)

theorem Affine.apply_eq_wrap64 (a : Affine) (x : Int) : a.apply x = wrap64 (a.exact x) := by
  rw [Affine.apply, Affine.exact, Ratio.apply, Ratio.exact]
  cases a.factor.rounding <;> rfl

namespace Geometry

def Leaf.value (part : Int) (extent : DataId → Int) : Leaf → Int
  | .partIndex => part
  | .extent data => extent data

namespace Expr

/-- The value for one part over unbounded integers. -/
def value (part : Int) (extent : DataId → Int) : Expr → Int
  | const n => n
  | leaf l => l.value part extent
  | affine inner map => map.exact (inner.value part extent)
  | add a b => a.value part extent + b.value part extent
  | sub a b => a.value part extent - b.value part extent
  | min a b => Min.min (a.value part extent) (b.value part extent)
  | max a b => Max.max (a.value part extent) (b.value part extent)

/-- The results of all affine steps fit a word. -/
def InWord (part : Int) (extent : DataId → Int) : Expr → Prop
  | const _ | leaf _ => True
  | affine inner map => inner.InWord part extent ∧ FitsWord (map.exact (inner.value part extent))
  | add a b | sub a b | min a b | max a b => a.InWord part extent ∧ b.InWord part extent

/-- Denominators are positive, and only what is not negative is divided. -/
def NonnegQuotients (part : Int) (extent : DataId → Int) : Expr → Prop
  | const _ | leaf _ => True
  | affine inner map => inner.NonnegQuotients part extent ∧ 0 < map.factor.den ∧
      (map.factor.den ≠ 1 → 0 ≤ (inner.value part extent + map.offset) * map.factor.num)
  | add a b | sub a b | min a b | max a b =>
    a.NonnegQuotients part extent ∧ b.NonnegQuotients part extent

def leaves : Expr → List Leaf
  | const _ => []
  | leaf l => [l]
  | affine inner _ => inner.leaves
  | add a b | sub a b | min a b | max a b => a.leaves ++ b.leaves

/-- Where every step fits a word, words make no difference. -/
theorem eval_eq_value {part : Int} {extent : DataId → Int} {e : Expr} (h : e.InWord part extent) :
    e.eval part extent = e.value part extent := by
  induction e with
  | const n => rfl
  | leaf l => cases l <;> rfl
  | affine inner map ih =>
    rw [eval, value, ih h.1, Affine.apply_eq_wrap64, wrap64_of_fits h.2]
  | add a b iha ihb | sub a b iha ihb | min a b iha ihb | max a b iha ihb =>
    rw [eval, value, iha h.1, ihb h.2]

end Expr

end Geometry

/-! ### Affine steps as code -/

/-- Truncation rounds down what is not negative. -/
theorem floorDiv_eq_tdiv {y d : Int} (hy : 0 ≤ y) : floorDiv y d = y.tdiv d :=
  (Int.tdiv_eq_ediv_of_nonneg hy).symm

/-- With one less than the divisor added first, it rounds up. -/
theorem ceilDiv_eq_tdiv {y d : Int} (hd : 0 < d) (hy : 0 ≤ y) : ceilDiv y d = (y + (d - 1)).tdiv d := by
  rw [Int.tdiv_eq_ediv_of_nonneg (by omega)]
  refine eq_of_forall_ge_iff fun c => ?_
  rw [ceilDiv_le_iff hd, ← Int.lt_add_one_iff (b := c), Int.ediv_lt_iff_lt_mul hd, add_mul, one_mul]
  omega

namespace Affine

variable {x : Code.Expr}

theorem grouped_shiftCode (offset : Int) (h : x.Grouped .primary) :
    (shiftCode offset x).Grouped .primary := by
  unfold shiftCode
  split_ifs with hzero hneg
  · exact h.of_primary .sum
  · exact ⟨rfl, h.of_primary .sum, Code.Expr.grouped_lit (by decide) _,
      decide_eq_false (by omega)⟩
  · exact ⟨rfl, h.of_primary .sum, Code.Expr.grouped_lit (by decide) _⟩

theorem grouped_scaleCode (num : Int) (h : x.Grouped .primary) :
    (scaleCode num x).Grouped .primary := by
  unfold scaleCode
  split_ifs
  · exact h
  · exact ⟨.inr rfl, h.of_primary .product, Code.Expr.grouped_lit (by decide) _⟩

theorem grouped_divideCode (factor : Ratio) (h : x.Grouped .primary) :
    (divideCode factor x).Grouped .primary := by
  unfold divideCode
  split_ifs
  · exact h
  · split
    · exact ⟨.inr rfl, h.of_primary .product, Code.Expr.grouped_lit (by decide) _⟩
    · exact ⟨.inr rfl, ⟨rfl, h.of_primary .sum, Code.Expr.grouped_lit (by decide) _⟩,
        Code.Expr.grouped_lit (by decide) _⟩

/-- The code of a step stands alone if its operand does. -/
theorem grouped_toCode (a : Affine) (h : x.Grouped .primary) : (a.toCode x).Grouped .primary := by
  unfold toCode
  split_ifs
  · exact h
  · exact grouped_divideCode _ (grouped_scaleCode _ (grouped_shiftCode _ h))

section Values

variable (v : String → Int)

theorem eval_shiftCode (offset : Int) : (shiftCode offset x).eval v = x.eval v + offset := by
  unfold shiftCode
  split_ifs <;> simp only [Code.Expr.eval] <;> omega

theorem eval_scaleCode (num : Int) : (scaleCode num x).eval v = x.eval v * num := by
  unfold scaleCode
  split_ifs with h
  · rw [h, mul_one]
  · rfl

theorem eval_divideCode {factor : Ratio} (hden : 0 < factor.den)
    (hq : factor.den ≠ 1 → 0 ≤ x.eval v) :
    (divideCode factor x).eval v = match factor.rounding with
      | .down => floorDiv (x.eval v) factor.den
      | .up => ceilDiv (x.eval v) factor.den := by
  unfold divideCode
  by_cases hone : factor.den = 1
  · rw [if_pos hone, hone, ceilDiv_one]
    cases factor.rounding <;> simp [floorDiv]
  · rw [if_neg hone]
    cases factor.rounding with
    | down => exact (floorDiv_eq_tdiv (hq hone)).symm
    | up => exact (ceilDiv_eq_tdiv hden (hq hone)).symm

/-- The code of a step computes it. -/
theorem eval_toCode (a : Affine) (hden : 0 < a.factor.den)
    (hq : a.factor.den ≠ 1 → 0 ≤ (x.eval v + a.offset) * a.factor.num) :
    (a.toCode x).eval v = a.exact (x.eval v) := by
  unfold toCode
  split_ifs with hn
  · -- a neutral step multiplies and divides by the same number
    obtain ⟨hoffset, hfactor⟩ : a.offset = 0 ∧ a.factor.num = a.factor.den := by
      simpa [isNeutral, Ratio.isOne] using hn
    rw [exact, Ratio.exact, hoffset, hfactor, add_zero, ceilDiv_mul_self hden, floorDiv,
      Int.mul_ediv_cancel _ hden.ne']
    cases a.factor.rounding <;> rfl
  · rw [← eval_shiftCode, ← eval_scaleCode] at hq
    rw [eval_divideCode v hden hq, eval_scaleCode, eval_shiftCode]
    rfl

end Values

end Affine

/-! ### Expressions as code -/

namespace Geometry.Expr

theorem grouped_toCode {name : Leaf → String} {e : Expr}
    (h : ∀ l ∈ e.leaves, Code.isOperand (name l) = true) : (e.toCode name).Grouped .primary := by
  induction e with
  | const n =>
    rw [toCode]
    split_ifs with hn
    · exact Code.Expr.grouped_lit (by decide) n
    · exact fun _ => by omega
  | leaf l => exact h l (List.mem_singleton.mpr rfl)
  | affine inner map ih => exact map.grouped_toCode (ih h)
  | add a b iha ihb =>
    simp only [leaves, List.mem_append] at h
    exact ⟨rfl, (iha fun l hl => h l (.inl hl)).of_primary _, (ihb fun l hl => h l (.inr hl)).of_primary _⟩
  | sub a b iha ihb =>
    simp only [leaves, List.mem_append] at h
    have hb := ihb fun l hl => h l (.inr hl)
    exact ⟨rfl, (iha fun l hl => h l (.inl hl)).of_primary _, hb.of_primary _, hb.signed_eq_false⟩
  | min a b iha ihb | max a b iha ihb =>
    simp only [leaves, List.mem_append] at h
    exact ⟨(iha fun l hl => h l (.inl hl)).of_primary _, (ihb fun l hl => h l (.inr hl)).of_primary _⟩

/-- The code of an expression computes its value. -/
theorem eval_toCode {part : Int} {extent : DataId → Int} {name : Leaf → String} {v : String → Int}
    {e : Expr} (hq : e.NonnegQuotients part extent)
    (hv : ∀ l ∈ e.leaves, v (name l) = l.value part extent) :
    (e.toCode name).eval v = e.value part extent := by
  induction e with
  | const n =>
    rw [toCode]
    split_ifs <;> rfl
  | leaf l => exact hv l (List.mem_singleton.mpr rfl)
  | affine inner map ih =>
    obtain ⟨hinner, hden, hnonneg⟩ := hq
    have hih := ih hinner hv
    rw [toCode, Affine.eval_toCode v map hden (by rwa [hih]), hih, value]
  | add a b iha ihb | sub a b iha ihb | min a b iha ihb | max a b iha ihb =>
    simp only [leaves, List.mem_append] at hv
    simp only [toCode, Code.Expr.eval, value, iha hq.1 fun l hl => hv l (.inl hl),
      ihb hq.2 fun l hl => hv l (.inr hl)]

end Geometry.Expr

end StencilTiling
