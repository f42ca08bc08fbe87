import StencilTiling.Geometry.Expr
import StencilTiling.Proofs.Ratio

/-! What the building operations of coordinate expressions denote. Folding constants and
dropping neutral steps keeps every value. Folding equal operands of a minimum or maximum keeps
the left one, and operands count as equal if their factors have equal values, whichever way
these round; so the fold is sound exactly if the left operand is the lesser or the greater, as
it is when factors of equal value round the same way. -/

namespace StencilTiling

open Arith

namespace Ratio

/-- An integer is not rounded. -/
theorem round_of_den_eq_one {r : Ratio} (h : r.den = 1) (ρ : Rounding) (x : Int) :
    ρ.round (x * r.value) = x * r.num := by
  have hvalue : (x * r.value : ℚ) = ((x * r.num : Int) : ℚ) := by
    rw [value, h, Int.cast_one, div_one, Int.cast_mul]
  rw [hvalue]
  cases ρ with
  | down => exact Int.floor_intCast _
  | up => exact Int.ceil_intCast _

/-- Factors of equal value that round the same way have equal multiples. -/
theorem apply_congr {r s : Ratio} (hr : 0 < r.den) (hs : 0 < s.den) (h : r.sameValue s = true)
    (hround : r.rounding = s.rounding ∨ r.den = 1 ∨ s.den = 1) (x : Int) : r.apply x = s.apply x := by
  have hvalue : r.value = s.value := by
    have hr0 : (r.den : ℚ) ≠ 0 := by exact_mod_cast hr.ne'
    have hs0 : (s.den : ℚ) ≠ 0 := by exact_mod_cast hs.ne'
    rw [value, value, div_eq_div_iff hr0 hs0]
    exact_mod_cast beq_iff_eq.mp h
  rw [apply_eq_round hr, apply_eq_round hs, hvalue]
  rcases hround with hround | hone | hone
  · rw [hround]
  · rw [← hvalue, round_of_den_eq_one hone, round_of_den_eq_one hone]
  · rw [round_of_den_eq_one hone, round_of_den_eq_one hone]

end Ratio

namespace Affine

/-- A neutral map keeps words as they are. -/
theorem apply_of_isNeutral {map : Affine} (hden : 0 < map.factor.den) (h : map.isNeutral = true)
    {x : Int} (hx : FitsWord x) : map.apply x = x := by
  obtain ⟨hoffset, hone⟩ : map.offset = 0 ∧ map.factor.num = map.factor.den := by
    simpa [isNeutral, Ratio.isOne] using h
  have hvalue : map.factor.value = 1 := by
    rw [Ratio.value, hone]
    exact div_self (by exact_mod_cast hden.ne')
  rw [apply, hoffset, add_zero, Ratio.apply_eq_round hden, hvalue, mul_one]
  cases map.factor.rounding <;> simp [Rounding.round, wrap64_of_fits hx]

theorem apply_scale (k x : Int) : (scale k).apply x = wrap64 (k * x) := by
  simp [scale, apply, Ratio.ofInt, Ratio.apply, floorDiv, mul_comm]

end Affine

namespace Geometry.Expr

/-! ### Trees -/

/-- The factors of the affine steps. -/
def factors : Expr → List Ratio
  | const _ => []
  | leaf _ => []
  | affine inner map => map.factor :: inner.factors
  | add a b | sub a b | min a b | max a b => a.factors ++ b.factors

/-- The tree itself and all below it. -/
def subtrees : Expr → List Expr
  | const n => [const n]
  | leaf l => [leaf l]
  | affine inner map => affine inner map :: inner.subtrees
  | add a b => add a b :: (a.subtrees ++ b.subtrees)
  | sub a b => sub a b :: (a.subtrees ++ b.subtrees)
  | min a b => min a b :: (a.subtrees ++ b.subtrees)
  | max a b => max a b :: (a.subtrees ++ b.subtrees)

/-- The same tree with every step taken by its building operation. -/
def rebuild : Expr → Expr
  | const n => const n
  | leaf l => leaf l
  | affine inner map => inner.rebuild.mapBy map
  | add a b => a.rebuild.plus b.rebuild
  | sub a b => a.rebuild.minus b.rebuild
  | min a b => a.rebuild.atMost b.rebuild
  | max a b => a.rebuild.atLeast b.rebuild

variable {part : Int} {extent : DataId → Int} {a b e : Expr}

/-- Trees that count as equal have equal values if their factors of equal value have equal
multiples. -/
theorem eval_eq_of_same
    (hfactors : ∀ r ∈ a.factors, ∀ s ∈ b.factors, r.sameValue s = true → ∀ x, r.apply x = s.apply x)
    (h : a.same b = true) : a.eval part extent = b.eval part extent := by
  induction a generalizing b with
  | const n => cases b <;> simp_all [same]
  | leaf l => cases b <;> simp_all [same]
  | affine inner map ih =>
    cases b with
    | affine inner' map' =>
      simp only [same, Affine.sameValue, Bool.and_eq_true, beq_iff_eq] at h
      obtain ⟨hi, ho, hf⟩ := h
      have hinner := ih (fun r hr s hs => hfactors r (List.mem_cons_of_mem _ hr) s
        (List.mem_cons_of_mem _ hs)) hi
      rw [eval, eval, Affine.apply, Affine.apply, hinner, ho]
      exact hfactors _ List.mem_cons_self _ List.mem_cons_self hf _
    | _ => simp [same] at h
  | add a₁ a₂ ih₁ ih₂ | sub a₁ a₂ ih₁ ih₂ | min a₁ a₂ ih₁ ih₂ | max a₁ a₂ ih₁ ih₂ =>
    cases b <;> simp only [same, Bool.and_eq_true, Bool.false_eq_true] at h
    rw [eval, eval,
      ih₁ (fun r hr s hs => hfactors r (List.mem_append_left _ hr) s (List.mem_append_left _ hs)) h.1,
      ih₂ (fun r hr s hs => hfactors r (List.mem_append_right _ hr) s (List.mem_append_right _ hs)) h.2]

/-! ### Values of the building operations -/

theorem eval_mapBy {map : Affine} (hden : 0 < map.factor.den) (ha : FitsWord (a.eval part extent)) :
    (a.mapBy map).eval part extent = map.apply (a.eval part extent) := by
  unfold mapBy
  split_ifs with hn
  · exact (Affine.apply_of_isNeutral hden hn ha).symm
  · cases a <;> rfl

theorem eval_scaled {k : Int} (hk : FitsWord (k * a.eval part extent)) :
    (a.scaled k).eval part extent = k * a.eval part extent := by
  have happly : (Affine.scale k).apply (a.eval part extent) = k * a.eval part extent := by
    rw [Affine.apply_scale, wrap64_of_fits hk]
  unfold scaled mapBy
  split_ifs with hn
  · have hone : k = 1 := by simpa [Affine.isNeutral, Affine.scale, Ratio.isOne, Ratio.ofInt] using hn
    rw [hone, one_mul]
  · rw [← happly]
    cases a <;> rfl

theorem eval_plus (a b : Expr) :
    (a.plus b).eval part extent = a.eval part extent + b.eval part extent := by
  unfold plus
  split <;> simp [eval]

theorem eval_minus (a b : Expr) :
    (a.minus b).eval part extent = a.eval part extent - b.eval part extent := by
  unfold minus
  split <;> simp [eval]

/-- Equal operands are folded into the left one. -/
theorem eval_atMost (a b : Expr) :
    (a.atMost b).eval part extent = Min.min (a.eval part extent) (b.eval part extent) ↔
      (a.same b = true → a.eval part extent ≤ b.eval part extent) := by
  unfold atMost
  split
  · next m n => simp +contextual [eval, same]
  · split_ifs with h
    · simp [h, left_eq_inf]
    · simp [h, eval]

theorem eval_atLeast (a b : Expr) :
    (a.atLeast b).eval part extent = Max.max (a.eval part extent) (b.eval part extent) ↔
      (a.same b = true → b.eval part extent ≤ a.eval part extent) := by
  unfold atLeast
  split
  · next m n => simp +contextual [eval, same]
  · split_ifs with h
    · simp [h, left_eq_sup]
    · simp [h, eval]

/-- Nothing but zero counts as equal to zero. -/
theorem eval_clampNonneg (a : Expr) :
    a.clampNonneg.eval part extent = Max.max 0 (a.eval part extent) := by
  rw [clampNonneg, (eval_atLeast a (const 0)).mpr, max_comm]
  · rfl
  · cases a <;> simp +contextual [same, eval]

/-! ### Rounding alike -/

/-- Every factor is in lowest terms. -/
def Reduced (e : Expr) : Prop := ∀ r ∈ e.factors, r.Canonical

instance (e : Expr) : Decidable e.Reduced := inferInstanceAs (Decidable (∀ r ∈ _, _))

/-- Factors of equal value round the same way, unless they are integers. -/
def RoundAlike (a b : Expr) : Prop :=
  ∀ r ∈ a.factors, ∀ s ∈ b.factors, r.sameValue s = true → r.rounding = s.rounding ∨ r.den = 1

instance (a b : Expr) : Decidable (RoundAlike a b) :=
  inferInstanceAs (Decidable (∀ r ∈ _, ∀ s ∈ _, _ → _))

theorem RoundAlike.mono {a' b' : Expr} (h : RoundAlike a b) (ha : a'.factors ⊆ a.factors)
    (hb : b'.factors ⊆ b.factors) : RoundAlike a' b' :=
  fun r hr s hs => h r (ha hr) s (hb hs)

theorem RoundAlike.eval_eq (h : RoundAlike a b) (ha : a.Reduced) (hb : b.Reduced)
    (hsame : a.same b = true) : a.eval part extent = b.eval part extent := by
  refine eval_eq_of_same (fun r hr s hs hvalue => ?_) hsame
  have hround := (h r hr s hs hvalue).imp_right (Or.inl (b := s.den = 1))
  exact Ratio.apply_congr (ha r hr).den_pos (hb s hs).den_pos hvalue hround

theorem RoundAlike.eval_atMost (h : RoundAlike a b) (ha : a.Reduced) (hb : b.Reduced) :
    (a.atMost b).eval part extent = Min.min (a.eval part extent) (b.eval part extent) :=
  (Expr.eval_atMost a b).mpr fun hsame => (h.eval_eq ha hb hsame).le

theorem RoundAlike.eval_atLeast (h : RoundAlike a b) (ha : a.Reduced) (hb : b.Reduced) :
    (a.atLeast b).eval part extent = Max.max (a.eval part extent) (b.eval part extent) :=
  (Expr.eval_atLeast a b).mpr fun hsame => (h.eval_eq ha hb hsame).ge

/-! ### Rebuilt trees -/

theorem factors_mapBy (a : Expr) (map : Affine) : (a.mapBy map).factors ⊆ map.factor :: a.factors := by
  unfold mapBy
  split_ifs
  · exact List.subset_cons_self _ _
  · cases a <;> simp [factors]

theorem factors_plus (a b : Expr) : (a.plus b).factors ⊆ a.factors ++ b.factors := by
  unfold plus
  split <;> simp [factors]

theorem factors_minus (a b : Expr) : (a.minus b).factors ⊆ a.factors ++ b.factors := by
  unfold minus
  split <;> simp [factors]

theorem factors_atMost (a b : Expr) : (a.atMost b).factors ⊆ a.factors ++ b.factors := by
  unfold atMost
  split
  · simp [factors]
  · split_ifs <;> simp [factors]

theorem factors_atLeast (a b : Expr) : (a.atLeast b).factors ⊆ a.factors ++ b.factors := by
  unfold atLeast
  split
  · simp [factors]
  · split_ifs <;> simp [factors]

theorem factors_rebuild (e : Expr) : e.rebuild.factors ⊆ e.factors := by
  have hpair {a b a' b' : Expr} (ha : a'.factors ⊆ a.factors) (hb : b'.factors ⊆ b.factors) :
      a'.factors ++ b'.factors ⊆ a.factors ++ b.factors :=
    List.append_subset.mpr ⟨List.subset_append_of_subset_left _ ha,
      List.subset_append_of_subset_right _ hb⟩
  induction e with
  | const n => exact List.Subset.refl _
  | leaf l => exact List.Subset.refl _
  | affine inner map ih => exact List.Subset.trans (factors_mapBy _ _) (List.cons_subset_cons _ ih)
  | add a b iha ihb => exact List.Subset.trans (factors_plus _ _) (hpair iha ihb)
  | sub a b iha ihb => exact List.Subset.trans (factors_minus _ _) (hpair iha ihb)
  | min a b iha ihb => exact List.Subset.trans (factors_atMost _ _) (hpair iha ihb)
  | max a b iha ihb => exact List.Subset.trans (factors_atLeast _ _) (hpair iha ihb)

/-- No value of the tree or below it leaves the word. -/
def InWords (part : Int) (extent : DataId → Int) (e : Expr) : Prop :=
  ∀ s ∈ e.subtrees, FitsWord (s.eval part extent)

instance (part : Int) (extent : DataId → Int) (e : Expr) : Decidable (e.InWords part extent) :=
  inferInstanceAs (Decidable (∀ s ∈ _, _))

theorem InWords.self (h : e.InWords part extent) : FitsWord (e.eval part extent) := by
  refine h e ?_
  cases e <;> simp [subtrees]

/-- The value that the operators of words give. -/
def evalWord (part : Int) (extent : DataId → Int) : Expr → Int
  | const n => n
  | leaf .partIndex => part
  | leaf (.extent data) => extent data
  | affine inner map => map.factor.apply (addWord (inner.evalWord part extent) map.offset)
  | add a b => addWord (a.evalWord part extent) (b.evalWord part extent)
  | sub a b => subWord (a.evalWord part extent) (b.evalWord part extent)
  | min a b => Min.min (a.evalWord part extent) (b.evalWord part extent)
  | max a b => Max.max (a.evalWord part extent) (b.evalWord part extent)

/-- As long as no value leaves the word, not even between the two steps of an affine map, the
operators of words compute the value. -/
theorem evalWord_eq_eval (h : e.InWords part extent)
    (hoffset : ∀ inner map, affine inner map ∈ e.subtrees → FitsWord (inner.eval part extent + map.offset)) :
    e.evalWord part extent = e.eval part extent := by
  induction e with
  | const n => rfl
  | leaf l => cases l <;> rfl
  | affine inner map ih =>
    have hsub : inner.subtrees ⊆ (affine inner map).subtrees := List.subset_cons_self _ _
    rw [evalWord, ih (fun s hs => h s (hsub hs)) fun i m hm => hoffset i m (hsub hm),
      addWord_of_fits (hoffset inner map List.mem_cons_self)]
    rfl
  | add a b iha ihb | sub a b iha ihb | min a b iha ihb | max a b iha ihb =>
    have hvalue := h.self
    have hleft : a.subtrees ⊆ a.subtrees ++ b.subtrees := List.subset_append_left _ _
    have hright : b.subtrees ⊆ a.subtrees ++ b.subtrees := List.subset_append_right _ _
    have ha := iha (fun s hs => h s (List.mem_cons_of_mem _ (hleft hs)))
      fun i m hm => hoffset i m (List.mem_cons_of_mem _ (hleft hm))
    have hb := ihb (fun s hs => h s (List.mem_cons_of_mem _ (hright hs)))
      fun i m hm => hoffset i m (List.mem_cons_of_mem _ (hright hm))
    rw [evalWord, ha, hb]
    first
      | exact addWord_of_fits hvalue
      | exact subWord_of_fits hvalue
      | rfl

/-- What a tree needs for the building operations to keep its value. -/
structure Sound (part : Int) (extent : DataId → Int) (e : Expr) : Prop where
  inWords : e.InWords part extent
  reduced : e.Reduced
  alike : RoundAlike e e

theorem Sound.below {a : Expr} (h : e.Sound part extent) (hs : a.subtrees ⊆ e.subtrees)
    (hf : a.factors ⊆ e.factors) : a.Sound part extent :=
  ⟨fun s hmem => h.inWords s (hs hmem), fun r hmem => h.reduced r (hf hmem), h.alike.mono hf hf⟩

section Operands

variable (h : e.Sound part extent) (hs : a.subtrees ++ b.subtrees ⊆ e.subtrees)
  (hf : a.factors ++ b.factors ⊆ e.factors)

include h hs hf

theorem Sound.operands : a.Sound part extent ∧ b.Sound part extent := by
  obtain ⟨hsa, hsb⟩ := List.append_subset.mp hs
  obtain ⟨hfa, hfb⟩ := List.append_subset.mp hf
  exact ⟨h.below hsa hfa, h.below hsb hfb⟩

omit hs in
/-- The rebuilt operands round alike too, since rebuilding brings in no factor. -/
theorem Sound.rebuilt :
    RoundAlike a.rebuild b.rebuild ∧ a.rebuild.Reduced ∧ b.rebuild.Reduced := by
  obtain ⟨hfa, hfb⟩ := List.append_subset.mp hf
  have ha := List.Subset.trans (factors_rebuild a) hfa
  have hb := List.Subset.trans (factors_rebuild b) hfb
  exact ⟨h.alike.mono ha hb, fun r hr => h.reduced r (ha hr), fun r hr => h.reduced r (hb hr)⟩

end Operands

theorem eval_rebuild (h : e.Sound part extent) :
    e.rebuild.eval part extent = e.eval part extent := by
  induction e with
  | const n => rfl
  | leaf l => rfl
  | affine inner map ih =>
    have hinner := h.below (a := inner) (List.subset_cons_self _ _) (List.subset_cons_self _ _)
    have hden := (h.reduced map.factor List.mem_cons_self).den_pos
    rw [rebuild, eval_mapBy hden (ih hinner ▸ hinner.inWords.self), ih hinner, eval]
  | add a b iha ihb =>
    obtain ⟨ha, hb⟩ := h.operands (List.subset_cons_self _ _) (List.Subset.refl _)
    rw [rebuild, eval_plus, iha ha, ihb hb, eval]
  | sub a b iha ihb =>
    obtain ⟨ha, hb⟩ := h.operands (List.subset_cons_self _ _) (List.Subset.refl _)
    rw [rebuild, eval_minus, iha ha, ihb hb, eval]
  | min a b iha ihb =>
    obtain ⟨ha, hb⟩ := h.operands (List.subset_cons_self _ _) (List.Subset.refl _)
    obtain ⟨halike, hra, hrb⟩ := h.rebuilt (List.Subset.refl _)
    rw [rebuild, halike.eval_atMost hra hrb, iha ha, ihb hb, eval]
  | max a b iha ihb =>
    obtain ⟨ha, hb⟩ := h.operands (List.subset_cons_self _ _) (List.Subset.refl _)
    obtain ⟨halike, hra, hrb⟩ := h.rebuilt (List.Subset.refl _)
    rw [rebuild, halike.eval_atLeast hra hrb, iha ha, ihb hb, eval]

/-! ### The operations together -/

/-- The building operations denote the operations they are named for, as long as the values are
words. A minimum does so exactly if the right operand is not below the left one where they
count as equal, and a maximum if it is not above; operands whose factors round alike are such,
and trees with such factors have the values of the trees built without folding. -/
theorem building_keeps_values (part : Int) (extent : DataId → Int) :
    (∀ (a : Expr) (map : Affine), map.factor.Canonical → FitsWord (a.eval part extent) →
      (a.mapBy map).eval part extent = map.apply (a.eval part extent)) ∧
    (∀ (a : Expr) (k : Int), FitsWord (k * a.eval part extent) →
      (a.scaled k).eval part extent = k * a.eval part extent) ∧
    (∀ a b : Expr, (a.plus b).eval part extent = a.eval part extent + b.eval part extent) ∧
    (∀ a b : Expr, (a.minus b).eval part extent = a.eval part extent - b.eval part extent) ∧
    (∀ a : Expr, a.clampNonneg.eval part extent = Max.max 0 (a.eval part extent)) ∧
    (∀ a b : Expr,
      ((a.atMost b).eval part extent = Min.min (a.eval part extent) (b.eval part extent) ↔
        (a.same b = true → a.eval part extent ≤ b.eval part extent)) ∧
      ((a.atLeast b).eval part extent = Max.max (a.eval part extent) (b.eval part extent) ↔
        (a.same b = true → b.eval part extent ≤ a.eval part extent)) ∧
      (a.Reduced → b.Reduced → RoundAlike a b →
        (a.atMost b).eval part extent = Min.min (a.eval part extent) (b.eval part extent) ∧
        (a.atLeast b).eval part extent = Max.max (a.eval part extent) (b.eval part extent))) ∧
    ∀ e : Expr, e.Reduced → RoundAlike e e → e.InWords part extent →
      e.rebuild.eval part extent = e.eval part extent :=
  ⟨fun _ _ hmap ha => eval_mapBy hmap.den_pos ha, fun _ _ hk => eval_scaled hk, eval_plus, eval_minus,
    eval_clampNonneg, fun a b => ⟨eval_atMost a b, eval_atLeast a b, fun ha hb halike =>
      ⟨halike.eval_atMost ha hb, halike.eval_atLeast ha hb⟩⟩,
    fun _ hr halike hw => eval_rebuild ⟨hw, hr, halike⟩⟩

/-- Half of the part index. -/
def half (rounding : Rounding) : Expr := affine partIndex ⟨0, ⟨1, 2, rounding⟩⟩

/-- The minimum of a half rounded up and the same half rounded down is folded into the one
rounded up, and their maximum into the one rounded down. -/
theorem folded_halves_differ :
    (half .up).Reduced ∧ (half .down).Reduced ∧
    ((half .up).atMost (half .down)).eval 1 (fun _ => 0) = 1 ∧
    Min.min ((half .up).eval 1 fun _ => 0) ((half .down).eval 1 fun _ => 0) = 0 ∧
    ((half .down).atLeast (half .up)).eval 1 (fun _ => 0) = 0 ∧
    Max.max ((half .down).eval 1 fun _ => 0) ((half .up).eval 1 fun _ => 0) = 1 := by
  decide +kernel

/-- The half rounded up, at most three more than two thirds rounded down of the index before,
less nothing and at least zero. -/
def staggered : Expr :=
  max (sub (min (half .up) (add (affine partIndex ⟨-1, ⟨2, 3, .down⟩⟩) (const 3))) (const 0))
    (min (affine (const 0) (.scale 5)) (const 0))

/-- Halves and thirds may round differently: the steps that do nothing are dropped, and the
value of part 7 stays. -/
theorem building_keeps_staggered :
    staggered.Reduced ∧ RoundAlike staggered staggered ∧ staggered.InWords 7 (fun _ => 0) ∧
    staggered.rebuild = max (min (half .up) (add (affine partIndex ⟨-1, ⟨2, 3, .down⟩⟩) (const 3)))
      (const 0) ∧
    staggered.rebuild.eval 7 (fun _ => 0) = staggered.eval 7 (fun _ => 0) ∧
    ((half .down).scaled 4).eval 7 (fun _ => 0) = 4 * (half .down).eval 7 (fun _ => 0) ∧
    ((half .up).mapBy .identity).eval 7 (fun _ => 0) = 4 := by
  obtain ⟨hmap, hscaled, -, -, -, -, hrebuild⟩ := building_keeps_values 7 fun _ => 0
  have hreduced : staggered.Reduced := by decide +kernel
  have halike : RoundAlike staggered staggered := by decide +kernel
  have hwords : staggered.InWords 7 fun _ => 0 := by decide +kernel
  refine ⟨hreduced, halike, hwords, by decide +kernel, hrebuild _ hreduced halike hwords,
    hscaled _ 4 (by decide +kernel), ?_⟩
  rw [hmap _ _ (by decide +kernel) (by decide +kernel)]
  decide +kernel

end Geometry.Expr

end StencilTiling
