import StencilTiling.Analysis.Coordinates
import StencilTiling.Proofs.Geometry.Building

/-! The values coordinate expressions denote. Two trees count as equal when their
factors have equal values, whichever way these round; folding equal operands is
therefore sound only among expressions that all round the same way. Every
expression of a coordinate table rounds up, and for those each building operation
denotes the arithmetic operation it is named for. -/

namespace StencilTiling

open Arith

/-! ### Ratios that round up -/

/-- Multiples are rounded up, or need no rounding. -/
structure Ratio.RoundsUp (r : Ratio) : Prop where
  den_pos : 0 < r.den
  up : r.rounding = .up ∨ r.den = 1

theorem Ratio.RoundsUp.apply_eq {r : Ratio} (h : r.RoundsUp) (x : Int) :
    r.apply x = wrap64 (ceilDiv (x * r.num) r.den) := by
  unfold Ratio.apply
  rcases h.up with hr | hd
  · rw [hr]
  · rw [hd, ceilDiv_one]
    cases r.rounding <;> simp [floorDiv]

/-- Equal fractions have equal rounded-up multiples. -/
theorem Ratio.RoundsUp.apply_congr {r s : Ratio} (hr : r.RoundsUp) (hs : s.RoundsUp)
    (h : r.sameValue s = true) (x : Int) : r.apply x = s.apply x := by
  refine Ratio.apply_congr hr.den_pos hs.den_pos h ?_ x
  rcases hr.up with hup | hone
  · exact hs.up.imp (fun hup' => hup.trans hup'.symm) .inr
  · exact .inr (.inl hone)

namespace Geometry.Expr

/-- Every factor in the tree rounds up. -/
def RoundsUp : Expr → Prop
  | const _ => True
  | leaf _ => True
  | affine inner map => inner.RoundsUp ∧ map.factor.RoundsUp
  | add a b | sub a b | min a b | max a b => a.RoundsUp ∧ b.RoundsUp

theorem roundsUp_iff {e : Expr} : e.RoundsUp ↔ ∀ r ∈ e.factors, r.RoundsUp := by
  induction e with
  | const n => simp [RoundsUp, factors]
  | leaf l => simp [RoundsUp, factors]
  | affine inner map ih => simp [RoundsUp, factors, ih, and_comm]
  | add a b iha ihb | sub a b iha ihb | min a b iha ihb | max a b iha ihb =>
    simp [RoundsUp, factors, iha, ihb, or_imp, forall_and]

/-- A tree with the factors of two others rounds up if they do. -/
theorem RoundsUp.of_subset {a b e : Expr} (ha : a.RoundsUp) (hb : b.RoundsUp)
    (h : e.factors ⊆ a.factors ++ b.factors) : e.RoundsUp :=
  roundsUp_iff.mpr fun r hr => (List.mem_append.mp (h hr)).elim (roundsUp_iff.mp ha r)
    (roundsUp_iff.mp hb r)

/-- Among trees that round up, equal trees have equal values. -/
theorem RoundsUp.eval_eq {part : Int} {extent : DataId → Int} {a b : Expr} (ha : a.RoundsUp)
    (hb : b.RoundsUp) (h : a.same b = true) : a.eval part extent = b.eval part extent :=
  eval_eq_of_same
    (fun r hr s hs => (roundsUp_iff.mp ha r hr).apply_congr (roundsUp_iff.mp hb s hs)) h

/-- The expression rounds up and has the given value for a part. -/
structure Denotes (part : Int) (extent : DataId → Int) (e : Expr) (value : Int) : Prop where
  roundsUp : e.RoundsUp
  eval_eq : e.eval part extent = value

namespace Denotes

variable {part : Int} {extent : DataId → Int} {a b e : Expr} {x y : Int}

theorem const (n : Int) : Denotes part extent (.const n) n := ⟨trivial, rfl⟩

theorem partIndex : Denotes part extent .partIndex part := ⟨trivial, rfl⟩

theorem extent_leaf (d : DataId) : Denotes part extent (.extent d) (extent d) := ⟨trivial, rfl⟩

theorem plus (ha : Denotes part extent a x) (hb : Denotes part extent b y) :
    Denotes part extent (a.plus b) (x + y) :=
  ⟨ha.roundsUp.of_subset hb.roundsUp (factors_plus a b), by rw [eval_plus, ha.eval_eq, hb.eval_eq]⟩

theorem minus (ha : Denotes part extent a x) (hb : Denotes part extent b y) :
    Denotes part extent (a.minus b) (x - y) :=
  ⟨ha.roundsUp.of_subset hb.roundsUp (factors_minus a b), by rw [eval_minus, ha.eval_eq, hb.eval_eq]⟩

theorem atMost (ha : Denotes part extent a x) (hb : Denotes part extent b y) :
    Denotes part extent (a.atMost b) (Min.min x y) := by
  refine ⟨ha.roundsUp.of_subset hb.roundsUp (factors_atMost a b), ?_⟩
  rw [(eval_atMost a b).mpr fun h => (ha.roundsUp.eval_eq hb.roundsUp h).le, ha.eval_eq, hb.eval_eq]

theorem atLeast (ha : Denotes part extent a x) (hb : Denotes part extent b y) :
    Denotes part extent (a.atLeast b) (Max.max x y) := by
  refine ⟨ha.roundsUp.of_subset hb.roundsUp (factors_atLeast a b), ?_⟩
  rw [(eval_atLeast a b).mpr fun h => (ha.roundsUp.eval_eq hb.roundsUp h).ge, ha.eval_eq, hb.eval_eq]

theorem clampNonneg (ha : Denotes part extent a x) :
    Denotes part extent a.clampNonneg (Max.max x 0) :=
  ha.atLeast (.const 0)

theorem mapBy {map : Affine} (hm : map.factor.RoundsUp) (h : Denotes part extent e x)
    (hx : map.isNeutral = true → map.apply x = x) :
    Denotes part extent (e.mapBy map) (map.apply x) := by
  obtain ⟨he, rfl⟩ := h
  unfold Expr.mapBy
  split_ifs with hn
  · exact ⟨he, (hx hn).symm⟩
  · cases e with
    | const n => exact ⟨trivial, rfl⟩
    | _ => exact ⟨⟨he, hm⟩, rfl⟩

/-- A multiple that stays in the word is exact. -/
theorem scaled {c : Int} (h : Denotes part extent e x) (hx : FitsWord (x * c)) :
    Denotes part extent (e.scaled c) (x * c) := by
  have happly : (Affine.scale c).apply x = x * c := by
    rw [Affine.apply_scale, mul_comm, wrap64_of_fits hx]
  rw [← happly]
  refine h.mapBy ⟨by simp [Affine.scale, Ratio.ofInt], .inr rfl⟩ fun hn => ?_
  have hc : c = 1 := by simpa [Affine.isNeutral, Affine.scale, Ratio.isOne, Ratio.ofInt] using hn
  rw [happly, hc, mul_one]

/-- The rounded-up quotient of a word is exact. -/
theorem ceilBy {d : Int} (h : Denotes part extent e x) (hd : 0 < d) (h0 : 0 ≤ x)
    (hx : x ≤ maxWord) : Denotes part extent (Analysis.ceilBy e d) (ceilDiv x d) := by
  have hmax : Max.max d 1 = d := by omega
  have hr : (⟨1, d, .up⟩ : Ratio).RoundsUp := ⟨hd, .inl rfl⟩
  have happly : (⟨0, ⟨1, d, .up⟩⟩ : Affine).apply x = ceilDiv x d := by
    have := ceilDiv_le_self hd h0
    rw [Affine.apply, hr.apply_eq, mul_one, add_zero,
      wrap64_of_fits (fitsWord_of_nonneg (ceilDiv_nonneg hd h0) (by omega))]
  rw [Analysis.ceilBy, hmax, ← happly]
  refine h.mapBy hr fun hn => ?_
  have h1 : 1 = d := by simpa [Affine.isNeutral, Ratio.isOne] using hn
  rw [happly, ← h1, ceilDiv_one]

end Denotes

end Geometry.Expr

end StencilTiling
