import Mathlib.Data.Rat.Floor
import Mathlib.Order.Bounds.Basic
import StencilTiling.Proofs.Pointwise
import StencilTiling.Proofs.Ratio

/-! Windows rounded outward. In the order of inclusion, rounding to a grain gives the least
window on the grid of the grain that holds the window, and scaling the least window that holds
the rational image of it. A window of at least one stride is what exceeds the stride and the
stride itself. All operations treat missing dimensions as the index zero. -/

namespace StencilTiling

/-! ### Inclusion -/

namespace Span

attribute [ext] Span

/-- Inclusion: the larger span begins no later and ends no earlier. -/
instance : PartialOrder Span where
  le s t := t.first ≤ s.first ∧ s.last ≤ t.last
  le_refl s := ⟨le_rfl, le_rfl⟩
  le_trans s t u h h' := ⟨h'.1.trans h.1, h.2.trans h'.2⟩
  le_antisymm s t h h' := Span.ext (le_antisymm h'.1 h.1) (le_antisymm h.2 h'.2)

theorem le_def {s t : Span} : s ≤ t ↔ t.first ≤ s.first ∧ s.last ≤ t.last := Iff.rfl

/-- A span that is not empty is included where its indices are. -/
theorem le_iff_indices {s t : Span} (h : s.first ≤ s.last) :
    s ≤ t ↔ ∀ x : Int, s.first ≤ x → x ≤ s.last → t.first ≤ x ∧ x ≤ t.last := by
  constructor
  · exact fun hst x hx hx' => ⟨hst.1.trans hx, hx'.trans hst.2⟩
  · exact fun hall => ⟨(hall s.first le_rfl h).1, (hall s.last h le_rfl).2⟩

/-- The span holds the ends of another, multiplied by a ratio. -/
def HoldsScaled (s : Span) (ratio : ℚ) (t : Span) : Prop :=
  s.first ≤ t.first * ratio ∧ t.last * ratio ≤ s.last

/-- If a span is not empty, with its ends its whole image is held. -/
theorem holdsScaled_iff_image {s t : Span} {ratio : ℚ} (hratio : 0 ≤ ratio) (h : t.first ≤ t.last) :
    s.HoldsScaled ratio t ↔ ∀ x : ℚ, t.first ≤ x → x ≤ t.last → s.first ≤ x * ratio ∧ x * ratio ≤ s.last := by
  have hends : (t.first : ℚ) ≤ t.last := by exact_mod_cast h
  constructor
  · intro hst x hx hx'
    exact ⟨hst.1.trans (mul_le_mul_of_nonneg_right hx hratio),
      (mul_le_mul_of_nonneg_right hx' hratio).trans hst.2⟩
  · exact fun hall => ⟨(hall _ le_rfl hends).1, (hall _ hends le_rfl).2⟩

end Span

namespace Window

open Arith

/-! ### Rounding to a grain -/

/-- The spans with both ends on the grid of a grain. -/
def OnGrid (grain : Size) (d : Nat) (s : Span) : Prop :=
  pitch grain d ∣ s.first ∧ pitch grain d ∣ s.last

section Inflate

variable {v w : Window} {grain : Size} {d : Nat}

/-- Rounding outward gives the least span on the grid. -/
theorem isLeast_inflate (h : w.RoundsInWord grain d) :
    IsLeast {s | w.span d ≤ s ∧ OnGrid grain d s} ((w.inflate grain).span d) := by
  have hp := pitch_pos grain d
  rw [span_inflate_of_fits h]
  refine ⟨⟨⟨Int.ediv_mul_le _ hp.ne', le_ceilDiv_mul hp⟩, Dvd.intro_left _ rfl, Dvd.intro_left _ rfl⟩, ?_⟩
  rintro s ⟨⟨hfirst, hlast⟩, ⟨p, hp'⟩, q, hq⟩
  rw [Span.le_def, hp', hq, mul_comm _ p, mul_comm _ q]
  constructor
  · refine mul_le_mul_of_nonneg_right ((Int.le_ediv_iff_mul_le hp).mpr ?_) hp.le
    rwa [mul_comm, ← hp']
  · refine mul_le_mul_of_nonneg_right ((ceilDiv_le_iff hp).mpr ?_) hp.le
    rwa [mul_comm, ← hq]

/-- A span on the grid stays. -/
theorem span_inflate_of_onGrid (h : w.RoundsInWord grain d) (hgrid : OnGrid grain d (w.span d)) :
    (w.inflate grain).span d = w.span d :=
  le_antisymm ((isLeast_inflate h).2 ⟨le_rfl, hgrid⟩) (isLeast_inflate h).1.1

/-- What was rounded can be rounded again. -/
theorem RoundsInWord.inflate (h : w.RoundsInWord grain d) :
    (w.inflate grain).RoundsInWord grain d := by
  have hp := pitch_pos grain d
  have hle := le_ceilDiv_mul (n := w.last d) hp
  have hspan := span_inflate_of_fits h
  have hfirst : (w.inflate grain).first d = floorDiv (w.first d) (pitch grain d) * pitch grain d :=
    congrArg Span.first hspan
  have hlast : (w.inflate grain).last d = ceilDiv (w.last d) (pitch grain d) * pitch grain d :=
    congrArg Span.last hspan
  refine ⟨h.magnitude, ?_, ?_, ?_⟩
  · obtain ⟨-, hmax⟩ := h.negated
    obtain ⟨hmin, hup⟩ := h.up
    rw [hlast]
    simp only [FitsWord, minWord, maxWord] at hmax hup ⊢
    omega
  · rw [hfirst, floorDiv, Int.mul_ediv_cancel _ hp.ne']
    exact h.down
  · rw [hlast, ceilDiv_mul_self hp]
    exact h.up

theorem inflate_inflate (h : ∀ d < w.rank, w.RoundsInWord grain d) :
    (w.inflate grain).inflate grain = w.inflate grain := by
  have hrank : (w.inflate grain).rank = w.rank := by
    simp only [Window.inflate, rank_mapUpTo, Nat.max_zero]
  refine ext_span (by rw [Window.inflate, rank_mapUpTo, Nat.max_zero]) fun d => ?_
  by_cases hd : d < w.rank
  · exact span_inflate_of_onGrid (h d hd).inflate (isLeast_inflate (h d hd)).1.2
  · rw [span_of_rank_le (hrank.trans_le (Nat.le_of_not_lt hd)), span_of_rank_le]
    rw [Window.inflate, rank_mapUpTo, Nat.max_zero, hrank]
    exact Nat.le_of_not_lt hd

theorem inflate_mono (hv : v.RoundsInWord grain d) (hw : w.RoundsInWord grain d)
    (h : v.span d ≤ w.span d) : (v.inflate grain).span d ≤ (w.inflate grain).span d :=
  (isLeast_inflate hv).2 ⟨h.trans (isLeast_inflate hw).1.1, (isLeast_inflate hw).1.2⟩

/-- Rounding to multiples is division rounded outward, and multiplication. -/
theorem span_inflate_eq_mul (h : w.RoundsInWord grain d) :
    (w.inflate grain).span d = ⟨(w.divOutward grain).first d * pitch grain d,
      (w.divOutward grain).last d * pitch grain d⟩ := by
  have hspan := span_divOutward_of_fits h
  simp only [first, last] at hspan ⊢
  rw [span_inflate_of_fits h, hspan]
  rfl

end Inflate

/-! ### Scaling -/

section Scale

variable {w : Window} {num den : Size} {d : Nat} (h : w.ScalesInWord num d) (hden : 0 < den.get d)

include h hden

/-- The ends of a scaled window are those of the image, rounded outward. -/
theorem span_scale_eq_floor :
    (w.scale num den).span d =
      ⟨⌊w.first d * ((num.get d : ℚ) / den.get d)⌋, ⌈w.last d * ((num.get d : ℚ) / den.get d)⌉⟩ := by
  rw [span_scale_of_fits h hden, floorDiv_eq_floor hden, ceilDiv_eq_ceil hden, Int.cast_mul,
    Int.cast_mul, mul_div_assoc, mul_div_assoc]

/-- Scaling gives the least span that holds the rational image. -/
theorem isLeast_scale :
    IsLeast {s : Span | s.HoldsScaled (num.get d / den.get d) (w.span d)} ((w.scale num den).span d) := by
  rw [span_scale_eq_floor h hden]
  exact ⟨⟨Int.floor_le _, Int.le_ceil _⟩, fun s hs => ⟨Int.le_floor.mpr hs.1, Int.ceil_le.mpr hs.2⟩⟩

/-- Nothing is rounded where the image of the ends is whole. -/
theorem scale_exact (hfirst : den.get d ∣ w.first d * num.get d)
    (hlast : den.get d ∣ w.last d * num.get d) :
    ((w.scale num den).first d : ℚ) = w.first d * (num.get d / den.get d) ∧
      ((w.scale num den).last d : ℚ) = w.last d * (num.get d / den.get d) := by
  have hwhole {x : Int} (hx : den.get d ∣ x * num.get d) :
      ∃ c : Int, (x : ℚ) * (num.get d / den.get d) = c := by
    obtain ⟨c, hc⟩ := hx
    refine ⟨c, ?_⟩
    have hne : (den.get d : ℚ) ≠ 0 := by exact_mod_cast hden.ne'
    rw [← mul_div_assoc, div_eq_iff hne, mul_comm (c : ℚ)]
    exact_mod_cast hc
  obtain ⟨p, hp⟩ := hwhole hfirst
  obtain ⟨q, hq⟩ := hwhole hlast
  rw [first, last, span_scale_eq_floor h hden]
  simp only [hp, hq, Int.floor_intCast, Int.ceil_intCast, and_self]

end Scale

/-! ### Strides -/

theorem span_covering (size : Size) (d : Nat) : (covering size).span d = ⟨0, subWord (size.get d) 1⟩ :=
  List.getD_map size.dims 1 fun n : Int => (⟨0, subWord n 1⟩ : Span)

theorem rank_covering (size : Size) : (covering size).rank = size.rank := List.length_map _

/-- A window with words at its ends has a stride, and what exceeds it is counted in words. -/
structure Strided (w : Window) (stride : Size) (d : Nat) : Prop where
  first : FitsWord (w.first d)
  last : FitsWord (w.last d)
  covered : FitsWord (stride.get d - 1)
  longer : stride.get d ≤ w.last d - w.first d + 1
  excess : FitsWord (w.last d - w.first d + 1 - stride.get d)
  ending : FitsWord (w.last d + 1 - stride.get d)

/-- What exceeds one stride and the stride make up the window. -/
theorem subSize_add_covering {w : Window} {stride : Size}
    (h : ∀ d < max w.rank stride.rank, w.Strided stride d) :
    (w.subSize stride).add (covering stride) = w.padTo stride.rank := by
  have hrank : ((w.subSize stride).add (covering stride)).rank = max w.rank stride.rank := by
    simp only [add, subSize, rank_mapUpTo, rank_covering]
    omega
  refine ext_span (hrank.trans (rank_padTo w _).symm) fun d => ?_
  by_cases hd : d < max w.rank stride.rank
  · have hs := h d hd
    have hsum : w.last d + 1 - stride.get d + (stride.get d - 1) = w.last d := by ring
    have hexcess := span_subSize_of_fits hs.longer hs.excess hs.ending
    have hstride := (span_covering stride d).trans (by rw [subWord_of_fits hs.covered])
    rw [span_padTo]
    simp only [span_add, first, last] at hexcess hstride ⊢
    rw [hexcess, hstride]
    refine Span.ext ?_ ?_
    · exact (addWord_of_fits ((add_zero (w.first d)).symm ▸ hs.first)).trans (add_zero _)
    · exact (addWord_of_fits (hsum.symm ▸ hs.last)).trans hsum
  · rw [span_of_rank_le (by omega), span_padTo, span_of_rank_le (by omega)]

/-! ### Missing dimensions -/

theorem padTo_of_le {w : Window} {rank : Nat} (h : rank ≤ w.rank) : w.padTo rank = w := by
  rw [padTo, Nat.sub_eq_zero_of_le h, List.replicate_zero, List.append_nil]

theorem union_padTo (v w : Window) (m n : Nat) :
    (v.padTo m).union (w.padTo n) = (v.union w).padTo (max m n) := by
  refine ext_span ?_ fun d => by simp only [span_padTo, span_union, first_padTo, last_padTo]
  simp only [union, rank_mapUpTo, rank_padTo]
  omega

theorem add_padTo (v w : Window) (m n : Nat) :
    (v.padTo m).add (w.padTo n) = (v.add w).padTo (max m n) := by
  refine ext_span ?_ fun d => by simp only [span_padTo, span_add, first_padTo, last_padTo]
  simp only [add, rank_mapUpTo, rank_padTo]
  omega

theorem subSize_padTo (w : Window) (stride : Size) (m n : Nat) :
    (w.padTo m).subSize (stride.padTo n) = (w.subSize stride).padTo (max m n) := by
  refine ext_span ?_ fun d => by
    simp only [span_padTo, span_subSize, first_padTo, last_padTo, Size.get_padTo]
  simp only [subSize, rank_mapUpTo, rank_padTo, Size.rank_padTo]
  omega

theorem unit_padTo (grain : Size) (n d : Nat) : unit (grain.padTo n) d = unit grain d := by
  rw [unit, unit, Size.get_padTo]

theorem inflate_padTo (w : Window) (grain : Size) (m n : Nat) :
    (w.padTo m).inflate (grain.padTo n) = (w.inflate grain).padTo m := by
  refine ext_span ?_ fun d => by
    simp only [span_padTo, span_inflate, first_padTo, last_padTo, unit_padTo]
  simp only [inflate, rank_mapUpTo, rank_padTo]
  omega

theorem divOutward_padTo (w : Window) (grain : Size) (m n : Nat) :
    (w.padTo m).divOutward (grain.padTo n) = (w.divOutward grain).padTo m := by
  refine ext_span ?_ fun d => by
    simp only [span_padTo, span_divOutward, first_padTo, last_padTo, unit_padTo]
  simp only [divOutward, rank_mapUpTo, rank_padTo]
  omega

theorem scale_padTo (w : Window) (num den : Size) (m n r : Nat) :
    (w.padTo m).scale (num.padTo n) (den.padTo r) = (w.scale num den).padTo m := by
  refine ext_span ?_ fun d => by
    simp only [span_padTo, span_scale, first_padTo, last_padTo, Size.get_padTo]
  simp only [scale, rank_mapUpTo, rank_padTo]
  omega

/-! ### Rounding is a closure -/

end Window

end StencilTiling
