import Mathlib.Data.List.GetD
import StencilTiling.Proofs.Arith
import StencilTiling.Window

/-! Sizes and windows act dimension by dimension. Past its last dimension a size
counts one element and a window is the index zero, and every operation respects
this, so the equations below hold in all dimensions. -/

namespace StencilTiling

/-- Defaults at the end of a list are found where they were missing. -/
theorem getD_append_replicate {α : Type} (l : List α) (n i : Nat) (a : α) :
    (l ++ List.replicate n a).getD i a = l.getD i a := by
  rcases Nat.lt_or_ge i l.length with hi | hi
  · exact List.getD_append _ _ _ _ hi
  · rw [List.getD_append_right _ _ _ _ hi, List.getD_eq_default _ _ hi, List.getD_eq_getElem?_getD,
      List.getElem?_getD_replicate_default_eq]

namespace Size

open Arith

@[simp] theorem get_ones (rank d : Nat) : (ones rank).get d = 1 := by
  simp only [get, ones, List.getD_eq_getElem?_getD, List.getElem?_replicate]
  split_ifs <;> rfl

theorem get_of_rank_le {s : Size} {d : Nat} (h : s.rank ≤ d) : s.get d = 1 := by
  simp only [get, rank] at *
  rw [List.getD_eq_default _ _ h]

theorem rank_ones (rank : Nat) : (ones rank).rank = rank := List.length_replicate

/-- Sizes of one rank that agree along every dimension. -/
theorem ext_get {a b : Size} (hrank : a.rank = b.rank) (hget : ∀ d, a.get d = b.get d) : a = b := by
  obtain ⟨as⟩ := a
  obtain ⟨bs⟩ := b
  refine congrArg Size.mk (List.ext_getElem hrank fun d ha hb => ?_)
  simpa [get, ha, hb] using hget d

/-- Ones in the dimensions that are missing up to a rank. -/
def padTo (s : Size) (rank : Nat) : Size := ⟨s.dims ++ List.replicate (rank - s.rank) 1⟩

@[simp] theorem get_padTo (s : Size) (rank d : Nat) : (s.padTo rank).get d = s.get d :=
  getD_append_replicate s.dims _ d 1

theorem rank_padTo (s : Size) (rank : Nat) : (s.padTo rank).rank = max s.rank rank := by
  simp only [padTo, Size.rank, List.length_append, List.length_replicate]
  omega

theorem get_zipWith {f : Int → Int → Int} (hf : f 1 1 = 1) (a b : Size) (d : Nat) :
    (zipWith f a b).get d = f (a.get d) (b.get d) := by
  by_cases h : d < max a.rank b.rank
  · simp [zipWith, get, h]
  · rw [get_of_rank_le (by simpa [zipWith, rank] using h), get_of_rank_le (by omega),
      get_of_rank_le (by omega), hf]

@[simp] theorem get_lcm (a b : Size) (d : Nat) : (a.lcm b).get d = lcmWord (a.get d) (b.get d) :=
  get_zipWith lcmWord_one_one a b d

theorem rank_lcm (a b : Size) : (a.lcm b).rank = max a.rank b.rank := by
  simp [lcm, zipWith, rank]

@[simp] theorem get_mul (a b : Size) (d : Nat) : (a.mul b).get d = mulWord (a.get d) (b.get d) :=
  get_zipWith rfl a b d

@[simp] theorem get_divCeil (a b : Size) (d : Nat) :
    (a.divCeil b).get d = ceilDivWord (a.get d) (b.get d) :=
  get_zipWith rfl a b d

theorem get_foldl_lcm (sizes : List Size) (s : Size) (d : Nat) :
    (sizes.foldl lcm s).get d = (sizes.map (·.get d)).foldl lcmWord (s.get d) := by
  induction sizes generalizing s with
  | nil => rfl
  | cons a rest ih => rw [List.foldl_cons, ih, get_lcm, List.map_cons, List.foldl_cons]

/-- Positive divisors divide everything. -/
theorem divCeil?_of_pos {b : Size} (hb : ∀ d, 0 < b.get d) (a : Size) :
    a.divCeil? b = .ok (a.divCeil b) := by
  refine if_pos fun d _ => ⟨(hb d).ne', fun h => ?_⟩
  have := hb d
  omega

end Size

namespace Window

open Arith

@[simp] theorem span_zero (rank d : Nat) : (zero rank).span d = .zero := by
  simp only [span, zero, List.getD_eq_getElem?_getD, List.getElem?_replicate]
  split_ifs <;> rfl

theorem first_zero (rank d : Nat) : (zero rank).first d = 0 := by
  rw [first, span_zero]
  rfl

theorem last_zero (rank d : Nat) : (zero rank).last d = 0 := by
  rw [last, span_zero]
  rfl

theorem span_of_rank_le {w : Window} {d : Nat} (h : w.rank ≤ d) : w.span d = .zero := by
  simp only [span, rank] at *
  rw [List.getD_eq_default _ _ h]

/-- Windows of one rank that agree along every dimension. -/
theorem ext_span {a b : Window} (hrank : a.rank = b.rank) (hspan : ∀ d, a.span d = b.span d) :
    a = b := by
  obtain ⟨as⟩ := a
  obtain ⟨bs⟩ := b
  refine congrArg Window.mk (List.ext_getElem hrank fun d ha hb => ?_)
  simpa [span, ha, hb] using hspan d

/-- The index zero in the dimensions that are missing up to a rank. -/
def padTo (w : Window) (rank : Nat) : Window := ⟨w.spans ++ List.replicate (rank - w.rank) .zero⟩

@[simp] theorem span_padTo (w : Window) (rank d : Nat) : (w.padTo rank).span d = w.span d :=
  getD_append_replicate w.spans _ d .zero

@[simp] theorem first_padTo (w : Window) (rank d : Nat) : (w.padTo rank).first d = w.first d :=
  congrArg Span.first (span_padTo w rank d)

@[simp] theorem last_padTo (w : Window) (rank d : Nat) : (w.padTo rank).last d = w.last d :=
  congrArg Span.last (span_padTo w rank d)

theorem rank_padTo (w : Window) (rank : Nat) : (w.padTo rank).rank = max w.rank rank := by
  simp only [padTo, Window.rank, List.length_append, List.length_replicate]
  omega

theorem rank_mapUpTo (w : Window) (rank : Nat) (f : Nat → Span → Span) :
    (w.mapUpTo rank f).rank = max w.rank rank := by
  simp [mapUpTo, Window.rank]

/-- A map that keeps the index zero past both ranks acts in every dimension. -/
theorem span_mapUpTo {w : Window} {rank : Nat} {f : Nat → Span → Span}
    (hf : ∀ d, w.rank ≤ d → rank ≤ d → f d .zero = .zero) (d : Nat) :
    (w.mapUpTo rank f).span d = f d (w.span d) := by
  by_cases h : d < max w.rank rank
  · simp [mapUpTo, span, h]
  · rw [span_of_rank_le (by simpa [mapUpTo, Window.rank] using h), span_of_rank_le (w := w) (by omega),
      hf d (by omega) (by omega)]

theorem length_eq_wrap64 (w : Window) (d : Nat) :
    w.length d = wrap64 (w.last d - w.first d + 1) :=
  wrap64_add_wrap64 _ 1

/-- No window is counted longer than it is. -/
theorem length_le {w : Window} (h : w.isEmpty = false) (d : Nat) :
    w.length d ≤ w.last d - w.first d + 1 := by
  have hordered : w.first d ≤ w.last d := by
    by_cases hd : d < w.rank
    · rw [first, last, span, List.getD_eq_getElem _ _ hd]
      have hall := List.any_eq_false.mp h _ (List.getElem_mem hd)
      simpa using hall
    · rw [first, last, span_of_rank_le (Nat.le_of_not_lt hd)]
      exact le_rfl
  rw [length_eq_wrap64]
  exact wrap64_le (by omega)

theorem span_union (a b : Window) (d : Nat) :
    (a.union b).span d = ⟨min (a.first d) (b.first d), max (a.last d) (b.last d)⟩ := by
  refine span_mapUpTo (fun d _ h => ?_) d
  simp [first, last, span_of_rank_le h, Span.zero]

theorem span_add (a b : Window) (d : Nat) :
    (a.add b).span d = ⟨addWord (a.first d) (b.first d), addWord (a.last d) (b.last d)⟩ := by
  refine span_mapUpTo (fun d _ h => ?_) d
  simp [first, last, span_of_rank_le h, Span.zero, addWord, wrap64]

theorem span_subSize (w : Window) (stride : Size) (d : Nat) :
    (w.subSize stride).span d = ⟨w.first d, addWord (w.first d)
      (clampNonneg (subWord (w.last d - w.first d + 1) (stride.get d)))⟩ := by
  have hspan : (w.subSize stride).span d =
      ⟨w.first d, addWord (w.first d) (clampNonneg (subWord (w.length d) (stride.get d)))⟩ := by
    refine span_mapUpTo (fun d _ h => ?_) d
    simp [Span.length, Span.zero, Size.get_of_rank_le h, clampNonneg, addWord, subWord, wrap64]
  rw [hspan, length_eq_wrap64, subWord, sub_eq_add_neg, wrap64_add_wrap64, ← sub_eq_add_neg]
  rfl

/-- The union reaches as far as the first window and as each of the others. -/
theorem foldl_union_bounds (windows : List Window) (w : Window) (d : Nat) :
    ((windows.foldl union w).first d ≤ w.first d ∧ w.last d ≤ (windows.foldl union w).last d) ∧
      ∀ x ∈ windows, (windows.foldl union w).first d ≤ x.first d ∧
        x.last d ≤ (windows.foldl union w).last d := by
  induction windows generalizing w with
  | nil => simp
  | cons x rest ih =>
    obtain ⟨⟨hfirst, hlast⟩, hrest⟩ := ih (w.union x)
    have hspan := span_union w x d
    have hf : (w.union x).first d = min (w.first d) (x.first d) := congrArg Span.first hspan
    have hl : (w.union x).last d = max (w.last d) (x.last d) := congrArg Span.last hspan
    rw [hf] at hfirst
    rw [hl] at hlast
    rw [List.foldl_cons, List.forall_mem_cons]
    exact ⟨⟨hfirst.trans (min_le_left _ _), (le_max_left _ _).trans hlast⟩,
      ⟨hfirst.trans (min_le_right _ _), (le_max_right _ _).trans hlast⟩, hrest⟩

/-- The union reaches no further than what holds the first window and all others. -/
theorem foldl_union_least {windows : List Window} {w : Window} {d : Nat} {first last : Int}
    (hw : first ≤ w.first d ∧ w.last d ≤ last)
    (hall : ∀ x ∈ windows, first ≤ x.first d ∧ x.last d ≤ last) :
    first ≤ (windows.foldl union w).first d ∧ (windows.foldl union w).last d ≤ last := by
  induction windows generalizing w with
  | nil => exact hw
  | cons x rest ih =>
    obtain ⟨hx, hrest⟩ := List.forall_mem_cons.mp hall
    refine ih ?_ hrest
    have hspan := span_union w x d
    rw [show (w.union x).first d = min (w.first d) (x.first d) from congrArg Span.first hspan,
      show (w.union x).last d = max (w.last d) (x.last d) from congrArg Span.last hspan]
    exact ⟨le_min hw.1 hx.1, max_le hw.2 hx.2⟩

theorem span_inflate (w : Window) (grain : Size) (d : Nat) :
    (w.inflate grain).span d =
      ⟨mulWord (floorDiv (w.first d) (unit grain d)) (unit grain d),
        mulWord (ceilDivWord (w.last d) (unit grain d)) (unit grain d)⟩ := by
  refine span_mapUpTo (fun d _ _ => ?_) d
  simp [Span.zero, floorDiv, mulWord, ceilDivWord, negWord, wrap64]

theorem span_divOutward (w : Window) (grain : Size) (d : Nat) :
    (w.divOutward grain).span d =
      ⟨floorDiv (w.first d) (unit grain d), ceilDivWord (w.last d) (unit grain d)⟩ := by
  refine span_mapUpTo (fun d _ _ => ?_) d
  simp [Span.zero, floorDiv, ceilDivWord, negWord, wrap64]

theorem span_scale (w : Window) (num den : Size) (d : Nat) :
    (w.scale num den).span d =
      ⟨floorDiv (mulWord (w.first d) (num.get d)) (max (den.get d) 1),
        ceilDivWord (mulWord (w.last d) (num.get d)) (max (den.get d) 1)⟩ := by
  refine span_mapUpTo (fun d _ _ => ?_) d
  simp [Span.zero, floorDiv, mulWord, ceilDivWord, negWord, wrap64]

/-! Where every value on the way is a word, the operations are those of the integers. -/

/-- The distance of the multiples of a grain: its magnitude, or one. -/
def pitch (grain : Size) (d : Nat) : Int := max |grain.get d| 1

theorem pitch_pos (grain : Size) (d : Nat) : 0 < pitch grain d := lt_max_of_lt_right one_pos

/-- Rounding to multiples of a grain stays in words. -/
structure RoundsInWord (w : Window) (grain : Size) (d : Nat) : Prop where
  magnitude : FitsWord |grain.get d|
  negated : FitsWord (-w.last d)
  down : FitsWord (floorDiv (w.first d) (pitch grain d) * pitch grain d)
  up : FitsWord (ceilDiv (w.last d) (pitch grain d) * pitch grain d)

/-- Scaling stays in words. -/
structure ScalesInWord (w : Window) (num : Size) (d : Nat) : Prop where
  first : FitsWord (w.first d * num.get d)
  last : FitsWord (w.last d * num.get d)
  negated : FitsWord (-(w.last d * num.get d))

theorem unit_of_fits {grain : Size} {d : Nat} (h : FitsWord |grain.get d|) :
    unit grain d = pitch grain d := by
  rw [unit, absWord_of_fits h, pitch]

theorem RoundsInWord.last_le {w : Window} {grain : Size} {d : Nat} (h : w.RoundsInWord grain d) :
    w.last d ≤ maxWord :=
  (le_ceilDiv_mul (pitch_pos grain d)).trans h.up.2

theorem span_inflate_of_fits {w : Window} {grain : Size} {d : Nat} (h : w.RoundsInWord grain d) :
    (w.inflate grain).span d = ⟨floorDiv (w.first d) (pitch grain d) * pitch grain d,
      ceilDiv (w.last d) (pitch grain d) * pitch grain d⟩ := by
  rw [span_inflate, unit_of_fits h.magnitude, ceilDivWord_of_fits (pitch_pos grain d) h.last_le h.negated,
    mulWord_of_fits h.down, mulWord_of_fits h.up]

theorem span_divOutward_of_fits {w : Window} {grain : Size} {d : Nat} (h : w.RoundsInWord grain d) :
    (w.divOutward grain).span d =
      ⟨floorDiv (w.first d) (pitch grain d), ceilDiv (w.last d) (pitch grain d)⟩ := by
  rw [span_divOutward, unit_of_fits h.magnitude,
    ceilDivWord_of_fits (pitch_pos grain d) h.last_le h.negated]

theorem span_scale_of_fits {w : Window} {num den : Size} {d : Nat} (h : w.ScalesInWord num d)
    (hden : 0 < den.get d) :
    (w.scale num den).span d = ⟨floorDiv (w.first d * num.get d) (den.get d),
      ceilDiv (w.last d * num.get d) (den.get d)⟩ := by
  rw [span_scale, max_eq_left hden, mulWord_of_fits h.first, mulWord_of_fits h.last,
    ceilDivWord_of_fits hden h.last.2 h.negated]

/-- What is left after one stride keeps its start, if the window has a stride. -/
theorem span_subSize_of_fits {w : Window} {stride : Size} {d : Nat}
    (hstride : stride.get d ≤ w.last d - w.first d + 1)
    (hexcess : FitsWord (w.last d - w.first d + 1 - stride.get d))
    (hend : FitsWord (w.last d + 1 - stride.get d)) :
    (w.subSize stride).span d = ⟨w.first d, w.last d + 1 - stride.get d⟩ := by
  have hsum : w.first d + (w.last d - w.first d + 1 - stride.get d) = w.last d + 1 - stride.get d := by
    ring
  rw [span_subSize, subWord_of_fits hexcess, clampNonneg, if_neg (by omega),
    addWord_of_fits (hsum ▸ hend), hsum]

end Window

end StencilTiling
