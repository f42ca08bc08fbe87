import Mathlib.Data.List.MinMax
import Mathlib.Data.List.Perm.Basic
import StencilTiling.Proofs.Analysis.LeastGrains
import StencilTiling.Proofs.Euclid
import StencilTiling.Proofs.Ratio

/-! Common multiples in any order. Sizes that are positive and whose common multiple is a word
form a semilattice under `Size.lcm`: the multiple taken along a list is the least common one in
every dimension, and its rank is the largest. So a grain does not depend on the order in which
an item lists its readers, or its producer lists its reads. -/

namespace StencilTiling

/-! ### Sizes by their dimensions -/

namespace Size

open Arith

theorem rank_foldl_lcm (sizes : List Size) (start : Size) :
    (sizes.foldl lcm start).rank = (sizes.map rank).foldl max start.rank := by
  induction sizes generalizing start with
  | nil => rfl
  | cons s rest ih => rw [List.foldl_cons, ih, rank_lcm, List.map_cons, List.foldl_cons]

theorem lcm_comm (a b : Size) : a.lcm b = b.lcm a := by
  refine ext_get (by rw [rank_lcm, rank_lcm, max_comm]) fun d => ?_
  rw [get_lcm, get_lcm, lcmWord, lcmWord, lcm_eq, lcm_eq, Nat.lcm_comm]

end Size

namespace Analysis

open Arith

/-! ### Sizes with a common multiple -/

/-- The sizes are positive and their least common multiple is a word in every dimension. -/
structure Commensurable (sizes : List Size) : Prop where
  pos : ∀ s ∈ sizes, ∀ d, 0 < s.get d
  fits : ∀ d, commonMultiple sizes d < 2 ^ 63

/-- Past all ranks there is nothing to check. -/
theorem commensurable_iff (sizes : List Size) :
    Commensurable sizes ↔ ∀ d < ((sizes.map Size.rank).foldr max 0),
      (∀ s ∈ sizes, 0 < s.get d) ∧ commonMultiple sizes d < 2 ^ 63 := by
  refine ⟨fun h d _ => ⟨fun s hs => h.pos s hs d, h.fits d⟩, fun h => ?_⟩
  have hone {d : Nat} (hd : ¬ d < (sizes.map Size.rank).foldr max 0) : ∀ s ∈ sizes, s.get d = 1 :=
    fun s hs => Size.get_of_rank_le ((List.le_max_of_le' 0 (List.mem_map_of_mem hs) le_rfl).trans
      (Nat.le_of_not_lt hd))
  constructor
  · intro s hs d
    by_cases hd : d < (sizes.map Size.rank).foldr max 0
    · exact (h d hd).1 s hs
    · simp [hone hd s hs]
  · intro d
    by_cases hd : d < (sizes.map Size.rank).foldr max 0
    · exact (h d hd).2
    · have hdvd : (commonMultiple sizes d : Int) ∣ 1 :=
        commonMultiple_dvd_iff.mpr fun s hs => (hone hd s hs).dvd
      have := Nat.le_of_dvd Nat.one_pos (Int.natCast_dvd_natCast.mp hdvd)
      omega

instance (sizes : List Size) : Decidable (Commensurable sizes) :=
  decidable_of_iff _ (commensurable_iff sizes).symm

/-- The least common multiple does not depend on the order. -/
theorem commonMultiple_perm {sizes sizes' : List Size} (h : sizes.Perm sizes') (d : Nat) :
    commonMultiple sizes d = commonMultiple sizes' d := by
  refine Nat.dvd_antisymm ?_ ?_ <;> rw [← Int.natCast_dvd_natCast, commonMultiple_dvd_iff]
  · exact fun s hs => commonMultiple_dvd_iff.mp dvd_rfl s (h.mem_iff.mp hs)
  · exact fun s hs => commonMultiple_dvd_iff.mp dvd_rfl s (h.mem_iff.mpr hs)

namespace Commensurable

variable {sizes sizes' : List Size}

theorem perm (h : Commensurable sizes) (hperm : sizes.Perm sizes') : Commensurable sizes' :=
  ⟨fun s hs => h.pos s (hperm.mem_iff.mpr hs), fun d => commonMultiple_perm hperm d ▸ h.fits d⟩

/-- Ones go with all sizes. -/
theorem cons_ones (h : Commensurable sizes) (rank : Nat) : Commensurable (.ones rank :: sizes) where
  pos := List.forall_mem_cons.mpr ⟨fun d => by simp, h.pos⟩
  fits d := by
    have hone : commonMultiple (.ones rank :: sizes) d = commonMultiple sizes d := by
      simp [commonMultiple]
    exact hone ▸ h.fits d

/-- The multiple taken along a list is the least common one. -/
theorem get_foldl_lcm {start : Size} (h : Commensurable (start :: sizes)) (d : Nat) :
    (sizes.foldl Size.lcm start).get d = commonMultiple (start :: sizes) d := by
  obtain ⟨hstart, hsizes⟩ := List.forall_mem_cons.mp h.pos
  obtain ⟨hpos, hdvd⟩ := get_foldl_lcm_of_fits (hstart d) (fun x hx => hsizes x hx d) (by
    have := h.fits d
    simp only [maxWord]
    omega)
  refine Int.dvd_antisymm hpos.le (Int.natCast_nonneg _) ?_ ?_
  · rw [hdvd, ← List.forall_mem_cons (p := fun x : Size => x.get d ∣ _), ← commonMultiple_dvd_iff]
  · rw [commonMultiple_dvd_iff, List.forall_mem_cons, ← hdvd]

/-- Taken in any order, the common multiple is the same size. -/
theorem foldl_lcm_perm {start : Size} (h : Commensurable (start :: sizes))
    (hperm : sizes.Perm sizes') : sizes.foldl Size.lcm start = sizes'.foldl Size.lcm start := by
  refine Size.ext_get ?_ fun d => ?_
  · rw [Size.rank_foldl_lcm, Size.rank_foldl_lcm]
    exact (hperm.map _).foldl_eq' (fun x _ y _ z => max_right_comm z x y) _
  · rw [h.get_foldl_lcm, (h.perm (hperm.cons start)).get_foldl_lcm,
      commonMultiple_perm (hperm.cons start)]

theorem lcm_assoc {a b c : Size} (h : Commensurable [a, b, c]) :
    (a.lcm b).lcm c = a.lcm (b.lcm c) := by
  refine Size.ext_get (by simp only [Size.rank_lcm, max_assoc]) fun d => ?_
  have hrotate : [a, b, c].Perm [b, c, a] := List.perm_append_singleton a [b, c] |>.symm
  calc ((a.lcm b).lcm c).get d
      = commonMultiple [a, b, c] d := h.get_foldl_lcm d
    _ = commonMultiple [b, c, a] d := by rw [commonMultiple_perm hrotate]
    _ = ((b.lcm c).lcm a).get d := ((h.perm hrotate).get_foldl_lcm d).symm
    _ = (a.lcm (b.lcm c)).get d := by rw [Size.lcm_comm]

theorem get_le_maxWord {a : Size} (h : Commensurable [a]) (d : Nat) : a.get d ≤ maxWord := by
  have hpos := h.pos a (by simp) d
  have hfits := h.fits d
  simp only [commonMultiple, List.foldr_cons, List.foldr_nil, Nat.cast_one, Int.lcm_one_right] at hfits
  simp only [maxWord]
  omega

theorem lcm_self {a : Size} (h : Commensurable [a]) : a.lcm a = a := by
  refine Size.ext_get (by rw [Size.rank_lcm, max_self]) fun d => ?_
  have habs : ((a.get d).natAbs : Int) = a.get d := Int.natAbs_of_nonneg (h.pos a (by simp) d).le
  rw [Size.get_lcm, lcmWord_of_fits] <;> rw [Int.lcm_self, habs]
  exact h.get_le_maxWord d

/-- Ones change nothing but the rank. -/
theorem lcm_ones {a : Size} (h : Commensurable [a]) (rank : Nat) : a.lcm (.ones rank) = a.padTo rank := by
  refine Size.ext_get ?_ fun d => ?_
  · rw [Size.rank_lcm, Size.rank_padTo, Size.rank_ones]
  · have habs : ((a.get d).natAbs : Int) = a.get d := Int.natAbs_of_nonneg (h.pos a (by simp) d).le
    rw [Size.get_padTo, Size.get_lcm, Size.get_ones, lcmWord_of_fits] <;> rw [Int.lcm_one_right, habs]
    exact h.get_le_maxWord d

end Commensurable

/-! ### Grains -/

/-- A grain taken along edges, where each edge asks for a size. -/
theorem foldlM_lcm {asked : Edge → Except Fault Size} {edges : List Edge} {sizes : List Size}
    (h : edges.mapM asked = .ok sizes) (start : Size) :
    edges.foldlM (fun grain e => return grain.lcm (← asked e)) start = .ok (sizes.foldl Size.lcm start) := by
  have hall := mapM_eq_ok.mp h
  clear h
  induction hall generalizing start with
  | nil => rfl
  | cons hask _ ih =>
    rw [List.foldlM_cons, hask]
    exact ih _

/-- Edges in another order give the same grain. -/
theorem foldlM_lcm_perm {asked : Edge → Except Fault Size} {edges edges' : List Edge}
    {sizes : List Size} {start : Size} (h : edges.mapM asked = .ok sizes)
    (hsizes : Commensurable (start :: sizes)) (hperm : edges'.Perm edges) :
    edges'.foldlM (fun grain e => return grain.lcm (← asked e)) start =
      edges.foldlM (fun grain e => return grain.lcm (← asked e)) start := by
  obtain ⟨sizes', hall, hperm'⟩ := List.perm_comp_forall₂ hperm (mapM_eq_ok.mp h)
  rw [foldlM_lcm h, foldlM_lcm (mapM_eq_ok.mpr hall), hsizes.foldl_lcm_perm hperm'.symm]

/-- The feed grain of an item does not depend on the order of its readers. -/
theorem feedGrain_perm {k : Kernel} {feed : DataId → Size} {item : DataItem} {users : List EdgeId}
    {sizes : List Size} (h : (k.usersOf item).mapM (neededGrain k feed) = .ok sizes)
    (hsizes : Commensurable sizes) (hperm : users.Perm item.users) :
    feedGrain k feed { item with users } = feedGrain k feed item := by
  have hedges : (k.usersOf { item with users }).Perm (k.usersOf item) := hperm.filterMap _
  rw [feedGrain, feedGrain]
  exact congrArg (· >>= _) (foldlM_lcm_perm h (hsizes.cons_ones item.rank) hedges)

/-- The grain of an item does not depend on the order in which its producer lists its reads. -/
theorem grainRate_perm {k k' : Kernel} {own : Size} {grains : DataId → Size × Size} {item : DataItem}
    {n : Node} {inputs : List EdgeId} {sizes : List Size} (hn : k.producerOf item = some n)
    (h : (k.inputEdges n).mapM (fun e => yieldedGrain n (grains e.source).1) = .ok sizes)
    (hsizes : Commensurable (own :: sizes)) (hperm : inputs.Perm n.inputs) (hedges : k'.edges = k.edges)
    (hn' : k'.producerOf item = some { n with inputs }) :
    grainRate k' own grains item = grainRate k own grains item := by
  have hreads : (k'.inputEdges { n with inputs }).Perm (k.inputEdges n) := by
    rw [Kernel.inputEdges, hedges]
    exact hperm.filterMap _
  rw [grainRate, grainRate, hn, hn']
  exact congrArg (· >>= _) (foldlM_lcm_perm h hsizes hreads)

/-! ### Exact multiples in any order -/

/-- Greatest common divisors and least common multiples are the mathematical ones. On words the
recursions return within a bounded number of calls, and the multiple overflows only if it is no
word. Sizes with a common multiple in the word form a semilattice, in which ones only add
dimensions, so that grains do not depend on the order of the edges they are taken along. -/
theorem multiples_exact_in_any_order :
    (∀ a b : Nat, Arith.gcd a b = Nat.gcd a b ∧ gcdWide a b = Nat.gcd a b ∧ Arith.lcm a b = Nat.lcm a b) ∧
    (∀ a : Nat, Arith.lcm a 0 = 0 ∧ Arith.lcm 0 a = 0) ∧
    (∀ (w : Nat) (a b : BitVec w),
      (∃ g, returnWithin gcdCall (2 * w + 2) (a, b) = some g ∧ g.toNat = Arith.gcd a.toNat b.toNat) ∧
      (∃ g, returnWithin gcdWideCall (2 * w + 2) (a, b) = some g ∧ g.toNat = gcdWide a.toNat b.toNat) ∧
      ((∃ l, lcmWords? a b = some l) ↔ Arith.lcm a.toNat b.toNat < 2 ^ w) ∧
      ∀ l, lcmWords? a b = some l → l.toNat = Arith.lcm a.toNat b.toNat) ∧
    (∀ a b c : Size, Commensurable [a, b, c] → (a.lcm b).lcm c = a.lcm (b.lcm c)) ∧
    (∀ a b : Size, a.lcm b = b.lcm a) ∧
    (∀ a : Size, Commensurable [a] → a.lcm a = a ∧
      ∀ rank, a.lcm (.ones rank) = a.padTo rank ∧ (Size.ones rank).lcm a = a.padTo rank) ∧
    (∀ (start : Size) (sizes : List Size), Commensurable (start :: sizes) →
      (∀ d, (sizes.foldl Size.lcm start).get d = commonMultiple (start :: sizes) d) ∧
      ∀ sizes' : List Size, sizes'.Perm sizes → sizes'.foldl Size.lcm start = sizes.foldl Size.lcm start) ∧
    (∀ (k : Kernel) (feed : DataId → Size) (item : DataItem) (sizes : List Size),
      (k.usersOf item).mapM (neededGrain k feed) = .ok sizes → Commensurable sizes →
      ∀ users : List EdgeId, users.Perm item.users → feedGrain k feed { item with users } = feedGrain k feed item) ∧
    ∀ (k : Kernel) (own : Size) (grains : DataId → Size × Size) (item : DataItem) (n : Node)
      (sizes : List Size), k.producerOf item = some n →
      (k.inputEdges n).mapM (fun e => yieldedGrain n (grains e.source).1) = .ok sizes →
      Commensurable (own :: sizes) →
      ∀ (k' : Kernel) (inputs : List EdgeId), inputs.Perm n.inputs → k'.edges = k.edges →
        k'.producerOf item = some { n with inputs } →
        grainRate k' own grains item = grainRate k own grains item := by
  refine ⟨fun a b => ⟨gcd_eq a b, gcdWide_eq a b, lcm_eq a b⟩, fun a => by simp [lcm_eq],
    fun w a b => ⟨exists_gcd_words a b, exists_gcdWide_words a b, exists_lcmWords?_iff, ?_⟩,
    fun a b c => Commensurable.lcm_assoc, Size.lcm_comm, fun a h => ⟨h.lcm_self, fun rank => ?_⟩,
    fun start sizes h => ⟨h.get_foldl_lcm, fun sizes' hperm => (h.foldl_lcm_perm hperm.symm).symm⟩,
    fun k feed item sizes h hsizes users => feedGrain_perm h hsizes,
    fun k own grains item n sizes hn h hsizes k' inputs => grainRate_perm hn h hsizes⟩
  · exact fun l h => (lcmWords?_eq_some_iff.mp h).symm
  · exact ⟨h.lcm_ones rank, (Size.lcm_comm _ _).trans (h.lcm_ones rank)⟩

/-- The last node of `sieving` lists its reads in reverse. -/
def sievingReversed : Kernel :=
  { sieving with nodes := sieving.nodes.modify 2 fun n => { n with inputs := n.inputs.reverse } }

/-- The product of the two words overflows, their multiple does not. Three sizes are taken in any
order. The image that is read by twos and by threes has the same grain whichever reader comes
first, and so has what is made of both. -/
theorem multiples_exact_in_any_order_sieving :
    (∃ l, lcmWords? 0x6000000000000000#64 0x4000000000000000#64 = some l ∧
      l.toNat = 0xc000000000000000) ∧
    (Size.lcm ⟨[4]⟩ ⟨[6, 10]⟩).lcm ⟨[15, 2]⟩ = Size.lcm ⟨[4]⟩ (Size.lcm ⟨[6, 10]⟩ ⟨[15, 2]⟩) ∧
    Size.lcm ⟨[6, 10]⟩ (.ones 3) = ⟨[6, 10, 1]⟩ ∧
    [⟨[15, 2]⟩, ⟨[6, 10]⟩].foldl Size.lcm ⟨[4]⟩ = [⟨[6, 10]⟩, ⟨[15, 2]⟩].foldl Size.lcm ⟨[4]⟩ ∧
    (∃ a ∈ sieving.data[0]?, a.users = [0, 1] ∧
      feedGrain sieving (fun _ => ⟨[1]⟩) { a with users := [1, 0] } =
        feedGrain sieving (fun _ => ⟨[1]⟩) a) ∧
    ∃ o ∈ sieving.data[3]?, grainRate sievingReversed ⟨[1]⟩ (fun i => (⟨[i + 1]⟩, ⟨[1]⟩)) o =
      grainRate sieving ⟨[1]⟩ (fun i => (⟨[i + 1]⟩, ⟨[1]⟩)) o := by
  obtain ⟨hnat, -, hwords, hassoc, -, hself, hfold, hfeed, hgrain⟩ := multiples_exact_in_any_order
  have hlcm : Arith.lcm (0x6000000000000000#64).toNat (0x4000000000000000#64).toNat = 0xc000000000000000 :=
    (hnat _ _).2.2.trans (by decide)
  obtain ⟨-, -, hfits, hvalue⟩ := hwords 64 0x6000000000000000#64 0x4000000000000000#64
  obtain ⟨l, hl⟩ := hfits.mpr (by rw [hlcm]; decide)
  have ha : ∃ a ∈ sieving.data[0]?, a.users = [0, 1] ∧
      (sieving.usersOf a).mapM (neededGrain sieving fun _ => ⟨[1]⟩) = .ok [⟨[2]⟩, ⟨[3]⟩] := by
    decide +kernel
  have ho : ∃ o ∈ sieving.data[3]?, ∃ n ∈ sieving.producerOf o, n.inputs = [2, 3] ∧
      (sieving.inputEdges n).mapM (fun e => yieldedGrain n ⟨[(e.source + 1 : Nat)]⟩) =
        .ok [⟨[2]⟩, ⟨[3]⟩] ∧
      sievingReversed.producerOf o = some { n with inputs := [3, 2] } := by
    decide +kernel
  obtain ⟨a, hget, husers, hneeded⟩ := ha
  obtain ⟨o, hget', n, hn, hinputs, hyielded, hn'⟩ := ho
  refine ⟨⟨l, hl, (hvalue l hl).trans hlcm⟩, hassoc _ _ _ (by decide), ((hself _ (by decide)).2 3).1,
    (hfold ⟨[4]⟩ [⟨[6, 10]⟩, ⟨[15, 2]⟩] (by decide)).2 _ (.swap ..),
    ⟨a, hget, husers, hfeed sieving _ a _ hneeded (by decide) [1, 0] (husers ▸ .swap ..)⟩,
    o, hget', hgrain sieving ⟨[1]⟩ _ o n _ hn hyielded (by decide) sievingReversed [3, 2]
      (hinputs ▸ .swap ..) rfl hn'⟩

end Analysis

end StencilTiling
