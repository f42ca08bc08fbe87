import Mathlib.Algebra.Order.Ring.Int
import Mathlib.Data.List.Nodup
import Mathlib.Data.List.ProdSigma
import Mathlib.Data.Set.Function
import Mathlib.Tactic.Ring
import StencilTiling.Proofs.Code.Body

/-! Launching an emitted program. Every work-group passes through the body once, or once for
each tile of a loop that starts at the number of the group and steps by the number of groups.
A pass binds the part indices that the statements of the body compute. The variables are 32-bit
integers. As long as the tiles and a further step can be counted in them, the loops together
take every tile number once, and the digits of the numbers are the tuples of part indices, each
of them once. A loop to a larger number never ends. -/

namespace StencilTiling.Code

/-! ### Variables -/

/-- A number as a variable of type `int` holds it. -/
def narrow (n : Int) : Int := n.bmod 0x100000000

theorem narrow_of_lt {n : Int} (h0 : 0 ≤ n) (h : n < 0x80000000) : narrow n = n :=
  Int.bmod_eq_of_le (by omega) (by omega)

theorem narrow_lt (n : Int) : narrow n < 0x80000000 := by
  have := Int.bmod_lt (x := n) (m := 0x100000000) (by decide)
  rw [narrow]
  omega

/-! ### Passes -/

/-- What a statement does to the part indices, in a pass of a group for a tile, if the body
is a loop. -/
def Stmt.bindPart (group : Nat) (tile : Option Int) (index : Nat → Int) : Stmt → Nat → Int
  | partOfGroup dim => Function.update index dim (narrow group)
  | partOfTile dim stride parts => match tile with
    | some t => Function.update index dim (narrow ((t.tdiv stride).tmod parts))
    | none => index
  | _ => index

/-- The part indices after a list of statements. -/
def bindParts (group : Nat) (tile : Option Int) (stmts : List Stmt) (index : Nat → Int) : Nat → Int :=
  stmts.foldl (Stmt.bindPart group tile) index

@[simp] theorem bindParts_nil (group : Nat) (tile : Option Int) (index : Nat → Int) :
    bindParts group tile [] index = index := rfl

@[simp] theorem bindParts_cons (group : Nat) (tile : Option Int) (s : Stmt) (rest : List Stmt)
    (index : Nat → Int) :
    bindParts group tile (s :: rest) index = bindParts group tile rest (s.bindPart group tile index) := rfl

theorem bindParts_append (group : Nat) (tile : Option Int) (l l' : List Stmt) (index : Nat → Int) :
    bindParts group tile (l ++ l') index = bindParts group tile l' (bindParts group tile l index) :=
  List.foldl_append

/-- Only the first segment binds part indices. -/
theorem bindParts_of_segment {group : Nat} {tile : Option Int} {stmts : List Stmt} {g : Segment}
    (h : ∀ stmt ∈ stmts, stmt.segment = g) (hg : g ≠ .parts) (index : Nat → Int) :
    bindParts group tile stmts index = index := by
  induction stmts with
  | nil => rfl
  | cons s rest ih =>
    obtain ⟨hs, hrest⟩ := List.forall_mem_cons.mp h
    have hkept : s.bindPart group tile index = index := by
      cases s with
      | partOfGroup dim => exact absurd hs.symm hg
      | partOfTile dim stride parts => exact absurd hs.symm hg
      | _ => rfl
    rw [bindParts_cons, hkept, ih hrest]

/-! ### Loops -/

/-- A loop that ends takes a list of tiles, from the value of its variable on, in steps of the
number of groups. -/
inductive LoopRuns (total : Int) (groups : Nat) : Int → List Int → Prop
  | done {tile : Int} (reached : total ≤ tile) : LoopRuns total groups tile []
  | step {tile : Int} {tiles : List Int} (below : tile < total)
    (rest : LoopRuns total groups (narrow (tile + groups)) tiles) :
    LoopRuns total groups tile (tile :: tiles)

/-- No variable reaches a number beyond its type. -/
theorem not_loopRuns {total : Int} (htotal : 0x80000000 ≤ total) (groups : Nat) {start : Int}
    (hstart : start < 0x80000000) (tiles : List Int) : ¬ LoopRuns total groups start tiles := by
  intro h
  induction h with
  | done reached => omega
  | step _ _ ih => exact ih (narrow_lt _)

/-- The tiles of a loop whose variable has no bound. -/
def loopTiles (total : Int) (groups : Nat) (tile : Int) : List Int :=
  if tile < total ∧ 0 < groups then tile :: loopTiles total groups (tile + groups) else []
termination_by (total - tile).toNat

/-- A loop whose variable is not cut ends with these tiles. -/
theorem loopRuns_iff {total : Int} {groups : Nat} (hg : 0 < groups)
    (hfit : total + groups ≤ 0x80000000) {start : Int} (h0 : 0 ≤ start) {tiles : List Int} :
    LoopRuns total groups start tiles ↔ tiles = loopTiles total groups start := by
  induction start using loopTiles.induct total groups generalizing tiles with
  | case1 start h ih =>
    have hnarrow : narrow (start + groups) = start + groups := narrow_of_lt (by omega) (by omega)
    rw [loopTiles, if_pos h]
    constructor
    · rintro (reached | ⟨-, rest⟩)
      · omega
      · rw [hnarrow] at rest
        rw [(ih (by omega)).mp rest]
    · rintro rfl
      refine .step h.1 ?_
      rw [hnarrow]
      exact (ih (by omega)).mpr rfl
  | case2 start h =>
    rw [loopTiles, if_neg h]
    constructor
    · rintro (_ | ⟨below, -⟩)
      · rfl
      · omega
    · rintro rfl
      exact .done (by omega)

theorem mem_loopTiles {total : Int} {groups : Nat} (hg : 0 < groups) {start tile : Int} :
    tile ∈ loopTiles total groups start ↔
      start ≤ tile ∧ tile < total ∧ (groups : Int) ∣ tile - start := by
  induction start using loopTiles.induct total groups with
  | case1 start h ih =>
    rw [loopTiles, if_pos h, List.mem_cons, ih]
    constructor
    · rintro (rfl | ⟨hle, hlt, hdvd⟩)
      · exact ⟨le_rfl, h.1, by simp⟩
      · refine ⟨by omega, hlt, ?_⟩
        have := Int.dvd_add hdvd (Int.dvd_refl groups)
        rwa [show tile - (start + groups) + groups = tile - start by ring] at this
    · rintro ⟨hle, hlt, q, hq⟩
      rcases eq_or_ne tile start with rfl | hne
      · exact .inl rfl
      · have hq1 : 1 ≤ q := by
          by_contra hq0
          have := mul_nonpos_of_nonneg_of_nonpos (Int.natCast_nonneg groups) (show q ≤ 0 by omega)
          omega
        have := mul_le_mul_of_nonneg_left hq1 (Int.natCast_nonneg groups)
        exact .inr ⟨by omega, hlt, q - 1, by rw [mul_sub]; omega⟩
  | case2 start h =>
    rw [loopTiles, if_neg h]
    simp only [List.not_mem_nil, false_iff]
    omega

theorem nodup_loopTiles (total : Int) {groups : Nat} (hg : 0 < groups) (start : Int) :
    (loopTiles total groups start).Nodup := by
  induction start using loopTiles.induct total groups with
  | case1 start h ih =>
    rw [loopTiles, if_pos h]
    refine List.nodup_cons.mpr ⟨fun hmem => ?_, ih⟩
    have := ((mem_loopTiles hg).mp hmem).1
    omega
  | case2 start h =>
    rw [loopTiles, if_neg h]
    exact List.nodup_nil

/-- The tiles of all groups. -/
def launchedTiles (total : Int) (groups : Nat) : List Int :=
  (List.range groups).flatMap fun group : Nat => loopTiles total groups group

/-- The loops of the groups share the tiles among them. -/
theorem mem_launchedTiles {total : Int} {groups : Nat} (hg : 0 < groups) {tile : Int} :
    tile ∈ launchedTiles total groups ↔ 0 ≤ tile ∧ tile < total := by
  simp only [launchedTiles, List.mem_flatMap, List.mem_range, mem_loopTiles hg]
  constructor
  · rintro ⟨group, -, hle, hlt, -⟩
    exact ⟨by omega, hlt⟩
  · rintro ⟨h0, hlt⟩
    have hpos : (0 : Int) < groups := by omega
    have hmod := Int.emod_nonneg tile hpos.ne'
    have hmodlt := Int.emod_lt_of_pos tile hpos
    refine ⟨(tile % groups).toNat, by omega, ?_, hlt, ?_⟩
    · have hsplit := Int.mul_ediv_add_emod tile groups
      have := mul_nonneg hpos.le (Int.ediv_nonneg h0 hpos.le)
      omega
    · rw [Int.toNat_of_nonneg hmod]
      exact Int.dvd_self_sub_emod

theorem nodup_launchedTiles (total : Int) {groups : Nat} (hg : 0 < groups) :
    (launchedTiles total groups).Nodup := by
  refine List.nodup_flatMap.mpr ⟨fun group _ => nodup_loopTiles total hg group, ?_⟩
  refine List.Pairwise.imp_of_mem (fun {a b} ha hb hab => ?_) List.nodup_range
  rw [Function.onFun_apply, List.disjoint_left]
  intro tile hta htb
  obtain ⟨-, -, hda⟩ := (mem_loopTiles hg).mp hta
  obtain ⟨-, -, hdb⟩ := (mem_loopTiles hg).mp htb
  rw [List.mem_range] at ha hb
  -- numbers of groups that differ by a multiple of their count are the same
  have hdvd := Int.dvd_sub hdb hda
  rw [show tile - (b : Int) - (tile - a) = (a : Int) - b by ring] at hdvd
  have := Int.eq_zero_of_abs_lt_dvd hdvd (by rw [abs_lt]; omega)
  omega

/-! ### Digits -/

/-- The product of the parts of some dimensions. -/
def volume (dims : List (Nat × Int)) : Int := (dims.map Prod.snd).foldr (· * ·) 1

/-- The part indices with the digits of a number, one for each dimension of a list, the first
of them the least significant. -/
def digits : List (Nat × Int) → Int → (Nat → Int) → Nat → Int
  | [], _, index => index
  | (dim, parts) :: rest, n, index => digits rest (n / parts) (Function.update index dim (n % parts))

@[simp] theorem digits_nil (n : Int) (index : Nat → Int) : digits [] n index = index := rfl

@[simp] theorem volume_nil : volume [] = 1 := rfl

@[simp] theorem volume_cons (dim : Nat) (parts : Int) (rest : List (Nat × Int)) :
    volume ((dim, parts) :: rest) = parts * volume rest := rfl

theorem volume_pos {dims : List (Nat × Int)} (hd : ∀ d ∈ dims, 0 < d.2) : 0 < volume dims := by
  induction dims with
  | nil => decide
  | cons d rest ih =>
    obtain ⟨hpos, hrest⟩ := List.forall_mem_cons.mp hd
    exact mul_pos hpos (ih hrest)

/-- The statements of the tile loop compute the digits of the tile number. -/
theorem bindParts_tileDigits (group : Nat) {tile stride : Int} (h0 : 0 ≤ tile)
    (htile : tile < 0x80000000) (hs : 0 < stride) {dims : List (Nat × Int)}
    (hd : ∀ d ∈ dims, 0 < d.2) (index : Nat → Int) :
    bindParts group (some tile) (tileDigits stride dims) index = digits dims (tile / stride) index := by
  induction dims generalizing stride index with
  | nil => rfl
  | cons d rest ih =>
    obtain ⟨dim, parts⟩ := d
    obtain ⟨hpos, hrest⟩ := List.forall_mem_cons.mp hd
    dsimp only at hpos
    have hquot : 0 ≤ tile / stride := Int.ediv_nonneg h0 hs.le
    have hle : tile / stride % parts ≤ tile := by
      have hsplit := Int.mul_ediv_add_emod (tile / stride) parts
      have hnonneg := mul_nonneg hpos.le (Int.ediv_nonneg hquot hpos.le)
      have hself := Int.ediv_le_self stride h0
      omega
    have hdigit : narrow ((tile.tdiv stride).tmod parts) = tile / stride % parts := by
      rw [Int.tdiv_eq_ediv_of_nonneg h0, Int.tmod_eq_emod_of_nonneg hquot]
      exact narrow_of_lt (Int.emod_nonneg _ hpos.ne') (by omega)
    rw [tileDigits, bindParts_cons, ih (mul_pos hs hpos) hrest, digits,
      ← Int.ediv_ediv_of_nonneg hs.le]
    simp only [Stmt.bindPart, hdigit]

/-- The number of the group is its own digit along the only dimension. -/
theorem bindParts_groups {group : Nat} {dims : List (Nat × Int)} (hlen : dims.length ≤ 1)
    (hgroup : (group : Int) < volume dims) (hfit : (group : Int) < 0x80000000)
    (tile : Option Int) (index : Nat → Int) :
    bindParts group tile (dims.map fun d => .partOfGroup d.1) index = digits dims group index := by
  match dims, hlen with
  | [], _ => rfl
  | [(dim, parts)], _ =>
    have hlt : (group : Int) < parts := by simpa using hgroup
    have hnarrow := narrow_of_lt (Int.natCast_nonneg group) hfit
    simp [bindParts, Stmt.bindPart, digits, hnarrow, Int.emod_eq_of_lt (Int.natCast_nonneg group) hlt]

section Digits

variable {dims : List (Nat × Int)}

theorem digits_of_not_mem {dim : Nat} (h : dim ∉ dims.map Prod.fst) (n : Int) (index : Nat → Int) :
    digits dims n index dim = index dim := by
  induction dims generalizing n index with
  | nil => rfl
  | cons d rest ih =>
    obtain ⟨dim', parts⟩ := d
    rw [List.map_cons, List.mem_cons, not_or] at h
    rw [digits, ih h.2, Function.update_of_ne h.1]

theorem digits_head {dim : Nat} {parts : Int} (h : dim ∉ dims.map Prod.fst) (n : Int)
    (index : Nat → Int) : digits ((dim, parts) :: dims) n index dim = n % parts := by
  rw [digits, digits_of_not_mem h, Function.update_self]

/-- A digit is less than its radix. -/
theorem digits_range (hnodup : (dims.map Prod.fst).Nodup) (hd : ∀ d ∈ dims, 0 < d.2) (n : Int)
    (index : Nat → Int) {dim : Nat} {parts : Int} (h : (dim, parts) ∈ dims) :
    0 ≤ digits dims n index dim ∧ digits dims n index dim < parts := by
  induction dims generalizing n index with
  | nil => cases h
  | cons d rest ih =>
    obtain ⟨hfresh, hnodup⟩ := List.nodup_cons.mp (List.map_cons ▸ hnodup)
    obtain ⟨hpos, hrest⟩ := List.forall_mem_cons.mp hd
    rcases List.mem_cons.mp h with rfl | h
    · rw [digits_head hfresh]
      exact ⟨Int.emod_nonneg _ hpos.ne', Int.emod_lt_of_pos _ hpos⟩
    · exact ih hnodup hrest _ _ h

/-- All digits below their radices are those of a number. -/
theorem exists_digits (hnodup : (dims.map Prod.fst).Nodup) (hd : ∀ d ∈ dims, 0 < d.2) {f : Nat → Int}
    (hf : ∀ d ∈ dims, 0 ≤ f d.1 ∧ f d.1 < d.2) (index : Nat → Int) :
    ∃ n, (0 ≤ n ∧ n < volume dims) ∧ ∀ d ∈ dims, digits dims n index d.1 = f d.1 := by
  induction dims generalizing index with
  | nil => exact ⟨0, ⟨le_rfl, by decide⟩, by simp⟩
  | cons d rest ih =>
    obtain ⟨dim, parts⟩ := d
    obtain ⟨hfresh, hnodup⟩ := List.nodup_cons.mp (List.map_cons ▸ hnodup)
    obtain ⟨hpos, hrest⟩ := List.forall_mem_cons.mp hd
    obtain ⟨⟨hf0, hflt⟩, hfrest⟩ := List.forall_mem_cons.mp hf
    dsimp only at hpos hf0 hflt
    obtain ⟨m, ⟨hm0, hmlt⟩, hm⟩ := ih hnodup hrest hfrest (Function.update index dim (f dim))
    have hmod : (f dim + parts * m) % parts = f dim := by
      rw [Int.add_mul_emod_self_left, Int.emod_eq_of_lt hf0 hflt]
    have hdiv : (f dim + parts * m) / parts = m := by
      rw [Int.add_mul_ediv_left _ _ hpos.ne', Int.ediv_eq_zero_of_lt hf0 hflt, zero_add]
    refine ⟨f dim + parts * m, ⟨add_nonneg hf0 (mul_nonneg hpos.le hm0), ?_⟩,
      List.forall_mem_cons.mpr ⟨?_, fun d hd => ?_⟩⟩
    · have hstep := mul_le_mul_of_nonneg_left (show m + 1 ≤ volume rest by omega) hpos.le
      rw [mul_add, mul_one] at hstep
      rw [volume_cons]
      omega
    · rw [digits_head hfresh, hmod]
    · rw [digits, hdiv, hmod, hm d hd]

/-- A number below the product is given by its digits. -/
theorem digits_injective (hnodup : (dims.map Prod.fst).Nodup) (hd : ∀ d ∈ dims, 0 < d.2) {m n : Int}
    (hm : 0 ≤ m ∧ m < volume dims) (hn : 0 ≤ n ∧ n < volume dims) {index index' : Nat → Int}
    (h : ∀ d ∈ dims, digits dims m index d.1 = digits dims n index' d.1) : m = n := by
  induction dims generalizing m n index index' with
  | nil =>
    rw [volume_nil] at hm hn
    omega
  | cons d rest ih =>
    obtain ⟨dim, parts⟩ := d
    obtain ⟨hfresh, hnodup⟩ := List.nodup_cons.mp (List.map_cons ▸ hnodup)
    obtain ⟨hpos, hrest⟩ := List.forall_mem_cons.mp hd
    obtain ⟨hhead, htail⟩ := List.forall_mem_cons.mp h
    rw [digits_head hfresh, digits_head hfresh] at hhead
    have hquot {q : Int} (hq : 0 ≤ q ∧ q < volume ((dim, parts) :: rest)) :
        0 ≤ q / parts ∧ q / parts < volume rest :=
      ⟨Int.ediv_nonneg hq.1 hpos.le, Int.ediv_lt_of_lt_mul hpos (by rw [mul_comm]; exact hq.2)⟩
    have hdiv := ih hnodup hrest (hquot hm) (hquot hn) htail
    rw [← Int.mul_ediv_add_emod m parts, ← Int.mul_ediv_add_emod n parts, hdiv, hhead]

end Digits

/-! ### Tuples of part indices -/

/-- One part index for each dimension. -/
def tupleOf (rank : Nat) (index : Nat → Int) : List Int := (List.range rank).map index

/-- Every part index is one of its partition. -/
def InRange (partitions : List Partition) (tuple : List Int) : Prop :=
  List.Forall₂ (fun p i => 0 ≤ i ∧ i < p.parts) partitions tuple

theorem inRange_tupleOf {partitions : List Partition} {index : Nat → Int} :
    InRange partitions (tupleOf partitions.length index) ↔
      ∀ dim p, partitions[dim]? = some p → 0 ≤ index dim ∧ index dim < p.parts := by
  rw [InRange, List.forall₂_iff_get]
  constructor
  · rintro ⟨-, h⟩ dim p hp
    obtain ⟨hdim, rfl⟩ := List.getElem?_eq_some_iff.mp hp
    simpa [tupleOf] using h dim hdim (by simpa [tupleOf] using hdim)
  · intro h
    refine ⟨by simp [tupleOf], fun dim hdim _ => ?_⟩
    simpa [tupleOf] using h dim _ (List.getElem?_eq_getElem hdim)

theorem splitDims_eq (partitions : List Partition) : splitDims partitions =
    (partitions.zipIdx.filter fun x => 1 < x.1.parts).map fun x => (x.2, x.1.parts) := rfl

theorem mem_splitDims {partitions : List Partition} {dim : Nat} {parts : Int} :
    (dim, parts) ∈ splitDims partitions ↔
      ∃ p, partitions[dim]? = some p ∧ 1 < p.parts ∧ p.parts = parts := by
  simp only [splitDims, List.mem_map, List.mem_filter, List.mem_zipIdx_iff_getElem?, Prod.exists,
    Prod.mk.injEq, decide_eq_true_eq]
  constructor
  · rintro ⟨p, _, ⟨hp, hsplit⟩, rfl, rfl⟩
    exact ⟨p, hp, hsplit, rfl⟩
  · rintro ⟨p, hp, hsplit, rfl⟩
    exact ⟨p, dim, ⟨hp, hsplit⟩, rfl, rfl⟩

theorem splitDims_pos (partitions : List Partition) : ∀ d ∈ splitDims partitions, 0 < d.2 := by
  rintro ⟨dim, parts⟩ h
  obtain ⟨p, -, hsplit, rfl⟩ := mem_splitDims.mp h
  omega

theorem nodup_splitDims (partitions : List Partition) :
    ((splitDims partitions).map Prod.fst).Nodup := by
  have hsub : ((splitDims partitions).map Prod.fst).Sublist (partitions.zipIdx.map Prod.snd) := by
    rw [splitDims, List.map_map]
    exact List.filter_sublist.map Prod.snd
  exact hsub.nodup (by rw [List.zipIdx_map_snd]; exact List.nodup_range')

/-- Dimensions with one part do not count. -/
theorem volume_splitDims {partitions : List Partition} (h : ∀ p ∈ partitions, 1 ≤ p.parts) :
    volume (splitDims partitions) = (partitions.map Partition.parts).foldr (· * ·) 1 := by
  suffices hlist : ∀ l : List (Partition × Nat), (∀ x ∈ l, 1 ≤ x.1.parts) →
      volume ((l.filter fun x => 1 < x.1.parts).map fun x => (x.2, x.1.parts)) =
        (l.map (Partition.parts ∘ Prod.fst)).foldr (· * ·) 1 by
    have hvolume := hlist partitions.zipIdx fun x hx =>
      h x.1 (List.mem_of_getElem? (List.mem_zipIdx_iff_getElem?.mp hx))
    rw [splitDims_eq, hvolume, ← List.map_map, List.zipIdx_map_fst]
  intro l hl
  induction l with
  | nil => rfl
  | cons x rest ih =>
    obtain ⟨hx, hrest⟩ := List.forall_mem_cons.mp hl
    rw [List.map_cons, List.foldr_cons, ← ih hrest, List.filter_cons]
    by_cases hsplit : 1 < x.1.parts
    · simp [hsplit]
    · have hone : x.1.parts = 1 := by omega
      simp [hone]

/-- The tuples are the digits of the numbers below their product, each of one number. -/
theorem digits_bijOn {partitions : List Partition} (h : ∀ p ∈ partitions, 1 ≤ p.parts) :
    Set.BijOn (fun n => tupleOf partitions.length (digits (splitDims partitions) n fun _ => 0))
      {n | 0 ≤ n ∧ n < volume (splitDims partitions)} {t | InRange partitions t} := by
  have hnodup := nodup_splitDims partitions
  have hpos := splitDims_pos partitions
  -- a dimension that is not split has one part, and its index stays zero
  have hsingle {dim : Nat} {p : Partition} (hp : partitions[dim]? = some p) (hone : ¬ 1 < p.parts) :
      p.parts = 1 ∧ ∀ n, digits (splitDims partitions) n (fun _ => 0) dim = 0 := by
    have := h p (List.mem_of_getElem? hp)
    refine ⟨by omega, fun n => digits_of_not_mem (fun hmem => ?_) n _⟩
    obtain ⟨⟨_, parts⟩, hd, rfl⟩ := List.mem_map.mp hmem
    obtain ⟨p', hp', hsplit, -⟩ := mem_splitDims.mp hd
    obtain rfl := Option.some.inj (hp.symm.trans hp')
    exact hone hsplit
  refine ⟨fun n _ => ?_, fun m hm n hn heq => ?_, fun t ht => ?_⟩
  · refine inRange_tupleOf.mpr fun dim p hp => ?_
    by_cases hsplit : 1 < p.parts
    · exact digits_range hnodup hpos n _ (mem_splitDims.mpr ⟨p, hp, hsplit, rfl⟩)
    · obtain ⟨hone, hzero⟩ := hsingle hp hsplit
      rw [hzero, hone]
      decide
  · have hsame : ∀ d ∈ splitDims partitions, digits (splitDims partitions) m (fun _ => 0) d.1 =
        digits (splitDims partitions) n (fun _ => 0) d.1 := fun d hd => by
      obtain ⟨p, hp, -, -⟩ := mem_splitDims.mp hd
      have hlt := (List.getElem?_eq_some_iff.mp hp).1
      exact List.map_inj_left.mp heq d.1 (List.mem_range.mpr hlt)
    exact digits_injective hnodup hpos hm hn hsame
  · obtain ⟨hlen, hget⟩ := List.forall₂_iff_get.mp ht
    have ht' : t = tupleOf partitions.length fun dim => t.getD dim 0 := by
      refine List.ext_getElem (by simp [tupleOf, hlen]) fun i hi _ => ?_
      simp [tupleOf, hi]
    have hrange : InRange partitions (tupleOf partitions.length fun dim => t.getD dim 0) := ht' ▸ ht
    rw [inRange_tupleOf] at hrange
    have hsplit : ∀ d ∈ splitDims partitions, 0 ≤ t.getD d.1 0 ∧ t.getD d.1 0 < d.2 := fun d hd => by
      obtain ⟨p, hp, -, hparts⟩ := mem_splitDims.mp hd
      exact hparts ▸ hrange d.1 p hp
    obtain ⟨n, hn, hdigits⟩ := exists_digits (f := fun dim => t.getD dim 0) hnodup hpos hsplit fun _ => 0
    refine ⟨n, hn, ?_⟩
    rw [ht']
    refine List.map_congr_left fun dim hdim => ?_
    obtain ⟨p, hp⟩ : ∃ p, partitions[dim]? = some p :=
      ⟨_, List.getElem?_eq_getElem (List.mem_range.mp hdim)⟩
    by_cases hsplit : 1 < p.parts
    · exact hdigits (dim, p.parts) (mem_splitDims.mpr ⟨p, hp, hsplit, rfl⟩)
    · obtain ⟨hone, hzero⟩ := hsingle hp hsplit
      have := hrange dim p hp
      rw [hzero]
      omega

/-! ### Launches -/

namespace Program

/-- The groups along the first dimension of a launch. -/
def groupCount (p : Program) : Nat := p.globalSize.headD 0 / p.localSize.headD 1

/-- The passes of a group through the body: one, or one for each tile of its loop. -/
def Passes (p : Program) (group : Nat) (passes : List (Option Int)) : Prop :=
  match p.tileLoop with
  | none => passes = [none]
  | some total => ∃ tiles, LoopRuns total p.groupCount (narrow group) tiles ∧ passes = tiles.map some

/-- The part indices bound in a pass; those that no statement binds are zero. -/
def partsBound (p : Program) (group : Nat) (tile : Option Int) : Nat → Int :=
  bindParts group tile p.body fun _ => 0

/-- The tuples of part indices bound in all passes of all groups, if all of them end. -/
def Visits (p : Program) (rank : Nat) (visits : List (List Int)) : Prop :=
  ∃ passes : Nat → List (Option Int), (∀ group < p.groupCount, p.Passes group (passes group)) ∧
    visits = (List.range p.groupCount).flatMap fun group =>
      (passes group).map fun tile => tupleOf rank (p.partsBound group tile)

/-- The numbers of the groups are of type `int`, and so are the tiles and the number at which a
loop ends. -/
def CountsInInt (p : Program) : Prop := p.tileLoop.getD 0 + p.groupCount ≤ 0x80000000

instance (p : Program) : Decidable p.CountsInInt := inferInstanceAs (Decidable (_ ≤ _))

theorem groupCount_eq {p : Program} (h : 0 < p.workItems) : p.groupCount = p.workGroups :=
  Nat.mul_div_cancel _ h

/-- What the groups do one by one gives the tuples of them all. -/
theorem visits_iff {p : Program} {rank : Nat} {passes : Nat → List (Option Int)}
    (h : ∀ group < p.groupCount, ∀ l, p.Passes group l ↔ l = passes group)
    {visits : List (List Int)} :
    p.Visits rank visits ↔ visits = (List.range p.groupCount).flatMap fun group =>
      (passes group).map fun tile => tupleOf rank (p.partsBound group tile) := by
  constructor
  · rintro ⟨passes', hpasses, rfl⟩
    refine List.flatMap_congr fun group hgroup => ?_
    have hlt := List.mem_range.mp hgroup
    rw [(h group hlt _).mp (hpasses group hlt)]
  · rintro rfl
    exact ⟨passes, fun group hlt => (h group hlt _).mpr rfl, rfl⟩

/-- Without a loop every group passes once. -/
theorem visits_of_tileLoop_none {p : Program} (h : p.tileLoop = none) {rank : Nat}
    {visits : List (List Int)} :
    p.Visits rank visits ↔
      visits = (List.range p.groupCount).map fun group => tupleOf rank (p.partsBound group none) := by
  have hpasses (group : Nat) (l : List (Option Int)) : p.Passes group l ↔ l = [none] := by
    rw [Passes, h]
  rw [visits_iff fun group _ => hpasses group]
  exact iff_of_eq (congrArg (visits = ·) (List.flatMap_pure_eq_map ..))

/-- The tuples of a loop are those of its tiles. -/
theorem visits_of_tileLoop {p : Program} {total : Int} (h : p.tileLoop = some total)
    (hg : 0 < p.groupCount) (htotal : 0 ≤ total) (hfit : p.CountsInInt) {rank : Nat}
    {F : Int → List Int} (hF : ∀ group tile, 0 ≤ tile → tile < 0x80000000 →
      tupleOf rank (p.partsBound group (some tile)) = F tile) {visits : List (List Int)} :
    p.Visits rank visits ↔ visits = (launchedTiles total p.groupCount).map F := by
  rw [CountsInInt, h, Option.getD_some] at hfit
  have hpasses : ∀ group < p.groupCount, ∀ l,
      p.Passes group l ↔ l = (loopTiles total p.groupCount group).map some := by
    intro group hgroup l
    have hnarrow := narrow_of_lt (Int.natCast_nonneg group) (by omega)
    simp only [Passes, h, hnarrow, loopRuns_iff hg hfit (Int.natCast_nonneg group), exists_eq_left]
  have htuples : ∀ group ∈ List.range p.groupCount,
      ((loopTiles total p.groupCount group).map some).map
        (fun tile => tupleOf rank (p.partsBound group tile)) =
      (loopTiles total p.groupCount group).map F := by
    intro group _
    rw [List.map_map]
    refine List.map_congr_left fun tile htile => ?_
    obtain ⟨hle, hlt, -⟩ := (mem_loopTiles hg).mp htile
    exact hF group tile ((Int.natCast_nonneg group).trans hle) (by omega)
  rw [visits_iff hpasses, launchedTiles, List.map_flatMap, List.flatMap_congr htuples]

end Program

/-- The part indices of a program are those of its schedule. -/
theorem partsBound_of_emit {k : Kernel} {p : Program} {s : Schedule} (hp : emit k = .ok p)
    (hs : k.schedule = some s) (group : Nat) (tile : Option Int) :
    p.partsBound group tile = bindParts group tile (partIndices s) fun _ => 0 := by
  obtain ⟨s', hs', hbody⟩ := emit_eq_ok hp
  obtain rfl := Option.some.inj (hs'.symm.trans hs)
  obtain ⟨coordinates, buffers, calls, hcoordinates, hbuffers, hcalls, heq⟩ := bodyOf_eq_ok hbody
  rw [Program.partsBound, heq, bindParts_append, bindParts_append, bindParts_append,
    bindParts_of_segment (segment_callStmts hcalls) (by decide),
    bindParts_of_segment (segment_buffers hbuffers) (by decide),
    bindParts_of_segment (segment_coordinates hcoordinates) (by decide)]

/-- A pass of the tile loop binds the digits of its tile. -/
theorem partsBound_tile {k : Kernel} {p : Program} {s : Schedule} (hp : emit k = .ok p)
    (hs : k.schedule = some s) (hm : s.mode = .externalTiling) (group : Nat) {tile : Int}
    (h0 : 0 ≤ tile) (htile : tile < 0x80000000) :
    p.partsBound group (some tile) = digits (splitDims s.partitions) tile fun _ => 0 := by
  have hdigits := bindParts_tileDigits group h0 htile Int.one_pos (splitDims_pos s.partitions) fun _ => 0
  rw [Int.ediv_one] at hdigits
  rw [partsBound_of_emit hp hs, partIndices, hm]
  exact hdigits

/-- What a schedule has to say for its parts to be distributed. -/
structure Distributed (s : Schedule) : Prop where
  parts_pos : ∀ p ∈ s.partitions, 1 ≤ p.parts
  items_pos : 0 < s.workItems
  groups_pos : 0 < s.workGroups
  whole : s.mode = .wholeImage → s.workGroups = 1 ∧ splitDims s.partitions = []
  sliced : s.mode = .workGroupSlicing →
    (s.workGroups : Int) = volume (splitDims s.partitions) ∧ (splitDims s.partitions).length ≤ 1

/-- The numbers whose digits the passes bind. -/
def launchedNumbers (s : Schedule) : List Int :=
  match s.mode with
  | .externalTiling => launchedTiles (volume (splitDims s.partitions)) s.workGroups
  | _ => (List.range s.workGroups).map fun group : Nat => (group : Int)

namespace Distributed

variable {k : Kernel} {p : Program} {s : Schedule} (hd : Distributed s)

include hd

theorem nodup_launchedNumbers : (launchedNumbers s).Nodup := by
  unfold launchedNumbers
  split
  · exact nodup_launchedTiles _ hd.groups_pos
  · exact List.nodup_range.map Nat.cast_injective

theorem mem_launchedNumbers {n : Int} :
    n ∈ launchedNumbers s ↔ 0 ≤ n ∧ n < volume (splitDims s.partitions) := by
  unfold launchedNumbers
  split
  · exact mem_launchedTiles hd.groups_pos
  · next hmode =>
    have hgroups : (s.workGroups : Int) = volume (splitDims s.partitions) := by
      cases hm : s.mode with
      | wholeImage =>
        obtain ⟨hone, hnil⟩ := hd.whole hm
        rw [hone, hnil]
        rfl
      | workGroupSlicing => exact (hd.sliced hm).1
      | externalTiling => exact absurd hm hmode
    simp only [List.mem_map, List.mem_range, ← hgroups]
    constructor
    · rintro ⟨group, hlt, rfl⟩
      omega
    · rintro ⟨h0, hlt⟩
      exact ⟨n.toNat, by omega, Int.toNat_of_nonneg h0⟩

theorem groupCount_eq (hp : emit k = .ok p) (hs : k.schedule = some s) :
    p.groupCount = s.workGroups := by
  obtain ⟨-, hgroups, hitems⟩ := launch_of_emit hp hs
  exact (Program.groupCount_eq (hitems ▸ hd.items_pos)).trans hgroups

/-- The passes of a program bind the digits of the numbers. -/
theorem visits_iff (hp : emit k = .ok p) (hs : k.schedule = some s) (hfit : p.CountsInInt)
    {rank : Nat} {visits : List (List Int)} :
    p.Visits rank visits ↔ visits =
      (launchedNumbers s).map fun n => tupleOf rank (digits (splitDims s.partitions) n fun _ => 0) := by
  obtain ⟨hloop, -, -⟩ := launch_of_emit hp hs
  have hcount := hd.groupCount_eq hp hs
  have hbound := partsBound_of_emit hp hs
  unfold launchedNumbers
  cases hm : s.mode with
  | externalTiling =>
    rw [tileLoop, hm] at hloop
    dsimp only
    rw [← hcount]
    refine Program.visits_of_tileLoop hloop (hcount ▸ hd.groups_pos)
      (volume_pos (splitDims_pos s.partitions)).le hfit fun group tile h0 hlt => ?_
    rw [partsBound_tile hp hs hm group h0 hlt]
  | workGroupSlicing =>
    rw [tileLoop, hm] at hloop
    dsimp only
    rw [Program.visits_of_tileLoop_none hloop, hcount, List.map_map]
    refine iff_of_eq (congrArg (visits = ·) (List.map_congr_left fun group hgroup => ?_))
    obtain ⟨hvolume, hlen⟩ := hd.sliced hm
    rw [Program.CountsInInt, hloop, Option.getD_none, hcount] at hfit
    have hgroup := List.mem_range.mp hgroup
    rw [hbound, partIndices, hm]
    exact congrArg (tupleOf rank) (bindParts_groups hlen (by omega) (by omega) none _)
  | wholeImage =>
    rw [tileLoop, hm] at hloop
    dsimp only
    rw [Program.visits_of_tileLoop_none hloop, hcount, List.map_map]
    refine iff_of_eq (congrArg (visits = ·) (List.map_congr_left fun group _ => ?_))
    rw [hbound, partIndices, hm, Function.comp_apply, (hd.whole hm).2]
    rfl

/-- The launch of a program ends, and binds every tuple of part indices in one pass, and no
other. -/
theorem exists_visits (hp : emit k = .ok p) (hs : k.schedule = some s) (hfit : p.CountsInInt) :
    ∃ visits, (∀ l, p.Visits s.partitions.length l ↔ l = visits) ∧
      (∀ t, InRange s.partitions t → visits.count t = 1) ∧ ∀ t ∈ visits, InRange s.partitions t := by
  obtain ⟨hmaps, hinj, hsurj⟩ := digits_bijOn hd.parts_pos
  refine ⟨_, fun l => hd.visits_iff hp hs hfit, fun t ht => List.count_eq_one_of_mem ?_ ?_,
    fun t ht => ?_⟩
  · refine hd.nodup_launchedNumbers.map_on fun m hm n hn heq => ?_
    exact hinj (hd.mem_launchedNumbers.mp hm) (hd.mem_launchedNumbers.mp hn) heq
  · obtain ⟨n, hn, rfl⟩ := hsurj ht
    exact List.mem_map.mpr ⟨n, hd.mem_launchedNumbers.mpr hn, rfl⟩
  · obtain ⟨n, hn, rfl⟩ := List.mem_map.mp ht
    exact hmaps (hd.mem_launchedNumbers.mp hn)

/-- The tile loop counts to the number of tuples, and its tiles are the tuples. -/
theorem bijOn_tiles (hp : emit k = .ok p) (hs : k.schedule = some s) (hfit : p.CountsInInt)
    (hm : s.mode = .externalTiling) :
    ∃ total, p.tileLoop = some total ∧ ∀ group,
      Set.BijOn (fun tile => tupleOf s.partitions.length (p.partsBound group (some tile)))
        {tile | 0 ≤ tile ∧ tile < total} {t | InRange s.partitions t} := by
  obtain ⟨hloop, -, -⟩ := launch_of_emit hp hs
  rw [tileLoop, hm] at hloop
  rw [Program.CountsInInt, hloop, Option.getD_some] at hfit
  refine ⟨_, hloop, fun group => (digits_bijOn hd.parts_pos).congr fun tile htile => ?_⟩
  obtain ⟨h0, hlt⟩ : 0 ≤ tile ∧ tile < volume (splitDims s.partitions) := htile
  have hsmall : tile < 0x80000000 := by
    have : volume (splitDims s.partitions) + p.groupCount ≤ 0x80000000 := hfit
    omega
  exact congrArg (tupleOf s.partitions.length) (partsBound_tile hp hs hm group h0 hsmall).symm

end Distributed

end StencilTiling.Code
