import Mathlib.Algebra.Order.Ring.Nat
import Mathlib.Data.List.TakeWhile
import StencilTiling.Text.Blank
import StencilTiling.Text.Integer

/-! Reading text. Pieces without separators, joined by one, are found again; blanks at the ends
are trimmed, and blanks between words do not count. A number is read as it is written. -/

namespace StencilTiling.Text

/-! ### Pieces -/

section Pieces

variable {isSep : Char → Bool}

theorem splitAt_cons_sep {c : Char} (hc : isSep c = true) (cs : List Char) :
    splitAt isSep (c :: cs) = [] :: splitAt isSep cs := by
  simp [splitAt, hc]

theorem splitAt_ne_nil (isSep : Char → Bool) (cs : List Char) : splitAt isSep cs ≠ [] := by
  induction cs with
  | nil => simp [splitAt]
  | cons c rest ih =>
    simp only [splitAt, List.foldr_cons]
    split_ifs
    · simp
    · split <;> simp

theorem splitAt_cons_of_not {c : Char} (hc : isSep c = false) (cs : List Char) :
    ∃ piece rest, splitAt isSep cs = piece :: rest ∧ splitAt isSep (c :: cs) = (c :: piece) :: rest := by
  obtain ⟨piece, rest, hcs⟩ := List.exists_cons_of_ne_nil (splitAt_ne_nil isSep cs)
  refine ⟨piece, rest, hcs, ?_⟩
  rw [splitAt, List.foldr_cons, hc]
  rw [splitAt] at hcs
  simp [hcs]

/-- Behind a separator a new piece starts. -/
theorem splitAt_append (isSep : Char → Bool) {c : Char} (hc : isSep c = true) (xs ys : List Char) :
    ∃ pieces, splitAt isSep (xs ++ c :: ys) = pieces ++ splitAt isSep ys ∧ pieces ≠ [] := by
  induction xs with
  | nil => exact ⟨[[]], splitAt_cons_sep hc ys, by simp⟩
  | cons x rest ih =>
    obtain ⟨pieces, heq, hne⟩ := ih
    cases hx : isSep x with
    | true => exact ⟨[] :: pieces, by rw [List.cons_append, splitAt_cons_sep hx, heq, List.cons_append], by simp⟩
    | false =>
      obtain ⟨piece, more, hsplit, hcons⟩ := splitAt_cons_of_not hx (rest ++ c :: ys)
      obtain ⟨first, others, rfl⟩ := List.exists_cons_of_ne_nil hne
      rw [heq, List.cons_append] at hsplit
      obtain ⟨rfl, rfl⟩ := List.cons.inj hsplit
      exact ⟨(x :: first) :: others, hcons, by simp⟩

theorem splitAt_of_forall {cs : List Char} (h : ∀ c ∈ cs, isSep c = false) : splitAt isSep cs = [cs] := by
  induction cs with
  | nil => rfl
  | cons c rest ih =>
    obtain ⟨piece, more, hsplit, hcons⟩ := splitAt_cons_of_not (h c List.mem_cons_self) rest
    rw [ih fun d hd => h d (List.mem_cons_of_mem c hd)] at hsplit
    obtain ⟨rfl, rfl⟩ := List.cons.inj hsplit
    exact hcons

theorem not_isSep_of_mem_splitAt {cs piece : List Char} (h : piece ∈ splitAt isSep cs) :
    ∀ c ∈ piece, isSep c = false := by
  induction cs generalizing piece with
  | nil => simp_all [splitAt]
  | cons c rest ih =>
    cases hc : isSep c with
    | true =>
      rw [splitAt_cons_sep hc] at h
      rcases List.mem_cons.mp h with rfl | h
      · simp
      · exact ih h
    | false =>
      obtain ⟨first, more, hsplit, hcons⟩ := splitAt_cons_of_not hc rest
      rw [hcons] at h
      rcases List.mem_cons.mp h with rfl | h
      · intro d hd
        rcases List.mem_cons.mp hd with rfl | hd
        · exact hc
        · exact ih (hsplit ▸ List.mem_cons_self) d hd
      · exact ih (hsplit ▸ List.mem_cons_of_mem first h)

/-- The first piece ends at the first separator. -/
theorem splitAt_first {xs : List Char} (hxs : ∀ c ∈ xs, isSep c = false) {c : Char}
    (hc : isSep c = true) (ys : List Char) : splitAt isSep (xs ++ c :: ys) = xs :: splitAt isSep ys := by
  induction xs with
  | nil => exact splitAt_cons_sep hc ys
  | cons x rest ih =>
    obtain ⟨piece, more, hsplit, hcons⟩ := splitAt_cons_of_not (hxs x List.mem_cons_self) (rest ++ c :: ys)
    rw [ih fun d hd => hxs d (List.mem_cons_of_mem x hd)] at hsplit
    obtain ⟨rfl, rfl⟩ := List.cons.inj hsplit
    exact hcons

/-- Pieces without separators, with one between any two, are found again. -/
theorem splitAt_intercalate {c : Char} (hc : isSep c = true) {pieces : List (List Char)}
    (hne : pieces ≠ []) (h : ∀ piece ∈ pieces, ∀ c ∈ piece, isSep c = false) :
    splitAt isSep ([c].intercalate pieces) = pieces := by
  induction pieces with
  | nil => exact absurd rfl hne
  | cons piece rest ih =>
    have hpiece := h piece List.mem_cons_self
    cases rest with
    | nil =>
      rw [List.intercalate_singleton]
      exact splitAt_of_forall hpiece
    | cons next more =>
      rw [List.intercalate_cons_cons, List.append_assoc, List.singleton_append,
        splitAt_first hpiece hc, ih (List.cons_ne_nil _ _) fun p hp => h p (List.mem_cons_of_mem piece hp)]

theorem lines_intercalate {init : List (List Char)} {last : List Char}
    (h : ∀ line ∈ init ++ [last], '\n' ∉ line) :
    lines (['\n'].intercalate (init ++ [last])) =
      init.map dropReturn ++ if last.isEmpty then [] else [last] := by
  have hpieces : splitAt (· == '\n') (['\n'].intercalate (init ++ [last])) = init ++ [last] := by
    refine splitAt_intercalate rfl (by simp) fun line hline c hc => ?_
    rw [beq_eq_false_iff_ne]
    rintro rfl
    exact h line hline hc
  unfold lines
  rw [hpieces]
  dsimp only
  rw [List.dropLast_concat, List.getLast?_concat, Option.getD_some]

theorem forall_ne_of_not_mem {sep : Char} {cs : List Char} (h : sep ∉ cs) :
    ∀ c ∈ cs, decide (c ≠ sep) = true := by
  intro c hc
  rw [decide_eq_true_eq]
  rintro rfl
  exact h hc

theorem splitOnce_append {sep : Char} {key : List Char} (h : sep ∉ key) (value : List Char) :
    splitOnce sep (key ++ sep :: value) = some (key, value) := by
  have hkey := forall_ne_of_not_mem h
  unfold splitOnce
  rw [List.dropWhile_append_of_pos hkey, List.takeWhile_append_of_pos hkey]
  simp

theorem splitOnce_of_not_mem {sep : Char} {cs : List Char} (h : sep ∉ cs) : splitOnce sep cs = none := by
  rw [splitOnce, List.dropWhile_eq_nil_iff.mpr (forall_ne_of_not_mem h)]

end Pieces

/-! ### Blanks -/

section Blanks

variable {before cs after : List Char} (hbefore : ∀ c ∈ before, isBlank c = true)
  (hafter : ∀ c ∈ after, isBlank c = true)

include hafter in
theorem trimEnd_append (cs : List Char) : trimEnd (cs ++ after) = trimEnd cs := by
  rw [trimEnd, List.reverse_append, List.dropWhile_append_of_pos (by simpa using hafter), ← trimEnd]

include hbefore hafter in
/-- Blanks at the ends do not count. -/
theorem trim_append (cs : List Char) : trim (before ++ cs ++ after) = trim cs := by
  unfold trim trimStart
  rw [List.append_assoc, List.dropWhile_append_of_pos hbefore, List.dropWhile_append]
  split_ifs with hcs
  · rw [List.isEmpty_iff.mp hcs, List.dropWhile_eq_nil_iff.mpr hafter]
  · exact trimEnd_append hafter _

/-- Nothing is trimmed if there are no blanks at the ends. -/
theorem trim_of_ends (hhead : ∀ c ∈ cs.head?, isBlank c = false)
    (hlast : ∀ c ∈ cs.getLast?, isBlank c = false) : trim cs = cs := by
  have hstart {cs : List Char} (h : ∀ c ∈ cs.head?, isBlank c = false) : cs.dropWhile isBlank = cs := by
    cases cs with
    | nil => rfl
    | cons c rest => exact List.dropWhile_cons_of_neg (by simp [h c rfl])
  rw [trim, trimStart, hstart hhead, trimEnd, hstart (by simpa using hlast), List.reverse_reverse]

include hbefore in
theorem words_append_blank (cs : List Char) : words (before ++ cs) = words cs := by
  induction before with
  | nil => rfl
  | cons c rest ih =>
    rw [List.cons_append, words, splitAt_cons_sep (hbefore c List.mem_cons_self)]
    exact ih fun d hd => hbefore d (List.mem_cons_of_mem c hd)

/-- A word ends at the first blank. -/
theorem words_append {word : List Char} (hword : ∀ c ∈ word, isBlank c = false) (hne : word ≠ [])
    {c : Char} (hc : isBlank c = true) (cs : List Char) : words (word ++ c :: cs) = word :: words cs := by
  rw [words, splitAt_first hword hc, List.filter_cons_of_pos (by simpa using hne), ← words]

/-- Two words with blanks between them. -/
theorem words_pair {first second between : List Char} (hfirst : ∀ c ∈ first, isBlank c = false)
    (hfirst_ne : first ≠ []) (hsecond : ∀ c ∈ second, isBlank c = false) (hsecond_ne : second ≠ [])
    (hbetween : ∀ c ∈ between, isBlank c = true) (hne : between ≠ [])
    (hbefore : ∀ c ∈ before, isBlank c = true) (hafter : ∀ c ∈ after, isBlank c = true) :
    words (before ++ first ++ between ++ second ++ after) = [first, second] := by
  have hlast : words (second ++ after) = [second] := by
    cases after with
    | nil =>
      rw [List.append_nil, words, splitAt_of_forall hsecond, List.filter_cons_of_pos (by simpa using hsecond_ne),
        List.filter_nil]
    | cons c rest =>
      have hrest : words rest = [] := by
        rw [← List.append_nil rest, words_append_blank fun d hd => hafter d (List.mem_cons_of_mem c hd)]
        rfl
      rw [words_append hsecond hsecond_ne (hafter c List.mem_cons_self), hrest]
  obtain ⟨c, rest, rfl⟩ := List.exists_cons_of_ne_nil hne
  simp only [List.append_assoc, List.cons_append]
  rw [words_append_blank hbefore, words_append hfirst hfirst_ne (hbetween c List.mem_cons_self),
    words_append_blank fun d hd => hbetween d (List.mem_cons_of_mem c hd), hlast]

end Blanks

/-! ### Numbers -/

theorem not_isBlank_of_isDigit {c : Char} (h : c.isDigit = true) : isBlank c = false := by
  have hrange : 48 ≤ c.toNat ∧ c.toNat ≤ 57 := Char.isDigit_iff_toNat.mp h
  unfold isBlank
  simp only [Bool.or_eq_false_iff, Bool.and_eq_false_iff, decide_eq_false_iff_not, beq_eq_false_iff_ne]
  omega

/-- Decimal digits are read as the number that they write. -/
theorem readDigits?_toDigits (n : Nat) : readDigits? (Nat.toDigits 10 n) = some n := by
  have hdigits : (Nat.toDigits 10 n).all Char.isDigit = true :=
    List.all_eq_true.mpr fun _ => Nat.isDigit_of_mem_toDigits (by decide) (by decide)
  have hne : (Nat.toDigits 10 n).isEmpty = false := List.isEmpty_eq_false_iff.mpr Nat.toDigits_ne_nil
  rw [readDigits?, hdigits, hne, digitsValue]
  exact congrArg some Nat.ofDigitChars_ten_toDigits

theorem readInt?_toString {n : Nat} (h : n < 2 ^ 63) : readInt? (toString n).toList = some (n : Int) := by
  have hsign {c : Char} {rest : List Char} (hc : c.isDigit = false) : Nat.toDigits 10 n ≠ c :: rest := by
    intro hcs
    have hdigit := Nat.isDigit_of_mem_toDigits (b := 10) (n := n) (c := c) (by decide) (by decide)
      (hcs ▸ List.mem_cons_self)
    cases hdigit.symm.trans hc
  have hfits : Arith.FitsWord n := by
    unfold Arith.FitsWord Arith.minWord Arith.maxWord
    omega
  rw [Nat.toString_eq_ofList_toDigits, String.toList_ofList]
  unfold readInt?
  dsimp only
  split
  · next rest hcs => exact absurd hcs (hsign rfl)
  · next rest hcs => exact absurd hcs (hsign rfl)
  · rw [readDigits?_toDigits]
    exact Option.filter_eq_some_iff.mpr ⟨rfl, decide_eq_true hfits⟩

end StencilTiling.Text
