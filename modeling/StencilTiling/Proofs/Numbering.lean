import Mathlib.Data.List.Nodup
import StencilTiling.Numbering

/-! What one numbering hands out is different, whatever the names are. A symbol starts
with its number, and the first underscore after it ends the number; so a name that looks
like a number does not matter. -/

namespace StencilTiling

/-- The first separator tells the parts of a list apart. -/
theorem append_separator_inj {α : Type} {c : α} {xs ys r s : List α} (hx : c ∉ xs)
    (hy : c ∉ ys) (h : xs ++ c :: r = ys ++ c :: s) : xs = ys ∧ r = s := by
  induction xs generalizing ys with
  | nil =>
    cases ys with
    | nil => exact ⟨rfl, (List.cons.inj h).2⟩
    | cons y ys => exact absurd List.mem_cons_self ((List.cons.inj h).1 ▸ hy)
  | cons x xs ih =>
    cases ys with
    | nil => exact absurd List.mem_cons_self ((List.cons.inj h).1 ▸ hx)
    | cons y ys =>
      simp only [List.mem_cons, not_or] at hx hy
      obtain ⟨rfl, htail⟩ := List.cons.inj h
      obtain ⟨rfl, rfl⟩ := ih hx.2 hy.2 htail
      exact ⟨rfl, rfl⟩

/-! ### Symbols -/

theorem underscore_notMem_toDigits (n : Nat) : '_' ∉ Nat.toDigits 10 n := fun h =>
  absurd (Nat.isDigit_of_mem_toDigits (by decide) (by decide) h) (by decide)

theorem eq_of_toDigits_eq {m n : Nat} (h : Nat.toDigits 10 m = Nat.toDigits 10 n) : m = n := by
  simpa using congrArg (fun digits => Nat.ofDigitChars 10 digits 0) h

namespace Numbering

theorem toList_symbol (n : Numbering) (base : String) : (n.symbol base).1.toList =
    "compute_".toList ++ (Nat.toDigits 10 n.nextSymbol ++ '_' :: base.toList) := by
  have hdigits : (toString n.nextSymbol).toList = Nat.toDigits 10 n.nextSymbol := by
    rw [Nat.toString_eq_ofList_toDigits, String.toList_ofList]
  simp only [symbol, String.toList_append, hdigits, List.append_assoc]
  rfl

theorem nextSymbol_eq_of_symbol_eq {m n : Numbering} {base base' : String}
    (h : (m.symbol base).1 = (n.symbol base').1) : m.nextSymbol = n.nextSymbol := by
  have hlist := congrArg String.toList h
  rw [toList_symbol, toList_symbol] at hlist
  obtain ⟨hdigits, -⟩ := append_separator_inj (underscore_notMem_toDigits _)
    (underscore_notMem_toDigits _) (List.append_cancel_left hlist)
  exact eq_of_toDigits_eq hdigits

end Numbering

/-! ### Labels -/

/-- What a node is known by. -/
structure Label where
  uid : Nat
  name : String
  symbol : String

namespace Numbering

/-- The label of the next node. -/
def label (n : Numbering) (name : String) : Label := ⟨n.node.1, name, (n.node.2.symbol name).1⟩

/-- The numbers left after a node was labelled. -/
def labelled (n : Numbering) (name : String) : Numbering := (n.node.2.symbol name).2

/-- Each label was handed out before, and to one node only. -/
structure Issued (n : Numbering) (labels : List Label) : Prop where
  uids_nodup : (labels.map Label.uid).Nodup
  symbols_nodup : (labels.map Label.symbol).Nodup
  earlier : ∀ l ∈ labels, ∃ m : Numbering,
    l = m.label l.name ∧ m.nextNode < n.nextNode ∧ m.nextSymbol < n.nextSymbol

namespace Issued

variable {n : Numbering} {labels labels' : List Label}

theorem nil (n : Numbering) : n.Issued [] := by
  constructor <;> simp

theorem perm (h : n.Issued labels) (hperm : labels'.Perm labels) : n.Issued labels' where
  uids_nodup := (hperm.map Label.uid).nodup_iff.mpr h.uids_nodup
  symbols_nodup := (hperm.map Label.symbol).nodup_iff.mpr h.symbols_nodup
  earlier l hl := h.earlier l (hperm.mem_iff.mp hl)

/-- One more node gets a new number and a new symbol. -/
theorem cons (h : n.Issued labels) (name : String) :
    (n.labelled name).Issued (n.label name :: labels) where
  uids_nodup := by
    refine List.nodup_cons.mpr ⟨fun hmem => ?_, h.uids_nodup⟩
    obtain ⟨l, hl, huid⟩ := List.mem_map.mp hmem
    obtain ⟨m, hm, hlt, -⟩ := h.earlier l hl
    rw [hm] at huid
    exact Nat.ne_of_lt hlt huid
  symbols_nodup := by
    refine List.nodup_cons.mpr ⟨fun hmem => ?_, h.symbols_nodup⟩
    obtain ⟨l, hl, hsymbol⟩ := List.mem_map.mp hmem
    obtain ⟨m, hm, -, hlt⟩ := h.earlier l hl
    rw [hm] at hsymbol
    exact Nat.ne_of_lt hlt (nextSymbol_eq_of_symbol_eq hsymbol)
  earlier := by
    refine List.forall_mem_cons.mpr ⟨⟨n, rfl, Nat.lt_succ_self _, Nat.lt_succ_self _⟩, fun l hl => ?_⟩
    obtain ⟨m, hm, hnode, hsymbol⟩ := h.earlier l hl
    exact ⟨m, hm, Nat.lt_succ_of_lt hnode, Nat.lt_succ_of_lt hsymbol⟩

end Issued

end Numbering

end StencilTiling
