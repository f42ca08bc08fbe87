import StencilTiling.Host.Tree
import StencilTiling.Proofs.Checked

/-! What stands where after a tree was changed, and where a path leads. A change at one
place shows at this place only, and a path leads to a place with its own last name, through
whatever links. -/

namespace StencilTiling

namespace Tree

/-! ### Entries -/

section Lookup

variable {l : List (Place × Entry)} (keep : Place → Bool) {p : Place}

theorem lookup_filter_of_kept (h : keep p = true) : (l.filter fun e => keep e.1).lookup p = l.lookup p := by
  induction l with
  | nil => rfl
  | cons e rest ih =>
    obtain ⟨q, entry⟩ := e
    by_cases hq : p = q
    · subst hq
      simp [h]
    · have hne : (p == q) = false := beq_false_of_ne hq
      by_cases hkeep : keep q = true <;> simp [List.lookup_cons, hkeep, hne, ih]

theorem lookup_filter_of_dropped (h : keep p = false) : (l.filter fun e => keep e.1).lookup p = none := by
  rw [List.lookup_eq_none_iff]
  intro e he
  have hkept := (List.mem_filter.mp he).2
  refine bne_iff_ne.mpr ?_
  rintro rfl
  exact absurd hkept (by simp [h])

end Lookup

variable {t : Tree} {p q : Place} {e : Entry}

@[simp]
theorem get?_root (t : Tree) : t.get? [] = some .folder := rfl

theorem get?_of_ne_root (hp : p ≠ []) : t.get? p = t.entries.lookup p := by
  rw [get?, if_neg (by simpa using hp)]

theorem get?_insert_self (hp : p ≠ []) : (t.insert p e).get? p = some e := by
  rw [get?_of_ne_root hp, insert, List.lookup_cons_self]

theorem get?_insert_of_ne (h : q ≠ p) : (t.insert p e).get? q = t.get? q := by
  by_cases hq : q = []
  · rw [hq, get?_root, get?_root]
  · rw [get?_of_ne_root hq, get?_of_ne_root hq, insert, List.lookup_cons, beq_false_of_ne h]
    exact lookup_filter_of_kept (· != p) (bne_iff_ne.mpr h)

theorem get?_erase_self (hp : p ≠ []) : (t.erase p).get? p = none := by
  rw [get?_of_ne_root hp]
  exact lookup_filter_of_dropped (· != p) (bne_self_eq_false p)

theorem get?_erase_of_ne (h : q ≠ p) : (t.erase p).get? q = t.get? q := by
  by_cases hq : q = []
  · rw [hq, get?_root, get?_root]
  · rw [get?_of_ne_root hq, get?_of_ne_root hq]
    exact lookup_filter_of_kept (· != p) (bne_iff_ne.mpr h)

theorem get?_eraseBelow_of_below (hq : q ≠ []) (h : p <+: q) : (t.eraseBelow p).get? q = none := by
  rw [get?_of_ne_root hq]
  exact lookup_filter_of_dropped (fun q => !p.isPrefixOf q) (by simpa using h)

theorem get?_eraseBelow_of_not_below (h : ¬ p <+: q) : (t.eraseBelow p).get? q = t.get? q := by
  by_cases hq : q = []
  · rw [hq, get?_root, get?_root]
  · have hkeep : (!p.isPrefixOf q) = true := by
      rw [Bool.not_eq_true', ← Bool.not_eq_true, List.isPrefixOf_iff_prefix]
      exact h
    rw [get?_of_ne_root hq, get?_of_ne_root hq]
    exact lookup_filter_of_kept (fun q => !p.isPrefixOf q) hkeep

/-! ### Names of their own -/

theorem stemmed_ne_root (folder : Place) (stem : String) (s : Suffix) : stemmed folder stem s ≠ [] := by
  simp [stemmed]

/-! ### Paths -/

/-- Paths lead the same way in both trees: files may hold something else, and nothing more. -/
def SameShape (t t' : Tree) : Prop :=
  ∀ p, t.get? p = t'.get? p ∨ ∃ c c', t.get? p = some (.file c) ∧ t'.get? p = some (.file c')

section Shape

variable {t' : Tree} (h : SameShape t t')

include h

theorem SameShape.isFolder (p : Place) : t.isFolder p = t'.isFolder p := by
  unfold Tree.isFolder
  rcases h p with heq | ⟨c, c', hc, hc'⟩
  · rw [heq]
  · rw [hc, hc']
    rfl

theorem SameShape.walkToLink (follow : Bool) (here : Place) (pieces : List String) :
    t.walkToLink follow here pieces = t'.walkToLink follow here pieces := by
  induction pieces generalizing here with
  | nil => rfl
  | cons piece rest ih =>
    simp only [Tree.walkToLink, ih]
    rcases h (here ++ [piece]) with heq | ⟨c, c', hc, hc'⟩
    · rw [heq]
    · rw [hc, hc']

theorem SameShape.walkOn (follow : Bool) (links : Nat) (here : Place) (pieces : List String) :
    t.walkOn follow links here pieces = t'.walkOn follow links here pieces := by
  induction links generalizing here pieces with
  | zero => rfl
  | succ links ih => simp only [Tree.walkOn, h.walkToLink, ih]

theorem SameShape.locate (follow : Bool) (here : Place) (path : String) :
    t.locate follow here path = t'.locate follow here path := by
  simp only [Tree.locate, h.walkOn, h.isFolder]

end Shape

/-- A file may be written over without moving anything. -/
theorem sameShape_insert {c : Content} (h : t.get? p = some (.file c)) (c' : Content) :
    SameShape (t.insert p (.file c')) t := by
  intro q
  by_cases hq : q = p
  · have hroot : p ≠ [] := by
      rintro rfl
      cases h
    exact .inr ⟨c', c, by rw [hq, get?_insert_self hroot], by rw [hq, h]⟩
  · exact .inl (get?_insert_of_ne hq)

/-- The walk is at a place of that name, or has it as its last piece ahead. -/
def Station.EndsIn (name : String) : Station → Prop
  | .here p => p.getLast? = some name
  | .link _ _ rest => rest.getLast? = some name

section LastName

variable {name : String} (hidle : ¬ (name = "" ∨ name = ".")) (hup : name ≠ "..")

include hidle hup

theorem walkToLink_endsIn {here : Place} {pieces : List String} {st : Station}
    (h : t.walkToLink false here (pieces ++ [name]) = .ok st) : st.EndsIn name := by
  induction pieces generalizing here with
  | nil =>
    have hlast : (here ++ [name]).getLast? = some name := by simp
    rw [List.nil_append, walkToLink, if_neg hidle, if_neg hup] at h
    by_cases hlong : maxNameBytes < name.utf8ByteSize
    · rw [if_pos hlong] at h
      cases h
    · rw [if_neg hlong] at h
      dsimp only at h
      generalize t.get? (here ++ [name]) = entry at h
      rcases entry with _ | _ | _ | _
      all_goals
        cases h
        exact hlast
  | cons piece rest ih =>
    have hmore : (rest ++ [name]).isEmpty = false := by simp
    rw [List.cons_append, walkToLink, hmore] at h
    by_cases hidle' : piece = "" ∨ piece = "."
    · rw [if_pos hidle'] at h
      exact ih h
    rw [if_neg hidle'] at h
    by_cases hup' : piece = ".."
    · rw [if_pos hup'] at h
      exact ih h
    rw [if_neg hup'] at h
    by_cases hlong : maxNameBytes < piece.utf8ByteSize
    · rw [if_pos hlong] at h
      cases h
    · rw [if_neg hlong] at h
      dsimp only at h
      generalize t.get? (here ++ [piece]) = entry at h
      rcases entry with _ | _ | _ | path
      · cases h
      · exact ih h
      · cases h
      · cases h
        exact List.getLast?_concat

/-- Only the last piece names the place, through whatever links the others lead. -/
theorem walkOn_getLast? {links : Nat} {here p : Place} {pieces : List String}
    (hlast : pieces.getLast? = some name) (h : t.walkOn false links here pieces = .ok p) :
    p.getLast? = some name := by
  induction links generalizing here pieces with
  | zero => cases h
  | succ links ih =>
    obtain ⟨init, rfl⟩ := List.getLast?_eq_some_iff.mp hlast
    rw [walkOn] at h
    rcases hwalk : t.walkToLink false here (init ++ [name]) with e | st
    · rw [hwalk] at h
      cases h
    · have hends := walkToLink_endsIn hidle hup hwalk
      rw [hwalk] at h
      cases st with
      | here q =>
        cases h
        exact hends
      | link folder path rest =>
        refine ih ?_ h
        obtain ⟨init', rfl⟩ := List.getLast?_eq_some_iff.mp hends
        rw [← List.append_assoc]
        exact List.getLast?_concat

theorem locate_getLast? {here p : Place} {path : String} (hlast : (Path.pieces path).getLast? = some name)
    (h : t.locate false here path = .ok p) : p.getLast? = some name := by
  unfold locate at h
  split_ifs at h
  · exact walkOn_getLast? hidle hup hlast h
  · exact walkOn_getLast? hidle hup hlast h

end LastName

end Tree

end StencilTiling
