import StencilTiling.Host.Basic
import StencilTiling.Proofs.Checked
import StencilTiling.Proofs.Host.Tree

/-! What steps outside can change. A step that is refused changes nothing; one that is not
changes the entry it names. A run takes vacant names for its temporary folders and scratch
files, so whatever it does with them, it leaves alone what was there before. -/

namespace StencilTiling.Host

open StencilTiling.Tree (stemmed)

/-- The host one step later. -/
def ticked (h : Host) : Host := { h with clock := h.clock + 1 }

/-- The host one step later, with other files. -/
def withTree (h : Host) (t : Tree) : Host := { h.ticked with tree := t }

/-- The host with an entry put in place. -/
def put (h : Host) (p : Place) (e : Entry) : Host := { h with tree := h.tree.insert p e }

/-! ### Single steps -/

section Steps

variable {α : Type}

theorem step_cases (h : Host) :
    (∃ e, step h = (.error e, h.ticked)) ∨ step h = (.ok (), h.ticked) := by
  unfold step
  cases h.refusals h.clock with
  | some e => exact .inl ⟨e, rfl⟩
  | none => exact .inr rfl

theorem observe_cases (f : Host → Except IoError α) (h : Host) :
    (∃ e, observe f h = (.error e, h.ticked)) ∨
      ∃ a, f h.ticked = .ok a ∧ observe f h = (.ok a, h.ticked) := by
  rcases step_cases h with ⟨e, he⟩ | hok
  · exact .inl ⟨e, run_bind_of_error he⟩
  · have hrun : observe f h = (f h.ticked, h.ticked) := run_bind_of_ok hok
    cases hf : f h.ticked with
    | error e => exact .inl ⟨e, by rw [hrun, hf]⟩
    | ok a => exact .inr ⟨a, rfl, by rw [hrun, hf]⟩

/-- A step that looks, and what follows it. -/
theorem observe_bind_cases {β : Type} (f : Host → Except IoError α) (g : α → Outside β) (h : Host) :
    (∃ e, (observe f >>= g) h = (.error e, h.ticked)) ∨
      ∃ a, f h.ticked = .ok a ∧ (observe f >>= g) h = g a h.ticked := by
  rcases observe_cases f h with ⟨e, he⟩ | ⟨a, ha, hok⟩
  · exact .inl ⟨e, run_bind_of_error he⟩
  · exact .inr ⟨a, ha, run_bind_of_ok hok⟩

theorem alter_cases (f : Tree → Except IoError Tree) (h : Host) :
    (∃ e, alter f h = (.error e, h.ticked)) ∨
      ∃ t, f h.tree = .ok t ∧ alter f h = (.ok (), h.withTree t) :=
  observe_bind_cases _ _ h

theorem writeFile_cases (p : Place) (text : String) (h : Host) :
    (∃ e, writeFile p text h = (.error e, h.ticked)) ∨
      writeFile p text h = (.ok (), h.withTree (h.tree.insert p (.file (.text text)))) := by
  rcases alter_cases (fun t => .ok (t.insert p (.file (.text text)))) h with hrefused | ⟨t, ht, hok⟩
  · exact .inl hrefused
  · cases ht
    exact .inr hok

/-- However names are chosen, the one that is taken is vacant. -/
theorem vacantPlace_eq_ok {h : Host} {folder : Place} {stem : String} {p : Place}
    (hp : h.vacantPlace folder stem = .ok p) :
    ∃ n, p = stemmed folder stem n ∧ h.tree.get? p = none := by
  unfold vacantPlace at hp
  split at hp
  · next n _ =>
    split_ifs at hp with hvacant
    obtain rfl := Except.ok.inj hp
    exact ⟨n, rfl, Option.isNone_iff_eq_none.mp hvacant⟩
  · cases hp

theorem makeTempFolder_cases (h : Host) :
    (∃ e, makeTempFolder h = (.error e, h.ticked)) ∨
      ∃ n, h.tree.get? (stemmed h.temp tempStem n) = none ∧
        makeTempFolder h = (.ok (stemmed h.temp tempStem n),
          h.withTree (h.tree.insert (stemmed h.temp tempStem n) .folder)) := by
  unfold makeTempFolder
  refine (observe_bind_cases _ _ h).imp_right ?_
  rintro ⟨p, hp, hrun⟩
  split_ifs at hp
  obtain ⟨n, rfl, hvacant⟩ := vacantPlace_eq_ok hp
  exact ⟨n, hvacant, hrun⟩

theorem makeScratch_cases (path : String) (h : Host) :
    (∃ e, makeScratch path h = (.error e, h.ticked)) ∨
      ∃ folder n, h.tree.get? (stemmed folder scratchStem n) = none ∧
        makeScratch path h = (.ok (stemmed folder scratchStem n),
          h.withTree (h.tree.insert (stemmed folder scratchStem n) (.file (.text "")))) := by
  unfold makeScratch
  refine (observe_bind_cases _ _ h).imp_right ?_
  rintro ⟨p, hp, hrun⟩
  obtain ⟨folder, -, hp⟩ := bind_eq_ok.mp hp
  obtain ⟨n, rfl, hvacant⟩ := vacantPlace_eq_ok hp
  exact ⟨folder, n, hvacant, hrun⟩

theorem rename_cases (p : Place) (path : String) (h : Host) :
    (∃ e, rename p path h = (.error e, h.ticked)) ∨
      ∃ target content, h.tree.locate false h.home path = .ok target ∧
        h.tree.get? target ≠ some .folder ∧ h.tree.get? p = some (.file content) ∧
        rename p path h = (.ok (), h.withTree ((h.tree.erase p).insert target (.file content))) := by
  unfold rename
  refine (observe_bind_cases _ _ h).imp_right ?_
  rintro ⟨⟨target, content⟩, hp, hrun⟩
  obtain ⟨target', hlocate, hp⟩ := bind_eq_ok.mp hp
  dsimp only [ticked] at hlocate hp
  split at hp
  · cases hp
  · next hcontent hfolder =>
    obtain ⟨rfl, rfl⟩ := Prod.mk.inj (pure_eq_ok.mp hp)
    exact ⟨target', _, hlocate, hfolder, hcontent, hrun⟩
  · cases hp

/-! A step that is not refused does what it says. -/

theorem observe_bind_of_granted {β : Type} {f : Host → Except IoError α} {g : α → Outside β} {h : Host}
    (hg : h.refusals h.clock = none) {a : α} (ha : f h.ticked = .ok a) :
    (observe f >>= g) h = g a h.ticked := by
  have hstep : step h = (.ok (), h.ticked) := by
    unfold step
    rw [hg]
    rfl
  have hrun : observe f h = (f h.ticked, h.ticked) := run_bind_of_ok hstep
  rw [ha] at hrun
  exact run_bind_of_ok hrun

theorem writeFile_of_granted {h : Host} (hg : h.refusals h.clock = none) (p : Place) (text : String) :
    writeFile p text h = (.ok (), h.withTree (h.tree.insert p (.file (.text text)))) :=
  observe_bind_of_granted hg rfl

theorem rename_of_granted {h : Host} (hg : h.refusals h.clock = none) {p target : Place} {path : String}
    {content : Content} (hlocate : h.tree.locate false h.home path = .ok target)
    (hfolder : h.tree.get? target ≠ some .folder) (hcontent : h.tree.get? p = some (.file content)) :
    rename p path h = (.ok (), h.withTree ((h.tree.erase p).insert target (.file content))) := by
  unfold rename
  refine (observe_bind_of_granted (a := (target, content)) hg ?_).trans rfl
  refine bind_eq_ok.mpr ⟨target, hlocate, ?_⟩
  dsimp only [ticked]
  rw [hcontent]
  rcases hentry : h.tree.get? target with _ | _ | _ | _
  · rfl
  · exact absurd hentry hfolder
  · rfl
  · rfl

end Steps

/-! ### Footprints -/

/-- The second host has the files of the first one, except at some places. -/
structure Touches (P : Place → Prop) (a b : Host) : Prop where
  home : b.home = a.home
  temp : b.temp = a.temp
  launcher : b.launcher = a.launcher
  tree : ∀ p, ¬ P p → b.tree.get? p = a.tree.get? p

namespace Touches

variable {P Q : Place → Prop} {a b c : Host}

theorem refl (P : Place → Prop) (a : Host) : Touches P a a := ⟨rfl, rfl, rfl, fun _ _ => rfl⟩

theorem trans (hab : Touches P a b) (hbc : Touches P b c) : Touches P a c :=
  ⟨hbc.home.trans hab.home, hbc.temp.trans hab.temp, hbc.launcher.trans hab.launcher,
    fun p hp => (hbc.tree p hp).trans (hab.tree p hp)⟩

theorem mono (h : Touches P a b) (hPQ : ∀ p, P p → Q p) : Touches Q a b :=
  ⟨h.home, h.temp, h.launcher, fun p hp => h.tree p fun hP => hp (hPQ p hP)⟩

theorem ticked (P : Place → Prop) (a : Host) : Touches P a a.ticked := ⟨rfl, rfl, rfl, fun _ _ => rfl⟩

theorem withTree {t : Tree} (h : ∀ p, ¬ P p → t.get? p = a.tree.get? p) : Touches P a (a.withTree t) :=
  ⟨rfl, rfl, rfl, h⟩

end Touches

section Footprints

variable {P : Place → Prop} {p : Place}

theorem touches_alter {f : Tree → Except IoError Tree} (h : Host)
    (hf : ∀ t, f h.tree = .ok t → ∀ q, ¬ P q → t.get? q = h.tree.get? q) : Touches P h (alter f h).2 := by
  rcases alter_cases f h with ⟨e, he⟩ | ⟨t, ht, hok⟩
  · rw [he]
    exact .ticked P h
  · rw [hok]
    exact .withTree (hf t ht)

theorem ne_of_not {q : Place} (hp : P p) (hq : ¬ P q) : q ≠ p := fun h => hq (h ▸ hp)

theorem touches_removeFile (hp : P p) (h : Host) : Touches P h (removeFile p h).2 := by
  refine touches_alter h fun t ht q hq => ?_
  split at ht
  · cases ht
  · cases ht
    exact Tree.get?_erase_of_ne (ne_of_not hp hq)
  · cases ht

theorem touches_removeFolder (hp : ∀ q, p <+: q → P q) (h : Host) : Touches P h (removeFolder p h).2 := by
  refine touches_alter h fun t ht q hq => ?_
  split at ht
  · cases ht
    exact Tree.get?_eraseBelow_of_not_below fun hpq => hq (hp q hpq)
  · cases ht
    exact Tree.get?_erase_of_ne (ne_of_not (hp p (List.prefix_refl p)) hq)
  · cases ht
  · cases ht

/-- A file that was removed is gone. -/
theorem get?_removeFile {a b : Host} (h : removeFile p a = (.ok (), b)) : b.tree.get? p = none := by
  rcases alter_cases _ a with ⟨e, he⟩ | ⟨t, ht, hok⟩
  · cases he.symm.trans h
  · obtain rfl := (Prod.mk.inj (hok.symm.trans h)).2
    have hroot : p ≠ [] := by
      rintro rfl
      cases ht
    split at ht
    · cases ht
    · cases ht
      exact Tree.get?_erase_self hroot
    · cases ht

theorem get?_removeFolder {a b : Host} (hroot : p ≠ []) (h : removeFolder p a = (.ok (), b)) :
    b.tree.get? p = none := by
  rcases alter_cases _ a with ⟨e, he⟩ | ⟨t, ht, hok⟩
  · cases he.symm.trans h
  · obtain rfl := (Prod.mk.inj (hok.symm.trans h)).2
    split at ht
    · cases ht
      exact Tree.get?_eraseBelow_of_below hroot (List.prefix_refl p)
    · cases ht
      exact Tree.get?_erase_self hroot
    · cases ht
    · cases ht

/-- Removing something makes nothing. -/
theorem vacant_removeFile {h : Host} {q : Place} (hp : h.tree.get? p = none) :
    (removeFile q h).2.tree.get? p = none := by
  by_cases hpq : p = q
  · subst hpq
    rcases alter_cases _ h with ⟨e, he⟩ | ⟨t, ht, -⟩
    · rw [show removeFile p h = _ from he]
      exact hp
    · rw [hp] at ht
      cases ht
  · exact ((touches_removeFile (P := (· = q)) rfl h).tree p hpq).trans hp

theorem vacant_removeFolder {h : Host} {q : Place} (hp : h.tree.get? p = none) :
    (removeFolder q h).2.tree.get? p = none := by
  have hroot : p ≠ [] := by
    rintro rfl
    cases hp
  rcases alter_cases _ h with ⟨e, he⟩ | ⟨t, ht, hok⟩
  · rw [show removeFolder q h = _ from he]
    exact hp
  · rw [show removeFolder q h = _ from hok]
    show t.get? p = none
    split at ht
    · cases ht
      by_cases hpq : q <+: p
      · exact Tree.get?_eraseBelow_of_below hroot hpq
      · exact (Tree.get?_eraseBelow_of_not_below hpq).trans hp
    · cases ht
      by_cases hpq : p = q
      · rw [← hpq]
        exact Tree.get?_erase_self hroot
      · exact (Tree.get?_erase_of_ne hpq).trans hp
    · cases ht
    · cases ht

end Footprints

/-! ### Names of a run's own -/

/-- A place that a run may take for itself: in a temporary folder that is not there yet, or a
scratch file that is not there yet. -/
def Makes (h : Host) (p : Place) : Prop :=
  (∃ n, h.tree.get? (stemmed h.temp tempStem n) = none ∧ stemmed h.temp tempStem n <+: p) ∨
    ∃ folder n, p = stemmed folder scratchStem n ∧ h.tree.get? p = none

theorem not_makes_root {h : Host} : ¬ h.Makes [] := by
  rintro (⟨n, -, hn⟩ | ⟨folder, n, hn, -⟩)
  · exact Tree.stemmed_ne_root _ _ _ (List.prefix_nil.mp hn)
  · exact Tree.stemmed_ne_root _ _ _ hn.symm

/-- A place outside the folder for temporary folders, with a name that is no scratch file's. -/
theorem not_makes {h : Host} {p : Place} (htemp : ¬ h.temp <+: p)
    (hname : ∀ name, p.getLast? = some name → ¬ scratchStem.toList <+: name.toList) : ¬ h.Makes p := by
  rintro (⟨n, -, hn⟩ | ⟨folder, n, hn, -⟩)
  · exact htemp ((List.prefix_append _ _).trans hn)
  · refine hname (scratchStem ++ n.text) (by simp [hn, stemmed]) ?_
    rw [String.toList_append]
    exact List.prefix_append _ _

/-- The state of a host some time after another: what stood at places that a run does not take
for itself still stands there, if perhaps as something else. -/
structure Onward (h a : Host) : Prop where
  home : a.home = h.home
  temp : a.temp = h.temp
  launcher : a.launcher = h.launcher
  vacant : ∀ p, ¬ h.Makes p → a.tree.get? p = none → h.tree.get? p = none

namespace Onward

variable {h a b : Host}

theorem refl (h : Host) : h.Onward h := ⟨rfl, rfl, rfl, fun _ _ hp => hp⟩

theorem touches (ha : h.Onward a) (hab : Touches h.Makes a b) : h.Onward b :=
  ⟨hab.home.trans ha.home, hab.temp.trans ha.temp, hab.launcher.trans ha.launcher,
    fun p hp hb => ha.vacant p hp ((hab.tree p hp).symm.trans hb)⟩

/-- An entry in place of what stood somewhere. -/
theorem put (ha : h.Onward a) (p : Place) (e : Entry) : h.Onward (a.put p e) where
  home := ha.home
  temp := ha.temp
  launcher := ha.launcher
  vacant q hq hv := by
    by_cases hroot : q = []
    · subst hroot
      cases hv
    · by_cases hqp : q = p
      · subst hqp
        cases (Tree.get?_insert_self hroot).symm.trans hv
      · exact ha.vacant q hq ((Tree.get?_insert_of_ne hqp).symm.trans hv)

/-- A new temporary folder, with all that comes into it. -/
theorem makes_below (ha : h.Onward a) {n : Suffix} (hv : a.tree.get? (stemmed a.temp tempStem n) = none)
    {p : Place} (hp : stemmed a.temp tempStem n <+: p) : h.Makes p := by
  rw [ha.temp] at hv hp
  refine .inl ⟨n, ?_, hp⟩
  by_contra hocc
  refine hocc (ha.vacant _ ?_ hv)
  rintro (⟨m, hm, hmn⟩ | ⟨folder, m, -, hm⟩)
  · -- both places have the same length, so they are the same
    have heq : stemmed h.temp tempStem m = stemmed h.temp tempStem n :=
      hmn.eq_of_length (by simp [stemmed])
    exact hocc (heq ▸ hm)
  · exact hocc hm

theorem makes_scratch (ha : h.Onward a) {folder : Place} {n : Suffix}
    (hv : a.tree.get? (stemmed folder scratchStem n) = none) : h.Makes (stemmed folder scratchStem n) := by
  by_contra hm
  exact hm (.inr ⟨folder, n, rfl, ha.vacant _ hm hv⟩)

end Onward

end StencilTiling.Host
