import Mathlib.Data.List.Forall2
import StencilTiling.Analysis.Error

/-! Computations that may fail, taken apart at their successes: a sequence
succeeds if each step does, a traversal if each element does. Their errors are those
of the steps. A state is handed on from step to step, also by the step that fails. -/

namespace StencilTiling

variable {ε α β : Type}

theorem bind_eq_ok {x : Except ε α} {f : α → Except ε β} {b : β} :
    (x >>= f) = .ok b ↔ ∃ a, x = .ok a ∧ f a = .ok b := by
  cases x <;> simp [bind, Except.bind]

theorem bind_eq_error {x : Except ε α} {f : α → Except ε β} {e : ε} :
    (x >>= f) = .error e ↔ x = .error e ∨ ∃ a, x = .ok a ∧ f a = .error e := by
  cases x <;> simp [bind, Except.bind]

theorem pure_eq_ok {a b : α} : (pure a : Except ε α) = .ok b ↔ a = b := by
  simp [pure, Except.pure]

theorem map_eq_ok {f : α → β} {x : Except ε α} {b : β} :
    (f <$> x) = .ok b ↔ ∃ a, x = .ok a ∧ f a = b := by
  cases x <;> simp [Functor.map, Except.map]

theorem mapError_eq_ok {δ : Type} {f : ε → δ} {x : Except ε α} {a : α} :
    x.mapError f = .ok a ↔ x = .ok a := by
  cases x <;> simp [Except.mapError]

/-- A successful computation by its result. -/
theorem exists_of_toOption {x : Except ε α} {P : α → Prop} (h : ∃ a ∈ x.toOption, P a) :
    ∃ a, x = .ok a ∧ P a := by
  obtain ⟨a, ha, hP⟩ := h
  cases x with
  | error e => cases ha
  | ok b => exact ⟨a, congrArg Except.ok (Option.some.inj ha), hP⟩

theorem ensure_eq_ok {p : Prop} [Decidable p] {e : ε} {u : Unit} : ensure p e = .ok u ↔ p := by
  unfold ensure
  split_ifs with h <;> simp [h]

theorem forM_eq_ok {l : List α} {f : α → Except ε Unit} {u : Unit} :
    l.forM f = .ok u ↔ ∀ a ∈ l, f a = .ok () := by
  induction l with
  | nil => exact iff_of_true rfl (by simp)
  | cons a rest ih =>
    show (f a >>= fun _ => rest.forM f) = .ok u ↔ _
    rw [bind_eq_ok, List.forall_mem_cons, ← ih]
    exact ⟨fun ⟨_, ha, hrest⟩ => ⟨ha, hrest⟩, fun ⟨ha, hrest⟩ => ⟨(), ha, hrest⟩⟩

theorem mapM_eq_ok {l : List α} {f : α → Except ε β} {bs : List β} :
    l.mapM f = .ok bs ↔ List.Forall₂ (fun a b => f a = .ok b) l bs := by
  induction l generalizing bs with
  | nil =>
    rw [List.mapM_nil, pure_eq_ok, List.forall₂_nil_left_iff, eq_comm]
  | cons a rest ih =>
    rw [List.mapM_cons, bind_eq_ok, List.forall₂_cons_left_iff]
    simp only [bind_eq_ok, pure_eq_ok, ih]
    constructor
    · rintro ⟨b, hb, bs', hbs, rfl⟩
      exact ⟨b, bs', hb, hbs, rfl⟩
    · rintro ⟨b, bs', hb, hbs, rfl⟩
      exact ⟨b, hb, bs', hbs, rfl⟩

theorem exists_mapM {l : List α} {f : α → Except ε β} (h : ∀ a ∈ l, ∃ b, f a = .ok b) :
    ∃ bs, l.mapM f = .ok bs := by
  induction l with
  | nil => exact ⟨[], rfl⟩
  | cons a rest ih =>
    obtain ⟨b, hb⟩ := h a List.mem_cons_self
    obtain ⟨bs, hbs⟩ := ih fun a' ha' => h a' (List.mem_cons_of_mem _ ha')
    exact ⟨b :: bs, mapM_eq_ok.mpr (.cons hb (mapM_eq_ok.mp hbs))⟩

/-- Where one traversal succeeds, so does another that follows it element by element. -/
theorem mapM_transfer {γ : Type} {f : α → Except ε β} {g : α → Except ε γ} {R : β → γ → Prop}
    {l : List α} {bs : List β} (h : l.mapM f = .ok bs)
    (hfollows : ∀ a ∈ l, ∀ b, f a = .ok b → ∃ c, g a = .ok c ∧ R b c) :
    ∃ cs, l.mapM g = .ok cs ∧ List.Forall₂ R bs cs := by
  have hall := mapM_eq_ok.mp h
  clear h
  induction hall with
  | nil => exact ⟨[], rfl, .nil⟩
  | @cons a b rest bs' ha hrest ih =>
    obtain ⟨c, hc, hR⟩ := hfollows a List.mem_cons_self b ha
    obtain ⟨cs, hcs, hRs⟩ := ih fun a' ha' => hfollows a' (List.mem_cons_of_mem _ ha')
    exact ⟨c :: cs, mapM_eq_ok.mpr (.cons hc (mapM_eq_ok.mp hcs)), .cons hR hRs⟩

/-- A traversal whose steps have one result each, where they have one. -/
theorem mapM_eq_ok_iff {l : List α} {f : α → Except ε β} {P : α → Prop} {g : α → β}
    (hf : ∀ a ∈ l, ∀ b, f a = .ok b ↔ P a ∧ b = g a) {bs : List β} :
    l.mapM f = .ok bs ↔ (∀ a ∈ l, P a) ∧ bs = l.map g := by
  induction l generalizing bs with
  | nil =>
    rw [List.mapM_nil, pure_eq_ok, eq_comm]
    simp
  | cons a rest ih =>
    obtain ⟨ha, hrest⟩ := List.forall_mem_cons.mp hf
    simp only [List.mapM_cons, bind_eq_ok, ha, ih hrest, pure_eq_ok, List.forall_mem_cons, List.map_cons]
    constructor
    · rintro ⟨_, ⟨hPa, rfl⟩, _, ⟨hPrest, rfl⟩, rfl⟩
      exact ⟨⟨hPa, hPrest⟩, rfl⟩
    · rintro ⟨⟨hPa, hPrest⟩, rfl⟩
      exact ⟨_, ⟨hPa, rfl⟩, _, ⟨hPrest, rfl⟩, rfl⟩

/-- Every result of a traversal comes from an element. -/
theorem exists_of_mem_mapM {l : List α} {f : α → Except ε β} {bs : List β} (h : l.mapM f = .ok bs)
    {b : β} (hb : b ∈ bs) : ∃ a ∈ l, f a = .ok b := by
  obtain ⟨hlen, hall⟩ := List.forall₂_iff_get.mp (mapM_eq_ok.mp h)
  obtain ⟨i, hi, rfl⟩ := List.getElem_of_mem hb
  exact ⟨l[i], List.getElem_mem _, hall i (by omega) hi⟩

/-- Every element of a traversal has its result. -/
theorem exists_mem_of_mapM {l : List α} {f : α → Except ε β} {bs : List β} (h : l.mapM f = .ok bs)
    {a : α} (ha : a ∈ l) : ∃ b ∈ bs, f a = .ok b := by
  obtain ⟨hlen, hall⟩ := List.forall₂_iff_get.mp (mapM_eq_ok.mp h)
  obtain ⟨i, hi, rfl⟩ := List.getElem_of_mem ha
  exact ⟨bs[i], List.getElem_mem _, hall i hi (by omega)⟩

/-- What is read off the results of a traversal can be read off its elements. -/
theorem map_of_mapM {γ : Type} {l : List α} {f : α → Except ε β} {bs : List β} {g : β → γ} {h : α → γ}
    (hbs : l.mapM f = .ok bs) (hf : ∀ a b, f a = .ok b → g b = h a) : bs.map g = l.map h := by
  have hall := mapM_eq_ok.mp hbs
  clear hbs
  induction hall with
  | nil => rfl
  | cons hab _ ih => rw [List.map_cons, List.map_cons, hf _ _ hab, ih]

/-- A fold whose steps all succeed. -/
theorem foldlM_of_ok {f : β → α → Except ε β} {g : β → α → β} {l : List α}
    (h : ∀ a ∈ l, ∀ b, f b a = .ok (g b a)) (b : β) : l.foldlM f b = .ok (l.foldl g b) := by
  induction l generalizing b with
  | nil => rfl
  | cons a rest ih =>
    rw [List.foldlM_cons, h a List.mem_cons_self, List.foldl_cons]
    exact ih (fun a' ha' => h a' (List.mem_cons_of_mem _ ha')) _

/-- What every step of a fold keeps holds at its end. -/
theorem foldlM_invariant {P : β → Prop} {f : β → α → Except ε β} {l : List α}
    (hstep : ∀ a ∈ l, ∀ b b', P b → f b a = .ok b' → P b') {b b' : β} (hb : P b)
    (h : l.foldlM f b = .ok b') : P b' := by
  induction l generalizing b with
  | nil => exact pure_eq_ok.mp h ▸ hb
  | cons a rest ih =>
    rw [List.foldlM_cons] at h
    obtain ⟨b₁, ha, h⟩ := bind_eq_ok.mp h
    exact ih (fun a' ha' => hstep a' (List.mem_cons_of_mem _ ha'))
      (hstep a List.mem_cons_self b b₁ hb ha) h

/-- A fold that goes through the states of the prefixes of a list, as long as these are good. -/
theorem foldlM_eq_ok_iff {f : β → α → Except ε β} (Good : List α → Prop) (state : List α → β)
    (hstep : ∀ done a b, Good done →
      (f (state done) a = .ok b ↔ Good (done ++ [a]) ∧ b = state (done ++ [a])))
    (hgood : ∀ done rest, Good (done ++ rest) → Good done) {l done : List α} (hdone : Good done) {b : β} :
    l.foldlM f (state done) = .ok b ↔ Good (done ++ l) ∧ b = state (done ++ l) := by
  induction l generalizing done with
  | nil =>
    rw [List.foldlM_nil, pure_eq_ok, eq_comm]
    simp [hdone]
  | cons a rest ih =>
    rw [List.foldlM_cons, bind_eq_ok, List.append_cons]
    constructor
    · rintro ⟨b₁, hb₁, hrest⟩
      obtain ⟨hgood₁, rfl⟩ := (hstep done a b₁ hdone).mp hb₁
      exact (ih hgood₁).mp hrest
    · intro h
      have hgood₁ : Good (done ++ [a]) := hgood _ rest h.1
      exact ⟨_, (hstep done a _ hdone).mpr ⟨hgood₁, rfl⟩, (ih hgood₁).mpr h⟩

/-! ### Computations with a state -/

/-- A sequence with a state completes if its parts do. -/
theorem run_bind_eq_ok {σ : Type} {x : ExceptT ε (StateM σ) α}
    {f : α → ExceptT ε (StateM σ) β} {s s' : σ} {b : β} :
    (x >>= f) s = (.ok b, s') ↔ ∃ a s₁, x s = (.ok a, s₁) ∧ f a s₁ = (.ok b, s') := by
  have hbind : (x >>= f) s = ExceptT.bindCont f (x s).1 (x s).2 := rfl
  rw [hbind]
  rcases x s with ⟨e | a, s₁⟩
  · constructor
    · intro h
      cases h
    · rintro ⟨a, s₂, h, -⟩
      cases h
  · constructor
    · exact fun h => ⟨a, s₁, rfl, h⟩
    · rintro ⟨a', s₂, h, hf⟩
      cases h
      exact hf

/-- A completed part hands its result and its state on. -/
theorem run_bind_of_ok {σ : Type} {x : ExceptT ε (StateM σ) α}
    {f : α → ExceptT ε (StateM σ) β} {s s₁ : σ} {a : α} (h : x s = (.ok a, s₁)) :
    (x >>= f) s = f a s₁ := by
  show ExceptT.bindCont f (x s).1 (x s).2 = _
  rw [h]
  rfl

/-- A part that stops ends the sequence. -/
theorem run_bind_of_error {σ : Type} {x : ExceptT ε (StateM σ) α}
    {f : α → ExceptT ε (StateM σ) β} {s s₁ : σ} {e : ε} (h : x s = (.error e, s₁)) :
    (x >>= f) s = (.error e, s₁) := by
  show ExceptT.bindCont f (x s).1 (x s).2 = _
  rw [h]
  rfl

/-! ### Errors -/

/-- Every error of a computation is one of these. -/
def FailsOnly (P : ε → Prop) (x : Except ε α) : Prop := ∀ e, x = .error e → P e

section FailsOnly

variable {P : ε → Prop}

theorem failsOnly_ok (a : α) : FailsOnly P (.ok a : Except ε α) := by
  rintro e ⟨⟩

theorem FailsOnly.bind {x : Except ε α} {f : α → Except ε β} (hx : FailsOnly P x)
    (hf : ∀ a, FailsOnly P (f a)) : FailsOnly P (x >>= f) := by
  cases x with
  | error e =>
    rintro _ ⟨⟩
    exact hx e rfl
  | ok a => exact hf a

theorem failsOnly_mapError {δ : Type} {f : ε → δ} {Q : δ → Prop} (h : ∀ e, Q (f e))
    (x : Except ε α) : FailsOnly Q (x.mapError f) := by
  cases x with
  | error e =>
    rintro _ ⟨⟩
    exact h e
  | ok a => exact failsOnly_ok a

theorem failsOnly_ensure {p : Prop} [Decidable p] {e : ε} (h : P e) : FailsOnly P (ensure p e) := by
  unfold ensure
  split_ifs
  · exact failsOnly_ok ()
  · rintro _ ⟨⟩
    exact h

theorem failsOnly_forM {l : List α} {f : α → Except ε Unit} (h : ∀ a ∈ l, FailsOnly P (f a)) :
    FailsOnly P (l.forM f) := by
  induction l with
  | nil => exact failsOnly_ok ()
  | cons a rest ih =>
    show FailsOnly P (f a >>= fun _ => rest.forM f)
    exact (h a List.mem_cons_self).bind fun _ => ih fun a' ha' => h a' (List.mem_cons_of_mem _ ha')

theorem failsOnly_mapM {l : List α} {f : α → Except ε β} (h : ∀ a ∈ l, FailsOnly P (f a)) :
    FailsOnly P (l.mapM f) := by
  induction l with
  | nil => exact failsOnly_ok []
  | cons a rest ih =>
    rw [List.mapM_cons]
    refine (h a List.mem_cons_self).bind fun b => ?_
    exact (ih fun a' ha' => h a' (List.mem_cons_of_mem _ ha')).bind fun bs => failsOnly_ok _

theorem failsOnly_foldlM {f : β → α → Except ε β} {l : List α}
    (h : ∀ a ∈ l, ∀ b, FailsOnly P (f b a)) (b : β) : FailsOnly P (l.foldlM f b) := by
  induction l generalizing b with
  | nil => exact failsOnly_ok b
  | cons a rest ih =>
    rw [List.foldlM_cons]
    exact (h a List.mem_cons_self b).bind (ih fun a' ha' => h a' (List.mem_cons_of_mem _ ha'))

end FailsOnly

/-- How a change that is made at once, or not at all, ends. -/
def settled {σ ε : Type} (s : σ) : Except ε σ → Except ε Unit × σ
  | .ok s' => (.ok (), s')
  | .error e => (.error e, s)

namespace Analysis

theorem ofFault_eq_ok {x : Except Fault α} {a : α} : ofFault x = .ok a ↔ x = .ok a :=
  mapError_eq_ok

theorem ofKernel_eq_ok {x : Except KernelError α} {a : α} : ofKernel x = .ok a ↔ x = .ok a :=
  mapError_eq_ok

end Analysis

end StencilTiling
