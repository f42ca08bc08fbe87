import StencilTiling.Proofs.Analysis.Pass

/-! The stages of a data item. A call changes the annotation in place, one write after the
other, and may be refused on the way. No call writes before its last check, so it is carried
out as a whole or changes nothing. From what an accepted call does to the annotation it
follows that, after any calls, the stage tells which parts are there. -/

namespace StencilTiling

/-! ### Stages in order -/

/-- The number of stages before this one. -/
def Stage.place : Stage → Nat
  | unscheduled => 0
  | scheduled => 1
  | patternAssigned => 2
  | slotSized => 3
  | geometryResolved => 4

instance : LE Stage := ⟨fun s t => s.place ≤ t.place⟩

instance (s t : Stage) : Decidable (s ≤ t) := inferInstanceAs (Decidable (s.place ≤ t.place))

theorem Stage.le_iff {s t : Stage} : s ≤ t ↔ s.place ≤ t.place := Iff.rfl

/-! ### Annotating in place -/

/-- Changes of a data item in place. A step that fails keeps what was written before it. -/
abbrev Annotating := ExceptT KernelError (StateM DataItem)

namespace Annotating

/-- Refuses an item outside the given stages. -/
def check (allowed : List Stage) (target : Stage) : Annotating Unit := do
  let d ← get
  if d.note.stage ∈ allowed then return ()
  else throw (.invalidTransition d.name d.note.stage target)

/-- One write to the annotation. -/
def write (f : Annotation → Annotation) : Annotating Unit :=
  modify fun d => { d with note := f d.note }

/-- The slots of the pattern; zero is refused. -/
def writeSlots (slots : Nat) : Annotating Unit :=
  if 1 ≤ slots then write fun a => { a with pattern := { a.pattern with slots } }
  else throw .zeroSlots

def setTile (tile : Tile) : Annotating Unit := do
  check [.unscheduled] .unscheduled
  write fun a => { a with tile := some tile }

def scheduleAt (cycle : Nat) : Annotating Unit := do
  check [.unscheduled] .scheduled
  write fun a => { a with pattern := { a.pattern with cycle := some cycle } }
  write fun a => { a with stage := .scheduled }

def assignAccess (access : Access) : Annotating Unit := do
  let d ← get
  match d.note.stage with
  | .scheduled | .patternAssigned => write fun a => { a with stage := .patternAssigned }
  | .slotSized | .geometryResolved =>
    write fun a => { a with geometry := none }
    write fun a => { a with stage := .slotSized }
  | .unscheduled => throw (.invalidTransition d.name d.note.stage .patternAssigned)
  write fun a => { a with pattern := { a.pattern with access } }

def sizeSlots (slots : Nat) : Annotating Unit := do
  check [.patternAssigned, .slotSized] .slotSized
  writeSlots slots
  write fun a => { a with geometry := none }
  write fun a => { a with stage := .slotSized }

def resolve (geometry : Geometry.Table) : Annotating Unit := do
  check [.slotSized] .geometryResolved
  write fun a => { a with geometry := some geometry }
  write fun a => { a with stage := .geometryResolved }

def reset : Annotating Unit := do
  write fun a => { a with pattern := {} }
  write fun a => { a with stage := .unscheduled }
  write fun a => { a with tile := none }
  write fun a => { a with geometry := none }

end Annotating

/-- A call on a data item. -/
inductive Transition where
  | setTile (tile : Tile)
  | scheduleAt (cycle : Nat)
  | assignAccess (access : Access)
  | sizeSlots (slots : Nat)
  | resolve (geometry : Geometry.Table)
  | reset
  deriving DecidableEq

namespace Transition

/-- The call in place. -/
def run : Transition → Annotating Unit
  | setTile tile => Annotating.setTile tile
  | scheduleAt cycle => Annotating.scheduleAt cycle
  | assignAccess access => Annotating.assignAccess access
  | sizeSlots slots => Annotating.sizeSlots slots
  | resolve geometry => Annotating.resolve geometry
  | reset => Annotating.reset

/-- The call as a function of the item. -/
def apply (d : DataItem) : Transition → Except KernelError DataItem
  | setTile tile => d.setTile tile
  | scheduleAt cycle => d.scheduleAt cycle
  | assignAccess access => d.assignAccess access
  | sizeSlots slots => d.sizeSlots slots
  | resolve geometry => d.resolve geometry
  | reset => .ok d.reset

/-- A call is carried out as a whole, or changes nothing. -/
theorem run_eq (t : Transition) (d : DataItem) : t.run d = settled d (t.apply d) := by
  obtain ⟨_, _, _, _, _, _, _, _, _, ⟨stage, _, _, _⟩⟩ := d
  cases t with
  | sizeSlots slots =>
    -- the slots are looked at after the stage
    cases slots <;> cases stage <;> rfl
  | reset => rfl
  | _ => cases stage <;> rfl

/-! ### What a call does -/

/-- What an accepted call makes of an annotation. -/
inductive Effect (a : Annotation) : Transition → Annotation → Prop
  | tiled (tile : Tile) (stage : a.stage = .unscheduled) :
    Effect a (.setTile tile) { a with tile := some tile }
  | scheduled (cycle : Nat) (stage : a.stage = .unscheduled) :
    Effect a (.scheduleAt cycle)
      { a with stage := .scheduled, pattern := { a.pattern with cycle := some cycle } }
  | assigned (access : Access) (stage : a.stage = .scheduled ∨ a.stage = .patternAssigned) :
    Effect a (.assignAccess access)
      { a with stage := .patternAssigned, pattern := { a.pattern with access } }
  | revised (access : Access) (stage : a.stage = .slotSized ∨ a.stage = .geometryResolved) :
    Effect a (.assignAccess access)
      { a with stage := .slotSized, geometry := none, pattern := { a.pattern with access } }
  | sized (slots : Nat) (stage : a.stage = .patternAssigned ∨ a.stage = .slotSized)
    (pos : 1 ≤ slots) :
    Effect a (.sizeSlots slots)
      { a with stage := .slotSized, geometry := none, pattern := { a.pattern with slots } }
  | resolved (geometry : Geometry.Table) (stage : a.stage = .slotSized) :
    Effect a (.resolve geometry) { a with stage := .geometryResolved, geometry := some geometry }
  | cleared : Effect a .reset {}

theorem setTile_eq_ok {d d' : DataItem} {tile : Tile} : d.setTile tile = .ok d' ↔
    d.note.stage = .unscheduled ∧ d' = { d with note := { d.note with tile := some tile } } := by
  rw [DataItem.setTile, Analysis.annotate_eq_ok]
  unfold Annotation.setTile
  split_ifs with hs <;> simp [hs]

theorem assignAccess_eq_ok {d d' : DataItem} {access : Access} : d.assignAccess access = .ok d' ↔
    ∃ note, Effect d.note (.assignAccess access) note ∧ d' = { d with note } := by
  rw [DataItem.assignAccess, Analysis.annotate_eq_ok]
  refine exists_congr fun note => and_congr_left fun _ => ⟨fun h => ?_, fun h => ?_⟩
  · unfold Annotation.assignAccess at h
    split at h
    · cases h
    · next hstage => exact Except.ok.inj h ▸ .assigned access (.inl hstage)
    · next hstage => exact Except.ok.inj h ▸ .assigned access (.inr hstage)
    · next hstage => exact Except.ok.inj h ▸ .revised access (.inl hstage)
    · next hstage => exact Except.ok.inj h ▸ .revised access (.inr hstage)
  · cases h with
    | assigned _ hstage => rcases hstage with hstage | hstage <;> simp only [hstage, Annotation.assignAccess]
    | revised _ hstage => rcases hstage with hstage | hstage <;> simp only [hstage, Annotation.assignAccess]

/-- A call is accepted exactly if it has an effect, and changes the annotation alone. -/
theorem apply_eq_ok {t : Transition} {d d' : DataItem} :
    t.apply d = .ok d' ↔ ∃ note, Effect d.note t note ∧ d' = { d with note } := by
  constructor
  · intro h
    cases t with
    | setTile tile =>
      obtain ⟨hstage, rfl⟩ := setTile_eq_ok.mp h
      exact ⟨_, .tiled tile hstage, rfl⟩
    | scheduleAt cycle =>
      obtain ⟨hstage, rfl⟩ := Analysis.scheduleAt_eq_ok.mp h
      exact ⟨_, .scheduled cycle hstage, rfl⟩
    | assignAccess access => exact assignAccess_eq_ok.mp h
    | sizeSlots slots =>
      obtain ⟨hstage, hpos, rfl⟩ := Analysis.sizeSlots_eq_ok.mp h
      exact ⟨_, .sized slots hstage hpos, rfl⟩
    | resolve geometry =>
      obtain ⟨hstage, rfl⟩ := Analysis.resolve_eq_ok.mp h
      exact ⟨_, .resolved geometry hstage, rfl⟩
    | reset => exact ⟨{}, .cleared, (Except.ok.inj h).symm⟩
  · rintro ⟨_, heffect, rfl⟩
    cases heffect with
    | tiled tile hstage => exact setTile_eq_ok.mpr ⟨hstage, rfl⟩
    | scheduled cycle hstage => exact Analysis.scheduleAt_eq_ok.mpr ⟨hstage, rfl⟩
    | assigned access hstage => exact assignAccess_eq_ok.mpr ⟨_, .assigned access hstage, rfl⟩
    | revised access hstage => exact assignAccess_eq_ok.mpr ⟨_, .revised access hstage, rfl⟩
    | sized slots hstage hpos => exact Analysis.sizeSlots_eq_ok.mpr ⟨hstage, hpos, rfl⟩
    | resolved geometry hstage => exact Analysis.resolve_eq_ok.mpr ⟨hstage, rfl⟩
    | cleared => rfl

theorem run_eq_ok {t : Transition} {d d' : DataItem} :
    t.run d = (.ok (), d') ↔ ∃ note, Effect d.note t note ∧ d' = { d with note } := by
  rw [run_eq, ← apply_eq_ok]
  cases t.apply d with
  | ok d₁ => exact ⟨fun h => congrArg (Except.ok ·.2) h, fun h => congrArg (settled d) h⟩
  | error e =>
    constructor <;> intro h
    · exact nomatch congrArg Prod.fst h
    · cases h

theorem eq_of_run_eq_error {t : Transition} {d d' : DataItem} {e : KernelError}
    (h : t.run d = (.error e, d')) : d' = d := by
  rw [run_eq] at h
  cases happly : t.apply d with
  | ok d₁ =>
    rw [happly] at h
    cases h
  | error e' =>
    rw [happly] at h
    exact (congrArg Prod.snd h).symm

/-- A call either has its effect or changes nothing. -/
theorem run_cases (t : Transition) (d : DataItem) :
    (t.run d).2 = d ∨ ∃ note, Effect d.note t note ∧ (t.run d).2 = { d with note } := by
  rcases hrun : t.run d with ⟨e | _, d'⟩
  · exact .inl (eq_of_run_eq_error hrun)
  · exact .inr (run_eq_ok.mp hrun)

end Transition

/-! ### Parts and stages -/

/-- The stage tells which parts of the annotation are there. -/
structure Annotation.InStep (a : Annotation) : Prop where
  cycle : a.pattern.cycle.isSome = true ↔ .scheduled ≤ a.stage
  slots : 1 ≤ a.pattern.slots ↔ .slotSized ≤ a.stage
  geometry : a.geometry.isSome = true ↔ a.stage = .geometryResolved

theorem Annotation.inStep_empty : Annotation.InStep {} := ⟨by decide, by decide, by decide⟩

namespace Transition.Effect

variable {a a' : Annotation} {t : Transition} (h : Effect a t a')

include h

theorem inStep (ha : a.InStep) : a'.InStep := by
  obtain ⟨hcycle, hslots, hgeometry⟩ := ha
  cases h with
  | tiled tile hstage => exact ⟨hcycle, hslots, hgeometry⟩
  | cleared => exact Annotation.inStep_empty
  | scheduled cycle hstage | resolved geometry hstage =>
    constructor <;> simp_all [Stage.le_iff, Stage.place]
  | assigned access hstage | revised access hstage | sized slots hstage hpos =>
    rcases hstage with hstage | hstage <;> constructor <;> simp_all [Stage.le_iff, Stage.place]

/-- The next stage at most, or back from the coordinates to the slots, or to the start. -/
theorem stage_cases :
    (a.stage ≤ a'.stage ∧ a'.stage.place ≤ a.stage.place + 1) ∨
      ((∃ access, t = .assignAccess access) ∧ a.stage = .geometryResolved ∧ a'.stage = .slotSized ∧
        a'.pattern.slots = a.pattern.slots) ∨
      (t = .reset ∧ a' = {}) := by
  cases h with
  | cleared => exact .inr (.inr ⟨rfl, rfl⟩)
  | tiled tile hstage => exact .inl ⟨Nat.le_refl _, Nat.le_succ _⟩
  | scheduled cycle hstage | resolved geometry hstage =>
    exact .inl (by simp [Stage.le_iff, Stage.place, hstage])
  | assigned access hstage | sized slots hstage hpos =>
    rcases hstage with hstage | hstage <;> exact .inl (by simp [Stage.le_iff, Stage.place, hstage])
  | revised access hstage =>
    rcases hstage with hstage | hstage
    · exact .inl (by simp [Stage.le_iff, Stage.place, hstage])
    · exact .inr (.inl ⟨⟨access, rfl⟩, hstage, rfl, rfl⟩)

/-- Once there is a cycle, only a reset changes it or the tile. -/
theorem keeps_cycle (hs : .scheduled ≤ a.stage) (ht : t ≠ .reset) :
    .scheduled ≤ a'.stage ∧ a'.pattern.cycle = a.pattern.cycle ∧ a'.tile = a.tile := by
  cases h with
  | cleared => exact absurd rfl ht
  | tiled tile hstage | scheduled cycle hstage =>
    rw [hstage] at hs
    exact absurd hs (by decide)
  | _ => exact ⟨by simp [Stage.le_iff, Stage.place], rfl, rfl⟩

end Transition.Effect

/-! ### Runs -/

namespace DataItem

/-- The item after some calls, whether they are accepted or refused. -/
def after (d : DataItem) (calls : List Transition) : DataItem :=
  calls.foldl (fun d t => (t.run d).2) d

theorem after_cons (d : DataItem) (t : Transition) (calls : List Transition) :
    d.after (t :: calls) = (t.run d).2.after calls := rfl

/-- What every effect keeps holds after any calls. -/
theorem after_invariant {P : DataItem → Prop} {calls : List Transition}
    (hstep : ∀ t ∈ calls, ∀ d note, P d → t.Effect d.note note → P { d with note }) {d : DataItem}
    (hd : P d) : P (d.after calls) := by
  induction calls generalizing d with
  | nil => exact hd
  | cons t rest ih =>
    rw [after_cons]
    refine ih (fun t' ht' => hstep t' (List.mem_cons_of_mem _ ht')) ?_
    rcases t.run_cases d with heq | ⟨note, heffect, heq⟩ <;> rw [heq]
    · exact hd
    · exact hstep t List.mem_cons_self d note hd heffect

theorem inStep_after {d : DataItem} (h : d.note.InStep) (calls : List Transition) :
    (d.after calls).note.InStep :=
  after_invariant (P := fun d => d.note.InStep) (fun _ _ _ _ hd heffect => heffect.inStep hd) h

theorem reset_after (d : DataItem) (calls : List Transition) : (d.after calls).reset = d.reset :=
  after_invariant (P := fun d' => d'.reset = d.reset) (fun _ _ _ _ hd _ => hd) rfl

theorem cycle_after {d : DataItem} (hs : .scheduled ≤ d.note.stage) {calls : List Transition}
    (hcalls : Transition.reset ∉ calls) :
    (d.after calls).cycle = d.cycle ∧ (d.after calls).note.tile = d.note.tile := by
  refine (after_invariant (P := fun d' => .scheduled ≤ d'.note.stage ∧ d'.cycle = d.cycle ∧
    d'.note.tile = d.note.tile) (fun t ht d' note hd' heffect => ?_) ⟨hs, rfl, rfl⟩).2
  obtain ⟨hs', hcycle, htile⟩ := hd'
  have hkept := heffect.keeps_cycle hs' fun hreset => hcalls (hreset ▸ ht)
  exact ⟨hkept.1, hkept.2.1.trans hcycle, hkept.2.2.trans htile⟩

/-- After any calls on a fresh item the stage tells which parts of its annotation are there.
A refused call changes nothing, an accepted one has its effect and moves the stage to the next
at most, or back from the coordinates to the slots, or to the start; and the cycle and the tile
stay from the first cycle to a reset. -/
theorem stages_kept_in_step {d : DataItem} (hd : d.note = {}) (calls : List Transition) :
    let d₁ := d.after calls
    d₁.note.InStep ∧ d₁.reset = d ∧
      (∀ (t : Transition) e d₂, t.run d₁ = (.error e, d₂) → d₂ = d₁) ∧
      (∀ (t : Transition) d₂, t.run d₁ = (.ok (), d₂) ↔
        ∃ note, t.Effect d₁.note note ∧ d₂ = { d₁ with note }) ∧
      (∀ (t : Transition) d₂, t.run d₁ = (.ok (), d₂) →
        (d₁.note.stage ≤ d₂.note.stage ∧ d₂.note.stage.place ≤ d₁.note.stage.place + 1) ∨
          ((∃ access, t = .assignAccess access) ∧ d₁.note.stage = .geometryResolved ∧
            d₂.note.stage = .slotSized ∧ d₂.note.pattern.slots = d₁.note.pattern.slots) ∨
          (t = .reset ∧ d₂.note = {})) ∧
      ∀ more, .scheduled ≤ d₁.note.stage → Transition.reset ∉ more →
        (d₁.after more).cycle = d₁.cycle ∧ (d₁.after more).note.tile = d₁.note.tile := by
  intro d₁
  have hfresh : d.reset = d := by rw [DataItem.reset, ← hd]
  refine ⟨inStep_after (hd ▸ Annotation.inStep_empty) calls, (reset_after d calls).trans hfresh,
    fun _ _ _ => Transition.eq_of_run_eq_error, fun _ _ => Transition.run_eq_ok, fun t d₂ hrun => ?_,
    fun more hs hmore => cycle_after hs hmore⟩
  obtain ⟨note, heffect, rfl⟩ := Transition.run_eq_ok.mp hrun
  exact heffect.stage_cases

/-- An image with nothing on record. -/
def blank : DataItem :=
  { id := 0, name := "a", elem := .float, shape := [.fixed 8], iterative := true, role := .input }

/-- All stages up to the coordinates; the second cycle and the zero slots are refused. -/
def upToCoordinates : List Transition :=
  [.setTile {}, .scheduleAt 3, .scheduleAt 4, .assignAccess .row, .sizeSlots 0, .sizeSlots 5,
    .resolve ⟨[]⟩]

/-- With coordinates a new tile is refused, and a new access type goes back to the slots, which
stay. -/
theorem stages_kept_in_step_revised :
    blank.note = {} ∧ (blank.after upToCoordinates).note.InStep ∧
      (blank.after upToCoordinates).note.stage = .geometryResolved ∧
      (blank.after upToCoordinates).cycle = some 3 ∧
      ((Transition.setTile {}).run (blank.after upToCoordinates)).2 = blank.after upToCoordinates ∧
      (blank.after (upToCoordinates ++ [.assignAccess .rowRing])).note.stage = .slotSized ∧
      (blank.after (upToCoordinates ++ [.assignAccess .rowRing])).note.pattern.slots = 5 ∧
      ((blank.after upToCoordinates).after [.assignAccess .rowRing, .scheduleAt 7]).cycle =
        (blank.after upToCoordinates).cycle := by
  obtain ⟨hinStep, -, hrefused, -, hmoves, hkept⟩ :=
    stages_kept_in_step (d := blank) rfl upToCoordinates
  have hstage : (blank.after upToCoordinates).note.stage = .geometryResolved := by decide
  refine ⟨rfl, hinStep, hstage, by decide, hrefused (.setTile {}) _ _ rfl, by decide, ?_,
    (hkept [.assignAccess .rowRing, .scheduleAt 7] (by decide) (by decide)).1⟩
  have hslots : (blank.after upToCoordinates).note.pattern.slots = 5 := by decide
  rcases hmoves (.assignAccess .rowRing) _ rfl with ⟨hforward, -⟩ | ⟨-, -, -, hsame⟩ | ⟨hreset, -⟩
  · exact absurd hforward (by decide)
  · exact hsame.trans hslots
  · cases hreset

end DataItem

end StencilTiling
