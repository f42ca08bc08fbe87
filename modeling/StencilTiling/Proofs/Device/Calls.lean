import Mathlib.Data.List.Induction
import StencilTiling.Proofs.Device.Settings

/-! The calls that describe a device. No call reports a problem exactly if each key and value is
one of its level and nothing is given twice that may be given once, which does not depend on the
order. The draft then holds the values that the calls set. -/

namespace StencilTiling.DeviceDraft

/-! ### Calls -/

/-- A call on a draft. -/
inductive Call where
  | declare (location : Option Location) (level : DeviceLevel) (name : Option String)
  | set (location : Option Location) (level : DeviceLevel) (key : String) (value : Option String)
  deriving DecidableEq

namespace Call

def location : Call → Option Location
  | declare location _ _ | set location _ _ _ => location

def isDeclare : Call → Bool
  | declare _ _ _ => true
  | set _ _ _ _ => false

/-- The draft after the call, with its problem if it has one. -/
def step (d : DeviceDraft) : Call → DeviceDraft × Option DraftError
  | declare _ l name => d.declare l name
  | set _ l key value => d.set l key value

/-- The name that a call gives a level. -/
def nameFor? (l : DeviceLevel) : Call → Option String
  | declare _ l' name => if l' = l then name else none
  | set _ _ _ _ => none

end Call

/-- A draft without calls, of a named device or not. -/
def fresh : Option String → DeviceDraft
  | none => {}
  | some name => .named name

/-- One call after the other. -/
def make (d : DeviceDraft) : List Call → Reporting Abort DeviceDraft
  | [] => return d
  | c :: rest => fun diag => match report c.location (c.step d) diag with
    | (.error a, _, diag) => (.error a, diag)
    | (.ok (), d, diag) => make d rest diag

/-- A device from the calls that describe it. -/
def describe (name : Option String) (calls : List Call) : Reporting DeviceError Device := do
  let d ← ExceptT.adapt .aborted (make (fresh name) calls)
  d.finish

/-- The draft after a call, without the diagnostics. -/
def advance (d : DeviceDraft) (c : Call) : DeviceDraft :=
  match c.step d with
  | (d', none) => d'
  | (d', some _) => { d' with errorCount := d'.errorCount + 1 }

/-- The problems that the calls report. -/
def problems (d : DeviceDraft) : List Call → List DraftError
  | [] => []
  | c :: rest => (c.step d).2.toList ++ problems (d.advance c) rest

/-! ### What calls say -/

/-- What a key and a value set at a level. -/
def setting? (l : DeviceLevel) (key : String) (value : Option String) :
    Option (DeviceProperty × PropertyValue) :=
  ((DeviceProperty.ofText? key).filter (l ∈ ·.levels)).bind fun p => (p.read? value).map (p, ·)

/-- One of the calls opens the level. -/
def Declares (calls : List Call) (l : DeviceLevel) : Prop :=
  ∃ location name, .declare location l name ∈ calls

/-- One of the calls sets the value. -/
def Sets (calls : List Call) (l : DeviceLevel) (p : DeviceProperty) (v : PropertyValue) : Prop :=
  ∃ location key value, .set location l key value ∈ calls ∧ setting? l key value = some (p, v)

/-- A key and a value have to be those of their level. -/
def Call.Valid : Call → Prop
  | declare _ _ _ => True
  | set _ l key value => (setting? l key value).isSome = true

/-- The unit and the element are opened once, and keys are set once, unless values add up. -/
def Call.Compatible : Call → Call → Prop
  | declare _ l _, declare _ l' _ => l = l' → l = .device
  | set _ l key value, set _ l' key' value' => ∀ p v v', setting? l key value = some (p, v) →
      setting? l' key' value' = some (p, v') → l = l' → p.isCumulative = true
  | _, _ => True

/-- Calls without a fault, in whatever order. -/
structure Faultless (calls : List Call) : Prop where
  valid : ∀ c ∈ calls, c.Valid
  compatible : calls.Pairwise Call.Compatible

/-- The names that calls give a level; the last one counts. -/
def namesFor (calls : List Call) (l : DeviceLevel) : List String := calls.filterMap (·.nameFor? l)

/-- The device has the names that the calls give and the values that they set, and where there
are none its defaults. -/
structure Describes (name : Option String) (calls : List Call) (device : Device) : Prop where
  name : device.name = ((namesFor calls .device).getLast?.or name).getD "device"
  unitName : device.unit.name = (namesFor calls .unit).getLast?.getD "unit"
  elementName : device.element.name = (namesFor calls .element).getLast?.getD "element"
  values : ∀ l p v, v ∈ device.values l p ↔
    Sets calls l p v ∨ l ∈ p.levels ∧ p.default? = some v ∧ ∀ w, ¬ Sets calls l p w

/-! ### One call -/

/-- The level with a key that is set once marked as set. -/
def marked (l : LevelDraft) (p : DeviceProperty) : LevelDraft :=
  if p.isCumulative then l else { l with defined := p :: l.defined }

/-- What a call without a problem does. -/
inductive Effect (d : DeviceDraft) : Call → DeviceDraft → Prop
  | declared (location : Option Location) (l : DeviceLevel) (name : Option String)
    (new : l = .device ∨ (d.level l).declared = false) :
    Effect d (.declare location l name)
      (d.setLevel { d.level l with declared := true, name := name.or (d.level l).name } l)
  | set (location : Option Location) (l : DeviceLevel) (key : String) (value : Option String)
    (p : DeviceProperty) (v : PropertyValue) (setting : setting? l key value = some (p, v))
    (new : p.isCumulative = true ∨ p ∉ (d.level l).defined) :
    Effect d (.set location l key value) (d.setLevel ((marked (d.level l) p).put p v) l)

theorem setting?_eq_some {l : DeviceLevel} {key : String} {value : Option String} {p : DeviceProperty}
    {v : PropertyValue} : setting? l key value = some (p, v) ↔
      (DeviceProperty.ofText? key).filter (l ∈ ·.levels) = some p ∧ p.read? value = some v := by
  simp only [setting?, Option.bind_eq_some_iff, Option.map_eq_some_iff, Prod.mk.injEq]
  constructor
  · rintro ⟨p', hp, v', hv, rfl, rfl⟩
    exact ⟨hp, hv⟩
  · rintro ⟨hp, hv⟩
    exact ⟨p, hp, v, hv, rfl, rfl⟩

theorem takes_of_setting {l : DeviceLevel} {key : String} {value : Option String} {p : DeviceProperty}
    {v : PropertyValue} (h : setting? l key value = some (p, v)) : p.Takes v ∧ l ∈ p.levels := by
  obtain ⟨hp, hv⟩ := setting?_eq_some.mp h
  exact ⟨DeviceProperty.takes_of_read? hv, of_decide_eq_true (Option.filter_eq_some_iff.mp hp).2⟩

theorem declare_eq_none {d d' : DeviceDraft} {l : DeviceLevel} {name : Option String} :
    d.declare l name = (d', none) ↔ (l = .device ∨ (d.level l).declared = false) ∧
      d' = d.setLevel { d.level l with declared := true, name := name.or (d.level l).name } l := by
  unfold declare
  split_ifs with h
  · have hno : ¬ (l = .device ∨ (d.level l).declared = false) := by simp [h]
    simp [hno]
  · have hyes : l = .device ∨ (d.level l).declared = false := by
      rw [not_and_or, not_not, Bool.not_eq_true] at h
      exact h.symm
    rw [Prod.mk.injEq]
    exact ⟨fun h => ⟨hyes, h.1.symm⟩, fun h => ⟨h.2.symm, rfl⟩⟩

theorem set_eq_none {d d' : DeviceDraft} {l : DeviceLevel} {key : String} {value : Option String} :
    d.set l key value = (d', none) ↔ ∃ p v, setting? l key value = some (p, v) ∧
      (p.isCumulative = true ∨ p ∉ (d.level l).defined) ∧
        d' = d.setLevel ((marked (d.level l) p).put p v) l := by
  cases hkey : (DeviceProperty.ofText? key).filter (l ∈ ·.levels) with
  | none => simp [set, setting?, hkey]
  | some p =>
    have hread {q : DeviceProperty} {v : PropertyValue} :
        setting? l key value = some (q, v) ↔ q = p ∧ p.read? value = some v := by
      rw [setting?_eq_some, hkey, Option.some.injEq]
      constructor <;> rintro ⟨rfl, hv⟩ <;> exact ⟨rfl, hv⟩
    simp only [hread]
    unfold set
    rw [hkey]
    dsimp only
    by_cases hdefined : p.isCumulative = false ∧ p ∈ (d.level l).defined
    · rw [if_pos hdefined]
      simp [hdefined]
    · have hnew : p.isCumulative = true ∨ p ∉ (d.level l).defined := by
        rwa [not_and_or, Bool.not_eq_false] at hdefined
      have happly := (marked (d.level l) p).applyValue_eq (d.owner l) p value
      rw [if_neg hdefined, show (if p.isCumulative = true then d.level l
        else { d.level l with defined := p :: (d.level l).defined }) = marked (d.level l) p from rfl]
      cases hvalue : (marked (d.level l) p).applyValue (d.owner l) p value with
      | ok applied =>
        rw [hvalue] at happly
        obtain ⟨v, hv, rfl⟩ := Option.map_eq_some_iff.mp happly.symm
        rw [Prod.mk.injEq]
        constructor
        · rintro ⟨rfl, -⟩
          exact ⟨p, v, ⟨rfl, hv⟩, hnew, rfl⟩
        · rintro ⟨_, w, ⟨rfl, hw⟩, -, rfl⟩
          obtain rfl := Option.some.inj (hv.symm.trans hw)
          exact ⟨rfl, rfl⟩
      | error e =>
        rw [hvalue] at happly
        have hnone := Option.map_eq_none_iff.mp happly.symm
        simp [hnone]

/-- A call has no problem exactly if it has an effect. -/
theorem step_eq_none {d d' : DeviceDraft} {c : Call} : c.step d = (d', none) ↔ Effect d c d' := by
  cases c with
  | declare location l name =>
    refine declare_eq_none.trans ⟨?_, fun h => ?_⟩
    · rintro ⟨hnew, rfl⟩
      exact .declared location l name hnew
    · cases h with
      | declared _ _ _ hnew => exact ⟨hnew, rfl⟩
  | set location l key value =>
    refine set_eq_none.trans ⟨?_, fun h => ?_⟩
    · rintro ⟨p, v, hsetting, hnew, rfl⟩
      exact .set location l key value p v hsetting hnew
    · cases h with
      | set _ _ _ _ p v hsetting hnew => exact ⟨p, v, hsetting, hnew, rfl⟩

/-! ### Calls without a problem -/

@[simp] theorem level_setLevel_self (d : DeviceDraft) (x : LevelDraft) (l : DeviceLevel) :
    (d.setLevel x l).level l = x := by
  cases l <;> rfl

theorem level_setLevel_of_ne (d : DeviceDraft) (x : LevelDraft) {l l' : DeviceLevel} (h : l' ≠ l) :
    (d.setLevel x l).level l' = d.level l' := by
  cases l <;> cases l' <;> first | rfl | exact absurd rfl h

/-- What a draft knows of the calls that made it, if none of them had a problem. -/
structure Drafted (name : Option String) (calls : List Call) (d : DeviceDraft) : Prop where
  declared : ∀ l ≠ .device, (d.level l).declared = true ↔ Declares calls l
  name : ∀ l, (d.level l).name = (namesFor calls l).getLast?.or (if l = .device then name else none)
  defined : ∀ l p, p ∈ (d.level l).defined ↔ p.isCumulative = false ∧ ∃ v, Sets calls l p v
  values : ∀ l p, l ∈ p.levels → ∀ v, v ∈ (d.level l).values p ↔ Sets calls l p v

theorem drafted_fresh (name : Option String) : Drafted name [] (fresh name) := by
  have hsets (l : DeviceLevel) (p : DeviceProperty) (v : PropertyValue) : ¬ Sets [] l p v := by
    simp [Sets]
  refine ⟨fun l hl => ?_, fun l => ?_, fun l p => ?_, fun l p _ v => ?_⟩
  · cases name <;> cases l <;> simp [fresh, named, level, Declares] at hl ⊢
  · cases name <;> cases l <;> rfl
  · cases name <;> cases l <;> simp [fresh, named, level, hsets]
  · cases name <;> cases l <;> cases p <;>
      simp [fresh, named, level, hsets, LevelDraft.values, Connectivities.paths]

section Snoc

variable {calls : List Call} {location : Option Location} {l l' : DeviceLevel} {p q : DeviceProperty}
  {v w : PropertyValue} {key : String} {name value : Option String}

theorem declares_snoc_declare :
    Declares (calls ++ [.declare location l name]) l' ↔ Declares calls l' ∨ l' = l := by
  simp only [Declares, List.mem_append, List.mem_singleton, Call.declare.injEq]
  constructor
  · rintro ⟨location', name', h | ⟨rfl, rfl, rfl⟩⟩
    · exact .inl ⟨location', name', h⟩
    · exact .inr rfl
  · rintro (⟨location', name', h⟩ | rfl)
    · exact ⟨location', name', .inl h⟩
    · exact ⟨location, name, .inr ⟨rfl, rfl, rfl⟩⟩

theorem declares_snoc_set :
    Declares (calls ++ [.set location l key value]) l' ↔ Declares calls l' := by
  simp [Declares]

theorem sets_snoc_declare :
    Sets (calls ++ [.declare location l name]) l' q w ↔ Sets calls l' q w := by
  simp [Sets]

theorem sets_snoc_set (h : setting? l key value = some (p, v)) :
    Sets (calls ++ [.set location l key value]) l' q w ↔
      Sets calls l' q w ∨ l' = l ∧ q = p ∧ w = v := by
  simp only [Sets, List.mem_append, List.mem_singleton, Call.set.injEq]
  constructor
  · rintro ⟨location', key', value', hmem | ⟨rfl, rfl, rfl, rfl⟩, hsetting⟩
    · exact .inl ⟨location', key', value', hmem, hsetting⟩
    · obtain ⟨rfl, rfl⟩ := Prod.mk.inj (Option.some.inj (h.symm.trans hsetting))
      exact .inr ⟨rfl, rfl, rfl⟩
  · rintro (⟨location', key', value', hmem, hsetting⟩ | ⟨rfl, rfl, rfl⟩)
    · exact ⟨location', key', value', .inl hmem, hsetting⟩
    · exact ⟨location, key, value, .inr ⟨rfl, rfl, rfl, rfl⟩, h⟩

end Snoc

section Frame

variable (x : LevelDraft) (p : DeviceProperty)

theorem put_frame (v : PropertyValue) : (x.put p v).declared = x.declared ∧
    (x.put p v).name = x.name ∧ (x.put p v).defined = x.defined := by
  cases v with
  | flag => cases p <;> exact ⟨rfl, rfl, rfl⟩
  | count n => cases p <;> exact ⟨rfl, rfl, rfl⟩
  | path c => cases p <;> exact ⟨rfl, rfl, rfl⟩
  | support s => cases p <;> exact ⟨rfl, rfl, rfl⟩

theorem marked_frame : (marked x p).declared = x.declared ∧ (marked x p).name = x.name ∧
    (marked x p).values = x.values := by
  unfold marked
  split_ifs
  · exact ⟨rfl, rfl, rfl⟩
  · exact ⟨rfl, rfl, funext fun q => by cases q <;> rfl⟩

theorem mem_defined_marked {q : DeviceProperty} :
    q ∈ (marked x p).defined ↔ q ∈ x.defined ∨ q = p ∧ p.isCumulative = false := by
  unfold marked
  split_ifs with hp
  · simp [hp]
  · simp [hp, or_comm]

end Frame

namespace Drafted

variable {name : Option String} {calls : List Call} {d : DeviceDraft} (h : Drafted name calls d)

include h

theorem declare {l : DeviceLevel} {new : Option String} (location : Option Location) :
    Drafted name (calls ++ [.declare location l new])
      (d.setLevel { d.level l with declared := true, name := new.or (d.level l).name } l) := by
  have hother {l' : DeviceLevel} (hne : l' ≠ l) := level_setLevel_of_ne d
    { d.level l with declared := true, name := new.or (d.level l).name } hne
  refine ⟨fun l' hl' => ?_, fun l' => ?_, fun l' p => ?_, fun l' p hp v => ?_⟩
  · rw [declares_snoc_declare]
    by_cases hl : l' = l
    · subst hl
      simp
    · rw [hother hl, h.declared l' hl']
      simp [hl]
  · rw [namesFor, List.filterMap_append]
    by_cases hl : l' = l
    · subst hl
      rw [level_setLevel_self]
      dsimp only
      rw [h.name]
      cases new with
      | none => simp [Call.nameFor?, namesFor]
      | some n => simp [Call.nameFor?]
    · rw [hother hl, h.name]
      simp [Call.nameFor?, namesFor, Ne.symm hl]
  · simp only [sets_snoc_declare]
    by_cases hl : l' = l
    · subst hl
      rw [level_setLevel_self]
      exact h.defined l' p
    · rw [hother hl]
      exact h.defined l' p
  · rw [sets_snoc_declare]
    by_cases hl : l' = l
    · subst hl
      rw [level_setLevel_self, ← h.values l' p hp]
      cases p <;> rfl
    · rw [hother hl]
      exact h.values l' p hp v

theorem set {l : DeviceLevel} {key : String} {value : Option String} {p : DeviceProperty}
    {v : PropertyValue} (location : Option Location) (hsetting : setting? l key value = some (p, v))
    (hnew : p.isCumulative = true ∨ p ∉ (d.level l).defined) :
    Drafted name (calls ++ [.set location l key value])
      (d.setLevel ((marked (d.level l) p).put p v) l) := by
  obtain ⟨htakes, hlevel⟩ := takes_of_setting hsetting
  obtain ⟨hdeclared, hname, hdefined⟩ := put_frame (marked (d.level l) p) p v
  obtain ⟨hdeclared', hname', hvalues⟩ := marked_frame (d.level l) p
  have hother {l' : DeviceLevel} (hne : l' ≠ l) :=
    level_setLevel_of_ne d ((marked (d.level l) p).put p v) hne
  refine ⟨fun l' hl' => ?_, fun l' => ?_, fun l' q => ?_, fun l' q hq w => ?_⟩
  · rw [declares_snoc_set, ← h.declared l' hl']
    by_cases hl : l' = l
    · subst hl
      rw [level_setLevel_self, hdeclared, hdeclared']
    · rw [hother hl]
  · have hnames : namesFor (calls ++ [.set location l key value]) l' = namesFor calls l' := by
      simp [namesFor, Call.nameFor?]
    rw [hnames, ← h.name l']
    by_cases hl : l' = l
    · subst hl
      rw [level_setLevel_self, hname, hname']
    · rw [hother hl]
  · simp only [sets_snoc_set hsetting]
    by_cases hl : l' = l
    · subst hl
      rw [level_setLevel_self, hdefined, mem_defined_marked, h.defined]
      by_cases hq : q = p
      · subst hq
        constructor
        · rintro (⟨hc, w, hw⟩ | ⟨-, hc⟩)
          · exact ⟨hc, w, .inl hw⟩
          · exact ⟨hc, v, .inr ⟨rfl, rfl, rfl⟩⟩
        · rintro ⟨hc, -⟩
          exact .inr ⟨rfl, hc⟩
      · simp [hq]
    · rw [hother hl, h.defined]
      simp [hl]
  · rw [sets_snoc_set hsetting, ← h.values l' q hq]
    by_cases hl : l' = l
    · subst hl
      rw [level_setLevel_self]
      by_cases hqp : q = p
      · subst hqp
        cases hcumulative : q.isCumulative with
        | true =>
          rw [LevelDraft.mem_values_put_self htakes hcumulative, hvalues]
          simp [or_comm]
        | false =>
          -- the key is not defined yet, so it has no value
          have hnone : w ∉ (d.level l').values q := fun hw =>
            hnew.elim (fun hc => by cases hc.symm.trans hcumulative) fun hdef =>
              hdef ((h.defined l' q).mpr ⟨hcumulative, w, (h.values l' q hq w).mp hw⟩)
          rw [LevelDraft.values_put_self htakes hcumulative]
          simp [hnone]
      · rw [LevelDraft.values_put_of_ne htakes hlevel hq hqp, hvalues]
        simp [hqp]
    · rw [hother hl]
      simp [hl]

/-- What a call without a problem adds. -/
theorem effect {c : Call} {d' : DeviceDraft} (he : Effect d c d') : Drafted name (calls ++ [c]) d' := by
  cases he with
  | declared location l new _ => exact h.declare location
  | set location l key value p v hsetting hnew => exact h.set location hsetting hnew

/-- Whether a call has a problem can be told from the calls before it. -/
theorem exists_effect_iff {c : Call} :
    (∃ d', Effect d c d') ↔ c.Valid ∧ ∀ b ∈ calls, b.Compatible c := by
  cases c with
  | declare location l new =>
    constructor
    · rintro ⟨d', he⟩
      obtain ⟨hnew, -⟩ := declare_eq_none.mp (step_eq_none.mpr he)
      refine ⟨trivial, fun b hb => ?_⟩
      cases b with
      | set => trivial
      | declare location' l' new' =>
        rintro rfl
        refine hnew.elim id fun hundeclared => by_contra fun hl => ?_
        have hdeclared := (h.declared l' hl).mpr ⟨location', new', hb⟩
        cases hdeclared.symm.trans hundeclared
    · rintro ⟨-, hcompatible⟩
      refine ⟨_, .declared location l new (or_iff_not_imp_left.mpr fun hl => ?_)⟩
      rw [← Bool.not_eq_true, h.declared l hl]
      rintro ⟨location', new', hmem⟩
      exact hl (hcompatible _ hmem rfl)
  | set location l key value =>
    constructor
    · rintro ⟨d', he⟩
      obtain ⟨p, v, hsetting, hnew, -⟩ := set_eq_none.mp (step_eq_none.mpr he)
      refine ⟨Option.isSome_iff_exists.mpr ⟨_, hsetting⟩, fun b hb => ?_⟩
      cases b with
      | declare => trivial
      | set location' l' key' value' =>
        rintro q w w' hw hw' rfl
        obtain ⟨rfl, rfl⟩ := Prod.mk.inj (Option.some.inj (hsetting.symm.trans hw'))
        refine hnew.elim id fun hundefined => by_contra fun hc => hundefined ?_
        exact (h.defined l' p).mpr ⟨Bool.eq_false_iff.mpr hc, w, location', key', value', hb, hw⟩
    · rintro ⟨hvalid, hcompatible⟩
      obtain ⟨⟨p, v⟩, hsetting⟩ := Option.isSome_iff_exists.mp hvalid
      refine ⟨_, .set location l key value p v hsetting (or_iff_not_imp_left.mpr fun hc hdefined => ?_)⟩
      obtain ⟨-, w, location', key', value', hmem, hw⟩ := (h.defined l p).mp hdefined
      exact hc (hcompatible _ hmem p w v hw hsetting rfl)

end Drafted

/-! ### All calls -/

theorem problems_append (d : DeviceDraft) (before after : List Call) :
    problems d (before ++ after) = problems d before ++ problems (before.foldl advance d) after := by
  induction before generalizing d with
  | nil => rfl
  | cons c rest ih => simp only [List.cons_append, problems, ih, List.foldl_cons, List.append_assoc]

theorem faultless_snoc {calls : List Call} {c : Call} : Faultless (calls ++ [c]) ↔
    Faultless calls ∧ c.Valid ∧ ∀ b ∈ calls, b.Compatible c := by
  constructor
  · rintro ⟨hvalid, hcompatible⟩
    obtain ⟨hcalls, -, hlast⟩ := List.pairwise_append.mp hcompatible
    exact ⟨⟨fun b hb => hvalid b (List.mem_append_left _ hb), hcalls⟩,
      hvalid c (List.mem_append_right _ List.mem_cons_self), fun b hb => hlast b hb c List.mem_cons_self⟩
  · rintro ⟨⟨hvalid, hcompatible⟩, hc, hlast⟩
    refine ⟨fun b hb => ?_, List.pairwise_append.mpr ⟨hcompatible, List.pairwise_singleton _ _, ?_⟩⟩
    · rcases List.mem_append.mp hb with hb | hb
      · exact hvalid b hb
      · exact List.mem_singleton.mp hb ▸ hc
    · rintro b hb _ hlast'
      exact List.mem_singleton.mp hlast' ▸ hlast b hb

theorem step_none_iff {d : DeviceDraft} {c : Call} : (c.step d).2 = none ↔ ∃ d', Effect d c d' := by
  constructor
  · intro hnone
    exact ⟨(c.step d).1, step_eq_none.mp (Prod.ext rfl hnone)⟩
  · rintro ⟨d', he⟩
    rw [step_eq_none.mpr he]

/-- No call reports a problem exactly if the calls are faultless. -/
theorem problems_eq_nil_iff (name : Option String) (calls : List Call) :
    (problems (fresh name) calls = [] ↔ Faultless calls) ∧
      (Faultless calls → Drafted name calls (calls.foldl advance (fresh name))) := by
  induction calls using List.reverseRecOn with
  | nil => exact ⟨⟨fun _ => ⟨by simp, .nil⟩, fun _ => rfl⟩, fun _ => drafted_fresh name⟩
  | append_singleton calls c ih =>
    obtain ⟨hproblems, hdrafted⟩ := ih
    have hlast : Faultless calls → ((c.step (calls.foldl advance (fresh name))).2 = none ↔
        c.Valid ∧ ∀ b ∈ calls, b.Compatible c) := fun hf =>
      step_none_iff.trans (hdrafted hf).exists_effect_iff
    constructor
    · rw [problems_append, List.append_eq_nil_iff, hproblems, faultless_snoc]
      refine and_congr_right fun hf => ?_
      rw [← hlast hf]
      simp [problems]
    · intro hf
      obtain ⟨hf, hc⟩ := faultless_snoc.mp hf
      obtain ⟨d', he⟩ := step_none_iff.mp ((hlast hf).mpr hc)
      rw [List.foldl_append, List.foldl_cons, List.foldl_nil, advance, step_eq_none.mpr he]
      exact (hdrafted hf).effect he

end StencilTiling.DeviceDraft
