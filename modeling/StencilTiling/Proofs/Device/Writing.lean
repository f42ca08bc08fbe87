import StencilTiling.Proofs.Device.Acceptance
import StencilTiling.Proofs.Text

/-! Devices that can be written down. The settings of a device are the values of its keys, level
by level. Names that are single words and numbers within the word can be read again, and then the
settings describe the device, in whatever order those of a level come. -/

namespace StencilTiling

/-- How a value is written; a flag is its key alone. -/
def PropertyValue.text? : PropertyValue → Option String
  | flag => none
  | count n => some (toString n)
  | path c => some c.text
  | support s => some s.text

/-- The word that opens the section of a level. -/
def DeviceLevel.keyword : DeviceLevel → String
  | device => "device"
  | unit => "compute_unit"
  | element => "compute_element"

namespace DeviceDraft.Call

def level : Call → DeviceLevel
  | declare _ l _ | set _ l _ _ => l

/-- Calls of different levels do not get in each other's way. -/
theorem compatible_of_level_ne {a b : Call} (h : a.level ≠ b.level) : a.Compatible b := by
  cases a with
  | declare => cases b with
    | declare => exact fun heq => absurd heq h
    | set => trivial
  | set => cases b with
    | declare => trivial
    | set => exact fun _ _ _ _ _ heq => absurd heq h

end DeviceDraft.Call

namespace Text

/-- A word that can stand in a line: no blank, and no number sign to start a comment. -/
def IsWord (s : String) : Prop := s.toList ≠ [] ∧ ∀ c ∈ s.toList, isBlank c = false ∧ c ≠ '#'

end Text

namespace Device

open DeviceDraft

/-- What there is to write of a level. -/
def settings (d : Device) (l : DeviceLevel) : List (DeviceProperty × PropertyValue) :=
  DeviceProperty.all.flatMap fun p => (d.values l p).map (p, ·)

/-- The calls that say what a level is called and how it is set. -/
def sectionCalls (d : Device) (settings : List (DeviceProperty × PropertyValue)) (l : DeviceLevel) :
    List Call :=
  .declare none l (some (d.nameOf l)) :: settings.map fun s => .set none l s.1.text s.2.text?

/-- The calls of all levels, with the settings of each in an order of their own. -/
def calls (d : Device) (settings : DeviceLevel → List (DeviceProperty × PropertyValue)) : List Call :=
  DeviceLevel.all.flatMap fun l => d.sectionCalls (settings l) l

/-- A device that can be written down: names are words, numbers are positive and fit a signed
word, the unit and the element reach external memory, and single precision is there. -/
structure Writable (d : Device) : Prop where
  names : ∀ l, Text.IsWord (d.nameOf l)
  numbers : ∀ l p n, .count n ∈ d.values l p → 1 ≤ n ∧ n < 2 ^ 63
  unitToExt : d.unit.toExt.isEmpty = false
  elementToExt : d.element.toExt.isEmpty = false
  float : d.element.float ≠ .no

/-- A key that has a default has a value. -/
theorem exists_mem_values (d : Device) {l : DeviceLevel} {p : DeviceProperty} {v : PropertyValue}
    (hl : l ∈ p.levels) (h : p.default? = some v) : ∃ w, w ∈ d.values l p := by
  cases l <;> cases p <;>
    first
    | exact absurd hl (by decide)
    | exact ⟨_, List.mem_singleton_self _⟩
    | cases h

/-- A key has one value, unless values add up. -/
theorem pairwise_values {d : Device} {l : DeviceLevel} {p : DeviceProperty}
    (hp : p.isCumulative = false) (R : PropertyValue → PropertyValue → Prop) : (d.values l p).Pairwise R := by
  have hnumber (o : Option Nat) : (o.toList.map PropertyValue.count).Pairwise R := by
    cases o <;> simp
  have hflag (b : Bool) : (if b then [PropertyValue.flag] else []).Pairwise R := by
    cases b <;> simp
  cases l <;> cases p <;>
    first
    | exact .nil
    | exact List.pairwise_singleton _ _
    | exact hnumber _
    | exact hflag _
    | cases hp

theorem mem_settings {d : Device} {l : DeviceLevel} {p : DeviceProperty} {v : PropertyValue} :
    (p, v) ∈ d.settings l ↔ v ∈ d.values l p := by
  have hall : p ∈ DeviceProperty.all := by cases p <;> decide
  simp [settings, hall]

theorem mem_calls_set {d : Device} {settings : DeviceLevel → List (DeviceProperty × PropertyValue)}
    {location : Option Location} {l : DeviceLevel} {key : String} {value : Option String} :
    .set location l key value ∈ d.calls settings ↔
      ∃ p v, (p, v) ∈ settings l ∧ location = none ∧ key = p.text ∧ value = v.text? := by
  have hall : ∀ l, l ∈ DeviceLevel.all := fun l => by cases l <;> decide
  simp only [calls, sectionCalls, List.mem_flatMap, List.mem_cons, List.mem_map, Call.set.injEq,
    reduceCtorEq, false_or, hall, true_and]
  constructor
  · rintro ⟨_, ⟨p, v⟩, hmem, rfl, rfl, rfl, rfl⟩
    exact ⟨p, v, hmem, rfl, rfl, rfl⟩
  · rintro ⟨p, v, hmem, rfl, rfl, rfl⟩
    exact ⟨l, (p, v), hmem, rfl, rfl, rfl, rfl⟩

theorem mem_calls_declare {d : Device} {settings : DeviceLevel → List (DeviceProperty × PropertyValue)}
    {location : Option Location} {l : DeviceLevel} {name : Option String} :
    .declare location l name ∈ d.calls settings ↔ location = none ∧ name = some (d.nameOf l) := by
  have hall : ∀ l, l ∈ DeviceLevel.all := fun l => by cases l <;> decide
  simp only [calls, sectionCalls, List.mem_flatMap, List.mem_cons, List.mem_map, Call.declare.injEq,
    reduceCtorEq, and_false, exists_false, or_false, hall, true_and]
  constructor
  · rintro ⟨_, rfl, rfl, rfl⟩
    exact ⟨rfl, rfl⟩
  · rintro ⟨rfl, rfl⟩
    exact ⟨l, rfl, rfl, rfl⟩

end Device

/-! ### Reading values -/

namespace DeviceProperty

theorem ofText?_text (p : DeviceProperty) : ofText? p.text = some p := by
  cases p <;> decide +kernel

/-- A value is read as it is written, if it fits a signed word. -/
theorem read?_text? {p : DeviceProperty} {v : PropertyValue} (h : p.Takes v)
    (hfits : ∀ n, v = .count n → n < 2 ^ 63) : p.read? v.text? = some v := by
  unfold read?
  cases v with
  | flag => rw [show p.kind = .flag from h]; rfl
  | count n =>
    rw [h.1]
    change ((Text.readInt? (toString n).toList).filter (0 < ·)).map _ = _
    rw [Text.readInt?_toString (hfits n rfl), Option.filter_some,
      if_pos (decide_eq_true (Int.natCast_pos.mpr h.2))]
    rfl
  | path c =>
    rw [h.1, h.2]
    cases c <;> rfl
  | support s =>
    rw [h.1, h.2.1]
    change ((Support.ofText? s.text).filter (· ∈ p.acceptedSupport)).map _ = _
    rw [show Support.ofText? s.text = some s by cases s <;> rfl, Option.filter_some,
      if_pos (decide_eq_true h.2.2)]
    rfl

end DeviceProperty

namespace Device

open DeviceDraft

/-- A value of a device is one that its key takes. -/
theorem Writable.takes {d : Device} (h : d.Writable) {l : DeviceLevel} {p : DeviceProperty}
    {v : PropertyValue} (hv : v ∈ d.values l p) : p.Takes v := by
  cases v with
  | flag => cases l <;> cases p <;> simp [values] at hv <;> rfl
  | count n =>
    refine ⟨?_, (h.numbers l p n hv).1⟩
    cases l <;> cases p <;> simp [values] at hv <;> rfl
  | path c => cases l <;> cases p <;> simp [values] at hv <;> exact ⟨rfl, rfl⟩
  | support s =>
    have hall (s : Support) (hs : p = .floatSupport → s ≠ .no) : s ∈ p.acceptedSupport := by
      cases p <;> cases s <;> simp [DeviceProperty.acceptedSupport] at hs ⊢
    cases l <;> cases p <;> simp [values] at hv <;> refine ⟨rfl, rfl, hall s ?_⟩
    · exact fun _ => hv ▸ h.float
    · nofun
    · nofun

theorem Writable.setting? {d : Device} (h : d.Writable) {l : DeviceLevel} {p : DeviceProperty}
    {v : PropertyValue} (hv : v ∈ d.values l p) : setting? l p.text v.text? = some (p, v) := by
  refine setting?_eq_some.mpr ⟨?_, DeviceProperty.read?_text? (h.takes hv) fun n hn => ?_⟩
  · rw [DeviceProperty.ofText?_text]
    exact Option.filter_eq_some_iff.mpr ⟨rfl, decide_eq_true (levels_of_mem_values hv)⟩
  · exact (h.numbers l p n (hn ▸ hv)).2

/-! ### Describing the device -/

/-- A key is set once, unless values add up. -/
theorem pairwise_settings (d : Device) (l : DeviceLevel) :
    (d.settings l).Pairwise fun s s' => s.1 = s'.1 → s.1.isCumulative = true := by
  refine List.pairwise_flatMap.mpr ⟨fun p _ => List.pairwise_map.mpr ?_,
    (by decide : DeviceProperty.all.Nodup).imp fun hne s hs s' hs' heq => ?_⟩
  · cases hp : p.isCumulative with
    | true => exact List.pairwise_of_forall fun _ _ _ => hp
    | false => exact pairwise_values hp _
  · obtain ⟨_, -, rfl⟩ := List.mem_map.mp hs
    obtain ⟨_, -, rfl⟩ := List.mem_map.mp hs'
    exact absurd heq hne

theorem level_of_mem_sectionCalls {d : Device} {settings : List (DeviceProperty × PropertyValue)}
    {l : DeviceLevel} {c : Call} (hc : c ∈ d.sectionCalls settings l) : c.level = l := by
  rcases List.mem_cons.mp hc with rfl | hc
  · rfl
  · obtain ⟨s, -, rfl⟩ := List.mem_map.mp hc
    rfl

theorem namesFor_calls (d : Device) (settings : DeviceLevel → List (DeviceProperty × PropertyValue))
    (l : DeviceLevel) : namesFor (d.calls settings) l = [d.nameOf l] := by
  have hsection (l' : DeviceLevel) : (d.sectionCalls (settings l') l').filterMap (·.nameFor? l) =
      if l' = l then [d.nameOf l'] else [] := by
    have hset : ((settings l').map fun s => Call.set none l' s.1.text s.2.text?).filterMap
        (·.nameFor? l) = [] := by
      simp [Call.nameFor?]
    rw [sectionCalls, List.filterMap_cons, hset, Call.nameFor?]
    split_ifs <;> rfl
  rw [namesFor, calls, List.filterMap_flatMap]
  simp only [hsection]
  cases l <;> rfl

section Calls

variable {d : Device} (h : d.Writable) {settings : DeviceLevel → List (DeviceProperty × PropertyValue)}
  (hperm : ∀ l, (settings l).Perm (d.settings l))

include h hperm

theorem Writable.sets_iff {l : DeviceLevel} {p : DeviceProperty} {v : PropertyValue} :
    Sets (d.calls settings) l p v ↔ v ∈ d.values l p := by
  constructor
  · rintro ⟨location, key, value, hmem, hsetting⟩
    obtain ⟨q, w, hw, -, rfl, rfl⟩ := mem_calls_set.mp hmem
    have hvalue := mem_settings.mp ((hperm l).mem_iff.mp hw)
    obtain ⟨rfl, rfl⟩ := Prod.mk.inj (Option.some.inj ((h.setting? hvalue).symm.trans hsetting))
    exact hvalue
  · intro hv
    exact ⟨none, p.text, v.text?,
      mem_calls_set.mpr ⟨p, v, (hperm l).mem_iff.mpr (mem_settings.mpr hv), rfl, rfl, rfl⟩,
      h.setting? hv⟩

theorem Writable.faultless : Faultless (d.calls settings) := by
  have hvalue {l : DeviceLevel} {s : DeviceProperty × PropertyValue} (hs : s ∈ settings l) :=
    h.setting? (mem_settings.mp ((hperm l).mem_iff.mp hs))
  refine ⟨fun c hc => ?_, List.pairwise_flatMap.mpr ⟨fun l _ => ?_, ?_⟩⟩
  · cases c with
    | declare => trivial
    | set location l key value =>
      obtain ⟨p, v, hmem, -, rfl, rfl⟩ := mem_calls_set.mp hc
      exact Option.isSome_iff_exists.mpr ⟨_, hvalue hmem⟩
  · refine List.pairwise_cons.mpr ⟨fun c hc => ?_, List.pairwise_map.mpr ?_⟩
    · obtain ⟨s, -, rfl⟩ := List.mem_map.mp hc
      trivial
    · have hsettings := ((hperm l).pairwise_iff fun hab heq => heq ▸ hab heq.symm).mpr
        (pairwise_settings d l)
      refine hsettings.imp_of_mem fun hs hs' hcumulative p v v' hv hv' _ => ?_
      obtain ⟨rfl, -⟩ := Prod.mk.inj (Option.some.inj ((hvalue hs).symm.trans hv))
      obtain ⟨heq, -⟩ := Prod.mk.inj (Option.some.inj ((hvalue hs').symm.trans hv'))
      exact hcumulative heq.symm
  · refine (by decide : DeviceLevel.all.Nodup).imp fun hne a ha b hb => Call.compatible_of_level_ne ?_
    rwa [level_of_mem_sectionCalls ha, level_of_mem_sectionCalls hb]

/-- The calls describe the device and no other. -/
theorem Writable.describes : Describes (some "device") (d.calls settings) d := by
  have hnames (l : DeviceLevel) : (namesFor (d.calls settings) l).getLast? = some (d.nameOf l) := by
    rw [namesFor_calls]
    rfl
  refine ⟨?_, ?_, ?_, fun l p v => ?_⟩
  · rw [hnames .device]
    rfl
  · rw [hnames .unit]
    rfl
  · rw [hnames .element]
    rfl
  · simp only [h.sets_iff hperm]
    constructor
    · exact .inl
    · rintro (hv | ⟨hl, hdefault, hnone⟩)
      · exact hv
      · obtain ⟨w, hw⟩ := exists_mem_values d hl hdefault
        exact absurd hw (hnone w)

/-- There is nothing to remark on a draft of the calls. -/
theorem Writable.remarks_eq_nil {draft : DeviceDraft}
    (hdrafted : Drafted (some "device") (d.calls settings) draft) : draft.remarks = [] := by
  have hundeclared (l : DeviceLevel) (hl : l ≠ .device) : draft.undeclared l = [] := by
    have hdeclared := (hdrafted.declared l hl).mpr ⟨none, _, mem_calls_declare.mpr ⟨rfl, rfl⟩⟩
    rw [undeclared, if_pos hdeclared]
  have hdefaulted (l : DeviceLevel) (p : DeviceProperty) (n : Nat) (o : Option Nat)
      (ho : (draft.level l).values p = o.toList.map .count) (hn : .count n ∈ d.values l p) :
      defaulted p o = [] := by
    have hmem := (hdrafted.values l p (levels_of_mem_values hn) _).mpr ((h.sets_iff hperm).mpr hn)
    rw [ho] at hmem
    cases o with
    | none => cases hmem
    | some => rfl
  have hunconnected (l : DeviceLevel) (hl : (draft.level l).toExt.isEmpty = false) :
      draft.unconnected l = [] := by
    rw [unconnected, hl]
    rfl
  have hfreeze := hdrafted.describes.unique (h.describes hperm)
  have hunit : draft.unit.toExt = d.unit.toExt := congrArg (·.unit.toExt) hfreeze
  have helement : draft.element.toExt = d.element.toExt := congrArg (·.element.toExt) hfreeze
  unfold remarks
  rw [hundeclared .unit (by decide), hundeclared .element (by decide),
    hdefaulted .device .computeUnits d.units draft.device.count rfl List.mem_cons_self,
    hdefaulted .unit .computeElements d.unit.elements draft.unit.count rfl List.mem_cons_self,
    hdefaulted .element .hwThreads d.element.hwThreads draft.element.hwThreads rfl List.mem_cons_self,
    hunconnected .unit (hunit ▸ h.unitToExt), hunconnected .element (helement ▸ h.elementToExt)]
  rfl

/-- A draft of the calls is finished as the device. -/
theorem Writable.finish_eq (diag : Diagnostics) :
    ((d.calls settings).foldl advance (fresh (some "device"))).finish diag = (.ok d, diag) := by
  obtain ⟨hproblems, hdrafted⟩ := problems_eq_nil_iff (some "device") (d.calls settings)
  replace hdrafted := hdrafted (h.faultless hperm)
  have hcount := errorCount_foldl (fresh (some "device")) (d.calls settings)
  rw [hproblems.mpr (h.faultless hperm)] at hcount
  unfold finish
  rw [h.remarks_eq_nil hperm hdrafted, hdrafted.describes.unique (h.describes hperm), hcount]
  rfl

end Calls

end Device

end StencilTiling
