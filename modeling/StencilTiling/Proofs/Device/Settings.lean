import Mathlib.Data.Option.Basic
import StencilTiling.Device.Draft
import StencilTiling.Proofs.Checked

/-! The values of a device. A key of a level has the values that were set for it: one at most,
unless values add up, and a device has its defaults where none was set. Setting a value changes
those of its own key alone, and a device is known by its names and values. -/

namespace StencilTiling

/-! ### Values -/

/-- A value of a key. -/
inductive PropertyValue where
  | flag
  | count (n : Nat)
  | path (c : Connectivity)
  | support (s : Support)
  deriving DecidableEq

namespace Connectivities

/-- The paths one by one. -/
def paths (s : Connectivities) : List Connectivity :=
  (if s.dma then [.dma] else []) ++ if s.loadStore then [.loadStore] else []

theorem mem_paths {s : Connectivities} {c : Connectivity} :
    c ∈ s.paths ↔ c = .dma ∧ s.dma = true ∨ c = .loadStore ∧ s.loadStore = true := by
  cases c <;> simp [paths]

theorem mem_paths_insert {s : Connectivities} {c c' : Connectivity} :
    c' ∈ (s.insert c).paths ↔ c' = c ∨ c' ∈ s.paths := by
  cases c <;> cases c' <;> simp [mem_paths, insert]

theorem isEmpty_eq (s : Connectivities) : s.isEmpty = s.paths.isEmpty := by
  obtain ⟨dma, loadStore⟩ := s
  cases dma <;> cases loadStore <;> rfl

theorem ext_paths {s s' : Connectivities} (h : ∀ c, c ∈ s.paths ↔ c ∈ s'.paths) : s = s' := by
  have hdma := h .dma
  have hload := h .loadStore
  simp only [mem_paths, reduceCtorEq, false_and, or_false, false_or, true_and] at hdma hload
  obtain ⟨dma, loadStore⟩ := s
  obtain ⟨dma', loadStore'⟩ := s'
  rw [mk.injEq]
  exact ⟨Bool.eq_iff_iff.mpr hdma, Bool.eq_iff_iff.mpr hload⟩

end Connectivities

namespace DeviceProperty

/-- The value that a text gives a key. -/
def read? (p : DeviceProperty) (value : Option String) : Option PropertyValue :=
  match p.kind, value with
  | .flag, none => some .flag
  | .integer, some text =>
    ((Text.readInt? text.toList).filter (0 < ·)).map fun n => .count n.toNat
  | .identifier, some text =>
    if p.isCumulative then (Connectivity.ofText? text).map .path
    else ((Support.ofText? text).filter (· ∈ p.acceptedSupport)).map .support
  | _, _ => none

/-- The value of a key that was given none. -/
def default? : DeviceProperty → Option PropertyValue
  | computeUnits | computeElements | hwThreads => some (.count 1)
  | floatSupport | doubleSupport | longSupport => some (.support .native)
  | _ => none

/-- The key has values of this kind, and this is one of them. -/
def Takes (p : DeviceProperty) : PropertyValue → Prop
  | .flag => p.kind = .flag
  | .count n => p.kind = .integer ∧ 1 ≤ n
  | .path _ => p.kind = .identifier ∧ p.isCumulative = true
  | .support s => p.kind = .identifier ∧ p.isCumulative = false ∧ s ∈ p.acceptedSupport

theorem takes_of_read? {p : DeviceProperty} {value : Option String} {v : PropertyValue}
    (h : p.read? value = some v) : p.Takes v := by
  unfold read? at h
  split at h
  · next hkind => exact Option.some.inj h ▸ hkind
  · next text hkind =>
    obtain ⟨n, hn, rfl⟩ := Option.map_eq_some_iff.mp h
    have hpos := of_decide_eq_true (Option.filter_eq_some_iff.mp hn).2
    exact ⟨hkind, by omega⟩
  · next text hkind =>
    split_ifs at h with hcumulative
    · obtain ⟨c, -, rfl⟩ := Option.map_eq_some_iff.mp h
      exact ⟨hkind, hcumulative⟩
    · obtain ⟨s, hs, rfl⟩ := Option.map_eq_some_iff.mp h
      exact ⟨hkind, Bool.eq_false_iff.mpr hcumulative,
        of_decide_eq_true (Option.filter_eq_some_iff.mp hs).2⟩
  · cases h

theorem kind_eq_flag {p : DeviceProperty} : p.kind = .flag ↔ p = .swThreads ∨ p = .dataCache := by
  cases p <;> decide

theorem kind_eq_integer {p : DeviceProperty} : p.kind = .integer ↔
    p = .computeUnits ∨ p = .computeElements ∨ p = .memorySize ∨ p = .cacheSize ∨ p = .hwThreads := by
  cases p <;> decide

theorem isCumulative_iff {p : DeviceProperty} : p.isCumulative = true ↔
    p = .connectivityToExt ∨ p = .connectivityToLateral := by
  cases p <;> decide

theorem kind_eq_identifier {p : DeviceProperty} (h : p.isCumulative = false) :
    p.kind = .identifier ↔ p = .floatSupport ∨ p = .doubleSupport ∨ p = .longSupport := by
  cases p <;> first | decide | cases h

end DeviceProperty

/-! ### Levels -/

namespace LevelDraft

/-- The level with one more value. -/
def put (l : LevelDraft) (p : DeviceProperty) : PropertyValue → LevelDraft
  | .flag => l.setFlag p
  | .count n => l.setCount n p
  | .path c => l.addConnectivity c p
  | .support s => l.setSupport s p

/-- The values of a key so far. -/
def values (l : LevelDraft) : DeviceProperty → List PropertyValue
  | .computeUnits | .computeElements => l.count.toList.map .count
  | .memorySize => l.memory.toList.map .count
  | .cacheSize => l.cache.toList.map .count
  | .connectivityToExt => l.toExt.paths.map .path
  | .connectivityToLateral => l.toLateral.paths.map .path
  | .floatSupport => l.float.toList.map .support
  | .doubleSupport => l.double.toList.map .support
  | .longSupport => l.long.toList.map .support
  | .swThreads => if l.swThreads then [.flag] else []
  | .dataCache => if l.dataCache then [.flag] else []
  | .hwThreads => l.hwThreads.toList.map .count

/-- A value is applied if the key can read it. -/
theorem applyValue_eq (l : LevelDraft) (owner : String) (p : DeviceProperty) (value : Option String) :
    (l.applyValue owner p value).toOption = (p.read? value).map (l.put p) := by
  unfold applyValue DeviceProperty.read?
  cases hkind : p.kind with
  | flag => cases value <;> rfl
  | integer =>
    cases value with
    | none => rfl
    | some text =>
      cases hn : Text.readInt? text.toList with
      | none => simp [hn, Except.toOption]
      | some n =>
        by_cases hpos : n ≤ 0
        · simp [hn, hpos, Except.toOption]
        · simp [hn, hpos, Int.not_le.mp hpos, Except.toOption, put]
  | identifier =>
    cases value with
    | none => rfl
    | some text =>
      cases hcumulative : p.isCumulative with
      | true => cases hc : Connectivity.ofText? text <;> simp [hc, Except.toOption, put]
      | false =>
        cases hs : (Support.ofText? text).filter (· ∈ p.acceptedSupport) <;>
          simp [hs, Except.toOption, put]

section Put

variable {l : LevelDraft} {p q : DeviceProperty} {v : PropertyValue}

/-- A value that comes first is the only one. -/
theorem values_put_self (hv : p.Takes v) (hp : p.isCumulative = false) :
    (l.put p v).values p = [v] := by
  cases v with
  | flag => rcases DeviceProperty.kind_eq_flag.mp hv with rfl | rfl <;> rfl
  | count n => rcases DeviceProperty.kind_eq_integer.mp hv.1 with rfl | rfl | rfl | rfl | rfl <;> rfl
  | path c => cases hp.symm.trans hv.2
  | support s => rcases (DeviceProperty.kind_eq_identifier hp).mp hv.1 with rfl | rfl | rfl <;> rfl

/-- Values of a cumulative key add up. -/
theorem mem_values_put_self {w : PropertyValue} (hv : p.Takes v) (hp : p.isCumulative = true) :
    w ∈ (l.put p v).values p ↔ w = v ∨ w ∈ l.values p := by
  obtain ⟨c, rfl⟩ : ∃ c, v = .path c := by
    cases v with
    | path c => exact ⟨c, rfl⟩
    | flag => rcases DeviceProperty.isCumulative_iff.mp hp with rfl | rfl <;> cases hv
    | count n => rcases DeviceProperty.isCumulative_iff.mp hp with rfl | rfl <;> cases hv.1
    | support s => cases hp.symm.trans hv.2.1
  rcases DeviceProperty.isCumulative_iff.mp hp with rfl | rfl <;>
    simp [put, values, addConnectivity, Connectivities.mem_paths_insert, eq_comm]

/-- Other keys of the same level keep their values. The numbers of units and of elements share
a field, but belong to different levels. -/
theorem values_put_of_ne (hv : p.Takes v) {level : DeviceLevel} (hp : level ∈ p.levels)
    (hq : level ∈ q.levels) (h : q ≠ p) : (l.put p v).values q = l.values q := by
  cases v with
  | flag =>
    rcases DeviceProperty.kind_eq_flag.mp hv with rfl | rfl <;>
      cases q <;> first | rfl | exact absurd rfl h
  | count n =>
    rcases DeviceProperty.kind_eq_integer.mp hv.1 with rfl | rfl | rfl | rfl | rfl <;>
      cases q <;> first | rfl | exact absurd rfl h | cases level <;> simp [DeviceProperty.levels] at hp hq
  | path c =>
    rcases DeviceProperty.isCumulative_iff.mp hv.2 with rfl | rfl <;>
      cases q <;> first | rfl | exact absurd rfl h
  | support s =>
    rcases (DeviceProperty.kind_eq_identifier hv.2.1).mp hv.1 with rfl | rfl | rfl <;>
      cases q <;> first | rfl | exact absurd rfl h

end Put

end LevelDraft

/-! ### Devices -/

namespace Device

/-- The values of a key at a level. -/
def values (d : Device) : DeviceLevel → DeviceProperty → List PropertyValue
  | .device, .computeUnits => [.count d.units]
  | .device, .memorySize => d.memory.toList.map .count
  | .unit, .computeElements => [.count d.unit.elements]
  | .unit, .memorySize => d.unit.memory.toList.map .count
  | .unit, .cacheSize => d.unit.cache.toList.map .count
  | .unit, .dataCache => if d.unit.dataCache then [.flag] else []
  | .unit, .connectivityToExt => d.unit.toExt.paths.map .path
  | .unit, .connectivityToLateral => d.unit.toLateral.paths.map .path
  | .element, .memorySize => d.element.memory.toList.map .count
  | .element, .cacheSize => d.element.cache.toList.map .count
  | .element, .dataCache => if d.element.dataCache then [.flag] else []
  | .element, .connectivityToExt => d.element.toExt.paths.map .path
  | .element, .connectivityToLateral => d.element.toLateral.paths.map .path
  | .element, .hwThreads => [.count d.element.hwThreads]
  | .element, .swThreads => if d.element.swThreads then [.flag] else []
  | .element, .longSupport => [.support d.element.long]
  | .element, .floatSupport => [.support d.element.float]
  | .element, .doubleSupport => [.support d.element.double]
  | _, _ => []

/-- The name of a level. -/
def nameOf (d : Device) : DeviceLevel → String
  | .device => d.name
  | .unit => d.unit.name
  | .element => d.element.name

theorem levels_of_mem_values {d : Device} {l : DeviceLevel} {p : DeviceProperty} {v : PropertyValue}
    (h : v ∈ d.values l p) : l ∈ p.levels := by
  cases l <;> cases p <;> first | exact absurd h List.not_mem_nil | decide

section Ext

variable {α : Type} {f : α → PropertyValue} (hf : Function.Injective f)

include hf

theorem option_ext {o o' : Option α} (h : ∀ v, v ∈ o.toList.map f ↔ v ∈ o'.toList.map f) : o = o' := by
  refine Option.ext fun a => ?_
  have ha := h (f a)
  rwa [List.mem_map_of_injective hf, List.mem_map_of_injective hf, Option.mem_toList,
    Option.mem_toList] at ha

theorem eq_of_singleton {a a' : α} (h : ∀ v, v ∈ [f a] ↔ v ∈ [f a']) : a = a' :=
  hf (List.mem_singleton.mp ((h (f a)).mp List.mem_cons_self))

end Ext

theorem flag_ext {b b' : Bool} (h : ∀ v, v ∈ (if b then [PropertyValue.flag] else []) ↔
    v ∈ (if b' then [PropertyValue.flag] else [])) : b = b' := by
  have hflag := h .flag
  cases b <;> cases b' <;> simp at hflag ⊢

theorem paths_ext {s s' : Connectivities} (h : ∀ v, v ∈ s.paths.map PropertyValue.path ↔
    v ∈ s'.paths.map PropertyValue.path) : s = s' := by
  refine Connectivities.ext_paths fun c => ?_
  have hc := h (.path c)
  rwa [List.mem_map_of_injective fun _ _ => PropertyValue.path.inj,
    List.mem_map_of_injective fun _ _ => PropertyValue.path.inj] at hc

/-- A device is known by its names and values. -/
theorem ext_values {d d' : Device} (hname : ∀ l, d.nameOf l = d'.nameOf l)
    (h : ∀ l p v, v ∈ d.values l p ↔ v ∈ d'.values l p) : d = d' := by
  have hcount : Function.Injective PropertyValue.count := fun _ _ => PropertyValue.count.inj
  have hsupport : Function.Injective PropertyValue.support := fun _ _ => PropertyValue.support.inj
  obtain ⟨_, _, _, ⟨_, _, _, _, _, _, _⟩, ⟨_, _, _, _, _, _, _, _, _, _, _⟩⟩ := d
  obtain ⟨_, _, _, ⟨_, _, _, _, _, _, _⟩, ⟨_, _, _, _, _, _, _, _, _, _, _⟩⟩ := d'
  rw [mk.injEq, ComputeUnit.mk.injEq, ComputeElement.mk.injEq]
  refine ⟨hname .device, option_ext hcount (h .device .memorySize),
    eq_of_singleton hcount (h .device .computeUnits), ⟨hname .unit, ?_⟩, ⟨hname .element, ?_⟩⟩
  · exact ⟨option_ext hcount (h .unit .memorySize), option_ext hcount (h .unit .cacheSize),
      flag_ext (h .unit .dataCache), paths_ext (h .unit .connectivityToExt),
      paths_ext (h .unit .connectivityToLateral), eq_of_singleton hcount (h .unit .computeElements)⟩
  · exact ⟨option_ext hcount (h .element .memorySize), option_ext hcount (h .element .cacheSize),
      flag_ext (h .element .dataCache), paths_ext (h .element .connectivityToExt),
      paths_ext (h .element .connectivityToLateral), eq_of_singleton hcount (h .element .hwThreads),
      flag_ext (h .element .swThreads), eq_of_singleton hsupport (h .element .longSupport),
      eq_of_singleton hsupport (h .element .floatSupport),
      eq_of_singleton hsupport (h .element .doubleSupport)⟩

end Device

namespace DeviceDraft

theorem nameOf_freeze (d : DeviceDraft) (l : DeviceLevel) : d.freeze.nameOf l = d.nameOf l := by
  cases l <;> rfl

/-- Where no value was set, freezing leaves the default. -/
theorem values_freeze (d : DeviceDraft) {l : DeviceLevel} {p : DeviceProperty} (h : l ∈ p.levels) :
    d.freeze.values l p =
      if (d.level l).values p = [] then p.default?.toList else (d.level l).values p := by
  have hdefault {α : Type} (f : α → PropertyValue) (o : Option α) (a : α) :
      [f (o.getD a)] = if o.toList.map f = [] then [f a] else o.toList.map f := by
    cases o <;> rfl
  have hnone (vs : List PropertyValue) : vs = if vs = [] then [] else vs := by
    split_ifs with hvs
    · exact hvs
    · rfl
  cases l <;> cases p <;>
    first
    | exact absurd h (by decide)
    | exact hnone _
    | exact hdefault _ _ _

end DeviceDraft

end StencilTiling
