import StencilTiling.Description.Build
import StencilTiling.Proofs.Kernel.ControlParams

/-! Kernels of a description. An entry is one declaration, or two where it says its place,
so the kernels are built like any others. An extent at run time names a control parameter
that is declared before it. -/

namespace StencilTiling.Description

/-- What entries make of an empty kernel. -/
structure Described (k : Kernel) : Prop where
  built : k.Built
  carried : k.ExtentsCarried

theorem Described.declare {k k' : Kernel} {d : Kernel.Declaration} (h : Described k)
    (hd : ∀ i ∈ d.shape.filterMap Extent.param, k.HasControl i) (hk : k.declare d = .ok k') :
    Described k' :=
  ⟨h.built.declare hk, h.carried.declare hd hk⟩

/-- A declaration without a shape. -/
theorem Described.declare_scalar {k k' : Kernel} {d : Kernel.Declaration} (h : Described k)
    (hd : d.shape = []) (hk : k.declare d = .ok k') : Described k' :=
  h.declare (by simp [hd]) hk

/-! ### Data -/

theorem found_eq_ok {α : Type} {e : BuildError} {x : Option α} {a : α} :
    found e x = .ok a ↔ x = some a := by
  cases x <;> simp [found]

theorem hasControl_of_control? {k : Kernel} {name : String} {i : DataId}
    (h : control? k name = some i) : k.HasControl i := by
  obtain ⟨j, -, h⟩ := Option.bind_eq_some_iff.mp h
  obtain ⟨item, hitem, h⟩ := Option.bind_eq_some_iff.mp h
  split_ifs at h with hcontrol
  obtain rfl := Option.some.inj h
  exact ⟨item, hitem, by simpa [DataItem.isControl] using hcontrol⟩

theorem param_build {k : Kernel} {item : String} {entry : ExtentEntry} {extent : Extent}
    (h : entry.build k item = .ok extent) : ∀ i ∈ extent.param, k.HasControl i := by
  cases entry with
  | fixed n =>
    obtain rfl := Except.ok.inj h
    intro i hi
    cases hi
  | dynamic param max =>
    obtain ⟨j, hj, h⟩ := bind_eq_ok.mp h
    obtain rfl := pure_eq_ok.mp h
    intro i hi
    obtain rfl := Option.some.inj hi
    exact hasControl_of_control? (found_eq_ok.mp hj)

theorem Described.addData {unit : String} {k k' : Kernel} {entry : DataEntry} (h : Described k)
    (hk : entry.build unit k = .ok k') : Described k' := by
  obtain ⟨elem, -, hk⟩ := bind_eq_ok.mp hk
  obtain ⟨shape, hshape, hk⟩ := bind_eq_ok.mp hk
  obtain ⟨⟨d, k₁⟩, hadd, hk⟩ := bind_eq_ok.mp hk
  have hcontrols : ∀ i ∈ shape.filterMap Extent.param, k.HasControl i := by
    intro i hi
    obtain ⟨extent, hextent, hparam⟩ := List.mem_filterMap.mp hi
    obtain ⟨entry', -, hbuild⟩ := exists_of_mem_mapM hshape hextent
    exact param_build hbuild i hparam
  have hadd := mapError_eq_ok.mp hadd
  have h₁ : Described k₁ := by
    cases hkind : entry.kind with
    | input =>
      rw [hkind] at hadd
      exact h.declare (d := .input entry.name elem shape) hcontrols (map_eq_ok.mpr ⟨_, hadd, rfl⟩)
    | control =>
      rw [hkind] at hadd
      exact h.declare_scalar (d := .control entry.name elem) rfl (map_eq_ok.mpr ⟨_, hadd, rfl⟩)
    | temporary =>
      rw [hkind] at hadd
      exact h.declare (d := .data entry.name elem shape) hcontrols (map_eq_ok.mpr ⟨_, hadd, rfl⟩)
    | output =>
      rw [hkind] at hadd
      exact h.declare (d := .output entry.name elem shape) hcontrols (map_eq_ok.mpr ⟨_, hadd, rfl⟩)
  obtain rfl := pure_eq_ok.mp hk
  cases place unit entry.line with
  | none => exact h₁
  | some l => exact h₁.declare_scalar (d := .locate d l) rfl rfl

/-! ### Kernels -/

theorem Described.addNode {unit : String} {state state' : Kernel × Numbering} {entry : NodeEntry}
    (h : Described state.1) (hk : entry.add unit state = .ok state') : Described state'.1 := by
  obtain ⟨decl, -, hk⟩ := bind_eq_ok.mp hk
  obtain ⟨⟨n, k, numbering⟩, hadd, hk⟩ := bind_eq_ok.mp hk
  obtain rfl := pure_eq_ok.mp hk
  exact h.declare_scalar (d := .node state.2 decl) rfl
    (map_eq_ok.mpr ⟨_, mapError_eq_ok.mp hadd, rfl⟩)

theorem described_kernel {unit : String} {numbering : Numbering} {entry : KernelEntry}
    {state : Kernel × Numbering} (h : entry.build unit numbering = .ok state) : Described state.1 := by
  obtain ⟨k, hdata, hnodes⟩ := bind_eq_ok.mp h
  have hempty : Described { name := entry.name, location := place unit entry.line } :=
    ⟨.empty _ _, fun d hd => by cases hd⟩
  have hk : Described k := foldlM_invariant (fun _ _ _ _ h hd => h.addData hd) hempty hdata
  exact foldlM_invariant (P := fun s => Described s.1) (fun _ _ _ _ h hn => h.addNode hn) hk hnodes

theorem described_kernels {unit : String} {entries : List KernelEntry}
    {numbering numbering' : Numbering} {ks : List Kernel}
    (h : buildKernels unit numbering entries = .ok (ks, numbering')) : ∀ k ∈ ks, Described k := by
  induction entries generalizing numbering ks numbering' with
  | nil =>
    obtain ⟨rfl, -⟩ := Prod.mk.inj (Except.ok.inj h)
    simp
  | cons entry rest ih =>
    obtain ⟨⟨k, numbering₁⟩, hk, h⟩ := bind_eq_ok.mp h
    obtain ⟨⟨ks', numbering₂⟩, hks, h⟩ := bind_eq_ok.mp h
    obtain ⟨rfl, -⟩ := Prod.mk.inj (pure_eq_ok.mp h)
    exact List.forall_mem_cons.mpr ⟨described_kernel hk, ih hks⟩

/-- The kernels of an accepted description. -/
theorem described_of_build {unit : String} {graph : Graph} {ks : List Kernel}
    (h : graph.build unit = .ok ks) : ∀ k ∈ ks, Described k := by
  obtain ⟨⟨ks', numbering⟩, hks, rfl⟩ := map_eq_ok.mp h
  exact described_kernels hks

end StencilTiling.Description
