import StencilTiling.Code.Emit
import StencilTiling.Proofs.Checked

/-! The body of an emitted program: the part indices, then the coordinates, the local
arrays and the calls. The arrays are the buffers of the schedule in their order; no other
statement declares local memory. -/

namespace StencilTiling.Code

/-- The segments of a body. -/
inductive Segment where
  | parts
  | coordinates
  | buffers
  | calls
  deriving DecidableEq

def Stmt.segment : Stmt → Segment
  | partOfGroup _ | partOfTile .. => .parts
  | itemNote .. | coordinate .. => .coordinates
  | buffer .. => .buffers
  | cycleNote _ | call .. => .calls

/-- The statement declares a local array. -/
def Stmt.isBuffer : Stmt → Bool
  | buffer .. => true
  | _ => false

/-- Local memory that a statement declares, in bytes. -/
def Stmt.localBytes : Stmt → Nat
  | buffer elem _ count => elem.bytes * count
  | _ => 0

theorem Stmt.isBuffer_iff {stmt : Stmt} : stmt.isBuffer = true ↔ stmt.segment = .buffers := by
  cases stmt <;> simp [isBuffer, segment]

/-! ### Segments -/

theorem segment_tileDigits (stride : Int) (dims : List (Nat × Int)) :
    ∀ stmt ∈ tileDigits stride dims, stmt.segment = .parts := by
  induction dims generalizing stride with
  | nil => simp [tileDigits]
  | cons dim rest ih => exact List.forall_mem_cons.mpr ⟨rfl, ih _⟩

theorem segment_partIndices (s : Schedule) : ∀ stmt ∈ partIndices s, stmt.segment = .parts := by
  unfold partIndices
  split
  · simp
  · exact List.forall_mem_map.mpr fun _ _ => rfl
  · exact segment_tileDigits 1 _

theorem segment_itemStmts {k : Kernel} {item : DataItem} {stmts : List Stmt}
    (h : itemStmts k item = .ok stmts) : ∀ stmt ∈ stmts, stmt.segment = .coordinates := by
  unfold itemStmts at h
  split at h
  · obtain rfl := pure_eq_ok.mp h
    simp
  · split_ifs at h
    · obtain rfl := pure_eq_ok.mp h
      simp
    · obtain ⟨coords, hcoords, h⟩ := bind_eq_ok.mp h
      obtain rfl := pure_eq_ok.mp h
      refine List.forall_mem_cons.mpr ⟨rfl, fun stmt hstmt => ?_⟩
      obtain ⟨entry, -, hentry⟩ := exists_of_mem_mapM hcoords hstmt
      obtain ⟨_, -, hentry⟩ := bind_eq_ok.mp hentry
      obtain rfl := pure_eq_ok.mp hentry
      rfl

theorem segment_callStmts {k : Kernel} {current : Option Nat} {ids : List NodeId} {stmts : List Stmt}
    (h : callStmts k current ids = .ok stmts) : ∀ stmt ∈ stmts, stmt.segment = .calls := by
  induction ids generalizing current stmts with
  | nil =>
    obtain rfl := pure_eq_ok.mp h
    simp
  | cons id rest ih =>
    obtain ⟨n, -, h⟩ := bind_eq_ok.mp h
    obtain ⟨output, -, h⟩ := bind_eq_ok.mp h
    obtain ⟨args, -, h⟩ := bind_eq_ok.mp h
    obtain ⟨calls, hcalls, h⟩ := bind_eq_ok.mp h
    obtain rfl := pure_eq_ok.mp h
    have hrest := ih hcalls
    split_ifs <;> simpa [Stmt.segment] using hrest

/-- A body is its segments in order. -/
theorem bodyOf_eq_ok {k : Kernel} {s : Schedule} {body : List Stmt} (h : bodyOf k s = .ok body) :
    ∃ coordinates buffers calls, k.data.mapM (itemStmts k) = .ok coordinates ∧
      s.buffers.mapM (bufferStmt k) = .ok buffers ∧ callStmts k none s.nodeOrder = .ok calls ∧
      body = partIndices s ++ coordinates.flatten ++ buffers ++ calls := by
  obtain ⟨coordinates, hcoordinates, h⟩ := bind_eq_ok.mp h
  obtain ⟨buffers, hbuffers, h⟩ := bind_eq_ok.mp h
  obtain ⟨calls, hcalls, h⟩ := bind_eq_ok.mp h
  exact ⟨coordinates, buffers, calls, hcoordinates, hbuffers, hcalls, (pure_eq_ok.mp h).symm⟩

theorem segment_coordinates {k : Kernel} {coordinates : List (List Stmt)}
    (h : k.data.mapM (itemStmts k) = .ok coordinates) :
    ∀ stmt ∈ coordinates.flatten, stmt.segment = .coordinates := by
  intro stmt hstmt
  obtain ⟨stmts, hmem, hstmt⟩ := List.mem_flatten.mp hstmt
  obtain ⟨item, -, hitem⟩ := exists_of_mem_mapM h hmem
  exact segment_itemStmts hitem stmt hstmt

theorem segment_buffers {k : Kernel} {usages : List BufferUsage} {buffers : List Stmt}
    (h : usages.mapM (bufferStmt k) = .ok buffers) : ∀ stmt ∈ buffers, stmt.segment = .buffers := by
  intro stmt hstmt
  obtain ⟨usage, -, husage⟩ := exists_of_mem_mapM h hstmt
  obtain ⟨item, -, husage⟩ := bind_eq_ok.mp husage
  obtain rfl := pure_eq_ok.mp husage
  rfl

/-! ### Programs -/

theorem resolvedSchedule_eq_ok {k : Kernel} {s : Schedule} :
    resolvedSchedule k = .ok s ↔
      k.schedule = some s ∧ ∀ d ∈ k.data, d.note.stage = .geometryResolved := by
  unfold resolvedSchedule
  rw [bind_eq_ok]
  constructor
  · rintro ⟨_, hstage, hs⟩
    refine ⟨?_, fun d hd => ensure_eq_ok.mp (forM_eq_ok.mp hstage d hd)⟩
    cases hsched : k.schedule with
    | none =>
      rw [hsched] at hs
      cases hs
    | some s' =>
      rw [hsched] at hs
      rw [pure_eq_ok.mp hs]
  · rintro ⟨hs, hstage⟩
    refine ⟨(), forM_eq_ok.mpr fun d hd => ensure_eq_ok.mpr (hstage d hd), ?_⟩
    rw [hs]
    rfl

/-- A program is its body, its parameters and its loop. -/
theorem exists_emit {k : Kernel} {s : Schedule} {body : List Stmt} {params : List Param}
    (hs : resolvedSchedule k = .ok s) (hbody : bodyOf k s = .ok body)
    (hparams : paramsOf k = .ok params) :
    ∃ p, emit k = .ok p ∧ p.body = body ∧ p.params = params ∧ p.tileLoop = tileLoop s := by
  refine ⟨_, bind_eq_ok.mpr ⟨s, hs, bind_eq_ok.mpr ⟨body, mapError_eq_ok.mpr hbody,
    bind_eq_ok.mpr ⟨params, mapError_eq_ok.mpr hparams, rfl⟩⟩⟩, rfl, rfl, rfl⟩

/-- The body of an emitted program is that of its schedule. -/
theorem emit_eq_ok {k : Kernel} {p : Program} (h : emit k = .ok p) :
    ∃ s, k.schedule = some s ∧ bodyOf k s = .ok p.body := by
  obtain ⟨s, hs, h⟩ := bind_eq_ok.mp h
  obtain ⟨body, hbody, h⟩ := bind_eq_ok.mp h
  obtain ⟨params, -, h⟩ := bind_eq_ok.mp h
  obtain rfl := pure_eq_ok.mp h
  exact ⟨s, (resolvedSchedule_eq_ok.mp hs).1, mapError_eq_ok.mp hbody⟩

/-- The sizes and the loop of an emitted program are those of its schedule. -/
theorem launch_of_emit {k : Kernel} {p : Program} {s : Schedule} (h : emit k = .ok p)
    (hs : k.schedule = some s) :
    p.tileLoop = tileLoop s ∧ p.workGroups = s.workGroups ∧ p.workItems = s.workItems := by
  obtain ⟨s', hs', h⟩ := bind_eq_ok.mp h
  obtain rfl : s' = s := Option.some.inj ((resolvedSchedule_eq_ok.mp hs').1.symm.trans hs)
  obtain ⟨body, -, h⟩ := bind_eq_ok.mp h
  obtain ⟨params, -, h⟩ := bind_eq_ok.mp h
  obtain rfl := pure_eq_ok.mp h
  exact ⟨rfl, rfl, rfl⟩

/-- The name and the parameters of an emitted program are those of its kernel. -/
theorem signature_of_emit {k : Kernel} {p : Program} (h : emit k = .ok p) :
    p.kernel = k.name ∧ paramsOf k = .ok p.params := by
  obtain ⟨s, -, h⟩ := bind_eq_ok.mp h
  obtain ⟨body, -, h⟩ := bind_eq_ok.mp h
  obtain ⟨params, hparams, h⟩ := bind_eq_ok.mp h
  obtain rfl := pure_eq_ok.mp h
  exact ⟨rfl, mapError_eq_ok.mp hparams⟩

/-- The arrays of a body are the buffers of its schedule. -/
theorem filter_isBuffer_bodyOf {k : Kernel} {s : Schedule} {body declared : List Stmt}
    (h : bodyOf k s = .ok body) (hd : s.buffers.mapM (bufferStmt k) = .ok declared) :
    body.filter Stmt.isBuffer = declared := by
  obtain ⟨coordinates, buffers, calls, hcoordinates, hbuffers, hcalls, rfl⟩ := bodyOf_eq_ok h
  obtain rfl := Except.ok.inj (hbuffers.symm.trans hd)
  have hnone {stmts : List Stmt} {g : Segment} (h : ∀ stmt ∈ stmts, stmt.segment = g)
      (hg : g ≠ .buffers) : stmts.filter Stmt.isBuffer = [] :=
    List.filter_eq_nil_iff.mpr fun stmt hstmt hb =>
      hg ((h stmt hstmt).symm.trans (Stmt.isBuffer_iff.mp hb))
  have hparts := hnone (segment_partIndices s) (by decide)
  have hitems := hnone (segment_coordinates hcoordinates) (by decide)
  have hcall := hnone (segment_callStmts hcalls) (by decide)
  have harrays : buffers.filter Stmt.isBuffer = buffers := List.filter_eq_self.mpr fun stmt hstmt =>
    Stmt.isBuffer_iff.mpr (segment_buffers hbuffers stmt hstmt)
  simp only [List.filter_append, hparts, hitems, harrays, hcall, List.nil_append, List.append_nil]

end StencilTiling.Code
