import StencilTiling.Proofs.Code.Body
import StencilTiling.Proofs.Kernel.Arena

/-! The calls of an emitted body. They are the last segment: one call for each node of the
schedule, in its order, and a comment wherever the cycle changes. With the nodes sorted by
cycle the comments count upward, and every call stands under that of its own cycle. -/

namespace StencilTiling.Code

/-- Calls of nodes under the comment of their cycle. -/
structure CallSection where
  cycle : Nat
  calls : List (NodeId × Stmt)

def CallSection.stmts (s : CallSection) : List Stmt := .cycleNote s.cycle :: s.calls.map Prod.snd

/-- The cycle recorded on what a node writes. -/
def RunsAt (k : Kernel) (id : NodeId) (cycle : Nat) : Prop :=
  ∃ n output, k.nodes[id]? = some n ∧ k.data[n.output]? = some output ∧ output.cycle = some cycle

/-- The statement calls the node with its operands. -/
def IsCall (k : Kernel) (id : NodeId) (stmt : Stmt) : Prop :=
  ∃ n output args, k.nodes[id]? = some n ∧ k.data[n.output]? = some output ∧
    operands k n output = .ok args ∧ stmt = .call n.symbol args

/-- The sections call the nodes once each, in this order, and their cycles increase. -/
structure CallsNodes (k : Kernel) (ids : List NodeId) (sections : List CallSection) : Prop where
  ids : sections.flatMap (fun s => s.calls.map Prod.fst) = ids
  nonempty : ∀ s ∈ sections, s.calls ≠ []
  call : ∀ s ∈ sections, ∀ c ∈ s.calls, IsCall k c.1 c.2 ∧ RunsAt k c.1 s.cycle
  increasing : sections.Pairwise fun s t => s.cycle < t.cycle

/-- While a cycle lasts its calls need no comment. The calls before the first comment belong to
the cycle that lasts, and what follows is later. -/
theorem callStmts_sections {k : Kernel} {cycle : NodeId → Nat} {ids : List NodeId}
    {current : Option Nat} {stmts : List Stmt} (h : callStmts k current ids = .ok stmts)
    (hruns : ∀ id ∈ ids, RunsAt k id (cycle id)) (hsorted : ids.Pairwise fun a b => cycle a ≤ cycle b) :
    ∃ (lead : List (NodeId × Stmt)) (tail : List NodeId) (sections : List CallSection),
      stmts = lead.map Prod.snd ++ sections.flatMap CallSection.stmts ∧
      ids = lead.map Prod.fst ++ tail ∧ CallsNodes k tail sections ∧
      (∀ c ∈ lead, IsCall k c.1 c.2 ∧ current = some (cycle c.1)) ∧
      ∀ now, current = some now → (∀ id ∈ ids, now ≤ cycle id) → ∀ s ∈ sections, now < s.cycle := by
  induction ids generalizing current stmts with
  | nil =>
    obtain rfl := pure_eq_ok.mp h
    exact ⟨[], [], [], rfl, rfl, ⟨rfl, by simp, by simp, .nil⟩, by simp, by simp⟩
  | cons id rest ih =>
    obtain ⟨n, hn, h⟩ := bind_eq_ok.mp h
    obtain ⟨output, hout, h⟩ := bind_eq_ok.mp h
    obtain ⟨args, hargs, h⟩ := bind_eq_ok.mp h
    obtain ⟨calls, hcalls, h⟩ := bind_eq_ok.mp h
    obtain ⟨hid, hrest⟩ := List.forall_mem_cons.mp hruns
    obtain ⟨hle, hsorted⟩ := List.pairwise_cons.mp hsorted
    rw [Kernel.node_eq_ok] at hn
    rw [Kernel.item_eq_ok] at hout
    have hcycle : output.cycle = some (cycle id) := by
      obtain ⟨n', output', hn', hout', hcycle⟩ := hid
      obtain rfl := Option.some.inj (hn.symm.trans hn')
      obtain rfl := Option.some.inj (hout.symm.trans hout')
      exact hcycle
    have hcall : IsCall k id (.call n.symbol args) := ⟨n, output, args, hn, hout, hargs, rfl⟩
    obtain ⟨lead, tail, sections, hstmts, hids, hnodes, hlead, hlater⟩ := ih hcalls hrest hsorted
    have hafter := hlater _ hcycle hle
    rw [hcycle] at h hlead
    by_cases hnow : some (cycle id) = current
    · -- the cycle lasts
      rw [if_pos hnow] at h
      refine ⟨(id, .call n.symbol args) :: lead, tail, sections, ?_, ?_, hnodes, ?_, ?_⟩
      · rw [← pure_eq_ok.mp h, hstmts]
        rfl
      · rw [hids]
        rfl
      · refine List.forall_mem_cons.mpr ⟨⟨hcall, hnow.symm⟩, fun c hc => ?_⟩
        exact ⟨(hlead c hc).1, hnow ▸ (hlead c hc).2⟩
      · rintro now rfl -
        obtain rfl := Option.some.inj hnow
        exact hafter
    · -- a new cycle begins with this call
      rw [if_neg hnow] at h
      refine ⟨[], id :: rest, ⟨cycle id, (id, .call n.symbol args) :: lead⟩ :: sections, ?_, rfl,
        ⟨?_, ?_, ?_, ?_⟩, by simp, ?_⟩
      · rw [← pure_eq_ok.mp h, hstmts]
        rfl
      · rw [List.flatMap_cons, hnodes.ids, hids]
        rfl
      · exact List.forall_mem_cons.mpr ⟨by simp, hnodes.nonempty⟩
      · refine List.forall_mem_cons.mpr ⟨List.forall_mem_cons.mpr ⟨⟨hcall, hid⟩, fun c hc => ?_⟩,
          hnodes.call⟩
        obtain ⟨hc', hsame⟩ := hlead c hc
        have hmem : c.1 ∈ rest := by
          rw [hids]
          exact List.mem_append_left _ (List.mem_map_of_mem hc)
        exact ⟨hc', Option.some.inj hsame ▸ hrest _ hmem⟩
      · exact List.pairwise_cons.mpr ⟨hafter, hnodes.increasing⟩
      · rintro now rfl hge
        have hlt : now < cycle id := Nat.lt_of_le_of_ne (hge id List.mem_cons_self)
          fun heq => hnow (congrArg some heq.symm)
        exact List.forall_mem_cons.mpr ⟨hlt, fun s hs => Nat.lt_trans hlt (hafter s hs)⟩

/-- The calls are the last segment of an emitted body. -/
theorem emit_calls {k : Kernel} {s : Schedule} {p : Program} (h : emit k = .ok p)
    (hs : k.schedule = some s) (cycle : NodeId → Nat)
    (hruns : ∀ id ∈ s.nodeOrder, RunsAt k id (cycle id))
    (hsorted : s.nodeOrder.Pairwise fun a b => cycle a ≤ cycle b) :
    ∃ before sections, p.body = before ++ sections.flatMap CallSection.stmts ∧
      (∀ stmt ∈ before, stmt.segment ≠ .calls) ∧ CallsNodes k s.nodeOrder sections := by
  obtain ⟨s', hs', hbody⟩ := emit_eq_ok h
  obtain rfl := Option.some.inj (hs'.symm.trans hs)
  obtain ⟨coordinates, buffers, calls, hcoordinates, hbuffers, hcalls, hbody⟩ := bodyOf_eq_ok hbody
  obtain ⟨lead, tail, sections, hstmts, hids, hnodes, hlead, -⟩ :=
    callStmts_sections hcalls hruns hsorted
  -- nothing runs before the first comment
  obtain rfl : lead = [] := List.eq_nil_iff_forall_not_mem.mpr fun c hc => nomatch (hlead c hc).2
  rw [List.map_nil, List.nil_append] at hstmts hids
  refine ⟨_, sections, hstmts ▸ hbody, fun stmt hstmt => ?_, hids ▸ hnodes⟩
  rcases List.mem_append.mp hstmt with hstmt | hstmt
  · rcases List.mem_append.mp hstmt with hstmt | hstmt
    · simp [segment_partIndices s' stmt hstmt]
    · simp [segment_coordinates hcoordinates stmt hstmt]
  · simp [segment_buffers hbuffers stmt hstmt]

end StencilTiling.Code
