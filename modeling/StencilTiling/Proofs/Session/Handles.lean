import StencilTiling.Proofs.Session.Registry

/-! What the holder of a stream's number can rely on, over every run of calls. The number
acts on the stream that was opened for it and on no other; it is refused after a commit and
after closing; and a file that a run leaves holds what was written through one number before
its commit. A number comes back after the first closing, and only then. -/

namespace StencilTiling.Outputs

open Host StencilTiling.Tree

/-- Writing and committing are refused and change nothing. -/
def Refused (id : StreamId) (o : Outputs) : Prop :=
  (∀ text, perform (.write id text) o = (.failed (.unknownStream id), o)) ∧
    perform (.commit id) o = (.failed (.unknownStream id), o)

/-- Where a target leads to. -/
def Leads (o : Outputs) (target : String) (p : Place) : Prop :=
  o.host.tree.locate false o.host.home target = .ok p

/-- How the commit of a stream ends: the target holds its text and nothing else is changed, or
there was a failure outside and nothing is changed at all. Places that the run took for itself
do not count. -/
inductive Settles (h : Host) (o : Outputs) (target text : String) : Reply → Outputs → Prop where
  | moved {o' : Outputs} {p : Place} (leads : o.Leads target p)
      (target_eq : o'.host.tree.get? p = some (.file (.text text)))
      (rest : ∀ q, ¬ h.Makes q → q ≠ p → o'.host.tree.get? q = o.host.tree.get? q) :
      Settles h o target text (.committed target) o'
  | lost {o' : Outputs} {e : SessionError} {io : IoError}
      (outside : e = .write target io ∨ e = .persist target io)
      (rest : ∀ q, ¬ h.Makes q → o'.host.tree.get? q = o.host.tree.get? q) :
      Settles h o target text (.failed e) o'

section Calls

variable {h : Host} {keep : Bool} {log : List Event} {o : Outputs} {id : StreamId} {target text : String}

theorem Tracked.stream?_eq_none (ht : Tracked h keep log o) (hno : ∀ target text, ¬ Held log id target text) :
    o.stream? id = none := by
  rw [Option.eq_none_iff_forall_ne_some]
  intro s hs
  exact hno _ _ ((ht.held id s.target s.text).mpr ⟨s, hs, rfl, rfl⟩)

theorem Tracked.refused (ht : Tracked h keep log o) (hno : ∀ target text, ¬ Held log id target text) :
    Refused id o := by
  have hnone := ht.stream?_eq_none hno
  constructor
  · intro text
    rcases write_cases id text o with ⟨-, hrun⟩ | ⟨s, hs, -⟩
    · exact replying_of_error hrun
    · cases hnone.symm.trans hs
  · rcases commit_cases id o with ⟨-, hrun⟩ | ⟨s, host, hs, -⟩
    · exact replying_of_error hrun
    · cases hnone.symm.trans hs

/-- A number is not held any more after its commit or the first closing, until it is returned
again. -/
theorem not_held_of_spent {before since : List Event} {e : Event} (heq : log = before ++ e :: since)
    (he : e.call = .commit id ∨ e.call = .close ∧ ¬ Closes before)
    (hno : ∀ target, ⟨.openStream target, .opened id⟩ ∉ since) : ¬ Held log id target text := by
  rintro ⟨before', since', heq', hlast, hopen, -⟩
  have hne : e ≠ ⟨.openStream target, .opened id⟩ := by
    rintro rfl
    simp at he
  rcases List.append_eq_append_iff.mp (heq.symm.trans heq') with ⟨mid, -, hmid⟩ | ⟨mid, rfl, hmid⟩
  · -- the number was returned later
    rcases List.cons_eq_append_iff.mp hmid with ⟨-, hcons⟩ | ⟨mid', -, rfl⟩
    · exact hne (List.head_eq_of_cons_eq hcons).symm
    · exact hno target (by simp)
  · rcases List.cons_eq_append_iff.mp hmid with ⟨-, hcons⟩ | ⟨mid', rfl, rfl⟩
    · exact hne (List.head_eq_of_cons_eq hcons)
    · rcases he with he | ⟨he, hclosed⟩
      · exact hopen e (by simp) he
      · have hsince : Closes (mid' ++ e :: since) := closes_append.mpr (.inr (closes_cons.mpr (.inl he)))
        exact hclosed (closes_append.mpr (.inl (hlast hsince)))

theorem Tracked.write_reply (ht : Tracked h keep log o) (hheld : Held log id target text) (more : String) :
    (perform (.write id more) o).2.host.tree = o.host.tree ∧
      ((perform (.write id more) o).1 = .written ∨
        o.host.refusals o.host.clock ≠ none ∧ ∃ io, (perform (.write id more) o).1 = .failed (.write target io)) := by
  obtain ⟨s, hs, rfl, -⟩ := (ht.held id target text).mp hheld
  rcases write_cases id more o with ⟨hnone, -⟩ | ⟨s', hs', ⟨io, hrun⟩ | hrun⟩
  · cases hnone.symm.trans hs
  · obtain rfl := Option.some.inj (hs.symm.trans hs')
    rw [show perform (.write id more) o = _ from replying_of_error hrun]
    refine ⟨rfl, .inr ⟨fun hg => ?_, io, rfl⟩⟩
    have hok := write_of_granted hs hg more
    rw [hrun] at hok
    cases hok
  · rw [show perform (.write id more) o = _ from replying_of_ok hrun]
    exact ⟨rfl, .inl rfl⟩

/-- An open stream's scratch file may be written over without moving anything. -/
theorem Tracked.locate_flushed (ht : Tracked h keep log o) {s : OutStream} (hs : o.stream? id = some s)
    (path : String) :
    (s.flushed o.host.tree).locate false o.host.home path = o.host.tree.locate false o.host.home path := by
  obtain ⟨c, hc⟩ := ht.apart.scratch id s hs
  exact (sameShape_insert hc _).locate false o.host.home path

theorem Tracked.commit_settles (ht : Tracked h keep log o) (hheld : Held log id target text) :
    Settles h o target text (perform (.commit id) o).1 (perform (.commit id) o).2 := by
  obtain ⟨s, hs, rfl, rfl⟩ := (ht.held id target text).mp hheld
  have hscratch := ht.sound.makes_of_stream? hs
  rcases commit_cases id o with ⟨hnone, -⟩ | ⟨s', host, hs', ⟨e, io, he, htouch, hrun⟩ | ⟨p, hp, hfolder, rfl, hrun⟩⟩
  · cases hnone.symm.trans hs
  · obtain rfl := Option.some.inj (hs.symm.trans hs')
    rw [show perform (.commit id) o = _ from replying_of_error hrun]
    exact .lost he fun q hq => htouch.tree q (ne_of_not hscratch hq)
  · obtain rfl := Option.some.inj (hs.symm.trans hs')
    have hroot : p ≠ [] := by
      rintro rfl
      exact hfolder rfl
    rw [show perform (.commit id) o = _ from replying_of_ok hrun]
    rw [ht.locate_flushed hs] at hp
    refine .moved hp (get?_insert_self hroot) fun q hq hqp => ?_
    exact (s.get?_moved hroot (ne_of_not hscratch hq)).trans (get?_insert_of_ne hqp)

/-- A commit succeeds if its steps are not refused and its target leads to no folder. -/
theorem Tracked.commit_succeeds (ht : Tracked h keep log o) (hheld : Held log id target text)
    (hflush : o.host.refusals o.host.clock = none) (hmove : o.host.refusals (o.host.clock + 1) = none)
    {p : Place} (hp : o.Leads target p) (hfolder : o.host.tree.get? p ≠ some .folder) :
    (perform (.commit id) o).1 = .committed target := by
  obtain ⟨s, hs, rfl, rfl⟩ := (ht.held id target text).mp hheld
  obtain ⟨c, hc⟩ := ht.apart.scratch id s hs
  have hroot : s.scratch ≠ [] := by
    intro hnil
    rw [hnil] at hc
    cases hc
  have hfolder' : (s.flushed o.host.tree).get? p ≠ some .folder := by
    rcases sameShape_insert hc (.text s.text) p with heq | ⟨c', -, hfile, -⟩
    · exact heq ▸ hfolder
    · rw [OutStream.flushed, hfile]
      simp
  have hok := commit_of_granted hs hflush hmove hroot ((ht.locate_flushed hs _).trans hp) hfolder'
  rcases hrun : Outputs.commit id o with ⟨e | path, o'⟩
  · rw [hrun] at hok
    cases hok
  · rw [hrun] at hok
    cases hok
    rw [show perform (.commit id) o = _ from replying_of_ok hrun]

/-- All calls but a commit touch only what the run took for itself. -/
theorem touches_perform (hs : Sound h o) {c : Call} (hc : ∀ id, c ≠ .commit id) :
    Touches h.Makes o.host (perform c o).2.host := by
  cases c with
  | openStream target => exact (replying_snd .opened (openStream target) o) ▸ (within_openStream target o hs).2
  | write id text => exact (replying_snd (fun _ => .written) (write id text) o) ▸ (within_write id text o hs).2
  | commit id => exact absurd rfl (hc id)
  | tempFolder => exact (replying_snd .folder tempFolder o) ▸ (within_tempFolder o hs).2
  | close => exact (replying_snd (fun _ => .closed) close o) ▸ (within_close o hs).2

/-- One call changes a place by a commit that leads there, or not at all. -/
theorem Tracked.get?_perform (ht : Tracked h keep log o) (c : Call) {q : Place} (hq : ¬ h.Makes q) :
    (perform c o).2.host.tree.get? q = o.host.tree.get? q ∨
      ∃ id target text, c = .commit id ∧ Held log id target text ∧ (perform c o).1 = .committed target ∧
        o.Leads target q ∧ (perform c o).2.host.tree.get? q = some (.file (.text text)) := by
  by_cases hc : ∃ id, c = .commit id
  · obtain ⟨id, rfl⟩ := hc
    by_cases hheld : ∃ target text, Held log id target text
    · obtain ⟨target, text, hheld⟩ := hheld
      have hsettles := ht.commit_settles hheld
      generalize perform (.commit id) o = answer at hsettles ⊢
      obtain ⟨reply, o'⟩ := answer
      cases hsettles with
      | @moved _ p hleads htext hrest =>
        by_cases hqp : q = p
        · subst hqp
          exact .inr ⟨id, target, text, rfl, hheld, rfl, hleads, htext⟩
        · exact .inl (hrest q hq hqp)
      | lost _ hrest => exact .inl (hrest q hq)
    · rw [(ht.refused fun target text hh => hheld ⟨target, text, hh⟩).2]
      exact .inl rfl
  · exact .inl ((touches_perform ht.sound fun id heq => hc ⟨id, heq⟩).tree q hq)

end Calls

/-! ### Whole runs -/

section Runs

variable (h : Host) (keep : Bool) (calls : List Call)

/-- Every event of a log is the reply to its call at its time. -/
theorem reply_of_log {before since : List Event} {e : Event}
    (heq : ((Run.start h keep).after calls).log = before ++ e :: since) :
    ((Run.start h keep).after (before.map Event.call)).log = before ∧
      e.reply = (perform e.call ((Run.start h keep).after (before.map Event.call)).outputs).1 := by
  induction calls using List.reverseRecOn generalizing since with
  | nil => simp [Run.after, Run.start] at heq
  | append_singleton calls c ih =>
    rw [Run.after_concat] at heq
    rcases concat_eq_split heq with ⟨rfl, rfl, rfl⟩ | ⟨rest, rfl, hrest⟩
    · rw [Run.calls_of_log]
      exact ⟨rfl, rfl⟩
    · exact ih hrest

/-- Two calls return the same number only if the first closing stands between them. -/
theorem closes_between {before between since : List Event} {target target' : String} {id : StreamId}
    (heq : ((Run.start h keep).after calls).log =
      before ++ ⟨.openStream target, .opened id⟩ :: (between ++ ⟨.openStream target', .opened id⟩ :: since)) :
    ¬ Closes before ∧ Closes between := by
  rw [← List.cons_append, ← List.append_assoc] at heq
  obtain ⟨hlog, hreply⟩ := reply_of_log h keep calls heq
  have ht := tracked_after h keep ((before ++ ⟨.openStream target, .opened id⟩ :: between).map Event.call)
  generalize (Run.start h keep).after _ = r at hlog hreply ht
  have hid : id = r.outputs.streams.length := by
    rcases openStream_cases target' r.outputs with ⟨e, he⟩ | ⟨folder, n, -, hok⟩
    · rw [show perform (.openStream target') r.outputs = _ from replying_of_error he] at hreply
      cases hreply
    · rw [show perform (.openStream target') r.outputs = _ from replying_of_ok hok] at hreply
      injection hreply
  have hlast : ¬ Lasting before between := by
    intro hlast
    have hlt := ht.issued before between target id hlog hlast
    exact absurd hlt (hid ▸ Nat.lt_irrefl _)
  exact ⟨fun hc => hlast fun _ => hc, by_contra fun hc => hlast fun hb => absurd hb hc⟩

/-- A run brought a text to a place: it was written through one number up to its commit, and the
target of this number led there. -/
def Brought (log : List Event) (q : Place) (text : String) : Prop :=
  ∃ before since id target, log = before ++ ⟨.commit id, .committed target⟩ :: since ∧
    Held before id target text ∧ ((Run.start h keep).after (before.map Event.call)).outputs.Leads target q

theorem places_after {q : Place} (hq : ¬ h.Makes q) :
    ((Run.start h keep).after calls).outputs.host.tree.get? q = h.tree.get? q ∨
      ∃ text, Brought h keep ((Run.start h keep).after calls).log q text ∧
        ((Run.start h keep).after calls).outputs.host.tree.get? q = some (.file (.text text)) := by
  induction calls using List.reverseRecOn with
  | nil => exact .inl rfl
  | append_singleton calls c ih =>
    have ht := tracked_after h keep calls
    rw [Run.after_concat]
    rcases ht.get?_perform c hq with hsame | ⟨id, target, text, rfl, hheld, hreply, hleads, htext⟩
    · rcases ih with hold | ⟨text, ⟨before, since, id, target, hlog, hheld, hleads⟩, htext⟩
      · exact .inl (hsame.trans hold)
      · refine .inr ⟨text, ⟨before, since ++ [⟨c, (perform c ((Run.start h keep).after calls).outputs).1⟩],
          id, target, ?_, hheld, hleads⟩, hsame.trans htext⟩
        rw [Run.next, hlog, List.append_assoc, List.cons_append]
    · refine .inr ⟨text, ⟨((Run.start h keep).after calls).log, [], id, target, ?_, hheld, ?_⟩, htext⟩
      · rw [Run.next, hreply]
      · rw [Run.calls_of_log]
        exact hleads

/-- The first closing leaves nothing that was opened before. -/
theorem Tracked.closing {h : Host} {keep : Bool} {log : List Event} {o : Outputs} (ht : Tracked h keep log o)
    (hlog : ¬ Closes log) :
    (perform .close o).2.streams = [] ∧ (perform .close o).2.tempFolders = [] ∧
      ((perform .close o).1 = .closed →
        (∀ id s, o.stream? id = some s → (perform .close o).2.host.tree.get? s.scratch = none) ∧
        (keep = false → ∀ p, ⟨.tempFolder, .folder p⟩ ∈ log → (perform .close o).2.host.tree.get? p = none)) := by
  have hopen : o.closed = false := by
    rw [← Bool.not_eq_true, ht.closed]
    exact hlog
  have hafter : (perform .close o).2 = (Outputs.close o).2 := replying_snd _ _ o
  obtain ⟨host, hclose, -⟩ := close_first ht.sound hopen
  refine ⟨by rw [hafter, hclose], by rw [hafter, hclose], fun hreply => ?_⟩
  have hok : (Outputs.close o).1 = .ok () := by
    rcases hrun : Outputs.close o with ⟨e | u, o'⟩
    · rw [show perform .close o = _ from replying_of_error hrun] at hreply
      cases hreply
    · rfl
  rw [hafter]
  rw [close_of_open hopen, ht.kept] at hok ⊢
  refine ⟨fun id s hs => ?_, ?_⟩
  · exact release_removes_scratch hok (List.mem_of_getElem? (stream?_eq_some.mp hs))
  · rintro rfl p hp
    have hmem := ht.folders p hp hlog
    refine release_removes_folder hok hmem ?_
    rintro rfl
    exact not_makes_root (ht.sound.folders [] hmem [] (List.prefix_refl []))

end Runs

/-- What a run of calls guarantees to holders of numbers. -/
structure Served (h : Host) (keep : Bool) (r : Run) : Prop where
  /-- A number is returned again only if the first closing stands between. -/
  numbers : ∀ before between since target target' id, r.log =
      before ++ ⟨.openStream target, .opened id⟩ :: (between ++ ⟨.openStream target', .opened id⟩ :: since) →
    ¬ Closes before ∧ Closes between
  /-- Writing through a number that is held succeeds, unless it is refused outside. -/
  writes : ∀ id target text more, Held r.log id target text →
    (perform (.write id more) r.outputs).2.host.tree = r.outputs.host.tree ∧
      ((perform (.write id more) r.outputs).1 = .written ∨
        r.outputs.host.refusals r.outputs.host.clock ≠ none ∧
          ∃ io, (perform (.write id more) r.outputs).1 = .failed (.write target io))
  /-- A commit acts on the target for which its number was returned, with the text written
  through it. -/
  commits : ∀ id target text, Held r.log id target text →
    Settles h r.outputs target text (perform (.commit id) r.outputs).1 (perform (.commit id) r.outputs).2 ∧
      ∀ p, r.outputs.host.refusals r.outputs.host.clock = none →
        r.outputs.host.refusals (r.outputs.host.clock + 1) = none →
        r.outputs.Leads target p → r.outputs.host.tree.get? p ≠ some .folder →
        (perform (.commit id) r.outputs).1 = .committed target
  /-- Other numbers are refused. -/
  refused : ∀ id, (∀ target text, ¬ Held r.log id target text) → Refused id r.outputs
  /-- So is a number after its commit or the first closing, until it is returned again. -/
  spent : ∀ id before e since, r.log = before ++ e :: since →
    (e.call = .commit id ∨ e.call = .close ∧ ¬ Closes before) →
    (∀ target, ⟨.openStream target, .opened id⟩ ∉ since) → Refused id r.outputs
  /-- Every place is untouched, or holds what was written through one number up to its commit. -/
  places : ∀ q, ¬ h.Makes q → r.outputs.host.tree.get? q = h.tree.get? q ∨
    ∃ text, Brought h keep r.log q text ∧ r.outputs.host.tree.get? q = some (.file (.text text))
  /-- The first closing leaves nothing that was opened before. -/
  closing : ¬ Closes r.log →
    (perform .close r.outputs).2.streams = [] ∧ (perform .close r.outputs).2.tempFolders = [] ∧
      ((perform .close r.outputs).1 = .closed →
        (∀ id s, r.outputs.stream? id = some s → (perform .close r.outputs).2.host.tree.get? s.scratch = none) ∧
        (keep = false → ∀ p, ⟨.tempFolder, .folder p⟩ ∈ r.log →
          (perform .close r.outputs).2.host.tree.get? p = none))

theorem handles_serve_their_streams (h : Host) (keep : Bool) (calls : List Call) :
    Served h keep ((Run.start h keep).after calls) := by
  have ht := tracked_after h keep calls
  refine ⟨?_, ?_, ?_, ?_, ?_, ?_, ht.closing⟩
  · intro before between since target target' id heq
    exact closes_between h keep calls heq
  · intro id target text more hheld
    exact ht.write_reply hheld more
  · intro id target text hheld
    exact ⟨ht.commit_settles hheld, fun p hflush hmove => ht.commit_succeeds hheld hflush hmove⟩
  · intro id hno
    exact ht.refused hno
  · intro id before e since heq he hno
    exact ht.refused fun target text => not_held_of_spent heq he hno
  · intro q hq
    exact places_after h keep calls hq

/-- A host with an empty working folder and no programs. -/
def bareHost : Host := .new (fun _ _ _ => .error .noSuchFile) {}

/-- A number whose stream was closed comes back: it was returned for one target, and through it
another one is written. -/
theorem number_returned_after_close :
    ((Run.start bareHost false).after [.openStream "a.cl", .write 0 "first", .close, .openStream "b.cl",
      .write 0 "late", .commit 0]).log.map Event.reply =
      [.opened 0, .written, .closed, .opened 0, .written, .committed "b.cl"] := by
  decide +kernel

end StencilTiling.Outputs
