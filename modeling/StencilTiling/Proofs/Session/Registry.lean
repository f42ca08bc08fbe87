import Mathlib.Data.List.Induction
import StencilTiling.Proofs.Session.Outputs

/-! Whole runs of calls on the outputs of a compilation. The log of a run says which streams
are open, for which target and with which text, and the outputs agree with it after every
call. A number is refused once its stream was committed or the outputs were closed. It comes
back in one way only: closing forgets all numbers and leaves opening possible, so the first
streams opened after it take the numbers of old ones. -/

namespace StencilTiling.Outputs

open Host StencilTiling.Tree

/-! ### Calls and logs -/

inductive Call where
  | openStream (target : String)
  | write (id : StreamId) (text : String)
  | commit (id : StreamId)
  | tempFolder
  | close
  deriving DecidableEq, Repr

inductive Reply where
  | opened (id : StreamId)
  | written
  | committed (target : String)
  | folder (p : Place)
  | closed
  | failed (e : SessionError)
  deriving DecidableEq

/-- Runs an operation for its reply. -/
def replying {α : Type} (f : α → Reply) (x : Op α) (o : Outputs) : Reply × Outputs :=
  match x o with
  | (.ok a, o) => (f a, o)
  | (.error e, o) => (.failed e, o)

def perform : Call → Outputs → Reply × Outputs
  | .openStream target => replying .opened (openStream target)
  | .write id text => replying (fun _ => .written) (write id text)
  | .commit id => replying .committed (commit id)
  | .tempFolder => replying .folder tempFolder
  | .close => replying (fun _ => .closed) close

structure Event where
  call : Call
  reply : Reply

/-- A registry of outputs with all that happened to it, the earliest first. -/
structure Run where
  log : List Event := []
  outputs : Outputs

namespace Run

def start (h : Host) (keep : Bool) : Run := { outputs := { host := h, keep } }

def next (r : Run) (c : Call) : Run :=
  ⟨r.log ++ [⟨c, (perform c r.outputs).1⟩], (perform c r.outputs).2⟩

def after (r : Run) (calls : List Call) : Run := calls.foldl next r

theorem after_concat (r : Run) (calls : List Call) (c : Call) :
    r.after (calls ++ [c]) = (r.after calls).next c := by
  simp [after]

theorem calls_of_log (h : Host) (keep : Bool) (calls : List Call) :
    ((start h keep).after calls).log.map Event.call = calls := by
  induction calls using List.reverseRecOn with
  | nil => rfl
  | append_singleton calls c ih => simp [after_concat, next, ih]

end Run

/-- The outputs were closed. -/
def Closes (log : List Event) : Prop := ∃ e ∈ log, e.call = .close

/-- What was opened between two parts of a log is not taken away by closing: only the first
closing counts. -/
def Lasting (before since : List Event) : Prop := Closes since → Closes before

/-- The text that an event adds to the stream of a number. -/
def Event.textTo (id : StreamId) (e : Event) : String :=
  match e with
  | ⟨.write i text, .written⟩ => if i = id then text else ""
  | _ => ""

/-- All that was written through a number, in order. -/
def writtenTo (id : StreamId) (log : List Event) : String := String.join (log.map (Event.textTo id))

/-- A call returned the number, for this target; since then its stream was neither committed
nor closed, and this text was written through the number. -/
def Held (log : List Event) (id : StreamId) (target text : String) : Prop :=
  ∃ before since, log = before ++ ⟨.openStream target, .opened id⟩ :: since ∧ Lasting before since ∧
    (∀ e ∈ since, e.call ≠ .commit id) ∧ text = writtenTo id since

section Logs

variable {log before since : List Event} {e : Event} {id : StreamId} {target text : String}

theorem closes_append : Closes (before ++ since) ↔ Closes before ∨ Closes since := by
  simp only [Closes, List.mem_append, or_and_right, exists_or]

@[simp]
theorem closes_singleton : Closes [e] ↔ e.call = .close := by simp [Closes]

theorem closes_cons : Closes (e :: log) ↔ e.call = .close ∨ Closes log := by simp [Closes]

@[simp]
theorem not_closes_nil : ¬ Closes [] := by simp [Closes]

theorem writtenTo_concat : writtenTo id (log ++ [e]) = writtenTo id log ++ e.textTo id := by
  simp [writtenTo, String.join_append]

theorem Lasting.closes_iff (h : Lasting before since) (he : e.call ≠ .close) :
    Closes (before ++ e :: since) ↔ Closes before := by
  rw [closes_append, closes_cons]
  exact ⟨fun hc => hc.elim id fun hc => h (hc.resolve_left he), .inl⟩

/-- Where an event stands in a log with one more event. -/
theorem concat_eq_split {e' : Event} (h : log ++ [e] = before ++ e' :: since) :
    (before = log ∧ e' = e ∧ since = []) ∨ ∃ rest, since = rest ++ [e] ∧ log = before ++ e' :: rest := by
  rcases List.eq_nil_or_concat' since with rfl | ⟨rest, last, rfl⟩
  · obtain ⟨rfl, he⟩ := List.append_inj' h rfl
    exact .inl ⟨rfl, (List.head_eq_of_cons_eq he).symm, rfl⟩
  · rw [← List.cons_append, ← List.append_assoc] at h
    obtain ⟨rfl, he⟩ := List.append_inj' h rfl
    exact .inr ⟨rest, by rw [List.head_eq_of_cons_eq he], rfl⟩

theorem Lasting.of_concat (h : Lasting before (since ++ [e])) : Lasting before since :=
  fun hc => h (closes_append.mpr (.inl hc))

/-- Closing is no news to what lasts through it. -/
theorem Lasting.closed_before {e' : Event} (h : Lasting before (since ++ [e])) (hc : e.call = .close) :
    Closes (before ++ e' :: since) :=
  closes_append.mpr (.inl (h (closes_append.mpr (.inr (closes_singleton.mpr hc)))))

/-- One more event: a number is returned, or it was held before and the event does not end it. -/
theorem held_concat :
    Held (log ++ [e]) id target text ↔
      (e = ⟨.openStream target, .opened id⟩ ∧ text = "") ∨
        (e.call ≠ .commit id ∧ (e.call = .close → Closes log) ∧
          ∃ old, Held log id target old ∧ text = old ++ e.textTo id) := by
  constructor
  · rintro ⟨before, since, heq, hlast, hopen, rfl⟩
    rcases concat_eq_split heq with ⟨rfl, rfl, rfl⟩ | ⟨rest, rfl, rfl⟩
    · exact .inl ⟨rfl, rfl⟩
    · refine .inr ⟨hopen e (by simp), hlast.closed_before, _, ?_, writtenTo_concat⟩
      exact ⟨before, rest, rfl, hlast.of_concat, fun e' he' => hopen e' (List.mem_append_left _ he'), rfl⟩
  · rintro (⟨rfl, rfl⟩ | ⟨hcommit, hclose, old, ⟨before, since, rfl, hlast, hopen, rfl⟩, rfl⟩)
    · exact ⟨log, [], rfl, fun hc => absurd hc not_closes_nil, by simp, rfl⟩
    · refine ⟨before, since ++ [e], by simp, fun hc => ?_, fun e' he' => ?_, writtenTo_concat.symm⟩
      · rcases closes_append.mp hc with hc | hc
        · exact hlast hc
        · exact (hlast.closes_iff (by simp)).mp (hclose (closes_singleton.mp hc))
      · rcases List.mem_append.mp he' with he' | he'
        · exact hopen e' he'
        · rw [List.mem_singleton.mp he']
          exact hcommit

/-- One more event that neither returns the number nor writes through it. -/
theorem held_concat_of_idle (hopen : e ≠ ⟨.openStream target, .opened id⟩) (htext : e.textTo id = "") :
    Held (log ++ [e]) id target text ↔
      e.call ≠ .commit id ∧ (e.call = .close → Closes log) ∧ Held log id target text := by
  rw [held_concat, htext]
  simp [hopen]

end Logs

/-! ### One call -/

section Calls

variable {α : Type} {f : α → Reply} {x : Op α} {o o' : Outputs}

theorem replying_of_ok {a : α} (h : x o = (.ok a, o')) : replying f x o = (f a, o') := by
  unfold replying
  rw [h]

theorem replying_of_error {e : SessionError} (h : x o = (.error e, o')) :
    replying f x o = (.failed e, o') := by
  unfold replying
  rw [h]

theorem replying_snd (f : α → Reply) (x : Op α) (o : Outputs) : (replying f x o).2 = (x o).2 := by
  rcases hrun : x o with ⟨e | a, o'⟩
  · rw [replying_of_error hrun]
  · rw [replying_of_ok hrun]

end Calls

/-- The first closing forgets everything. -/
theorem close_first {h : Host} {o : Outputs} (hs : Sound h o) (hc : o.closed = false) :
    ∃ host, (close o).2 = { o with host, streams := [], tempFolders := [], closed := true } ∧
      Touches h.Makes o.host host := by
  rw [close_of_open hc]
  exact release_eq (o := { o with closed := true }) hs.scratches hs.folders o.keep

/-- Open streams have scratch files of their own. -/
structure Apart (o : Outputs) : Prop where
  scratch : ∀ id s, o.stream? id = some s → ∃ c, o.host.tree.get? s.scratch = some (.file c)
  apart : ∀ i j s s', o.stream? i = some s → o.stream? j = some s' → s.scratch = s'.scratch → i = j

/-- No stream is new, and those that are left still have their files. -/
theorem Apart.of_old {o o' : Outputs} (ho : Apart o)
    (hold : ∀ id s, o'.stream? id = some s → ∃ s', o.stream? id = some s' ∧ s.scratch = s'.scratch)
    (hfile : ∀ id s c, o'.stream? id = some s → o.host.tree.get? s.scratch = some (.file c) →
      ∃ c', o'.host.tree.get? s.scratch = some (.file c')) : Apart o' where
  scratch id s hs := by
    obtain ⟨s', hs', heq⟩ := hold id s hs
    obtain ⟨c, hc⟩ := ho.scratch id s' hs'
    exact hfile id s c hs (heq ▸ hc)
  apart i j s t hs ht heq := by
    obtain ⟨s', hs', hss⟩ := hold i s hs
    obtain ⟨t', ht', htt⟩ := hold j t ht
    exact ho.apart i j s' t' hs' ht' (hss.symm.trans (heq.trans htt))

/-- One stream is new, and its scratch file stands where nothing stood. -/
theorem Apart.of_new {o o' : Outputs} (ho : Apart o) {new : StreamId} {s₀ : OutStream}
    (hstream : ∀ i, o'.stream? i = if i = new then some s₀ else o.stream? i) (hroot : s₀.scratch ≠ [])
    (hvacant : o.host.tree.get? s₀.scratch = none) {c₀ : Content}
    (htree : o'.host.tree = o.host.tree.insert s₀.scratch (.file c₀)) : Apart o' := by
  have hother : ∀ id s, o.stream? id = some s → s.scratch ≠ s₀.scratch := by
    intro id s hs heq
    obtain ⟨c, hc⟩ := ho.scratch id s hs
    cases hvacant.symm.trans (heq ▸ hc)
  refine ⟨fun id s hs => ?_, fun i j s s' hs hs' heq => ?_⟩
  · rw [hstream] at hs
    rw [htree]
    split_ifs at hs with hid
    · cases hs
      exact ⟨c₀, get?_insert_self hroot⟩
    · obtain ⟨c, hc⟩ := ho.scratch id s hs
      exact ⟨c, (get?_insert_of_ne (hother id s hs)).trans hc⟩
  · rw [hstream] at hs hs'
    split_ifs at hs hs' with hi hj hj
    · exact hi.trans hj.symm
    · cases hs
      exact absurd heq.symm (hother j s' hs')
    · cases hs'
      exact absurd heq (hother i s hs)
    · exact ho.apart i j s s' hs hs' heq

/-- The outputs are as the log says. -/
structure Tracked (h : Host) (keep : Bool) (log : List Event) (o : Outputs) : Prop where
  sound : Sound h o
  apart : Apart o
  closed : o.closed = true ↔ Closes log
  issued : ∀ before since target id, log = before ++ ⟨.openStream target, .opened id⟩ :: since →
    Lasting before since → id < o.streams.length
  held : ∀ id target text, Held log id target text ↔
    ∃ s, o.stream? id = some s ∧ s.target = target ∧ s.text = text
  folders : ∀ p, ⟨.tempFolder, .folder p⟩ ∈ log → ¬ Closes log → p ∈ o.tempFolders
  kept : o.keep = keep

section Steps

variable {h : Host} {keep : Bool} {log : List Event} {o : Outputs}

theorem Tracked.start (h : Host) (keep : Bool) : Tracked h keep [] { host := h, keep } where
  sound := .start h keep
  apart := ⟨by simp [stream?], by simp [stream?]⟩
  closed := by simp
  issued := by simp
  held := by simp [Held, stream?]
  folders := by simp
  kept := rfl

/-- Openings in a longer log. -/
theorem issued_concat {n m : Nat} {e : Event}
    (hold : ∀ before since target id, log = before ++ ⟨.openStream target, .opened id⟩ :: since →
      Lasting before since → id < n)
    (hmn : (e.call = .close → Closes log) → n ≤ m)
    (hnew : ∀ target id, e = ⟨.openStream target, .opened id⟩ → id < m)
    (before since : List Event) (target : String) (id : StreamId)
    (heq : log ++ [e] = before ++ ⟨.openStream target, .opened id⟩ :: since) (hlast : Lasting before since) :
    id < m := by
  rcases concat_eq_split heq with ⟨rfl, he, rfl⟩ | ⟨rest, rfl, rfl⟩
  · exact hnew target id he.symm
  · exact Nat.lt_of_lt_of_le (hold before rest target id rfl hlast.of_concat) (hmn hlast.closed_before)

/-- A call that fails for its handle or for a step outside leaves everything as it was. -/
theorem Tracked.fail (ht : Tracked h keep log o) {c : Call} {e : SessionError} {host : Host}
    (hc : c ≠ .close) (hcommit : ∀ id, c = .commit id → o.stream? id = none)
    (hhost : Touches (fun _ => False) o.host host) :
    Tracked h keep (log ++ [⟨c, .failed e⟩]) { o with host } where
  sound := ht.sound.touches (hhost.mono fun _ => False.elim)
  apart := ht.apart.of_old (fun id s hs => ⟨s, hs, rfl⟩) fun id s content _ hs =>
    ⟨content, (hhost.tree _ not_false).trans hs⟩
  closed := by
    rw [ht.closed, closes_append, closes_singleton, or_iff_left hc]
  issued := issued_concat ht.issued (fun _ => Nat.le_refl _) (by simp)
  held id target text := by
    have htext : (⟨c, .failed e⟩ : Event).textTo id = "" := by
      cases c <;> rfl
    rw [held_concat_of_idle (by simp) htext]
    refine Iff.trans ⟨fun hh => hh.2.2, fun hh => ⟨?_, fun hcl => absurd hcl hc, hh⟩⟩ (ht.held id target text)
    intro hcid
    obtain ⟨s, hs, -⟩ := (ht.held id target text).mp hh
    cases hs.symm.trans (hcommit id hcid)
  folders p hp hcl := by
    rw [closes_append, not_or] at hcl
    refine ht.folders p ?_ hcl.1
    simpa using hp
  kept := ht.kept

/-- The outputs were closed with a longer log. -/
theorem closed_concat {b : Bool} {e : Event} (hb : b = true ↔ Closes log) (he : e.call ≠ .close) :
    b = true ↔ Closes (log ++ [e]) := by
  rw [hb, closes_append, closes_singleton, or_iff_left he]

theorem folders_concat {l : List Place} {e : Event}
    (hl : ∀ p, ⟨.tempFolder, .folder p⟩ ∈ log → ¬ Closes log → p ∈ l) (he : ∀ p, e ≠ ⟨.tempFolder, .folder p⟩)
    (p : Place) (hp : ⟨.tempFolder, .folder p⟩ ∈ log ++ [e]) (hc : ¬ Closes (log ++ [e])) : p ∈ l := by
  rw [closes_append, not_or] at hc
  rcases List.mem_append.mp hp with hp | hp
  · exact hl p hp hc.1
  · exact absurd (List.mem_singleton.mp hp).symm (he p)

theorem Tracked.openStream (ht : Tracked h keep log o) (target : String) :
    Tracked h keep (log ++ [⟨.openStream target, (perform (.openStream target) o).1⟩])
      (perform (.openStream target) o).2 := by
  have hsound := (within_openStream target o ht.sound).1
  rcases openStream_cases target o with ⟨e, he⟩ | ⟨folder, n, hvacant, hok⟩
  · rw [show perform (.openStream target) o = _ from replying_of_error he]
    exact ht.fail (by simp) (by simp) (.ticked _ _)
  · rw [hok] at hsound
    rw [show perform (.openStream target) o = _ from replying_of_ok hok]
    have hstream := fun i => stream?_of_concat (o := o) { o with
      host := o.host.withTree (o.host.tree.insert (stemmed folder scratchStem n) (.file (.text "")))
      streams := o.streams ++ [some ⟨target, stemmed folder scratchStem n, ""⟩] } rfl i
    have hnew : o.stream? o.streams.length = none := by simp [stream?]
    refine ⟨hsound, ht.apart.of_new hstream (stemmed_ne_root _ _ _) hvacant rfl, closed_concat ht.closed (by simp),
      issued_concat ht.issued (fun _ => by simp) (by simp), fun id t text => ?_,
      folders_concat ht.folders (by simp), ht.kept⟩
    rw [held_concat, hstream]
    by_cases hid : id = o.streams.length
    · have hnone : ∀ old, ¬ Held log id t old := by
        intro old hold
        obtain ⟨s, hs, -⟩ := (ht.held id t old).mp hold
        rw [hid, hnew] at hs
        cases hs
      simp [hid, hid ▸ hnone, eq_comm]
    · have hid' : o.streams.length ≠ id := fun hh => hid hh.symm
      simp [hid, hid', Event.textTo, ht.held]

theorem Tracked.write (ht : Tracked h keep log o) (id : StreamId) (more : String) :
    Tracked h keep (log ++ [⟨.write id more, (perform (.write id more) o).1⟩])
      (perform (.write id more) o).2 := by
  have hsound := (within_write id more o ht.sound).1
  rcases write_cases id more o with ⟨-, hun⟩ | ⟨s, hs, ⟨e, he⟩ | hok⟩
  · rw [show perform (.write id more) o = _ from replying_of_error hun]
    exact ht.fail (by simp) (by simp) (.refl _ _)
  · rw [show perform (.write id more) o = _ from replying_of_error he]
    exact ht.fail (by simp) (by simp) (.ticked _ _)
  · rw [hok] at hsound
    rw [show perform (.write id more) o = _ from replying_of_ok hok]
    have hstream := fun i => stream?_of_set (o := o) { o with
      host := o.host.ticked
      streams := o.streams.set id (some { s with text := s.text ++ more }) } rfl (lt_of_stream? hs) i
    refine ⟨hsound, ht.apart.of_old (fun i s' hs' => ?_) (fun _ _ c _ hc => ⟨c, hc⟩),
      closed_concat ht.closed (by simp), issued_concat ht.issued (fun _ => by simp) (by simp),
      fun i t text => ?_, folders_concat ht.folders (by simp), ht.kept⟩
    · rw [hstream] at hs'
      split_ifs at hs' with hi
      · cases hs'
        exact ⟨s, hi ▸ hs, rfl⟩
      · exact ⟨s', hs', rfl⟩
    · rw [held_concat, hstream]
      by_cases hi : i = id
      · subst hi
        simp [Event.textTo, ht.held, hs, eq_comm]
      · have hi' : id ≠ i := fun hh => hi hh.symm
        simp [hi, hi', Event.textTo, ht.held]

/-- A stream is gone after its commit, whatever came of it. -/
theorem Tracked.spent (ht : Tracked h keep log o) {id : StreamId} {s : OutStream} (hs : o.stream? id = some s)
    {reply : Reply} {host : Host} (hsound : Sound h { o with host, streams := o.streams.set id none })
    (hfile : ∀ p c, p ≠ s.scratch → o.host.tree.get? p = some (.file c) →
      ∃ c', host.tree.get? p = some (.file c')) :
    Tracked h keep (log ++ [⟨.commit id, reply⟩]) { o with host, streams := o.streams.set id none } := by
  have hstream := fun i => stream?_of_set (o := o)
    { o with host, streams := o.streams.set id none } rfl (lt_of_stream? hs) i
  have hold : ∀ i s', Outputs.stream? { o with host, streams := o.streams.set id none } i = some s' →
      i ≠ id ∧ o.stream? i = some s' := by
    intro i s' hs'
    rw [hstream] at hs'
    split_ifs at hs' with hi
    exact ⟨hi, hs'⟩
  refine ⟨hsound, ht.apart.of_old (fun i s' hs' => ⟨s', (hold i s' hs').2, rfl⟩) (fun i s' c hs' hc => ?_),
    closed_concat ht.closed (by simp), issued_concat ht.issued (fun _ => by simp) (by simp),
    fun i t text => ?_, folders_concat ht.folders (by simp), ht.kept⟩
  · obtain ⟨hi, hs'⟩ := hold i s' hs'
    exact hfile _ c (fun heq => hi (ht.apart.apart i id s' s hs' hs heq)) hc
  · rw [held_concat_of_idle (by simp) rfl, ht.held, hstream]
    by_cases hi : i = id
    · simp [hi]
    · have hi' : id ≠ i := fun hh => hi hh.symm
      simp [hi, hi']

theorem Tracked.commit (ht : Tracked h keep log o) (id : StreamId) :
    Tracked h keep (log ++ [⟨.commit id, (perform (.commit id) o).1⟩]) (perform (.commit id) o).2 := by
  have hsound := (commit_effect ht.sound id).1
  rcases commit_cases id o with ⟨hnone, hun⟩ | ⟨s, host, hs, ⟨e, -, -, htouch, herr⟩ | ⟨p, -, hfolder, rfl, hok⟩⟩
  · rw [show perform (.commit id) o = _ from replying_of_error hun]
    refine ht.fail (by simp) (fun i hi => ?_) (.refl _ _)
    cases hi
    exact hnone
  · rw [herr] at hsound
    rw [show perform (.commit id) o = _ from replying_of_error herr]
    exact ht.spent hs hsound fun p c hp hc => ⟨c, (htouch.tree p hp).trans hc⟩
  · have hroot : p ≠ [] := by
      rintro rfl
      exact hfolder rfl
    rw [hok] at hsound
    rw [show perform (.commit id) o = _ from replying_of_ok hok]
    refine ht.spent hs hsound fun q c hq hc => ?_
    -- a file may stand where the stream is moved to, but it stays a file
    show ∃ c', (s.moved p o.host.tree).get? q = _
    rw [s.get?_moved hroot hq]
    by_cases hqp : q = p
    · exact ⟨_, by rw [hqp, get?_insert_self hroot]⟩
    · exact ⟨c, by rw [get?_insert_of_ne hqp, hc]⟩

theorem Tracked.tempFolder (ht : Tracked h keep log o) :
    Tracked h keep (log ++ [⟨.tempFolder, (perform .tempFolder o).1⟩]) (perform .tempFolder o).2 := by
  have hsound := (within_tempFolder o ht.sound).1
  rcases tempFolder_cases o with ⟨e, he⟩ | ⟨n, hvacant, hok⟩
  · rw [show perform .tempFolder o = _ from replying_of_error he]
    exact ht.fail (by simp) (by simp) (.ticked _ _)
  · rw [hok] at hsound
    rw [show perform .tempFolder o = _ from replying_of_ok hok]
    refine ⟨hsound, ht.apart.of_old (fun _ s hs => ⟨s, hs, rfl⟩) (fun _ s c hs hc => ⟨c, ?_⟩),
      closed_concat ht.closed (by simp), issued_concat ht.issued (fun _ => by simp) (by simp),
      fun i t text => ?_, fun p hp hc => ?_, ht.kept⟩
    · refine (get?_insert_of_ne fun heq => ?_).trans hc
      cases hvacant.symm.trans (heq ▸ hc)
    · rw [held_concat_of_idle (by simp) rfl]
      exact Iff.trans ⟨fun hh => hh.2.2, fun hh => ⟨by simp, by simp, hh⟩⟩ (ht.held i t text)
    · rw [closes_append, not_or] at hc
      rcases List.mem_append.mp hp with hp | hp
      · exact List.mem_append_left _ (ht.folders p hp hc.1)
      · simp_all

theorem Tracked.close (ht : Tracked h keep log o) :
    Tracked h keep (log ++ [⟨.close, (perform .close o).1⟩]) (perform .close o).2 := by
  have hsound := (within_close o ht.sound).1
  cases hc : o.closed with
  | true =>
    have hlog : Closes log := ht.closed.mp hc
    rw [show perform .close o = _ from replying_of_ok (close_of_closed hc)]
    refine ⟨ht.sound, ht.apart, ?_, issued_concat ht.issued (fun _ => Nat.le_refl _) (by simp), fun i t text => ?_,
      fun p _ hno => absurd (closes_append.mpr (.inl hlog)) hno, ht.kept⟩
    · simp [hc, closes_append, hlog]
    · rw [held_concat_of_idle (by simp) rfl, ht.held]
      simp [hlog]
  | false =>
    have hlog : ¬ Closes log := fun hlog => by simp [ht.closed.mpr hlog] at hc
    obtain ⟨host, hrun, -⟩ := close_first ht.sound hc
    rw [hrun] at hsound
    rw [show (perform .close o).2 = _ from (replying_snd _ _ o).trans hrun]
    refine ⟨hsound, ⟨by simp [stream?], by simp [stream?]⟩, ?_, issued_concat ht.issued (fun hno => ?_) (by simp),
      fun i t text => ?_, fun p _ hno => absurd (closes_append.mpr (.inr (closes_singleton.mpr rfl))) hno,
      ht.kept⟩
    · simp [closes_append]
    · exact absurd (hno rfl) hlog
    · rw [held_concat_of_idle (by simp) rfl]
      simp [hlog, stream?]

/-- Every call keeps outputs and log together. -/
theorem Tracked.next (ht : Tracked h keep log o) (c : Call) :
    Tracked h keep (log ++ [⟨c, (perform c o).1⟩]) (perform c o).2 := by
  cases c with
  | openStream target => exact ht.openStream target
  | write id text => exact ht.write id text
  | commit id => exact ht.commit id
  | tempFolder => exact ht.tempFolder
  | close => exact ht.close

theorem tracked_after (h : Host) (keep : Bool) (calls : List Call) :
    Tracked h keep ((Run.start h keep).after calls).log ((Run.start h keep).after calls).outputs := by
  induction calls using List.reverseRecOn with
  | nil => exact .start h keep
  | append_singleton calls c ih =>
    rw [Run.after_concat]
    exact ih.next c

end Steps

end StencilTiling.Outputs
