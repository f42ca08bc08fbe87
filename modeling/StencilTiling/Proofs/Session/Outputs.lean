import StencilTiling.Proofs.Host.Footprint
import StencilTiling.Session.Outputs

/-! What operations on the outputs of a compilation do. Each of them fails with nothing but
the clock changed, or has one effect that is stated here. As long as nothing is committed,
only places that the run took for itself are touched. -/

namespace StencilTiling

/-- The error of a closing. -/
def SessionError.IsCleanup : SessionError → Prop
  | .cleanup .. => True
  | _ => False

/-- The files with a stream's text in its scratch file. -/
def OutStream.flushed (s : OutStream) (t : Tree) : Tree := t.insert s.scratch (.file (.text s.text))

/-- The files after a stream was moved to a place. -/
def OutStream.moved (s : OutStream) (p : Place) (t : Tree) : Tree :=
  ((s.flushed t).erase s.scratch).insert p (.file (.text s.text))

/-- Moving a stream shows at its target and at its scratch file only. -/
theorem OutStream.get?_moved (s : OutStream) {p q : Place} {t : Tree} (hp : p ≠ []) (hq : q ≠ s.scratch) :
    (s.moved p t).get? q = (t.insert p (.file (.text s.text))).get? q := by
  unfold moved flushed
  by_cases hqp : q = p
  · rw [hqp, Tree.get?_insert_self hp, Tree.get?_insert_self hp]
  · rw [Tree.get?_insert_of_ne hqp, Tree.get?_insert_of_ne hqp, Tree.get?_erase_of_ne hq,
      Tree.get?_insert_of_ne hq]

namespace Outputs

open Host StencilTiling.Tree

/-! ### Single operations -/

section Steps

variable {α : Type} {wrap : IoError → SessionError} {x : Outside α} {o : Outputs} {host : Host}

theorem outside_of_ok {a : α} (h : x o.host = (.ok a, host)) :
    outside wrap x o = (.ok a, { o with host }) := by
  unfold outside onHost Hosted.ofOutside
  rw [h]

theorem outside_of_error {e : IoError} (h : x o.host = (.error e, host)) :
    outside wrap x o = (.error (wrap e), { o with host }) := by
  unfold outside onHost Hosted.ofOutside
  rw [h]

theorem tempFolder_cases (o : Outputs) :
    (∃ e, tempFolder o = (.error (.tempFolder e), { o with host := o.host.ticked })) ∨
      ∃ n, o.host.tree.get? (stemmed o.host.temp tempStem n) = none ∧
        tempFolder o = (.ok (stemmed o.host.temp tempStem n), { o with
          host := o.host.withTree (o.host.tree.insert (stemmed o.host.temp tempStem n) .folder)
          tempFolders := o.tempFolders ++ [stemmed o.host.temp tempStem n] }) := by
  rcases makeTempFolder_cases o.host with ⟨e, he⟩ | ⟨n, hvacant, hok⟩
  · exact .inl ⟨e, run_bind_of_error (outside_of_error he)⟩
  · exact .inr ⟨n, hvacant, run_bind_of_ok (outside_of_ok hok)⟩

theorem openStream_cases (target : String) (o : Outputs) :
    (∃ e, openStream target o = (.error (.write target e), { o with host := o.host.ticked })) ∨
      ∃ folder n, o.host.tree.get? (stemmed folder scratchStem n) = none ∧
        openStream target o = (.ok o.streams.length, { o with
          host := o.host.withTree (o.host.tree.insert (stemmed folder scratchStem n) (.file (.text "")))
          streams := o.streams ++ [some ⟨target, stemmed folder scratchStem n, ""⟩] }) := by
  rcases makeScratch_cases target o.host with ⟨e, he⟩ | ⟨folder, n, hvacant, hok⟩
  · exact .inl ⟨e, run_bind_of_error (outside_of_error he)⟩
  · exact .inr ⟨folder, n, hvacant, run_bind_of_ok (outside_of_ok hok)⟩

/-- The stream of a number, if it is open. -/
def stream? (o : Outputs) (id : StreamId) : Option OutStream := (o.streams[id]?).join

theorem stream?_eq_some {id : StreamId} {s : OutStream} :
    o.stream? id = some s ↔ o.streams[id]? = some (some s) := Option.join_eq_some_iff

theorem lt_of_stream? {s : OutStream} {id : StreamId} (h : o.stream? id = some s) : id < o.streams.length :=
  (List.getElem?_eq_some_iff.mp (stream?_eq_some.mp h)).1

theorem stream?_of_concat {s : OutStream} (o' : Outputs) (h : o'.streams = o.streams ++ [some s]) (i : StreamId) :
    o'.stream? i = if i = o.streams.length then some s else o.stream? i := by
  unfold stream?
  rw [h, List.getElem?_append]
  rcases Nat.lt_trichotomy i o.streams.length with hlt | heq | hgt
  · rw [if_pos hlt, if_neg (Nat.ne_of_lt hlt)]
  · simp [heq]
  · rw [if_neg (Nat.lt_asymm hgt), if_neg (Nat.ne_of_gt hgt), List.getElem?_eq_none (by simp; omega),
      List.getElem?_eq_none (Nat.le_of_lt hgt)]

theorem stream?_of_set {id : StreamId} (o' : Outputs) {next : Option OutStream} (h : o'.streams = o.streams.set id next)
    (hid : id < o.streams.length) (i : StreamId) :
    o'.stream? i = if i = id then next else o.stream? i := by
  unfold stream?
  rw [h]
  by_cases hi : i = id
  · rw [if_pos hi, hi, List.getElem?_set_self hid]
    rfl
  · rw [if_neg hi, List.getElem?_set_ne (Ne.symm hi)]

theorem stream_of_none {id : StreamId} (h : o.stream? id = none) :
    stream id o = (.error (.unknownStream id), o) := by
  have hget : (get : Op Outputs) o = (.ok o, o) := rfl
  unfold stream
  rw [run_bind_of_ok hget]
  unfold stream? at h
  rcases hs : o.streams[id]? with _ | _ | s
  · rfl
  · rfl
  · simp [hs] at h

theorem stream_of_some {id : StreamId} {s : OutStream} (h : o.stream? id = some s) :
    stream id o = (.ok s, o) := by
  have hget : (get : Op Outputs) o = (.ok o, o) := rfl
  unfold stream
  rw [run_bind_of_ok hget, stream?_eq_some.mp h]
  rfl

theorem write_cases (id : StreamId) (text : String) (o : Outputs) :
    (o.stream? id = none ∧ write id text o = (.error (.unknownStream id), o)) ∨
      ∃ s, o.stream? id = some s ∧
        ((∃ e, write id text o = (.error (.write s.target e), { o with host := o.host.ticked })) ∨
          write id text o = (.ok (), { o with
            host := o.host.ticked
            streams := o.streams.set id (some { s with text := s.text ++ text }) })) := by
  cases hs : o.stream? id with
  | none => exact .inl ⟨rfl, run_bind_of_error (stream_of_none hs)⟩
  | some s =>
    have hrun := run_bind_of_ok (f := fun s => do
      outside (.write s.target) Host.step
      setStream id (some { s with text := s.text ++ text })) (stream_of_some hs)
    refine .inr ⟨s, rfl, ?_⟩
    rcases Host.step_cases o.host with ⟨e, he⟩ | hok
    · exact .inl ⟨e, hrun.trans (run_bind_of_error (outside_of_error he))⟩
    · exact .inr (hrun.trans (run_bind_of_ok (outside_of_ok hok)))

theorem orDiscard_of_ok {s : OutStream} {x : Op Unit} {o' : Outputs} (h : x o = (.ok (), o')) :
    orDiscard s x o = (.ok (), o') := by
  unfold orDiscard
  rw [h]

theorem orDiscard_of_error {s : OutStream} {x : Op Unit} {o' : Outputs} {e : SessionError}
    (h : x o = (.error e, o')) :
    orDiscard s x o = (.error e, { o' with host := (removeFile s.scratch o'.host).2 }) := by
  unfold orDiscard
  rw [h]
  rfl

theorem touches_discarded (s : OutStream) (h : Host) :
    Touches (· = s.scratch) h (removeFile s.scratch h.ticked).2 :=
  (Touches.ticked _ h).trans (touches_removeFile (P := (· = s.scratch)) rfl h.ticked)

theorem flush_cases (s : OutStream) (o : Outputs) :
    (∃ e host, Touches (· = s.scratch) o.host host ∧
      orDiscard s (outside (.write s.target) (Host.writeFile s.scratch s.text)) o =
        (.error (.write s.target e), { o with host })) ∨
    orDiscard s (outside (.write s.target) (Host.writeFile s.scratch s.text)) o =
      (.ok (), { o with host := o.host.withTree (s.flushed o.host.tree) }) := by
  rcases writeFile_cases s.scratch s.text o.host with ⟨e, he⟩ | hok
  · exact .inl ⟨e, (removeFile s.scratch o.host.ticked).2, touches_discarded s o.host,
      orDiscard_of_error (outside_of_error he)⟩
  · exact .inr (orDiscard_of_ok (outside_of_ok hok))

theorem move_cases (s : OutStream) (o : Outputs) :
    (∃ e host, Touches (· = s.scratch) o.host host ∧
      orDiscard s (outside (.persist s.target) (Host.rename s.scratch s.target)) o =
        (.error (.persist s.target e), { o with host })) ∨
    ∃ p content, o.host.tree.locate false o.host.home s.target = .ok p ∧
      o.host.tree.get? p ≠ some .folder ∧ o.host.tree.get? s.scratch = some (.file content) ∧
      orDiscard s (outside (.persist s.target) (Host.rename s.scratch s.target)) o =
        (.ok (), { o with host := o.host.withTree ((o.host.tree.erase s.scratch).insert p (.file content)) }) := by
  rcases rename_cases s.scratch s.target o.host with ⟨e, he⟩ | ⟨p, content, hlocate, hfolder, hcontent, hok⟩
  · exact .inl ⟨e, (removeFile s.scratch o.host.ticked).2, touches_discarded s o.host,
      orDiscard_of_error (outside_of_error he)⟩
  · exact .inr ⟨p, content, hlocate, hfolder, hcontent, orDiscard_of_ok (outside_of_ok hok)⟩

/-- What is moved is the text of the stream. -/
theorem content_of_flushed {s : OutStream} {t : Tree} {content : Content}
    (h : (s.flushed t).get? s.scratch = some (.file content)) : content = .text s.text := by
  have hroot : s.scratch ≠ [] := by
    intro hnil
    rw [hnil] at h
    cases h
  rw [OutStream.flushed, get?_insert_self hroot] at h
  injection h with h
  injection h with h
  exact h.symm

/-- A stream that is committed is gone, whether or not it could be moved to its target. -/
theorem commit_cases (id : StreamId) (o : Outputs) :
    (o.stream? id = none ∧ commit id o = (.error (.unknownStream id), o)) ∨
      ∃ s host, o.stream? id = some s ∧
        ((∃ e io, (e = .write s.target io ∨ e = .persist s.target io) ∧ Touches (· = s.scratch) o.host host ∧
          commit id o = (.error e, { o with host, streams := o.streams.set id none })) ∨
        ∃ p, (s.flushed o.host.tree).locate false o.host.home s.target = .ok p ∧
          (s.flushed o.host.tree).get? p ≠ some .folder ∧
          host = (o.host.withTree (s.flushed o.host.tree)).withTree (s.moved p o.host.tree) ∧
          commit id o = (.ok s.target, { o with host, streams := o.streams.set id none })) := by
  cases hs : o.stream? id with
  | none => exact .inl ⟨rfl, run_bind_of_error (stream_of_none hs)⟩
  | some s =>
    have hset : setStream id none o = (.ok (), { o with streams := o.streams.set id none }) := rfl
    unfold commit
    rw [run_bind_of_ok (stream_of_some hs), run_bind_of_ok hset]
    rcases flush_cases s { o with streams := o.streams.set id none } with ⟨e, host, htouch, he⟩ | hflushed
    · exact .inr ⟨s, host, rfl, .inl ⟨_, e, .inl rfl, htouch, run_bind_of_error he⟩⟩
    · rw [run_bind_of_ok hflushed]
      have hscratch : Touches (· = s.scratch) o.host (o.host.withTree (s.flushed o.host.tree)) :=
        .withTree fun q hq => get?_insert_of_ne hq
      rcases move_cases s { o with
          host := o.host.withTree (s.flushed o.host.tree), streams := o.streams.set id none } with
        ⟨e, host, htouch, he⟩ | ⟨p, content, hlocate, hfolder, hcontent, hmoved⟩
      · exact .inr ⟨s, host, rfl, .inl ⟨_, e, .inr rfl, hscratch.trans htouch, run_bind_of_error he⟩⟩
      · obtain rfl := content_of_flushed hcontent
        exact .inr ⟨s, _, rfl, .inr ⟨p, hlocate, hfolder, rfl, run_bind_of_ok hmoved⟩⟩

theorem write_of_granted {id : StreamId} {s : OutStream} (hs : o.stream? id = some s)
    (hg : o.host.refusals o.host.clock = none) (text : String) : (write id text o).1 = .ok () := by
  have hstep : Host.step o.host = (.ok (), o.host.ticked) := by
    unfold Host.step
    rw [hg]
    rfl
  unfold write
  rw [run_bind_of_ok (stream_of_some hs), run_bind_of_ok (outside_of_ok hstep)]
  rfl

/-- A commit succeeds if its two steps are not refused and the target is no folder. -/
theorem commit_of_granted {id : StreamId} {s : OutStream} (hs : o.stream? id = some s)
    (hflush : o.host.refusals o.host.clock = none) (hmove : o.host.refusals (o.host.clock + 1) = none)
    (hscratch : s.scratch ≠ []) {p : Place}
    (hp : (s.flushed o.host.tree).locate false o.host.home s.target = .ok p)
    (hfolder : (s.flushed o.host.tree).get? p ≠ some .folder) : (commit id o).1 = .ok s.target := by
  have hset : setStream id none o = (.ok (), { o with streams := o.streams.set id none }) := rfl
  have hwritten : orDiscard s (outside (.write s.target) (Host.writeFile s.scratch s.text))
      { o with streams := o.streams.set id none } =
      (.ok (), { o with host := o.host.withTree (s.flushed o.host.tree), streams := o.streams.set id none }) :=
    orDiscard_of_ok (outside_of_ok (writeFile_of_granted hflush s.scratch s.text))
  have hmoved : orDiscard s (outside (.persist s.target) (Host.rename s.scratch s.target))
      { o with host := o.host.withTree (s.flushed o.host.tree), streams := o.streams.set id none } =
      (.ok (), { o with
        host := (o.host.withTree (s.flushed o.host.tree)).withTree (s.moved p o.host.tree)
        streams := o.streams.set id none }) :=
    orDiscard_of_ok (outside_of_ok (rename_of_granted hmove hp hfolder (get?_insert_self hscratch)))
  unfold commit
  rw [run_bind_of_ok (stream_of_some hs), run_bind_of_ok hset, run_bind_of_ok hwritten, run_bind_of_ok hmoved]
  rfl

end Steps

/-! ### Closing -/

section Closing

variable {P : Place → Prop}

/-- The operation changes nothing but the host, and this at some places only. -/
def OnlyHost (P : Place → Prop) (x : Op Unit) : Prop :=
  ∀ o, ∃ host, (x o).2 = { o with host } ∧ Touches P o.host host

theorem onlyHost_outside {wrap : IoError → SessionError} {x : Outside Unit}
    (hx : ∀ h, Touches P h (x h).2) : OnlyHost P (outside wrap x) := by
  intro o
  refine ⟨(x o.host).2, ?_, hx o.host⟩
  rcases hrun : x o.host with ⟨e | a, host⟩
  · rw [outside_of_error hrun]
  · rw [outside_of_ok hrun]

theorem onlyHost_allOf {xs : List (Op Unit)} (hxs : ∀ x ∈ xs, OnlyHost P x) : OnlyHost P (allOf xs) := by
  induction xs with
  | nil => exact fun o => ⟨o.host, rfl, .refl P o.host⟩
  | cons x rest ih =>
    intro o
    obtain ⟨host, hx, hfirst⟩ := hxs x List.mem_cons_self o
    obtain ⟨host', hrest, hothers⟩ := ih (fun y hy => hxs y (List.mem_cons_of_mem x hy)) (x o).2
    rw [hx] at hrest hothers
    refine ⟨host', ?_, hfirst.trans hothers⟩
    show (allOf rest (x o).2).2 = _
    rw [hx, hrest]

theorem mem_releases {o : Outputs} {keep : Bool} {x : Op Unit} (hx : x ∈ o.releases keep) :
    (∃ s, some s ∈ o.streams ∧
      x = outside (.cleanup (Tree.placeText s.scratch)) (Host.removeFile s.scratch)) ∨
    ∃ p ∈ o.tempFolders, x = outside (.cleanup (Tree.placeText p)) (Host.removeFolder p) := by
  have hfiles : ∀ x ∈ (o.streams.filterMap id).map fun s =>
      outside (.cleanup (Tree.placeText s.scratch)) (Host.removeFile s.scratch),
      ∃ s, some s ∈ o.streams ∧ x = outside (.cleanup (Tree.placeText s.scratch)) (Host.removeFile s.scratch) := by
    intro x hx
    obtain ⟨s, hs, rfl⟩ := List.mem_map.mp hx
    obtain ⟨_, hmem, rfl⟩ := List.mem_filterMap.mp hs
    exact ⟨s, hmem, rfl⟩
  unfold releases at hx
  split_ifs at hx
  · exact .inl (hfiles x hx)
  · rcases List.mem_append.mp hx with hx | hx
    · exact .inl (hfiles x hx)
    · obtain ⟨p, hp, rfl⟩ := List.mem_map.mp hx
      exact .inr ⟨p, hp, rfl⟩

theorem onlyHost_releases {o : Outputs} (hstreams : ∀ s, some s ∈ o.streams → P s.scratch)
    (hfolders : ∀ p ∈ o.tempFolders, ∀ q, p <+: q → P q) (keep : Bool) :
    ∀ x ∈ o.releases keep, OnlyHost P x := by
  intro x hx
  rcases mem_releases hx with ⟨s, hs, rfl⟩ | ⟨p, hp, rfl⟩
  · exact onlyHost_outside (touches_removeFile (hstreams s hs))
  · exact onlyHost_outside (touches_removeFolder (hfolders p hp))

/-- Nothing is open after a release, and only what was open is touched. -/
theorem release_eq {o : Outputs} (hstreams : ∀ s, some s ∈ o.streams → P s.scratch)
    (hfolders : ∀ p ∈ o.tempFolders, ∀ q, p <+: q → P q) (keep : Bool) :
    ∃ host, (release keep o).2 = { o with host, streams := [], tempFolders := [] } ∧
      Touches P o.host host :=
  onlyHost_allOf (onlyHost_releases hstreams hfolders keep) { o with streams := [], tempFolders := [] }

/-- What every step of a list keeps, the list keeps. -/
theorem allOf_keeps {Q : Host → Prop} {xs : List (Op Unit)} (hkeep : ∀ x ∈ xs, ∀ o, Q o.host → Q (x o).2.host)
    {o : Outputs} (ho : Q o.host) : Q (allOf xs o).2.host := by
  induction xs generalizing o with
  | nil => exact ho
  | cons x rest ih =>
    exact ih (fun y hy => hkeep y (List.mem_cons_of_mem x hy)) (hkeep x List.mem_cons_self o ho)

/-- What one step of a list brings about and all of them keep holds if none failed. -/
theorem allOf_brings {Q : Host → Prop} {xs : List (Op Unit)} {x : Op Unit} (hx : x ∈ xs)
    (hdone : ∀ o, (x o).1 = .ok () → Q (x o).2.host)
    (hkeep : ∀ y ∈ xs, ∀ o, Q o.host → Q (y o).2.host) {o : Outputs} (hok : (allOf xs o).1 = .ok ()) :
    Q (allOf xs o).2.host := by
  induction xs generalizing o with
  | nil => cases hx
  | cons y rest ih =>
    have hrest : ∀ z ∈ rest, ∀ o, Q o.host → Q (z o).2.host := fun z hz => hkeep z (List.mem_cons_of_mem y hz)
    obtain ⟨hfirst, hothers⟩ : (y o).1 = .ok () ∧ (allOf rest (y o).2).1 = .ok () := by
      unfold allOf at hok
      rcases hy : y o with ⟨e | u, o'⟩
      · rw [hy] at hok
        cases hok
      · rw [hy] at hok
        exact ⟨rfl, hok⟩
    rcases List.mem_cons.mp hx with rfl | hx
    · exact allOf_keeps hrest (hdone o hfirst)
    · exact ih hx hrest hothers

theorem outside_fst_ok {wrap : IoError → SessionError} {x : Outside Unit} {o : Outputs}
    (h : (outside wrap x o).1 = .ok ()) : x o.host = (.ok (), (outside wrap x o).2.host) := by
  rcases hrun : x o.host with ⟨e | u, host⟩
  · rw [outside_of_error hrun] at h
    cases h
  · rw [outside_of_ok hrun]

theorem outside_host (wrap : IoError → SessionError) (x : Outside Unit) (o : Outputs) :
    (outside wrap x o).2.host = (x o.host).2 := by
  rcases hrun : x o.host with ⟨e | u, host⟩
  · rw [outside_of_error hrun]
  · rw [outside_of_ok hrun]

/-- Releasing makes nothing. -/
theorem releases_keep_vacant {o : Outputs} {keep : Bool} {p : Place} :
    ∀ x ∈ o.releases keep, ∀ o', o'.host.tree.get? p = none → (x o').2.host.tree.get? p = none := by
  intro x hx o' ho'
  rcases mem_releases hx with ⟨s, -, rfl⟩ | ⟨q, -, rfl⟩
  · rw [outside_host]
    exact vacant_removeFile ho'
  · rw [outside_host]
    exact vacant_removeFolder ho'

/-- A release without failure leaves no scratch file. -/
theorem release_removes_scratch {o : Outputs} {keep : Bool} (hok : (release keep o).1 = .ok ()) {s : OutStream}
    (hs : some s ∈ o.streams) : (release keep o).2.host.tree.get? s.scratch = none := by
  have hmem : outside (.cleanup (Tree.placeText s.scratch)) (Host.removeFile s.scratch) ∈ o.releases keep := by
    have hopen : s ∈ o.streams.filterMap id := List.mem_filterMap.mpr ⟨some s, hs, rfl⟩
    have hfile := List.mem_map_of_mem (f := fun s : OutStream =>
      outside (.cleanup (Tree.placeText s.scratch)) (Host.removeFile s.scratch)) hopen
    unfold releases
    split_ifs
    · exact hfile
    · exact List.mem_append_left _ hfile
  exact allOf_brings (Q := fun h => h.tree.get? s.scratch = none) hmem
    (fun o' ho' => get?_removeFile (outside_fst_ok ho')) releases_keep_vacant hok

/-- A release without failure leaves no temporary folder, unless they are kept. -/
theorem release_removes_folder {o : Outputs} (hok : (release false o).1 = .ok ()) {p : Place}
    (hp : p ∈ o.tempFolders) (hroot : p ≠ []) : (release false o).2.host.tree.get? p = none := by
  have hmem : outside (.cleanup (Tree.placeText p)) (Host.removeFolder p) ∈ o.releases false :=
    List.mem_append_right _ (List.mem_map_of_mem hp)
  exact allOf_brings (Q := fun h => h.tree.get? p = none) hmem
    (fun o' ho' => get?_removeFolder hroot (outside_fst_ok ho')) releases_keep_vacant hok

theorem allOf_failsOnly {Q : SessionError → Prop} {xs : List (Op Unit)}
    (hxs : ∀ x ∈ xs, ∀ o, FailsOnly Q (x o).1) (o : Outputs) : FailsOnly Q (allOf xs o).1 := by
  induction xs generalizing o with
  | nil => exact failsOnly_ok ()
  | cons x rest ih =>
    have hfirst := hxs x List.mem_cons_self o
    have hothers := ih (fun y hy => hxs y (List.mem_cons_of_mem x hy)) (x o).2
    unfold allOf
    rcases hx : x o with ⟨e | u, o'⟩
    · rw [hx] at hfirst
      exact hfirst
    · rw [hx] at hothers
      exact hothers

theorem outside_failsOnly {Q : SessionError → Prop} {wrap : IoError → SessionError} (hQ : ∀ e, Q (wrap e))
    (x : Outside Unit) (o : Outputs) : FailsOnly Q (outside wrap x o).1 := by
  rcases hrun : x o.host with ⟨e | u, host⟩
  · rw [outside_of_error hrun]
    rintro _ ⟨⟩
    exact hQ e
  · rw [outside_of_ok hrun]
    exact failsOnly_ok u

theorem close_of_closed {o : Outputs} (h : o.closed = true) : close o = (.ok (), o) := by
  have hget : (get : Op Outputs) o = (.ok o, o) := rfl
  unfold close
  rw [run_bind_of_ok hget, if_pos h]
  rfl

theorem close_of_open {o : Outputs} (h : o.closed = false) :
    close o = release o.keep { o with closed := true } := by
  have hget : (get : Op Outputs) o = (.ok o, o) := rfl
  unfold close
  rw [run_bind_of_ok hget, if_neg (by simp [h])]
  rfl

/-- Closing fails with errors of its own. -/
theorem close_failsOnly (o : Outputs) : FailsOnly SessionError.IsCleanup (close o).1 := by
  cases hc : o.closed with
  | true =>
    rw [close_of_closed hc]
    exact failsOnly_ok ()
  | false =>
    rw [close_of_open hc]
    refine allOf_failsOnly (fun x hx o' => ?_) _
    rcases mem_releases hx with ⟨s, -, rfl⟩ | ⟨p, -, rfl⟩
    · exact outside_failsOnly (fun _ => trivial) _ o'
    · exact outside_failsOnly (fun _ => trivial) _ o'

end Closing

/-! ### Footprints -/

/-- What the outputs hold is what the run took for itself. -/
structure Sound (h : Host) (o : Outputs) : Prop where
  onward : h.Onward o.host
  folders : ∀ p ∈ o.tempFolders, ∀ q, p <+: q → h.Makes q
  scratches : ∀ s, some s ∈ o.streams → h.Makes s.scratch

/-- The operation touches what the run took for itself only, however it ends. -/
def Within {α : Type} (h : Host) (x : Op α) : Prop :=
  ∀ o, Sound h o → Sound h (x o).2 ∧ Touches h.Makes o.host (x o).2.host

section Footprints

variable {h : Host} {o : Outputs}

theorem Sound.start (h : Host) (keep : Bool) : Sound h { host := h, keep } :=
  ⟨.refl h, by simp, by simp⟩

/-- The host moves on, and what is held stays. -/
theorem Sound.touches (hs : Sound h o) {host : Host} (ht : Touches h.Makes o.host host) :
    Sound h { o with host } :=
  ⟨hs.onward.touches ht, hs.folders, hs.scratches⟩

theorem Sound.set (hs : Sound h o) {id : StreamId} {next : Option OutStream}
    (hnext : ∀ s, next = some s → h.Makes s.scratch) : Sound h { o with streams := o.streams.set id next } := by
  refine ⟨hs.onward, hs.folders, fun s hmem => ?_⟩
  rcases List.mem_or_eq_of_mem_set hmem with hold | hnew
  · exact hs.scratches s hold
  · exact hnext s hnew.symm

theorem Sound.makes_of_stream? (hs : Sound h o) {id : StreamId} {s : OutStream}
    (h' : o.stream? id = some s) : h.Makes s.scratch :=
  hs.scratches s (List.mem_of_getElem? (stream?_eq_some.mp h'))

theorem Within.bind {α β : Type} {x : Op α} {f : α → Op β} (hx : Within h x) (hf : ∀ a, Within h (f a)) :
    Within h (x >>= f) := by
  intro o hs
  obtain ⟨hs', ht⟩ := hx o hs
  rcases hrun : x o with ⟨e | a, o'⟩
  · rw [run_bind_of_error hrun]
    rw [hrun] at hs' ht
    exact ⟨hs', ht⟩
  · rw [run_bind_of_ok hrun]
    rw [hrun] at hs' ht
    obtain ⟨hs'', ht'⟩ := hf a o' hs'
    exact ⟨hs'', ht.trans ht'⟩

theorem within_pure {α : Type} (a : α) : Within h (pure a : Op α) :=
  fun o hs => ⟨hs, .refl _ o.host⟩

theorem within_forM {α : Type} {l : List α} {f : α → Op Unit} (hf : ∀ a ∈ l, Within h (f a)) :
    Within h (l.forM f) := by
  induction l with
  | nil => exact within_pure ()
  | cons a rest ih =>
    show Within h (f a >>= fun _ => rest.forM f)
    exact (hf a List.mem_cons_self).bind fun _ => ih fun b hb => hf b (List.mem_cons_of_mem a hb)

theorem within_tempFolder : Within h tempFolder := by
  intro o hs
  rcases tempFolder_cases o with ⟨e, he⟩ | ⟨n, hvacant, hok⟩
  · rw [he]
    exact ⟨hs.touches (.ticked _ _), .ticked _ _⟩
  · have hmakes := fun q => hs.onward.makes_below hvacant (p := q)
    have ht : Touches h.Makes o.host
        (o.host.withTree (o.host.tree.insert (stemmed o.host.temp tempStem n) .folder)) :=
      .withTree fun q hq => get?_insert_of_ne (ne_of_not (hmakes _ (List.prefix_refl _)) hq)
    rw [hok]
    refine ⟨⟨(hs.touches ht).onward, fun p hp => ?_, hs.scratches⟩, ht⟩
    rcases List.mem_append.mp hp with hold | hnew
    · exact hs.folders p hold
    · rw [List.mem_singleton.mp hnew]
      exact hmakes

theorem within_openStream (target : String) : Within h (openStream target) := by
  intro o hs
  rcases openStream_cases target o with ⟨e, he⟩ | ⟨folder, n, hvacant, hok⟩
  · rw [he]
    exact ⟨hs.touches (.ticked _ _), .ticked _ _⟩
  · have hmakes := hs.onward.makes_scratch hvacant
    have ht : Touches h.Makes o.host
        (o.host.withTree (o.host.tree.insert (stemmed folder scratchStem n) (.file (.text "")))) :=
      .withTree fun q hq => get?_insert_of_ne (ne_of_not hmakes hq)
    rw [hok]
    refine ⟨⟨(hs.touches ht).onward, hs.folders, fun s hmem => ?_⟩, ht⟩
    rcases List.mem_append.mp hmem with hold | hnew
    · exact hs.scratches s hold
    · obtain rfl := Option.some.inj (List.mem_singleton.mp hnew)
      exact hmakes

theorem within_write (id : StreamId) (text : String) : Within h (write id text) := by
  intro o hs
  rcases write_cases id text o with ⟨-, hun⟩ | ⟨s, hstream, ⟨e, he⟩ | hok⟩
  · rw [hun]
    exact ⟨hs, .refl _ _⟩
  · rw [he]
    exact ⟨hs.touches (.ticked _ _), .ticked _ _⟩
  · rw [hok]
    have hscratch := hs.makes_of_stream? hstream
    refine ⟨(hs.touches (.ticked _ _)).set ?_, .ticked _ _⟩
    rintro _ ⟨⟩
    exact hscratch

theorem within_release (keep : Bool) : Within h (release keep) := by
  intro o hs
  obtain ⟨host, hrun, ht⟩ := release_eq hs.scratches hs.folders keep
  rw [hrun]
  exact ⟨⟨hs.onward.touches ht, by simp, by simp⟩, ht⟩

theorem within_close : Within h close := by
  intro o hs
  cases hc : o.closed with
  | true =>
    rw [close_of_closed hc]
    exact ⟨hs, .refl _ _⟩
  | false =>
    rw [close_of_open hc]
    exact within_release o.keep { o with closed := true } ⟨hs.onward, hs.folders, hs.scratches⟩

/-- A commit that fails leaves all targets alone; one that succeeds changes its own. -/
theorem commit_effect (hs : Sound h o) (id : StreamId) :
    Sound h (commit id o).2 ∧
      ((∃ e, (commit id o).1 = .error e ∧ ¬ e.IsCleanup ∧
        Touches h.Makes o.host (commit id o).2.host) ∨
      ∃ s p, o.stream? id = some s ∧ (commit id o).1 = .ok s.target ∧
        (s.flushed o.host.tree).locate false o.host.home s.target = .ok p ∧
        p ≠ [] ∧ Touches h.Makes (o.host.put p (.file (.text s.text))) (commit id o).2.host) := by
  rcases commit_cases id o with ⟨-, hun⟩ | ⟨s, host, hstream, ⟨e, io, he, ht, herr⟩ | ⟨p, hp, hfolder, rfl, hok⟩⟩
  · rw [hun]
    exact ⟨hs, .inl ⟨_, rfl, not_false, .refl _ _⟩⟩
  · have hscratch := hs.makes_of_stream? hstream
    have ht' : Touches h.Makes o.host host := ht.mono fun q hq => hq ▸ hscratch
    rw [herr]
    refine ⟨(hs.touches ht').set (by simp), .inl ⟨e, rfl, ?_, ht'⟩⟩
    rcases he with rfl | rfl
    · exact not_false
    · exact not_false
  · have hscratch := hs.makes_of_stream? hstream
    have hroot : p ≠ [] := by
      rintro rfl
      exact hfolder rfl
    have ht : Touches h.Makes (o.host.put p (.file (.text s.text)))
        ((o.host.withTree (s.flushed o.host.tree)).withTree (s.moved p o.host.tree)) :=
      ⟨rfl, rfl, rfl, fun q hq => s.get?_moved hroot (ne_of_not hscratch hq)⟩
    rw [hok]
    have hmoved : Sound h { o with host := (o.host.withTree (s.flushed o.host.tree)).withTree (s.moved p o.host.tree) } :=
      ⟨(hs.onward.put p _).touches ht, hs.folders, hs.scratches⟩
    exact ⟨hmoved.set (by simp), .inr ⟨s, p, hstream, rfl, hp, hroot, ht⟩⟩

end Footprints

end Outputs

end StencilTiling
