import StencilTiling.Proofs.Session.Outputs
import StencilTiling.Session.Compile

/-! Staged sources and the programs that check them. Sources are written into one folder, and
each program is handed the path of one of them. If such programs keep to the folder of the
source they are handed, so does the whole step. -/

namespace StencilTiling

open Host StencilTiling.Tree

/-! ### Running programs -/

namespace Hosted

variable {α : Type} {wrap : IoError → SessionError} {x : Outside α} {h host : Host}

theorem ofOutside_of_ok {a : α} (hx : x h = (.ok a, host)) : ofOutside wrap x h = (.ok a, host) := by
  unfold ofOutside
  rw [hx]

theorem ofOutside_of_error {e : IoError} (hx : x h = (.error e, host)) :
    ofOutside wrap x h = (.error (wrap e), host) := by
  unfold ofOutside
  rw [hx]

end Hosted

section Programs

variable {P : Place → Prop} {h : Host}

theorem start_cases (cmd : Command) (h : Host) :
    (∃ e, start cmd h = (.error (.start cmd.program e), h.ticked)) ∨ start cmd h = (.ok cmd, h.ticked) := by
  rcases observe_cases (fun h => (h.launcher cmd h.tree h.home).map fun _ => cmd) h with
    ⟨e, he⟩ | ⟨c, hc, hok⟩
  · exact .inl ⟨e, Hosted.ofOutside_of_error he⟩
  · obtain ⟨done, -, rfl⟩ := map_eq_ok.mp hc
    exact .inr (Hosted.ofOutside_of_ok hok)

/-- Runs of the command touch some places only. -/
def Runs (P : Place → Prop) (launch : Launcher) (cmd : Command) : Prop :=
  ∀ t home done, launch cmd t home = .ok done → ∀ p, ¬ P p → done.tree.get? p = t.get? p

theorem finish_cases (cmd : Command) (h : Host) :
    (∃ e, finish cmd h = (.error e, h.ticked)) ∨
      ∃ done, h.launcher cmd h.tree h.home = .ok done ∧ finish cmd h = (.ok done, h.withTree done.tree) :=
  observe_bind_cases _ _ h

theorem touches_wait {cmd : Command} (hc : Runs P h.launcher cmd) : Touches P h (wait cmd h).2 := by
  unfold wait
  rcases finish_cases cmd h with ⟨e, he⟩ | ⟨done, hdone, hok⟩
  · rw [run_bind_of_error (Hosted.ofOutside_of_error he)]
    exact .ticked P h
  · rw [run_bind_of_ok (Hosted.ofOutside_of_ok hok)]
    have htouch : Touches P h (h.withTree done.tree) := .withTree (hc _ _ _ hdone)
    split_ifs
    · exact htouch
    · exact htouch

theorem wait_failsOnly (cmd : Command) (h : Host) : FailsOnly (fun e => ¬ e.IsCleanup) (wait cmd h).1 := by
  unfold wait
  rcases finish_cases cmd h with ⟨e, he⟩ | ⟨done, -, hok⟩
  · rw [run_bind_of_error (Hosted.ofOutside_of_error he)]
    rintro _ ⟨⟩
    exact id
  · rw [run_bind_of_ok (Hosted.ofOutside_of_ok hok)]
    split_ifs
    · exact failsOnly_ok done
    · rintro _ ⟨⟩
      exact id

theorem waitAll_failsOnly (cmds : List Command) (h : Host) :
    FailsOnly (fun e => ¬ e.IsCleanup) (waitAll cmds h).1 := by
  induction cmds generalizing h with
  | nil => exact failsOnly_ok ()
  | cons cmd rest ih =>
    have hfirst := wait_failsOnly cmd h
    unfold waitAll
    rcases hrun : wait cmd h with ⟨e | done, host⟩
    · rw [hrun] at hfirst
      rintro _ ⟨⟩
      exact hfirst e rfl
    · exact ih host

theorem touches_waitAll {cmds : List Command} (hc : ∀ cmd ∈ cmds, Runs P h.launcher cmd) :
    Touches P h (waitAll cmds h).2 := by
  induction cmds generalizing h with
  | nil => exact .refl P h
  | cons cmd rest ih =>
    have hfirst := touches_wait (hc cmd List.mem_cons_self)
    refine hfirst.trans (ih fun c hmem => ?_)
    rw [hfirst.launcher]
    exact hc c (List.mem_cons_of_mem cmd hmem)

end Programs

/-- The validator changes nothing outside the temporary folder of the source it is handed. -/
def Launcher.Confined (launch : Launcher) (validator : List String) (temp : Place) : Prop :=
  ∀ program args, validator = program :: args → ∀ n name,
    Runs (stemmed temp tempStem n <+: ·) launch
      ⟨program, args ++ [placeText (stemmed temp tempStem n ++ [name])]⟩

namespace Compiling

/-! ### Staging -/

/-- Where the source of a program is staged. -/
def stagedPlace (folder : Place) (p : Code.Program) : Place := folder ++ [sourceName p]

/-- The commands that check the source of a program. -/
def checksOf (folder : Place) (validator : List String) (p : Code.Program) : List Command :=
  match validator with
  | [] => []
  | program :: args => [⟨program, args ++ [placeText (stagedPlace folder p)]⟩]

section Staging

variable (folder : Place) (validator : List String)

/-- Writes a source into the folder, if it has a name that can be used. -/
def writeSource (p : Code.Program) : Outside Unit := do
  let place ← ExceptT.mk (pure (nameIn folder (sourceName p)))
  writeFile place (sourceText p)

theorem writeSource_cases (p : Code.Program) (h : Host) :
    (∃ e host, Touches (folder <+: ·) h host ∧ writeSource folder p h = (.error e, host)) ∨
      writeSource folder p h =
        (.ok (), h.withTree (h.tree.insert (stagedPlace folder p) (.file (.text (sourceText p))))) := by
  unfold writeSource
  by_cases hlong : maxNameBytes < (sourceName p).utf8ByteSize
  · have hname : (ExceptT.mk (pure (nameIn folder (sourceName p))) : Outside Place) h = (.error .nameTooLong, h) := by
      rw [nameIn, if_pos hlong]
      rfl
    exact .inl ⟨_, h, .refl _ h, run_bind_of_error hname⟩
  · have hname : (ExceptT.mk (pure (nameIn folder (sourceName p))) : Outside Place) h =
        (.ok (stagedPlace folder p), h) := by
      rw [nameIn, if_neg hlong]
      rfl
    rw [run_bind_of_ok hname]
    rcases writeFile_cases (stagedPlace folder p) (sourceText p) h with ⟨e, he⟩ | hok
    · exact .inl ⟨e, h.ticked, .ticked _ h, he⟩
    · exact .inr hok

/-- A source is staged by writing it and starting its check. -/
theorem stageSource_cases (p : Code.Program) (h : Host) :
    (∃ e host, Touches (folder <+: ·) h host ∧ ¬ e.IsCleanup ∧
      stageSource folder validator p h = (.error e, host)) ∨
    ∃ started host, Touches (folder <+: ·) h host ∧
      host.tree = h.tree.insert (stagedPlace folder p) (.file (.text (sourceText p))) ∧
      started.toList = checksOf folder validator p ∧
      stageSource folder validator p h = (.ok started, host) := by
  have hbelow : folder <+: stagedPlace folder p := List.prefix_append _ _
  unfold stageSource
  rcases writeSource_cases folder p h with ⟨e, host, htouch, he⟩ | hok
  · exact .inl ⟨_, host, htouch, id, run_bind_of_error (Hosted.ofOutside_of_error he)⟩
  · have htouch : Touches (folder <+: ·) h
        (h.withTree (h.tree.insert (stagedPlace folder p) (.file (.text (sourceText p))))) :=
      .withTree fun q hq => get?_insert_of_ne (ne_of_not hbelow hq)
    unfold writeSource at hok
    rw [run_bind_of_ok (Hosted.ofOutside_of_ok hok)]
    cases validator with
    | nil => exact .inr ⟨none, _, htouch, rfl, rfl, rfl⟩
    | cons program args =>
      rcases start_cases ⟨program, args ++ [placeText (stagedPlace folder p)]⟩
          (h.withTree (h.tree.insert (stagedPlace folder p) (.file (.text (sourceText p))))) with ⟨e, he⟩ | hstart
      · exact .inl ⟨_, _, htouch.trans (.ticked _ _), id, run_bind_of_error he⟩
      · exact .inr ⟨some _, _, htouch.trans (.ticked _ _), rfl, rfl, run_bind_of_ok hstart⟩

/-- Staging touches the folder only, and what it starts are checks of its sources. -/
theorem stageSources_effect (programs : List Code.Program) (h : Host) :
    Touches (folder <+: ·) h (stageSources folder validator programs h).2 ∧
      (∀ cmd ∈ (stageSources folder validator programs h).1.1, ∃ p ∈ programs, cmd ∈ checksOf folder validator p) ∧
      FailsOnly (fun e => ¬ e.IsCleanup) (stageSources folder validator programs h).1.2 := by
  induction programs generalizing h with
  | nil => exact ⟨.refl _ h, by simp [stageSources], failsOnly_ok ()⟩
  | cons p rest ih =>
    rcases stageSource_cases folder validator p h with ⟨e, host, htouch, he, hrun⟩ | ⟨started, host, htouch, -, hcmd, hrun⟩
    · simp only [stageSources, hrun]
      refine ⟨htouch, by simp, ?_⟩
      rintro _ ⟨⟩
      exact he
    · obtain ⟨hrest, hcmds, hfail⟩ := ih host
      simp only [stageSources, hrun]
      refine ⟨htouch.trans hrest, fun cmd hmem => ?_, hfail⟩
      rcases List.mem_append.mp hmem with hmem | hmem
      · exact ⟨p, List.mem_cons_self, hcmd ▸ hmem⟩
      · obtain ⟨q, hq, hcheck⟩ := hcmds cmd hmem
        exact ⟨q, List.mem_cons_of_mem p hq, hcheck⟩

/-- The files after sources were written in turn. -/
def withSources (programs : List Code.Program) (t : Tree) : Tree :=
  programs.foldl (fun t p => t.insert (stagedPlace folder p) (.file (.text (sourceText p)))) t

theorem get?_withSources_of_notMem {programs : List Code.Program} {q : Place} (t : Tree)
    (hq : q ∉ programs.map (stagedPlace folder)) : (withSources folder programs t).get? q = t.get? q := by
  unfold withSources
  induction programs generalizing t with
  | nil => rfl
  | cons p rest ih =>
    rw [List.map_cons, List.mem_cons, not_or] at hq
    rw [List.foldl_cons, ih _ hq.2, get?_insert_of_ne hq.1]

/-- Sources at different places do not get in each other's way. -/
theorem get?_withSources {programs : List Code.Program} (hapart : (programs.map (stagedPlace folder)).Nodup)
    (t : Tree) {p : Code.Program} (hp : p ∈ programs) :
    (withSources folder programs t).get? (stagedPlace folder p) = some (.file (.text (sourceText p))) := by
  have hroot : stagedPlace folder p ≠ [] := by simp [stagedPlace]
  induction programs generalizing t with
  | nil => cases hp
  | cons q rest ih =>
    rw [List.map_cons, List.nodup_cons] at hapart
    rw [withSources, List.foldl_cons]
    rcases List.mem_cons.mp hp with rfl | hp
    · exact (get?_withSources_of_notMem folder _ hapart.1).trans (get?_insert_self hroot)
    · exact ih hapart.2 _ hp

/-- Without failure every source is written in turn, and every check is started. -/
theorem stageSources_eq {programs : List Code.Program} {h h' : Host} {cmds : List Command}
    (hrun : stageSources folder validator programs h = ((cmds, .ok ()), h')) :
    cmds = programs.flatMap (checksOf folder validator) ∧ h'.tree = withSources folder programs h.tree := by
  induction programs generalizing h cmds with
  | nil =>
    cases hrun
    exact ⟨rfl, rfl⟩
  | cons p rest ih =>
    rcases stageSource_cases folder validator p h with ⟨e, host, -, -, hstage⟩ | ⟨started, host, -, htree, hcmd, hstage⟩
    · rw [stageSources, hstage] at hrun
      cases hrun
    · rw [stageSources, hstage] at hrun
      dsimp only at hrun
      rcases hrest : stageSources folder validator rest host with ⟨⟨more, result⟩, host'⟩
      rw [hrest] at hrun
      cases hrun
      obtain ⟨rfl, heq⟩ := ih hrest
      refine ⟨by rw [hcmd, List.flatMap_cons], ?_⟩
      rw [heq, htree, withSources, withSources, List.foldl_cons]

end Staging

theorem runs_of_confined {launch : Launcher} {validator : List String} {temp : Place}
    (hl : launch.Confined validator temp) (n : Suffix) {p : Code.Program} {cmd : Command}
    (hcmd : cmd ∈ checksOf (stemmed temp tempStem n) validator p) :
    Runs (stemmed temp tempStem n <+: ·) launch cmd := by
  cases validator with
  | nil => cases hcmd
  | cons program args =>
    rw [List.mem_singleton.mp hcmd]
    exact hl program args rfl n (sourceName p)

/-- Validation touches what the run took for itself only. -/
theorem within_validate {h : Host} {validator : List String} (hl : h.launcher.Confined validator h.temp)
    (programs : List Code.Program) : Outputs.Within h (validate validator programs) := by
  intro o hs
  obtain ⟨hs', ht⟩ := Outputs.within_tempFolder o hs
  unfold validate
  rcases Outputs.tempFolder_cases o with ⟨e, he⟩ | ⟨n, hvacant, hok⟩
  · rw [run_bind_of_error he]
    rw [he] at hs' ht
    exact ⟨hs', ht⟩
  · rw [run_bind_of_ok hok]
    rw [hok] at hs' ht
    have hmakes : ∀ q, stemmed o.host.temp tempStem n <+: q → h.Makes q := fun q =>
      hs.onward.makes_below hvacant
    obtain ⟨hstaged, hcmds, -⟩ := stageSources_effect (stemmed o.host.temp tempStem n) validator programs
      (o.host.withTree (o.host.tree.insert (stemmed o.host.temp tempStem n) .folder))
    -- the programs started are checks of staged sources, so they keep to the folder
    have hruns : ∀ cmd ∈ (stageSources (stemmed o.host.temp tempStem n) validator programs
        (o.host.withTree (o.host.tree.insert (stemmed o.host.temp tempStem n) .folder))).1.1,
        Runs (stemmed o.host.temp tempStem n <+: ·) (stageSources (stemmed o.host.temp tempStem n) validator programs
          (o.host.withTree (o.host.tree.insert (stemmed o.host.temp tempStem n) .folder))).2.launcher cmd := by
      intro cmd hmem
      obtain ⟨p, -, hcheck⟩ := hcmds cmd hmem
      rw [hstaged.launcher]
      show Runs _ o.host.launcher cmd
      rw [hs.onward.launcher, hs.onward.temp]
      exact runs_of_confined hl n (hs.onward.temp ▸ hcheck)
    have hall := (hstaged.trans (touches_waitAll hruns)).mono hmakes
    exact ⟨hs'.touches hall, ht.trans hall⟩

theorem validate_failsOnly (validator : List String) (programs : List Code.Program) (o : Outputs) :
    FailsOnly (fun e => ¬ e.IsCleanup) (validate validator programs o).1 := by
  unfold validate
  rcases Outputs.tempFolder_cases o with ⟨e, he⟩ | ⟨n, -, hok⟩
  · rw [run_bind_of_error he]
    rintro _ ⟨⟩
    exact id
  · rw [run_bind_of_ok hok]
    obtain ⟨-, -, hstaged⟩ := stageSources_effect (stemmed o.host.temp tempStem n) validator programs
      (o.host.withTree (o.host.tree.insert (stemmed o.host.temp tempStem n) .folder))
    have hwaited := fun cmds host => waitAll_failsOnly cmds host
    unfold Outputs.onHost
    dsimp only
    generalize stageSources (stemmed o.host.temp tempStem n) validator programs
      (o.host.withTree (o.host.tree.insert (stemmed o.host.temp tempStem n) .folder)) = r at hstaged ⊢
    obtain ⟨⟨cmds, staged⟩, host⟩ := r
    cases staged with
    | ok u => exact hwaited cmds host
    | error e =>
      rintro _ ⟨⟩
      exact hstaged e rfl

end Compiling

end StencilTiling
