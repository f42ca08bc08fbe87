import StencilTiling.Proofs.Analysis.History
import StencilTiling.Proofs.Session.AllOrNothing
import StencilTiling.Proofs.Text

/-! Where generated files go. The output of an input is named for its stem: the last name of
its path without the endings of inputs. Two inputs share an output exactly if they share a
stem; otherwise their outputs stand at different places, and none is lost whatever else is
compiled. Sources are staged under the spelled name of their kernel, so kernels whose names
are spelled alike share one. -/

namespace StencilTiling

namespace Path

/-- A text without slashes. -/
def IsName (name : String) : Prop := ∀ c ∈ name.toList, (c == '/') = false

theorem IsName.append {a b : String} (ha : IsName a) (hb : IsName b) : IsName (a ++ b) := by
  intro c hc
  rw [String.toList_append] at hc
  rcases List.mem_append.mp hc with hc | hc
  · exact ha c hc
  · exact hb c hc

theorem isName_of_fileName? {path name : String} (h : fileName? path = some name) : IsName name := by
  have hlast : (names path).getLast? = some name := by
    unfold fileName? at h
    split at h
    · cases h
    · exact h
  obtain ⟨hmem, -⟩ := List.mem_filter.mp (List.mem_of_getLast? hlast)
  obtain ⟨piece, hpiece, rfl⟩ := List.mem_map.mp hmem
  intro c hc
  rw [String.toList_ofList] at hc
  exact Text.not_isSep_of_mem_splitAt hpiece c hc

/-- A name that is followed from a folder is the last piece of the path. -/
theorem getLast?_pieces_join (folder : String) {name : String} (hname : IsName name) :
    (pieces (join folder name)).getLast? = some name := by
  have hlast : ∀ front : List Char, (pieces (String.ofList (front ++ '/' :: name.toList))).getLast? = some name := by
    intro front
    obtain ⟨parts, heq, -⟩ := Text.splitAt_append (· == '/') (c := '/') rfl front name.toList
    rw [pieces, String.toList_ofList, heq, Text.splitAt_of_forall hname]
    simp
  unfold join
  split_ifs with h₁ h₂
  · rw [pieces, Text.splitAt_of_forall hname]
    simp
  · obtain ⟨front, hfront⟩ := List.getLast?_eq_some_iff.mp h₂
    have heq : folder ++ name = String.ofList (front ++ '/' :: name.toList) := by
      rw [← String.toList_inj, String.toList_append, hfront, String.toList_ofList]
      simp
    rw [heq]
    exact hlast front
  · have heq : folder ++ "/" ++ name = String.ofList (folder.toList ++ '/' :: name.toList) := by
      rw [← String.toList_inj]
      simp
    rw [heq]
    exact hlast folder.toList

theorem eq_of_join_eq {folder a b : String} (ha : IsName a) (hb : IsName b)
    (h : join folder a = join folder b) : a = b := by
  have hlast := getLast?_pieces_join folder ha
  rw [h, getLast?_pieces_join folder hb] at hlast
  exact (Option.some.inj hlast).symm

end Path

/-! ### Stems -/

namespace Options

/-- A name without endings of inputs, which are all that follows it. -/
structure IsStem (name stem : List Char) : Prop where
  bare : ∀ e ∈ inputEndings, ¬ e <:+ stem
  endings : ∃ es : List (List Char), (∀ e ∈ es, e ∈ inputEndings) ∧ name = stem ++ es.flatten

theorem inputEndings_ne_nil : ∀ e ∈ inputEndings, e ≠ [] := by decide

/-- No ending of inputs ends in another one. -/
theorem eq_of_suffix : ∀ e ∈ inputEndings, ∀ e' ∈ inputEndings, e <:+ e' → e = e' := by decide

/-- At most one ending is found. -/
theorem eq_of_suffix_of_suffix {name e e' : List Char} (he : e ∈ inputEndings) (he' : e' ∈ inputEndings)
    (h : e <:+ name) (h' : e' <:+ name) : e = e' := by
  rcases List.suffix_or_suffix_of_suffix h h' with hle | hle
  · exact eq_of_suffix e he e' he' hle
  · exact (eq_of_suffix e' he' e he hle).symm

theorem stripEnding?_eq_none {name : List Char} : stripEnding? name = none ↔ ∀ e ∈ inputEndings, ¬ e <:+ name := by
  unfold stripEnding?
  rw [Option.map_eq_none_iff, List.find?_eq_none]
  simp only [List.isSuffixOf_iff_suffix]

theorem stripEnding?_eq_some {name shorter : List Char} :
    stripEnding? name = some shorter ↔ ∃ e ∈ inputEndings, name = shorter ++ e := by
  unfold stripEnding?
  rw [Option.map_eq_some_iff]
  constructor
  · rintro ⟨e, he, rfl⟩
    have hfound := List.find?_some he
    obtain ⟨front, rfl⟩ := List.isSuffixOf_iff_suffix.mp hfound
    exact ⟨e, List.mem_of_find?_eq_some he, by simp⟩
  · rintro ⟨e, he, rfl⟩
    cases hfind : inputEndings.find? fun e' => e'.isSuffixOf (shorter ++ e) with
    | none =>
      have hno := List.find?_eq_none.mp hfind e he
      exact absurd (List.isSuffixOf_iff_suffix.mpr (List.suffix_append shorter e)) hno
    | some e' =>
      have hfound := List.find?_some hfind
      obtain rfl := eq_of_suffix_of_suffix (List.mem_of_find?_eq_some hfind) he
        (List.isSuffixOf_iff_suffix.mp hfound) (List.suffix_append shorter e)
      exact ⟨e', rfl, by simp⟩

theorem isStem_stripEndings {fuel : Nat} {name : List Char} (hfuel : name.length ≤ fuel) :
    IsStem name (stripEndings fuel name) := by
  induction fuel generalizing name with
  | zero =>
    obtain rfl : name = [] := List.eq_nil_of_length_eq_zero (Nat.le_zero.mp hfuel)
    refine ⟨fun e he hsuffix => inputEndings_ne_nil e he (List.suffix_nil.mp hsuffix), [], by simp, rfl⟩
  | succ fuel ih =>
    rw [stripEndings]
    cases hstrip : stripEnding? name with
    | none => exact ⟨stripEnding?_eq_none.mp hstrip, [], by simp, by simp⟩
    | some shorter =>
      obtain ⟨e, he, rfl⟩ := stripEnding?_eq_some.mp hstrip
      have hpos := List.length_pos_iff.mpr (inputEndings_ne_nil e he)
      rw [List.length_append] at hfuel
      have hshorter : shorter.length ≤ fuel := by omega
      obtain ⟨hbare, es, hes, heq⟩ := ih hshorter
      refine ⟨hbare, es ++ [e], fun e' he' => ?_, ?_⟩
      · rcases List.mem_append.mp he' with he' | he'
        · exact hes e' he'
        · rwa [List.mem_singleton.mp he']
      · rw [List.flatten_append, ← List.append_assoc, ← heq]
        simp

theorem suffix_flatten_concat (s : List Char) (es : List (List Char)) (e : List Char) :
    e <:+ s ++ (es ++ [e]).flatten := ⟨s ++ es.flatten, by simp⟩

/-- A name has one stem. -/
theorem IsStem.unique {name stem stem' : List Char} (h : IsStem name stem) (h' : IsStem name stem') :
    stem = stem' := by
  obtain ⟨hbare, es, hes, rfl⟩ := h
  obtain ⟨hbare', es', hes', heq⟩ := h'
  -- endings are taken off one at a time, and there is no choice
  induction es using List.reverseRecOn generalizing es' with
  | nil =>
    rw [List.flatten_nil, List.append_nil] at heq
    rcases List.eq_nil_or_concat' es' with rfl | ⟨rest, e, rfl⟩
    · simpa using heq
    · exact absurd (heq ▸ suffix_flatten_concat stem' rest e) (hbare e (hes' e (by simp)))
  | append_singleton es e ih =>
    have he := hes e (by simp)
    have hsuffix := suffix_flatten_concat stem es e
    rcases List.eq_nil_or_concat' es' with rfl | ⟨rest, e', rfl⟩
    · rw [List.flatten_nil, List.append_nil] at heq
      exact absurd (heq ▸ hsuffix) (hbare' e he)
    · obtain rfl : e = e' := eq_of_suffix_of_suffix he (hes' e' (by simp)) hsuffix
        (heq ▸ suffix_flatten_concat stem' rest e')
      have hcancel : stem ++ es.flatten ++ e = stem' ++ rest.flatten ++ e := by simpa using heq
      exact ih (fun d hd => hes d (List.mem_append_left _ hd)) rest
        (fun d hd => hes' d (List.mem_append_left _ hd)) (List.append_cancel_right hcancel)

/-- The name of the program of an input: its stem, or a name for inputs that have none. -/
def Names (input name : String) : Prop :=
  ∃ stem, IsStem ((Path.fileName? input).getD "").toList stem ∧
    name = if stem = [] then "kernel" else String.ofList stem

theorem programName_eq_iff {o : Options} (ho : o.program = none) {input name : String} :
    o.programName input = name ↔ Names input name := by
  have hstem := isStem_stripEndings (Nat.le_refl ((Path.fileName? input).getD "").toList.length)
  unfold programName Names
  rw [ho]
  dsimp only
  constructor
  · rintro rfl
    exact ⟨_, hstem, by simp⟩
  · rintro ⟨stem, hs, rfl⟩
    obtain rfl := hs.unique hstem
    simp

/-! ### Output paths -/

/-- The last name of an output. -/
def outputName (o : Options) (input : String) : String := o.programName input ++ "." ++ codeExtension

theorem isName_programName {o : Options} (ho : o.program = none) (input : String) :
    Path.IsName (o.programName input) := by
  obtain ⟨stem, ⟨-, es, -, heq⟩, hname⟩ := (programName_eq_iff ho).mp (Eq.refl (o.programName input))
  rw [hname]
  split_ifs
  · simp [Path.IsName]
  · intro c hc
    rw [String.toList_ofList] at hc
    have hmem : c ∈ ((Path.fileName? input).getD "").toList := heq ▸ List.mem_append_left _ hc
    cases hfile : Path.fileName? input with
    | none => simp [hfile] at hmem
    | some file =>
      rw [hfile] at hmem
      exact Path.isName_of_fileName? hfile c hmem

theorem isName_outputName {o : Options} (ho : o.program = none) (input : String) :
    Path.IsName (o.outputName input) := by
  have hdot : Path.IsName "." := by simp [Path.IsName]
  have hextension : Path.IsName codeExtension := by simp [Path.IsName, codeExtension]
  exact ((isName_programName ho input).append hdot).append hextension

/-- Two inputs share an output exactly if their programs have one name. -/
theorem outputPath_eq_iff {o : Options} (ho : o.program = none) (a b : String) :
    o.outputPath a codeExtension = o.outputPath b codeExtension ↔ ∃ name, Names a name ∧ Names b name := by
  have hname : o.outputPath a codeExtension = o.outputPath b codeExtension ↔ o.programName a = o.programName b := by
    refine ⟨fun h => ?_, fun h => by rw [outputPath, outputPath, h]⟩
    have houtput := Path.eq_of_join_eq (isName_outputName ho a) (isName_outputName ho b) h
    unfold outputName at houtput
    simpa using houtput
  rw [hname]
  constructor
  · intro h
    exact ⟨_, (programName_eq_iff ho).mp h, (programName_eq_iff ho).mp rfl⟩
  · rintro ⟨name, ha, hb⟩
    exact ((programName_eq_iff ho).mpr ha).trans ((programName_eq_iff ho).mpr hb).symm

theorem three_le_outputName (o : Options) (input : String) : 3 ≤ (o.outputName input).toList.length := by
  unfold outputName codeExtension
  simp only [String.toList_append, List.length_append]
  have hdot : ".".toList.length = 1 := by decide
  have hcl : "cl".toList.length = 2 := by decide
  omega

theorem ne_of_toList_length {o : Options} {input s : String} (hs : s.toList.length < 3) : o.outputName input ≠ s := by
  intro heq
  have hlen := o.three_le_outputName input
  rw [heq] at hlen
  omega

/-- An output stands under its own name, whatever links lead there. -/
theorem getLast?_of_locate {o : Options} (ho : o.program = none) {input : String} {t : Tree} {home p : Place}
    (h : t.locate false home (o.outputPath input codeExtension) = .ok p) : p.getLast? = some (o.outputName input) := by
  refine Tree.locate_getLast? ?_ ?_ (Path.getLast?_pieces_join o.folder (isName_outputName ho input)) h
  · rintro (heq | heq)
    · exact ne_of_toList_length (by decide) heq
    · exact ne_of_toList_length (by decide) heq
  · exact ne_of_toList_length (by decide)

theorem program_eq_none {o : Options} (h : o.check = .ok ()) {a b : String} (ha : a ∈ o.inputs) (hb : b ∈ o.inputs)
    (hab : a ≠ b) : o.program = none := by
  unfold check at h
  split_ifs at h with hempty hmany
  rw [Bool.and_eq_true, not_and] at hmany
  rw [← Option.not_isSome_iff_eq_none]
  intro hsome
  have hone : o.inputs.length = 1 := by simpa using hmany hsome
  obtain ⟨c, hc⟩ := List.length_eq_one_iff.mp hone
  rw [hc, List.mem_singleton] at ha hb
  exact hab (ha.trans hb.symm)

end Options

/-! ### Compiling other inputs -/

section Others

open Compiling Host

variable {o : Options} {h : Host} {a : String} {p : Place}

/-- A place in no folder that is named as temporary ones are. -/
def Host.Lasts (h : Host) (p : Place) : Prop := ∀ n, ¬ Tree.stemmed h.temp tempStem n <+: p

/-- A scratch file has no dot but the first in its name, and an output has one before its last
two characters. -/
theorem scratch_ne_outputName (n : Suffix) (o : Options) (input : String) :
    scratchStem ++ n.text ≠ o.outputName input := by
  intro h
  have hlist : '.' :: ('t' :: 'm' :: 'p' :: n.text.toList) =
      (o.programName input).toList ++ ['.', 'c', 'l'] := by
    have hchars := congrArg String.toList h
    rw [String.toList_append, Options.outputName, String.toList_append, String.toList_append,
      List.append_assoc] at hchars
    exact hchars
  cases hpre : (o.programName input).toList with
  | nil =>
    rw [hpre] at hlist
    simp at hlist
  | cons c rest =>
    rw [hpre, List.cons_append, List.cons.injEq] at hlist
    have hdot : '.' ∈ 't' :: 'm' :: 'p' :: n.text.toList := by
      rw [hlist.2]
      simp
    have hsuffix : '.' ∈ n.text.toList := by simpa using hdot
    exact absurd (n.plain '.' hsuffix) (by decide)

/-- No scratch file stands where an output does. -/
theorem not_makes_output (hlasts : h.Lasts p) (hlast : p.getLast? = some (o.outputName a)) : ¬ h.Makes p := by
  rintro (⟨n, -, hn⟩ | ⟨folder, n, rfl, -⟩)
  · exact hlasts n hn
  · have hname : scratchStem ++ n.text = o.outputName a := by simpa [Tree.stemmed] using hlast
    exact scratch_ne_outputName n o a hname

theorem compileFile_settings (device : Device) (input : String) (hl : h.launcher.Confined o.validator h.temp) :
    (compileFile o device input h).2.temp = h.temp ∧ (compileFile o device input h).2.launcher = h.launcher := by
  rcases compileFile_cases device input hl with ⟨_, -, -, -, ht, -⟩ | ⟨-, -, -, ht, -⟩ |
    ⟨-, _, -, ⟨_, _, -, -, -, ht⟩, -⟩
  · exact ⟨ht.temp, ht.launcher⟩
  · exact ⟨ht.temp, ht.launcher⟩
  · exact ⟨ht.temp, ht.launcher⟩

/-- Compiling an input leaves the outputs of others alone. -/
theorem compileFile_keeps (ho : o.program = none) (device : Device) {b : String}
    (hl : h.launcher.Confined o.validator h.temp) (hlasts : h.Lasts p) (hlast : p.getLast? = some (o.outputName a))
    (hb : o.outputPath b codeExtension ≠ o.outputPath a codeExtension) :
    (compileFile o device b h).2.tree.get? p = h.tree.get? p := by
  have hforeign := not_makes_output hlasts hlast
  rcases compileFile_cases device b hl with ⟨_, -, -, -, ht, -⟩ | ⟨-, -, -, ht, -⟩ |
    ⟨-, programs, -, ⟨t, q, -, hq, -, ht⟩, -⟩
  · exact ht.tree p hforeign
  · exact ht.tree p hforeign
  · have hne : p ≠ q := by
      rintro rfl
      have hname := Option.some.inj (hlast.symm.trans (Options.getLast?_of_locate ho hq))
      exact hb (congrArg (Path.join o.folder) hname.symm)
    exact (ht.tree p hforeign).trans (Tree.get?_insert_of_ne hne)

theorem compileFiles_cons (o : Options) (device : Device) (a : String) (rest : List String) (h : Host) :
    (compileFiles o device (a :: rest) h).2 = (compileFiles o device rest (compileFile o device a h).2).2 := rfl

theorem compileFiles_keeps (ho : o.program = none) (device : Device) {inputs : List String}
    (hl : h.launcher.Confined o.validator h.temp) (hlasts : h.Lasts p) (hlast : p.getLast? = some (o.outputName a))
    (hothers : ∀ b ∈ inputs, o.outputPath b codeExtension ≠ o.outputPath a codeExtension) :
    (compileFiles o device inputs h).2.tree.get? p = h.tree.get? p := by
  induction inputs generalizing h with
  | nil => rfl
  | cons b rest ih =>
    obtain ⟨htemp, hlauncher⟩ := compileFile_settings device b hl
    have hl' : (compileFile o device b h).2.launcher.Confined o.validator (compileFile o device b h).2.temp := by
      rwa [htemp, hlauncher]
    have hlasts' : (compileFile o device b h).2.Lasts p := by
      rwa [Lasts, htemp]
    rw [compileFiles_cons, ih hl' hlasts' fun c hc => hothers c (List.mem_cons_of_mem b hc)]
    exact compileFile_keeps ho device hl hlasts hlast (hothers b List.mem_cons_self)

/-- An output that was committed is there after other inputs were compiled. -/
theorem output_survives (device : Device) {others : List String} (hl : h.launcher.Confined o.validator h.temp)
    (hsteady : h.Steady (o.outputPath a codeExtension))
    (hlasts : ∀ p, h.tree.locate false h.home (o.outputPath a codeExtension) = .ok p → h.Lasts p)
    (hothers : ∀ b ∈ others, o.outputPath b codeExtension ≠ o.outputPath a codeExtension)
    (hcheck : o.checkOnly = false) (hok : (compileFile o device a h).1.result = .ok ()) :
    ∃ programs p, programsOf? o device a h = some programs ∧
      h.tree.locate false h.home (o.outputPath a codeExtension) = .ok p ∧
      (compileFiles o device (a :: others) h).2.tree.get? p =
        some (.file (.text (String.join (programs.map sourceText)))) := by
  rcases compileFile_cases device a hl with ⟨e, -, herr, -⟩ | ⟨hno, -⟩ | ⟨-, programs, hprograms, hputs, -⟩
  · cases hok.symm.trans herr
  · cases hcheck.symm.trans hno
  · obtain ⟨p, hp, hholds⟩ := hsteady.holds hputs
    refine ⟨programs, p, hprograms, hp, Eq.trans ?_ hholds.held⟩
    rw [compileFiles_cons]
    obtain ⟨htemp, hlauncher⟩ := compileFile_settings device a hl
    cases ho : o.program with
    | some name =>
      -- one name for all outputs, so there are no others
      cases others with
      | nil => rfl
      | cons b rest =>
        refine absurd ?_ (hothers b List.mem_cons_self)
        simp only [Options.outputPath, Options.programName, ho]
    | none =>
      refine compileFiles_keeps ho device ?_ ?_ (Options.getLast?_of_locate ho hp) hothers
      · rwa [htemp, hlauncher]
      · rw [Lasts, htemp]
        exact hlasts p hp

end Others

/-! ### Staged sources -/

namespace Compiling

theorem names_of_emit {kernels : List Kernel} {programs : List Code.Program}
    (h : (kernels.mapM fun k => (Code.emit k).toOption) = some programs) :
    programs.map Code.Program.kernel = kernels.map Kernel.name := by
  induction kernels generalizing programs with
  | nil =>
    cases h
    rfl
  | cons k rest ih =>
    rw [List.mapM_cons] at h
    obtain ⟨p, hp, h⟩ := Option.bind_eq_some_iff.mp h
    obtain ⟨ps, hps, h⟩ := Option.bind_eq_some_iff.mp h
    cases h
    have hemit : Code.emit k = .ok p := by
      cases hk : Code.emit k with
      | error e => simp [hk, Except.toOption] at hp
      | ok q => simpa [hk, Except.toOption] using hp
    rw [List.map_cons, List.map_cons, ih hps, (Code.signature_of_emit hemit).1]

theorem names_analyzed (device : Device) (tiling : TilingConfig) (kernels : List Kernel) (diag : Diagnostics) :
    (analyzed device tiling kernels diag).map Kernel.name = kernels.map Kernel.name := by
  induction kernels generalizing diag with
  | nil => rfl
  | cons k rest ih =>
    rw [analyzed, List.map_cons, List.map_cons, ih, (Analysis.sameGraph_analyze k device tiling diag).name]

/-- Programs have the names of the kernels that the file declares. -/
theorem names_of_programsOf? {o : Options} {device : Device} {input : String} {h : Host} {kernels : List Kernel}
    {programs : List Code.Program} (hkernels : kernelsOf? h input = some kernels)
    (hprograms : programsOf? o device input h = some programs) :
    programs.map Code.Program.kernel = kernels.map Kernel.name := by
  unfold programsOf? at hprograms
  rw [hkernels, Option.bind_eq_bind, Option.bind_some] at hprograms
  rw [names_of_emit hprograms, names_analyzed]

/-- Sources are staged apart exactly if the names of their kernels are spelled apart. -/
theorem nodup_stagedPlace (folder : Place) (programs : List Code.Program) :
    (programs.map (stagedPlace folder)).Nodup ↔ (programs.map fun p => Code.ident p.kernel).Nodup := by
  have hinj : Function.Injective fun entry : String => folder ++ [entry ++ "." ++ codeExtension] := by
    intro a b hab
    simpa using hab
  have hplaces : programs.map (stagedPlace folder) =
      (programs.map fun p => Code.ident p.kernel).map fun entry => folder ++ [entry ++ "." ++ codeExtension] := by
    rw [List.map_map]
    rfl
  rw [hplaces, List.nodup_map_iff hinj]

end Compiling

/-! ### Paths of generated files -/

open Compiling Host

/-- When generated files share a path, and what is kept where they do not. -/
structure PathsApart (o : Options) (device : Device) : Prop where
  /-- Inputs share an output exactly if their programs have one name. -/
  shared : ∀ a ∈ o.inputs, ∀ b ∈ o.inputs, a ≠ b →
    (o.outputPath a codeExtension = o.outputPath b codeExtension ↔
      ∃ name, Options.Names a name ∧ Options.Names b name)
  /-- Different paths of outputs never lead to one place. -/
  places : ∀ a ∈ o.inputs, ∀ b ∈ o.inputs, o.outputPath a codeExtension ≠ o.outputPath b codeExtension →
    ∀ (t t' : Tree) (home home' p q : Place), t.locate false home (o.outputPath a codeExtension) = .ok p →
      t'.locate false home' (o.outputPath b codeExtension) = .ok q → p ≠ q
  /-- No output is lost to inputs that do not share it and are compiled after it, one by one. -/
  kept : ∀ (h : Host) (a : String) (others : List String), h.launcher.Confined o.validator h.temp →
    h.Steady (o.outputPath a codeExtension) →
    (∀ p, h.tree.locate false h.home (o.outputPath a codeExtension) = .ok p → h.Lasts p) →
    (∀ b ∈ others, o.outputPath b codeExtension ≠ o.outputPath a codeExtension) →
    o.checkOnly = false → (compileFile o device a h).1.result = .ok () →
    ∃ programs p, programsOf? o device a h = some programs ∧
      h.tree.locate false h.home (o.outputPath a codeExtension) = .ok p ∧
      (compileFiles o device (a :: others) h).2.tree.get? p =
        some (.file (.text (String.join (programs.map sourceText))))
  /-- Sources are staged apart exactly if the names of the kernels are spelled apart. -/
  staged : ∀ (h : Host) (input : String) (kernels : List Kernel) (programs : List Code.Program) (folder : Place),
    kernelsOf? h input = some kernels → programsOf? o device input h = some programs →
    ((programs.map (stagedPlace folder)).Nodup ↔ (kernels.map fun k => Code.ident k.name).Nodup)
  /-- Where they are, every validator finds the source of its own kernel. -/
  sources : ∀ (folder : Place) (programs : List Code.Program) (cmds : List Command) (h h' : Host),
    (programs.map (stagedPlace folder)).Nodup →
    stageSources folder o.validator programs h = ((cmds, .ok ()), h') →
    cmds = programs.flatMap (checksOf folder o.validator) ∧
      ∀ p ∈ programs, h'.tree.get? (stagedPlace folder p) = some (.file (.text (sourceText p)))

theorem generated_paths {o : Options} (hcheck : o.check = .ok ()) (device : Device) : PathsApart o device where
  shared a ha b hb hab := Options.outputPath_eq_iff (Options.program_eq_none hcheck ha hb hab) a b
  places a ha b hb hne t t' home home' p q hp hq := by
    rintro rfl
    have ho : o.program = none := by
      refine Options.program_eq_none hcheck ha hb ?_
      rintro rfl
      exact hne rfl
    have hname := Option.some.inj ((Options.getLast?_of_locate ho hp).symm.trans (Options.getLast?_of_locate ho hq))
    exact hne (congrArg (Path.join o.folder) hname)
  kept h a others hl hsteady hlasts hothers hno hok := output_survives device hl hsteady hlasts hothers hno hok
  staged h input kernels programs folder hkernels hprograms := by
    have hspelled := congrArg (List.map Code.ident) (names_of_programsOf? hkernels hprograms)
    rw [List.map_map, List.map_map] at hspelled
    rw [nodup_stagedPlace]
    exact Iff.of_eq (congrArg List.Nodup hspelled)
  sources folder programs cmds h h' hapart hrun := by
    obtain ⟨hcmds, htree⟩ := stageSources_eq folder o.validator hrun
    refine ⟨hcmds, fun p hp => ?_⟩
    rw [htree]
    exact get?_withSources folder hapart h.tree hp

/-! ### Examples -/

/-- A description of two kernels whose names differ in a character that no identifier has. -/
def twins : String :=
  "\x7b\"kernels\": [\x7b\"name\": \"a.b\", \"data\": [], \"nodes\": []\x7d, " ++
    "\x7b\"name\": \"a_b\", \"data\": [], \"nodes\": []\x7d]\x7d"

/-- Two files of one name in different folders, and a third. -/
def scattered : Options := { inputs := ["a/x.json", "b/x.json", "b/y.kg.json"], device := "d", maxErrors := 5 }

/-- The program of a file is kept when another file is compiled, here one that cannot be read. -/
theorem generated_paths_scattered :
    (scattered.check = .ok () ∧ PathsApart scattered { units := 4 }) ∧
      ∃ programs p, programsOf? checking { units := 4 } "a.json" (workshop twins fun _ => none) = some programs ∧
        (workshop twins fun _ => none).tree.locate false ["work"] (checking.outputPath "a.json" codeExtension) = .ok p ∧
        (compileFiles checking { units := 4 } ["a.json", "b.json"] (workshop twins fun _ => none)).2.tree.get? p =
          some (.file (.text (String.join (programs.map sourceText)))) := by
  refine ⟨⟨rfl, generated_paths rfl _⟩, ?_⟩
  refine (generated_paths (o := checking) rfl { units := 4 }).kept (workshop twins fun _ => none) "a.json" ["b.json"]
    (workshop_confined _ _) (workshop_steady _ _) (fun p hp n hn => ?_) (by decide +kernel) rfl (by decide +kernel)
  have hplace : (workshop twins fun _ => none).tree.locate false ["work"] (checking.outputPath "a.json" codeExtension) =
      .ok ["work", "a.cl"] := by decide +kernel
  cases hplace.symm.trans hp
  have hhead := (List.prefix_append _ _).trans hn
  exact absurd (show ["tmp"] <+: ["work", "a.cl"] from hhead) (by decide)

/-- The kernels are described in the first file, and the others have none. -/
def scatteredHost : Host where
  tree := ⟨[(["work"], .folder), (["tmp"], .folder), (["work", "a"], .folder), (["work", "b"], .folder),
    (["work", "a", "x.json"], .file (.text twins)), (["work", "b", "x.json"], .file (.text "\x7b\"kernels\": []\x7d")),
    (["work", "b", "y.kg.json"], .file (.text "\x7b\"kernels\": []\x7d"))], []⟩
  home := ["work"]
  temp := ["tmp"]
  launcher _ t _ := .ok ⟨.exited 0, "", "", t⟩

/-- The first two files are compiled to one path, where the program of the first is lost; and its
two kernels have different sources that are staged at one place. -/
theorem generated_paths_shared :
    scattered.check = .ok () ∧
      (compileFiles scattered { units := 4 } scattered.inputs scatteredHost).1.map (fun file => (file.input, file.output)) =
        [("a/x.json", some "./x.cl"), ("b/x.json", some "./x.cl"), ("b/y.kg.json", some "./y.cl")] ∧
      (compileFiles scattered { units := 4 } scattered.inputs scatteredHost).2.entryAt? "./x.cl" =
        some (.file (.text "")) ∧
      ((programsOf? scattered { units := 4 } "a/x.json" scatteredHost).getD []).map (stagedPlace ["tmp", "_KG0"]) =
        [["tmp", "_KG0", "a_b.cl"], ["tmp", "_KG0", "a_b.cl"]] ∧
      (((programsOf? scattered { units := 4 } "a/x.json" scatteredHost).getD []).map sourceText).Nodup := by
  decide +kernel

end StencilTiling
