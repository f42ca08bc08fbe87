import StencilTiling.Device.Description
import StencilTiling.Proofs.Device.Writing

/-! Descriptions are read as they are written. A section is a header with the name of its level
and a line for each setting; blank lines, comments and blanks around the parts of a line do not
count. A device that is written so is read again, without a word in the diagnostics. -/

namespace StencilTiling.Device

open Text DeviceDraft

/-! ### Writing -/

/-- A key, with its value behind an equals sign if it has one. -/
def settingLine (s : DeviceProperty × PropertyValue) : String :=
  match s.2.text? with
  | none => s.1.text
  | some value => s.1.text ++ " = " ++ value

/-- The header of a level, and its settings line by line. -/
def sectionLines (d : Device) (l : DeviceLevel) : List String :=
  ("[" ++ l.keyword ++ " " ++ d.nameOf l ++ "]") :: (d.settings l).map settingLine

/-- The description of a device: its sections, each line with its end. -/
def description (d : Device) : String :=
  "\n".intercalate (DeviceLevel.all.flatMap d.sectionLines ++ [""])

/-- Blanks within a line. -/
def IsSpace (cs : List Char) : Prop := ∀ c ∈ cs, isBlank c = true ∧ c ≠ '\n'

/-- The end of a line: a comment, or nothing. -/
def IsComment (cs : List Char) : Prop := '\n' ∉ cs ∧ ∀ c ∈ cs.head?, c = '#'

/-- The ways to write a call, without what may stand around it in a line. -/
inductive Writes : List Char → Call → Prop
  | header (l : DeviceLevel) (name : String) {before between after : List Char}
    (hbefore : IsSpace before) (hbetween : IsSpace between) (hne : between ≠ [])
    (hafter : IsSpace after) :
    Writes ('[' :: (before ++ l.keyword.toList ++ between ++ name.toList ++ after) ++ [']'])
      (.declare none l (some name))
  | flag (l : DeviceLevel) (key : String) : Writes key.toList (.set none l key none)
  | setting (l : DeviceLevel) (key value : String) {before after : List Char}
    (hbefore : IsSpace before) (hafter : IsSpace after) :
    Writes (key.toList ++ before ++ '=' :: (after ++ value.toList)) (.set none l key (some value))

/-- Lines that write calls, each in the section of its level. The section that is open at the
start is given; there may be blanks, comments and lines of nothing else. -/
inductive Lays : Option DeviceLevel → List (List Char) → List Call → Prop
  | nil (current : Option DeviceLevel) : Lays current [] []
  | gap {current : Option DeviceLevel} {lines : List (List Char)} {calls : List Call}
    {space comment : List Char} (hspace : IsSpace space) (hcomment : IsComment comment)
    (hrest : Lays current lines calls) : Lays current ((space ++ comment) :: lines) calls
  | call {current : Option DeviceLevel} {lines : List (List Char)} {calls : List Call}
    {before core after comment : List Char} {c : Call} (hbefore : IsSpace before)
    (hafter : IsSpace after) (hcomment : IsComment comment) (hcore : Writes core c)
    (hsection : c.isDeclare = true ∨ current = some c.level)
    (hrest : Lays (some c.level) lines calls) :
    Lays current ((before ++ core ++ after ++ comment) :: lines) (c :: calls)

/-- A text whose lines write the calls. -/
def Presents (text : String) (calls : List Call) : Prop :=
  ∃ lines, lines ≠ [] ∧ text.toList = ['\n'].intercalate lines ∧ Lays none lines calls

/-! ### Words and blanks -/

theorem isSpace_nil : IsSpace [] := by simp [IsSpace]

theorem isSpace_blank : IsSpace [' '] := by simp [IsSpace, isBlank]

theorem isComment_nil : IsComment [] := by simp [IsComment]

theorem IsSpace.not_mem {cs : List Char} (h : IsSpace cs) {c : Char} (hc : isBlank c = false) :
    c ∉ cs := by
  intro hmem
  cases hc.symm.trans (h c hmem).1

theorem IsSpace.newline_not_mem {cs : List Char} (h : IsSpace cs) : '\n' ∉ cs :=
  fun hmem => (h _ hmem).2 rfl

theorem IsSpace.blank {cs : List Char} (h : IsSpace cs) : ∀ c ∈ cs, isBlank c = true :=
  fun c hc => (h c hc).1

section Words

variable {s : String} (h : IsWord s)

include h

theorem not_isBlank_of_mem : ∀ c ∈ s.toList, isBlank c = false := fun c hc => (h.2 c hc).1

theorem number_sign_not_mem : '#' ∉ s.toList := fun hmem => (h.2 _ hmem).2 rfl

theorem newline_not_mem : '\n' ∉ s.toList := fun hmem => by cases (h.2 _ hmem).1

theorem trim_word : trim s.toList = s.toList :=
  trim_of_ends (fun c hc => not_isBlank_of_mem h c (List.mem_of_mem_head? hc))
    fun c hc => not_isBlank_of_mem h c (List.mem_of_getLast? hc)

end Words

/-- A call whose words can be told apart in a line. -/
def Legible : Call → Prop
  | .declare _ _ name => ∀ n ∈ name, IsWord n
  | .set _ _ key value =>
    (IsWord key ∧ '=' ∉ key.toList ∧ '[' ∉ key.toList) ∧ ∀ v ∈ value, IsWord v

/-- Words can be checked character by character. -/
theorem isWord_of_all {s : String} (hne : s.toList ≠ [])
    (h : s.toList.all (fun c => !isBlank c && c != '#') = true) : IsWord s :=
  ⟨hne, fun c hc => by simpa using List.all_eq_true.mp h c hc⟩

theorem isWord_keyword (l : DeviceLevel) : IsWord l.keyword := by
  cases l <;> exact isWord_of_all (by decide) (by decide)

/-! ### Lines -/

section Lines

variable {before core after comment : List Char} {c : Call}

theorem takeWhile_of_not_mem {cs : List Char} (h : '#' ∉ cs) : cs.takeWhile (· != '#') = cs := by
  refine List.takeWhile_eq_self_iff.mpr fun c hc => bne_iff_ne.mpr ?_
  rintro rfl
  exact h hc

/-- Blanks around a line and a comment behind it are not read. -/
theorem ofText_decorated (hbefore : IsSpace before) (hafter : IsSpace after)
    (hcomment : IsComment comment) (hcore : '#' ∉ core) :
    Line.ofText (before ++ core ++ after ++ comment) = Line.ofText core := by
  have hcomment' : comment.takeWhile (· != '#') = [] := by
    cases comment with
    | nil => rfl
    | cons c rest => rw [hcomment.2 c rfl]; rfl
  have htake : (before ++ core ++ after ++ comment).takeWhile (· != '#') = before ++ core ++ after := by
    have hbody : '#' ∉ before ++ core ++ after := by
      simp only [List.mem_append, not_or]
      exact ⟨⟨hbefore.not_mem rfl, hcore⟩, hafter.not_mem rfl⟩
    rw [List.takeWhile_append_of_pos (List.takeWhile_eq_self_iff.mp (takeWhile_of_not_mem hbody)),
      hcomment', List.append_nil]
  unfold Line.ofText
  rw [htake, takeWhile_of_not_mem hcore, trim_append hbefore.blank hafter.blank]

theorem ofText_dropReturn (raw : List Char) : Line.ofText (dropReturn raw) = Line.ofText raw := by
  unfold dropReturn
  split_ifs with hlast
  · obtain ⟨init, rfl⟩ := List.getLast?_eq_some_iff.mp hlast
    unfold Line.ofText
    rw [List.dropLast_concat, List.takeWhile_append]
    split_ifs with hlength
    · have hinit : init.takeWhile (· != '#') = init :=
        (List.takeWhile_prefix _).eq_of_length hlength
      have hreturn : trim ([] ++ init ++ ['\r']) = trim init :=
        trim_append (by simp) (by simp [isBlank]) init
      rw [hinit, show ['\r'].takeWhile (· != '#') = ['\r'] from rfl, ← hreturn, List.nil_append]
    · rfl
  · rfl

theorem ofText_property {cs : List Char} (hhash : '#' ∉ cs) (htrim : trim cs = cs) (hne : cs ≠ [])
    (hhead : cs.head? ≠ some '[') : Line.ofText cs = .ofProperty cs := by
  have htake : cs.takeWhile (· != '#') = cs := takeWhile_of_not_mem hhash
  unfold Line.ofText
  rw [htake, htrim]
  split
  · exact absurd rfl hne
  · exact absurd rfl hhead
  · rfl

theorem Writes.not_mem (h : Writes core c) (hc : Legible c) : '#' ∉ core ∧ '\n' ∉ core := by
  cases h with
  | header l name hbefore hbetween hne hafter =>
    have hkeyword := isWord_keyword l
    have hname := hc name rfl
    constructor
    · simp [hbefore.not_mem, hbetween.not_mem, hafter.not_mem, isBlank, number_sign_not_mem hkeyword,
        number_sign_not_mem hname]
    · simp [hbefore.newline_not_mem, hbetween.newline_not_mem, hafter.newline_not_mem,
        newline_not_mem hkeyword, newline_not_mem hname]
  | flag l key => exact ⟨number_sign_not_mem hc.1.1, newline_not_mem hc.1.1⟩
  | setting l key value hbefore hafter =>
    have hvalue := hc.2 value rfl
    constructor
    · simp [hbefore.not_mem, hafter.not_mem, isBlank, number_sign_not_mem hc.1.1,
        number_sign_not_mem hvalue]
    · simp [hbefore.newline_not_mem, hafter.newline_not_mem, newline_not_mem hc.1.1,
        newline_not_mem hvalue]

theorem ofText_bracketed {inside : List Char} (hhash : '#' ∉ '[' :: inside ++ [']']) :
    Line.ofText ('[' :: inside ++ [']']) = .ofHeader inside := by
  have htrim : trim ('[' :: inside ++ [']']) = '[' :: inside ++ [']'] := by
    refine trim_of_ends (fun c hc => ?_) fun c hc => ?_
    · cases hc
      rfl
    · rw [List.getLast?_concat] at hc
      cases hc
      rfl
  have hinside : bracketed? (inside ++ [']']) = some inside := by
    rw [bracketed?, List.getLast?_concat, if_pos rfl, List.dropLast_concat]
  unfold Line.ofText
  rw [takeWhile_of_not_mem hhash, htrim, List.cons_append]
  simp only [hinside]

theorem ofHeader_pair {l : DeviceLevel} {name : String} (hname : IsWord name) {between : List Char}
    (hbefore : IsSpace before) (hbetween : IsSpace between) (hne : between ≠ []) (hafter : IsSpace after) :
    Line.ofHeader (before ++ l.keyword.toList ++ between ++ name.toList ++ after) =
      .header l.keyword (some name) := by
  have hkeyword := isWord_keyword l
  rw [Line.ofHeader, words_pair (not_isBlank_of_mem hkeyword) hkeyword.1 (not_isBlank_of_mem hname)
    hname.1 hbetween.blank hne hbefore.blank hafter.blank]
  dsimp only
  rw [String.ofList_toList, String.ofList_toList]

theorem ofText_setting {key value : String} (hkey : IsWord key) (hequals : '=' ∉ key.toList)
    (hbracket : '[' ∉ key.toList) (hvalue : IsWord value) (hbefore : IsSpace before)
    (hafter : IsSpace after) (hhash : '#' ∉ key.toList ++ before ++ '=' :: (after ++ value.toList)) :
    ∃ text, Line.ofText (key.toList ++ before ++ '=' :: (after ++ value.toList)) =
      .property text key (some value) := by
  have hhead : (key.toList ++ before ++ '=' :: (after ++ value.toList)).head? = key.toList.head? := by
    rw [List.append_assoc, List.head?_append_of_ne_nil _ hkey.1]
  have hlast : (key.toList ++ before ++ '=' :: (after ++ value.toList)).getLast? = value.toList.getLast? := by
    rw [← List.cons_append, ← List.append_assoc, List.getLast?_append_of_ne_nil _ hvalue.1]
  have htrim : trim (key.toList ++ before ++ '=' :: (after ++ value.toList)) =
      key.toList ++ before ++ '=' :: (after ++ value.toList) := by
    refine trim_of_ends (fun c hc => ?_) fun c hc => ?_
    · rw [hhead] at hc
      exact not_isBlank_of_mem hkey c (List.mem_of_mem_head? hc)
    · rw [hlast] at hc
      exact not_isBlank_of_mem hvalue c (List.mem_of_getLast? hc)
  have hsplit : '=' ∉ key.toList ++ before := by
    rw [List.mem_append, not_or]
    exact ⟨hequals, hbefore.not_mem rfl⟩
  have htrimKey : trim ([] ++ key.toList ++ before) = key.toList :=
    (trim_append (by simp) hbefore.blank key.toList).trans (trim_word hkey)
  have htrimValue : trim (after ++ value.toList ++ []) = value.toList :=
    (trim_append hafter.blank (by simp) value.toList).trans (trim_word hvalue)
  rw [List.nil_append] at htrimKey
  rw [List.append_nil] at htrimValue
  have hempty : value.toList.isEmpty = false := List.isEmpty_eq_false_iff.mpr hvalue.1
  rw [ofText_property hhash htrim (by simp) fun h => hbracket (List.mem_of_mem_head? (hhead ▸ h)),
    Line.ofProperty, splitOnce_append hsplit]
  dsimp only
  rw [htrimKey, htrimValue, hempty, String.ofList_toList, String.ofList_toList]
  exact ⟨_, rfl⟩

/-- A line does what it writes. -/
theorem Writes.apply_eq (h : Writes core c) (hc : Legible c) (d : DeviceDraft)
    {current : Option DeviceLevel} (hsection : c.isDeclare = true ∨ current = some c.level) :
    (Line.ofText core).apply d current = (c.step d, some c.level) := by
  obtain ⟨hhash, -⟩ := h.not_mem hc
  cases h with
  | header l name hbefore hbetween hne hafter =>
    rw [ofText_bracketed hhash, ofHeader_pair (hc name rfl) hbefore hbetween hne hafter, Line.apply]
    cases l <;> rfl
  | flag l key =>
    obtain ⟨hkey, hequals, hbracket⟩ := hc.1
    obtain rfl := hsection.resolve_left (by simp [Call.isDeclare])
    rw [ofText_property hhash (trim_word hkey) hkey.1 fun h => hbracket (List.mem_of_mem_head? h),
      Line.ofProperty, splitOnce_of_not_mem hequals]
    dsimp only
    rw [String.ofList_toList]
    rfl
  | setting l key value hbefore hafter =>
    obtain ⟨hkey, hequals, hbracket⟩ := hc.1
    obtain rfl := hsection.resolve_left (by simp [Call.isDeclare])
    obtain ⟨text, htext⟩ :=
      ofText_setting hkey hequals hbracket (hc.2 value rfl) hbefore hafter hhash
    rw [htext]
    rfl

end Lines

/-! ### Texts -/

theorem Lays.newline_not_mem {current : Option DeviceLevel} {lines : List (List Char)}
    {calls : List Call} (h : Lays current lines calls) (hlegible : ∀ c ∈ calls, Legible c) :
    ∀ line ∈ lines, '\n' ∉ line := by
  induction h with
  | nil => simp
  | gap hspace hcomment hrest ih =>
    rintro line (_ | ⟨_, hline⟩)
    · simp [hspace.newline_not_mem, hcomment.1]
    · exact ih hlegible line hline
  | call hbefore hafter hcomment hcore hsection hrest ih =>
    rintro line (_ | ⟨_, hline⟩)
    · have hcall := (hcore.not_mem (hlegible _ List.mem_cons_self)).2
      simp [hbefore.newline_not_mem, hcall, hafter.newline_not_mem, hcomment.1]
    · exact ih (fun c hc => hlegible c (List.mem_cons_of_mem _ hc)) line hline

section ReadLines

variable {d d' : DeviceDraft} {current current' : Option DeviceLevel} (file : String)

theorem readLines_cons {raw : List Char} {n : Nat}
    (h : (Line.ofText raw).apply d current = ((d', none), current')) (rest : List (List Char × Nat)) :
    readLines file d current ((raw, n) :: rest) = readLines file d' current' rest := by
  funext diag
  rw [readLines, h]
  rfl

theorem readLines_append_blank {raw : List Char} (h : Line.ofText raw = .blank) (n : Nat)
    (numbered : List (List Char × Nat)) :
    readLines file d current (numbered ++ [(raw, n)]) = readLines file d current numbered := by
  induction numbered generalizing d current with
  | nil => exact readLines_cons file (by rw [h]; rfl) []
  | cons line rest ih =>
    rw [List.cons_append]
    simp only [readLines, ih]

/-- Lines are read as the calls that they write, if these have no problem. -/
theorem readLines_of_lays {lines : List (List Char)} {calls : List Call}
    (h : Lays current lines calls) (hlegible : ∀ c ∈ calls, Legible c)
    {numbered : List (List Char × Nat)}
    (hlines : numbered.map (Line.ofText ·.1) = lines.map Line.ofText) (hproblems : problems d calls = []) :
    readLines file d current numbered = pure (calls.foldl advance d) := by
  induction h generalizing numbered d with
  | nil =>
    obtain rfl := List.map_eq_nil_iff.mp hlines
    rfl
  | @gap current lines calls space comment hspace hcomment hrest ih =>
    obtain ⟨⟨raw, n⟩, rest, rfl, hraw, hrest⟩ := List.map_eq_cons_iff.mp hlines
    have hgap : Line.ofText ([] ++ [] ++ space ++ comment) = Line.ofText [] :=
      ofText_decorated isSpace_nil hspace hcomment (by simp)
    have hblank : Line.ofText raw = .blank := hraw.trans hgap
    rw [readLines_cons file (by rw [hblank]; rfl) rest]
    exact ih hlegible hrest hproblems
  | @call current lines calls before core after comment c hbefore hafter hcomment hcore hsection hrest ih =>
    obtain ⟨⟨raw, n⟩, rest, rfl, hraw, hrest⟩ := List.map_eq_cons_iff.mp hlines
    have hc := hlegible c List.mem_cons_self
    obtain ⟨hstep, hproblems⟩ := List.append_eq_nil_iff.mp hproblems
    have hnone : c.step d = ((c.step d).1, none) :=
      Prod.ext rfl (Option.toList_eq_nil_iff.mp hstep)
    have happly : (Line.ofText raw).apply d current = ((d.advance c, none), some c.level) := by
      have hadvance : d.advance c = (c.step d).1 := (make_of_none [] hnone).1
      rw [hraw, ofText_decorated hbefore hafter hcomment (hcore.not_mem hc).1, hcore.apply_eq hc d hsection,
        hadvance, ← hnone]
    rw [readLines_cons file happly rest]
    exact ih (fun b hb => hlegible b (List.mem_cons_of_mem c hb)) hrest hproblems

end ReadLines

/-- A text is read as the calls that it presents, if they are faultless. -/
theorem ofText_of_presents {text : String} {calls : List Call} (h : Presents text calls)
    (hlegible : ∀ c ∈ calls, Legible c) (hfaultless : Faultless calls) (file : String) :
    ofText text file = (calls.foldl advance (fresh (some "device"))).finish := by
  obtain ⟨written, hne, htext, hlays⟩ := h
  obtain ⟨init, last, rfl⟩ : ∃ init last, written = init ++ [last] :=
    ⟨_, _, (List.dropLast_append_getLast hne).symm⟩
  -- a last line without an end is read, and an empty one is blank
  have hlast : readLines file (fresh (some "device")) none
      (init.map dropReturn ++ if last.isEmpty then [] else [last]).zipIdx =
        readLines file (fresh (some "device")) none (init.map dropReturn ++ [last]).zipIdx := by
    split_ifs with hempty
    · rw [List.isEmpty_iff.mp hempty, List.append_nil, List.zipIdx_append]
      exact (readLines_append_blank file rfl _ _).symm
    · rfl
  have hread : readLines file (fresh (some "device")) none (lines text.toList).zipIdx =
      pure (calls.foldl advance (fresh (some "device"))) := by
    rw [htext, lines_intercalate (hlays.newline_not_mem hlegible), hlast]
    refine readLines_of_lays file hlays hlegible ?_
      ((problems_eq_nil_iff (some "device") calls).1.mpr hfaultless)
    calc (init.map dropReturn ++ [last]).zipIdx.map (Line.ofText ·.1)
      _ = ((init.map dropReturn ++ [last]).zipIdx.map Prod.fst).map Line.ofText := by
        rw [List.map_map]
        rfl
      _ = (init ++ [last]).map Line.ofText := by
        rw [List.zipIdx_map_fst, List.map_append, List.map_append, List.map_map]
        simp [ofText_dropReturn]
  funext diag
  unfold ofText
  rw [show named "device" = fresh (some "device") from rfl, hread]
  rfl

/-! ### Devices -/

theorem isWord_toString (n : Nat) : IsWord (toString n) := by
  have hdigits : ∀ c ∈ (toString n).toList, c.isDigit = true := by
    rw [Nat.toString_eq_ofList_toDigits, String.toList_ofList]
    exact fun c => Nat.isDigit_of_mem_toDigits (by decide) (by decide)
  refine ⟨?_, fun c hc => ⟨not_isBlank_of_isDigit (hdigits c hc), ?_⟩⟩
  · rw [Nat.toString_eq_ofList_toDigits, String.toList_ofList]
    exact Nat.toDigits_ne_nil
  · rintro rfl
    cases hdigits _ hc

theorem Writable.legible {d : Device} (h : d.Writable)
    {settings : DeviceLevel → List (DeviceProperty × PropertyValue)} :
    ∀ c ∈ d.calls settings, Legible c := by
  intro c hc
  cases c with
  | declare location l name =>
    obtain ⟨-, rfl⟩ := mem_calls_declare.mp hc
    intro name hname
    exact Option.some.inj hname ▸ h.names l
  | set location l key value =>
    obtain ⟨p, v, -, -, rfl, rfl⟩ := mem_calls_set.mp hc
    refine ⟨⟨?_, ?_, ?_⟩, ?_⟩
    · cases p <;> exact isWord_of_all (by decide) (by decide)
    · cases p <;> decide
    · cases p <;> decide
    · rintro text htext
      cases v with
      | flag => cases htext
      | count n => exact Option.some.inj htext ▸ isWord_toString n
      | path c => cases c <;> cases htext <;> exact isWord_of_all (by decide) (by decide)
      | support s => cases s <;> cases htext <;> exact isWord_of_all (by decide) (by decide)

section Description

variable {current : Option DeviceLevel} {lines : List (List Char)} {calls : List Call}

theorem Lays.plain {core : List Char} {c : Call} (hcore : Writes core c)
    (hsection : c.isDeclare = true ∨ current = some c.level) (hrest : Lays (some c.level) lines calls) :
    Lays current (core :: lines) (c :: calls) := by
  have hplain := Lays.call isSpace_nil isSpace_nil isComment_nil hcore hsection hrest
  rwa [List.nil_append, List.append_nil, List.append_nil] at hplain

theorem writes_settingLine (l : DeviceLevel) (s : DeviceProperty × PropertyValue) :
    Writes (settingLine s).toList (.set none l s.1.text s.2.text?) := by
  unfold settingLine
  cases htext : s.2.text? with
  | none => exact .flag l s.1.text
  | some value =>
    have hsetting := Writes.setting l s.1.text value isSpace_blank isSpace_blank
    simpa [String.toList_append] using hsetting

theorem lays_settings (l : DeviceLevel) (settings : List (DeviceProperty × PropertyValue))
    (hrest : Lays (some l) lines calls) :
    Lays (some l) ((settings.map settingLine).map String.toList ++ lines)
      ((settings.map fun s => .set none l s.1.text s.2.text?) ++ calls) := by
  induction settings with
  | nil => exact hrest
  | cons s rest ih => exact .plain (writes_settingLine l s) (.inr rfl) ih

theorem lays_sections (d : Device) (levels : List DeviceLevel) :
    Lays current ((levels.flatMap d.sectionLines).map String.toList ++ [[]])
      (levels.flatMap fun l => d.sectionCalls (d.settings l) l) := by
  induction levels generalizing current with
  | nil =>
    -- behind the end of the last line nothing is written
    exact .gap isSpace_nil isComment_nil (.nil current)
  | cons l rest ih =>
    have hheader : Writes ("[" ++ l.keyword ++ " " ++ d.nameOf l ++ "]").toList
        (.declare none l (some (d.nameOf l))) := by
      have hwrites := Writes.header l (d.nameOf l) isSpace_nil isSpace_blank (by simp) isSpace_nil
      simpa [String.toList_append] using hwrites
    rw [List.flatMap_cons, List.flatMap_cons, List.map_append, List.append_assoc]
    exact .plain hheader (.inl rfl) (lays_settings l (d.settings l) ih)

theorem presents_description (d : Device) : Presents d.description (d.calls d.settings) := by
  refine ⟨_, ?_, ?_, lays_sections d DeviceLevel.all⟩
  · simp
  · rw [description, String.toList_intercalate, List.map_append]
    rfl

end Description

/-- What is written of a device is read again, and nothing is reported. This does not depend on
the order of the settings of a level, on blank lines and comments, or on the blanks around a
line, a key, an equals sign and a value. -/
theorem read_as_written {d : Device} (h : d.Writable) (file : String) (diag : Diagnostics) :
    ofText d.description file diag = (.ok d, diag) ∧
    ∀ settings text, (∀ l, (settings l).Perm (d.settings l)) → Presents text (d.calls settings) →
      ofText text file diag = (.ok d, diag) := by
  have hread {settings : DeviceLevel → List (DeviceProperty × PropertyValue)} {text : String}
      (hperm : ∀ l, (settings l).Perm (d.settings l)) (htext : Presents text (d.calls settings)) :
      ofText text file diag = (.ok d, diag) := by
    rw [ofText_of_presents htext h.legible (h.faultless hperm)]
    exact h.finish_eq hperm diag
  exact ⟨hread (fun _ => .refl _) (presents_description d), fun _ _ => hread⟩

/-- A device with two units that has a name with a bracket and a number at the limit. -/
def bracketed : Device :=
  { name := "d]", memory := some 9223372036854775807, units := 2
    unit := { name := "u", toExt := { dma := true, loadStore := true }, elements := 1 }
    element := { name := "e", dataCache := true, toExt := { dma := true }, double := .no } }

/-- A description of it with blanks, comments and settings in another order. -/
def bracketedText : String :=
  "\n".intercalate ["\t# a device", "", " [ device  d] ] # name\r", "memorySize=9223372036854775807",
    " nbComputeUnits\t= 2#units", "[compute_unit u]", "dataConnectivityToExt = loadstore",
    "dataConnectivityToExt =dma", "nbComputeElements= 1", "", "[compute_element e]",
    "dataConnectivityToExt = dma", "Tfloat = native", "Tdouble = no", "Tlong = native",
    " dataCache # flag", "nbHwThreads = 1"]

/-- The settings in the order of the text. -/
def bracketedSettings : DeviceLevel → List (DeviceProperty × PropertyValue)
  | .device => (bracketed.settings .device).reverse
  | .unit => (bracketed.settings .unit).reverse
  | .element => bracketed.settings .element

theorem writable_bracketed : bracketed.Writable where
  names l := by cases l <;> exact isWord_of_all (by decide) (by decide)
  numbers l p n hn := by
    cases l <;> cases p <;> simp [values, bracketed] at hn <;> omega
  unitToExt := rfl
  elementToExt := rfl
  float := by decide

theorem presents_bracketedText : Presents bracketedText (bracketed.calls bracketedSettings) := by
  have htab : IsSpace ['\t'] := by simp [IsSpace, isBlank]
  have hblanks : IsSpace [' ', ' '] := by simp [IsSpace, isBlank]
  have hcomment (s : String) (hs : s.toList.all (· != '\n') = true) : IsComment ('#' :: s.toList) := by
    refine ⟨fun hmem => ?_, by simp⟩
    rcases List.mem_cons.mp hmem with h | h
    · cases h
    · cases List.all_eq_true.mp hs _ h
  have hvalue (l : DeviceLevel) (key value : String) :=
    Writes.setting l key value isSpace_blank isSpace_blank
  have helement : Lays (some .unit) _ _ := .plain (.header .element "e" isSpace_nil isSpace_blank (by simp) isSpace_nil)
    (.inl rfl) <| .plain (hvalue .element "dataConnectivityToExt" "dma") (.inr rfl) <|
    .plain (hvalue .element "Tfloat" "native") (.inr rfl) <|
    .plain (hvalue .element "Tdouble" "no") (.inr rfl) <|
    .plain (hvalue .element "Tlong" "native") (.inr rfl) <|
    .call isSpace_blank isSpace_blank (hcomment " flag" (by decide)) (.flag .element "dataCache") (.inr rfl) <|
    .plain (hvalue .element "nbHwThreads" "1") (.inr rfl) (.nil _)
  have hunit : Lays (some .device) _ _ := .plain (.header .unit "u" isSpace_nil isSpace_blank (by simp) isSpace_nil)
    (.inl rfl) <| .plain (hvalue .unit "dataConnectivityToExt" "loadstore") (.inr rfl) <|
    .plain (.setting .unit "dataConnectivityToExt" "dma" isSpace_blank isSpace_nil) (.inr rfl) <|
    .plain (.setting .unit "nbComputeElements" "1" isSpace_nil isSpace_blank) (.inr rfl) <|
    .gap isSpace_nil isComment_nil helement
  have hdevice : Lays none _ _ := .gap htab (hcomment " a device" (by decide)) <|
    .gap isSpace_nil isComment_nil <|
    .call isSpace_blank isSpace_blank (hcomment " name\r" (by decide))
      (.header .device "d]" isSpace_blank hblanks (by simp) isSpace_blank) (.inl rfl) <|
    .plain (.setting .device "memorySize" "9223372036854775807" isSpace_nil isSpace_nil) (.inr rfl) <|
    .call isSpace_blank isSpace_nil (hcomment "units" (by decide))
      (.setting .device "nbComputeUnits" "2" htab isSpace_blank) (.inr rfl) hunit
  refine (congrArg (Presents bracketedText) ?_).mpr ⟨_, List.cons_ne_nil _ _, ?_, hdevice⟩
  · decide +kernel
  · rw [bracketedText, String.toList_intercalate]
    exact congrArg _ (by decide +kernel)

/-- The description is read as the device, and so is the other text. -/
theorem read_as_written_bracketed :
    ofText bracketed.description "d.cfg" (.new 1 0) = (.ok bracketed, .new 1 0) ∧
      ofText bracketedText "d.cfg" (.new 1 0) = (.ok bracketed, .new 1 0) := by
  obtain ⟨hdescription, htext⟩ := read_as_written writable_bracketed "d.cfg" (.new 1 0)
  refine ⟨hdescription, htext bracketedSettings bracketedText (fun l => ?_) presents_bracketedText⟩
  cases l <;> decide +kernel

end StencilTiling.Device
