import StencilTiling.Proofs.Code.Identifiers

/-! Where the names of a program stand in its text: between characters that no identifier
may hold, so that each of them is a word of its own. -/

namespace StencilTiling.Code

/-- No identifier goes on here. -/
def Clear (c : Option Char) : Prop := ∀ x ∈ c, isIdentChar x = false

/-- A text stands in another, and no identifier goes on across its ends. -/
def StandsIn (t text : List Char) : Prop :=
  ∃ before after, text = before ++ (t ++ after) ∧ Clear before.getLast? ∧ Clear after.head?

theorem Clear.or {c d : Option Char} (hc : Clear c) (hd : Clear d) : Clear (c.or d) := by
  cases c with
  | none => exact hd
  | some x => exact hc

theorem clear_getLast?_append {xs ys : List Char} (hx : Clear xs.getLast?) (hy : Clear ys.getLast?) :
    Clear (xs ++ ys).getLast? :=
  List.getLast?_append ▸ hy.or hx

theorem clear_head?_append {xs ys : List Char} (hx : Clear xs.head?) (hy : Clear ys.head?) :
    Clear (xs ++ ys).head? :=
  List.head?_append ▸ hx.or hy

theorem clear_some {c : Char} (h : isIdentChar c = false) : Clear (some c) := by simpa [Clear] using h

namespace StandsIn

variable {s t u v : List Char} {c : Char}

theorem refl (t : List Char) : StandsIn t t := ⟨[], [], by simp, by simp [Clear], by simp [Clear]⟩

theorem trans (h : StandsIn s t) (h' : StandsIn t u) : StandsIn s u := by
  obtain ⟨a, b, rfl, ha, hb⟩ := h
  obtain ⟨a', b', rfl, ha', hb'⟩ := h'
  exact ⟨a' ++ a, b ++ b', by simp, clear_getLast?_append ha' ha, clear_head?_append hb hb'⟩

theorem append_left (h : StandsIn t u) {a : List Char} (ha : Clear a.getLast?) : StandsIn t (a ++ u) := by
  obtain ⟨b, c, rfl, hb, hc⟩ := h
  exact ⟨a ++ b, c, by simp, clear_getLast?_append ha hb, hc⟩

/-- What stands before a mark stands in the whole text. -/
theorem before (h : StandsIn t u) (hc : isIdentChar c = false) : StandsIn t (u ++ c :: v) :=
  h.trans ⟨[], c :: v, by simp, by simp [Clear], clear_some hc⟩

/-- What stands after a mark stands in the whole text. -/
theorem after (h : StandsIn t v) (hc : isIdentChar c = false) : StandsIn t (u ++ c :: v) := by
  have hmark : Clear (u ++ [c]).getLast? := by
    rw [List.getLast?_concat]
    exact clear_some hc
  simpa using h.append_left hmark

end StandsIn

/-! ### Expressions -/

theorem Expr.standsIn_print {e : Expr} {name : String} (h : name ∈ e.names) :
    StandsIn name.toList e.print.toList := by
  rw [toList_print]
  induction e with
  | lit n => cases h
  | name text => exact List.mem_singleton.mp h ▸ .refl _
  | paren e ih => exact ((ih h).before rfl).after (u := []) rfl
  | add a b iha ihb | sub a b iha ihb | mul a b iha ihb | div a b iha ihb =>
    rcases List.mem_append.mp h with h | h
    · exact (iha h).before rfl
    · exact (ihb h).after rfl
  | call f a b iha ihb =>
    rcases List.mem_append.mp h with h | h
    · exact ((iha h).before rfl).after rfl
    · exact (((ihb h).before rfl).after rfl).after rfl

/-! ### Lists and lines -/

theorem standsIn_intercalate {t : String} {l : List String} (h : t ∈ l) :
    StandsIn t.toList (", ".intercalate l).toList := by
  induction l with
  | nil => cases h
  | cons x rest ih =>
    cases rest with
    | nil =>
      rw [String.intercalate_singleton]
      exact List.mem_singleton.mp h ▸ .refl _
    | cons y rest =>
      rw [String.intercalate_cons_cons, String.toList_append, String.toList_append, List.append_assoc]
      rcases List.mem_cons.mp h with rfl | h
      · exact (StandsIn.refl _).before rfl
      · exact ((ih h).after (u := []) rfl).after rfl

theorem toList_line (step depth : Nat) (text : String) : (Program.line step depth text).toList =
    List.replicate (step * depth) ' ' ++ (text.toList ++ ['\n']) := by
  simp [Program.line]

/-- No identifier goes on into blanks. -/
theorem clear_of_blanks {n : Nat} {o : Option Char} (h : ∀ c ∈ o, c ∈ List.replicate n ' ') :
    Clear o := by
  intro c hc
  obtain rfl := (List.mem_replicate.mp (h c hc)).2
  rfl

/-- The text of a line stands in any text of lines. -/
theorem standsIn_lines {t : String} {l : List String} (h : t ∈ l) (step depth : Nat) :
    StandsIn t.toList (String.join (l.map (Program.line step depth))).toList := by
  induction l with
  | nil => cases h
  | cons x rest ih =>
    rw [List.map_cons, String.join_cons, String.toList_append, toList_line, List.append_assoc,
      List.append_assoc, List.singleton_append]
    refine StandsIn.append_left ?_ (clear_of_blanks fun c => List.mem_of_getLast?)
    rcases List.mem_cons.mp h with rfl | h
    · exact (StandsIn.refl _).before rfl
    · exact (ih h).after rfl

/-! ### Statements and programs -/

/-- A name stands in its declaration, behind its type. -/
theorem standsIn_declaration (type name after : List Char) {c : Char} (hc : isIdentChar c = false) :
    StandsIn name (type ++ ' ' :: (name ++ c :: after)) :=
  ((StandsIn.refl name).before hc).after rfl

theorem Stmt.standsIn_text {stmt : Stmt} {name : String} (h : name ∈ stmt.identifiers) :
    StandsIn name.toList stmt.text.toList := by
  cases stmt with
  | partOfGroup dim =>
    obtain rfl : name = partVar dim := by simpa [identifiers, declared, symbols, references] using h
    have htext : (partOfGroup dim).text.toList = "const int".toList ++
        ' ' :: ((partVar dim).toList ++ ' ' :: "= get_group_id(0);".toList) := by
      change ("const int " ++ partVar dim ++ " = get_group_id(0);").toList = _
      simp only [String.toList_append, List.append_assoc]
      rfl
    rw [htext]
    exact standsIn_declaration _ _ _ rfl
  | partOfTile dim stride parts =>
    obtain rfl : name = partVar dim := by simpa [identifiers, declared, symbols, references] using h
    have htext : (partOfTile dim stride parts).text.toList = "const int".toList ++
        ' ' :: ((partVar dim).toList ++ ' ' :: ("= (kg_tile / ".toList ++
          ((toString stride).toList ++ (") % ".toList ++ ((toString parts).toList ++ [';']))))) := by
      change ("const int " ++ partVar dim ++ " = (kg_tile / " ++ toString stride ++ ") % " ++
        toString parts ++ ";").toList = _
      simp only [String.toList_append, List.append_assoc]
      rfl
    rw [htext]
    exact standsIn_declaration _ _ _ rfl
  | coordinate key data value =>
    have htext : (coordinate key data value).text.toList = "const int".toList ++
        ' ' :: ((coordinateVar key data).toList ++ ' ' :: ("=".toList ++
          ' ' :: (value.print.toList ++ ';' :: []))) := by
      change ("const int " ++ coordinateVar key data ++ " = " ++ value.print ++ ";").toList = _
      simp only [String.toList_append, List.append_assoc]
      rfl
    rw [htext]
    rcases List.mem_cons.mp h with rfl | h
    · exact standsIn_declaration _ _ _ rfl
    · exact ((((Expr.standsIn_print h).before rfl).after rfl).after rfl).after rfl
  | buffer elem data count =>
    obtain rfl : name = bufferVar data := by simpa [identifiers, declared, symbols, references] using h
    have htext : (buffer elem data count).text.toList = ("__local ".toList ++ elem.text.toList) ++
        ' ' :: ((bufferVar data).toList ++ '[' :: ((toString count).toList ++ "];".toList)) := by
      change ("__local " ++ elem.text ++ " " ++ bufferVar data ++ "[" ++ toString count ++ "];").toList = _
      simp only [String.toList_append, List.append_assoc]
      rfl
    rw [htext]
    exact standsIn_declaration _ _ _ rfl
  | call symbol args =>
    have htext : (call symbol args).text.toList = symbol.toList ++
        '(' :: ((", ".intercalate args).toList ++ ')' :: [';']) := by
      change (symbol ++ "(" ++ ", ".intercalate args ++ ");").toList = _
      simp only [String.toList_append, List.append_assoc]
      rfl
    rw [htext]
    rcases List.mem_cons.mp h with rfl | h
    · exact (StandsIn.refl _).before rfl
    · exact ((standsIn_intercalate h).before rfl).after rfl
  | itemNote data pattern => cases h
  | cycleNote cycle => cases h

theorem Param.standsIn_text (q : Param) : StandsIn q.name.toList q.text.toList := by
  have hkind : ∃ type c, isIdentChar c = false ∧ q.text.toList = type ++ c :: q.name.toList := by
    unfold text
    cases q.kind with
    | control =>
      refine ⟨"const ".toList ++ q.elem.text.toList, ' ', rfl, ?_⟩
      simp only [String.toList_append, List.append_assoc]
      rfl
    | input =>
      refine ⟨"__global const ".toList ++ (q.elem.text.toList ++ [' ']), '*', rfl, ?_⟩
      simp only [String.toList_append, List.append_assoc]
      rfl
    | output =>
      refine ⟨"__global ".toList ++ (q.elem.text.toList ++ [' ']), '*', rfl, ?_⟩
      simp only [String.toList_append, List.append_assoc]
      rfl
  obtain ⟨type, c, hc, htext⟩ := hkind
  rw [htext]
  exact (StandsIn.refl _).after hc

theorem Program.standsIn_bodyText {p : Program} {stmt : Stmt} (h : stmt ∈ p.body) (step : Nat) :
    StandsIn stmt.text.toList (p.bodyText step).toList := by
  have hlines (depth : Nat) : StandsIn stmt.text.toList
      (String.join (p.body.map fun s => line step depth s.text)).toList := by
    simpa [Function.comp_def] using standsIn_lines (List.mem_map_of_mem (f := Stmt.text) h) step depth
  unfold bodyText
  cases p.tileLoop with
  | none => exact hlines 1
  | some total =>
    dsimp only
    rw [String.toList_append, String.toList_append, toList_line, toList_line, List.append_assoc,
      List.append_assoc, List.append_assoc, List.singleton_append, ← List.append_assoc]
    -- the loop ends the line before, and the line after starts with blanks or a brace
    refine StandsIn.after (StandsIn.trans (hlines 2) ⟨[], _, rfl, by simp [Clear], ?_⟩) rfl
    exact clear_head?_append (clear_of_blanks fun c => List.mem_of_head?) (clear_some rfl)

/-- Every name of a program is a word of its text. -/
theorem Program.standsIn_print {p : Program} {name : String} (h : name ∈ p.identifiers) (step : Nat) :
    StandsIn name.toList (p.print step).toList := by
  have htext : (p.print step).toList = (p.header.toList ++ "\n__kernel void".toList) ++
      ' ' :: (p.entry.toList ++ '(' :: ((", ".intercalate (p.params.map Param.text)).toList ++
        ')' :: (" \x7b".toList ++ '\n' :: ((p.bodyText step).toList ++ '\x7d' :: ['\n'])))) := by
    simp only [print, String.toList_append, List.append_assoc]
    rfl
  rw [htext]
  rcases List.mem_cons.mp h with rfl | h
  · exact standsIn_declaration _ _ _ rfl
  rcases List.mem_append.mp h with h | h
  · obtain ⟨q, hq, rfl⟩ := List.mem_map.mp h
    have hparam := q.standsIn_text.trans (standsIn_intercalate (List.mem_map_of_mem hq))
    exact ((hparam.before rfl).after rfl).after rfl
  · obtain ⟨stmt, hstmt, hname⟩ := List.mem_flatMap.mp h
    have hbody := (Stmt.standsIn_text hname).trans (standsIn_bodyText hstmt step)
    exact ((((hbody.before rfl).after rfl).after rfl).after rfl).after rfl

end StencilTiling.Code
