import WireTools.CellOrder
import WireTools.DelimitedText
import WireTools.XmlReader

/-! # XML exports

The rows of a page as an XML document.

* `render` writes the lines of the document; the escape of a library is a parameter;
* `tree` is the document as markup, and `readResult` what a consumer takes from the tree that is
  parsed: the name and the text, or NULL, of every cell of every row;
* `parse_render`: that of a rendered document, none when a character is in it that no document has;
* `TextSafe`, `NameSafe` and `CellSafe`: the texts, the names and the cells that survive;
* `readsBack_iff`: a page is read back if and only if all of its cells survive, and the names of
  its columns where there is a row. -/

namespace WireTools

open CellFormatter Outcome
open DelimitedText (content contents)

namespace XmlMarkup

def Declaration : Text := text "<?xml version=\"1.0\" encoding=\"UTF-8\"?>"
def ResultOpen : Text := text "<result>"
def ResultClose : Text := text "</result>"
def RowOpen : Text := text "  <row>"
def RowClose : Text := text "  </row>"
def ColumnIndent : Text := text "    "

end XmlMarkup

namespace XmlResultRenderer

open XmlMarkup

/-! ### The document -/

section render

variable (escape : Text → Text) (b : Builtins)

/-- One cell, NULL without an end tag. -/
def cell (column : QueryColumn) (value : CellValue) : Except CellMismatch Text :=
  let name := escape column.name
  if value.isNull then
    .ok (ColumnIndent ++ (text "<column name=\"" ++ (name ++ text "\" null=\"true\"/>")))
  else (canonical b column value).map fun t =>
    ColumnIndent ++ (text "<column name=\"" ++ (name ++ (text "\">" ++
      (escape t ++ text "</column>"))))

def row (columns : List QueryColumn) (row : QueryRow) : Except CellMismatch (List Text) :=
  (columns.mapM fun column => cell escape b column (row column.name)).map fun cells =>
    RowOpen :: (cells ++ [RowClose])

def render (columns : List QueryColumn) (rows : List QueryRow) : Except CellMismatch Text :=
  (rows.mapM fun r => row escape b columns r).map fun lines =>
    terminated (Declaration :: ResultOpen :: (lines.flatten ++ [ResultClose]))

end render

/-- What the escape writes of a unit: five units are references. -/
def escapeUnit (c : CodeUnit) : Text :=
  if c = 38 then text "&amp;"
  else if c = 60 then text "&lt;"
  else if c = 62 then text "&gt;"
  else if c = 34 then text "&quot;"
  else if c = 39 then text "&#39;"
  else [c]

/-! ### The document as markup -/

def resultName : Xml.Name := ⟨text "result", by decide, by decide⟩
def rowName : Xml.Name := ⟨text "row", by decide, by decide⟩
def columnName : Xml.Name := ⟨text "column", by decide, by decide⟩
def nameName : Xml.Name := ⟨text "name", by decide, by decide⟩
def nullName : Xml.Name := ⟨text "null", by decide, by decide⟩

/-- The cells of a row, each with the name of its column and its text, none for NULL. -/
abbrev Record := List (Text × Option Text)

def cellMarkup (c : Text × Option Text) : Xml.Markup :=
  match c.2 with
  | none => .empty ⟨columnName, [(nameName, c.1), (nullName, text "true")], by
      show [text "name", text "null"].Nodup
      decide⟩
  | some t => .element ⟨columnName, [(nameName, c.1)], List.nodup_singleton _⟩ [] t

def rowMarkup (cells : Record) : Xml.Markup :=
  .element ⟨rowName, [], List.nodup_nil⟩
    (cells.map fun c => (newline :: ColumnIndent, cellMarkup c)) (text "\n  ")

def tree (records : List Record) : Xml.Markup :=
  .element ⟨resultName, [], List.nodup_nil⟩
    (records.map fun cells => (text "\n  ", rowMarkup cells)) [newline]

/-! ### The escape -/

theorem escapes : Xml.Escapes escapeUnit where
  plain c hc := by
    obtain ⟨hamp, hless, hgreater, hquote, hapostrophe⟩ :
      c ≠ 38 ∧ c ≠ 60 ∧ c ≠ 62 ∧ c ≠ 34 ∧ c ≠ 39 := Xml.ne_of_not_markup hc
    rw [escapeUnit, if_neg hamp, if_neg hless, if_neg hgreater, if_neg hquote, if_neg hapostrophe]
  refers := by
    simp only [Xml.markupUnits, List.forall_mem_cons]
    refine ⟨?_, ?_, ?_, ?_, ?_, by simp⟩
    · exact ⟨by decide, text "amp", by decide, by decide, by decide⟩
    · exact ⟨by decide, text "lt", by decide, by decide, by decide⟩
    · exact ⟨by decide, text "gt", by decide, by decide, by decide⟩
    · exact ⟨by decide, text "quot", by decide, by decide, by decide⟩
    · exact ⟨by decide, text "#39", by decide, by decide, by decide⟩

/-! ### What is rendered is the markup -/

section document

variable {escape : Text → Text} {b : Builtins} {columns : List QueryColumn}

/-- A cell as it is written in its line. -/
theorem cell_eq (hescape : ∀ t, escape t = t.flatMap escapeUnit) {column : QueryColumn}
    {value : CellValue} {o : Option Text} (h : content b column value = .ok o) :
    cell escape b column value =
      .ok (ColumnIndent ++ (cellMarkup (column.name, o)).write escapeUnit) := by
  rw [content] at h
  rw [cell]
  split at h
  · next hnull =>
      rw [← Except.ok.inj h, if_pos hnull, hescape]
      simp [cellMarkup, Xml.Markup.write, Xml.StartTag.write, Xml.writeAttribute]
      rfl
  · next hnull =>
      obtain ⟨t, ht, rfl⟩ := except_map_eq_ok h
      rw [if_neg hnull, ht, hescape]
      dsimp only [Except.map]
      rw [hescape]
      simp [cellMarkup, Xml.Markup.write, Xml.Markup.writeChildren, Xml.StartTag.write,
        Xml.StartTag.writeEnd, Xml.writeAttribute]
      rfl

/-- The children of an element that stand on lines of their own. -/
theorem writeChildren_map {α : Type} (l : List α) (before : Text) (g : α → Xml.Markup)
    (f : CodeUnit → Text) : Xml.Markup.writeChildren f (l.map fun a => (before, g a)) =
      l.flatMap fun a => before.flatMap f ++ (g a).write f := by
  induction l with
  | nil => rw [List.map_nil, Xml.Markup.writeChildren, List.flatMap_nil]
  | cons a l ih =>
      rw [List.map_cons, Xml.Markup.writeChildren, ih, List.flatMap_cons, List.append_assoc]

/-- A line break before every item and one behind the last are one before the first and one behind
every item. -/
theorem newline_flatMap {α : Type} (l : List α) (g : α → Text) (rest : Text) :
    (l.flatMap fun a => newline :: g a) ++ newline :: rest =
      newline :: ((l.flatMap fun a => g a ++ [newline]) ++ rest) := by
  induction l with
  | nil => rfl
  | cons a l ih =>
      rw [List.flatMap_cons, List.append_assoc, ih, List.flatMap_cons]
      simp

/-- An element without attributes and with its children on lines of their own. -/
theorem element_eq {α : Type} (name : Xml.Name) (distinct) (l : List α) (indent close : Text)
    (g : α → Xml.Markup) (hindent : indent.flatMap escapeUnit = indent)
    (hclose : close.flatMap escapeUnit = close) :
    (Xml.Markup.element ⟨name, [], distinct⟩ (l.map fun a => (newline :: indent, g a))
      (newline :: close)).write escapeUnit ++ [newline] =
    60 :: (name.units ++ (62 :: newline ::
      ((l.flatMap fun a => indent ++ ((g a).write escapeUnit ++ [newline])) ++
        (close ++ (60 :: 47 :: (name.units ++ [62, newline])))))) := by
  have hline : ∀ t : Text, (newline :: t).flatMap escapeUnit = newline :: t.flatMap escapeUnit :=
    fun t => rfl
  have hbreak := newline_flatMap l (fun a => indent ++ (g a).write escapeUnit)
    (close ++ (60 :: 47 :: (name.units ++ [62, newline])))
  simp only [List.append_assoc] at hbreak
  rw [Xml.Markup.write, writeChildren_map]
  simp only [hline, hclose, hindent, Xml.StartTag.write, Xml.StartTag.writeEnd,
    List.flatMap_nil, List.append_nil, List.cons_append, List.append_assoc, List.nil_append]
  rw [← hbreak]
  rfl

theorem row_eq (hescape : ∀ t, escape t = t.flatMap escapeUnit) {r : QueryRow}
    {cells : List (Option Text)}
    (h : List.Forall₂ (fun column o => content b column (r column.name) = .ok o) columns cells) :
    ∃ lines, row escape b columns r = .ok lines ∧ terminated lines =
      text "  " ++ ((rowMarkup ((columns.map QueryColumn.name).zip cells)).write escapeUnit ++
        [newline]) := by
  have hcells : columns.mapM (fun column => cell escape b column (r column.name)) =
      .ok (((columns.map QueryColumn.name).zip cells).map fun c =>
        ColumnIndent ++ (cellMarkup c).write escapeUnit) := by
    rw [except_mapM_eq_ok]
    induction h with
    | nil => exact List.Forall₂.nil
    | cons hcell _ ih => exact List.Forall₂.cons (cell_eq hescape hcell) ih
  refine ⟨_, by rw [row, hcells]; rfl, ?_⟩
  have helement : (rowMarkup ((columns.map QueryColumn.name).zip cells)).write escapeUnit ++
      [newline] = _ :=
    element_eq rowName List.nodup_nil _ ColumnIndent (text "  ") cellMarkup rfl rfl
  rw [helement, terminated_cons, terminated, List.flatMap_append, List.flatMap_map]
  simp only [List.append_assoc, List.flatMap_singleton]
  rfl

/-- The records that a document shows of a grid. -/
def recordsOf (columns : List QueryColumn) (grid : List (List (Option Text))) : List Record :=
  grid.map fun cells => (columns.map QueryColumn.name).zip cells

theorem rows_eq (hescape : ∀ t, escape t = t.flatMap escapeUnit) {rows : List QueryRow}
    {grid : List (List (Option Text))} (h : contents b columns rows = .ok grid) :
    ∃ lines, rows.mapM (fun r => row escape b columns r) = .ok lines ∧
      terminated lines.flatten = (recordsOf columns grid).flatMap fun cells =>
        text "  " ++ ((rowMarkup cells).write escapeUnit ++ [newline]) := by
  have hcells := DelimitedText.contents_iff.mp h
  clear h
  induction hcells with
  | nil => exact ⟨[], rfl, rfl⟩
  | cons hrow _ ih =>
      obtain ⟨lines, hlines, hterminated⟩ := ih
      obtain ⟨line, hline, hwritten⟩ := row_eq hescape hrow
      refine ⟨line :: lines, ?_, ?_⟩
      · rw [except_mapM_eq_ok] at hlines ⊢
        exact List.Forall₂.cons hline hlines
      · rw [List.flatten_cons, terminated, List.flatMap_append, ← terminated, ← terminated,
          hwritten, hterminated]
        rfl

theorem render_eq (hescape : ∀ t, escape t = t.flatMap escapeUnit) {rows : List QueryRow}
    {grid : List (List (Option Text))} (h : contents b columns rows = .ok grid) :
    render escape b columns rows =
      .ok (Xml.document escapeUnit (tree (recordsOf columns grid))) := by
  obtain ⟨lines, hlines, hterminated⟩ := rows_eq hescape h
  have helement : (tree (recordsOf columns grid)).write escapeUnit ++ [newline] = _ :=
    element_eq resultName List.nodup_nil _ (text "  ") [] rowMarkup rfl rfl
  rw [render, hlines, Xml.document, helement, ← hterminated]
  dsimp only [Except.map]
  rw [terminated_cons, terminated_cons, terminated, List.flatMap_append, ← terminated]
  simp only [List.append_assoc, List.flatMap_singleton]
  rfl

end document

/-! ### What a consumer reads -/

/-- The elements among the children of an element. -/
def elements (children : List Xml.Node) : List Xml.Node :=
  children.filter fun
    | .element _ _ _ => true
    | .characters _ => false

/-- The characters of an element. -/
def characterData (children : List Xml.Node) : Text :=
  children.flatMap fun
    | .element _ _ _ => []
    | .characters t => t

/-- The name of a cell and its text, none where the document says NULL. -/
def readCell : Xml.Node → Option (Text × Option Text)
  | .element name attributes children =>
      if name = text "column" then
        (attributes.lookup (text "name")).map fun n =>
          (n, if attributes.lookup (text "null") = some (text "true") then none
            else some (characterData children))
      else none
  | .characters _ => none

def readRow : Xml.Node → Option Record
  | .element name _ children =>
      if name = text "row" then (elements children).mapM readCell else none
  | .characters _ => none

def readResult : Xml.Node → Option (List Record)
  | .element name _ children =>
      if name = text "result" then (elements children).mapM readRow else none
  | .characters _ => none

/-- What a parser leaves of the name and the text of a cell. -/
def seen (c : Text × Option Text) : Text × Option Text :=
  (Xml.attributeText c.1, c.2.map normalizeNewlines)

theorem characterData_characters (t : Text) :
    characterData (Xml.characters t) = normalizeNewlines t := by
  rw [Xml.characters]
  split
  · next h => rw [h]; rfl
  · exact List.append_nil _

theorem readCell_node (c : Text × Option Text) : readCell (cellMarkup c).node = some (seen c) := by
  obtain ⟨name, o⟩ := c
  cases o with
  | none => rw [cellMarkup, Xml.Markup.node]; rfl
  | some t =>
      have hread : readCell (cellMarkup (name, some t)).node =
          some (Xml.attributeText name, some (characterData (Xml.characters t))) := by
        rw [cellMarkup, Xml.Markup.node, Xml.Markup.nodes, List.nil_append]
        rfl
      rw [hread, characterData_characters]
      rfl

theorem elements_characters (t : Text) : elements (Xml.characters t) = [] := by
  rw [Xml.characters]
  split <;> rfl

theorem elements_append (children rest : List Xml.Node) :
    elements (children ++ rest) = elements children ++ elements rest :=
  List.filter_append _ _

theorem elements_node (m : Xml.Markup) (rest : List Xml.Node) :
    elements (m.node :: rest) = m.node :: elements rest := by
  cases m with
  | empty tag => rw [Xml.Markup.node]; rfl
  | element tag children text => rw [Xml.Markup.node]; rfl

theorem elements_nodes {α : Type} (l : List α) (before rest : Text) (g : α → Xml.Markup) :
    elements (Xml.Markup.nodes (l.map fun a => (before, g a)) ++ Xml.characters rest) =
      l.map fun a => (g a).node := by
  induction l with
  | nil => rw [List.map_nil, Xml.Markup.nodes, List.nil_append, elements_characters]; rfl
  | cons a l ih =>
      rw [List.map_cons, Xml.Markup.nodes, List.append_assoc, elements_append, elements_characters,
        List.nil_append, List.cons_append, elements_node, ih, List.map_cons]

/-- The children that stand on lines of their own. -/
theorem mapM_elements {α β : Type} {read : Xml.Node → Option β} {g : α → Xml.Markup}
    {value : α → β} (hg : ∀ a, read (g a).node = some (value a)) (l : List α)
    (before rest : Text) :
    (elements (Xml.Markup.nodes (l.map fun a => (before, g a)) ++ Xml.characters rest)).mapM read =
      some (l.map value) := by
  rw [elements_nodes]
  induction l with
  | nil => rfl
  | cons a l ih => rw [List.map_cons, List.mapM_cons, hg, ih]; rfl

theorem readResult_node (records : List Record) :
    readResult (tree records).node = some (records.map (List.map seen)) := by
  have hrow : ∀ cells, readRow (rowMarkup cells).node = some (cells.map seen) := by
    intro cells
    rw [rowMarkup, Xml.Markup.node]
    exact mapM_elements readCell_node cells _ _
  rw [tree, Xml.Markup.node]
  exact mapM_elements hrow records _ _

theorem allowed_children {α : Type} {before : Text} (h : Xml.Allowed before) (l : List α)
    (g : α → Xml.Markup) :
    (∀ t ∈ Xml.Markup.textsOfChildren (l.map fun a => (before, g a)), Xml.Allowed t) ↔
      ∀ a ∈ l, ∀ t ∈ (g a).texts, Xml.Allowed t := by
  induction l with
  | nil => simp [Xml.Markup.textsOfChildren]
  | cons a l ih =>
      rw [List.map_cons, Xml.Markup.textsOfChildren, List.forall_mem_cons, List.forall_mem_append,
        ih, List.forall_mem_cons]
      exact and_iff_right h

/-- What is written of a cell are characters of a document. -/
def Written (c : Text × Option Text) : Prop :=
  Xml.Allowed c.1 ∧ ∀ t ∈ c.2, Xml.Allowed t

theorem allowed_cell (c : Text × Option Text) :
    (∀ t ∈ (cellMarkup c).texts, Xml.Allowed t) ↔ Written c := by
  obtain ⟨name, o⟩ := c
  cases o with
  | none =>
      have htrue : Xml.Allowed (text "true") := by decide
      rw [cellMarkup, Xml.Markup.texts]
      simp [Written, htrue]
  | some t =>
      rw [cellMarkup, Xml.Markup.texts, Xml.Markup.textsOfChildren]
      simp [Written]

theorem allowed_tree (records : List Record) :
    (∀ t ∈ (tree records).texts, Xml.Allowed t) ↔ ∀ cells ∈ records, ∀ c ∈ cells, Written c := by
  have hbreak : Xml.Allowed (text "\n  ") := by decide
  have hrow : ∀ cells, (∀ t ∈ (rowMarkup cells).texts, Xml.Allowed t) ↔ ∀ c ∈ cells, Written c := by
    intro cells
    have hindent : Xml.Allowed (newline :: ColumnIndent) := by decide
    rw [rowMarkup, Xml.Markup.texts, List.map_nil, List.nil_append, List.forall_mem_append,
      allowed_children hindent, List.forall_mem_singleton]
    simp only [allowed_cell]
    exact and_iff_left hbreak
  rw [tree, Xml.Markup.texts, List.map_nil, List.nil_append, List.forall_mem_append,
    allowed_children hbreak, List.forall_mem_singleton]
  simp only [hrow]
  exact and_iff_left (by decide)

theorem map_eq_self_iff {α : Type} {f : α → α} {l : List α} : l.map f = l ↔ ∀ a ∈ l, f a = a := by
  induction l with
  | nil => simp
  | cons a l ih => rw [List.map_cons, List.cons.injEq, ih, List.forall_mem_cons]

/-- A document is read as it was written if and only if that is so of every cell. -/
theorem parse_tree (records : List Record) :
    ((Xml.parse (Xml.document escapeUnit (tree records))).bind readResult = some records) ↔
      ∀ cells ∈ records, ∀ c ∈ cells, Written c ∧ seen c = c := by
  rw [Xml.parse_document escapes]
  split
  · next h =>
      rw [allowed_tree] at h
      rw [Option.bind_some, readResult_node, Option.some_inj, map_eq_self_iff]
      refine forall₂_congr fun cells hcells => ?_
      rw [map_eq_self_iff]
      exact forall₂_congr fun c hc => (and_iff_right (h cells hcells c hc)).symm
  · next h =>
      rw [allowed_tree] at h
      refine iff_of_false (by simp) fun hall => h ?_
      exact fun cells hcells c hc => (hall cells hcells c hc).1

/-! ### What survives -/

/-- The characters of a document, but no carriage return. -/
def TextSafe (t : Text) : Prop :=
  Xml.Allowed t ∧ 13 ∉ t

/-- Nor white space other than the blank. -/
def NameSafe (t : Text) : Prop :=
  TextSafe t ∧ 9 ∉ t ∧ newline ∉ t

instance (t : Text) : Decidable (TextSafe t) :=
  inferInstanceAs (Decidable (_ ∧ _))

instance (t : Text) : Decidable (NameSafe t) :=
  inferInstanceAs (Decidable (_ ∧ _))

theorem not_mem_normalizeNewlines (r : Bool) (t : Text) : 13 ∉ newlinesFrom r t := by
  induction t generalizing r with
  | nil => exact List.not_mem_nil
  | cons c t ih =>
      rw [newlinesFrom]
      split
      · exact List.not_mem_cons_of_ne_of_not_mem (by decide) (ih true)
      · next hc =>
          split
          · exact ih false
          · exact List.not_mem_cons_of_ne_of_not_mem (Ne.symm hc) (ih false)

theorem normalizeNewlines_eq_self {t : Text} : normalizeNewlines t = t ↔ 13 ∉ t := by
  constructor
  · intro h
    rw [← h]
    exact not_mem_normalizeNewlines false t
  · intro h
    have hplain := normalizeNewlines_append (w := t) (u := []) fun c hc hreturn => h (hreturn ▸ hc)
    rw [List.append_nil] at hplain
    rw [hplain]
    exact List.append_nil t

theorem whiteToBlank_ne (c : CodeUnit) : Xml.whiteToBlank c ≠ 13 ∧ Xml.whiteToBlank c ≠ 9 ∧
    Xml.whiteToBlank c ≠ newline := by
  rw [Xml.whiteToBlank]
  split
  · decide
  · next h =>
      obtain ⟨h9, h10, h13, -⟩ : c ≠ 9 ∧ c ≠ 10 ∧ c ≠ 13 ∧ c ≠ 32 := by
        simpa [Xml.isWhite, and_assoc] using h
      exact ⟨h13, h9, h10⟩

theorem attributeText_eq_self {t : Text} :
    Xml.attributeText t = t ↔ 13 ∉ t ∧ 9 ∉ t ∧ newline ∉ t := by
  constructor
  · intro h
    rw [← h]
    have hmem : ∀ c ∈ Xml.attributeText t, ∃ d, Xml.whiteToBlank d = c := by
      intro c hc
      obtain ⟨d, -, hd⟩ := List.mem_map.mp hc
      exact ⟨d, hd⟩
    refine ⟨fun hc => ?_, fun hc => ?_, fun hc => ?_⟩ <;> obtain ⟨d, hd⟩ := hmem _ hc
    · exact (whiteToBlank_ne d).1 hd
    · exact (whiteToBlank_ne d).2.1 hd
    · exact (whiteToBlank_ne d).2.2 hd
  · rintro ⟨hreturn, htab, hline⟩
    rw [Xml.attributeText, normalizeNewlines_eq_self.mpr hreturn, map_eq_self_iff]
    intro c hc
    have hne : ∀ d, d ∉ t → c ≠ d := fun d hd heq => hd (heq ▸ hc)
    have h13 := hne 13 hreturn
    have h9 := hne 9 htab
    have h10 : c ≠ 10 := hne newline hline
    rw [Xml.whiteToBlank, Xml.isWhite]
    split
    · next h =>
        simp only [h9, h10, h13, beq_iff_eq, Bool.or_eq_true, false_or] at h
        exact h.symm
    · rfl

theorem written_iff (c : Text × Option Text) :
    Written c ∧ seen c = c ↔ NameSafe c.1 ∧ ∀ t ∈ c.2, TextSafe t := by
  obtain ⟨name, o⟩ := c
  rw [seen, Prod.mk.injEq, attributeText_eq_self, Written, NameSafe, TextSafe]
  cases o with
  | none => simp [and_assoc]
  | some t =>
      simp [TextSafe, normalizeNewlines_eq_self]
      tauto

/-! ### Cells that survive -/

mutual

/-- No string in the value has one of the two units that are never part of a character. -/
def Printable : CellValue → Prop
  | .null => True
  | .bool _ => True
  | .string t => ∀ c ∈ t, c ≠ 0xFFFE ∧ c ≠ 0xFFFF
  | .array items => PrintableItems items
  | .record fields => PrintableFields fields

def PrintableItems : List CellValue → Prop
  | [] => True
  | v :: items => Printable v ∧ PrintableItems items

def PrintableFields : List (Text × CellValue) → Prop
  | [] => True
  | (name, v) :: fields =>
      (∀ c ∈ name, c ≠ 0xFFFE ∧ c ≠ 0xFFFF) ∧ Printable v ∧ PrintableFields fields

end

/-- The texts of a cell that are written as they are have no character that is lost. -/
def CellSafe (column : QueryColumn) (value : CellValue) : Prop :=
  match column.logicalType with
  | .text | .enumeration | .time => ∀ t ∈ value.asText, TextSafe t
  | .asset | .extended_asset =>
      ∀ a ∈ AssetCell.safeParse value, TextSafe a.symbol ∧ ∀ t ∈ a.contract, TextSafe t
  | .json => Printable value
  | .integer | .decimal | .boolean | .ieee_hex => True

/-- A unit that is safe wherever it stands. -/
def isPrinted (c : CodeUnit) : Bool := Xml.isPlain c && c != 13

theorem textSafe_plain_append {w u : Text} (hw : ∀ c ∈ w, isPrinted c = true) :
    TextSafe (w ++ u) ↔ TextSafe u := by
  simp only [isPrinted, Bool.and_eq_true, bne_iff_ne] at hw
  have hreturn : 13 ∉ w := fun hmem => (hw 13 hmem).2 rfl
  rw [TextSafe, TextSafe, Xml.allowed_plain_append fun c hc => (hw c hc).1, List.mem_append, not_or]
  tauto

theorem textSafe_append_cons {c : CodeUnit} (t u : Text) (hc : isPrinted c = true) :
    TextSafe (t ++ c :: u) ↔ TextSafe t ∧ TextSafe u := by
  have hcons : TextSafe (c :: u) ↔ TextSafe u :=
    textSafe_plain_append (w := [c]) (by simpa using hc)
  have hplain : Xml.isPlain c = true := by
    simp only [isPrinted, Bool.and_eq_true] at hc
    exact hc.1
  rw [← hcons, TextSafe, TextSafe, TextSafe, Xml.allowed_append_cons _ _ hplain, List.mem_append,
    not_or]
  tauto

theorem textSafe_of_printed {w : Text} (hw : ∀ c ∈ w, isPrinted c = true) : TextSafe w := by
  have happend := (textSafe_plain_append (u := []) hw).mpr (by decide)
  rwa [List.append_nil] at happend

theorem isHighSurrogate_eq (c : CodeUnit) : Json.isHighSurrogate c = Utf8.isHigh c := by
  rw [Bool.eq_iff_iff, Utf8.isHigh_iff]
  simp only [Json.isHighSurrogate, Bool.and_eq_true, decide_eq_true_eq, UInt16.le_iff_toNat_le,
    UInt16.reduceToNat]
  omega

theorem isLowSurrogate_eq (c : CodeUnit) : Json.isLowSurrogate c = Utf8.isLow c := by
  rw [Bool.eq_iff_iff, Utf8.isLow_iff]
  simp only [Json.isLowSurrogate, Bool.and_eq_true, decide_eq_true_eq, UInt16.le_iff_toNat_le,
    UInt16.reduceToNat]
  omega

/-- The two units that are never part of a character. -/
theorem ne_noncharacters_iff {c : CodeUnit} :
    c ≠ 0xFFFE ∧ c ≠ 0xFFFF ↔ c.toNat ≤ 0xFFFD := by
  have hlt : c.toNat < 65536 := c.toNat_lt
  rw [ne_eq, ne_eq, ← UInt16.toNat_inj, ← UInt16.toNat_inj]
  simp only [UInt16.reduceToNat]
  omega

theorem hexDigit_printed : ∀ n < 16, isPrinted (Json.hexDigit n) = true := by
  decide

theorem unicodeEscape_printed (c : CodeUnit) : ∀ d ∈ Json.unicodeEscape c, isPrinted d = true := by
  have hlt : c.toNat < 65536 := c.toNat_lt
  have hdigit := hexDigit_printed
  simp only [Json.unicodeEscape, List.forall_mem_cons]
  exact ⟨by decide, by decide, hdigit _ (by omega), hdigit _ (by omega), hdigit _ (by omega),
    hdigit _ (by omega), by simp⟩

/-- A unit of a string in JSON. -/
theorem textSafe_escapeUnit (c : CodeUnit) (u : Text) :
    TextSafe (Json.escapeUnit c ++ u) ↔ (c ≠ 0xFFFE ∧ c ≠ 0xFFFF) ∧ TextSafe u := by
  have hsimple : ∀ (d : CodeUnit) (w : Text), c = d → d.toNat ≤ 0xFFFD →
      (∀ e ∈ w, isPrinted e = true) →
      (TextSafe (w ++ u) ↔ (c ≠ 0xFFFE ∧ c ≠ 0xFFFF) ∧ TextSafe u) := by
    rintro d w rfl hd hw
    rw [textSafe_plain_append hw, ne_noncharacters_iff]
    exact (and_iff_right hd).symm
  unfold Json.escapeUnit
  split_ifs with hquote hback hb hf hn hr ht hescape
  · exact hsimple _ _ hquote (by decide) (by decide)
  · exact hsimple _ _ hback (by decide) (by decide)
  · exact hsimple _ _ hb (by decide) (by decide)
  · exact hsimple _ _ hf (by decide) (by decide)
  · exact hsimple _ _ hn (by decide) (by decide)
  · exact hsimple _ _ hr (by decide) (by decide)
  · exact hsimple _ _ ht (by decide) (by decide)
  · refine hsimple c _ rfl ?_ (unicodeEscape_printed c)
    simp only [isHighSurrogate_eq, isLowSurrogate_eq, Bool.or_eq_true, decide_eq_true_eq,
      Utf8.isHigh_iff, Utf8.isLow_iff, UInt16.lt_iff_toNat_lt, UInt16.reduceToNat] at hescape
    omega
  · simp only [isHighSurrogate_eq, isLowSurrogate_eq, Bool.or_eq_true, decide_eq_true_eq, not_or,
      UInt16.lt_iff_toNat_lt, UInt16.reduceToNat, Bool.not_eq_true, not_lt] at hescape
    by_cases hnon : c.toNat ≤ 0xFFFD
    · refine hsimple c [c] rfl hnon ?_
      have hchar : Xml.isChar c = true := by
        simp only [Xml.isChar, Bool.or_eq_true, Bool.and_eq_true, decide_eq_true_eq]
        omega
      simp [isPrinted, Xml.isPlain, hescape.1.2, hescape.2, hchar, hr]
    · rw [ne_noncharacters_iff]
      refine iff_of_false (fun h => ?_) fun h => hnon h.1
      have hchar := h.1.2 c (by simp)
      simp only [Xml.isChar, Bool.or_eq_true, Bool.and_eq_true, decide_eq_true_eq, beq_iff_eq]
        at hchar
      rcases hchar with ((rfl | rfl) | rfl) | hrange
      · exact hnon (by decide)
      · exact hnon (by decide)
      · exact hnon (by decide)
      · exact hnon hrange.2

theorem textSafe_cons {c : CodeUnit} (u : Text) (hc : isPrinted c = true) :
    TextSafe (c :: u) ↔ TextSafe u :=
  textSafe_plain_append (w := [c]) (by simpa using hc)

/-- Two halves of a character. -/
theorem textSafe_pair {c d : CodeUnit} (u : Text) (hc : Utf8.isHigh c = true)
    (hd : Utf8.isLow d = true) :
    TextSafe (c :: d :: u) ↔
      ((c ≠ 0xFFFE ∧ c ≠ 0xFFFF) ∧ d ≠ 0xFFFE ∧ d ≠ 0xFFFF) ∧ TextSafe u := by
  rw [Utf8.isHigh_iff] at hc
  rw [Utf8.isLow_iff] at hd
  have hchars : ∀ e : CodeUnit, 0xD800 ≤ e.toNat → e.toNat < 0xE000 →
      Xml.isChar e = true ∧ 13 ≠ e := by
    intro e hlow hhigh
    refine ⟨?_, ?_⟩
    · simp only [Xml.isChar, Bool.or_eq_true, Bool.and_eq_true, decide_eq_true_eq]
      omega
    · rintro rfl
      exact absurd hlow (by decide)
  have hcchar := hchars c (by omega) (by omega)
  have hdchar := hchars d (by omega) (by omega)
  have hwf : Utf8.WellFormed (c :: d :: u) ↔ Utf8.WellFormed u := by
    rw [Utf8.wellFormed_cons, if_pos (Utf8.isHigh_iff.mpr hc), List.tail_cons, List.head?_cons,
      Option.any_some]
    exact and_iff_right (Utf8.isLow_iff.mpr hd)
  rw [ne_noncharacters_iff, ne_noncharacters_iff, TextSafe, TextSafe, Xml.Allowed, Xml.Allowed, hwf,
    List.forall_mem_cons, List.forall_mem_cons, List.mem_cons, List.mem_cons]
  have hle : c.toNat ≤ 0xFFFD ∧ d.toNat ≤ 0xFFFD := by omega
  constructor
  · rintro ⟨⟨hu, -, -, hrest⟩, hreturn⟩
    exact ⟨hle, ⟨hu, hrest⟩, fun h => hreturn (Or.inr (Or.inr h))⟩
  · rintro ⟨-, ⟨hu, hrest⟩, hreturn⟩
    refine ⟨⟨hu, hcchar.1, hdchar.1, hrest⟩, ?_⟩
    rintro (heq | heq | hmem)
    · exact hcchar.2 heq
    · exact hdchar.2 heq
    · exact hreturn hmem

/-- What is printed of a string, up to its closing quote. -/
theorem textSafe_escape : ∀ (t u : Text), TextSafe (Json.escape t ++ 34 :: u) ↔
    (∀ c ∈ t, c ≠ 0xFFFE ∧ c ≠ 0xFFFF) ∧ TextSafe u
  | [], u => by
      rw [Json.escape, List.nil_append, textSafe_cons u (by decide)]
      simp
  | [c], u => by
      rw [Json.escape, textSafe_escapeUnit, textSafe_cons u (by decide), List.forall_mem_singleton]
  | c :: d :: t, u => by
      rw [Json.escape]
      split_ifs with hpair
      · rw [Bool.and_eq_true, isHighSurrogate_eq, isLowSurrogate_eq] at hpair
        rw [List.cons_append, List.cons_append, textSafe_pair _ hpair.1 hpair.2,
          textSafe_escape t u, List.forall_mem_cons, List.forall_mem_cons]
        tauto
      · rw [List.append_assoc, textSafe_escapeUnit, textSafe_escape (d :: t) u,
          List.forall_mem_cons (l := d :: t)]
        simp only [and_assoc]

theorem textSafe_quote (t u : Text) : TextSafe (Json.quote t ++ u) ↔
    (∀ c ∈ t, c ≠ 0xFFFE ∧ c ≠ 0xFFFF) ∧ TextSafe u := by
  have hquote : Json.quote t ++ u = 34 :: (Json.escape t ++ 34 :: u) := by
    simp [Json.quote]
  rw [hquote, textSafe_cons _ (by decide), textSafe_escape]

/-- The items of a list, the comma in front of the first left out. -/
theorem textSafe_tail {w u : Text} (hw : w = [] ∨ ∃ v, w = 44 :: v) :
    TextSafe (w.tail ++ u) ↔ TextSafe (w ++ u) := by
  rcases hw with rfl | ⟨v, rfl⟩
  · rfl
  · rw [List.tail_cons, List.cons_append, textSafe_cons _ (by decide)]

theorem stringifyItems_cases (items : List CellValue) :
    CellValue.stringifyItems items = [] ∨ ∃ v, CellValue.stringifyItems items = 44 :: v := by
  cases items with
  | nil => exact Or.inl (by rw [CellValue.stringifyItems])
  | cons v items => exact Or.inr ⟨_, by rw [CellValue.stringifyItems]⟩

theorem stringifyFields_cases (fields : List (Text × CellValue)) :
    CellValue.stringifyFields fields = [] ∨ ∃ v, CellValue.stringifyFields fields = 44 :: v := by
  cases fields with
  | nil => exact Or.inl (by rw [CellValue.stringifyFields])
  | cons f fields => exact Or.inr ⟨_, by rw [CellValue.stringifyFields]⟩

mutual

theorem textSafe_stringify : ∀ (v : CellValue) (u : Text),
    TextSafe (v.stringify ++ u) ↔ Printable v ∧ TextSafe u
  | .null, u => by
      rw [CellValue.stringify, Printable, true_and]
      exact textSafe_plain_append (by decide)
  | .bool true, u => by
      rw [CellValue.stringify, Printable, true_and]
      exact textSafe_plain_append (by decide)
  | .bool false, u => by
      rw [CellValue.stringify, Printable, true_and]
      exact textSafe_plain_append (by decide)
  | .string t, u => by rw [CellValue.stringify, textSafe_quote, Printable]
  | .array items, u => by
      rw [CellValue.stringify, Printable, List.cons_append, textSafe_cons _ (by decide),
        List.append_assoc, textSafe_tail (stringifyItems_cases items), textSafe_items,
        List.singleton_append, textSafe_cons _ (by decide)]
  | .record fields, u => by
      rw [CellValue.stringify, Printable, List.cons_append, textSafe_cons _ (by decide),
        List.append_assoc, textSafe_tail (stringifyFields_cases fields), textSafe_fields,
        List.singleton_append, textSafe_cons _ (by decide)]

theorem textSafe_items : ∀ (items : List CellValue) (u : Text),
    TextSafe (CellValue.stringifyItems items ++ u) ↔ PrintableItems items ∧ TextSafe u
  | [], u => by rw [CellValue.stringifyItems, PrintableItems, List.nil_append, true_and]
  | v :: items, u => by
      rw [CellValue.stringifyItems, PrintableItems, List.cons_append, textSafe_cons _ (by decide),
        List.append_assoc, textSafe_stringify v, textSafe_items items, and_assoc]

theorem textSafe_fields : ∀ (fields : List (Text × CellValue)) (u : Text),
    TextSafe (CellValue.stringifyFields fields ++ u) ↔ PrintableFields fields ∧ TextSafe u
  | [], u => by rw [CellValue.stringifyFields, PrintableFields, List.nil_append, true_and]
  | (name, v) :: fields, u => by
      rw [CellValue.stringifyFields, PrintableFields, List.cons_append,
        textSafe_cons _ (by decide), List.append_assoc, textSafe_quote, List.cons_append,
        textSafe_cons _ (by decide), List.append_assoc, textSafe_stringify v,
        textSafe_fields fields, and_assoc, and_assoc]

end

/-! ### Numbers -/

theorem isPrinted_of_ascii {c : CodeUnit} (h : Xml.isAscii c = true) : isPrinted c = true := by
  simp [isPrinted, Xml.isPlain_of_ascii h, (Xml.isAscii_plain h).1]

theorem isPrinted_of_range {c low high : CodeUnit} (h : (low ≤ c && c ≤ high) = true)
    (hlow : 0x20 < low.toNat) (hhigh : high.toNat < 0x80) : isPrinted c = true := by
  simp only [Bool.and_eq_true, decide_eq_true_eq, UInt16.le_iff_toNat_le] at h
  exact isPrinted_of_ascii (Xml.isAscii_iff.mpr (by omega))

theorem isPrinted_of_digit {c : CodeUnit} (h : isDigit c = true) : isPrinted c = true :=
  isPrinted_of_range h (by decide) (by decide)

theorem isPrinted_of_hex {c : CodeUnit} (h : (Json.hexValue c).isSome = true) :
    isPrinted c = true := by
  rw [Json.hexValue] at h
  split at h
  · next hdigit => exact isPrinted_of_digit hdigit
  · split at h
    · next hlower => exact isPrinted_of_range hlower (by decide) (by decide)
    · split at h
      · next hupper => exact isPrinted_of_range hupper (by decide) (by decide)
      · cases h

open QueryResultPatterns

theorem printed_unsignedDecimal {t : Text} (h : unsignedDecimal t = true) :
    ∀ c ∈ t, isPrinted c = true :=
  fun c hc => isPrinted_of_digit (isDigit_of_unsignedDecimal h c hc)

theorem printed_unsign {t : Text} (h : ∀ c ∈ unsign t, isPrinted c = true) :
    ∀ c ∈ t, isPrinted c = true := by
  cases t with
  | nil => exact h
  | cons c t =>
      rw [unsign] at h
      split at h
      · next hc =>
          rw [List.forall_mem_cons, hc]
          exact ⟨by decide, h⟩
      · exact h

theorem printed_signedInteger {t : Text} (h : signedInteger t = true) :
    ∀ c ∈ t, isPrinted c = true :=
  printed_unsign (printed_unsignedDecimal h)

theorem printed_fraction {t : Text} (h : fraction t = true) : ∀ c ∈ t, isPrinted c = true := by
  cases t with
  | nil => exact fun c hc => absurd hc List.not_mem_nil
  | cons c t =>
      simp only [fraction, Bool.and_eq_true, beq_iff_eq, List.all_eq_true] at h
      rw [List.forall_mem_cons, h.1.1]
      exact ⟨by decide, fun d hd => isPrinted_of_digit (h.2 d hd)⟩

theorem printed_signedDecimal {t : Text} (h : signedDecimal t = true) :
    ∀ c ∈ t, isPrinted c = true := by
  rw [signedDecimal, Bool.and_eq_true] at h
  refine printed_unsign ?_
  rw [← List.takeWhile_append_dropWhile (p := fun c => decide (c ≠ 46)) (l := unsign t),
    List.forall_mem_append]
  exact ⟨printed_unsignedDecimal h.1, printed_fraction h.2⟩

theorem printed_hexPairs : ∀ {t : Text}, hexPairs t = true → ∀ c ∈ t, isPrinted c = true
  | [], _ => fun c hc => absurd hc List.not_mem_nil
  | [_], h => by cases h
  | c :: d :: t, h => by
      simp only [hexPairs, Bool.and_eq_true] at h
      rw [List.forall_mem_cons, List.forall_mem_cons]
      exact ⟨isPrinted_of_hex h.1.1, isPrinted_of_hex h.1.2, printed_hexPairs h.2⟩

theorem printed_ieeeHex {t : Text} (h : ieeeHex t = true) : ∀ c ∈ t, isPrinted c = true := by
  match t with
  | [] => cases h
  | [_] => cases h
  | c :: x :: t =>
      simp only [ieeeHex, Bool.and_eq_true, Bool.or_eq_true, beq_iff_eq] at h
      rw [List.forall_mem_cons, List.forall_mem_cons, h.1.1.1]
      refine ⟨by decide, ?_, printed_hexPairs h.2⟩
      rcases h.1.1.2 with rfl | rfl <;> decide

theorem textSafe_formatWhere {column : QueryColumn} {value : CellValue} {pattern : Text → Bool}
    {t : Text} (hpattern : ∀ t, pattern t = true → ∀ c ∈ t, isPrinted c = true)
    (h : formatWhere column value pattern = .ok t) : TextSafe t := by
  rw [formatWhere] at h
  split at h
  · split at h
    · next hmatch => exact Except.ok.inj h ▸ textSafe_of_printed (hpattern _ hmatch)
    · cases h
  · cases h

/-! ### Assets -/

theorem printed_padAssetFraction {amount : Text} (h : ∀ c ∈ amount, isPrinted c = true) (n : ℕ) :
    ∀ c ∈ padAssetFraction amount n, isPrinted c = true := by
  have hinteger : ∀ c ∈ integerPart amount, isPrinted c = true :=
    fun c hc => h c ((List.takeWhile_prefix _).mem hc)
  have hfraction : ∀ c ∈ fractionPart amount, isPrinted c = true := by
    intro c hc
    have hdrop := List.mem_of_mem_drop ((List.takeWhile_prefix _).mem hc)
    exact h c ((List.dropWhile_suffix _).mem hdrop)
  have hpad : ∀ c ∈ padEnd (fractionPart amount) n, isPrinted c = true := by
    rw [padEnd, List.forall_mem_append]
    refine ⟨hfraction, fun c hc => ?_⟩
    rw [List.eq_of_mem_replicate hc]
    decide
  rw [padAssetFraction]
  split
  · exact hinteger
  · rw [List.forall_mem_append, List.forall_mem_cons]
    exact ⟨hinteger, by decide, hpad⟩

theorem textSafe_formatAsset {column : QueryColumn} {value : CellValue} {a : AssetCell} {t : Text}
    (ha : AssetCell.safeParse value = some a) (h : formatAsset column value = .ok t) :
    TextSafe t ↔ TextSafe a.symbol ∧ ∀ u ∈ a.contract, TextSafe u := by
  have hamount := printed_padAssetFraction (printed_signedDecimal (amount_of_safeParse ha))
    (padLength a.precision)
  have hquantity : ∀ u : Text,
      TextSafe (padAssetFraction a.amount (padLength a.precision) ++ blank :: u) ↔ TextSafe u := by
    intro u
    rw [textSafe_plain_append hamount, textSafe_cons _ (by decide)]
  rw [formatAsset, assertAsset, ha] at h
  dsimp only at h
  cases hcontract : a.contract with
  | none =>
      rw [hcontract] at h
      dsimp only at h
      split at h
      · cases h
      · rw [← Except.ok.inj h, hquantity]
        simp
  | some contract =>
      rw [hcontract] at h
      rw [← Except.ok.inj h, textSafe_append_cons _ _ (by decide), hquantity]
      simp

/-! ### Cells -/

theorem textSafe_canonical {b : Builtins} {column : QueryColumn} {value : CellValue} {t : Text}
    (hnull : ¬value.isNull = true) (h : canonical b column value = .ok t) :
    TextSafe t ↔ CellSafe column value := by
  rw [canonical, format, if_neg hnull] at h
  rw [CellSafe]
  have htext : formatText column value .canonical = .ok t →
      (TextSafe t ↔ ∀ u ∈ value.asText, TextSafe u) := by
    intro h
    rw [formatText] at h
    split at h
    · next u hu =>
        rw [← Except.ok.inj h, hu]
        simp
    · cases h
  have hasset : formatAsset column value = .ok t → (TextSafe t ↔
      ∀ a ∈ AssetCell.safeParse value, TextSafe a.symbol ∧ ∀ u ∈ a.contract, TextSafe u) := by
    intro h
    cases ha : AssetCell.safeParse value with
    | none =>
        rw [formatAsset, assertAsset, ha] at h
        cases h
    | some a =>
        rw [textSafe_formatAsset ha h]
        simp
  cases hl : column.logicalType with
  | integer =>
      rw [hl] at h
      exact iff_of_true (textSafe_formatWhere (fun _ => printed_signedInteger) h) trivial
  | decimal =>
      rw [hl] at h
      exact iff_of_true (textSafe_formatWhere (fun _ => printed_signedDecimal) h) trivial
  | boolean =>
      rw [hl] at h
      refine iff_of_true ?_ trivial
      dsimp only at h
      rw [formatBoolean] at h
      split at h
      · exact Except.ok.inj h ▸ by decide
      · exact Except.ok.inj h ▸ by decide
      · cases h
  | text =>
      rw [hl] at h
      exact htext h
  | time =>
      rw [hl] at h
      exact htext h
  | enumeration =>
      rw [hl] at h
      exact htext h
  | asset =>
      rw [hl] at h
      exact hasset h
  | extended_asset =>
      rw [hl] at h
      exact hasset h
  | json =>
      rw [hl] at h
      have hstringify := textSafe_stringify value []
      rw [List.append_nil, Except.ok.inj h] at hstringify
      exact hstringify.trans (and_iff_left (by decide))
  | ieee_hex =>
      rw [hl] at h
      refine iff_of_true ?_ trivial
      obtain ⟨hex, hhex, rfl⟩ := except_map_eq_ok h
      exact textSafe_formatWhere (fun _ => printed_ieeeHex) hhex

theorem cellSafe_of_null (column : QueryColumn) {value : CellValue} (h : value.isNull = true) :
    CellSafe column value := by
  cases value with
  | null =>
      rw [CellSafe]
      cases column.logicalType <;> simp [CellValue.asText, AssetCell.safeParse, Printable]
  | _ => cases h

theorem textSafe_content {b : Builtins} {column : QueryColumn} {value : CellValue}
    {o : Option Text} (h : content b column value = .ok o) :
    (∀ t ∈ o, TextSafe t) ↔ CellSafe column value := by
  rw [content] at h
  split at h
  · next hnull =>
      rw [← Except.ok.inj h]
      exact iff_of_true (by simp) (cellSafe_of_null column hnull)
  · next hnull =>
      obtain ⟨t, ht, rfl⟩ := except_map_eq_ok h
      rw [← textSafe_canonical hnull ht]
      simp

/-! ### Pages that are read back -/

/-- A parser finds, in every row, the names of the columns and the canonical texts of the cells. -/
def ReadsBack (escape : Text → Text) (b : Builtins) (columns : List QueryColumn)
    (rows : List QueryRow) : Prop :=
  ∃ t grid, render escape b columns rows = .ok t ∧ contents b columns rows = .ok grid ∧
    (Xml.parse t).bind readResult = some (recordsOf columns grid)

section pages

variable {escape : Text → Text} {b : Builtins} {columns : List QueryColumn}

theorem safe_row_iff {r : QueryRow} {cells : List (Option Text)}
    (h : List.Forall₂ (fun column o => content b column (r column.name) = .ok o) columns cells) :
    (∀ c ∈ (columns.map QueryColumn.name).zip cells, Written c ∧ seen c = c) ↔
      ∀ column ∈ columns, NameSafe column.name ∧ CellSafe column (r column.name) := by
  induction h with
  | nil => simp
  | cons hcell _ ih =>
      rw [List.map_cons, List.zip_cons_cons, List.forall_mem_cons, List.forall_mem_cons, ih,
        written_iff, textSafe_content hcell]

theorem safe_rows_iff {rows : List QueryRow} {grid : List (List (Option Text))}
    (h : contents b columns rows = .ok grid) :
    (∀ cells ∈ recordsOf columns grid, ∀ c ∈ cells, Written c ∧ seen c = c) ↔
      ∀ r ∈ rows, ∀ column ∈ columns, NameSafe column.name ∧ CellSafe column (r column.name) := by
  have hcells := DelimitedText.contents_iff.mp h
  clear h
  induction hcells with
  | nil => simp [recordsOf]
  | cons hrow _ ih =>
      rw [recordsOf, List.map_cons, List.forall_mem_cons, List.forall_mem_cons]
      exact and_congr (safe_row_iff hrow) ih

/-- A page of valid cells is read back if and only if no name and no cell has a character that is
lost. -/
theorem readsBack_iff (hescape : ∀ t, escape t = t.flatMap escapeUnit) {rows : List QueryRow}
    (hvalid : ∀ column ∈ columns, ∀ r ∈ rows, matchesEncoding column (r column.name) = true) :
    ReadsBack escape b columns rows ↔
      ∀ r ∈ rows, ∀ column ∈ columns, NameSafe column.name ∧ CellSafe column (r column.name) := by
  obtain ⟨grid, hgrid, -, -⟩ := DelimitedText.contents_of_matches (b := b) hvalid
  rw [← safe_rows_iff hgrid, ← parse_tree]
  constructor
  · rintro ⟨t, grid', hrender, hgrid', hparse⟩
    rw [render_eq hescape hgrid] at hrender
    rw [hgrid] at hgrid'
    rw [Except.ok.inj hrender, Except.ok.inj hgrid']
    exact hparse
  · exact fun hparse => ⟨_, grid, render_eq hescape hgrid, hgrid, hparse⟩

end pages

/-- Markup in a name and in a cell, a cell that is NULL, and one that says so. -/
theorem readsBack_markup :
    ReadsBack (List.flatMap escapeUnit) ⟨List.map toLower, fun _ => []⟩
      [⟨text "a<b & \"c\"", .text, .text⟩, ⟨text "d", .text, .text⟩]
      [fun _ => .string (text "</column>\n\t'&amp;'"), fun _ => .null,
        fun _ => .string (text "NULL")] := by
  have hsafe : ∀ {t : Text} (name : Text), TextSafe t →
      CellSafe ⟨name, .text, .text⟩ (.string t) := by
    intro t name ht u hu
    cases hu
    exact ht
  refine (readsBack_iff (fun _ => rfl) ?_).mpr ?_
  · simp only [List.forall_mem_cons]
    exact ⟨⟨rfl, rfl, rfl, by simp⟩, ⟨rfl, rfl, rfl, by simp⟩, by simp⟩
  · have ha : NameSafe (text "a<b & \"c\"") := by decide
    have hd : NameSafe (text "d") := by decide
    have hmarkup : TextSafe (text "</column>\n\t'&amp;'") := by decide
    have hnull : TextSafe (text "NULL") := by decide
    simp only [List.forall_mem_cons]
    exact ⟨⟨⟨ha, hsafe _ hmarkup⟩, ⟨hd, hsafe _ hmarkup⟩, by simp⟩,
      ⟨⟨ha, cellSafe_of_null _ rfl⟩, ⟨hd, cellSafe_of_null _ rfl⟩, by simp⟩,
      ⟨⟨ha, hsafe _ hnull⟩, ⟨hd, hsafe _ hnull⟩, by simp⟩, by simp⟩

/-- No document has a control character. -/
theorem not_readsBack_control :
    ¬ReadsBack (List.flatMap escapeUnit) ⟨List.map toLower, fun _ => []⟩
      [⟨text "a", .text, .text⟩] [fun _ => .string [1]] := by
  rintro ⟨t, grid, hrender, hgrid, hparse⟩
  obtain rfl : [[some [1]]] = grid := Except.ok.inj hgrid
  rw [render_eq (fun _ => rfl) hgrid] at hrender
  rw [← Except.ok.inj hrender, parse_tree] at hparse
  have hsafe := (hparse _ List.mem_cons_self _ List.mem_cons_self).1.2 [1] rfl
  revert hsafe
  decide

end XmlResultRenderer

end WireTools
