import WireTools.DelimitedReaders
import WireTools.ResultView

/-! # Delimited exports

The rows of a page as comma-separated or tab-separated text.

* a `DelimitedDialect` has a separator, the text of a NULL cell and an escape; `field`, `record`,
  `header` and `render` write with any dialect;
* `content` is what a field says of its cell, the canonical text or NULL, and `contents` is the
  grid of a page;
* `exports_decode`: over at least one column, both documents are read back to the names and the
  grid.  Over no column a record is the empty line, which is also the record of one empty field
  (`no_columns_lost`). -/

namespace WireTools

open CellFormatter Outcome

/-- How one delimited format writes fields. -/
structure DelimitedDialect where
  separator : CodeUnit
  nullText : Text
  escape : Text → Text

/-- What a field holds of a cell, as it is written. -/
def DelimitedDialect.write (d : DelimitedDialect) : Option Text → Text
  | none => d.nullText
  | some t => d.escape t

namespace DelimitedText

/-- The units that force quoting. -/
def csvQuoteTrigger (c : CodeUnit) : Bool :=
  c == 34 || c == 44 || c == 13 || c == 10

def csvQuote : CodeUnit := 34

/-- The escapes in the order they are applied, the backslash first. -/
def tsvEscapes : List (CodeUnit × Text) :=
  [(92, [92, 92]), (9, [92, 116]), (10, [92, 110]), (13, [92, 114])]

def CsvDialect : DelimitedDialect where
  separator := 44
  nullText := []
  escape t :=
    if t.any csvQuoteTrigger then
      csvQuote :: (replaceAll csvQuote [csvQuote, csvQuote] t ++ [csvQuote])
    else t

def TsvDialect : DelimitedDialect where
  separator := 9
  nullText := [92, 78]
  escape t := tsvEscapes.foldl (fun escaped e => replaceAll e.1 e.2 escaped) t

variable (b : Builtins)

/-- One field: the NULL text, or the escaped canonical text of the cell. -/
def field (column : QueryColumn) (value : CellValue) (d : DelimitedDialect) :
    Except CellMismatch Text :=
  if value.isNull then .ok d.nullText else (canonical b column value).map d.escape

def record (columns : List QueryColumn) (row : QueryRow) (d : DelimitedDialect) :
    Except CellMismatch Text :=
  (columns.mapM fun column => field b column (row column.name) d).map (join [d.separator])

def header (columns : List QueryColumn) (d : DelimitedDialect) : Text :=
  join [d.separator] (columns.map fun column => d.escape column.name)

/-- The columns and rows of a view as a document. -/
def render (columns : List QueryColumn) (rows : List QueryRow) (withHeader : Bool)
    (d : DelimitedDialect) : Except CellMismatch Text :=
  (rows.mapM fun row => record b columns row d).map fun records =>
    terminated ((if withHeader then [header columns d] else []) ++ records)

/-! ### What a document says -/

/-- The canonical text of a cell, none for NULL. -/
def content (column : QueryColumn) (value : CellValue) : Except CellMismatch (Option Text) :=
  if value.isNull then .ok none else (canonical b column value).map some

/-- The cells of every row. -/
def contents (columns : List QueryColumn) (rows : List QueryRow) :
    Except CellMismatch (List (List (Option Text))) :=
  rows.mapM fun row => columns.mapM fun column => content b column (row column.name)

/-- The document of a grid. -/
def document (d : DelimitedDialect) (names : List Text) (grid : List (List (Option Text))) : Text :=
  terminated ((names.map some :: grid).map fun cells => join [d.separator] (cells.map d.write))

variable {b} {columns : List QueryColumn} {rows : List QueryRow} {row : QueryRow}
  {column : QueryColumn} {v : CellValue} {grid : List (List (Option Text))}
  {d : DelimitedDialect}

theorem content_of_matches (h : matchesEncoding column v = true) :
    ∃ o, content b column v = .ok o := by
  unfold content
  split
  · exact ⟨none, rfl⟩
  · exact except_map_returns some (ResultView.format_of_matches h .canonical)

/-- A field is written from what it holds. -/
theorem field_of_content {o : Option Text} (h : content b column v = .ok o) :
    field b column v d = .ok (d.write o) := by
  unfold content at h
  unfold field
  split at h
  · next hnull =>
      rw [if_pos hnull, ← Except.ok.inj h]
      rfl
  · next hnull =>
      obtain ⟨t, ht, rfl⟩ := except_map_eq_ok h
      rw [if_neg hnull, ht]
      rfl

theorem record_of_content {cells : List (Option Text)}
    (h : List.Forall₂ (fun column o => content b column (row column.name) = .ok o) columns cells) :
    record b columns row d = .ok (join [d.separator] (cells.map d.write)) := by
  have hfields : columns.mapM (fun column => field b column (row column.name) d) =
      .ok (cells.map d.write) := by
    rw [except_mapM_eq_ok, List.forall₂_map_right_iff]
    exact h.imp fun _ _ ho => field_of_content ho
  unfold record
  rw [hfields]
  rfl

theorem contents_iff : contents b columns rows = .ok grid ↔
    List.Forall₂ (fun row cells =>
      List.Forall₂ (fun column o => content b column (row column.name) = .ok o) columns cells)
      rows grid := by
  unfold contents
  rw [except_mapM_eq_ok]
  simp only [except_mapM_eq_ok]

/-- A document is written from the grid it shows. -/
theorem render_of_contents (h : contents b columns rows = .ok grid) :
    render b columns rows true d = .ok (document d (columns.map QueryColumn.name) grid) := by
  have hrecords : rows.mapM (fun row => record b columns row d) =
      .ok (grid.map fun cells => join [d.separator] (cells.map d.write)) := by
    rw [except_mapM_eq_ok, List.forall₂_map_right_iff]
    exact (contents_iff.mp h).imp fun _ _ hcells => record_of_content hcells
  have hheader : header columns d =
      join [d.separator] (((columns.map QueryColumn.name).map some).map d.write) := by
    rw [header, List.map_map, List.map_map]
    rfl
  unfold render
  rw [hrecords, hheader]
  rfl

/-- The grid of valid cells, as wide as the columns and as long as the rows. -/
theorem contents_of_matches (hvalid : ∀ column ∈ columns, ∀ row ∈ rows,
      matchesEncoding column (row column.name) = true) :
    ∃ grid, contents b columns rows = .ok grid ∧ grid.length = rows.length ∧
      ∀ cells ∈ grid, cells.length = columns.length := by
  obtain ⟨grid, hgrid⟩ : ∃ grid, contents b columns rows = .ok grid := by
    refine except_mapM_returns fun row hrow => ?_
    exact except_mapM_returns fun column hcolumn => content_of_matches (hvalid column hcolumn row hrow)
  have hcells := contents_iff.mp hgrid
  refine ⟨grid, hgrid, hcells.length_eq.symm, fun cells hmem => ?_⟩
  obtain ⟨i, hi, rfl⟩ := List.mem_iff_getElem.mp hmem
  have hrow := List.forall₂_iff_get.mp hcells
  exact (hrow.2 i (hrow.1 ▸ hi) hi).length_eq.symm

/-! ### Tab-separated values -/

/-- The replacements, one after the other, escape every unit by itself: none of them touches what
an earlier one has written. -/
theorem tsvEscape_eq (t : Text) : TsvDialect.escape t = Tabbed.escape t := by
  simp only [TsvDialect, tsvEscapes, List.foldl_cons, List.foldl_nil, replaceAll]
  rw [List.flatMap_assoc, List.flatMap_assoc, List.flatMap_assoc]
  unfold Tabbed.escape
  refine congrArg (fun f => t.flatMap f) (funext fun c => ?_)
  unfold Tabbed.escapeUnit backslash tab newline carriageReturn
  by_cases hb : c = 92
  · subst hb; decide
  · by_cases ht : c = 9
    · subst ht; decide
    · by_cases hn : c = 10
      · subst hn; decide
      · by_cases hr : c = 13
        · subst hr; decide
        · simp [hb, ht, hn, hr]

/-- A written field is read back, NULL as the missing value. -/
theorem tsvWrite_reads (o : Option Text) : Tabbed.Reads (TsvDialect.write o) o := by
  cases o with
  | none => exact Tabbed.reads_missing
  | some t =>
      rw [DelimitedDialect.write, tsvEscape_eq]
      exact Tabbed.reads_escape t

/-! ### Comma-separated values -/

/-- A written field is read back, quoted or not; NULL reads as the empty field. -/
theorem csvWrite_reads (o : Option Text) : Rfc4180.Reads (CsvDialect.write o) (o.getD []) := by
  cases o with
  | none => exact Rfc4180.reads_plain nofun
  | some t =>
      simp only [DelimitedDialect.write, CsvDialect, Option.getD_some]
      split
      · exact Rfc4180.reads_quoted t
      · next h =>
          apply Rfc4180.reads_plain
          intro c hc
          rw [List.any_eq_true] at h
          have hnone : ¬csvQuoteTrigger c = true := fun htrigger => h ⟨c, hc, htrigger⟩
          simp only [csvQuoteTrigger, Bool.or_eq_true, beq_iff_eq, not_or] at hnone
          simp only [Rfc4180.ordinary, Bool.and_eq_true, decide_eq_true_eq]
          exact ⟨⟨⟨hnone.1.1.2, hnone.1.1.1⟩, hnone.2⟩, hnone.1.2⟩

/-! ### Reading a document back -/

/-- A reader of records finds the grid of a document when it finds what every field holds. -/
theorem document_forall₂ {α : Type} {Reads : Text → α → Prop} {f : Option Text → α}
    (h : ∀ o, Reads (d.write o) (f o)) (rows : List (List (Option Text))) :
    List.Forall₂ (List.Forall₂ Reads) (rows.map (List.map d.write)) (rows.map (List.map f)) := by
  rw [List.forall₂_map_left_iff, List.forall₂_map_right_iff, List.forall₂_same]
  intro cells _
  rw [List.forall₂_map_left_iff, List.forall₂_map_right_iff, List.forall₂_same]
  exact fun o _ => h o

theorem document_eq (names : List Text) :
    document d names grid =
      terminated (((names.map some :: grid).map (List.map d.write)).map (join [d.separator])) := by
  rw [document, List.map_map]
  rfl

variable (hwide : ∀ cells ∈ grid, cells.length = columns.length) (hne : columns ≠ [])

include hwide hne in
/-- Every record of the document has a field. -/
theorem records_ne_nil : ∀ ws ∈
    (((columns.map QueryColumn.name).map some :: grid).map (List.map d.write)), ws ≠ [] := by
  rw [List.map_cons, List.forall_mem_cons]
  constructor
  · simpa using hne
  · intro ws hws
    obtain ⟨cells, hcells, rfl⟩ := List.mem_map.mp hws
    rw [ne_eq, List.map_eq_nil_iff, ← List.length_eq_zero_iff, hwide cells hcells,
      List.length_eq_zero_iff]
    exact hne

include hwide hne in
theorem tsv_read : Tabbed.read (document TsvDialect (columns.map QueryColumn.name) grid) =
    some ((columns.map QueryColumn.name).map some :: grid) := by
  have hrecords := document_forall₂ (d := TsvDialect) (f := id) tsvWrite_reads
    ((columns.map QueryColumn.name).map some :: grid)
  rw [List.map_id_fun, List.map_id_fun] at hrecords
  rw [document_eq]
  exact Tabbed.read_document hrecords (records_ne_nil hwide hne)

include hwide hne in
theorem csv_read : Rfc4180.read (document CsvDialect (columns.map QueryColumn.name) grid) =
    some (columns.map QueryColumn.name :: grid.map (List.map (Option.getD · []))) := by
  have hrecords := document_forall₂ (d := CsvDialect) (f := (Option.getD · [])) csvWrite_reads
    ((columns.map QueryColumn.name).map some :: grid)
  have hgrid : ((columns.map QueryColumn.name).map some :: grid).map (List.map (Option.getD · [])) =
      columns.map QueryColumn.name :: grid.map (List.map (Option.getD · [])) := by
    rw [List.map_cons, List.map_map]
    exact congrArg (· :: _) (List.map_id _)
  rw [hgrid] at hrecords
  rw [document_eq]
  exact Rfc4180.read_document hrecords (records_ne_nil hwide hne)

/-- Over at least one column, both exports of valid cells are read back. -/
theorem exports_decode (b : Builtins) {columns : List QueryColumn} {rows : List QueryRow}
    (hne : columns ≠ []) (hvalid : ∀ column ∈ columns, ∀ row ∈ rows,
      matchesEncoding column (row column.name) = true) :
    ∃ grid, contents b columns rows = .ok grid ∧ grid.length = rows.length ∧
      (∀ cells ∈ grid, cells.length = columns.length) ∧
      (∃ t, render b columns rows true TsvDialect = .ok t ∧
        Tabbed.read t = some ((columns.map QueryColumn.name).map some :: grid)) ∧
      ∃ t, render b columns rows true CsvDialect = .ok t ∧
        Rfc4180.read t =
          some (columns.map QueryColumn.name :: grid.map (List.map (Option.getD · []))) := by
  obtain ⟨grid, hgrid, hlong, hwide⟩ := contents_of_matches (b := b) hvalid
  refine ⟨grid, hgrid, hlong, hwide, ⟨_, render_of_contents hgrid, tsv_read hwide hne⟩, ?_⟩
  exact ⟨_, render_of_contents hgrid, csv_read hwide hne⟩

/-- A page whose every cell needs an escape, and one that is NULL. -/
theorem exports_decode_escapes :
    let b : Builtins := ⟨List.map toLower, fun _ => []⟩
    let columns : List QueryColumn := [⟨text "a,b", .text, .text⟩, ⟨[], .text, .text⟩]
    let rows : List QueryRow :=
      [fun name => .string (34 :: 13 :: 10 :: 9 :: 92 :: name), fun _ => .null]
    ∃ grid, contents b columns rows = .ok grid ∧ grid.length = rows.length ∧
      (∀ cells ∈ grid, cells.length = columns.length) ∧
      (∃ t, render b columns rows true TsvDialect = .ok t ∧
        Tabbed.read t = some ((columns.map QueryColumn.name).map some :: grid)) ∧
      ∃ t, render b columns rows true CsvDialect = .ok t ∧
        Rfc4180.read t =
          some (columns.map QueryColumn.name :: grid.map (List.map (Option.getD · []))) :=
  exports_decode _ (List.cons_ne_nil _ _) (by
    intro column hcolumn row hrow
    rcases List.mem_cons.mp hcolumn with rfl | hcolumn
    · rcases List.mem_cons.mp hrow with rfl | hrow
      · rfl
      · rw [List.mem_singleton.mp hrow]
        rfl
    · rw [List.mem_singleton.mp hcolumn]
      rcases List.mem_cons.mp hrow with rfl | hrow
      · rfl
      · rw [List.mem_singleton.mp hrow]
        rfl)

/-- Over no column neither reader finds that there is no name, and no other reader could: one
column without a name is written the same. -/
theorem no_columns_lost :
    let b : Builtins := ⟨List.map toLower, fun _ => []⟩
    contents b [] [] = .ok [] ∧
      (∃ t, render b [] [] true TsvDialect = .ok t ∧ Tabbed.read t ≠ some [[]] ∧
        render b [⟨[], .text, .text⟩] [] true TsvDialect = .ok t) ∧
      ∃ t, render b [] [] true CsvDialect = .ok t ∧ Rfc4180.read t ≠ some [[]] ∧
        render b [⟨[], .text, .text⟩] [] true CsvDialect = .ok t :=
  ⟨rfl, ⟨[newline], rfl, by decide, rfl⟩, ⟨[newline], rfl, by decide, rfl⟩⟩

end DelimitedText

end WireTools
