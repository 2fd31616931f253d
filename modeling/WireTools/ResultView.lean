import WireTools.CellOrder
import WireTools.Collections

/-! # A view of a result page

The sorted, filtered and projected rows of one page.

* `ResultView.create` reads every filter and every sort key before it sorts, so a cell that does
  not match its column, or a column that is not there, is an error and no view;
* `StablyOrdered` says what the order of a view is for: the rows that pass every filter, in the
  lexicographic order of the sorted columns, each in its direction and NULL last in both, and rows
  that tie in the order of the page;
* `create_ok`: on a valid page every view is made, and its order is the sort of the kept rows;
  `created_sorted_iff` says when that is the one stable order. -/

namespace WireTools

open CellFormatter Outcome

inductive SortDirection where
  | asc
  | desc
  deriving DecidableEq

structure ColumnSort where
  column : Text
  direction : SortDirection
  deriving DecidableEq

/-- Text that the display value of a column's cell must contain. -/
structure ColumnFilter where
  column : Text
  text : Text
  deriving DecidableEq

/-- The columns default to all of them. -/
structure ResultViewOptions where
  sorts : List ColumnSort
  filters : List ColumnFilter
  columns : Option (List Text)
  deriving DecidableEq

/-- A row: its cell for every column name. -/
abbrev QueryRow := Text → CellValue

structure QueryResult where
  columns : List QueryColumn
  rows : List QueryRow

/-- The cell of a row of the page. -/
def QueryResult.cell (result : QueryResult) (column : QueryColumn) (i : ℕ) : CellValue :=
  match result.rows[i]? with
  | some row => row column.name
  | none => .null

inductive ViewError where
  | unknownColumn (name : Text) (columns : List Text)
  | mismatch (cell : CellMismatch)

def ViewError.message : ViewError → Text
  | unknownColumn name _ => text "unknown column " ++ name
  | mismatch cell => cell.message

structure ResultView where
  result : QueryResult
  sorts : List ColumnSort
  filters : List ColumnFilter
  columns : List Text
  /-- The rows of the page, in view order. -/
  order : List ℕ
  projected : List QueryColumn

namespace ResultView

abbrev SortColumn := QueryColumn × SortDirection

abbrev FilterColumn := QueryColumn × Text

def resolve (columns : List QueryColumn) (name : Text) : Option QueryColumn :=
  columns.find? fun column => column.name = name

def assertColumn (columns : List QueryColumn) (name : Text) : Except ViewError QueryColumn :=
  match resolve columns name with
  | some column => .ok column
  | none => .error (.unknownColumn name (columns.map QueryColumn.name))

/-- Two keys in a column's direction; NULL is last in both. -/
def directed (s : SortColumn) : Comparator CellSortKey := fun left right =>
  let compared := compareSortKeys s.1 left right
  if left.isNull || right.isNull || s.2 = .asc then compared else -compared

/-- Two rows by their keys; rows that tie keep the order of the page. -/
def compareRows (sortColumns : List SortColumn) (keys : List (ℕ × List CellSortKey)) :
    Comparator ℕ := fun left right =>
  let leftKeys := (keys.lookup left).getD []
  let rightKeys := (keys.lookup right).getD []
  let compared := (sortColumns.zip (leftKeys.zip rightKeys)).map fun s => directed s.1 s.2.1 s.2.2
  (compared.find? (· ≠ 0)).getD ((left : ℤ) - right)

variable (b : Builtins)

def create (sort : ArraySort ℕ) (result : QueryResult) (options : ResultViewOptions) :
    Except ViewError ResultView := do
  let columns := options.columns.getD (result.columns.map QueryColumn.name)
  let projected ← columns.mapM (assertColumn result.columns)
  let filterColumns ← options.filters.mapM fun f =>
    (assertColumn result.columns f.column).map fun column => (column, f.text)
  let sortColumns ← options.sorts.mapM fun s =>
    (assertColumn result.columns s.column).map fun column => (column, s.direction)
  let kept ← (List.range result.rows.length).filterM fun i =>
    filterColumns.allM fun f =>
      (containsText b f.1 (result.cell f.1 i) f.2).mapError .mismatch
  let keys ← kept.mapM fun i =>
    (sortColumns.mapM fun s => (sortKey b s.1 (result.cell s.1 i)).mapError .mismatch).map
      fun keys => (i, keys)
  let order := sort.sort (compareRows sortColumns keys) kept
  return ⟨result, options.sorts, options.filters, columns, order, projected⟩

/-! ### What the order is for -/

def filterColumns (result : QueryResult) (options : ResultViewOptions) : List FilterColumn :=
  options.filters.filterMap fun f => (resolve result.columns f.column).map fun c => (c, f.text)

def sortColumns (result : QueryResult) (options : ResultViewOptions) : List SortColumn :=
  options.sorts.filterMap fun s => (resolve result.columns s.column).map fun c => (c, s.direction)

/-- The display text of the row's cell contains the text of the filter. -/
def passes (result : QueryResult) (i : ℕ) (f : FilterColumn) : Bool :=
  match containsText b f.1 (result.cell f.1 i) f.2 with
  | .ok shown => shown
  | .error _ => false

/-- The rows that pass every filter. -/
def keptRows (result : QueryResult) (options : ResultViewOptions) : List ℕ :=
  (List.range result.rows.length).filter fun i =>
    (filterColumns result options).all (passes b result i)

/-- One cell comes before another in a column's direction; NULL is last in both. -/
def cellBefore (s : SortColumn) (left right : CellValue) : Prop :=
  left.isNull = false ∧ (right.isNull = true ∨
    ∃ n, compare b s.1 left right = .ok n ∧
      match s.2 with
      | .asc => n < 0
      | .desc => 0 < n)

/-- One row comes before another, lexicographically. -/
def rowBefore (result : QueryResult) (options : ResultViewOptions) : ℕ → ℕ → Prop :=
  lexicographic (fun s i j => cellBefore b s (result.cell s.1 i) (result.cell s.1 j))
    (sortColumns result options)

/-- The kept rows in the lexicographic order, rows that tie as in the page. -/
def StablyOrdered (result : QueryResult) (options : ResultViewOptions) (order : List ℕ) : Prop :=
  order.Perm (keptRows b result options) ∧ order.Pairwise fun i j =>
    rowBefore b result options i j ∨ ¬rowBefore b result options j i ∧ i < j

/-- A page whose cells match their columns. -/
def Valid (result : QueryResult) : Prop :=
  ∀ column ∈ result.columns, ∀ row ∈ result.rows, matchesEncoding column (row column.name) = true

/-- Options that name columns of the page. -/
structure Known (result : QueryResult) (options : ResultViewOptions) : Prop where
  sorts : ∀ s ∈ options.sorts, s.column ∈ result.columns.map QueryColumn.name
  filters : ∀ f ∈ options.filters, f.column ∈ result.columns.map QueryColumn.name
  columns : ∀ names, options.columns = some names →
    ∀ name ∈ names, name ∈ result.columns.map QueryColumn.name

/-- The cells that the kept rows have in a column. -/
def keptCells (result : QueryResult) (options : ResultViewOptions) (column : QueryColumn) :
    Set CellValue :=
  {v | ∃ i ∈ keptRows b result options, v = result.cell column i}

/-! ### A valid page -/

variable {b} {result : QueryResult} {options : ResultViewOptions} {column : QueryColumn}
  {v : CellValue}

theorem asText_any {pattern : Text → Bool} (h : v.asText.any pattern = true) :
    ∃ t, v = .string t ∧ pattern t = true := by
  cases v with
  | string t => exact ⟨t, rfl, h⟩
  | _ => cases h

theorem formatWhere_any {pattern : Text → Bool} (h : v.asText.any pattern = true) :
    ∃ t, formatWhere column v pattern = .ok t := by
  obtain ⟨t, rfl, ht⟩ := asText_any h
  exact ⟨t, formatWhere_ok.mpr ⟨rfl, ht⟩⟩

theorem formatText_some {mode : CellFormatMode} (h : v.asText.isSome = true) :
    ∃ t, formatText column v mode = .ok t := by
  obtain ⟨t, ht⟩ := Option.isSome_iff_exists.mp h
  exact ⟨_, by rw [formatText, ht]⟩

theorem formatBoolean_some (h : v.asBool.isSome = true) : ∃ t, formatBoolean column v = .ok t := by
  obtain ⟨x, hx⟩ := Option.isSome_iff_exists.mp h
  rw [formatBoolean, hx]
  cases x with
  | true => exact ⟨_, rfl⟩
  | false => exact ⟨_, rfl⟩

theorem assertAsset_some {a : AssetCell} (h : AssetCell.safeParse v = some a) :
    assertAsset column v = .ok a := by
  rw [assertAsset, h]

/-- An asset that has a contract where its type wants one. -/
theorem formatAsset_some {a : AssetCell} (h : AssetCell.safeParse v = some a)
    (hcontract : column.logicalType = .extended_asset → a.contract.isSome = true) :
    ∃ t, formatAsset column v = .ok t := by
  rw [formatAsset, assertAsset_some h]
  dsimp only
  cases hc : a.contract with
  | some contract => exact ⟨_, rfl⟩
  | none =>
      split_ifs with hl
      · rw [hc] at hcontract
        cases hcontract hl
      · exact ⟨_, rfl⟩

/-- A cell that matches its column has a text. -/
theorem format_of_matches (h : matchesEncoding column v = true) (mode : CellFormatMode) :
    ∃ t, format b column v mode = .ok t := by
  rw [format]
  by_cases hnull : v.isNull = true
  · exact ⟨_, if_pos hnull⟩
  · rw [if_neg hnull]
    rw [matchesEncoding, Bool.not_eq_true _ |>.mp hnull, Bool.false_or] at h
    cases hl : column.logicalType with
    | integer =>
        rw [hl] at h
        exact formatWhere_any h
    | decimal =>
        rw [hl] at h
        exact formatWhere_any h
    | boolean =>
        rw [hl] at h
        exact formatBoolean_some h
    | text =>
        rw [hl] at h
        exact formatText_some h
    | time =>
        rw [hl] at h
        exact formatText_some h
    | enumeration =>
        rw [hl] at h
        exact formatText_some h
    | json => exact ⟨_, rfl⟩
    | ieee_hex =>
        rw [hl] at h
        exact except_map_returns _ (formatWhere_any h)
    | asset =>
        rw [hl] at h
        obtain ⟨a, ha⟩ := Option.isSome_iff_exists.mp h
        exact formatAsset_some ha (by simp [hl])
    | extended_asset =>
        rw [hl] at h
        obtain ⟨a, ha, hcontract⟩ := (Option.any_eq_true _ _).mp h
        exact formatAsset_some ha fun _ => hcontract

/-- A cell that matches its column has a key. -/
theorem sortKey_of_matches (h : matchesEncoding column v = true) :
    ∃ k, sortKey b column v = .ok k := by
  by_cases hnull : v.isNull = true
  · exact ⟨_, sortKey_null hnull⟩
  · have htext := format_of_matches (b := b) h .canonical
    rw [Bool.not_eq_true] at hnull
    rw [sortKey_typed hnull, typedKey]
    rw [matchesEncoding, hnull, Bool.false_or] at h
    cases hl : column.logicalType with
    | integer =>
        rw [hl] at h
        exact except_map_returns _ (formatWhere_any h)
    | decimal =>
        rw [hl] at h
        exact except_map_returns _ (formatWhere_any h)
    | boolean =>
        rw [hl] at h
        exact except_map_returns _ (formatBoolean_some h)
    | ieee_hex =>
        rw [hl] at h
        exact except_map_returns _ (formatWhere_any h)
    | asset =>
        rw [hl] at h
        obtain ⟨a, ha⟩ := Option.isSome_iff_exists.mp h
        exact except_map_returns _ ⟨a, assertAsset_some ha⟩
    | extended_asset =>
        rw [hl] at h
        obtain ⟨a, ha, _⟩ := (Option.any_eq_true _ _).mp h
        exact except_map_returns _ ⟨a, assertAsset_some ha⟩
    | text => exact except_map_returns _ htext
    | time => exact except_map_returns _ htext
    | json => exact except_map_returns _ htext
    | enumeration => exact except_map_returns _ htext

/-! ### The keys of the kept rows -/

/-- The key of a cell, null for one that does not match. -/
def keyOf (b : Builtins) (column : QueryColumn) (v : CellValue) : CellSortKey :=
  match sortKey b column v with
  | .ok k => k
  | .error _ => .null

theorem sortKey_keyOf (h : matchesEncoding column v = true) :
    sortKey b column v = .ok (keyOf b column v) := by
  obtain ⟨k, hk⟩ := sortKey_of_matches (b := b) h
  rw [keyOf, hk]

theorem typedKey_nonnull {k : CellSortKey} (h : typedKey b column v = .ok k) :
    k.isNull = false := by
  rw [typedKey] at h
  cases hl : column.logicalType with
  | _ =>
      rw [hl] at h
      obtain ⟨_, _, rfl⟩ := except_map_eq_ok h
      rfl

theorem keyOf_isNull (h : matchesEncoding column v = true) :
    (keyOf b column v).isNull = v.isNull := by
  have hkey := sortKey_keyOf (b := b) h
  cases hv : v.isNull with
  | true =>
      rw [sortKey_null hv] at hkey
      rw [← Except.ok.inj hkey]
      rfl
  | false =>
      rw [sortKey_typed hv] at hkey
      exact typedKey_nonnull hkey

/-- Two cells cannot be tangled. -/
theorem compareSortKeys_skew {w : CellValue} (hv : matchesEncoding column v = true)
    (hw : matchesEncoding column w = true) :
    compareSortKeys column (keyOf b column w) (keyOf b column v) =
      -compareSortKeys column (keyOf b column v) (keyOf b column w) := by
  have hmatch : ∀ x ∈ ({v, w} : Set CellValue), matchesEncoding column x = true := by
    rintro x (rfl | rfl)
    · exact hv
    · exact hw
  have huntangled : Untangled (textsOf {v, w}) := by
    intro s hs t ht u hu x y _ _ _ hst htu
    have hne : s ≠ t := fun heq => absurd hst (by rw [heq]; exact lt_irrefl _)
    have hne' : t ≠ u := fun heq => absurd htu (by rw [heq]; exact lt_irrefl _)
    have hne'' : s ≠ u := fun heq => absurd (hst.trans htu) (by rw [heq]; exact lt_irrefl _)
    have hinj : ∀ {p q : Text}, CellValue.string p = CellValue.string q → p = q :=
      fun h => CellValue.string.inj h
    rcases hs with hs | hs
    · rcases ht with ht | ht
      · exact absurd (hinj (hs.trans ht.symm)) hne
      · rcases hu with hu | hu
        · exact absurd (hinj (hs.trans hu.symm)) hne''
        · exact absurd (hinj (ht.trans hu.symm)) hne'
    · rcases ht with ht | ht
      · rcases hu with hu | hu
        · exact absurd (hinj (ht.trans hu.symm)) hne'
        · exact absurd (hinj (hs.trans hu.symm)) hne''
      · exact absurd (hinj (hs.trans ht.symm)) hne
  have hpair := (preordered_iff (b := b) hmatch).mpr fun _ => huntangled
  exact hpair.skew _ ⟨v, Or.inl rfl, sortKey_keyOf hv⟩ _ ⟨w, Or.inr rfl, sortKey_keyOf hw⟩

/-- What the comparator of a column says of two cells. -/
theorem cellBefore_iff {s : SortColumn} {w : CellValue} (hv : matchesEncoding s.1 v = true)
    (hw : matchesEncoding s.1 w = true) :
    cellBefore b s v w ↔ directed s (keyOf b s.1 v) (keyOf b s.1 w) < 0 := by
  have hnull := keyOf_isNull (b := b) hv
  have hnull' := keyOf_isNull (b := b) hw
  have hcompare : compare b s.1 v w =
      .ok (compareSortKeys s.1 (keyOf b s.1 v) (keyOf b s.1 w)) := by
    rw [CellFormatter.compare, sortKey_keyOf hv, sortKey_keyOf hw]
    rfl
  rw [cellBefore, directed, hnull, hnull', hcompare]
  cases hvn : v.isNull with
  | true =>
      rw [hvn] at hnull
      have hlast : ¬compareSortKeys s.1 (keyOf b s.1 v) (keyOf b s.1 w) < 0 := by
        rw [compareSortKeys, nullsLast, hnull, hnull']
        cases w.isNull with
        | true => exact lt_irrefl 0
        | false => exact show ¬(1 : ℤ) < 0 by decide
      exact ⟨fun h => absurd h.1 (by decide), fun h => absurd h hlast⟩
  | false =>
      cases hwn : w.isNull with
      | true =>
          rw [hvn] at hnull
          rw [hwn] at hnull'
          have hlast : compareSortKeys s.1 (keyOf b s.1 v) (keyOf b s.1 w) = -1 := by
            rw [compareSortKeys, nullsLast, hnull, hnull']
            rfl
          rw [hlast]
          exact ⟨fun _ => show (-1 : ℤ) < 0 by decide, fun _ => ⟨rfl, Or.inl rfl⟩⟩
      | false =>
          cases hd : s.2 with
          | asc => simp
          | desc => simp

theorem directed_skew {s : SortColumn} {w : CellValue} (hv : matchesEncoding s.1 v = true)
    (hw : matchesEncoding s.1 w = true) :
    directed s (keyOf b s.1 w) (keyOf b s.1 v) = -directed s (keyOf b s.1 v) (keyOf b s.1 w) := by
  have hskew := compareSortKeys_skew (b := b) hv hw
  unfold directed
  dsimp only
  rw [Bool.or_comm (keyOf b s.1 w).isNull, hskew]
  split_ifs
  · rfl
  · rfl

/-- A column's direction keeps a preorder one. -/
theorem preordered_directed {s : SortColumn} {S : Set CellSortKey}
    (h : Preordered (compareSortKeys s.1) S) : Preordered (directed s) S := by
  have htyped : Preordered (compareTyped s.1) {k | k ∈ S ∧ k.isNull = false} := by
    refine (h.subset fun k hk => hk.1).congr ?_
    rintro k ⟨_, hk⟩ l ⟨_, hl⟩
    rw [compareSortKeys, nullsLast, hk, hl]
    rfl
  cases hd : s.2 with
  | asc =>
      refine h.congr fun k _ l _ => ?_
      simp [directed, hd]
  | desc =>
      refine htyped.neg.nullsLast.congr fun k _ l _ => ?_
      unfold directed nullsLast
      dsimp only
      rw [compareSortKeys, nullsLast, hd]
      cases hk : k.isNull with
      | true => rfl
      | false =>
          cases hl : l.isNull with
          | true => rfl
          | false => rfl

/-! ### Creating a view -/

/-- The keys that `create` reads, row by row. -/
def rowKeys (b : Builtins) (result : QueryResult) (options : ResultViewOptions) :
    List (ℕ × List CellSortKey) :=
  (keptRows b result options).map fun i =>
    (i, (sortColumns result options).map fun s => keyOf b s.1 (result.cell s.1 i))

/-- Two rows in one of the sorted columns. -/
def columnOrder (b : Builtins) (result : QueryResult) (s : SortColumn) : Comparator ℕ := fun i j =>
  directed s (keyOf b s.1 (result.cell s.1 i)) (keyOf b s.1 (result.cell s.1 j))

theorem compareRows_eq {i j : ℕ} (hi : i ∈ keptRows b result options)
    (hj : j ∈ keptRows b result options) :
    compareRows (sortColumns result options) (rowKeys b result options) i j =
      firstOf ((sortColumns result options).map (columnOrder b result))
        (fun left right => (left : ℤ) - right) i j := by
  unfold compareRows firstOf rowKeys
  rw [lookup_map hi, lookup_map hj]
  dsimp only [Option.getD_some]
  rw [zip_maps, List.map_map, List.map_map]
  rfl

theorem resolve_mem {columns : List QueryColumn} {name : Text}
    (h : resolve columns name = some column) : column ∈ columns :=
  List.mem_of_find?_eq_some h

theorem assertColumn_known {columns : List QueryColumn} {name : Text}
    (h : name ∈ columns.map QueryColumn.name) :
    ∃ column, assertColumn columns name = .ok column ∧ resolve columns name = some column := by
  obtain ⟨other, hother, hname⟩ := List.mem_map.mp h
  have hsome : (resolve columns name).isSome = true :=
    List.find?_isSome.mpr ⟨other, hother, by simpa using hname⟩
  obtain ⟨column, hcolumn⟩ := Option.isSome_iff_exists.mp hsome
  exact ⟨column, by rw [assertColumn, hcolumn], hcolumn⟩

theorem sortColumn_mem {s : SortColumn} (h : s ∈ sortColumns result options) :
    s.1 ∈ result.columns := by
  obtain ⟨sort, _, hs⟩ := List.mem_filterMap.mp h
  obtain ⟨column, hcolumn, rfl⟩ := Option.map_eq_some_iff.mp hs
  exact resolve_mem hcolumn

theorem filterColumn_mem {f : FilterColumn} (h : f ∈ filterColumns result options) :
    f.1 ∈ result.columns := by
  obtain ⟨filter, _, hf⟩ := List.mem_filterMap.mp h
  obtain ⟨column, hcolumn, rfl⟩ := Option.map_eq_some_iff.mp hf
  exact resolve_mem hcolumn

theorem cell_matches (h : Valid result) (hcolumn : column ∈ result.columns) (i : ℕ) :
    matchesEncoding column (result.cell column i) = true := by
  unfold QueryResult.cell
  cases hrow : result.rows[i]? with
  | none => rfl
  | some row => exact h column hcolumn row (List.mem_of_getElem? hrow)

theorem containsText_ok {f : FilterColumn} {i : ℕ}
    (h : matchesEncoding f.1 (result.cell f.1 i) = true) :
    containsText b f.1 (result.cell f.1 i) f.2 = .ok (passes b result i f) := by
  have hmap : ∃ shown, containsText b f.1 (result.cell f.1 i) f.2 = .ok shown :=
    except_map_returns _ (format_of_matches h .display)
  obtain ⟨shown, hshown⟩ := hmap
  rw [passes, hshown]

/-- On a valid page every view of known columns is made. -/
theorem create_ok (sort : ArraySort ℕ) (hvalid : Valid result) (hknown : Known result options) :
    ∃ view, create b sort result options = .ok view ∧
      view.order = sort.sort (compareRows (sortColumns result options) (rowKeys b result options))
        (keptRows b result options) := by
  have hprojected : ∃ projected,
      (options.columns.getD (result.columns.map QueryColumn.name)).mapM
        (assertColumn result.columns) = .ok projected := by
    refine ⟨_, except_mapM_filterMap (g := resolve result.columns) fun name hname => ?_⟩
    refine assertColumn_known ?_
    cases hcolumns : options.columns with
    | none => rwa [hcolumns] at hname
    | some names =>
        rw [hcolumns] at hname
        exact hknown.columns names hcolumns name hname
  obtain ⟨projected, hprojected⟩ := hprojected
  have hfilters : (options.filters.mapM fun f =>
      (assertColumn result.columns f.column).map fun column => (column, f.text)) =
        .ok (filterColumns result options) := by
    refine except_mapM_filterMap fun f hf => ?_
    obtain ⟨column, hassert, hresolve⟩ := assertColumn_known (hknown.filters f hf)
    exact ⟨(column, f.text), by rw [hassert]; rfl, by rw [hresolve]; rfl⟩
  have hsorts : (options.sorts.mapM fun s =>
      (assertColumn result.columns s.column).map fun column => (column, s.direction)) =
        .ok (sortColumns result options) := by
    refine except_mapM_filterMap fun s hs => ?_
    obtain ⟨column, hassert, hresolve⟩ := assertColumn_known (hknown.sorts s hs)
    exact ⟨(column, s.direction), by rw [hassert]; rfl, by rw [hresolve]; rfl⟩
  have hkept : ((List.range result.rows.length).filterM fun i =>
      (filterColumns result options).allM fun f =>
        (containsText b f.1 (result.cell f.1 i) f.2).mapError ViewError.mismatch) =
          .ok (keptRows b result options) := by
    refine except_filterM fun i _ => except_allM fun f hf => ?_
    rw [containsText_ok (cell_matches hvalid (filterColumn_mem hf) i)]
    rfl
  have hkeys : ((keptRows b result options).mapM fun i =>
      ((sortColumns result options).mapM fun s =>
        (sortKey b s.1 (result.cell s.1 i)).mapError ViewError.mismatch).map
          fun keys => (i, keys)) = .ok (rowKeys b result options) := by
    rw [rowKeys, ← List.filterMap_eq_map]
    refine except_mapM_filterMap fun i _ => ⟨_, ?_, rfl⟩
    have hrow : ((sortColumns result options).mapM fun s =>
        (sortKey b s.1 (result.cell s.1 i)).mapError ViewError.mismatch) =
          .ok ((sortColumns result options).map fun s => keyOf b s.1 (result.cell s.1 i)) := by
      rw [← List.filterMap_eq_map]
      refine except_mapM_filterMap fun s hs => ⟨_, ?_, rfl⟩
      rw [sortKey_keyOf (cell_matches hvalid (sortColumn_mem hs) i)]
      rfl
    rw [hrow]
    rfl
  refine ⟨⟨result, options.sorts, options.filters,
    options.columns.getD (result.columns.map QueryColumn.name), _, projected⟩, ?_, rfl⟩
  simp only [create, hprojected, hfilters, hsorts, hkept, hkeys, bind, Except.bind, pure,
    Except.pure]

/-! ### The one stable order -/

theorem preordered_rows {s : SortColumn} (hvalid : Valid result)
    (hs : s ∈ sortColumns result options)
    (h : Preordered (compareSortKeys s.1) (keysOf b s.1 (keptCells b result options s.1))) :
    Preordered (columnOrder b result s) {i | i ∈ keptRows b result options} :=
  (preordered_directed h).comap (fun i => keyOf b s.1 (result.cell s.1 i)) fun i hi =>
    ⟨_, ⟨i, hi, rfl⟩, sortKey_keyOf (cell_matches hvalid (sortColumn_mem hs) i)⟩

theorem rowBefore_iff (hvalid : Valid result) {i j : ℕ} (hi : i ∈ keptRows b result options)
    (hj : j ∈ keptRows b result options) :
    (rowBefore b result options i j ∨ ¬rowBefore b result options j i ∧ i < j) ↔
      compareRows (sortColumns result options) (rowKeys b result options) i j < 0 := by
  have hlast : i < j ↔ (i : ℤ) - j < 0 := by omega
  rw [compareRows_eq hi hj, hlast]
  refine (firstOf_neg (fun left right : ℕ => (left : ℤ) - right) fun s hs => ?_).symm
  have hmatch : ∀ k, matchesEncoding s.1 (result.cell s.1 k) = true :=
    cell_matches hvalid (sortColumn_mem hs)
  have hskew := directed_skew (b := b) (hmatch i) (hmatch j)
  have hback := cellBefore_iff (b := b) (hmatch j) (hmatch i)
  refine ⟨cellBefore_iff (hmatch i) (hmatch j), hback.trans ?_⟩
  rw [hskew, columnOrder]
  omega

theorem stablyOrdered_iff (sort : ArraySort ℕ) (hvalid : Valid result)
    (h : ∀ s ∈ sortColumns result options,
      Preordered (compareSortKeys s.1) (keysOf b s.1 (keptCells b result options s.1)))
    {order : List ℕ} : StablyOrdered b result options order ↔
      order = sort.sort (compareRows (sortColumns result options) (rowKeys b result options))
        (keptRows b result options) := by
  have hindex : Preordered (fun left right : ℕ => (left : ℤ) - right)
      {i | i ∈ keptRows b result options} :=
    ⟨fun i _ j _ => by omega, fun i _ j _ k _ hij hjk => by omega⟩
  have hrows : Preordered
      (compareRows (sortColumns result options) (rowKeys b result options))
      {i | i ∈ keptRows b result options} := by
    refine (Preordered.firstOf (fun cmp hcmp => ?_) hindex).congr fun i hi j hj =>
      compareRows_eq hi hj
    obtain ⟨s, hs, rfl⟩ := List.mem_map.mp hcmp
    exact preordered_rows hvalid hs (h s hs)
  have hties : ∀ i ∈ keptRows b result options, ∀ j ∈ keptRows b result options,
      compareRows (sortColumns result options) (rowKeys b result options) i j = 0 → i = j := by
    intro i hi j hj hzero
    rw [compareRows_eq hi hj] at hzero
    exact eq_of_firstOf (fun hindex => by omega) hzero
  rw [← sort.eq_sort hrows hties]
  refine and_congr_right fun hperm => ?_
  have hmem : ∀ {i}, i ∈ order → i ∈ keptRows b result options := hperm.mem_iff.mp
  constructor
  · intro hpairwise
    refine hpairwise.imp_of_mem fun {i j} hi hj hij => ?_
    exact ((rowBefore_iff hvalid (hmem hi) (hmem hj)).mp hij).le
  · intro hpairwise
    have hnodup : order.Nodup :=
      hperm.nodup_iff.mpr (List.nodup_range.sublist List.filter_sublist)
    refine (hpairwise.and hnodup).imp_of_mem fun {i j} hi hj hij => ?_
    refine (rowBefore_iff hvalid (hmem hi) (hmem hj)).mpr (lt_of_le_of_ne hij.1 fun hzero => ?_)
    exact hij.2 (hties i (hmem hi) j (hmem hj) hzero)

/-- A view is sorted: its columns compare by total preorders, numbers exactly, and its order is
the one stable order of the kept rows. -/
structure Sorted (b : Builtins) (result : QueryResult) (options : ResultViewOptions)
    (view : ResultView) : Prop where
  preordered : ∀ s ∈ sortColumns result options,
    Preordered (compareSortKeys s.1) (keysOf b s.1 (keptCells b result options s.1))
  typed : ∀ column : QueryColumn, column.logicalType ≠ .ieee_hex →
    Preordered (compareSortKeys column) (keysOf b column {v | matchesEncoding column v = true})
  numbers : ∀ (column : QueryColumn) (s t : Text),
    column.logicalType = .integer ∨ column.logicalType = .decimal →
      matchesEncoding column (.string s) = true → matchesEncoding column (.string t) = true →
        CellFormatter.compare b column (.string s) (.string t) = .ok (byKey decimalValue s t)
  unique : ∀ order, StablyOrdered b result options order ↔ order = view.order

/-- The floats that the view sorts by are untangled. -/
def FloatsUntangled (b : Builtins) (result : QueryResult) (options : ResultViewOptions) : Prop :=
  ∀ s ∈ sortColumns result options, s.1.logicalType = .ieee_hex →
    Untangled (textsOf (keptCells b result options s.1))

theorem keptCells_match (hvalid : Valid result) (hcolumn : column ∈ result.columns) :
    ∀ v ∈ keptCells b result options column, matchesEncoding column v = true := by
  rintro v ⟨i, _, rfl⟩
  exact cell_matches hvalid hcolumn i

/-- Every view of a valid page is made, and it is sorted exactly when no column of floats that it
sorts by is tangled. -/
theorem created_sorted_iff (b : Builtins) (sort : ArraySort ℕ) {result : QueryResult}
    {options : ResultViewOptions} (hvalid : Valid result) (hknown : Known result options) :
    ∃ view, create b sort result options = .ok view ∧
      (Sorted b result options view ↔ FloatsUntangled b result options) := by
  obtain ⟨view, hview, horder⟩ := create_ok (b := b) sort hvalid hknown
  refine ⟨view, hview, fun h s hs hl => ?_, fun h => ?_⟩
  · exact (preordered_iff (keptCells_match hvalid (sortColumn_mem hs))).mp (h.preordered s hs) hl
  · have hpreordered : ∀ s ∈ sortColumns result options,
        Preordered (compareSortKeys s.1) (keysOf b s.1 (keptCells b result options s.1)) :=
      fun s hs => (preordered_iff (keptCells_match hvalid (sortColumn_mem hs))).mpr (h s hs)
    exact
      { preordered := hpreordered
        typed := fun column hl => (preordered_iff fun _ hv => hv).mpr fun heq => absurd heq hl
        numbers := fun column s t hl hs ht => compare_number hl hs ht
        unique := fun order => by
          rw [horder]
          exact stablyOrdered_iff sort hvalid hpreordered }

/-- A page of one column of floats. -/
def floatPage (cells : List Text) : QueryResult :=
  ⟨[⟨text "x", .ieee_hex, .ieee_hex⟩], cells.map fun t _ => .string t⟩

def byFloat : ResultViewOptions :=
  ⟨[⟨text "x", .asc⟩], [], none⟩

def asciiBuiltins : Builtins :=
  ⟨fun t => t.map toLower, fun _ => text "NaN"⟩

theorem created_sorted_iff_numbers :
    ∃ view, create asciiBuiltins (ArraySort.merge ℕ)
        (floatPage [text "0x00000040", text "0xff00803f"]) byFloat = .ok view ∧
      (Sorted asciiBuiltins (floatPage [text "0x00000040", text "0xff00803f"]) byFloat view ↔
        FloatsUntangled asciiBuiltins (floatPage [text "0x00000040", text "0xff00803f"])
          byFloat) := by
  refine created_sorted_iff asciiBuiltins (ArraySort.merge ℕ) ?_ ⟨?_, ?_, ?_⟩
  · unfold Valid
    decide
  · decide
  · decide
  · exact nofun

/-- A page with 2, a NaN and a number just above 1: by text the NaN comes between them, by value
2 comes last.  Every one of the three rows has to come before another, so there is no order. -/
theorem nan_tangles_floats :
    Valid (floatPage [text "0x00000040", text "0x0100807f", text "0xff00803f"]) ∧
      ¬∃ order, StablyOrdered asciiBuiltins
        (floatPage [text "0x00000040", text "0x0100807f", text "0xff00803f"]) byFloat order := by
  have hvalid : Valid (floatPage [text "0x00000040", text "0x0100807f", text "0xff00803f"]) := by
    unfold Valid
    decide
  refine ⟨hvalid, ?_⟩
  generalize hpage : floatPage [text "0x00000040", text "0x0100807f", text "0xff00803f"] = page
    at hvalid
  rintro ⟨order, hperm, hpairwise⟩
  have hkept : keptRows asciiBuiltins page byFloat = [0, 1, 2] := by
    rw [← hpage]
    decide
  have hbehind : ∀ i ∈ [0, 1, 2], ∃ j ∈ [0, 1, 2], j ≠ i ∧
      ¬compareRows (sortColumns page byFloat) (rowKeys asciiBuiltins page byFloat) i j < 0 := by
    rw [← hpage]
    decide +kernel
  rw [hkept] at hperm
  cases order with
  | nil => exact absurd hperm.length_eq (by decide)
  | cons i order =>
      have hi : i ∈ [0, 1, 2] := hperm.mem_iff.mp List.mem_cons_self
      obtain ⟨j, hj, hne, hnot⟩ := hbehind i hi
      have hj' := (List.mem_cons.mp (hperm.mem_iff.mpr hj)).resolve_left hne
      have hfirst := (List.pairwise_cons.mp hpairwise).1 j hj'
      rw [← hkept] at hi hj
      exact hnot ((rowBefore_iff hvalid hi hj).mp hfirst)

end ResultView

end WireTools
