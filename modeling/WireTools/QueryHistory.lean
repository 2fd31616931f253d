import Mathlib.Data.List.Infix
import WireTools.Lines
import WireTools.Utf8

/-! # The query history

A log of records, one to a line, that is listed from its end.  The tail is read backwards in
chunks; a chunk is split at the newline bytes, and its first piece is carried on to the chunk
before.

* `readTail`: the chunks, until enough records are collected or the start of the file is reached;
  a chunk reads a byte at least, so it ends;
* `records`: the records of the whole file, newest first;
* `scan_eq`: a listing is the first of these that are accepted, whatever the size of the chunks. -/

namespace WireTools.QueryHistory

/-- The bytes of a file. -/
abbrev Bytes := List UInt8

/-- The records of a log, and how a line is read as one: none where that throws. -/
structure QueryHistoryEntryCodec where
  QueryHistoryEntry : Type
  id : QueryHistoryEntry → Text
  query : QueryHistoryEntry → Text
  deserialize : Text → Option QueryHistoryEntry

structure QueryHistoryStoreConfig where
  tailChunkBytes : ℕ
  tailChunkBytes_pos : 0 < tailChunkBytes

def DefaultListLimit : ℕ := 100

def LineSeparatorByte : UInt8 := 10

/-! ### Splitting -/

theorem length_drop_of_idxOf? {bytes : Bytes} {index : ℕ}
    (h : bytes.idxOf? LineSeparatorByte = some index) :
    (bytes.drop (index + 1)).length < bytes.length := by
  obtain ⟨hlt, _⟩ := List.idxOf?_eq_some_iff.mp h
  rw [List.length_drop]
  omega

/-- The pieces between separators, found one after the other. -/
def splitLines (bytes : Bytes) : List Bytes :=
  match h : bytes.idxOf? LineSeparatorByte with
  | none => [bytes]
  | some index => bytes.take index :: splitLines (bytes.drop (index + 1))
termination_by bytes.length
decreasing_by exact length_drop_of_idxOf? h

theorem splitLines_eq (bytes : Bytes) : splitLines bytes = bytes.splitOn LineSeparatorByte := by
  fun_induction splitLines bytes with
  | case1 bytes h =>
      exact (List.splitOn_eq_singleton (List.idxOf?_eq_none_iff.mp h)).symm
  | case2 bytes index h ih =>
      obtain ⟨hlt, hfound, hbefore⟩ := List.idxOf?_eq_some_iff.mp h
      have hfront : LineSeparatorByte ∉ bytes.take index := by
        intro hmem
        obtain ⟨j, hj, heq⟩ := List.getElem_of_mem hmem
        rw [List.length_take] at hj
        rw [List.getElem_take] at heq
        exact hbefore j (by omega) heq
      have hsplit : bytes = bytes.take index ++ LineSeparatorByte :: bytes.drop (index + 1) := by
        rw [← hfound, List.getElem_cons_drop, List.take_append_drop]
      rw [ih]
      conv_rhs => rw [hsplit]
      rw [List.splitOn_append_cons_self, List.splitOn_eq_singleton hfront]
      rfl

/-! ### Reading the tail -/

/-- One chunk of the tail. -/
structure TailChunk where
  lines : List Bytes
  /-- The piece that the chunk before goes on with. -/
  carry : Bytes
  /-- Where the chunk starts. -/
  position : ℕ

section Store

variable (config : QueryHistoryStoreConfig) (codec : QueryHistoryEntryCodec) (file : Bytes)

def readChunk (previous : TailChunk) : TailChunk :=
  let size := min config.tailChunkBytes previous.position
  let position := previous.position - size
  let buffer := (file.drop position).take size
  let parts := splitLines (buffer ++ previous.carry)
  if position = 0 then
    { lines := parts.filter fun line => decide (0 < line.length)
      carry := []
      position := 0 }
  else
    { lines := parts.tail.filter fun line => decide (0 < line.length)
      carry := parts.headD []
      position := position }

/-- A malformed line is skipped. -/
def parseLine (line : Bytes) : Option codec.QueryHistoryEntry :=
  codec.deserialize (Utf8.decode line)

theorem readChunk_ends {previous : TailChunk} (h : 0 < previous.position ∨ 0 < previous.carry.length) :
    Prod.Lex (· < ·) (· < ·)
      ((readChunk config file previous).position, (readChunk config file previous).carry.length)
      (previous.position, previous.carry.length) := by
  have hpos := config.tailChunkBytes_pos
  by_cases hstart : previous.position = 0
  · have hread : readChunk config file previous =
        { lines := (splitLines previous.carry).filter fun line => decide (0 < line.length)
          carry := []
          position := 0 } := by
      simp [readChunk, hstart]
    rw [hread, hstart]
    exact Prod.Lex.right 0 (h.resolve_left (by omega))
  · refine Prod.Lex.left _ _ ?_
    unfold readChunk
    dsimp only
    split <;> dsimp only <;> omega

/-- The records of further chunks behind those collected so far. -/
def readTail (accept : codec.QueryHistoryEntry → Bool) (limit : ℕ)
    (collected : List codec.QueryHistoryEntry) (chunk : TailChunk) : List codec.QueryHistoryEntry :=
  if _h : collected.length < limit ∧ (0 < chunk.position ∨ 0 < chunk.carry.length) then
    let next := readChunk config file chunk
    readTail accept limit
      (collected ++ (next.lines.reverse.filterMap (parseLine codec)).filter accept)
      { next with lines := [] }
  else collected.take limit
termination_by (chunk.position, chunk.carry.length)
decreasing_by exact readChunk_ends config file _h.2

/-- Nothing is listed of a file that is missing. -/
def scan (file : Option Bytes) (accept : codec.QueryHistoryEntry → Bool) (limit : ℕ) :
    List codec.QueryHistoryEntry :=
  match file with
  | none => []
  | some file => readTail config codec file accept limit [] ⟨[], [], file.length⟩

/-- The options of a listing, with their defaults filled in. -/
structure QueryHistoryListConfig where
  limit : ℕ := DefaultListLimit
  search : Text := []

/-- The records whose query contains the search, in any letter case. -/
def list (toLowerCase : Text → Text) (file : Option Bytes) (options : QueryHistoryListConfig) :
    List codec.QueryHistoryEntry :=
  scan config codec file
    (fun entry => decide (toLowerCase options.search <:+: toLowerCase (codec.query entry)))
    options.limit

/-- The newest record with the id. -/
def get (file : Option Bytes) (id : Text) : Option codec.QueryHistoryEntry :=
  (scan config codec file (fun entry => decide (codec.id entry = id)) 1).head?

/-! ### The whole file -/

/-- The records of some lines, the last one first. -/
def recordsOf (lines : List Bytes) : List codec.QueryHistoryEntry :=
  ((lines.filter fun line => decide (0 < line.length)).filterMap (parseLine codec)).reverse

/-- The file is split at the newline bytes, every line that is not empty is decoded, and malformed
ones are dropped; the newest record comes first. -/
def records (file : Option Bytes) : List codec.QueryHistoryEntry :=
  match file with
  | none => []
  | some file => recordsOf codec (file.splitOn LineSeparatorByte)

variable {config codec file}

theorem recordsOf_append (ls ms : List Bytes) :
    recordsOf codec (ls ++ ms) = recordsOf codec ms ++ recordsOf codec ls := by
  simp only [recordsOf, List.filter_append, List.filterMap_append, List.reverse_append]

/-- Lines that are not empty are what a chunk keeps. -/
theorem recordsOf_filter (ls : List Bytes) :
    ((ls.filter fun line => decide (0 < line.length)).reverse.filterMap (parseLine codec)) =
      recordsOf codec ls := by
  rw [List.filterMap_reverse]
  rfl

/-- A chunk takes the lines that end in it off what is left of the file. -/
theorem readChunk_records (previous : TailChunk) :
    recordsOf codec ((file.take previous.position ++ previous.carry).splitOn LineSeparatorByte) =
      (readChunk config file previous).lines.reverse.filterMap (parseLine codec) ++
        recordsOf codec ((file.take (readChunk config file previous).position ++
          (readChunk config file previous).carry).splitOn LineSeparatorByte) := by
  have hbuffer : file.take previous.position =
      file.take (previous.position - min config.tailChunkBytes previous.position) ++
        (file.drop (previous.position - min config.tailChunkBytes previous.position)).take
          (min config.tailChunkBytes previous.position) := by
    rw [← List.take_add]
    congr 1
    omega
  unfold readChunk
  dsimp only
  rw [splitLines_eq, hbuffer]
  split
  · next hstart =>
      have hempty : recordsOf codec (([] : Bytes).splitOn LineSeparatorByte) = [] := rfl
      rw [hstart, List.take_zero, List.nil_append, List.nil_append, recordsOf_filter, hempty,
        List.append_nil]
  · cases hparts : ((file.drop (previous.position -
        min config.tailChunkBytes previous.position)).take
          (min config.tailChunkBytes previous.position) ++ previous.carry).splitOn
            LineSeparatorByte with
    | nil => exact absurd hparts (List.splitOn_ne_nil _ _)
    | cons first complete =>
        rw [List.append_assoc, Lines.splitOn_append_of_cons hparts, recordsOf_append,
          List.tail_cons, recordsOf_filter, List.headD_cons]

/-- Whatever has been collected, the rest is collected behind it. -/
theorem readTail_eq (accept : codec.QueryHistoryEntry → Bool) (limit : ℕ)
    (collected : List codec.QueryHistoryEntry) (chunk : TailChunk) :
    readTail config codec file accept limit collected chunk =
      (collected ++ (recordsOf codec
        ((file.take chunk.position ++ chunk.carry).splitOn LineSeparatorByte)).filter accept).take
          limit := by
  fun_induction readTail config codec file accept limit collected chunk with
  | case1 collected chunk hmore next ih =>
      rw [ih, @readChunk_records config codec file chunk, List.filter_append, List.append_assoc]
  | case2 collected chunk hdone =>
      by_cases hlimit : collected.length < limit
      · rw [not_and_or, not_or] at hdone
        obtain ⟨hposition, hcarry⟩ := hdone.resolve_left (not_not_intro hlimit)
        have hstart : chunk.position = 0 := by omega
        have hnil : chunk.carry = [] := List.length_eq_zero_iff.mp (by omega)
        have hempty : recordsOf codec (([] : Bytes).splitOn LineSeparatorByte) = [] := rfl
        rw [hstart, hnil, List.take_zero, List.append_nil, hempty, List.filter_nil,
          List.append_nil]
      · exact (List.take_append_of_le_length (by omega)).symm

/-- A listing is the newest accepted records of the whole file, for chunks of any size. -/
theorem scan_eq (file : Option Bytes) (accept : codec.QueryHistoryEntry → Bool) (limit : ℕ) :
    scan config codec file accept limit = ((records codec file).filter accept).take limit := by
  cases file with
  | none => rw [scan, records, List.filter_nil, List.take_nil]
  | some file => rw [scan, readTail_eq, List.nil_append, List.take_length, List.append_nil, records]

/-- The newest record with an id, wherever it is in the file. -/
theorem get_eq (file : Option Bytes) (id : Text) : get config codec file id =
    (records codec file).find? fun entry => decide (codec.id entry = id) := by
  rw [get, scan_eq, List.head?_take, if_neg (by decide), List.head?_filter]

end Store

end WireTools.QueryHistory
