import WireTools.Lines
import WireTools.Utf8

/-! # Line indexes of a file

A line index holds where the lines of a file start, for the bytes the file had when it was last
scanned.

* `Scan` is a scan under way: a whole file (`Scan.build`) or its new tail (`Scan.extend`), chunk by
  chunk;
* `LineIndex.Valid` and `Scan.Valid` tie both to the bytes scanned.  Every chunk keeps a scan valid
  (`Scan.Valid.feed`), a finished scan is a valid index (`Scan.Valid.index`), and appends to the
  file change neither;
* `LineIndex.Valid.readLines_eq`: the lines read through a valid index are those of the file. -/

namespace WireTools

open Lines

def newlineByte : UInt8 := 10

structure LineIndex where
  ino : ℕ
  /-- Where line `i` starts; the last entry may be the start of an unfinished line. -/
  byteOffsets : List ℕ
  /-- The size of the file when it was scanned. -/
  totalBytes : ℕ
  completeLineCount : ℕ
  deriving DecidableEq

/-- A buffer of `length` zeros after a read at `position` for which the system hands over at most
`count` bytes. -/
def readAt (content : List UInt8) (position length count : ℕ) : List UInt8 :=
  let got := (content.drop position).take (min length count)
  got ++ List.replicate (length - got.length) 0

def tailEndsInNewline (content : List UInt8) (totalBytes : ℕ) : Bool :=
  totalBytes ≠ 0 && readAt content (totalBytes - 1) 1 1 = [newlineByte]

def computeCompleteLineCount (byteOffsets : List ℕ) (tailIsComplete : Bool) : ℕ :=
  byteOffsets.length - if tailIsComplete then 0 else 1

/-- A scan up to `endByte`, with what it has found before `cursor`. -/
structure Scan where
  ino : ℕ
  endByte : ℕ
  offsets : List ℕ
  cursor : ℕ
  deriving DecidableEq

namespace Scan

/-- The scan of a whole file. -/
def build (ino size : ℕ) : Scan := ⟨ino, size, [0], 0⟩

/-- The scan of what has been appended since.  A line may start right at the old end. -/
def extend (index : LineIndex) (size : ℕ) (oldTailIsNewline : Bool) : Scan where
  ino := index.ino
  endByte := size
  offsets := index.byteOffsets ++ if oldTailIsNewline then [index.totalBytes] else []
  cursor := index.totalBytes

variable (s : Scan)

/-- The next chunk of the stream, of at most `count` bytes. -/
def chunk (content : List UInt8) (count : ℕ) : List UInt8 :=
  (content.drop s.cursor).take (min count (s.endByte - s.cursor))

def feed (chunk : List UInt8) : Scan :=
  { s with
    offsets := s.offsets ++ scan newlineByte s.cursor s.endByte chunk
    cursor := s.cursor + chunk.length }

def index (tailIsComplete : Bool) : LineIndex where
  ino := s.ino
  byteOffsets := s.offsets
  totalBytes := s.endByte
  completeLineCount := computeCompleteLineCount s.offsets tailIsComplete

end Scan

def splitLines (t : Text) : List Text :=
  if t.getLast? = some newline then t.dropLast.splitOn newline else t.splitOn newline

namespace LineIndex

variable (index : LineIndex) (fromLine count : ℕ)

/-- Where `count` lines from `fromLine` on start. -/
def spanStart : ℕ := index.byteOffsets[fromLine]?.getD index.totalBytes

def spanEnd : ℕ := index.byteOffsets[fromLine + count]?.getD index.totalBytes

/-- How many bytes these lines take. -/
def span : ℕ := index.spanEnd fromLine count - index.spanStart fromLine

/-- These lines, when the system hands over at most `handed` of their bytes. -/
def readLines (content : List UInt8) (handed : ℕ) : List Text :=
  splitLines (Utf8.decode
    (readAt content (index.spanStart fromLine) (index.span fromLine count) handed))

end LineIndex

/-- The complete lines of a file as texts. -/
def textLines (content : List UInt8) : List Text :=
  (completeLines newlineByte content).map Utf8.decode

/-! ### Valid scans -/

structure LineIndex.Valid (index : LineIndex) (content : List UInt8) : Prop where
  size : index.totalBytes ≤ content.length
  offsets : index.byteOffsets =
    0 :: scan newlineByte 0 index.totalBytes (content.take index.totalBytes)
  count : index.completeLineCount =
    (completeLines newlineByte (content.take index.totalBytes)).length

structure Scan.Valid (s : Scan) (content : List UInt8) : Prop where
  cursor : s.cursor ≤ s.endByte
  size : s.endByte ≤ content.length
  offsets : s.offsets = 0 :: scan newlineByte 0 s.endByte (content.take s.cursor)

variable {content : List UInt8}

theorem readAt_of_le {position length count : ℕ} (h : position + length ≤ content.length)
    (hcount : length ≤ count) :
    readAt content position length count = (content.drop position).take length := by
  have hlength : ((content.drop position).take length).length = length := by
    rw [List.length_take, List.length_drop]
    omega
  rw [readAt, Nat.min_eq_left hcount, hlength, Nat.sub_self, List.replicate_zero, List.append_nil]

theorem tailEndsInNewline_iff {size : ℕ} (h : size ≤ content.length) :
    tailEndsInNewline content size = true ↔ (content.take size).getLast? = some newlineByte := by
  cases size with
  | zero => simp [tailEndsInNewline]
  | succ n =>
      have hn : n < content.length := h
      rw [tailEndsInNewline, Nat.add_sub_cancel, readAt_of_le (by omega) (by omega),
        List.drop_eq_getElem_cons hn, List.take_succ_cons, List.take_zero,
        List.take_succ_eq_append_getElem hn, List.getLast?_concat]
      simp

namespace LineIndex.Valid

variable {index : LineIndex}

theorem append (h : index.Valid content) (bytes : List UInt8) : index.Valid (content ++ bytes) := by
  have htake : (content ++ bytes).take index.totalBytes = content.take index.totalBytes :=
    List.take_append_of_le_length h.size
  refine ⟨?_, ?_, ?_⟩
  · rw [List.length_append]
    exact Nat.le_add_right_of_le h.size
  · rw [htake]
    exact h.offsets
  · rw [htake]
    exact h.count

/-- The lines an index counts are the first complete lines of the file. -/
theorem take_textLines (h : index.Valid content) :
    (textLines content).take index.completeLineCount =
      textLines (content.take index.totalBytes) := by
  have hprefix := completeLines_append (c := newlineByte) (content.take index.totalBytes)
    (content.drop index.totalBytes)
  rw [List.take_append_drop] at hprefix
  rw [textLines, ← List.map_take, h.count, ← List.prefix_iff_eq_take.mp hprefix]
  rfl

theorem count_le (h : index.Valid content) :
    index.completeLineCount ≤ (textLines content).length := by
  have hlength := congrArg List.length h.take_textLines
  rw [List.length_take, textLines, textLines, List.length_map, List.length_map,
    ← h.count] at hlength
  rw [textLines, List.length_map]
  omega

/-- An index as long as the file counts all its lines. -/
theorem count_eq (h : index.Valid content) (hsize : index.totalBytes = content.length) :
    index.completeLineCount = (textLines content).length := by
  rw [h.count, hsize, List.take_length, textLines, List.length_map]

end LineIndex.Valid

namespace Scan

variable {s : Scan}

theorem Valid.append (h : s.Valid content) (bytes : List UInt8) : s.Valid (content ++ bytes) := by
  refine ⟨h.cursor, ?_, ?_⟩
  · rw [List.length_append]
    exact Nat.le_add_right_of_le h.size
  · rw [List.take_append_of_le_length (Nat.le_trans h.cursor h.size)]
    exact h.offsets

theorem valid_build (ino : ℕ) (content : List UInt8) : (build ino content.length).Valid content :=
  ⟨Nat.zero_le _, Nat.le_refl _, rfl⟩

/-- The start that the old scan left out, because it was the end, is put back. -/
theorem valid_extend {index : LineIndex} (h : index.Valid content) {size : ℕ}
    (hgrown : index.totalBytes < size) (hsize : size ≤ content.length) :
    (extend index size (tailEndsInNewline content index.totalBytes)).Valid content := by
  refine ⟨Nat.le_of_lt hgrown, hsize, ?_⟩
  have hlength : (content.take index.totalBytes).length = index.totalBytes :=
    List.length_take_of_le h.size
  have hend : 0 + (content.take index.totalBytes).length < size := by omega
  have hextend := scan_extend (c := newlineByte) (content.take index.totalBytes) hend
  rw [hlength, Nat.zero_add] at hextend
  simp only [extend, h.offsets, tailEndsInNewline_iff h.size, hextend, List.cons_append]

theorem Valid.feed (h : s.Valid content) (count : ℕ) :
    (s.feed (s.chunk content count)).Valid content := by
  have hsize := h.size
  have hcursor := h.cursor
  have hlength : (s.chunk content count).length ≤ s.endByte - s.cursor := by
    rw [chunk, List.length_take]
    omega
  have htake : content.take (s.cursor + (s.chunk content count).length) =
      content.take s.cursor ++ s.chunk content count := by
    rw [List.take_add, chunk, List.length_take, List.take_eq_take_min, List.take_eq_take_min]
    congr 2
    simp only [List.length_drop]
    omega
  refine ⟨?_, hsize, ?_⟩
  · simp only [Scan.feed]
    omega
  · simp only [Scan.feed]
    rw [htake, scan_append, List.length_take_of_le (Nat.le_trans hcursor hsize), Nat.zero_add,
      h.offsets, List.cons_append]

/-- The stream ends when it has reached its end. -/
theorem Valid.cursor_eq (h : s.Valid content) {count : ℕ} (hcount : count ≠ 0)
    (hnil : s.chunk content count = []) : s.cursor = s.endByte := by
  have hsize := h.size
  have hcursor := h.cursor
  have hlength := congrArg List.length hnil
  rw [chunk, List.length_take, List.length_drop, List.length_nil] at hlength
  omega

theorem Valid.index (h : s.Valid content) (hdone : s.cursor = s.endByte) :
    (s.index (tailEndsInNewline content s.endByte)).Valid content := by
  have hoffsets := h.offsets
  rw [hdone] at hoffsets
  refine ⟨h.size, hoffsets, ?_⟩
  have hlength := length_scan (c := newlineByte) (content.take s.endByte)
  rw [List.length_take_of_le h.size] at hlength
  simp only [Scan.index, computeCompleteLineCount, hoffsets, List.length_cons, hlength,
    tailEndsInNewline_iff h.size, Nat.add_sub_cancel]

end Scan

/-! ### Reading lines -/

theorem decode_closed (ls : List (List UInt8)) :
    Utf8.decode (closed newlineByte ls) = closed newline (ls.map Utf8.decode) := by
  induction ls with
  | nil => rfl
  | cons l ls ih =>
      rw [closed_cons, newlineByte, Utf8.decode_newline, ← newlineByte, ih, List.map_cons,
        closed_cons]

theorem splitLines_closed {ls : List Text} (hls : ∀ l ∈ ls, newline ∉ l) (hne : ls ≠ []) :
    splitLines (closed newline ls) = ls := by
  obtain ⟨hlast, hsplit⟩ := splitOn_closed hls hne
  rw [splitLines, if_pos hlast, hsplit]

namespace LineIndex.Valid

variable {index : LineIndex}

/-- Lines start behind the lines before them. -/
theorem offset_eq (h : index.Valid content) {i : ℕ} (hi : i ≤ index.completeLineCount) :
    index.byteOffsets[i]?.getD index.totalBytes = (closed newlineByte
      ((completeLines newlineByte (content.take index.totalBytes)).take i)).length := by
  rw [h.count] at hi
  have hget := getElem?_scan (content.take index.totalBytes) hi
  rw [List.length_take_of_le h.size] at hget
  rw [h.offsets, hget]

theorem spanStart_lt (h : index.Valid content) {fromLine count : ℕ} (hcount : count ≠ 0)
    (hto : fromLine + count ≤ index.completeLineCount) :
    index.spanStart fromLine < index.spanEnd fromLine count := by
  rw [LineIndex.spanStart, LineIndex.spanEnd, h.offset_eq hto,
    h.offset_eq (Nat.le_trans (Nat.le_add_right ..) hto), List.take_add, closed_append,
    List.length_append]
  rw [h.count] at hto
  apply Nat.lt_add_of_pos_right
  rw [List.length_pos_iff]
  cases hdrop : (completeLines newlineByte (content.take index.totalBytes)).drop fromLine with
  | nil =>
      rw [List.drop_eq_nil_iff] at hdrop
      omega
  | cons l ls =>
      obtain ⟨n, rfl⟩ := Nat.exists_eq_succ_of_ne_zero hcount
      rw [List.take_succ_cons, closed_cons]
      simp

/-- The bytes between the starts are those of the lines. -/
theorem readAt_span (h : index.Valid content) {fromLine count handed : ℕ} (hcount : count ≠ 0)
    (hto : fromLine + count ≤ index.completeLineCount)
    (hhanded : index.span fromLine count ≤ handed) :
    readAt content (index.spanStart fromLine) (index.span fromLine count) handed =
      closed newlineByte (((completeLines newlineByte (content.take index.totalBytes)).drop
        fromLine).take count) := by
  have hend := h.offset_eq hto
  have hstart := h.offset_eq (Nat.le_trans (Nat.le_add_right fromLine count) hto)
  have hclosed := (closed_completeLines (c := newlineByte) (content.take index.totalBytes)).1
  have hslice := slice (c := newlineByte)
    (completeLines newlineByte (content.take index.totalBytes))
    (rest newlineByte (content.take index.totalBytes)) fromLine count
  have hbound : index.spanEnd fromLine count ≤ index.totalBytes := by
    rw [LineIndex.spanEnd, hend]
    have hlength := congrArg List.length hclosed
    have hsplit := congrArg List.length (closed_append newlineByte
      ((completeLines newlineByte (content.take index.totalBytes)).take (fromLine + count))
      ((completeLines newlineByte (content.take index.totalBytes)).drop (fromLine + count)))
    rw [List.length_append, List.length_take_of_le h.size] at hlength
    rw [List.take_append_drop, List.length_append] at hsplit
    omega
  rw [hclosed, ← hend, ← hstart, List.drop_take, List.take_take] at hslice
  have hsize := h.size
  have hlt := h.spanStart_lt hcount hto
  rw [readAt_of_le _ hhanded, ← hslice, LineIndex.span, LineIndex.spanStart, LineIndex.spanEnd]
  · congr 1
    unfold LineIndex.spanStart LineIndex.spanEnd at *
    omega
  · unfold LineIndex.span at *
    omega

/-- The lines read through an index, when the system hands over all of their bytes. -/
theorem readLines_eq (h : index.Valid content) {fromLine count handed : ℕ} (hcount : count ≠ 0)
    (hto : fromLine + count ≤ index.completeLineCount)
    (hhanded : index.span fromLine count ≤ handed) :
    index.readLines fromLine count content handed =
      ((textLines content).drop fromLine).take count := by
  have hlines := (closed_completeLines (c := newlineByte) (content.take index.totalBytes)).2.1
  have htake : ((textLines content).drop fromLine).take count =
      ((textLines (content.take index.totalBytes)).drop fromLine).take count := by
    rw [← h.take_textLines, List.drop_take, List.take_take, Nat.min_eq_left]
    omega
  rw [readLines, h.readAt_span hcount hto hhanded, decode_closed, htake, textLines, List.map_take,
    List.map_drop, splitLines_closed]
  · intro l hl
    obtain ⟨line, hline, rfl⟩ :=
      List.mem_map.mp (List.mem_of_mem_drop (List.mem_of_mem_take hl))
    exact Utf8.newline_not_mem_decode (hlines line hline)
  · intro hnil
    have hlength := congrArg List.length hnil
    rw [List.length_take, List.length_drop, List.length_map, ← h.count,
      List.length_nil] at hlength
    omega

end LineIndex.Valid

end WireTools
