import WireTools.Chunks
import WireTools.LineIndex

/-! # Extending a line index and building it anew

* `buildLineIndex` scans a whole file, `extendLineIndex` what a file has grown by; a new inode is
  a new file.  Both read in chunks (`streamNewlineOffsets`), and the chunks do not matter
  (`feed_chunks`);
* `Fresh`: an index of all of a file.  There is one (`Fresh.unique`), both functions make it;
* `line_index_rebuild`: extended over any history of the file, an index is the one built from the
  file as it is. -/

namespace WireTools

open Lines

/-- A file as a scan finds it. -/
structure LogFile where
  ino : ℕ
  content : List UInt8
  deriving DecidableEq

/-- The offsets found between the cursor and the end, in chunks of `chunkSize` bytes. -/
def streamNewlineOffsets (chunkSize : ℕ) (content : List UInt8) (s : Scan) : Scan :=
  (chunks chunkSize ((content.drop s.cursor).take (s.endByte - s.cursor))).foldl Scan.feed s

def buildLineIndex (chunkSize : ℕ) (file : LogFile) : LineIndex :=
  (streamNewlineOffsets chunkSize file.content (.build file.ino file.content.length)).index
    (tailEndsInNewline file.content file.content.length)

def extendLineIndex (chunkSize : ℕ) (index : LineIndex) (file : LogFile) : LineIndex :=
  if file.ino ≠ index.ino then buildLineIndex chunkSize file
  else if file.content.length ≤ index.totalBytes then index
  else
    let oldTailIsNewline := tailEndsInNewline file.content index.totalBytes
    (streamNewlineOffsets chunkSize file.content
      (.extend index file.content.length oldTailIsNewline)).index
        (tailEndsInNewline file.content file.content.length)

/-- `count` lines from `fromLine` on; the read hands over all the bytes asked for. -/
def LineIndex.read (index : LineIndex) (content : List UInt8) (fromLine count : ℕ) : List Text :=
  if index.spanEnd fromLine count ≤ index.spanStart fromLine then []
  else index.readLines fromLine count content (index.span fromLine count)

/-! ### Chunks -/

theorem feed_chunks (s : Scan) (pieces : List (List UInt8)) :
    pieces.foldl Scan.feed s = s.feed pieces.flatten := by
  induction pieces generalizing s with
  | nil => simp [Scan.feed, scan]
  | cons piece pieces ih =>
      rw [List.foldl_cons, ih, List.flatten_cons, Scan.feed, Scan.feed, Scan.feed, scan_append,
        List.length_append, List.append_assoc, Nat.add_assoc]

theorem ino_stream (chunkSize : ℕ) (content : List UInt8) (s : Scan) :
    (streamNewlineOffsets chunkSize content s).ino = s.ino := by
  rw [streamNewlineOffsets, feed_chunks, Scan.feed]

theorem endByte_stream (chunkSize : ℕ) (content : List UInt8) (s : Scan) :
    (streamNewlineOffsets chunkSize content s).endByte = s.endByte := by
  rw [streamNewlineOffsets, feed_chunks, Scan.feed]

/-- Whatever the chunks, a valid scan ends as a valid index of the file. -/
theorem Scan.Valid.stream {s : Scan} {content : List UInt8} (h : s.Valid content) {chunkSize : ℕ}
    (hsize : 0 < chunkSize) :
    ((streamNewlineOffsets chunkSize content s).index
      (tailEndsInNewline content s.endByte)).Valid content := by
  have hfeed : streamNewlineOffsets chunkSize content s =
      s.feed (s.chunk content (s.endByte - s.cursor)) := by
    rw [streamNewlineOffsets, feed_chunks, flatten_chunks hsize, Scan.chunk, Nat.min_self]
  have hend : (s.feed (s.chunk content (s.endByte - s.cursor))).cursor = s.endByte := by
    have hcursor := h.cursor
    have hlength := h.size
    simp only [Scan.feed, Scan.chunk, List.length_take, List.length_drop]
    omega
  rw [hfeed]
  exact (h.feed _).index hend

/-! ### The index of a file -/

/-- The index counts all of the file. -/
structure Fresh (index : LineIndex) (file : LogFile) : Prop where
  valid : index.Valid file.content
  ino : index.ino = file.ino
  size : index.totalBytes = file.content.length

theorem Fresh.unique {index other : LineIndex} {file : LogFile} (h : Fresh index file)
    (h' : Fresh other file) : index = other := by
  obtain ⟨ino, byteOffsets, totalBytes, completeLineCount⟩ := index
  obtain ⟨⟨-, hoffsets, hcount⟩, rfl, rfl⟩ := h
  obtain ⟨ino, byteOffsets, totalBytes, completeLineCount⟩ := other
  obtain ⟨⟨-, hoffsets', hcount'⟩, rfl, rfl⟩ := h'
  dsimp only at *
  rw [hoffsets, hoffsets', hcount, hcount']

theorem fresh_build {chunkSize : ℕ} (hsize : 0 < chunkSize) (file : LogFile) :
    Fresh (buildLineIndex chunkSize file) file where
  valid := (Scan.valid_build file.ino file.content).stream hsize
  ino := ino_stream _ _ _
  size := endByte_stream _ _ _

/-- The file is the old one grown, or another one. -/
def Grown (old file : LogFile) : Prop :=
  old.ino = file.ino → old.content <+: file.content

theorem Fresh.extend {chunkSize : ℕ} (hsize : 0 < chunkSize) {index : LineIndex}
    {old file : LogFile} (h : Fresh index old) (hgrown : Grown old file) :
    Fresh (extendLineIndex chunkSize index file) file := by
  unfold extendLineIndex
  split
  · exact fresh_build hsize file
  · next hino =>
      have hino : index.ino = file.ino := (not_not.mp hino).symm
      obtain ⟨bytes, hbytes⟩ := hgrown (h.ino.symm.trans hino)
      have hvalid : index.Valid file.content := hbytes ▸ h.valid.append bytes
      split
      · next hshort => exact ⟨hvalid, hino, Nat.le_antisymm hvalid.size hshort⟩
      · next hlong =>
          have hextend := Scan.valid_extend hvalid (Nat.lt_of_not_le hlong) (Nat.le_refl _)
          exact ⟨hextend.stream hsize, (ino_stream _ _ _).trans hino, endByte_stream _ _ _⟩

theorem fresh_extended {chunkSize : ℕ} (hsize : 0 < chunkSize) {index : LineIndex}
    {first : LogFile} (h : Fresh index first) {scans : List LogFile}
    (hscans : (first :: scans).IsChain Grown) :
    Fresh (scans.foldl (extendLineIndex chunkSize) index)
      ((first :: scans).getLast (List.cons_ne_nil _ _)) := by
  induction scans generalizing index first with
  | nil => exact h
  | cons file scans ih =>
      obtain ⟨hgrown, hrest⟩ := List.isChain_cons_cons.mp hscans
      rw [List.foldl_cons, List.getLast_cons (List.cons_ne_nil _ _)]
      exact ih (h.extend hsize hgrown) hrest

/-! ### Line starts -/

namespace LineIndex.Valid

variable {index : LineIndex} {content : List UInt8}

/-- The lines read through an index, none included. -/
theorem read_eq (h : index.Valid content) {fromLine count : ℕ}
    (hto : fromLine + count ≤ index.completeLineCount) :
    index.read content fromLine count = ((textLines content).drop fromLine).take count := by
  unfold LineIndex.read
  by_cases hcount : count = 0
  · subst hcount
    have hend : index.spanEnd fromLine 0 = index.spanStart fromLine := rfl
    rw [if_pos (Nat.le_of_eq hend), List.take_zero]
  · rw [if_neg (Nat.not_le.mpr (h.spanStart_lt hcount hto))]
    exact h.readLines_eq hcount hto (Nat.le_refl _)

end LineIndex.Valid

/-- Extended over any history of a file, an index is the index built from the last scan's file;
its offsets are the line starts, in order, and it reads the lines of the file. -/
theorem line_index_rebuild {chunkSize : ℕ} (hsize : 0 < chunkSize) {first : LogFile}
    {scans : List LogFile} (hscans : (first :: scans).IsChain Grown) :
    let file := (first :: scans).getLast (List.cons_ne_nil _ _)
    let index := scans.foldl (extendLineIndex chunkSize) (buildLineIndex chunkSize first)
    index = buildLineIndex chunkSize file ∧
      index.byteOffsets.Pairwise (· < ·) ∧
      (∀ o, o ∈ index.byteOffsets ↔ o = 0 ∨ o < file.content.length ∧
        ∃ i, o = i + 1 ∧ file.content[i]? = some newlineByte) ∧
      ∀ fromLine count, fromLine + count ≤ index.completeLineCount →
        index.read file.content fromLine count =
          ((textLines file.content).drop fromLine).take count := by
  intro file index
  have hfresh : Fresh index file := fresh_extended hsize (fresh_build hsize first) hscans
  have hoffsets : index.byteOffsets = 0 :: scan newlineByte 0 file.content.length file.content := by
    rw [hfresh.valid.offsets, hfresh.size, List.take_length]
  refine ⟨hfresh.unique (fresh_build hsize file), ?_, fun o => ?_, fun fromLine count hto => ?_⟩
  · rw [hoffsets]
    exact pairwise_scan 0 _ _
  · rw [hoffsets, List.mem_cons, mem_scan]
    simp
  · exact hfresh.valid.read_eq hto

/-- A partial line, its end, nothing new, then another file. -/
theorem line_index_rebuild_rotated :
    let scans : List LogFile := [⟨1, [97, 10]⟩, ⟨1, [97, 10]⟩, ⟨2, [98, 10, 10, 99]⟩]
    scans.foldl (extendLineIndex 1) (buildLineIndex 1 ⟨1, [97]⟩) =
      buildLineIndex 1 ⟨2, [98, 10, 10, 99]⟩ := by
  refine (line_index_rebuild (by decide) (List.isChain_cons_cons.mpr ⟨?_,
    List.isChain_cons_cons.mpr ⟨?_, List.isChain_cons_cons.mpr ⟨?_, List.IsChain.singleton _⟩⟩⟩)).1
  · exact fun _ => by decide
  · exact fun _ => by decide
  · exact fun hino => by cases hino

end WireTools
