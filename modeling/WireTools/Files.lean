import WireTools.Protobuf

/-! # Files that are read and written piece by piece

Reading or writing a whole file takes several calls of the system, and others may have the file
open meanwhile.

* `Dir`: the files of a directory by name;
* `Reading`: the read of a whole file under way.  While nobody changes the file, what it has read
  is a part from the front (`Reading.Of`, kept by `Reading.of_advance`), and at its end it has the
  file (`Reading.ended_advance`);
* `writeAt`: a file after a write at a position.  Pieces written one behind the other are the front
  of the whole (`writeAt_take`). -/

namespace WireTools.Files

open Protobuf (Bytes)

/-! ### Directories -/

abbrev Dir (κ : Type) := List (κ × Bytes)

namespace Dir

variable {κ : Type} [DecidableEq κ]

def file : Dir κ → κ → Option Bytes
  | [], _ => none
  | entry :: dir, name => if entry.1 = name then some entry.2 else file dir name

def names (dir : Dir κ) : List κ :=
  dir.map Prod.fst

/-- A new file, or a file with new content. -/
def put : Dir κ → κ → Bytes → Dir κ
  | [], name, content => [(name, content)]
  | entry :: dir, name, content =>
      if entry.1 = name then (name, content) :: dir else entry :: put dir name content

theorem file_put (dir : Dir κ) (name : κ) (content : Bytes) (other : κ) :
    (dir.put name content).file other = if other = name then some content else dir.file other := by
  induction dir with
  | nil =>
      simp only [put, file, eq_comm]
  | cons entry dir ih =>
      unfold put
      split
      · next hentry =>
          simp only [file, hentry, eq_comm]
          split <;> rfl
      · next hentry =>
          simp only [file, ih]
          split
          · next hother => rw [if_neg fun heq => hentry (hother.trans heq)]
          · rfl

theorem file_put_self (dir : Dir κ) (name : κ) (content : Bytes) :
    (dir.put name content).file name = some content := by
  rw [file_put, if_pos rfl]

theorem file_put_ne (dir : Dir κ) {name other : κ} (content : Bytes) (h : other ≠ name) :
    (dir.put name content).file other = dir.file other := by
  rw [file_put, if_neg h]

theorem mem_names {dir : Dir κ} {name : κ} :
    name ∈ dir.names ↔ ∃ content, dir.file name = some content := by
  induction dir with
  | nil => exact ⟨nofun, nofun⟩
  | cons entry dir ih =>
      rw [names, List.map_cons, List.mem_cons, file]
      split
      · next hentry => exact ⟨fun _ => ⟨_, rfl⟩, fun _ => Or.inl hentry.symm⟩
      · next hentry =>
          rw [← ih]
          exact or_iff_right fun heq => hentry heq.symm

end Dir

/-! ### Reading -/

/-- The read of a whole file: before it is opened, with the size it had then and what has been read
since, and at its end, with none when there was no file. -/
inductive Reading where
  | waiting
  | reading (size : ℕ) (buffer : Bytes)
  | ended (content : Option Bytes)
  deriving DecidableEq

namespace Reading

/-- What a call that asks for at most `count` bytes returns.  A file that was empty when it was
opened is read up to its end. -/
def piece (content : Bytes) (size position count : ℕ) : Bytes :=
  (content.drop position).take (if size = 0 then count else min count (size - position))

/-- The next call: the file is opened, or some bytes are read. -/
def advance (file : Option Bytes) (count : ℕ) : Reading → Option Reading
  | waiting =>
      match file with
      | none => some (ended none)
      | some content => some (reading content.length [])
  | reading size buffer =>
      if count = 0 then none
      else
        let got := piece (file.getD []) size buffer.length count
        if got = [] ∨ buffer.length + got.length = size then some (ended (some (buffer ++ got)))
        else some (reading size (buffer ++ got))
  | ended _ => none

/-- The file is open. -/
def IsOpen : Reading → Prop
  | reading _ _ => True
  | _ => False

instance : DecidablePred IsOpen
  | reading _ _ => isTrue trivial
  | waiting | ended _ => isFalse id

/-- A read of a file that has not changed since it was opened. -/
def Of (file : Option Bytes) : Reading → Prop
  | reading size buffer => ∃ content, file = some content ∧ size = content.length ∧ buffer <+: content
  | _ => True

variable {r r' : Reading} {file : Option Bytes} {count : ℕ}

theorem piece_prefix {content buffer rest : Bytes} (hrest : buffer ++ rest = content)
    (size count : ℕ) : buffer ++ piece content size buffer.length count <+: content := by
  rw [piece, ← hrest, List.drop_left]
  exact (List.prefix_append_right_inj buffer).mpr (List.take_prefix _ rest)

theorem piece_eq_nil {content buffer rest : Bytes} (hrest : buffer ++ rest = content)
    {count : ℕ} (hcount : count ≠ 0) (h : piece content content.length buffer.length count = []) :
    rest = [] := by
  rw [piece, ← hrest, List.drop_left, List.length_append] at h
  rcases List.take_eq_nil_iff.mp h with hlimit | hnil
  · refine List.length_eq_zero_iff.mp ?_
    split at hlimit
    · exact absurd hlimit hcount
    · omega
  · exact hnil

theorem of_advance (h : r.advance file count = some r') (hof : r.Of file) :
    r'.Of file ∧ ∀ content, r' = ended content → content = file := by
  cases r with
  | ended content => cases h
  | waiting =>
      simp only [advance] at h
      split at h
      · cases h
        refine ⟨trivial, ?_⟩
        rintro _ ⟨⟩
        rfl
      · next content =>
          cases h
          exact ⟨⟨content, rfl, rfl, List.nil_prefix⟩, nofun⟩
  | reading size buffer =>
      obtain ⟨content, rfl, rfl, rest, hrest⟩ := hof
      simp only [advance] at h
      split at h
      · cases h
      · next hcount =>
          rw [Option.getD_some] at h
          have hprefix := piece_prefix hrest content.length count
          split at h
          · next hend =>
              cases h
              refine ⟨trivial, ?_⟩
              rintro _ ⟨⟩
              refine congrArg some ?_
              rcases hend with hnil | hlength
              · rw [hnil, List.append_nil, ← hrest, piece_eq_nil hrest hcount hnil,
                  List.append_nil]
              · rw [← List.length_append] at hlength
                exact hprefix.eq_of_length hlength
          · cases h
            exact ⟨⟨content, rfl, rfl, hprefix⟩, nofun⟩

end Reading

/-! ### Writing -/

/-- A file after a write at a position.  A gap behind the old end is filled with zeros. -/
def writeAt (content : Bytes) (position : ℕ) (piece : Bytes) : Bytes :=
  content.take position ++ List.replicate (position - content.length) 0 ++ piece ++
    content.drop (position + piece.length)

theorem writeAt_take (bytes : Bytes) {position : ℕ} (h : position ≤ bytes.length) (count : ℕ) :
    writeAt (bytes.take position) position ((bytes.drop position).take count) =
      bytes.take (position + count) := by
  have hlength : (bytes.take position).length = position := by
    rw [List.length_take]
    omega
  have hbehind : (bytes.take position).drop (position + ((bytes.drop position).take count).length) =
      [] := List.drop_eq_nil_of_le (by omega)
  rw [writeAt, hbehind, hlength, List.take_take, Nat.min_self, Nat.sub_self, List.replicate_zero,
    List.append_nil, List.append_nil, List.take_add]

end WireTools.Files
