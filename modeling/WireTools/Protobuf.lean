import Mathlib.Algebra.Group.Nat.Defs
import Mathlib.Data.List.Basic

/-! # The protobuf wire format

* `varint`: base-128 groups, least significant first; `readVarint` reads a number of any
  magnitude, `readVarint64` as a 64-bit parser does, ten bytes at most;
* `encode` writes a list of fields, `parse` reads one back with whichever varint reader it is
  given; unknown wire types and the field number 0 are refused;
* `parse_encode`: a parser reads back every field whose numbers its varint reader can read. -/

namespace WireTools.Protobuf

abbrev Bytes := List UInt8

/-! ### Varints -/

def varint (n : ℕ) : Bytes :=
  if n < 128 then [UInt8.ofNat n] else UInt8.ofNat (n % 128 + 128) :: varint (n / 128)
termination_by n
decreasing_by omega

def readVarint : Bytes → Option (ℕ × Bytes)
  | [] => none
  | b :: bytes =>
      if b.toNat < 128 then some (b.toNat, bytes)
      else (readVarint bytes).map fun r => (b.toNat - 128 + 128 * r.1, r.2)

/-- The reader of a parser whose varints are unsigned 64-bit numbers of at most ten bytes. -/
def readVarint64 (bytes : Bytes) : Option (ℕ × Bytes) :=
  (readVarint bytes).filter fun r =>
    decide (r.1 < 2 ^ 64) && decide (bytes.length ≤ r.2.length + 10)

theorem varint_small {n : ℕ} (h : n < 128) : varint n = [UInt8.ofNat n] := by
  rw [varint, if_pos h]

theorem varint_large {n : ℕ} (h : ¬ n < 128) :
    varint n = UInt8.ofNat (n % 128 + 128) :: varint (n / 128) := by
  rw [varint, if_neg h]

theorem varint_ne_nil (n : ℕ) : varint n ≠ [] := by
  rw [varint]
  split <;> simp

theorem readVarint_varint (n : ℕ) (rest : Bytes) :
    readVarint (varint n ++ rest) = some (n, rest) := by
  induction n using Nat.strongRecOn with
  | ind n ih =>
      by_cases h : n < 128
      · have hb : (UInt8.ofNat n).toNat = n := by
          rw [UInt8.toNat_ofNat']
          omega
        rw [varint_small h, List.singleton_append, readVarint, hb, if_pos h]
      · have hb : (UInt8.ofNat (n % 128 + 128)).toNat = n % 128 + 128 := by
          rw [UInt8.toNat_ofNat']
          omega
        have hn : n % 128 + 128 - 128 + 128 * (n / 128) = n := by omega
        rw [varint_large h, List.cons_append, readVarint, hb, if_neg (by omega),
          ih (n / 128) (by omega), Option.map_some, hn]

theorem length_varint_le {k : ℕ} : ∀ {n : ℕ}, n < 128 ^ (k + 1) → (varint n).length ≤ k + 1 := by
  induction k with
  | zero =>
      intro n h
      rw [varint_small (by simpa using h)]
      exact Nat.le_refl _
  | succ k ih =>
      intro n h
      by_cases hn : n < 128
      · rw [varint_small hn]
        exact Nat.succ_le_succ (Nat.zero_le _)
      · rw [varint_large hn, List.length_cons]
        have hdiv : n / 128 < 128 ^ (k + 1) := by
          rw [Nat.div_lt_iff_lt_mul (by omega)]
          rwa [Nat.pow_succ] at h
        have := ih hdiv
        omega

theorem readVarint64_varint {n : ℕ} (h : n < 2 ^ 64) (rest : Bytes) :
    readVarint64 (varint n ++ rest) = some (n, rest) := by
  have hlen : (varint n).length ≤ 10 := length_varint_le (k := 9) (by omega)
  have hbytes : (varint n ++ rest).length ≤ rest.length + 10 := by
    rw [List.length_append]
    omega
  rw [readVarint64, readVarint_varint, Option.filter_some, if_pos]
  rw [Bool.and_eq_true, decide_eq_true_eq, decide_eq_true_eq]
  exact ⟨h, hbytes⟩

/-- The reader gets back every number with `P` that was written, whatever follows it. -/
def ReadsBack (read : Bytes → Option (ℕ × Bytes)) (P : ℕ → Prop) : Prop :=
  ∀ n rest, P n → read (varint n ++ rest) = some (n, rest)

theorem readsBack_readVarint : ReadsBack readVarint fun _ => True :=
  fun n rest _ => readVarint_varint n rest

theorem readsBack_readVarint64 : ReadsBack readVarint64 fun n => n < 2 ^ 64 :=
  fun _ rest h => readVarint64_varint h rest

/-! ### Fields -/

inductive Value where
  | varint (n : ℕ)
  | fixed64 (bytes : Bytes)
  | lengthDelimited (bytes : Bytes)
  | fixed32 (bytes : Bytes)
  deriving DecidableEq

structure Field where
  number : ℕ
  value : Value
  deriving DecidableEq

def Value.wireType : Value → ℕ
  | varint _ => 0
  | fixed64 _ => 1
  | lengthDelimited _ => 2
  | fixed32 _ => 5

def Value.encode : Value → Bytes
  | varint n => Protobuf.varint n
  | fixed64 bytes => bytes
  | lengthDelimited bytes => Protobuf.varint bytes.length ++ bytes
  | fixed32 bytes => bytes

def Field.tag (f : Field) : ℕ :=
  f.number * 8 + f.value.wireType

def Field.encode (f : Field) : Bytes :=
  varint f.tag ++ f.value.encode

def encode (fields : List Field) : Bytes :=
  fields.flatMap Field.encode

/-! ### The parser -/

def takeBytes (n : ℕ) (bytes : Bytes) : Option (Bytes × Bytes) :=
  if n ≤ bytes.length then some (bytes.take n, bytes.drop n) else none

variable (read : Bytes → Option (ℕ × Bytes))

/-- A value of the given wire type; the deprecated groups are refused. -/
def readValue (wireType : ℕ) (bytes : Bytes) : Option (Value × Bytes) :=
  match wireType with
  | 0 => (read bytes).map fun r => (.varint r.1, r.2)
  | 1 => (takeBytes 8 bytes).map fun r => (.fixed64 r.1, r.2)
  | 2 => (read bytes).bind fun r => (takeBytes r.1 r.2).map fun s => (.lengthDelimited s.1, s.2)
  | 5 => (takeBytes 4 bytes).map fun r => (.fixed32 r.1, r.2)
  | _ => none

def readField (bytes : Bytes) : Option (Field × Bytes) :=
  (read bytes).bind fun r =>
    if r.1 / 8 = 0 then none
    else (readValue read (r.1 % 8) r.2).map fun s => (⟨r.1 / 8, s.1⟩, s.2)

/-- Fields until the bytes run out; every field takes at least one of them. -/
def parseFields : ℕ → Bytes → Option (List Field)
  | 0, bytes => if bytes.isEmpty then some [] else none
  | fuel + 1, bytes =>
      if bytes.isEmpty then some []
      else (readField read bytes).bind fun r => (parseFields fuel r.2).map fun fs => r.1 :: fs

def parse (bytes : Bytes) : Option (List Field) :=
  parseFields read bytes.length bytes

/-! ### Reading back -/

/-- A field that a reader of the numbers with `P` reads back. -/
def Field.Valid (P : ℕ → Prop) (f : Field) : Prop :=
  0 < f.number ∧ P f.tag ∧
    match f.value with
    | .varint n => P n
    | .fixed64 bytes => bytes.length = 8
    | .lengthDelimited bytes => P bytes.length
    | .fixed32 bytes => bytes.length = 4

variable {read} {P : ℕ → Prop}

theorem takeBytes_append {n : ℕ} {bytes : Bytes} (h : bytes.length = n) (rest : Bytes) :
    takeBytes n (bytes ++ rest) = some (bytes, rest) := by
  subst h
  rw [takeBytes, if_pos (by simp), List.take_left, List.drop_left]

theorem readField_encode (hread : ReadsBack read P) {f : Field} (h : f.Valid P) (rest : Bytes) :
    readField read (f.encode ++ rest) = some (f, rest) := by
  obtain ⟨number, value⟩ := f
  obtain ⟨hnumber, htag, hvalue⟩ := h
  have hdiv : ∀ {t}, t < 8 → (number * 8 + t) / 8 = number ∧ (number * 8 + t) % 8 = t := by
    omega
  have hpos : ¬ number = 0 := by
    have : 0 < number := hnumber
    omega
  rw [readField, Field.encode, List.append_assoc, hread _ _ htag, Option.bind_some]
  cases value with
  | varint n =>
      rw [Field.tag, Value.wireType, (hdiv (by omega)).1, (hdiv (by omega)).2, if_neg hpos]
      simp only [readValue, Value.encode, hread n rest hvalue, Option.map_some]
  | fixed64 bytes =>
      rw [Field.tag, Value.wireType, (hdiv (by omega)).1, (hdiv (by omega)).2, if_neg hpos]
      simp only [readValue, Value.encode, takeBytes_append hvalue rest, Option.map_some]
  | lengthDelimited bytes =>
      rw [Field.tag, Value.wireType, (hdiv (by omega)).1, (hdiv (by omega)).2, if_neg hpos]
      simp only [readValue, Value.encode, List.append_assoc, hread _ _ hvalue,
        Option.bind_some, takeBytes_append rfl rest, Option.map_some]
  | fixed32 bytes =>
      rw [Field.tag, Value.wireType, (hdiv (by omega)).1, (hdiv (by omega)).2, if_neg hpos]
      simp only [readValue, Value.encode, takeBytes_append hvalue rest, Option.map_some]

theorem encode_field_length (f : Field) : 1 ≤ f.encode.length := by
  rw [Field.encode, List.length_append]
  have := List.length_pos_iff.mpr (varint_ne_nil f.tag)
  omega

theorem length_le_encode (fs : List Field) : fs.length ≤ (encode fs).length := by
  induction fs with
  | nil => exact Nat.le_refl _
  | cons f fs ih =>
      rw [encode, List.flatMap_cons, List.length_append, List.length_cons]
      have := encode_field_length f
      rw [encode] at ih
      omega

theorem parseFields_encode (hread : ReadsBack read P) :
    ∀ {fs : List Field} {fuel : ℕ}, fs.length ≤ fuel → (∀ f ∈ fs, f.Valid P) →
      parseFields read fuel (encode fs) = some fs
  | [], 0, _, _ => rfl
  | [], _ + 1, _, _ => rfl
  | f :: fs, fuel + 1, hlen, h => by
      have hne : ¬ (encode (f :: fs)).isEmpty = true := by
        rw [List.isEmpty_iff]
        intro hnil
        have := length_le_encode (f :: fs)
        rw [hnil] at this
        simp at this
      rw [parseFields, if_neg hne, encode, List.flatMap_cons,
        readField_encode hread (h f (by simp)), Option.bind_some]
      have ih := @parseFields_encode hread fs fuel (by simpa using hlen)
        fun g hg => h g (List.mem_cons_of_mem _ hg)
      rw [encode] at ih
      rw [ih, Option.map_some]

theorem parse_encode (hread : ReadsBack read P) {fs : List Field} (h : ∀ f ∈ fs, f.Valid P) :
    parse read (encode fs) = some fs :=
  parseFields_encode hread (length_le_encode fs) h

/-- Different fields are written differently. -/
theorem encode_injective {fs gs : List Field} (hf : ∀ f ∈ fs, f.Valid fun _ => True)
    (hg : ∀ g ∈ gs, g.Valid fun _ => True) (h : encode fs = encode gs) : fs = gs := by
  have hparse := parse_encode readsBack_readVarint hf
  rw [h, parse_encode readsBack_readVarint hg] at hparse
  exact (Option.some.inj hparse).symm

end WireTools.Protobuf
