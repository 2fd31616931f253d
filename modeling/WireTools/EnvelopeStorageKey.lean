import Mathlib.Data.List.Induction
import Mathlib.Data.List.TakeWhile
import WireTools.JsonPrint
import WireTools.NodeConfig

/-! # Storage keys of envelopes

An envelope is stored in two files whose names start with its key: the epoch, the endpoints and the
front of its checksum.

* `storageKey` puts a key together, `parseEnvelopeStorageKey` takes it apart again
  (`parse_storageKey`), whatever the endpoints are called;
* `EndpointsTypes`: the enumeration of the generated models, a parameter here;
* the checksum of a metadata record is a number packed from the first digits of the checksum.
  `padStart_hexText`: printed in base sixteen it is these digits without the zeros in front. -/

namespace WireTools.EnvelopeStorage

open Json

def dash : CodeUnit := 45

def ChecksumHexChars : ℕ := 16

def MetadataChecksumHexChars : ℕ := 12

def EpochIndexPadWidth : ℕ := 8

/-! ### Endpoints -/

/-- The object `DebugOutpostEndpointsType`, read at a number and at a name. -/
structure EndpointsTypes where
  name : ℕ → Option Text
  value : Text → Option ℕ

/-- Names are identifiers, no two types share one, and none is called `null`. -/
structure EndpointsTypes.Lawful (types : EndpointsTypes) : Prop where
  value_name : ∀ type key, types.name type = some key → types.value key = some type
  plain : ∀ type key, types.name type = some key → 46 ∉ key
  no_null : types.value (text "null") = none

def UNKNOWN : ℕ := 0

variable (types : EndpointsTypes)

def endpointsTypeToKey (type : ℕ) : Option Text :=
  types.name type

/-- The key of the endpoints inside a template: a number without a name prints as `null`. -/
def endpointsText (type : ℕ) : Text :=
  (endpointsTypeToKey types type).getD (text "null")

def resolveEndpointsType (endpointsKey : Text) : ℕ :=
  (types.value endpointsKey).getD UNKNOWN

variable {types}

theorem resolve_endpointsText (h : types.Lawful) (type : ℕ) :
    resolveEndpointsType types (endpointsText types type) =
      if (types.name type).isSome then type else UNKNOWN := by
  unfold endpointsText endpointsTypeToKey resolveEndpointsType
  cases hname : types.name type with
  | none => rw [Option.getD_none, h.no_null, Option.getD_none, Option.isSome_none, if_neg nofun]
  | some key =>
      rw [Option.getD_some, h.value_name type key hname, Option.getD_some, Option.isSome_some,
        if_pos rfl]

theorem dot_not_mem_endpointsText (h : types.Lawful) (type : ℕ) :
    46 ∉ endpointsText types type := by
  unfold endpointsText endpointsTypeToKey
  cases hname : types.name type with
  | none => exact (by decide : (46 : CodeUnit) ∉ text "null")
  | some key => exact h.plain type key hname

/-! ### Keys -/

def epochText (epochIndex : ℕ) : Text :=
  padStart EpochIndexPadWidth 48 (natText epochIndex)

def storageKey (epochIndex : ℕ) (endpointsKey checksum : Text) : Text :=
  epochText epochIndex ++ dash :: (endpointsKey ++ dash :: checksum)

structure ParsedEnvelopeStorageKey where
  /-- The key itself. -/
  key : Text
  epochIndex : ℕ
  endpointsKey : Text
  checksum : Text
  deriving DecidableEq

def lastIdxOf? (c : CodeUnit) (t : Text) : Option ℕ :=
  (t.reverse.idxOf? c).map fun i => t.length - 1 - i

/-- `parseInt` in base ten, of a text without a minus; none for `NaN`. -/
def parseInt (t : Text) : Option ℕ :=
  let t := t.dropWhile isSpace
  let digits := (if t.head? = some 43 then t.tail else t).takeWhile isDigit
  if digits = [] then none else some (digitsValue digits)

def parseEnvelopeStorageKey (key : Text) : Option ParsedEnvelopeStorageKey :=
  match key.idxOf? dash, lastIdxOf? dash key with
  | some firstDash, some lastDash =>
      if lastDash ≤ firstDash then none
      else
        (parseInt (key.take firstDash)).map fun epochIndex =>
          ⟨key, epochIndex, (key.drop (firstDash + 1)).take (lastDash - (firstDash + 1)),
            key.drop (lastDash + 1)⟩
  | _, _ => none

theorem idxOf?_between {c : CodeUnit} {front : Text} (h : c ∉ front) (back : Text) :
    (front ++ c :: back).idxOf? c = some front.length := by
  induction front with
  | nil => simp [List.idxOf?_cons]
  | cons d front ih =>
      rw [List.mem_cons, not_or] at h
      have hne : ¬d = c := fun heq => h.1 heq.symm
      simp [List.idxOf?_cons, hne, ih h.2]

theorem lastIdxOf?_between {c : CodeUnit} (front : Text) {back : Text} (h : c ∉ back) :
    lastIdxOf? c (front ++ c :: back) = some front.length := by
  have hreverse : (front ++ c :: back).reverse = back.reverse ++ c :: front.reverse := by simp
  have hback : c ∉ back.reverse := fun hmem => h (List.mem_reverse.mp hmem)
  rw [lastIdxOf?, hreverse, idxOf?_between hback, Option.map_some]
  refine congrArg some ?_
  rw [List.length_append, List.length_cons, List.length_reverse]
  omega

/-! #### Epochs -/

theorem isDigit_epochText {epochIndex : ℕ} {c : CodeUnit} (h : c ∈ epochText epochIndex) :
    isDigit c = true := by
  rcases List.mem_append.mp h with hzero | hdigit
  · rw [(List.mem_replicate.mp hzero).2]
    decide
  · exact natText_isDigit _ c hdigit

theorem digitsValue_zeros (n : ℕ) (ds : Text) :
    digitsValue (List.replicate n 48 ++ ds) = digitsValue ds := by
  induction n with
  | zero => rfl
  | succ n ih =>
      rw [List.replicate_succ, List.cons_append]
      exact ih

/-- A digit is no white space, plus, minus or dot. -/
theorem digit_plain {c : CodeUnit} (h : isDigit c = true) :
    isSpace c = false ∧ c ≠ 43 ∧ c ≠ dash ∧ c ≠ 46 := by
  obtain ⟨d, hd, rfl⟩ := exists_digit h
  revert d
  decide

theorem parseInt_digits {ds : Text} (hne : ds ≠ []) (h : ∀ c ∈ ds, isDigit c = true) :
    parseInt ds = some (digitsValue ds) := by
  obtain ⟨c, rest, rfl⟩ := List.exists_cons_of_ne_nil hne
  obtain ⟨hspace, hplus, _⟩ := digit_plain (h c List.mem_cons_self)
  have hfront : (c :: rest).dropWhile isSpace = c :: rest :=
    List.dropWhile_cons_of_neg (by simp [hspace])
  have hsign : ¬(c :: rest).head? = some 43 := by simpa using hplus
  have hall : (c :: rest).takeWhile isDigit = c :: rest :=
    List.takeWhile_eq_self_iff.mpr h
  simp only [parseInt, hfront, if_neg hsign, hall, if_neg hne]

theorem parseInt_epochText (epochIndex : ℕ) :
    parseInt (epochText epochIndex) = some epochIndex := by
  have hne : epochText epochIndex ≠ [] := by
    intro hnil
    exact natText_ne_nil _ (List.append_eq_nil_iff.mp hnil).2
  rw [parseInt_digits hne fun c => isDigit_epochText]
  exact congrArg some ((digitsValue_zeros _ _).trans (digitsValue_natText _))

theorem drop_behind (front : Text) (c : CodeUnit) (back : Text) :
    (front ++ c :: back).drop (front.length + 1) = back := by
  rw [← List.drop_drop, List.drop_left]
  rfl

/-- What a key was made of is read off it. -/
theorem parse_storageKey (epochIndex : ℕ) (endpointsKey : Text) {checksum : Text}
    (h : dash ∉ checksum) :
    parseEnvelopeStorageKey (storageKey epochIndex endpointsKey checksum) =
      some ⟨storageKey epochIndex endpointsKey checksum, epochIndex, endpointsKey, checksum⟩ := by
  have hepoch : dash ∉ epochText epochIndex := fun hmem =>
    (digit_plain (isDigit_epochText hmem)).2.2.1 rfl
  have hfirst : (storageKey epochIndex endpointsKey checksum).idxOf? dash =
      some (epochText epochIndex).length := idxOf?_between hepoch _
  have hassoc : storageKey epochIndex endpointsKey checksum =
      (epochText epochIndex ++ dash :: endpointsKey) ++ dash :: checksum := by
    rw [storageKey, List.append_assoc, List.cons_append]
  have hlength : (epochText epochIndex ++ dash :: endpointsKey).length =
      (epochText epochIndex).length + 1 + endpointsKey.length := by
    rw [List.length_append, List.length_cons]
    omega
  have hlast : lastIdxOf? dash (storageKey epochIndex endpointsKey checksum) =
      some ((epochText epochIndex).length + 1 + endpointsKey.length) := by
    rw [hassoc, lastIdxOf?_between _ h, hlength]
  have hfront : (storageKey epochIndex endpointsKey checksum).take (epochText epochIndex).length =
      epochText epochIndex := List.take_left
  have hmiddle : (storageKey epochIndex endpointsKey checksum).drop
      ((epochText epochIndex).length + 1) = endpointsKey ++ dash :: checksum :=
    drop_behind _ _ _
  have hback : (storageKey epochIndex endpointsKey checksum).drop
      ((epochText epochIndex).length + 1 + endpointsKey.length + 1) = checksum := by
    rw [hassoc, ← hlength]
    exact drop_behind _ _ _
  simp only [parseEnvelopeStorageKey, hfirst, hlast]
  rw [if_neg (by omega), hfront, parseInt_epochText, Option.map_some, hback, hmiddle,
    Nat.add_sub_cancel_left, List.take_left]

/-! ### Checksums -/

/-- A text in lower-case hexadecimal digits. -/
def IsHex (t : Text) : Prop :=
  ∀ c ∈ t, ∃ d < 16, c = hexDigit d

theorem hexDigit_plain : ∀ d < 16, hexDigit d ≠ dash ∧ hexDigit d ≠ 46 := by
  decide

theorem IsHex.not_mem {t : Text} (h : IsHex t) : dash ∉ t ∧ 46 ∉ t := by
  constructor
  · intro hmem
    obtain ⟨d, hd, heq⟩ := h _ hmem
    exact (hexDigit_plain d hd).1 heq.symm
  · intro hmem
    obtain ⟨d, hd, heq⟩ := h _ hmem
    exact (hexDigit_plain d hd).2 heq.symm

/-- `toString(16)` of a number. -/
def hexText (n : ℕ) : Text :=
  (Nat.toDigits 16 n).map digitUnit

/-- The number that hexadecimal digits spell. -/
def hexNumber (ds : Text) : ℕ :=
  ds.foldl (fun n c => n * 16 + (hexValue c).getD 0) 0

/-- The checksum of a metadata record. -/
def packedChecksum (checksum : Text) : ℕ :=
  hexNumber (checksum.take MetadataChecksumHexChars)

theorem digitUnit_hex : ∀ d < 16, digitUnit d.digitChar = hexDigit d := by
  decide

theorem hexText_of_lt {d : ℕ} (h : d < 16) : hexText d = [hexDigit d] := by
  rw [hexText, Nat.toDigits_of_lt_base h, ← digitUnit_hex d h]
  rfl

theorem hexText_append {n d : ℕ} (hn : 0 < n) (hd : d < 16) :
    hexText (n * 16 + d) = hexText n ++ [hexDigit d] := by
  rw [hexText, Nat.toDigits_of_base_le (by omega) (by omega), List.map_append,
    show (n * 16 + d) / 16 = n by omega, show (n * 16 + d) % 16 = d by omega, ← digitUnit_hex d hd]
  rfl

theorem hexNumber_append (ds : Text) {d : ℕ} (h : d < 16) :
    hexNumber (ds ++ [hexDigit d]) = hexNumber ds * 16 + d := by
  rw [hexNumber, List.foldl_append, List.foldl_cons, List.foldl_nil, hexValue_hexDigit d h,
    Option.getD_some]
  rfl

/-- The digits of a number, with zeros in front, are the digits it was spelt with. -/
theorem padStart_hexText (ds : Text) (hne : ds ≠ []) (h : IsHex ds) :
    padStart ds.length 48 (hexText (hexNumber ds)) = ds := by
  induction ds using List.reverseRecOn with
  | nil => exact absurd rfl hne
  | append_singleton ds c ih =>
      obtain ⟨d, hd, rfl⟩ := h c (List.mem_append_right _ List.mem_cons_self)
      rw [hexNumber_append ds hd, List.length_append, List.length_singleton]
      have hds : IsHex ds := fun c hc => h c (List.mem_append_left _ hc)
      by_cases hzero : hexNumber ds = 0
      · -- All digits so far are zeros.
        rw [hzero, Nat.zero_mul, Nat.zero_add, hexText_of_lt hd, padStart, List.length_singleton,
          Nat.add_sub_cancel]
        refine congrArg (· ++ [hexDigit d]) ?_
        cases ds with
        | nil => rfl
        | cons e es =>
            have ih := ih (List.cons_ne_nil e es) hds
            rw [hzero, hexText_of_lt (by omega), padStart, List.length_singleton,
              List.length_cons, Nat.add_sub_cancel] at ih
            rw [List.length_cons, List.replicate_succ']
            exact ih
      · have hne : ds ≠ [] := by
          rintro rfl
          exact hzero rfl
        rw [hexText_append (by omega) hd, padStart, List.length_append, List.length_singleton,
          Nat.add_sub_add_right, ← List.append_assoc]
        exact congrArg (· ++ [hexDigit d]) (ih hne hds)

theorem hexNumber_lt (ds : Text) (h : IsHex ds) : hexNumber ds < 16 ^ ds.length := by
  induction ds using List.reverseRecOn with
  | nil => exact Nat.one_pos
  | append_singleton ds c ih =>
      obtain ⟨d, hd, rfl⟩ := h c (List.mem_append_right _ List.mem_cons_self)
      have hds := ih fun c hc => h c (List.mem_append_left _ hc)
      rw [hexNumber_append ds hd, List.length_append, List.length_singleton, Nat.pow_succ]
      omega

theorem packedChecksum_lt (checksum : Text) (h : IsHex checksum) :
    packedChecksum checksum < 2 ^ 64 := by
  have hlt := hexNumber_lt (checksum.take MetadataChecksumHexChars) fun c hc =>
    h c (List.mem_of_mem_take hc)
  have hle : 16 ^ (checksum.take MetadataChecksumHexChars).length ≤ 16 ^ 12 :=
    Nat.pow_le_pow_right (by omega) (by rw [List.length_take]; exact Nat.min_le_left _ _)
  rw [packedChecksum]
  omega

/-! ### Files -/

namespace StorageFile

def Data : Text := text ".data"

def Metadata : Text := text ".metadata"

end StorageFile

def dataFile (key : Text) : Text := key ++ StorageFile.Data

def metadataFile (key : Text) : Text := key ++ StorageFile.Metadata

theorem dataFile_inj {key key' : Text} : dataFile key = dataFile key' ↔ key = key' :=
  ⟨List.append_cancel_right, fun h => h ▸ rfl⟩

theorem metadataFile_inj {key key' : Text} : metadataFile key = metadataFile key' ↔ key = key' :=
  ⟨List.append_cancel_right, fun h => h ▸ rfl⟩

theorem dataFile_ne_metadataFile (key key' : Text) : dataFile key ≠ metadataFile key' := by
  intro h
  have hback := congrArg (fun name => name.reverse.take 5) h
  simp only [dataFile, metadataFile, List.reverse_append] at hback
  rw [List.take_append_of_le_length (by decide), List.take_append_of_le_length (by decide)] at hback
  exact absurd hback (by decide)

def hasExtension (extension name : Text) : Bool :=
  extension.isSuffixOf name

/-- A file name without the extension it ends with. -/
def withoutExtension (extension name : Text) : Text :=
  name.take (name.length - extension.length)

theorem hasExtension_append (key extension : Text) :
    hasExtension extension (key ++ extension) = true :=
  List.isSuffixOf_iff_suffix.mpr (List.suffix_append key extension)

theorem withoutExtension_append (key extension : Text) :
    withoutExtension extension (key ++ extension) = key := by
  rw [withoutExtension, List.length_append, Nat.add_sub_cancel, List.take_left]

/-- `String.replace` of a text: its first occurrence is replaced. -/
def replaceFirst (pattern replacement : Text) : Text → Text
  | [] => []
  | c :: t =>
      if pattern.isPrefixOf (c :: t) then replacement ++ (c :: t).drop pattern.length
      else c :: replaceFirst pattern replacement t

theorem replaceFirst_append {c : CodeUnit} {front : Text} (h : c ∉ front)
    (pattern replacement : Text) :
    replaceFirst (c :: pattern) replacement (front ++ c :: pattern) = front ++ replacement := by
  induction front with
  | nil =>
      rw [List.nil_append, replaceFirst, if_pos (List.isPrefixOf_iff_prefix.mpr (List.prefix_refl _)),
        List.drop_length, List.append_nil, List.nil_append]
  | cons d front ih =>
      rw [List.mem_cons, not_or] at h
      rw [List.cons_append, replaceFirst, if_neg, ih h.2, List.cons_append]
      intro hprefix
      exact h.1 (List.cons_prefix_cons.mp (List.isPrefixOf_iff_prefix.mp hprefix)).1

end WireTools.EnvelopeStorage
