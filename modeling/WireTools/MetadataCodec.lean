import WireTools.EnvelopeStore
import WireTools.Utf8

/-! # Metadata records in the wire format

A codec of the kind the generated models have: a varint for the checksum, left out when it is
zero, and a string for each operator.

* `fromBinary_toBinary`: a record whose names are well formed is read back;
* `Models.Lawful`: what the store relies on;
* `emptyModels`: models that agree with the generated ones on the empty envelope. -/

namespace WireTools.EnvelopeStorage

open Protobuf

/-! ### Records -/

namespace MetadataCodec

@[match_pattern] def checksumField : ℕ := 1

@[match_pattern] def batchOpNamesField : ℕ := 2

def fields (m : DebugEnvelopeMetadataRecord) : List Field :=
  (if m.checksum = 0 then [] else [⟨checksumField, .varint m.checksum⟩]) ++
    m.batchOpNames.map fun name => ⟨batchOpNamesField, .lengthDelimited (Utf8.encode name)⟩

def checksumOf : Field → Option ℕ
  | ⟨checksumField, .varint n⟩ => some n
  | _ => none

def nameOf : Field → Option Text
  | ⟨batchOpNamesField, .lengthDelimited bytes⟩ => some (Utf8.decode bytes)
  | _ => none

def toBinary (m : DebugEnvelopeMetadataRecord) : Bytes :=
  encode (fields m)

def fromBinary (bytes : Bytes) : Option DebugEnvelopeMetadataRecord :=
  (parse readVarint bytes).map fun fields =>
    { checksum := (fields.filterMap checksumOf).getLast?.getD 0
      batchOpNames := fields.filterMap nameOf }

theorem valid_fields (m : DebugEnvelopeMetadataRecord) :
    ∀ f ∈ fields m, f.Valid fun _ => True := by
  intro f hf
  rcases List.mem_append.mp hf with hchecksum | hname
  · split at hchecksum
    · cases hchecksum
    · rw [List.mem_singleton.mp hchecksum]
      exact ⟨Nat.one_pos, trivial, trivial⟩
  · obtain ⟨name, _, rfl⟩ := List.mem_map.mp hname
    exact ⟨Nat.two_pos, trivial, trivial⟩

theorem fromBinary_toBinary {m : DebugEnvelopeMetadataRecord}
    (h : ∀ name ∈ m.batchOpNames, Utf8.WellFormed name) : fromBinary (toBinary m) = some m := by
  have hnames : ((m.batchOpNames.map fun name =>
      (⟨batchOpNamesField, .lengthDelimited (Utf8.encode name)⟩ : Field)).filterMap nameOf) =
        m.batchOpNames := by
    rw [List.filterMap_map]
    have hname : ∀ name ∈ m.batchOpNames, (nameOf ∘ fun name =>
        (⟨batchOpNamesField, .lengthDelimited (Utf8.encode name)⟩ : Field)) name = some name :=
      fun name hname => congrArg some (Utf8.decode_encode (h name hname))
    rw [List.filterMap_congr hname, List.filterMap_some]
  have hnone : ((m.batchOpNames.map fun name =>
      (⟨batchOpNamesField, .lengthDelimited (Utf8.encode name)⟩ : Field)).filterMap checksumOf) =
        [] := by
    rw [List.filterMap_map]
    exact List.filterMap_eq_nil_iff.mpr fun _ _ => rfl
  rw [fromBinary, toBinary, parse_encode readsBack_readVarint (valid_fields m), Option.map_some,
    fields, List.filterMap_append, List.filterMap_append, hnames, hnone, List.append_nil]
  obtain ⟨checksum, batchOpNames⟩ := m
  dsimp only
  split
  · next hzero =>
      rw [hzero]
      rfl
  · rfl

end MetadataCodec

/-! ### Models -/

structure Models.Lawful (models : Models) : Prop where
  endpoints : models.DebugOutpostEndpointsType.Lawful
  digest : ∀ bytes, (models.sha256 bytes).length = 64 ∧ IsHex (models.sha256 bytes)
  metadata : ∀ m : DebugEnvelopeMetadataRecord, m.checksum < 2 ^ 64 →
    (∀ name ∈ m.batchOpNames, Utf8.WellFormed name) →
    models.metadataFromBinary (models.metadataToBinary m) = some m

def endpointsNames : List Text :=
  [text "UNKNOWN", text "OUTPOST_ETHEREUM_DEPOT", text "OUTPOST_SOLANA_DEPOT",
    text "DEPOT_OUTPOST_ETHEREUM", text "DEPOT_OUTPOST_SOLANA"]

/-- The digest of no bytes. -/
def emptyDigest : Text :=
  text "e3b0c44298fc1c149afbf4c8996fb92427ae41e4649b934ca495991b7852b855"

def emptyModels : Models where
  Envelope := Unit
  DebugOutpostEndpointsType :=
    { name := fun type => endpointsNames[type]?
      value := fun key => endpointsNames.idxOf? key }
  envelopeFromBinary bytes := if bytes = [] then some () else none
  epochIndex _ := 0
  metadataToBinary := MetadataCodec.toBinary
  metadataFromBinary := MetadataCodec.fromBinary
  sha256 _ := emptyDigest

theorem emptyModels_lawful : emptyModels.Lawful where
  endpoints :=
    { value_name := fun type key hname => by
        obtain ⟨hlt, _⟩ := List.getElem?_eq_some_iff.mp hname
        have hvalue : ∀ type < 5, ∀ key ∈ endpointsNames[type]?,
            endpointsNames.idxOf? key = some type := by decide
        exact hvalue type hlt key hname
      plain := fun type key hname => by
        have hplain : ∀ key ∈ endpointsNames, 46 ∉ key := by decide
        exact hplain key (List.mem_of_getElem? hname)
      no_null := by decide }
  digest _ := by
    have hlength : emptyDigest.length = 64 := by decide
    have hhex : ∀ c ∈ emptyDigest, ∃ d < 16, c = Json.hexDigit d := by decide
    exact ⟨hlength, hhex⟩
  metadata m _ hnames := MetadataCodec.fromBinary_toBinary hnames

end WireTools.EnvelopeStorage
