import WireTools.EnvelopeCodec

/-! # Pre-images of message headers

* every canonical body is the wire encoding of its fields;
* the payload's bytes decode to the version and the attestations they were made from, with any
  varint reader that reads the numbers in them (`decodePayload_canonical`);
* `headerChecksum_injective`: where the hash does not collide on the pre-images, headers with
  one checksum have one input. -/

namespace WireTools.EnvelopeCodec

open Protobuf

/-! ### Bodies as fields -/

theorem canonicalVarint_eq (n : ℕ) : canonicalVarint n = varint n := by
  induction n using Nat.strongRecOn with
  | ind n ih =>
      rw [canonicalVarint, varint]
      by_cases h : n < 128
      · rw [if_neg (by omega), if_pos h]
      · have hand : n &&& 0x7f = n % 128 := Nat.and_two_pow_sub_one_eq_mod n 7
        have hor : n % 128 ||| 0x80 = n % 128 + 128 := by
          have hlt : n % 128 < 2 ^ 7 := Nat.mod_lt _ (by omega)
          have := Nat.two_pow_add_eq_or_of_lt hlt 1
          rw [Nat.or_comm, ← this, Nat.add_comm]
        have hshift : n >>> 7 = n / 128 := Nat.shiftRight_eq_div_pow n 7
        rw [if_pos (by omega), if_neg h, hand, hor, hshift, ih (n / 128) (by omega)]

theorem canonicalTag_eq {field wireType : ℕ} (h : wireType < 8) :
    canonicalTag field wireType = varint (field * 8 + wireType) := by
  have hor : (field <<< 3) ||| wireType = field * 8 + wireType := by
    have := Nat.two_pow_add_eq_or_of_lt (i := 3) h field
    rw [Nat.shiftLeft_eq, Nat.mul_comm field, ← this]
  rw [canonicalTag, canonicalVarint_eq, hor]

theorem canonicalVarintField_eq (field value : ℕ) :
    canonicalVarintField field value = Field.encode ⟨field, .varint value⟩ := by
  rw [canonicalVarintField, WireTypeVarint, canonicalTag_eq (by omega), canonicalVarint_eq]
  rfl

theorem canonicalBytesField_eq (field : ℕ) (bytes : Bytes) :
    canonicalBytesField field bytes = Field.encode ⟨field, .lengthDelimited bytes⟩ := by
  rw [canonicalBytesField, WireTypeLengthDelimited, canonicalTag_eq (by omega),
    canonicalVarint_eq, List.append_assoc]
  rfl

theorem canonicalSubMessage_eq (field : ℕ) (body : Bytes) :
    canonicalSubMessage field body = Field.encode ⟨field, .lengthDelimited body⟩ :=
  canonicalBytesField_eq field body

def attestationFields (att : CanonicalAttestationBody) : List Field :=
  [⟨AttestationField.type, .varint att.type⟩, ⟨AttestationField.dataSize, .varint att.dataSize⟩,
    ⟨AttestationField.data, .lengthDelimited att.data⟩]

theorem canonicalAttestation_eq (att : CanonicalAttestationBody) :
    canonicalAttestation att = encode (attestationFields att) := by
  simp only [canonicalAttestation, canonicalVarintField_eq, canonicalBytesField_eq,
    attestationFields, encode, List.flatMap_cons, List.flatMap_nil, List.append_nil,
    List.append_assoc]

def payloadFields (version : ℕ) (atts : List CanonicalAttestationBody) : List Field :=
  ⟨PayloadField.version, .varint version⟩ :: atts.map fun att =>
    ⟨PayloadField.attestation, .lengthDelimited (canonicalAttestation att)⟩

theorem canonicalPayload_eq (version : ℕ) (atts : List CanonicalAttestationBody) :
    canonicalPayload version atts = encode (payloadFields version atts) := by
  simp only [canonicalPayload, canonicalVarintField_eq, canonicalSubMessage_eq, payloadFields,
    encode, List.flatMap_cons, List.flatMap_map]

def headerFields (header : CanonicalHeaderBody) : List Field :=
  [⟨HeaderField.endpoints, .lengthDelimited canonicalEndpointsDefault⟩,
    ⟨HeaderField.messageId, .lengthDelimited header.messageId⟩,
    ⟨HeaderField.previousMessageId, .lengthDelimited header.previousMessageId⟩,
    ⟨HeaderField.payloadSize, .varint header.payloadSize⟩,
    ⟨HeaderField.payloadChecksum, .lengthDelimited header.payloadChecksum⟩,
    ⟨HeaderField.timestamp, .varint header.timestamp⟩,
    ⟨HeaderField.headerChecksum, .lengthDelimited header.headerChecksum⟩]

theorem canonicalHeader_eq (header : CanonicalHeaderBody) :
    canonicalHeader header = encode (headerFields header) := by
  simp only [canonicalHeader, canonicalVarintField_eq, canonicalSubMessage_eq,
    canonicalBytesField_eq, headerFields, encode, List.flatMap_cons, List.flatMap_nil,
    List.append_nil, List.append_assoc]

theorem headerFields_valid (header : CanonicalHeaderBody) :
    ∀ f ∈ headerFields header, f.Valid fun _ => True := by
  intro f hf
  simp only [headerFields, List.mem_cons, List.not_mem_nil, or_false] at hf
  rcases hf with rfl | rfl | rfl | rfl | rfl | rfl | rfl <;>
    exact ⟨Nat.zero_lt_succ _, trivial, trivial⟩

/-! ### Decoding the payload -/

variable {read : Bytes → Option (ℕ × Bytes)} {P : ℕ → Prop}

/-- The numbers written for an attestation are numbers that the reader reads. -/
def Readable (P : ℕ → Prop) (att : CanonicalAttestationBody) : Prop :=
  P att.type ∧ P att.dataSize ∧ P att.data.length ∧ P (canonicalAttestation att).length

theorem decodeAttestation_canonical (hread : ReadsBack read P) (hsmall : ∀ n < 128, P n)
    {att : CanonicalAttestationBody} (h : Readable P att) :
    decodeAttestation read (canonicalAttestation att) = some att := by
  obtain ⟨htype, hsize, hdata, _⟩ := h
  have hvalid : ∀ f ∈ attestationFields att, f.Valid P := by
    intro f hf
    simp only [attestationFields, List.mem_cons, List.not_mem_nil, or_false] at hf
    rcases hf with rfl | rfl | rfl
    · exact ⟨Nat.zero_lt_succ _, hsmall _ (Nat.le_of_ble_eq_true rfl), htype⟩
    · exact ⟨Nat.zero_lt_succ _, hsmall _ (Nat.le_of_ble_eq_true rfl), hsize⟩
    · exact ⟨Nat.zero_lt_succ _, hsmall _ (Nat.le_of_ble_eq_true rfl), hdata⟩
  rw [decodeAttestation, canonicalAttestation_eq, parse_encode hread hvalid]
  rfl

theorem foldlM_attestations (hread : ReadsBack read P) (hsmall : ∀ n < 128, P n) :
    ∀ {atts : List CanonicalAttestationBody} {payload : CanonicalPayload},
      (∀ att ∈ atts, Readable P att) →
      (atts.map fun att => (⟨PayloadField.attestation,
        .lengthDelimited (canonicalAttestation att)⟩ : Field)).foldlM (setPayloadField read)
          payload = some ⟨payload.version, payload.attestations ++ atts⟩
  | [], payload, _ => by
      rw [List.append_nil]
      rfl
  | att :: atts, payload, h => by
      rw [List.map_cons, List.foldlM_cons]
      have hfirst : setPayloadField read payload ⟨PayloadField.attestation,
          .lengthDelimited (canonicalAttestation att)⟩ =
            some ⟨payload.version, payload.attestations ++ [att]⟩ := by
        have hdecode := decodeAttestation_canonical hread hsmall (h att (by simp))
        exact congrArg (Option.map _) hdecode
      have hrest := @foldlM_attestations hread hsmall atts
        ⟨payload.version, payload.attestations ++ [att]⟩ fun a ha => h a (List.mem_cons_of_mem _ ha)
      rw [hfirst]
      simpa using hrest

theorem decodePayload_canonical (hread : ReadsBack read P) (hsmall : ∀ n < 128, P n)
    {version : ℕ} {atts : List CanonicalAttestationBody} (hversion : P version)
    (h : ∀ att ∈ atts, Readable P att) :
    decodePayload read (canonicalPayload version atts) = some ⟨version, atts⟩ := by
  have hvalid : ∀ f ∈ payloadFields version atts, f.Valid P := by
    intro f hf
    rcases List.mem_cons.mp hf with rfl | hf
    · exact ⟨Nat.zero_lt_succ _, hsmall _ (Nat.le_of_ble_eq_true rfl), hversion⟩
    · obtain ⟨att, hatt, rfl⟩ := List.mem_map.mp hf
      exact ⟨Nat.zero_lt_succ _, hsmall _ (Nat.le_of_ble_eq_true rfl), (h att hatt).2.2.2⟩
  rw [decodePayload, canonicalPayload_eq, parse_encode hread hvalid]
  exact foldlM_attestations hread hsmall h

/-- A parser for numbers of any magnitude decodes every payload. -/
theorem decodePayload_readVarint (version : ℕ) (atts : List CanonicalAttestationBody) :
    decodePayload readVarint (canonicalPayload version atts) = some ⟨version, atts⟩ :=
  decodePayload_canonical readsBack_readVarint (fun _ _ => trivial) trivial
    fun _ _ => ⟨trivial, trivial, trivial, trivial⟩

/-- The numbers of an input are unsigned 64-bit numbers. -/
def Fits (input : SemanticHeaderInput) : Prop :=
  input.version < 2 ^ 64 ∧ ∀ att ∈ input.attestations,
    Readable (fun n => n < 2 ^ 64) att.body

theorem body_injective : Function.Injective CanonicalAttestation.body := by
  rintro ⟨type, data⟩ ⟨type', data'⟩ h
  obtain ⟨rfl, _, rfl⟩ := CanonicalAttestationBody.mk.inj h
  rfl

/-! ### Headers and their pre-images -/

/-- What is hashed for an input. -/
def preimages (keccak256 : Bytes → Digest) (input : SemanticHeaderInput) : List Bytes :=
  [payloadCanonical input, headerCanonical keccak256 input]

theorem headerCanonical_inj {keccak256 : Bytes → Digest} {a b : SemanticHeaderInput}
    (h : headerCanonical keccak256 a = headerCanonical keccak256 b) :
    a.previousMessageId = b.previousMessageId ∧ a.timestampMs = b.timestampMs ∧
      keccakBytes keccak256 (payloadCanonical a) = keccakBytes keccak256 (payloadCanonical b) := by
  rw [headerCanonical, headerCanonical, canonicalHeader_eq, canonicalHeader_eq] at h
  have hfields := encode_injective (headerFields_valid _) (headerFields_valid _) h
  simp only [headerFields, List.cons.injEq, Field.mk.injEq, Value.lengthDelimited.injEq,
    Value.varint.injEq, true_and, and_true] at hfields
  exact ⟨hfields.1, hfields.2.2.2, hfields.2.2.1⟩

theorem eq_of_payloadCanonical {a b : SemanticHeaderInput}
    (h : payloadCanonical a = payloadCanonical b) :
    a.version = b.version ∧ a.attestations = b.attestations := by
  have ha := decodePayload_readVarint a.version (a.attestations.map CanonicalAttestation.body)
  have hb := decodePayload_readVarint b.version (b.attestations.map CanonicalAttestation.body)
  rw [← payloadCanonical, h, payloadCanonical, hb] at ha
  obtain ⟨hversion, hatts⟩ := CanonicalPayload.mk.inj (Option.some.inj ha)
  exact ⟨hversion.symm, (List.map_injective_iff.mpr body_injective hatts).symm⟩

/-- Where the hash does not collide on the pre-images of two inputs, one header checksum means
one input; and the payload's bytes decode to the version and the attestations, `payloadSize` is
their number, and a 64-bit parser agrees where the numbers are 64-bit. -/
theorem headerChecksum_injective {keccak256 : Bytes → Digest} {a b : SemanticHeaderInput}
    {ha hb : SemanticHeader}
    (hk : ∀ x ∈ preimages keccak256 a ++ preimages keccak256 b,
      ∀ y ∈ preimages keccak256 a ++ preimages keccak256 b, keccak256 x = keccak256 y → x = y)
    (hda : deriveSemanticHeader keccak256 a = some ha)
    (hdb : deriveSemanticHeader keccak256 b = some hb) :
    (ha.headerChecksum = hb.headerChecksum → a = b) ∧
      decodePayload readVarint (payloadCanonical a) =
        some ⟨a.version, a.attestations.map CanonicalAttestation.body⟩ ∧
      (Fits a → decodePayload readVarint64 (payloadCanonical a) =
        some ⟨a.version, a.attestations.map CanonicalAttestation.body⟩) ∧
      ha.payloadSize = (payloadCanonical a).length := by
  obtain ⟨_, _, rfl⟩ := Option.map_eq_some_iff.mp hda
  obtain ⟨_, _, rfl⟩ := Option.map_eq_some_iff.mp hdb
  refine ⟨fun h => ?_, decodePayload_readVarint _ _, fun hfits => ?_, rfl⟩
  · have hheader : headerCanonical keccak256 a = headerCanonical keccak256 b :=
      hk _ (by simp [preimages]) _ (by simp [preimages]) (Subtype.ext h)
    obtain ⟨hprev, htime, hchecksum⟩ := headerCanonical_inj hheader
    have hpayload : payloadCanonical a = payloadCanonical b :=
      hk _ (by simp [preimages]) _ (by simp [preimages]) (Subtype.ext hchecksum)
    obtain ⟨hversion, hatts⟩ := eq_of_payloadCanonical hpayload
    cases a
    cases b
    cases hprev
    cases htime
    cases hversion
    cases hatts
    rfl
  · refine decodePayload_canonical readsBack_readVarint64 (fun n hn => ?_) hfits.1 ?_
    · exact Nat.lt_trans hn (by decide)
    · intro att hatt
      obtain ⟨att, hmem, rfl⟩ := List.mem_map.mp hatt
      exact hfits.2 att hmem

/-! ### The golden vectors -/

/-- The first message of a stream, with one attestation. -/
def vectorA : SemanticHeaderInput where
  version := 1
  attestations := [⟨2001, beBytes 4 0xdeadbeef⟩]
  timestampMs := 1775612516983
  previousMessageId := []

/-- The message after it, with two attestations. -/
def vectorB : SemanticHeaderInput where
  version := 1
  attestations := [⟨2001, beBytes 4 0xdeadbeef⟩, ⟨2001, beBytes 5 0xcafebabe01⟩]
  timestampMs := 1775612516983
  previousMessageId := beBytes 32 0x0000000000000001210103982d1ae1f083b047bde00e77e4a337f3b31c8d223c

def digest (value : ℕ) : Digest :=
  ⟨beBytes 32 value, by rw [beBytes, List.length_map, List.length_range]⟩

def payloadA : Bytes :=
  beBytes 15 0x0801120b08d10f10041a04deadbeef

def payloadB : Bytes :=
  beBytes 29 0x0801120b08d10f10041a04deadbeef120c08d10f10051a05cafebabe01

def headerA : Bytes :=
  beBytes 32 0x0a0c0a040800100012040800100012001a00280f32206429fe11b290953c3e28 ++
    beBytes 31 0xe6ed7887059307329591c6296d6e41d27e4e6ddcae9938f7b483d6d6334200

def headerB : Bytes :=
  beBytes 32 0x0a0c0a040800100012040800100012001a200000000000000001210103982d1a ++
    beBytes 32 0xe1f083b047bde00e77e4a337f3b31c8d223c281d3220fdbcffc45ad50a6a2d13 ++
    beBytes 31 0x76af8c498d86910751868ae7e14fe909477b319ec98d38f7b483d6d6334200

/-- keccak256 on the four pre-images. -/
def goldenKeccak (bytes : Bytes) : Digest :=
  if bytes = payloadA then
    digest 0x6429fe11b290953c3e28e6ed7887059307329591c6296d6e41d27e4e6ddcae99
  else if bytes = headerA then
    digest 0xfb2b80f90bf26934210103982d1ae1f083b047bde00e77e4a337f3b31c8d223c
  else if bytes = payloadB then
    digest 0xfdbcffc45ad50a6a2d1376af8c498d86910751868ae7e14fe909477b319ec98d
  else if bytes = headerB then
    digest 0x8d135355c556a6ed2437e72cf67a093c4c5753cbb3ce71b76c890da8f9965c35
  else digest 0

example : (deriveSemanticHeader goldenKeccak vectorB).map SemanticHeader.messageId =
    some (beBytes 32 0x00000000000000022437e72cf67a093c4c5753cbb3ce71b76c890da8f9965c35) := by
  decide +kernel

theorem headerChecksum_injective_golden : ∃ ha hb,
    deriveSemanticHeader goldenKeccak vectorA = some ha ∧
      deriveSemanticHeader goldenKeccak vectorB = some hb ∧
        ha.headerChecksum ≠ hb.headerChecksum ∧
          ha.payloadSize = (payloadCanonical vectorA).length := by
  have hA : preimages goldenKeccak vectorA = [payloadA, headerA] := by decide +kernel
  have hB : preimages goldenKeccak vectorB = [payloadB, headerB] := by decide +kernel
  have hk : ∀ x ∈ preimages goldenKeccak vectorA ++ preimages goldenKeccak vectorB,
      ∀ y ∈ preimages goldenKeccak vectorA ++ preimages goldenKeccak vectorB,
        goldenKeccak x = goldenKeccak y → x = y := by
    rw [hA, hB]
    decide
  have hsomeA : (deriveSemanticHeader goldenKeccak vectorA).isSome = true := by decide
  have hsomeB : (deriveSemanticHeader goldenKeccak vectorB).isSome = true := by decide
  obtain ⟨ha, hda⟩ := Option.isSome_iff_exists.mp hsomeA
  obtain ⟨hb, hdb⟩ := Option.isSome_iff_exists.mp hsomeB
  obtain ⟨hinjective, _, _, hsize⟩ := headerChecksum_injective hk hda hdb
  refine ⟨ha, hb, hda, hdb, fun h => ?_, hsize⟩
  exact absurd (hinjective h) (by decide)

end WireTools.EnvelopeCodec
