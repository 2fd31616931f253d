import WireTools.Protobuf

/-! # Canonical message headers

* the encoders of `EnvelopeCanonicalCodec`: every singular field written, defaults included;
* `canonicalHeader`, `canonicalPayload`, `canonicalAttestation`: the bodies;
* `decodePayload`: what a parser makes of the payload's fields, singular fields by their last
  occurrence and attestations in order;
* `deriveSemanticHeader`, with keccak256 as a parameter; none where the sequence number does
  not fit its eight bytes and the source throws. -/

namespace WireTools.EnvelopeCodec

open Protobuf

/-! ### Field numbers and wire types -/

def WireTypeLengthDelimited : ℕ := 2

def WireTypeVarint : ℕ := 0

namespace HeaderField

def endpoints : ℕ := 1
def messageId : ℕ := 2
def previousMessageId : ℕ := 3
def payloadSize : ℕ := 5
def payloadChecksum : ℕ := 6
def timestamp : ℕ := 7
def headerChecksum : ℕ := 8

end HeaderField

namespace PayloadField

@[match_pattern] def version : ℕ := 1
@[match_pattern] def attestation : ℕ := 2

end PayloadField

namespace AttestationField

@[match_pattern] def type : ℕ := 1
@[match_pattern] def dataSize : ℕ := 2
@[match_pattern] def data : ℕ := 3

end AttestationField

namespace ChainIdField

def kind : ℕ := 1
def id : ℕ := 2

end ChainIdField

namespace EndpointsField

def start : ℕ := 1
def ending : ℕ := 2

end EndpointsField

/-! ### Encoders -/

def canonicalVarint (value : ℕ) : Bytes :=
  if 0x80 ≤ value then UInt8.ofNat ((value &&& 0x7f) ||| 0x80) :: canonicalVarint (value >>> 7)
  else [UInt8.ofNat value]
termination_by value
decreasing_by
  rw [Nat.shiftRight_eq_div_pow]
  omega

def canonicalTag (field wireType : ℕ) : Bytes :=
  canonicalVarint ((field <<< 3) ||| wireType)

def canonicalVarintField (field value : ℕ) : Bytes :=
  canonicalTag field WireTypeVarint ++ canonicalVarint value

def canonicalBytesField (field : ℕ) (bytes : Bytes) : Bytes :=
  canonicalTag field WireTypeLengthDelimited ++ canonicalVarint bytes.length ++ bytes

def canonicalSubMessage (field : ℕ) (body : Bytes) : Bytes :=
  canonicalTag field WireTypeLengthDelimited ++ canonicalVarint body.length ++ body

def canonicalChainId (kind id : ℕ) : Bytes :=
  canonicalVarintField ChainIdField.kind kind ++ canonicalVarintField ChainIdField.id id

def canonicalEndpointsDefault : Bytes :=
  canonicalSubMessage EndpointsField.start (canonicalChainId 0 0) ++
    canonicalSubMessage EndpointsField.ending (canonicalChainId 0 0)

structure CanonicalAttestationBody where
  type : ℕ
  dataSize : ℕ
  data : Bytes
  deriving DecidableEq

def canonicalAttestation (att : CanonicalAttestationBody) : Bytes :=
  canonicalVarintField AttestationField.type att.type ++
    canonicalVarintField AttestationField.dataSize att.dataSize ++
    canonicalBytesField AttestationField.data att.data

def canonicalPayload (version : ℕ) (atts : List CanonicalAttestationBody) : Bytes :=
  canonicalVarintField PayloadField.version version ++
    atts.flatMap fun att => canonicalSubMessage PayloadField.attestation (canonicalAttestation att)

structure CanonicalHeaderBody where
  messageId : Bytes
  previousMessageId : Bytes
  payloadSize : ℕ
  payloadChecksum : Bytes
  timestamp : ℕ
  headerChecksum : Bytes

def canonicalHeader (header : CanonicalHeaderBody) : Bytes :=
  canonicalSubMessage HeaderField.endpoints canonicalEndpointsDefault ++
    canonicalBytesField HeaderField.messageId header.messageId ++
    canonicalBytesField HeaderField.previousMessageId header.previousMessageId ++
    canonicalVarintField HeaderField.payloadSize header.payloadSize ++
    canonicalBytesField HeaderField.payloadChecksum header.payloadChecksum ++
    canonicalVarintField HeaderField.timestamp header.timestamp ++
    canonicalBytesField HeaderField.headerChecksum header.headerChecksum

/-! ### Semantic headers -/

/-- A 32-byte hash. -/
abbrev Digest := { bytes : Bytes // bytes.length = 32 }

/-- The number that a byte string writes, most significant byte first. -/
def toBigInt (bytes : Bytes) : ℕ :=
  bytes.foldl (fun n b => n * 256 + b.toNat) 0

/-- The lowest bytes of a number, most significant first. -/
def beBytes (width value : ℕ) : Bytes :=
  (List.range width).map fun i => UInt8.ofNat (value / 256 ^ (width - 1 - i))

/-- The source throws when the bytes are too few. -/
def toBeBytes (value width : ℕ) : Option Bytes :=
  if value < 256 ^ width then some (beBytes width value) else none

/-- The sequence number in the first 8 bytes of a message id, 0 at stream genesis. -/
def messageSequence (messageId : Bytes) : ℕ :=
  if messageId.length < 8 then 0 else toBigInt (messageId.take 8)

def deriveMessageId (headerChecksum : Bytes) (sequence : ℕ) : Option Bytes :=
  (toBeBytes sequence 8).map fun bytes => bytes ++ headerChecksum.drop 8

structure CanonicalAttestation where
  type : ℕ
  data : Bytes
  deriving DecidableEq

structure SemanticHeaderInput where
  version : ℕ
  attestations : List CanonicalAttestation
  timestampMs : ℕ
  previousMessageId : Bytes
  deriving DecidableEq

structure SemanticHeader where
  payloadSize : ℕ
  payloadChecksum : Bytes
  headerChecksum : Bytes
  messageId : Bytes

def CanonicalAttestation.body (att : CanonicalAttestation) : CanonicalAttestationBody :=
  ⟨att.type, att.data.length, att.data⟩

/-- The canonical payload bytes of an input. -/
def payloadCanonical (input : SemanticHeaderInput) : Bytes :=
  canonicalPayload input.version (input.attestations.map CanonicalAttestation.body)

variable (keccak256 : Bytes → Digest)

def keccakBytes (bytes : Bytes) : Bytes :=
  (keccak256 bytes).val

/-- The blanked canonical header of an input. -/
def headerCanonical (input : SemanticHeaderInput) : Bytes :=
  canonicalHeader
    { messageId := []
      previousMessageId := input.previousMessageId
      payloadSize := (payloadCanonical input).length
      payloadChecksum := keccakBytes keccak256 (payloadCanonical input)
      timestamp := input.timestampMs
      headerChecksum := [] }

def deriveSemanticHeader (input : SemanticHeaderInput) : Option SemanticHeader :=
  let headerChecksum := keccakBytes keccak256 (headerCanonical keccak256 input)
  (deriveMessageId headerChecksum (messageSequence input.previousMessageId + 1)).map
    fun messageId =>
      { payloadSize := (payloadCanonical input).length
        payloadChecksum := keccakBytes keccak256 (payloadCanonical input)
        headerChecksum := headerChecksum
        messageId := messageId }

/-! ### Decoding -/

structure CanonicalPayload where
  version : ℕ
  attestations : List CanonicalAttestationBody
  deriving DecidableEq

def setAttestationField (att : CanonicalAttestationBody) (f : Field) :
    CanonicalAttestationBody :=
  match f.number, f.value with
  | AttestationField.type, .varint n => { att with type := n }
  | AttestationField.dataSize, .varint n => { att with dataSize := n }
  | AttestationField.data, .lengthDelimited bytes => { att with data := bytes }
  | _, _ => att

variable (read : Bytes → Option (ℕ × Bytes))

/-- A parser's attestation: absent fields have their defaults, unknown ones are skipped. -/
def decodeAttestation (bytes : Bytes) : Option CanonicalAttestationBody :=
  (parse read bytes).map fun fs => fs.foldl setAttestationField ⟨0, 0, []⟩

def setPayloadField (payload : CanonicalPayload) (f : Field) : Option CanonicalPayload :=
  match f.number, f.value with
  | PayloadField.version, .varint n => some { payload with version := n }
  | PayloadField.attestation, .lengthDelimited bytes =>
      (decodeAttestation read bytes).map fun att =>
        { payload with attestations := payload.attestations ++ [att] }
  | _, _ => some payload

def decodePayload (bytes : Bytes) : Option CanonicalPayload :=
  (parse read bytes).bind fun fs => fs.foldlM (setPayloadField read) ⟨0, []⟩

end WireTools.EnvelopeCodec
