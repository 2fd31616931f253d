import WireTools.EnvelopeStorageKey
import WireTools.Files
import WireTools.Runs

/-! # The store of envelopes

A put-envelope request writes the envelope to its data file unless there is one, and merges the
name of its operator into the metadata file.  Many requests are handled at a time, so each takes
its file operations in steps.

* `Models`: what the handler uses of the generated models and of the digest;
* `Put` is a request under way; its envelope has been decoded, or the handler would have thrown
  before it wrote anything;
* `Store.step`: a request arrives, or one of them gets on by one call of the system. -/

namespace WireTools.EnvelopeStorage

open Files
open Protobuf (Bytes)

/-! ### Requests -/

/-- What is stored beside an envelope. -/
structure DebugEnvelopeMetadataRecord where
  checksum : ℕ
  batchOpNames : List Text
  deriving DecidableEq

/-- The generated models and the digest. -/
structure Models where
  Envelope : Type
  DebugOutpostEndpointsType : EndpointsTypes
  /-- None where `Envelope.fromBinary` throws. -/
  envelopeFromBinary : Bytes → Option Envelope
  epochIndex : Envelope → ℕ
  metadataToBinary : DebugEnvelopeMetadataRecord → Bytes
  metadataFromBinary : Bytes → Option DebugEnvelopeMetadataRecord
  /-- The digest in hexadecimal digits. -/
  sha256 : Bytes → Text

structure PutEnvelopeRequest where
  envelopeData : Bytes
  batchOpName : Text
  endpointsType : ℕ
  deriving DecidableEq

/-- How far a request is. -/
inductive Phase where
  | creating
  | writingData (written : ℕ)
  | readingMetadata (reading : Reading)
  | openingMetadata (metadata : DebugEnvelopeMetadataRecord)
  | writingMetadata (metadata : DebugEnvelopeMetadataRecord) (written : ℕ)
  | stored (metadata : DebugEnvelopeMetadataRecord)
  deriving DecidableEq

/-- The data file has been written, or there was one. -/
def Phase.dataDone : Phase → Bool
  | creating | writingData _ => false
  | _ => true

/-- The metadata file is opened to be written next. -/
def Phase.opening : Phase → Bool
  | openingMetadata _ => true
  | _ => false

structure Put (models : Models) where
  request : PutEnvelopeRequest
  envelope : models.Envelope
  decoded : models.envelopeFromBinary request.envelopeData = some envelope
  dataExisted : Bool
  phase : Phase

variable {models : Models}

namespace Put

/-- None for a request that is refused. -/
def start (models : Models) (request : PutEnvelopeRequest) : Option (Put models) :=
  match decoded : models.envelopeFromBinary request.envelopeData with
  | none => none
  | some envelope => some ⟨request, envelope, decoded, false, .creating⟩

variable (p : Put models)

def checksum : Text :=
  (models.sha256 p.request.envelopeData).take ChecksumHexChars

def epochIndex : ℕ := models.epochIndex p.envelope

def endpointsKey : Text :=
  endpointsText models.DebugOutpostEndpointsType p.request.endpointsType

def key : Text :=
  storageKey p.epochIndex p.endpointsKey p.checksum

/-- The file it has open to write, with the bytes for it and how many it has written. -/
def writing : Option (Text × Bytes × ℕ) :=
  match p.phase with
  | .writingData written => some (dataFile p.key, p.request.envelopeData, written)
  | .writingMetadata metadata written =>
      some (metadataFile p.key, models.metadataToBinary metadata, written)
  | _ => none

/-- The files it has written. -/
def wrote : List (Text × Bytes) :=
  (if p.phase.dataDone ∧ p.dataExisted = false then [(dataFile p.key, p.request.envelopeData)]
    else []) ++
  match p.phase with
  | .stored metadata => [(metadataFile p.key, models.metadataToBinary metadata)]
  | _ => []

end Put

/-- The record that a request stores: the one there is with its operator, or a new one.  A file
that is missing and one that cannot be decoded are treated alike. -/
def readOrInitMetadata (models : Models) (checksum batchOpName : Text) (bytes : Option Bytes) :
    DebugEnvelopeMetadataRecord :=
  match bytes.bind models.metadataFromBinary with
  | some decoded =>
      { checksum := decoded.checksum
        batchOpNames :=
          if batchOpName ∈ decoded.batchOpNames then decoded.batchOpNames
          else decoded.batchOpNames ++ [batchOpName] }
  | none =>
      { checksum := packedChecksum checksum
        batchOpNames := [batchOpName] }

/-! ### The store -/

structure Store (models : Models) where
  dir : Dir Text
  puts : ℕ → Option (Put models)
  nextPut : ℕ

inductive StoreEvent where
  | put (request : PutEnvelopeRequest)
  /-- Request `i` makes its next call, which reads or writes at most `count` bytes. -/
  | advance (i count : ℕ)

namespace Store

def init : Store models := ⟨[], fun _ => none, 0⟩

variable (s : Store models)

def set (i : ℕ) (dir : Dir Text) (p : Put models) : Store models :=
  { s with
    dir := dir
    puts := Function.update s.puts i (some p) }

def add (p : Put models) : Store models :=
  { s with
    puts := Function.update s.puts s.nextPut (some p)
    nextPut := s.nextPut + 1 }

/-- One call of a write, which may write less than there is. -/
def write (i : ℕ) (p : Put models) (name : Text) (bytes : Bytes) (written count : ℕ)
    (next : ℕ → Phase) (last : Phase) : Option (Store models) :=
  if written < bytes.length then
    if count = 0 then none
    else
      let piece := (bytes.drop written).take count
      some (s.set i (s.dir.put name (writeAt ((s.dir.file name).getD []) written piece))
        { p with phase := next (written + piece.length) })
  else some (s.set i s.dir { p with phase := last })

def advance (i : ℕ) (p : Put models) (count : ℕ) : Option (Store models) :=
  match p.phase with
  | .creating =>
      match s.dir.file (dataFile p.key) with
      | some _ =>
          some (s.set i s.dir
            { p with
              dataExisted := true
              phase := .readingMetadata .waiting })
      | none =>
          some (s.set i (s.dir.put (dataFile p.key) []) { p with phase := .writingData 0 })
  | .writingData written =>
      s.write i p (dataFile p.key) p.request.envelopeData written count .writingData
        (.readingMetadata .waiting)
  | .readingMetadata (.ended bytes) =>
      some (s.set i s.dir
        { p with
          phase := .openingMetadata
            (readOrInitMetadata models p.checksum p.request.batchOpName bytes) })
  | .readingMetadata r =>
      (r.advance (s.dir.file (metadataFile p.key)) count).map fun r =>
        s.set i s.dir { p with phase := .readingMetadata r }
  | .openingMetadata metadata =>
      some (s.set i (s.dir.put (metadataFile p.key) [])
        { p with phase := .writingMetadata metadata 0 })
  | .writingMetadata metadata written =>
      s.write i p (metadataFile p.key) (models.metadataToBinary metadata) written count
        (.writingMetadata metadata) (.stored metadata)
  | .stored _ => none

def step : StoreEvent → Option (Store models)
  | .put request =>
      match Put.start models request with
      | none => some s
      | some p => some (s.add p)
  | .advance i count =>
      match s.puts i with
      | none => none
      | some p => s.advance i p count

/-- Some request has the file open to write. -/
def Written (name : Text) : Prop :=
  ∃ i < s.nextPut, ∃ p ∈ s.puts i, p.writing.map (·.1) = some name

instance (name : Text) : Decidable (s.Written name) :=
  inferInstanceAs (Decidable (∃ i < s.nextPut, ∃ p ∈ s.puts i, _))

end Store

end WireTools.EnvelopeStorage
