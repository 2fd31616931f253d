import WireTools.EnvelopeWatch

/-! # Reading the store

The three ways in which stored envelopes are read: the list of all, one by its key, and the records
of all by epoch.  Each reads the files of a directory that nobody writes meanwhile.

* `envelopeList`, `envelopeGet`, `readEnvelopeRecordsFromDir`, with their filters;
* `mem_envelopeList`, `envelopeGet_eq` and `mem_readEnvelopeRecords`: what each reports of a key
  whose two files are there. -/

namespace WireTools.EnvelopeStorage

open Files
open Protobuf (Bytes)

variable {models : Models}

/-! ### Metadata -/

/-- An unreadable file has no names. -/
def readMetadataBatchOpNames (models : Models) (metaBytes : Option Bytes) : List Text :=
  match metaBytes.bind models.metadataFromBinary with
  | some metadata => metadata.batchOpNames
  | none => []

structure EnvelopeMetadataSummary where
  batchOpNames : List Text
  /-- The checksum in base sixteen; empty when the metadata is missing. -/
  checksum : Text

def readMetadataSummary (models : Models) (metaBytes : Option Bytes) : EnvelopeMetadataSummary :=
  match metaBytes.bind models.metadataFromBinary with
  | some metadata => ⟨metadata.batchOpNames, hexText metadata.checksum⟩
  | none => ⟨[], []⟩

/-! ### The list -/

structure ListEnvelopesRequest where
  epochStart : ℕ
  epochEnd : ℕ
  endpointsType : ℕ
  timestampStart : ℕ
  timestampEnd : ℕ

def ListEnvelopesRequest.all : ListEnvelopesRequest := ⟨0, 0, UNKNOWN, 0, 0⟩

structure EnvelopeListEntry where
  key : Text
  epochIndex : ℕ
  endpointsType : ℕ
  checksum : Text
  batchOpNames : List Text
  timestamp : ℕ
  dataSize : ℕ

/-- The parser of the routes. -/
def parseStorageKey (key : Text) : Option ParsedEnvelopeStorageKey :=
  parseEnvelopeStorageKey key

def filterParsed (models : Models) (request : ListEnvelopesRequest) :
    Option ParsedEnvelopeStorageKey → Bool
  | none => false
  | some parsed =>
      if 0 < request.epochStart ∧ parsed.epochIndex < request.epochStart then false
      else if 0 < request.epochEnd ∧ request.epochEnd < parsed.epochIndex then false
      else if request.endpointsType ≠ UNKNOWN then
        match endpointsTypeToKey models.DebugOutpostEndpointsType request.endpointsType with
        | some filterKey => decide (filterKey = []) || decide (parsed.endpointsKey = filterKey)
        | none => true
      else true

/-- The times of the files are in nanoseconds, those of a request and of an entry in
milliseconds. -/
def resolveListEntry (models : Models) (dir : Dir Text) (mtimeNs : Text → ℕ)
    (request : ListEnvelopesRequest) (name : Text) : Option EnvelopeListEntry :=
  let parsed := parseStorageKey (replaceFirst StorageFile.Data [] name)
  match filterParsed models request parsed, parsed with
  | true, some parsed =>
      if 0 < request.timestampStart ∧ mtimeNs name < request.timestampStart * 1000000 then none
      else if 0 < request.timestampEnd ∧ request.timestampEnd * 1000000 < mtimeNs name then none
      else
        some
          { key := parsed.key
            epochIndex := parsed.epochIndex
            endpointsType :=
              resolveEndpointsType models.DebugOutpostEndpointsType parsed.endpointsKey
            checksum := parsed.checksum
            batchOpNames := readMetadataBatchOpNames models
              (dir.file (replaceFirst StorageFile.Data StorageFile.Metadata name))
            timestamp := mtimeNs name / 1000000
            dataSize := ((dir.file name).getD []).length }
  | _, _ => none

def envelopeList (models : Models) (dir : Dir Text) (mtimeNs : Text → ℕ)
    (request : ListEnvelopesRequest) : List EnvelopeListEntry :=
  ((dir.names.filter (hasExtension StorageFile.Data)).mergeSort fun a b => decide (a ≤ b)).filterMap
    (resolveListEntry models dir mtimeNs request)

/-! ### One envelope -/

structure GetEnvelopeResponse where
  key : Text
  epochIndex : ℕ
  endpointsType : ℕ
  checksum : Text
  batchOpNames : List Text
  timestamp : ℕ
  dataSize : ℕ
  envelopeData : Bytes

/-- None for a key without a data file. -/
def envelopeGet (models : Models) (dir : Dir Text) (mtimeNs : Text → ℕ) (key : Text) :
    Option GetEnvelopeResponse :=
  (dir.file (dataFile key)).map fun envelopeData =>
    let summary := readMetadataSummary models (dir.file (metadataFile key))
    let parsed := parseStorageKey key
    { key := key
      epochIndex := (parsed.map (·.epochIndex)).getD 0
      endpointsType :=
        match parsed with
        | some parsed => resolveEndpointsType models.DebugOutpostEndpointsType parsed.endpointsKey
        | none => UNKNOWN
      checksum := summary.checksum
      batchOpNames := summary.batchOpNames
      timestamp := mtimeNs (dataFile key) / 1000000
      dataSize := envelopeData.length
      envelopeData := envelopeData }

/-! ### Records by epoch -/

structure EnvelopeRecordFilter where
  epochStart : Option ℕ
  epochEnd : Option ℕ
  endpointsType : Option ℕ

def EnvelopeRecordFilter.none : EnvelopeRecordFilter := ⟨.none, .none, .none⟩

structure DebugOPPEpochRecord (models : Models) where
  epoch : ℕ
  envelopes : List (DebugOPPEnvelopeRecord models)

def tryReadOne (models : Models) (dir : Dir Text) (filter : EnvelopeRecordFilter) (now : ℕ)
    (baseKey : Text) : Option (DebugOPPEpochEnvelopeRecord models) :=
  match parseEnvelopeStorageKey baseKey with
  | none => none
  | some parsed =>
      let endpointsType := resolveEndpointsType models.DebugOutpostEndpointsType parsed.endpointsKey
      if filter.epochStart.any (parsed.epochIndex < ·) || filter.epochEnd.any (· < parsed.epochIndex) ||
          filter.endpointsType.any (fun wanted => wanted ≠ UNKNOWN && endpointsType ≠ wanted) then
        none
      else
        match dir.file (dataFile baseKey), dir.file (metadataFile baseKey) with
        | some dataBytes, some metaBytes => decodePair models parsed dataBytes metaBytes now
        | _, _ => none

/-- The reads are taken to end in the order of the directory. -/
def readEnvelopeRecordsFromDir (models : Models) (dir : Dir Text) (filter : EnvelopeRecordFilter)
    (now : ℕ) : List (DebugOPPEpochRecord models) :=
  let found := ((dir.names.filter (hasExtension StorageFile.Metadata)).map
    (withoutExtension StorageFile.Metadata)).filterMap (tryReadOne models dir filter now)
  ((found.map (·.epoch)).eraseDups.mergeSort fun a b => decide (a ≤ b)).map fun epoch =>
    { epoch := epoch
      envelopes := (found.filter (·.epoch = epoch)).map (·.record) }

/-! ### What is reported of a key -/

section Reported

variable {dir : Dir Text} {key : Text} {parsed : ParsedEnvelopeStorageKey}
  {dataBytes metaBytes : Bytes}
  {metadata : DebugEnvelopeMetadataRecord}

theorem mem_envelopeList (hparsed : parseEnvelopeStorageKey key = some parsed) (hdot : 46 ∉ key)
    (hdata : dir.file (dataFile key) = some dataBytes)
    (hmetadata : dir.file (metadataFile key) = some metaBytes)
    (hdecoded : models.metadataFromBinary metaBytes = some metadata) (mtimeNs : Text → ℕ) :
    { key := parsed.key
      epochIndex := parsed.epochIndex
      endpointsType := resolveEndpointsType models.DebugOutpostEndpointsType parsed.endpointsKey
      checksum := parsed.checksum
      batchOpNames := metadata.batchOpNames
      timestamp := mtimeNs (dataFile key) / 1000000
      dataSize := dataBytes.length } ∈ envelopeList models dir mtimeNs .all := by
  have hname : dataFile key ∈ dir.names := Dir.mem_names.mpr ⟨dataBytes, hdata⟩
  have hkey : replaceFirst StorageFile.Data [] (dataFile key) = key :=
    (replaceFirst_append hdot _ _).trans (List.append_nil key)
  have hother : replaceFirst StorageFile.Data StorageFile.Metadata (dataFile key) =
      metadataFile key := replaceFirst_append hdot _ _
  refine List.mem_filterMap.mpr ⟨dataFile key, ?_, ?_⟩
  · rw [List.mem_mergeSort, List.mem_filter]
    exact ⟨hname, hasExtension_append _ _⟩
  · simp only [resolveListEntry, parseStorageKey, hkey, hother, hparsed, hdata, hmetadata,
      readMetadataBatchOpNames, Option.bind_some, hdecoded, Option.getD_some]
    rfl

theorem envelopeGet_eq (hparsed : parseEnvelopeStorageKey key = some parsed)
    (hdata : dir.file (dataFile key) = some dataBytes)
    (hmetadata : dir.file (metadataFile key) = some metaBytes)
    (hdecoded : models.metadataFromBinary metaBytes = some metadata) (mtimeNs : Text → ℕ) :
    envelopeGet models dir mtimeNs key = some
      { key := key
        epochIndex := parsed.epochIndex
        endpointsType := resolveEndpointsType models.DebugOutpostEndpointsType parsed.endpointsKey
        checksum := hexText metadata.checksum
        batchOpNames := metadata.batchOpNames
        timestamp := mtimeNs (dataFile key) / 1000000
        dataSize := dataBytes.length
        envelopeData := dataBytes } := by
  simp only [envelopeGet, hdata, Option.map_some, hmetadata, readMetadataSummary, Option.bind_some,
    hdecoded, parseStorageKey, hparsed, Option.getD_some]

theorem mem_readEnvelopeRecords (hparsed : parseEnvelopeStorageKey key = some parsed)
    (hdata : dir.file (dataFile key) = some dataBytes)
    (hmetadata : dir.file (metadataFile key) = some metaBytes) {now : ℕ}
    {pair : DebugOPPEpochEnvelopeRecord models}
    (hpair : decodePair models parsed dataBytes metaBytes now = some pair) :
    ∃ group ∈ readEnvelopeRecordsFromDir models dir .none now,
      group.epoch = pair.epoch ∧ pair.record ∈ group.envelopes := by
  have hone : tryReadOne models dir .none now key = some pair := by
    simp only [tryReadOne, hparsed, EnvelopeRecordFilter.none, Option.any_none, Bool.or_self,
      hdata, hmetadata]
    exact hpair
  have hfound : pair ∈ ((dir.names.filter (hasExtension StorageFile.Metadata)).map
      (withoutExtension StorageFile.Metadata)).filterMap (tryReadOne models dir .none now) := by
    refine List.mem_filterMap.mpr ⟨key, List.mem_map.mpr ⟨metadataFile key, ?_, ?_⟩, hone⟩
    · rw [List.mem_filter]
      exact ⟨Dir.mem_names.mpr ⟨metaBytes, hmetadata⟩, hasExtension_append _ _⟩
    · exact withoutExtension_append _ _
  refine ⟨_, List.mem_map.mpr ⟨pair.epoch, ?_, rfl⟩, rfl, ?_⟩
  · rw [List.mem_mergeSort, List.mem_eraseDups]
    exact List.mem_map_of_mem hfound
  · refine List.mem_map.mpr ⟨pair, List.mem_filter.mpr ⟨hfound, ?_⟩, rfl⟩
    exact decide_eq_true rfl

end Reported

end WireTools.EnvelopeStorage
