import WireTools.EnvelopeWrites

/-! # The envelope watch

A watcher emits an event for each stored envelope: once for those there are when it starts, and
whenever the directory changes.  `EnvelopeWatchStream` of the server and the client that reads the
files itself each have one (`Watcher`).

* `Watch.step`: a step of the store beside the watcher, a callback of the directory watch for any
  file there is, the scan that hydrates, the calls of its reads, and the end of a read.  The set
  `seen` is looked at before a read and extended after it; the client's hydration does not look;
* `EnvelopeEvent` has the key it is for, which is not sent;
* `Emits`: a key is emitted once at most, and what is emitted was stored;
* `Watch.Orderly`: no file is read or rewritten while another has it open to write, none is
  rewritten while the watcher reads it, no two reads of a key overlap, and the client's hydration
  takes up no key that was seen. -/

namespace WireTools.EnvelopeStorage

open Files
open Protobuf (Bytes)

variable {models : Models}

/-! ### Events -/

inductive EnvelopeEventKind where
  | hydrated
  | added
  deriving DecidableEq

/-- The source also prints numbers and bytes as texts for its clients. -/
structure DebugOPPEnvelopeRecord (models : Models) where
  checksum : Text
  endpointsType : ℕ
  envelope : models.Envelope
  metadata : DebugEnvelopeMetadataRecord
  receivedAt : ℕ

structure DebugOPPEpochEnvelopeRecord (models : Models) where
  epoch : ℕ
  record : DebugOPPEnvelopeRecord models

structure EnvelopeEvent (models : Models) where
  baseKey : Text
  kind : EnvelopeEventKind
  pair : DebugOPPEpochEnvelopeRecord models

/-- The record of the two files of a key; none where one of them cannot be decoded. -/
def decodePair (models : Models) (parsed : ParsedEnvelopeStorageKey) (dataBytes metaBytes : Bytes)
    (receivedAt : ℕ) : Option (DebugOPPEpochEnvelopeRecord models) :=
  (models.envelopeFromBinary dataBytes).bind fun envelope =>
    (models.metadataFromBinary metaBytes).map fun metadata =>
      { epoch := parsed.epochIndex
        record :=
          { checksum := parsed.checksum
            endpointsType :=
              resolveEndpointsType models.DebugOutpostEndpointsType parsed.endpointsKey
            envelope := envelope
            metadata := metadata
            receivedAt := receivedAt } }

/-- A call of `readPair` under way. -/
structure ReadPair where
  parsed : ParsedEnvelopeStorageKey
  baseKey : Text
  hydrating : Bool
  data : Reading
  metadata : Reading

/-! ### The watcher -/

inductive Watcher where
  /-- `EnvelopeWatchStream`. -/
  | stream
  /-- `LocalFileDebuggingClient.startEnvelopeWatch`. -/
  | localFile
  deriving DecidableEq

structure Watch (models : Models) where
  watcher : Watcher
  store : Store models
  /-- The directory is watched. -/
  watching : Bool
  /-- The scan has not been made yet. -/
  scheduled : Bool
  /-- The keys of the scan that are not hydrated yet. -/
  baseKeys : List Text
  /-- The read that the hydration waits for. -/
  hydration : Option ℕ
  reads : ℕ → Option ReadPair
  nextRead : ℕ
  seen : List Text
  /-- The stream is stopped, the client's subscription closed. -/
  stopped : Bool
  emitted : List (EnvelopeEvent models)

inductive WatchEvent where
  | store (ev : StoreEvent)
  | start
  | changed (filename : Text)
  | scanned
  | hydrateNext
  | readData (r count : ℕ)
  | readMetadata (r count : ℕ)
  | pairRead (r receivedAt : ℕ)
  | stop

namespace Watch

def init (watcher : Watcher) : Watch models where
  watcher := watcher
  store := .init
  watching := false
  scheduled := false
  baseKeys := []
  hydration := none
  reads _ := none
  nextRead := 0
  seen := []
  stopped := false
  emitted := []

variable (s : Watch models)

def setRead (r : ℕ) (read : Option ReadPair) : Watch models :=
  { s with reads := Function.update s.reads r read }

theorem reads_setRead (r : ℕ) (read : Option ReadPair) (q : ℕ) :
    (s.setRead r read).reads q = if q = r then read else s.reads q := by
  simp only [setRead, Function.update_apply]

/-- Up to the two reads; a name that is no key is left alone. -/
def readPair (baseKey : Text) (hydrating : Bool) : Watch models :=
  match parseEnvelopeStorageKey baseKey with
  | none => s
  | some parsed =>
      { s.setRead s.nextRead (some ⟨parsed, baseKey, hydrating, .waiting, .waiting⟩) with
        nextRead := s.nextRead + 1 }

def tryEmitBaseKey (baseKey : Text) (hydrating : Bool) : Watch models :=
  if baseKey ∈ s.seen then s else s.readPair baseKey hydrating

def tryEmit (filename : Text) (hydrating : Bool) : Watch models :=
  if hasExtension StorageFile.Metadata filename then
    s.tryEmitBaseKey (withoutExtension StorageFile.Metadata filename) hydrating
  else s

/-- Only the stream looks whether it is stopped. -/
def scan : Watch models :=
  { s with
    scheduled := false
    baseKeys :=
      if s.watcher = .stream ∧ s.stopped = true then []
      else (s.store.dir.names.filter (hasExtension StorageFile.Metadata)).map
        (withoutExtension StorageFile.Metadata) }

/-- A key of the scan.  The client reads it even if a callback has emitted it. -/
def hydrate (baseKey : Text) : Watch models :=
  match s.watcher with
  | .stream => s.tryEmitBaseKey baseKey true
  | .localFile => s.readPair baseKey true

/-- The next key of the scan.  The hydration waits for the read it starts. -/
def hydrateNext (baseKey : Text) (rest : List Text) : Watch models :=
  let s := { s with baseKeys := rest }
  if s.stopped then s
  else
    { s.hydrate baseKey with
      hydration :=
        if (s.hydrate baseKey).nextRead = s.nextRead then none else some s.nextRead }

/-- A closed subscription drops what it is given; a stopped stream still emits. -/
def Drops : Prop := s.watcher = .localFile ∧ s.stopped = true

instance : Decidable s.Drops := inferInstanceAs (Decidable (_ ∧ _))

/-- A read has ended with this record, or with none. -/
def endRead (r : ℕ) (read : ReadPair) (pair : Option (DebugOPPEpochEnvelopeRecord models)) :
    Watch models :=
  let s := { s.setRead r none with hydration := if s.hydration = some r then none else s.hydration }
  match pair with
  | none => s
  | some pair =>
      { s with
        seen := read.baseKey :: s.seen
        emitted :=
          if s.Drops then s.emitted
          else s.emitted ++ [⟨read.baseKey, if read.hydrating then .hydrated else .added, pair⟩] }

/-- None for an event that cannot happen in this state. -/
def step : WatchEvent → Option (Watch models)
  | .store ev => (s.store.step ev).map fun store => { s with store := store }
  | .start =>
      if s.watching then none
      else
        some { s with
          watching := true
          scheduled := true }
  -- a stopped stream ignores the callback; a closed subscription's directory watch has none
  | .changed filename =>
      if s.watching = true ∧ filename ∈ s.store.dir.names then
        some (if s.stopped then s else s.tryEmit filename false)
      else none
  | .scanned => if s.scheduled then some s.scan else none
  | .hydrateNext =>
      match s.hydration, s.baseKeys with
      | none, baseKey :: rest => some (s.hydrateNext baseKey rest)
      | _, _ => none
  | .readData r count =>
      match s.reads r with
      | none => none
      | some read =>
          (read.data.advance (s.store.dir.file (dataFile read.baseKey)) count).map fun data =>
            s.setRead r (some { read with data := data })
  | .readMetadata r count =>
      match s.reads r with
      | none => none
      | some read =>
          (read.metadata.advance (s.store.dir.file (metadataFile read.baseKey)) count).map
            fun metadata => s.setRead r (some { read with metadata := metadata })
  | .pairRead r receivedAt =>
      match s.reads r with
      | none => none
      | some read =>
          match read.data, read.metadata with
          | .ended (some dataBytes), .ended (some metaBytes) =>
              some (s.endRead r read
                (decodePair models read.parsed dataBytes metaBytes receivedAt))
          | .ended none, _ | _, .ended none => some (s.endRead r read none)
          | _, _ => none
  | .stop =>
      some { s with
        stopped := true
        seen := match s.watcher with
          | .stream => []
          | .localFile => s.seen }

/-! ### What it is for -/

structure Emits : Prop where
  once : (s.emitted.map (·.baseKey)).Nodup
  /-- The record is that of a data file and a metadata file of the key that were written
  completely. -/
  complete : ∀ event ∈ s.emitted, ∃ dataBytes metaBytes parsed,
    s.store.Wrote (dataFile event.baseKey) dataBytes ∧
      s.store.Wrote (metadataFile event.baseKey) metaBytes ∧
      parseEnvelopeStorageKey event.baseKey = some parsed ∧
      decodePair models parsed dataBytes metaBytes event.pair.record.receivedAt = some event.pair

/-! ### Runs in which it does it -/

/-- A read of the key is under way. -/
def BeingRead (baseKey : Text) : Prop :=
  ∃ r < s.nextRead, ∃ read ∈ s.reads r, read.baseKey = baseKey

instance (baseKey : Text) : Decidable (s.BeingRead baseKey) :=
  inferInstanceAs (Decidable (∃ r < s.nextRead, ∃ read ∈ s.reads r, _))

/-- The watcher has the metadata file of the key open. -/
def MetadataOpen (baseKey : Text) : Prop :=
  ∃ r < s.nextRead, ∃ read ∈ s.reads r, read.baseKey = baseKey ∧ read.metadata.IsOpen

instance (baseKey : Text) : Decidable (s.MetadataOpen baseKey) :=
  inferInstanceAs (Decidable (∃ r < s.nextRead, ∃ read ∈ s.reads r, _))

/-- A key that has not been seen is not being read either. -/
def Fresh (baseKey : Text) : Prop :=
  s.stopped = false → baseKey ∉ s.seen → ¬s.BeingRead baseKey

instance (baseKey : Text) : Decidable (s.Fresh baseKey) :=
  inferInstanceAs (Decidable (_ → _ → _))

/-- What the client's hydration takes up, no callback has emitted. -/
def Unseen (baseKey : Text) : Prop :=
  s.watcher = .localFile → s.stopped = false → baseKey ∉ s.seen

instance (baseKey : Text) : Decidable (s.Unseen baseKey) :=
  inferInstanceAs (Decidable (_ → _ → _))

/-- A metadata file is opened to be written while nobody has it open; the watcher opens a file that
nobody is writing; it takes up a key while no read of the key is under way, and the client hydrates
a key that has not been seen. -/
def Orderly : WatchEvent → Prop
  | .store ev => s.store.Apart ev ∧
      match ev with
      | .put _ => True
      | .advance i _ => ∀ p ∈ s.store.puts i, p.phase.opening = true → ¬s.MetadataOpen p.key
  | .changed filename => hasExtension StorageFile.Metadata filename = true →
      s.Fresh (withoutExtension StorageFile.Metadata filename)
  | .hydrateNext => ∀ baseKey ∈ s.baseKeys.head?, s.Fresh baseKey ∧ s.Unseen baseKey
  | .readData r _ => ∀ read ∈ s.reads r,
      read.data = .waiting → ¬s.store.Written (dataFile read.baseKey)
  | .readMetadata r _ => ∀ read ∈ s.reads r,
      read.metadata = .waiting → ¬s.store.Written (metadataFile read.baseKey)
  | _ => True

instance : ∀ ev, Decidable (s.Orderly ev)
  | .store (.put request) => inferInstanceAs (Decidable (s.store.Apart (.put request) ∧ True))
  | .store (.advance i count) => inferInstanceAs (Decidable (s.store.Apart (.advance i count) ∧
      ∀ p ∈ s.store.puts i, p.phase.opening = true → ¬s.MetadataOpen p.key))
  | .changed filename => inferInstanceAs (Decidable
      (hasExtension StorageFile.Metadata filename = true →
        s.Fresh (withoutExtension StorageFile.Metadata filename)))
  | .hydrateNext => inferInstanceAs (Decidable (∀ baseKey ∈ s.baseKeys.head?,
      s.Fresh baseKey ∧ s.Unseen baseKey))
  | .readData r _ => inferInstanceAs (Decidable (∀ read ∈ s.reads r,
      read.data = .waiting → ¬s.store.Written (dataFile read.baseKey)))
  | .readMetadata r _ => inferInstanceAs (Decidable (∀ read ∈ s.reads r,
      read.metadata = .waiting → ¬s.store.Written (metadataFile read.baseKey)))
  | .start | .scanned | .pairRead _ _ | .stop => isTrue trivial

end Watch

end WireTools.EnvelopeStorage
