import WireTools.EnvelopeWatch
import WireTools.MetadataCodec

/-! # Runs of the envelope watch

* `Held`: a read of a file that nobody writes meanwhile; at its end it has what was written;
* `Inv`: two reads are of two keys, of none that has been emitted, and what has been emitted was
  written;
* `envelope_watch`: in an orderly run every key is emitted once at most, with a record that was
  stored. -/

namespace WireTools.EnvelopeStorage

open Files
open Protobuf (Bytes)

variable {models : Models}

/-! ### Reads beside writers -/

structure Held (store : Store models) (name : Text) (r : Reading) : Prop where
  closed : r.IsOpen → ∀ i bytes written, ¬store.Opened i name bytes written
  of : r.Of (store.dir.file name)
  whole : ∀ content, r = .ended (some content) → store.Wrote name content

namespace Held

variable {store store' : Store models} {name : Text} {r r' : Reading}

theorem waiting (store : Store models) (name : Text) : Held store name .waiting :=
  ⟨nofun, trivial, nofun⟩

theorem advance (h : Held store name r) (hkept : store.Kept) {count : ℕ}
    (hwaiting : r = .waiting → ¬store.Written name)
    (hr : r.advance (store.dir.file name) count = some r') : Held store name r' := by
  obtain ⟨hof, hended⟩ := Reading.of_advance hr h.of
  have hclosed : ∀ i bytes written, ¬store.Opened i name bytes written := by
    intro i bytes written hopened
    cases r with
    | waiting => exact hwaiting rfl (Store.Written.of_opened hkept hopened)
    | reading size buffer => exact h.closed trivial i bytes written hopened
    | ended content => cases hr
  refine ⟨fun _ => hclosed, hof, fun content heq => ?_⟩
  rcases hkept.whole name content (hended _ heq).symm with ⟨i, bytes, written, hopened⟩ | hwrote
  · exact absurd hopened (hclosed i bytes written)
  · exact hwrote

/-- A step of the store that does not open the file. -/
theorem store_step (h : Held store name r) (hkept : store.Kept) {ev : StoreEvent}
    (hs : store.step ev = some store')
    (hopen : r.IsOpen → ∀ i count, ev = .advance i count → ∀ p ∈ store.puts i, ∀ metadata,
      p.phase = .openingMetadata metadata → metadataFile p.key ≠ name) : Held store' name r := by
  have hwhole : ∀ content, r = .ended (some content) → store'.Wrote name content :=
    fun content heq =>
      Store.wrote_step hs (h.whole content heq) (hkept.absent _ (Nat.le_refl _))
  cases r with
  | waiting => exact waiting store' name
  | ended content => exact ⟨nofun, trivial, hwhole⟩
  | reading size buffer =>
      obtain ⟨content, hfile, hsize, hprefix⟩ := h.of
      obtain ⟨hfile', hclosed⟩ := hkept.undisturbed hs hfile (h.closed trivial) (hopen trivial)
      exact ⟨fun _ => hclosed, ⟨content, hfile', hsize, hprefix⟩, hwhole⟩

end Held

theorem receivedAt_decodePair {parsed : ParsedEnvelopeStorageKey} {dataBytes metaBytes : Bytes}
    {receivedAt : ℕ} {found : DebugOPPEpochEnvelopeRecord models}
    (h : decodePair models parsed dataBytes metaBytes receivedAt = some found) :
    found.record.receivedAt = receivedAt := by
  obtain ⟨envelope, _, hmap⟩ := Option.bind_eq_some_iff.mp h
  obtain ⟨metadata, _, rfl⟩ := Option.map_eq_some_iff.mp hmap
  rfl

/-! ### The invariant -/

namespace Watch

structure Inv (s : Watch models) : Prop where
  kept : s.store.Kept
  absent : ∀ r, s.nextRead ≤ r → s.reads r = none
  parsed : ∀ r read, s.reads r = some read →
    parseEnvelopeStorageKey read.baseKey = some read.parsed
  data : ∀ r read, s.reads r = some read → Held s.store (dataFile read.baseKey) read.data
  metadata : ∀ r read, s.reads r = some read →
    Held s.store (metadataFile read.baseKey) read.metadata
  apart : ∀ r q read other, s.reads r = some read → s.reads q = some other →
    read.baseKey = other.baseKey → r = q
  fresh : ∀ r read, s.reads r = some read → read.baseKey ∉ s.emitted.map (·.baseKey)
  seen : s.stopped = false → ∀ event ∈ s.emitted, event.baseKey ∈ s.seen
  emits : s.Emits

theorem inv_init (watcher : Watcher) : Inv (init watcher : Watch models) where
  kept := Store.kept_init
  absent _ _ := rfl
  parsed _ _ := nofun
  data _ _ := nofun
  metadata _ _ := nofun
  apart _ _ _ _ := nofun
  fresh _ _ := nofun
  seen _ _ := nofun
  emits := ⟨List.nodup_nil, nofun⟩

namespace Inv

variable {s s' : Watch models}

theorem lt (h : Inv s) {r : ℕ} {read : ReadPair} (hr : s.reads r = some read) : r < s.nextRead := by
  by_contra hle
  cases (h.absent r (Nat.le_of_not_lt hle)).symm.trans hr

/-! #### Reads -/

/-- A read of a key that was not seen and is not being read. -/
theorem readPair (h : Inv s) {baseKey : Text} (hstopped : s.stopped = false)
    (hseen : baseKey ∉ s.seen) (hnot : ¬s.BeingRead baseKey) (hydrating : Bool) :
    Inv (s.readPair baseKey hydrating) := by
  unfold Watch.readPair
  split
  · exact h
  · next parsed hparsed =>
      have hreads := s.reads_setRead s.nextRead
        (some ⟨parsed, baseKey, hydrating, .waiting, .waiting⟩)
      have hother : ∀ r read, s.reads r = some read → read.baseKey ≠ baseKey :=
        fun r read hr heq => hnot ⟨r, h.lt hr, read, hr, heq⟩
      refine ⟨h.kept, fun r hle => ?_, fun r read hr => ?_, fun r read hr => ?_,
        fun r read hr => ?_, fun r q read other hr hq heq => ?_, fun r read hr => ?_, h.seen,
        ⟨h.emits.once, h.emits.complete⟩⟩
      · have hle : s.nextRead + 1 ≤ r := hle
        refine (hreads r).trans ?_
        rw [if_neg (by omega)]
        exact h.absent r (by omega)
      · have hr := (hreads r).symm.trans hr
        split at hr
        · cases hr
          exact hparsed
        · exact h.parsed r read hr
      · have hr := (hreads r).symm.trans hr
        split at hr
        · cases hr
          exact Held.waiting s.store _
        · exact h.data r read hr
      · have hr := (hreads r).symm.trans hr
        split at hr
        · cases hr
          exact Held.waiting s.store _
        · exact h.metadata r read hr
      · have hr := (hreads r).symm.trans hr
        have hq := (hreads q).symm.trans hq
        split at hr
        · next hrn =>
            cases hr
            split at hq
            · next hqn => exact hrn.trans hqn.symm
            · exact absurd heq.symm (hother q other hq)
        · split at hq
          · cases hq
            exact absurd heq (hother r read hr)
          · exact h.apart r q read other hr hq heq
      · have hr := (hreads r).symm.trans hr
        split at hr
        · cases hr
          intro hmem
          obtain ⟨event, hevent, rfl⟩ := List.mem_map.mp hmem
          exact hseen (h.seen hstopped event hevent)
        · exact h.fresh r read hr

theorem tryEmitBaseKey (h : Inv s) {baseKey : Text} (hbaseKey : s.Fresh baseKey)
    (hstopped : s.stopped = false) (hydrating : Bool) :
    Inv (s.tryEmitBaseKey baseKey hydrating) := by
  unfold Watch.tryEmitBaseKey
  split
  · exact h
  · next hseen => exact h.readPair hstopped hseen (hbaseKey hstopped hseen) hydrating

theorem hydrate (h : Inv s) {baseKey : Text} (hbaseKey : s.Fresh baseKey)
    (hunseen : s.Unseen baseKey) (hstopped : s.stopped = false) : Inv (s.hydrate baseKey) := by
  unfold Watch.hydrate
  split
  · exact h.tryEmitBaseKey hbaseKey hstopped true
  · next hlocal =>
      have hseen := hunseen hlocal hstopped
      exact h.readPair hstopped hseen (hbaseKey hstopped hseen) true

theorem setRead (h : Inv s) {r : ℕ} {read read' : ReadPair} (hr : s.reads r = some read)
    (hsame : read'.parsed = read.parsed ∧ read'.baseKey = read.baseKey)
    (hdata : Held s.store (dataFile read.baseKey) read'.data)
    (hmetadata : Held s.store (metadataFile read.baseKey) read'.metadata) :
    Inv (s.setRead r (some read')) := by
  have hreads := s.reads_setRead r (some read')
  have hold : ∀ q other, (s.setRead r (some read')).reads q = some other →
      ∃ before, s.reads q = some before ∧ before.baseKey = other.baseKey := by
    intro q other hq
    rw [hreads] at hq
    split at hq
    · next heq =>
        cases hq
        exact ⟨read, heq ▸ hr, hsame.2.symm⟩
    · exact ⟨other, hq, rfl⟩
  refine ⟨h.kept, fun q hle => ?_, fun q other hq => ?_, fun q other hq => ?_,
    fun q other hq => ?_, fun q t other last hq ht heq => ?_, fun q other hq => ?_, h.seen,
    ⟨h.emits.once, h.emits.complete⟩⟩
  · have hlt := h.lt hr
    have hle : s.nextRead ≤ q := hle
    rw [hreads, if_neg (by omega)]
    exact h.absent q hle
  · rw [hreads] at hq
    split at hq
    · cases hq
      rw [hsame.1, hsame.2]
      exact h.parsed r read hr
    · exact h.parsed q other hq
  · rw [hreads] at hq
    split at hq
    · cases hq
      rw [hsame.2]
      exact hdata
    · exact h.data q other hq
  · rw [hreads] at hq
    split at hq
    · cases hq
      rw [hsame.2]
      exact hmetadata
    · exact h.metadata q other hq
  · obtain ⟨before, hbefore, hbase⟩ := hold q other hq
    obtain ⟨before', hbefore', hbase'⟩ := hold t last ht
    exact h.apart q t before before' hbefore hbefore' (hbase.trans (heq.trans hbase'.symm))
  · obtain ⟨before, hbefore, hbase⟩ := hold q other hq
    rw [← hbase]
    exact h.fresh q before hbefore

theorem dropRead (h : Inv s) {r : ℕ} (hr : r < s.nextRead) : Inv (s.setRead r none) := by
  have hreads := s.reads_setRead r none
  have hold : ∀ q other, (s.setRead r none).reads q = some other → s.reads q = some other := by
    intro q other hq
    rw [hreads] at hq
    split at hq
    · cases hq
    · exact hq
  refine ⟨h.kept, fun q hle => ?_, fun q other hq => h.parsed q other (hold q other hq),
    fun q other hq => h.data q other (hold q other hq),
    fun q other hq => h.metadata q other (hold q other hq),
    fun q t other last hq ht => h.apart q t other last (hold q other hq) (hold t last ht),
    fun q other hq => h.fresh q other (hold q other hq), h.seen,
    ⟨h.emits.once, h.emits.complete⟩⟩
  have hle : s.nextRead ≤ q := hle
  rw [hreads, if_neg (by omega)]
  exact h.absent q hle

/-- What a read found is emitted last, or dropped. -/
theorem emitted_endRead (s : Watch models) (r : ℕ) (read : ReadPair)
    (found : DebugOPPEpochEnvelopeRecord models) :
    (s.endRead r read (some found)).emitted = s.emitted ∨
      ∃ event, event.baseKey = read.baseKey ∧ event.pair = found ∧
        (s.endRead r read (some found)).emitted = s.emitted ++ [event] := by
  by_cases hdrops : s.Drops
  · exact Or.inl (if_pos hdrops)
  · exact Or.inr ⟨_, rfl, rfl, if_neg hdrops⟩

/-- A read ends, and what it found is emitted. -/
theorem endRead (h : Inv s) {r : ℕ} {read : ReadPair} (hr : s.reads r = some read)
    {pair : Option (DebugOPPEpochEnvelopeRecord models)}
    (hpair : ∀ found ∈ pair, ∃ dataBytes metaBytes,
      read.data = .ended (some dataBytes) ∧ read.metadata = .ended (some metaBytes) ∧
        decodePair models read.parsed dataBytes metaBytes found.record.receivedAt = some found) :
    Inv (s.endRead r read pair) := by
  have hdrop := h.dropRead (h.lt hr)
  have hreads := s.reads_setRead r none
  cases pair with
  | none =>
      exact ⟨hdrop.kept, hdrop.absent, hdrop.parsed, hdrop.data, hdrop.metadata, hdrop.apart,
        hdrop.fresh, hdrop.seen, ⟨hdrop.emits.once, hdrop.emits.complete⟩⟩
  | some found =>
      obtain ⟨dataBytes, metaBytes, hdata, hmetadata, hdecode⟩ := hpair found rfl
      have hnew := h.fresh r read hr
      rcases emitted_endRead s r read found with hemitted | ⟨event, hkey, rfl, hemitted⟩
      · refine ⟨hdrop.kept, hdrop.absent, hdrop.parsed, hdrop.data, hdrop.metadata, hdrop.apart,
          fun q other hq hmem => ?_, fun hstopped event hevent => ?_, ⟨?_, fun event hevent => ?_⟩⟩
        · rw [hemitted] at hmem
          exact hdrop.fresh q other hq hmem
        · rw [hemitted] at hevent
          exact List.mem_cons_of_mem _ (h.seen hstopped event hevent)
        · rw [hemitted]
          exact h.emits.once
        · rw [hemitted] at hevent
          exact h.emits.complete event hevent
      · refine ⟨hdrop.kept, hdrop.absent, hdrop.parsed, hdrop.data, hdrop.metadata, hdrop.apart,
          fun q other hq hmem => ?_, fun hstopped other hother => ?_, ⟨?_, fun other hother => ?_⟩⟩
        · have hq : (s.setRead r none).reads q = some other := hq
          have hold := (hreads q).symm.trans hq
          split at hold
          · cases hold
          · next hqr =>
              rw [hemitted, List.map_append, List.mem_append, List.map_singleton,
                List.mem_singleton, hkey] at hmem
              rcases hmem with hmem | heq
              · exact h.fresh q other hold hmem
              · exact hqr (h.apart q r other read hold hr heq)
        · rw [hemitted] at hother
          rcases List.mem_append.mp hother with hold | hlast
          · exact List.mem_cons_of_mem _ (h.seen hstopped other hold)
          · rw [List.mem_singleton.mp hlast, hkey]
            exact List.mem_cons_self
        · rw [hemitted, List.map_append, List.map_singleton, hkey]
          refine List.nodup_append.mpr ⟨h.emits.once, List.pairwise_singleton _ _, ?_⟩
          rintro key hkey _ hlast rfl
          rw [List.mem_singleton.mp hlast] at hkey
          exact hnew hkey
        · rw [hemitted] at hother
          rcases List.mem_append.mp hother with hold | hlast
          · exact h.emits.complete other hold
          · rw [List.mem_singleton.mp hlast, hkey]
            exact ⟨dataBytes, metaBytes, read.parsed, (h.data r read hr).whole dataBytes hdata,
              (h.metadata r read hr).whole metaBytes hmetadata, h.parsed r read hr, hdecode⟩

/-! #### Events -/

theorem store (h : Inv s) {ev : StoreEvent} {store : Store models}
    (hs : s.store.step ev = some store) (horderly : s.Orderly (.store ev)) :
    Inv { s with store := store } := by
  have hwrote : ∀ name bytes, s.store.Wrote name bytes → store.Wrote name bytes :=
    fun name bytes hold => Store.wrote_step hs hold (h.kept.absent _ (Nat.le_refl _))
  refine ⟨h.kept.step hs horderly.1, h.absent, h.parsed, fun r read hr => ?_, fun r read hr => ?_,
    h.apart, h.fresh, h.seen, ⟨h.emits.once, fun event hevent => ?_⟩⟩
  · refine (h.data r read hr).store_step h.kept hs fun _ i count _ p _ metadata _ heq => ?_
    exact dataFile_ne_metadataFile _ _ heq.symm
  · refine (h.metadata r read hr).store_step h.kept hs fun hopen i count hev p hp metadata hphase
      heq => ?_
    subst hev
    refine horderly.2 p hp (by rw [hphase]; rfl) ?_
    exact ⟨r, h.lt hr, read, hr, (metadataFile_inj.mp heq).symm, hopen⟩
  · obtain ⟨dataBytes, metaBytes, parsed, hdata, hmetadata, hrest⟩ :=
      h.emits.complete event hevent
    exact ⟨dataBytes, metaBytes, parsed, hwrote _ _ hdata, hwrote _ _ hmetadata, hrest⟩

theorem changed (h : Inv s) (hstopped : s.stopped = false) {filename : Text}
    (horderly : hasExtension StorageFile.Metadata filename = true →
      s.Fresh (withoutExtension StorageFile.Metadata filename)) :
    Inv (s.tryEmit filename false) := by
  unfold Watch.tryEmit
  split
  · next hextension => exact h.tryEmitBaseKey (horderly hextension) hstopped false
  · exact h

theorem hydrateNext (h : Inv s) {baseKey : Text} (hfresh : s.Fresh baseKey)
    (hunseen : s.Unseen baseKey) (rest : List Text) :
    Inv (s.hydrateNext baseKey rest) := by
  have hrest : Inv { s with baseKeys := rest } :=
    ⟨h.kept, h.absent, h.parsed, h.data, h.metadata, h.apart, h.fresh, h.seen,
      ⟨h.emits.once, h.emits.complete⟩⟩
  unfold Watch.hydrateNext
  dsimp only
  split
  · exact hrest
  · next hstopped =>
      have hstopped : s.stopped = false := by simpa using hstopped
      have hread := hrest.hydrate hfresh hunseen hstopped
      exact ⟨hread.kept, hread.absent, hread.parsed, hread.data, hread.metadata, hread.apart,
        hread.fresh, hread.seen, ⟨hread.emits.once, hread.emits.complete⟩⟩

theorem readData (h : Inv s) {r count : ℕ} {read : ReadPair} (hr : s.reads r = some read)
    {data : Reading}
    (hdata : read.data.advance (s.store.dir.file (dataFile read.baseKey)) count = some data)
    (horderly : read.data = .waiting → ¬s.store.Written (dataFile read.baseKey)) :
    Inv (s.setRead r (some { read with data := data })) :=
  h.setRead hr ⟨rfl, rfl⟩ ((h.data r read hr).advance h.kept horderly hdata) (h.metadata r read hr)

theorem readMetadata (h : Inv s) {r count : ℕ} {read : ReadPair} (hr : s.reads r = some read)
    {metadata : Reading}
    (hmetadata : read.metadata.advance (s.store.dir.file (metadataFile read.baseKey)) count =
      some metadata)
    (horderly : read.metadata = .waiting → ¬s.store.Written (metadataFile read.baseKey)) :
    Inv (s.setRead r (some { read with metadata := metadata })) :=
  h.setRead hr ⟨rfl, rfl⟩ (h.data r read hr)
    ((h.metadata r read hr).advance h.kept horderly hmetadata)

theorem step (h : Inv s) {ev : WatchEvent} (hs : s.step ev = some s') (horderly : s.Orderly ev) :
    Inv s' := by
  cases ev with
  | store ev =>
      obtain ⟨store, hstore, rfl⟩ := Option.map_eq_some_iff.mp hs
      exact h.store hstore horderly
  | start =>
      simp only [Watch.step] at hs
      split at hs
      · cases hs
      · cases hs
        exact ⟨h.kept, h.absent, h.parsed, h.data, h.metadata, h.apart, h.fresh, h.seen,
          ⟨h.emits.once, h.emits.complete⟩⟩
  | changed filename =>
      obtain ⟨_, ⟨⟩⟩ := Option.ite_none_right_eq_some.mp hs
      split
      · exact h
      · next hstopped => exact h.changed (by simpa using hstopped) horderly
  | scanned =>
      obtain ⟨_, ⟨⟩⟩ := Option.ite_none_right_eq_some.mp hs
      exact ⟨h.kept, h.absent, h.parsed, h.data, h.metadata, h.apart, h.fresh, h.seen,
        ⟨h.emits.once, h.emits.complete⟩⟩
  | hydrateNext =>
      simp only [Watch.step] at hs
      split at hs
      · next baseKey rest _ hbaseKeys =>
          cases hs
          have hhead : baseKey ∈ s.baseKeys.head? := by
            rw [hbaseKeys]
            rfl
          exact h.hydrateNext (horderly baseKey hhead).1 (horderly baseKey hhead).2 rest
      · cases hs
  | readData r count =>
      simp only [Watch.step] at hs
      split at hs
      · cases hs
      · next read hr =>
          obtain ⟨data, hdata, rfl⟩ := Option.map_eq_some_iff.mp hs
          exact h.readData hr hdata (horderly read hr)
  | readMetadata r count =>
      simp only [Watch.step] at hs
      split at hs
      · cases hs
      · next read hr =>
          obtain ⟨metadata, hmetadata, rfl⟩ := Option.map_eq_some_iff.mp hs
          exact h.readMetadata hr hmetadata (horderly read hr)
  | pairRead r receivedAt =>
      simp only [Watch.step] at hs
      split at hs
      · cases hs
      · next read hr =>
          split at hs
          · next dataBytes metaBytes hdata hmetadata =>
              cases hs
              refine h.endRead hr fun found hfound => ⟨dataBytes, metaBytes, hdata, hmetadata, ?_⟩
              rw [receivedAt_decodePair hfound]
              exact hfound
          · cases hs
            exact h.endRead hr fun found hfound => absurd hfound (Option.some_ne_none found).symm
          · cases hs
            exact h.endRead hr fun found hfound => absurd hfound (Option.some_ne_none found).symm
          · cases hs
  | stop =>
      cases hs
      exact ⟨h.kept, h.absent, h.parsed, h.data, h.metadata, h.apart, h.fresh,
        fun hstopped => absurd hstopped.symm Bool.false_ne_true,
        ⟨h.emits.once, h.emits.complete⟩⟩

end Inv

/-- In an orderly run every key is emitted once at most, with a record that was stored. -/
theorem envelope_watch {watcher : Watcher} {events : List WatchEvent} {s : Watch models}
    (h : runs step (init watcher) events = some s)
    (horderly : Along step Orderly (init watcher : Watch models) events) : s.Emits := by
  have hinv : Inv s := along_induction h horderly (inv_init watcher)
    fun m m' ev horderly hstep hm => hm.step hstep horderly
  exact hinv.emits

/-! ### Sample runs -/

def put (batchOpName : Text) (endpointsType : ℕ) : WatchEvent :=
  .store (.put ⟨[], batchOpName, endpointsType⟩)

/-- Request `i` makes so many calls. -/
def advances (i calls : ℕ) : List WatchEvent :=
  List.replicate calls (.store (.advance i 64))

/-- Read `r` makes all its calls. -/
def wholeRead (r : ℕ) : List WatchEvent :=
  [.readData r 64, .readMetadata r 64, .readMetadata r 64, .readData r 64]

def ethereumFile : Text :=
  text "00000000-OUTPOST_ETHEREUM_DEPOT-e3b0c44298fc1c14.metadata"

def solanaFile : Text :=
  text "00000000-OUTPOST_SOLANA_DEPOT-e3b0c44298fc1c14.metadata"

/-- One envelope is there at the start; it is stored once more, and another is added. -/
def watched : List WatchEvent :=
  put (text "alice") 1 :: advances 0 7 ++ [WatchEvent.start, .scanned, .hydrateNext] ++
    wholeRead 0 ++ [WatchEvent.pairRead 0 5, put (text "bob") 1] ++ advances 1 7 ++
    [WatchEvent.changed ethereumFile, put (text "bob") 2] ++ advances 2 7 ++
    WatchEvent.changed solanaFile :: wholeRead 1 ++
    [WatchEvent.pairRead 1 9, .stop]

theorem exists_watched (watcher : Watcher) :
    ∃ s : Watch emptyModels, runs step (init watcher) watched = some s := by
  have hrun : ((runs step (init watcher) watched).map
      fun s : Watch emptyModels => s.emitted.length) = some 2 := by
    cases watcher <;> decide +kernel
  obtain ⟨s, hs, -⟩ := Option.map_eq_some_iff.mp hrun
  exact ⟨s, hs⟩

theorem watched_orderly (watcher : Watcher) :
    Along step Orderly (init watcher : Watch emptyModels) watched := by
  cases watcher <;> decide +kernel

theorem envelope_watch_watched :
    (∃ s : Watch emptyModels, runs step (init .stream) watched = some s ∧ s.Emits) ∧
      ∃ s : Watch emptyModels, runs step (init .localFile) watched = some s ∧ s.Emits := by
  constructor
  · obtain ⟨s, hs⟩ := exists_watched .stream
    exact ⟨s, hs, envelope_watch hs (watched_orderly .stream)⟩
  · obtain ⟨s, hs⟩ := exists_watched .localFile
    exact ⟨s, hs, envelope_watch hs (watched_orderly .localFile)⟩

/-- The metadata file has been created and is empty still. -/
def emptyRead : List WatchEvent :=
  put (text "alice") 1 :: advances 0 5 ++
    WatchEvent.start :: WatchEvent.changed ethereumFile :: wholeRead 0 ++
    [WatchEvent.pairRead 0 5]

/-- Two callbacks for one file. -/
def readTwice : List WatchEvent :=
  put (text "alice") 1 :: advances 0 7 ++
    WatchEvent.start :: WatchEvent.changed ethereumFile :: WatchEvent.changed ethereumFile ::
    wholeRead 0 ++ wholeRead 1 ++
    [WatchEvent.pairRead 0 5, .pairRead 1 5]

/-- An event has a metadata file that some request has written. -/
theorem Emits.wrote {s : Watch models} (h : s.Emits) : ∀ event ∈ s.emitted,
    ∃ i < s.store.nextPut, ∃ p ∈ s.store.puts i,
      metadataFile event.baseKey ∈ p.wrote.map Prod.fst := by
  intro event hevent
  obtain ⟨_, metaBytes, _, _, ⟨i, hlt, p, hp, hmem⟩, _⟩ := h.complete event hevent
  exact ⟨i, hlt, p, hp, List.mem_map.mpr ⟨_, hmem, rfl⟩⟩

/-- The client hydrates a key that a callback has emitted. -/
def hydratedToo : List WatchEvent :=
  put (text "alice") 1 :: advances 0 7 ++
    [WatchEvent.start, .scanned, .changed ethereumFile] ++ wholeRead 0 ++
    [WatchEvent.pairRead 0 5, .hydrateNext] ++ wholeRead 1 ++ [WatchEvent.pairRead 1 5]

theorem emitted_incomplete_or_twice :
    (∃ s : Watch emptyModels, runs step (init .stream) emptyRead = some s ∧ ¬s.Emits) ∧
      (∃ s : Watch emptyModels, runs step (init .stream) readTwice = some s ∧ ¬s.Emits) ∧
      ∃ s : Watch emptyModels, runs step (init .localFile) hydratedToo = some s ∧ ¬s.Emits := by
  refine ⟨?_, ?_, ?_⟩
  · obtain ⟨s, hrun, hwrote⟩ : ∃ s : Watch emptyModels,
        runs step (init .stream) emptyRead = some s ∧
          ¬∀ event ∈ s.emitted, ∃ i < s.store.nextPut, ∃ p ∈ s.store.puts i,
            metadataFile event.baseKey ∈ p.wrote.map Prod.fst := exists_run (by decide +kernel)
    exact ⟨s, hrun, fun h => hwrote h.wrote⟩
  · obtain ⟨s, hrun, honce⟩ : ∃ s : Watch emptyModels,
        runs step (init .stream) readTwice = some s ∧ ¬(s.emitted.map (·.baseKey)).Nodup :=
      exists_run (by decide +kernel)
    exact ⟨s, hrun, fun h => honce h.once⟩
  · obtain ⟨s, hrun, honce⟩ : ∃ s : Watch emptyModels,
        runs step (init .localFile) hydratedToo = some s ∧
          ¬(s.emitted.map (·.baseKey)).Nodup := exists_run (by decide +kernel)
    exact ⟨s, hrun, fun h => honce h.once⟩

end Watch

end WireTools.EnvelopeStorage
