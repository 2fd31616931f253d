import WireTools.EnvelopeRoutes
import WireTools.MetadataCodec
import WireTools.Paths
import WireTools.Runs

/-! # The files that the debugging server opens

The server is started with a cluster directory.  Its log routes and log tails open files by their
paths, its envelope routes open files of the storage directory by their names.

* `isPathUnder`, and what it decides (`isPathUnder_iff`);
* `opens`: the paths that the handler of a request hands to the file system; `State.step`: requests
  and log tails, in any order;
* `Under`: a path leads to the cluster directory or below;
* `opened_under_iff`: in every run, all paths opened are of that kind exactly when those joined
  from the keys of `EnvelopeGet` are, which nothing checks.  `Stays` says for which keys. -/

namespace WireTools.DebuggingServer

open EnvelopeStorage
open WireTools.Path (Cwd segments locate relative slash)
open Protobuf (Bytes)

/-! ### Directories -/

/-- A server, and the directory that it runs in. -/
structure Server where
  cwd : Cwd
  clusterPath : Text
  given : clusterPath ≠ []

namespace ClusterSubpath

def OppDebugging : Text := Path.join [text "data", text "opp-debugging"]

end ClusterSubpath

def oppDebuggingPath (clusterPath : Text) : Text :=
  Path.join [clusterPath, ClusterSubpath.OppDebugging]

def isPathUnder (cwd : Cwd) (candidate root : Text) : Bool :=
  let resolvedCandidate := Path.resolve cwd candidate
  let resolvedRoot := Path.resolve cwd root
  let rootWithSep :=
    if resolvedRoot.getLast? = some slash then resolvedRoot else resolvedRoot ++ [slash]
  resolvedCandidate == resolvedRoot || rootWithSep.isPrefixOf resolvedCandidate

theorem isPathUnder_iff (cwd : Cwd) (candidate root : Text) :
    isPathUnder cwd candidate root = true ↔ locate cwd root <+: locate cwd candidate := by
  rw [isPathUnder, Bool.or_eq_true, beq_iff_eq, List.isPrefixOf_iff_prefix]
  exact Path.startsWith_iff (Path.isName_locate cwd root) (Path.isName_locate cwd candidate)
    (Path.resolve_eq cwd root) (Path.resolve_eq cwd candidate)

/-! ### Files -/

/-- A name that `readdir` reports. -/
structure FileName where
  name : Text
  slash_not_mem : slash ∉ name

/-- What the file system answers during one call of a handler. -/
structure Disk where
  /-- None where a file cannot be read. -/
  readFile : Text → Option Bytes
  readdir : Text → List FileName
  mtimeNs : Text → ℕ

inductive Request where
  | getStat (path : Text)
  | read (path : Text) (fromLine count : ℕ)
  | envelope (request : PutEnvelopeRequest)
  | envelopeList (request : ListEnvelopesRequest)
  | loadRecords (filter : EnvelopeRecordFilter)
  | envelopeGet (key : Text)

/-- A file is looked at, and opened for its lines and for its last byte. -/
def buildLineIndex (disk : Disk) (path : Text) : List Text :=
  match disk.readFile path with
  | none => [path]
  | some [] => [path]
  | some _ => [path, path, path]

def readLines (disk : Disk) (path : Text) : List Text :=
  match disk.readFile path with
  | none => []
  | some _ => [path]

namespace Server

variable (server : Server) (models : Models) (disk : Disk)

def oppStoragePath : Text := oppDebuggingPath server.clusterPath

/-- A file of the storage directory. -/
def stored (name : Text) : Text := Path.join [server.oppStoragePath, name]

/-- The paths of a handler that asserts first that its own path is under the cluster. -/
def assertUnderClusterPath (path : Text) (opens : List Text) : List Text :=
  if isPathUnder server.cwd path server.clusterPath then opens else []

/-- One entry of the list. -/
def resolveListEntry (request : ListEnvelopesRequest) (name : Text) : List Text :=
  if filterParsed models request (parseStorageKey (replaceFirst StorageFile.Data [] name)) then
    let mtimeNs := disk.mtimeNs (server.stored name)
    if 0 < request.timestampStart ∧ mtimeNs < request.timestampStart * 1000000 ∨
        0 < request.timestampEnd ∧ request.timestampEnd * 1000000 < mtimeNs then
      [server.stored name]
    else
      [server.stored name,
        server.stored (replaceFirst StorageFile.Data StorageFile.Metadata name)]
  else []

/-- One record of the storage directory. -/
def tryReadOne (filter : EnvelopeRecordFilter) (baseKey : Text) : List Text :=
  match parseEnvelopeStorageKey baseKey with
  | none => []
  | some parsed =>
      let endpointsType := resolveEndpointsType models.DebugOutpostEndpointsType parsed.endpointsKey
      if filter.epochStart.any (parsed.epochIndex < ·) || filter.epochEnd.any (· < parsed.epochIndex) ||
          filter.endpointsType.any (fun wanted => wanted ≠ UNKNOWN && endpointsType ≠ wanted) then
        []
      else [server.stored (dataFile baseKey), server.stored (metadataFile baseKey)]

def names : List Text :=
  (disk.readdir server.oppStoragePath).map FileName.name

def opens : Request → List Text
  | .getStat path => server.assertUnderClusterPath path (buildLineIndex disk path)
  | .read path _ _ =>
      server.assertUnderClusterPath path (buildLineIndex disk path ++ readLines disk path)
  | .envelope request =>
      match Put.start models request with
      | none => []
      | some p =>
          [server.stored (dataFile p.key), server.stored (metadataFile p.key),
            server.stored (metadataFile p.key)]
  | .envelopeList request =>
      server.oppStoragePath ::
        ((server.names disk).filter (hasExtension StorageFile.Data)).flatMap
          (server.resolveListEntry models disk request)
  | .loadRecords filter =>
      server.oppStoragePath ::
        (((server.names disk).filter (hasExtension StorageFile.Metadata)).map
          (withoutExtension StorageFile.Metadata)).flatMap (server.tryReadOne models filter)
  | .envelopeGet key =>
      let dataPath := server.stored (dataFile key)
      match disk.readFile dataPath with
      | none => [dataPath]
      | some _ => [dataPath, server.stored (metadataFile key), dataPath]

end Server

/-! ### Runs -/

inductive Event where
  | request (request : Request) (disk : Disk)
  /-- A log tail starts. -/
  | subscribe (path : Text) (disk : Disk)
  /-- A log tail looks at its file again. -/
  | tick (id : ℕ) (disk : Disk)
  | stop (id : ℕ)

structure State where
  /-- The paths that log tails follow. -/
  tails : ℕ → Option Text
  nextTail : ℕ
  opened : List Text

namespace State

def init : State := ⟨fun _ => none, 0, []⟩

variable (server : Server) (models : Models)

/-- None for a log tail that does not run. -/
def step (s : State) : Event → Option State
  | .request request disk =>
      some { s with opened := s.opened ++ server.opens models disk request }
  | .subscribe path disk =>
      if isPathUnder server.cwd path server.clusterPath then
        some
          { tails := Function.update s.tails s.nextTail (some path)
            nextTail := s.nextTail + 1
            opened := s.opened ++ buildLineIndex disk path }
      else some s
  | .tick id disk =>
      (s.tails id).map fun path =>
        { s with opened := s.opened ++ (buildLineIndex disk path ++ readLines disk path) }
  | .stop id =>
      (s.tails id).map fun _ => { s with tails := Function.update s.tails id none }

end State

/-! ### What is under the cluster -/

namespace Server

variable (server : Server)

def place : List Text := locate server.cwd server.clusterPath

def Under (p : Text) : Prop :=
  server.place <+: locate server.cwd p

/-- A name, read from the storage directory, climbs two levels at most, or enters again what it
has left of the cluster's own names. -/
def Stays (name : Text) : Prop :=
  server.place.drop (server.place.length + 2 - (relative name).1) <+: (relative name).2

instance (p : Text) : Decidable (server.Under p) :=
  inferInstanceAs (Decidable (_ <+: _))

instance (name : Text) : Decidable (server.Stays name) :=
  inferInstanceAs (Decidable (_ <+: _))

variable {server}

theorem locate_oppStoragePath : locate server.cwd server.oppStoragePath =
    server.place ++ [text "data", text "opp-debugging"] := by
  have hsegments : segments ClusterSubpath.OppDebugging = [text "data", text "opp-debugging"] := by
    decide
  have hnames : ∀ n ∈ [text "data", text "opp-debugging"], Path.IsName n := by
    rw [List.forall_mem_cons, List.forall_mem_singleton]
    exact ⟨⟨by decide, by decide, by decide, by decide⟩,
      ⟨by decide, by decide, by decide, by decide⟩⟩
  rw [oppStoragePath, oppDebuggingPath, Path.locate_join _ server.given, hsegments,
    Path.foldl_enter_names hnames]
  rfl

theorem under_oppStoragePath : server.Under server.oppStoragePath := by
  rw [Under, locate_oppStoragePath]
  exact List.prefix_append _ _

/-- A file joined to the storage directory. -/
theorem under_stored_iff (name : Text) : server.Under (server.stored name) ↔ server.Stays name := by
  have hstorage : server.oppStoragePath ≠ [] := Path.join_ne_nil _
  have hlocate : locate server.cwd (server.stored name) =
      (server.place ++ [text "data", text "opp-debugging"]).take
        (server.place.length + 2 - (relative name).1) ++ (relative name).2 := by
    rw [stored, Path.locate_join _ hstorage, locate_oppStoragePath, Path.foldl_enter,
      List.length_append]
    rfl
  rw [Under, Stays, hlocate]
  by_cases hclimb : (relative name).1 ≤ 2
  · rw [List.drop_of_length_le (by omega), List.take_append, List.take_of_length_le (by omega),
      List.append_assoc]
    exact iff_of_true (List.prefix_append _ _) List.nil_prefix
  · rw [List.take_append_of_le_length (by omega)]
    nth_rewrite 1 [← List.take_append_drop (server.place.length + 2 - (relative name).1)
      server.place]
    exact List.prefix_append_right_inj _

theorem stays_of_slash_not_mem {name : Text} (h : slash ∉ name) : server.Stays name := by
  have hclimb := Path.relative_le_one h
  rw [Stays, List.drop_of_length_le (by omega)]
  exact List.nil_prefix

theorem under_stored {name : Text} (h : slash ∉ name) : server.Under (server.stored name) :=
  (under_stored_iff name).mpr (stays_of_slash_not_mem h)

end Server

/-! ### Names without slashes -/

/-- The digests are hexadecimal, and the endpoints are called by identifiers. -/
structure Slashless (models : Models) : Prop where
  digest : ∀ bytes, slash ∉ models.sha256 bytes
  names : ∀ type key, models.DebugOutpostEndpointsType.name type = some key → slash ∉ key

theorem slash_not_mem_extension : slash ∉ StorageFile.Data ∧ slash ∉ StorageFile.Metadata :=
  ⟨by decide, by decide⟩

theorem slash_not_mem_dataFile {key : Text} (h : slash ∉ key) : slash ∉ dataFile key :=
  fun hmem => (List.mem_append.mp hmem).elim h slash_not_mem_extension.1

theorem slash_not_mem_metadataFile {key : Text} (h : slash ∉ key) : slash ∉ metadataFile key :=
  fun hmem => (List.mem_append.mp hmem).elim h slash_not_mem_extension.2

variable {models : Models}

theorem slash_not_mem_key (h : Slashless models) (p : Put models) : slash ∉ p.key := by
  have hendpoints : slash ∉ p.endpointsKey := by
    rw [Put.endpointsKey, endpointsText, endpointsTypeToKey]
    cases hname : models.DebugOutpostEndpointsType.name p.request.endpointsType with
    | none => exact (by decide : slash ∉ text "null")
    | some key => exact h.names _ key hname
  have hchecksum : slash ∉ p.checksum := fun hmem =>
    h.digest _ (List.mem_of_mem_take hmem)
  rw [Put.key, storageKey, List.mem_append, List.mem_cons, List.mem_append, List.mem_cons]
  rintro (hepoch | hdash | hname | hdash | hdigest)
  · exact absurd (isDigit_epochText hepoch) (by decide)
  · exact absurd hdash (by decide)
  · exact hendpoints hname
  · exact absurd hdash (by decide)
  · exact hchecksum hdigest

theorem mem_replaceFirst {c : CodeUnit} {pattern replacement t : Text}
    (h : c ∈ replaceFirst pattern replacement t) : c ∈ replacement ∨ c ∈ t := by
  induction t with
  | nil => exact Or.inr h
  | cons d t ih =>
      rw [replaceFirst] at h
      split at h
      · rcases List.mem_append.mp h with hnew | hrest
        · exact Or.inl hnew
        · exact Or.inr (List.mem_of_mem_drop hrest)
      · rcases List.mem_cons.mp h with rfl | hrest
        · exact Or.inr List.mem_cons_self
        · exact (ih hrest).imp_right (List.mem_cons_of_mem d)

/-! ### One request -/

namespace Server

variable {server : Server} {disk : Disk}

theorem under_assert {path : Text} {opens : List Text} (h : ∀ p ∈ opens, p = path) :
    ∀ p ∈ server.assertUnderClusterPath path opens, server.Under p := by
  intro p hp
  rw [assertUnderClusterPath] at hp
  split at hp
  · next hunder =>
      rw [h p hp]
      exact (isPathUnder_iff _ _ _).mp hunder
  · exact absurd hp List.not_mem_nil

theorem eq_of_mem_buildLineIndex {path p : Text} (h : p ∈ buildLineIndex disk path) : p = path := by
  unfold buildLineIndex at h
  split at h <;> simpa using h

theorem eq_of_mem_readLines {path p : Text} (h : p ∈ readLines disk path) : p = path := by
  unfold readLines at h
  split at h
  · exact absurd h List.not_mem_nil
  · exact List.mem_singleton.mp h

theorem slash_not_mem_names {name : Text} (h : name ∈ server.names disk) : slash ∉ name := by
  obtain ⟨file, _, rfl⟩ := List.mem_map.mp h
  exact file.slash_not_mem

theorem under_resolveListEntry {request : ListEnvelopesRequest} {name p : Text}
    (hname : slash ∉ name) (hp : p ∈ server.resolveListEntry models disk request name) :
    server.Under p := by
  have hother : slash ∉ replaceFirst StorageFile.Data StorageFile.Metadata name := fun hmem =>
    (mem_replaceFirst hmem).elim slash_not_mem_extension.2 hname
  rw [resolveListEntry] at hp
  split at hp
  · dsimp only at hp
    split at hp
    · rw [List.mem_singleton.mp hp]
      exact under_stored hname
    · rw [List.mem_cons, List.mem_singleton] at hp
      rcases hp with rfl | rfl
      · exact under_stored hname
      · exact under_stored hother
  · exact absurd hp List.not_mem_nil

theorem under_tryReadOne {filter : EnvelopeRecordFilter} {baseKey p : Text}
    (hkey : slash ∉ baseKey) (hp : p ∈ server.tryReadOne models filter baseKey) :
    server.Under p := by
  rw [tryReadOne] at hp
  split at hp
  · exact absurd hp List.not_mem_nil
  · dsimp only at hp
    split at hp
    · exact absurd hp List.not_mem_nil
    · rw [List.mem_cons, List.mem_singleton] at hp
      rcases hp with rfl | rfl
      · exact under_stored (slash_not_mem_dataFile hkey)
      · exact under_stored (slash_not_mem_metadataFile hkey)

variable (server) in
/-- The key of an `EnvelopeGet` stays, with the extension of each file that it is opened for. -/
def Harmless (disk : Disk) : Request → Prop
  | .envelopeGet key => server.Stays (dataFile key) ∧
      ((disk.readFile (server.stored (dataFile key))).isSome → server.Stays (metadataFile key))
  | _ => True

instance (disk : Disk) : (request : Request) → Decidable (server.Harmless disk request)
  | .envelopeGet key => inferInstanceAs (Decidable (server.Stays (dataFile key) ∧
      ((disk.readFile (server.stored (dataFile key))).isSome → server.Stays (metadataFile key))))
  | .getStat _ | .read _ _ _ | .envelope _ | .envelopeList _ | .loadRecords _ => isTrue trivial

theorem under_opens_iff (h : Slashless models) (request : Request) :
    (∀ p ∈ server.opens models disk request, server.Under p) ↔ server.Harmless disk request := by
  cases request with
  | getStat path =>
      exact iff_of_true (under_assert fun p => eq_of_mem_buildLineIndex) trivial
  | read path fromLine count =>
      refine iff_of_true (under_assert fun p hp => ?_) trivial
      exact (List.mem_append.mp hp).elim eq_of_mem_buildLineIndex eq_of_mem_readLines
  | envelope request =>
      refine iff_of_true (fun p hp => ?_) trivial
      rw [opens] at hp
      split at hp
      · exact absurd hp List.not_mem_nil
      · next put _ =>
          have hkey := slash_not_mem_key h put
          simp only [List.mem_cons, List.not_mem_nil, or_false] at hp
          rcases hp with rfl | rfl | rfl
          · exact under_stored (slash_not_mem_dataFile hkey)
          · exact under_stored (slash_not_mem_metadataFile hkey)
          · exact under_stored (slash_not_mem_metadataFile hkey)
  | envelopeList request =>
      refine iff_of_true (fun p hp => ?_) trivial
      rcases List.mem_cons.mp hp with rfl | hentry
      · exact under_oppStoragePath
      · obtain ⟨name, hname, hp⟩ := List.mem_flatMap.mp hentry
        exact under_resolveListEntry (slash_not_mem_names (List.mem_filter.mp hname).1) hp
  | loadRecords filter =>
      refine iff_of_true (fun p hp => ?_) trivial
      rcases List.mem_cons.mp hp with rfl | hrecord
      · exact under_oppStoragePath
      · obtain ⟨baseKey, hbase, hp⟩ := List.mem_flatMap.mp hrecord
        obtain ⟨name, hname, rfl⟩ := List.mem_map.mp hbase
        have hslash := slash_not_mem_names (List.mem_filter.mp hname).1
        exact under_tryReadOne (fun hmem => hslash (List.mem_of_mem_take hmem)) hp
  | envelopeGet key =>
      rw [opens, Harmless]
      cases disk.readFile (server.stored (dataFile key)) with
      | none => simp [under_stored_iff]
      | some bytes => simp [under_stored_iff, and_comm]

end Server

/-! ### Every run -/

def Event.Harmless (server : Server) : Event → Prop
  | .request r disk => server.Harmless disk r
  | _ => True

instance (server : Server) : (ev : Event) → Decidable (ev.Harmless server)
  | .request r disk => inferInstanceAs (Decidable (server.Harmless disk r))
  | .subscribe _ _ | .tick _ _ | .stop _ => isTrue trivial

namespace State

variable {server : Server} {s s' : State}

/-- What the server has opened is under the cluster. -/
def Contained (server : Server) (s : State) : Prop :=
  ∀ p ∈ s.opened, server.Under p

/-- Log tails follow files under the cluster. -/
def Tails (server : Server) (s : State) : Prop :=
  ∀ id path, s.tails id = some path → server.Under path

theorem tails_init : Tails server init :=
  fun _ path h => absurd h (Option.some_ne_none path).symm

theorem contained_append {opened : List Text} :
    Contained server { s with opened := s.opened ++ opened } ↔
      Contained server s ∧ ∀ p ∈ opened, server.Under p :=
  List.forall_mem_append

/-- A log tail that starts is one more that follows a file under the cluster. -/
theorem Tails.update (h : s.Tails server) {path : Option Text} (id : ℕ)
    (hpath : ∀ p, path = some p → server.Under p) {next : ℕ} {opened : List Text} :
    Tails server ⟨Function.update s.tails id path, next, opened⟩ := by
  intro other p hp
  change Function.update s.tails id path other = some p at hp
  rw [Function.update_apply] at hp
  split at hp
  · exact hpath p hp
  · exact h other p hp

theorem step_contained (h : Slashless models) (htails : s.Tails server) {ev : Event}
    (hs : step server models s ev = some s') : s'.Tails server ∧
      (s'.Contained server ↔ s.Contained server ∧ ev.Harmless server) := by
  cases ev with
  | request request disk =>
      cases hs
      exact ⟨htails, contained_append.trans
        (and_congr_right fun _ => Server.under_opens_iff h request)⟩
  | subscribe path disk =>
      rw [step] at hs
      split at hs
      · next hunder =>
          have hpath := (isPathUnder_iff _ _ _).mp hunder
          cases hs
          refine ⟨htails.update _ fun p hp => Option.some.inj hp ▸ hpath,
            contained_append.trans (and_congr_right fun _ => iff_of_true (fun p hp => ?_) trivial)⟩
          rw [Server.eq_of_mem_buildLineIndex hp]
          exact hpath
      · cases hs
        exact ⟨htails, (and_iff_left trivial).symm⟩
  | tick id disk =>
      obtain ⟨path, hpath, rfl⟩ := Option.map_eq_some_iff.mp hs
      refine ⟨htails, contained_append.trans
        (and_congr_right fun _ => iff_of_true (fun p hp => ?_) trivial)⟩
      rw [(List.mem_append.mp hp).elim Server.eq_of_mem_buildLineIndex Server.eq_of_mem_readLines]
      exact htails id path hpath
  | stop id =>
      obtain ⟨_, _, rfl⟩ := Option.map_eq_some_iff.mp hs
      exact ⟨htails.update id fun p hp => absurd hp (Option.some_ne_none p).symm,
        (and_iff_left trivial).symm⟩

/-- In a run, the server opens nothing outside the cluster exactly when every key of an
`EnvelopeGet` stays. -/
theorem opened_under_iff (h : Slashless models) {events : List Event}
    (hrun : runs (step server models) init events = some s) :
    (∀ p ∈ s.opened, server.Under p) ↔ ∀ ev ∈ events, ev.Harmless server := by
  suffices hrest : ∀ {events : List Event} {s s' : State}, s.Tails server →
      runs (step server models) s events = some s' →
      (s'.Contained server ↔ s.Contained server ∧ ∀ ev ∈ events, ev.Harmless server) by
    refine (hrest tails_init hrun).trans (and_iff_right fun p hp => ?_)
    exact absurd hp List.not_mem_nil
  intro events
  induction events with
  | nil =>
      intro s s' _ hrun
      cases hrun
      exact (and_iff_left fun ev hev => absurd hev List.not_mem_nil).symm
  | cons ev events ih =>
      intro s s' htails hrun
      obtain ⟨m, hstep, hrest⟩ := runs_cons.mp hrun
      obtain ⟨hm, hfirst⟩ := step_contained h htails hstep
      rw [ih hm hrest, hfirst, List.forall_mem_cons, and_assoc]

end State

/-! ### A key that leaves the cluster -/

def cluster : Server where
  cwd := ⟨text "/", rfl⟩
  clusterPath := text "/srv/cluster"
  given := by decide

/-- One envelope, and a file beside the cluster directory. -/
def neighbours : Disk where
  readFile p :=
    if p = text "/srv/cluster/data/opp-debugging/a.data" ∨ p = text "/srv/secret.data" then some [1]
    else none
  readdir _ := [⟨text "a.data", by decide⟩]
  mtimeNs _ := 0

theorem emptyModels_slashless : Slashless emptyModels where
  digest _ := (by decide : slash ∉ emptyDigest)
  names type key hname := by
    have hslash : ∀ key ∈ endpointsNames, slash ∉ key := by decide
    exact hslash key (List.mem_of_getElem? hname)

/-- A log tail, and the envelope. -/
def visit : List Event :=
  [.subscribe (text "/srv/cluster/node.log") neighbours, .tick 0 neighbours,
    .request (.envelopeGet (text "a")) neighbours]

theorem opened_under_visit : ∃ s, runs (State.step cluster emptyModels) .init visit = some s ∧
    ∀ p ∈ s.opened, cluster.Under p := by
  obtain ⟨s, hrun⟩ : ∃ s, runs (State.step cluster emptyModels) .init visit = some s := ⟨_, rfl⟩
  exact ⟨s, hrun, (State.opened_under_iff emptyModels_slashless hrun).mpr (by decide)⟩

/-- The key is joined to the storage directory, and the file that is opened lies beside the
cluster directory. -/
theorem key_leaves_cluster : ∃ s, runs (State.step cluster emptyModels) .init
    [.request (.envelopeGet (text "../../../secret")) neighbours] = some s ∧
    text "/srv/secret.data" ∈ s.opened ∧ ¬cluster.Under (text "/srv/secret.data") :=
  ⟨_, rfl, by decide, by decide⟩

end WireTools.DebuggingServer
