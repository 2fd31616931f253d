import Mathlib.Data.List.Induction
import WireTools.OrderedMap
import WireTools.Text

/-! # The two liveness streams

`ProcessLivenessStream` (server) and `LocalFileDebuggingClient` (local files) poll the pid
files and emit what changed since the poll before.  The two copies of the poll differ in how
they find the time a process exited.

* `ProcessLivenessStream.tick` and `LocalFileDebuggingClient.tick` are `tick` at
  `serverSnapshot` and `localSnapshot`;
* `stream` is what the polls emit, `snapshots` what the last poll saw;
* `folded_stream`: merging what was emitted gives the snapshots back, in either copy;
* `Heralded`: who is seen dead was there at the poll before.  The two copies agree, and
  `exitedAt` is what its comment says, just then (`liveness_agrees`). -/

namespace WireTools
namespace Liveness

/-- A pid file: its label, the pid in it and whether that process is alive. -/
structure Source where
  label : Text
  pid : Option ℕ
  alive : Bool
deriving DecidableEq

/-- What a poll finds, and the clock. -/
structure Tick where
  sources : List Source
  now : ℕ
deriving DecidableEq

structure Snapshot where
  label : Text
  pid : Option ℕ
  alive : Bool
  lastCheckedAt : ℕ
  exitedAt : Option ℕ
deriving DecidableEq

structure Event where
  setSnapshots : List Snapshot
  removedLabels : List Text
deriving DecidableEq

abbrev Snapshots := OrderedMap Text Snapshot

/-! ### The snapshot of a source -/

def serverSnapshot (src : Source) (prior : Option Snapshot) (now : ℕ) : Snapshot where
  label := src.label
  pid := src.pid
  alive := src.alive
  lastCheckedAt := now
  exitedAt :=
    if src.alive then none
    else if prior.any (·.alive) then some now
    else some ((prior.bind (·.exitedAt)).getD now)

def snapshotForSource (source : Source) (now : ℕ) : Snapshot where
  label := source.label
  pid := source.pid
  alive := source.alive
  lastCheckedAt := now
  exitedAt := if source.alive then none else some now

def computeExitedAt (current : Snapshot) (prior : Option Snapshot) (now : ℕ) : Option ℕ :=
  match current.alive, prior with
  | true, _ => none
  | false, some prev => if prev.alive then some now else prev.exitedAt
  | false, none => none

def localSnapshot (source : Source) (previous : Option Snapshot) (now : ℕ) : Snapshot :=
  let baseline := snapshotForSource source now
  { baseline with exitedAt := computeExitedAt baseline previous now }

/-! ### The poll -/

section Poll

variable (snapshot : Source → Option Snapshot → ℕ → Snapshot)

def nextSnapshots (prev : Snapshots) (poll : Tick) : Snapshots :=
  OrderedMap.collect []
    (poll.sources.map fun src => (src.label, snapshot src (prev.get src.label) poll.now))

def changed (prior : Option Snapshot) (snap : Snapshot) : Bool :=
  match prior with
  | none => true
  | some prior =>
      prior.pid != snap.pid || prior.alive != snap.alive || prior.exitedAt != snap.exitedAt

def diff (prev next : Snapshots) : Event where
  setSnapshots := (next.filter fun entry => changed (prev.get entry.1) entry.2).map Prod.snd
  removedLabels := prev.keys.filter (· ∉ next.keys)

/-- The event of a poll, when it has something to say. -/
def emitted (event : Event) : List Event :=
  if 0 < event.setSnapshots.length ∨ 0 < event.removedLabels.length then [event] else []

def tick (prev : Snapshots) (poll : Tick) : Snapshots × List Event :=
  let next := nextSnapshots snapshot prev poll
  (next, emitted (diff prev next))

end Poll

def ProcessLivenessStream.tick : Snapshots → Tick → Snapshots × List Event :=
  Liveness.tick serverSnapshot

def LocalFileDebuggingClient.tick : Snapshots → Tick → Snapshots × List Event :=
  Liveness.tick localSnapshot

/-- The snapshots after a row of polls. -/
def snapshots (step : Snapshots → Tick → Snapshots × List Event) (prev : Snapshots)
    (polls : List Tick) : Snapshots :=
  polls.foldl (fun prev poll => (step prev poll).1) prev

/-- What a row of polls emits. -/
def stream (step : Snapshots → Tick → Snapshots × List Event) (prev : Snapshots) :
    List Tick → List Event
  | [] => []
  | poll :: polls => (step prev poll).2 ++ stream step (step prev poll).1 polls

/-! ### What a poll sees -/

/-- What a poll sees of a label; of two pid files with one label the later counts. -/
def seen (sources : List Source) (label : Text) : Option Source :=
  OrderedMap.last (sources.map fun src => (src.label, src)) label

/-- Whether a poll sees the label alive; none when it does not see it. -/
def Tick.alive (poll : Tick) (label : Text) : Option Bool :=
  (seen poll.sources label).map (·.alive)

theorem seen_cons (src : Source) (sources : List Source) (label : Text) :
    seen (src :: sources) label =
      (seen sources label).or (if src.label = label then some src else none) :=
  OrderedMap.last_cons _ _ _

theorem seen_label {sources : List Source} {label : Text} {src : Source}
    (h : seen sources label = some src) : src.label = label := by
  obtain ⟨other, -, heq⟩ := List.mem_map.mp (OrderedMap.last_eq_some h)
  obtain ⟨rfl, rfl⟩ := Prod.mk.inj heq
  rfl

theorem last_map_seen (f : Source → Snapshot) (sources : List Source) (label : Text) :
    OrderedMap.last (sources.map fun src => (src.label, f src)) label =
      (seen sources label).map f := by
  induction sources with
  | nil => rfl
  | cons src sources ih =>
      rw [List.map_cons, OrderedMap.last_cons, ih, seen_cons, Option.map_or]
      refine congrArg _ ?_
      split <;> rfl

section Poll

variable {snapshot : Source → Option Snapshot → ℕ → Snapshot}

theorem get_nextSnapshots (prev : Snapshots) (poll : Tick) (label : Text) :
    (nextSnapshots snapshot prev poll).get label =
      (seen poll.sources label).map fun src => snapshot src (prev.get label) poll.now := by
  rw [nextSnapshots, OrderedMap.get_collect,
    last_map_seen (fun src => snapshot src (prev.get src.label) poll.now)]
  cases hseen : seen poll.sources label with
  | none => rfl
  | some src =>
      rw [Option.map_some, Option.map_some, seen_label hseen]
      rfl

theorem distinct_nextSnapshots (prev : Snapshots) (poll : Tick) :
    (nextSnapshots snapshot prev poll).Distinct :=
  OrderedMap.Distinct.collect (m := []) List.nodup_nil _

end Poll

/-! ### Merging the events -/

/-- A client's merge: the snapshots set, then the removed labels dropped. -/
def merge (folded : Snapshots) (event : Event) : Snapshots :=
  (folded.collect (event.setSnapshots.map fun snap => (snap.label, snap))).deleteAll
    event.removedLabels

/-- What a snapshot says, up to when it was taken. -/
def Snapshot.values (snap : Snapshot) : Text × Option ℕ × Bool × Option ℕ :=
  (snap.label, snap.pid, snap.alive, snap.exitedAt)

/-- Every snapshot stands under its label, no label twice. -/
structure Keyed (m : Snapshots) : Prop where
  distinct : m.Distinct
  label : ∀ label snap, m.get label = some snap → snap.label = label

theorem keyed_nil : Keyed [] :=
  ⟨List.nodup_nil, nofun⟩

theorem values_eq {prior : Option Snapshot} {snap : Snapshot} (h : changed prior snap = false)
    (hlabel : ∀ old ∈ prior, old.label = snap.label) :
    prior.map Snapshot.values = some snap.values := by
  cases prior with
  | none => cases h
  | some old =>
      simp only [changed, Bool.or_eq_false_iff, bne_eq_false_iff_eq] at h
      obtain ⟨⟨hpid, halive⟩, hexited⟩ := h
      rw [Option.map_some, Snapshot.values, Snapshot.values, hlabel old rfl, hpid, halive, hexited]

theorem last_setSnapshots (prev : Snapshots) {next : Snapshots} (h : Keyed next) (label : Text) :
    OrderedMap.last ((diff prev next).setSnapshots.map fun snap => (snap.label, snap)) label =
      (next.get label).filter (changed (prev.get label)) := by
  have hentries : (diff prev next).setSnapshots.map (fun snap => (snap.label, snap)) =
      next.filter fun entry => changed (prev.get entry.1) entry.2 := by
    rw [diff, List.map_map]
    refine (List.map_congr_left fun entry hentry => ?_).trans (List.map_id _)
    have hget := h.distinct.mem_iff.mp (List.mem_filter.mp hentry).1
    exact Prod.ext (h.label _ _ hget) rfl
  rw [hentries, (h.distinct.filter _).last_eq, h.distinct.get_filter]

theorem mem_removedLabels {prev next : Snapshots} {label : Text} :
    label ∈ (diff prev next).removedLabels ↔ prev.get label ≠ none ∧ next.get label = none := by
  rw [diff, List.mem_filter, decide_eq_true_iff, OrderedMap.not_mem_keys]
  refine and_congr_left fun _ => ?_
  rw [← not_iff_not, not_not, OrderedMap.not_mem_keys]

/-- Merging the difference to the next snapshots gives the next snapshots. -/
theorem get_merge_diff {folded prev next : Snapshots} (hprev : Keyed prev) (hnext : Keyed next)
    (h : ∀ label, (folded.get label).map Snapshot.values = (prev.get label).map Snapshot.values)
    (label : Text) :
    ((merge folded (diff prev next)).get label).map Snapshot.values =
      (next.get label).map Snapshot.values := by
  rw [merge, OrderedMap.get_deleteAll, OrderedMap.get_collect, last_setSnapshots prev hnext]
  cases hget : next.get label with
  | none =>
      rw [Option.filter_none, Option.none_or]
      cases hold : prev.get label with
      | none =>
          rw [if_neg fun hmem => (mem_removedLabels.mp hmem).1 hold, h, hold]
      | some old =>
          rw [if_pos (mem_removedLabels.mpr ⟨by rw [hold]; exact Option.some_ne_none _, hget⟩)]
  | some snap =>
      rw [if_neg]
      · cases hchanged : changed (prev.get label) snap with
        | true =>
            rw [Option.filter_some, if_pos hchanged]
            rfl
        | false =>
            rw [Option.filter_some, if_neg (by rw [hchanged]; exact Bool.false_ne_true),
              Option.none_or, h]
            refine values_eq hchanged fun old hold => ?_
            rw [hprev.label _ _ hold, hnext.label _ _ hget]
      · intro hmem
        rw [(mem_removedLabels.mp hmem).2] at hget
        cases hget

/-- A poll without an event leaves nothing to merge. -/
theorem get_foldl_emitted (folded : Snapshots) (event : Event) (label : Text) :
    ((emitted event).foldl merge folded).get label = (merge folded event).get label := by
  unfold emitted
  split
  · rfl
  · next hnone =>
      obtain ⟨hset, hremoved⟩ := not_or.mp hnone
      rw [List.foldl_nil, merge, List.eq_nil_of_length_eq_zero (Nat.eq_zero_of_not_pos hset),
        List.eq_nil_of_length_eq_zero (Nat.eq_zero_of_not_pos hremoved),
        OrderedMap.get_deleteAll, if_neg List.not_mem_nil]
      rfl

section Poll

variable {snapshot : Source → Option Snapshot → ℕ → Snapshot}

theorem keyed_nextSnapshots
    (hsnapshot : ∀ src prior now, (snapshot src prior now).label = src.label)
    (prev : Snapshots) (poll : Tick) : Keyed (nextSnapshots snapshot prev poll) where
  distinct := distinct_nextSnapshots prev poll
  label := by
    intro label snap hget
    rw [get_nextSnapshots] at hget
    obtain ⟨src, hseen, rfl⟩ := Option.map_eq_some_iff.mp hget
    rw [hsnapshot, seen_label hseen]

/-- Merging what the polls emitted gives the snapshots of the last one. -/
theorem folded_stream (hsnapshot : ∀ src prior now, (snapshot src prior now).label = src.label)
    (polls : List Tick) (folded prev : Snapshots) (hprev : Keyed prev)
    (h : ∀ label, (folded.get label).map Snapshot.values = (prev.get label).map Snapshot.values)
    (label : Text) :
    (((stream (tick snapshot) prev polls).foldl merge folded).get label).map Snapshot.values =
      ((snapshots (tick snapshot) prev polls).get label).map Snapshot.values := by
  induction polls generalizing folded prev with
  | nil => exact h label
  | cons poll polls ih =>
      have hnext := keyed_nextSnapshots hsnapshot prev poll
      rw [stream, List.foldl_append, snapshots, List.foldl_cons]
      refine ih _ _ hnext fun label => ?_
      rw [show (tick snapshot prev poll).2 = emitted (diff prev (nextSnapshots snapshot prev poll))
        from rfl, get_foldl_emitted]
      exact get_merge_diff hprev hnext h label

end Poll

/-! ### When a process exited -/

/-- `t` is the time of the first poll that saw the label dead since it was last alive. -/
def FirstDead (polls : List Tick) (label : Text) (t : ℕ) : Prop :=
  ∃ before last absent dead after, polls = before ++ last :: (absent ++ dead :: after) ∧
    last.alive label = some true ∧ (∀ poll ∈ absent, poll.alive label = none) ∧
    dead.alive label = some false ∧ dead.now = t ∧
    ∀ poll ∈ after, poll.alive label ≠ some true

theorem FirstDead.append {polls : List Tick} {label : Text} {t : ℕ} {poll : Tick}
    (h : FirstDead polls label t) (hpoll : poll.alive label ≠ some true) :
    FirstDead (polls ++ [poll]) label t := by
  obtain ⟨before, last, absent, dead, after, rfl, hlast, habsent, hdead, hnow, hafter⟩ := h
  refine ⟨before, last, absent, dead, after ++ [poll], by simp, hlast, habsent, hdead, hnow, ?_⟩
  intro other hother
  rcases List.mem_append.mp hother with hmem | hmem
  · exact hafter other hmem
  · rw [List.mem_singleton.mp hmem]
    exact hpoll

theorem firstDead_now {polls : List Tick} {label : Text} {last poll : Tick}
    (hlast : last.alive label = some true) (hpoll : poll.alive label = some false) :
    FirstDead (polls ++ [last] ++ [poll]) label poll.now :=
  ⟨polls, last, [], poll, [], by simp, hlast, nofun, hpoll, rfl, nofun⟩

/-- `exitedAt` as its comment has it, over the polls so far. -/
def ExitTime (polls : List Tick) (label : Text) (snap : Snapshot) : Prop :=
  if snap.alive = false ∧ ∃ poll ∈ polls, poll.alive label = some true then
    ∃ t, snap.exitedAt = some t ∧ FirstDead polls label t
  else snap.exitedAt = none

/-! ### Heralded deaths -/

/-- Every label that a poll sees dead was there at the poll before. -/
def Heralded : List Source → List Tick → Prop
  | _, [] => True
  | before, poll :: polls =>
      (∀ label, poll.alive label = some false → seen before label ≠ none) ∧
        Heralded poll.sources polls

/-- The sources that the last poll saw. -/
def lastSources (polls : List Tick) : List Source :=
  (polls.getLast?.map (·.sources)).getD []

/-- What the snapshots say of the polls so far when no death went unheralded. -/
structure Told (polls : List Tick) (prev : Snapshots) : Prop where
  status : ∀ label, (prev.get label).map (·.alive) =
    (seen (lastSources polls) label).map (·.alive)
  running : ∀ label snap, prev.get label = some snap → snap.alive = true → snap.exitedAt = none
  first : ∀ label snap, prev.get label = some snap → snap.alive = false →
    ∃ t, snap.exitedAt = some t ∧ FirstDead polls label t

theorem told_nil : Told [] [] where
  status _ := rfl
  running := nofun
  first := nofun

theorem lastSources_append (polls : List Tick) (poll : Tick) :
    lastSources (polls ++ [poll]) = poll.sources := by
  rw [lastSources, List.getLast?_append, List.getLast?_singleton]
  rfl

theorem Told.get_eq_none {polls : List Tick} {prev : Snapshots} (h : Told polls prev)
    {label : Text} : prev.get label = none ↔ seen (lastSources polls) label = none := by
  have halive := h.status label
  rw [← Option.map_eq_none_iff (f := (·.alive)), halive, Option.map_eq_none_iff]

/-- A label seen alive at the last poll and dead now exited now. -/
theorem Told.firstDead {polls : List Tick} {prev : Snapshots} (h : Told polls prev) {label : Text}
    {old : Snapshot} (hold : prev.get label = some old) (halive : old.alive = true) {poll : Tick}
    (hpoll : poll.alive label = some false) : FirstDead (polls ++ [poll]) label poll.now := by
  have hlast := h.status label
  rw [hold, Option.map_some, halive] at hlast
  rcases List.eq_nil_or_concat polls with rfl | ⟨before, last, rfl⟩
  · cases hlast
  · rw [List.concat_eq_append] at hlast ⊢
    rw [lastSources_append] at hlast
    exact firstDead_now hlast.symm hpoll

/-- What a dead source's snapshot says, in either copy, when the label was there before. -/
theorem Told.exited {polls : List Tick} {prev : Snapshots} (h : Told polls prev) {poll : Tick}
    {label : Text} {src : Source} (hseen : seen poll.sources label = some src)
    (hdead : src.alive = false) (hbefore : seen (lastSources polls) label ≠ none) :
    ∃ t, (serverSnapshot src (prev.get label) poll.now).exitedAt = some t ∧
      (localSnapshot src (prev.get label) poll.now).exitedAt = some t ∧
      FirstDead (polls ++ [poll]) label t := by
  have hpoll : poll.alive label = some false := by
    rw [Tick.alive, hseen, Option.map_some, hdead]
  obtain ⟨old, hold⟩ := Option.ne_none_iff_exists'.mp fun hnone => hbefore (h.get_eq_none.mp hnone)
  simp only [serverSnapshot, localSnapshot, computeExitedAt, snapshotForSource, hdead, hold]
  cases halive : old.alive with
  | true =>
      refine ⟨poll.now, ?_, ?_, h.firstDead hold halive hpoll⟩
      · simp [halive]
      · simp
  | false =>
      obtain ⟨t, ht, hfirst⟩ := h.first label old hold halive
      refine ⟨t, ?_, ?_, hfirst.append ?_⟩
      · simp [halive, ht]
      · simp [ht]
      · rw [hpoll]
        rintro ⟨⟩

/-- Without an unheralded death the two copies take the same snapshots. -/
theorem Told.same_next {polls : List Tick} {prev : Snapshots} (h : Told polls prev) {poll : Tick}
    (hpoll : ∀ label, poll.alive label = some false → seen (lastSources polls) label ≠ none) :
    nextSnapshots serverSnapshot prev poll = nextSnapshots localSnapshot prev poll := by
  refine (distinct_nextSnapshots prev poll).ext
    (OrderedMap.keys_collect_congr ?_ rfl) fun label => ?_
  · simp only [List.map_map]
    rfl
  · rw [get_nextSnapshots, get_nextSnapshots]
    cases hseen : seen poll.sources label with
    | none => rfl
    | some src =>
        refine congrArg some ?_
        have hexited : (serverSnapshot src (prev.get label) poll.now).exitedAt =
            (localSnapshot src (prev.get label) poll.now).exitedAt := by
          cases hdead : src.alive with
          | true => simp [serverSnapshot, localSnapshot, computeExitedAt, snapshotForSource, hdead]
          | false =>
              have hbefore := hpoll label (by rw [Tick.alive, hseen, Option.map_some, hdead])
              obtain ⟨t, hserver, hlocal, -⟩ := h.exited hseen hdead hbefore
              rw [hserver, hlocal]
        simp only [serverSnapshot, localSnapshot, snapshotForSource, Snapshot.mk.injEq, true_and]
        exact hexited

theorem Told.same_tick {polls : List Tick} {prev : Snapshots} (h : Told polls prev) {poll : Tick}
    (hpoll : ∀ label, poll.alive label = some false → seen (lastSources polls) label ≠ none) :
    LocalFileDebuggingClient.tick prev poll = ProcessLivenessStream.tick prev poll := by
  unfold ProcessLivenessStream.tick LocalFileDebuggingClient.tick tick
  rw [h.same_next hpoll]

theorem Told.next {polls : List Tick} {prev : Snapshots} (h : Told polls prev) {poll : Tick}
    (hpoll : ∀ label, poll.alive label = some false → seen (lastSources polls) label ≠ none) :
    Told (polls ++ [poll]) (nextSnapshots serverSnapshot prev poll) where
  status := by
    intro label
    rw [get_nextSnapshots, lastSources_append, Option.map_map]
    rfl
  running := by
    intro label snap hget halive
    rw [get_nextSnapshots] at hget
    obtain ⟨src, -, rfl⟩ := Option.map_eq_some_iff.mp hget
    exact if_pos halive
  first := by
    intro label snap hget hdead
    rw [get_nextSnapshots] at hget
    obtain ⟨src, hseen, rfl⟩ := Option.map_eq_some_iff.mp hget
    have hbefore := hpoll label (by rw [Tick.alive, hseen]; exact congrArg some hdead)
    obtain ⟨t, hserver, -, hfirst⟩ := h.exited hseen hdead hbefore
    exact ⟨t, hserver, hfirst⟩

theorem Told.exitTime {polls : List Tick} {prev : Snapshots} (h : Told polls prev) {label : Text}
    {snap : Snapshot} (hget : prev.get label = some snap) : ExitTime polls label snap := by
  unfold ExitTime
  split
  · next hdead => exact h.first label snap hget hdead.1
  · next hother =>
      cases halive : snap.alive with
      | true => exact h.running label snap hget halive
      | false =>
          obtain ⟨t, -, hfirst⟩ := h.first label snap hget halive
          obtain ⟨before, last, absent, dead, after, rfl, hlast, -⟩ := hfirst
          exact absurd ⟨halive, last, by simp, hlast⟩ hother

/-! ### The streams compared -/

/-- A snapshot of a label that was not there before is emitted. -/
theorem emitted_new (prev : Snapshots) {next : Snapshots} (h : Keyed next) {label : Text}
    {snap : Snapshot} (hprev : prev.get label = none) (hnext : next.get label = some snap) :
    emitted (diff prev next) = [diff prev next] ∧
      OrderedMap.last ((diff prev next).setSnapshots.map fun snap => (snap.label, snap)) label =
        some snap := by
  have hlast := last_setSnapshots prev h label
  rw [hprev, hnext, Option.filter_some, if_pos (show changed none snap = true from rfl)] at hlast
  refine ⟨if_pos (Or.inl (List.length_pos_iff.mpr fun hnil => ?_)), hlast⟩
  rw [hnil] at hlast
  cases hlast

/-- At an unheralded death the server emits the time of the poll, the local client none. -/
theorem stream_ne {prev : Snapshots} {poll : Tick} {label : Text}
    (hdead : poll.alive label = some false) (hprev : prev.get label = none) (polls : List Tick) :
    stream ProcessLivenessStream.tick prev (poll :: polls) ≠
      stream LocalFileDebuggingClient.tick prev (poll :: polls) := by
  obtain ⟨src, hseen, hsrc⟩ := Option.map_eq_some_iff.mp hdead
  have hserver : (nextSnapshots serverSnapshot prev poll).get label = _ :=
    get_nextSnapshots prev poll label
  have hlocal : (nextSnapshots localSnapshot prev poll).get label = _ :=
    get_nextSnapshots prev poll label
  rw [hseen, hprev, Option.map_some] at hserver hlocal
  obtain ⟨hfirst, hset⟩ :=
    emitted_new prev (keyed_nextSnapshots (fun _ _ _ => rfl) prev poll) hprev hserver
  obtain ⟨hfirst', hset'⟩ :=
    emitted_new prev (keyed_nextSnapshots (fun _ _ _ => rfl) prev poll) hprev hlocal
  intro heq
  have hevents : diff prev (nextSnapshots serverSnapshot prev poll) =
      diff prev (nextSnapshots localSnapshot prev poll) := by
    simp only [stream, ProcessLivenessStream.tick, LocalFileDebuggingClient.tick, tick, hfirst,
      hfirst', List.singleton_append] at heq
    exact (List.cons.inj heq).1
  rw [hevents, hset'] at hset
  have hexited := congrArg Snapshot.exitedAt (Option.some.inj hset)
  simp [serverSnapshot, localSnapshot, computeExitedAt, snapshotForSource, hsrc] at hexited

theorem stream_eq_iff {done : List Tick} {prev : Snapshots} (h : Told done prev)
    (polls : List Tick) :
    stream ProcessLivenessStream.tick prev polls = stream LocalFileDebuggingClient.tick prev polls ↔
      Heralded (lastSources done) polls := by
  induction polls generalizing done prev with
  | nil => exact ⟨fun _ => trivial, fun _ => rfl⟩
  | cons poll polls ih =>
      by_cases hpoll : ∀ label, poll.alive label = some false → seen (lastSources done) label ≠ none
      · have hnext := ih (h.next hpoll)
        rw [lastSources_append] at hnext
        rw [Heralded, and_iff_right hpoll, ← hnext, stream, stream, h.same_tick hpoll]
        exact List.append_right_inj _
      · refine iff_of_false ?_ fun hheralded => hpoll hheralded.1
        push Not at hpoll
        obtain ⟨label, hdead, hbefore⟩ := hpoll
        exact stream_ne hdead (h.get_eq_none.mpr hbefore) polls

/-- Without an unheralded death the two copies hold the same snapshots, which tell what
happened. -/
theorem told_snapshots {done : List Tick} {prev : Snapshots} (h : Told done prev)
    {polls : List Tick} (hpolls : Heralded (lastSources done) polls) :
    snapshots LocalFileDebuggingClient.tick prev polls =
        snapshots ProcessLivenessStream.tick prev polls ∧
      Told (done ++ polls) (snapshots ProcessLivenessStream.tick prev polls) := by
  induction polls generalizing done prev with
  | nil =>
      rw [List.append_nil]
      exact ⟨rfl, h⟩
  | cons poll polls ih =>
      obtain ⟨hpoll, hrest⟩ := hpolls
      rw [← lastSources_append done poll] at hrest
      have hnext := ih (h.next hpoll) hrest
      rw [List.append_assoc] at hnext
      rw [snapshots, snapshots, List.foldl_cons, List.foldl_cons, h.same_tick hpoll]
      exact hnext

theorem Heralded.left {before : List Source} {polls more : List Tick}
    (h : Heralded before (polls ++ more)) : Heralded before polls := by
  induction polls generalizing before with
  | nil => trivial
  | cons poll polls ih => exact ⟨h.1, ih h.2⟩

/-- The two transports agree over a row of polls: the same events; merged, they always give
the last snapshots; and `exitedAt` is what its comment says. -/
structure Agrees (polls : List Tick) : Prop where
  same : stream ProcessLivenessStream.tick [] polls = stream LocalFileDebuggingClient.tick [] polls
  folded : ∀ step ∈ [ProcessLivenessStream.tick, LocalFileDebuggingClient.tick],
    ∀ done, done <+: polls → ∀ label,
      (((stream step [] done).foldl merge []).get label).map Snapshot.values =
        ((snapshots step [] done).get label).map Snapshot.values
  exited : ∀ step ∈ [ProcessLivenessStream.tick, LocalFileDebuggingClient.tick],
    ∀ done, done <+: polls → ∀ label snap, (snapshots step [] done).get label = some snap →
      ExitTime done label snap

/-- The transports agree just when no poll sees a label dead that the poll before did not
see. -/
theorem liveness_agrees (polls : List Tick) : Agrees polls ↔ Heralded [] polls := by
  refine ⟨fun h => (stream_eq_iff told_nil polls).mp h.same, fun h => ⟨?_, ?_, ?_⟩⟩
  · exact (stream_eq_iff told_nil polls).mpr h
  · intro step hstep done _ label
    rcases List.mem_pair.mp hstep with rfl | rfl
    · exact folded_stream (fun _ _ _ => rfl) done [] [] keyed_nil (fun _ => rfl) label
    · exact folded_stream (fun _ _ _ => rfl) done [] [] keyed_nil (fun _ => rfl) label
  · rintro step hstep done ⟨more, rfl⟩ label snap hget
    obtain ⟨hsame, htold⟩ := told_snapshots told_nil h.left
    rcases List.mem_pair.mp hstep with rfl | rfl
    · exact htold.exitTime hget
    · rw [hsame] at hget
      exact htold.exitTime hget

/-- A process that is dead at the first poll. -/
theorem dead_at_first_poll : ¬Agrees [⟨[⟨text "nodeop", some 7, false⟩], 5000⟩] :=
  fun h => absurd h.same (by decide)

end Liveness
end WireTools
