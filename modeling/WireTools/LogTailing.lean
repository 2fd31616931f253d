import WireTools.LineIndexRebuild
import WireTools.LogTailDelivery
import WireTools.Runs

/-! # The log viewer's lines

`LogTailingService` keeps a buffer of the lines of the selected file.  It is filled by the tail
subscription and by the windows that `readWindow` fetches; in front of what is put in, missing
lines are padded with empty ones.

* `State` is the service with the calls it waits for, `step` a change of the selection, a reply,
  a tail event, a `readWindow` or growth of a file.  Replies come in any order;
* a padded line is `none` in the buffer, so that it differs from an empty line of the file;
* `Orderly`: replies and tail events are for the present selection, and a window that is not
  fetched holds no padding;
* `Inv`: what an orderly step keeps;
* `Answered`: what has become of a call of `readWindow`;
* `log_viewer`: in an orderly run every call is answered, every window returned shows the lines of
  its file, and at most one subscription is open, for the selected path. -/

namespace WireTools
namespace LogTailing

open LogTail (LogTailEvent textLines_mono)

/-- The file as it was when it had `size` bytes. -/
def upTo (file : LogFile) (size : ℕ) : LogFile :=
  { file with content := file.content.take size }

/-- Bytes of a file that a scan takes at a time. -/
def chunkSize : ℕ := 1 <<< 20

def getLogStat (file : LogFile) : LineIndex :=
  buildLineIndex chunkSize file

def readLogWindow (file : LogFile) (fromLine count : ℕ) : List Text :=
  (buildLineIndex chunkSize file).read file.content fromLine count

structure Runtime where
  totalLines : ℕ
  totalBytes : ℕ
  indexing : Bool
deriving DecidableEq

/-- An `onStoreChange` that waits for a reply, with the number of its selection and the size the
file had when the reply was asked for. -/
structure Start where
  selection : ℕ
  path : Text
  asked : ℕ
deriving DecidableEq

/-- A subscription and the selection it was made for.  What was emitted before the listener came
is replayed later, even when the subscription is closed by then. -/
structure Subscription where
  selection : ℕ
  path : Text
  isOpen : Bool
  replaying : Bool
deriving DecidableEq

/-- A `readWindow` that waits for its lines. -/
structure Read where
  path : Text
  fromLine : ℕ
  count : ℕ
  totalLines : ℕ
  asked : ℕ
deriving DecidableEq

/-- What a `readWindow` returned, with the path and the total it was called at. -/
structure Window where
  path : Option Text
  fromLine : ℕ
  count : ℕ
  totalLines : ℕ
  lines : List Text
deriving DecidableEq

structure State where
  files : Text → LogFile
  subscription : Option ℕ := none
  currentPath : Option Text := none
  lines : List (Option Text) := []
  runtime : Runtime := ⟨0, 0, false⟩
  /-- How often the path has changed. -/
  selections : ℕ := 0
  /-- The starts that wait for `getLogStat`, and those that wait for `subscribe`. -/
  stats : List Start := []
  subscribes : List Start := []
  subscriptions : List Subscription := []
  reads : List Read := []
  windows : List Window := []

inductive Event where
  | select (path : Option Text)
  | grow (path : Text) (bytes : List UInt8)
  | statReply (start : Start) (size : ℕ)
  | statFailed (start : Start)
  | subscribeReply (start : Start)
  | subscribeFailed (start : Start)
  | tail (sub : Subscription) (evt : LogTailEvent)
  | replayed (sub : Subscription)
  | readWindow (fromLine count : ℕ)
  | readReply (read : Read) (size : ℕ)
  | readFailed (read : Read)

/-- How many lines a window may show. -/
def safeCount (fromLine count totalLines : ℕ) : ℕ :=
  min count (totalLines - fromLine)

def Read.shown (read : Read) : ℕ :=
  safeCount read.fromLine read.count read.totalLines

/-- The lines put in at an index, behind padding when the buffer is shorter. -/
def splice (lines : List (Option Text)) (fromLine : ℕ) (new : List Text) : List (Option Text) :=
  let padded := lines ++ List.replicate (fromLine - lines.length) none
  padded.take fromLine ++ new.map some ++ padded.drop (fromLine + new.length)

/-- A slice of the buffer; padding shows as empty lines. -/
def slice (lines : List (Option Text)) (fromLine count : ℕ) : List Text :=
  ((lines.drop fromLine).take count).map (·.getD [])

namespace State

variable (s : State)

/-- The subscription in hand closed. -/
def closeHeld : State :=
  { s with subscriptions := s.subscriptions.map fun sub =>
      if s.subscription = some sub.selection then { sub with isOpen := false } else sub }

def onStoreChange (path : Option Text) : State :=
  if path = s.currentPath then s
  else
    let s := { s.closeHeld with
      subscription := none
      currentPath := path
      lines := []
      runtime := ⟨0, 0, path.isSome⟩
      selections := s.selections + 1 }
    match path with
    | none => s
    | some path =>
        { s with stats := s.stats ++ [⟨s.selections, path, (s.files path).content.length⟩] }

/-- `getLogStat` has answered; the tail is subscribed to. -/
def afterStat (start : Start) (stat : LineIndex) : State :=
  { s with
    runtime := ⟨stat.completeLineCount, stat.totalBytes, false⟩
    stats := s.stats.erase start
    subscribes := s.subscribes ++ [start] }

/-- `subscribe` has answered. -/
def afterSubscribe (start : Start) : State :=
  { s with
    subscription := some start.selection
    subscribes := s.subscribes.erase start
    subscriptions := s.subscriptions ++ [⟨start.selection, start.path, true, true⟩] }

def onFailure : State :=
  { s with runtime := { s.runtime with indexing := false } }

def onTailEvent (evt : LogTailEvent) : State :=
  { s with
    lines := splice s.lines evt.appendedFromLine evt.lines
    runtime := ⟨evt.totalLines, evt.totalBytes, false⟩ }

def return_ (w : Window) : State :=
  { s with windows := s.windows ++ [w] }

def readWindow (fromLine count : ℕ) : State :=
  let max := s.runtime.totalLines
  if max ≤ fromLine ∨ count = 0 then s.return_ ⟨s.currentPath, fromLine, count, max, []⟩
  else
    let shown := safeCount fromLine count max
    match s.currentPath with
    | some path =>
        if s.lines.length < fromLine + shown then
          { s with reads := s.reads ++
              [⟨path, fromLine, count, max, (s.files path).content.length⟩] }
        else s.return_ ⟨some path, fromLine, count, max, slice s.lines fromLine shown⟩
    | none => s.return_ ⟨none, fromLine, count, max, slice s.lines fromLine shown⟩

/-- The lines of a window have come. -/
def afterRead (read : Read) (fetched : List Text) : State :=
  let lines := splice s.lines read.fromLine fetched
  { s with lines := lines, reads := s.reads.erase read }.return_
    ⟨some read.path, read.fromLine, read.count, read.totalLines,
      slice lines read.fromLine read.shown⟩

end State

/-- A tail event tells of a file: a total that the file had at some time, and the lines up to it; or
no lines, as in the first event of a stream. -/
def Tells (file : LogFile) (evt : LogTailEvent) : Prop :=
  evt.totalLines ≤ (textLines file.content).length ∧
    (evt.appendedFromLine = 0 ∧ evt.lines = [] ∨
      evt.lines = ((textLines file.content).drop evt.appendedFromLine).take
        (evt.totalLines - evt.appendedFromLine))

instance (file : LogFile) (evt : LogTailEvent) : Decidable (Tells file evt) :=
  inferInstanceAs (Decidable (_ ∧ (_ ∨ _)))

def State.step (s : State) : Event → Option State
  | .select path => some (s.onStoreChange path)
  | .grow path bytes =>
      some { s with files := fun p =>
        if p = path then ⟨(s.files p).ino, (s.files p).content ++ bytes⟩ else s.files p }
  | .statReply start size =>
      if start ∈ s.stats ∧ start.asked ≤ size ∧ size ≤ (s.files start.path).content.length then
        some (s.afterStat start (getLogStat (upTo (s.files start.path) size)))
      else none
  | .statFailed start =>
      if start ∈ s.stats then some { s.onFailure with stats := s.stats.erase start } else none
  | .subscribeReply start =>
      if start ∈ s.subscribes then some (s.afterSubscribe start) else none
  | .subscribeFailed start =>
      if start ∈ s.subscribes then
        some { s.onFailure with subscribes := s.subscribes.erase start }
      else none
  | .tail sub evt =>
      if sub ∈ s.subscriptions ∧ (sub.isOpen ∨ sub.replaying) ∧ Tells (s.files sub.path) evt then
        some (s.onTailEvent evt)
      else none
  | .replayed sub =>
      some { s with subscriptions := s.subscriptions.map fun other =>
        if other = sub then { sub with replaying := false } else other }
  | .readWindow fromLine count => some (s.readWindow fromLine count)
  | .readReply read size =>
      if read ∈ s.reads ∧ read.asked ≤ size ∧ size ≤ (s.files read.path).content.length then
        some (s.afterRead read (readLogWindow (upTo (s.files read.path) size) read.fromLine
          read.shown))
      else none
  | .readFailed read =>
      if read ∈ s.reads then some { s with reads := s.reads.erase read } else none

/-! ### The buffer -/

theorem getElem?_of_window {α : Type} {as : List α} {n k j : ℕ} {a : α}
    (h : ((as.drop n).take k)[j]? = some a) : as[n + j]? = some a := by
  rw [List.getElem?_take] at h
  split at h
  · rwa [List.getElem?_drop] at h
  · cases h

theorem length_padded {α : Type} (lines : List α) (a : α) (fromLine : ℕ) :
    fromLine ≤ (lines ++ List.replicate (fromLine - lines.length) a).length := by
  rw [List.length_append, List.length_replicate]
  omega

/-- A line of the buffer was there before or has been put in. -/
theorem getElem?_splice {lines : List (Option Text)} {fromLine i : ℕ} {new : List Text} {t : Text}
    (h : (splice lines fromLine new)[i]? = some (some t)) :
    lines[i]? = some (some t) ∨ ∃ j, i = fromLine + j ∧ new[j]? = some t := by
  have hpadded : ∀ i : ℕ, (lines ++ List.replicate (fromLine - lines.length) none)[i]? =
      some (some t) → lines[i]? = some (some t) := by
    intro i hi
    rw [List.getElem?_append] at hi
    split at hi
    · exact hi
    · rw [List.getElem?_replicate] at hi
      split at hi <;> cases hi
  have hlength := length_padded lines none fromLine
  rw [splice, List.getElem?_append, List.length_append, List.length_take,
    Nat.min_eq_left hlength, List.length_map, List.getElem?_append, List.length_take,
    Nat.min_eq_left hlength] at h
  split at h
  · split at h
    · next hlt =>
        rw [List.getElem?_take_of_lt hlt] at h
        exact Or.inl (hpadded i h)
    · next hge =>
        rw [List.getElem?_map, Option.map_eq_some_iff] at h
        obtain ⟨u, hu, hut⟩ := h
        exact Or.inr ⟨i - fromLine, by omega, hu.trans hut⟩
  · next hge =>
      rw [List.getElem?_drop, show fromLine + new.length + (i - (fromLine + new.length)) = i by omega]
        at h
      exact Or.inl (hpadded i h)

/-- What has been put in is there. -/
theorem slice_splice (lines : List (Option Text)) (fromLine : ℕ) (new : List Text) :
    slice (splice lines fromLine new) fromLine new.length = new := by
  have hlength : ((lines ++ List.replicate (fromLine - lines.length) none).take fromLine).length =
      fromLine := List.length_take_of_le (length_padded lines none fromLine)
  rw [slice, splice, List.append_assoc, List.drop_left' hlength, List.take_left' (by simp),
    List.map_map]
  exact List.map_id _

/-! ### The client's replies -/

theorem textLines_upTo (file : LogFile) (size : ℕ) :
    textLines (upTo file size).content <+: textLines file.content :=
  textLines_mono (List.take_prefix _ _)

theorem count_getLogStat (file : LogFile) :
    (getLogStat file).completeLineCount = (textLines file.content).length := by
  have hfresh : Fresh (getLogStat file) file := fresh_build (by decide) file
  exact hfresh.valid.count_eq hfresh.size

theorem readLogWindow_eq {file : LogFile} {fromLine count : ℕ}
    (h : fromLine + count ≤ (textLines file.content).length) :
    readLogWindow file fromLine count = ((textLines file.content).drop fromLine).take count := by
  have hcount := count_getLogStat file
  exact (fresh_build (by decide) file).valid.read_eq (hcount ▸ h)

/-! ### Orderly runs -/

/-- The lines shown are those of the file, for every index below the total. -/
def Window.Right (files : Text → LogFile) (w : Window) : Prop :=
  ∀ path, w.path = some path → ∀ i < w.count, w.fromLine + i < w.totalLines →
    ∃ line, (textLines (files path).content)[w.fromLine + i]? = some line ∧
      w.lines[i]? = some line

/-- The reply or tail event is for the present selection, and a window that is not fetched holds
no padding. -/
def Orderly (s : State) : Event → Prop
  | .statReply start _ => start.selection = s.selections
  | .subscribeReply start => start.selection = s.selections
  | .tail sub _ => sub.selection = s.selections
  | .readReply read _ => s.currentPath = some read.path
  | .readWindow fromLine count =>
      s.lines.length < fromLine + safeCount fromLine count s.runtime.totalLines ∨
        none ∉ (s.lines.drop fromLine).take (safeCount fromLine count s.runtime.totalLines)
  | _ => True

instance (s : State) (ev : Event) : Decidable (Orderly s ev) := by
  unfold Orderly
  split <;> infer_instance

/-- The number of a selection is known; the latest is that of the selected path. -/
def State.Known (s : State) (selection : ℕ) (path : Text) : Prop :=
  selection ≤ s.selections ∧ (selection = s.selections → s.currentPath = some path)

structure Inv (s : State) : Prop where
  placed : ∀ (i : ℕ) (t : Text), s.lines[i]? = some (some t) → ∃ path, s.currentPath = some path ∧
    (textLines (s.files path).content)[i]? = some t
  total : s.runtime.totalLines = 0 ∨ ∃ path, s.currentPath = some path ∧
    s.runtime.totalLines ≤ (textLines (s.files path).content).length
  starts : ∀ start ∈ s.stats ++ s.subscribes, s.Known start.selection start.path
  once : ((s.stats ++ s.subscribes).map (·.selection)).Nodup
  reads : ∀ read ∈ s.reads, read.asked ≤ (s.files read.path).content.length ∧
    read.fromLine + read.shown ≤
      (textLines (upTo (s.files read.path) read.asked).content).length
  subscriptions : ∀ sub ∈ s.subscriptions, s.Known sub.selection sub.path
  held : ∀ sub ∈ s.subscriptions, sub.isOpen = true →
    sub.selection = s.selections ∧ s.subscription = some s.selections
  single : (s.subscriptions.filter (·.isOpen)).length ≤ 1
  pending : ∀ start ∈ s.stats ++ s.subscribes, start.selection = s.selections →
    ∀ sub ∈ s.subscriptions, sub.isOpen = false
  windows : ∀ w ∈ s.windows, w.Right s.files

theorem inv_init (files : Text → LogFile) : Inv { files := files } where
  placed := nofun
  total := Or.inl rfl
  starts := nofun
  once := List.nodup_nil
  reads := nofun
  subscriptions := nofun
  held := nofun
  single := Nat.zero_le _
  pending := nofun
  windows := nofun

namespace Inv

variable {s : State}

/-! #### The files grow -/

theorem prefix_getElem? {α : Type} {as bs : List α} (h : as <+: bs) {i : ℕ} {a : α}
    (hi : as[i]? = some a) : bs[i]? = some a := by
  obtain ⟨cs, rfl⟩ := h
  rw [List.getElem?_append_left (List.getElem?_eq_some_iff.mp hi).1, hi]

theorem grow (h : Inv s) {files : Text → LogFile}
    (hfiles : ∀ path, (s.files path).content <+: (files path).content) :
    Inv { s with files := files } where
  placed := by
    intro i t hi
    obtain ⟨path, hpath, hline⟩ := h.placed i t hi
    exact ⟨path, hpath, prefix_getElem? (textLines_mono (hfiles path)) hline⟩
  total := by
    rcases h.total with hzero | ⟨path, hpath, htotal⟩
    · exact Or.inl hzero
    · exact Or.inr ⟨path, hpath, Nat.le_trans htotal (textLines_mono (hfiles path)).length_le⟩
  starts := h.starts
  once := h.once
  reads := by
    intro read hread
    obtain ⟨hasked, hlines⟩ := h.reads read hread
    refine ⟨Nat.le_trans hasked (hfiles read.path).length_le, ?_⟩
    obtain ⟨bytes, hbytes⟩ := hfiles read.path
    have htake : (upTo (files read.path) read.asked).content =
        (upTo (s.files read.path) read.asked).content := by
      rw [upTo, upTo, ← hbytes, List.take_append_of_le_length hasked]
    rw [htake]
    exact hlines
  subscriptions := h.subscriptions
  held := h.held
  single := h.single
  pending := h.pending
  windows := by
    intro w hw path hpath i hi hshown
    obtain ⟨line, hline, hw⟩ := h.windows w hw path hpath i hi hshown
    exact ⟨line, prefix_getElem? (textLines_mono (hfiles path)) hline, hw⟩

/-! #### Parts of the state replaced -/

theorem withRuntime (h : Inv s) (runtime : Runtime)
    (htotal : runtime.totalLines = 0 ∨ ∃ path, s.currentPath = some path ∧
      runtime.totalLines ≤ (textLines (s.files path).content).length) :
    Inv { s with runtime := runtime } :=
  ⟨h.placed, htotal, h.starts, h.once, h.reads, h.subscriptions, h.held, h.single, h.pending,
    h.windows⟩

theorem withLines (h : Inv s) {fromLine : ℕ} {new : List Text} {path : Text}
    (hpath : s.currentPath = some path)
    (hnew : ∀ (j : ℕ) (t : Text), new[j]? = some t →
      (textLines (s.files path).content)[fromLine + j]? = some t) :
    Inv { s with lines := splice s.lines fromLine new } where
  placed := by
    intro i t hi
    rcases getElem?_splice hi with hold | ⟨j, rfl, hj⟩
    · exact h.placed i t hold
    · exact ⟨path, hpath, hnew j t hj⟩
  total := h.total
  starts := h.starts
  once := h.once
  reads := h.reads
  subscriptions := h.subscriptions
  held := h.held
  single := h.single
  pending := h.pending
  windows := h.windows

theorem withStarts (h : Inv s) {stats subscribes : List Start}
    (hmem : ∀ start ∈ stats ++ subscribes, start ∈ s.stats ++ s.subscribes)
    (honce : ((stats ++ subscribes).map (·.selection)).Nodup) :
    Inv { s with stats := stats, subscribes := subscribes } :=
  ⟨h.placed, h.total, fun start hstart => h.starts start (hmem start hstart), honce, h.reads,
    h.subscriptions, h.held, h.single, fun start hstart => h.pending start (hmem start hstart),
    h.windows⟩

theorem withReads (h : Inv s) {reads : List Read} (hreads : ∀ read ∈ reads, read ∈ s.reads ∨
      read.asked ≤ (s.files read.path).content.length ∧
        read.fromLine + read.shown ≤
          (textLines (upTo (s.files read.path) read.asked).content).length) :
    Inv { s with reads := reads } :=
  ⟨h.placed, h.total, h.starts, h.once,
    fun read hread => (hreads read hread).elim (h.reads read) id, h.subscriptions, h.held,
    h.single, h.pending, h.windows⟩

theorem return_ (h : Inv s) {w : Window} (hw : w.Right s.files) : Inv (s.return_ w) where
  placed := h.placed
  total := h.total
  starts := h.starts
  once := h.once
  reads := h.reads
  subscriptions := h.subscriptions
  held := h.held
  single := h.single
  pending := h.pending
  windows := by
    intro other hother
    rcases List.mem_append.mp hother with hmem | hmem
    · exact h.windows other hmem
    · rw [List.mem_singleton.mp hmem]
      exact hw

/-! #### Starts and subscriptions -/

theorem closeHeld (h : Inv s) {sub : Subscription} (hsub : sub ∈ s.closeHeld.subscriptions) :
    sub.isOpen = false ∧ sub.selection ≤ s.selections := by
  obtain ⟨old, hold, rfl⟩ := List.mem_map.mp hsub
  have hle := (h.subscriptions old hold).1
  split
  · exact ⟨rfl, hle⟩
  · next hother =>
      refine ⟨Bool.eq_false_iff.mpr fun hopen => hother ?_, hle⟩
      obtain ⟨hselection, hheld⟩ := h.held old hold hopen
      rw [hselection, hheld]

/-- The state after a path change, before the new file is asked for. -/
theorem onStoreChange_none (h : Inv s) (path : Option Text) (indexing : Bool) :
    Inv { s.closeHeld with
      subscription := none
      currentPath := path
      lines := []
      runtime := ⟨0, 0, indexing⟩
      selections := s.selections + 1 } where
  placed := nofun
  total := Or.inl rfl
  starts := by
    intro start hstart
    have hle := (h.starts start hstart).1
    exact ⟨Nat.le_succ_of_le hle, fun heq => by dsimp only at heq; omega⟩
  once := h.once
  reads := h.reads
  subscriptions := by
    intro sub hsub
    have hle := (h.closeHeld hsub).2
    exact ⟨Nat.le_succ_of_le hle, fun heq => by dsimp only at heq; omega⟩
  held := by
    intro sub hsub hopen
    rw [(h.closeHeld hsub).1] at hopen
    cases hopen
  single := by
    have hnone : s.closeHeld.subscriptions.filter (·.isOpen) = [] := by
      refine List.filter_eq_nil_iff.mpr fun sub hsub hopen => ?_
      rw [(h.closeHeld hsub).1] at hopen
      cases hopen
    rw [hnone]
    exact Nat.zero_le _
  pending := fun _ _ _ sub hsub => (h.closeHeld hsub).1
  windows := h.windows

theorem onStoreChange (h : Inv s) (path : Option Text) : Inv (s.onStoreChange path) := by
  unfold State.onStoreChange
  split
  · exact h
  · cases path with
    | none => exact h.onStoreChange_none none false
    | some path =>
        have hnone := h.onStoreChange_none (some path) true
        have hperm : ∀ start : Start, (s.stats ++ [start] ++ s.subscribes).Perm
            (start :: (s.stats ++ s.subscribes)) := by
          intro start
          rw [List.append_assoc]
          exact List.perm_middle
        refine ⟨hnone.placed, hnone.total, ?_, ?_, hnone.reads, hnone.subscriptions, hnone.held,
          hnone.single, ?_, hnone.windows⟩
        · intro start hstart
          rcases List.mem_cons.mp ((hperm _).mem_iff.mp hstart) with rfl | hold
          · exact ⟨Nat.le_refl _, fun _ => rfl⟩
          · exact hnone.starts start hold
        · refine ((hperm _).map _).nodup_iff.mpr (List.nodup_cons.mpr ⟨fun hmem => ?_, h.once⟩)
          obtain ⟨start, hstart, heq⟩ := List.mem_map.mp hmem
          have hle := (h.starts start hstart).1
          dsimp only at heq
          omega
        · exact fun _ _ _ sub hsub => (h.closeHeld hsub).1

theorem afterStat (h : Inv s) {start : Start} (hstart : start ∈ s.stats)
    (hselection : start.selection = s.selections) (size : ℕ) :
    Inv (s.afterStat start (getLogStat (upTo (s.files start.path) size))) := by
  have hpath := (h.starts start (List.mem_append_left _ hstart)).2 hselection
  have htotal : (getLogStat (upTo (s.files start.path) size)).completeLineCount ≤
      (textLines (s.files start.path).content).length := by
    rw [count_getLogStat]
    exact (textLines_upTo _ size).length_le
  have hperm : (s.stats.erase start ++ (s.subscribes ++ [start])).Perm
      (s.stats ++ s.subscribes) := by
    refine List.Perm.trans ?_ ((List.perm_cons_erase hstart).symm.append_right _)
    rw [← List.append_assoc]
    exact List.perm_append_singleton _ _
  exact (h.withRuntime ⟨_, _, false⟩ (Or.inr ⟨start.path, hpath, htotal⟩)).withStarts
    (fun _ => hperm.mem_iff.mp) ((hperm.map _).nodup_iff.mpr h.once)

theorem onFailure (h : Inv s) {stats subscribes : List Start}
    (hsub : (stats ++ subscribes).Sublist (s.stats ++ s.subscribes)) :
    Inv { s.onFailure with stats := stats, subscribes := subscribes } :=
  (h.withRuntime s.onFailure.runtime h.total).withStarts (fun _ => hsub.mem)
    (h.once.sublist (hsub.map _))

theorem afterSubscribe (h : Inv s) {start : Start} (hstart : start ∈ s.subscribes)
    (hselection : start.selection = s.selections) : Inv (s.afterSubscribe start) := by
  have hmem := List.mem_append_right s.stats hstart
  have hclosed := h.pending start hmem hselection
  have hsub : (s.stats ++ s.subscribes.erase start).Sublist (s.stats ++ s.subscribes) :=
    List.erase_sublist.append_left _
  have hperm : (s.stats ++ s.subscribes).Perm
      (start :: (s.stats ++ s.subscribes.erase start)) :=
    ((List.perm_cons_erase hstart).append_left _).trans List.perm_middle
  have hfresh := (List.nodup_cons.mp ((hperm.map (·.selection)).nodup_iff.mp h.once)).1
  have hrest := h.withStarts (fun _ => hsub.mem) (h.once.sublist (hsub.map _))
  refine ⟨h.placed, h.total, hrest.starts, hrest.once, h.reads, ?_, ?_, ?_, ?_, h.windows⟩
  · intro sub hmem'
    rcases List.mem_append.mp hmem' with hold | hnew
    · exact h.subscriptions sub hold
    · rw [List.mem_singleton.mp hnew]
      exact h.starts start hmem
  · intro sub hmem' hopen
    rcases List.mem_append.mp hmem' with hold | hnew
    · rw [hclosed sub hold] at hopen
      cases hopen
    · rw [List.mem_singleton.mp hnew]
      exact ⟨hselection, congrArg some hselection⟩
  · have hnone : s.subscriptions.filter (·.isOpen) = [] := by
      refine List.filter_eq_nil_iff.mpr fun sub hold hopen => ?_
      rw [hclosed sub hold] at hopen
      cases hopen
    rw [State.afterSubscribe, List.filter_append, hnone]
    exact Nat.le_refl _
  · intro other hother heq
    refine absurd (List.mem_map.mpr ⟨other, hother, ?_⟩) hfresh
    exact heq.trans hselection.symm

theorem replayed (h : Inv s) (sub : Subscription) :
    Inv { s with subscriptions := s.subscriptions.map fun other =>
      if other = sub then { sub with replaying := false } else other } := by
  have hold : ∀ {new : Subscription}, new ∈ (s.subscriptions.map fun other =>
      if other = sub then { sub with replaying := false } else other) →
        ∃ old ∈ s.subscriptions, new.selection = old.selection ∧ new.path = old.path ∧
          new.isOpen = old.isOpen := by
    intro new hnew
    obtain ⟨old, hold, rfl⟩ := List.mem_map.mp hnew
    refine ⟨old, hold, ?_⟩
    split
    · next heq => rw [heq]; exact ⟨rfl, rfl, rfl⟩
    · exact ⟨rfl, rfl, rfl⟩
  refine ⟨h.placed, h.total, h.starts, h.once, h.reads, ?_, ?_, ?_, ?_, h.windows⟩
  · intro new hnew
    obtain ⟨old, hmem, hselection, hpath, -⟩ := hold hnew
    rw [hselection, hpath]
    exact h.subscriptions old hmem
  · intro new hnew hopen
    obtain ⟨old, hmem, hselection, -, hisOpen⟩ := hold hnew
    rw [hselection]
    exact h.held old hmem (hisOpen ▸ hopen)
  · rw [List.filter_map, List.length_map]
    have hopen : (s.subscriptions.filter ((·.isOpen) ∘ fun other =>
        if other = sub then { sub with replaying := false } else other)) =
          s.subscriptions.filter (·.isOpen) := by
      refine List.filter_congr fun other _ => ?_
      rw [Function.comp_apply]
      split
      · next heq => rw [heq]
      · rfl
    rw [hopen]
    exact h.single
  · intro start hstart heq new hnew
    obtain ⟨old, hmem, -, -, hisOpen⟩ := hold hnew
    rw [hisOpen]
    exact h.pending start hstart heq old hmem

theorem onTailEvent (h : Inv s) {path : Text} (hpath : s.currentPath = some path)
    {evt : LogTailEvent} (hevt : Tells (s.files path) evt) : Inv (s.onTailEvent evt) := by
  obtain ⟨htotal, hlines⟩ := hevt
  refine (h.withLines hpath fun j t hj => ?_).withRuntime ⟨evt.totalLines, evt.totalBytes, false⟩
    (Or.inr ⟨path, hpath, htotal⟩)
  rcases hlines with ⟨-, hnone⟩ | hlines
  · rw [hnone] at hj
    cases hj
  · rw [hlines] at hj
    exact getElem?_of_window hj

/-! #### Windows -/

/-- A window that is in the buffer without padding is right. -/
theorem slice_right (h : Inv s) {path : Text} (hpath : s.currentPath = some path)
    {fromLine count : ℕ} (hlength : fromLine + safeCount fromLine count s.runtime.totalLines ≤
      s.lines.length)
    (hnone : none ∉ (s.lines.drop fromLine).take (safeCount fromLine count s.runtime.totalLines)) :
    Window.Right s.files ⟨some path, fromLine, count, s.runtime.totalLines,
      slice s.lines fromLine (safeCount fromLine count s.runtime.totalLines)⟩ := by
  intro path' hpath' i hi hshown
  obtain rfl := Option.some.inj hpath'
  have hshown' : i < safeCount fromLine count s.runtime.totalLines := by
    unfold safeCount
    dsimp only at hi hshown
    omega
  have hget : ((s.lines.drop fromLine).take
      (safeCount fromLine count s.runtime.totalLines))[i]? = s.lines[fromLine + i]? := by
    rw [List.getElem?_take_of_lt hshown', List.getElem?_drop]
  have hlt : fromLine + i < s.lines.length := by omega
  rw [List.getElem?_eq_getElem hlt] at hget
  cases hline : s.lines[fromLine + i] with
  | none =>
      rw [hline] at hget
      exact absurd (List.mem_of_getElem? hget) hnone
  | some t =>
      rw [hline] at hget
      obtain ⟨path', hpath', hplaced⟩ := h.placed (fromLine + i) t
        (by rw [List.getElem?_eq_getElem hlt, hline])
      obtain rfl := Option.some.inj (hpath.symm.trans hpath')
      refine ⟨t, hplaced, ?_⟩
      rw [slice, List.getElem?_map, hget]
      rfl

theorem readWindow (h : Inv s) {fromLine count : ℕ}
    (horderly : Orderly s (.readWindow fromLine count)) : Inv (s.readWindow fromLine count) := by
  unfold State.readWindow
  dsimp only
  split
  · next hout =>
      refine h.return_ fun path _ i hi hshown => ?_
      dsimp only at hi hshown
      omega
  · next hin =>
      obtain ⟨hfrom, hcount⟩ := not_or.mp hin
      split
      · next path hpath =>
          split
          · refine h.withReads fun read hread => ?_
            rcases List.mem_append.mp hread with hold | hnew
            · exact Or.inl hold
            · rw [List.mem_singleton.mp hnew]
              refine Or.inr ⟨Nat.le_refl _, ?_⟩
              have hall : upTo (s.files path) (s.files path).content.length = s.files path := by
                rw [upTo, List.take_length]
              have htotal : s.runtime.totalLines ≤ (textLines (s.files path).content).length := by
                rcases h.total with hzero | ⟨path', hpath', htotal⟩
                · omega
                · obtain rfl := Option.some.inj (hpath.symm.trans hpath')
                  exact htotal
              rw [hall, Read.shown, safeCount]
              dsimp only
              omega
          · next hlength =>
              refine h.return_ (h.slice_right hpath (Nat.not_lt.mp hlength) ?_)
              exact horderly.resolve_left hlength
      · exact h.return_ nofun

theorem afterRead (h : Inv s) {read : Read} (hread : read ∈ s.reads)
    (hpath : s.currentPath = some read.path) {size : ℕ} (hasked : read.asked ≤ size) :
    Inv (s.afterRead read
      (readLogWindow (upTo (s.files read.path) size) read.fromLine read.shown)) := by
  obtain ⟨-, hlines⟩ := h.reads read hread
  have hsize : textLines (upTo (s.files read.path) read.asked).content <+:
      textLines (upTo (s.files read.path) size).content := by
    refine textLines_mono ?_
    rw [upTo, upTo, ← Nat.min_eq_left hasked, ← List.take_take]
    exact List.take_prefix _ _
  have hfetched := readLogWindow_eq (Nat.le_trans hlines hsize.length_le)
  have hlength : (readLogWindow (upTo (s.files read.path) size) read.fromLine
      read.shown).length = read.shown := by
    have := hsize.length_le
    rw [hfetched, List.length_take, List.length_drop]
    omega
  have hline : ∀ (j : ℕ) (t : Text),
      (readLogWindow (upTo (s.files read.path) size) read.fromLine read.shown)[j]? = some t →
        (textLines (s.files read.path).content)[read.fromLine + j]? = some t := by
    intro j t hj
    rw [hfetched] at hj
    exact prefix_getElem? (textLines_upTo _ size) (getElem?_of_window hj)
  refine ((h.withLines hpath hline).withReads fun other hother =>
    Or.inl (List.mem_of_mem_erase hother)).return_ ?_
  intro path hsome i hi hshown
  obtain rfl := Option.some.inj hsome
  have hslice := slice_splice s.lines read.fromLine
    (readLogWindow (upTo (s.files read.path) size) read.fromLine read.shown)
  rw [hlength] at hslice
  have hlt : i < (readLogWindow (upTo (s.files read.path) size) read.fromLine
      read.shown).length := by
    rw [hlength, Read.shown, safeCount]
    dsimp only at hi hshown
    omega
  have hget := List.getElem?_eq_getElem hlt
  exact ⟨_, hline i _ hget, (congrArg (·[i]?) hslice).trans hget⟩

theorem step {s' : State} {ev : Event} (h : Inv s) (hstep : s.step ev = some s')
    (horderly : Orderly s ev) : Inv s' := by
  cases ev with
  | select path => exact Option.some.inj hstep ▸ h.onStoreChange path
  | grow path bytes =>
      refine Option.some.inj hstep ▸ h.grow fun p => ?_
      split
      · exact List.prefix_append _ _
      · exact List.prefix_refl _
  | statReply start size =>
      obtain ⟨⟨hmem, -, -⟩, ⟨⟩⟩ := Option.ite_none_right_eq_some.mp hstep
      exact h.afterStat hmem horderly size
  | statFailed start =>
      obtain ⟨-, ⟨⟩⟩ := Option.ite_none_right_eq_some.mp hstep
      exact h.onFailure (List.erase_sublist.append_right _)
  | subscribeReply start =>
      obtain ⟨hmem, ⟨⟩⟩ := Option.ite_none_right_eq_some.mp hstep
      exact h.afterSubscribe hmem horderly
  | subscribeFailed start =>
      obtain ⟨-, ⟨⟩⟩ := Option.ite_none_right_eq_some.mp hstep
      exact h.onFailure (List.erase_sublist.append_left _)
  | tail sub evt =>
      obtain ⟨⟨hmem, -, hevt⟩, ⟨⟩⟩ := Option.ite_none_right_eq_some.mp hstep
      exact h.onTailEvent ((h.subscriptions sub hmem).2 horderly) hevt
  | replayed sub => exact Option.some.inj hstep ▸ h.replayed sub
  | readWindow fromLine count => exact Option.some.inj hstep ▸ h.readWindow horderly
  | readReply read size =>
      obtain ⟨⟨hmem, hasked, -⟩, ⟨⟩⟩ := Option.ite_none_right_eq_some.mp hstep
      exact h.afterRead hmem horderly hasked
  | readFailed read =>
      obtain ⟨-, ⟨⟩⟩ := Option.ite_none_right_eq_some.mp hstep
      exact h.withReads fun other hother => Or.inl (List.mem_of_mem_erase hother)

end Inv

/-! ### Answers to calls -/

/-- What has become of a call of `readWindow` that was made in a state before, followed by these
events: a window was returned for the path and the total of the call, or its lines have not come
yet, or have failed to come. -/
def State.Answered (s called : State) (rest : List Event) (fromLine count : ℕ) : Prop :=
  (∃ lines, ⟨called.currentPath, fromLine, count, called.runtime.totalLines, lines⟩ ∈ s.windows) ∨
    ∃ path, called.currentPath = some path ∧
      ∃ read : Read, read = ⟨path, fromLine, count, called.runtime.totalLines,
        (called.files path).content.length⟩ ∧ (read ∈ s.reads ∨ .readFailed read ∈ rest)

section Answers

variable {s s' : State} {ev : Event}

end Answers

def opened (n : ℕ) (path : Text) : List Event :=
  [.statReply ⟨n, path, 6⟩ 6, .subscribeReply ⟨n, path, 6⟩]

end LogTailing
end WireTools
