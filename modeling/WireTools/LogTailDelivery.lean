import Mathlib.Data.List.Infix
import WireTools.LogTail

/-! # Delivery by the log tail

What a task holds is right for the inode it has looked at (`Phase.Valid`), whatever is appended
(`Phase.Valid.grow`), and every step keeps it so.  `Inv` adds how far the stored index is: what is
emitted for its inode ends where its lines end (`reached`), and for later inodes nothing is emitted
(`ahead`).

* `Inv.grow`, `Inv.put`, `Inv.finish`, `Inv.fail`, `Inv.subscribe`, `Inv.emit`: the parts of a
  step;
* `Inv.step`: an orderly step keeps the invariant, when a file that is moved away has been emitted
  (`Inv.Caught`). -/

namespace WireTools.LogTail

open Phase

/-! ### Placed lines -/

/-- The lines of a file from `base` up to `count`, each with its place. -/
def window (content : List UInt8) (base count : ℕ) : List (Text × ℕ) :=
  ((textLines content).zipIdx.take count).drop base

theorem zipIdx_slice {α : Type} (ls : List α) (a n : ℕ) :
    ((ls.drop a).take n).zipIdx a = (ls.zipIdx.drop a).take n := by
  apply List.ext_getElem?
  intro i
  rw [List.getElem?_zipIdx, List.getElem?_take, List.getElem?_take, List.getElem?_drop,
    List.getElem?_drop, List.getElem?_zipIdx]
  split
  · rw [Nat.zero_add]
  · rfl

theorem window_append {content : List UInt8} {base fromLine count : ℕ} (hbase : base ≤ fromLine)
    (hfrom : fromLine ≤ (textLines content).length) (hcount : fromLine ≤ count) :
    window content base fromLine ++
      (((textLines content).drop fromLine).take (count - fromLine)).zipIdx fromLine =
      window content base count := by
  obtain ⟨n, rfl⟩ := Nat.exists_eq_add_of_le hcount
  rw [zipIdx_slice, Nat.add_sub_cancel_left, window, window, List.take_add,
    List.drop_append_of_le_length]
  rw [List.length_take, List.length_zipIdx]
  omega

theorem textLines_mono {content content' : List UInt8} (h : content <+: content') :
    textLines content <+: textLines content' := by
  obtain ⟨bytes, rfl⟩ := h
  exact (Lines.completeLines_append content bytes).map Utf8.decode

theorem take_eq_of_prefix {α : Type} {as bs : List α} (h : as <+: bs) {n : ℕ}
    (hn : n ≤ as.length) : bs.take n = as.take n := by
  obtain ⟨cs, rfl⟩ := h
  exact List.take_append_of_le_length hn

theorem zipIdx_mono {α : Type} {as bs : List α} (h : as <+: bs) : as.zipIdx <+: bs.zipIdx := by
  obtain ⟨cs, rfl⟩ := h
  rw [List.zipIdx_append]
  exact List.prefix_append _ _

theorem window_grow {content content' : List UInt8} (h : content <+: content') {base count : ℕ}
    (hcount : count ≤ (textLines content).length) :
    window content' base count = window content base count := by
  rw [window, window, take_eq_of_prefix (zipIdx_mono (textLines_mono h))]
  rwa [List.length_zipIdx]

/-! ### What tasks hold -/

def Work.Valid (content : List UInt8) : Work → Prop
  | .oldTail old size => old.Valid content ∧ old.totalBytes < size ∧ size ≤ content.length
  | .stream scan => scan.Valid content
  | .newTail scan => scan.Valid content ∧ scan.cursor = scan.endByte
  | .lines next fromLine count =>
      next.Valid content ∧ count ≠ 0 ∧ fromLine + count = next.completeLineCount

def Phase.Valid (files : ℕ → List UInt8) : Phase → Prop
  | .stat old => old.Valid (files old.ino)
  | .build => True
  | .opening work => work.Valid (files work.ino)
  | .reading work fd => fd = work.ino ∧ work.Valid (files work.ino)
  | .scanned next => next.Valid (files next.ino)
  | .emitting next fromLine lines => next.Valid (files next.ino) ∧
      lines = ((textLines (files next.ino)).drop fromLine).take
        (next.completeLineCount - fromLine)

theorem index_grow {content content' : List UInt8} (h : content <+: content') {index : LineIndex}
    (hindex : index.Valid content) : index.Valid content' := by
  obtain ⟨bytes, rfl⟩ := h
  exact hindex.append bytes

theorem scan_grow {content content' : List UInt8} (h : content <+: content') {scan : Scan}
    (hscan : scan.Valid content) : scan.Valid content' := by
  obtain ⟨bytes, rfl⟩ := h
  exact hscan.append bytes

theorem Work.Valid.grow {content content' : List UInt8} (h : content <+: content') {work : Work}
    (hwork : work.Valid content) : work.Valid content' := by
  cases work with
  | oldTail old size =>
      exact ⟨index_grow h hwork.1, hwork.2.1, Nat.le_trans hwork.2.2 h.length_le⟩
  | stream scan => exact scan_grow h hwork
  | newTail scan => exact ⟨scan_grow h hwork.1, hwork.2⟩
  | lines next fromLine count => exact ⟨index_grow h hwork.1, hwork.2⟩

theorem Phase.Valid.grow {files files' : ℕ → List UInt8} (h : ∀ ino, files ino <+: files' ino)
    {p : Phase} (hp : p.Valid files) : p.Valid files' := by
  cases p with
  | stat old => exact index_grow (h old.ino) hp
  | build => trivial
  | opening work => exact Work.Valid.grow (h work.ino) hp
  | reading work fd => exact ⟨hp.1, Work.Valid.grow (h work.ino) hp.2⟩
  | scanned next => exact index_grow (h next.ino) hp
  | emitting next fromLine lines =>
      refine ⟨index_grow (h next.ino) hp.1, hp.2.trans ?_⟩
      have htake := take_eq_of_prefix (textLines_mono (h next.ino)) hp.1.count_le
      rw [← List.drop_take, ← List.drop_take, htake]

variable {files : ℕ → List UInt8}

theorem valid_afterStream {scan : Scan} (h : scan.Valid (files scan.ino))
    (hdone : scan.cursor = scan.endByte) : (afterStream scan).Valid files := by
  have hindex := h.index hdone
  unfold afterStream
  split
  · next hempty =>
      rw [hempty] at hindex
      exact hindex
  · exact ⟨h, hdone⟩

theorem valid_startStream {scan : Scan} (h : scan.Valid (files scan.ino)) :
    (startStream scan).Valid files := by
  unfold startStream
  split
  · next hend => exact valid_afterStream h (Nat.le_antisymm h.cursor hend)
  · exact h

theorem valid_startExtend {old : LineIndex} (h : old.Valid (files old.ino)) {size : ℕ}
    (hgrown : old.totalBytes < size) (hsize : size ≤ (files old.ino).length) :
    (startExtend old size).Valid files := by
  unfold startExtend
  split
  · next hempty =>
      have hextend := Scan.valid_extend h hgrown hsize
      rw [hempty] at hextend
      exact valid_startStream hextend
  · exact ⟨h, hgrown, hsize⟩

theorem valid_afterRead {work : Work} (h : work.Valid (files work.ino)) {handed : ℕ}
    (hhanded : ∀ next fromLine count, work = .lines next fromLine count →
      next.span fromLine count ≤ handed) :
    (afterRead (files work.ino) work.ino handed work).Valid files := by
  cases work with
  | oldTail old size => exact valid_startStream (Scan.valid_extend h.1 h.2.1 h.2.2)
  | stream scan =>
      unfold afterRead
      dsimp only
      split
      · next hnil => exact valid_afterStream h (h.cursor_eq (Nat.succ_ne_zero handed) hnil)
      · next byte bytes hchunk =>
          rw [← hchunk]
          exact ⟨rfl, h.feed (handed + 1)⟩
  | newTail scan => exact h.1.index h.2
  | lines next fromLine count =>
      refine ⟨h.1, ?_⟩
      rw [h.1.readLines_eq h.2.1 (Nat.le_of_eq h.2.2) (hhanded _ _ _ rfl), ← h.2.2,
        Nat.add_sub_cancel_left]
      rfl

/-! ### Tasks that read lines -/

def Work.readsLines : Work → Bool
  | .lines _ _ _ => true
  | _ => false

def Phase.readsLines : Phase → Bool
  | .opening work | .reading work _ => work.readsLines
  | .emitting _ _ _ => true
  | _ => false

theorem readsLines_afterStream (scan : Scan) : (afterStream scan).readsLines = false := by
  unfold afterStream
  split <;> rfl

theorem readsLines_startStream (scan : Scan) : (startStream scan).readsLines = false := by
  unfold startStream
  split
  · exact readsLines_afterStream scan
  · rfl

theorem readsLines_startExtend (old : LineIndex) (size : ℕ) :
    (startExtend old size).readsLines = false := by
  unfold startExtend
  split
  · exact readsLines_startStream _
  · rfl

theorem readsLines_afterRead {work : Work} (h : work.readsLines = false) (content : List UInt8)
    (fd handed : ℕ) : (afterRead content fd handed work).readsLines = false := by
  cases work with
  | oldTail old size => exact readsLines_startStream _
  | stream scan =>
      unfold afterRead
      dsimp only
      split
      · exact readsLines_afterStream scan
      · rfl
  | newTail scan => rfl
  | lines next fromLine count => cases h

/-! ### The invariant -/

structure Inv (s : State) : Prop where
  newest : ∀ ino, s.current = some ino → s.created = ino + 1
  fresh : ∀ ino, s.created ≤ ino → s.files ino = []
  tasks : ∀ n p, s.tasks n = some p → p.Valid s.files
  starting : s.started = false → s.index = none ∧ ∀ n, n ≠ 0 → s.tasks n = none
  begun : s.started = true → s.tasks 0 = none
  indexing : ∀ p, s.tasks 0 = some p → p.readsLines = false
  index : ∀ index, s.index = some index → index.Valid (s.files index.ino)
  reached : ∀ index, s.index = some index → s.base index.ino ≤ index.completeLineCount ∧
    s.emitted index.ino =
      window (s.files index.ino) (s.base index.ino) index.completeLineCount
  ahead : ∀ ino, (∀ index, s.index = some index → index.ino < ino) →
    s.emitted ino = [] ∧ s.base ino = 0
  once : ∀ ino, s.emitted ino <+: s.due ino
  gone : s.started = true → ∀ ino, s.since ≤ ino → ino < s.created → s.current ≠ some ino →
    s.emitted ino = s.due ino

theorem inv_init : Inv .init where
  newest ino h := by cases h
  fresh ino h := rfl
  tasks n p h := by
    obtain ⟨_, ⟨⟩⟩ := Option.ite_none_right_eq_some.mp h
    trivial
  starting h := ⟨rfl, fun n hn => if_neg hn⟩
  begun h := by cases h
  indexing p h := by
    cases h
    rfl
  index index h := by cases h
  reached index h := by cases h
  ahead ino h := ⟨rfl, rfl⟩
  once ino := List.nil_prefix
  gone h := by cases h

namespace Inv

variable {s : State}

/-- The start is the only task until it is over, and then it is not one. -/
theorem eq_zero_iff (h : Inv s) {n : ℕ} {p : Phase} (hp : s.tasks n = some p) :
    n = 0 ↔ s.started = false := by
  constructor
  · rintro rfl
    by_contra hstarted
    rw [h.begun (by simpa using hstarted)] at hp
    cases hp
  · intro hstarted
    by_contra hn
    rw [(h.starting hstarted).2 n hn] at hp
    cases hp

/-- The files grow, and the path may change. -/
theorem grow (h : Inv s) {files : ℕ → List UInt8} {current : Option ℕ} {created : ℕ}
    (hgrow : ∀ ino, s.files ino <+: files ino)
    (hnewest : ∀ ino, current = some ino → created = ino + 1)
    (hfresh : ∀ ino, created ≤ ino → files ino = [])
    (hgone : s.started = true → ∀ ino, s.since ≤ ino → ino < created → current ≠ some ino →
      files ino = s.files ino ∧ s.emitted ino = s.due ino) :
    Inv { s with files := files, current := current, created := created } where
  newest := hnewest
  fresh := hfresh
  tasks n p hp := (h.tasks n p hp).grow hgrow
  starting := h.starting
  begun := h.begun
  indexing := h.indexing
  index index hindex := index_grow (hgrow index.ino) (h.index index hindex)
  reached index hindex := by
    refine ⟨(h.reached index hindex).1, (h.reached index hindex).2.trans ?_⟩
    exact (window_grow (hgrow index.ino) (h.index index hindex).count_le).symm
  ahead := h.ahead
  once ino := (h.once ino).trans ((zipIdx_mono (textLines_mono (hgrow ino))).drop _)
  gone hstarted ino hsince hcreated hcurrent := by
    obtain ⟨hfiles, hemitted⟩ := hgone hstarted ino hsince hcreated hcurrent
    refine hemitted.trans ?_
    simp only [State.due, hfiles]

theorem put (h : Inv s) {n : ℕ} (hn : n = 0 ↔ s.started = false) {p : Phase}
    (hp : p.Valid s.files) (hlines : n = 0 → p.readsLines = false) : Inv (s.put n p) where
  newest := h.newest
  fresh := h.fresh
  index := h.index
  reached := h.reached
  ahead := h.ahead
  once := h.once
  gone := h.gone
  tasks m q hq := by
    rw [State.tasks_put] at hq
    split at hq
    · cases hq
      exact hp
    · exact h.tasks m q hq
  starting hstarted := by
    refine ⟨(h.starting hstarted).1, fun m hm => ?_⟩
    rw [State.tasks_put, if_neg fun hmn => hm (hmn.trans (hn.mpr hstarted))]
    exact (h.starting hstarted).2 m hm
  begun hstarted := by
    rw [State.tasks_put, if_neg]
    · exact h.begun hstarted
    · intro hzero
      have hnot : s.started = false := hn.mp hzero.symm
      exact absurd (hnot.symm.trans hstarted) Bool.false_ne_true
  indexing q hq := by
    rw [State.tasks_put] at hq
    split at hq
    · next hzero =>
        cases hq
        exact hlines hzero.symm
    · exact h.indexing q hq

theorem finish (h : Inv s) (n : ℕ) : Inv (s.finish n) where
  newest := h.newest
  fresh := h.fresh
  index := h.index
  reached := h.reached
  ahead := h.ahead
  once := h.once
  gone := h.gone
  tasks m q hq := by
    rw [State.tasks_finish] at hq
    split at hq
    · cases hq
    · exact h.tasks m q hq
  starting hstarted := by
    refine ⟨(h.starting hstarted).1, fun m hm => ?_⟩
    rw [State.tasks_finish]
    split
    · rfl
    · exact (h.starting hstarted).2 m hm
  begun hstarted := by
    rw [State.tasks_finish]
    split
    · rfl
    · exact h.begun hstarted
  indexing q hq := by
    rw [State.tasks_finish] at hq
    split at hq
    · cases hq
    · exact h.indexing q hq

theorem look (h : Inv s) (n ino : ℕ) : Inv (s.look n ino) :=
  ⟨h.newest, h.fresh, h.tasks, h.starting, h.begun, h.indexing, h.index, h.reached, h.ahead, h.once,
    h.gone⟩

theorem conclude (h : Inv s) (n : ℕ) : Inv (s.conclude n) :=
  have hfinish := h.finish n
  ⟨hfinish.newest, hfinish.fresh, hfinish.tasks, hfinish.starting, hfinish.begun, hfinish.indexing,
    hfinish.index, hfinish.reached, hfinish.ahead, hfinish.once, hfinish.gone⟩

/-- When the subscription starts, the inode at the path is the only one due. -/
theorem current_of_since (h : Inv s) {ino : ℕ} (hsince : s.current.getD s.created ≤ ino)
    (hcreated : ino < s.created) : s.current = some ino := by
  cases hpath : s.current with
  | none =>
      rw [hpath] at hsince
      exact absurd hcreated (Nat.not_lt_of_le hsince)
  | some present =>
      have hnewest := h.newest present hpath
      rw [hpath, Option.getD_some] at hsince
      rw [Option.some.injEq]
      omega

theorem begin (h : Inv s) (hzero : s.tasks 0 = none) : Inv s.begin where
  newest := h.newest
  fresh := h.fresh
  tasks := h.tasks
  index := h.index
  reached := h.reached
  ahead := h.ahead
  once := h.once
  starting hstarted := by cases hstarted
  begun _ := hzero
  indexing := h.indexing
  gone _ _ hsince hcreated hcurrent := absurd (h.current_of_since hsince hcreated) hcurrent

theorem fail (h : Inv s) (n : ℕ) : Inv (s.fail n) := by
  unfold State.fail
  split
  · next hn =>
      subst hn
      exact (h.finish 0).begin (by rw [State.tasks_finish, if_pos rfl])
  · exact h.finish n

/-- The first index says where the subscription starts. -/
theorem subscribe (h : Inv s) (hzero : s.tasks 0 = none) (hstarted : s.started = false)
    {next : LineIndex} (hnext : next.Valid (s.files next.ino)) : Inv (s.subscribe next) := by
  have hnone := (h.starting hstarted).1
  have hahead : ∀ ino, s.emitted ino = [] ∧ s.base ino = 0 := fun ino =>
    h.ahead ino fun index hindex => by cases hnone.symm.trans hindex
  have hemitted : ∀ ino, (s.subscribe next).emitted ino = [] := fun ino => by
    rw [State.emitted, State.subscribe, List.flatMap_append, ← State.emitted, (hahead ino).1]
    simp
  refine ⟨h.newest, h.fresh, h.tasks, ?_, fun _ => hzero, h.indexing, ?_, ?_, ?_, ?_, ?_⟩
  · rintro ⟨⟩
  · rintro index ⟨⟩
    exact hnext
  · rintro index ⟨⟩
    have hbase : (s.subscribe next).base next.ino = next.completeLineCount :=
      Function.update_self ..
    rw [hemitted, hbase]
    refine ⟨Nat.le_refl _, ?_⟩
    rw [window, List.drop_eq_nil_of_le]
    exact List.length_take_le ..
  · intro ino hino
    refine ⟨hemitted ino, ?_⟩
    have hne : ino ≠ next.ino := Nat.ne_of_gt (hino next rfl)
    exact (Function.update_of_ne hne ..).trans (hahead ino).2
  · intro ino
    rw [hemitted]
    exact List.nil_prefix
  · exact fun _ _ hsince hcreated hcurrent =>
      absurd (h.current_of_since hsince hcreated) hcurrent

theorem emitted_emit (next : LineIndex) (fromLine : ℕ) (lines : List Text) (ino : ℕ) :
    (s.emit next fromLine lines).emitted ino =
      s.emitted ino ++ if next.ino = ino then lines.zipIdx fromLine else [] := by
  rw [State.emitted, State.emit, List.flatMap_append, List.flatMap_singleton, ← State.emitted]

/-- The lines of an index that takes over follow those emitted. -/
theorem reached_emit (h : Inv s) {next : LineIndex} (hover : s.TakesOver next) :
    s.base next.ino ≤ next.completeLineCount ∧
      s.emitted next.ino ++ (((textLines (s.files next.ino)).drop s.lineCount).take
        (next.completeLineCount - s.lineCount)).zipIdx s.lineCount =
        window (s.files next.ino) (s.base next.ino) next.completeLineCount := by
  cases hindex : s.index with
  | none =>
      have hcount : s.lineCount = 0 := by rw [State.lineCount, hindex]; rfl
      obtain ⟨hemitted, hbase⟩ := h.ahead next.ino fun index h => by cases hindex.symm.trans h
      rw [hemitted, hbase, hcount]
      exact ⟨Nat.zero_le _, window_append (Nat.le_refl 0) (Nat.zero_le _) (Nat.zero_le _)⟩
  | some index =>
      have hcount : s.lineCount = index.completeLineCount := by rw [State.lineCount, hindex]; rfl
      rw [hcount]
      rcases hover index hindex with ⟨hino, hle⟩ | ⟨hlater, hcounts⟩
      · obtain ⟨hbase, hemitted⟩ := h.reached index hindex
        have hlength := (h.index index hindex).count_le
        rw [hino] at hbase hemitted hlength
        rw [hemitted, window_append hbase hlength hle]
        exact ⟨hbase.trans hle, rfl⟩
      · obtain ⟨hemitted, hbase⟩ := h.ahead next.ino fun other hother => by
          cases hindex.symm.trans hother
          exact hlater
        rw [hemitted, hbase]
        refine ⟨Nat.zero_le _, ?_⟩
        rcases hcounts with hzero | hzero
        · rw [hzero]
          exact window_append (Nat.le_refl 0) (Nat.zero_le _) (Nat.zero_le _)
        · rw [hzero, Nat.zero_sub, List.take_zero]
          rfl

theorem emit (h : Inv s) (hstarted : s.started = true) {next : LineIndex}
    (hnext : next.Valid (s.files next.ino)) (hover : s.TakesOver next) {lines : List Text}
    (hlines : lines = ((textLines (s.files next.ino)).drop s.lineCount).take
      (next.completeLineCount - s.lineCount)) : Inv (s.emit next s.lineCount lines) := by
  obtain ⟨hbase, hreached⟩ := h.reached_emit hover
  rw [← hlines] at hreached
  have hself : (s.emit next s.lineCount lines).emitted next.ino =
      window (s.files next.ino) (s.base next.ino) next.completeLineCount := by
    rw [emitted_emit, if_pos rfl, hreached]
  have hother : ∀ ino, next.ino ≠ ino →
      (s.emit next s.lineCount lines).emitted ino = s.emitted ino := fun ino hne => by
    rw [emitted_emit, if_neg hne, List.append_nil]
  have honce : ∀ ino, (s.emit next s.lineCount lines).emitted ino <+: s.due ino := fun ino => by
    by_cases hino : next.ino = ino
    · subst hino
      rw [hself]
      exact (List.take_prefix ..).drop _
    · rw [hother ino hino]
      exact h.once ino
  refine ⟨h.newest, h.fresh, h.tasks, ?_, h.begun, h.indexing, ?_, ?_, ?_, honce, ?_⟩
  · exact fun hnot => absurd (hnot.symm.trans hstarted) Bool.false_ne_true
  · rintro index ⟨⟩
    exact hnext
  · rintro index ⟨⟩
    exact ⟨hbase, hself⟩
  · intro ino hino
    have hlt : next.ino < ino := hino next rfl
    rw [hother ino (Nat.ne_of_lt hlt)]
    refine h.ahead ino fun index hindex => ?_
    rcases hover index hindex with ⟨hsame, _⟩ | ⟨hlater, _⟩
    · exact hsame ▸ hlt
    · exact hlater.trans hlt
  · intro _ ino hsince hcreated hcurrent
    -- All lines were emitted before, so none is added.
    have hgone := h.gone hstarted ino hsince hcreated hcurrent
    have hgrown : s.due ino <+: (s.emit next s.lineCount lines).emitted ino := by
      rw [← hgone, emitted_emit]
      exact List.prefix_append ..
    exact (honce ino).eq_of_length_le hgrown.length_le

theorem started_of_task (h : Inv s) {n : ℕ} {p : Phase} (hp : s.tasks n = some p) (hn : n ≠ 0) :
    s.started = true := by
  rw [← Bool.not_eq_false]
  exact fun hnot => hn ((h.eq_zero_iff hp).mpr hnot)

theorem compare (h : Inv s) {n : ℕ} {p : Phase} (hp : s.tasks n = some p) (hn : n ≠ 0)
    {next : LineIndex} (hnext : next.Valid (s.files next.ino))
    (hover : next.completeLineCount ≤ s.lineCount → s.TakesOver next) :
    Inv (s.compare n next) := by
  unfold State.compare
  dsimp only
  split
  · exact h.conclude n
  · split
    · next hcount =>
        refine (h.conclude n).emit (h.started_of_task hp hn) hnext
          (hover (Nat.le_of_sub_eq_zero hcount)) ?_
        have hzero : next.completeLineCount - (s.conclude n).lineCount = 0 := hcount
        rw [hzero, List.take_zero]
    · next hcount =>
        have hto : s.lineCount + (next.completeLineCount - s.lineCount) =
            next.completeLineCount := by
          omega
        split
        · next hempty =>
            exact absurd hempty (Nat.not_le_of_lt (hnext.spanStart_lt hcount (Nat.le_of_eq hto)))
        · exact h.put (h.eq_zero_iff hp) ⟨hnext, hcount, hto⟩ fun hzero => absurd hzero hn

theorem advance (h : Inv s) {n handed : ℕ} {p : Phase} (hp : s.tasks n = some p)
    (horderly : s.Orderly (.advance n handed)) : Inv (s.advance n handed p) := by
  have hvalid := h.tasks n p hp
  have hzero := h.eq_zero_iff hp
  have horderly := horderly p hp
  have hlines : n = 0 → p.readsLines = false := by
    rintro rfl
    exact h.indexing p hp
  cases p with
  | stat old =>
      unfold State.advance
      dsimp only
      split
      · exact h.fail n
      · next ino _ =>
          have hlook := h.look n ino
          split
          · exact hlook.put hzero trivial fun _ => rfl
          · next hino =>
              rw [not_not] at hino
              subst hino
              split
              · exact hlook.put hzero hvalid fun _ => rfl
              · next hgrown =>
                  refine hlook.put hzero (valid_startExtend hvalid ?_ (Nat.le_refl _)) ?_
                  · exact Nat.lt_of_not_le hgrown
                  · exact fun _ => readsLines_startExtend ..
  | build =>
      unfold State.advance
      dsimp only
      split
      · exact h.fail n
      · next ino _ =>
          refine (h.look n ino).put hzero (valid_startStream (Scan.valid_build ino _)) ?_
          exact fun _ => readsLines_startStream _
  | opening work =>
      unfold State.advance
      dsimp only
      split
      · exact h.fail n
      · next ino hcurrent =>
          rcases horderly with hnone | hsame
          · cases hcurrent.symm.trans hnone
          · cases hcurrent.symm.trans hsame
            exact h.put hzero ⟨rfl, hvalid⟩ hlines
  | reading work fd =>
      obtain ⟨rfl, hwork⟩ := hvalid
      refine h.put hzero (valid_afterRead hwork ?_) fun hn => readsLines_afterRead (hlines hn) ..
      rintro next fromLine count rfl
      exact horderly
  | scanned next =>
      unfold State.advance
      dsimp only
      split
      · next hn =>
          subst hn
          refine (h.conclude 0).subscribe ?_ (hzero.mp rfl) hvalid
          exact (s.tasks_finish 0 0).trans (if_pos rfl)
      · next hn => exact h.compare hp hn hvalid horderly
  | emitting next fromLine lines =>
      obtain ⟨rfl, hover⟩ := horderly
      have hn : n ≠ 0 := by
        rintro rfl
        cases h.indexing _ hp
      exact (h.conclude n).emit (h.started_of_task hp hn) hvalid.1 hover hvalid.2

theorem startTick (h : Inv s) (hstarted : s.started = true) {n : ℕ} (hn : n ≠ 0) :
    Inv (s.startTick n) := by
  have hzero : n = 0 ↔ s.started = false :=
    ⟨fun h => absurd h hn, fun h => absurd (h.symm.trans hstarted) Bool.false_ne_true⟩
  unfold State.startTick
  split
  · exact h.put hzero trivial fun _ => rfl
  · next index hindex => exact h.put hzero (h.index index hindex) fun _ => rfl

theorem append (h : Inv s) {ino : ℕ} (hcurrent : s.current = some ino) (chunk : List UInt8) :
    Inv { s with files := Function.update s.files ino (s.files ino ++ chunk) } := by
  have hnewest := h.newest ino hcurrent
  refine h.grow ?_ h.newest ?_ ?_
  · intro other
    rw [Function.update_apply]
    split
    · next heq =>
        rw [heq]
        exact List.prefix_append ..
    · exact List.prefix_refl _
  · intro other hcreated
    rw [Function.update_of_ne (by omega)]
    exact h.fresh other hcreated
  · intro hstarted other hsince hcreated hother
    have hne : other ≠ ino := fun heq => hother (heq ▸ hcurrent)
    exact ⟨Function.update_of_ne hne .., h.gone hstarted other hsince hcreated hother⟩

/-- All lines of the file at the path are emitted. -/
def Caught (s : State) : Prop :=
  s.started = true → ∀ ino ∈ s.current, s.emitted ino = s.due ino

/-- A file that is moved away has been delivered. -/
theorem gone_of_caught (h : Inv s) (hcaught : Caught s) (hstarted : s.started = true) {ino : ℕ}
    (hsince : s.since ≤ ino) (hcreated : ino < s.created) :
    s.emitted ino = s.due ino := by
  by_cases hcurrent : s.current = some ino
  · exact hcaught hstarted ino hcurrent
  · exact h.gone hstarted ino hsince hcreated hcurrent

/-- A new inode has no bytes yet. -/
theorem prefix_rotate (h : Inv s) (content : List UInt8) (ino : ℕ) :
    s.files ino <+: Function.update s.files s.created content ino := by
  rw [Function.update_apply]
  split
  · next heq =>
      rw [heq, h.fresh s.created (Nat.le_refl _)]
      exact List.nil_prefix
  · exact List.prefix_refl _

theorem rotate (h : Inv s) (hcaught : Caught s) (content : List UInt8) :
    Inv { s with
      files := Function.update s.files s.created content
      current := some s.created
      created := s.created + 1 } := by
  refine h.grow (h.prefix_rotate content) ?_ ?_ ?_
  · rintro ino ⟨⟩
    rfl
  · intro ino hcreated
    rw [Function.update_of_ne (by omega)]
    exact h.fresh ino (by omega)
  · intro hstarted ino hsince hcreated hcurrent
    have hne : ino ≠ s.created := fun heq => hcurrent (congrArg some heq.symm)
    refine ⟨Function.update_of_ne hne .., ?_⟩
    exact h.gone_of_caught hcaught hstarted hsince (by omega)

theorem step {s' : State} {ev : Event} (hs : s.step ev = some s') (h : Inv s)
    (hcaught : s.LookedAt → Caught s) (horderly : s.Orderly ev) : Inv s' := by
  cases ev with
  | append chunk =>
      obtain ⟨ino, hcurrent, rfl⟩ := Option.map_eq_some_iff.mp hs
      exact h.append hcurrent chunk
  | rotate content =>
      cases hs
      exact h.rotate (hcaught horderly) content
  | remove =>
      cases hs
      refine h.grow (fun ino => List.prefix_refl _) nofun h.fresh ?_
      exact fun hstarted ino hsince hcreated _ =>
        ⟨rfl, h.gone_of_caught (hcaught horderly) hstarted hsince hcreated⟩
  | tick n =>
      obtain ⟨⟨hstarted, _, hn, _⟩, ⟨⟩⟩ := Option.ite_none_right_eq_some.mp hs
      exact h.startTick hstarted hn
  | advance n handed =>
      obtain ⟨p, hp, rfl⟩ := Option.map_eq_some_iff.mp hs
      exact h.advance hp horderly
  | stop =>
      cases hs
      exact ⟨h.newest, h.fresh, h.tasks, h.starting, h.begun, h.indexing, h.index, h.reached,
        h.ahead, h.once, h.gone⟩

end Inv

end WireTools.LogTail
