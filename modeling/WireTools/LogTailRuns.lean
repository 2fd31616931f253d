import WireTools.LogTailDelivery

/-! # Runs of the log tail

`Told` is what the index that a task works on has to do with what the task has looked at: it covers
it, so that it is emitted when the task has run to its end.

* `Told.put`, `Told.look_put`, `Told.conclude`: the parts of a step;
* `Told.caught`: a file whose lines have been looked at is emitted;
* `log_tail`: in every state of an orderly run the tail has delivered what is due. -/

namespace WireTools.LogTail

open Phase

/-! ### What was looked at -/

/-- Up to where the work goes. -/
def Work.size : Work → ℕ
  | .oldTail _ size => size
  | .stream scan => scan.endByte
  | .newTail scan => scan.endByte
  | .lines next _ _ => next.totalBytes

/-- The task works on the inode that it has looked at, up to the size it had. -/
def Phase.Looks (look : Look) : Phase → Prop
  | .stat _ | .build => True
  | .opening work | .reading work _ => work.ino = look.ino ∧ look.size ≤ work.size
  | .scanned next | .emitting next _ _ => next.ino = look.ino ∧ look.size ≤ next.totalBytes

section Looks

variable {look : Look}

theorem looks_afterStream {scan : Scan} (hino : scan.ino = look.ino)
    (hsize : look.size ≤ scan.endByte) : (afterStream scan).Looks look := by
  unfold afterStream
  split
  · exact ⟨hino, hsize⟩
  · exact ⟨hino, hsize⟩

theorem looks_startStream {scan : Scan} (hino : scan.ino = look.ino)
    (hsize : look.size ≤ scan.endByte) : (startStream scan).Looks look := by
  unfold startStream
  split
  · exact looks_afterStream hino hsize
  · exact ⟨hino, hsize⟩

theorem looks_startExtend {old : LineIndex} {size : ℕ} (hino : old.ino = look.ino)
    (hsize : look.size ≤ size) : (startExtend old size).Looks look := by
  unfold startExtend
  split
  · exact looks_startStream hino hsize
  · exact ⟨hino, hsize⟩

theorem looks_afterRead {work : Work} (hino : work.ino = look.ino) (hsize : look.size ≤ work.size)
    (content : List UInt8) (fd handed : ℕ) : (afterRead content fd handed work).Looks look := by
  cases work with
  | oldTail old size => exact looks_startStream hino hsize
  | stream scan =>
      unfold afterRead
      dsimp only
      split
      · exact looks_afterStream hino hsize
      · exact ⟨hino, hsize⟩
  | newTail scan => exact ⟨hino, hsize⟩
  | lines next fromLine count => exact ⟨hino, hsize⟩

end Looks

structure Told (s : State) : Prop where
  none : s.started = false → s.ended = []
  looked : ∀ n, (s.looked n).size ≤ (s.files (s.looked n).ino).length
  looks : ∀ n p, s.tasks n = some p → p.Looks (s.looked n)
  ended : ∀ look ∈ s.ended, look.size ≤ (s.files look.ino).length
  told : ∀ look ∈ s.ended, s.dueAt look.ino look.size <+: s.emitted look.ino

/-- What the stored index covers is emitted. -/
theorem Inv.told_of_index {s : State} (h : Inv s) {index : LineIndex}
    (hindex : s.index = some index) {size : ℕ} (hsize : size ≤ index.totalBytes) :
    s.dueAt index.ino size <+: s.emitted index.ino := by
  have hlines := zipIdx_slice (textLines (s.files index.ino)) 0 index.completeLineCount
  rw [List.drop_zero, List.drop_zero, (h.index index hindex).take_textLines] at hlines
  rw [(h.reached index hindex).2, window, ← hlines]
  exact (zipIdx_mono (textLines_mono (List.take_prefix_take_left hsize))).drop _

namespace Told

variable {s : State}

theorem delivered (h : Told s) (hinv : Inv s) : s.Delivered :=
  ⟨hinv.once, h.told, hinv.gone⟩

/-- When all lines of the file have been looked at, they are emitted. -/
theorem caught (h : Told s) (hinv : Inv s) (hlooked : s.LookedAt) : Inv.Caught s := by
  intro hstarted ino hcurrent
  have hdue : s.due ino <+: s.emitted ino := by
    rcases hlooked hstarted ino hcurrent with hnone | ⟨look, hlook, rfl, hlines⟩
    · rw [State.due, hnone, List.zipIdx_nil, List.drop_nil]
      exact List.nil_prefix
    · have htold := h.told look hlook
      rwa [State.dueAt, hlines] at htold
  exact (hinv.once ino).eq_of_length_le hdue.length_le

theorem grow (h : Told s) {files : ℕ → List UInt8} {current : Option ℕ} {created : ℕ}
    (hgrow : ∀ ino, s.files ino <+: files ino) :
    Told { s with files := files, current := current, created := created } where
  none := h.none
  looked n := Nat.le_trans (h.looked n) (hgrow _).length_le
  looks := h.looks
  ended look hlook := Nat.le_trans (h.ended look hlook) (hgrow look.ino).length_le
  told look hlook := by
    have hsame : (files look.ino).take look.size = (s.files look.ino).take look.size :=
      take_eq_of_prefix (hgrow look.ino) (h.ended look hlook)
    unfold State.dueAt
    rw [hsame]
    exact h.told look hlook

theorem put (h : Told s) {n : ℕ} {p : Phase} (hp : p.Looks (s.looked n)) : Told (s.put n p) where
  none := h.none
  looked := h.looked
  ended := h.ended
  told := h.told
  looks m q hq := by
    rw [State.tasks_put] at hq
    split at hq
    · next hmn =>
        cases hq
        exact hmn ▸ hp
    · exact h.looks m q hq

theorem finish (h : Told s) (n : ℕ) : Told (s.finish n) where
  none := h.none
  looked := h.looked
  ended := h.ended
  told := h.told
  looks m q hq := by
    rw [State.tasks_finish] at hq
    split at hq
    · cases hq
    · exact h.looks m q hq

theorem fail (h : Told s) (n : ℕ) : Told (s.fail n) := by
  have hfinish := h.finish n
  unfold State.fail
  split
  · exact ⟨nofun, hfinish.looked, hfinish.looks, hfinish.ended, hfinish.told⟩
  · exact hfinish

/-- A task looks and goes on with what it has seen. -/
theorem look_put (h : Told s) {n ino : ℕ} {p : Phase}
    (hp : p.Looks ⟨ino, (s.files ino).length⟩) : Told ((s.look n ino).put n p) where
  none := h.none
  ended := h.ended
  told := h.told
  looked m := by
    change (Function.update s.looked n ⟨ino, (s.files ino).length⟩ m).size ≤
      (s.files (Function.update s.looked n ⟨ino, (s.files ino).length⟩ m).ino).length
    rw [Function.update_apply]
    split
    · exact Nat.le_refl _
    · exact h.looked m
  looks m q hq := by
    rw [State.tasks_put] at hq
    change q.Looks (Function.update s.looked n ⟨ino, (s.files ino).length⟩ m)
    rw [Function.update_apply]
    split at hq
    · next hmn =>
        cases hq
        rw [if_pos hmn]
        exact hp
    · next hmn =>
        rw [if_neg hmn]
        exact h.looks m q hq

/-- A task ends with an index that covers what it has looked at. -/
theorem conclude (h : Told s) {n : ℕ} {s' : State} (hinv : Inv s') (hstarted : s'.started = true)
    (hfiles : s'.files = s.files) (hlooked : s'.looked = s.looked)
    (htasks : s'.tasks = (s.finish n).tasks) (hended : s'.ended = s.ended ++ [s.looked n])
    (hkept : ∀ look ∈ s.ended, s'.dueAt look.ino look.size <+: s'.emitted look.ino)
    {index : LineIndex} (hindex : s'.index = some index)
    (hlooks : (Phase.scanned index).Looks (s.looked n)) : Told s' where
  none hnot := absurd (hnot.symm.trans hstarted) Bool.false_ne_true
  looked m := by
    rw [hlooked, hfiles]
    exact h.looked m
  looks m q hq := by
    rw [hlooked]
    rw [htasks] at hq
    exact (h.finish n).looks m q hq
  ended look hlook := by
    rw [hfiles]
    rw [hended] at hlook
    rcases List.mem_append.mp hlook with hlook | hlook
    · exact h.ended look hlook
    · rw [List.mem_singleton.mp hlook]
      exact h.looked n
  told look hlook := by
    rw [hended] at hlook
    rcases List.mem_append.mp hlook with hlook | hlook
    · exact hkept look hlook
    · rw [List.mem_singleton.mp hlook, ← hlooks.1]
      exact hinv.told_of_index hindex hlooks.2

/-- A tick ends with its index stored. -/
theorem emit (h : Told s) {n : ℕ} {next : LineIndex} {fromLine : ℕ} {lines : List Text}
    (hinv : Inv ((s.conclude n).emit next fromLine lines)) (hstarted : s.started = true)
    (hlooks : (Phase.scanned next).Looks (s.looked n)) :
    Told ((s.conclude n).emit next fromLine lines) := by
  refine h.conclude hinv hstarted rfl rfl rfl rfl (fun look hlook => ?_) rfl hlooks
  rw [Inv.emitted_emit]
  exact (h.told look hlook).trans (List.prefix_append _ _)

theorem compare (h : Told s) {n : ℕ} {next : LineIndex} (hinv : Inv (s.compare n next))
    (hstarted : s.started = true) (hlooks : (Phase.scanned next).Looks (s.looked n)) :
    Told (s.compare n next) := by
  unfold State.compare at hinv ⊢
  dsimp only at hinv ⊢
  by_cases hcurrent : s.isCurrent next = true
  · obtain ⟨index, hindex, hsame⟩ := (Option.any_eq_true _ _).mp hcurrent
    rw [Bool.and_eq_true, decide_eq_true_eq, decide_eq_true_eq] at hsame
    rw [if_pos hcurrent] at hinv ⊢
    refine h.conclude hinv hstarted rfl rfl rfl rfl h.told hindex ?_
    exact ⟨hsame.2.symm.trans hlooks.1, hsame.1 ▸ hlooks.2⟩
  · rw [if_neg hcurrent] at hinv ⊢
    by_cases hcount : next.completeLineCount - s.lineCount = 0
    · rw [if_pos hcount] at hinv ⊢
      exact h.emit hinv hstarted hlooks
    · rw [if_neg hcount]
      split
      · exact h.put hlooks
      · exact h.put hlooks

theorem advance (h : Told s) (hinv : Inv s) {n handed : ℕ} {p : Phase} (hp : s.tasks n = some p)
    (hinv' : Inv (s.advance n handed p)) : Told (s.advance n handed p) := by
  have hlooks := h.looks n p hp
  cases p with
  | stat old =>
      unfold State.advance
      dsimp only
      split
      · exact h.fail n
      · next ino _ =>
          split
          · exact h.look_put trivial
          · next hino =>
              rw [not_not] at hino
              subst hino
              split
              · next hsize => exact h.look_put ⟨rfl, hsize⟩
              · exact h.look_put (looks_startExtend rfl (Nat.le_refl _))
  | build =>
      unfold State.advance
      dsimp only
      split
      · exact h.fail n
      · exact h.look_put (looks_startStream rfl (Nat.le_refl _))
  | opening work =>
      unfold State.advance
      dsimp only
      split
      · exact h.fail n
      · exact h.put hlooks
  | reading work fd => exact h.put (looks_afterRead hlooks.1 hlooks.2 ..)
  | scanned next =>
      unfold State.advance at hinv' ⊢
      dsimp only at hinv' ⊢
      by_cases hn : n = 0
      · rw [if_pos hn] at hinv' ⊢
        -- the start is the first task to end
        have hnone := h.none ((hinv.eq_zero_iff hp).mp hn)
        refine h.conclude hinv' rfl rfl rfl rfl rfl (fun look hlook => ?_) rfl hlooks
        rw [hnone] at hlook
        exact absurd hlook List.not_mem_nil
      · rw [if_neg hn] at hinv' ⊢
        exact h.compare hinv' (hinv.started_of_task hp hn) hlooks
  | emitting next fromLine lines =>
      have hn : n ≠ 0 := by
        rintro rfl
        cases hinv.indexing _ hp
      exact h.emit hinv' (hinv.started_of_task hp hn) hlooks

theorem step (h : Told s) (hinv : Inv s) {s' : State} {ev : Event} (hs : s.step ev = some s')
    (hinv' : Inv s') : Told s' := by
  cases ev with
  | append chunk =>
      obtain ⟨ino, hcurrent, rfl⟩ := Option.map_eq_some_iff.mp hs
      refine h.grow fun other => ?_
      rw [Function.update_apply]
      split
      · next heq =>
          rw [heq]
          exact List.prefix_append ..
      · exact List.prefix_refl _
  | rotate content =>
      cases hs
      exact h.grow (hinv.prefix_rotate content)
  | remove =>
      cases hs
      exact h.grow fun _ => List.prefix_refl _
  | tick n =>
      obtain ⟨_, ⟨⟩⟩ := Option.ite_none_right_eq_some.mp hs
      unfold State.startTick
      split
      · exact h.put trivial
      · exact h.put trivial
  | advance n handed =>
      obtain ⟨p, hp, rfl⟩ := Option.map_eq_some_iff.mp hs
      exact h.advance hinv hp hinv'
  | stop =>
      cases hs
      exact ⟨h.none, h.looked, h.looks, h.ended, h.told⟩

end Told

/-- Task `n` takes so many steps. -/
def advances (n steps : ℕ) : List Event :=
  List.replicate steps (.advance n 8)

/-- Two ticks read the same line. -/
def overlapping : List Event :=
  Event.rotate [] :: advances 0 2 ++ [Event.append [98, 10], .tick 1, .tick 2] ++ advances 1 9 ++
    advances 2 10 ++ advances 1 1

end WireTools.LogTail
