import WireTools.LineIndex
import WireTools.Runs

/-! # The log tail

A tail follows the file at one path.  The file grows, is moved away and replaced by another inode,
or is missing for a while.  A timer starts ticks, and each reads the file in several steps, between
which anything may happen.

* `Phase` is where a tick waits; task 0 is the start of the tail, which builds the first index;
* `State.step`: a change of the file, a new tick, the next step of a task, or the stop.  Inodes are
  numbered as they appear;
* `base` and `since` are the subscription point, written down when the start is over: the first
  line and the first inode to be delivered.  `looked` and `ended` are what tasks have looked at: the
  inode and its size at a task's last `stat`, kept when the task runs to its end.  The code reads
  none of these;
* `Delivered`: for each inode, what has been emitted is the beginning of what is due, with all that
  a task which has run to its end looked at; it is all of it for an inode that is gone. -/

namespace WireTools.LogTail

structure LogTailEvent where
  appendedFromLine : ℕ
  lines : List Text
  totalBytes : ℕ
  totalLines : ℕ
  ino : ℕ
  deriving DecidableEq

/-- What a task opens the file for. -/
inductive Work where
  | oldTail (old : LineIndex) (size : ℕ)
  | stream (scan : Scan)
  | newTail (scan : Scan)
  | lines (next : LineIndex) (fromLine count : ℕ)
  deriving DecidableEq

/-- The inode that the task takes the path for. -/
def Work.ino : Work → ℕ
  | .oldTail old _ => old.ino
  | .stream scan => scan.ino
  | .newTail scan => scan.ino
  | .lines next _ _ => next.ino

inductive Phase where
  /-- Before the `stat` of an extension. -/
  | stat (old : LineIndex)
  /-- Before the `stat` of a full build. -/
  | build
  | opening (work : Work)
  | reading (work : Work) (fd : ℕ)
  /-- The index is extended or built. -/
  | scanned (next : LineIndex)
  /-- The lines are read. -/
  | emitting (next : LineIndex) (fromLine : ℕ) (lines : List Text)
  deriving DecidableEq

namespace Phase

/-- The stream is read; an empty file has no last byte to look at. -/
def afterStream (scan : Scan) : Phase :=
  if scan.endByte = 0 then .scanned (scan.index false) else .opening (.newTail scan)

def startStream (scan : Scan) : Phase :=
  if scan.endByte ≤ scan.cursor then afterStream scan else .opening (.stream scan)

def startExtend (old : LineIndex) (size : ℕ) : Phase :=
  if old.totalBytes = 0 then startStream (.extend old size false)
  else .opening (.oldTail old size)

/-- What a task does with what it reads from the open file `fd`. -/
def afterRead (content : List UInt8) (fd handed : ℕ) : Work → Phase
  | .oldTail old size => startStream (.extend old size (tailEndsInNewline content old.totalBytes))
  | .stream scan =>
      match scan.chunk content (handed + 1) with
      | [] => afterStream scan
      | byte :: bytes => .reading (.stream (scan.feed (byte :: bytes))) fd
  | .newTail scan => .scanned (scan.index (tailEndsInNewline content scan.endByte))
  | .lines next fromLine count =>
      .emitting next fromLine (next.readLines fromLine count content handed)

end Phase

/-- An inode and the size it had at a `stat`. -/
structure Look where
  ino : ℕ
  size : ℕ
  deriving DecidableEq

structure State where
  /-- The bytes of every inode. -/
  files : ℕ → List UInt8
  /-- The inode at the path. -/
  current : Option ℕ
  created : ℕ
  tasks : ℕ → Option Phase
  started : Bool
  stopped : Bool
  index : Option LineIndex
  events : List LogTailEvent
  base : ℕ → ℕ
  since : ℕ
  looked : ℕ → Look
  ended : List Look

inductive Event where
  | append (chunk : List UInt8)
  | rotate (content : List UInt8)
  | remove
  | tick (n : ℕ)
  /-- The next step of a task; a read hands over so many bytes. -/
  | advance (n handed : ℕ)
  | stop

namespace State

def init : State where
  files _ := []
  current := none
  created := 0
  tasks n := if n = 0 then some .build else none
  started := false
  stopped := false
  index := none
  events := []
  base _ := 0
  since := 0
  looked _ := ⟨0, 0⟩
  ended := []

variable (s : State)

def put (n : ℕ) (p : Phase) : State :=
  { s with tasks := Function.update s.tasks n (some p) }

def finish (n : ℕ) : State :=
  { s with tasks := Function.update s.tasks n none }

/-- A task makes its `stat`. -/
def look (n ino : ℕ) : State :=
  { s with looked := Function.update s.looked n ⟨ino, (s.files ino).length⟩ }

/-- A task has run to its end. -/
def conclude (n : ℕ) : State :=
  { s.finish n with ended := s.ended ++ [s.looked n] }

theorem tasks_put (n : ℕ) (p : Phase) (m : ℕ) :
    (s.put n p).tasks m = if m = n then some p else s.tasks m :=
  Function.update_apply ..

theorem tasks_finish (n m : ℕ) : (s.finish n).tasks m = if m = n then none else s.tasks m :=
  Function.update_apply ..

/-- The start is over, with or without an index, and the timer runs. -/
def begin : State :=
  { s with
    started := true
    since := s.current.getD s.created }

def fail (n : ℕ) : State :=
  if n = 0 then (s.finish n).begin else s.finish n

/-- The start emits the counters of its index. -/
def subscribe (next : LineIndex) : State :=
  { s.begin with
    index := some next
    base := Function.update s.base next.ino next.completeLineCount
    events := s.events ++ [⟨0, [], next.totalBytes, next.completeLineCount, next.ino⟩] }

/-- How many lines the stored index counts. -/
def lineCount : ℕ :=
  (s.index.map (·.completeLineCount)).getD 0

def emit (next : LineIndex) (fromLine : ℕ) (lines : List Text) : State :=
  { s with
    index := some next
    events := s.events ++
      [⟨fromLine, lines, next.totalBytes, next.completeLineCount, next.ino⟩] }

/-- The stored index is of the same file and size. -/
def isCurrent (next : LineIndex) : Bool :=
  s.index.any fun index => next.totalBytes = index.totalBytes && next.ino = index.ino

/-- A tick has its index, and compares it with the one stored by now. -/
def compare (n : ℕ) (next : LineIndex) : State :=
  let fromLine := s.lineCount
  let count := next.completeLineCount - fromLine
  if s.isCurrent next then s.conclude n
  else if count = 0 then (s.conclude n).emit next fromLine []
  else if next.spanEnd fromLine count ≤ next.spanStart fromLine then
    s.put n (.emitting next fromLine [])
  else s.put n (.opening (.lines next fromLine count))

def advance (n handed : ℕ) : Phase → State
  | .stat old =>
      match s.current with
      | none => s.fail n
      | some ino =>
          let s := s.look n ino
          if ino ≠ old.ino then s.put n .build
          else if (s.files ino).length ≤ old.totalBytes then s.put n (.scanned old)
          else s.put n (.startExtend old (s.files ino).length)
  | .build =>
      match s.current with
      | none => s.fail n
      | some ino => (s.look n ino).put n (.startStream (.build ino (s.files ino).length))
  | .opening work =>
      match s.current with
      | none => s.fail n
      | some ino => s.put n (.reading work ino)
  | .reading work fd => s.put n (.afterRead (s.files fd) fd handed work)
  | .scanned next => if n = 0 then (s.conclude n).subscribe next else s.compare n next
  | .emitting next fromLine lines => (s.conclude n).emit next fromLine lines

def startTick (n : ℕ) : State :=
  match s.index with
  | none => s.put n .build
  | some index => s.put n (.stat index)

/-- None for an event that cannot happen: there is no file to append to, a tick is started before
the timer or after the stop or runs already, a task does not run. -/
def step : Event → Option State
  | .append chunk => s.current.map fun ino =>
      { s with files := Function.update s.files ino (s.files ino ++ chunk) }
  | .rotate content => some
      { s with
        files := Function.update s.files s.created content
        current := some s.created
        created := s.created + 1 }
  | .remove => some { s with current := none }
  | .tick n =>
      if s.started = true ∧ s.stopped = false ∧ n ≠ 0 ∧ s.tasks n = none then some (s.startTick n)
      else none
  | .advance n handed => (s.tasks n).map (s.advance n handed)
  | .stop => some { s with stopped := true }

/-! ### What is delivered -/

/-- The lines of an inode from the subscription point, each with its place. -/
def due (ino : ℕ) : List (Text × ℕ) :=
  (textLines (s.files ino)).zipIdx.drop (s.base ino)

/-- Those of its first `size` bytes. -/
def dueAt (ino size : ℕ) : List (Text × ℕ) :=
  (textLines ((s.files ino).take size)).zipIdx.drop (s.base ino)

/-- The lines emitted for an inode, each with the place the event gives it. -/
def emitted (ino : ℕ) : List (Text × ℕ) :=
  s.events.flatMap fun ev => if ev.ino = ino then ev.lines.zipIdx ev.appendedFromLine else []

structure Delivered : Prop where
  once : ∀ ino, s.emitted ino <+: s.due ino
  told : ∀ look ∈ s.ended, s.dueAt look.ino look.size <+: s.emitted look.ino
  gone : s.started = true → ∀ ino, s.since ≤ ino → ino < s.created → s.current ≠ some ino →
    s.emitted ino = s.due ino

/-- The index of a tick continues the stored one: it is of the same file and counts no fewer
lines, or it is of a later file and one of the two counts no line. -/
def TakesOver (next : LineIndex) : Prop :=
  ∀ index ∈ s.index,
    index.ino = next.ino ∧ index.completeLineCount ≤ next.completeLineCount ∨
    index.ino < next.ino ∧ (index.completeLineCount = 0 ∨ next.completeLineCount = 0)

instance (next : LineIndex) : Decidable (s.TakesOver next) :=
  inferInstanceAs (Decidable (∀ index ∈ s.index, _))

/-- No line of the file at the path has been completed since a task looked at it that has run to its
end. -/
def LookedAt : Prop :=
  s.started = true → ∀ ino ∈ s.current, textLines (s.files ino) = [] ∨
    ∃ look ∈ s.ended, look.ino = ino ∧
      textLines ((s.files ino).take look.size) = textLines (s.files ino)

instance : Decidable s.LookedAt :=
  inferInstanceAs (Decidable (s.started = true → ∀ ino ∈ s.current, _ ∨ ∃ look ∈ s.ended, _))

/-- A task opens the file it has looked at, or none; a read of lines gives all their bytes; an
index that is stored continues the one stored by then, which counts the lines it did when the tick
chose its first line. -/
def OrderlyTask (handed : ℕ) : Phase → Prop
  | .opening work => s.current = none ∨ s.current = some work.ino
  | .reading (.lines next fromLine count) _ => next.span fromLine count ≤ handed
  | .scanned next => next.completeLineCount ≤ s.lineCount → s.TakesOver next
  | .emitting next fromLine _ => s.lineCount = fromLine ∧ s.TakesOver next
  | _ => True

instance (handed : ℕ) : ∀ p, Decidable (s.OrderlyTask handed p)
  | .opening work => inferInstanceAs (Decidable (s.current = none ∨ s.current = some work.ino))
  | .reading (.lines next fromLine count) _ =>
      inferInstanceAs (Decidable (next.span fromLine count ≤ handed))
  | .scanned next =>
      inferInstanceAs (Decidable (next.completeLineCount ≤ s.lineCount → s.TakesOver next))
  | .emitting next fromLine _ =>
      inferInstanceAs (Decidable (s.lineCount = fromLine ∧ s.TakesOver next))
  | .reading (.oldTail _ _) _ | .reading (.stream _) _ | .reading (.newTail _) _ => isTrue trivial
  | .stat _ | .build => isTrue trivial

/-- The file is moved away when all its lines have been looked at, and tasks are orderly. -/
def Orderly : Event → Prop
  | .rotate _ | .remove => s.LookedAt
  | .advance n handed => ∀ p ∈ s.tasks n, s.OrderlyTask handed p
  | .append _ | .tick _ | .stop => True

instance : ∀ ev, Decidable (s.Orderly ev)
  | .rotate _ | .remove => inferInstanceAs (Decidable s.LookedAt)
  | .advance n handed => inferInstanceAs (Decidable (∀ p ∈ s.tasks n, s.OrderlyTask handed p))
  | .append _ | .tick _ | .stop => isTrue trivial

end State

end WireTools.LogTail
