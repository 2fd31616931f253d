import WireTools.Lines
import WireTools.Runs
import WireTools.SurrogatePairs
import WireTools.Top

/-! # The editor buffer

A text with a cursor in it and the points that an undo goes back to.

* `apply` is one operation, `run` a sequence of them; a sequence of key presses is one of
  operations (`applyKey_run`);
* `offsetOf` and `position`: an offset as a line and a column, and back; `line_at` is the text
  around a line, and `Around` the lines around the cursor;
* `apply_cases`: a step is an edit, a movement or an undo; `undo_restores`: as many undos as edits
  lead back;
* `Bounded` and `Paired`: the cursor is in the text, and inside of no surrogate pair, at the undo
  points too; `cut_apply`: a step keeps that if and only if it is a `Whole` one;
* `Lawful`: what is asked of all states of a run, and `lawful_iff`: a run meets it if and only if
  all of its steps are whole. -/

namespace WireTools.TextBuffer

/-! ### The buffer -/

/-- An undo point. -/
structure Snapshot where
  text : Text
  cursor : ℕ
  deriving DecidableEq

structure State where
  text : Text
  cursor : ℕ
  /-- The undo points, oldest first. -/
  undo : List Snapshot
  deriving DecidableEq

structure TextPosition where
  line : ℕ
  column : ℕ
  deriving DecidableEq

inductive CursorMove where
  | left
  | right
  | up
  | down
  | lineStart
  | lineEnd
  | documentStart
  | documentEnd
  deriving DecidableEq

def MaxUndo : ℕ := 200

def clampIndex (index count : ℕ) : ℕ :=
  min index (count - 1)

def lines (text : Text) : List Text :=
  text.splitOn newline

/-- The offset of a position, the column clamped to its line. -/
def offsetOf (text : Text) (target : TextPosition) : ℕ :=
  let line := clampIndex target.line (lines text).length
  ((lines text).take line).foldl (fun sum current => sum + current.length + 1) 0 +
    clampIndex target.column (((lines text).getD line []).length + 1)

namespace State

def snapshot (s : State) : Snapshot := ⟨s.text, s.cursor⟩

def create (text : Text) : State := ⟨text, text.length, []⟩

def position (s : State) : TextPosition :=
  let before := lines (s.text.take s.cursor)
  ⟨before.length - 1, (before.getLastD []).length⟩

/-- The state becomes an undo point. -/
def edit (s : State) (text : Text) (cursor : ℕ) : State :=
  ⟨text, cursor, keepLast MaxUndo (s.undo ++ [s.snapshot])⟩

def insert (s : State) (inserted : Text) : State :=
  if inserted.length = 0 then s
  else s.edit (s.text.take s.cursor ++ (inserted ++ s.text.drop s.cursor))
    (s.cursor + inserted.length)

def backspace (s : State) : State :=
  if s.cursor = 0 then s
  else s.edit (s.text.take (s.cursor - 1) ++ s.text.drop s.cursor) (s.cursor - 1)

def deleteForward (s : State) : State :=
  if s.text.length ≤ s.cursor then s
  else s.edit (s.text.take s.cursor ++ s.text.drop (s.cursor + 1)) s.cursor

def replace (s : State) (text : Text) : State :=
  if text = s.text then s else s.edit text text.length

/-- Where a movement leads. -/
def target (s : State) : CursorMove → ℕ
  | .left => s.cursor - 1
  | .right => min s.text.length (s.cursor + 1)
  | .up =>
      if s.position.line = 0 then 0
      else offsetOf s.text ⟨s.position.line - 1, s.position.column⟩
  | .down =>
      if s.position.line = (lines s.text).length - 1 then s.text.length
      else offsetOf s.text ⟨s.position.line + 1, s.position.column⟩
  | .lineStart => offsetOf s.text ⟨s.position.line, 0⟩
  | .lineEnd =>
      offsetOf s.text ⟨s.position.line, ((lines s.text).getD s.position.line []).length⟩
  | .documentStart => 0
  | .documentEnd => s.text.length

def move (s : State) (direction : CursorMove) : State :=
  if s.target direction = s.cursor then s else { s with cursor := s.target direction }

/-- Back to the latest undo point. -/
def undoLast (s : State) : State :=
  match s.undo.getLast? with
  | none => s
  | some previous => ⟨previous.text, previous.cursor, s.undo.dropLast⟩

end State

inductive Op where
  | insert (inserted : Text)
  | backspace
  | deleteForward
  | replace (text : Text)
  | move (direction : CursorMove)
  | undo
  deriving DecidableEq

def apply (s : State) : Op → State
  | .insert inserted => s.insert inserted
  | .backspace => s.backspace
  | .deleteForward => s.deleteForward
  | .replace text => s.replace text
  | .move direction => s.move direction
  | .undo => s.undoLast

def run (s : State) (ops : List Op) : State :=
  ops.foldl apply s

/-! ### Key presses -/

structure Key where
  returnKey : Bool
  backspace : Bool
  delete : Bool
  leftArrow : Bool
  rightArrow : Bool
  upArrow : Bool
  downArrow : Bool
  home : Bool
  endKey : Bool
  ctrl : Bool
  metaKey : Bool
  escape : Bool
  tab : Bool

def UndoInput : Text := text "z"

/-- The operation of a key press, if it has one. -/
def keyOp (input : Text) (key : Key) (multiline : Bool) : Option Op :=
  if key.returnKey then if multiline then some (.insert [newline]) else none
  else if key.backspace || key.delete then some .backspace
  else if key.leftArrow then some (.move .left)
  else if key.rightArrow then some (.move .right)
  else if key.upArrow then some (.move .up)
  else if key.downArrow then some (.move .down)
  else if key.home then some (.move .lineStart)
  else if key.endKey then some (.move .lineEnd)
  else if key.ctrl && input.map toLower = UndoInput then some .undo
  else if 0 < input.length && !key.ctrl && !key.metaKey && !key.escape && !key.tab then
    some (.insert input)
  else none

def applyKey (s : State) (input : Text) (key : Key) (multiline : Bool) : State :=
  (keyOp input key multiline).elim s (apply s)

/-- Key presses are operations. -/
theorem applyKey_run (s : State) (presses : List (Text × Key)) (multiline : Bool) :
    presses.foldl (fun s press => applyKey s press.1 press.2 multiline) s =
      run s (presses.filterMap fun press => keyOp press.1 press.2 multiline) := by
  induction presses generalizing s with
  | nil => rfl
  | cons press presses ih =>
      rw [List.foldl_cons, ih, applyKey, List.filterMap_cons]
      cases keyOp press.1 press.2 multiline <;> rfl

/-! ### Lines and positions -/

section positions

variable {t : Text}

theorem foldl_lengths (ls : List Text) (n : ℕ) :
    ls.foldl (fun sum current => sum + current.length + 1) n =
      n + (Lines.closed newline ls).length := by
  induction ls generalizing n with
  | nil => rfl
  | cons l ls ih =>
      rw [List.foldl_cons, ih, Lines.closed_cons, List.length_append, List.length_cons]
      omega

/-- The text around one of its lines. -/
theorem line_at {pre post : List Text} {l : Text} (h : lines t = pre ++ l :: post) :
    ∃ y, t = Lines.closed newline pre ++ (l ++ y) ∧ Utf8.startsLow y = false := by
  have hclosed := Lines.closed_splitOn (c := newline) t
  rw [← lines, h, Lines.closed_append, Lines.closed_cons] at hclosed
  rcases List.eq_nil_or_concat post with rfl | ⟨post, m, rfl⟩
  · refine ⟨[], (List.append_left_inj [newline]).mp ?_, rfl⟩
    rw [← hclosed, List.append_nil, List.append_assoc]
    rfl
  · refine ⟨newline :: (Lines.closed newline post ++ m),
      (List.append_left_inj [newline]).mp ?_, rfl⟩
    rw [← hclosed, List.concat_eq_append, Lines.closed_append, Lines.closed_cons]
    simp only [List.append_assoc, List.cons_append]
    rfl

theorem offsetOf_line {pre post : List Text} {l : Text} (h : lines t = pre ++ l :: post)
    (column : ℕ) :
    offsetOf t ⟨pre.length, column⟩ =
      (Lines.closed newline pre).length + min column l.length := by
  have hclamp : clampIndex pre.length (lines t).length = pre.length := by
    rw [clampIndex, h, List.length_append, List.length_cons]
    omega
  have hline : (lines t).getD pre.length [] = l := by
    rw [h, List.getD_eq_getElem?_getD, List.getElem?_append_right (Nat.le_refl _), Nat.sub_self]
    rfl
  rw [offsetOf, hclamp, hline, h, List.take_left, foldl_lengths, Nat.zero_add, clampIndex]
  rfl

theorem lines_ne_nil (t : Text) : lines t ≠ [] :=
  List.splitOn_ne_nil newline t

/-- A position beyond the last line is one of the last line. -/
theorem offsetOf_clamp (t : Text) (line column : ℕ) :
    offsetOf t ⟨line, column⟩ = offsetOf t ⟨clampIndex line (lines t).length, column⟩ := by
  have hclamp : clampIndex (clampIndex line (lines t).length) (lines t).length =
      clampIndex line (lines t).length := by
    simp only [clampIndex]
    omega
  rw [offsetOf, offsetOf, hclamp]

/-- The lines around a clamped index. -/
theorem lines_clamp (t : Text) (line : ℕ) : ∃ pre l post, lines t = pre ++ l :: post ∧
    pre.length = clampIndex line (lines t).length := by
  have hpos := List.length_pos_iff.mpr (lines_ne_nil t)
  have hlt : clampIndex line (lines t).length < (lines t).length := by
    rw [clampIndex]
    omega
  have hsplit := (List.take_append_drop (clampIndex line (lines t).length) (lines t)).symm
  rw [List.drop_eq_getElem_cons hlt] at hsplit
  exact ⟨_, _, _, hsplit, List.length_take_of_le hlt.le⟩

theorem offsetOf_le (t : Text) (p : TextPosition) : offsetOf t p ≤ t.length := by
  obtain ⟨pre, l, post, hlines, hpre⟩ := lines_clamp t p.line
  obtain ⟨y, hy, -⟩ := line_at hlines
  have hlength := congrArg List.length hy
  rw [List.length_append, List.length_append] at hlength
  rw [show p = ⟨p.line, p.column⟩ from rfl, offsetOf_clamp, ← hpre, offsetOf_line hlines]
  omega

theorem endsHigh_closed (ls : List Text) : Utf8.endsHigh (Lines.closed newline ls) = false := by
  rcases List.eq_nil_or_concat ls with rfl | ⟨ls, l, rfl⟩
  · rfl
  · rw [List.concat_eq_append, Lines.closed_append, Lines.closed_cons,
      Utf8.endsHigh_append (by simp), Utf8.endsHigh_append (by simp)]
    rfl

/-- Whether a position is inside of a pair is seen in its line. -/
theorem inside_offsetOf {pre post : List Text} {l : Text} (h : lines t = pre ++ l :: post)
    (column : ℕ) :
    Utf8.Inside t (offsetOf t ⟨pre.length, column⟩) ↔ Utf8.Inside l column := by
  obtain ⟨y, rfl, hy⟩ := line_at h
  rw [offsetOf_line h, Utf8.inside_line (endsHigh_closed pre) hy]

end positions

/-! ### The line of the cursor -/

/-- The text before the cursor in its line. -/
def State.lineBefore (s : State) : Text :=
  (lines (s.text.take s.cursor)).getLastD []

def State.lineAbove (s : State) : Option Text :=
  (lines (s.text.take s.cursor)).dropLast.getLast?

def State.lineBelow (s : State) : Option Text :=
  (lines (s.text.drop s.cursor)).tail.head?

/-- The lines above the cursor, its own in two parts, and those below. -/
structure Around (s : State) (above : List Text) (before after : Text) (below : List Text) :
    Prop where
  take : lines (s.text.take s.cursor) = above ++ [before]
  drop : lines (s.text.drop s.cursor) = after :: below

theorem exists_around (s : State) : ∃ above before after below,
    Around s above before after below := by
  obtain ⟨above, before, htake⟩ :=
    (List.eq_nil_or_concat (lines (s.text.take s.cursor))).resolve_left (lines_ne_nil _)
  obtain ⟨after, below, hdrop⟩ := List.exists_cons_of_ne_nil (lines_ne_nil (s.text.drop s.cursor))
  exact ⟨above, before, after, below, htake.trans List.concat_eq_append, hdrop⟩

namespace Around

variable {s : State} {above below : List Text} {before after : Text}

theorem position (h : Around s above before after below) :
    s.position = ⟨above.length, before.length⟩ := by
  rw [State.position]
  simp [h.take]

theorem text_take (h : Around s above before after below) :
    s.text.take s.cursor = Lines.closed newline above ++ before := by
  have hclosed := Lines.closed_splitOn (c := newline) (s.text.take s.cursor)
  rw [← lines, h.take, Lines.closed_append, Lines.closed_cons] at hclosed
  refine (List.append_left_inj [newline]).mp ?_
  rw [← hclosed, List.append_assoc]
  rfl

theorem lines (h : Around s above before after below) :
    TextBuffer.lines s.text = above ++ (before ++ after) :: below := by
  have hbefore : newline ∉ before := by
    have hmem : before ∈ TextBuffer.lines (s.text.take s.cursor) := by simp [h.take]
    exact Lines.not_mem_of_mem_splitOn hmem
  have hafter : newline ∉ after := by
    have hmem : after ∈ TextBuffer.lines (s.text.drop s.cursor) := by simp [h.drop]
    exact Lines.not_mem_of_mem_splitOn hmem
  have hline : (before ++ after).splitOn newline = [before ++ after] :=
    List.splitOn_eq_singleton (by simp [hbefore, hafter])
  have hsplit := Lines.splitOn_append_of_cons h.drop (s.text.take s.cursor)
  rw [List.take_append_drop, Lines.splitOn_append_of_concat h.take, hline] at hsplit
  rw [TextBuffer.lines, hsplit, List.append_assoc]
  rfl

/-- The cursor in its line. -/
theorem cursor (h : Around s above before after below) (hs : s.cursor ≤ s.text.length) :
    s.cursor = (Lines.closed newline above).length + before.length := by
  have hlength := congrArg List.length h.text_take
  rw [List.length_take_of_le hs, List.length_append] at hlength
  exact hlength

theorem offsetOf_position (h : Around s above before after below)
    (hs : s.cursor ≤ s.text.length) : offsetOf s.text s.position = s.cursor := by
  rw [h.position, offsetOf_line h.lines, h.cursor hs, List.length_append,
    Nat.min_eq_left (Nat.le_add_right _ _)]

end Around

/-! ### Positions in order -/

instance : LT TextPosition :=
  ⟨fun p q => p.line < q.line ∨ p.line = q.line ∧ p.column < q.column⟩

theorem position_lt (s : State) {c d : ℕ} (hcd : c < d) (hd : d ≤ s.text.length) :
    { s with cursor := c }.position < { s with cursor := d }.position := by
  obtain ⟨above, before, after, below, hc⟩ := exists_around { s with cursor := c }
  obtain ⟨above', before', after', below', hd'⟩ := exists_around { s with cursor := d }
  let between := (s.text.drop c).take (d - c)
  have htake : s.text.take d = s.text.take c ++ between := by
    rw [← List.take_add, Nat.add_sub_cancel' hcd.le]
  have hbetween : between.length = d - c := by
    rw [List.length_take_of_le]
    rw [List.length_drop]
    omega
  -- what stands between the two cursors goes on with the line of the first
  have hlines : (s.text.take d).splitOn newline = above' ++ [before'] := hd'.take
  rw [htake, Lines.splitOn_append_of_concat hc.take] at hlines
  rw [hc.position, hd'.position]
  obtain ⟨more, last, hmore⟩ := (List.eq_nil_or_concat
    ((before ++ between).splitOn newline)).resolve_left (List.splitOn_ne_nil newline _)
  rw [hmore, List.concat_eq_append, ← List.append_assoc] at hlines
  obtain ⟨rfl, hlast⟩ := List.append_inj' hlines rfl
  obtain rfl := List.singleton_inj.mp hlast
  cases more with
  | nil =>
      have hclosed := Lines.closed_splitOn (c := newline) (before ++ between)
      rw [hmore] at hclosed
      have hlength := congrArg List.length hclosed
      simp only [List.concat_eq_append, List.nil_append, Lines.closed, List.flatMap_singleton,
        List.length_append, hbetween] at hlength
      right
      rw [List.append_nil]
      exact ⟨rfl, by dsimp only; omega⟩
  | cons line more =>
      left
      show above.length < (above ++ line :: more).length
      rw [List.length_append, List.length_cons]
      omega

/-! ### Undo points -/

/-- The operation is an edit and no no-op. -/
def Edits (s : State) : Op → Prop
  | .insert inserted => inserted.length ≠ 0
  | .backspace => s.cursor ≠ 0
  | .deleteForward => s.cursor < s.text.length
  | .replace text => text ≠ s.text
  | .move _ => False
  | .undo => False

instance (s : State) (op : Op) : Decidable (Edits s op) := by
  cases op <;> unfold Edits <;> infer_instance

theorem apply_move (s : State) (direction : CursorMove) :
    apply s (.move direction) = { s with cursor := s.target direction } := by
  rw [apply, State.move]
  split
  · next h => rw [h]
  · rfl

/-- What a step does. -/
theorem apply_cases (s : State) (op : Op) :
    (Edits s op ∧ op ≠ .undo ∧ ∃ t c, apply s op = s.edit t c) ∨
      (¬Edits s op ∧ op ≠ .undo ∧ ∃ c, apply s op = { s with cursor := c }) ∨
      (op = .undo ∧ apply s op = s.undoLast) := by
  cases op with
  | insert inserted =>
      by_cases h : inserted.length = 0
      · exact .inr (.inl ⟨not_not.mpr h, by simp, s.cursor, if_pos h⟩)
      · exact .inl ⟨h, by simp, _, _, if_neg h⟩
  | backspace =>
      by_cases h : s.cursor = 0
      · exact .inr (.inl ⟨not_not.mpr h, by simp, s.cursor, if_pos h⟩)
      · exact .inl ⟨h, by simp, _, _, if_neg h⟩
  | deleteForward =>
      by_cases h : s.text.length ≤ s.cursor
      · exact .inr (.inl ⟨not_lt.mpr h, by simp, s.cursor, if_pos h⟩)
      · exact .inl ⟨not_le.mp h, by simp, _, _, if_neg h⟩
  | replace t =>
      by_cases h : t = s.text
      · exact .inr (.inl ⟨not_not.mpr h, by simp, s.cursor, if_pos h⟩)
      · exact .inl ⟨h, by simp, _, _, if_neg h⟩
  | move direction => exact .inr (.inl ⟨id, by simp, s.target direction, apply_move s direction⟩)
  | undo => exact .inr (.inr ⟨rfl, rfl⟩)

theorem State.undo_edit (s : State) (t : Text) (c : ℕ) :
    (s.edit t c).undo = keepLast MaxUndo (s.undo ++ [s.snapshot]) := by
  rw [State.edit]

theorem mem_of_mem_keepLast_concat {cap : ℕ} {α : Type} {l : List α} {a b : α}
    (h : a ∈ keepLast cap (l ++ [b])) : a ∈ l ∨ a = b := by
  have hmem := List.mem_of_mem_drop h
  rwa [List.mem_append, List.mem_singleton] at hmem

/-- What holds of a buffer and of its undo points. -/
def Kept (P : Snapshot → Prop) (s : State) : Prop :=
  ∀ p ∈ s.snapshot :: s.undo, P p

/-- A step keeps what holds of the state that it leads to. -/
theorem Kept.apply {P : Snapshot → Prop} {s : State} {op : Op} (h : Kept P s)
    (hop : op ≠ .undo → P (apply s op).snapshot) : Kept P (apply s op) := by
  rcases apply_cases s op with ⟨-, hne, t, c, hstep⟩ | ⟨-, hne, c, hstep⟩ | ⟨-, hstep⟩
  · refine List.forall_mem_cons.mpr ⟨hop hne, fun p hp => ?_⟩
    rw [hstep, State.undo_edit] at hp
    rcases mem_of_mem_keepLast_concat hp with hold | rfl
    · exact h p (List.mem_cons_of_mem _ hold)
    · exact h _ List.mem_cons_self
  · refine List.forall_mem_cons.mpr ⟨hop hne, fun p hp => ?_⟩
    rw [hstep] at hp
    exact h p (List.mem_cons_of_mem _ hp)
  · rw [hstep, State.undoLast]
    split
    · exact h
    · next previous hlast =>
        refine List.forall_mem_cons.mpr ⟨?_, fun p hp => ?_⟩
        · exact h _ (List.mem_cons_of_mem _ (List.mem_of_getLast? hlast))
        · exact h p (List.mem_cons_of_mem _ (List.dropLast_subset _ hp))

/-- How many operations of a run are edits and no no-ops. -/
def editCount (s : State) : List Op → ℕ
  | [] => 0
  | op :: ops => (if Edits s op then 1 else 0) + editCount (apply s op) ops

theorem keepLast_append {cap : ℕ} {α : Type} (old new : List α) (h : new.length ≤ cap) :
    ∃ kept, keepLast cap (old ++ new) = kept ++ new := by
  refine ⟨old.drop ((old ++ new).length - cap), ?_⟩
  rw [keepLast, List.drop_append_of_le_length]
  rw [List.length_append]
  omega

/-- Edits stack undo points, the first of them deepest. -/
theorem undo_run {s : State} {old new : List Snapshot} {ops : List Op} (hops : Op.undo ∉ ops)
    (hs : s.undo = old ++ new) (hcount : new.length + editCount s ops ≤ MaxUndo) :
    ∃ kept more, (run s ops).undo = kept ++ (new ++ more) ∧ more.length = editCount s ops := by
  induction ops generalizing s old new with
  | nil => exact ⟨old, [], by rw [List.append_nil]; exact hs, rfl⟩
  | cons op ops ih =>
      rw [List.mem_cons, not_or] at hops
      rw [editCount] at hcount ⊢
      rw [run, List.foldl_cons, ← run]
      rcases apply_cases s op with ⟨hedit, -, t, c, hstep⟩ | ⟨hedit, -, c, hstep⟩ | ⟨hundo, -⟩
      · rw [if_pos hedit] at hcount ⊢
        have hnew : (new ++ [s.snapshot]).length ≤ MaxUndo := by
          rw [List.length_append, List.length_singleton]
          omega
        obtain ⟨kept, hkept⟩ := keepLast_append old (new ++ [s.snapshot]) hnew
        have hundo : (apply s op).undo = kept ++ (new ++ [s.snapshot]) := by
          rw [hstep, State.undo_edit, hs, List.append_assoc, hkept]
        obtain ⟨kept', more, hrun, hlength⟩ := ih hops.2 hundo
          (by rw [List.length_append, List.length_singleton]; omega)
        refine ⟨kept', s.snapshot :: more, ?_, ?_⟩
        · rw [hrun, List.append_assoc]
          rfl
        · rw [List.length_cons, hlength, Nat.add_comm]
      · rw [if_neg hedit, Nat.zero_add] at hcount ⊢
        exact ih hops.2 (by rw [hstep]; exact hs) hcount
      · exact absurd hundo.symm hops.1

theorem apply_undo {s : State} {old : List Snapshot} {p : Snapshot} (h : s.undo = old ++ [p]) :
    apply s .undo = ⟨p.text, p.cursor, old⟩ := by
  rw [apply, State.undoLast, h, List.getLast?_concat, List.dropLast_concat]

/-- As many undos lead back to an undo point as there are points from it on. -/
theorem run_undo {s : State} {old more : List Snapshot} {p : Snapshot}
    (h : s.undo = old ++ p :: more) :
    run s (List.replicate (more.length + 1) .undo) = ⟨p.text, p.cursor, old⟩ := by
  induction more using List.reverseRecOn generalizing s with
  | nil => exact apply_undo h
  | append_singleton more q ih =>
      rw [← List.cons_append, ← List.append_assoc] at h
      rw [List.length_append, List.length_singleton, List.replicate_succ, run, List.foldl_cons,
        ← run, apply_undo h]
      exact ih rfl

/-- As many undos as edits restore what was before the first of the edits. -/
theorem undo_restores {s : State} {first : Op} {rest : List Op} (hfirst : Edits s first)
    (hrest : Op.undo ∉ rest) (hcount : editCount s (first :: rest) ≤ MaxUndo) :
    (run s (first :: rest ++
      List.replicate (editCount s (first :: rest)) .undo)).snapshot = s.snapshot := by
  rw [editCount, if_pos hfirst] at hcount ⊢
  rcases apply_cases s first with ⟨-, -, t, c, hstep⟩ | ⟨hedit, -, -⟩ | ⟨rfl, -⟩
  · have hnew : [s.snapshot].length ≤ MaxUndo := by
      rw [List.length_singleton]
      omega
    obtain ⟨kept, hkept⟩ := keepLast_append s.undo [s.snapshot] hnew
    have hundo : (apply s first).undo = kept ++ [s.snapshot] := by
      rw [hstep, State.undo_edit, hkept]
    obtain ⟨kept', more, hrun, hlength⟩ := undo_run hrest hundo
      (by rw [List.length_singleton]; exact hcount)
    rw [List.singleton_append] at hrun
    rw [run, List.foldl_append, List.foldl_cons, ← run, ← run, ← hlength, Nat.add_comm,
      run_undo hrun]
    rfl
  · exact absurd hfirst hedit
  · exact hfirst.elim

/-! ### Surrogate pairs -/

/-- The step takes no pair apart, and the cursor does not come to stand inside of one. -/
def Whole (s : State) : Op → Prop
  | .backspace => ¬Utf8.Inside s.text (s.cursor - 1)
  | .deleteForward => ¬Utf8.Inside s.text (s.cursor + 1)
  | .move .left => ¬Utf8.Inside s.text (s.cursor - 1)
  | .move .right => ¬Utf8.Inside s.text (s.cursor + 1)
  | .move .up => ∀ l ∈ s.lineAbove, ¬Utf8.Inside l s.lineBefore.length
  | .move .down => ∀ l ∈ s.lineBelow, ¬Utf8.Inside l s.lineBefore.length
  | _ => True

namespace Around

variable {s : State} {above below : List Text} {before after : Text}

theorem lineBefore (h : Around s above before after below) : s.lineBefore = before := by
  rw [State.lineBefore, h.take]
  simp

theorem lineAbove (h : Around s above before after below) : s.lineAbove = above.getLast? := by
  rw [State.lineAbove, h.take, List.dropLast_concat]

theorem lineBelow (h : Around s above before after below) : s.lineBelow = below.head? := by
  rw [State.lineBelow, h.drop, List.tail_cons]

theorem inside_up (h : Around s above before after below) :
    ¬Utf8.Inside s.text (s.target .up) ↔ Whole s (.move .up) := by
  rw [Whole, h.lineAbove, h.lineBefore, State.target, h.position]
  rcases List.eq_nil_or_concat above with rfl | ⟨above, l, rfl⟩
  · simp [Utf8.not_inside_zero]
  · have hlines := h.lines
    rw [List.concat_eq_append, List.append_assoc, List.singleton_append] at hlines
    have hline : (above.concat l).length = above.length + 1 := List.length_concat
    rw [if_neg (by dsimp only; omega)]
    dsimp only
    rw [hline, Nat.add_sub_cancel, inside_offsetOf hlines]
    simp

theorem inside_down (h : Around s above before after below) :
    ¬Utf8.Inside s.text (s.target .down) ↔ Whole s (.move .down) := by
  rw [Whole, h.lineBelow, h.lineBefore, State.target, h.position, h.lines]
  cases below with
  | nil => simp [Utf8.not_inside_of_le]
  | cons l below =>
      have hlines := h.lines
      rw [← List.singleton_append, ← List.append_assoc] at hlines
      have hline : (above ++ [before ++ after]).length = above.length + 1 := by simp
      rw [if_neg]
      · dsimp only
        rw [← hline, inside_offsetOf hlines]
        simp
      · simp

end Around

theorem inside_target (s : State) (direction : CursorMove) :
    ¬Utf8.Inside s.text (s.target direction) ↔ Whole s (.move direction) := by
  obtain ⟨above, before, after, below, h⟩ := exists_around s
  cases direction with
  | left => exact Iff.rfl
  | right =>
      rw [Whole, State.target]
      by_cases hc : s.cursor + 1 ≤ s.text.length
      · rw [Nat.min_eq_right hc]
      · rw [Nat.min_eq_left (by omega)]
        exact iff_of_true (Utf8.not_inside_of_le (Nat.le_refl _))
          (Utf8.not_inside_of_le (by omega))
  | up => exact h.inside_up
  | down => exact h.inside_down
  | lineStart =>
      rw [State.target, h.position, inside_offsetOf h.lines]
      exact iff_of_true (Utf8.not_inside_zero _) trivial
  | lineEnd =>
      have hline : (lines s.text).getD above.length [] = before ++ after := by
        rw [h.lines, List.getD_eq_getElem?_getD, List.getElem?_append_right (Nat.le_refl _),
          Nat.sub_self]
        rfl
      rw [State.target, h.position, hline, inside_offsetOf h.lines]
      exact iff_of_true (Utf8.not_inside_of_le (Nat.le_refl _)) trivial
  | documentStart => exact iff_of_true (Utf8.not_inside_zero _) trivial
  | documentEnd => exact iff_of_true (Utf8.not_inside_of_le (Nat.le_refl _)) trivial

/-- The texts that an operation brings in. -/
def Op.texts : Op → List Text
  | .insert inserted => [inserted]
  | .replace text => [text]
  | _ => []

/-- A step from a whole state leads to a whole one if and only if it is a whole step. -/
theorem cut_apply {s : State} {op : Op} (hs : s.cursor ≤ s.text.length)
    (hcut : Utf8.Cut s.text s.cursor) (hop : op ≠ .undo)
    (htexts : ∀ t ∈ op.texts, Utf8.WellFormed t) :
    Utf8.Cut (apply s op).text (apply s op).cursor ↔ Whole s op := by
  have hwf := (Utf8.cut_iff.mp hcut).1
  have hinside : ∀ i, ¬Utf8.Inside s.text i ↔ Utf8.Cut s.text i := by
    intro i
    rw [Utf8.cut_iff]
    exact (and_iff_right hwf).symm
  cases op with
  | insert inserted =>
      rw [apply, State.insert]
      split
      · exact iff_of_true hcut trivial
      · have hwhole := htexts inserted (by simp [Op.texts])
        refine iff_of_true ?_ trivial
        show Utf8.Cut (s.text.take s.cursor ++ (inserted ++ s.text.drop s.cursor)) _
        rw [← List.append_assoc, State.edit, Utf8.cut_append
          (by rw [List.length_append, List.length_take_of_le hs])]
        exact ⟨hcut.1.append hwhole, hcut.2⟩
  | backspace =>
      rw [Whole, hinside, apply, State.backspace]
      split
      · next h => rw [h]
      · have hlength : (s.text.take (s.cursor - 1)).length = s.cursor - 1 :=
          List.length_take_of_le (by omega)
        rw [Utf8.cut_iff_take hwf, State.edit, Utf8.cut_append hlength]
        exact and_iff_left hcut.2
  | deleteForward =>
      rw [Whole, hinside, apply, State.deleteForward]
      split
      · next h =>
          refine iff_of_true hcut ((hinside _).mp (Utf8.not_inside_of_le ?_))
          omega
      · rw [Utf8.cut_iff_drop hwf, State.edit, Utf8.cut_append (List.length_take_of_le hs)]
        exact and_iff_right hcut.1
  | replace t =>
      rw [apply, State.replace]
      split
      · exact iff_of_true hcut trivial
      · have hwhole := htexts t (by simp [Op.texts])
        exact iff_of_true (Utf8.cut_iff.mpr ⟨hwhole, Utf8.not_inside_of_le (Nat.le_refl _)⟩) trivial
  | move direction => rw [apply_move, ← inside_target, hinside]
  | undo => exact absurd rfl hop

theorem target_le {s : State} (hs : s.cursor ≤ s.text.length) (direction : CursorMove) :
    s.target direction ≤ s.text.length := by
  have hoffset := offsetOf_le s.text
  cases direction with
  | left => exact (Nat.sub_le _ _).trans hs
  | right => exact Nat.min_le_left _ _
  | up =>
      rw [State.target]
      split
      · exact Nat.zero_le _
      · exact hoffset _
  | down =>
      rw [State.target]
      split
      · exact Nat.le_refl _
      · exact hoffset _
  | lineStart => exact hoffset _
  | lineEnd => exact hoffset _
  | documentStart => exact Nat.zero_le _
  | documentEnd => exact Nat.le_refl _

theorem cursor_apply {s : State} {op : Op} (hs : s.cursor ≤ s.text.length) (hop : op ≠ .undo) :
    (apply s op).cursor ≤ (apply s op).text.length := by
  cases op with
  | insert inserted =>
      rw [apply, State.insert]
      split
      · exact hs
      · simp only [State.edit, List.length_append, List.length_take, List.length_drop]
        omega
  | backspace =>
      rw [apply, State.backspace]
      split
      · exact hs
      · simp only [State.edit, List.length_append, List.length_take, List.length_drop]
        omega
  | deleteForward =>
      rw [apply, State.deleteForward]
      split
      · exact hs
      · simp only [State.edit, List.length_append, List.length_take, List.length_drop]
        omega
  | replace t =>
      rw [apply, State.replace]
      split
      · exact hs
      · exact Nat.le_refl _
  | move direction =>
      rw [apply_move]
      exact target_le hs direction
  | undo => exact absurd rfl hop

/-! ### Runs -/

/-- The states of a run, from the first to the last. -/
def Reached (s : State) (ops : List Op) (s' : State) : Prop :=
  ∃ done, done <+: ops ∧ run s done = s'

theorem reached_cons {s s' : State} {op : Op} {ops : List Op} :
    Reached s (op :: ops) s' ↔ s' = s ∨ Reached (apply s op) ops s' := by
  constructor
  · rintro ⟨done, hdone, rfl⟩
    cases done with
    | nil => exact Or.inl rfl
    | cons op' done =>
        obtain ⟨rfl, hrest⟩ := List.cons_prefix_cons.mp hdone
        exact Or.inr ⟨done, hrest, rfl⟩
  · rintro (rfl | ⟨done, hdone, rfl⟩)
    · exact ⟨[], List.nil_prefix, rfl⟩
    · exact ⟨op :: done, List.cons_prefix_cons.mpr ⟨rfl, hdone⟩, rfl⟩

/-- What every step of a run keeps. -/
theorem reached_induction {motive : State → Prop} {s s' : State} {ops : List Op}
    (h : Reached s ops s') (hs : motive s)
    (hstep : ∀ m op, op ∈ ops → motive m → motive (apply m op)) : motive s' := by
  induction ops generalizing s with
  | nil =>
      obtain ⟨done, hdone, rfl⟩ := h
      rw [List.prefix_nil.mp hdone]
      exact hs
  | cons op ops ih =>
      rcases reached_cons.mp h with rfl | hrest
      · exact hs
      · refine ih hrest (hstep s op List.mem_cons_self hs) fun m op' hmem => ?_
        exact hstep m op' (List.mem_cons_of_mem _ hmem)

/-- The cursor is in the text, here and at every undo point. -/
def Bounded : State → Prop :=
  Kept fun p => p.cursor ≤ p.text.length

theorem Bounded.cursor {s : State} (h : Bounded s) : s.cursor ≤ s.text.length :=
  h s.snapshot List.mem_cons_self

theorem bounded_create (initial : Text) : Bounded (State.create initial) := by
  intro p hp
  rw [List.mem_singleton.mp hp]
  exact Nat.le_refl _

theorem Bounded.apply {s : State} (h : Bounded s) (op : Op) : Bounded (TextBuffer.apply s op) :=
  Kept.apply h fun hop => cursor_apply h.cursor hop

/-- No pair is taken apart and the cursor stands inside of none, here and at every undo point. -/
def Paired : State → Prop :=
  Kept fun p => Utf8.Cut p.text p.cursor

theorem Paired.cut {s : State} (h : Paired s) : Utf8.Cut s.text s.cursor :=
  h s.snapshot List.mem_cons_self

theorem paired_create {initial : Text} (h : Utf8.WellFormed initial) :
    Paired (State.create initial) := by
  intro p hp
  rw [List.mem_singleton.mp hp]
  exact Utf8.cut_iff.mpr ⟨h, Utf8.not_inside_of_le (Nat.le_refl _)⟩

theorem Paired.apply {s : State} {op : Op} (h : Paired s) (hb : Bounded s)
    (htexts : ∀ t ∈ op.texts, Utf8.WellFormed t) (hop : Whole s op) :
    Paired (TextBuffer.apply s op) :=
  Kept.apply h fun hne => (cut_apply hb.cursor h.cut hne htexts).mpr hop

/-- Every step of a run is whole if and only if every state of it is. -/
theorem along_iff {s : State} {ops : List Op} (hb : Bounded s) (hp : Paired s)
    (htexts : ∀ op ∈ ops, ∀ t ∈ op.texts, Utf8.WellFormed t) :
    Along (fun s op => some (apply s op)) Whole s ops ↔
      ∀ s', Reached s ops s' → Utf8.Cut s'.text s'.cursor := by
  induction ops generalizing s with
  | nil =>
      refine iff_of_true trivial ?_
      rintro s' ⟨done, hdone, rfl⟩
      rw [List.prefix_nil.mp hdone]
      exact hp.cut
  | cons op ops ih =>
      rw [List.forall_mem_cons] at htexts
      simp only [Along, reached_cons, forall_eq_or_imp]
      constructor
      · rintro ⟨hop, hrest⟩
        refine ⟨hp.cut, (ih (hb.apply op) (hp.apply hb htexts.1 hop) htexts.2).mp hrest⟩
      · rintro ⟨-, hrest⟩
        have hop : Whole s op := by
          by_cases hundo : op = .undo
          · subst hundo
            trivial
          · refine (cut_apply hb.cursor hp.cut hundo htexts.1).mp (hrest _ ?_)
            exact ⟨[], List.nil_prefix, rfl⟩
        exact ⟨hop, (ih (hb.apply op) (hp.apply hb htexts.1 hop) htexts.2).mpr hrest⟩

/-- What holds of the states of a run from a new buffer. -/
structure Lawful (initial : Text) (ops : List Op) : Prop where
  cursor : ∀ s, Reached (.create initial) ops s → s.cursor ≤ s.text.length
  position : ∀ s, Reached (.create initial) ops s → offsetOf s.text s.position = s.cursor
  ascending : ∀ s, Reached (.create initial) ops s → ∀ c d, c < d → d ≤ s.text.length →
    { s with cursor := c }.position < { s with cursor := d }.position
  restores : ∀ s, Reached (.create initial) ops s → ∀ first rest, Edits s first →
    Op.undo ∉ rest → editCount s (first :: rest) ≤ MaxUndo →
    (run s (first :: rest ++
      List.replicate (editCount s (first :: rest)) .undo)).snapshot = s.snapshot
  paired : Utf8.WellFormed initial → (∀ op ∈ ops, ∀ t ∈ op.texts, Utf8.WellFormed t) →
    ∀ s, Reached (.create initial) ops s →
      Utf8.WellFormed s.text ∧ ¬Utf8.Inside s.text s.cursor

/-- The laws hold of a run if and only if its steps take no pair apart. -/
theorem lawful_iff (initial : Text) (ops : List Op) : Lawful initial ops ↔
    (Utf8.WellFormed initial → (∀ op ∈ ops, ∀ t ∈ op.texts, Utf8.WellFormed t) →
      Along (fun s op => some (apply s op)) Whole (.create initial) ops) := by
  have hbounded : ∀ s, Reached (.create initial) ops s → Bounded s := by
    intro s hs
    exact reached_induction hs (bounded_create initial) fun m op _ hm => hm.apply op
  have hcut : ∀ s : State, Utf8.WellFormed s.text ∧ ¬Utf8.Inside s.text s.cursor ↔
      Utf8.Cut s.text s.cursor := fun s => Utf8.cut_iff.symm
  constructor
  · intro h hinitial htexts
    refine (along_iff (bounded_create initial) (paired_create hinitial) htexts).mpr fun s hs => ?_
    exact (hcut s).mp (h.paired hinitial htexts s hs)
  · intro h
    refine ⟨fun s hs => (hbounded s hs).cursor, fun s hs => ?_, fun s _ c d => position_lt s,
      fun s _ first rest => undo_restores, fun hinitial htexts s hs => ?_⟩
    · obtain ⟨above, before, after, below, haround⟩ := exists_around s
      exact haround.offsetOf_position (hbounded s hs).cursor
    · have halong := h hinitial htexts
      rw [along_iff (bounded_create initial) (paired_create hinitial) htexts] at halong
      exact (hcut s).mpr (halong s hs)

/-- A deletion right behind a pair takes it apart. -/
theorem not_lawful_backspace : ¬Lawful [0xD83D, 0xDE00] [.backspace] := by
  intro h
  have hpaired := (h.paired (by decide) (by decide) _ ⟨[.backspace], by simp, rfl⟩).1
  revert hpaired
  decide

end WireTools.TextBuffer
