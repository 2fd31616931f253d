import Mathlib.Data.List.DropRight
import WireTools.Lines
import WireTools.Text

/-! # The output of a managed process

A process writes to two streams, which arrive in chunks.  Each stream keeps its partial line; the
complete lines of both go to the raw log, to the logger and into one buffer of recent lines.

* `onData`, `onEnd`: what one event of a stream does;
* `view`: what one stream has to do with, and that events of the other one leave it
  (`view_foldl`);
* `capture_chunks`: the lines of a stream are those of its whole text, however it is cut and
  whatever arrives from the other stream in between, unless a line end is joined to a symbol
  (`joinsReturn`). -/

namespace WireTools.ManagedProcess

def RecentOutputCap : ℕ := 200

def carriageReturn : Text := [13]

inductive Level where
  | info
  | warn
  deriving DecidableEq

/-- stdout is logged as information, stderr as a warning. -/
def Level.of (isErr : Bool) : Level :=
  if isErr then .warn else .info

structure State where
  /-- The partial line of stdout (`false`) and of stderr (`true`). -/
  partialLine : Bool → Text
  recentLines : List Text
  /-- The lines of the raw log. -/
  raw : List Text
  /-- The lines that the logger was given. -/
  logged : List (Level × Text)

def State.start : State :=
  ⟨fun _ => [], [], [], []⟩

/-- An event of stdout or, with `isErr`, of stderr. -/
inductive Event where
  | data (isErr : Bool) (chunk : Text)
  | close (isErr : Bool)
  deriving DecidableEq

def Event.isErr : Event → Bool
  | .data isErr _ => isErr
  | .close isErr => isErr

section

/-! The source trims with a function of a library: the text, without the given units at its end. -/

variable (trimEnd : Text → Text → Text)

def captureLine (s : State) (terminatedLine : Text) (isErr : Bool) : State :=
  let line := trimEnd terminatedLine carriageReturn
  if line = [] then s
  else
    let recentLines := s.recentLines ++ [line]
    { s with
      recentLines := if RecentOutputCap < recentLines.length then recentLines.tail else recentLines
      raw := s.raw ++ [line]
      logged := s.logged ++ [(Level.of isErr, line)] }

def onData (s : State) (isErr : Bool) (chunk : Text) : State :=
  let lines := (s.partialLine isErr ++ chunk).splitOn newline
  let s := { s with partialLine := Function.update s.partialLine isErr (lines.getLastD []) }
  lines.dropLast.foldl (fun s line => captureLine trimEnd s line isErr) s

def onEnd (s : State) (isErr : Bool) : State :=
  captureLine trimEnd s (s.partialLine isErr) isErr

def step (s : State) : Event → State
  | .data isErr chunk => onData trimEnd s isErr chunk
  | .close isErr => onEnd trimEnd s isErr

def capture (events : List Event) : State :=
  events.foldl (step trimEnd) State.start

/-- The lines that are captured from one stream. -/
def State.captured (s : State) (isErr : Bool) : List Text :=
  (s.logged.filter fun entry => entry.1 = Level.of isErr).map Prod.snd

/-! ### What is captured of pieces -/

/-- The line of a piece, if it is not empty. -/
def kept (pieces : List Text) : List Text :=
  (pieces.map fun piece => trimEnd piece carriageReturn).filter (· ≠ [])

theorem kept_append (ps qs : List Text) :
    kept trimEnd (ps ++ qs) = kept trimEnd ps ++ kept trimEnd qs := by
  rw [kept, List.map_append, List.filter_append]
  rfl

theorem Level.of_inj {a b : Bool} : Level.of a = Level.of b ↔ a = b := by
  cases a <;> cases b <;> decide

theorem captureLine_captured (s : State) (piece : Text) (a b : Bool) :
    (captureLine trimEnd s piece a).captured b =
      s.captured b ++ if a = b then kept trimEnd [piece] else [] := by
  unfold captureLine kept
  by_cases hline : trimEnd piece carriageReturn = []
  · simp [hline]
  · by_cases hstream : a = b
    · simp [hline, hstream, State.captured]
    · simp [hline, hstream, State.captured, Level.of_inj]

theorem captureLine_partialLine (s : State) (piece : Text) (isErr : Bool) :
    (captureLine trimEnd s piece isErr).partialLine = s.partialLine := by
  unfold captureLine
  dsimp only
  split <;> rfl

theorem foldl_captureLine (pieces : List Text) (s : State) (a b : Bool) :
    let s' := pieces.foldl (fun s line => captureLine trimEnd s line a) s
    s'.captured b = s.captured b ++ (if a = b then kept trimEnd pieces else []) ∧
      s'.partialLine = s.partialLine := by
  induction pieces generalizing s with
  | nil => simp [kept]
  | cons piece pieces ih =>
      obtain ⟨hcaptured, hkeeps⟩ := ih (captureLine trimEnd s piece a)
      dsimp only at hcaptured hkeeps ⊢
      rw [List.foldl_cons]
      refine ⟨?_, by rw [hkeeps, captureLine_partialLine]⟩
      rw [hcaptured, captureLine_captured, List.append_assoc, ← List.singleton_append (l := pieces),
        kept_append]
      split <;> rfl

/-! ### One stream -/

/-- What one stream has to do with: its partial line and its captured lines. -/
def State.view (s : State) (isErr : Bool) : Text × List Text :=
  (s.partialLine isErr, s.captured isErr)

theorem splitOn_eq_concat (t : Text) : ∃ pieces last, t.splitOn newline = pieces ++ [last] :=
  (List.eq_nil_or_concat' _).resolve_left (List.splitOn_ne_nil newline t)

theorem onData_captured (s : State) (a b : Bool) {chunk : Text} {pieces : List Text} {last : Text}
    (h : (s.partialLine a ++ chunk).splitOn newline = pieces ++ [last]) :
    (onData trimEnd s a chunk).partialLine = Function.update s.partialLine a last ∧
      (onData trimEnd s a chunk).captured b =
        s.captured b ++ if a = b then kept trimEnd pieces else [] := by
  unfold onData
  dsimp only
  rw [h, List.dropLast_concat, List.getLastD_concat]
  obtain ⟨hcaptured, hkeeps⟩ := foldl_captureLine trimEnd pieces
    { s with partialLine := Function.update s.partialLine a last } a b
  exact ⟨hkeeps, hcaptured⟩

/-- An event of one stream leaves the other one. -/
theorem step_view_of_ne (s : State) {ev : Event} {isErr : Bool} (h : ev.isErr ≠ isErr) :
    (step trimEnd s ev).view isErr = s.view isErr := by
  cases ev with
  | data a chunk =>
      replace h : a ≠ isErr := h
      obtain ⟨pieces, last, hpieces⟩ := splitOn_eq_concat (s.partialLine a ++ chunk)
      obtain ⟨hkeeps, hcaptured⟩ := onData_captured trimEnd s a isErr hpieces
      rw [step, State.view, hkeeps, hcaptured, Function.update_of_ne (Ne.symm h), if_neg h,
        List.append_nil]
      rfl
  | close a =>
      replace h : a ≠ isErr := h
      rw [step, onEnd, State.view, captureLine_captured, captureLine_partialLine, if_neg h,
        List.append_nil]
      rfl

theorem foldl_view_of_silent {events : List Event} {isErr : Bool}
    (h : events.filter (fun ev => ev.isErr = isErr) = []) (s : State) :
    (events.foldl (step trimEnd) s).view isErr = s.view isErr := by
  induction events generalizing s with
  | nil => rfl
  | cons ev events ih =>
      rw [List.filter_eq_nil_iff, List.forall_mem_cons, ← List.filter_eq_nil_iff] at h
      rw [List.foldl_cons, ih h.2, step_view_of_ne trimEnd s (by simpa using h.1)]

/-- The rest of a stream goes on with its partial line. -/
theorem foldl_captured {events : List Event} {isErr : Bool} {chunks : List Text} (s : State)
    (h : events.filter (fun ev => ev.isErr = isErr) =
      chunks.map (Event.data isErr) ++ [Event.close isErr])
    (hkeeps : newline ∉ s.partialLine isErr) :
    (events.foldl (step trimEnd) s).captured isErr = s.captured isErr ++
      kept trimEnd ((s.partialLine isErr ++ chunks.flatten).splitOn newline) := by
  induction events generalizing s chunks with
  | nil =>
      rw [List.filter_nil] at h
      exact absurd h.symm (List.append_ne_nil_of_right_ne_nil _ (List.cons_ne_nil _ _))
  | cons ev events ih =>
      rw [List.foldl_cons]
      by_cases hstream : ev.isErr = isErr
      · rw [List.filter_cons_of_pos (by simpa using hstream)] at h
        cases chunks with
        | nil =>
            obtain ⟨rfl, hrest⟩ := List.cons.inj h
            have hview := foldl_view_of_silent trimEnd hrest
              (step trimEnd s (.close isErr))
            rw [List.flatten_nil, List.append_nil, List.splitOn_eq_singleton hkeeps]
            refine (congrArg Prod.snd hview).trans ?_
            rw [State.view, step, onEnd, captureLine_captured, if_pos rfl]
        | cons chunk chunks =>
            obtain ⟨rfl, hrest⟩ := List.cons.inj h
            obtain ⟨pieces, last, hpieces⟩ := splitOn_eq_concat (s.partialLine isErr ++ chunk)
            obtain ⟨hnext, hcaptured⟩ := onData_captured trimEnd s isErr isErr hpieces
            have hself : (step trimEnd s (.data isErr chunk)).partialLine isErr = last := by
              rw [step, hnext, Function.update_self]
            have hlast : newline ∉ last := by
              have hmem : last ∈ (s.partialLine isErr ++ chunk).splitOn newline := by
                rw [hpieces]
                exact List.mem_concat_self
              exact Lines.not_mem_of_mem_splitOn hmem
            rw [ih (step trimEnd s (.data isErr chunk)) hrest (by rw [hself]; exact hlast),
              hself, step, hcaptured, if_pos rfl, List.flatten_cons, ← List.append_assoc,
              Lines.splitOn_append_of_concat hpieces, kept_append, List.append_assoc]
      · rw [List.filter_cons_of_neg (by simpa using hstream)] at h
        have hview := step_view_of_ne trimEnd s hstream
        rw [State.view, State.view, Prod.mk.injEq] at hview
        rw [ih _ h (by rw [hview.1]; exact hkeeps), hview.1, hview.2]

/-! ### The recent lines -/

/-- The buffer holds the last of the lines that the logger was given. -/
def State.Recent (s : State) : Prop :=
  s.recentLines = (s.logged.map Prod.snd).rtake RecentOutputCap

theorem rtake_concat {α : Type} (xs : List α) (x : α) (n : ℕ) :
    (xs ++ [x]).rtake n =
      if n < (xs.rtake n ++ [x]).length then (xs.rtake n ++ [x]).tail else xs.rtake n ++ [x] := by
  unfold List.rtake
  rw [← List.drop_append_of_le_length (Nat.sub_le _ _), List.tail_drop]
  simp only [List.length_drop, List.length_append, List.length_singleton]
  by_cases hfull : xs.length < n
  · rw [if_neg (by omega), Nat.sub_eq_zero_of_le (by omega), Nat.sub_eq_zero_of_le hfull.le]
  · rw [if_pos (by omega), Nat.sub_add_comm (by omega)]

theorem captureLine_recent {s : State} (h : s.Recent) (piece : Text) (isErr : Bool) :
    (captureLine trimEnd s piece isErr).Recent := by
  unfold captureLine
  dsimp only
  split
  · exact h
  · rw [State.Recent, List.map_append, List.map_singleton, rtake_concat, ← h]

theorem step_recent {s : State} (h : s.Recent) (ev : Event) : (step trimEnd s ev).Recent := by
  cases ev with
  | data isErr chunk =>
      refine List.foldlRecOn _ _ (motive := State.Recent) ?_ ?_
      · exact h
      · exact fun s hs piece _ => captureLine_recent trimEnd hs piece isErr
  | close isErr => exact captureLine_recent trimEnd h _ isErr

theorem capture_recent (events : List Event) : (capture trimEnd events).Recent := by
  refine List.foldlRecOn _ _ (motive := State.Recent) ?_ ?_
  · rfl
  · exact fun s hs ev _ => step_recent trimEnd hs ev

/-! ### The result -/

/-- The lines of a text: what stands between line feeds, without the carriage returns at the end
and where something is left. -/
def textLines (t : Text) : List Text :=
  ((t.splitOn newline).map fun piece => piece.rdropWhile (· == 13)).filter (· ≠ [])

def zeroWidthJoiner : CodeUnit := 0x200d

/-- The library trims symbols, and a zero-width joiner behind a symbol joins the next unit to it.
Of several joiners in a row each second one joins, the first one when a unit stands in front of
it: here the last one joins the first of the carriage returns at the end. -/
def joinsReturn (piece : Text) : Bool :=
  let front := piece.rdropWhile (· == 13)
  let joiners := (front.rtakeWhile (· == zeroWidthJoiner)).length
  front.length < piece.length &&
    if joiners < front.length then joiners % 2 == 1 else 0 < joiners && joiners % 2 == 0

/-- However the texts of the two streams are cut and interleaved, their lines are captured, when no
carriage return at the end of a piece is joined to a symbol. -/
theorem capture_chunks
    (htrim : ∀ t, joinsReturn t = false → trimEnd t carriageReturn = t.rdropWhile (· == 13))
    {written : Bool → Text} {chunks : Bool → List Text} {events : List Event}
    (hwritten : ∀ isErr, ∀ piece ∈ (written isErr).splitOn newline, joinsReturn piece = false)
    (hcut : ∀ isErr, (chunks isErr).flatten = written isErr)
    (hevents : ∀ isErr, events.filter (fun ev => ev.isErr = isErr) =
      (chunks isErr).map (Event.data isErr) ++ [Event.close isErr]) :
    (∀ isErr, (capture trimEnd events).captured isErr = textLines (written isErr)) ∧
      (capture trimEnd events).recentLines =
        ((capture trimEnd events).logged.map Prod.snd).rtake RecentOutputCap := by
  refine ⟨fun isErr => ?_, capture_recent trimEnd events⟩
  refine (foldl_captured trimEnd State.start (hevents isErr) List.not_mem_nil).trans ?_
  rw [State.start, List.nil_append, hcut, kept, textLines]
  refine congrArg (List.filter _) (List.map_congr_left fun piece hpiece => ?_)
  exact htrim piece (hwritten isErr piece hpiece)

end

/-- Trimming that keeps the carriage return that is joined to a symbol. -/
def trimSymbols (t units : Text) : Text :=
  let front := t.rdropWhile fun c => units.contains c
  if joinsReturn t then front ++ (t.drop front.length).take 1 else front

theorem trimSymbols_carriageReturn {t : Text} (h : joinsReturn t = false) :
    trimSymbols t carriageReturn = t.rdropWhile (· == 13) := by
  have hunit (c : CodeUnit) : carriageReturn.contains c = (c == 13) := by
    rw [carriageReturn, List.contains_cons, List.contains_nil, Bool.or_false]
  unfold trimSymbols
  simp only [h, hunit]
  rfl

/-- A line end that is cut in two, with output of the other stream in between. -/
theorem capture_chunks_crlf :
    let events := [.data false (text "ab\r"), .data true (text "late"), .data false (text "\n\ncd"),
      .close true, .close false]
    (capture trimSymbols events).captured false = [text "ab", text "cd"] ∧
      (capture trimSymbols events).captured true = [text "late"] ∧
      (capture trimSymbols events).recentLines = [text "ab", text "late", text "cd"] := by
  intro events
  have hresult := @capture_chunks trimSymbols (fun _ h => trimSymbols_carriageReturn h)
    (fun isErr => if isErr then text "late" else text "ab\r\n\ncd")
    (fun isErr => if isErr then [text "late"] else [text "ab\r", text "\n\ncd"]) events
    (by decide) (by decide) (by decide)
  exact ⟨(hresult.1 false).trans (by decide), (hresult.1 true).trans (by decide),
    hresult.2.trans (by decide)⟩

/-- The line end of a line that ends in a joiner stays in part. -/
theorem joined_return_captured :
    (capture trimSymbols [.data false (text "x\u200d\r\n"), .close false, .close true]).captured
      false = [text "x\u200d\r"] ∧ textLines (text "x\u200d\r\n") = [text "x\u200d"] := by
  decide

end WireTools.ManagedProcess
