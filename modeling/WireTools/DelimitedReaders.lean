import Mathlib.Data.List.Forall2
import WireTools.Text

/-! # Readers of delimited text

Two readers of a table written as text.

* `Rfc4180.read` reads comma-separated values unit by unit: a field is quoted when it starts with
  a quote, a quote inside is doubled, and a record ends at a line feed, with or without a carriage
  return.  Text that the grammar does not allow is read as none;
* `Rfc4180.Reads` says that a written field is read as a text wherever a field may start;
  `read_document` lifts it to records and documents;
* a carriage return in an unquoted field that is not the line break stops the reader
  (`feed_stray`);
* `Tabbed.lines` and `Tabbed.fields` split at line feeds and at tabs, and `Tabbed.readField` undoes
  the backslash escapes of `Tabbed.escape`; `\N` alone is the missing value. -/

namespace WireTools

def tab : CodeUnit := 9

def carriageReturn : CodeUnit := 13

def backslash : CodeUnit := 92

/-- The records, each with a line feed behind it. -/
def terminated (records : List Text) : Text :=
  records.flatMap fun r => r ++ [newline]

theorem terminated_cons (r : Text) (records : List Text) :
    terminated (r :: records) = (r ++ [newline]) ++ terminated records := rfl

/-! ### Comma-separated values -/

namespace Rfc4180

def comma : CodeUnit := 44

def quote : CodeUnit := 34

/-- Where the reader is: at the start of a field, in an unquoted one, in a quoted one, behind a
quote that closes it unless another follows, or behind a carriage return. -/
inductive Mode where
  | start
  | plain
  | quoted
  | closing
  | returned
  deriving DecidableEq

structure State where
  mode : Mode
  /-- What is read of the field. -/
  field : Text
  /-- The fields of the record so far. -/
  fields : List Text
  records : List (List Text)
  deriving DecidableEq

namespace State

def empty : State := ⟨.start, [], [], []⟩

def push (s : State) (mode : Mode) (c : CodeUnit) : State :=
  ⟨mode, s.field ++ [c], s.fields, s.records⟩

def endField (s : State) : State :=
  ⟨.start, [], s.fields ++ [s.field], s.records⟩

def endRecord (s : State) : State :=
  ⟨.start, [], [], s.records ++ [s.fields ++ [s.field]]⟩

/-- What a unit that ends the field does; none when it ends none. -/
def delimited (s : State) (c : CodeUnit) : Option State :=
  if c = comma then some s.endField
  else if c = newline then some s.endRecord
  else if c = carriageReturn then some { s with mode := .returned }
  else none

def step (s : State) (c : CodeUnit) : Option State :=
  match s.mode with
  | .start =>
      if c = quote then some { s with mode := .quoted }
      else some ((s.delimited c).getD (s.push .plain c))
  | .plain => if c = quote then none else some ((s.delimited c).getD (s.push .plain c))
  | .quoted => some (if c = quote then { s with mode := .closing } else s.push .quoted c)
  | .closing => if c = quote then some (s.push .quoted c) else s.delimited c
  | .returned => if c = newline then some s.endRecord else none

def feed (s : State) (t : Text) : Option State :=
  t.foldlM step s

/-- The records, at the end of the text; the last one may lack its line break. -/
def finish (s : State) : Option (List (List Text)) :=
  match s.mode with
  | .quoted | .returned => none
  | .start => some (if s.fields = [] then s.records else s.endRecord.records)
  | .plain | .closing => some s.endRecord.records

end State

/-- The records of a document. -/
def read (t : Text) : Option (List (List Text)) :=
  (State.empty.feed t).bind State.finish

/-- A unit that an unquoted field may hold. -/
def ordinary (c : CodeUnit) : Bool :=
  c ≠ comma && c ≠ quote && c ≠ newline && c ≠ carriageReturn

/-- Whether the field may end here. -/
def Mode.ends : Mode → Bool
  | .quoted | .returned => false
  | _ => true

/-- `w` is read as the field `t`, in any record. -/
def Reads (w t : Text) : Prop :=
  ∀ fields records, ∃ mode, Mode.ends mode = true ∧
    State.feed ⟨.start, [], fields, records⟩ w = some ⟨mode, t, fields, records⟩

namespace State

theorem feed_cons (s : State) (c : CodeUnit) (t : Text) :
    s.feed (c :: t) = (s.step c).bind fun s' => s'.feed t := rfl

theorem feed_append (s : State) (t u : Text) :
    s.feed (t ++ u) = (s.feed t).bind fun s' => s'.feed u := by
  unfold feed
  rw [List.foldlM_append]
  rfl

theorem delimited_ordinary {s : State} {c : CodeUnit} (h : ordinary c = true) :
    s.delimited c = none := by
  simp only [ordinary, Bool.and_eq_true, decide_eq_true_eq] at h
  rw [delimited, if_neg h.1.1.1, if_neg h.1.2, if_neg h.2]

theorem step_ordinary {s : State} {c : CodeUnit} (hs : s.mode = .start ∨ s.mode = .plain)
    (h : ordinary c = true) : s.step c = some (s.push .plain c) := by
  have hquote : c ≠ quote := by
    simp only [ordinary, Bool.and_eq_true, decide_eq_true_eq] at h
    exact h.1.1.2
  unfold step
  rcases hs with hs | hs
  · rw [hs]
    simp only [if_neg hquote, delimited_ordinary h, Option.getD_none]
  · rw [hs]
    simp only [if_neg hquote, delimited_ordinary h, Option.getD_none]

/-- A stretch of ordinary units, inside an unquoted field. -/
theorem feed_plain : ∀ {t : Text} (field : Text) (fields : List Text) (records : List (List Text)),
    (∀ c ∈ t, ordinary c = true) →
      feed ⟨.plain, field, fields, records⟩ t = some ⟨.plain, field ++ t, fields, records⟩
  | [], field, fields, records, _ => by rw [List.append_nil]; rfl
  | c :: t, field, fields, records, h => by
      rw [List.forall_mem_cons] at h
      rw [feed_cons, step_ordinary (Or.inr rfl) h.1]
      simp only [Option.bind_some, push]
      rw [feed_plain _ fields records h.2, List.append_assoc]
      rfl

/-- A stretch with its quotes doubled, inside a quoted field. -/
theorem feed_doubled : ∀ (t field : Text) (fields : List Text) (records : List (List Text)),
    feed ⟨.quoted, field, fields, records⟩ (replaceAll quote [quote, quote] t) =
      some ⟨.quoted, field ++ t, fields, records⟩
  | [], field, fields, records => by rw [List.append_nil]; rfl
  | c :: t, field, fields, records => by
      rw [replaceAll, List.flatMap_cons, feed_append]
      by_cases hc : c = quote
      · subst hc
        have hstep : feed ⟨.quoted, field, fields, records⟩ [quote, quote] =
            some ⟨.quoted, field ++ [quote], fields, records⟩ := rfl
        rw [if_pos rfl, hstep, Option.bind_some]
        have hrest := feed_doubled t (field ++ [quote]) fields records
        rw [replaceAll] at hrest
        rw [hrest, List.append_assoc]
        rfl
      · have hstep : feed ⟨.quoted, field, fields, records⟩ [c] =
            some ⟨.quoted, field ++ [c], fields, records⟩ := by
          rw [feed_cons]
          simp only [step, if_neg hc]
          rfl
        rw [if_neg hc, hstep, Option.bind_some]
        have hrest := feed_doubled t (field ++ [c]) fields records
        rw [replaceAll] at hrest
        rw [hrest, List.append_assoc]
        rfl

theorem step_delimited {s : State} (h : s.mode.ends = true) {c : CodeUnit} {s' : State}
    (hc : c ≠ quote) (hd : s.delimited c = some s') : s.step c = some s' := by
  obtain ⟨mode, field, fields, records⟩ := s
  cases mode with
  | quoted => cases h
  | returned => cases h
  | start => simp only [step, if_neg hc, hd, Option.getD_some]
  | plain => simp only [step, if_neg hc, hd, Option.getD_some]
  | closing => simp only [step, if_neg hc, hd]

/-- A carriage return in an unquoted field, not in front of a line feed. -/
theorem feed_stray {t u : Text} {c : CodeUnit} (ht : ∀ d ∈ t, ordinary d = true) (hc : c ≠ newline)
    (fields : List Text) (records : List (List Text)) :
    feed ⟨.start, [], fields, records⟩ (t ++ carriageReturn :: c :: u) = none := by
  have hend : ∀ mode field, mode = .start ∨ mode = .plain →
      feed ⟨mode, field, fields, records⟩ (carriageReturn :: c :: u) = none := by
    intro mode field hmode
    have hstep : step ⟨mode, field, fields, records⟩ carriageReturn =
        some ⟨.returned, field, fields, records⟩ := by
      rcases hmode with rfl | rfl <;> rfl
    have hstop : step ⟨.returned, field, fields, records⟩ c = none := by
      simp only [step, if_neg hc]
    rw [feed_cons, hstep, Option.bind_some, feed_cons, hstop, Option.bind_none]
  cases t with
  | nil => exact hend .start [] (Or.inl rfl)
  | cons d t =>
      rw [List.forall_mem_cons] at ht
      rw [List.cons_append, feed_cons, step_ordinary (Or.inl rfl) ht.1, Option.bind_some,
        feed_append]
      simp only [push]
      rw [feed_plain _ fields records ht.2, Option.bind_some]
      exact hend .plain _ (Or.inr rfl)

end State

open State

/-- Ordinary units stand for themselves. -/
theorem reads_plain {t : Text} (h : ∀ c ∈ t, ordinary c = true) : Reads t t := by
  intro fields records
  cases t with
  | nil => exact ⟨.start, rfl, rfl⟩
  | cons c t =>
      rw [List.forall_mem_cons] at h
      refine ⟨.plain, rfl, ?_⟩
      rw [feed_cons, step_ordinary (Or.inl rfl) h.1]
      exact feed_plain [c] fields records h.2

/-- Any text between quotes, its own quotes doubled. -/
theorem reads_quoted (t : Text) :
    Reads (quote :: (replaceAll quote [quote, quote] t ++ [quote])) t := by
  intro fields records
  refine ⟨.closing, rfl, ?_⟩
  have hopen : State.step ⟨.start, [], fields, records⟩ quote =
      some ⟨.quoted, [], fields, records⟩ := rfl
  rw [feed_cons, hopen, Option.bind_some, feed_append, feed_doubled, List.nil_append]
  rfl

/-- Fields behind the first one, each after its comma, and the end of the record. -/
theorem feed_fields : ∀ {ws ts : List Text}, List.Forall₂ Reads ws ts →
    ∀ {mode : Mode} (field : Text) (fields : List Text) (records : List (List Text)),
      mode.ends = true →
      feed ⟨mode, field, fields, records⟩ (ws.flatMap (fun w => [comma] ++ w) ++ [newline]) =
        some ⟨.start, [], [], records ++ [fields ++ field :: ts]⟩
  | [], _, .nil, mode, field, fields, records, hm => by
      have hend : delimited ⟨mode, field, fields, records⟩ newline =
          some (endRecord ⟨mode, field, fields, records⟩) := rfl
      rw [List.flatMap_nil, List.nil_append, feed_cons,
        step_delimited hm (by decide) hend, Option.bind_some]
      rfl
  | w :: ws, t :: ts, .cons hw hws, mode, field, fields, records, hm => by
      have hend : delimited ⟨mode, field, fields, records⟩ comma =
          some (endField ⟨mode, field, fields, records⟩) := rfl
      obtain ⟨mode', hm', hfeed⟩ := hw (fields ++ [field]) records
      rw [List.flatMap_cons, List.append_assoc, List.append_assoc, List.singleton_append,
        feed_cons, step_delimited hm (by decide) hend, Option.bind_some, feed_append]
      simp only [endField]
      rw [hfeed, Option.bind_some, feed_fields hws t (fields ++ [field]) records hm',
        List.append_assoc]
      rfl

/-- One record. -/
theorem feed_record {ws ts : List Text} (h : List.Forall₂ Reads ws ts) (hne : ws ≠ [])
    (records : List (List Text)) :
    feed ⟨.start, [], [], records⟩ (join [comma] ws ++ [newline]) =
      some ⟨.start, [], [], records ++ [ts]⟩ := by
  cases h with
  | nil => exact absurd rfl hne
  | cons hw hws =>
      obtain ⟨mode, hm, hfeed⟩ := hw [] records
      rw [join, List.append_assoc, feed_append, hfeed, Option.bind_some,
        feed_fields hws _ [] records hm, List.nil_append]

theorem feed_records {wss tss : List (List Text)}
    (h : List.Forall₂ (List.Forall₂ Reads) wss tss) :
    (∀ ws ∈ wss, ws ≠ []) → ∀ records : List (List Text),
      feed ⟨.start, [], [], records⟩ (terminated (wss.map (join [comma]))) =
        some ⟨.start, [], [], records ++ tss⟩ := by
  induction h with
  | nil =>
      intro _ records
      rw [List.append_nil]
      rfl
  | @cons ws ts wss tss hws _ ih =>
      intro hne records
      rw [List.forall_mem_cons] at hne
      rw [List.map_cons, terminated_cons, feed_append, feed_record hws hne.1, Option.bind_some,
        ih hne.2, List.append_assoc]
      rfl

/-- The reader finds the records of a document whose every field it reads. -/
theorem read_document {wss tss : List (List Text)} (h : List.Forall₂ (List.Forall₂ Reads) wss tss)
    (hne : ∀ ws ∈ wss, ws ≠ []) : read (terminated (wss.map (join [comma]))) = some tss := by
  have hfeed := feed_records h hne []
  unfold read
  rw [show State.empty = ⟨.start, [], [], []⟩ from rfl, hfeed]
  rfl

end Rfc4180

/-! ### Tab-separated values -/

namespace Tabbed

/-- The text of a missing value. -/
def missing : Text := [backslash, 78]

/-- The text with its escapes undone; none when a backslash starts no escape. -/
def unescape : Text → Option Text
  | [] => some []
  | [c] => if c = backslash then none else some [c]
  | c :: d :: t =>
      if c = backslash then
        if d = backslash then (unescape t).map (backslash :: ·)
        else if d = 116 then (unescape t).map (tab :: ·)
        else if d = 110 then (unescape t).map (newline :: ·)
        else if d = 114 then (unescape t).map (carriageReturn :: ·)
        else none
      else (unescape (d :: t)).map (c :: ·)

/-- A unit behind its backslash, when it has one. -/
def escapeUnit (c : CodeUnit) : Text :=
  if c = backslash then [backslash, backslash]
  else if c = tab then [backslash, 116]
  else if c = newline then [backslash, 110]
  else if c = carriageReturn then [backslash, 114]
  else [c]

def escape (t : Text) : Text :=
  t.flatMap escapeUnit

/-- What a field holds: a text, or none for the missing value. -/
def readField (t : Text) : Option (Option Text) :=
  if t = missing then some none else (unescape t).map some

/-- The lines of a document whose last line has its line break. -/
def lines (t : Text) : List Text :=
  (t.splitOn newline).dropLast

def fields (line : Text) : List Text :=
  line.splitOn tab

/-- The records of a document. -/
def read (t : Text) : Option (List (List (Option Text))) :=
  (lines t).mapM fun line => (fields line).mapM readField

/-- `w` is one field of one line. -/
def Plain (w : Text) : Prop :=
  tab ∉ w ∧ newline ∉ w

/-- `w` is a field that holds `o`. -/
def Reads (w : Text) (o : Option Text) : Prop :=
  Plain w ∧ readField w = some o

theorem unescape_cons {c : CodeUnit} (h : c ≠ backslash) (t : Text) :
    unescape (c :: t) = (unescape t).map (c :: ·) := by
  cases t with
  | nil => simp only [unescape, if_neg h, Option.map_some]
  | cons d t => rw [unescape, if_neg h]

theorem unescape_escapeUnit (c : CodeUnit) (t : Text) :
    unescape (escapeUnit c ++ t) = (unescape t).map (c :: ·) := by
  unfold escapeUnit
  split
  · next h => rw [h]; rfl
  · next h =>
      split
      · next ht => rw [ht]; rfl
      · split
        · next hn => rw [hn]; rfl
        · split
          · next hr => rw [hr]; rfl
          · exact unescape_cons h t

theorem unescape_escape (t : Text) : unescape (escape t) = some t := by
  induction t with
  | nil => rfl
  | cons c t ih =>
      rw [escape, List.flatMap_cons, unescape_escapeUnit, ← escape, ih]
      rfl

/-- No text is written as the missing value. -/
theorem escape_ne_missing (t : Text) : escape t ≠ missing := by
  intro h
  have hread := unescape_escape t
  rw [h] at hread
  exact Option.some_ne_none t hread.symm

theorem plain_escape (t : Text) : Plain (escape t) := by
  have hunit : ∀ c, Plain (escapeUnit c) := by
    intro c
    unfold Plain escapeUnit
    split
    · decide
    · split
      · decide
      · next ht =>
          split
          · decide
          · next hn =>
              split
              · decide
              · rw [List.mem_singleton, List.mem_singleton]
                exact ⟨fun h => ht h.symm, fun h => hn h.symm⟩
  unfold Plain escape
  rw [List.mem_flatMap, List.mem_flatMap]
  exact ⟨fun ⟨c, _, hc⟩ => (hunit c).1 hc, fun ⟨c, _, hc⟩ => (hunit c).2 hc⟩

theorem reads_escape (t : Text) : Reads (escape t) (some t) := by
  refine ⟨plain_escape t, ?_⟩
  rw [readField, if_neg (escape_ne_missing t), unescape_escape]
  rfl

theorem reads_missing : Reads missing none := by
  unfold Reads Plain
  decide

/-! ### Lines and fields -/

theorem terminated_eq_intercalate (records : List Text) :
    terminated records = [newline].intercalate (records ++ [[]]) := by
  induction records with
  | nil => rfl
  | cons r records ih =>
      rw [terminated_cons, ih]
      cases records with
      | nil => simp
      | cons u records => simp [List.intercalate_cons_cons]

/-- Records without a line feed are the lines of their document. -/
theorem lines_terminated {records : List Text} (h : ∀ r ∈ records, newline ∉ r) :
    lines (terminated records) = records := by
  unfold lines
  rw [terminated_eq_intercalate, List.splitOn_intercalate]
  · exact List.dropLast_concat
  · intro r hr
    rcases List.mem_append.mp hr with hr | hr
    · exact h r hr
    · rw [List.mem_singleton.mp hr]
      exact List.not_mem_nil
  · simp

/-- Texts without a tab are the fields of their line. -/
theorem fields_join {ts : List Text} (h : ∀ t ∈ ts, tab ∉ t) (hne : ts ≠ []) :
    fields (join [tab] ts) = ts := by
  unfold fields
  rw [join_eq_intercalate, List.splitOn_intercalate tab h hne]

theorem newline_not_mem_join {ws : List Text} (h : ∀ w ∈ ws, Plain w) :
    newline ∉ join [tab] ws := by
  cases ws with
  | nil => exact List.not_mem_nil
  | cons w ws =>
      rw [List.forall_mem_cons] at h
      rw [join, List.mem_append, List.mem_flatMap]
      rintro (hmem | ⟨u, hu, hmem⟩)
      · exact h.1.2 hmem
      · rcases List.mem_append.mp hmem with htab | hu'
        · exact absurd (List.mem_singleton.mp htab) (by decide)
        · exact (h.2 u hu).2 hu'

theorem mapM_of_forall₂ {α β : Type} {f : α → Option β} {xs : List α} {ys : List β}
    (h : List.Forall₂ (fun x y => f x = some y) xs ys) : xs.mapM f = some ys := by
  induction h with
  | nil => rfl
  | cons hx _ ih =>
      rw [List.mapM_cons, hx, ih]
      rfl

/-- The reader finds the records of a document whose every field it reads. -/
theorem read_document {wss : List (List Text)} {oss : List (List (Option Text))}
    (h : List.Forall₂ (List.Forall₂ Reads) wss oss) (hne : ∀ ws ∈ wss, ws ≠ []) :
    read (terminated (wss.map (join [tab]))) = some oss := by
  have hparts := (List.forall₂_and_left wss oss).mp
    (h.imp fun ws os hws => (List.forall₂_and_left ws os).mp hws)
  have hlines : lines (terminated (wss.map (join [tab]))) = wss.map (join [tab]) := by
    apply lines_terminated
    intro r hr
    obtain ⟨ws, hws, rfl⟩ := List.mem_map.mp hr
    exact newline_not_mem_join (hparts.1 ws hws)
  unfold read
  rw [hlines]
  apply mapM_of_forall₂
  rw [List.forall₂_map_left_iff]
  have hfields := (List.forall₂_and_left wss oss).mpr
    ⟨fun ws hws => And.intro (hparts.1 ws hws) (hne ws hws), hparts.2⟩
  refine hfields.imp fun ws os hws => ?_
  rw [fields_join (fun w hw => (hws.1.1 w hw).1) hws.1.2]
  exact mapM_of_forall₂ hws.2

end Tabbed

end WireTools
