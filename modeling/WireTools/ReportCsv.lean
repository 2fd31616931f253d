import WireTools.DelimitedReaders
import WireTools.Reports

/-! # Reports as comma-separated values

One row for each step; the names of the groups around it are one field, and what the step recorded
is another.

* `renderNode` appends the rows of a node, depth first; `renderNode_eq` lists them;
* `escape` puts quotes around a field that has a quote, a comma or a line feed;
* `ReturnsEnclosed`: no field has a carriage return and none of the three;
* `render_reads_iff`: the document is read back to the header and a record for each step exactly
  then. -/

namespace WireTools.ReportCsvRenderer

open Report

def Header : Text := text "path,phase,step,actor,status,startedAt,durationMs,error,extra"

def PathSeparator : Text := text " / "

def isTrigger (c : CodeUnit) : Bool := c == 34 || c == 44 || c == 10

def escape (value : Text) : Text :=
  if value.any isTrigger then 34 :: (replaceAll 34 [34, 34] value ++ [34]) else value

/-- What the fields of a row say. -/
def fields (path : List Text) (phase : Text) (step : StepResult) : List Text :=
  [join PathSeparator path,
    phase,
    step.name,
    step.actor.text,
    step.status.text,
    step.startedAt,
    intText step.durationMs,
    match step.error with
    | some error => error.message
    | none => [],
    match step.extra with
    | some members => ((plainify (.object members)).stringify []).getD []
    | none => []]

def row (path : List Text) (phase : Text) (step : StepResult) : Text :=
  join (text ",") ((fields path phase step).map escape)

mutual

/-- The rows, and those of the node behind them. -/
def renderNode (path : List Text) (rows : List Text) : Node → List Text
  | .group name _ children _ _ => renderNodes (path ++ [name]) rows children
  | .phase p => p.steps.foldl (fun rows step => rows ++ [row path p.name step]) rows

def renderNodes (path : List Text) (rows : List Text) : List Node → List Text
  | [] => rows
  | node :: nodes => renderNodes path (renderNode path rows node) nodes

end

def render (report : Report) : Text :=
  join (text "\n") (renderNodes [] [Header] report.nodes) ++ text "\n"

/-! ### What the document says -/

/-- The names in the header. -/
def names : List Text :=
  [text "path", text "phase", text "step", text "actor", text "status", text "startedAt",
    text "durationMs", text "error", text "extra"]

/-- The record of a step. -/
def record (v : Visit) : List Text :=
  fields v.path v.phase v.step

def records (report : Report) : List (List Text) :=
  report.visits.map record

/-- The texts that a step puts into its row as they are. -/
def texts (v : Visit) : List Text :=
  [join PathSeparator v.path, v.phase, v.step.name, v.step.startedAt] ++
    (v.step.error.map ErrorDetail.message).toList

/-- A carriage return stands in quotes, if there is one. -/
def Enclosed (t : Text) : Prop :=
  carriageReturn ∈ t → t.any isTrigger = true

instance (t : Text) : Decidable (Enclosed t) :=
  inferInstanceAs (Decidable (_ → _))

def ReturnsEnclosed (report : Report) : Prop :=
  ∀ v ∈ report.visits, ∀ t ∈ texts v, Enclosed t

/-! ### The rows -/

mutual

theorem renderNode_eq : ∀ (node : Node) (path rows : List Text), renderNode path rows node =
    rows ++ (Node.visits path node).map fun v => row v.path v.phase v.step
  | .group name _ children _ _, path, rows => by
      rw [renderNode, Node.visits, renderNodes_eq children]
  | .phase p, path, rows => by
      rw [renderNode, Node.visits, List.map_map]
      induction p.steps generalizing rows with
      | nil => rw [List.map_nil, List.append_nil]; rfl
      | cons step steps ih =>
          rw [List.foldl_cons, ih, List.append_assoc]
          rfl

theorem renderNodes_eq : ∀ (nodes : List Node) (path rows : List Text),
    renderNodes path rows nodes =
      rows ++ (Node.visitsOfAll path nodes).map fun v => row v.path v.phase v.step
  | [], path, rows => by rw [renderNodes, Node.visitsOfAll, List.map_nil, List.append_nil]
  | node :: nodes, path, rows => by
      rw [renderNodes, Node.visitsOfAll, renderNode_eq node, renderNodes_eq nodes,
        List.map_append, List.append_assoc]

end

theorem join_terminated (r : Text) (rs : List Text) :
    join [newline] (r :: rs) ++ [newline] = terminated (r :: rs) := by
  induction rs generalizing r with
  | nil =>
      rw [join, List.flatMap_nil, List.append_nil, terminated_cons]
      exact (List.append_nil _).symm
  | cons u rs ih =>
      have hsplit := join_append_cons [newline] r u [] rs
      rw [List.cons_append, List.nil_append] at hsplit
      rw [hsplit, List.append_assoc, List.append_assoc, ih, terminated_cons r, join,
        List.flatMap_nil, List.append_nil, List.append_assoc]

/-- The row of a step. -/
def written (v : Visit) : Text :=
  join [Rfc4180.comma] ((record v).map escape)

/-- The document, row by row. -/
theorem render_eq (report : Report) : render report =
    terminated (join [Rfc4180.comma] names :: report.visits.map written) := by
  have hheader : Header = join [Rfc4180.comma] names := by decide
  rw [render, renderNodes_eq, List.singleton_append, hheader]
  exact join_terminated _ _

/-! ### The fields -/

theorem reads_escape {t : Text} (h : Enclosed t) : Rfc4180.Reads (escape t) t := by
  unfold escape
  split
  · exact Rfc4180.reads_quoted t
  · next hany =>
      refine Rfc4180.reads_plain fun c hc => ?_
      have htrigger : isTrigger c = false :=
        Bool.eq_false_iff.mpr fun hc' => hany (List.any_eq_true.mpr ⟨c, hc, hc'⟩)
      simp only [isTrigger, Bool.or_eq_false_iff, beq_eq_false_iff_ne] at htrigger
      have hreturn : c ≠ carriageReturn := by
        rintro rfl
        exact hany (h hc)
      simp only [Rfc4180.ordinary, Bool.and_eq_true, decide_eq_true_eq]
      exact ⟨⟨⟨htrigger.1.2, htrigger.1.1⟩, htrigger.2⟩, hreturn⟩

theorem reads_fields {ts : List Text} (h : ∀ t ∈ ts, Enclosed t) :
    List.Forall₂ Rfc4180.Reads (ts.map escape) ts := by
  rw [List.forall₂_map_left_iff, List.forall₂_same]
  exact fun t ht => reads_escape (h t ht)

/-- A field that is not enclosed, up to its first carriage return. -/
theorem escape_of_not_enclosed {t : Text} (h : ¬ Enclosed t) : ∃ before behind : Text,
    escape t = before ++ carriageReturn :: behind ∧
    (∀ c ∈ before, Rfc4180.ordinary c = true) ∧ newline ∉ behind := by
  rw [Enclosed, Classical.not_imp, Bool.not_eq_true] at h
  obtain ⟨hmem, hany⟩ := h
  obtain ⟨before, behind, rfl, hfirst⟩ := List.eq_append_cons_of_mem hmem
  have hplain : ∀ c ∈ before ++ carriageReturn :: behind, isTrigger c = false := by
    intro c hc
    rw [List.any_eq_false] at hany
    exact Bool.eq_false_iff.mpr (hany c hc)
  refine ⟨before, behind, ?_, fun c hc => ?_, fun hline => ?_⟩
  · rw [escape, hany]
    rfl
  · have htrigger := hplain c (List.mem_append_left _ hc)
    simp only [isTrigger, Bool.or_eq_false_iff, beq_eq_false_iff_ne] at htrigger
    simp only [Rfc4180.ordinary, Bool.and_eq_true, decide_eq_true_eq]
    refine ⟨⟨⟨htrigger.1.2, htrigger.1.1⟩, htrigger.2⟩, ?_⟩
    rintro rfl
    exact hfirst hc
  · exact absurd (hplain newline (List.mem_append_right _ (List.mem_cons_of_mem _ hline)))
      (by decide)

theorem enclosed_of_not_mem {t : Text} (h : carriageReturn ∉ t) : Enclosed t :=
  fun hmem => absurd hmem h

theorem enclosed_intText (n : ℤ) : Enclosed (intText n) := by
  have hdigits : ∀ m : ℕ, carriageReturn ∉ natText m := fun m hmem =>
    absurd (Json.natText_isDigit m _ hmem) (by decide)
  apply enclosed_of_not_mem
  cases n with
  | ofNat m => exact hdigits m
  | negSucc m =>
      rw [intText, List.mem_cons, not_or]
      exact ⟨by decide, hdigits _⟩

theorem quote_mem_printMembers {gap indent : Text} {members : List (Text × Plain)} {t : Text}
    (h : t ∈ Plain.printMembers gap indent members) : 34 ∈ t := by
  induction members with
  | nil =>
      rw [Plain.printMembers] at h
      cases h
  | cons m members ih =>
      obtain ⟨name, v⟩ := m
      rw [Plain.printMembers] at h
      cases hprint : Plain.print gap indent v with
      | none =>
          rw [hprint] at h
          exact ih h
      | some u =>
          rw [hprint] at h
          rcases List.mem_cons.mp h with rfl | h
          · exact List.mem_append_left _ List.mem_cons_self
          · exact ih h

/-- The JSON text of an object is empty braces, or it has quotes. -/
theorem enclosed_stringify (members : List (Text × Plain)) :
    Enclosed (((Plain.object members).stringify []).getD []) := by
  rw [Plain.stringify, Plain.print, Option.getD_some, Plain.bracket]
  cases hparts : Plain.printMembers [] ([] ++ []) members with
  | nil => exact enclosed_of_not_mem (by decide)
  | cons t parts =>
      rw [if_neg (List.cons_ne_nil _ _), if_pos rfl]
      refine fun _ => List.any_eq_true.mpr ⟨34, ?_, rfl⟩
      have hmem : 34 ∈ t := quote_mem_printMembers (hparts ▸ List.mem_cons_self)
      exact List.mem_cons_of_mem _ (List.mem_append_left _ (List.mem_append_left _ hmem))

/-- The fields of a row but the last one, which is JSON. -/
def leading (v : Visit) : List Text :=
  (record v).dropLast

/-- The texts of a step decide whether the fields of its row are enclosed. -/
theorem leading_enclosed_iff (v : Visit) :
    (∀ t ∈ leading v, Enclosed t) ↔ ∀ t ∈ texts v, Enclosed t := by
  have hactor : Enclosed v.step.actor.text := by
    cases v.step.actor <;> exact enclosed_of_not_mem (by decide)
  have hstatus : Enclosed v.step.status.text := by
    cases v.step.status <;> exact enclosed_of_not_mem (by decide)
  have hduration := enclosed_intText v.step.durationMs
  have hempty : Enclosed [] := enclosed_of_not_mem List.not_mem_nil
  unfold leading record fields texts
  cases v.step.error with
  | none => simp [hactor, hstatus, hduration, hempty]
  | some error => simp [hactor, hstatus, hduration]

theorem exists_fields (v : Visit) :
    ∃ last, record v = leading v ++ [last] ∧ Enclosed last := by
  cases hextra : v.step.extra with
  | none => exact ⟨[], by simp [record, fields, leading, hextra], enclosed_of_not_mem List.not_mem_nil⟩
  | some members =>
      refine ⟨_, by simp only [record, fields, leading, hextra]; rfl, ?_⟩
      exact enclosed_stringify (plainifyMembers members)

theorem record_enclosed {v : Visit} (h : ∀ t ∈ leading v, Enclosed t) :
    ∀ t ∈ record v, Enclosed t := by
  obtain ⟨last, hfields, hlast⟩ := exists_fields v
  intro t ht
  rw [hfields, List.mem_append, List.mem_singleton] at ht
  rcases ht with ht | rfl
  · exact h t ht
  · exact hlast

theorem record_ne_nil (v : Visit) : (record v).map escape ≠ [] := by
  rw [record, fields]
  exact List.cons_ne_nil _ _

/-! ### Reading the document -/

/-- A field that is not enclosed stops the reader, when another one follows. -/
theorem feed_not_enclosed {t : Text} (h : ¬ Enclosed t) (fields : List Text)
    (records : List (List Text)) (u : Text) :
    Rfc4180.State.feed ⟨.start, [], fields, records⟩ (escape t ++ Rfc4180.comma :: u) = none := by
  obtain ⟨before, behind, heq, hplain, hline⟩ := escape_of_not_enclosed h
  rw [heq, List.append_assoc, List.cons_append]
  cases behind with
  | nil => exact Rfc4180.State.feed_stray hplain (by decide) fields records
  | cons c behind =>
      rw [List.mem_cons, not_or] at hline
      exact Rfc4180.State.feed_stray hplain (Ne.symm hline.1) fields records

theorem feed_fields_none {ts : List Text} (h : ∃ t ∈ ts, ¬ Enclosed t) (fields : List Text)
    (records : List (List Text)) (u : Text) :
    Rfc4180.State.feed ⟨.start, [], fields, records⟩
      ((ts.map escape).flatMap (fun t => t ++ [Rfc4180.comma]) ++ u) = none := by
  induction ts generalizing fields with
  | nil =>
      obtain ⟨t, ht, _⟩ := h
      cases ht
  | cons t ts ih =>
      rw [List.map_cons, List.flatMap_cons, List.append_assoc, List.append_assoc,
        List.singleton_append]
      by_cases ht : Enclosed t
      · have hrest : ∃ t ∈ ts, ¬ Enclosed t := by
          obtain ⟨w, hw, hbad⟩ := h
          rcases List.mem_cons.mp hw with rfl | hw
          · exact absurd ht hbad
          · exact ⟨w, hw, hbad⟩
        obtain ⟨mode, hmode, hfeed⟩ := reads_escape ht fields records
        have hcomma : Rfc4180.State.step ⟨mode, t, fields, records⟩ Rfc4180.comma =
            some ⟨.start, [], fields ++ [t], records⟩ :=
          Rfc4180.State.step_delimited hmode (by decide) rfl
        rw [Rfc4180.State.feed_append, hfeed, Option.bind_some, Rfc4180.State.feed_cons, hcomma,
          Option.bind_some]
        exact ih hrest _
      · exact feed_not_enclosed ht fields records _

/-- One row with such a field, and the document has no records. -/
theorem feed_rows_none {vs : List Visit} (h : ∃ v ∈ vs, ∃ t ∈ leading v, ¬ Enclosed t)
    (read : List (List Text)) :
    Rfc4180.State.feed ⟨.start, [], [], read⟩ (terminated (vs.map written)) = none := by
  induction vs generalizing read with
  | nil =>
      obtain ⟨v, hv, _⟩ := h
      cases hv
  | cons v vs ih =>
      obtain ⟨last, hfields, hlast⟩ := exists_fields v
      rw [List.map_cons, terminated_cons, Rfc4180.State.feed_append]
      by_cases hv : ∀ t ∈ leading v, Enclosed t
      · have hrest : ∃ v ∈ vs, ∃ t ∈ leading v, ¬ Enclosed t := by
          obtain ⟨w, hw, t, ht, hbad⟩ := h
          rcases List.mem_cons.mp hw with rfl | hw
          · exact absurd (hv t ht) hbad
          · exact ⟨w, hw, t, ht, hbad⟩
        rw [written, Rfc4180.feed_record (reads_fields (record_enclosed hv)) (record_ne_nil v),
          Option.bind_some, ih hrest]
      · rw [written, hfields, List.map_append, List.map_singleton, join_concat, List.append_assoc,
          feed_fields_none (by simpa only [not_forall, exists_prop] using hv), Option.bind_none]

theorem reads_names : List.Forall₂ Rfc4180.Reads names names := by
  have hescape : names.map escape = names := by decide
  have hreads := reads_fields (show ∀ t ∈ names, Enclosed t by decide)
  rwa [hescape] at hreads

/-- The document is read back exactly when no carriage return stands outside of quotes. -/
theorem render_reads_iff (report : Report) :
    Rfc4180.read (render report) = some (names :: records report) ↔ ReturnsEnclosed report := by
  have hleading : ReturnsEnclosed report ↔ ∀ v ∈ report.visits, ∀ t ∈ leading v, Enclosed t :=
    forall₂_congr fun v _ => (leading_enclosed_iff v).symm
  rw [hleading, render_eq]
  constructor
  · intro h
    by_contra hbad
    have hrow : ∃ v ∈ report.visits, ∃ t ∈ leading v, ¬ Enclosed t := by
      simpa only [not_forall, exists_prop] using hbad
    have hheader := Rfc4180.feed_record reads_names (by decide) []
    rw [terminated_cons, Rfc4180.read, show Rfc4180.State.empty = ⟨.start, [], [], []⟩ from rfl,
      Rfc4180.State.feed_append, hheader, Option.bind_some, List.nil_append,
      feed_rows_none hrow [names], Option.bind_none] at h
    cases h
  · intro h
    have hrows : join [Rfc4180.comma] names :: report.visits.map written =
        (names :: report.visits.map fun v => (record v).map escape).map
          (join [Rfc4180.comma]) := by
      rw [List.map_cons, List.map_map]
      rfl
    rw [hrows]
    apply Rfc4180.read_document
    · refine .cons reads_names ?_
      rw [records, List.forall₂_map_left_iff, List.forall₂_map_right_iff, List.forall₂_same]
      exact fun v hv => reads_fields (record_enclosed (h v hv))
    · intro ws hws
      rcases List.mem_cons.mp hws with rfl | hws
      · decide
      · obtain ⟨v, _, rfl⟩ := List.mem_map.mp hws
        exact record_ne_nil v

end WireTools.ReportCsvRenderer
