import WireTools.QueryExecution
import WireTools.Runs

/-! # Query runs of the terminal

One run at a time is current: a new run aborts the one before it and takes its place, and a run
that ends is stored when it is still current.

* `Results`: the status, the query and the outcome of the last run, and the server window;
* `Service.step`: a call of `run`, `fetchPage`, `retry`, `cancel` or `useProfile`, a change of the
  window, or a run that settles.  An execution resolves with an outcome or rejects; the history file
  is read back before an outcome is looked at, and that may fail;
* `Consistent` relates the status, the current run and the stored outcome; `runs_consistent` proves
  it of every run in which no current execution rejects, and the history is read back when one
  resolves. -/

namespace WireTools.QueryService

inductive QueryRunStatus where
  | idle
  | running
  | succeeded
  | failed
  deriving DecidableEq

structure Results where
  status : QueryRunStatus
  /-- The query of the last run. -/
  query : Text
  execution : Option QueryExecution
  /-- The page size, the page and the mode. -/
  pager : QueryPager
  /-- An explicit window, which goes before the pager's. -/
  window : Option PageWindow
  deriving DecidableEq

namespace Results

def init : Results := ⟨.idle, [], none, .default, none⟩

variable (r : Results)

def requestWindow : PageWindow :=
  r.window.getD r.pager.window

def canRetry : Bool :=
  r.status = .failed && (r.execution.bind (·.failure)).any (·.isRetryable)

/-- The pages of the last success, one when they are not known. -/
def pageCount : ℕ :=
  match r.execution.bind (·.success) with
  | none => 1
  | some page =>
      if r.pager.mode = .all || r.window.isSome then 1
      else QueryPager.pageCount page.totalRows r.pager.pageSize

def runStarted (query : Text) : Results :=
  { r with status := .running, query := query }

def runFinished (e : QueryExecution) : Results :=
  { r with execution := some e, status := if e.success.isSome then .succeeded else .failed }

def pageSelected (page : ℤ) : Results :=
  { r with pager := r.pager.select page }

/-- The size behind the current one, all rows behind the last, the first behind these. -/
def nextPageSize : QueryPager :=
  let choices := QueryPager.pageSizeChoices
  if r.pager.mode = .all then ⟨.paged, 25, 1, by decide, Nat.one_pos⟩
  else if r.pager.pageSize = 1000 then ⟨.all, r.pager.pageSize, 1, r.pager.pageSize_pos, Nat.one_pos⟩
  else
    let next := (choices[choices.idxOf r.pager.pageSize + 1]?).getD 25
    if h : 0 < next then ⟨.paged, next, 1, h, Nat.one_pos⟩ else r.pager

def pageSizeCycled : Results :=
  { r with pager := r.nextPageSize, window := none }

def windowSet (window : Option PageWindow) : Results :=
  { r with window := window }

end Results

/-- A run whose execution has not settled. -/
structure Run where
  number : ℕ
  query : Text
  window : PageWindow
  aborted : Bool
  deriving DecidableEq

structure Service where
  results : Results
  /-- The run whose controller is held. -/
  controller : Option ℕ
  started : ℕ
  pending : List Run
  /-- The runs that another one has replaced before they settled. -/
  superseded : List ℕ
  /-- The outcomes of the runs that have resolved. -/
  history : List (ℕ × QueryExecution)

inductive Event where
  | run (query : Text)
  | fetchPage (page : ℤ)
  | retry
  | cancel
  | useProfile
  | pageSizeCycled
  | windowSet (window : Option PageWindow)
  | resolve (run : ℕ) (requestId : Text) (outcome : ExecutionOutcome) (historyRead : Bool)
  | reject (run : ℕ)

namespace Service

def init : Service := ⟨.init, none, 0, [], [], []⟩

variable (s : Service)

/-- A run is in flight. -/
def busy : Bool :=
  s.controller.isSome

def cancel : Service :=
  { s with pending := s.pending.map fun run =>
      if s.controller = some run.number then { run with aborted := true } else run }

/-- A new run takes the place of the current one. -/
def execute (query : Text) : Service :=
  { s.cancel with
    results := s.results.runStarted query
    controller := some s.started
    started := s.started + 1
    pending := s.cancel.pending ++ [⟨s.started, query, s.results.requestWindow, false⟩]
    superseded := s.superseded ++ s.controller.toList }

/-- The text between the white space at its ends. -/
def trim (t : Text) : Text :=
  (((t.dropWhile isSpace).reverse).dropWhile isSpace).reverse

def run (query : Text) : Service :=
  if trim query = [] then s
  else { s with results := s.results.pageSelected 1 }.execute (trim query)

/-- The index inside the list, or at its nearer end. -/
def clampIndex (index : ℤ) (count : ℕ) : ℤ :=
  min (max 0 index) (max 0 (count - 1))

def fetchPage (page : ℤ) : Service :=
  if s.results.query = [] then s
  else { s with results :=
      s.results.pageSelected (clampIndex (page - 1) s.results.pageCount + 1) }.execute s.results.query

def retry : Service :=
  if s.results.canRetry then s.execute s.results.query else s

def waiting (run : ℕ) : Option Run :=
  s.pending.find? fun r => r.number = run

def withdraw (run : ℕ) : Service :=
  { s with pending := s.pending.filter fun r => r.number ≠ run }

/-- The handler of a run's failure gives up the controller and stores nothing. -/
def caught (run : ℕ) : Service :=
  if s.controller = some run then { s with controller := none } else s

/-- Every outcome is recorded, and that of the current run is stored.  When the history cannot be
read back, `recordHistory` throws first. -/
def finish (run : ℕ) (e : QueryExecution) (historyRead : Bool) : Service :=
  let recorded := { s.withdraw run with history := s.history ++ [(run, e)] }
  if historyRead = false then recorded.caught run
  else if s.controller = some run then
    { recorded with controller := none, results := s.results.runFinished e }
  else recorded

/-- An execution rejects. -/
def reject (run : ℕ) : Service :=
  (s.withdraw run).caught run

def step : Event → Option Service
  | .run query => some (s.run query)
  | .fetchPage page => some (s.fetchPage page)
  | .retry => some s.retry
  | .cancel => some s.cancel
  | .useProfile => some s.cancel
  | .pageSizeCycled => some { s with results := s.results.pageSizeCycled }
  | .windowSet window => some { s with results := s.results.windowSet window }
  | .resolve number requestId outcome historyRead =>
      (s.waiting number).map fun r => s.finish number ⟨requestId, r.query, outcome⟩ historyRead
  | .reject number => (s.waiting number).map fun _ => s.reject number

/-- What the views rely on.  The stored outcome is of no superseded run; while nothing runs no run
is in flight and the outcome of the last one started is stored, with its query; and while the
status is running a run is in flight. -/
structure Consistent : Prop where
  stored : ∀ e, s.results.execution = some e → ∃ n, (n, e) ∈ s.history ∧ n ∉ s.superseded
  quiet : s.results.status ≠ .running → s.busy = false ∧
    (∀ r ∈ s.pending, r.number ∈ s.superseded) ∧
    (s.started ≠ 0 → ∃ n e, n + 1 = s.started ∧ (n, e) ∈ s.history ∧
      s.results.execution = some e ∧ e.query = s.results.query)
  running : s.results.status = .running → ∃ r ∈ s.pending, s.controller = some r.number

/-- The execution of the current run does not reject, and the history is read back when it
resolves. -/
def Answered : Event → Prop
  | .reject n => s.controller ≠ some n
  | .resolve n _ _ historyRead => historyRead = false → s.controller ≠ some n
  | _ => True

/-- What every step keeps, beside `Consistent`: the current run is the last one started, and the
stored outcome is that of a run which is neither superseded nor current. -/
structure Inv : Prop where
  started : ∀ r ∈ s.pending, r.number < s.started
  replaced : ∀ n ∈ s.superseded, n + 1 < s.started
  current : ∀ n, s.controller = some n → n + 1 = s.started ∧
    (∃ r ∈ s.pending, r.number = n) ∧ ∀ r ∈ s.pending, r.number = n → r.query = s.results.query
  others : ∀ r ∈ s.pending, s.controller = some r.number ∨ r.number ∈ s.superseded
  busy : s.results.status = .running ↔ s.controller ≠ none
  stored : ∀ e, s.results.execution = some e → ∃ n, (n, e) ∈ s.history ∧ n ∉ s.superseded ∧
    s.controller ≠ some n ∧ n < s.started
  last : s.controller = none → s.started ≠ 0 → ∃ n e, n + 1 = s.started ∧ (n, e) ∈ s.history ∧
    s.results.execution = some e ∧ e.query = s.results.query

theorem inv_init : Inv init where
  started r hr := absurd hr List.not_mem_nil
  replaced n hn := absurd hn List.not_mem_nil
  current n hn := by cases hn
  others r hr := absurd hr List.not_mem_nil
  busy := by decide
  stored e he := by cases he
  last _ h := absurd rfl h

namespace Inv

variable {s}

theorem consistent (h : Inv s) : Consistent s where
  stored e he := by
    obtain ⟨n, hmem, hsuper, _⟩ := h.stored e he
    exact ⟨n, hmem, hsuper⟩
  quiet hstatus := by
    have hnone : s.controller = none := by
      by_contra hsome
      exact hstatus (h.busy.mpr hsome)
    refine ⟨?_, fun r hr => ?_, h.last hnone⟩
    · rw [Service.busy, hnone]
      rfl
    · rcases h.others r hr with hcurrent | hsuper
      · rw [hnone] at hcurrent
        cases hcurrent
      · exact hsuper
  running hstatus := by
    obtain ⟨n, hn⟩ := Option.ne_none_iff_exists'.mp (h.busy.mp hstatus)
    obtain ⟨r, hr, hnumber⟩ := (h.current n hn).2.1
    exact ⟨r, hr, by rw [hnumber, hn]⟩

/-- A step that changes nothing of the results but the window keeps the invariant. -/
theorem window (h : Inv s) {r : Results} (hstatus : r.status = s.results.status)
    (hquery : r.query = s.results.query) (hexecution : r.execution = s.results.execution) :
    Inv { s with results := r } where
  started := h.started
  replaced := h.replaced
  others := h.others
  current n hn := by
    rw [hquery]
    exact h.current n hn
  busy := by
    rw [hstatus]
    exact h.busy
  stored e he := h.stored e (by rw [← hexecution]; exact he)
  last hnone hstarted := by
    rw [hquery, hexecution]
    exact h.last hnone hstarted

theorem mem_cancel {r : Run} (hr : r ∈ s.cancel.pending) :
    ∃ r' ∈ s.pending, r.number = r'.number ∧ r.query = r'.query := by
  obtain ⟨r', hr', rfl⟩ := List.mem_map.mp hr
  refine ⟨r', hr', ?_⟩
  split
  · exact ⟨rfl, rfl⟩
  · exact ⟨rfl, rfl⟩

theorem cancel (h : Inv s) : Inv s.cancel where
  replaced := h.replaced
  busy := h.busy
  stored := h.stored
  last := h.last
  started r hr := by
    obtain ⟨r', hr', hnumber, _⟩ := mem_cancel hr
    rw [hnumber]
    exact h.started r' hr'
  others r hr := by
    obtain ⟨r', hr', hnumber, _⟩ := mem_cancel hr
    rw [hnumber]
    exact h.others r' hr'
  current n hn := by
    obtain ⟨hlast, ⟨r, hr, hnumber⟩, hquery⟩ := h.current n hn
    refine ⟨hlast, ⟨_, List.mem_map_of_mem hr, ?_⟩, fun r hr hrn => ?_⟩
    · split <;> exact hnumber
    · obtain ⟨r', hr', hnumber', hquery'⟩ := mem_cancel hr
      rw [hquery']
      exact hquery r' hr' (hnumber' ▸ hrn)

/-- The new run is current; the one it replaces is superseded. -/
theorem execute (h : Inv s) (query : Text) : Inv (s.execute query) where
  started r hr := by
    rcases List.mem_append.mp hr with hr | hr
    · exact Nat.lt_succ_of_lt (h.cancel.started r hr)
    · rw [List.mem_singleton.mp hr]
      exact Nat.lt_succ_self s.started
  replaced n hn := by
    rcases List.mem_append.mp hn with hn | hn
    · exact Nat.lt_succ_of_lt (h.replaced n hn)
    · have hlast := (h.current n (Option.mem_toList.mp hn)).1
      change n + 1 < s.started + 1
      omega
  current n hn := by
    obtain rfl : s.started = n := Option.some.inj hn
    refine ⟨rfl, ⟨_, List.mem_append_right _ (List.mem_singleton_self _), rfl⟩, fun r hr hnumber => ?_⟩
    rcases List.mem_append.mp hr with hr | hr
    · exact absurd hnumber (Nat.ne_of_lt (h.cancel.started r hr))
    · rw [List.mem_singleton.mp hr]
      rfl
  others r hr := by
    rcases List.mem_append.mp hr with hr | hr
    · refine Or.inr ?_
      rcases h.cancel.others r hr with hcurrent | hsuper
      · exact List.mem_append_right _ (Option.mem_toList.mpr hcurrent)
      · exact List.mem_append_left _ hsuper
    · rw [List.mem_singleton.mp hr]
      exact Or.inl rfl
  busy := ⟨fun _ => Option.some_ne_none _, fun _ => rfl⟩
  stored e he := by
    obtain ⟨n, hmem, hsuper, hcurrent, hbefore⟩ := h.stored e he
    refine ⟨n, hmem, ?_, ?_, Nat.lt_succ_of_lt hbefore⟩
    · intro hn
      rcases List.mem_append.mp hn with hn | hn
      · exact hsuper hn
      · exact hcurrent (Option.mem_toList.mp hn)
    · intro hn
      exact absurd (Option.some.inj hn) (Nat.ne_of_gt hbefore)
  last hnone := by cases hnone

theorem run (h : Inv s) (query : Text) : Inv (s.run query) := by
  unfold Service.run
  split
  · exact h
  · exact (h.window (r := s.results.pageSelected 1) rfl rfl rfl).execute _

theorem fetchPage (h : Inv s) (page : ℤ) : Inv (s.fetchPage page) := by
  unfold Service.fetchPage
  split
  · exact h
  · exact (h.window (r := s.results.pageSelected _) rfl rfl rfl).execute _

theorem retry (h : Inv s) : Inv s.retry := by
  unfold Service.retry
  split
  · exact h.execute _
  · exact h

theorem mem_withdraw {n : ℕ} {r : Run} : r ∈ (s.withdraw n).pending ↔ r ∈ s.pending ∧ r.number ≠ n := by
  rw [withdraw, List.mem_filter, decide_eq_true_eq]

/-- A superseded run that settles leaves the current one as it is. -/
theorem withdraw (h : Inv s) {n : ℕ} (hn : s.controller ≠ some n) : Inv (s.withdraw n) where
  started r hr := h.started r (mem_withdraw.mp hr).1
  replaced := h.replaced
  others r hr := h.others r (mem_withdraw.mp hr).1
  busy := h.busy
  stored := h.stored
  last := h.last
  current m hm := by
    obtain ⟨hlast, ⟨r, hr, hnumber⟩, hquery⟩ := h.current m hm
    refine ⟨hlast, ⟨r, mem_withdraw.mpr ⟨hr, ?_⟩, hnumber⟩, fun r hr => hquery r (mem_withdraw.mp hr).1⟩
    rintro rfl
    exact hn (hnumber ▸ hm)

/-- One more outcome on record changes nothing. -/
theorem record (h : Inv s) (entry : ℕ × QueryExecution) :
    Inv { s with history := s.history ++ [entry] } := by
  refine ⟨h.started, h.replaced, h.current, h.others, h.busy, ?_, ?_⟩
  · intro e he
    obtain ⟨n, hmem, hrest⟩ := h.stored e he
    exact ⟨n, List.mem_append_left _ hmem, hrest⟩
  · intro hnone hstarted
    obtain ⟨n, e, hlast, hmem, hrest⟩ := h.last hnone hstarted
    exact ⟨n, e, hlast, List.mem_append_left _ hmem, hrest⟩

/-- The outcome of the current run is stored and nothing runs; any other is only recorded. -/
theorem finish (h : Inv s) {n : ℕ} {r : Run} (hr : r ∈ s.pending) (hnumber : r.number = n)
    (requestId : Text) (outcome : ExecutionOutcome) {historyRead : Bool}
    (hread : historyRead = false → s.controller ≠ some n) :
    Inv (s.finish n ⟨requestId, r.query, outcome⟩ historyRead) := by
  unfold Service.finish
  dsimp only
  split
  · next hfalse =>
      have hother := hread hfalse
      rw [caught, if_neg (show ¬(s.withdraw n).controller = some n from hother)]
      exact (h.withdraw hother).record _
  · split
    · next hcurrent =>
        obtain ⟨hlast, _, hquery⟩ := h.current n hcurrent
        have hfresh : n ∉ s.superseded := fun hn => by
          have := h.replaced n hn
          omega
        have hrecorded : (n, (⟨requestId, r.query, outcome⟩ : QueryExecution)) ∈
            s.history ++ [(n, ⟨requestId, r.query, outcome⟩)] :=
          List.mem_append_right _ (List.mem_singleton_self _)
        refine ⟨fun r hr => h.started r (mem_withdraw.mp hr).1, h.replaced, nofun, ?_, ?_, ?_, ?_⟩
        · intro r' hr'
          obtain ⟨hr', hne⟩ := mem_withdraw.mp hr'
          rcases h.others r' hr' with hother | hsuper
          · exact absurd (Option.some.inj (hother.symm.trans hcurrent)) hne
          · exact Or.inr hsuper
        · refine ⟨fun hrunning => ?_, fun hne => absurd rfl hne⟩
          simp only [Results.runFinished] at hrunning
          split at hrunning <;> cases hrunning
        · intro e he
          cases he
          exact ⟨n, hrecorded, hfresh, nofun, by change n < s.started; omega⟩
        · intro _ _
          exact ⟨n, _, hlast, hrecorded, rfl, hquery r hr hnumber⟩
    · next hother => exact (h.withdraw hother).record _

theorem step (h : Inv s) {ev : Event} {s' : Service} (hstep : s.step ev = some s')
    (hanswered : s.Answered ev) : Inv s' := by
  cases ev with
  | run query =>
      cases hstep
      exact h.run query
  | fetchPage page =>
      cases hstep
      exact h.fetchPage page
  | retry =>
      cases hstep
      exact h.retry
  | cancel =>
      cases hstep
      exact h.cancel
  | useProfile =>
      cases hstep
      exact h.cancel
  | pageSizeCycled =>
      cases hstep
      exact h.window rfl rfl rfl
  | windowSet window =>
      cases hstep
      exact h.window rfl rfl rfl
  | resolve number requestId outcome historyRead =>
      obtain ⟨r, hr, rfl⟩ := Option.map_eq_some_iff.mp hstep
      have hnumber : r.number = number := by simpa using List.find?_some hr
      exact h.finish (List.mem_of_find?_eq_some hr) hnumber requestId outcome hanswered
  | reject number =>
      obtain ⟨r, hr, rfl⟩ := Option.map_eq_some_iff.mp hstep
      rw [Service.reject, caught, if_neg (show ¬(s.withdraw number).controller = some number from
        hanswered)]
      exact h.withdraw hanswered

end Inv

/-- The views can rely on every state of a run in which no current execution rejects and the history
is read back when one resolves. -/
theorem runs_consistent {events : List Event} {s : Service}
    (hrun : runs step init events = some s) (hanswered : Along step Answered init events) :
    s.Consistent :=
  (along_induction hrun hanswered inv_init fun _ _ _ hC hstep h => h.step hstep hC).consistent

/-- A run replaces one that then rejects, and a third one both; the second resolves without the
history, the third with it. -/
def sampleEvents : List Event :=
  [.run (text "SELECT 1"), .run (text "SELECT 2"), .reject 0, .run (text "SELECT 3"),
    .resolve 1 (text "q") (.success ⟨2, text "a"⟩) false,
    .resolve 2 (text "r") (.success ⟨3, text "b"⟩) true, .fetchPage 1]

theorem runs_consistent_replaced :
    ∃ s, runs step init sampleEvents = some s ∧ s.Consistent := by
  obtain ⟨s, hrun⟩ : ∃ s, runs step init sampleEvents = some s := ⟨_, rfl⟩
  refine ⟨s, hrun, runs_consistent hrun ?_⟩
  refine ⟨trivial, trivial, ?_, trivial, ?_, nofun, trivial, trivial⟩
  · exact fun h => absurd (Option.some.inj h) (by decide)
  · exact fun _ h => absurd (Option.some.inj h) (by decide)

theorem Consistent.pending_of_running {s : Service} (h : s.Consistent)
    (hstatus : s.results.status = .running) : s.pending ≠ [] := by
  obtain ⟨r, hr, -⟩ := h.running hstatus
  exact List.ne_nil_of_mem hr

/-- The current execution rejects, or the history cannot be read back when it resolves: the status
stays running and no run is in flight. -/
theorem rejected_run_hangs :
    (∃ s, runs step init [.run (text "SELECT 1"), .reject 0] = some s ∧
      s.results.status = .running ∧ s.busy = false ∧ ¬s.Consistent) ∧
    ∃ s, runs step init [.run (text "SELECT 1"),
        .resolve 0 (text "r") (.success ⟨1, text "a"⟩) false] = some s ∧
      s.results.status = .running ∧ s.busy = false ∧ ¬s.Consistent :=
  ⟨⟨_, rfl, rfl, rfl, fun h => h.pending_of_running rfl rfl⟩,
    ⟨_, rfl, rfl, rfl, fun h => h.pending_of_running rfl rfl⟩⟩

end Service

end WireTools.QueryService
