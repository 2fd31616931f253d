import WireTools.JsonPrint
import WireTools.QueryExecution
import WireTools.ResultView
import WireTools.Runs

/-! # Result tabs of the desktop

A run goes to the focused tab, or to a new one when that is pinned; a page request goes to a tab it
names.  Each sends one request for the window of its tab.

* `Results` and its reducers follow the slice; `Workbench` adds the requests sent and, as a log
  that no code reads, every answer with the request its tab was waiting for;
* `Workbench.step`: a run, a page request, a retry, an answer for any request in any order, or an
  action on the tabs.  Request ids are fresh when they are made;
* `result_tabs`: in every state reached, the tabs have different ids, the focus is on one of them,
  a pinned tab keeps its query, stored outcomes are those of current requests; and a retry of a
  failed tab repeats its request exactly when the tab has no window of its own, or the pager's. -/

namespace WireTools.ResultTabs

inductive ResultTabStatus where
  | idle
  | running
  | succeeded
  | failed
  deriving DecidableEq

inductive ResultPanelKind where
  | grid
  | form
  | json
  | fieldTypes
  | stats
  | state
  | messages
  deriving DecidableEq

structure ResultViewState where
  sorts : List ColumnSort
  filters : List ColumnFilter
  hiddenColumns : List Text
  deriving DecidableEq

def ResultViewState.empty : ResultViewState := ⟨[], [], []⟩

structure ResultTab where
  id : Text
  /-- The next run never replaces a pinned tab. -/
  pinned : Bool
  query : Text
  profileName : Text
  sourceEditorId : Text
  pager : QueryPager
  /-- The toolbar's window, which goes before the pager's. -/
  explicitWindow : Option PageWindow
  status : ResultTabStatus
  /-- The request in flight, or the last one sent. -/
  requestId : Text
  execution : Option QueryExecution
  /-- The block of the page shown before. -/
  previousBlockId : Option Text
  view : ResultViewState
  deriving DecidableEq

/-- The window that a tab requests next. -/
def windowOf (tab : ResultTab) : PageWindow :=
  tab.explicitWindow.getD tab.pager.window

def blockIdOf (execution : Option QueryExecution) : Option Text :=
  (execution.bind (·.success)).map (·.blockId)

structure RunStart where
  query : Text
  profileName : Text
  sourceEditorId : Text
  explicitWindow : Option PageWindow
  requestId : Text

structure PageRequest where
  resultId : Text
  requestId : Text
  pager : QueryPager

structure ExecutionFinish where
  resultId : Text
  requestId : Text
  execution : QueryExecution
  deriving DecidableEq

/-- The members that change. -/
structure ViewPatch where
  resultId : Text
  sorts : Option (List ColumnSort)
  filters : Option (List ColumnFilter)
  hiddenColumns : Option (List Text)

/-! ### Tab strips -/

def findTab (tabs : List ResultTab) (id : Text) : Option ResultTab :=
  tabs.find? fun tab => tab.id = id

/-- The tab with `id`, changed in its place. -/
def updateTab (id : Text) (f : ResultTab → ResultTab) : List ResultTab → List ResultTab
  | [] => []
  | tab :: tabs => if tab.id = id then f tab :: tabs else tab :: updateTab id f tabs

/-- The tab to focus when the one at `index` is gone: its successor, else the new last one. -/
def nextActive (tabs : List ResultTab) (index : ℕ) : Option Text :=
  tabs[min index (tabs.length - 1)]?.map (·.id)

structure Results where
  tabs : List ResultTab
  activeResultId : Option Text
  activePanel : ResultPanelKind
  nextResultNumber : ℕ

def resultId (number : ℕ) : Text :=
  text "result-" ++ natText number

def createTab (number : ℕ) (start : RunStart) : ResultTab where
  id := resultId number
  pinned := false
  query := start.query
  profileName := start.profileName
  sourceEditorId := start.sourceEditorId
  pager := .default
  explicitWindow := start.explicitWindow
  status := .running
  requestId := start.requestId
  execution := none
  previousBlockId := none
  view := .empty

namespace Results

def init : Results := ⟨[], none, .grid, 1⟩

variable (r : Results)

def update (id : Text) (f : ResultTab → ResultTab) : Results :=
  { r with tabs := updateTab id f r.tabs }

def activeTab : Option ResultTab :=
  r.activeResultId.bind (findTab r.tabs)

/-- A tab taken over by a run: page 1, the page size kept. -/
def restarted (start : RunStart) (tab : ResultTab) : ResultTab :=
  { tab with
    query := start.query
    profileName := start.profileName
    sourceEditorId := start.sourceEditorId
    explicitWindow := start.explicitWindow
    requestId := start.requestId
    status := .running
    previousBlockId := none
    pager := tab.pager.select 1
    view := .empty }

/-- A new tab, focused. -/
def opened (start : RunStart) : Results :=
  let tab := createTab r.nextResultNumber start
  { r with
    tabs := r.tabs ++ [tab]
    activeResultId := some tab.id
    nextResultNumber := r.nextResultNumber + 1 }

/-- A run takes the focused tab, or a new one when that is pinned or there is none. -/
def runStarted (start : RunStart) : Results :=
  match r.activeTab with
  | some active =>
      if active.pinned then r.opened start else r.update active.id (restarted start)
  | none => r.opened start

/-- A tab asked for another page; its own window is given up. -/
def paged (request : PageRequest) (tab : ResultTab) : ResultTab :=
  { tab with
    previousBlockId := blockIdOf tab.execution
    pager := request.pager
    explicitWindow := none
    requestId := request.requestId
    status := .running }

def pageRequested (request : PageRequest) : Results :=
  r.update request.resultId (paged request)

/-- An answer counts for the request that its tab is waiting for. -/
def answered (finish : ExecutionFinish) (tab : ResultTab) : ResultTab :=
  if tab.requestId = finish.requestId then
    { tab with
      execution := some finish.execution
      status := if finish.execution.success.isSome then .succeeded else .failed }
  else tab

def executionFinished (finish : ExecutionFinish) : Results :=
  r.update finish.resultId (answered finish)

def resultActivated (id : Text) : Results :=
  if (findTab r.tabs id).isSome then { r with activeResultId := some id } else r

def resultClosed (id : Text) : Results :=
  let index := r.tabs.findIdx fun tab => tab.id = id
  if index = r.tabs.length then r
  else
    let tabs := r.tabs.eraseIdx index
    { r with
      tabs
      activeResultId := if r.activeResultId = some id then nextActive tabs index
        else r.activeResultId }

def pinToggled (id : Text) : Results :=
  r.update id fun tab => { tab with pinned := !tab.pinned }

def panelSelected (panel : ResultPanelKind) : Results :=
  { r with activePanel := panel }

def viewPatched (patch : ViewPatch) : Results :=
  r.update patch.resultId fun tab => { tab with view :=
    ⟨patch.sorts.getD tab.view.sorts, patch.filters.getD tab.view.filters,
      patch.hiddenColumns.getD tab.view.hiddenColumns⟩ }

end Results

/-! ### Requests -/

structure Request where
  resultId : Text
  requestId : Text
  profileName : Text
  query : Text
  window : PageWindow
  mode : PageSizeMode
  deriving DecidableEq

/-- The request of a tab's current window. -/
def requestOf (tab : ResultTab) : Request :=
  ⟨tab.id, tab.requestId, tab.profileName, tab.query, windowOf tab, tab.pager.mode⟩

/-- An answer, with the request that its tab was waiting for when it came. -/
structure Answer where
  finish : ExecutionFinish
  current : Option Text

structure Workbench where
  results : Results
  /-- The names of the connection profiles. -/
  profiles : List Text
  sent : List Request
  answers : List Answer

inductive Event where
  | runQuery (start : RunStart)
  | requestPage (request : PageRequest)
  | fetchPage (requestId : Text) (pager : QueryPager)
  | retryQuery (requestId : Text)
  | executionFinished (finish : ExecutionFinish)
  | resultActivated (id : Text)
  | resultClosed (id : Text)
  | pinToggled (id : Text)
  | panelSelected (panel : ResultPanelKind)
  | viewPatched (patch : ViewPatch)
  | profilesChanged (profiles : List Text)

namespace Workbench

def init : Workbench := ⟨.init, [], [], []⟩

variable (s : Workbench)

/-- No request has the id yet. -/
def fresh (requestId : Text) : Bool :=
  s.sent.all fun r => r.requestId ≠ requestId

/-- Send the request of a tab's current window. -/
def executeResultWindow (resultId : Text) : Workbench :=
  match findTab s.results.tabs resultId with
  | some tab => { s with sent := s.sent ++ [requestOf tab] }
  | none => s

def runQuery (start : RunStart) : Workbench :=
  let started := { s with results := s.results.runStarted start }
  match started.results.activeResultId with
  | some id => started.executeResultWindow id
  | none => started

def requestPage (request : PageRequest) : Workbench :=
  { s with results := s.results.pageRequested request }.executeResultWindow request.resultId

/-- The focused tab's page, when the profile it ran against is still there. -/
def fetchPage (requestId : Text) (pager : QueryPager) : Workbench :=
  match s.results.activeTab with
  | some tab =>
      if tab.profileName ∈ s.profiles then s.requestPage ⟨tab.id, requestId, pager⟩ else s
  | none => s

def retryQuery (requestId : Text) : Workbench :=
  match s.results.activeTab with
  | some tab => s.fetchPage requestId tab.pager
  | none => s

def executionFinished (finish : ExecutionFinish) : Workbench :=
  { s with
    results := s.results.executionFinished finish
    answers := s.answers ++
      [⟨finish, (findTab s.results.tabs finish.resultId).map (·.requestId)⟩] }

def step : Event → Option Workbench
  | .runQuery start => if s.fresh start.requestId then some (s.runQuery start) else none
  | .requestPage request => if s.fresh request.requestId then some (s.requestPage request) else none
  | .fetchPage requestId pager => if s.fresh requestId then some (s.fetchPage requestId pager) else none
  | .retryQuery requestId => if s.fresh requestId then some (s.retryQuery requestId) else none
  | .executionFinished finish => some (s.executionFinished finish)
  | .resultActivated id => some { s with results := s.results.resultActivated id }
  | .resultClosed id => some { s with results := s.results.resultClosed id }
  | .pinToggled id => some { s with results := s.results.pinToggled id }
  | .panelSelected panel => some { s with results := s.results.panelSelected panel }
  | .viewPatched patch => some { s with results := s.results.viewPatched patch }
  | .profilesChanged profiles => some { s with profiles }

/-- The request that a retry of the tab sends has the query, the mode and the window of the tab's
last one. -/
def Resends (tab : ResultTab) (requestId : Text) : Prop :=
  ∃ last ∈ s.sent, last.requestId = tab.requestId ∧
    ∃ r ∈ (s.retryQuery requestId).sent, r.requestId = requestId ∧
      r.query = last.query ∧ r.mode = last.mode ∧ r.window = last.window

end Workbench

end WireTools.ResultTabs
