import Mathlib.Data.List.Basic
import Mathlib.Data.Rat.Floor
import WireTools.Runs

/-! # The build engine

A build is a tree of phases and groups.  A phase runs steps, a group runs phases and groups,
each in sequence or in parallel under a concurrency bound.  Every phase and group has an abort
controller of its own, linked to its parent's while it runs.

* `Element` is what is registered, `Run` the state of a registered element: where it stands in
  its parent (`Life`), whether its controller is aborted, and its steps or children;
* `act` is one event at one node, `exec` one event of the tree, `run` a sequence of events.
  The order of the events is arbitrary, so a run is one interleaving of the steps' outcomes,
  the timers and the engine's own continuations;
* a parallel node may start any waiting child while there is room, which covers every order
  the mapping library takes its items in;
* a step that settles or fails does so in one event with the abort its handler signals, and so
  does a step whose timer goes off: the timer aborts the controller before it rejects, so a
  body that resolves on the abort wins the race and the step ends ok;
* the group above notices a returned child in an event of its own (`recordChild`). -/

namespace WireTools.ClusterBuild

/-! ### Registered elements -/

/-- A step's own ceiling in milliseconds, none when the phase's applies. -/
structure StepOptions where
  timeoutMs : Option ℚ

/-- How a node runs its children: in sequence or in parallel, with a bound on the children in
flight. -/
structure Schedule where
  parallel : Bool
  concurrency : Option ℕ
  deriving DecidableEq

/-- A registered phase or group. -/
inductive Element where
  | phase (schedule : Schedule) (timeoutMs : Option ℚ) (steps : List StepOptions)
  | group (schedule : Schedule) (children : List Element)

/-- A ceiling under the flow-wide timing scale, rounded as the source rounds. -/
def scaledTimeoutMs (scale : ℚ) (timeoutMs : Option ℚ) : Option ℤ :=
  timeoutMs.map fun t => ⌊t * scale + 1 / 2⌋

/-- Whether a step runs under a timer: its scaled ceiling is neither null nor 0. -/
def isTimed (scale : ℚ) (phase : Option ℚ) (step : StepOptions) : Bool :=
  match scaledTimeoutMs scale (step.timeoutMs.or phase) with
  | none => false
  | some ms => ms ≠ 0

/-! ### The state of a run -/

inductive StepState where
  | waiting
  | running (armed : Bool)
  | ok
  | failed
  | skipped
  deriving DecidableEq

namespace StepState

def isRunning : StepState → Bool
  | running _ => true
  | _ => false

/-- The step has its result. -/
def settled : StepState → Bool
  | ok => true
  | failed => true
  | skipped => true
  | _ => false

/-- The step's body was called. -/
def launched : StepState → Bool
  | running _ => true
  | ok => true
  | failed => true
  | _ => false

/-- The abort listener of a running step clears its timer. -/
def disarm : StepState → StepState
  | running _ => running false
  | s => s

end StepState

structure StepRun where
  timed : Bool
  state : StepState
  deriving DecidableEq

namespace StepRun

def set (s : StepRun) (state : StepState) : StepRun := { s with state := state }

def disarm (s : StepRun) : StepRun := s.set s.state.disarm

end StepRun

/-- Where a node stands in its parent: not begun, running, its report node returned, that node
recorded by the parent, or passed over. -/
inductive Life where
  | waiting
  | running
  | returned
  | recorded
  | omitted
  deriving DecidableEq

namespace Life

/-- The node never began. -/
def fresh : Life → Bool
  | waiting => true
  | omitted => true
  | _ => false

/-- The parent has done with the node. -/
def done : Life → Bool
  | recorded => true
  | omitted => true
  | _ => false

/-- The node is in flight. -/
def busy : Life → Bool
  | running => true
  | returned => true
  | _ => false

/-- The node has its report. -/
def reported : Life → Bool
  | returned => true
  | recorded => true
  | _ => false

end Life

inductive Run where
  | phase (schedule : Schedule) (life : Life) (aborted : Bool) (steps : List StepRun)
  | group (schedule : Schedule) (life : Life) (aborted : Bool) (children : List Run)

namespace Run

/-- Induction over a tree, with the hypothesis for every child. -/
@[elab_as_elim, induction_eliminator]
theorem tree_induction {motive : Run → Prop}
    (phase : ∀ o life aborted steps, motive (.phase o life aborted steps))
    (group : ∀ o life aborted children, (∀ c ∈ children, motive c) →
      motive (.group o life aborted children)) (r : Run) : motive r :=
  @Run.rec motive (fun children => ∀ c ∈ children, motive c)
    phase group (fun _ h => absurd h List.not_mem_nil)
    (fun _ _ hc hcs _ h => by
      rcases List.mem_cons.mp h with rfl | h
      · exact hc
      · exact hcs _ h) r

def life : Run → Life
  | phase _ life _ _ => life
  | group _ life _ _ => life

def aborted : Run → Bool
  | phase _ _ aborted _ => aborted
  | group _ _ aborted _ => aborted

def setLife (life : Life) : Run → Run
  | phase o _ aborted steps => phase o life aborted steps
  | group o _ aborted children => group o life aborted children

/-- The node begins under a signal that is, or is not, aborted already. -/
def begin (aborted : Bool) : Run → Run
  | phase o _ _ steps => phase o .running aborted steps
  | group o _ _ children => group o .running aborted children

end Run

mutual

/-- The state of an element before its parent begins it. -/
def start (scale : ℚ) : Element → Run
  | .phase schedule timeoutMs steps =>
      .phase schedule .waiting false
        (steps.map fun s => ⟨isTimed scale timeoutMs s, .waiting⟩)
  | .group schedule children => .group schedule .waiting false (startAll scale children)

def startAll (scale : ℚ) : List Element → List Run
  | [] => []
  | e :: es => start scale e :: startAll scale es

end

mutual

/-- A controller is aborted: the running nodes below are aborted with it, and the timers of
their running steps are cleared.  A node that does not run listens to nothing. -/
def abort : Run → Run
  | .phase o .running _ steps => .phase o .running true (steps.map StepRun.disarm)
  | .group o .running _ children => .group o .running true (abortAll children)
  | r => r

def abortAll : List Run → List Run
  | [] => []
  | r :: rs => abort r :: abortAll rs

end

/-! ### Reports -/

/-- A node of the report tree. -/
inductive ReportNode where
  | phase (steps : List StepState) (succeeded : Bool)
  | group (children : List ReportNode) (succeeded : Bool)

def ReportNode.succeeded : ReportNode → Bool
  | phase _ succeeded => succeeded
  | group _ succeeded => succeeded

/-- A phase's report: every step must be ok. -/
def buildPhase (steps : List StepState) : ReportNode :=
  .phase steps (steps.all fun s => s == .ok)

/-- A group's report: every child that was run must have succeeded. -/
def groupFrom (children : List ReportNode) : ReportNode :=
  .group children (children.all ReportNode.succeeded)

mutual

/-- The report node of an element that has returned. -/
def report : Run → ReportNode
  | .phase _ _ _ steps => buildPhase (steps.map StepRun.state)
  | .group _ _ _ children => groupFrom (reportAll children)

/-- The report nodes of the children that were run, in order. -/
def reportAll : List Run → List ReportNode
  | [] => []
  | r :: rs => if r.life = .omitted then reportAll rs else report r :: reportAll rs

end

/-- The verdict of a node's report. -/
def succeeded (r : Run) : Bool :=
  (report r).succeeded

/-! ### Events -/

/-- Whether one more child fits into the bound; the mapping library takes a bound below 1 for
none. -/
def Schedule.hasRoom (o : Schedule) (inFlight : ℕ) : Bool :=
  match o.concurrency with
  | none => true
  | some limit => limit == 0 || decide (inFlight < limit)

/-- Whether step `i` is the next to begin, or one of them. -/
def stepTurn (o : Schedule) (steps : List StepRun) (i : ℕ) : Bool :=
  (steps[i]?.map StepRun.state) == some .waiting &&
    if o.parallel then o.hasRoom (steps.countP fun s => s.state.isRunning)
    else (steps.take i).all fun s => s.state.settled

/-- Whether child `i` is the next to begin, or one of them. -/
def childTurn (o : Schedule) (children : List Run) (i : ℕ) : Bool :=
  (children[i]?.map Run.life) == some .waiting &&
    if o.parallel then o.hasRoom (children.countP fun c => c.life.busy)
    else (children.take i).all fun c => c.life.done

/-- What happens at one node. -/
inductive Action where
  | startStep (i : ℕ)
  | skipStep (i : ℕ)
  | settleStep (i : ℕ) (ok : Bool)
  | expireStep (i : ℕ) (ok : Bool)
  | startChild (i : ℕ)
  | omitChild (i : ℕ)
  | recordChild (i : ℕ)
  | finish
  deriving DecidableEq

/-- The result of a step's body, or of the race it loses. -/
def outcome (ok : Bool) : StepState :=
  if ok then .ok else .failed

/-- Step `i` of a phase ends with the phase's controller aborted. -/
def endStep (o : Schedule) (steps : List StepRun) (i : ℕ) (s : StepRun) (ok : Bool) : Run :=
  abort (.phase o .running false (steps.set i (s.set (outcome ok))))

/-- An action of a running phase. -/
def actPhase (o : Schedule) (aborted : Bool) (steps : List StepRun) : Action → Option Run
  | .startStep i => do
      let s ← steps[i]?
      if stepTurn o steps i && !aborted then
        some (.phase o .running aborted (steps.set i (s.set (.running s.timed))))
      else none
  | .skipStep i => do
      let s ← steps[i]?
      if stepTurn o steps i && aborted then
        some (.phase o .running aborted (steps.set i (s.set .skipped)))
      else none
  | .settleStep i ok => do
      let s ← steps[i]?
      if s.state.isRunning then
        if ok then some (.phase o .running aborted (steps.set i (s.set .ok)))
        else some (endStep o steps i s false)
      else none
  | .expireStep i ok => do
      let s ← steps[i]?
      if s.state = .running true then some (endStep o steps i s ok) else none
  | .finish =>
      if steps.all fun s => s.state.settled then some (.phase o .returned aborted steps) else none
  | _ => none

/-- An action of a running group. -/
def actGroup (o : Schedule) (aborted : Bool) (children : List Run) : Action → Option Run
  | .startChild i => do
      let c ← children[i]?
      if childTurn o children i && (o.parallel || !aborted) then
        some (.group o .running aborted (children.set i (c.begin aborted)))
      else none
  | .omitChild i => do
      let c ← children[i]?
      if childTurn o children i && !o.parallel && aborted then
        some (.group o .running aborted (children.set i (c.setLife .omitted)))
      else none
  | .recordChild i => do
      let c ← children[i]?
      if c.life = .returned then
        let children := children.set i (c.setLife .recorded)
        if succeeded c then some (.group o .running aborted children)
        else some (abort (.group o .running aborted children))
      else none
  | .finish =>
      if children.all fun c => c.life.done then some (.group o .returned aborted children)
      else none
  | _ => none

/-- An action at a node, which only a running node takes. -/
def act (a : Action) : Run → Option Run
  | .phase o .running aborted steps => actPhase o aborted steps a
  | .group o .running aborted children => actGroup o aborted children a
  | _ => none

/-- An action at the node that a path of child positions leads to. -/
def actAt : List ℕ → Action → Run → Option Run
  | [], a, r => act a r
  | i :: path, a, .group o life aborted children => do
      let c ← children[i]?
      let c ← actAt path a c
      some (.group o life aborted (children.set i c))
  | _ :: _, _, .phase _ _ _ _ => none

/-- An event of a run: an action at a node, or the abort of the signal the run was started
with. -/
inductive Event where
  | act (path : List ℕ) (a : Action)
  | abort
  deriving DecidableEq

def exec (r : Run) : Event → Option Run
  | .act path a => actAt path a r
  | .abort => some (ClusterBuild.abort r)

/-- A sequence of events. -/
abbrev run (r : Run) (events : List Event) : Option Run :=
  runs exec r events

/-- An element begun under a signal that is, or is not, aborted already. -/
def begun (scale : ℚ) (e : Element) (aborted : Bool) : Run :=
  (start scale e).begin aborted

/-- The root of a build: its top-level children in sequence, under a signal of its own. -/
def buildRoot (children : List Element) : Element :=
  .group ⟨false, none⟩ children

/-! ### Steps and nodes by path -/

/-- The node at a path. -/
def nodeAt : List ℕ → Run → Option Run
  | [], r => some r
  | i :: path, .group _ _ _ children => (children[i]?).bind (nodeAt path)
  | _ :: _, .phase _ _ _ _ => none

/-- The state of step `j` of the phase at a path. -/
def stateAt (path : List ℕ) (j : ℕ) (r : Run) : Option StepState :=
  match nodeAt path r with
  | some (.phase _ _ _ steps) => (steps[j]?).map StepRun.state
  | _ => none

mutual

/-- The node and every node below satisfy `P`. -/
def Everywhere (P : Run → Prop) : Run → Prop
  | .phase o life aborted steps => P (.phase o life aborted steps)
  | .group o life aborted children =>
      P (.group o life aborted children) ∧ EverywhereAll P children

def EverywhereAll (P : Run → Prop) : List Run → Prop
  | [] => True
  | r :: rs => Everywhere P r ∧ EverywhereAll P rs

end

/-- Every step under the node satisfies `p`. -/
def AllSteps (p : StepState → Prop) : Run → Prop :=
  Everywhere fun
    | .phase _ _ _ steps => ∀ s ∈ steps, p s.state
    | .group _ _ _ _ => True

/-- Every step under the node was executed and ended ok. -/
def AllOk : Run → Prop :=
  AllSteps fun s => s = .ok

/-- The path leads to a phase that registers a step `j`. -/
def registered : List ℕ → ℕ → Element → Bool
  | [], j, .phase _ _ steps => decide (j < steps.length)
  | i :: path, j, .group _ children =>
      match children[i]? with
      | some e => registered path j e
      | none => false
  | _, _, _ => false

end WireTools.ClusterBuild
