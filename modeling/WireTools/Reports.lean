import WireTools.PlainValues

/-! # Reports

The narrative of a run: a tree of groups and phases, with the steps that the phases executed.

* `Report.Node` and what is read off a node: its phases, its number of steps, whether it has a
  problem; `Report.title` is the heading of a report;
* `Report.Visit`: a step with the names of all that is around it.  `visits` has every step, in
  depth-first order. -/

namespace WireTools

namespace Report

/-- The outcome in the title. -/
inductive Verdict where
  | success
  | failed
  | interrupted

def Verdict.text : Verdict → Text
  | success => WireTools.text "SUCCESS"
  | failed => WireTools.text "FAILED"
  | interrupted => WireTools.text "INTERRUPTED"

/-- Who performed a step. -/
inductive Actor where
  | sysio
  | producer
  | batchOperator
  | underwriter
  | user
  | ethereumOutpost
  | solanaOutpost
  deriving DecidableEq

def Actor.text : Actor → Text
  | sysio => WireTools.text "Sysio"
  | producer => WireTools.text "Producer"
  | batchOperator => WireTools.text "BatchOperator"
  | underwriter => WireTools.text "Underwriter"
  | user => WireTools.text "User"
  | ethereumOutpost => WireTools.text "EthereumOutpost"
  | solanaOutpost => WireTools.text "SolanaOutpost"

inductive StepStatus where
  | ok
  | failed
  | skipped
  deriving DecidableEq

def StepStatus.text : StepStatus → Text
  | ok => WireTools.text "ok"
  | failed => WireTools.text "failed"
  | skipped => WireTools.text "skipped"

structure ErrorDetail where
  message : Text
  stack : Option Text
  processOutput : Option Text
  input : Value

structure StepResult where
  name : Text
  description : Text
  actor : Actor
  status : StepStatus
  startedAt : Text
  durationMs : ℤ
  /-- Null where the step has none. -/
  input : Value
  defined : input ≠ .undefined
  /-- The members of what the step recorded. -/
  extra : Option (List (Text × Value))
  error : Option ErrorDetail

structure Phase where
  name : Text
  description : Text
  steps : List StepResult
  succeeded : Bool
  durationMs : ℤ

inductive Node where
  | group (name description : Text) (children : List Node) (succeeded : Bool) (durationMs : ℤ)
  | phase (phase : Phase)

end Report

structure Report where
  name : Option Text
  interrupted : Bool
  nodes : List Report.Node

namespace Report

/-- The steps that never ran. -/
def Phase.skippedCount (phase : Phase) : ℕ :=
  (phase.steps.filter fun step => step.status = .skipped).length

namespace Node

def succeeded : Node → Bool
  | group _ _ _ succeeded _ => succeeded
  | phase p => p.succeeded

def durationMs : Node → ℤ
  | group _ _ _ _ durationMs => durationMs
  | phase p => p.durationMs

mutual

def phases : Node → List Phase
  | group _ _ children _ _ => phasesOfAll children
  | phase p => [p]

def phasesOfAll : List Node → List Phase
  | [] => []
  | node :: nodes => phases node ++ phasesOfAll nodes

end

def stepCount (node : Node) : ℕ :=
  (phases node).foldl (fun total phase => total + phase.steps.length) 0

def skippedCount (node : Node) : ℕ :=
  (phases node).foldl (fun total phase => total + phase.skippedCount) 0

/-- A failure or a skip, here or below. -/
def hasProblem (node : Node) : Bool :=
  !node.succeeded || decide (0 < skippedCount node)

end Node

def phases (report : Report) : List Phase :=
  Node.phasesOfAll report.nodes

def succeeded (report : Report) : Bool :=
  report.nodes.all Node.succeeded

def DefaultName : Text := text "cluster-build"

def title (report : Report) : Text :=
  let verdict : Verdict :=
    if report.interrupted then .interrupted
    else if report.succeeded then .success
    else .failed
  report.name.getD DefaultName ++ (text ": " ++ verdict.text)

/-! ### The steps of a report -/

/-- A step, the name of its phase, and the names of the groups around it. -/
structure Visit where
  path : List Text
  phase : Text
  step : StepResult

namespace Node

mutual

def visits (path : List Text) : Node → List Visit
  | group name _ children _ _ => visitsOfAll (path ++ [name]) children
  | phase p => p.steps.map fun step => ⟨path, p.name, step⟩

def visitsOfAll (path : List Text) : List Node → List Visit
  | [] => []
  | node :: nodes => visits path node ++ visitsOfAll path nodes

end

end Node

def visits (report : Report) : List Visit :=
  Node.visitsOfAll [] report.nodes

end Report

end WireTools
