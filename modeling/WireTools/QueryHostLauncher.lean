import Mathlib.Algebra.Group.Nat.Defs
import Mathlib.Data.Int.Notation
import WireTools.QueryHost

/-! # The query-host launcher

The main process's owner of the one query host: an explicit state machine that forks hosts,
hands every window one end of a channel and the host the other, and restarts a host that exits.

* `Moment` is what an input meets outside the launcher: the clock, whether a fork throws, and
  which windows are destroyed;
* everything the launcher does to a host, a window or a port is appended to `effects`, in order;
* `step` is one input.  Events of a child that is not the current one are inputs too. -/

namespace WireTools.QueryPort

/-! ### States and inputs -/

inductive QueryHostState where
  | idle
  | spawning
  | ready
  | backoff
  | failed
  | disposed
  deriving DecidableEq

/-- An effect of the launcher on the outside. -/
inductive Effect where
  | forked (child : ChildId)
  | killed (child : ChildId)
  | posted (child : ChildId) (message : HostControl)
  | queryPort (windowId : WindowId) (port : ChannelId)
  | queryHostExited (windowId : WindowId)
  | queryHostFailed (windowId : WindowId)
  | closedPort1 (port : ChannelId)
  | closedPort2 (port : ChannelId)
  deriving DecidableEq

structure Moment where
  now : ℤ
  forkThrows : Bool
  destroyed : WindowId → Bool

inductive Input where
  | start
  | portRequested (windowId : WindowId)
  | windowClosed (windowId : WindowId)
  | restartRequested
  | dispose
  | spawned (child : ChildId)
  | exited (child : ChildId)
  | error (child : ChildId)
  | backoffElapsed
  deriving DecidableEq

structure QueryHostLauncher where
  currentState : QueryHostState
  child : Option ChildId
  /-- The delay of the pending respawn. -/
  backoffTimer : Option ℕ
  queue : List HostControl
  attached : List WindowId
  windows : List WindowId
  waiting : List WindowId
  /-- Exit times inside the sliding restart window. -/
  exits : List ℤ
  /-- The number of channels made so far. -/
  channels : ℕ
  /-- The number of hosts forked so far. -/
  forks : ℕ
  effects : List Effect
  /-- Every exit since the last restart. -/
  history : List ℤ
  deriving DecidableEq

namespace QueryHostLauncher

def BackoffBaseMs : ℕ := 500

def BackoffMaxMs : ℕ := 8000

def MaxRestarts : ℕ := 5

def RestartIntervalMs : ℤ := 60000

def backoffDelayMs (exitCount : ℕ) : ℕ :=
  min (BackoffBaseMs * 2 ^ (exitCount - 1)) BackoffMaxMs

def initial : QueryHostLauncher where
  currentState := .idle
  child := none
  backoffTimer := none
  queue := []
  attached := []
  windows := []
  waiting := []
  exits := []
  channels := 0
  forks := 0
  effects := []
  history := []

/-- A set in order of insertion. -/
def insert (w : WindowId) (ws : List WindowId) : List WindowId :=
  if w ∈ ws then ws else ws ++ [w]

def delete (w : WindowId) (ws : List WindowId) : List WindowId :=
  ws.filter fun v => v ≠ w

variable (m : Moment) (l : QueryHostLauncher)

def perform (effects : List Effect) : QueryHostLauncher :=
  { l with effects := l.effects ++ effects }

/-- Post to the current child; there is one wherever this is called. -/
def postControl (message : HostControl) : QueryHostLauncher :=
  l.perform (l.child.toList.map fun c => .posted c message)

def closePorts (messages : List HostControl) : List Effect :=
  (messages.filterMap HostControl.port).map .closedPort1

def clearQueue : QueryHostLauncher :=
  { l with queue := [] }.perform (closePorts l.queue)

def isAttachOf (w : WindowId) (message : HostControl) : Bool :=
  message.port.isSome && message.windowId == w

def dropQueuedAttach (w : WindowId) : QueryHostLauncher :=
  { l with queue := l.queue.eraseP (isAttachOf w) }.perform
    (closePorts (l.queue.find? (isAttachOf w)).toList)

def enqueueAttach (w : WindowId) (port : ChannelId) : QueryHostLauncher :=
  let l := l.dropQueuedAttach w
  { l with queue := l.queue ++ [.attach w port] }

def sendPort (w : WindowId) (port : ChannelId) : QueryHostLauncher :=
  l.perform [if m.destroyed w then .closedPort2 port else .queryPort w port]

def sendToWindow (message : WindowId → Effect) (w : WindowId) : QueryHostLauncher :=
  l.perform (if m.destroyed w then [] else [message w])

/-- The exits inside the sliding window, with this one. -/
def countedExits : List ℤ :=
  l.exits.filter (fun at_ => m.now - at_ < RestartIntervalMs) ++ [m.now]

def liveWindows : List WindowId :=
  l.windows.filter fun w => !m.destroyed w

/-- The window waits for a restart, and hears that the host failed. -/
def failWindow (w : WindowId) : QueryHostLauncher :=
  { l with waiting := insert w l.waiting }.sendToWindow m .queryHostFailed w

/-- The current host is gone: count the exit, then back off or enter `failed`. -/
def hostExited : QueryHostLauncher :=
  let exits := countedExits m l
  let gone := { l with exits := exits, history := l.history ++ [m.now] }.clearQueue
  if MaxRestarts < exits.length then
    (liveWindows m l).foldl (fun l w => l.failWindow m w)
      { gone with currentState := .failed, attached := [] }
  else
    let told := (liveWindows m l).foldl (fun l w => l.sendToWindow m .queryHostExited w)
      { gone with currentState := .backoff, attached := [] }
    { told with backoffTimer := some (backoffDelayMs exits.length) }

def fork : QueryHostLauncher :=
  let l := { l with currentState := .spawning }
  if m.forkThrows then { l with child := none }.hostExited m
  else { l with child := some l.forks, forks := l.forks + 1 }.perform [.forked l.forks]

/-- `start` throws unless the launcher is idle. -/
def start : QueryHostLauncher :=
  if l.currentState = .idle then l.fork m else l

/-- A port for a window while the host runs. -/
def attachNow (w : WindowId) : QueryHostLauncher :=
  let port := l.channels
  let l := { l with windows := insert w l.windows, channels := l.channels + 1 }
  let l := if w ∈ l.attached then l.postControl (.detach w) else l
  let l := l.postControl (.attach w port)
  { l with attached := insert w l.attached }.sendPort m w port

/-- A port for a window while there is no host to attach it to. -/
def attachLater (w : WindowId) : QueryHostLauncher :=
  let port := l.channels
  let l := { l with windows := insert w l.windows, channels := l.channels + 1 }
  (l.enqueueAttach w port).sendPort m w port

/-- A request while the launcher has given up. -/
def refuse (w : WindowId) : QueryHostLauncher :=
  { l with windows := insert w l.windows }.failWindow m w

def portRequested (w : WindowId) : QueryHostLauncher :=
  match l.currentState with
  | .disposed => l
  | .failed => l.refuse m w
  | .ready => l.attachNow m w
  | .idle | .spawning | .backoff => l.attachLater m w

/-- The port of a window that closes. -/
def dropPort (w : WindowId) : QueryHostLauncher :=
  match l.currentState with
  | .disposed => l
  | .ready => if w ∈ l.attached then l.postControl (.detach w) else l
  | .idle | .spawning | .backoff => l.dropQueuedAttach w
  | .failed => l

def windowClosed (w : WindowId) : QueryHostLauncher :=
  let l := l.dropPort w
  { l with
    attached := delete w l.attached
    windows := delete w l.windows
    waiting := delete w l.waiting }

def restartRequested : QueryHostLauncher :=
  if l.currentState = .failed then
    let waiting := l.waiting
    let l := { l with exits := [], history := [], waiting := [] }.fork m
    (waiting.filter fun w => decide (w ∈ l.windows) && !m.destroyed w).foldl
      (fun l w => l.portRequested m w) l
  else l

def dispose : QueryHostLauncher :=
  if l.currentState = .disposed then l
  else
    let child := l.child
    let l := { l with currentState := .disposed, backoffTimer := none }.clearQueue
    { l with child := none }.perform (child.toList.map .killed)

/-- One message of the queue goes to the host. -/
def flush (message : HostControl) : QueryHostLauncher :=
  let l := l.postControl message
  if message.port.isSome then { l with attached := insert message.windowId l.attached } else l

/-- The child spawned: post the queue in order. -/
def onSpawned (c : ChildId) : QueryHostLauncher :=
  if l.child = some c ∧ l.currentState = .spawning then
    l.queue.foldl flush { l with currentState := .ready, queue := [] }
  else l

/-- An exit or an error of a child. -/
def onExited (c : ChildId) : QueryHostLauncher :=
  if l.child = some c ∧ l.currentState ≠ .disposed then { l with child := none }.hostExited m
  else l

/-- The timer fires, if one is pending. -/
def onBackoffElapsed : QueryHostLauncher :=
  if l.backoffTimer.isSome then
    let l := { l with backoffTimer := none }
    if l.currentState = .backoff then l.fork m else l
  else l

/-- One input at one moment. -/
def step : Input → QueryHostLauncher
  | .start => l.start m
  | .portRequested w => l.portRequested m w
  | .windowClosed w => l.windowClosed w
  | .restartRequested => l.restartRequested m
  | .dispose => l.dispose
  | .spawned c => l.onSpawned c
  | .exited c => l.onExited m c
  | .error c => l.onExited m c
  | .backoffElapsed => l.onBackoffElapsed m

end QueryHostLauncher

end WireTools.QueryPort
