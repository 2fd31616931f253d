import Mathlib.Logic.Function.Basic
import WireTools.Text

/-! # The query host

One host process: the windows' ports that its control messages attach and detach, and the
requests it has in flight.

* An abort only changes what an answer says, and what it says is left open: a request is
  answered by the response of its kind or by `failed`;
* `attached` is the set of ports after a sequence of control messages. -/

namespace WireTools.QueryPort

/-- The id of a window's web contents. -/
abbrev WindowId := ℕ

/-- A message channel: port1 goes to a host, port2 to a window. -/
abbrev ChannelId := ℕ

/-- A forked host process. -/
abbrev ChildId := ℕ

abbrev RequestId := Text

/-! ### Messages -/

/-- The requests that are answered. -/
inductive RequestKind where
  | execute
  | describe
  | loadOwner
  | testConnection
  deriving DecidableEq

inductive QueryHostRequest where
  | ask (kind : RequestKind) (requestId : RequestId)
  | cancel (requestId : RequestId)
  deriving DecidableEq

inductive ResponseKind where
  | executed
  | described
  | catalog
  | connectionTested
  | failed
  deriving DecidableEq

structure QueryHostResponse where
  kind : ResponseKind
  requestId : RequestId
  deriving DecidableEq

/-- The kind of a response that is no failure. -/
def RequestKind.answered : RequestKind → ResponseKind
  | .execute => .executed
  | .describe => .described
  | .loadOwner => .catalog
  | .testConnection => .connectionTested

/-- A control message from main; `attach` carries the port1 of a channel. -/
inductive HostControl where
  | attach (windowId : WindowId) (port : ChannelId)
  | detach (windowId : WindowId)
  deriving DecidableEq

namespace HostControl

def windowId : HostControl → WindowId
  | attach w _ => w
  | detach w => w

def port : HostControl → Option ChannelId
  | attach _ p => some p
  | detach _ => none

end HostControl

/-! ### The host -/

/-- A request in flight, on the port it came from. -/
structure Task where
  port : ChannelId
  kind : RequestKind
  requestId : RequestId
  deriving DecidableEq

structure QueryHost where
  /-- The port of every attached window. -/
  ports : WindowId → Option ChannelId
  tasks : List Task
  /-- The ports that were detached. -/
  closed : List ChannelId

namespace QueryHost

def initial : QueryHost :=
  ⟨fun _ => none, [], []⟩

def attach (h : QueryHost) (w : WindowId) (port : ChannelId) : QueryHost :=
  { h with ports := Function.update h.ports w (some port) }

def detach (h : QueryHost) (w : WindowId) : QueryHost :=
  match h.ports w with
  | none => h
  | some port =>
      { h with ports := Function.update h.ports w none, closed := port :: h.closed }

def onControl (h : QueryHost) : HostControl → QueryHost
  | .attach w port => h.attach w port
  | .detach w => h.detach w

/-- A request arrives on a port; a cancel has nothing to answer. -/
def onRequest (h : QueryHost) (port : ChannelId) : QueryHostRequest → QueryHost
  | .ask kind requestId => { h with tasks := h.tasks ++ [⟨port, kind, requestId⟩] }
  | .cancel _ => h

/-- The answer to a request, its own or a failure. -/
def answer (task : Task) (fails : Bool) : QueryHostResponse :=
  ⟨if fails then .failed else task.kind.answered, task.requestId⟩

/-- The ports after a sequence of control messages. -/
def attached (controls : List HostControl) : WindowId → Option ChannelId :=
  (controls.foldl onControl initial).ports

@[simp] theorem attached_nil (w : WindowId) : attached [] w = none := rfl

theorem onControl_ports (h : QueryHost) (control : HostControl) (w : WindowId) :
    (h.onControl control).ports w = if w = control.windowId then control.port else h.ports w := by
  cases control with
  | attach v port => exact Function.update_apply _ _ _ _
  | detach v =>
      change (h.detach v).ports w = _
      unfold detach
      cases hv : h.ports v with
      | none =>
          change h.ports w = if w = v then none else h.ports w
          split_ifs with hw
          · rw [hw, hv]
          · rfl
      | some port => exact Function.update_apply _ _ _ _

theorem attached_append (controls : List HostControl) (control : HostControl) (w : WindowId) :
    attached (controls ++ [control]) w =
      if w = control.windowId then control.port else attached controls w := by
  rw [attached, List.foldl_append, List.foldl_cons, List.foldl_nil, onControl_ports]
  rfl

end QueryHost

end WireTools.QueryPort
