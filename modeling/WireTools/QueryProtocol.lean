import WireTools.Collections
import WireTools.LauncherPorts
import WireTools.QueryPortClient

/-! # The query-port protocol

One window's client, the launcher and every host it forks, with what is in flight between them.

* A channel is the log of what its sender sent and the number of messages its receiver has read:
  client to launcher, launcher to client and launcher to each host over IPC, and both directions
  of each port.  A message is read in its turn or not at all, so every order of the channels
  against each other is a run;
* other windows are inputs of the launcher;
* `Inv` is the invariant of the system, `Upholds` what the protocol promises, and
  `protocol_upholds` holds in every state of every run. -/

namespace WireTools.QueryPort

namespace QueryPortClient

/-- A message from main. -/
def onMain (c : QueryPortClient) : WindowMessage → QueryPortClient
  | .queryPort port => c.replacePort port
  | .queryHostExited => c.hostExited
  | .queryHostFailed => c.hostFailed

/-- What the client's effects ask of the launcher, on behalf of its window. -/
def toMain (w : WindowId) : ClientEffect → Option Input
  | .requestQueryPort => some (.portRequested w)
  | .restartQueryHost => some .restartRequested
  | _ => none

/-- The requests posted on a port, in order. -/
def requestsOn (p : ChannelId) (effects : List ClientEffect) : List QueryHostRequest :=
  effects.filterMap fun
    | .posted q request => if q = p then some request else none
    | _ => none

end QueryPortClient

/-- A response a host posted, with the request it answers. -/
structure Answer where
  task : Task
  response : QueryHostResponse
  deriving DecidableEq

structure System where
  client : QueryPortClient
  /-- The calls made so far. -/
  calls : List (RequestId × RequestKind)
  launcher : QueryHostLauncher
  hosts : ChildId → QueryHost
  /-- The hosts that no longer run. -/
  ended : List ChildId
  /-- The window has closed. -/
  closed : Bool
  answers : List Answer
  /-- The number of messages read from the client, from the launcher, and on every port. -/
  mainRead : ℕ
  windowRead : ℕ
  childRead : ChildId → ℕ
  hostRead : ChannelId → ℕ
  clientRead : ChannelId → ℕ

inductive Event where
  | call (requestId : RequestId) (kind : RequestKind)
  | cancel (requestId : RequestId)
  | restart
  | closeWindow
  /-- The launcher reads the client's next message. -/
  | mainMessage (m : Moment)
  /-- The client reads the launcher's next message. -/
  | windowMessage
  /-- The client reads the next response on its port. -/
  | response
  /-- Any other input of the launcher. -/
  | launcher (m : Moment) (input : Input)
  /-- A host reads its next control message. -/
  | control (c : ChildId)
  /-- A host reads the next request on the port it holds for a window. -/
  | request (c : ChildId) (w : WindowId)
  /-- A host answers one of its requests. -/
  | answer (c : ChildId) (i : ℕ) (fails : Bool)
  | hostEnds (c : ChildId)

namespace System

open QueryPortClient QueryHostLauncher

def initial : System where
  client := QueryPortClient.initial.start
  calls := []
  launcher := QueryHostLauncher.initial
  hosts := fun _ => QueryHost.initial
  ended := []
  closed := false
  answers := []
  mainRead := 0
  windowRead := 0
  childRead := fun _ => 0
  hostRead := fun _ => 0
  clientRead := fun _ => 0

def running (s : System) (c : ChildId) : Prop :=
  c < s.launcher.forks ∧ c ∉ s.ended

instance (s : System) (c : ChildId) : Decidable (s.running c) :=
  inferInstanceAs (Decidable (_ ∧ _))

/-- The responses posted on a port, in order. -/
def responsesOn (p : ChannelId) (answers : List Answer) : List QueryHostResponse :=
  (answers.filter fun a => a.task.port = p).map Answer.response

/-- The inputs that do not come from the client: its own window closes once the client is gone,
and a host exits once it has ended.  The app is not quit. -/
def inputAllowed (win : WindowId) (s : System) : Input → Bool
  | .start => true
  | .portRequested w => w ≠ win
  | .windowClosed w => w ≠ win || s.closed
  | .restartRequested => true
  | .dispose => false
  | .spawned _ => true
  | .exited c => c ∈ s.ended
  | .error _ => true
  | .backoffElapsed => true

/-- An open window is not destroyed. -/
def momentAllowed (win : WindowId) (s : System) (m : Moment) : Bool :=
  !m.destroyed win || s.closed

/-- One event. -/
def step (win : WindowId) (s : System) : Event → Option System
  | .call requestId kind =>
      if s.closed ∨ requestId ∈ s.calls.map Prod.fst then none
      else some { s with
        client := s.client.call requestId kind, calls := (requestId, kind) :: s.calls }
  | .cancel requestId =>
      if s.closed then none else some { s with client := s.client.cancel requestId }
  | .restart => if s.closed then none else some { s with client := s.client.restart }
  | .closeWindow => some { s with closed := true }
  | .mainMessage m =>
      if momentAllowed win s m then
        (s.client.effects.filterMap (toMain win))[s.mainRead]?.map fun input =>
          { s with launcher := s.launcher.step m input, mainRead := s.mainRead + 1 }
      else none
  | .windowMessage =>
      if s.closed then none
      else (windowMessages win s.launcher.effects)[s.windowRead]?.map fun message =>
        { s with client := s.client.onMain message, windowRead := s.windowRead + 1 }
  | .response =>
      if s.closed then none
      else s.client.port.bind fun p =>
        (responsesOn p s.answers)[s.clientRead p]?.map fun response =>
          { s with
            client := s.client.receive response
            clientRead := Function.update s.clientRead p (s.clientRead p + 1) }
  | .launcher m input =>
      if momentAllowed win s m ∧ inputAllowed win s input then
        some { s with launcher := s.launcher.step m input }
      else none
  | .control c =>
      if s.running c then
        (controlsOf c s.launcher.effects)[s.childRead c]?.map fun control =>
          { s with
            hosts := Function.update s.hosts c ((s.hosts c).onControl control)
            childRead := Function.update s.childRead c (s.childRead c + 1) }
      else none
  | .request c w =>
      if s.running c then
        ((s.hosts c).ports w).bind fun p =>
          (requestsOn p s.client.effects)[s.hostRead p]?.map fun request =>
            { s with
              hosts := Function.update s.hosts c ((s.hosts c).onRequest p request)
              hostRead := Function.update s.hostRead p (s.hostRead p + 1) }
      else none
  | .answer c i fails =>
      if s.running c then
        (s.hosts c).tasks[i]?.map fun task =>
          { s with
            hosts := Function.update s.hosts c
              { s.hosts c with tasks := (s.hosts c).tasks.eraseIdx i }
            answers := if task.port ∈ (s.hosts c).closed then s.answers
              else s.answers ++ [⟨task, QueryHost.answer task fails⟩] }
      else none
  | .hostEnds c => if s.running c then some { s with ended := c :: s.ended } else none

/-! ### The invariant -/

def postedBy (c : QueryPortClient) (task : Task) : Prop :=
  .posted task.port (.ask task.kind task.requestId) ∈ c.effects

/-- How a response settles a call. -/
def settling (response : QueryHostResponse) : Outcome :=
  if response.kind = .failed then .failed response else .resolved response

structure Inv (win : WindowId) (s : System) : Prop where
  client : QueryPortClient.Consistent s.calls s.client
  launcher : QueryHostLauncher.Consistent s.launcher
  served : s.closed = false → QueryHostLauncher.Served win s.launcher
  read : s.windowRead ≤ (windowMessages win s.launcher.effects).length
  port : s.client.port =
    portAfter ((windowMessages win s.launcher.effects).take s.windowRead)
  tasks : ∀ c, ∀ task ∈ (s.hosts c).tasks, postedBy s.client task
  answers : ∀ a ∈ s.answers, postedBy s.client a.task ∧
    ∃ fails, a.response = QueryHost.answer a.task fails
  settled : ∀ id outcome r, .settled id outcome ∈ s.client.effects →
    Outcome.response outcome = some r →
      ∃ a ∈ s.answers, a.response = r ∧ r.requestId = id ∧ outcome = settling r

variable {win : WindowId} {s s' : System}

theorem inv_initial : Inv win initial where
  client := consistent_start
  launcher := consistent_initial
  served _ := served_initial
  read := Nat.le_refl _
  port := rfl
  tasks _ _ h := by cases h
  answers _ h := by cases h
  settled id outcome r h := by cases List.mem_singleton.mp h

/-! ### The client moves -/

theorem postedBy_mono {c c' : QueryPortClient} {es : List ClientEffect}
    (h : c'.effects = c.effects ++ es) {task : Task} (hp : postedBy c task) : postedBy c' task := by
  rw [postedBy, h]
  exact List.mem_append_left _ hp

/-- What settles by a response among effects that report none. -/
theorem settled_nil {es : List ClientEffect} (h : responses es = []) {id : RequestId}
    {outcome : Outcome} {r : QueryHostResponse} (hmem : .settled id outcome ∈ es)
    (hr : Outcome.response outcome = some r) : False := by
  have hin : (id, r) ∈ responses es :=
    List.mem_filterMap.mpr ⟨_, hmem, by simp only [hr, Option.map_some]⟩
  rw [h] at hin
  cases hin

/-- The client does what no response made it do. -/
theorem Inv.grow (h : Inv win s) {calls : List (RequestId × RequestKind)} {c : QueryPortClient}
    (hclient : QueryPortClient.Consistent calls c) (hgrows : Grows s.client c) {windowRead : ℕ}
    (hread : windowRead ≤ (windowMessages win s.launcher.effects).length)
    (hport : c.port = portAfter ((windowMessages win s.launcher.effects).take windowRead)) :
    Inv win { s with client := c, calls := calls, windowRead := windowRead } := by
  obtain ⟨es, hes, hnil⟩ := hgrows
  exact
    { client := hclient
      launcher := h.launcher
      served := h.served
      read := hread
      port := hport
      tasks := fun d task htask => postedBy_mono hes (h.tasks d task htask)
      answers := fun a ha => (h.answers a ha).imp_left (postedBy_mono hes)
      settled := by
        intro id outcome r hmem hr
        rw [hes] at hmem
        rcases List.mem_append.mp hmem with hmem | hmem
        · exact h.settled id outcome r hmem hr
        · exact (settled_nil hnil hmem hr).elim }

theorem call_port (c : QueryPortClient) (requestId : RequestId) (kind : RequestKind) :
    (c.call requestId kind).port = c.port := by
  dsimp only [QueryPortClient.call]
  split_ifs
  · rfl
  · rfl
  · rfl

theorem cancel_port (c : QueryPortClient) (requestId : RequestId) :
    (c.cancel requestId).port = c.port := by
  unfold QueryPortClient.cancel
  cases c.find requestId with
  | none => rfl
  | some call =>
      simp only
      split_ifs
      · rfl
      · rfl
      · rfl

theorem receive_port (c : QueryPortClient) (response : QueryHostResponse) :
    (c.receive response).port = c.port := by
  unfold QueryPortClient.receive
  cases c.find response.requestId with
  | none => rfl
  | some call => rfl

theorem onMain_port (c : QueryPortClient) (message : WindowMessage) :
    (c.onMain message).port = message.port := by
  cases message with
  | queryPort port => rfl
  | queryHostExited => rfl
  | queryHostFailed => rfl

theorem consistent_onMain {calls : List (RequestId × RequestKind)} {c : QueryPortClient}
    (h : QueryPortClient.Consistent calls c) (message : WindowMessage) :
    QueryPortClient.Consistent calls (c.onMain message) := by
  cases message with
  | queryPort port => exact h.replacePort port
  | queryHostExited => exact h.hostExited
  | queryHostFailed => exact h.hostFailed

theorem grows_onMain (c : QueryPortClient) (message : WindowMessage) :
    Grows c (c.onMain message) := by
  cases message with
  | queryPort port => exact grows_replacePort port
  | queryHostExited => exact grows_hostExited
  | queryHostFailed => exact grows_hostFailed

theorem Inv.windowMessage (h : Inv win s) {message : WindowMessage}
    (hmessage : (windowMessages win s.launcher.effects)[s.windowRead]? = some message) :
    Inv win { s with client := s.client.onMain message, windowRead := s.windowRead + 1 } := by
  obtain ⟨hlt, hget⟩ := List.getElem?_eq_some_iff.mp hmessage
  refine h.grow (consistent_onMain h.client message) (grows_onMain _ message) hlt ?_
  rw [onMain_port, List.take_add_one, hmessage, Option.toList_some, portAfter_append]

/-- The client reads a response that a host has posted. -/
theorem Inv.response (h : Inv win s) {a : Answer} (ha : a ∈ s.answers)
    (clientRead : ChannelId → ℕ) :
    Inv win { s with client := s.client.receive a.response, clientRead := clientRead } := by
  have hclient := h.client.receive a.response
  have hport := receive_port s.client a.response
  have heffects : ∃ es, (s.client.receive a.response).effects = s.client.effects ++ es ∧
      ∀ id outcome, .settled id outcome ∈ es →
        id = a.response.requestId ∧ outcome = settling a.response := by
    unfold QueryPortClient.receive
    cases s.client.find a.response.requestId with
    | none => exact ⟨[], (List.append_nil _).symm, nofun⟩
    | some call =>
        refine ⟨_, rfl, fun id outcome hmem => ?_⟩
        cases List.mem_singleton.mp hmem
        exact ⟨rfl, rfl⟩
  obtain ⟨es, hes, hsettled⟩ := heffects
  exact
    { client := hclient
      launcher := h.launcher
      served := h.served
      read := h.read
      port := hport.trans h.port
      tasks := fun d task htask => postedBy_mono hes (h.tasks d task htask)
      answers := fun b hb => (h.answers b hb).imp_left (postedBy_mono hes)
      settled := by
        intro id outcome r hmem hr
        rw [hes] at hmem
        rcases List.mem_append.mp hmem with hmem | hmem
        · exact h.settled id outcome r hmem hr
        · obtain ⟨rfl, rfl⟩ := hsettled id outcome hmem
          have hsame : Outcome.response (settling a.response) = some a.response := by
            unfold settling
            split_ifs
            · rfl
            · rfl
          obtain rfl : a.response = r := Option.some.inj (hsame.symm.trans hr)
          exact ⟨a, ha, rfl, rfl, rfl⟩ }

/-! ### The launcher moves -/

theorem windowMessages_prefix {es fs : List Effect} (h : es <+: fs) :
    windowMessages win es <+: windowMessages win fs :=
  h.filterMap _

theorem Inv.launch (h : Inv win s) {m : Moment} (hm : momentAllowed win s m = true)
    {input : Input} (hdispose : input ≠ .dispose)
    (hclosed : input = .windowClosed win → s.closed = true) (mainRead : ℕ) :
    Inv win { s with launcher := s.launcher.step m input, mainRead := mainRead } := by
  have hgrows : windowMessages win s.launcher.effects <+:
      windowMessages win (s.launcher.step m input).effects :=
    windowMessages_prefix (grows_step h.launcher hdispose)
  exact
    { client := h.client
      launcher := consistent_step h.launcher input
      served := by
        intro hopen
        have hlive : m.destroyed win = false := by
          rw [momentAllowed, hopen, Bool.or_false] at hm
          simpa using hm
        refine served_step (h.served hopen) h.launcher hlive (fun heq => ?_) hdispose
        exact absurd (hclosed heq) (by rw [hopen]; nofun)
      read := Nat.le_trans h.read hgrows.length_le
      port := by
        obtain ⟨rest, hrest⟩ := hgrows
        change s.client.port = _
        rw [h.port, ← hrest, List.take_append_of_le_length h.read]
      tasks := h.tasks
      answers := h.answers
      settled := h.settled }

/-! ### The hosts move -/

/-- One host changes its requests, all of them posted by the client. -/
theorem Inv.hostMoves (h : Inv win s) (c : ChildId) (host : QueryHost)
    (htasks : ∀ task ∈ host.tasks, postedBy s.client task) (childRead : ChildId → ℕ)
    (hostRead : ChannelId → ℕ) :
    Inv win { s with
      hosts := Function.update s.hosts c host, childRead := childRead, hostRead := hostRead } where
  client := h.client
  launcher := h.launcher
  served := h.served
  read := h.read
  port := h.port
  tasks d task htask := by
    change task ∈ (Function.update s.hosts c host d).tasks at htask
    by_cases hd : d = c
    · rw [hd, Function.update_self] at htask
      exact htasks task htask
    · rw [Function.update_of_ne hd] at htask
      exact h.tasks d task htask
  answers := h.answers
  settled := h.settled

theorem Inv.moreAnswers (h : Inv win s) {a : Answer} (ha : postedBy s.client a.task)
    (hanswer : ∃ fails, a.response = QueryHost.answer a.task fails) :
    Inv win { s with answers := s.answers ++ [a] } where
  client := h.client
  launcher := h.launcher
  served := h.served
  read := h.read
  port := h.port
  tasks := h.tasks
  answers b hb := by
    rcases List.mem_append.mp hb with hb | hb
    · exact h.answers b hb
    · rw [List.mem_singleton.mp hb]
      exact ⟨ha, hanswer⟩
  settled id outcome r hmem hr := by
    obtain ⟨b, hb, hrest⟩ := h.settled id outcome r hmem hr
    exact ⟨b, List.mem_append_left _ hb, hrest⟩

theorem onControl_tasks (host : QueryHost) (control : HostControl) :
    (host.onControl control).tasks = host.tasks := by
  cases control with
  | attach w port => rfl
  | detach w =>
      change (host.detach w).tasks = host.tasks
      unfold QueryHost.detach
      cases host.ports w with
      | none => rfl
      | some port => rfl

theorem mem_requestsOn {p : ChannelId} {request : QueryHostRequest} {es : List ClientEffect}
    (h : request ∈ requestsOn p es) : .posted p request ∈ es := by
  obtain ⟨e, he, heq⟩ := List.mem_filterMap.mp h
  match e, heq with
  | .posted q other, heq =>
      simp only [Option.ite_none_right_eq_some, Option.some.injEq] at heq
      rw [heq.1, heq.2] at he
      exact he

theorem mem_onRequest {host : QueryHost} {p : ChannelId} {request : QueryHostRequest} {task : Task}
    (h : task ∈ (host.onRequest p request).tasks) :
    task ∈ host.tasks ∨ task.port = p ∧ request = .ask task.kind task.requestId := by
  cases request with
  | cancel requestId => exact Or.inl h
  | ask kind requestId =>
      refine (List.mem_append.mp h).imp_right fun hmem => ?_
      rw [List.mem_singleton.mp hmem]
      exact ⟨rfl, rfl⟩

/-! ### Every event -/

theorem mainInput_ne {es : List ClientEffect} {i : ℕ} {input : Input}
    (h : (es.filterMap (toMain win))[i]? = some input) :
    input ≠ .dispose ∧ input ≠ .windowClosed win := by
  obtain ⟨e, _, he⟩ := List.mem_filterMap.mp (List.mem_of_getElem? h)
  match e, he with
  | .requestQueryPort, rfl => exact ⟨nofun, nofun⟩
  | .restartQueryHost, rfl => exact ⟨nofun, nofun⟩

theorem inputAllowed_ne {input : Input} (h : inputAllowed win s input = true) :
    input ≠ .dispose ∧ (input = .windowClosed win → s.closed = true) := by
  constructor
  · rintro rfl
    cases h
  · rintro rfl
    simpa [inputAllowed] using h

theorem Inv.step (h : Inv win s) : ∀ {event : Event}, System.step win s event = some s' →
    Inv win s'
  | .call requestId kind, hs => by
      dsimp only [System.step] at hs
      split_ifs at hs with hguard
      cases hs
      have hcall := h.client.call kind fun hmem => hguard (Or.inr hmem)
      exact h.grow hcall (grows_call _ _) h.read ((call_port _ _ _).trans h.port)
  | .cancel requestId, hs => by
      dsimp only [System.step] at hs
      split_ifs at hs
      cases hs
      exact h.grow (h.client.cancel requestId) (grows_cancel _) h.read
        ((cancel_port _ _).trans h.port)
  | .restart, hs => by
      dsimp only [System.step] at hs
      split_ifs at hs
      cases hs
      exact h.grow h.client.restart grows_restart h.read h.port
  | .closeWindow, hs => by
      cases hs
      exact ⟨h.client, h.launcher, nofun, h.read, h.port, h.tasks, h.answers, h.settled⟩
  | .mainMessage m, hs => by
      dsimp only [System.step] at hs
      split_ifs at hs with hm
      obtain ⟨input, hinput, rfl⟩ := Option.map_eq_some_iff.mp hs
      obtain ⟨hdispose, hclose⟩ := mainInput_ne hinput
      exact h.launch hm hdispose (fun heq => absurd heq hclose) _
  | .windowMessage, hs => by
      dsimp only [System.step] at hs
      split_ifs at hs
      obtain ⟨message, hmessage, rfl⟩ := Option.map_eq_some_iff.mp hs
      exact h.windowMessage hmessage
  | .response, hs => by
      dsimp only [System.step] at hs
      split_ifs at hs
      obtain ⟨p, _, hs⟩ := Option.bind_eq_some_iff.mp hs
      obtain ⟨response, hresponse, rfl⟩ := Option.map_eq_some_iff.mp hs
      obtain ⟨a, ha, rfl⟩ := List.mem_map.mp (List.mem_of_getElem? hresponse)
      exact h.response (List.mem_filter.mp ha).1 _
  | .launcher m input, hs => by
      dsimp only [System.step] at hs
      split_ifs at hs with hguard
      cases hs
      obtain ⟨hdispose, hclose⟩ := inputAllowed_ne hguard.2
      exact h.launch hguard.1 hdispose hclose _
  | .control c, hs => by
      dsimp only [System.step] at hs
      split_ifs at hs
      obtain ⟨control, _, rfl⟩ := Option.map_eq_some_iff.mp hs
      refine h.hostMoves c _ (fun task htask => h.tasks c task ?_) _ _
      rwa [onControl_tasks] at htask
  | .request c w, hs => by
      dsimp only [System.step] at hs
      split_ifs at hs
      obtain ⟨p, _, hs⟩ := Option.bind_eq_some_iff.mp hs
      obtain ⟨request, hrequest, rfl⟩ := Option.map_eq_some_iff.mp hs
      refine h.hostMoves c _ (fun task htask => ?_) _ _
      rcases mem_onRequest htask with hold | ⟨hp, hask⟩
      · exact h.tasks c task hold
      · have hposted := mem_requestsOn (List.mem_of_getElem? hrequest)
        rwa [← hp, hask] at hposted
  | .answer c i fails, hs => by
      dsimp only [System.step] at hs
      split_ifs at hs
      obtain ⟨task, htask, rfl⟩ := Option.map_eq_some_iff.mp hs
      have hposted := h.tasks c task (List.mem_of_getElem? htask)
      have hmoved := h.hostMoves c { s.hosts c with tasks := (s.hosts c).tasks.eraseIdx i }
        (fun other hother => h.tasks c other (List.mem_of_mem_eraseIdx hother))
        s.childRead s.hostRead
      split_ifs
      · exact hmoved
      · exact hmoved.moreAnswers (a := ⟨task, QueryHost.answer task fails⟩) hposted ⟨fails, rfl⟩
  | .hostEnds c, hs => by
      dsimp only [System.step] at hs
      split_ifs at hs
      cases hs
      exact ⟨h.client, h.launcher, h.served, h.read, h.port, h.tasks, h.answers, h.settled⟩

/-- Every state of every run keeps the invariant. -/
theorem inv_runs {events : List Event} (h : runs (System.step win) initial events = some s) :
    Inv win s :=
  runs_induction h inv_initial fun _ _ _ _ hstep hinv => hinv.step hstep

/-! ### Effects are kept -/

theorem effects_onMain (c : QueryPortClient) (message : WindowMessage) :
    c.effects <+: (c.onMain message).effects := by
  obtain ⟨es, hes, _⟩ := grows_onMain c message
  exact ⟨es, hes.symm⟩

/-- What the client has done stays done. -/
theorem effects_step : ∀ {event : Event}, System.step win s event = some s' →
    s.client.effects <+: s'.client.effects
  | .call requestId kind, hs => by
      dsimp only [System.step] at hs
      split_ifs at hs
      cases hs
      obtain ⟨es, hes, _⟩ := grows_call (c := s.client) requestId kind
      exact ⟨es, hes.symm⟩
  | .cancel requestId, hs => by
      dsimp only [System.step] at hs
      split_ifs at hs
      cases hs
      obtain ⟨es, hes, _⟩ := grows_cancel (c := s.client) requestId
      exact ⟨es, hes.symm⟩
  | .restart, hs => by
      dsimp only [System.step] at hs
      split_ifs at hs
      cases hs
      obtain ⟨es, hes, _⟩ := grows_restart (c := s.client)
      exact ⟨es, hes.symm⟩
  | .closeWindow, hs => by
      cases hs
      exact List.prefix_refl _
  | .mainMessage m, hs => by
      dsimp only [System.step] at hs
      split_ifs at hs
      obtain ⟨input, _, rfl⟩ := Option.map_eq_some_iff.mp hs
      exact List.prefix_refl _
  | .windowMessage, hs => by
      dsimp only [System.step] at hs
      split_ifs at hs
      obtain ⟨message, _, rfl⟩ := Option.map_eq_some_iff.mp hs
      exact effects_onMain s.client message
  | .response, hs => by
      dsimp only [System.step] at hs
      split_ifs at hs
      obtain ⟨p, _, hs⟩ := Option.bind_eq_some_iff.mp hs
      obtain ⟨response, _, rfl⟩ := Option.map_eq_some_iff.mp hs
      obtain ⟨es, hes, _⟩ := receive_effects (c := s.client) response
      exact ⟨es, hes.symm⟩
  | .launcher m input, hs => by
      dsimp only [System.step] at hs
      split_ifs at hs
      cases hs
      exact List.prefix_refl _
  | .control c, hs => by
      dsimp only [System.step] at hs
      split_ifs at hs
      obtain ⟨control, _, rfl⟩ := Option.map_eq_some_iff.mp hs
      exact List.prefix_refl _
  | .request c w, hs => by
      dsimp only [System.step] at hs
      split_ifs at hs
      obtain ⟨p, _, hs⟩ := Option.bind_eq_some_iff.mp hs
      obtain ⟨request, _, rfl⟩ := Option.map_eq_some_iff.mp hs
      exact List.prefix_refl _
  | .answer c i fails, hs => by
      dsimp only [System.step] at hs
      split_ifs at hs
      obtain ⟨task, _, rfl⟩ := Option.map_eq_some_iff.mp hs
      exact List.prefix_refl _
  | .hostEnds c, hs => by
      dsimp only [System.step] at hs
      split_ifs at hs
      cases hs
      exact List.prefix_refl _

theorem effects_runs {events : List Event} (h : runs (System.step win) s events = some s') :
    s.client.effects <+: s'.client.effects :=
  @runs_induction _ _ _ (fun m => s.client.effects <+: m.client.effects) _ _ _ h
    (List.prefix_refl _) fun _ _ _ _ hstep hm => hm.trans (effects_step hstep)

/-! ### What the protocol promises -/

def pendingIds (c : QueryPortClient) : List RequestId :=
  c.pending.map PendingCall.requestId

/-- The client has read every message of the launcher. -/
def upToDate (win : WindowId) (s : System) : Prop :=
  s.windowRead = (windowMessages win s.launcher.effects).length

structure Upholds (win : WindowId) (s : System) : Prop where
  /-- A call settles at most once. -/
  once : (settledIds s.client.effects).Nodup
  /-- A response settles its own request: a host posted it for that very request, and it is the
  response of the request's kind or a failure. -/
  own : ∀ id outcome r, .settled id outcome ∈ s.client.effects →
    Outcome.response outcome = some r →
      ∃ a ∈ s.answers, a.response = r ∧ a.task.requestId = id ∧ (id, a.task.kind) ∈ s.calls ∧
        postedBy s.client a.task ∧
        (outcome = .resolved ⟨a.task.kind.answered, id⟩ ∨ outcome = .failed ⟨.failed, id⟩)
  /-- A call is posted at most once, so on at most one port. -/
  onePort : (postedIds s.client.effects).Nodup
  /-- A call that was posted and is pending was posted on the client's port, and that port is live
  unless the window has closed or a message of the launcher is still to be read. -/
  current : ∀ p kind id, .posted p (.ask kind id) ∈ s.client.effects → id ∈ pendingIds s.client →
    s.client.port = some p ∧
      (s.closed = false → upToDate win s → live win s.launcher = some p)
  /-- No call that was posted outlives the next port, exit or failure that the client reads of. -/
  told : ∀ s', System.step win s .windowMessage = some s' →
    ∀ id ∈ postedIds s.client.effects, id ∉ pendingIds s'.client
  /-- A call that was cancelled while it was queued is not posted. -/
  unposted : ∀ id, .settled id .cancelled ∈ s.client.effects → id ∉ postedIds s.client.effects

theorem posted_unique {es : List ClientEffect} (h : (postedIds es).Nodup) {p q : ChannelId}
    {kind kind' : RequestKind} {id : RequestId} (hp : .posted p (.ask kind id) ∈ es)
    (hq : .posted q (.ask kind' id) ∈ es) : p = q := by
  have hsame : ClientEffect.posted p (.ask kind id) = .posted q (.ask kind' id) :=
    inj_of_nodup_filterMap h hp hq rfl rfl
  cases hsame
  rfl

theorem sent_of_posted {calls : List (RequestId × RequestKind)} {c : QueryPortClient}
    (h : QueryPortClient.Consistent calls c) {call : PendingCall} (hcall : call ∈ c.pending)
    (hposted : call.requestId ∈ postedIds c.effects) : call.sent = true := by
  by_contra hsent
  exact h.queued_unposted call hcall (by simpa using hsent) hposted

/-- What stays pending when the client reads a message of main was queued. -/
theorem queued_of_onMain {c : QueryPortClient} {message : WindowMessage} {id : RequestId}
    (h : id ∈ pendingIds (c.onMain message)) :
    ∃ call ∈ c.pending, call.requestId = id ∧ call.sent = false := by
  obtain ⟨call, hcall, rfl⟩ := List.mem_map.mp h
  cases message with
  | queryPort port =>
      obtain ⟨before, hbefore, hid, _⟩ := mem_sendWhere hcall
      obtain ⟨hmem, hqueued⟩ := List.mem_filter.mp hbefore
      exact ⟨before, hmem, hid.symm, by simpa using hqueued⟩
  | queryHostExited =>
      have hnone := (List.mem_filter.mp hcall).2
      cases hnone
  | queryHostFailed =>
      have hnone := (List.mem_filter.mp hcall).2
      cases hnone

theorem Inv.own (h : Inv win s) {id : RequestId} {outcome : Outcome} {r : QueryHostResponse}
    (hmem : .settled id outcome ∈ s.client.effects) (hr : Outcome.response outcome = some r) :
    ∃ a ∈ s.answers, a.response = r ∧ a.task.requestId = id ∧ (id, a.task.kind) ∈ s.calls ∧
      postedBy s.client a.task ∧
      (outcome = .resolved ⟨a.task.kind.answered, id⟩ ∨ outcome = .failed ⟨.failed, id⟩) := by
  obtain ⟨a, ha, rfl, rfl, rfl⟩ := h.settled id outcome r hmem hr
  obtain ⟨hposted, fails, hanswer⟩ := h.answers a ha
  have hid : a.task.requestId = a.response.requestId := by
    rw [hanswer]
    rfl
  have hcalled := h.client.posted_called _ _ _ hposted
  rw [hid] at hcalled
  refine ⟨a, ha, rfl, hid, hcalled, hposted, ?_⟩
  rw [← hid, hanswer]
  cases fails with
  | true => exact Or.inr rfl
  | false =>
      refine Or.inl (if_neg fun hfailed => ?_)
      change a.task.kind.answered = .failed at hfailed
      cases hkind : a.task.kind with
      | _ =>
          rw [hkind] at hfailed
          cases hfailed

theorem Inv.upholds (h : Inv win s) : Upholds win s where
  once := h.client.settled_nodup
  own _ _ _ hmem hr := h.own hmem hr
  onePort := h.client.posted_nodup
  current := by
    intro p kind id hp hid
    obtain ⟨call, hcall, rfl⟩ := List.mem_map.mp hid
    have hsent := sent_of_posted h.client hcall (mem_postedIds.mpr ⟨p, kind, hp⟩)
    obtain ⟨q, hq, hposted⟩ := h.client.sent_posted call hcall hsent
    obtain rfl := posted_unique h.client.posted_nodup hp hposted
    refine ⟨hq, fun hopen hread => ?_⟩
    have hlast : lastPort win s.launcher.effects = some p := by
      rw [lastPort, ← hq, h.port, hread, List.take_length]
    exact (h.served hopen p hlast).2
  told := by
    intro s' hs id hid hpending
    dsimp only [System.step] at hs
    split_ifs at hs
    obtain ⟨message, _, rfl⟩ := Option.map_eq_some_iff.mp hs
    obtain ⟨call, hcall, rfl, hqueued⟩ := queued_of_onMain hpending
    exact h.client.queued_unposted call hcall hqueued hid
  unposted := h.client.cancelled_unposted

/-- A call that is cancelled while it is queued is settled by that, and is not posted after it. -/
theorem cancelled_of_runs {front rest : List Event} {m : System} {id : RequestId}
    (hfront : runs (System.step win) initial front = some m)
    (hrest : runs (System.step win) m (.cancel id :: rest) = some s)
    (hqueued : m.client.Queued id) :
    .settled id .cancelled ∈ s.client.effects ∧ id ∉ pendingIds s.client ∧
      id ∉ postedIds s.client.effects := by
  have hinv := inv_runs hfront
  obtain ⟨m', hstep, htail⟩ := runs_cons.mp hrest
  have hm' := hinv.step hstep
  have hsettled : .settled id .cancelled ∈ m'.client.effects := by
    dsimp only [System.step] at hstep
    split_ifs at hstep
    cases hstep
    exact settled_cancel hinv.client hqueued
  have hs := @runs_induction _ _ _ (Inv win) _ _ _ htail hm' fun _ _ _ _ hstep h => h.step hstep
  have hkept := (effects_runs htail).subset hsettled
  refine ⟨hkept, fun hpending => ?_, hs.client.cancelled_unposted id hkept⟩
  obtain ⟨call, hcall, rfl⟩ := List.mem_map.mp hpending
  exact hs.client.settled_done call hcall (mem_settledIds.mpr ⟨_, hkept⟩)

/-- The protocol, for one window among any others, over every interleaving; and in a run with a
cancel event for a call that is queued by then, the call settles as cancelled and is never
posted. -/
theorem protocol_upholds {events : List Event}
    (h : runs (System.step win) initial events = some s) :
    Upholds win s ∧ ∀ front id rest, events = front ++ .cancel id :: rest →
      ∀ m, runs (System.step win) initial front = some m → m.client.Queued id →
        .settled id .cancelled ∈ s.client.effects ∧ id ∉ pendingIds s.client ∧
          id ∉ postedIds s.client.effects := by
  refine ⟨(inv_runs h).upholds, ?_⟩
  rintro front id rest rfl m hfront hqueued
  rw [runs_append, hfront] at h
  exact cancelled_of_runs hfront h hqueued

/-- A run: two calls are queued before the host spawns; one is cancelled, and the other is
answered. -/
def answeredFront : List Event :=
  [.launcher ⟨0, false, fun _ => false⟩ .start, .call [113] .describe, .call [114] .describe]

def answeredRest : List Event :=
  let m : Moment := ⟨0, false, fun _ => false⟩
  [.mainMessage m, .windowMessage, .launcher m (.spawned 0), .control 0, .request 0 7,
    .answer 0 0 false, .response]

theorem protocol_upholds_answered : ∃ s,
    runs (System.step 7) initial (answeredFront ++ .cancel [114] :: answeredRest) = some s ∧
      .settled [113] (.resolved ⟨.described, [113]⟩) ∈ s.client.effects ∧ Upholds 7 s ∧
        [114] ∉ postedIds s.client.effects := by
  obtain ⟨m, hfront, hqueued⟩ : ∃ m, runs (System.step 7) initial answeredFront = some m ∧
      ⟨[114], .describe, false⟩ ∈ m.client.pending :=
    exists_run (by decide)
  obtain ⟨s, hs, hmem⟩ : ∃ s,
      runs (System.step 7) initial (answeredFront ++ .cancel [114] :: answeredRest) = some s ∧
        .settled [113] (.resolved ⟨.described, [113]⟩) ∈ s.client.effects :=
    exists_run (by decide)
  obtain ⟨hupholds, hcancelled⟩ := protocol_upholds hs
  exact ⟨s, hs, hmem, hupholds,
    (hcancelled _ _ _ rfl m hfront ⟨_, hqueued, rfl, rfl⟩).2.2⟩

end System

end WireTools.QueryPort
