import Mathlib.Data.List.Induction
import WireTools.LauncherRuns

/-! # The port a window holds

* `windowMessages` are the messages the launcher sent to a window, in order; `lastPort` is the
  port in the window's hands once it has received them all;
* `live` is the port whose other end the launcher has queued or a running host holds;
* `Served`: the port in an open window's hands is the live one.  Every input but the window's own
  close, and a dispose, preserves this. -/

namespace WireTools.QueryPort

/-- A message from main to a window. -/
inductive WindowMessage where
  | queryPort (port : ChannelId)
  | queryHostExited
  | queryHostFailed
  deriving DecidableEq

def WindowMessage.port : WindowMessage → Option ChannelId
  | queryPort p => some p
  | queryHostExited => none
  | queryHostFailed => none

namespace QueryHostLauncher

/-- The message an effect sends to the window. -/
def toWindow (w : WindowId) : Effect → Option WindowMessage
  | .queryPort v port => if v = w then some (.queryPort port) else none
  | .queryHostExited v => if v = w then some .queryHostExited else none
  | .queryHostFailed v => if v = w then some .queryHostFailed else none
  | _ => none

def windowMessages (w : WindowId) (effects : List Effect) : List WindowMessage :=
  effects.filterMap (toWindow w)

/-- The port that the last of the messages leaves the window with. -/
def portAfter (messages : List WindowMessage) : Option ChannelId :=
  messages.getLast?.bind WindowMessage.port

def lastPort (w : WindowId) (effects : List Effect) : Option ChannelId :=
  portAfter (windowMessages w effects)

/-- The port of the window's queued attach. -/
def queuedPort (w : WindowId) (queue : List HostControl) : Option ChannelId :=
  (queue.find? (isAttachOf w)).bind HostControl.port

/-- The port that is queued for the window, or that the current host holds for it. -/
def live (w : WindowId) (l : QueryHostLauncher) : Option ChannelId :=
  (queuedPort w l.queue).or (l.child.bind fun c => hostPorts c l.effects w)

/-- The port in the window's hands is its live port. -/
def Served (w : WindowId) (l : QueryHostLauncher) : Prop :=
  ∀ p, lastPort w l.effects = some p → w ∈ l.windows ∧ live w l = some p

variable {m : Moment} {l : QueryHostLauncher} {w : WindowId}

theorem lastPort_append {es fs : List Effect} (h : windowMessages w fs = []) :
    lastPort w (es ++ fs) = lastPort w es := by
  rw [windowMessages] at h
  rw [lastPort, lastPort, windowMessages, List.filterMap_append, h, List.append_nil]
  rfl

theorem portAfter_append (messages : List WindowMessage) (message : WindowMessage) :
    portAfter (messages ++ [message]) = message.port := by
  rw [portAfter, List.getLast?_concat]
  rfl

theorem windowMessages_closePorts (messages : List HostControl) :
    windowMessages w (closePorts messages) = [] := by
  refine List.filterMap_eq_nil_iff.mpr fun e he => ?_
  obtain ⟨port, _, rfl⟩ := List.mem_map.mp he
  rfl

theorem windowMessages_posted (c : ChildId) (messages : List HostControl) :
    windowMessages w (messages.map (.posted c)) = [] := by
  refine List.filterMap_eq_nil_iff.mpr fun e he => ?_
  obtain ⟨message, _, rfl⟩ := List.mem_map.mp he
  rfl

/-! ### Queues -/

theorem queuedPort_append {queue : List HostControl} {message : HostControl}
    (h : message.windowId ≠ w) : queuedPort w (queue ++ [message]) = queuedPort w queue := by
  have hnone : [message].find? (isAttachOf w) = none := by
    simp [isAttachOf, h]
  rw [queuedPort, queuedPort, List.find?_append, hnone, Option.or_none]

theorem queuedPort_filter {queue : List HostControl} {v : WindowId} (h : w ≠ v) :
    queuedPort w (queue.filter fun message => message.windowId ≠ v) = queuedPort w queue := by
  rw [queuedPort, queuedPort, List.find?_filter]
  congr 2
  funext message
  rw [isAttachOf]
  by_cases hw : message.windowId = w
  · simp [hw, h]
  · simp [hw]

theorem queuedPort_dropped (h : Settled l) {v : WindowId} (hne : w ≠ v) :
    queuedPort w (l.dropQueuedAttach v).queue = queuedPort w l.queue := by
  change queuedPort w (l.queue.eraseP (isAttachOf v)) = _
  rw [eraseP_isAttachOf v h.attaches h.nodup, queuedPort_filter hne]

theorem queuedPort_enqueued (h : Settled l) (port : ChannelId) :
    queuedPort w (l.enqueueAttach w port).queue = some port := by
  have hnone : (l.queue.eraseP (isAttachOf w)).find? (isAttachOf w) = none := by
    refine List.find?_eq_none.mpr fun message hm hat => ?_
    obtain ⟨hmem, hne⟩ := h.mem_dropped.mp hm
    exact hne ((isAttachOf_iff (h.attaches message hmem)).mp hat)
  change ((l.queue.eraseP (isAttachOf w) ++ [HostControl.attach w port]).find? _).bind _ = _
  rw [List.find?_append, hnone, Option.none_or]
  simp [isAttachOf, HostControl.port, HostControl.windowId]

/-- The ports held after the queue is posted. -/
theorem hostPorts_flushed {c : ChildId} : ∀ {queue : List HostControl} {es : List Effect},
    (∀ message ∈ queue, message.port.isSome = true) → (queue.map HostControl.windowId).Nodup →
      hostPorts c (es ++ queue.map (.posted c)) w = (queuedPort w queue).or (hostPorts c es w)
  | [], es, _, _ => by
      rw [List.map_nil, List.append_nil]
      rfl
  | message :: queue, es, h, hnodup => by
      rw [List.map_cons, List.nodup_cons] at hnodup
      have hcons : es ++ (message :: queue).map (Effect.posted c) =
          es ++ [.posted c message] ++ queue.map (.posted c) := by simp
      have hat := @isAttachOf_iff w message (h message (by simp))
      rw [hcons, hostPorts_flushed (fun m hm => h m (List.mem_cons_of_mem _ hm)) hnodup.2,
        hostPorts_posted]
      by_cases hw : message.windowId = w
      · have hrest : queue.find? (isAttachOf w) = none := by
          refine List.find?_eq_none.mpr fun other hother hp => hnodup.1 ?_
          have hsame := (isAttachOf_iff (h other (List.mem_cons_of_mem _ hother))).mp hp
          exact List.mem_map.mpr ⟨other, hother, hsame.trans hw.symm⟩
        obtain ⟨port, hport⟩ := Option.isSome_iff_exists.mp (h message (by simp))
        rw [queuedPort, queuedPort, hrest, List.find?_cons_of_pos (hat.mpr hw), if_pos hw.symm]
        simp [hport]
      · rw [queuedPort, queuedPort, List.find?_cons_of_neg fun hp => hw (hat.mp hp),
          if_neg fun heq => hw heq.symm]

/-! ### Serving -/

/-- What neither tells the window anything nor changes its live port. -/
theorem Served.of_same (h : Served w l) {l' : QueryHostLauncher}
    (hport : lastPort w l'.effects = lastPort w l.effects) (hwindows : w ∈ l.windows → w ∈ l'.windows)
    (hlive : live w l' = live w l) : Served w l' := by
  intro p hp
  obtain ⟨hmem, hp⟩ := h p (hport.symm.trans hp)
  exact ⟨hwindows hmem, hlive.trans hp⟩

theorem Served.of_none {l' : QueryHostLauncher} (h : lastPort w l'.effects = none) :
    Served w l' := by
  intro p hp
  cases h.symm.trans hp

/-- Live windows are told last that the host is gone. -/
theorem lastPort_told {es : List Effect} {ws : List WindowId} {message : WindowId → Effect}
    {told : WindowMessage} (hw : w ∈ ws) (htold : told.port = none)
    (hmessage : ∀ v, toWindow w (message v) = if v = w then some told else none) :
    lastPort w (es ++ ws.map message) = none := by
  induction ws using List.reverseRecOn with
  | nil => cases hw
  | append_singleton ws v ih =>
      rw [List.map_append, ← List.append_assoc]
      by_cases hv : v = w
      · have hone : windowMessages w ([v].map message) = [told] := by
          simp [windowMessages, hmessage, hv]
        rw [windowMessages] at hone
        rw [lastPort, windowMessages, List.filterMap_append, hone, portAfter_append, htold]
      · have hnone : windowMessages w ([v].map message) = [] := by
          simp [windowMessages, hmessage, hv]
        rw [lastPort_append hnone]
        refine ih ((List.mem_append.mp hw).resolve_right fun hmem => ?_)
        exact hv (List.mem_singleton.mp hmem).symm

theorem lastPort_exited {message : WindowId → Effect} {told : WindowMessage}
    (h : lastPort w l.effects ≠ none → w ∈ l.windows) (hopen : m.destroyed w = false)
    (htold : told.port = none)
    (hmessage : ∀ v, toWindow w (message v) = if v = w then some told else none) :
    lastPort w (l.effects ++ (closePorts l.queue ++ (liveWindows m l).map message)) = none := by
  rw [← List.append_assoc]
  by_cases hw : w ∈ l.windows
  · exact lastPort_told (List.mem_filter.mpr ⟨hw, by simp [hopen]⟩) htold hmessage
  · have hnone : windowMessages w ((liveWindows m l).map message) = [] := by
      refine List.filterMap_eq_nil_iff.mpr fun e he => ?_
      obtain ⟨v, hv, rfl⟩ := List.mem_map.mp he
      rw [hmessage, if_neg]
      rintro rfl
      exact hw (List.mem_filter.mp hv).1
    rw [lastPort_append hnone, lastPort_append (windowMessages_closePorts _)]
    by_contra hne
    exact hw (h hne)

theorem served_hostExited (h : lastPort w l.effects ≠ none → w ∈ l.windows)
    (hopen : m.destroyed w = false) : Served w (l.hostExited m) := by
  rw [hostExited_eq]
  split_ifs
  · exact Served.of_none (lastPort_exited h hopen rfl fun v => rfl)
  · exact Served.of_none (lastPort_exited h hopen rfl fun v => rfl)

theorem Served.windows_of_port (h : Served w l) (hport : lastPort w l.effects ≠ none) :
    w ∈ l.windows := by
  obtain ⟨p, hp⟩ := Option.ne_none_iff_exists'.mp hport
  exact (h p hp).1

theorem Served.fork (h : Served w l) (hsettled : Settled l) (hchild : l.child = none)
    (hopen : m.destroyed w = false) : Served w (l.fork m) := by
  dsimp only [QueryHostLauncher.fork]
  split_ifs
  · exact served_hostExited h.windows_of_port hopen
  · refine h.of_same (lastPort_append rfl) id ?_
    change (queuedPort w l.queue).or (hostPorts l.forks (l.effects ++ [.forked l.forks]) w) =
      (queuedPort w l.queue).or _
    rw [hostPorts_append rfl, hostPorts_of_lt hsettled.posted_lt, hchild]
    rfl

theorem attachNow_eq {c : ChildId} (hc : l.child = some c) (v : WindowId) : l.attachNow m v =
    { l with
      windows := insert v l.windows
      channels := l.channels + 1
      attached := insert v l.attached
      effects := l.effects ++ (if v ∈ l.attached then [.posted c (.detach v)] else []) ++
        [.posted c (.attach v l.channels)] ++
        [if m.destroyed v then .closedPort2 l.channels else .queryPort v l.channels] } := by
  by_cases hv : v ∈ l.attached
  · simp [QueryHostLauncher.attachNow, sendPort, postControl, perform, hc, hv]
  · simp [QueryHostLauncher.attachNow, sendPort, postControl, perform, hc, hv]

/-- What hands a port to a window. -/
theorem windowMessages_sent {v : WindowId} (hv : v ≠ w) (port : ChannelId) :
    windowMessages w [if m.destroyed v then .closedPort2 port else .queryPort v port] = [] := by
  split_ifs
  · rfl
  · simp [windowMessages, toWindow, hv]

theorem unposted_sent (v : WindowId) (port : ChannelId) :
    [if m.destroyed v then Effect.closedPort2 port else .queryPort v port].all (!isPosted ·) =
      true := by
  split_ifs
  · rfl
  · rfl

theorem lastPort_sent (hopen : m.destroyed w = false) (es : List Effect) (port : ChannelId) :
    lastPort w (es ++ [if m.destroyed w then .closedPort2 port else .queryPort w port]) =
      some port := by
  have hone : windowMessages w [.queryPort w port] = [.queryPort port] := by
    simp [windowMessages, toWindow]
  rw [windowMessages] at hone
  rw [hopen, lastPort, windowMessages, List.filterMap_append]
  change portAfter (_ ++ List.filterMap _ [Effect.queryPort w port]) = _
  rw [hone, portAfter_append]
  rfl

theorem hostPorts_of_ne {c : ChildId} {es : List Effect} {message : HostControl}
    (h : message.windowId ≠ w) : hostPorts c (es ++ [.posted c message]) w = hostPorts c es w := by
  rw [hostPorts_posted, if_neg h.symm]

theorem Served.attachNow (h : Served w l) (hconsistent : Consistent l)
    (hready : l.currentState = .ready) (hopen : m.destroyed w = false) (v : WindowId) :
    Served w (l.attachNow m v) := by
  obtain ⟨c, hc⟩ := hconsistent.exists_child hready
  have hqueue := hconsistent.queue_nil (by rw [hready]; nofun) (by rw [hready]; nofun)
    (by rw [hready]; nofun)
  rw [attachNow_eq hc]
  by_cases hv : v = w
  · subst hv
    intro p hp
    obtain rfl : l.channels = p := Option.some.inj ((lastPort_sent hopen _ _).symm.trans hp)
    refine ⟨by simp, ?_⟩
    change (queuedPort v l.queue).or (l.child.bind fun c => hostPorts c _ v) = _
    rw [hqueue, hc, Option.bind_some, hostPorts_append (unposted_sent v _), hostPorts_posted,
      HostControl.windowId, if_pos rfl]
    rfl
  · have hattach : (HostControl.attach v l.channels).windowId ≠ w := hv
    have hdetach : (HostControl.detach v).windowId ≠ w := hv
    refine h.of_same ?_ (fun hw => by simp [hw]) ?_
    · have hcontrol : windowMessages w
          (if v ∈ l.attached then [Effect.posted c (.detach v)] else []) = [] := by
        split_ifs
        · rfl
        · rfl
      rw [lastPort_append (windowMessages_sent hv _), lastPort_append rfl,
        lastPort_append hcontrol]
    · change (queuedPort w l.queue).or (l.child.bind fun c => hostPorts c _ w) =
        (queuedPort w l.queue).or (l.child.bind fun c => hostPorts c l.effects w)
      rw [hc, Option.bind_some, Option.bind_some, hostPorts_append (unposted_sent v _),
        hostPorts_of_ne hattach]
      split_ifs
      · rw [hostPorts_of_ne hdetach]
      · rw [List.append_nil]

theorem Served.attachLater (h : Served w l) (hconsistent : Consistent l)
    (hopen : m.destroyed w = false) (v : WindowId) : Served w (l.attachLater m v) := by
  have heffects : (l.attachLater m v).effects = l.effects ++
      closePorts (l.queue.find? (isAttachOf v)).toList ++
        [if m.destroyed v then .closedPort2 l.channels else .queryPort v l.channels] := rfl
  by_cases hv : v = w
  · subst hv
    intro p hp
    rw [heffects, lastPort_sent hopen] at hp
    obtain rfl : l.channels = p := Option.some.inj hp
    refine ⟨by simp [QueryHostLauncher.attachLater, sendPort, perform, enqueueAttach,
      dropQueuedAttach], ?_⟩
    have hqueue : queuedPort v (l.attachLater m v).queue = some l.channels :=
      queuedPort_enqueued hconsistent.toSettled l.channels
    rw [live, hqueue]
    rfl
  · have hattach : (HostControl.attach v l.channels).windowId ≠ w := hv
    refine h.of_same ?_ ?_ ?_
    · rw [heffects, lastPort_append (windowMessages_sent hv _),
        lastPort_append (windowMessages_closePorts _)]
    · intro hw
      simp [QueryHostLauncher.attachLater, sendPort, perform, enqueueAttach, dropQueuedAttach, hw]
    · have hqueue : queuedPort w (l.attachLater m v).queue = queuedPort w l.queue := by
        change queuedPort w ((l.dropQueuedAttach v).queue ++ [.attach v l.channels]) = _
        rw [queuedPort_append hattach, queuedPort_dropped hconsistent.toSettled (Ne.symm hv)]
      have hports : ∀ c, hostPorts c (l.attachLater m v).effects w = hostPorts c l.effects w := by
        intro c
        rw [heffects, hostPorts_append (unposted_sent v _),
          hostPorts_append (closePorts_unposted _)]
      rw [live, live, hqueue]
      simp only [hports]
      rfl

theorem Served.refuse (h : Served w l) (hopen : m.destroyed w = false) (v : WindowId) :
    Served w (l.refuse m v) := by
  have heffects : (l.refuse m v).effects =
      l.effects ++ if m.destroyed v then [] else [.queryHostFailed v] := rfl
  by_cases hv : v = w
  · subst hv
    refine Served.of_none ?_
    have hone : windowMessages v [.queryHostFailed v] = [.queryHostFailed] := by
      simp [windowMessages, toWindow]
    rw [windowMessages] at hone
    rw [heffects, hopen, lastPort, windowMessages, List.filterMap_append]
    change portAfter (_ ++ List.filterMap _ [Effect.queryHostFailed v]) = _
    rw [hone, portAfter_append]
    rfl
  · have hnone : windowMessages w
        (if m.destroyed v then [] else [Effect.queryHostFailed v]) = [] := by
      split_ifs
      · rfl
      · simp [windowMessages, toWindow, hv]
    have hunposted : (if m.destroyed v then [] else [Effect.queryHostFailed v]).all
        (!isPosted ·) = true := by
      split_ifs
      · rfl
      · rfl
    refine h.of_same ?_ ?_ ?_
    · rw [heffects, lastPort_append hnone]
    · intro hw
      simp [QueryHostLauncher.refuse, failWindow, sendToWindow, perform, hw]
    · have hports : ∀ c, hostPorts c (l.refuse m v).effects w = hostPorts c l.effects w := by
        intro c
        rw [heffects, hostPorts_append hunposted]
      rw [live, live]
      simp only [hports]
      rfl

theorem Served.portRequested (h : Served w l) (hconsistent : Consistent l)
    (hopen : m.destroyed w = false) (v : WindowId) : Served w (l.portRequested m v) := by
  unfold QueryHostLauncher.portRequested
  cases hstate : l.currentState with
  | disposed => exact h
  | failed => exact h.refuse hopen v
  | ready => exact h.attachNow hconsistent hstate hopen v
  | idle => exact h.attachLater hconsistent hopen v
  | spawning => exact h.attachLater hconsistent hopen v
  | backoff => exact h.attachLater hconsistent hopen v

/-- Another window closes. -/
theorem Served.windowClosed (h : Served w l) (hconsistent : Consistent l) {v : WindowId}
    (hv : v ≠ w) : Served w (l.windowClosed v) := by
  have hdrop : lastPort w (l.dropPort v).effects = lastPort w l.effects ∧
      live w (l.dropPort v) = live w l ∧ (l.dropPort v).windows = l.windows := by
    have hqueued : lastPort w (l.dropQueuedAttach v).effects = lastPort w l.effects ∧
        live w (l.dropQueuedAttach v) = live w l ∧ (l.dropQueuedAttach v).windows = l.windows := by
      refine ⟨lastPort_append (windowMessages_closePorts _), ?_, rfl⟩
      rw [live, live, queuedPort_dropped hconsistent.toSettled hv.symm]
      have hports : ∀ c, hostPorts c (l.dropQueuedAttach v).effects w =
          hostPorts c l.effects w := fun c => by
        change hostPorts c (l.effects ++ closePorts _) w = _
        rw [hostPorts_append (closePorts_unposted _)]
      simp only [hports]
      rfl
    unfold dropPort
    cases hstate : l.currentState with
    | disposed => exact ⟨rfl, rfl, rfl⟩
    | failed => exact ⟨rfl, rfl, rfl⟩
    | ready =>
        obtain ⟨c, hc⟩ := hconsistent.exists_child hstate
        have hdetach : (HostControl.detach v).windowId ≠ w := hv
        simp only
        split_ifs
        · rw [postControl, hc]
          refine ⟨lastPort_append rfl, ?_, rfl⟩
          change (queuedPort w l.queue).or (l.child.bind fun c => hostPorts c (l.effects ++ _) w) =
            (queuedPort w l.queue).or (l.child.bind fun c => hostPorts c l.effects w)
          rw [hc, Option.bind_some, Option.bind_some]
          exact congrArg _ (hostPorts_of_ne hdetach)
        · exact ⟨rfl, rfl, rfl⟩
    | idle => exact hqueued
    | spawning => exact hqueued
    | backoff => exact hqueued
  refine h.of_same hdrop.1 (fun hw => ?_) hdrop.2.1
  exact mem_delete.mpr ⟨by rw [hdrop.2.2]; exact hw, hv.symm⟩

theorem Served.onSpawned (h : Served w l) (hconsistent : Consistent l) (c : ChildId) :
    Served w (l.onSpawned c) := by
  by_cases hcurrent : l.child = some c ∧ l.currentState = .spawning
  · rw [onSpawned_eq l hcurrent.1 hcurrent.2 hconsistent.attaches]
    refine h.of_same (lastPort_append (windowMessages_posted c _)) id ?_
    change (queuedPort w []).or (l.child.bind fun d => hostPorts d (l.effects ++ _) w) =
      (queuedPort w l.queue).or (l.child.bind fun d => hostPorts d l.effects w)
    rw [hcurrent.1, Option.bind_some, Option.bind_some,
      hostPorts_flushed hconsistent.attaches hconsistent.nodup]
    rfl
  · rw [QueryHostLauncher.onSpawned, if_neg hcurrent]
    exact h

theorem Served.onExited (h : Served w l) (hopen : m.destroyed w = false) (c : ChildId) :
    Served w (l.onExited m c) := by
  unfold QueryHostLauncher.onExited
  split_ifs
  · exact served_hostExited h.windows_of_port hopen
  · exact h

theorem Served.onBackoffElapsed (h : Served w l) (hconsistent : Consistent l)
    (hopen : m.destroyed w = false) : Served w (l.onBackoffElapsed m) := by
  dsimp only [QueryHostLauncher.onBackoffElapsed]
  split_ifs with htimer hstate
  · have hchild := hconsistent.child_none (by rw [hstate]; nofun) (by rw [hstate]; nofun)
    have htimed : Served w { l with backoffTimer := none } := h
    exact htimed.fork ⟨hconsistent.attaches, hconsistent.nodup, hconsistent.ports,
      hconsistent.posted_lt, hconsistent.counted⟩ hchild hopen
  · exact h
  · exact h

theorem Served.start (h : Served w l) (hconsistent : Consistent l)
    (hopen : m.destroyed w = false) : Served w (l.start m) := by
  unfold QueryHostLauncher.start
  split_ifs with hidle
  · exact h.fork hconsistent.toSettled
      (hconsistent.child_none (by rw [hidle]; nofun) (by rw [hidle]; nofun)) hopen
  · exact h

theorem Served.restartRequested (h : Served w l) (hconsistent : Consistent l)
    (hopen : m.destroyed w = false) : Served w (l.restartRequested m) := by
  dsimp only [QueryHostLauncher.restartRequested]
  split_ifs with hstate
  · have hsettled : Settled { l with exits := [], history := [], waiting := [] } :=
      ⟨hconsistent.attaches, hconsistent.nodup, hconsistent.ports, hconsistent.posted_lt,
        List.Sublist.refl _⟩
    have hreset : Served w { l with exits := [], history := [], waiting := [] } := h
    have hchild := hconsistent.child_none (by rw [hstate]; nofun) (by rw [hstate]; nofun)
    have hfork : Served w ({ l with exits := [], history := [], waiting := [] }.fork m) :=
      hreset.fork hsettled hchild hopen
    have hforked : Consistent ({ l with exits := [], history := [], waiting := [] }.fork m) :=
      hsettled.fork (hconsistent.timer_none (by rw [hstate]; nofun))
        (hconsistent.attached_nil (by rw [hstate]; nofun) (by rw [hstate]; nofun))
    generalize { l with exits := [], history := [], waiting := [] }.fork m = forked
      at hfork hforked ⊢
    generalize l.waiting.filter _ = waiting
    induction waiting generalizing forked with
    | nil => exact hfork
    | cons v waiting ih =>
        exact ih _ (hfork.portRequested hforked hopen v) (hforked.portRequested v)
  · exact h

/-- Every input preserves it, but for the window's own close and a dispose. -/
theorem served_step (h : Served w l) (hconsistent : Consistent l) (hopen : m.destroyed w = false) :
    ∀ {input : Input}, input ≠ .windowClosed w → input ≠ .dispose → Served w (l.step m input)
  | .start, _, _ => h.start hconsistent hopen
  | .portRequested v, _, _ => h.portRequested hconsistent hopen v
  | .windowClosed v, hne, _ => h.windowClosed hconsistent fun hv => hne (by rw [hv])
  | .restartRequested, _, _ => h.restartRequested hconsistent hopen
  | .dispose, _, hne => absurd rfl hne
  | .spawned c, _, _ => h.onSpawned hconsistent c
  | .exited c, _, _ => h.onExited hopen c
  | .error c, _, _ => h.onExited hopen c
  | .backoffElapsed, _, _ => h.onBackoffElapsed hconsistent hopen

theorem served_initial : Served w initial := nofun

/-! ### Effects are only added -/

theorem grows_hostExited (l : QueryHostLauncher) : l.effects <+: (l.hostExited m).effects := by
  rw [hostExited_eq]
  split_ifs
  · exact List.prefix_append _ _
  · exact List.prefix_append _ _

theorem grows_fork (l : QueryHostLauncher) : l.effects <+: (l.fork m).effects := by
  dsimp only [QueryHostLauncher.fork]
  split_ifs
  · exact grows_hostExited { l with currentState := .spawning, child := none }
  · exact List.prefix_append _ _

theorem grows_portRequested (v : WindowId) : l.effects <+: (l.portRequested m v).effects := by
  have hlater : l.effects <+: (l.attachLater m v).effects :=
    (List.prefix_append _ _).trans (List.prefix_append _ _)
  unfold QueryHostLauncher.portRequested
  cases hstate : l.currentState with
  | disposed => exact List.prefix_refl _
  | failed => exact List.prefix_append _ _
  | ready =>
      dsimp only [QueryHostLauncher.attachNow]
      split_ifs
      · exact ((List.prefix_append _ _).trans (List.prefix_append _ _)).trans
          (List.prefix_append _ _)
      · exact (List.prefix_append _ _).trans (List.prefix_append _ _)
  | idle => exact hlater
  | spawning => exact hlater
  | backoff => exact hlater

theorem grows_windowClosed (v : WindowId) : l.effects <+: (l.windowClosed v).effects := by
  change l.effects <+: (l.dropPort v).effects
  unfold dropPort
  cases hstate : l.currentState with
  | disposed => exact List.prefix_refl _
  | failed => exact List.prefix_refl _
  | ready =>
      simp only
      split_ifs
      · exact List.prefix_append _ _
      · exact List.prefix_refl _
  | idle => exact List.prefix_append _ _
  | spawning => exact List.prefix_append _ _
  | backoff => exact List.prefix_append _ _

theorem grows_restartRequested : l.effects <+: (l.restartRequested m).effects := by
  dsimp only [QueryHostLauncher.restartRequested]
  split_ifs
  · have hfork := grows_fork (m := m) { l with exits := [], history := [], waiting := [] }
    refine hfork.trans ?_
    generalize { l with exits := [], history := [], waiting := [] }.fork m = forked
    generalize l.waiting.filter _ = waiting
    induction waiting generalizing forked with
    | nil => exact List.prefix_refl _
    | cons v waiting ih => exact (grows_portRequested v).trans (ih _)
  · exact List.prefix_refl _

theorem grows_step (h : Consistent l) : ∀ {input : Input}, input ≠ .dispose →
    l.effects <+: (l.step m input).effects
  | .start, _ => by
      change l.effects <+: (l.start m).effects
      unfold start
      split_ifs
      · exact grows_fork l
      · exact List.prefix_refl _
  | .portRequested v, _ => grows_portRequested v
  | .windowClosed v, _ => grows_windowClosed v
  | .restartRequested, _ => grows_restartRequested
  | .dispose, hne => absurd rfl hne
  | .spawned c, _ => by
      change l.effects <+: (l.onSpawned c).effects
      by_cases hcurrent : l.child = some c ∧ l.currentState = .spawning
      · rw [onSpawned_eq l hcurrent.1 hcurrent.2 h.attaches]
        exact List.prefix_append _ _
      · have hsame : (l.onSpawned c).effects = l.effects :=
          congrArg QueryHostLauncher.effects (if_neg hcurrent)
        exact ⟨[], by rw [List.append_nil, hsame]⟩
  | .exited c, _ => by
      change l.effects <+: (l.onExited m c).effects
      unfold QueryHostLauncher.onExited
      split_ifs
      · exact grows_hostExited { l with child := none }
      · exact List.prefix_refl _
  | .error c, _ => by
      change l.effects <+: (l.onExited m c).effects
      unfold QueryHostLauncher.onExited
      split_ifs
      · exact grows_hostExited { l with child := none }
      · exact List.prefix_refl _
  | .backoffElapsed, _ => by
      change l.effects <+: (l.onBackoffElapsed m).effects
      dsimp only [QueryHostLauncher.onBackoffElapsed]
      split_ifs
      · exact grows_fork { l with backoffTimer := none }
      · exact List.prefix_refl _
      · exact List.prefix_refl _

end QueryHostLauncher

end WireTools.QueryPort
