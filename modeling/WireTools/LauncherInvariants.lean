import Mathlib.Data.List.Nodup
import WireTools.QueryHostLauncher
import WireTools.Runs

/-! # What the launcher keeps consistent

* `controlsOf`, `hostPorts`: the control messages a child was posted and the ports it holds once
  it has processed them;
* `Consistent` is the launcher's invariant, `Settled` the part of it that does not depend on the
  state; `hostExited_eq` and `onSpawned_eq` say what the two transitions with loops do;
* `consistent_step`: every input preserves it. -/

namespace WireTools.QueryPort

namespace QueryHostLauncher

/-! ### Reading the effects -/

/-- The control messages posted to a child. -/
def controlsOf (c : ChildId) (effects : List Effect) : List HostControl :=
  effects.filterMap fun
    | .posted d message => if d = c then some message else none
    | _ => none

/-- The ports a child holds once it has processed its control messages. -/
def hostPorts (c : ChildId) (effects : List Effect) : WindowId → Option ChannelId :=
  QueryHost.attached (controlsOf c effects)

def isPosted : Effect → Bool
  | .posted _ _ => true
  | _ => false

theorem controlsOf_append (c : ChildId) (es fs : List Effect) :
    controlsOf c (es ++ fs) = controlsOf c es ++ controlsOf c fs :=
  List.filterMap_append

theorem controlsOf_eq_nil {c : ChildId} {es : List Effect} (h : es.all (!isPosted ·) = true) :
    controlsOf c es = [] := by
  rw [controlsOf, List.filterMap_eq_nil_iff]
  intro e he
  have hposted := List.all_eq_true.mp h e he
  cases e with
  | posted d message => cases hposted
  | _ => rfl

theorem controlsOf_posted (c : ChildId) (messages : List HostControl) :
    controlsOf c (messages.map (Effect.posted c)) = messages := by
  rw [controlsOf, List.filterMap_map]
  have hsome : ((fun
      | Effect.posted d message => if d = c then some message else none
      | _ => none) ∘ Effect.posted c) = some := by
    funext message
    exact if_pos rfl
  rw [hsome, List.filterMap_some]

theorem mem_closePorts {messages : List HostControl} {e : Effect} (h : e ∈ closePorts messages) :
    isPosted e = false := by
  obtain ⟨port, _, rfl⟩ := List.mem_map.mp h
  rfl

theorem closePorts_unposted (messages : List HostControl) :
    (closePorts messages).all (!isPosted ·) = true :=
  List.all_eq_true.mpr fun _ he => by rw [mem_closePorts he]; rfl

theorem closedPort1_mem {messages : List HostControl} {w : WindowId} {port : ChannelId}
    (h : .attach w port ∈ messages) : .closedPort1 port ∈ closePorts messages :=
  List.mem_map.mpr ⟨port, List.mem_filterMap.mpr ⟨_, h, rfl⟩, rfl⟩

/-! ### Sets and queues -/

@[simp] theorem mem_insert {v w : WindowId} {ws : List WindowId} :
    v ∈ insert w ws ↔ v ∈ ws ∨ v = w := by
  unfold insert
  split_ifs with h
  · constructor
    · exact Or.inl
    · rintro (hv | rfl)
      · exact hv
      · exact h
  · rw [List.mem_append, List.mem_singleton]

@[simp] theorem mem_delete {v w : WindowId} {ws : List WindowId} :
    v ∈ delete w ws ↔ v ∈ ws ∧ v ≠ w := by
  rw [delete, List.mem_filter, decide_eq_true_eq]

theorem delete_eq_nil {w : WindowId} {ws : List WindowId} (h : ws = []) : delete w ws = [] := by
  rw [h]
  rfl

theorem isAttachOf_iff {w : WindowId} {message : HostControl} (h : message.port.isSome = true) :
    isAttachOf w message = true ↔ message.windowId = w := by
  rw [isAttachOf, h, Bool.true_and, beq_iff_eq]

/-- A queue of attaches, one per window, loses the window's attach. -/
theorem eraseP_isAttachOf (w : WindowId) : ∀ {queue : List HostControl},
    (∀ message ∈ queue, message.port.isSome = true) → (queue.map HostControl.windowId).Nodup →
      queue.eraseP (isAttachOf w) = queue.filter fun message => message.windowId ≠ w
  | [], _, _ => rfl
  | message :: queue, h, hnodup => by
      rw [List.map_cons, List.nodup_cons] at hnodup
      have hat := @isAttachOf_iff w message (h message (by simp))
      have ih := eraseP_isAttachOf w (fun m hm => h m (List.mem_cons_of_mem _ hm)) hnodup.2
      by_cases hw : message.windowId = w
      · have hrest : queue.filter (fun m => m.windowId ≠ w) = queue := by
          refine List.filter_eq_self.mpr fun m hm => decide_eq_true ?_
          rintro rfl
          exact hnodup.1 (hw ▸ List.mem_map_of_mem hm)
        rw [List.eraseP_cons_of_pos (hat.mpr hw), List.filter_cons_of_neg (by simp [hw]), hrest]
      · rw [List.eraseP_cons_of_neg fun hp => hw (hat.mp hp),
          List.filter_cons_of_pos (by simp [hw]), ih]

/-- What is in a list is found, or still there once the found item is erased. -/
theorem mem_eraseP_or_find? {α : Type} {p : α → Bool} {a : α} : ∀ {l : List α}, a ∈ l →
    a ∈ l.eraseP p ∨ l.find? p = some a
  | b :: l, h => by
      by_cases hb : p b = true
      · rw [List.eraseP_cons_of_pos hb, List.find?_cons_of_pos hb]
        rcases List.mem_cons.mp h with rfl | h
        · exact Or.inr rfl
        · exact Or.inl h
      · rw [List.eraseP_cons_of_neg hb, List.find?_cons_of_neg hb]
        rcases List.mem_cons.mp h with rfl | h
        · exact Or.inl (by simp)
        · exact (mem_eraseP_or_find? h).imp_left (List.mem_cons_of_mem b)

/-! ### The transitions with loops -/

variable (m : Moment) (l : QueryHostLauncher)

theorem foldl_sendToWindow (message : WindowId → Effect) : ∀ {ws : List WindowId}
    (l : QueryHostLauncher), (∀ w ∈ ws, m.destroyed w = false) →
      ws.foldl (fun l w => l.sendToWindow m message w) l = l.perform (ws.map message)
  | [], l, _ => by
      rw [perform, List.map_nil, List.append_nil]
      rfl
  | w :: ws, l, h => by
      rw [List.foldl_cons, foldl_sendToWindow message _ fun v hv => h v (List.mem_cons_of_mem _ hv),
        sendToWindow, h w (by simp)]
      simp [perform]

theorem foldl_failWindow : ∀ {ws : List WindowId} (l : QueryHostLauncher),
    (∀ w ∈ ws, m.destroyed w = false) →
      ws.foldl (fun l w => l.failWindow m w) l =
        { l with waiting := ws.foldl (fun vs w => insert w vs) l.waiting }.perform
          (ws.map .queryHostFailed)
  | [], l, _ => by
      rw [perform, List.map_nil, List.append_nil]
      rfl
  | w :: ws, l, h => by
      rw [List.foldl_cons, foldl_failWindow _ fun v hv => h v (List.mem_cons_of_mem _ hv),
        failWindow, sendToWindow, h w (by simp)]
      simp [perform]

/-- An exit of the current host: the queue is closed and every live window hears of it. -/
theorem hostExited_eq : l.hostExited m =
    if MaxRestarts < (countedExits m l).length then
      { l with
        exits := countedExits m l
        history := l.history ++ [m.now]
        queue := []
        attached := []
        currentState := .failed
        waiting := (liveWindows m l).foldl (fun vs w => insert w vs) l.waiting
        effects := l.effects ++ (closePorts l.queue ++ (liveWindows m l).map .queryHostFailed) }
    else
      { l with
        exits := countedExits m l
        history := l.history ++ [m.now]
        queue := []
        attached := []
        currentState := .backoff
        backoffTimer := some (backoffDelayMs (countedExits m l).length)
        effects := l.effects ++ (closePorts l.queue ++ (liveWindows m l).map .queryHostExited) } := by
  have hlive : ∀ w ∈ liveWindows m l, m.destroyed w = false := by
    intro w hw
    simpa using (List.mem_filter.mp hw).2
  dsimp only [hostExited]
  rw [foldl_failWindow m _ hlive, foldl_sendToWindow m _ _ hlive]
  simp only [perform, clearQueue, List.append_assoc]

theorem foldl_flush {c : ChildId} : ∀ {queue : List HostControl} (l : QueryHostLauncher),
    l.child = some c → (∀ message ∈ queue, message.port.isSome = true) → queue.foldl flush l =
      { l with
        attached := (queue.map HostControl.windowId).foldl (fun vs w => insert w vs) l.attached
        effects := l.effects ++ queue.map (.posted c) }
  | [], l, _, _ => by simp
  | message :: queue, l, hchild, hqueue => by
      have hone : l.flush message =
          { l with
            attached := insert message.windowId l.attached
            effects := l.effects ++ [.posted c message] } := by
        simp [flush, hqueue message (by simp), postControl, perform, hchild]
      have hchild' : (l.flush message).child = some c := by
        rw [hone]
        exact hchild
      rw [List.foldl_cons,
        foldl_flush _ hchild' fun m hm => hqueue m (List.mem_cons_of_mem _ hm), hone]
      simp

/-- The spawn of the current host: the queue is posted and its windows are attached. -/
theorem onSpawned_eq {c : ChildId} (hchild : l.child = some c) (hstate : l.currentState = .spawning)
    (hqueue : ∀ message ∈ l.queue, message.port.isSome = true) : l.onSpawned c =
      { l with
        currentState := .ready
        queue := []
        attached := (l.queue.map HostControl.windowId).foldl (fun vs w => insert w vs) l.attached
        effects := l.effects ++ l.queue.map (.posted c) } := by
  rw [onSpawned, if_pos ⟨hchild, hstate⟩]
  refine foldl_flush _ ?_ hqueue
  exact hchild

/-! ### The invariant -/

variable {m l}

/-- A channel's port1 was transferred or closed, or is still queued. -/
def Accounted (l : QueryHostLauncher) (port : ChannelId) : Prop :=
  (∃ c w, .posted c (.attach w port) ∈ l.effects) ∨ .closedPort1 port ∈ l.effects ∨
    ∃ w, .attach w port ∈ l.queue

/-- What does not depend on the state. -/
structure Settled (l : QueryHostLauncher) : Prop where
  /-- Only attaches are queued. -/
  attaches : ∀ message ∈ l.queue, message.port.isSome = true
  /-- At most one per window. -/
  nodup : (l.queue.map HostControl.windowId).Nodup
  ports : ∀ port < l.channels, Accounted l port
  posted_lt : ∀ c message, .posted c message ∈ l.effects → c < l.forks
  counted : l.exits.Sublist l.history

structure Consistent (l : QueryHostLauncher) : Prop extends Settled l where
  child_iff : l.child.isSome = true ↔ l.currentState = .spawning ∨ l.currentState = .ready
  timer_iff : l.backoffTimer.isSome = true ↔ l.currentState = .backoff
  queue_state : l.queue ≠ [] →
    l.currentState = .idle ∨ l.currentState = .spawning ∨ l.currentState = .backoff
  attached_state : l.attached ≠ [] → l.currentState = .ready ∨ l.currentState = .disposed
  child_lt : ∀ c, l.child = some c → c < l.forks
  /-- The attached windows are those whose port the host holds, once it is up to date. -/
  attached_iff : ∀ c, l.child = some c →
    ∀ w, w ∈ l.attached ↔ (hostPorts c l.effects w).isSome = true

theorem Accounted.of {l' : QueryHostLauncher} {port : ChannelId} (h : Accounted l port)
    (heffects : l.effects ⊆ l'.effects)
    (hqueue : ∀ w, .attach w port ∈ l.queue → Accounted l' port) : Accounted l' port := by
  rcases h with ⟨c, w, h⟩ | h | ⟨w, h⟩
  · exact Or.inl ⟨c, w, heffects h⟩
  · exact Or.inr (Or.inl (heffects h))
  · exact hqueue w h

theorem not_posted_of_all {es : List Effect} (h : es.all (!isPosted ·) = true) (c : ChildId)
    (message : HostControl) : .posted c message ∉ es := by
  intro hmem
  have hposted := List.all_eq_true.mp h _ hmem
  cases hposted

theorem posted_of_append {es fs : List Effect} (h : fs.all (!isPosted ·) = true) {c : ChildId}
    {message : HostControl} (hmem : .posted c message ∈ es ++ fs) : .posted c message ∈ es :=
  (List.mem_append.mp hmem).resolve_right (not_posted_of_all h c message)

theorem hostPorts_append {es fs : List Effect} (h : fs.all (!isPosted ·) = true) (c : ChildId) :
    hostPorts c (es ++ fs) = hostPorts c es := by
  rw [hostPorts, controlsOf_append, controlsOf_eq_nil h, List.append_nil]
  rfl

/-- A child that was posted nothing holds no port. -/
theorem hostPorts_of_lt {c : ChildId} {es : List Effect}
    (h : ∀ d message, .posted d message ∈ es → d < c) (w : WindowId) : hostPorts c es w = none := by
  have hnil : controlsOf c es = [] := by
    rw [controlsOf, List.filterMap_eq_nil_iff]
    intro e he
    cases e with
    | posted d message => exact if_neg (Nat.ne_of_lt (h d message he))
    | _ => rfl
  rw [hostPorts, hnil, QueryHost.attached_nil]

theorem Settled.perform (h : Settled l) {es : List Effect} (hes : es.all (!isPosted ·) = true) :
    Settled (l.perform es) where
  attaches := h.attaches
  nodup := h.nodup
  ports port hport := (h.ports port hport).of (List.subset_append_left _ _)
    fun w hw => Or.inr (Or.inr ⟨w, hw⟩)
  posted_lt c message hmem := h.posted_lt c message (posted_of_append hes hmem)
  counted := h.counted

theorem Consistent.perform (h : Consistent l) {es : List Effect}
    (hes : es.all (!isPosted ·) = true) : Consistent (l.perform es) where
  toSettled := h.toSettled.perform hes
  child_iff := h.child_iff
  timer_iff := h.timer_iff
  queue_state := h.queue_state
  attached_state := h.attached_state
  child_lt := h.child_lt
  attached_iff c hc w := by
    change w ∈ l.attached ↔ (hostPorts c (l.effects ++ es) w).isSome = true
    rw [hostPorts_append hes]
    exact h.attached_iff c hc w

theorem Consistent.sendPort (h : Consistent l) (w : WindowId) (port : ChannelId) :
    Consistent (l.sendPort m w port) := by
  unfold QueryHostLauncher.sendPort
  split_ifs
  · exact h.perform rfl
  · exact h.perform rfl

theorem Consistent.sendToWindow (h : Consistent l) {message : WindowId → Effect} {w : WindowId}
    (hmessage : isPosted (message w) = false) : Consistent (l.sendToWindow m message w) := by
  unfold QueryHostLauncher.sendToWindow
  split_ifs
  · exact h.perform rfl
  · exact h.perform (by rw [List.all_cons, hmessage]; rfl)

/-- What the invariant does not read may change. -/
theorem Consistent.windows (h : Consistent l) (windows waiting : List WindowId) :
    Consistent { l with windows := windows, waiting := waiting } :=
  ⟨⟨h.attaches, h.nodup, h.ports, h.posted_lt, h.counted⟩, h.child_iff, h.timer_iff,
    h.queue_state, h.attached_state, h.child_lt, h.attached_iff⟩

/-! ### Hosts come and go -/

/-- The queue is closed when the host is gone. -/
theorem Settled.gone (h : Settled l) {exits history : List ℤ} (hcounted : exits.Sublist history)
    (es : List Effect) (hes : es.all (!isPosted ·) = true) :
    Settled
      { l with
        exits := exits
        history := history
        queue := []
        effects := l.effects ++ (closePorts l.queue ++ es) } where
  attaches _ hm := absurd hm List.not_mem_nil
  nodup := List.nodup_nil
  ports port hport := (h.ports port hport).of (List.subset_append_left _ _) fun w hw =>
    Or.inr (Or.inl (List.mem_append_right _ (List.mem_append_left _ (closedPort1_mem hw))))
  posted_lt c message hmem := h.posted_lt c message (posted_of_append
    (by rw [List.all_append, closePorts_unposted, hes]; rfl) hmem)
  counted := hcounted

theorem countedExits_sublist (h : l.exits.Sublist l.history) :
    (countedExits m l).Sublist (l.history ++ [m.now]) :=
  (List.filter_sublist.trans h).append (List.Sublist.refl _)

theorem all_map_queryHostExited (ws : List WindowId) :
    (ws.map Effect.queryHostExited).all (!isPosted ·) = true := by
  rw [List.all_map]
  exact List.all_eq_true.mpr fun _ _ => rfl

theorem all_map_queryHostFailed (ws : List WindowId) :
    (ws.map Effect.queryHostFailed).all (!isPosted ·) = true := by
  rw [List.all_map]
  exact List.all_eq_true.mpr fun _ _ => rfl

theorem Settled.hostExited (h : Settled l) (hchild : l.child = none)
    (htimer : l.backoffTimer = none) : Consistent (l.hostExited m) := by
  rw [hostExited_eq]
  split_ifs
  · have hgone := h.gone (countedExits_sublist (m := m) h.counted) _
      (all_map_queryHostFailed (liveWindows m l))
    exact
      { attaches := hgone.attaches
        nodup := hgone.nodup
        ports := hgone.ports
        posted_lt := hgone.posted_lt
        counted := hgone.counted
        child_iff := by simp [hchild]
        timer_iff := by simp [htimer]
        queue_state := by simp
        attached_state := by simp
        child_lt := by simp [hchild]
        attached_iff := by simp [hchild] }
  · have hgone := h.gone (countedExits_sublist (m := m) h.counted) _
      (all_map_queryHostExited (liveWindows m l))
    exact
      { attaches := hgone.attaches
        nodup := hgone.nodup
        ports := hgone.ports
        posted_lt := hgone.posted_lt
        counted := hgone.counted
        child_iff := by simp [hchild]
        timer_iff := by simp
        queue_state := by simp
        attached_state := by simp
        child_lt := by simp [hchild]
        attached_iff := by simp [hchild] }

theorem Settled.fork (h : Settled l) (htimer : l.backoffTimer = none)
    (hattached : l.attached = []) : Consistent (l.fork m) := by
  dsimp only [QueryHostLauncher.fork]
  split_ifs
  · exact Settled.hostExited ⟨h.attaches, h.nodup, h.ports, h.posted_lt, h.counted⟩ rfl htimer
  · refine Consistent.perform ?_ rfl
    exact
      { attaches := h.attaches
        nodup := h.nodup
        ports := h.ports
        posted_lt := fun c message hmem => Nat.lt_succ_of_lt (h.posted_lt c message hmem)
        counted := h.counted
        child_iff := by simp
        timer_iff := by simp [htimer]
        queue_state := fun _ => Or.inr (Or.inl rfl)
        attached_state := fun hne => absurd hattached hne
        child_lt := fun c hc => Option.some.inj hc ▸ Nat.lt_succ_self _
        attached_iff := by
          intro c hc w
          obtain rfl : l.forks = c := Option.some.inj hc
          change w ∈ l.attached ↔ (hostPorts l.forks l.effects w).isSome = true
          rw [hattached, hostPorts_of_lt h.posted_lt]
          simp }

theorem Consistent.timer_none (h : Consistent l) (hstate : l.currentState ≠ .backoff) :
    l.backoffTimer = none := by
  rw [← Option.not_isSome_iff_eq_none, h.timer_iff]
  exact hstate

theorem Consistent.child_none (h : Consistent l) (hs : l.currentState ≠ .spawning)
    (hr : l.currentState ≠ .ready) : l.child = none := by
  rw [← Option.not_isSome_iff_eq_none, h.child_iff, not_or]
  exact ⟨hs, hr⟩

theorem Consistent.attached_nil (h : Consistent l) (hr : l.currentState ≠ .ready)
    (hd : l.currentState ≠ .disposed) : l.attached = [] := by
  by_contra hne
  exact (h.attached_state hne).elim hr hd

theorem Consistent.queue_nil (h : Consistent l) (hi : l.currentState ≠ .idle)
    (hs : l.currentState ≠ .spawning) (hb : l.currentState ≠ .backoff) : l.queue = [] := by
  by_contra hne
  rcases h.queue_state hne with hstate | hstate | hstate
  · exact hi hstate
  · exact hs hstate
  · exact hb hstate

theorem Consistent.start (h : Consistent l) : Consistent (l.start m) := by
  unfold QueryHostLauncher.start
  split_ifs with hidle
  · have hne : ∀ {state}, state ≠ QueryHostState.idle → l.currentState ≠ state :=
      fun hstate heq => hstate (heq ▸ hidle)
    exact h.toSettled.fork (h.timer_none (hne nofun))
      (h.attached_nil (hne nofun) (hne nofun))
  · exact h

theorem Consistent.onBackoffElapsed (h : Consistent l) : Consistent (l.onBackoffElapsed m) := by
  dsimp only [QueryHostLauncher.onBackoffElapsed]
  split_ifs with htimer hstate
  · have hne : ∀ {state}, state ≠ QueryHostState.backoff → l.currentState ≠ state :=
      fun hstate' heq => hstate' (heq ▸ hstate)
    exact Settled.fork ⟨h.attaches, h.nodup, h.ports, h.posted_lt, h.counted⟩ rfl
      (h.attached_nil (hne nofun) (hne nofun))
  · exact absurd (h.timer_iff.mp htimer) hstate
  · exact h

theorem Consistent.onExited (h : Consistent l) (c : ChildId) : Consistent (l.onExited m c) := by
  unfold QueryHostLauncher.onExited
  split_ifs with hc
  · have hstate := h.child_iff.mp (by rw [hc.1]; rfl)
    have htimer : l.backoffTimer = none := h.timer_none (by
      intro hb
      rw [hb] at hstate
      rcases hstate with hs | hs <;> cases hs)
    exact Settled.hostExited ⟨h.attaches, h.nodup, h.ports, h.posted_lt, h.counted⟩ rfl htimer
  · exact h

theorem Consistent.dispose (h : Consistent l) : Consistent l.dispose := by
  dsimp only [QueryHostLauncher.dispose]
  split_ifs
  · exact h
  · have hgone := h.toSettled.gone h.counted [] rfl
    rw [List.append_nil] at hgone
    refine Consistent.perform ?_ ?_
    · exact
        { attaches := hgone.attaches
          nodup := hgone.nodup
          ports := hgone.ports
          posted_lt := hgone.posted_lt
          counted := h.counted
          child_iff := by simp [clearQueue, QueryHostLauncher.perform]
          timer_iff := by simp [clearQueue, QueryHostLauncher.perform]
          queue_state := fun hne => absurd rfl hne
          attached_state := fun _ => Or.inr rfl
          child_lt := nofun
          attached_iff := nofun }
    · rw [List.all_map]
      exact List.all_eq_true.mpr fun _ _ => rfl

/-! ### The queue -/

theorem Settled.mem_dropped (h : Settled l) {w : WindowId} {message : HostControl} :
    message ∈ l.queue.eraseP (isAttachOf w) ↔ message ∈ l.queue ∧ message.windowId ≠ w := by
  rw [eraseP_isAttachOf w h.attaches h.nodup, List.mem_filter, decide_eq_true_eq]

theorem Settled.dropQueuedAttach (h : Settled l) (w : WindowId) :
    Settled (l.dropQueuedAttach w) where
  attaches message hm := h.attaches message (h.mem_dropped.mp hm).1
  nodup := h.nodup.sublist ((List.eraseP_sublist).map _)
  ports port hport := by
    refine (h.ports port hport).of (List.subset_append_left _ _) fun v hv => ?_
    rcases mem_eraseP_or_find? (p := isAttachOf w) hv with hleft | hfound
    · exact Or.inr (Or.inr ⟨v, hleft⟩)
    · refine Or.inr (Or.inl (List.mem_append_right _ (closedPort1_mem (w := v) ?_)))
      rw [hfound]
      exact List.mem_singleton_self _
  posted_lt c message hmem :=
    h.posted_lt c message (posted_of_append (closePorts_unposted _) hmem)
  counted := h.counted

theorem Consistent.dropQueuedAttach (h : Consistent l) (w : WindowId) :
    Consistent (l.dropQueuedAttach w) where
  toSettled := h.toSettled.dropQueuedAttach w
  child_iff := h.child_iff
  timer_iff := h.timer_iff
  queue_state hne := h.queue_state fun hnil => hne (by
    change l.queue.eraseP _ = []
    rw [hnil]
    rfl)
  attached_state := h.attached_state
  child_lt := h.child_lt
  attached_iff c hc v := by
    change v ∈ l.attached ↔ (hostPorts c (l.effects ++ closePorts _) v).isSome = true
    rw [hostPorts_append (closePorts_unposted _)]
    exact h.attached_iff c hc v

theorem Consistent.enqueueAttach (h : Consistent l)
    (hstate : l.currentState = .idle ∨ l.currentState = .spawning ∨ l.currentState = .backoff)
    (w : WindowId) (windows : List WindowId) :
    Consistent ({ l with windows := windows, channels := l.channels + 1 }.enqueueAttach w
      l.channels) := by
  have hdrop := h.dropQueuedAttach w
  exact
    { attaches := by
        intro message hm
        rcases List.mem_append.mp hm with hm | hm
        · exact hdrop.attaches message hm
        · rw [List.mem_singleton.mp hm]
          rfl
      nodup := by
        change ((l.queue.eraseP (isAttachOf w) ++
          [HostControl.attach w l.channels]).map HostControl.windowId).Nodup
        rw [List.map_append, List.nodup_append]
        refine ⟨hdrop.nodup, List.nodup_singleton _, ?_⟩
        intro v hv u hu
        obtain ⟨message, hm, rfl⟩ := List.mem_map.mp hv
        rw [List.mem_singleton.mp hu]
        exact (h.mem_dropped.mp hm).2
      ports := by
        intro port hport
        rcases Nat.lt_succ_iff_lt_or_eq.mp hport with hlt | rfl
        · exact (hdrop.ports port hlt).of (List.Subset.refl _) fun v hv =>
            Or.inr (Or.inr ⟨v, List.mem_append_left _ hv⟩)
        · exact Or.inr (Or.inr ⟨w, List.mem_append_right _ (List.mem_singleton_self _)⟩)
      posted_lt := hdrop.posted_lt
      counted := hdrop.counted
      child_iff := hdrop.child_iff
      timer_iff := hdrop.timer_iff
      queue_state := fun _ => hstate
      attached_state := hdrop.attached_state
      child_lt := hdrop.child_lt
      attached_iff := hdrop.attached_iff }

/-! ### Control messages -/

theorem hostPorts_posted {c : ChildId} {es : List Effect} {message : HostControl}
    (w : WindowId) : hostPorts c (es ++ [.posted c message]) w =
      if w = message.windowId then message.port else hostPorts c es w := by
  have hone : controlsOf c [.posted c message] = [message] := controlsOf_posted c [message]
  rw [hostPorts, controlsOf_append, hone, QueryHost.attached_append]
  rfl

/-- A message to the current host, with the windows that are attached after it. -/
theorem Consistent.post (h : Consistent l) {c : ChildId} (hc : l.child = some c)
    (hready : l.currentState = .ready) (message : HostControl) {attached : List WindowId}
    (hattached : ∀ w, w ∈ attached ↔
      if w = message.windowId then message.port.isSome = true else w ∈ l.attached)
    {channels : ℕ}
    (hports : ∀ port < channels, port < l.channels ∨ ∃ w, message = .attach w port) :
    Consistent
      { l with
        attached := attached
        channels := channels
        effects := l.effects ++ [.posted c message] } where
  attaches := h.attaches
  nodup := h.nodup
  ports port hport := by
    rcases hports port hport with hlt | ⟨w, rfl⟩
    · exact (h.ports port hlt).of (List.subset_append_left _ _)
        fun w hw => Or.inr (Or.inr ⟨w, hw⟩)
    · exact Or.inl ⟨c, w, List.mem_append_right _ (List.mem_singleton_self _)⟩
  posted_lt d sent hmem := by
    rcases List.mem_append.mp hmem with hmem | hmem
    · exact h.posted_lt d sent hmem
    · cases List.mem_singleton.mp hmem
      exact h.child_lt c hc
  counted := h.counted
  child_iff := h.child_iff
  timer_iff := h.timer_iff
  queue_state := h.queue_state
  attached_state _ := Or.inl hready
  child_lt := h.child_lt
  attached_iff d hd w := by
    obtain rfl : c = d := Option.some.inj (hc.symm.trans hd)
    rw [hattached, hostPorts_posted]
    split_ifs
    · exact Iff.rfl
    · exact h.attached_iff c hc w

theorem Consistent.detach (h : Consistent l) {c : ChildId} (hc : l.child = some c)
    (hready : l.currentState = .ready) (w : WindowId) :
    Consistent
      { l with
        attached := delete w l.attached
        effects := l.effects ++ [.posted c (.detach w)] } := by
  refine h.post hc hready (.detach w) (fun v => ?_) fun port hport => Or.inl hport
  rw [mem_delete, HostControl.windowId, HostControl.port]
  by_cases hv : v = w
  · simp [hv]
  · simp [hv]

theorem Consistent.attach (h : Consistent l) {c : ChildId} (hc : l.child = some c)
    (hready : l.currentState = .ready) (w : WindowId) (attached : List WindowId)
    (hattached : ∀ v, v ≠ w → (v ∈ attached ↔ v ∈ l.attached)) :
    Consistent
      { l with
        attached := insert w attached
        channels := l.channels + 1
        effects := l.effects ++ [.posted c (.attach w l.channels)] } := by
  refine h.post hc hready (.attach w l.channels) (fun v => ?_) fun port hport => ?_
  · rw [mem_insert, HostControl.windowId, HostControl.port]
    by_cases hv : v = w
    · simp [hv]
    · simp [hv, hattached v hv]
  · rcases Nat.lt_succ_iff_lt_or_eq.mp hport with hlt | rfl
    · exact Or.inl hlt
    · exact Or.inr ⟨w, rfl⟩

/-- A window is forgotten that no running host holds a port of. -/
theorem Consistent.forget (h : Consistent l) {w : WindowId}
    (hw : l.child.isSome = true → w ∉ l.attached) :
    Consistent { l with attached := delete w l.attached } where
  attaches := h.attaches
  nodup := h.nodup
  ports := h.ports
  posted_lt := h.posted_lt
  counted := h.counted
  child_iff := h.child_iff
  timer_iff := h.timer_iff
  queue_state := h.queue_state
  attached_state hne := h.attached_state fun hnil => hne (delete_eq_nil hnil)
  child_lt := h.child_lt
  attached_iff c hc v := by
    rw [mem_delete, ← h.attached_iff c hc v, and_iff_left_iff_imp]
    rintro hv rfl
    exact hw (by rw [hc]; rfl) hv

theorem Consistent.exists_child (h : Consistent l) (hready : l.currentState = .ready) :
    ∃ c, l.child = some c :=
  Option.isSome_iff_exists.mp (h.child_iff.mpr (Or.inr hready))

theorem Consistent.attachNow (h : Consistent l) (hready : l.currentState = .ready)
    (w : WindowId) : Consistent (l.attachNow m w) := by
  obtain ⟨c, hc⟩ := h.exists_child hready
  dsimp only [QueryHostLauncher.attachNow]
  refine Consistent.sendPort ?_ w _
  split_ifs with hw
  · have hdetach := h.detach hc hready w
    have hattach := hdetach.attach hc hready w l.attached fun v hv => by simp [hv]
    have hall := hattach.windows (insert w l.windows) l.waiting
    simpa [postControl, QueryHostLauncher.perform, hc] using hall
  · have hattach := h.attach hc hready w l.attached fun v _ => Iff.rfl
    have hall := hattach.windows (insert w l.windows) l.waiting
    simpa [postControl, QueryHostLauncher.perform, hc] using hall

theorem Consistent.portRequested (h : Consistent l) (w : WindowId) :
    Consistent (l.portRequested m w) := by
  unfold QueryHostLauncher.portRequested
  cases hstate : l.currentState with
  | disposed => exact h
  | failed => exact Consistent.sendToWindow (h.windows (insert w l.windows) _) rfl
  | ready => exact h.attachNow hstate w
  | idle => exact (h.enqueueAttach (Or.inl hstate) w _).sendPort w _
  | spawning => exact (h.enqueueAttach (Or.inr (Or.inl hstate)) w _).sendPort w _
  | backoff => exact (h.enqueueAttach (Or.inr (Or.inr hstate)) w _).sendPort w _

/-- The queued attach of a window goes while no host runs. -/
theorem Consistent.closeQueued (h : Consistent l) (hr : l.currentState ≠ .ready)
    (hd : l.currentState ≠ .disposed) (w : WindowId) :
    Consistent
      { l.dropQueuedAttach w with attached := delete w (l.dropQueuedAttach w).attached } := by
  refine (h.dropQueuedAttach w).forget fun _ hw => ?_
  change w ∈ l.attached at hw
  rw [h.attached_nil hr hd] at hw
  exact List.not_mem_nil hw

theorem Consistent.windowClosed (h : Consistent l) (w : WindowId) :
    Consistent (l.windowClosed w) := by
  refine Consistent.windows (l := { l.dropPort w with attached := delete w _ }) ?_ _ _
  unfold QueryHostLauncher.dropPort
  cases hstate : l.currentState with
  | disposed =>
      have hchild := h.child_none (by rw [hstate]; nofun) (by rw [hstate]; nofun)
      exact h.forget (by simp [hchild])
  | failed =>
      have hchild := h.child_none (by rw [hstate]; nofun) (by rw [hstate]; nofun)
      exact h.forget (by simp [hchild])
  | ready =>
      obtain ⟨c, hc⟩ := h.exists_child hstate
      simp only
      split_ifs with hw
      · simpa [postControl, QueryHostLauncher.perform, hc] using h.detach hc hstate w
      · exact h.forget fun _ => hw
  | idle => exact h.closeQueued (by rw [hstate]; nofun) (by rw [hstate]; nofun) w
  | spawning => exact h.closeQueued (by rw [hstate]; nofun) (by rw [hstate]; nofun) w
  | backoff => exact h.closeQueued (by rw [hstate]; nofun) (by rw [hstate]; nofun) w

theorem mem_foldl_insert {v : WindowId} : ∀ {ws vs : List WindowId},
    v ∈ ws.foldl (fun vs w => insert w vs) vs ↔ v ∈ vs ∨ v ∈ ws
  | [], vs => by simp
  | w :: ws, vs => by
      rw [List.foldl_cons, mem_foldl_insert, mem_insert, List.mem_cons, or_assoc]

/-- The ports held after a list of attaches is posted. -/
theorem hostPorts_attaches {c : ChildId} {v : WindowId} : ∀ {messages : List HostControl}
    {es : List Effect}, (∀ message ∈ messages, message.port.isSome = true) →
      ((hostPorts c (es ++ messages.map (.posted c)) v).isSome = true ↔
        (hostPorts c es v).isSome = true ∨ v ∈ messages.map HostControl.windowId)
  | [], es, _ => by simp
  | message :: messages, es, h => by
      have hcons : es ++ (message :: messages).map (Effect.posted c) =
          es ++ [.posted c message] ++ messages.map (.posted c) := by simp
      rw [hcons, hostPorts_attaches fun m hm => h m (List.mem_cons_of_mem _ hm),
        hostPorts_posted, List.map_cons, List.mem_cons]
      by_cases hv : v = message.windowId
      · simp [hv, h message (by simp)]
      · simp [hv]

theorem Consistent.onSpawned (h : Consistent l) (c : ChildId) : Consistent (l.onSpawned c) := by
  by_cases hcurrent : l.child = some c ∧ l.currentState = .spawning
  · obtain ⟨hchild, hstate⟩ := hcurrent
    have hnil := h.attached_nil (by rw [hstate]; nofun) (by rw [hstate]; nofun)
    rw [onSpawned_eq l hchild hstate h.attaches]
    exact
      { attaches := nofun
        nodup := List.nodup_nil
        ports := fun port hport => (h.ports port hport).of (List.subset_append_left _ _)
          fun w hw => Or.inl ⟨c, w, List.mem_append_right _ (List.mem_map_of_mem hw)⟩
        posted_lt := by
          intro d message hmem
          rcases List.mem_append.mp hmem with hmem | hmem
          · exact h.posted_lt d message hmem
          · obtain ⟨_, _, heq⟩ := List.mem_map.mp hmem
            cases heq
            exact h.child_lt c hchild
        counted := h.counted
        child_iff := by simp [hchild]
        timer_iff := by
          have htimer := h.timer_none (by rw [hstate]; nofun)
          simp [htimer]
        queue_state := by simp
        attached_state := by simp
        child_lt := h.child_lt
        attached_iff := by
          intro d hd v
          obtain rfl : c = d := Option.some.inj (hchild.symm.trans hd)
          change v ∈ List.foldl _ _ _ ↔
            (hostPorts c (l.effects ++ l.queue.map (.posted c)) v).isSome = true
          rw [mem_foldl_insert, hostPorts_attaches h.attaches, h.attached_iff c hchild v] }
  · rw [QueryHostLauncher.onSpawned, if_neg hcurrent]
    exact h

theorem Consistent.restartRequested (h : Consistent l) : Consistent (l.restartRequested m) := by
  dsimp only [QueryHostLauncher.restartRequested]
  split_ifs with hstate
  · have hsettled : Settled { l with exits := [], history := [], waiting := [] } :=
      ⟨h.attaches, h.nodup, h.ports, h.posted_lt, List.Sublist.refl _⟩
    have hfork : Consistent ({ l with exits := [], history := [], waiting := [] }.fork m) :=
      hsettled.fork (h.timer_none (by rw [hstate]; nofun))
        (h.attached_nil (by rw [hstate]; nofun) (by rw [hstate]; nofun))
    generalize { l with exits := [], history := [], waiting := [] }.fork m = forked at hfork ⊢
    generalize l.waiting.filter _ = waiting
    induction waiting generalizing forked with
    | nil => exact hfork
    | cons w waiting ih => exact ih _ (hfork.portRequested w)
  · exact h

/-- Every input preserves the invariant. -/
theorem consistent_step (h : Consistent l) : ∀ input : Input, Consistent (l.step m input)
  | .start => h.start
  | .portRequested w => h.portRequested w
  | .windowClosed w => h.windowClosed w
  | .restartRequested => h.restartRequested
  | .dispose => h.dispose
  | .spawned c => h.onSpawned c
  | .exited c => h.onExited c
  | .error c => h.onExited c
  | .backoffElapsed => h.onBackoffElapsed

theorem consistent_initial : Consistent initial where
  attaches := nofun
  nodup := List.nodup_nil
  ports := nofun
  posted_lt := nofun
  counted := List.Sublist.refl _
  child_iff := by decide
  timer_iff := by decide
  queue_state := by decide
  attached_state := by decide
  child_lt := nofun
  attached_iff := nofun

end QueryHostLauncher

end WireTools.QueryPort
