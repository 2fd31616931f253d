import WireTools.LauncherInvariants

/-! # Runs of the launcher

* the states each input can lead to, by way of `hostExited_state` and `fork_state`;
* `failed_entered`, `failed_left`, `disposed_final`: the two states that are hard to leave;
* `launcher_invariants`: what holds in every state of a run in which no dispose finds a window
  attached.  A dispose leaves the attached windows in place. -/

namespace WireTools.QueryPort

namespace QueryHostLauncher

variable {m : Moment} {l : QueryHostLauncher}

/-! ### States -/

theorem hostExited_state : (l.hostExited m).currentState =
    if MaxRestarts < (countedExits m l).length then .failed else .backoff := by
  rw [hostExited_eq]
  split_ifs
  · rfl
  · rfl

theorem hostExited_history : (l.hostExited m).history = l.history ++ [m.now] := by
  rw [hostExited_eq]
  split_ifs
  · rfl
  · rfl

theorem fork_state : (l.fork m).currentState =
    if m.forkThrows then
      if MaxRestarts < (countedExits m l).length then .failed else .backoff
    else .spawning := by
  dsimp only [fork]
  split_ifs with hthrows hlt
  · rw [hostExited_state]
    exact if_pos hlt
  · rw [hostExited_state]
    exact if_neg hlt
  · rfl

theorem sendPort_state (w : WindowId) (port : ChannelId) :
    (l.sendPort m w port).currentState = l.currentState :=
  rfl

theorem portRequested_state (w : WindowId) :
    (l.portRequested m w).currentState = l.currentState := by
  unfold portRequested
  cases hstate : l.currentState with
  | ready =>
      dsimp only [attachNow]
      rw [sendPort_state]
      split_ifs
      · exact hstate
      · exact hstate
  | disposed => exact hstate
  | failed => exact hstate
  | idle => exact hstate
  | spawning => exact hstate
  | backoff => exact hstate

theorem windowClosed_state (w : WindowId) :
    (l.windowClosed w).currentState = l.currentState := by
  change (l.dropPort w).currentState = _
  unfold dropPort
  cases hstate : l.currentState with
  | ready =>
      simp only
      split_ifs
      · exact hstate
      · exact hstate
  | disposed => exact hstate
  | failed => exact hstate
  | idle => exact hstate
  | spawning => exact hstate
  | backoff => exact hstate

theorem foldl_portRequested_state : ∀ (ws : List WindowId) (l : QueryHostLauncher),
    (ws.foldl (fun l w => l.portRequested m w) l).currentState = l.currentState
  | [], _ => rfl
  | w :: ws, l => by
      rw [List.foldl_cons, foldl_portRequested_state ws, portRequested_state]

/-- A restart resets the count, so that it cannot fail again at once. -/
theorem restartRequested_state : (l.restartRequested m).currentState =
    if l.currentState = .failed then if m.forkThrows then .backoff else .spawning
    else l.currentState := by
  dsimp only [restartRequested]
  split_ifs with hstate hthrows
  · rw [foldl_portRequested_state, fork_state, if_pos hthrows]
    exact if_neg (by simp [countedExits, MaxRestarts])
  · rw [foldl_portRequested_state, fork_state, if_neg hthrows]
  · rfl

theorem onSpawned_state (h : Consistent l) (c : ChildId) : (l.onSpawned c).currentState =
    if l.child = some c ∧ l.currentState = .spawning then .ready else l.currentState := by
  split_ifs with hcurrent
  · rw [onSpawned_eq l hcurrent.1 hcurrent.2 h.attaches]
  · rw [onSpawned, if_neg hcurrent]

/-! ### Failed and disposed -/

/-- The exits of the interval that ends at this moment, since the last restart. -/
def recentExits (m : Moment) (l : QueryHostLauncher) : List ℤ :=
  l.history.filter fun at_ => m.now - at_ < RestartIntervalMs

theorem countedExits_filter (m : Moment) (l : QueryHostLauncher) :
    (countedExits m l).filter (fun at_ => m.now - at_ < RestartIntervalMs) = countedExits m l := by
  have hnow : (0 : ℤ) < RestartIntervalMs := by decide
  refine List.filter_eq_self.mpr fun at_ hat => ?_
  rcases List.mem_append.mp hat with hat | hat
  · exact (List.mem_filter.mp hat).2
  · rw [List.mem_singleton.mp hat, Int.sub_self, decide_eq_true_eq]
    exact hnow

/-- An exit that fails the launcher is preceded by too many recent ones. -/
theorem hostExited_failed (h : Settled l) (hfailed : (l.hostExited m).currentState = .failed) :
    MaxRestarts < (recentExits m (l.hostExited m)).length := by
  rw [hostExited_state] at hfailed
  split_ifs at hfailed with hlt
  have hsub := (countedExits_sublist (m := m) h.counted).filter
    fun at_ => decide (m.now - at_ < RestartIntervalMs)
  rw [countedExits_filter] at hsub
  rw [recentExits, hostExited_history]
  exact Nat.lt_of_lt_of_le hlt hsub.length_le

theorem fork_failed (h : Settled l) (hfailed : (l.fork m).currentState = .failed) :
    MaxRestarts < (recentExits m (l.fork m)).length := by
  dsimp only [fork] at hfailed ⊢
  split_ifs at hfailed ⊢
  · exact hostExited_failed ⟨h.attaches, h.nodup, h.ports, h.posted_lt, h.counted⟩ hfailed
  · cases hfailed

/-- `failed` is entered after too many recent exits only. -/
theorem failed_entered (h : Consistent l) {input : Input}
    (hfailed : (l.step m input).currentState = .failed) (hbefore : l.currentState ≠ .failed) :
    MaxRestarts < (recentExits m (l.step m input)).length := by
  have hexited : ∀ c, (l.onExited m c).currentState = .failed →
      MaxRestarts < (recentExits m (l.onExited m c)).length := by
    intro c hfailed
    unfold onExited at hfailed ⊢
    split_ifs at hfailed ⊢
    · exact hostExited_failed ⟨h.attaches, h.nodup, h.ports, h.posted_lt, h.counted⟩ hfailed
    · exact absurd hfailed hbefore
  cases input with
  | start =>
      change (l.start m).currentState = .failed at hfailed
      change MaxRestarts < (recentExits m (l.start m)).length
      unfold start at hfailed ⊢
      split_ifs at hfailed ⊢
      · exact fork_failed h.toSettled hfailed
      · exact absurd hfailed hbefore
  | portRequested w => exact absurd ((portRequested_state w).symm.trans hfailed) hbefore
  | windowClosed w => exact absurd ((windowClosed_state w).symm.trans hfailed) hbefore
  | restartRequested =>
      have hsame := (restartRequested_state (m := m) (l := l)).symm.trans hfailed
      rw [if_neg hbefore] at hsame
      exact absurd hsame hbefore
  | dispose =>
      change l.dispose.currentState = .failed at hfailed
      dsimp only [dispose] at hfailed
      split_ifs at hfailed with hdisposed
      · exact absurd hfailed hbefore
      · cases hfailed
  | spawned c =>
      have hsame := (onSpawned_state h c).symm.trans hfailed
      split_ifs at hsame
      exact absurd hsame hbefore
  | exited c => exact hexited c hfailed
  | error c => exact hexited c hfailed
  | backoffElapsed =>
      change (l.onBackoffElapsed m).currentState = .failed at hfailed
      change MaxRestarts < (recentExits m (l.onBackoffElapsed m)).length
      dsimp only [onBackoffElapsed] at hfailed ⊢
      split_ifs at hfailed ⊢
      · exact fork_failed ⟨h.attaches, h.nodup, h.ports, h.posted_lt, h.counted⟩ hfailed
      · exact absurd hfailed hbefore
      · exact absurd hfailed hbefore

/-- A state without a host and without a timer is left by a restart or a dispose only. -/
theorem state_stays (h : Consistent l) (hchild : l.child = none) (htimer : l.backoffTimer = none)
    (hidle : l.currentState ≠ .idle) : ∀ {input : Input}, input ≠ .restartRequested →
      input ≠ .dispose → (l.step m input).currentState = l.currentState
  | .start, _, _ => by
      change (l.start m).currentState = _
      rw [start, if_neg hidle]
  | .portRequested w, _, _ => portRequested_state w
  | .windowClosed w, _, _ => windowClosed_state w
  | .restartRequested, hne, _ => absurd rfl hne
  | .dispose, _, hne => absurd rfl hne
  | .spawned c, _, _ => by
      change (l.onSpawned c).currentState = _
      rw [onSpawned_state h, if_neg (by simp [hchild])]
  | .exited c, _, _ => by
      change (l.onExited m c).currentState = _
      rw [onExited, if_neg (by simp [hchild])]
  | .error c, _, _ => by
      change (l.onExited m c).currentState = _
      rw [onExited, if_neg (by simp [hchild])]
  | .backoffElapsed, _, _ => by
      change (l.onBackoffElapsed m).currentState = _
      rw [onBackoffElapsed, htimer]
      rfl

/-- `failed` is left by a restart or a dispose only. -/
theorem failed_left (h : Consistent l) {input : Input} (hbefore : l.currentState = .failed)
    (hleft : (l.step m input).currentState ≠ .failed) :
    input = .restartRequested ∨ input = .dispose := by
  by_contra hne
  rw [not_or] at hne
  have hchild := h.child_none (by rw [hbefore]; nofun) (by rw [hbefore]; nofun)
  have htimer := h.timer_none (by simp [hbefore])
  have hstays := state_stays (m := m) h hchild htimer (by rw [hbefore]; nofun) hne.1 hne.2
  exact hleft (hstays.trans hbefore)

theorem disposed_final (h : Consistent l) (hbefore : l.currentState = .disposed) (input : Input) :
    (l.step m input).currentState = .disposed := by
  by_cases hrestart : input = .restartRequested
  · subst hrestart
    refine (restartRequested_state (m := m) (l := l)).trans ?_
    rw [if_neg (by rw [hbefore]; nofun), hbefore]
  by_cases hdispose : input = .dispose
  · subst hdispose
    change l.dispose.currentState = _
    rw [dispose, if_pos hbefore, hbefore]
  have hchild := h.child_none (by rw [hbefore]; nofun) (by rw [hbefore]; nofun)
  have htimer := h.timer_none (by simp [hbefore])
  rw [state_stays h hchild htimer (by rw [hbefore]; nofun) hrestart hdispose, hbefore]

/-! ### Attached windows of a disposed launcher -/

theorem hostExited_ne_disposed : (l.hostExited m).currentState ≠ .disposed := by
  rw [hostExited_state]
  split_ifs
  · nofun
  · nofun

theorem fork_ne_disposed : (l.fork m).currentState ≠ .disposed := by
  rw [fork_state]
  split_ifs
  · nofun
  · nofun
  · nofun

/-- Only a dispose disposes. -/
theorem disposed_entered (h : Consistent l) (hbefore : l.currentState ≠ .disposed) :
    ∀ {input : Input}, (l.step m input).currentState = .disposed → input = .dispose
  | .start, hafter => by
      change (l.start m).currentState = .disposed at hafter
      unfold start at hafter
      split_ifs at hafter
      · exact absurd hafter fork_ne_disposed
      · exact absurd hafter hbefore
  | .portRequested w, hafter => absurd ((portRequested_state w).symm.trans hafter) hbefore
  | .windowClosed w, hafter => absurd ((windowClosed_state w).symm.trans hafter) hbefore
  | .restartRequested, hafter => by
      have hsame := (restartRequested_state (m := m) (l := l)).symm.trans hafter
      split_ifs at hsame
      exact absurd hsame hbefore
  | .dispose, _ => rfl
  | .spawned c, hafter => by
      have hsame := (onSpawned_state h c).symm.trans hafter
      split_ifs at hsame
      exact absurd hsame hbefore
  | .exited c, hafter => by
      change (l.onExited m c).currentState = .disposed at hafter
      unfold onExited at hafter
      split_ifs at hafter
      · exact absurd hafter hostExited_ne_disposed
      · exact absurd hafter hbefore
  | .error c, hafter => by
      change (l.onExited m c).currentState = .disposed at hafter
      unfold onExited at hafter
      split_ifs at hafter
      · exact absurd hafter hostExited_ne_disposed
      · exact absurd hafter hbefore
  | .backoffElapsed, hafter => by
      change (l.onBackoffElapsed m).currentState = .disposed at hafter
      dsimp only [onBackoffElapsed] at hafter
      split_ifs at hafter
      · exact absurd hafter fork_ne_disposed
      · exact absurd hafter hbefore
      · exact absurd hafter hbefore

theorem attached_disposed (h : Consistent l) (hbefore : l.currentState = .disposed)
    (hnil : l.attached = []) (input : Input) : (l.step m input).attached = [] := by
  cases input with
  | start =>
      change (l.start m).attached = []
      rw [start, if_neg (by simp [hbefore]), hnil]
  | portRequested w =>
      change (l.portRequested m w).attached = []
      simp only [portRequested, hbefore, hnil]
  | windowClosed w =>
      change delete w (l.dropPort w).attached = []
      simp only [dropPort, hbefore]
      exact delete_eq_nil hnil
  | restartRequested =>
      change (l.restartRequested m).attached = []
      rw [restartRequested, if_neg (by simp [hbefore]), hnil]
  | dispose =>
      change l.dispose.attached = []
      rw [dispose, if_pos hbefore, hnil]
  | spawned c =>
      change (l.onSpawned c).attached = []
      rw [onSpawned, if_neg (by simp [hbefore]), hnil]
  | exited c =>
      change (l.onExited m c).attached = []
      rw [onExited, if_neg (by simp [hbefore]), hnil]
  | error c =>
      change (l.onExited m c).attached = []
      rw [onExited, if_neg (by simp [hbefore]), hnil]
  | backoffElapsed =>
      have htimer := h.timer_none (by simp [hbefore])
      change (l.onBackoffElapsed m).attached = []
      rw [onBackoffElapsed, htimer]
      exact hnil

/-! ### Runs -/

/-- One input of a run, at its moment. -/
def advance (l : QueryHostLauncher) (event : Moment × Input) : Option QueryHostLauncher :=
  some (l.step event.1 event.2)

/-- No dispose finds a window attached. -/
def DisposesDetached (l : QueryHostLauncher) (event : Moment × Input) : Prop :=
  event.2 = .dispose → l.attached = []

theorem consistent_run {events : List (Moment × Input)}
    (hrun : runs advance initial events = some l) : Consistent l :=
  runs_induction hrun consistent_initial fun _ _ ev _ hstep h =>
    Option.some.inj hstep ▸ consistent_step h ev.2

theorem attached_ready {events : List (Moment × Input)} (hrun : runs advance initial events = some l)
    (halong : Along advance DisposesDetached initial events) (hne : l.attached ≠ []) :
    l.currentState = .ready := by
  have hmotive : Consistent l ∧ (l.currentState = .disposed → l.attached = []) := by
    refine along_induction (motive := fun l => Consistent l ∧
      (l.currentState = .disposed → l.attached = [])) hrun halong ⟨consistent_initial, nofun⟩ ?_
    rintro before after ⟨moment, input⟩ hC hstep ⟨h, hdisposed⟩
    obtain rfl : before.step moment input = after := Option.some.inj hstep
    refine ⟨consistent_step h input, fun hafter => ?_⟩
    by_cases hbefore : before.currentState = .disposed
    · exact attached_disposed h hbefore (hdisposed hbefore) input
    · have hdispose := disposed_entered h hbefore hafter
      have hnil := hC hdispose
      rw [hdispose]
      change before.dispose.attached = []
      rw [dispose, if_neg hbefore]
      exact hnil
  exact (hmotive.1.attached_state hne).resolve_right fun hdisposed => hne (hmotive.2 hdisposed)

/-- The launcher's invariants, in every state of a run in which no dispose finds a window
attached. -/
theorem launcher_invariants (events : List (Moment × Input)) (l : QueryHostLauncher)
    (hrun : runs advance initial events = some l)
    (halong : Along advance DisposesDetached initial events) :
    (l.child.isSome = true ↔ l.currentState = .spawning ∨ l.currentState = .ready) ∧
    (l.backoffTimer.isSome = true ↔ l.currentState = .backoff) ∧
    ((∀ message ∈ l.queue, message.port.isSome = true) ∧
      (l.queue.map HostControl.windowId).Nodup ∧
      (l.queue ≠ [] →
        l.currentState = .idle ∨ l.currentState = .spawning ∨ l.currentState = .backoff)) ∧
    ((l.attached ≠ [] → l.currentState = .ready) ∧
      ∀ c, l.child = some c →
        ∀ w, w ∈ l.attached ↔ (hostPorts c l.effects w).isSome = true) ∧
    (∀ port < l.channels, Accounted l port) ∧
    ∀ m input,
      ((l.step m input).currentState = .failed → l.currentState ≠ .failed →
        MaxRestarts < (recentExits m (l.step m input)).length) ∧
      (l.currentState = .failed → (l.step m input).currentState ≠ .failed →
        input = .restartRequested ∨ input = .dispose) ∧
      (l.currentState = .disposed → (l.step m input).currentState = .disposed) := by
  have h := consistent_run hrun
  refine ⟨h.child_iff, h.timer_iff, ⟨h.attaches, h.nodup, h.queue_state⟩,
    ⟨attached_ready hrun halong, h.attached_iff⟩, h.ports, fun m input => ⟨?_, ?_, ?_⟩⟩
  · exact failed_entered h
  · exact failed_left h
  · exact fun hdisposed => disposed_final h hdisposed input

/-- A quiet moment. -/
def quiet : Moment :=
  ⟨0, false, fun _ => false⟩

/-- A dispose leaves the window attached. -/
theorem dispose_leaves_attached :
    ∃ l, runs advance initial [(quiet, .start), (quiet, .spawned 0), (quiet, .portRequested 1),
        (quiet, .dispose)] = some l ∧ l.attached ≠ [] ∧ l.currentState ≠ .ready :=
  ⟨_, rfl, by decide, by decide⟩

theorem launcher_invariants_quiet :
    ∃ l, runs advance initial [(quiet, .start), (quiet, .portRequested 1), (quiet, .spawned 0),
        (quiet, .windowClosed 1), (quiet, .dispose)] = some l ∧
      (l.child.isSome = true ↔ l.currentState = .spawning ∨ l.currentState = .ready) ∧
      ∀ port < l.channels, Accounted l port := by
  have halong : Along advance DisposesDetached initial [(quiet, .start), (quiet, .portRequested 1),
      (quiet, .spawned 0), (quiet, .windowClosed 1), (quiet, .dispose)] :=
    ⟨nofun, nofun, nofun, nofun, fun _ => by decide, trivial⟩
  have h := launcher_invariants _ _ rfl halong
  exact ⟨_, rfl, h.1, h.2.2.2.2.1⟩

end QueryHostLauncher

end WireTools.QueryPort
