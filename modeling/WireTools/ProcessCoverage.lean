import Mathlib.Tactic.Common
import WireTools.ProcessManager

/-! # No daemon is lost

* `Inv`: every live daemon has its pid file, and the session at work holds and has registered it;
  `Inv.step` keeps it along orderly runs;
* `daemons_covered`: what holds of the daemons in every state of an orderly run;
* `daemons_swept`: a `stopAll`, the exit handler and the sweep of the next session leave no daemon
  running;
* `late_daemon_survives`: a daemon that is registered while a `stopAll` waits is left running. -/

namespace WireTools.ProcessManager

variable {w w' : World} {host host' : ProcessTable} {i pid : ℕ} {l : Text}

/-- What is live was live before, as it was or killed by a sweep. -/
def Fewer (host host' : ProcessTable) : Prop :=
  ∀ pid p', host' pid = some p' → ∃ p, host pid = some p ∧ p'.basename = p.basename ∧
    p'.label = p.label ∧ (p'.killed = false → p.killed = false) ∧
    (p'.killed = true → p.killed = true ∨ p.basename ∈ ManagedProcessNames)

theorem fewer_die (pids : List ℕ) : Fewer host (die host pids) := by
  intro pid p' h
  unfold die at h
  split_ifs at h
  exact ⟨p', h, rfl, rfl, id, Or.inl⟩

theorem fewer_terminatePidsSync (pids : List ℕ) (polls : List (List ℕ)) :
    Fewer host (terminatePidsSync host pids polls) := by
  intro pid p' h
  rcases terminatePidsSync_eq host pids polls pid with hnone | ⟨-, hsame⟩ | ⟨-, hmanaged, hkill⟩
  · rw [hnone] at h
    cases h
  · rw [hsame] at h
    exact ⟨p', h, rfl, rfl, id, Or.inl⟩
  · rw [hkill] at h
    obtain ⟨p, hp, rfl⟩ := Option.map_eq_some_iff.mp h
    unfold isManagedPid at hmanaged
    rw [hp] at hmanaged
    refine ⟨p, hp, rfl, rfl, fun h => absurd h Bool.noConfusion, fun _ => Or.inr ?_⟩
    exact List.contains_iff_mem.mp hmanaged

namespace World

/-- A daemon runs under the label, and it was not killed. -/
def Runs (w : World) (pid : ℕ) (l : Text) : Prop :=
  ∃ p, w.host pid = some p ∧ p.label = some l ∧ p.killed = false

end World

/-- What holds in every state of an orderly run. -/
structure Inv (w : World) : Prop where
  named : ∀ pid p, w.host pid = some p → p.label.isSome = true →
    0 < pid ∧ p.basename ∈ ManagedProcessNames
  guarded : ∀ pid p, w.host pid = some p → p.killed = true → p.basename ∈ ManagedProcessNames
  filed : ∀ pid l, w.Runs pid l → (l, some pid) ∈ w.pidFiles
  held : w.initialized = true → ∀ pid l, w.Runs pid l →
    ∃ (i : ℕ) (m : ManagedProcess),
      w.daemons[i]? = some m ∧ m.child = .alive ∧ m.pid = pid ∧ m.label = l
  registered : ∀ i m, w.daemons[i]? = some m → m.isRunning = true → w.processes m.label = some i
  waited : ∀ waited ∈ w.stopping, ∀ i m, w.daemons[i]? = some m → m.isRunning = true → i ∈ waited
  ended : w.initialized = false → w.daemons = [] ∧ w.stopping = []

/-- A daemon that runs has a managed command. -/
theorem Inv.isManagedPid (h : Inv w) (hruns : w.Runs pid l) :
    0 < pid ∧ isManagedPid w.host pid = true := by
  obtain ⟨p, hp, hlabel, -⟩ := hruns
  obtain ⟨hpos, hname⟩ := h.named pid p hp (by rw [hlabel]; rfl)
  refine ⟨hpos, ?_⟩
  unfold ProcessManager.isManagedPid
  rw [hp]
  exact List.contains_iff_mem.mpr hname

/-- Only a session at work has daemons or a `stopAll` under way. -/
theorem Inv.at_work (h : Inv w) (hsome : ¬ (w.daemons = [] ∧ w.stopping = [])) :
    w.initialized = true := by
  by_contra hnot
  exact hsome (h.ended (Bool.eq_false_iff.mpr hnot))

theorem World.Runs.of_fewer (hfewer : Fewer w.host w'.host) (hruns : w'.Runs pid l) :
    w.Runs pid l := by
  obtain ⟨p', hp', hlabel, hkilled⟩ := hruns
  obtain ⟨p, hp, -, heq, hold, -⟩ := hfewer pid p' hp'
  exact ⟨p, hp, heq ▸ hlabel, hold hkilled⟩

/-- What is live where one process has begun. -/
theorem begun_cases {q : ℕ} {began p : Live}
    (hp : (if pid = q then some began else host pid) = some p) :
    pid = q ∧ p = began ∨ pid ≠ q ∧ host pid = some p := by
  split_ifs at hp with heq
  · exact Or.inl ⟨heq, (Option.some.inj hp).symm⟩
  · exact Or.inr ⟨heq, hp⟩

/-- What a sweep is for and it leaves running was not running before. -/
theorem not_runs_of_swept {pids : List ℕ} {polls : List (List ℕ)} (h : Inv w)
    (hhost : w'.host = terminatePidsSync w.host pids polls) (hpid : pid ∈ pids) :
    ¬ w'.Runs pid l := by
  intro hruns
  have hmanaged := (h.isManagedPid (hruns.of_fewer (by
    rw [hhost]
    exact fewer_terminatePidsSync pids polls))).2
  obtain ⟨p', hp', -, hkilled⟩ := hruns
  rw [hhost] at hp'
  rcases terminatePidsSync_eq w.host pids polls pid with hnone | ⟨hnot, -⟩ | ⟨-, -, hkill⟩
  · rw [hnone] at hp'
    cases hp'
  · exact hnot ⟨hpid, hmanaged⟩
  · rw [hkill] at hp'
    obtain ⟨p, -, rfl⟩ := Option.map_eq_some_iff.mp hp'
    cases hkilled

/-- A step of the host alone. -/
theorem Inv.of_fewer (h : Inv w) (hfewer : Fewer w.host host') : Inv { w with host := host' } := by
  have hruns : ∀ {pid l}, ({ w with host := host' } : World).Runs pid l → w.Runs pid l :=
    fun h => h.of_fewer hfewer
  refine ⟨fun pid p' hp' hlabel => ?_, fun pid p' hp' hkilled => ?_,
    fun pid l hr => h.filed pid l (hruns hr), fun hi pid l hr => h.held hi pid l (hruns hr),
    h.registered, h.waited, h.ended⟩
  · obtain ⟨p, hp, hname, heq, -, -⟩ := hfewer pid p' hp'
    rw [hname]
    exact h.named pid p hp (heq ▸ hlabel)
  · obtain ⟨p, hp, hname, -, -, hguard⟩ := hfewer pid p' hp'
    rw [hname]
    rcases hguard hkilled with hold | hmem
    · exact h.guarded pid p hp hold
    · exact hmem

/-! ### What a daemon's step does -/

section Daemons

variable {m m' n : ManagedProcess} {j : ℕ}

theorem isRunning_of_alive (h : m.child = .alive) : m.isRunning = true := by
  unfold ManagedProcess.isRunning
  rw [h]
  rfl

theorem get_set (hi : w.daemons[i]? = some m) : (w.set i m').daemons[i]? = some m' := by
  show (w.daemons.set i m')[i]? = some m'
  rw [List.getElem?_set_self (List.getElem?_eq_some_iff.mp hi).1]

theorem get_set_ne (hj : j ≠ i) : (w.set i m').daemons[j]? = w.daemons[j]? :=
  List.getElem?_set_ne hj.symm

/-- A process that runs under a registered daemon's label is that daemon's child. -/
theorem Inv.child_of_runs (h : Inv w) (hi : w.daemons[i]? = some m)
    (hregistered : w.processes m.label = some i) (hruns : w.Runs pid m.label) :
    m.child = .alive ∧ m.pid = pid := by
  have hinitialized : w.initialized = true := by
    refine h.at_work fun hnone => ?_
    rw [hnone.1] at hi
    cases hi
  obtain ⟨j, n, hj, halive, hpid, hlabel⟩ := h.held hinitialized pid _ hruns
  have hrunning := isRunning_of_alive halive
  have hplace := h.registered j n hj hrunning
  rw [hlabel, hregistered, Option.some.injEq] at hplace
  subst hplace
  rw [hi, Option.some.injEq] at hj
  subst hj
  exact ⟨halive, hpid⟩

/-- One daemon changes; where it holds a process that runs it still does. -/
theorem Inv.set (h : Inv w) (hi : w.daemons[i]? = some m) (hlabel : m'.label = m.label)
    (hrunning : m'.isRunning = true →
      m.isRunning = true ∨ w.processes m.label = some i ∧ w.stopping = [])
    (hheld : ∀ l, w.Runs m.pid l → m.child = .alive → m'.child = .alive ∧ m'.pid = m.pid) :
    Inv (w.set i m') := by
  refine ⟨h.named, h.guarded, h.filed, fun hinit pid l hruns => ?_, fun j n hj hrun => ?_,
    fun waited hwaited j n hj hrun => ?_, fun hinit => ?_⟩
  · obtain ⟨j, n, hj, halive, hpid, hl⟩ := h.held hinit pid l hruns
    by_cases hji : j = i
    · subst hji
      rw [hi, Option.some.injEq] at hj
      subst hj
      obtain ⟨halive', hpid'⟩ := hheld l (hpid ▸ hruns) halive
      exact ⟨j, m', get_set hi, halive', hpid'.trans hpid, hlabel.trans hl⟩
    · exact ⟨j, n, (get_set_ne hji).trans hj, halive, hpid, hl⟩
  · by_cases hji : j = i
    · subst hji
      rw [get_set hi, Option.some.injEq] at hj
      subst hj
      rw [hlabel]
      rcases hrunning hrun with hold | ⟨hplace, -⟩
      · exact h.registered j m hi hold
      · exact hplace
    · exact h.registered j n ((get_set_ne hji).symm.trans hj) hrun
  · by_cases hji : j = i
    · subst hji
      rw [get_set hi, Option.some.injEq] at hj
      subst hj
      rcases hrunning hrun with hold | ⟨-, hnone⟩
      · exact h.waited waited hwaited j m hi hold
      · rw [show (w.set j m').stopping = [] from hnone] at hwaited
        cases hwaited
    · exact h.waited waited hwaited j n ((get_set_ne hji).symm.trans hj) hrun
  · obtain ⟨hnone, hstopping⟩ := h.ended hinit
    rw [hnone] at hi
    cases hi

/-- A pid file under whose label nothing runs may go. -/
theorem Inv.rmPidFile (h : Inv w) (hnone : ∀ pid, ¬ w.Runs pid l) : Inv (w.rmPidFile l) := by
  refine ⟨h.named, h.guarded, fun pid k hruns => ?_, h.held, h.registered, h.waited, h.ended⟩
  have hk : k ≠ l := by
    rintro rfl
    exact hnone pid hruns
  exact List.mem_filter.mpr ⟨h.filed pid k hruns, decide_eq_true hk⟩

/-- A registered daemon's child begins to run, and its pid file is written. -/
theorem Inv.spawn (h : Inv w) (hi : w.daemons[i]? = some m)
    (hregistered : w.processes m.label = some i) (halive : m.child = .alive) (hpid : 0 < m.pid)
    (hfree : w.host m.pid = none) {basename : Text} (hname : basename ∈ ManagedProcessNames) :
    Inv { w.writePidFile m.label m.pid with
      host := fun p => if p = m.pid then some ⟨basename, some m.label, false⟩ else w.host p } := by
  refine ⟨fun pid p hp hlabel => ?_, fun pid p hp hkilled => ?_, fun pid l hruns => ?_,
    fun hinit pid l hruns => ?_, h.registered, h.waited, h.ended⟩
  · rcases begun_cases hp with ⟨rfl, rfl⟩ | ⟨-, hp⟩
    · exact ⟨hpid, hname⟩
    · exact h.named pid p hp hlabel
  · rcases begun_cases hp with ⟨rfl, rfl⟩ | ⟨-, hp⟩
    · exact hname
    · exact h.guarded pid p hp hkilled
  · obtain ⟨p, hp, hlabel, hkilled⟩ := hruns
    rcases begun_cases hp with ⟨rfl, rfl⟩ | ⟨-, hp⟩
    · rw [← Option.some.inj hlabel]
      exact List.mem_cons_self
    · have hruns : w.Runs pid l := ⟨p, hp, hlabel, hkilled⟩
      refine List.mem_cons_of_mem _ (List.mem_filter.mpr ⟨h.filed pid l hruns, ?_⟩)
      refine decide_eq_true fun heq => ?_
      -- A process that ran under the label would be this daemon's child.
      obtain ⟨-, rfl⟩ := h.child_of_runs hi hregistered (show w.Runs pid m.label from heq ▸ hruns)
      rw [hfree] at hp
      cases hp
  · obtain ⟨p, hp, hlabel, hkilled⟩ := hruns
    rcases begun_cases hp with ⟨rfl, rfl⟩ | ⟨-, hp⟩
    · exact ⟨i, m, hi, halive, rfl, Option.some.inj hlabel⟩
    · exact h.held hinit pid l ⟨p, hp, hlabel, hkilled⟩

end Daemons

/-! ### Sessions -/

/-- The session is over and no daemon of it runs unseen. -/
theorem Inv.of_ended (h : Inv w) (hfewer : Fewer w.host host')
    {pidFiles : List (Text × Option ℕ)}
    (hfiled : ∀ pid l, ({ w with host := host' } : World).Runs pid l → (l, some pid) ∈ pidFiles) :
    Inv { w.ended with host := host', pidFiles := pidFiles } := by
  have hbefore := h.of_fewer hfewer
  refine ⟨hbefore.named, hbefore.guarded, hfiled, fun hinit => absurd hinit Bool.noConfusion,
    fun i m hi => ?_, fun waited hwaited => ?_, fun _ => ⟨rfl, rfl⟩⟩
  · cases hi
  · cases hwaited

theorem mem_readOrphanPids (h : Inv w) (hruns : w.Runs pid l) : pid ∈ w.readOrphanPids := by
  obtain ⟨hpos, hmanaged⟩ := h.isManagedPid hruns
  refine List.mem_filterMap.mpr ⟨_, h.filed pid l hruns, ?_⟩
  rw [Option.filter_some, if_pos]
  rw [Bool.and_eq_true]
  exact ⟨decide_eq_true hpos, hmanaged⟩

/-- The sweep of a session that begins leaves no daemon running. -/
theorem Inv.not_runs_sweepOrphans (h : Inv w) (polls : List (List ℕ)) :
    ¬ (w.sweepOrphans polls).Runs pid l := by
  intro hruns
  have hbefore : w.Runs pid l := hruns.of_fewer (fewer_terminatePidsSync _ _)
  exact not_runs_of_swept h rfl (mem_readOrphanPids h hbefore) hruns

theorem Inv.sweepOrphans (h : Inv w) (polls : List (List ℕ)) : Inv (w.sweepOrphans polls) := by
  have hfewer : Fewer w.host (terminatePidsSync w.host w.readOrphanPids polls) :=
    fewer_terminatePidsSync _ _
  have hbefore := h.of_fewer hfewer
  refine ⟨hbefore.named, hbefore.guarded, fun pid l hruns => ?_, fun _ pid l hruns => ?_,
    h.registered, h.waited, fun hinit => absurd hinit Bool.noConfusion⟩
  · exact absurd hruns (h.not_runs_sweepOrphans polls)
  · exact absurd hruns (h.not_runs_sweepOrphans polls)

theorem place_of_isRegistered {m : ManagedProcess} (hi : w.daemons[i]? = some m)
    (h : w.isRegistered i = true) : w.processes m.label = some i := by
  unfold World.isRegistered at h
  rw [hi] at h
  exact eq_of_beq h

theorem mem_getAll : i ∈ w.getAll ↔ ∃ m, w.daemons[i]? = some m ∧ w.processes m.label = some i := by
  unfold World.getAll World.isRegistered
  rw [List.mem_filter, List.mem_range, Option.any_eq_true]
  constructor
  · rintro ⟨-, m, hm, hplace⟩
    exact ⟨m, hm, eq_of_beq hplace⟩
  · rintro ⟨m, hm, hplace⟩
    exact ⟨(List.getElem?_eq_some_iff.mp hm).1, m, hm, beq_iff_eq.mpr hplace⟩

/-- The exit handler of a session leaves no daemon running. -/
theorem Inv.not_runs_cleanup (h : Inv w) (hinit : w.initialized = true) (polls : List (List ℕ)) :
    ¬ (w.cleanup polls).Runs pid l := by
  intro hruns
  have hbefore : w.Runs pid l := hruns.of_fewer (fewer_terminatePidsSync _ _)
  obtain ⟨i, m, hi, halive, hpid, -⟩ := h.held hinit pid l hbefore
  have hrunning := isRunning_of_alive halive
  refine not_runs_of_swept h rfl (List.mem_filterMap.mpr ⟨i, ?_, ?_⟩) hruns
  · exact mem_getAll.mpr ⟨m, hi, h.registered i m hi hrunning⟩
  · rw [hi, ← hpid]
    rfl

/-! ### Every step -/

/-- A daemon is registered. -/
theorem Inv.push (h : Inv w) (hinit : w.initialized = true) (hnone : w.processes l = none)
    (hstopping : w.stopping = []) :
    Inv { w with
      daemons := w.daemons ++ [⟨l, 0, .created⟩]
      processes := fun k => if k = l then some w.daemons.length else w.processes k } := by
  refine ⟨h.named, h.guarded, h.filed, fun hinit pid k hruns => ?_, fun i m hi hrunning => ?_,
    fun waited hwaited => ?_, fun hnot => absurd (hinit.symm.trans hnot) Bool.noConfusion⟩
  · obtain ⟨i, m, hi, hm⟩ := h.held hinit pid k hruns
    refine ⟨i, m, ?_, hm⟩
    rw [← hi]
    exact List.getElem?_append_left (List.getElem?_eq_some_iff.mp hi).1
  · rw [List.getElem?_append] at hi
    split_ifs at hi with hlt
    · have hplace := h.registered i m hi hrunning
      have hne : m.label ≠ l := by
        intro heq
        rw [heq, hnone] at hplace
        cases hplace
      exact (if_neg hne).trans hplace
    · rw [List.getElem?_singleton] at hi
      split_ifs at hi
      cases hi
      cases hrunning
  · rw [show w.stopping = [] from hstopping] at hwaited
    cases hwaited

/-- A daemon that does not run leaves the registry. -/
theorem Inv.remove (h : Inv w) {m : ManagedProcess} (hplace : w.processes l = some i)
    (hi : w.daemons[i]? = some m) (hrunning : ¬ m.isRunning = true) :
    Inv { w with processes := fun k => if k = l then none else w.processes k } := by
  refine ⟨h.named, h.guarded, h.filed, h.held, fun j n hj hrun => ?_, h.waited, h.ended⟩
  have hn := h.registered j n hj hrun
  refine (if_neg fun heq => ?_).trans hn
  rw [heq, hplace, Option.some.injEq] at hn
  subst hn
  rw [hi, Option.some.injEq] at hj
  subst hj
  exact hrunning hrun

theorem Inv.stopAll (h : Inv w) (hsome : w.getAll ≠ []) :
    Inv { w with stopping := w.stopping ++
      [w.getAll.filter fun i => w.daemons[i]?.any ManagedProcess.isRunning] } := by
  refine ⟨h.named, h.guarded, h.filed, h.held, h.registered,
    fun waited hwaited i m hi hrunning => ?_, fun hinit => ?_⟩
  · rcases List.mem_append.mp hwaited with hold | hnew
    · exact h.waited waited hold i m hi hrunning
    · rw [List.mem_singleton.mp hnew]
      refine List.mem_filter.mpr ⟨mem_getAll.mpr ⟨m, hi, h.registered i m hi hrunning⟩, ?_⟩
      rw [hi]
      exact hrunning
  · refine absurd (List.eq_nil_iff_forall_not_mem.mpr fun i hmem => ?_) hsome
    obtain ⟨m, hi, -⟩ := mem_getAll.mp hmem
    rw [(h.ended hinit).1] at hi
    cases hi

/-- When a `stopAll` has ended no daemon of the session is running. -/
theorem Inv.not_isRunning (h : Inv w) {k : ℕ} {waited : List ℕ}
    (hk : w.stopping[k]? = some waited)
    (hsettled : (waited.all fun i => w.daemons[i]?.any fun m => m.child == .settled) = true)
    {m : ManagedProcess} (hi : w.daemons[i]? = some m) : ¬ m.isRunning = true := by
  intro hrunning
  have hmem := h.waited waited (List.mem_of_getElem? hk) i m hi hrunning
  have hchild := List.all_eq_true.mp hsettled i hmem
  rw [hi] at hchild
  unfold ManagedProcess.isRunning at hrunning
  rw [eq_of_beq (show (m.child == .settled) = true from hchild)] at hrunning
  cases hrunning

theorem Inv.stopped (h : Inv w) {k : ℕ} {waited : List ℕ} (hk : w.stopping[k]? = some waited)
    (hsettled : (waited.all fun i => w.daemons[i]?.any fun m => m.child == .settled) = true) :
    Inv { w with processes := fun _ => none, stopping := w.stopping.eraseIdx k } :=
  ⟨h.named, h.guarded, h.filed, h.held,
    fun _ _ hi hrunning => absurd hrunning (h.not_isRunning hk hsettled hi),
    fun waited hwaited => h.waited waited (List.mem_of_mem_eraseIdx hwaited),
    fun hinit => ⟨(h.ended hinit).1, by rw [(h.ended hinit).2]; rfl⟩⟩

/-- When a `stopAll` has ended no daemon runs at all. -/
theorem Inv.not_runs_stopped (h : Inv w) {k : ℕ} {waited : List ℕ}
    (hk : w.stopping[k]? = some waited)
    (hsettled : (waited.all fun i => w.daemons[i]?.any fun m => m.child == .settled) = true) :
    ¬ w.Runs pid l := by
  intro hruns
  have hinit : w.initialized = true := by
    refine h.at_work fun hnone => ?_
    rw [hnone.2] at hk
    cases hk
  obtain ⟨i, m, hi, halive, -⟩ := h.held hinit pid l hruns
  exact h.not_isRunning hk hsettled hi (isRunning_of_alive halive)

/-- Another program's process is no daemon. -/
theorem Inv.appears (h : Inv w) (basename : Text) :
    Inv { w with
      host := fun p => if p = pid then some ⟨basename, none, false⟩ else w.host p } := by
  have hruns : ∀ {p l}, ({ w with
      host := fun p => if p = pid then some ⟨basename, none, false⟩ else w.host p } :
        World).Runs p l → w.Runs p l := by
    rintro p l ⟨live, hlive, hlabel, hkilled⟩
    rcases begun_cases hlive with ⟨-, rfl⟩ | ⟨-, hlive⟩
    · cases hlabel
    · exact ⟨live, hlive, hlabel, hkilled⟩
  refine ⟨fun p live hlive hlabel => ?_, fun p live hlive hkilled => ?_,
    fun p l hr => h.filed p l (hruns hr), fun hinit p l hr => h.held hinit p l (hruns hr),
    h.registered, h.waited, h.ended⟩
  · rcases begun_cases hlive with ⟨-, rfl⟩ | ⟨-, hlive⟩
    · cases hlabel
    · exact h.named p live hlive hlabel
  · rcases begun_cases hlive with ⟨-, rfl⟩ | ⟨-, hlive⟩
    · cases hkilled
    · exact h.guarded p live hlive hkilled

/-- An orderly step keeps what holds of every state. -/
theorem Inv.step (h : Inv w) {event : Event} (horderly : Orderly w event)
    (hstep : w.step event = some w') : Inv w' := by
  cases event with
  | ensureInitialized polls =>
      simp only [World.step] at hstep
      split_ifs at hstep
      cases hstep
      exact h.sweepOrphans polls
  | push label =>
      simp only [World.step] at hstep
      split_ifs at hstep with hinit hplace
      · cases hstep
        exact h
      · cases hstep
        exact h.push (Bool.not_eq_false _ ▸ hinit) (Option.not_isSome_iff_eq_none.mp hplace)
          horderly
  | start i pid basename =>
      obtain ⟨m, hi, hstep⟩ := Option.bind_eq_some_iff.mp hstep
      split_ifs at hstep with hstart
      cases hstep
      obtain ⟨hcreated, hfree⟩ := hstart
      obtain ⟨hstopping, hregistered, hname⟩ := horderly
      unfold World.isFree at hfree
      rw [Bool.and_eq_true, Bool.and_eq_true, decide_eq_true_eq, Option.isNone_iff_eq_none] at hfree
      obtain ⟨⟨hpos, hnone⟩, -⟩ := hfree
      have hplace := place_of_isRegistered hi hregistered
      have halive : Inv (w.set i { m with pid := pid, child := .alive }) :=
        h.set hi rfl (fun _ => Or.inr ⟨hplace, hstopping⟩)
          fun l _ hnot => by rw [hcreated] at hnot; cases hnot
      exact halive.spawn (get_set hi) hplace rfl hpos hnone hname
  | startFails i =>
      obtain ⟨m, hi, hstep⟩ := Option.bind_eq_some_iff.mp hstep
      split_ifs at hstep with hcreated
      cases hstep
      refine h.set hi rfl (fun _ => Or.inr ⟨place_of_isRegistered hi horderly.2, horderly.1⟩) ?_
      intro l _ hnot
      rw [hcreated] at hnot
      cases hnot
  | error i =>
      obtain ⟨m, hi, hstep⟩ := Option.bind_eq_some_iff.mp hstep
      split_ifs at hstep with hfailed
      cases hstep
      refine h.set hi rfl (fun hnot => by cases hnot) fun l hruns _ => ?_
      have hpos := (h.isManagedPid hruns).1
      rw [hfailed.2] at hpos
      exact absurd hpos (Nat.lt_irrefl 0)
  | exit i =>
      obtain ⟨m, hi, hstep⟩ := Option.bind_eq_some_iff.mp hstep
      split_ifs at hstep with hexit
      cases hstep
      obtain ⟨halive, -, hgone⟩ := hexit
      have hrunning := isRunning_of_alive halive
      have hnone : ∀ l, ¬ w.Runs m.pid l := by
        rintro l ⟨p, hp, -⟩
        rw [hgone] at hp
        cases hp
      have hexited : Inv (w.set i { m with child := .exited }) :=
        h.set hi rfl (fun _ => Or.inl hrunning) fun l hruns _ => absurd hruns (hnone l)
      refine hexited.rmPidFile fun pid hruns => ?_
      obtain ⟨-, rfl⟩ := h.child_of_runs hi (h.registered i m hi hrunning) hruns
      exact hnone _ hruns
  | close i =>
      obtain ⟨m, hi, hstep⟩ := Option.bind_eq_some_iff.mp hstep
      split_ifs at hstep with hexited
      cases hstep
      refine h.set hi rfl (fun hnot => by cases hnot) fun l _ hnot => ?_
      rw [hexited] at hnot
      cases hnot
  | remove label =>
      cases hplace : w.processes label with
      | none =>
          simp only [World.step, hplace] at hstep
          cases hstep
          exact h
      | some i =>
          simp only [World.step, hplace] at hstep
          obtain ⟨m, hi, hstep⟩ := Option.bind_eq_some_iff.mp hstep
          split_ifs at hstep with hrunning
          · cases hstep
            exact h
          · cases hstep
            exact h.remove hplace hi hrunning
  | stopAll =>
      simp only [World.step] at hstep
      split_ifs at hstep with hnone
      · cases hstep
        exact h
      · cases hstep
        exact h.stopAll hnone
  | stopped k =>
      obtain ⟨waited, hk, hstep⟩ := Option.bind_eq_some_iff.mp hstep
      split_ifs at hstep with hsettled
      cases hstep
      exact h.stopped hk hsettled
  | cleanup polls =>
      simp only [World.step] at hstep
      split_ifs at hstep with hinit
      cases hstep
      exact h.of_ended (fewer_terminatePidsSync _ _) fun pid l hruns =>
        absurd hruns (h.not_runs_cleanup hinit polls)
  | crash =>
      cases hstep
      have hfewer : Fewer w.host w.host := fun pid p hp => ⟨p, hp, rfl, rfl, id, Or.inl⟩
      exact h.of_ended hfewer h.filed
  | appears pid basename =>
      simp only [World.step] at hstep
      split_ifs at hstep
      cases hstep
      exact h.appears basename
  | dies pid =>
      cases hstep
      exact h.of_fewer (fewer_die _)

/-! ### Runs -/

/-- Before the first session: processes of other programs, and whatever files there are. -/
def World.fresh (host : ProcessTable) (pidFiles : List (Text × Option ℕ)) : World where
  host := host
  pidFiles := pidFiles
  initialized := false
  daemons := []
  processes := fun _ => none
  stopping := []

section Runs

variable {pidFiles : List (Text × Option ℕ)} {events : List Event} {event : Event}

theorem Inv.fresh (hhost : ∀ pid p, host pid = some p → p.label = none ∧ p.killed = false) :
    Inv (.fresh host pidFiles) := by
  refine ⟨fun pid p hp hlabel => ?_, fun pid p hp hkilled => ?_, fun pid l hruns => ?_,
    fun hinit => absurd hinit Bool.noConfusion, fun i m hi => ?_, fun waited hwaited => ?_,
    fun _ => ⟨rfl, rfl⟩⟩
  · rw [(hhost pid p hp).1] at hlabel
    cases hlabel
  · rw [(hhost pid p hp).2] at hkilled
    cases hkilled
  · obtain ⟨p, hp, hlabel, -⟩ := hruns
    rw [(hhost pid p hp).1] at hlabel
    cases hlabel
  · cases hi
  · cases hwaited

theorem inv_of_runs (hhost : ∀ pid p, host pid = some p → p.label = none ∧ p.killed = false)
    (horderly : Along World.step Orderly (.fresh host pidFiles) events)
    (hrun : runs World.step (.fresh host pidFiles) events = some w) : Inv w :=
  along_induction hrun horderly (Inv.fresh hhost) fun _ _ _ horderly hstep h =>
    h.step horderly hstep

/-- In every state of an orderly run a daemon that runs has its pid file and a managed command, so
that the sweep of the next session is for it; a session at work holds it as a registered one, so
that its `stopAll` and exit handler are for it.  No other command's process is ever killed. -/
theorem daemons_covered (hhost : ∀ pid p, host pid = some p → p.label = none ∧ p.killed = false)
    (horderly : Along World.step Orderly (.fresh host pidFiles) events)
    (hrun : runs World.step (.fresh host pidFiles) events = some w) :
    (∀ pid l, w.Runs pid l → pid ∈ w.readOrphanPids ∧ (l, some pid) ∈ w.pidFiles ∧
      (w.initialized = true → ∃ i ∈ w.getAll, ∃ m, w.daemons[i]? = some m ∧ m.isRunning = true ∧
        m.pid = pid ∧ m.label = l)) ∧
      ∀ pid p, w.host pid = some p → p.killed = true → p.basename ∈ ManagedProcessNames := by
  have h := inv_of_runs hhost horderly hrun
  refine ⟨fun pid l hruns => ⟨mem_readOrphanPids h hruns, h.filed pid l hruns, fun hinit => ?_⟩,
    h.guarded⟩
  obtain ⟨i, m, hi, halive, hpid, hl⟩ := h.held hinit pid l hruns
  have hrunning := isRunning_of_alive halive
  exact ⟨i, mem_getAll.mpr ⟨m, hi, h.registered i m hi hrunning⟩, m, hi, hrunning, hpid, hl⟩

/-- A session starts one daemon and crashes. -/
def crashed : List Event :=
  [.ensureInitialized [], .push (text "kiod"), .start 0 7 (text "kiod"), .crash]

theorem orderly_crashed : Along World.step Orderly (.fresh (fun _ => none) []) crashed :=
  ⟨trivial, rfl, ⟨rfl, rfl, by decide⟩, trivial, trivial⟩

theorem daemons_covered_sample :
    ∃ w, runs World.step (.fresh (fun _ => none) []) crashed = some w ∧ 7 ∈ w.readOrphanPids := by
  refine ⟨_, rfl, ?_⟩
  exact ((daemons_covered (fun pid p h => by cases h) orderly_crashed rfl).1 7 (text "kiod")
    ⟨_, rfl, rfl, rfl⟩).1

/-- A session has begun, ended by its exit handler, come to the end of a `stopAll`, or called one
that has nothing to wait for. -/
def EndsDaemons (w : World) : Event → Prop
  | .ensureInitialized _ | .cleanup _ | .stopped _ => True
  | .stopAll => w.initialized = true ∧ w.getAll = []
  | _ => False

/-- After a `stopAll`, the exit handler or the sweep of a new session, in any orderly run, no daemon
of the cluster runs: what is left of them was killed. -/
theorem daemons_swept (hhost : ∀ pid p, host pid = some p → p.label = none ∧ p.killed = false)
    (horderly : Along World.step Orderly (.fresh host pidFiles) events)
    (hrun : runs World.step (.fresh host pidFiles) events = some w)
    (hstep : w.step event = some w') (hevent : EndsDaemons w event) (pid : ℕ) (l : Text) :
    ¬ w'.Runs pid l := by
  have h := inv_of_runs hhost horderly hrun
  cases event with
  | ensureInitialized polls =>
      simp only [World.step] at hstep
      split_ifs at hstep
      cases hstep
      exact h.not_runs_sweepOrphans polls
  | cleanup polls =>
      simp only [World.step] at hstep
      split_ifs at hstep with hinit
      cases hstep
      exact h.not_runs_cleanup hinit polls
  | stopped k =>
      obtain ⟨waited, hk, hstep⟩ := Option.bind_eq_some_iff.mp hstep
      split_ifs at hstep with hsettled
      cases hstep
      exact h.not_runs_stopped hk hsettled
  | stopAll =>
      obtain ⟨hinit, hnone⟩ := hevent
      simp only [World.step, if_pos hnone] at hstep
      cases hstep
      intro hruns
      obtain ⟨i, m, hi, halive, -⟩ := h.held hinit pid l hruns
      have hmem : i ∈ w.getAll :=
        mem_getAll.mpr ⟨m, hi, h.registered i m hi (isRunning_of_alive halive)⟩
      rw [hnone] at hmem
      cases hmem
  | _ => exact hevent.elim

theorem daemons_swept_sample :
    ∃ w w', runs World.step (.fresh (fun _ => none) []) crashed = some w ∧
      w.step (.ensureInitialized [[]]) = some w' ∧ ¬ w'.Runs 7 (text "kiod") := by
  obtain ⟨w, w', hrun, hstep⟩ : ∃ w w', runs World.step (.fresh (fun _ => none) []) crashed =
      some w ∧ w.step (.ensureInitialized [[]]) = some w' := ⟨_, _, rfl, rfl⟩
  exact ⟨w, w', hrun, hstep,
    daemons_swept (fun pid p h => by cases h) orderly_crashed hrun hstep trivial 7 _⟩

end Runs

/-! ### Registered too late -/

theorem poll_nil (host : ProcessTable) (polls : List (List ℕ)) (pid : ℕ) :
    poll host [] polls pid = host pid := by
  cases polls with
  | nil =>
      show (if pid ∈ [] then (host pid).map Live.kill else host pid) = host pid
      exact if_neg List.not_mem_nil
  | cons gone polls => rfl

/-- An exit handler without a registered daemon leaves everything as it is. -/
theorem cleanup_of_empty (hnone : ∀ l, w.processes l = none) (polls : List (List ℕ)) :
    (w.cleanup polls).host pid = w.host pid ∧ (w.cleanup polls).pidFiles = w.pidFiles := by
  have hall : w.getAll = [] := by
    refine List.eq_nil_iff_forall_not_mem.mpr fun i hmem => ?_
    obtain ⟨m, -, hplace⟩ := mem_getAll.mp hmem
    rw [hnone] at hplace
    cases hplace
  constructor
  · show terminatePidsSync w.host (w.getAll.filterMap _) polls pid = w.host pid
    rw [hall]
    exact poll_nil _ _ _
  · refine List.filter_eq_self.mpr fun file _ => ?_
    rw [hnone]
    rfl

/-- A daemon that is registered and started while a `stopAll` waits is dropped from the registry at
its end: it outlives the exit handler, and only its pid file is left. -/
theorem late_daemon_survives {k : ℕ} {waited : List ℕ} {basename : Text}
    (hinit : w.initialized = true) (hk : w.stopping[k]? = some waited)
    (hsettled : (waited.all fun i => w.daemons[i]?.any fun m => m.child == .settled) = true)
    (hnone : w.processes l = none) (hfree : w.isFree pid = true) (polls : List (List ℕ)) :
    ∃ w', runs World.step w
        [.push l, .start w.daemons.length pid basename, .stopped k, .cleanup polls] = some w' ∧
      w'.Runs pid l ∧ (l, some pid) ∈ w'.pidFiles ∧ w'.initialized = false := by
  let pushed : World := { w with
    daemons := w.daemons ++ [⟨l, 0, .created⟩]
    processes := fun k => if k = l then some w.daemons.length else w.processes k }
  let started : World :=
    { (pushed.set w.daemons.length ⟨l, pid, .alive⟩).writePidFile l pid with
      host := fun p => if p = pid then some ⟨basename, some l, false⟩ else w.host p }
  let dropped : World :=
    { started with processes := fun _ => none, stopping := w.stopping.eraseIdx k }
  have hpush : w.step (.push l) = some pushed := by
    simp only [World.step]
    rw [if_neg (by rw [hinit]; exact Bool.noConfusion),
      if_neg (by rw [hnone]; exact Bool.noConfusion)]
  have hstart : pushed.step (.start w.daemons.length pid basename) = some started := by
    show (pushed.daemons[w.daemons.length]?).bind _ = some started
    rw [show pushed.daemons[w.daemons.length]? = some ⟨l, 0, .created⟩ from
      List.getElem?_concat_length]
    refine if_pos ⟨rfl, ?_⟩
    unfold World.isFree at hfree ⊢
    rw [Bool.and_eq_true] at hfree ⊢
    refine ⟨hfree.1, ?_⟩
    rw [List.all_append, hfree.2]
    rfl
  have hstopped : started.step (.stopped k) = some dropped := by
    show (w.stopping[k]?).bind _ = some dropped
    rw [hk]
    refine if_pos (List.all_eq_true.mpr fun i hmem => ?_)
    obtain ⟨m, hi, hchild⟩ := (Option.any_eq_true _ _).mp (List.all_eq_true.mp hsettled i hmem)
    have hlt : i < w.daemons.length := (List.getElem?_eq_some_iff.mp hi).1
    rw [show started.daemons[i]? = some m from
      (List.getElem?_set_ne (Nat.ne_of_gt hlt)).trans ((List.getElem?_append_left hlt).trans hi)]
    exact hchild
  have hcleanup : dropped.step (.cleanup polls) = some (dropped.cleanup polls) := if_pos hinit
  have hempty : ∀ l, dropped.processes l = none := fun _ => rfl
  obtain ⟨hhost, hfiles⟩ := @cleanup_of_empty dropped pid hempty polls
  refine ⟨dropped.cleanup polls, ?_, ⟨⟨basename, some l, false⟩, ?_, rfl, rfl⟩, ?_, rfl⟩
  · rw [runs_cons_eq, hpush, Option.bind_some, runs_cons_eq, hstart, Option.bind_some,
      runs_cons_eq, hstopped, Option.bind_some, runs_cons_eq, hcleanup]
    rfl
  · rw [hhost]
    exact if_pos rfl
  · rw [hfiles]
    exact List.mem_cons_self

/-- A session stops its only daemon, and the call is about to end. -/
def stopsOne : List Event :=
  [.ensureInitialized [], .push (text "kiod"), .start 0 7 (text "kiod"), .stopAll, .dies 7,
    .exit 0, .close 0]

theorem late_daemon_survives_sample :
    ∃ w w', runs World.step (.fresh (fun _ => none) []) stopsOne = some w ∧
      runs World.step w [.push (text "anvil"), .start w.daemons.length 8 (text "anvil"),
        .stopped 0, .cleanup [[]]] = some w' ∧ w'.Runs 8 (text "anvil") := by
  obtain ⟨w, hrun, hinit, hk, hsettled, hnone, hfree⟩ :
      ∃ w, runs World.step (.fresh (fun _ => none) []) stopsOne = some w ∧
        w.initialized = true ∧ w.stopping[0]? = some [0] ∧
        (([0] : List ℕ).all fun i => w.daemons[i]?.any fun m => m.child == .settled) = true ∧
        w.processes (text "anvil") = none ∧ w.isFree 8 = true :=
    ⟨_, rfl, rfl, rfl, rfl, rfl, rfl⟩
  obtain ⟨w', hlate, hruns, -⟩ := late_daemon_survives hinit hk hsettled hnone hfree [[]]
  exact ⟨w, w', hrun, hlate, hruns⟩

end WireTools.ProcessManager
