import Mathlib.Data.List.Basic
import WireTools.Runs
import WireTools.Text

/-! # The daemons of a cluster

A session of the tool registers daemons, spawns and stops them.  Every daemon has a pid file under
its label; a session that ends without stopping its daemons leaves them, with the files, to the
sweep of the next one.

* `terminatePidsSync`: a sweep waits for pids to go and kills the rest (`terminatePidsSync_eq`);
* `World` is the host with the cluster's directory and its session, `Event` what may happen, and
  `step` its effect;
* `Orderly`: nothing is registered or started while the session stops its daemons. -/

namespace WireTools.ProcessManager

/-! ### Processes and sweeps -/

def ManagedProcessNames : List Text :=
  [text "nodeop", text "kiod", text "anvil", text "solana-test-validator"]

/-- A live process of the host: the name of its command, the label under which a session of the
cluster spawned it, if one did, and whether it was sent `SIGKILL`. -/
structure Live where
  basename : Text
  label : Option Text
  killed : Bool
deriving DecidableEq

/-- The live processes by pid. -/
abbrev ProcessTable := ℕ → Option Live

/-- The pid is live and runs a managed command. -/
def isManagedPid (host : ProcessTable) (pid : ℕ) : Bool :=
  (host pid).any fun p => ManagedProcessNames.contains p.basename

/-- Some processes exit. -/
def die (host : ProcessTable) (pids : List ℕ) : ProcessTable :=
  fun pid => if pid ∈ pids then none else host pid

def Live.kill (p : Live) : Live := { p with killed := true }

/-- `SIGKILL` to some pids. -/
def kill (host : ProcessTable) (pids : List ℕ) : ProcessTable :=
  fun pid => if pid ∈ pids then (host pid).map Live.kill else host pid

/-- Poll for the exit of pids until none is left or the grace is over, then kill those left.  The
polls say which processes have exited since the one before. -/
def poll (host : ProcessTable) (remaining : List ℕ) : List (List ℕ) → ProcessTable
  | [] => kill host remaining
  | gone :: polls =>
      if remaining = [] then host
      else poll (die host gone) (remaining.filter (isManagedPid (die host gone))) polls

def terminatePidsSync (host : ProcessTable) (pids : List ℕ) (polls : List (List ℕ)) :
    ProcessTable :=
  poll host (pids.filter (isManagedPid host)) polls

theorem poll_eq {host : ProcessTable} {remaining : List ℕ} {polls : List (List ℕ)}
    (hremaining : ∀ pid ∈ remaining, isManagedPid host pid = true) (pid : ℕ) :
    poll host remaining polls pid = none ∨
      (pid ∉ remaining ∧ poll host remaining polls pid = host pid) ∨
      (pid ∈ remaining ∧ poll host remaining polls pid = (host pid).map Live.kill) := by
  induction polls generalizing host remaining with
  | nil =>
      unfold poll kill
      by_cases h : pid ∈ remaining
      · exact Or.inr (Or.inr ⟨h, if_pos h⟩)
      · exact Or.inr (Or.inl ⟨h, if_neg h⟩)
  | cons gone polls ih =>
      unfold poll
      split_ifs with hnone
      · rw [hnone]
        exact Or.inr (Or.inl ⟨List.not_mem_nil, rfl⟩)
      · have hleft : ∀ pid ∈ remaining.filter (isManagedPid (die host gone)),
            isManagedPid (die host gone) pid = true := fun pid h => (List.mem_filter.mp h).2
        have hpoll := ih hleft
        by_cases hgone : pid ∈ gone
        · have hdie : die host gone pid = none := if_pos hgone
          left
          rcases hpoll with h | ⟨-, h⟩ | ⟨-, h⟩
          · exact h
          · rw [h, hdie]
          · rw [h, hdie]
            rfl
        · have hdie : die host gone pid = host pid := if_neg hgone
          have hmanaged : isManagedPid (die host gone) pid = isManagedPid host pid := by
            unfold isManagedPid
            rw [hdie]
          rw [List.mem_filter, hmanaged, hdie] at hpoll
          rcases hpoll with h | ⟨hmem, h⟩ | ⟨hmem, h⟩
          · exact Or.inl h
          · exact Or.inr (Or.inl ⟨fun h => hmem ⟨h, hremaining pid h⟩, h⟩)
          · exact Or.inr (Or.inr ⟨hmem.1, h⟩)

/-- A sweep leaves the other processes alone, unless they exit by themselves, and of the pids it is
for it leaves none that runs a managed command and was not killed. -/
theorem terminatePidsSync_eq (host : ProcessTable) (pids : List ℕ) (polls : List (List ℕ))
    (pid : ℕ) :
    terminatePidsSync host pids polls pid = none ∨
      (¬ (pid ∈ pids ∧ isManagedPid host pid = true) ∧
        terminatePidsSync host pids polls pid = host pid) ∨
      (pid ∈ pids ∧ isManagedPid host pid = true ∧
        terminatePidsSync host pids polls pid = (host pid).map Live.kill) := by
  have hmanaged : ∀ pid ∈ pids.filter (isManagedPid host), isManagedPid host pid = true :=
    fun pid h => (List.mem_filter.mp h).2
  have h := @poll_eq host _ polls hmanaged pid
  rw [List.mem_filter, and_assoc] at h
  exact h

/-! ### A cluster and its sessions -/

/-- What a session knows of a daemon's child: nothing was spawned, it has not seen the child exit,
the pipes are still open, or `exited` has settled. -/
inductive Child where
  | created
  | alive
  | exited
  | settled
deriving DecidableEq

/-- A daemon of a session; its pid is 0 until it is spawned. -/
structure ManagedProcess where
  label : Text
  pid : ℕ
  child : Child
deriving DecidableEq

/-- The child was spawned, and `exited` has not settled. -/
def ManagedProcess.isRunning (m : ManagedProcess) : Bool := m.child == .alive || m.child == .exited

/-- The host and the cluster's directory, with the session that is at work on it. -/
structure World where
  host : ProcessTable
  /-- The pid files by label; a content that is no number is none. -/
  pidFiles : List (Text × Option ℕ)
  initialized : Bool
  /-- The daemons that the session constructed. -/
  daemons : List ManagedProcess
  /-- The registry: the place of a label's daemon. -/
  processes : Text → Option ℕ
  /-- The calls of `stopAll` under way, each with the daemons it waits for. -/
  stopping : List (List ℕ)

namespace World

variable (w : World)

/-- The daemon is in the registry. -/
def isRegistered (i : ℕ) : Bool := w.daemons[i]?.any fun m => w.processes m.label == some i

def getAll : List ℕ := (List.range w.daemons.length).filter w.isRegistered

/-- No live process and no child that the session has yet to see exit has the pid. -/
def isFree (pid : ℕ) : Bool :=
  0 < pid && (w.host pid).isNone && w.daemons.all fun m => !(m.child == .alive && m.pid == pid)

def set (i : ℕ) (m : ManagedProcess) : World := { w with daemons := w.daemons.set i m }

def rmPidFile (label : Text) : World :=
  { w with pidFiles := w.pidFiles.filter fun file => file.1 ≠ label }

def writePidFile (label : Text) (pid : ℕ) : World :=
  { w with pidFiles := (label, some pid) :: w.pidFiles.filter fun file => file.1 ≠ label }

/-- The pids of the files that run a managed command. -/
def readOrphanPids : List ℕ :=
  w.pidFiles.filterMap fun file => file.2.filter fun pid => 0 < pid && isManagedPid w.host pid

/-- The stale files are removed as they are read. -/
def prune : World :=
  { w with pidFiles := w.pidFiles.filter fun file =>
      file.2.any fun pid => 0 < pid && isManagedPid w.host pid }

/-- The session is over, and what it knew is gone. -/
def ended : World :=
  { w with initialized := false, daemons := [], processes := fun _ => none, stopping := [] }

end World

/-- What may happen.  A daemon is named by its place in the list, a `stopAll` by its place among
those under way. -/
inductive Event where
  | ensureInitialized (polls : List (List ℕ))
  | push (label : Text)
  | start (i pid : ℕ) (basename : Text)
  | startFails (i : ℕ)
  | error (i : ℕ)
  | exit (i : ℕ)
  | close (i : ℕ)
  | remove (label : Text)
  | stopAll
  | stopped (k : ℕ)
  | cleanup (polls : List (List ℕ))
  | crash
  | appears (pid : ℕ) (basename : Text)
  | dies (pid : ℕ)

namespace World

variable (w : World)

/-- The sweep of a session that begins. -/
def sweepOrphans (polls : List (List ℕ)) : World :=
  { w.prune with host := terminatePidsSync w.host w.readOrphanPids polls, initialized := true }

/-- The exit handler. -/
def cleanup (polls : List (List ℕ)) : World :=
  { w.ended with
    host := terminatePidsSync w.host
      (w.getAll.filterMap fun i => w.daemons[i]?.map ManagedProcess.pid) polls
    pidFiles := w.pidFiles.filter fun file => (w.processes file.1).isNone }

/-- The effect of an event; none when it cannot happen.  What a call refuses changes nothing. -/
def step (w : World) : Event → Option World
  | .ensureInitialized polls => if w.initialized then none else some (w.sweepOrphans polls)
  | .push label =>
      if w.initialized = false then none
      else if (w.processes label).isSome then some w
      else some { w with
        daemons := w.daemons ++ [⟨label, 0, .created⟩]
        processes := fun l => if l = label then some w.daemons.length else w.processes l }
  | .start i pid basename => do
      let m ← w.daemons[i]?
      if m.child = .created ∧ w.isFree pid then
        let spawned := w.set i { m with pid := pid, child := .alive }
        some { spawned.writePidFile m.label pid with
          host := fun p => if p = pid then some ⟨basename, some m.label, false⟩
            else w.host p }
      else none
  | .startFails i => do
      let m ← w.daemons[i]?
      if m.child = .created then some (w.set i { m with child := .alive }) else none
  | .error i => do
      let m ← w.daemons[i]?
      if m.child = .alive ∧ m.pid = 0 then some (w.set i { m with child := .settled }) else none
  | .exit i => do
      let m ← w.daemons[i]?
      if m.child = .alive ∧ 0 < m.pid ∧ w.host m.pid = none then
        some ((w.set i { m with child := .exited }).rmPidFile m.label)
      else none
  | .close i => do
      let m ← w.daemons[i]?
      if m.child = .exited then some (w.set i { m with child := .settled }) else none
  | .remove label =>
      match w.processes label with
      | none => some w
      | some i => do
          let m ← w.daemons[i]?
          if m.isRunning then some w
          else some { w with processes := fun l => if l = label then none else w.processes l }
  | .stopAll =>
      if w.getAll = [] then some w
      else some { w with stopping := w.stopping ++
        [w.getAll.filter fun i => w.daemons[i]?.any ManagedProcess.isRunning] }
  | .stopped k => do
      let waited ← w.stopping[k]?
      if waited.all fun i => w.daemons[i]?.any fun m => m.child == .settled then
        some { w with processes := fun _ => none, stopping := w.stopping.eraseIdx k }
      else none
  | .cleanup polls => if w.initialized then some (w.cleanup polls) else none
  | .crash => some w.ended
  | .appears pid basename =>
      if w.isFree pid then
        some { w with
          host := fun p => if p = pid then some ⟨basename, none, false⟩ else w.host p }
      else none
  | .dies pid => some { w with host := die w.host [pid] }

end World

/-- Nothing is registered or started while a `stopAll` is under way, and what is started is
registered and has the name of a managed command. -/
def Orderly (w : World) : Event → Prop
  | .push _ => w.stopping = []
  | .start i _ basename =>
      w.stopping = [] ∧ w.isRegistered i = true ∧ basename ∈ ManagedProcessNames
  | .startFails i => w.stopping = [] ∧ w.isRegistered i = true
  | _ => True

end WireTools.ProcessManager
