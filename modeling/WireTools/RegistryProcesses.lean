import WireTools.BindRegistry
import WireTools.ResolveSoundness
import Mathlib.Logic.Relation

/-! # Processes sharing one port registry

Any number of processes resolve and re-claim bindings over one registry directory, exit, are
killed and have their pids reused.

* `World` is the directory with the processes, live and dead; `Event` is what may happen, with
  everything the host answers, and `step` its effect.  A process's `held` are the ports of all
  bindings it obtained.
* `Faithful` is the condition on a resolve: the kernel never draws the port that a `get-port`
  call excluded.
* `RegistryInv` ties a live process's file to the ports it holds; `step_inv` keeps it, and
  `registry_safe` reads the safety of every run off it.  `registry_shares_port` is a run with an
  unfaithful draw. -/

namespace WireTools

open Outcome

/-! ### Processes and steps -/

/-- A process that uses the registry. -/
structure Process where
  pid : ℕ
  executable : String
  live : Bool
  ownRegistrationWritten : Bool
  held : List ℕ
deriving DecidableEq

/-- A process that has just started. -/
def Process.start (pid : ℕ) (executable : String) : Process := ⟨pid, executable, true, false, []⟩

/-- The registry directory and every process so far. -/
structure World where
  directory : List RegistryEntry
  processes : List Process
deriving DecidableEq

/-- What may happen.  A process is named by its place in the list; `names` are the executables
that it observes of the live pids. -/
inductive Event where
  | spawn (pid : ℕ) (executable : String)
  | resolve (i : ℕ) (names : ℕ → String) (host : Host) (options : BindOptions)
      (topology : ClusterTopologyOptions) (ranges : List BindConfigPortRange)
  | claimResolved (i : ℕ) (names : ℕ → String) (host : Host) (config : BindConfig)
  | exit (i : ℕ)
  | kill (i : ℕ)

namespace World

variable (world : World)

/-- Whether a pid is in use. -/
def isPidAlive (pid : ℕ) : Bool := world.processes.any fun p => p.live && p.pid == pid

/-- What a process observes: the live pids, and their executables. -/
def observation (names : ℕ → String) : PidObservation := ⟨world.isPidAlive, names⟩

/-- A live process's executable is observed as it is, or as empty. -/
def observes (names : ℕ → String) : Bool :=
  world.processes.all fun p => !p.live || names p.pid == p.executable || names p.pid == ""

end World

/-- The process with the ports of one more binding. -/
def Process.hold (p : Process) (ports : List ℕ) : Process :=
  { p with ownRegistrationWritten := true, held := uniq (p.held ++ ports) }

/-- The body of a resolve: the directory that its read leaves, and the binding with the
directory that registers it. -/
def resolveRegistered (isLocalAddress : String → Bool) (observed : PidObservation) (p : Process)
    (host : Host) (options : BindOptions) (topology : ClusterTopologyOptions)
    (ranges : List BindConfigPortRange) (directory : List RegistryEntry) :
    List RegistryEntry × Except BindError (BindConfig × List RegistryEntry) :=
  let r := readRegistryPortExclusions observed p.pid p.ownRegistrationWritten directory
  (r.1, do
    let exclusions ← r.2
    match allocate host options ranges topology exclusions with
    | .error e => throw (.pick e)
    | .ok (config, _) =>
        let registered ← registerResolved observed p.pid p.ownRegistrationWritten isLocalAddress
          r.1 config
        return (config, registered))

/-- The effect of an event; `none` when it cannot happen. -/
def step (isLocalAddress : String → Bool) (world : World) : Event → Option World
  | .spawn pid executable =>
      if 0 < pid ∧ pid ≤ MaximumPid ∧ world.isPidAlive pid = false then
        some { world with processes := world.processes ++ [Process.start pid executable] }
      else none
  | .resolve i names host options topology ranges => do
      let p ← world.processes[i]?
      if p.live && world.observes names then
        match resolveRegistered isLocalAddress (world.observation names) p host options topology
          ranges world.directory with
        | (_, .ok (config, registered)) => some ⟨registered, world.processes.set i
            (p.hold (locallyBoundPorts isLocalAddress config))⟩
        | (left, .error _) => some { world with directory := left }
      else none
  | .claimResolved i names host config => do
      let p ← world.processes[i]?
      if p.live && world.observes names then
        match claimResolved (world.observation names) p.pid p.ownRegistrationWritten isLocalAddress
          host world.directory config with
        | (_, .ok (some registered)) => some ⟨registered, world.processes.set i
            (p.hold (locallyBoundPorts isLocalAddress config))⟩
        | (left, _) => some { world with directory := left }
      else none
  | .exit i => do
      let p ← world.processes[i]?
      if p.live then
        some ⟨if p.ownRegistrationWritten then removeFile world.directory (registryFile p.pid)
            else world.directory, world.processes.set i { p with live := false }⟩
      else none
  | .kill i => do
      let p ← world.processes[i]?
      if p.live then some { world with processes := world.processes.set i { p with live := false } }
      else none

/-- The kernel draws no port that a resolve excluded. -/
def Faithful (world : World) : Event → Prop
  | .resolve i names host options topology ranges =>
      ∀ p exclusions config s', world.processes[i]? = some p →
        (readRegistryPortExclusions (world.observation names) p.pid p.ownRegistrationWritten
          world.directory).2 = .ok exclusions →
        allocate host options ranges topology exclusions = .ok (config, s') →
        ∀ call ∈ s'.calls, ¬ call.DrewExcluded
  | _ => True

/-- One faithful step. -/
def FaithfulStep (isLocalAddress : String → Bool) (world world' : World) : Prop :=
  ∃ event, Faithful world event ∧ step isLocalAddress world event = some world'

/-! ### Safety -/

/-- The ports of distinct live processes are disjoint and no port is reserved. -/
structure RegistrySafe (world : World) : Prop where
  disjoint : ∀ (i j : ℕ) (p q : Process), world.processes[i]? = some p →
    world.processes[j]? = some q → i ≠ j → p.live = true → q.live = true →
    ∀ x ∈ p.held, x ∉ q.held
  unreserved : ∀ p ∈ world.processes, ∀ x ∈ p.held, isReservedPort x = false

/-- The file of a live process holds exactly the process's ports. -/
def HasFile (directory : List RegistryEntry) (p : Process) : Prop :=
  ∃ executable, contentOf directory (registryFile p.pid) = some (some ⟨executable, p.held⟩) ∧
    (executable = p.executable ∨ executable = "")

/-- The invariant of every run. -/
structure RegistryInv (world : World) : Prop where
  pids : ∀ (i j : ℕ) (p q : Process), world.processes[i]? = some p →
    world.processes[j]? = some q → p.live = true → q.live = true → p.pid = q.pid → i = j
  range : ∀ p ∈ world.processes, 0 < p.pid ∧ p.pid ≤ MaximumPid
  written : ∀ p ∈ world.processes, p.live = true → p.ownRegistrationWritten = true →
    HasFile world.directory p
  unwritten : ∀ p ∈ world.processes, p.ownRegistrationWritten = false → p.held = []
  safe : RegistrySafe world

theorem registryInv_start (directory : List RegistryEntry) : RegistryInv ⟨directory, []⟩ :=
  ⟨by simp, by simp, by simp, by simp, ⟨by simp, by simp⟩⟩

variable {isLocalAddress : String → Bool} {world : World} {names : ℕ → String} {i : ℕ}
  {p : Process}

theorem isPidAlive_of_mem (hp : p ∈ world.processes) (hlive : p.live = true) :
    world.isPidAlive p.pid = true := by
  simp only [World.isPidAlive, List.any_eq_true, Bool.and_eq_true, beq_iff_eq]
  exact ⟨p, hp, hlive, rfl⟩

theorem observes_of_mem (h : world.observes names = true) (hp : p ∈ world.processes)
    (hlive : p.live = true) : names p.pid = p.executable ∨ names p.pid = "" := by
  simp only [World.observes, List.all_eq_true, Bool.or_eq_true, Bool.not_eq_true', beq_iff_eq] at h
  rcases h p hp with (h | h) | h
  · rw [hlive] at h
    exact absurd h.symm Bool.false_ne_true
  · exact .inl h
  · exact .inr h

/-- A read by a live process leaves the file of every live process in place and excludes its
ports. -/
theorem RegistryInv.read (h : RegistryInv world) (hi : world.processes[i]? = some p)
    (hlive : p.live = true) (hobs : world.observes names = true) {q : Process}
    (hq : q ∈ world.processes) (hqlive : q.live = true) :
    (q.ownRegistrationWritten = true → HasFile (readRegistryPortExclusions
        (world.observation names) p.pid p.ownRegistrationWritten world.directory).1 q) ∧
      ∀ exclusions, (readRegistryPortExclusions (world.observation names) p.pid
        p.ownRegistrationWritten world.directory).2 = .ok exclusions →
        ∀ x ∈ q.held, exclusions.has x = true := by
  cases hw : q.ownRegistrationWritten with
  | false =>
      refine ⟨fun hf => absurd hf Bool.false_ne_true, fun _ _ x hx => ?_⟩
      rw [h.unwritten q hq hw] at hx
      exact absurd hx List.not_mem_nil
  | true =>
      obtain ⟨executable, hcontent, hexe⟩ := h.written q hq hqlive hw
      obtain ⟨hpos, hmax⟩ := h.range q hq
      have hown : q.pid = p.pid → p.ownRegistrationWritten = true := by
        intro hpid
        obtain ⟨j, hj⟩ := List.getElem?_of_mem hq
        obtain rfl := h.pids j i q p hj hi hqlive hlive hpid
        rw [hi] at hj
        rw [Option.some.inj hj]
        exact hw
      have hkeep : verdict (world.observation names) p.pid p.ownRegistrationWritten
          ⟨registryFile q.pid, some ⟨executable, q.held⟩⟩ = .keep q.held := by
        refine verdict_keep hpos hmax (isPidAlive_of_mem hq hqlive) hown ?_
        rcases observes_of_mem hobs hq hqlive with hn | hn
        · rcases hexe with he | he
          · exact .inr (.inr (hn.trans he.symm))
          · exact .inr (.inl he)
        · exact .inl hn
      obtain ⟨hkept, hports⟩ := readRegistry_keep hkeep hcontent
      exact ⟨fun _ => ⟨executable, hkept, hexe⟩, hports⟩

/-! ### What a step preserves -/

theorem RegistrySafe.of_processes {processes : List Process} {directory directory' : List RegistryEntry}
    (h : RegistrySafe ⟨directory, processes⟩) : RegistrySafe ⟨directory', processes⟩ :=
  ⟨h.disjoint, h.unreserved⟩

/-- A directory with the files of the live processes. -/
theorem RegistryInv.reread (h : RegistryInv world) {directory : List RegistryEntry}
    (hfiles : ∀ q ∈ world.processes, q.live = true → q.ownRegistrationWritten = true →
      HasFile directory q) : RegistryInv { world with directory } :=
  ⟨h.pids, h.range, hfiles, h.unwritten, h.safe.of_processes⟩

/-- The process at a place of the list after the process at `i` was replaced. -/
theorem getElem?_replaced {processes : List Process} {new q : Process} {j : ℕ}
    (h : (processes.set i new)[j]? = some q) :
    (j = i ∧ q = new) ∨ (j ≠ i ∧ processes[j]? = some q) := by
  rw [List.getElem?_set] at h
  by_cases hij : i = j
  · simp only [hij, if_true] at h
    split_ifs at h with hlt
    · exact .inl ⟨hij.symm, (Option.some.inj h).symm⟩
  · simp only [hij, if_false] at h
    exact .inr ⟨fun hji => hij hji.symm, h⟩

theorem mem_replaced {processes : List Process} {new q : Process}
    (h : q ∈ processes.set i new) : q = new ∨ ∃ j, j ≠ i ∧ processes[j]? = some q := by
  obtain ⟨j, hj⟩ := List.getElem?_of_mem h
  rcases getElem?_replaced hj with ⟨_, hq⟩ | ⟨hj, hq⟩
  · exact .inl hq
  · exact .inr ⟨j, hj, hq⟩

/-- A live process's registered ports are the ports it holds. -/
theorem RegistryInv.own_ports (h : RegistryInv world) (hi : world.processes[i]? = some p)
    (hlive : p.live = true) :
    readOwnRegisteredPorts p.pid p.ownRegistrationWritten world.directory = p.held := by
  have hmem : p ∈ world.processes := List.mem_of_getElem? hi
  cases hw : p.ownRegistrationWritten with
  | false => rw [h.unwritten p hmem hw]; rfl
  | true =>
      obtain ⟨executable, hcontent, _⟩ := h.written p hmem hlive hw
      simp [readOwnRegisteredPorts, hcontent]

/-- Live processes have different files. -/
theorem RegistryInv.files_differ (h : RegistryInv world) (hi : world.processes[i]? = some p)
    (hlive : p.live = true) {j : ℕ} {q : Process} (hj : world.processes[j]? = some q)
    (hji : j ≠ i) (hqlive : q.live = true) : registryFile p.pid ≠ registryFile q.pid := by
  intro hname
  obtain ⟨hpos, hmax⟩ := h.range p (List.mem_of_getElem? hi)
  obtain ⟨hpos', hmax'⟩ := h.range q (List.mem_of_getElem? hj)
  exact hji (h.pids j i q p hj hi hqlive hlive
    (registryFile_injective hpos hmax hpos' hmax' hname).symm)

/-- A live process registers ports that are not reserved and that no other live process holds. -/
theorem RegistryInv.hold (h : RegistryInv world) (hi : world.processes[i]? = some p)
    (hlive : p.live = true) (hobs : world.observes names = true) {config : BindConfig}
    {registered : List RegistryEntry}
    (hregister : registerResolved (world.observation names) p.pid p.ownRegistrationWritten
      isLocalAddress world.directory config = .ok registered)
    (hfree : ∀ x ∈ locallyBoundPorts isLocalAddress config, isReservedPort x = false)
    (hothers : ∀ (j : ℕ) (q : Process), world.processes[j]? = some q → j ≠ i → q.live = true →
      ∀ x ∈ locallyBoundPorts isLocalAddress config, x ∉ q.held) :
    RegistryInv ⟨registered, world.processes.set i
      (p.hold (locallyBoundPorts isLocalAddress config))⟩ := by
  have hmem : p ∈ world.processes := List.mem_of_getElem? hi
  simp only [registerResolved, h.own_ports hi hlive] at hregister
  split_ifs at hregister with hvalid
  obtain rfl := Except.ok.inj hregister
  refine ⟨?_, ?_, ?_, ?_, ?_, ?_⟩
  · intro j k q r hj hk hq hr hpid
    rcases getElem?_replaced hj with ⟨rfl, rfl⟩ | ⟨hji, hj'⟩
    · rcases getElem?_replaced hk with ⟨rfl, rfl⟩ | ⟨_, hk'⟩
      · rfl
      · exact h.pids _ k p r hi hk' hlive hr hpid
    · rcases getElem?_replaced hk with ⟨rfl, rfl⟩ | ⟨_, hk'⟩
      · exact h.pids j _ q p hj' hi hq hlive hpid
      · exact h.pids j k q r hj' hk' hq hr hpid
  · intro q hq
    rcases mem_replaced hq with rfl | ⟨j, _, hj⟩
    · exact h.range p hmem
    · exact h.range q (List.mem_of_getElem? hj)
  · intro q hq hqlive hqw
    rcases mem_replaced hq with rfl | ⟨j, hji, hj⟩
    · refine ⟨names p.pid, ?_, observes_of_mem hobs hmem hlive⟩
      rw [contentOf_writeFile]
      simp [Process.hold, World.observation]
    · obtain ⟨executable, hcontent, hexe⟩ := h.written q (List.mem_of_getElem? hj) hqlive hqw
      refine ⟨executable, ?_, hexe⟩
      rw [contentOf_writeFile, if_neg (h.files_differ hi hlive hj hji hqlive)]
      exact hcontent
  · intro q hq hqw
    rcases mem_replaced hq with rfl | ⟨j, _, hj⟩
    · exact absurd hqw (by simp [Process.hold])
    · exact h.unwritten q (List.mem_of_getElem? hj) hqw
  · have hheld : ∀ x, x ∈ (p.hold (locallyBoundPorts isLocalAddress config)).held ↔
        x ∈ p.held ∨ x ∈ locallyBoundPorts isLocalAddress config := by
      simp [Process.hold]
    intro j k q r hj hk hjk hq hr x hx hx'
    rcases getElem?_replaced hj with ⟨rfl, rfl⟩ | ⟨hji, hj'⟩
    · rcases getElem?_replaced hk with ⟨rfl, rfl⟩ | ⟨hki, hk'⟩
      · exact hjk rfl
      · rcases (hheld x).mp hx with hx | hx
        · exact h.safe.disjoint _ k p r hi hk' hjk hlive hr x hx hx'
        · exact hothers k r hk' hki hr x hx hx'
    · rcases getElem?_replaced hk with ⟨rfl, rfl⟩ | ⟨_, hk'⟩
      · rcases (hheld x).mp hx' with hx' | hx'
        · exact h.safe.disjoint j _ q p hj' hi hjk hq hlive x hx hx'
        · exact hothers j q hj' hji hq x hx' hx
      · exact h.safe.disjoint j k q r hj' hk' hjk hq hr x hx hx'
  · intro q hq x hx
    rcases mem_replaced hq with rfl | ⟨j, _, hj⟩
    · simp only [Process.hold, mem_uniq, List.mem_append] at hx
      rcases hx with hx | hx
      · exact h.safe.unreserved p hmem x hx
      · exact hfree x hx
    · exact h.safe.unreserved q (List.mem_of_getElem? hj) x hx

/-- A process dies; the files of the others stay. -/
theorem RegistryInv.die (h : RegistryInv world) (hi : world.processes[i]? = some p)
    {directory : List RegistryEntry}
    (hfiles : ∀ (j : ℕ) (q : Process), world.processes[j]? = some q → j ≠ i → q.live = true →
      q.ownRegistrationWritten = true → HasFile directory q) :
    RegistryInv ⟨directory, world.processes.set i { p with live := false }⟩ := by
  have hmem : p ∈ world.processes := List.mem_of_getElem? hi
  have hdead : ∀ {q : Process}, q = { p with live := false } → q.live = true → False := by
    rintro q rfl hq
    exact Bool.false_ne_true hq
  refine ⟨?_, ?_, ?_, ?_, ?_, ?_⟩
  · intro j k q r hj hk hq hr hpid
    rcases getElem?_replaced hj with ⟨_, hq'⟩ | ⟨_, hj'⟩
    · exact (hdead hq' hq).elim
    · rcases getElem?_replaced hk with ⟨_, hr'⟩ | ⟨_, hk'⟩
      · exact (hdead hr' hr).elim
      · exact h.pids j k q r hj' hk' hq hr hpid
  · intro q hq
    rcases mem_replaced hq with rfl | ⟨j, _, hj⟩
    · exact h.range p hmem
    · exact h.range q (List.mem_of_getElem? hj)
  · intro q hq hqlive hqw
    rcases mem_replaced hq with hq' | ⟨j, hji, hj⟩
    · exact (hdead hq' hqlive).elim
    · exact hfiles j q hj hji hqlive hqw
  · intro q hq hqw
    rcases mem_replaced hq with rfl | ⟨j, _, hj⟩
    · exact h.unwritten p hmem hqw
    · exact h.unwritten q (List.mem_of_getElem? hj) hqw
  · intro j k q r hj hk hjk hq hr
    rcases getElem?_replaced hj with ⟨_, hq'⟩ | ⟨_, hj'⟩
    · exact (hdead hq' hq).elim
    · rcases getElem?_replaced hk with ⟨_, hr'⟩ | ⟨_, hk'⟩
      · exact (hdead hr' hr).elim
      · exact h.safe.disjoint j k q r hj' hk' hjk hq hr
  · intro q hq
    rcases mem_replaced hq with rfl | ⟨j, _, hj⟩
    · exact h.safe.unreserved p hmem
    · exact h.safe.unreserved q (List.mem_of_getElem? hj)

/-- A process starts under a pid that is not in use. -/
theorem RegistryInv.spawn (h : RegistryInv world) {pid : ℕ} (executable : String)
    (hpos : 0 < pid) (hmax : pid ≤ MaximumPid) (hdead : world.isPidAlive pid = false) :
    RegistryInv { world with processes := world.processes ++ [Process.start pid executable] } := by
  have hnew : ∀ (j : ℕ) (q : Process), (world.processes ++ [Process.start pid executable])[j]? = some q →
      world.processes[j]? = some q ∨ (j = world.processes.length ∧ q = Process.start pid executable) := by
    intro j q hj
    rw [List.getElem?_append] at hj
    split_ifs at hj with hlt
    · exact .inl hj
    · obtain ⟨hj', hq⟩ := List.getElem?_eq_some_iff.mp hj
      simp only [List.length_singleton] at hj'
      refine .inr ⟨by omega, ?_⟩
      have hzero : j - world.processes.length = 0 := by omega
      simpa [hzero] using hq.symm
  have hfresh : ∀ q ∈ world.processes, q.live = true → q.pid ≠ pid := by
    rintro q hq hqlive rfl
    rw [isPidAlive_of_mem hq hqlive] at hdead
    exact Bool.false_ne_true hdead.symm
  have hmem : ∀ q ∈ world.processes ++ [Process.start pid executable],
      q ∈ world.processes ∨ q = Process.start pid executable := by
    intro q hq
    rcases List.mem_append.mp hq with hq | hq
    · exact .inl hq
    · exact .inr (List.mem_singleton.mp hq)
  refine ⟨?_, ?_, ?_, ?_, ?_, ?_⟩
  · intro j k q r hj hk hq hr hpid
    rcases hnew j q hj with hj | ⟨hjlast, rfl⟩
    · rcases hnew k r hk with hk | ⟨_, rfl⟩
      · exact h.pids j k q r hj hk hq hr hpid
      · exact absurd hpid (hfresh q (List.mem_of_getElem? hj) hq)
    · rcases hnew k r hk with hk | ⟨hklast, rfl⟩
      · exact absurd hpid.symm (hfresh r (List.mem_of_getElem? hk) hr)
      · exact hjlast.trans hklast.symm
  · intro q hq
    rcases hmem q hq with hq | rfl
    · exact h.range q hq
    · exact ⟨hpos, hmax⟩
  · intro q hq hqlive hqw
    rcases hmem q hq with hq | rfl
    · exact h.written q hq hqlive hqw
    · exact absurd hqw Bool.false_ne_true
  · intro q hq hqw
    rcases hmem q hq with hq | rfl
    · exact h.unwritten q hq hqw
    · rfl
  · intro j k q r hj hk hjk hq hr x hx hx'
    rcases hnew j q hj with hj | ⟨_, rfl⟩
    · rcases hnew k r hk with hk | ⟨_, rfl⟩
      · exact h.safe.disjoint j k q r hj hk hjk hq hr x hx hx'
      · exact absurd hx' List.not_mem_nil
    · exact absurd hx List.not_mem_nil
  · intro q hq x hx
    rcases hmem q hq with hq | rfl
    · exact h.safe.unreserved q hq x hx
    · exact absurd hx List.not_mem_nil

/-- A resolve that returns read the registry, allocated the binding and registered it. -/
theorem resolveRegistered_ok {observed : PidObservation} {host : Host} {options : BindOptions}
    {topology : ClusterTopologyOptions} {ranges : List BindConfigPortRange}
    {directory registered : List RegistryEntry} {config : BindConfig}
    (h : (resolveRegistered isLocalAddress observed p host options topology ranges directory).2 =
      .ok (config, registered)) :
    ∃ exclusions s',
      (readRegistryPortExclusions observed p.pid p.ownRegistrationWritten directory).2 =
          .ok exclusions ∧
        allocate host options ranges topology exclusions = .ok (config, s') ∧
        registerResolved observed p.pid p.ownRegistrationWritten isLocalAddress
          (readRegistryPortExclusions observed p.pid p.ownRegistrationWritten directory).1 config =
          .ok registered := by
  obtain ⟨exclusions, hread, h⟩ := except_bind_eq_ok.mp h
  cases halloc : allocate host options ranges topology exclusions with
  | error e => simp [halloc] at h
  | ok result =>
      obtain ⟨config', s'⟩ := result
      rw [halloc] at h
      obtain ⟨registered', hregister, h⟩ := except_bind_eq_ok.mp h
      obtain ⟨rfl, rfl⟩ := Prod.mk.inj (Except.ok.inj h)
      exact ⟨exclusions, s', hread, halloc, hregister⟩

theorem RegistryInv.resolve (h : RegistryInv world) {host : Host} {options : BindOptions}
    {topology : ClusterTopologyOptions} {ranges : List BindConfigPortRange} {world' : World}
    (hfaithful : Faithful world (.resolve i names host options topology ranges))
    (hstep : step isLocalAddress world (.resolve i names host options topology ranges) =
      some world') : RegistryInv world' := by
  simp only [step, Option.bind_eq_bind, Option.bind_eq_some_iff] at hstep
  obtain ⟨p, hi, hstep⟩ := hstep
  split_ifs at hstep with hguard
  obtain ⟨hlive, hobs⟩ := Bool.and_eq_true_iff.mp hguard
  have hread := fun q hq hqlive => h.read hi hlive hobs (q := q) hq hqlive
  have hleft := h.reread fun q hq hqlive hqw => (hread q hq hqlive).1 hqw
  cases hrun : resolveRegistered isLocalAddress (world.observation names) p host options topology
      ranges world.directory with
  | mk left outcome =>
      obtain rfl : _ = left := congrArg Prod.fst hrun
      rw [hrun] at hstep
      cases outcome with
      | error e =>
          obtain rfl := Option.some.inj hstep
          exact hleft
      | ok result =>
          obtain ⟨config, registered⟩ := result
          obtain rfl := Option.some.inj hstep
          obtain ⟨exclusions, s', hexclusions, halloc, hregister⟩ :=
            resolveRegistered_ok (congrArg Prod.snd hrun)
          have hsound := (allocate_sound_iff halloc).mpr
            (hfaithful p exclusions config s' hi hexclusions halloc)
          refine hleft.hold hi hlive hobs hregister ?_ ?_
          · exact fun x hx => hsound.unreserved x (locallyBoundPorts_subset hx)
          · intro j q hj _ hqlive x hx hxq
            have hin := (hread q (List.mem_of_getElem? hj) hqlive).2 exclusions hexclusions x hxq
            rw [hsound.unexcluded x (locallyBoundPorts_subset hx)] at hin
            exact Bool.false_ne_true hin

/-- A claim that succeeds found no port reserved or held elsewhere. -/
theorem claimResolved_ok {observed : PidObservation} {self : ℕ} {written : Bool} {host : Host}
    {directory registered : List RegistryEntry} {config : BindConfig}
    (h : (claimResolved observed self written isLocalAddress host directory config).2 =
      .ok (some registered)) :
    ∃ exclusions, (readRegistryPortExclusions observed self written directory).2 =
        .ok exclusions ∧
      (∀ x ∈ locallyBoundPorts isLocalAddress config, isReservedPort x = false) ∧
      (∀ x ∈ locallyBoundPorts isLocalAddress config, exclusions.has x = true →
        x ∈ readOwnRegisteredPorts self written directory) ∧
      registerResolved observed self written isLocalAddress
        (readRegistryPortExclusions observed self written directory).1 config =
        .ok registered := by
  obtain ⟨exclusions, hread, h⟩ := except_bind_eq_ok.mp h
  simp only at h
  split_ifs at h with hreserved helsewhere hbind
  · cases h
  · cases h
  · cases h
  · obtain ⟨registered', hregister, h⟩ := except_bind_eq_ok.mp h
    obtain rfl := Option.some.inj (Except.ok.inj h)
    simp only [Bool.not_eq_true', Bool.not_eq_false, List.isEmpty_iff,
      List.filter_eq_nil_iff] at hreserved helsewhere
    refine ⟨exclusions, hread, fun x hx => by simpa using hreserved x hx, fun x hx hex => ?_,
      hregister⟩
    have hx' := helsewhere x hx
    have hres : isReservedPort x = false := by simpa using hreserved x hx
    simpa [hres, hex] using hx'

theorem RegistryInv.claimResolved (h : RegistryInv world) {host : Host} {config : BindConfig}
    {world' : World}
    (hstep : step isLocalAddress world (.claimResolved i names host config) = some world') :
    RegistryInv world' := by
  simp only [step, Option.bind_eq_bind, Option.bind_eq_some_iff] at hstep
  obtain ⟨p, hi, hstep⟩ := hstep
  split_ifs at hstep with hguard
  obtain ⟨hlive, hobs⟩ := Bool.and_eq_true_iff.mp hguard
  have hread := fun q hq hqlive => h.read hi hlive hobs (q := q) hq hqlive
  have hleft := h.reread fun q hq hqlive hqw => (hread q hq hqlive).1 hqw
  cases hrun : WireTools.claimResolved (world.observation names) p.pid p.ownRegistrationWritten
      isLocalAddress host world.directory config with
  | mk left outcome =>
      obtain rfl : _ = left := congrArg Prod.fst hrun
      rw [hrun] at hstep
      cases outcome with
      | error e =>
          obtain rfl := Option.some.inj hstep
          exact hleft
      | ok result =>
          cases result with
          | none =>
              obtain rfl := Option.some.inj hstep
              exact hleft
          | some registered =>
              obtain rfl := Option.some.inj hstep
              obtain ⟨exclusions, hexclusions, hreserved, hown, hregister⟩ :=
                claimResolved_ok (congrArg Prod.snd hrun)
              refine hleft.hold hi hlive hobs hregister hreserved ?_
              intro j q hj hji hqlive x hx hxq
              have hin := (hread q (List.mem_of_getElem? hj) hqlive).2 exclusions hexclusions x hxq
              have hpx : x ∈ p.held := h.own_ports hi hlive ▸ hown x hx hin
              exact h.safe.disjoint j i q p hj hi hji hqlive hlive x hxq hpx

/-- One faithful step keeps the invariant. -/
theorem step_inv {world' : World} (h : RegistryInv world)
    (hstep : FaithfulStep isLocalAddress world world') : RegistryInv world' := by
  obtain ⟨event, hfaithful, hstep⟩ := hstep
  cases event with
  | spawn pid executable =>
      simp only [step] at hstep
      split_ifs at hstep with hnew
      obtain rfl := Option.some.inj hstep
      exact h.spawn executable hnew.1 hnew.2.1 hnew.2.2
  | resolve i names host options topology ranges => exact h.resolve hfaithful hstep
  | claimResolved i names host config => exact h.claimResolved hstep
  | exit i =>
      simp only [step, Option.bind_eq_bind, Option.bind_eq_some_iff] at hstep
      obtain ⟨p, hi, hstep⟩ := hstep
      split_ifs at hstep with hlive hw
      all_goals obtain rfl := Option.some.inj hstep
      · refine h.die hi fun j q hj hji hqlive hqw => ?_
        obtain ⟨executable, hcontent, hexe⟩ := h.written q (List.mem_of_getElem? hj) hqlive hqw
        refine ⟨executable, ?_, hexe⟩
        rw [contentOf_removeFile (h.files_differ hi hlive hj hji hqlive)]
        exact hcontent
      · exact h.die hi fun j q hj _ hqlive hqw => h.written q (List.mem_of_getElem? hj) hqlive hqw
  | kill i =>
      simp only [step, Option.bind_eq_bind, Option.bind_eq_some_iff] at hstep
      obtain ⟨p, hi, hstep⟩ := hstep
      split_ifs at hstep with hlive
      obtain rfl := Option.some.inj hstep
      exact h.die hi fun j q hj _ hqlive hqw => h.written q (List.mem_of_getElem? hj) hqlive hqw

/-- Every state that faithful steps reach from a registry without processes is safe. -/
theorem registry_safe {directory : List RegistryEntry}
    (h : Relation.ReflTransGen (FaithfulStep isLocalAddress) ⟨directory, []⟩ world) :
    RegistrySafe world := by
  have hinv : RegistryInv world := by
    induction h with
    | refl => exact registryInv_start directory
    | tail _ hstep ih => exact step_inv ih hstep
  exact hinv.safe

/-! ### Two runs -/

/-- A binding of ten daemons' ports on the loopback address. -/
def loopbackConfig : BindConfig where
  kiod := ⟨Localhost, 20001⟩
  nodeop := ⟨Localhost, ⟨⟨20002, 20003, none⟩, [], [], [], [], []⟩⟩
  anvil := ⟨Localhost, 20004⟩
  solana := ⟨Localhost, ⟨20005, 20007, 20008, ⟨20009, 20010⟩⟩⟩
  debuggingServer := ⟨Localhost, 20011⟩

/-- Two processes have started. -/
def startedWorld : World := ⟨[], [Process.start 100 "node", Process.start 200 "node"]⟩

/-- The first process has registered `ports`. -/
def registeredWorld (ports : List ℕ) : World :=
  ⟨[⟨registryFile 100, some ⟨"node", ports⟩⟩],
   [⟨100, "node", true, true, ports⟩, Process.start 200 "node"]⟩

theorem registry_safe_registered : RegistrySafe (registeredWorld (List.range' 20001 11)) := by
  have hclaim : step (fun _ => true) startedWorld
      (.claimResolved 0 (fun _ => "node") (drawingHost 40001) loopbackConfig) =
      some (registeredWorld (List.range' 20001 11)) := by decide +kernel
  have hlast : FaithfulStep (fun _ => true) startedWorld
      (registeredWorld (List.range' 20001 11)) :=
    ⟨.claimResolved 0 (fun _ => "node") (drawingHost 40001) loopbackConfig, trivial, hclaim⟩
  have hrun : Relation.ReflTransGen (FaithfulStep fun _ => true) ⟨[], []⟩
      (registeredWorld (List.range' 20001 11)) :=
    .tail (.tail (.tail .refl ⟨.spawn 100 "node", trivial, rfl⟩)
      ⟨.spawn 200 "node", trivial, rfl⟩) hlast
  exact registry_safe hrun

/-- A resolve of everything pinned, with kiod's port pinned to 40001, on a host that draws that
port. -/
def pinnedResolve (i base : ℕ) : Event :=
  .resolve i (fun _ => "node") (drawingHost 40001) (pinnedOptions 40001 base) biosOnly
    [LinuxAutomaticPorts]

/-- Both processes have registered port 40001. -/
def sharedWorld : World :=
  ⟨[⟨registryFile 200, some ⟨"node", 40001 :: List.range' 21000 10⟩⟩,
    ⟨registryFile 100, some ⟨"node", 40001 :: List.range' 11000 10⟩⟩],
   [⟨100, "node", true, true, 40001 :: List.range' 11000 10⟩,
    ⟨200, "node", true, true, 40001 :: List.range' 21000 10⟩]⟩

/-- The second resolve is given the first one's port, which the kernel drew although it was
excluded. -/
theorem registry_shares_port :
    ¬ ∀ (events : List Event) (world : World),
      events.foldlM (step fun _ => true) ⟨[], []⟩ = some world → RegistrySafe world := by
  intro hall
  have hstart : step (fun _ => true) ⟨[], []⟩ (.spawn 100 "node") =
      some ⟨[], [Process.start 100 "node"]⟩ := by decide
  have hstart' : step (fun _ => true) ⟨[], [Process.start 100 "node"]⟩ (.spawn 200 "node") =
      some startedWorld := by decide
  have hfirst : step (fun _ => true) startedWorld (pinnedResolve 0 11000) =
      some (registeredWorld (40001 :: List.range' 11000 10)) := by decide +kernel
  have hsecond : step (fun _ => true) (registeredWorld (40001 :: List.range' 11000 10))
      (pinnedResolve 1 21000) = some sharedWorld := by decide +kernel
  have hrun : [.spawn 100 "node", .spawn 200 "node", pinnedResolve 0 11000,
      pinnedResolve 1 21000].foldlM (step fun _ => true) ⟨[], []⟩ = some sharedWorld := by
    simp only [List.foldlM_cons, List.foldlM_nil, Option.bind_eq_bind, hstart, hstart', hfirst,
      hsecond, Option.bind_some, Option.pure_def]
  exact (hall _ _ hrun).disjoint 0 1 _ _ rfl rfl (by decide) rfl rfl 40001 (by decide) (by decide)

end WireTools
