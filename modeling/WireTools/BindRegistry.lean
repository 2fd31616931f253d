import WireTools.ResolveBinding

/-! # The cross-process port registry

One process's view of the registry directory: `<pid>.bind-config.json` files with the ports that a
process holds.

* `registrationPid` reads the pid off a file name; `registrationPid_registryFile` is the round
  trip with `registryFile`.
* `readRegistryPortExclusions` reads the directory: stale files are reaped, the ports of the others
  excluded, and an invalid file of a live pid fails the read.  `readEntries_keep` says that a file
  that is not stale stays and that its ports are excluded.
* `registerResolved` adds the locally bound ports of a binding to the process's own file;
  `claimResolved` checks them first. -/

namespace WireTools

open Outcome

/-! ### Files and their names -/

/-- Registry file suffix: `<pid>.bind-config.json`. -/
def RegistryFileSuffix : String := ".bind-config.json"
/-- Suffix of the temp file a registration is written to before it is renamed into place. -/
def RegistryTemporaryFileSuffix : String := ".tmp"
/-- Largest pid a registration file name may carry. -/
def MaximumPid : ℕ := 2147483647

/-- The content of a registration file. -/
structure BindRegistration where
  executable : String
  ports : List ℕ
deriving DecidableEq

/-- A file of the registry directory; `none` is a content that cannot be read or is not valid. -/
structure RegistryEntry where
  fileName : String
  content : Option BindRegistration
deriving DecidableEq

/-- A positive decimal pid, no sign or leading zero. -/
def isPidStem : List Char → Bool
  | [] => false
  | c :: cs => c.isDigit && c != '0' && cs.all Char.isDigit

/-- The owner pid that a file name carries before `suffix`. -/
def registrationPid (fileName suffix : String) : Option ℕ :=
  let stem := fileName.toList.take (fileName.toList.length - suffix.toList.length)
  let pid := Nat.ofDigitChars 10 stem 0
  if isPidStem stem && decide (pid ≤ MaximumPid) then some pid else none

/-- A process's registry file. -/
def registryFile (pid : ℕ) : String := toString pid ++ RegistryFileSuffix

theorem isPidStem_toDigits : ∀ {pid : ℕ}, 0 < pid → isPidStem (Nat.toDigits 10 pid) = true := by
  intro pid
  induction pid using Nat.strongRecOn with
  | _ pid ih =>
      intro hpos
      by_cases hlt : pid < 10
      · rw [Nat.toDigits_of_lt_base hlt]
        have hdigit : ∀ d < 10, 0 < d → isPidStem [Nat.digitChar d] = true := by decide
        exact hdigit pid hlt hpos
      · have hstem := ih (pid / 10) (by omega) (by omega)
        rw [Nat.toDigits_of_base_le (by omega) (by omega)]
        cases hd : Nat.toDigits 10 (pid / 10) with
        | nil => rw [hd] at hstem; exact absurd hstem Bool.false_ne_true
        | cons c cs =>
            rw [hd] at hstem
            have hlast : (Nat.digitChar (pid % 10)).isDigit = true := by
              have hdigit : ∀ d < 10, (Nat.digitChar d).isDigit = true := by decide
              exact hdigit _ (Nat.mod_lt _ (by omega))
            simp only [isPidStem, Bool.and_eq_true, List.cons_append, List.all_append] at hstem ⊢
            simp only [hstem, List.all_cons, List.all_nil, hlast, Bool.and_true, and_self]

/-- A process's own file name carries its pid. -/
theorem registrationPid_registryFile {pid : ℕ} (hpos : 0 < pid) (hmax : pid ≤ MaximumPid) :
    registrationPid (registryFile pid) RegistryFileSuffix = some pid := by
  have hname : (registryFile pid).toList = Nat.toDigits 10 pid ++ RegistryFileSuffix.toList := by
    rw [registryFile, String.toList_append]
    exact congrArg (· ++ _) Nat.toList_repr
  simp only [registrationPid, hname, List.length_append, Nat.add_sub_cancel, List.take_left']
  rw [isPidStem_toDigits hpos, Nat.ofDigitChars_ten_toDigits]
  simp [hmax]

theorem registryFile_injective {pid pid' : ℕ} (hpos : 0 < pid) (hmax : pid ≤ MaximumPid)
    (hpos' : 0 < pid') (hmax' : pid' ≤ MaximumPid) (h : registryFile pid = registryFile pid') :
    pid = pid' := by
  have hpid := registrationPid_registryFile hpos hmax
  rw [h, registrationPid_registryFile hpos' hmax'] at hpid
  exact (Option.some.inj hpid).symm

/-- Whether a file name ends in `suffix`. -/
def hasSuffix (fileName suffix : String) : Bool := suffix.toList.isSuffixOf fileName.toList

theorem hasSuffix_registryFile (pid : ℕ) : hasSuffix (registryFile pid) RegistryFileSuffix = true := by
  rw [hasSuffix, registryFile, String.toList_append, List.isSuffixOf_iff_suffix]
  exact List.suffix_append _ _

/-- Suffix of a registration's temp file. -/
def temporarySuffix : String := RegistryFileSuffix ++ RegistryTemporaryFileSuffix

theorem not_temporary_registryFile (pid : ℕ) :
    hasSuffix (registryFile pid) temporarySuffix = false := by
  rw [← Bool.not_eq_true, hasSuffix, List.isSuffixOf_iff_suffix, registryFile,
    String.toList_append]
  rintro ⟨before, h⟩
  have hlast := congrArg List.getLast? h
  have htmp : temporarySuffix.toList = ".bind-config.json.tm".toList ++ ['p'] := by decide
  have hjson : RegistryFileSuffix.toList = ".bind-config.jso".toList ++ ['n'] := by decide
  rw [htmp, hjson, ← List.append_assoc, ← List.append_assoc, List.getLast?_concat,
    List.getLast?_concat] at hlast
  exact absurd hlast (by decide)

/-! ### Reading the directory -/

/-- What a process observes of the pids on its host. -/
structure PidObservation where
  isPidAlive : ℕ → Bool
  processCommandBasename : ℕ → String

/-- Why a process does not get its ports. -/
inductive BindError where
  | unreadable (fileName : String) (pid : ℕ)
  | invalidRegistration
  | pick (e : PickError)

/-- What a reader does with a file. -/
inductive Verdict where
  | keep (ports : List ℕ)
  | reap
  | fail (pid : ℕ)

variable (observed : PidObservation) (self : ℕ) (ownRegistrationWritten : Bool)

/-- The reader's verdict on a registration file. -/
def verdict (entry : RegistryEntry) : Verdict :=
  if hasSuffix entry.fileName RegistryFileSuffix then
    match registrationPid entry.fileName RegistryFileSuffix with
    | none => .reap
    | some pid =>
        if !observed.isPidAlive pid then .reap
        -- before its first write, a file under a process's own pid is a dead predecessor's
        else if pid = self ∧ !ownRegistrationWritten then .keep []
        else match entry.content with
          | none => .fail pid
          | some registration =>
              let executable := observed.processCommandBasename pid
              if pid ≠ self ∧ executable ≠ "" ∧ registration.executable ≠ "" ∧
                  executable ≠ registration.executable then .reap
              else .keep registration.ports
  else .keep []

/-- Whether a file is the leftover temp file of a dead writer. -/
def isStaleTemporary (entry : RegistryEntry) : Bool :=
  hasSuffix entry.fileName temporarySuffix &&
    match registrationPid entry.fileName temporarySuffix with
    | none => true
    | some pid => !observed.isPidAlive pid

/-- Read the registration files in order; the ports of the files kept, or the first failure. -/
def readEntries : List RegistryEntry → List RegistryEntry × Except BindError (List ℕ)
  | [] => ([], .ok [])
  | entry :: rest =>
      match verdict observed self ownRegistrationWritten entry with
      | .reap => readEntries rest
      | .keep ports =>
          let r := readEntries rest
          (entry :: r.1, r.2.map fun others => ports ++ others)
      | .fail pid => (entry :: rest, .error (.unreadable entry.fileName pid))

/-- Read the registry: what is left of the directory, and the reserved band with every live
registration's ports. -/
def readRegistryPortExclusions (directory : List RegistryEntry) :
    List RegistryEntry × Except BindError PortSet :=
  let r := readEntries observed self ownRegistrationWritten
    (directory.filter fun entry => !isStaleTemporary observed entry)
  (r.1, r.2.map fun ports => ⟨fun p => isReservedPort p || ports.contains p⟩)

/-- The content of the file with a given name. -/
def contentOf (directory : List RegistryEntry) (fileName : String) :
    Option (Option BindRegistration) :=
  (directory.find? fun entry => entry.fileName == fileName).map (·.content)

/-- Write a file, over one of the same name. -/
def writeFile (directory : List RegistryEntry) (entry : RegistryEntry) : List RegistryEntry :=
  entry :: directory.filter fun other => other.fileName != entry.fileName

/-- Delete a file. -/
def removeFile (directory : List RegistryEntry) (fileName : String) : List RegistryEntry :=
  directory.filter fun other => other.fileName != fileName

/-! ### Registering a binding -/

/-- The ports a process has registered: none until its first write. -/
def readOwnRegisteredPorts (directory : List RegistryEntry) : List ℕ :=
  if ownRegistrationWritten then
    match contentOf directory (registryFile self) with
    | some (some registration) => registration.ports
    | _ => []
  else []

/-- A registration can be written: every port valid, each once. -/
def BindRegistration.isValid (registration : BindRegistration) : Bool :=
  registration.ports.all (fun p => decide (MinimumPort ≤ p) && decide (p ≤ MaximumPort)) &&
    decide registration.ports.Nodup

variable (isLocalAddress : String → Bool)

/-- Add a binding's locally bound ports to the process's registration. -/
def registerResolved (directory : List RegistryEntry) (config : BindConfig) :
    Except BindError (List RegistryEntry) :=
  let ports := uniq (readOwnRegisteredPorts self ownRegistrationWritten directory ++
    locallyBoundPorts isLocalAddress config)
  let registration := ⟨observed.processCommandBasename self, ports⟩
  if registration.isValid then .ok (writeFile directory ⟨registryFile self, some registration⟩)
  else .error .invalidRegistration

/-- Whether a port can be bound now. -/
def isPortBindable (host : Host) (port : ℕ) : Picker Bool := do
  if (← getPort host [port] .empty) = port then isIpv6PortFree host port else return false

/-- Whether every port of a list can be bound, each probed once. -/
def allBindable (host : Host) (ports : List ℕ) : Bool :=
  match (ports.mapM (isPortBindable host)).run ⟨.empty, 0, []⟩ with
  | .ok (answers, _) => answers.all id
  | .error _ => false

/-- Re-claim a binding: the directory the read leaves, and the directory with the registration,
or `none` when a port is reserved, held elsewhere or not bindable. -/
def claimResolved (host : Host) (directory : List RegistryEntry) (config : BindConfig) :
    List RegistryEntry × Except BindError (Option (List RegistryEntry)) :=
  let ownPorts := readOwnRegisteredPorts self ownRegistrationWritten directory
  let r := readRegistryPortExclusions observed self ownRegistrationWritten directory
  (r.1, do
    let exclusions ← r.2
    let ports := locallyBoundPorts isLocalAddress config
    let reserved := ports.filter isReservedPort
    let heldElsewhere := ports.filter fun port =>
      !isReservedPort port && exclusions.has port && !ownPorts.contains port
    if !reserved.isEmpty then return none
    else if !heldElsewhere.isEmpty then return none
    else if !allBindable host ports then return none
    else
      let registered ← registerResolved observed self ownRegistrationWritten isLocalAddress r.1
        config
      return some registered)

/-! ### What a read keeps -/

variable {observed self ownRegistrationWritten isLocalAddress}

theorem contentOf_cons (entry : RegistryEntry) (directory : List RegistryEntry)
    (fileName : String) :
    contentOf (entry :: directory) fileName =
      if entry.fileName = fileName then some entry.content else contentOf directory fileName := by
  unfold contentOf
  by_cases h : entry.fileName = fileName <;> simp [h]

theorem contentOf_writeFile (directory : List RegistryEntry) (entry : RegistryEntry)
    (fileName : String) :
    contentOf (writeFile directory entry) fileName =
      if entry.fileName = fileName then some entry.content else contentOf directory fileName := by
  rw [writeFile, contentOf_cons]
  by_cases h : entry.fileName = fileName
  · simp [h]
  · simp only [h, if_false]
    unfold contentOf
    rw [List.find?_filter]
    congr 2
    funext other
    by_cases ho : other.fileName = fileName
    · simp [ho, Ne.symm h]
    · simp [ho]

theorem contentOf_removeFile {directory : List RegistryEntry} {removed fileName : String}
    (h : removed ≠ fileName) :
    contentOf (removeFile directory removed) fileName = contentOf directory fileName := by
  unfold contentOf removeFile
  rw [List.find?_filter]
  congr 2
  funext other
  by_cases ho : other.fileName = fileName
  · simp [ho, Ne.symm h]
  · simp [ho]

/-- A file that is kept stays, and a read that succeeds returns its ports. -/
theorem readEntries_keep {fileName : String} {content : Option BindRegistration} {ports : List ℕ}
    (hkeep : verdict observed self ownRegistrationWritten ⟨fileName, content⟩ = .keep ports) :
    ∀ {directory : List RegistryEntry}, contentOf directory fileName = some content →
      contentOf (readEntries observed self ownRegistrationWritten directory).1 fileName =
          some content ∧
        ∀ all, (readEntries observed self ownRegistrationWritten directory).2 = .ok all →
          ∀ p ∈ ports, p ∈ all
  | [], h => by simp [contentOf] at h
  | entry :: rest, h => by
      rw [contentOf_cons] at h
      by_cases hname : entry.fileName = fileName
      · simp only [hname, if_true, Option.some.injEq] at h
        obtain rfl : entry = ⟨fileName, content⟩ := by rw [← hname, ← h]
        simp only [readEntries, hkeep, contentOf_cons, if_true, true_and]
        intro all hall p hp
        cases hrest : (readEntries observed self ownRegistrationWritten rest).2 with
        | error e => rw [hrest] at hall; exact absurd hall (by simp [Except.map])
        | ok others =>
            rw [hrest] at hall
            rw [← Except.ok.inj hall]
            exact List.mem_append_left _ hp
      · simp only [hname, if_false] at h
        obtain ⟨ih₁, ih₂⟩ := readEntries_keep hkeep h
        simp only [readEntries]
        cases hv : verdict observed self ownRegistrationWritten entry with
        | reap => exact ⟨ih₁, ih₂⟩
        | keep others =>
            simp only [contentOf_cons, hname, if_false]
            refine ⟨ih₁, fun all hall p hp => ?_⟩
            cases hrest : (readEntries observed self ownRegistrationWritten rest).2 with
            | error e => rw [hrest] at hall; exact absurd hall (by simp [Except.map])
            | ok all' =>
                rw [hrest] at hall
                rw [← Except.ok.inj hall]
                exact List.mem_append_right _ (ih₂ all' hrest p hp)
        | fail pid =>
            simp only [contentOf_cons, hname, if_false]
            exact ⟨h, fun all hall => absurd hall (by simp)⟩

/-- A registration file of a live pid is kept when its executable is not seen to differ. -/
theorem verdict_keep {pid : ℕ} {registration : BindRegistration} (hpos : 0 < pid)
    (hmax : pid ≤ MaximumPid) (halive : observed.isPidAlive pid = true)
    (hwritten : pid = self → ownRegistrationWritten = true)
    (hexe : observed.processCommandBasename pid = "" ∨ registration.executable = "" ∨
      observed.processCommandBasename pid = registration.executable) :
    verdict observed self ownRegistrationWritten ⟨registryFile pid, some registration⟩ =
      .keep registration.ports := by
  simp only [verdict, hasSuffix_registryFile, if_true, registrationPid_registryFile hpos hmax,
    halive, Bool.not_true, Bool.false_eq_true, if_false]
  rw [if_neg (by rintro ⟨rfl, hw⟩; simp [hwritten rfl] at hw), if_neg]
  rintro ⟨_, h₁, h₂, h₃⟩
  rcases hexe with h | h | h
  · exact h₁ h
  · exact h₂ h
  · exact h₃ h

/-- Such a file stays through a read of the registry, and its ports are excluded. -/
theorem readRegistry_keep {pid : ℕ} {registration : BindRegistration}
    {directory : List RegistryEntry}
    (hkeep : verdict observed self ownRegistrationWritten ⟨registryFile pid, some registration⟩ =
      .keep registration.ports)
    (h : contentOf directory (registryFile pid) = some (some registration)) :
    contentOf (readRegistryPortExclusions observed self ownRegistrationWritten directory).1
        (registryFile pid) = some (some registration) ∧
      ∀ exclusions, (readRegistryPortExclusions observed self ownRegistrationWritten
        directory).2 = .ok exclusions → ∀ p ∈ registration.ports, exclusions.has p = true := by
  have hfilter : contentOf (directory.filter fun entry => !isStaleTemporary observed entry)
      (registryFile pid) = some (some registration) := by
    rw [← h]
    unfold contentOf
    rw [List.find?_filter]
    congr 2
    funext entry
    by_cases hname : entry.fileName = registryFile pid
    · simp [hname, isStaleTemporary, not_temporary_registryFile]
    · simp [hname]
  obtain ⟨hcontent, hports⟩ := readEntries_keep hkeep hfilter
  refine ⟨hcontent, fun exclusions hok p hp => ?_⟩
  simp only [readRegistryPortExclusions] at hok
  cases hread : (readEntries observed self ownRegistrationWritten
      (directory.filter fun entry => !isStaleTemporary observed entry)).2 with
  | error e => rw [hread] at hok; exact absurd hok (by simp [Except.map])
  | ok all =>
      rw [hread] at hok
      rw [← Except.ok.inj hok]
      simp [hports all hread p hp]

/-- The reserved band is always excluded. -/
theorem readRegistry_reserved {directory : List RegistryEntry} {exclusions : PortSet}
    (h : (readRegistryPortExclusions observed self ownRegistrationWritten directory).2 =
      .ok exclusions) {p : ℕ} (hp : isReservedPort p = true) : exclusions.has p = true := by
  simp only [readRegistryPortExclusions] at h
  cases hread : (readEntries observed self ownRegistrationWritten
      (directory.filter fun entry => !isStaleTemporary observed entry)).2 with
  | error e => rw [hread] at h; exact absurd h (by simp [Except.map])
  | ok all =>
      rw [hread] at h
      rw [← Except.ok.inj h]
      simp [hp]

end WireTools
