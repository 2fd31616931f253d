import WireTools.BindConfig
import WireTools.Outcome

/-! # Picking ports

The pickers behind a cluster's port resolution, run against an arbitrary host.

* **Host.** `Host` answers every probe: whether `get-port` may hand out a requested port
  (its IPv4 bind and its in-process lock), which port the kernel draws when no requested
  port is acceptable, the IPv6 and UDP binds, and the random rotation of the service pool.
  Every answer may depend on the moment it is asked (`clock`).
* **get-port.** `getPort` returns the first requested port that is neither excluded nor
  refused, else the kernel's draw, which it checks against nothing.  Every call is recorded
  in the allocation's `calls`.
* **Pickers.** `pickPort` resolves one port (a caller's pin, or a preferred default and then
  the rotated service pool), `pickSolanaRpc` the validator's RPC/WebSocket pair and
  `pickPortRange` its dynamic window.

`pickPort_ends`, `pickSolanaRpc_ends` and `pickPortRange_ends` say what each picker returns
and how it fails; the callers use nothing else about them. -/

namespace WireTools

open Outcome

/-! ### Port sets -/

/-- A set of ports, by its membership test. -/
structure PortSet where
  has : ℕ → Bool

namespace PortSet

/-- No port. -/
def empty : PortSet := ⟨fun _ => false⟩
/-- The ports of a list. -/
def ofList (ports : List ℕ) : PortSet := ⟨fun p => ports.contains p⟩
/-- Add every port of a list. -/
def addAll (s : PortSet) (ports : List ℕ) : PortSet := ⟨fun p => s.has p || ports.contains p⟩
/-- Add one port. -/
def add (s : PortSet) (port : ℕ) : PortSet := s.addAll [port]
/-- The ports of either set. -/
def union (s t : PortSet) : PortSet := ⟨fun p => s.has p || t.has p⟩

@[simp] theorem empty_has (p : ℕ) : empty.has p = false := rfl

@[simp] theorem ofList_has (ports : List ℕ) (p : ℕ) :
    (ofList ports).has p = decide (p ∈ ports) := by
  simp [ofList, List.contains_eq_mem]

@[simp] theorem addAll_has (s : PortSet) (ports : List ℕ) (p : ℕ) :
    (s.addAll ports).has p = (s.has p || decide (p ∈ ports)) := by
  simp [addAll, List.contains_eq_mem]

@[simp] theorem add_has (s : PortSet) (q p : ℕ) : (s.add q).has p = (s.has p || decide (p = q)) := by
  simp [add]

@[simp] theorem union_has (s t : PortSet) (p : ℕ) : (s.union t).has p = (s.has p || t.has p) := rfl

end PortSet

/-! ### The host and its probes -/

/-- What the host answers to each probe, at each moment. -/
structure Host where
  /-- Whether get-port may hand out a requested port. -/
  bindable : ℕ → ℕ → Bool
  /-- The port the kernel draws. -/
  draw : ℕ → ℕ
  /-- Whether IPv6 permits a port. -/
  ipv6Free : ℕ → ℕ → Bool
  /-- Whether a UDP bind on a port succeeds. -/
  udpFree : ℕ → ℕ → Bool
  /-- A random number, reduced below its bound by the caller. -/
  random : ℕ → ℕ

/-- A port is free on the host under every probe. -/
def Host.Free (host : Host) (port : ℕ) : Prop :=
  ∀ now, host.bindable now port = true ∧ host.ipv6Free now port = true ∧
    host.udpFree now port = true

/-- One `get-port` request and its answer. -/
structure GetPortCall where
  port : List ℕ
  exclude : PortSet
  answer : ℕ

/-- The request named one port, excluded that very port, and was answered with it: the
kernel drew the port the caller had ruled out. -/
def GetPortCall.DrewExcluded (call : GetPortCall) : Prop :=
  ∃ p, call.port = [p] ∧ call.exclude.has p = true ∧ call.answer = p

/-- The state of one allocation: the ports claimed so far, the number of probes made and the
`get-port` calls among them. -/
structure Allocation where
  claimed : PortSet
  clock : ℕ
  calls : List GetPortCall

/-- Why an allocation failed. -/
inductive PickError where
  | pinReserved (port : ℕ) (daemon : String)
  | pinUnavailable (port : ℕ) (daemon : String)
  | noServicePort (daemon : String)
  | noUnclaimedPort (daemon : String)
  | invalidSolanaRpc (port : ℕ)
  | companionUnavailable (http websocket : ℕ)
  | noSolanaPair
  | invalidRange (range : BindConfigPortRange) (daemon : String)
  | rangeReserved (range : BindConfigPortRange) (daemon : String)
  | rangeUnavailable (range : BindConfigPortRange) (daemon : String)
  | noWindow (daemon : String)
deriving DecidableEq

/-- A computation of one allocation. -/
abbrev Picker := StateT Allocation (Except PickError)

/-! ### Constants -/

/-- agave's built-in validator port range, reserved host-wide. -/
def ReservedAgavePortBand : BindConfigPortRange := ⟨8000, 10000⟩

def DefaultKiod : ℕ := 10890
def DefaultBiosHttp : ℕ := 10788
def DefaultBiosP2p : ℕ := 10776
def DefaultAnvil : ℕ := 10545
def DefaultSolanaRpc : ℕ := 10899
def DefaultSolanaFaucet : ℕ := 10990
def DefaultSolanaGossip : ℕ := 11000
def DefaultDebuggingServer : ℕ := 10991

/-- Bounded redraws of a service candidate. -/
def UdpPickAttempts : ℕ := 16
/-- Bounded redraws of an RPC/WebSocket pair. -/
def SolanaRpcPickAttempts : ℕ := 16
/-- First fallback service port. -/
def ServicePortFirst : ℕ := ReservedAgavePortBand.last + 1
/-- First candidate port of the validator's dynamic window. -/
def DefaultSolanaDynamicPortFirst : ℕ := 12000
/-- Width of each validator dynamic-port window. -/
def SolanaDynamicPortRangeSize : ℕ := 64
/-- Safe windows probed before giving up. -/
def SolanaDynamicPortRangeSearchLimit : ℕ := 32

/-- The error's text. -/
def PickError.message : PickError → String
  | pinReserved port daemon =>
      s!"port {port} for {daemon} is inside the reserved agave validator band " ++
      s!"{ReservedAgavePortBand.first}-{ReservedAgavePortBand.last} " ++
      "(agave binds implicit sockets there regardless of flags) — pin a port outside it"
  | pinUnavailable port daemon => s!"port {port} for {daemon} is pinned but unavailable"
  | noServicePort daemon =>
      s!"no free service port outside host automatic client-port ranges for {daemon}"
  | noUnclaimedPort daemon =>
      s!"no free unclaimed port found for {daemon} within {UdpPickAttempts} attempts"
  | invalidSolanaRpc port =>
      s!"invalid Solana RPC port {port}: RPC and WebSocket ports must fit in {MinimumPort}-{MaximumPort}"
  | companionUnavailable http websocket =>
      s!"Solana RPC port {http} is pinned but its WebSocket companion {websocket} is unavailable or reserved"
  | noSolanaPair =>
      s!"no free Solana RPC/WebSocket port pair found within {SolanaRpcPickAttempts} attempts"
  | invalidRange range daemon => s!"invalid port range {range.first}-{range.last} for {daemon}"
  | rangeReserved range daemon =>
      s!"port range {range.first}-{range.last} for {daemon} overlaps the reserved agave validator band " ++
      s!"{ReservedAgavePortBand.first}-{ReservedAgavePortBand.last} " ++
      "(agave binds implicit sockets there regardless of flags) — pin a window outside it"
  | rangeUnavailable range daemon =>
      s!"port range {range.first}-{range.last} for {daemon} is pinned but unavailable"
  | noWindow daemon =>
      s!"no free {SolanaDynamicPortRangeSize}-port window for {daemon} within " ++
      s!"{SolanaDynamicPortRangeSearchLimit} windows from {DefaultSolanaDynamicPortFirst}"

/-- The allocation ran out of ports for an automatic pick; every other error is about a
caller's pin. -/
def PickError.isExhaustion : PickError → Bool
  | noServicePort _ | noUnclaimedPort _ | noSolanaPair | noWindow _ => true
  | _ => false

/-! ### Predicates on ports -/

/-- Whether a port can be automatically assigned to an unrelated client. -/
def isAutomaticPort (port : ℕ) (automaticPortRanges : List BindConfigPortRange) : Bool :=
  automaticPortRanges.any fun r => decide (r.first ≤ port) && decide (port ≤ r.last)

/-- Whether a port sits inside the reserved band. -/
def isReservedPort (port : ℕ) : Bool :=
  decide (ReservedAgavePortBand.first ≤ port) && decide (port ≤ ReservedAgavePortBand.last)

theorem isAutomaticPort_iff {port : ℕ} {ranges : List BindConfigPortRange} :
    isAutomaticPort port ranges = true ↔ ∃ r ∈ ranges, r.first ≤ port ∧ port ≤ r.last := by
  simp [isAutomaticPort]

theorem isReservedPort_iff {port : ℕ} : isReservedPort port = true ↔ 8000 ≤ port ∧ port ≤ 10000 := by
  rw [isReservedPort, Bool.and_eq_true, decide_eq_true_iff, decide_eq_true_iff]
  rfl

/-! ### Probes -/

variable (host : Host)

/-- The moment of the next probe. -/
def tick : Picker ℕ := do
  let s ← get
  set { s with clock := s.clock + 1 }
  return s.clock

/-- What `get-port` answers: the first requested port that is neither excluded nor refused,
else the kernel's draw.  A requested port 0 means no request. -/
def getPortAnswer (now : ℕ) (port : List ℕ) (exclude : PortSet) : ℕ :=
  (port.find? fun p => p != 0 && !exclude.has p && host.bindable now p).getD (host.draw now)

/-- `get-port`, with the call recorded. -/
def getPort (port : List ℕ) (exclude : PortSet) : Picker ℕ := do
  let now ← tick
  let answer := getPortAnswer host now port exclude
  modify fun s => { s with calls := s.calls ++ [⟨port, exclude, answer⟩] }
  return answer

def isIpv6PortFree (port : ℕ) : Picker Bool := do
  return host.ipv6Free (← tick) port

def isUdpPortFree (port : ℕ) : Picker Bool := do
  return host.udpFree (← tick) port

/-- A random number below `bound`. -/
def randomInt (bound : ℕ) : Picker ℕ := do
  return host.random (← tick) % bound

/-- The IPv6 probe and, for a UDP role, the UDP probe. -/
def isSecondaryFree (port : ℕ) (protocol : BindConfigPortProtocol) : Picker Bool := do
  if ← isIpv6PortFree host port then
    if protocol = .tcp then return true else isUdpPortFree host port
  else return false

/-! ### What the probes leave behind -/

/-- One more probe made. -/
def Allocation.probe (s : Allocation) : Allocation := { s with clock := s.clock + 1 }

/-- One more `get-port` call made. -/
def Allocation.record (s : Allocation) (call : GetPortCall) : Allocation :=
  { s with clock := s.clock + 1, calls := s.calls ++ [call] }

@[simp] theorem Allocation.probe_claimed (s : Allocation) : s.probe.claimed = s.claimed := rfl

@[simp] theorem Allocation.record_claimed (s : Allocation) (call : GetPortCall) :
    (s.record call).claimed = s.claimed := rfl

/-- `s'` is `s` after some probes; among the `get-port` calls one drew an excluded port exactly
when `drew`. -/
structure Probed (s s' : Allocation) (drew : Prop) : Prop where
  claimed : s'.claimed = s.claimed
  calls : ∃ made, s'.calls = s.calls ++ made ∧ ((∃ call ∈ made, call.DrewExcluded) ↔ drew)

theorem Probed.refl (s : Allocation) : Probed s s False :=
  ⟨rfl, [], by simp, by simp⟩

theorem Probed.probe (s : Allocation) : Probed s s.probe False :=
  ⟨rfl, [], by simp [Allocation.probe], by simp⟩

theorem Probed.record (s : Allocation) (call : GetPortCall) :
    Probed s (s.record call) call.DrewExcluded :=
  ⟨rfl, [call], rfl, by simp⟩

theorem Probed.trans {s s' s'' : Allocation} {d d' : Prop} (h : Probed s s' d)
    (h' : Probed s' s'' d') : Probed s s'' (d ∨ d') := by
  obtain ⟨hc, made, hmade, hd⟩ := h
  obtain ⟨hc', made', hmade', hd'⟩ := h'
  refine ⟨hc'.trans hc, made ++ made', by rw [hmade', hmade, List.append_assoc], ?_⟩
  rw [← hd, ← hd']
  simp only [List.mem_append, or_and_right, exists_or]

theorem Probed.quiet {s s' s'' : Allocation} {d : Prop} (h : Probed s s' d)
    (h' : Probed s' s'' False) : Probed s s'' d := by
  simpa using h.trans h'

theorem Probed.congr {s s' : Allocation} {d d' : Prop} (h : Probed s s' d) (e : d ↔ d') :
    Probed s s' d' := by
  rwa [← propext e]

variable {host} {s : Allocation} {E : PickError → Prop}

@[simp] theorem ends_tick {Q : ℕ → Allocation → Prop} :
    Ends tick s Q E ↔ Q s.clock s.probe := by
  simp [tick, Allocation.probe]

@[simp] theorem ends_getPort {port : List ℕ} {exclude : PortSet} {Q : ℕ → Allocation → Prop} :
    Ends (getPort host port exclude) s Q E ↔
      Q (getPortAnswer host s.clock port exclude)
        (s.record ⟨port, exclude, getPortAnswer host s.clock port exclude⟩) := by
  simp [getPort, Allocation.record, Allocation.probe]

@[simp] theorem ends_isIpv6PortFree {port : ℕ} {Q : Bool → Allocation → Prop} :
    Ends (isIpv6PortFree host port) s Q E ↔ Q (host.ipv6Free s.clock port) s.probe := by
  simp [isIpv6PortFree]

@[simp] theorem ends_isUdpPortFree {port : ℕ} {Q : Bool → Allocation → Prop} :
    Ends (isUdpPortFree host port) s Q E ↔ Q (host.udpFree s.clock port) s.probe := by
  simp [isUdpPortFree]

@[simp] theorem ends_randomInt {bound : ℕ} {Q : ℕ → Allocation → Prop} :
    Ends (randomInt host bound) s Q E ↔ Q (host.random s.clock % bound) s.probe := by
  simp [randomInt]

theorem isSecondaryFree_ends (port : ℕ) (protocol : BindConfigPortProtocol) :
    Ends (isSecondaryFree host port protocol) s
      (fun free s' => Probed s s' False ∧ (host.Free port → free = true)) E := by
  simp only [isSecondaryFree, ends_bind, ends_isIpv6PortFree, ends_ite, ends_pure,
    ends_isUdpPortFree]
  refine ⟨fun _ => ⟨fun _ => ⟨.probe s, fun _ => trivial⟩, fun _ => ?_⟩, fun h => ?_⟩
  · exact ⟨(Probed.probe s).quiet (.probe s.probe), fun hf => (hf _).2.2⟩
  · exact ⟨.probe s, fun hf => absurd (hf _).2.1 h⟩

/-! ### What get-port answers -/

/-- A pin that is free and not excluded is handed out. -/
theorem getPortAnswer_of_free {now port : ℕ} {exclude : PortSet} (h0 : port ≠ 0)
    (hf : host.Free port) (hx : exclude.has port = false) :
    getPortAnswer host now [port] exclude = port := by
  simp [getPortAnswer, h0, hx, (hf now).1]

/-- The answer is a requested port that is not excluded, or the kernel's draw. -/
theorem getPortAnswer_cases (host : Host) (now : ℕ) (port : List ℕ) (exclude : PortSet) :
    (getPortAnswer host now port exclude ∈ port ∧
        exclude.has (getPortAnswer host now port exclude) = false) ∨
      getPortAnswer host now port exclude = host.draw now := by
  unfold getPortAnswer
  cases h : port.find? fun p => p != 0 && !exclude.has p && host.bindable now p with
  | none => exact .inr rfl
  | some p =>
      have hp := List.find?_some h
      simp only [Bool.and_eq_true, Bool.not_eq_true'] at hp
      exact .inl ⟨List.mem_of_find?_eq_some h, hp.1.2⟩

/-- A call that requests no excluded port draws none. -/
theorem not_drewExcluded {call : GetPortCall}
    (h : ∀ p ∈ call.port, call.exclude.has p = false) : ¬ call.DrewExcluded := by
  rintro ⟨p, hp, hx, _⟩
  rw [h p (by simp [hp])] at hx
  exact Bool.false_ne_true hx

variable (host)

/-! ### One port -/

/-- A port an automatic pick may request. -/
def isAvailable (claimed : PortSet) (automaticPortRanges : List BindConfigPortRange)
    (port : ℕ) : Bool :=
  !claimed.has port && !isReservedPort port && !isAutomaticPort port automaticPortRanges

/-- The available ports of the service pool, without the preferred one. -/
def servicePool (preferred : Option ℕ) (claimed : PortSet)
    (automaticPortRanges : List BindConfigPortRange) : List ℕ :=
  (List.range' ServicePortFirst (MaximumPort + 1 - ServicePortFirst)).filter fun port =>
    decide (some port ≠ preferred) && isAvailable claimed automaticPortRanges port

/-- The preferred port when it is available, then the pool from a random offset. -/
def servicePortCandidates (preferred : Option ℕ) (claimed : PortSet)
    (automaticPortRanges : List BindConfigPortRange) : Picker (List ℕ) := do
  let candidates := servicePool preferred claimed automaticPortRanges
  let offset ← randomInt host candidates.length
  return (preferred.toList.filter (isAvailable claimed automaticPortRanges)) ++
    (candidates.drop offset ++ candidates.take offset)

/-- Resolve one port: the caller's pin, which must be free, else the preferred default or a
pool port outside the automatic ranges. -/
def pickPort (callerPin fallbackDefault : Option ℕ) (claimed : PortSet) (daemon : String)
    (protocol : BindConfigPortProtocol) (automaticPortRanges : List BindConfigPortRange) :
    Picker ℕ :=
  match callerPin with
  | some pin => do
      assertOk (!isReservedPort pin) (.pinReserved pin daemon)
      let resolved ← getPort host [pin] claimed
      let free ← if resolved = pin then isSecondaryFree host pin protocol else pure false
      assertOk free (.pinUnavailable pin daemon)
      return pin
  | none => do
      let picked ← (List.range UdpPickAttempts).findSomeM? fun attempt => do
        let candidates ← servicePortCandidates host
          (if attempt = 0 then fallbackDefault else none) claimed automaticPortRanges
        let candidate ← getPort host candidates claimed
        -- get-port falls back to a kernel draw even when no candidate is left.
        assertOk (!isAutomaticPort candidate automaticPortRanges) (.noServicePort daemon)
        let free ← if !claimed.has candidate && !isReservedPort candidate then
          isSecondaryFree host candidate protocol else pure false
        return if free then some candidate else none
      match picked with
      | some port => return port
      | none => throw (.noUnclaimedPort daemon)

/-! ### The RPC pair -/

/-- Whether the WebSocket companion of an RPC port can be claimed with it. -/
def isCompanionFree (callerPin : Option ℕ) (claimed : PortSet)
    (automaticPortRanges : List BindConfigPortRange) (websocket : ℕ) : Picker Bool := do
  if decide (websocket ≤ MaximumPort) &&
      (callerPin.isSome || !isAutomaticPort websocket automaticPortRanges) &&
      !isReservedPort websocket && !claimed.has websocket then
    if (← getPort host [websocket] claimed) = websocket then isIpv6PortFree host websocket
    else return false
  else return false

/-- Select both implicit RPC ports. -/
def pickSolanaRpc (callerPin fallbackDefault : Option ℕ) (claimed : PortSet)
    (automaticPortRanges : List BindConfigPortRange) : Picker ℕ := do
  match callerPin with
  | some pin =>
      assertOk (decide (MinimumPort ≤ pin) && decide (pin + SolanaWsPortOffset ≤ MaximumPort))
        (.invalidSolanaRpc pin)
  | none => pure ()
  let picked ← (List.range (if callerPin.isSome then 1 else SolanaRpcPickAttempts)).findSomeM?
    fun attempt => do
      let http ← pickPort host callerPin (if attempt = 0 then fallbackDefault else none) claimed
        "solana.http" .tcp automaticPortRanges
      let websocket := http + SolanaWsPortOffset
      let available ← isCompanionFree host callerPin claimed automaticPortRanges websocket
      assertOk (callerPin.isNone || available) (.companionUnavailable http websocket)
      return if available then some http else none
  match picked with
  | some http => return http
  | none => throw .noSolanaPair

/-! ### The dynamic window -/

/-- Whether every port of the window is free. -/
def isRangeFree (first last : ℕ) (exclusions : PortSet) : Picker Bool := do
  let ports := (BindConfigPortRange.mk first last).ports
  if ports.any exclusions.has then return false
  else ports.allM fun port => do
    if (← getPort host [port] .empty) = port then
      if ← isIpv6PortFree host port then isUdpPortFree host port else return false
    else return false

/-- The candidate windows: stepping by the window size, clear of the automatic ranges. -/
def windowStarts (automaticPortRanges : List BindConfigPortRange) : List ℕ :=
  ((List.range' DefaultSolanaDynamicPortFirst
      ((MaximumPort - SolanaDynamicPortRangeSize + 1 - DefaultSolanaDynamicPortFirst) /
        SolanaDynamicPortRangeSize + 1) SolanaDynamicPortRangeSize).filter fun start =>
    !automaticPortRanges.any fun r =>
      decide (start ≤ r.last) && decide (r.first < start + SolanaDynamicPortRangeSize)).take
    SolanaDynamicPortRangeSearchLimit

/-- Resolve a free contiguous window: the caller's pin, which must be entirely free, else the
first free candidate window. -/
def pickPortRange (callerPin : Option BindConfigPortRange) (exclusions : PortSet)
    (daemon : String) (automaticPortRanges : List BindConfigPortRange) :
    Picker BindConfigPortRange :=
  match callerPin with
  | some pin => do
      assertOk (decide (MinimumPort ≤ pin.first) && decide (pin.last ≤ MaximumPort) &&
        decide (pin.first ≤ pin.last)) (.invalidRange pin daemon)
      assertOk (decide (ReservedAgavePortBand.last < pin.first) ||
        decide (pin.last < ReservedAgavePortBand.first)) (.rangeReserved pin daemon)
      let free ← isRangeFree host pin.first pin.last exclusions
      assertOk free (.rangeUnavailable pin daemon)
      return pin
  | none => do
      let first ← (windowStarts automaticPortRanges).findSomeM? fun start => do
        let free ← isRangeFree host start (start + SolanaDynamicPortRangeSize - 1) exclusions
        return if free then some start else none
      match first with
      | some first => return ⟨first, first + SolanaDynamicPortRangeSize - 1⟩
      | none => throw (.noWindow daemon)

/-! ### What the pickers return -/

variable {host} {s : Allocation}

theorem isAvailable_iff {claimed : PortSet} {ranges : List BindConfigPortRange} {p : ℕ} :
    isAvailable claimed ranges p = true ↔
      claimed.has p = false ∧ isReservedPort p = false ∧ isAutomaticPort p ranges = false := by
  simp [isAvailable, and_assoc]

theorem mem_servicePool {preferred : Option ℕ} {claimed : PortSet}
    {ranges : List BindConfigPortRange} {p : ℕ} :
    p ∈ servicePool preferred claimed ranges ↔
      (ServicePortFirst ≤ p ∧ p ≤ MaximumPort) ∧ some p ≠ preferred ∧
        isAvailable claimed ranges p = true := by
  have h : ServicePortFirst + (MaximumPort + 1 - ServicePortFirst) = MaximumPort + 1 := rfl
  rw [servicePool, List.mem_filter, List.mem_range'_1, h, Nat.lt_succ_iff]
  simp only [Bool.and_eq_true, decide_eq_true_eq]

theorem mem_servicePool_rotation {preferred : Option ℕ} {claimed : PortSet}
    {ranges : List BindConfigPortRange} {p : ℕ} (offset : ℕ) :
    p ∈ preferred.toList.filter (isAvailable claimed ranges) ++
        ((servicePool preferred claimed ranges).drop offset ++
          (servicePool preferred claimed ranges).take offset) ↔
      isAvailable claimed ranges p = true ∧
        (preferred = some p ∨ ServicePortFirst ≤ p ∧ p ≤ MaximumPort) := by
  have hrot : ∀ l : List ℕ, p ∈ l.drop offset ++ l.take offset ↔ p ∈ l := by
    intro l
    rw [List.mem_append, or_comm, ← List.mem_append, List.take_append_drop]
  rw [List.mem_append, hrot, mem_servicePool, List.mem_filter, Option.mem_toList]
  constructor
  · rintro (⟨hp, ha⟩ | ⟨hr, _, ha⟩)
    · exact ⟨ha, .inl hp⟩
    · exact ⟨ha, .inr hr⟩
  · rintro ⟨ha, hp | hr⟩
    · exact .inl ⟨hp, ha⟩
    · by_cases hp : some p = preferred
      · exact .inl ⟨hp.symm, ha⟩
      · exact .inr ⟨hr, hp, ha⟩

/-- The ports an automatic pick with fallback `preferred` may return. -/
def Pickable (host : Host) (preferred : Option ℕ) (p : ℕ) : Prop :=
  preferred = some p ∨ (ServicePortFirst ≤ p ∧ p ≤ MaximumPort) ∨ ∃ now, host.draw now = p

/-- A pinned pick returns the pin; it made a call that drew an excluded port exactly when the
pin is excluded. -/
theorem pickPort_pin_ends (pin : ℕ) (preferred : Option ℕ) (claimed : PortSet) (daemon : String)
    (protocol : BindConfigPortProtocol) (ranges : List BindConfigPortRange) :
    Ends (pickPort host (some pin) preferred claimed daemon protocol ranges) s
      (fun p s' => p = pin ∧ isReservedPort pin = false ∧
        Probed s s' (claimed.has pin = true))
      (fun _ => isReservedPort pin = true ∨ claimed.has pin = true ∨ pin = 0 ∨
        ¬ host.Free pin) := by
  simp only [pickPort, ends_bind, ends_assertOk, ends_getPort, ends_ite, ends_pure]
  refine ⟨fun hres => ?_, fun hres => .inl (by simpa using hres)⟩
  have hres' : isReservedPort pin = false := by simpa using hres
  refine ⟨fun hans => ?_, fun hans => ⟨by simp, fun _ => ?_⟩⟩
  · refine (isSecondaryFree_ends pin protocol).mono ?_ (fun _ h => h)
    rintro free s' ⟨hp, hfree⟩
    refine ⟨fun _ => ⟨trivial, hres', ?_⟩, fun hno => ?_⟩
    · refine ((Probed.record s _).congr ?_).quiet hp
      constructor
      · rintro ⟨p, hpin, hx, _⟩
        simp only [List.cons.injEq, and_true] at hpin
        rwa [← hpin] at hx
      · exact fun hx => ⟨pin, rfl, hx, hans⟩
    · refine .inr (.inr (.inr fun hf => ?_))
      rw [hfree hf] at hno
      exact Bool.false_ne_true hno.symm
  · by_contra hc
    push Not at hc
    obtain ⟨_, hx, h0, hf⟩ := hc
    exact hans (getPortAnswer_of_free h0 hf (by simpa using hx))

/-- An automatic pick returns an available port, drawing no excluded one; it fails only by
exhaustion. -/
theorem pickPort_auto_ends (preferred : Option ℕ) (claimed : PortSet) (daemon : String)
    (protocol : BindConfigPortProtocol) (ranges : List BindConfigPortRange) :
    Ends (pickPort host none preferred claimed daemon protocol ranges) s
      (fun p s' => isAvailable claimed ranges p = true ∧ Pickable host preferred p ∧
        Probed s s' False)
      (fun e => e.isExhaustion = true) := by
  simp only [pickPort, ends_bind]
  refine ends_findSome (I := fun t => Probed s t False) ?_ ?_ _ s (.refl s)
  · intro attempt t ht
    simp only [servicePortCandidates, ends_bind, ends_randomInt, ends_pure, ends_getPort,
      ends_assertOk, ends_ite]
    set preferred' := if attempt = 0 then preferred else none with hpref
    set offset := host.random t.clock % (servicePool preferred' claimed ranges).length
    set candidates := preferred'.toList.filter (isAvailable claimed ranges) ++
      ((servicePool preferred' claimed ranges).drop offset ++
        (servicePool preferred' claimed ranges).take offset)
    set answer := getPortAnswer host t.probe.clock candidates claimed
    have hmem : ∀ p ∈ candidates, isAvailable claimed ranges p = true ∧
        (preferred' = some p ∨ ServicePortFirst ≤ p ∧ p ≤ MaximumPort) :=
      fun p hp => (mem_servicePool_rotation offset).mp hp
    have hquiet : Probed s (t.probe.record ⟨candidates, claimed, answer⟩) False := by
      refine (ht.quiet (.probe t)).quiet ((Probed.record _ _).congr (iff_false_intro ?_))
      exact not_drewExcluded fun p hp => (isAvailable_iff.mp (hmem p hp).1).1
    have hpick : Pickable host preferred answer := by
      rcases getPortAnswer_cases host t.probe.clock candidates claimed with ⟨hin, _⟩ | hdraw
      · rcases (hmem _ hin).2 with hp | hr
        · refine .inl ?_
          rw [hpref] at hp
          split_ifs at hp with h0
          exact hp
        · exact .inr (.inl hr)
      · exact .inr (.inr ⟨_, hdraw.symm⟩)
    refine ⟨fun hauto => ⟨fun hok => ?_, fun _ => by simpa using hquiet⟩, fun _ => rfl⟩
    refine (isSecondaryFree_ends answer protocol).mono ?_ (fun _ h => h)
    rintro free t' ⟨hp, _⟩
    cases free with
    | true =>
        simp only [Bool.and_eq_true, Bool.not_eq_true'] at hok hauto
        exact ⟨isAvailable_iff.mpr ⟨hok.1, hok.2, hauto⟩, hpick, hquiet.quiet hp⟩
    | false => exact hquiet.quiet hp
  · intro t _
    exact rfl

/-- The companion check passes only on an unclaimed, unreserved port of the valid range,
which lies outside the automatic ranges unless the RPC port is pinned. -/
theorem isCompanionFree_ends (callerPin : Option ℕ) (claimed : PortSet)
    (ranges : List BindConfigPortRange) (ws : ℕ) {E : PickError → Prop} :
    Ends (isCompanionFree host callerPin claimed ranges ws) s
      (fun free s' => Probed s s' False ∧
        (free = true → ws ≤ MaximumPort ∧ isReservedPort ws = false ∧ claimed.has ws = false ∧
          (callerPin = none → isAutomaticPort ws ranges = false)) ∧
        (free = false → callerPin.isSome = true → MaximumPort < ws ∨ isReservedPort ws = true ∨
          claimed.has ws = true ∨ ws = 0 ∨ ¬ host.Free ws)) E := by
  simp only [isCompanionFree, ends_ite, ends_bind, ends_getPort, ends_pure, ends_isIpv6PortFree]
  refine ⟨fun hok => ?_, fun hok => ⟨.refl s, by simp, fun _ hpin => ?_⟩⟩
  · simp only [Bool.and_eq_true, decide_eq_true_eq, Bool.not_eq_true', Bool.or_eq_true] at hok
    obtain ⟨⟨⟨hmax, hpin⟩, hres⟩, hclaim⟩ := hok
    have hquiet : Probed s (s.record ⟨[ws], claimed,
        getPortAnswer host s.clock [ws] claimed⟩) False :=
      (Probed.record s _).congr (iff_false_intro (not_drewExcluded (by simpa using hclaim)))
    refine ⟨fun _ => ⟨hquiet.quiet (.probe _), fun _ => ⟨hmax, hres, hclaim, ?_⟩, ?_⟩,
      fun hans => ⟨hquiet, by simp, fun _ _ => ?_⟩⟩
    · rintro rfl
      simpa using hpin
    · exact fun hfree _ => .inr (.inr (.inr (.inr fun hf => by simp [(hf _).2.1] at hfree)))
    · refine .inr (.inr (.inr ?_))
      by_contra hc
      push Not at hc
      exact hans (getPortAnswer_of_free hc.1 hc.2 hclaim)
  · by_contra hc
    push Not at hc
    obtain ⟨hmax, hres, hclaim, _, _⟩ := hc
    have hle : ws ≤ MaximumPort := by omega
    refine hok ?_
    simp only [Bool.not_eq_true] at hres hclaim
    simp [hle, hpin, hres, hclaim]

/-- What makes a port unusable for a pin. -/
def Unusable (host : Host) (claimed : PortSet) (p : ℕ) : Prop :=
  p < MinimumPort ∨ MaximumPort < p ∨ isReservedPort p = true ∨ claimed.has p = true ∨
    ¬ host.Free p

/-- A pinned RPC pair: the pin and its companion, both outside the reserved band and the
companion unclaimed. -/
theorem pickSolanaRpc_pin_ends (pin : ℕ) (preferred : Option ℕ) (claimed : PortSet)
    (ranges : List BindConfigPortRange) :
    Ends (pickSolanaRpc host (some pin) preferred claimed ranges) s
      (fun p s' => p = pin ∧ pin + SolanaWsPortOffset ≤ MaximumPort ∧
        isReservedPort pin = false ∧ isReservedPort (pin + SolanaWsPortOffset) = false ∧
        claimed.has (pin + SolanaWsPortOffset) = false ∧
        Probed s s' (claimed.has pin = true))
      (fun _ => Unusable host claimed pin ∨
        Unusable host claimed (pin + SolanaWsPortOffset)) := by
  simp only [pickSolanaRpc, Option.isSome_some, if_true, ends_bind, ends_assertOk]
  refine ⟨fun hvalid => ?_, fun hvalid => ?_⟩
  · simp only [Bool.and_eq_true, decide_eq_true_eq] at hvalid
    simp only [List.range_one, List.findSomeM?, ends_bind]
    refine (pickPort_pin_ends pin _ claimed "solana.http" .tcp ranges).mono ?_ ?_
    · rintro p s₁ ⟨rfl, hres, hp⟩
      refine (isCompanionFree_ends (some p) claimed ranges (p + SolanaWsPortOffset)).mono ?_
        (fun _ h => h)
      rintro free s₂ ⟨hp₂, hyes, hno⟩
      cases free with
      | true =>
          obtain ⟨hmax, hres', hclaim, _⟩ := hyes rfl
          simp only [ends_assertOk, ends_pure]
          exact ⟨fun _ => ⟨rfl, hmax, hres, hres', hclaim, hp.quiet hp₂⟩, by simp⟩
      | false =>
          simp only [ends_assertOk, ends_pure]
          refine ⟨by simp, fun _ => .inr ?_⟩
          rcases hno rfl rfl with h | h | h | h | h
          · exact .inr (.inl h)
          · exact .inr (.inr (.inl h))
          · exact .inr (.inr (.inr (.inl h)))
          · exact .inl (by rw [h]; decide)
          · exact .inr (.inr (.inr (.inr h)))
    · rintro _ (h | h | h | h)
      · exact .inl (.inr (.inr (.inl h)))
      · exact .inl (.inr (.inr (.inr (.inl h))))
      · exact .inl (.inl (by rw [h]; decide))
      · exact .inl (.inr (.inr (.inr (.inr h))))
  · simp only [Bool.and_eq_false_iff, decide_eq_false_iff_not, Nat.not_le] at hvalid
    rcases hvalid with h | h
    · exact .inl (.inl h)
    · exact .inr (.inr (.inl h))

/-- An automatic RPC pair is two available ports. -/
theorem pickSolanaRpc_auto_ends (preferred : Option ℕ) (claimed : PortSet)
    (ranges : List BindConfigPortRange) :
    Ends (pickSolanaRpc host none preferred claimed ranges) s
      (fun p s' => isAvailable claimed ranges p = true ∧
        isAvailable claimed ranges (p + SolanaWsPortOffset) = true ∧
        Pickable host preferred p ∧ p + SolanaWsPortOffset ≤ MaximumPort ∧ Probed s s' False)
      (fun e => e.isExhaustion = true) := by
  simp only [pickSolanaRpc, ends_bind]
  refine ends_findSome (I := fun t => Probed s t False) ?_ ?_ _ s (.refl s)
  · intro attempt t ht
    simp only [ends_bind]
    refine (pickPort_auto_ends _ claimed "solana.http" .tcp ranges).mono ?_ (fun _ h => h)
    rintro p t₁ ⟨havail, hpick, hp⟩
    have hpick' : Pickable host preferred p := by
      rcases hpick with h | h
      · split_ifs at h
        exact .inl h
      · exact .inr h
    refine (isCompanionFree_ends none claimed ranges (p + SolanaWsPortOffset)).mono ?_
      (fun _ h => h)
    rintro free t₂ ⟨hp₂, hyes, _⟩
    cases free with
    | true =>
        obtain ⟨hmax, hres, hclaim, hauto⟩ := hyes rfl
        simp only [ends_assertOk, ends_pure]
        refine ⟨fun _ => ?_, by simp⟩
        exact ⟨havail, isAvailable_iff.mpr ⟨hclaim, hres, hauto rfl⟩, hpick', hmax,
          (ht.quiet hp).quiet hp₂⟩
    | false =>
        simp only [ends_assertOk, ends_pure]
        exact ⟨fun _ => (ht.quiet hp).quiet hp₂, by simp⟩
  · intro t _
    exact rfl

/-- The window check passes only on a window without an excluded port. -/
theorem isRangeFree_ends (first last : ℕ) (exclusions : PortSet) {E : PickError → Prop} :
    Ends (isRangeFree host first last exclusions) s
      (fun free s' => Probed s s' False ∧
        (free = true → ∀ p, first ≤ p → p ≤ last → exclusions.has p = false) ∧
        (free = false → ∃ p, first ≤ p ∧ p ≤ last ∧
          (exclusions.has p = true ∨ p = 0 ∨ ¬ host.Free p))) E := by
  simp only [isRangeFree, ends_ite, ends_pure]
  refine ⟨fun hany => ⟨.refl s, by simp, fun _ => ?_⟩, fun hany => ?_⟩
  · obtain ⟨p, hp, hx⟩ := List.any_eq_true.mp hany
    have hp' := BindConfigPortRange.mem_ports.mp hp
    exact ⟨p, hp'.1, hp'.2, .inl hx⟩
  · have hclear : ∀ p, first ≤ p → p ≤ last → exclusions.has p = false := by
      intro p h₁ h₂
      by_contra hx
      exact hany (List.any_eq_true.mpr
        ⟨p, BindConfigPortRange.mem_ports.mpr ⟨h₁, h₂⟩, by simpa using hx⟩)
    have hdrew : ∀ (t : Allocation) (p answer : ℕ),
        Probed t (t.record ⟨[p], .empty, answer⟩) False := fun t p answer =>
      (Probed.record t _).congr (iff_false_intro (not_drewExcluded (by simp)))
    refine ends_allM (I := fun l t => Probed s t False ∧ ∀ p ∈ l, first ≤ p ∧ p ≤ last)
      ?_ ?_ _ s ⟨.refl s, fun p hp => BindConfigPortRange.mem_ports.mp hp⟩
    · rintro p l t ⟨ht, hl⟩
      have hp := hl p (by simp)
      simp only [ends_bind, ends_getPort, ends_ite, ends_isIpv6PortFree, ends_isUdpPortFree,
        ends_pure]
      refine ⟨fun _ => ⟨fun _ => ?_, fun hno => ⟨(ht.quiet (hdrew _ _ _)).quiet (.probe _),
        by simp, fun _ => ⟨p, hp.1, hp.2, .inr (.inr fun hf => hno (hf _).2.1)⟩⟩⟩,
        fun hno => ⟨ht.quiet (hdrew _ _ _), by simp, fun _ => ⟨p, hp.1, hp.2, .inr ?_⟩⟩⟩
      · have ht' := ((ht.quiet (hdrew t p (getPortAnswer host t.clock [p] .empty))).quiet
          (.probe _)).quiet (.probe _)
        cases hu : host.udpFree _ p with
        | true => exact ⟨ht', fun q hq => hl q (by simp [hq])⟩
        | false =>
            refine ⟨ht', by simp, fun _ => ⟨p, hp.1, hp.2, .inr (.inr fun hf => ?_)⟩⟩
            rw [(hf _).2.2] at hu
            exact Bool.false_ne_true hu.symm
      · by_contra hc
        push Not at hc
        exact hno (getPortAnswer_of_free hc.1 hc.2 rfl)
    · rintro t ⟨ht, _⟩
      exact ⟨ht, fun _ => hclear, by simp⟩

theorem mem_windowStarts {ranges : List BindConfigPortRange} {start : ℕ}
    (h : start ∈ windowStarts ranges) :
    DefaultSolanaDynamicPortFirst ≤ start ∧
      start + SolanaDynamicPortRangeSize - 1 ≤ MaximumPort ∧
      ∀ p, start ≤ p → p ≤ start + SolanaDynamicPortRangeSize - 1 →
        isReservedPort p = false ∧ isAutomaticPort p ranges = false := by
  obtain ⟨hmem, hclear⟩ := List.mem_filter.mp (List.mem_of_mem_take h)
  obtain ⟨i, hi, rfl⟩ := List.mem_range'.mp hmem
  set start := DefaultSolanaDynamicPortFirst + SolanaDynamicPortRangeSize * i with hstart
  have hwindow : ∀ r ∈ ranges, start ≤ r.last → start + SolanaDynamicPortRangeSize ≤ r.first := by
    simp only [Bool.not_eq_true', List.any_eq_false, Bool.and_eq_true, decide_eq_true_eq,
      not_and, Nat.not_lt] at hclear
    exact hclear
  have hsize : SolanaDynamicPortRangeSize = 64 := rfl
  have hfirst : DefaultSolanaDynamicPortFirst = 12000 := rfl
  have hmax : MaximumPort = 65535 := rfl
  rw [hsize, hfirst] at hstart
  rw [hsize] at hwindow
  rw [hsize, hfirst, hmax] at hi
  rw [hsize, hfirst, hmax]
  refine ⟨by omega, by omega, fun p h₁ h₂ => ⟨?_, ?_⟩⟩
  · rw [← Bool.not_eq_true, isReservedPort_iff]
    omega
  · rw [← Bool.not_eq_true, isAutomaticPort_iff]
    rintro ⟨r, hr, hr₁, hr₂⟩
    have := hwindow r hr (by omega)
    omega

/-- A pinned window is returned whole: valid, outside the reserved band and unclaimed. -/
theorem pickPortRange_pin_ends (pin : BindConfigPortRange) (exclusions : PortSet)
    (daemon : String) (ranges : List BindConfigPortRange) :
    Ends (pickPortRange host (some pin) exclusions daemon ranges) s
      (fun r s' => r = pin ∧ pin.first ≤ pin.last ∧
        (∀ p ∈ pin.ports, isReservedPort p = false ∧ exclusions.has p = false) ∧
        Probed s s' False)
      (fun _ => pin.last < pin.first ∨ ∃ p ∈ pin.ports, Unusable host exclusions p) := by
  simp only [pickPortRange, ends_bind, ends_assertOk, ends_pure]
  refine ⟨fun hvalid => ⟨fun hband => ?_, fun hband => ?_⟩, fun hvalid => ?_⟩
  · simp only [Bool.and_eq_true, Bool.or_eq_true, decide_eq_true_eq] at hvalid hband
    have hband' : 10000 < pin.first ∨ pin.last < 8000 := hband
    refine (isRangeFree_ends pin.first pin.last exclusions).mono ?_ (fun _ h => h)
    rintro free s' ⟨hp, hyes, hno⟩
    refine ⟨fun hfree => ⟨trivial, hvalid.2, fun p hp => ?_, hp⟩, fun hfree => .inr ?_⟩
    · have hp' := BindConfigPortRange.mem_ports.mp hp
      refine ⟨?_, hyes hfree p hp'.1 hp'.2⟩
      rw [← Bool.not_eq_true, isReservedPort_iff]
      omega
    · obtain ⟨p, h₁, h₂, hx⟩ := hno hfree
      refine ⟨p, BindConfigPortRange.mem_ports.mpr ⟨h₁, h₂⟩, ?_⟩
      rcases hx with hx | hx | hx
      · exact .inr (.inr (.inr (.inl hx)))
      · exact .inl (by rw [hx]; decide)
      · exact .inr (.inr (.inr (.inr hx)))
  · simp only [Bool.and_eq_true, decide_eq_true_eq] at hvalid
    simp only [Bool.or_eq_false_iff, decide_eq_false_iff_not, Nat.not_lt] at hband
    have hb : pin.first ≤ 10000 ∧ 8000 ≤ pin.last := hband
    refine .inr ⟨max 8000 pin.first, BindConfigPortRange.mem_ports.mpr (by omega),
      .inr (.inr (.inl ?_))⟩
    rw [isReservedPort_iff]
    omega
  · by_cases hle : pin.last < pin.first
    · exact .inl hle
    · simp only [Bool.and_eq_false_iff, decide_eq_false_iff_not, Nat.not_le] at hvalid
      rcases hvalid with (h | h) | h
      · exact .inr ⟨pin.first, BindConfigPortRange.mem_ports.mpr (by omega), .inl h⟩
      · exact .inr ⟨pin.last, BindConfigPortRange.mem_ports.mpr (by omega), .inr (.inl h)⟩
      · exact absurd h hle

/-- An automatic window is one of the candidate windows, with no excluded port. -/
theorem pickPortRange_auto_ends (exclusions : PortSet) (daemon : String)
    (ranges : List BindConfigPortRange) :
    Ends (pickPortRange host none exclusions daemon ranges) s
      (fun r s' => r.first ∈ windowStarts ranges ∧
        r.last = r.first + SolanaDynamicPortRangeSize - 1 ∧
        (∀ p ∈ r.ports, isAvailable exclusions ranges p = true) ∧ Probed s s' False)
      (fun e => e.isExhaustion = true) := by
  simp only [pickPortRange, ends_bind]
  have hall : ∀ (l : List ℕ) (t : Allocation), (∀ start ∈ l, start ∈ windowStarts ranges) →
      Probed s t False → Ends (l.findSomeM? fun start => do
        let free ← isRangeFree host start (start + SolanaDynamicPortRangeSize - 1) exclusions
        return if free then some start else none) t
        (fun first s' => match first with
          | some first => first ∈ windowStarts ranges ∧
              (∀ p, first ≤ p → p ≤ first + SolanaDynamicPortRangeSize - 1 →
                exclusions.has p = false) ∧ Probed s s' False
          | none => True)
        (fun e => e.isExhaustion = true) := by
    intro l
    induction l with
    | nil => exact fun t _ _ => trivial
    | cons start l ih =>
        intro t hl ht
        rw [List.findSomeM?]
        simp only [ends_bind]
        refine (isRangeFree_ends start _ exclusions).mono ?_ (fun _ h => h)
        rintro free t' ⟨hp, hyes, _⟩
        cases free with
        | true => exact ⟨hl start (by simp), hyes rfl, ht.quiet hp⟩
        | false => exact ih t' (fun q hq => hl q (by simp [hq])) (ht.quiet hp)
  refine (hall _ s (fun _ h => h) (.refl s)).mono ?_ (fun _ h => h)
  intro first s' h
  cases first with
  | none => rfl
  | some first =>
      obtain ⟨hstart, hclear, hp⟩ := h
      refine ⟨hstart, rfl, fun p hmem => ?_, hp⟩
      have hmem' := BindConfigPortRange.mem_ports.mp hmem
      have hsafe := (mem_windowStarts hstart).2.2 p hmem'.1 hmem'.2
      exact isAvailable_iff.mpr ⟨hclear p hmem'.1 hmem'.2, hsafe.1, hsafe.2⟩

end WireTools
