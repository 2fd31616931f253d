import WireTools.BindConfig
import WireTools.JsonPrint

/-! # One port, one host

The check that no host of an external binding is given the same port twice.

* `portBindings`: every listener of a binding, in the order of the source.  `allPortBindings` writes
  each as a text `host:port`, `listeners` keeps the pair; `range` is lodash's;
* `listeners_ports`: these are the ports of the walker `addressedPorts`, each with the host that
  binds it;
* `isLocalAddress`, for what Node knows of addresses and of the interfaces of this host;
* the check compares texts (`runVerify_ok_iff`).  It finds every port that is taken twice exactly
  where spellings of one host that differ do not matter (`duplicate_ports_iff`). -/

namespace WireTools

/-! ### The two enumerations -/

section walkers
variable (range : ℕ → ℕ → List ℕ)

/-- The port walker, for any `range`. -/
def addressedPortsBy (config : BindConfig) : List AddressedPorts :=
  let np := config.nodeop.ports
  [⟨config.kiod.address, [config.kiod.port]⟩,
   ⟨config.nodeop.address,
     [np.bios.http, np.bios.p2p] ++ flatPorts np.producers ++ flatPorts np.batch ++
       flatPorts np.underwriters ++ flatPorts np.api ++ flatPorts np.adHoc⟩,
   ⟨config.anvil.address, [config.anvil.port]⟩,
   ⟨config.solana.address,
     [config.solana.ports.http, config.solana.ports.http + SolanaWsPortOffset,
      config.solana.ports.faucet, config.solana.ports.gossip] ++
       range config.solana.ports.dynamicRange.first (config.solana.ports.dynamicRange.last + 1)⟩,
   ⟨config.debuggingServer.address, [config.debuggingServer.port]⟩]

theorem addressedPorts_eq (config : BindConfig) :
    addressedPorts config = addressedPortsBy (fun first stop => List.range' first (stop - first))
      config :=
  rfl

variable {α : Type} (at_ : String → ℕ → α)

/-- The listeners of a node, on the host that it advertises. -/
def nodeAt (config : BindConfig) (node : BindConfigNodeopPorts) : List α :=
  [node.http, node.p2p].map (at_ (node.advertiseAddress.getD config.nodeop.address))

def portBindings (config : BindConfig) : List α :=
  let np := config.nodeop.ports
  let flat := fun nodes : List BindConfigNodeopPorts => nodes.flatMap (nodeAt at_ config)
  [at_ config.kiod.address config.kiod.port] ++ nodeAt at_ config np.bios ++ flat np.producers ++
    flat np.batch ++ flat np.underwriters ++ flat np.api ++ flat np.adHoc ++
    [at_ config.anvil.address config.anvil.port] ++
    ([config.solana.ports.http, config.solana.ports.http + SolanaWsPortOffset,
      config.solana.ports.faucet, config.solana.ports.gossip] ++
       range config.solana.ports.dynamicRange.first
        (config.solana.ports.dynamicRange.last + 1)).map (at_ config.solana.address) ++
    [at_ config.debuggingServer.address config.debuggingServer.port]

def hostPort (host : String) (port : ℕ) : String :=
  host ++ ":" ++ toString port

def allPortBindings (config : BindConfig) : List String :=
  portBindings range hostPort config

structure Listener where
  host : String
  port : ℕ
  deriving DecidableEq

def listeners (config : BindConfig) : List Listener :=
  portBindings range Listener.mk config

theorem map_nodeAt {β : Type} (f : α → β) (config : BindConfig) (node : BindConfigNodeopPorts) :
    (nodeAt at_ config node).map f = nodeAt (fun host port => f (at_ host port)) config node := by
  rw [nodeAt, List.map_map]
  rfl

theorem map_portBindings {β : Type} (f : α → β) (config : BindConfig) :
    (portBindings range at_ config).map f =
      portBindings range (fun host port => f (at_ host port)) config := by
  simp only [portBindings, List.map_append, List.map_flatMap, map_nodeAt, List.map_map,
    List.map_cons, List.map_nil]
  rfl

theorem allPortBindings_eq (config : BindConfig) :
    allPortBindings range config =
      (listeners range config).map fun l => hostPort l.host l.port := by
  rw [listeners, map_portBindings, allPortBindings]

theorem nodeAt_ports (config : BindConfig) :
    nodeAt (fun _ port => port) config = fun node => [node.http, node.p2p] :=
  rfl

/-- Both enumerations have the same ports. -/
theorem listeners_ports (config : BindConfig) :
    (listeners range config).map Listener.port =
      (addressedPortsBy range config).flatMap AddressedPorts.ports := by
  rw [listeners, map_portBindings]
  simp only [portBindings, nodeAt_ports, addressedPortsBy, flatPorts, List.flatMap_cons,
    List.flatMap_nil, List.append_nil, List.map_id', List.append_assoc, List.cons_append,
    List.nil_append]

end walkers

/-! ### Texts of a host and a port -/

theorem toDigits_inj {m n : ℕ} (h : Nat.toDigits 10 m = Nat.toDigits 10 n) : m = n := by
  have htext : natText m = natText n := by rw [natText, natText, h]
  rw [← Json.digitsValue_natText m, htext, Json.digitsValue_natText]

theorem toList_hostPort (host : String) (port : ℕ) :
    (hostPort host port).toList.reverse =
      (Nat.toDigits 10 port).reverse ++ ':' :: host.toList.reverse := by
  rw [hostPort, String.toList_append, String.toList_append, Nat.toString_eq_repr,
    Nat.toList_repr, List.reverse_append, List.reverse_append]
  rfl

theorem colon_not_mem_toDigits (port : ℕ) :
    ∀ c ∈ (Nat.toDigits 10 port).reverse, decide (c ≠ ':') = true := by
  intro c hc
  have hdigit := Nat.isDigit_of_mem_toDigits (by decide) (Nat.le_refl 10) (List.mem_reverse.mp hc)
  refine decide_eq_true ?_
  rintro rfl
  exact absurd hdigit (by decide)

/-- The port is behind the last colon. -/
theorem hostPort_inj {host host' : String} {port port' : ℕ}
    (h : hostPort host port = hostPort host' port') : host = host' ∧ port = port' := by
  have hreverse := congrArg (fun s : String => s.toList.reverse) h
  simp only [toList_hostPort] at hreverse
  have hport := congrArg (List.takeWhile fun c => decide (c ≠ ':')) hreverse
  have hhost := congrArg (List.dropWhile fun c => decide (c ≠ ':')) hreverse
  rw [List.takeWhile_append_of_pos (colon_not_mem_toDigits port),
    List.takeWhile_append_of_pos (colon_not_mem_toDigits port')] at hport
  rw [List.dropWhile_append_of_pos (colon_not_mem_toDigits port),
    List.dropWhile_append_of_pos (colon_not_mem_toDigits port')] at hhost
  have hcolon : ∀ t : List Char, (':' :: t).takeWhile (fun c => decide (c ≠ ':')) = [] :=
    fun _ => rfl
  have hrest : ∀ t : List Char, (':' :: t).dropWhile (fun c => decide (c ≠ ':')) = ':' :: t :=
    fun _ => rfl
  rw [hcolon, hcolon, List.append_nil, List.append_nil, List.reverse_inj] at hport
  rw [hrest, hrest, List.cons.injEq, List.reverse_inj] at hhost
  exact ⟨String.toList_inj.mp hhost.2, toDigits_inj hport⟩

/-! ### The check -/

/-- The texts that stand there before. -/
def duplicates (bindings : List String) : List String :=
  (bindings.zipIdx.filter fun b => bindings.idxOf b.1 ≠ b.2).map Prod.fst

def runVerifyNoDuplicatePorts (range : ℕ → ℕ → List ℕ) (config : BindConfig) :
    Except String Unit :=
  let found := duplicates (allPortBindings range config)
  if found.length = 0 then pure ()
  else throw ("create-external-config: the external bind config binds the same port twice on " ++
    "one host: " ++ ", ".intercalate (uniq found))

theorem duplicates_eq_nil {bindings : List String} :
    duplicates bindings = [] ↔ bindings.Nodup := by
  rw [duplicates, List.map_eq_nil_iff, List.filter_eq_nil_iff]
  constructor
  · intro h
    rw [List.Nodup, List.pairwise_iff_getElem]
    intro i j hi hj hij heq
    have hfirst : ∀ k (hk : k < bindings.length), bindings.idxOf bindings[k] = k := by
      intro k hk
      have hmem : (bindings[k], k) ∈ bindings.zipIdx :=
        List.mem_zipIdx_iff_getElem?.mpr (List.getElem?_eq_getElem hk)
      simpa using h _ hmem
    have hi' := hfirst i hi
    rw [heq, hfirst j hj] at hi'
    omega
  · rintro hnodup ⟨b, i⟩ hmem
    obtain ⟨hi, hb⟩ := List.getElem?_eq_some_iff.mp (List.mem_zipIdx_iff_getElem?.mp hmem)
    have hfirst := hnodup.idxOf_getElem i hi
    rw [show bindings[i] = b from hb] at hfirst
    simpa using hfirst

/-- The check compares texts: it accepts where no host and port are listed twice. -/
theorem runVerify_ok_iff (range : ℕ → ℕ → List ℕ) (config : BindConfig) :
    runVerifyNoDuplicatePorts range config = .ok () ↔
      (listeners range config).Pairwise fun a b => ¬(a.port = b.port ∧ a.host = b.host) := by
  have hnodup : (allPortBindings range config).Nodup ↔
      (listeners range config).Pairwise fun a b => ¬(a.port = b.port ∧ a.host = b.host) := by
    rw [allPortBindings_eq, List.Nodup, List.pairwise_map]
    refine List.Pairwise.iff fun a b => not_congr ?_
    constructor
    · exact fun h => (hostPort_inj h).symm
    · rintro ⟨hport, hhost⟩
      rw [hport, hhost]
  rw [← hnodup, ← duplicates_eq_nil, ← List.length_eq_zero_iff]
  unfold runVerifyNoDuplicatePorts
  dsimp only
  split
  · next hzero => exact ⟨fun _ => hzero, fun _ => rfl⟩
  · next hsome => exact ⟨nofun, fun hzero => absurd hzero hsome⟩

/-! ### Addresses of this host -/

inductive IpFamily where
  | ipv4
  | ipv6

/-- What Node knows of addresses and of this host. -/
structure HostNet where
  isIPv4 : String → Bool
  isIPv6 : String → Bool
  /-- The check of the list of wildcards and loopback addresses, in any spelling. -/
  hostAddresses : String → IpFamily → Bool
  /-- The check of the list of interface addresses; none where they cannot be listed. -/
  interfaceAddresses : Option (String → IpFamily → Bool)

section addresses
variable (net : HostNet)

def ipFamily (address : String) : Option IpFamily :=
  if net.isIPv4 address then some .ipv4 else if net.isIPv6 address then some .ipv6 else none

def isInterfaceAddress (literal : String) (family : IpFamily) : Bool :=
  match net.interfaceAddresses with
  | some check => check literal family
  | none => true

def isLocalAddress (address : String) : Bool :=
  let literal := String.ofList (address.toList.takeWhile (· ≠ '%'))
  match ipFamily net literal with
  | none => true
  | some family => net.hostAddresses literal family || isInterfaceAddress net literal family

def isWildcard (address : String) : Bool :=
  address == "0.0.0.0" || address == "::" || address == ""

/-- What is bound on the one host is bound on the other. -/
def Overlap (host other : String) : Prop :=
  host = other ∨ (isLocalAddress net host = true ∧ isLocalAddress net other = true ∧
    (isWildcard host || isWildcard other) = true)

def Conflict (a b : Listener) : Prop :=
  a.port = b.port ∧ Overlap net a.host b.host

instance (a b : Listener) : Decidable (Conflict net a b) :=
  inferInstanceAs (Decidable (_ ∧ (_ ∨ _)))

variable (range : ℕ → ℕ → List ℕ) (config : BindConfig)

/-- Where a port is taken twice on one host in two spellings, one is taken twice in one spelling. -/
def SpellingsHarmless : Prop :=
  ((listeners range config).Pairwise fun a b => ¬(a.port = b.port ∧ a.host = b.host)) →
    (listeners range config).Pairwise fun a b =>
      ¬(a.port = b.port ∧ a.host ≠ b.host ∧ Overlap net a.host b.host)

/-- The enumerations agree on every binding.  The check accepts just the bindings without a conflict
where the spellings are harmless. -/
theorem duplicate_ports_iff :
    (allPortBindings range config =
        (listeners range config).map (fun l => hostPort l.host l.port) ∧
      ((listeners range config).map Listener.port).Perm
        ((addressedPortsBy range config).flatMap AddressedPorts.ports) ∧
      (runVerifyNoDuplicatePorts range config = .ok () ↔
        (listeners range config).Pairwise fun a b => ¬Conflict net a b)) ↔
      SpellingsHarmless net range config := by
  have hsame : ((listeners range config).Pairwise fun a b => ¬Conflict net a b) →
      (listeners range config).Pairwise fun a b => ¬(a.port = b.port ∧ a.host = b.host) :=
    List.Pairwise.imp fun hfree heq => hfree ⟨heq.1, Or.inl heq.2⟩
  rw [runVerify_ok_iff]
  constructor
  · rintro ⟨_, _, haccepts⟩ hdistinct
    exact (haccepts.mp hdistinct).imp fun hfree h => hfree ⟨h.1, h.2.2⟩
  · intro hharmless
    refine ⟨allPortBindings_eq range config, .of_eq (listeners_ports range config), ?_, hsame⟩
    intro hdistinct
    refine (hdistinct.and (hharmless hdistinct)).imp fun {a b} h hconflict => ?_
    by_cases hhost : a.host = b.host
    · exact h.1 ⟨hconflict.1, hhost⟩
    · exact h.2 ⟨hconflict.1, hhost, hconflict.2⟩

end addresses

/-- A host that knows its wildcards and its loopback addresses. -/
def loopbackHost : HostNet where
  isIPv4 address := address == "0.0.0.0" || address == "127.0.0.1"
  isIPv6 address := address == "::" || address == "::1"
  hostAddresses _ _ := true
  interfaceAddresses := some fun _ _ => false

/-- kiod listens on every interface, at the port of anvil. -/
def kiodOnAnvil : BindConfig where
  kiod := ⟨"0.0.0.0", 8545⟩
  nodeop := ⟨"127.0.0.1", ⟨⟨8888, 9876, none⟩, [], [], [], [], []⟩⟩
  anvil := ⟨"127.0.0.1", 8545⟩
  solana := ⟨"127.0.0.1", ⟨8899, 9900, 9001, ⟨12000, 12003⟩⟩⟩
  debuggingServer := ⟨"127.0.0.1", 3000⟩

theorem wildcard_conflict_accepted :
    runVerifyNoDuplicatePorts (fun first stop => List.range' first (stop - first)) kiodOnAnvil =
        .ok () ∧
      ¬(listeners (fun first stop => List.range' first (stop - first)) kiodOnAnvil).Pairwise
        fun a b => ¬Conflict loopbackHost a b := by
  decide

end WireTools
