import WireTools.Collections

/-! # Cluster network bindings

The plain-data shapes of a cluster's network binding: the resolved `BindConfig`, the
caller's `BindOptions` (every member optional; a port window is pinned whole) and the
topology's node counts.  `addressedPorts` is the one walker over a binding; `allPorts` and
`locallyBoundPorts` are read off it. -/

namespace WireTools

/-! ### Ports -/

/-- Lowest port an endpoint or registration may name. -/
def MinimumPort : ℕ := 1
/-- Highest port an endpoint or registration may name. -/
def MaximumPort : ℕ := 65535

/-- Transport a port will be bound with. -/
inductive BindConfigPortProtocol where
  | tcp
  | udp
deriving DecidableEq, Repr

/-- An inclusive contiguous port window (`first`..`last`). -/
structure BindConfigPortRange where
  first : ℕ
  last : ℕ
deriving DecidableEq, Repr

/-- The ports of a window, in order. -/
def BindConfigPortRange.ports (r : BindConfigPortRange) : List ℕ :=
  List.range' r.first (r.last + 1 - r.first)

theorem BindConfigPortRange.mem_ports {r : BindConfigPortRange} {p : ℕ} :
    p ∈ r.ports ↔ r.first ≤ p ∧ p ≤ r.last := by
  simp only [ports, List.mem_range'_1]
  omega

theorem BindConfigPortRange.ports_nodup (r : BindConfigPortRange) : r.ports.Nodup :=
  List.nodup_range'

/-! ### The resolved binding -/

/-- One nodeop's per-node binding. -/
structure BindConfigNodeopPorts where
  http : ℕ
  p2p : ℕ
  advertiseAddress : Option String := none
deriving DecidableEq, Repr

/-- The full nodeop port set across the cluster. -/
structure BindConfigNodeopClusterPorts where
  bios : BindConfigNodeopPorts
  producers : List BindConfigNodeopPorts
  batch : List BindConfigNodeopPorts
  underwriters : List BindConfigNodeopPorts
  api : List BindConfigNodeopPorts
  adHoc : List BindConfigNodeopPorts
deriving DecidableEq, Repr

/-- A daemon that listens on one address and one port. -/
structure BindConfigDaemon where
  address : String
  port : ℕ
deriving DecidableEq, Repr

/-- nodeop: one bind address, the cluster-wide port set. -/
structure BindConfigNodeop where
  address : String
  ports : BindConfigNodeopClusterPorts
deriving DecidableEq, Repr

/-- The test validator's resolved port set. -/
structure BindConfigSolanaPorts where
  http : ℕ
  faucet : ℕ
  gossip : ℕ
  dynamicRange : BindConfigPortRange
deriving DecidableEq, Repr

/-- solana-test-validator: one bind address and its port set. -/
structure BindConfigSolana where
  address : String
  ports : BindConfigSolanaPorts
deriving DecidableEq, Repr

/-- A cluster's complete network binding. -/
structure BindConfig where
  kiod : BindConfigDaemon
  nodeop : BindConfigNodeop
  anvil : BindConfigDaemon
  solana : BindConfigSolana
  debuggingServer : BindConfigDaemon
deriving DecidableEq, Repr

/-! ### Caller options -/

/-- Caller options for one nodeop's pair. -/
structure BindNodeopPortsOptions where
  http : Option ℕ := none
  p2p : Option ℕ := none
  advertiseAddress : Option String := none

/-- Caller options for the cluster-wide nodeop port set. -/
structure BindNodeopClusterPortsOptions where
  bios : Option BindNodeopPortsOptions := none
  producers : Option (List BindNodeopPortsOptions) := none
  batch : Option (List BindNodeopPortsOptions) := none
  underwriters : Option (List BindNodeopPortsOptions) := none
  api : Option (List BindNodeopPortsOptions) := none
  adHoc : Option (List BindNodeopPortsOptions) := none

/-- Caller options for a single-port daemon. -/
structure BindDaemonOptions where
  address : Option String := none
  port : Option ℕ := none

/-- Caller options for the nodeop fleet. -/
structure BindNodeopOptions where
  address : Option String := none
  ports : Option BindNodeopClusterPortsOptions := none

/-- Caller options for the validator's ports; the window is pinned whole. -/
structure BindSolanaPortsOptions where
  http : Option ℕ := none
  faucet : Option ℕ := none
  gossip : Option ℕ := none
  dynamicRange : Option BindConfigPortRange := none

/-- Caller options for the solana-test-validator. -/
structure BindSolanaOptions where
  address : Option String := none
  ports : Option BindSolanaPortsOptions := none

/-- Caller-facing bind overrides. -/
structure BindOptions where
  kiod : Option BindDaemonOptions := none
  nodeop : Option BindNodeopOptions := none
  anvil : Option BindDaemonOptions := none
  solana : Option BindSolanaOptions := none
  debuggingServer : Option BindDaemonOptions := none

/-- Topology and bind-all flag the resolver needs. -/
structure ClusterTopologyOptions where
  producerCount : Option ℕ := none
  batchOperatorCount : Option ℕ := none
  underwriterCount : Option ℕ := none
  apiCount : Option ℕ := none
  adHocCount : Option ℕ := none
  bindAll : Bool := false

namespace BindOptions

variable (options : BindOptions)

/-- `options.kiod?.port`. -/
def kiodPort : Option ℕ := options.kiod.bind (·.port)
/-- `options.anvil?.port`. -/
def anvilPort : Option ℕ := options.anvil.bind (·.port)
/-- `options.debuggingServer?.port`. -/
def debuggingServerPort : Option ℕ := options.debuggingServer.bind (·.port)
/-- `options.solana?.ports`. -/
def solanaPorts : Option BindSolanaPortsOptions := options.solana.bind (·.ports)
/-- `options.solana?.ports?.http`. -/
def solanaHttp : Option ℕ := options.solanaPorts.bind (·.http)
/-- `options.solana?.ports?.faucet`. -/
def solanaFaucet : Option ℕ := options.solanaPorts.bind (·.faucet)
/-- `options.solana?.ports?.gossip`. -/
def solanaGossip : Option ℕ := options.solanaPorts.bind (·.gossip)
/-- `options.solana?.ports?.dynamicRange`. -/
def solanaDynamicRange : Option BindConfigPortRange :=
  options.solanaPorts.bind (·.dynamicRange)
/-- `options.nodeop?.ports`. -/
def nodeopPorts : Option BindNodeopClusterPortsOptions := options.nodeop.bind (·.ports)
/-- `nodeopPorts?.bios`. -/
def bios : Option BindNodeopPortsOptions := options.nodeopPorts.bind (·.bios)
/-- `nodeopPorts?.producers`. -/
def producers : Option (List BindNodeopPortsOptions) := options.nodeopPorts.bind (·.producers)
/-- `nodeopPorts?.batch`. -/
def batch : Option (List BindNodeopPortsOptions) := options.nodeopPorts.bind (·.batch)
/-- `nodeopPorts?.underwriters`. -/
def underwriters : Option (List BindNodeopPortsOptions) :=
  options.nodeopPorts.bind (·.underwriters)
/-- `nodeopPorts?.api`. -/
def api : Option (List BindNodeopPortsOptions) := options.nodeopPorts.bind (·.api)
/-- `nodeopPorts?.adHoc`. -/
def adHoc : Option (List BindNodeopPortsOptions) := options.nodeopPorts.bind (·.adHoc)

end BindOptions

/-! ### The port walker -/

/-- Offset from the solana RPC port to its companion websocket port. -/
def SolanaWsPortOffset : ℕ := 1

/-- One daemon's bind address and every port it binds there. -/
structure AddressedPorts where
  address : String
  ports : List ℕ

/-- The ports of a list of nodes, pair by pair. -/
def flatPorts (xs : List BindConfigNodeopPorts) : List ℕ := xs.flatMap fun p => [p.http, p.p2p]

/-- Every port of a resolved binding, grouped by the bind address of its daemon. -/
def addressedPorts (config : BindConfig) : List AddressedPorts :=
  let np := config.nodeop.ports
  [⟨config.kiod.address, [config.kiod.port]⟩,
   ⟨config.nodeop.address,
     [np.bios.http, np.bios.p2p] ++ flatPorts np.producers ++ flatPorts np.batch ++
       flatPorts np.underwriters ++ flatPorts np.api ++ flatPorts np.adHoc⟩,
   ⟨config.anvil.address, [config.anvil.port]⟩,
   ⟨config.solana.address,
     [config.solana.ports.http, config.solana.ports.http + SolanaWsPortOffset,
      config.solana.ports.faucet, config.solana.ports.gossip] ++
       config.solana.ports.dynamicRange.ports⟩,
   ⟨config.debuggingServer.address, [config.debuggingServer.port]⟩]

/-- Flat list of every port of a resolved binding. -/
def allPorts (config : BindConfig) : List ℕ := (addressedPorts config).flatMap (·.ports)

/-- The ports of a binding this host binds, each once; `isLocalAddress` answers whether a
bind address may belong to this host. -/
def locallyBoundPorts (isLocalAddress : String → Bool) (config : BindConfig) : List ℕ :=
  uniq (((addressedPorts config).filter fun d => isLocalAddress d.address).flatMap (·.ports))

theorem locallyBoundPorts_subset {isLocalAddress : String → Bool} {config : BindConfig} {p : ℕ}
    (h : p ∈ locallyBoundPorts isLocalAddress config) : p ∈ allPorts config := by
  simp only [locallyBoundPorts, mem_uniq, List.mem_flatMap, List.mem_filter] at h
  obtain ⟨d, ⟨hd, _⟩, hp⟩ := h
  exact List.mem_flatMap.mpr ⟨d, hd, hp⟩

/-- With every daemon bound locally, the locally bound ports are all the ports. -/
theorem mem_locallyBoundPorts {isLocalAddress : String → Bool} {config : BindConfig} {p : ℕ}
    (h : ∀ d ∈ addressedPorts config, isLocalAddress d.address = true) :
    p ∈ locallyBoundPorts isLocalAddress config ↔ p ∈ allPorts config := by
  rw [locallyBoundPorts, List.filter_eq_self.mpr h, mem_uniq]
  rfl

end WireTools
