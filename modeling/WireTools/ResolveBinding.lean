import WireTools.PortPicker

/-! # Resolving a cluster's binding

`resolveLocked` claims every port of a cluster, daemon by daemon in a fixed order, over one
set of claimed ports that starts as the registry's exclusions.

* **Requests.** `requests` lists what the resolve asks for, in its order: one port, the RPC
  pair or the dynamic window, pinned by the caller or automatic.  `blocks` lists the ports of a
  resolved binding in the same order, so that the `k`-th block answers the `k`-th request.
* **Serving.** `serve` answers one request; `Served` and `Refused` say how.  A pin is accepted
  although it is already claimed exactly when the kernel drew that excluded port.
* **Resolving.** `blocks_resolveLocked`: the resolve answers its requests in order.  So, by
  `resolveLocked_ends`, an invariant kept by every `serve` holds of the blocks of the resolved
  binding. -/

namespace WireTools

open Outcome

/-! ### Claims -/

/-- Loopback, the bind address unless the cluster listens on every interface. -/
def Localhost : String := "127.0.0.1"
/-- Every interface. -/
def ListenAllAddress : String := "0.0.0.0"

/-- Node counts a topology leaves out. -/
def DefaultProducerCount : ℕ := 1
def DefaultBatchCount : ℕ := 3
def DefaultUnderwriterCount : ℕ := 0
def DefaultApiCount : ℕ := 0
def DefaultAdHocCount : ℕ := 0

namespace ClusterTopologyOptions

variable (topology : ClusterTopologyOptions)

def producers : ℕ := topology.producerCount.getD DefaultProducerCount
def batch : ℕ := topology.batchOperatorCount.getD DefaultBatchCount
def underwriters : ℕ := topology.underwriterCount.getD DefaultUnderwriterCount
def api : ℕ := topology.apiCount.getD DefaultApiCount
def adHoc : ℕ := topology.adHocCount.getD DefaultAdHocCount
/-- The bind address of a daemon without one of its own. -/
def address : String := if topology.bindAll then ListenAllAddress else Localhost

end ClusterTopologyOptions

/-- The caller's RPC pin and its companion, kept from the automatic picks before them. -/
def pinnedSolanaPorts (options : BindOptions) : List ℕ :=
  match options.solanaHttp with
  | none => []
  | some pin => [pin, pin + SolanaWsPortOffset]

variable (host : Host) (options : BindOptions) (automaticPortRanges : List BindConfigPortRange)

/-- Claim one port. -/
def claim (callerPin fallbackDefault : Option ℕ) (daemon : String)
    (protocol : BindConfigPortProtocol) : Picker ℕ := do
  let s ← get
  let exclude := if callerPin.isNone then s.claimed.addAll (pinnedSolanaPorts options)
    else s.claimed
  let port ← pickPort host callerPin fallbackDefault exclude daemon protocol automaticPortRanges
  modify fun s => { s with claimed := s.claimed.add port }
  return port

/-- Claim one node's pair. -/
def pair (base : Option BindNodeopPortsOptions) (daemon : String) :
    Picker BindConfigNodeopPorts := do
  let http ← claim host options automaticPortRanges (base.bind (·.http)) none
    s!"{daemon}.http" .tcp
  let p2p ← claim host options automaticPortRanges (base.bind (·.p2p)) none
    s!"{daemon}.p2p" .tcp
  return { http := http, p2p := p2p, advertiseAddress := base.bind (·.advertiseAddress) }

/-- Claim the pairs of `count` nodes. -/
def pairs (bases : Option (List BindNodeopPortsOptions)) (count : ℕ) (daemon : String) :
    Picker (List BindConfigNodeopPorts) :=
  (List.range count).mapM fun i =>
    pair host options automaticPortRanges (bases.bind (·[i]?)) s!"{daemon}[{i}]"

/-- Claim the RPC port and its companion. -/
def claimSolanaHttp (callerPin : Option ℕ) : Picker ℕ := do
  let s ← get
  let http ← pickSolanaRpc host callerPin (some DefaultSolanaRpc) s.claimed automaticPortRanges
  modify fun s => { s with claimed := s.claimed.addAll [http, http + SolanaWsPortOffset] }
  return http

/-- Claim every port of the dynamic window. -/
def claimSolanaDynamicRange (callerPin : Option BindConfigPortRange) :
    Picker BindConfigPortRange := do
  let s ← get
  let dynamicRange ← pickPortRange host callerPin s.claimed "solana.dynamicRange"
    automaticPortRanges
  modify fun s => { s with claimed := s.claimed.addAll dynamicRange.ports }
  return dynamicRange

/-- Resolve every port of a cluster, from the exclusions in the state's claimed set. -/
def resolveLocked (topology : ClusterTopologyOptions) : Picker BindConfig := do
  let claim := claim host options automaticPortRanges
  let pairs := pairs host options automaticPortRanges
  let address := fun (own : Option String) => own.getD topology.address
  let kiod ← claim options.kiodPort (some DefaultKiod) "kiod" .tcp
  let biosHttp ← claim (options.bios.bind (·.http)) (some DefaultBiosHttp) "nodeop.bios.http" .tcp
  let biosP2p ← claim (options.bios.bind (·.p2p)) (some DefaultBiosP2p) "nodeop.bios.p2p" .tcp
  let producers ← pairs options.producers topology.producers "producer"
  let batch ← pairs options.batch topology.batch "batch"
  let underwriters ← pairs options.underwriters topology.underwriters "underwriter"
  let api ← pairs options.api topology.api "api"
  let adHoc ← pairs options.adHoc topology.adHoc "adHoc"
  let anvil ← claim options.anvilPort (some DefaultAnvil) "anvil" .tcp
  let http ← claimSolanaHttp host automaticPortRanges options.solanaHttp
  let faucet ← claim options.solanaFaucet (some DefaultSolanaFaucet) "solana.faucet" .tcp
  let gossip ← claim options.solanaGossip (some DefaultSolanaGossip) "solana.gossip" .udp
  let dynamicRange ← claimSolanaDynamicRange host automaticPortRanges options.solanaDynamicRange
  let debuggingServer ← claim options.debuggingServerPort (some DefaultDebuggingServer)
    "debuggingServer" .tcp
  return {
    kiod := ⟨address (options.kiod.bind (·.address)), kiod⟩
    nodeop := ⟨address (options.nodeop.bind (·.address)),
      { bios := ⟨biosHttp, biosP2p, options.bios.bind (·.advertiseAddress)⟩
        producers := producers, batch := batch, underwriters := underwriters
        api := api, adHoc := adHoc }⟩
    anvil := ⟨address (options.anvil.bind (·.address)), anvil⟩
    solana := ⟨address (options.solana.bind (·.address)), ⟨http, faucet, gossip, dynamicRange⟩⟩
    debuggingServer := ⟨address (options.debuggingServer.bind (·.address)), debuggingServer⟩ }

/-- A resolve from a set of excluded ports. -/
def allocate (topology : ClusterTopologyOptions) (exclusions : PortSet) :
    Except PickError (BindConfig × Allocation) :=
  (resolveLocked host options automaticPortRanges topology).run ⟨exclusions, 0, []⟩

/-! ### Requests and the blocks that answer them -/

/-- What a resolve asks for. -/
inductive Request where
  | port (pin preferred : Option ℕ) (daemon : String) (protocol : BindConfigPortProtocol)
  | solanaHttp (pin : Option ℕ)
  | solanaDynamicRange (pin : Option BindConfigPortRange)

/-- The ports the caller pinned for a request. -/
def Request.pinned : Request → Option (List ℕ)
  | .port pin _ _ _ => pin.map fun p => [p]
  | .solanaHttp pin => pin.map fun p => [p, p + SolanaWsPortOffset]
  | .solanaDynamicRange pin => pin.map (·.ports)

/-- The two requests of a node. -/
def pairRequests (base : Option BindNodeopPortsOptions) (daemon : String) : List Request :=
  [.port (base.bind (·.http)) none s!"{daemon}.http" .tcp,
   .port (base.bind (·.p2p)) none s!"{daemon}.p2p" .tcp]

/-- The requests of the nodes with the given indices. -/
def nodeRequests (bases : Option (List BindNodeopPortsOptions)) (daemon : String)
    (indices : List ℕ) : List Request :=
  indices.flatMap fun i => pairRequests (bases.bind (·[i]?)) s!"{daemon}[{i}]"

/-- Everything a resolve asks for, in order. -/
def requests (topology : ClusterTopologyOptions) : List Request :=
  [Request.port options.kiodPort (some DefaultKiod) "kiod" .tcp,
   .port (options.bios.bind (·.http)) (some DefaultBiosHttp) "nodeop.bios.http" .tcp,
   .port (options.bios.bind (·.p2p)) (some DefaultBiosP2p) "nodeop.bios.p2p" .tcp] ++
  (nodeRequests options.producers "producer" (List.range topology.producers) ++
  (nodeRequests options.batch "batch" (List.range topology.batch) ++
  (nodeRequests options.underwriters "underwriter" (List.range topology.underwriters) ++
  (nodeRequests options.api "api" (List.range topology.api) ++
  (nodeRequests options.adHoc "adHoc" (List.range topology.adHoc) ++
  [Request.port options.anvilPort (some DefaultAnvil) "anvil" .tcp,
   .solanaHttp options.solanaHttp,
   .port options.solanaFaucet (some DefaultSolanaFaucet) "solana.faucet" .tcp,
   .port options.solanaGossip (some DefaultSolanaGossip) "solana.gossip" .udp,
   .solanaDynamicRange options.solanaDynamicRange,
   .port options.debuggingServerPort (some DefaultDebuggingServer) "debuggingServer" .tcp])))))

/-- The ports of a list of nodes, one block a port. -/
def nodeBlocks (nodes : List BindConfigNodeopPorts) : List (List ℕ) :=
  nodes.flatMap fun p => [[p.http], [p.p2p]]

/-- The ports of a binding, one block for each request. -/
def blocks (config : BindConfig) : List (List ℕ) :=
  let np := config.nodeop.ports
  let sol := config.solana.ports
  [[config.kiod.port], [np.bios.http], [np.bios.p2p]] ++
  (nodeBlocks np.producers ++ (nodeBlocks np.batch ++ (nodeBlocks np.underwriters ++
  (nodeBlocks np.api ++ (nodeBlocks np.adHoc ++
  [[config.anvil.port], [sol.http, sol.http + SolanaWsPortOffset], [sol.faucet], [sol.gossip],
   sol.dynamicRange.ports, [config.debuggingServer.port]])))))

theorem flatten_nodeBlocks (nodes : List BindConfigNodeopPorts) :
    (nodeBlocks nodes).flatten = flatPorts nodes := by
  induction nodes with
  | nil => rfl
  | cons p nodes ih =>
      simp only [nodeBlocks, flatPorts, List.flatMap_cons, List.flatten_append] at ih ⊢
      rw [ih]
      rfl

/-- The blocks hold the ports of the binding, in the walker's order. -/
theorem flatten_blocks (config : BindConfig) : (blocks config).flatten = allPorts config := by
  simp [blocks, allPorts, addressedPorts, flatten_nodeBlocks]

/-- Answer one request; the block holds every port claimed for it. -/
def serve : Request → Picker (List ℕ)
  | .port pin preferred daemon protocol => do
      let port ← claim host options automaticPortRanges pin preferred daemon protocol
      return [port]
  | .solanaHttp pin => do
      let http ← claimSolanaHttp host automaticPortRanges pin
      return [http, http + SolanaWsPortOffset]
  | .solanaDynamicRange pin => do
      let dynamicRange ← claimSolanaDynamicRange host automaticPortRanges pin
      return dynamicRange.ports

/-! ### Serving a request -/

/-- The ports an automatic request may be answered with, when `claimed` is excluded. -/
def Request.Takes (host : Host) (options : BindOptions) (ranges : List BindConfigPortRange)
    (claimed : PortSet) : Request → List ℕ → Prop
  | .port _ preferred _ _, block => ∃ p, block = [p] ∧ Pickable host preferred p ∧
      p ∉ pinnedSolanaPorts options ∧ isAvailable claimed ranges p = true
  | .solanaHttp _, block => ∃ p, block = [p, p + SolanaWsPortOffset] ∧
      Pickable host (some DefaultSolanaRpc) p ∧ p + SolanaWsPortOffset ≤ MaximumPort ∧
      ∀ q ∈ block, isAvailable claimed ranges q = true
  | .solanaDynamicRange _, block => ∃ first ∈ windowStarts ranges,
      block = (BindConfigPortRange.mk first (first + SolanaDynamicPortRangeSize - 1)).ports ∧
      ∀ q ∈ block, isAvailable claimed ranges q = true

variable {host options automaticPortRanges}

/-- An automatic request takes available ports only. -/
theorem Request.Takes.available {ranges : List BindConfigPortRange} {claimed : PortSet}
    {r : Request} {block : List ℕ} (h : r.Takes host options ranges claimed block) :
    ∀ p ∈ block, isAvailable claimed ranges p = true := by
  cases r with
  | port pin preferred daemon protocol =>
      obtain ⟨p, rfl, _, _, hp⟩ := h
      intro q hq
      rw [List.mem_singleton.mp hq]
      exact hp
  | solanaHttp pin =>
      obtain ⟨p, _, _, _, hp⟩ := h
      exact hp
  | solanaDynamicRange pin =>
      obtain ⟨first, _, _, hp⟩ := h
      exact hp

/-- How `serve` answers `r` from `s`: the block is what the caller pinned, else what an
automatic pick may take; it is claimed whole; and a `get-port` call drew an excluded port exactly
when the block was not free of claims. -/
structure Served (host : Host) (options : BindOptions) (ranges : List BindConfigPortRange)
    (r : Request) (s : Allocation) (block : List ℕ) (s' : Allocation) : Prop where
  pinned : ∀ ports, r.pinned = some ports → block = ports
  taken : r.pinned = none → r.Takes host options ranges s.claimed block
  nodup : block.Nodup
  unreserved : ∀ p ∈ block, isReservedPort p = false
  claimed : ∀ p, s'.claimed.has p = (s.claimed.has p || decide (p ∈ block))
  calls : ∃ made, s'.calls = s.calls ++ made ∧
    ((∃ call ∈ made, call.DrewExcluded) ↔ ∃ p ∈ block, s.claimed.has p = true)

/-- Why `serve` refuses `r`: an automatic pick ran out of ports, or the caller pinned a port
that is not usable. -/
def Refused (host : Host) (r : Request) (claimed : PortSet) (e : PickError) : Prop :=
  (r.pinned = none ∧ e.isExhaustion = true) ∨ ∃ ports, r.pinned = some ports ∧
    (ports = [] ∨ ∃ p ∈ ports, Unusable host claimed p)

/-- Ports picked from `s` and then claimed. -/
theorem Probed.served {r : Request} {s s₁ : Allocation} {block : List ℕ} {drew : Prop}
    (hp : Probed s s₁ drew) (pinned : ∀ ports, r.pinned = some ports → block = ports)
    (taken : r.pinned = none → r.Takes host options automaticPortRanges s.claimed block)
    (nodup : block.Nodup) (unreserved : ∀ p ∈ block, isReservedPort p = false)
    (hdrew : drew ↔ ∃ p ∈ block, s.claimed.has p = true) :
    Served host options automaticPortRanges r s block
      { s₁ with claimed := s₁.claimed.addAll block } := by
  obtain ⟨hc, made, hmade, hd⟩ := hp
  refine ⟨pinned, taken, nodup, unreserved, fun p => ?_, made, hmade, hd.trans hdrew⟩
  rw [PortSet.addAll_has, hc]

theorem not_claimed_of_available {claimed : PortSet} {ranges : List BindConfigPortRange}
    {block : List ℕ} (h : ∀ p ∈ block, isAvailable claimed ranges p = true) :
    False ↔ ∃ p ∈ block, claimed.has p = true := by
  constructor
  · exact False.elim
  · rintro ⟨p, hp, hx⟩
    rw [(isAvailable_iff.mp (h p hp)).1] at hx
    exact Bool.false_ne_true hx

theorem serve_port_ends (pin preferred : Option ℕ) (daemon : String)
    (protocol : BindConfigPortProtocol) (s : Allocation) :
    Ends (serve host options automaticPortRanges (.port pin preferred daemon protocol)) s
      (Served host options automaticPortRanges (.port pin preferred daemon protocol) s)
      (Refused host (.port pin preferred daemon protocol) s.claimed) := by
  simp only [serve, claim, ends_bind, ends_get, ends_modify, ends_pure]
  cases pin with
  | some pin =>
      refine (pickPort_pin_ends pin preferred s.claimed daemon protocol _).mono ?_ ?_
      · rintro p s' ⟨rfl, hres, hp⟩
        refine hp.served ?_ (by simp [Request.pinned]) (by simp) (by simpa using hres) (by simp)
        rintro ports ⟨⟩
        rfl
      · intro e h
        refine .inr ⟨[pin], rfl, .inr ⟨pin, by simp, ?_⟩⟩
        rcases h with h | h | h | h
        · exact .inr (.inr (.inl h))
        · exact .inr (.inr (.inr (.inl h)))
        · exact .inl (by rw [h]; decide)
        · exact .inr (.inr (.inr (.inr h)))
  | none =>
      refine (pickPort_auto_ends preferred _ daemon protocol _).mono ?_ (fun e h => .inl ⟨rfl, h⟩)
      rintro p s' ⟨havail, hpick, hp⟩
      obtain ⟨hclaim, hres, hauto⟩ := isAvailable_iff.mp havail
      simp only [Option.isNone_none, if_true, PortSet.addAll_has, Bool.or_eq_false_iff,
        decide_eq_false_iff_not] at hclaim
      have havail' : isAvailable s.claimed automaticPortRanges p = true :=
        isAvailable_iff.mpr ⟨hclaim.1, hres, hauto⟩
      refine hp.served (by simp [Request.pinned]) (fun _ => ⟨p, rfl, hpick, hclaim.2, havail'⟩)
        (by simp) (by simpa using hres) (not_claimed_of_available (by simpa using havail'))

theorem serve_solanaHttp_ends (pin : Option ℕ) (s : Allocation) :
    Ends (serve host options automaticPortRanges (.solanaHttp pin)) s
      (Served host options automaticPortRanges (.solanaHttp pin) s)
      (Refused host (.solanaHttp pin) s.claimed) := by
  simp only [serve, claimSolanaHttp, ends_bind, ends_get, ends_modify, ends_pure]
  cases pin with
  | some pin =>
      refine (pickSolanaRpc_pin_ends pin _ s.claimed _).mono ?_ ?_
      · rintro p s' ⟨rfl, _, hres, hres', hclaim, hp⟩
        refine hp.served ?_ (by simp [Request.pinned]) (by simp [SolanaWsPortOffset]) ?_ ?_
        · rintro ports ⟨⟩
          rfl
        · simpa using ⟨hres, hres'⟩
        · simp [hclaim]
      · rintro e (h | h)
        · exact .inr ⟨_, rfl, .inr ⟨pin, by simp, h⟩⟩
        · exact .inr ⟨_, rfl, .inr ⟨pin + SolanaWsPortOffset, by simp, h⟩⟩
  | none =>
      refine (pickSolanaRpc_auto_ends _ s.claimed _).mono ?_ (fun e h => .inl ⟨rfl, h⟩)
      rintro p s' ⟨h₁, h₂, hpick, hmax, hp⟩
      have havail : ∀ q ∈ [p, p + SolanaWsPortOffset],
          isAvailable s.claimed automaticPortRanges q = true := by simpa using ⟨h₁, h₂⟩
      exact hp.served (by simp [Request.pinned]) (fun _ => ⟨p, rfl, hpick, hmax, havail⟩)
        (by simp [SolanaWsPortOffset]) (fun q hq => (isAvailable_iff.mp (havail q hq)).2.1)
        (not_claimed_of_available havail)

theorem serve_solanaDynamicRange_ends (pin : Option BindConfigPortRange) (s : Allocation) :
    Ends (serve host options automaticPortRanges (.solanaDynamicRange pin)) s
      (Served host options automaticPortRanges (.solanaDynamicRange pin) s)
      (Refused host (.solanaDynamicRange pin) s.claimed) := by
  simp only [serve, claimSolanaDynamicRange, ends_bind, ends_get, ends_modify, ends_pure]
  cases pin with
  | some pin =>
      refine (pickPortRange_pin_ends pin s.claimed _ _).mono ?_ ?_
      · rintro r s' ⟨rfl, _, hfree, hp⟩
        refine hp.served ?_ (by simp [Request.pinned]) r.ports_nodup (fun p h => (hfree p h).1) ?_
        · rintro ports ⟨⟩
          rfl
        · refine ⟨False.elim, ?_⟩
          rintro ⟨p, hmem, hx⟩
          rw [(hfree p hmem).2] at hx
          exact Bool.false_ne_true hx
      · rintro e (h | ⟨p, hmem, h⟩)
        · refine .inr ⟨_, rfl, .inl (List.eq_nil_iff_forall_not_mem.mpr fun p hmem => ?_)⟩
          have := BindConfigPortRange.mem_ports.mp hmem
          omega
        · exact .inr ⟨_, rfl, .inr ⟨p, hmem, h⟩⟩
  | none =>
      refine (pickPortRange_auto_ends s.claimed _ _).mono ?_ (fun e h => .inl ⟨rfl, h⟩)
      rintro ⟨first, last⟩ s' ⟨hstart, hlast, havail, hp⟩
      obtain rfl : last = first + SolanaDynamicPortRangeSize - 1 := hlast
      exact hp.served (by simp [Request.pinned]) (fun _ => ⟨first, hstart, rfl, havail⟩)
        (BindConfigPortRange.ports_nodup _) (fun p h => (isAvailable_iff.mp (havail p h)).2.1)
        (not_claimed_of_available havail)

/-- Every request is served or refused. -/
theorem serve_ends (r : Request) (s : Allocation) :
    Ends (serve host options automaticPortRanges r) s
      (Served host options automaticPortRanges r s) (Refused host r s.claimed) := by
  cases r with
  | port pin preferred daemon protocol => exact serve_port_ends pin preferred daemon protocol s
  | solanaHttp pin => exact serve_solanaHttp_ends pin s
  | solanaDynamicRange pin => exact serve_solanaDynamicRange_ends pin s

/-! ### From the requests to the resolve -/

variable (host options) (ranges : List BindConfigPortRange)

/-- Answer a list of requests in order. -/
def serveAll (rs : List Request) : Picker (List (List ℕ)) := rs.mapM (serve host options ranges)

theorem serveAll_append (rs rs' : List Request) :
    serveAll host options ranges (rs ++ rs') = (do
      let done ← serveAll host options ranges rs
      let done' ← serveAll host options ranges rs'
      return done ++ done') := by
  simp [serveAll, List.mapM_append]

theorem serveAll_cons (r : Request) (rs : List Request) :
    serveAll host options ranges (r :: rs) = (do
      let block ← serve host options ranges r
      let done ← serveAll host options ranges rs
      return block :: done) := by
  simp [serveAll, List.mapM_cons]

theorem serveAll_pair (base : Option BindNodeopPortsOptions) (daemon : String) :
    serveAll host options ranges (pairRequests base daemon) =
      (fun p => [[p.http], [p.p2p]]) <$> pair host options ranges base daemon := by
  simp [serveAll, pairRequests, pair, serve, List.mapM_cons]

theorem serveAll_nodes (bases : Option (List BindNodeopPortsOptions)) (daemon : String)
    (indices : List ℕ) :
    serveAll host options ranges (nodeRequests bases daemon indices) =
      nodeBlocks <$> indices.mapM fun i =>
        pair host options ranges (bases.bind (·[i]?)) s!"{daemon}[{i}]" := by
  induction indices with
  | nil => simp [serveAll, nodeRequests, nodeBlocks]
  | cons i indices ih =>
      have hsplit : nodeRequests bases daemon (i :: indices) =
          pairRequests (bases.bind (·[i]?)) s!"{daemon}[{i}]" ++
            nodeRequests bases daemon indices := by
        simp [nodeRequests]
      rw [hsplit, serveAll_append, serveAll_pair, ih]
      simp [nodeBlocks, List.mapM_cons]

/-- The resolve answers its requests in order. -/
theorem blocks_resolveLocked (topology : ClusterTopologyOptions) :
    blocks <$> resolveLocked host options ranges topology =
      serveAll host options ranges (requests options topology) := by
  simp only [requests, serveAll_append, serveAll_cons, serveAll_nodes, serve, resolveLocked, pairs]
  simp [blocks, serveAll]

variable {host options ranges} {topology : ClusterTopologyOptions} {s : Allocation}
  {E : PickError → Prop}

/-- An invariant `I done rest` on the blocks already answered and the requests still open, kept
by every `serve`, holds when the requests are answered. -/
theorem serveAll_ends {I : List (List ℕ) → List Request → Allocation → Prop}
    (step : ∀ done r rest s, I done (r :: rest) s →
      Ends (serve host options ranges r) s (fun b s' => I (done ++ [b]) rest s') E)
    {rs rest : List Request} (h : I [] (rs ++ rest) s) :
    Ends (serveAll host options ranges rs) s (fun done s' => I done rest s') E := by
  refine ends_mapM (I := fun done open' s => I done (open' ++ rest) s)
    (fun r rs' done s hI => step done r (rs' ++ rest) s hI) rs [] s h ?_
  intro done s' _ hI
  simpa using hI

/-- So it holds of the blocks of the resolved binding. -/
theorem resolveLocked_ends {I : List (List ℕ) → List Request → Allocation → Prop}
    (step : ∀ done r rest s, I done (r :: rest) s →
      Ends (serve host options ranges r) s (fun b s' => I (done ++ [b]) rest s') E)
    (h : I [] (requests options topology) s) :
    Ends (resolveLocked host options ranges topology) s
      (fun config s' => I (blocks config) [] s') E := by
  have hall : Ends (serveAll host options ranges (requests options topology)) s
      (fun done s' => I done [] s') E := serveAll_ends step (by simpa using h)
  rwa [← blocks_resolveLocked, ends_map] at hall

/-- The binding has the node counts of the topology. -/
structure HasCounts (topology : ClusterTopologyOptions) (config : BindConfig) : Prop where
  producers : config.nodeop.ports.producers.length = topology.producers
  batch : config.nodeop.ports.batch.length = topology.batch
  underwriters : config.nodeop.ports.underwriters.length = topology.underwriters
  api : config.nodeop.ports.api.length = topology.api
  adHoc : config.nodeop.ports.adHoc.length = topology.adHoc

theorem pairs_length (bases : Option (List BindNodeopPortsOptions)) (count : ℕ) (daemon : String)
    (s : Allocation) :
    Ends (pairs host options ranges bases count daemon) s
      (fun nodes _ => nodes.length = count) (fun _ => True) := by
  refine ends_mapM (I := fun _ _ _ => True) (fun i rest done s _ => Ends.trivial _ _) _ [] s
    trivial ?_
  intro nodes s' hlen _
  simpa using hlen

theorem resolveLocked_counts (s : Allocation) :
    Ends (resolveLocked host options ranges topology) s
      (fun config _ => HasCounts topology config) (fun _ => True) := by
  simp only [resolveLocked, ends_bind, ends_pure]
  refine (Ends.trivial _ s).mono (fun kiod s _ => ?_) (fun _ h => h)
  refine (Ends.trivial _ s).mono (fun biosHttp s _ => ?_) (fun _ h => h)
  refine (Ends.trivial _ s).mono (fun biosP2p s _ => ?_) (fun _ h => h)
  refine (pairs_length _ _ _ s).mono (fun producers s h₁ => ?_) (fun _ h => h)
  refine (pairs_length _ _ _ s).mono (fun batch s h₂ => ?_) (fun _ h => h)
  refine (pairs_length _ _ _ s).mono (fun underwriters s h₃ => ?_) (fun _ h => h)
  refine (pairs_length _ _ _ s).mono (fun api s h₄ => ?_) (fun _ h => h)
  refine (pairs_length _ _ _ s).mono (fun adHoc s h₅ => ?_) (fun _ h => h)
  refine (Ends.trivial _ s).mono (fun anvil s _ => ?_) (fun _ h => h)
  refine (Ends.trivial _ s).mono (fun http s _ => ?_) (fun _ h => h)
  refine (Ends.trivial _ s).mono (fun faucet s _ => ?_) (fun _ h => h)
  refine (Ends.trivial _ s).mono (fun gossip s _ => ?_) (fun _ h => h)
  refine (Ends.trivial _ s).mono (fun dynamicRange s _ => ?_) (fun _ h => h)
  exact (Ends.trivial _ s).mono (fun _ _ _ => ⟨h₁, h₂, h₃, h₄, h₅⟩) (fun _ h => h)

end WireTools
