import Mathlib.Algebra.Ring.Nat
import WireTools.ResolveBinding

/-! # Pins and the automatic picks before them

The daemons of a cluster are resolved in a fixed order, so an automatic pick may be made before a
pin that names the same port.

* `PinsFit` are the caller's duties: the pins are valid, pairwise disjoint and neither reserved
  nor excluded; `PinsSafe` is what they should buy on every host on which the pins are free: no
  automatic pick takes a later pin, and the resolve honours the pins or else fails because an
  automatic pick found no port at all, which it does not on a host with `EnoughPorts`.
* `PinsOutOfReach` says that no automatic request can be answered with a port that a later request
  pins.  `neverStolen_of_outOfReach` and `pinsHonoured_of_outOfReach` prove it enough for the
  pins. -/

namespace WireTools

open Outcome

/-- The ports that the caller pinned in a list of requests. -/
def pinsOf (rs : List Request) : List ℕ := rs.flatMap fun r => r.pinned.getD []

/-- The blocks an automatic request can be answered with, when `claimed` is excluded and the
kernel draws from the automatic ranges. -/
def Takeable (options : BindOptions) (ranges : List BindConfigPortRange) (claimed : PortSet) :
    Request → List ℕ → Prop
  | .port _ _ _ _, block => ∃ p, block = [p] ∧ (ServicePortFirst ≤ p ∧ p ≤ MaximumPort) ∧
      p ∉ pinnedSolanaPorts options ∧ isAvailable claimed ranges p = true
  | .solanaHttp _, block => ∃ p, block = [p, p + SolanaWsPortOffset] ∧ ServicePortFirst ≤ p ∧
      p + SolanaWsPortOffset ≤ MaximumPort ∧ ∀ q ∈ block, isAvailable claimed ranges q = true
  | .solanaDynamicRange _, block => ∃ first ∈ windowStarts ranges,
      block = (BindConfigPortRange.mk first (first + SolanaDynamicPortRangeSize - 1)).ports ∧
      ∀ q ∈ block, isAvailable claimed ranges q = true

variable (options : BindOptions) (topology : ClusterTopologyOptions)
  (ranges : List BindConfigPortRange) (exclusions : PortSet)

/-- The caller's pins: valid, pairwise disjoint, and neither reserved nor excluded. -/
structure PinsFit : Prop where
  nonempty : ∀ r ∈ requests options topology, r.pinned ≠ some []
  disjoint : (pinsOf (requests options topology)).Nodup
  valid : ∀ p ∈ pinsOf (requests options topology), MinimumPort ≤ p ∧ p ≤ MaximumPort
  unreserved : ∀ p ∈ pinsOf (requests options topology), isReservedPort p = false
  unexcluded : ∀ p ∈ pinsOf (requests options topology), exclusions.has p = false

/-- Every pin of the caller is returned unchanged. -/
def PinsHonoured (config : BindConfig) : Prop :=
  List.Forall₂ (fun r block => ∀ ports, r.pinned = some ports → block = ports)
    (requests options topology) (blocks config)

/-- A host on which the pins are free under every probe and whose kernel draws from its automatic
ranges. -/
structure PinsFree (host : Host) : Prop where
  free : ∀ p ∈ pinsOf (requests options topology), host.Free p
  draw : ∀ now, isAutomaticPort (host.draw now) ranges = true

/-- No automatic request is answered with a port that a later request pins. -/
def NeverStolen (host : Host) : Prop :=
  ∀ asked r rest, requests options topology = asked ++ r :: rest → r.pinned = none →
    Ends (do let _ ← serveAll host options ranges asked; serve host options ranges r)
      ⟨exclusions, 0, []⟩ (fun block _ => ∀ p ∈ block, p ∉ pinsOf rest) (fun _ => True)

/-! ### Enough free ports -/

/-- The probes other than get-port's own always pass. -/
def Host.Passes (host : Host) (port : ℕ) : Prop :=
  ∀ now, host.ipv6Free now port = true ∧ host.udpFree now port = true

/-- get-port hands out no port that another probe refuses. -/
def Host.Whole (host : Host) : Prop :=
  ∀ now port, host.bindable now port = true → host.Passes port

/-- A port that is free on the host and that no pin, exclusion or automatic range concerns. -/
def Spare (host : Host) (p : ℕ) : Prop :=
  isAvailable exclusions ranges p = true ∧ p ∉ pinsOf (requests options topology) ∧ host.Free p

/-- The companion of an RPC port can be claimed with it. -/
def Paired (host : Host) (ranges : List BindConfigPortRange) (claimed : PortSet) (p : ℕ) : Prop :=
  p + SolanaWsPortOffset ≤ MaximumPort ∧
    isAvailable claimed ranges (p + SolanaWsPortOffset) = true ∧
      host.Free (p + SolanaWsPortOffset)

/-- Room for the RPC pair: the default pair is left, or every port of the pool that may be handed
out has its companion. -/
def PairRoom (host : Host) (ranges : List BindConfigPortRange) (claimed : PortSet) : Prop :=
  (isAvailable claimed ranges DefaultSolanaRpc = true ∧ host.Free DefaultSolanaRpc ∧
    Paired host ranges claimed DefaultSolanaRpc) ∨
  ∀ p now, ServicePortFirst ≤ p ∧ p ≤ MaximumPort → isAvailable claimed ranges p = true →
    host.bindable now p = true → Paired host ranges claimed p

/-- The number of ports that an automatic request takes. -/
def Request.size : Request → ℕ
  | .port _ _ _ _ => 1
  | .solanaHttp _ => 2
  | .solanaDynamicRange _ => SolanaDynamicPortRangeSize

/-- The number of ports that the automatic ones of some requests take. -/
def automaticSize (rs : List Request) : ℕ :=
  ((rs.filter fun r => r.pinned.isNone).map Request.size).sum

/-- A host with enough other free ports outside the automatic ranges. -/
structure EnoughPorts (host : Host) : Prop where
  whole : host.Whole
  /-- The pool has as many spare ports as the automatic requests take. -/
  ports : ∃ ports : List ℕ, ports.Nodup ∧
    automaticSize (requests options topology) ≤ ports.length ∧
      ∀ p ∈ ports, (ServicePortFirst ≤ p ∧ p ≤ MaximumPort) ∧
        Spare options topology ranges exclusions host p
  /-- There are more spare candidate windows than ports taken before an automatic window. -/
  windows : ∀ asked rest, requests options topology = asked ++ .solanaDynamicRange none :: rest →
    ∃ starts : List ℕ, starts.Nodup ∧ automaticSize asked < starts.length ∧
      ∀ start ∈ starts, start ∈ windowStarts ranges ∧
        ∀ p, start ≤ p → p ≤ start + SolanaDynamicPortRangeSize - 1 →
          Spare options topology ranges exclusions host p
  /-- The picks before an automatic RPC pair leave it room: each of its draws may hit a port
  without a companion. -/
  pair : ∀ asked rest, requests options topology = asked ++ .solanaHttp none :: rest →
    Ends (serveAll host options ranges asked) ⟨exclusions, 0, []⟩
      (fun _ s => PairRoom host ranges s.claimed) (fun _ => True)

/-- On every host on which the pins are free, no automatic pick takes one, and the resolve honours
them all unless an automatic pick finds no port; with enough other free ports it returns. -/
structure PinsSafe : Prop where
  unstolen : ∀ host, PinsFree options topology ranges host →
    NeverStolen options topology ranges exclusions host
  honoured : ∀ host, PinsFree options topology ranges host →
    Ends (resolveLocked host options ranges topology) ⟨exclusions, 0, []⟩
      (fun config _ => PinsHonoured options topology config) (fun e => e.isExhaustion = true)
  succeeds : ∀ host, PinsFree options topology ranges host →
    EnoughPorts options topology ranges exclusions host →
      Ends (resolveLocked host options ranges topology) ⟨exclusions, 0, []⟩
        (fun config _ => PinsHonoured options topology config) (fun _ => False)

/-- No automatic request can be answered with a port that a later request pins. -/
def PinsOutOfReach : Prop :=
  ∀ asked r rest, requests options topology = asked ++ r :: rest → r.pinned = none →
    ∀ block, Takeable options ranges (exclusions.addAll (pinsOf asked)) r block →
      ∀ p ∈ block, p ∉ pinsOf rest

variable {options topology ranges exclusions} {host : Host}

@[simp] theorem pinsOf_append (rs rs' : List Request) :
    pinsOf (rs ++ rs') = pinsOf rs ++ pinsOf rs' := by
  simp [pinsOf]

@[simp] theorem pinsOf_cons (r : Request) (rs : List Request) :
    pinsOf (r :: rs) = r.pinned.getD [] ++ pinsOf rs := by
  simp [pinsOf]

@[simp] theorem pinsOf_nil : pinsOf [] = [] := rfl

/-- Every automatic default is in the service pool. -/
theorem default_mem_pool {r : Request} (hr : r ∈ requests options topology) {pin : Option ℕ}
    {p : ℕ} {daemon : String} {protocol : BindConfigPortProtocol}
    (h : r = .port pin (some p) daemon protocol) : ServicePortFirst ≤ p ∧ p ≤ MaximumPort := by
  subst h
  have hnode : ∀ bases name indices, Request.port pin (some p) daemon protocol ∉
      nodeRequests bases name indices := by
    simp [nodeRequests, pairRequests]
  simp only [requests, List.mem_append, hnode, false_or, List.mem_cons, List.not_mem_nil,
    Request.port.injEq, Option.some.injEq, reduceCtorEq, or_false] at hr
  rcases hr with (⟨_, rfl, _⟩ | ⟨_, rfl, _⟩ | ⟨_, rfl, _⟩) | ⟨_, rfl, _⟩ | ⟨_, rfl, _⟩ |
    ⟨_, rfl, _⟩ | ⟨_, rfl, _⟩ <;> decide

/-- A port picked from smaller exclusions by a kernel that draws from the automatic ranges. -/
theorem Pickable.mem_pool {preferred : Option ℕ} {p : ℕ} {claimed : PortSet}
    (h : Pickable host preferred p) (hdraw : ∀ now, isAutomaticPort (host.draw now) ranges = true)
    (hpref : ∀ q, preferred = some q → ServicePortFirst ≤ q ∧ q ≤ MaximumPort)
    (havail : isAvailable claimed ranges p = true) : ServicePortFirst ≤ p ∧ p ≤ MaximumPort := by
  rcases h with h | h | ⟨now, h⟩
  · exact hpref p h
  · exact h
  · have hauto := hdraw now
    rw [h, (isAvailable_iff.mp havail).2.2] at hauto
    exact absurd hauto Bool.false_ne_true

theorem isAvailable_mono {claimed claimed' : PortSet} {p : ℕ}
    (hle : claimed'.has p = true → claimed.has p = true)
    (h : isAvailable claimed ranges p = true) : isAvailable claimed' ranges p = true := by
  obtain ⟨hclaim, hrest⟩ := isAvailable_iff.mp h
  refine isAvailable_iff.mpr ⟨?_, hrest⟩
  by_contra hx
  rw [hle (by simpa using hx)] at hclaim
  exact Bool.false_ne_true hclaim.symm

/-- What an automatic request takes it can take with fewer ports claimed. -/
theorem Request.Takes.takeable {r : Request} {claimed claimed' : PortSet} {block : List ℕ}
    (h : r.Takes host options ranges claimed block) (hr : r ∈ requests options topology)
    (hdraw : ∀ now, isAutomaticPort (host.draw now) ranges = true)
    (hle : ∀ p, claimed'.has p = true → claimed.has p = true) :
    Takeable options ranges claimed' r block := by
  cases r with
  | port pin preferred daemon protocol =>
      obtain ⟨p, rfl, hpick, hpin, havail⟩ := h
      refine ⟨p, rfl, hpick.mem_pool hdraw ?_ havail, hpin, isAvailable_mono (hle p) havail⟩
      rintro q rfl
      exact default_mem_pool hr rfl
  | solanaHttp pin =>
      obtain ⟨p, rfl, hpick, hmax, havail⟩ := h
      have hpool := hpick.mem_pool hdraw (by rintro q ⟨⟩; decide) (havail p (by simp))
      exact ⟨p, rfl, hpool.1, hmax, fun q hq => isAvailable_mono (hle q) (havail q hq)⟩
  | solanaDynamicRange pin =>
      obtain ⟨first, hfirst, rfl, havail⟩ := h
      exact ⟨first, hfirst, rfl, fun q hq => isAvailable_mono (hle q) (havail q hq)⟩

/-- The state of a resolve in which no pin still open has been taken. -/
structure Untouched (options : BindOptions) (topology : ClusterTopologyOptions)
    (exclusions : PortSet) (done : List (List ℕ)) (rest : List Request) (s : Allocation) :
    Prop where
  answered : ∃ asked, requests options topology = asked ++ rest ∧
    List.Forall₂ (fun r block => ∀ ports, r.pinned = some ports → block = ports) asked done ∧
    ∀ p, (exclusions.addAll (pinsOf asked)).has p = true → s.claimed.has p = true
  clear : ∀ p ∈ pinsOf rest, s.claimed.has p = false

theorem Untouched.start (hfit : PinsFit options topology exclusions) :
    Untouched options topology exclusions [] (requests options topology) ⟨exclusions, 0, []⟩ :=
  ⟨⟨[], rfl, .nil, by simp⟩, hfit.unexcluded⟩

/-- An automatic request leaves the pins still open alone. -/
theorem Untouched.disjoint (hreach : PinsOutOfReach options topology ranges exclusions)
    (hfree : PinsFree options topology ranges host) {done : List (List ℕ)} {r : Request}
    {rest : List Request} {s s' : Allocation} {block : List ℕ}
    (h : Untouched options topology exclusions done (r :: rest) s) (hp : r.pinned = none)
    (hs : Served host options ranges r s block s') : ∀ p ∈ block, p ∉ pinsOf rest := by
  obtain ⟨asked, hasked, _, hclaimed⟩ := h.answered
  have hr : r ∈ requests options topology := by simp [hasked]
  exact hreach asked r rest hasked hp block ((hs.taken hp).takeable hr hfree.draw hclaimed)

theorem Untouched.serve (hfit : PinsFit options topology exclusions)
    (hreach : PinsOutOfReach options topology ranges exclusions)
    (hfree : PinsFree options topology ranges host) {done : List (List ℕ)} {r : Request}
    {rest : List Request} {s : Allocation}
    (h : Untouched options topology exclusions done (r :: rest) s) :
    Ends (serve host options ranges r) s
      (fun b s' => Untouched options topology exclusions (done ++ [b]) rest s')
      (fun e => e.isExhaustion = true) := by
  obtain ⟨asked, hasked, hans, hclaimed⟩ := h.answered
  have hr : r ∈ requests options topology := by simp [hasked]
  refine (serve_ends r s).mono ?_ ?_
  · intro block s' hs
    have hdisj : ∀ p ∈ block, p ∉ pinsOf rest := by
      cases hp : r.pinned with
      | some ports =>
          rw [hs.pinned ports hp]
          have hnd := hfit.disjoint
          rw [hasked, pinsOf_append, pinsOf_cons, hp] at hnd
          exact fun p h₁ h₂ =>
            List.disjoint_of_nodup_append (List.nodup_append.mp hnd).2.1 h₁ h₂
      | none => exact h.disjoint hreach hfree hp hs
    refine ⟨⟨asked ++ [r], by simp [hasked], List.rel_append hans (.cons hs.pinned .nil), ?_⟩, ?_⟩
    · intro p hp
      rw [hs.claimed, Bool.or_eq_true, decide_eq_true_iff]
      simp only [PortSet.addAll_has, pinsOf_append, pinsOf_cons, pinsOf_nil, List.append_nil,
        Bool.or_eq_true, decide_eq_true_eq, List.mem_append] at hp hclaimed
      rcases hp with hp | hp | hp
      · exact .inl (hclaimed p (.inl hp))
      · exact .inl (hclaimed p (.inr hp))
      · cases hpin : r.pinned with
        | some ports =>
            rw [hpin] at hp
            exact .inr (by rw [hs.pinned ports hpin]; exact hp)
        | none => simp [hpin] at hp
    · intro p hp
      rw [hs.claimed, h.clear p (by simp [hp]), Bool.false_or, decide_eq_false_iff_not]
      exact fun hb => hdisj p hb hp
  · rintro e (⟨_, he⟩ | ⟨ports, hpin, hbad⟩)
    · exact he
    · exfalso
      have hmem : ∀ p ∈ ports, p ∈ pinsOf (requests options topology) := by
        intro p hp
        simp [hasked, hpin, hp]
      rcases hbad with rfl | ⟨p, hp, hu⟩
      · exact hfit.nonempty r hr hpin
      · have hv := hfit.valid p (hmem p hp)
        rcases hu with hu | hu | hu | hu | hu
        · omega
        · omega
        · rw [hfit.unreserved p (hmem p hp)] at hu
          exact Bool.false_ne_true hu
        · rw [h.clear p (by simp [hpin, hp])] at hu
          exact Bool.false_ne_true hu
        · exact hu (hfree.free p (hmem p hp))

/-- Then no pin is stolen. -/
theorem neverStolen_of_outOfReach (hfit : PinsFit options topology exclusions)
    (hreach : PinsOutOfReach options topology ranges exclusions)
    (hfree : PinsFree options topology ranges host) :
    NeverStolen options topology ranges exclusions host := by
  intro asked r rest hsplit hr
  have hstart := Untouched.start hfit
  rw [hsplit] at hstart
  rw [ends_bind]
  refine (serveAll_ends (fun _ _ _ _ h => h.serve hfit hreach hfree) hstart).mono ?_
    (fun _ _ => trivial)
  intro done s h
  exact (serve_ends r s).mono (fun _ _ hs => h.disjoint hreach hfree hr hs) (fun _ _ => trivial)

/-- And the resolve honours the pins, or an automatic pick finds no port. -/
theorem pinsHonoured_of_outOfReach (hfit : PinsFit options topology exclusions)
    (hreach : PinsOutOfReach options topology ranges exclusions)
    (hfree : PinsFree options topology ranges host) :
    Ends (resolveLocked host options ranges topology) ⟨exclusions, 0, []⟩
      (fun config _ => PinsHonoured options topology config) (fun e => e.isExhaustion = true) := by
  refine (resolveLocked_ends (fun _ _ _ _ h => h.serve hfit hreach hfree)
    (Untouched.start hfit)).mono ?_ (fun _ he => he)
  intro config s' hdone
  obtain ⟨asked, hasked, hans, _⟩ := hdone.answered
  rw [List.append_nil] at hasked
  unfold PinsHonoured
  rw [hasked]
  exact hans

end WireTools
