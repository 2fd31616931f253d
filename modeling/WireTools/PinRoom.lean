import Mathlib.Data.List.Perm.Subperm
import WireTools.PinSafety

/-! # Automatic picks that have room

On a host with enough free ports, and pins that no automatic request can reach, the resolve
returns.

* **Picks.** `pickPort_room`, `pickSolanaRpc_room` and `pickPortRange_room`: a picker returns when
  a port, a pair or a window is left for it.
* **Counting.** `exists_left` and `exists_window_left`: fewer ports taken than there were leave
  one, and fewer ports taken than there were windows leave a window.
* **Resolving.** `Reaches` is a state that the resolve reaches; `Reaches.next` answers one more
  request, `reaches_all` all of them, and `pinsSafe_of_outOfReach` is the result. -/

namespace WireTools

open Outcome

variable {host : Host} {claimed : PortSet} {ranges : List BindConfigPortRange} {s : Allocation}
  {E : PickError → Prop}

/-! ### Picks -/

theorem isSecondaryFree_passes {port : ℕ} (h : host.Passes port)
    (protocol : BindConfigPortProtocol) :
    Ends (isSecondaryFree host port protocol) s (fun free _ => free = true) E := by
  simp only [isSecondaryFree, ends_bind, ends_isIpv6PortFree, ends_ite, ends_pure,
    ends_isUdpPortFree]
  exact ⟨fun _ => ⟨fun _ => trivial, fun _ => (h _).2⟩, fun hno => absurd (h _).1 hno⟩

/-- While one of the requested ports is free and not excluded, get-port answers one of them. -/
theorem getPortAnswer_of_mem {now p : ℕ} {port : List ℕ} {exclude : PortSet} (h0 : p ≠ 0)
    (hp : p ∈ port) (hfree : host.Free p) (hx : exclude.has p = false) :
    getPortAnswer host now port exclude ∈ port ∧
      host.bindable now (getPortAnswer host now port exclude) = true := by
  unfold getPortAnswer
  cases h : port.find? fun p => p != 0 && !exclude.has p && host.bindable now p with
  | none =>
      have hno := List.find?_eq_none.mp h p hp
      simp [h0, hx, (hfree now).1] at hno
  | some q =>
      have hq := List.find?_some h
      simp only [Bool.and_eq_true] at hq
      exact ⟨List.mem_of_find?_eq_some h, hq.2⟩

/-- While an available port of the pool is free, an automatic pick returns a port that get-port
hands out. -/
theorem pickPort_room {preferred : Option ℕ} {daemon : String}
    {protocol : BindConfigPortProtocol} {p : ℕ} (hwhole : host.Whole)
    (hpool : ServicePortFirst ≤ p ∧ p ≤ MaximumPort) (havail : isAvailable claimed ranges p = true)
    (hfree : host.Free p) :
    Ends (pickPort host none preferred claimed daemon protocol ranges) s
      (fun q _ => isAvailable claimed ranges q = true ∧
        (preferred = some q ∨ ServicePortFirst ≤ q ∧ q ≤ MaximumPort) ∧
          (∃ now, host.bindable now q = true) ∧ (preferred = some p → q = p)) E := by
  have hattempts : List.range UdpPickAttempts = 0 :: (List.range 15).map Nat.succ := rfl
  have h0 : p ≠ 0 := by
    have h10001 : ServicePortFirst = 10001 := rfl
    omega
  have hx := (isAvailable_iff.mp havail).1
  simp only [pickPort, hattempts, List.findSomeM?, servicePortCandidates, if_true, ends_bind,
    ends_randomInt, ends_pure, ends_getPort, ends_assertOk, ends_ite]
  set offset := host.random s.clock % (servicePool preferred claimed ranges).length
  set head := preferred.toList.filter (isAvailable claimed ranges)
  set candidates := head ++ ((servicePool preferred claimed ranges).drop offset ++
    (servicePool preferred claimed ranges).take offset)
  set answer := getPortAnswer host s.probe.clock candidates claimed with hanswer
  have hmem : p ∈ candidates := (mem_servicePool_rotation offset).mpr ⟨havail, .inr hpool⟩
  obtain ⟨hac, hbind⟩ : answer ∈ candidates ∧ host.bindable s.probe.clock answer = true :=
    getPortAnswer_of_mem h0 hmem hfree hx
  obtain ⟨hav, hin⟩ := (mem_servicePool_rotation offset).mp hac
  obtain ⟨hax, har, haa⟩ := isAvailable_iff.mp hav
  have hpreferred : preferred = some p → answer = p := by
    intro hp
    have hhead : head = [p] := by simp [head, hp, havail]
    rw [hanswer]
    simp only [candidates, hhead]
    simp [getPortAnswer, h0, hx, (hfree s.probe.clock).1]
  refine ⟨fun _ => ⟨fun _ => ?_, fun hno => ?_⟩, fun hno => ?_⟩
  · refine (isSecondaryFree_passes (hwhole _ _ hbind) protocol).mono ?_ (fun _ h => h)
    rintro free s' rfl
    exact ⟨hav, hin, ⟨_, hbind⟩, hpreferred⟩
  · exact absurd (by simp [hax, har]) hno
  · rw [haa] at hno
    cases hno

theorem isCompanionFree_room {p : ℕ} (h : Paired host ranges claimed p) :
    Ends (isCompanionFree host none claimed ranges (p + SolanaWsPortOffset)) s
      (fun free _ => free = true) E := by
  obtain ⟨hmax, havail, hfree⟩ := h
  obtain ⟨hx, hres, hauto⟩ := isAvailable_iff.mp havail
  simp only [isCompanionFree, ends_ite, ends_bind, ends_getPort, ends_pure, ends_isIpv6PortFree]
  refine ⟨fun _ => ⟨fun _ => (hfree _).2.1, fun hno => ?_⟩, fun hno => ?_⟩
  · exact absurd (getPortAnswer_of_free (Nat.succ_ne_zero p) hfree hx) hno
  · exact absurd (by simp [hmax, hauto, hres, hx]) hno

/-- While an available port of the pool is free and there is room for a pair, the automatic RPC
pick returns. -/
theorem pickSolanaRpc_room {p : ℕ} (hwhole : host.Whole)
    (hpool : ServicePortFirst ≤ p ∧ p ≤ MaximumPort) (havail : isAvailable claimed ranges p = true)
    (hfree : host.Free p) (hpair : PairRoom host ranges claimed) :
    Ends (pickSolanaRpc host none (some DefaultSolanaRpc) claimed ranges) s (fun _ _ => True)
      E := by
  have hattempts : List.range SolanaRpcPickAttempts = 0 :: (List.range 15).map Nat.succ := rfl
  have hfirst : Ends (pickPort host none (some DefaultSolanaRpc) claimed "solana.http" .tcp ranges)
      s (fun q _ => Paired host ranges claimed q) E := by
    rcases hpair with ⟨havail, hfree, hpaired⟩ | hall
    · refine (pickPort_room hwhole (by decide) havail hfree).mono ?_ (fun _ h => h)
      rintro q s' ⟨_, _, _, hq⟩
      rw [hq rfl]
      exact hpaired
    · refine (pickPort_room hwhole hpool havail hfree).mono ?_ (fun _ h => h)
      rintro q s' ⟨hav, hin, ⟨now, hbind⟩, _⟩
      have hpool' : ServicePortFirst ≤ q ∧ q ≤ MaximumPort := by
        rcases hin with hq | hq
        · rw [← Option.some.inj hq]
          decide
        · exact hq
      exact hall q now hpool' hav hbind
  simp only [pickSolanaRpc, Option.isSome_none, Bool.false_eq_true, if_false, hattempts,
    List.findSomeM?, ends_bind, if_true, ends_pure]
  refine hfirst.mono ?_ (fun _ h => h)
  intro q s' hq
  refine (isCompanionFree_room hq).mono ?_ (fun _ h => h)
  rintro free s'' rfl
  simp

/-- While a candidate window is unclaimed and free, the automatic window pick returns. -/
theorem pickPortRange_room {start : ℕ} {daemon : String} (hstart : start ∈ windowStarts ranges)
    (hclear : ∀ p, start ≤ p → p ≤ start + SolanaDynamicPortRangeSize - 1 →
      claimed.has p = false ∧ host.Free p) :
    Ends (pickPortRange host none claimed daemon ranges) s (fun _ _ => True) E := by
  simp only [pickPortRange, ends_bind]
  have hall : ∀ (l : List ℕ) (t : Allocation), start ∈ l →
      Ends (l.findSomeM? fun i => do
        let free ← isRangeFree host i (i + SolanaDynamicPortRangeSize - 1) claimed
        return if free then some i else none) t (fun first _ => first ≠ none) E := by
    intro l
    induction l with
    | nil => exact fun t h => absurd h List.not_mem_nil
    | cons i l ih =>
        intro t hmem
        rw [List.findSomeM?]
        simp only [ends_bind]
        refine (isRangeFree_ends i _ claimed).mono ?_ (fun _ h => h)
        rintro free t' ⟨_, _, hno⟩
        cases free with
        | true => exact Option.some_ne_none i
        | false =>
            refine ih t' ((List.mem_cons.mp hmem).resolve_left ?_)
            rintro rfl
            obtain ⟨p, h₁, h₂, hx | hx | hx⟩ := hno rfl
            · rw [(hclear p h₁ h₂).1] at hx
              exact Bool.false_ne_true hx
            · have h12000 : DefaultSolanaDynamicPortFirst = 12000 := rfl
              have hge := (mem_windowStarts hstart).1
              omega
            · exact hx (hclear p h₁ h₂).2
  refine (hall _ s hstart).mono ?_ (fun _ h => h)
  intro first s' h
  cases first with
  | none => exact absurd rfl h
  | some first => trivial

/-! ### Counting -/

/-- Fewer ports taken than there were leave one. -/
theorem exists_left {ports taken : List ℕ} (hnodup : ports.Nodup)
    (hlt : taken.length < ports.length) : ∃ p ∈ ports, p ∉ taken := by
  by_contra hall
  push Not at hall
  exact absurd (hnodup.subperm hall).length_le (Nat.not_le.mpr hlt)

/-- The candidate window around a port. -/
def windowOf (p : ℕ) : ℕ :=
  DefaultSolanaDynamicPortFirst +
    SolanaDynamicPortRangeSize * ((p - DefaultSolanaDynamicPortFirst) / SolanaDynamicPortRangeSize)

theorem windowOf_eq {start p : ℕ} (hstart : start ∈ windowStarts ranges) (h₁ : start ≤ p)
    (h₂ : p ≤ start + SolanaDynamicPortRangeSize - 1) : windowOf p = start := by
  obtain ⟨i, _, rfl⟩ := List.mem_range'.mp (List.mem_filter.mp (List.mem_of_mem_take hstart)).1
  have hsize : SolanaDynamicPortRangeSize = 64 := rfl
  have hfirst : DefaultSolanaDynamicPortFirst = 12000 := rfl
  unfold windowOf
  rw [hsize, hfirst] at h₁ h₂ ⊢
  omega

/-- Fewer ports taken than there were windows leave a window. -/
theorem exists_window_left {starts taken : List ℕ} (hnodup : starts.Nodup)
    (hstarts : ∀ start ∈ starts, start ∈ windowStarts ranges)
    (hlt : taken.length < starts.length) : ∃ start ∈ starts, ∀ p, start ≤ p →
      p ≤ start + SolanaDynamicPortRangeSize - 1 → p ∉ taken := by
  have hlt' : (taken.map windowOf).length < starts.length := by rwa [List.length_map]
  obtain ⟨start, hmem, hno⟩ := exists_left hnodup hlt'
  refine ⟨start, hmem, fun p h₁ h₂ hp => hno ?_⟩
  exact List.mem_map.mpr ⟨p, hp, windowOf_eq (hstarts start hmem) h₁ h₂⟩

/-! ### Reaching a request -/

variable {options : BindOptions} {topology : ClusterTopologyOptions} {exclusions : PortSet}

/-- The resolve reaches `s` after answering `asked`, having claimed their pins and `extra`. -/
structure Reaches (options : BindOptions) (topology : ClusterTopologyOptions)
    (ranges : List BindConfigPortRange) (exclusions : PortSet) (host : Host)
    (asked rest : List Request) (extra : List ℕ) (s : Allocation) : Prop where
  split : requests options topology = asked ++ rest
  run : ∃ done, serveAll host options ranges asked ⟨exclusions, 0, []⟩ = .ok (done, s)
  claimed : ∀ p, s.claimed.has p = true ↔
    exclusions.has p = true ∨ p ∈ pinsOf asked ∨ p ∈ extra

theorem Reaches.start (options : BindOptions) (topology : ClusterTopologyOptions)
    (ranges : List BindConfigPortRange) (exclusions : PortSet) (host : Host) :
    Reaches options topology ranges exclusions host [] (requests options topology) []
      ⟨exclusions, 0, []⟩ :=
  ⟨rfl, ⟨[], rfl⟩, by simp⟩

variable {asked rest : List Request} {extra : List ℕ} {r : Request}

/-- One more request answered. -/
theorem Reaches.answer {s' : Allocation} {block : List ℕ} (extra' : List ℕ)
    (h : Reaches options topology ranges exclusions host asked (r :: rest) extra s)
    (hrun : serve host options ranges r s = .ok (block, s'))
    (hs : Served host options ranges r s block s')
    (hblock : ∀ p, p ∈ extra ∨ p ∈ block ↔ p ∈ r.pinned.getD [] ∨ p ∈ extra') :
    Reaches options topology ranges exclusions host (asked ++ [r]) rest extra' s' := by
  obtain ⟨done, hdone⟩ := h.run
  refine ⟨by simp [h.split], ⟨done ++ [block], ?_⟩, fun p => ?_⟩
  · rw [serveAll_append, serveAll_cons]
    rw [bind_of_ok hdone, bind_of_ok (bind_of_ok hrun)]
    rfl
  · have hb := hblock p
    rw [hs.claimed, Bool.or_eq_true, decide_eq_true_iff, h.claimed]
    simp only [pinsOf_append, pinsOf_cons, pinsOf_nil, List.append_nil, List.mem_append]
    tauto

/-- The pins still open are unclaimed. -/
theorem Reaches.clear (hfit : PinsFit options topology exclusions)
    (h : Reaches options topology ranges exclusions host asked rest extra s)
    (hextra : ∀ p ∈ extra, p ∉ pinsOf (requests options topology)) {p : ℕ}
    (hp : p ∈ pinsOf rest) : s.claimed.has p = false := by
  have hmem : p ∈ pinsOf (requests options topology) := by simp [h.split, hp]
  rw [← Bool.not_eq_true, h.claimed]
  rintro (hx | hx | hx)
  · rw [hfit.unexcluded p hmem] at hx
    exact Bool.false_ne_true hx
  · have hnd := hfit.disjoint
    rw [h.split, pinsOf_append] at hnd
    exact List.disjoint_of_nodup_append hnd hx hp
  · exact hextra p hx hmem

/-- A pinned request is answered with its pin on a host where the pins are free. -/
theorem Reaches.pinned (hfit : PinsFit options topology exclusions)
    (hfree : PinsFree options topology ranges host)
    (h : Reaches options topology ranges exclusions host asked (r :: rest) extra s)
    (hextra : ∀ p ∈ extra, p ∉ pinsOf (requests options topology)) (hr : r.pinned ≠ none) :
    ∃ s', Reaches options topology ranges exclusions host (asked ++ [r]) rest extra s' := by
  have hrmem : r ∈ requests options topology := by simp [h.split]
  have hends : Ends (serve host options ranges r) s
      (Served host options ranges r s) (fun _ => False) := by
    refine (serve_ends r s).mono (fun _ _ hs => hs) ?_
    rintro e (⟨hnone, _⟩ | ⟨ports, hpin, hbad⟩)
    · exact hr hnone
    · have hmem : ∀ p ∈ ports, p ∈ pinsOf (requests options topology) := by
        intro p hp
        simp [h.split, hpin, hp]
      rcases hbad with rfl | ⟨p, hp, hu⟩
      · exact hfit.nonempty r hrmem hpin
      · have hv := hfit.valid p (hmem p hp)
        rcases hu with hu | hu | hu | hu | hu
        · omega
        · omega
        · rw [hfit.unreserved p (hmem p hp)] at hu
          exact Bool.false_ne_true hu
        · rw [h.clear hfit hextra (by simp [hpin, hp])] at hu
          exact Bool.false_ne_true hu
        · exact hu (hfree.free p (hmem p hp))
  obtain ⟨block, s', hrun, hs⟩ := hends.returns
  cases hp : r.pinned with
  | none => exact absurd hp hr
  | some ports =>
      refine ⟨s', h.answer extra hrun hs fun p => ?_⟩
      rw [hs.pinned ports hp, hp]
      simp only [Option.getD_some]
      tauto

/-- A spare port that was not taken is available. -/
theorem Reaches.spare
    (h : Reaches options topology ranges exclusions host asked rest extra s) {p : ℕ}
    (hspare : Spare options topology ranges exclusions host p) (hextra : p ∉ extra) :
    isAvailable s.claimed ranges p = true := by
  obtain ⟨havail, hpins, _⟩ := hspare
  refine isAvailable_mono (fun hx => ?_) havail
  rcases (h.claimed p).mp hx with hx | hx | hx
  · exact hx
  · exact absurd (by simp [h.split, hx]) hpins
  · exact absurd hx hextra

theorem pinnedSolanaPorts_subset {p : ℕ} (hp : p ∈ pinnedSolanaPorts options) :
    p ∈ pinsOf (requests options topology) := by
  have hmem : Request.solanaHttp options.solanaHttp ∈ requests options topology := by
    simp [requests]
  refine List.mem_flatMap.mpr ⟨_, hmem, ?_⟩
  unfold pinnedSolanaPorts at hp
  cases hpin : options.solanaHttp with
  | none => simp [hpin] at hp
  | some pin => simpa [hpin, Request.pinned] using hp

theorem automaticSize_append (rs rs' : List Request) :
    automaticSize (rs ++ rs') = automaticSize rs + automaticSize rs' := by
  simp [automaticSize]

theorem automaticSize_cons {r : Request} (hr : r.pinned = none) (rs : List Request) :
    automaticSize (r :: rs) = r.size + automaticSize rs := by
  simp [automaticSize, hr]

/-- An automatic request takes as many ports as its size. -/
theorem Request.Takes.length {r : Request} {block : List ℕ}
    (h : r.Takes host options ranges claimed block) : block.length = r.size := by
  cases r with
  | port pin preferred daemon protocol =>
      obtain ⟨p, rfl, _⟩ := h
      rfl
  | solanaHttp pin =>
      obtain ⟨p, rfl, _⟩ := h
      rfl
  | solanaDynamicRange pin =>
      obtain ⟨first, _, rfl, _⟩ := h
      have hsize : SolanaDynamicPortRangeSize = 64 := rfl
      simp only [BindConfigPortRange.ports, List.length_range', Request.size]
      omega

/-- On a host with enough free ports, an automatic request that is reached is answered. -/
theorem Reaches.room (henough : EnoughPorts options topology ranges exclusions host)
    (h : Reaches options topology ranges exclusions host asked (r :: rest) extra s)
    (hr : r.pinned = none) (hlen : extra.length ≤ automaticSize asked) :
    Ends (serve host options ranges r) s (fun _ _ => True) (fun _ => False) := by
  have hleft : ∃ p, (ServicePortFirst ≤ p ∧ p ≤ MaximumPort) ∧
      isAvailable (s.claimed.addAll (pinnedSolanaPorts options)) ranges p = true ∧
        isAvailable s.claimed ranges p = true ∧ host.Free p := by
    obtain ⟨ports, hnodup, hmany, hports⟩ := henough.ports
    have hpos : 0 < r.size := by
      cases r with
      | port pin preferred daemon protocol => exact Nat.one_pos
      | solanaHttp pin => exact Nat.two_pos
      | solanaDynamicRange pin => exact Nat.succ_pos 63
    have hlt : extra.length < ports.length := by
      rw [h.split, automaticSize_append, automaticSize_cons hr] at hmany
      omega
    obtain ⟨p, hp, hno⟩ := exists_left hnodup hlt
    obtain ⟨hpool, hspare⟩ := hports p hp
    have havail := h.spare hspare hno
    refine ⟨p, hpool, isAvailable_iff.mpr ⟨?_, (isAvailable_iff.mp havail).2⟩, havail, hspare.2.2⟩
    rw [PortSet.addAll_has, (isAvailable_iff.mp havail).1, Bool.false_or, decide_eq_false_iff_not]
    exact fun hmem => hspare.2.1 (pinnedSolanaPorts_subset hmem)
  obtain ⟨p, hpool, havail, havail', hfree⟩ := hleft
  cases r with
  | port pin preferred daemon protocol =>
      obtain rfl : pin = none := by simpa [Request.pinned] using hr
      simp only [serve, claim, ends_bind, ends_get, ends_modify, ends_pure, Option.isNone_none,
        if_true]
      exact (pickPort_room henough.whole hpool havail hfree).mono (fun _ _ _ => trivial)
        (fun _ h => h)
  | solanaHttp pin =>
      obtain rfl : pin = none := by simpa [Request.pinned] using hr
      obtain ⟨done, hdone⟩ := h.run
      have hpair := (henough.pair asked rest h.split).of_ok hdone
      simp only [serve, claimSolanaHttp, ends_bind, ends_get, ends_modify, ends_pure]
      exact pickSolanaRpc_room henough.whole hpool havail' hfree hpair
  | solanaDynamicRange pin =>
      obtain rfl : pin = none := by simpa [Request.pinned] using hr
      obtain ⟨starts, hnodup, hmany, hstarts⟩ := henough.windows asked rest h.split
      obtain ⟨start, hmem, hno⟩ := exists_window_left hnodup (fun i hi => (hstarts i hi).1)
        (Nat.lt_of_le_of_lt hlen hmany)
      obtain ⟨hstart, hspare⟩ := hstarts start hmem
      simp only [serve, claimSolanaDynamicRange, ends_bind, ends_get, ends_modify, ends_pure]
      refine pickPortRange_room hstart fun p h₁ h₂ => ?_
      have hp := hspare p h₁ h₂
      exact ⟨(isAvailable_iff.mp (h.spare hp (hno p h₁ h₂))).1, hp.2.2⟩

/-- One more request is answered; what it takes is no pin. -/
theorem Reaches.next (hfit : PinsFit options topology exclusions)
    (hreach : PinsOutOfReach options topology ranges exclusions)
    (hfree : PinsFree options topology ranges host)
    (henough : EnoughPorts options topology ranges exclusions host)
    (h : Reaches options topology ranges exclusions host asked (r :: rest) extra s)
    (hextra : ∀ p ∈ extra, p ∉ pinsOf (requests options topology))
    (hlen : extra.length ≤ automaticSize asked) :
    ∃ extra' s', Reaches options topology ranges exclusions host (asked ++ [r]) rest extra' s' ∧
      (∀ p ∈ extra', p ∉ pinsOf (requests options topology)) ∧
        extra'.length ≤ automaticSize (asked ++ [r]) := by
  by_cases hr : r.pinned = none
  · have hends := ((serve_ends r s).and (h.room henough hr hlen)).mono (fun _ _ hq => hq.1)
      (fun _ he => he.2)
    obtain ⟨block, s', hrun, hs⟩ := hends.returns
    have htakes := hs.taken hr
    have hrmem : r ∈ requests options topology := by simp [h.split]
    have hclaimed : ∀ p, (exclusions.addAll (pinsOf asked)).has p = true →
        s.claimed.has p = true := by
      intro p hp
      rw [PortSet.addAll_has, Bool.or_eq_true, decide_eq_true_iff] at hp
      exact (h.claimed p).mpr (hp.imp_right .inl)
    have hnew : ∀ p ∈ block, p ∉ pinsOf (requests options topology) := by
      intro p hp hmem
      rw [h.split, pinsOf_append, pinsOf_cons, hr] at hmem
      rcases List.mem_append.mp hmem with hmem | hmem
      · have hx := (isAvailable_iff.mp (htakes.available p hp)).1
        rw [(h.claimed p).mpr (.inr (.inl hmem))] at hx
        exact Bool.false_ne_true hx.symm
      · exact hreach asked r rest h.split hr block
          (htakes.takeable hrmem hfree.draw hclaimed) p hp hmem
    refine ⟨extra ++ block, s', h.answer (extra ++ block) hrun hs fun p => ?_, ?_, ?_⟩
    · simp [hr]
    · intro p hp
      exact (List.mem_append.mp hp).elim (hextra p) (hnew p)
    · rw [List.length_append, htakes.length, automaticSize_append, automaticSize_cons hr]
      exact Nat.add_le_add hlen (Nat.le_add_right _ _)
  · obtain ⟨s', hs'⟩ := h.pinned hfit hfree hextra hr
    refine ⟨extra, s', hs', hextra, Nat.le_trans hlen ?_⟩
    rw [automaticSize_append]
    exact Nat.le_add_right _ _

/-- Every request is answered. -/
theorem reaches_all (hfit : PinsFit options topology exclusions)
    (hreach : PinsOutOfReach options topology ranges exclusions)
    (hfree : PinsFree options topology ranges host)
    (henough : EnoughPorts options topology ranges exclusions host) :
    ∀ (rest : List Request) {asked : List Request} {extra : List ℕ} {s : Allocation},
      Reaches options topology ranges exclusions host asked rest extra s →
      (∀ p ∈ extra, p ∉ pinsOf (requests options topology)) →
      extra.length ≤ automaticSize asked →
      ∃ extra' s', Reaches options topology ranges exclusions host (asked ++ rest) [] extra' s'
  | [], asked, extra, s, h, _, _ => ⟨extra, s, by simpa using h⟩
  | r :: rest, asked, extra, s, h, hextra, hlen => by
      obtain ⟨extra₁, s₁, h₁, hextra₁, hlen₁⟩ := h.next hfit hreach hfree henough hextra hlen
      obtain ⟨extra₂, s₂, h₂⟩ := reaches_all hfit hreach hfree henough rest h₁ hextra₁ hlen₁
      exact ⟨extra₂, s₂, by simpa using h₂⟩

/-- So the resolve returns. -/
theorem resolveLocked_room (hfit : PinsFit options topology exclusions)
    (hreach : PinsOutOfReach options topology ranges exclusions)
    (hfree : PinsFree options topology ranges host)
    (henough : EnoughPorts options topology ranges exclusions host) :
    Ends (resolveLocked host options ranges topology) ⟨exclusions, 0, []⟩ (fun _ _ => True)
      (fun _ => False) := by
  obtain ⟨extra, s, h⟩ := reaches_all hfit hreach hfree henough _
    (Reaches.start options topology ranges exclusions host) nofun (Nat.zero_le _)
  obtain ⟨done, hdone⟩ := h.run
  rw [List.nil_append] at hdone
  have hends : Ends (blocks <$> resolveLocked host options ranges topology) ⟨exclusions, 0, []⟩
      (fun _ _ => True) (fun _ => False) := by
    rw [blocks_resolveLocked]
    unfold Ends
    rw [hdone]
    trivial
  rwa [ends_map] at hends

/-- Pins that no earlier automatic request can reach are safe. -/
theorem pinsSafe_of_outOfReach (hfit : PinsFit options topology exclusions)
    (hreach : PinsOutOfReach options topology ranges exclusions) :
    PinsSafe options topology ranges exclusions where
  unstolen _ hfree := neverStolen_of_outOfReach hfit hreach hfree
  honoured _ hfree := pinsHonoured_of_outOfReach hfit hreach hfree
  succeeds _ hfree henough :=
    ((pinsHonoured_of_outOfReach hfit hreach hfree).and
      (resolveLocked_room hfit hreach hfree henough)).mono (fun _ _ hq => hq.1) (fun _ he => he.2)

/-- The binding of a resolve that has enough ports. -/
theorem PinsSafe.returns (h : PinsSafe options topology ranges exclusions)
    (hfree : PinsFree options topology ranges host)
    (henough : EnoughPorts options topology ranges exclusions host) :
    ∃ config s, resolveLocked host options ranges topology ⟨exclusions, 0, []⟩ =
      .ok (config, s) ∧ PinsHonoured options topology config :=
  (h.succeeds host hfree henough).returns

end WireTools
