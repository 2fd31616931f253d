import WireTools.PinRoom
import WireTools.ResolveSoundness

/-! # Automatic picks that take a later pin

Whenever an automatic request can reach a pin of a later request, some host on which the pins are
free lets it take one.

* **The host.** `adversary A drawn random`: exactly the ports of `A` can be bound.  The three
  pickers are run on it (`pickPort_adversary`, `pickSolanaRpc_adversary`,
  `pickPortRange_adversary`): they take ports of `A` only.
* **The thief.** The first automatic request reaches every pin that a later one does, except that
  an RPC pair or a window needs neighbouring ports; `port_takes_pin`, `solanaHttp_takes_pin`,
  `Reaches.window_takes_pin` and `takes_pin_after_solanaHttp` are the cases.
* `pinsSafe_iff`: with room for an RPC pair, the pins are safe exactly when they are out of reach.
  `bios_pin_stolen`: kiod's default takes the bios node's pin on a host with every port free. -/

namespace WireTools

open Outcome

/-! ### A host with few ports -/

/-- A host on which exactly the ports of `A` can be bound. -/
def adversary (A : List ℕ) (drawn : ℕ) (random : ℕ → ℕ) : Host where
  bindable _ p := A.contains p
  draw _ := drawn
  ipv6Free _ _ := true
  udpFree _ _ := true
  random := random

variable {A : List ℕ} {drawn : ℕ} {random : ℕ → ℕ} {claimed : PortSet}
  {ranges : List BindConfigPortRange} {s : Allocation} {E : PickError → Prop}

@[simp] theorem adversary_ipv6Free (now p : ℕ) :
    (adversary A drawn random).ipv6Free now p = true := rfl

@[simp] theorem adversary_udpFree (now p : ℕ) :
    (adversary A drawn random).udpFree now p = true := rfl

theorem adversary_free {p : ℕ} (hp : p ∈ A) : (adversary A drawn random).Free p := by
  intro now
  simp [adversary, hp]

/-- When a requested port can be had, the answer is a requested port that can be had. -/
theorem getPortAnswer_adversary {now q : ℕ} {port : List ℕ} {exclude : PortSet} (hq : q ∈ port)
    (h0 : q ≠ 0) (hA : q ∈ A) (hx : exclude.has q = false) :
    getPortAnswer (adversary A drawn random) now port exclude ∈ port ∧
      getPortAnswer (adversary A drawn random) now port exclude ∈ A := by
  unfold getPortAnswer
  cases h : port.find? fun p => p != 0 && !exclude.has p &&
      (adversary A drawn random).bindable now p with
  | none =>
      have hno := List.find?_eq_none.mp h q hq
      simp [adversary, h0, hA, hx] at hno
  | some p =>
      have hp := List.find?_some h
      simp only [adversary, List.contains_eq_mem, Bool.and_eq_true, decide_eq_true_eq] at hp
      exact ⟨List.mem_of_find?_eq_some h, hp.2⟩

/-- A port that can be had is answered unless a port before it is. -/
theorem getPortAnswer_append {now q : ℕ} {before after : List ℕ} {exclude : PortSet}
    (h0 : q ≠ 0) (hA : q ∈ A) (hx : exclude.has q = false) :
    getPortAnswer (adversary A drawn random) now (before ++ q :: after) exclude = q ∨
      getPortAnswer (adversary A drawn random) now (before ++ q :: after) exclude ∈ before := by
  unfold getPortAnswer
  rw [List.find?_append]
  cases h : before.find? fun p => p != 0 && !exclude.has p &&
      (adversary A drawn random).bindable now p with
  | none =>
      left
      simp [adversary, h0, hA, hx]
  | some p => exact .inr (List.mem_of_find?_eq_some h)

theorem isSecondaryFree_adversary (port : ℕ) (protocol : BindConfigPortProtocol) :
    Ends (isSecondaryFree (adversary A drawn random) port protocol) s
      (fun free s' => free = true ∧ s'.claimed = s.claimed ∧ s.clock ≤ s'.clock) E := by
  simp only [isSecondaryFree, adversary, ends_bind, ends_isIpv6PortFree, ends_ite, ends_pure,
    ends_isUdpPortFree]
  refine ⟨fun _ => ⟨fun _ => ⟨trivial, rfl, ?_⟩, fun _ => ⟨trivial, rfl, ?_⟩⟩, by simp⟩
  · simp [Allocation.probe]
  · simp only [Allocation.probe]
    omega

/-- While a pool port can be had, an automatic pick is answered with an available port that can be
had: the preferred port if it can be had, else the pool port that the random number points at. -/
theorem pickPort_adversary {preferred : Option ℕ} {daemon : String}
    {protocol : BindConfigPortProtocol} {q : ℕ} (hA : q ∈ A)
    (hpool : ServicePortFirst ≤ q ∧ q ≤ MaximumPort)
    (havail : isAvailable claimed ranges q = true) :
    Ends (pickPort (adversary A drawn random) none preferred claimed daemon protocol ranges) s
      (fun p s' => p ∈ A ∧ isAvailable claimed ranges p = true ∧ s'.claimed = s.claimed ∧
        s.clock < s'.clock ∧ (preferred = some q → p = q) ∧ (q ∈ servicePool preferred claimed ranges →
          random s.clock = (servicePool preferred claimed ranges).idxOf q →
          p = q ∨ preferred = some p)) E := by
  have hattempts : List.range UdpPickAttempts = 0 :: (List.range 15).map Nat.succ := rfl
  have h0 : q ≠ 0 := by
    have h10001 : ServicePortFirst = 10001 := rfl
    omega
  obtain ⟨hx, hrest⟩ := isAvailable_iff.mp havail
  simp only [pickPort, hattempts, List.findSomeM?, servicePortCandidates, if_true, ends_bind,
    ends_randomInt, ends_pure, ends_getPort, ends_assertOk, ends_ite]
  set pool := servicePool preferred claimed ranges with hpooldef
  set offset := random s.clock % pool.length with hoffset
  have hoff : (adversary A drawn random).random s.clock % pool.length = offset := rfl
  rw [hoff]
  set head := preferred.toList.filter (isAvailable claimed ranges)
  set candidates := head ++ (pool.drop offset ++ pool.take offset)
  set answer := getPortAnswer (adversary A drawn random) s.probe.clock candidates claimed
    with hanswer
  have hmem : ∀ p ∈ candidates, isAvailable claimed ranges p = true :=
    fun p hp => ((mem_servicePool_rotation offset).mp hp).1
  have hqc : q ∈ candidates := (mem_servicePool_rotation offset).mpr ⟨havail, .inr hpool⟩
  obtain ⟨hac, haA⟩ : answer ∈ candidates ∧ answer ∈ A := getPortAnswer_adversary hqc h0 hA hx
  obtain ⟨hax, har, haa⟩ := isAvailable_iff.mp (hmem answer hac)
  have htarget : q ∈ pool → random s.clock = pool.idxOf q → answer = q ∨ preferred = some answer := by
    intro hqpool hrandom
    have hlt : pool.idxOf q < pool.length := List.idxOf_lt_length_of_mem hqpool
    have hdrop : pool.drop offset = q :: pool.drop (offset + 1) := by
      rw [hoffset, hrandom, Nat.mod_eq_of_lt hlt, List.drop_eq_getElem_cons hlt,
        List.getElem_idxOf hlt]
    have hcand : candidates = head ++ q :: (pool.drop (offset + 1) ++ pool.take offset) := by
      simp only [candidates, hdrop, List.cons_append]
    rw [hanswer, hcand]
    rcases getPortAnswer_append h0 hA hx with h | h
    · exact .inl h
    · exact .inr (by simpa using (List.mem_filter.mp h).1)
  have hpreferred : preferred = some q → answer = q := by
    intro hq
    have hhead : head = [q] := by simp [head, hq, havail]
    rw [hanswer]
    simp only [candidates, hhead]
    simp [getPortAnswer, adversary, h0, hA, hx]
  refine ⟨fun _ => ⟨fun _ => ?_, fun hno => ?_⟩, fun hno => ?_⟩
  · refine (isSecondaryFree_adversary answer protocol).mono ?_ (fun _ h => h)
    rintro free s' ⟨rfl, hclaimed, hclock⟩
    refine ⟨haA, hmem answer hac, by simpa using hclaimed, ?_, hpreferred, htarget⟩
    simp only [Allocation.record, Allocation.probe] at hclock
    omega
  · exact absurd (by simp [hax, har]) hno
  · exact absurd hno (by simp [haa])

/-- An automatic companion passes exactly when it is available and can be had. -/
theorem isCompanionFree_adversary {ws : ℕ} (h0 : ws ≠ 0)
    (hdrawn : isAutomaticPort drawn ranges = true) :
    Ends (isCompanionFree (adversary A drawn random) none claimed ranges ws) s
      (fun free s' => s.clock ≤ s'.clock ∧ (free = true ↔ ws ≤ MaximumPort ∧
        isAvailable claimed ranges ws = true ∧ ws ∈ A)) E := by
  simp only [isCompanionFree, ends_ite, ends_bind, ends_getPort, ends_pure, ends_isIpv6PortFree]
  have hguard : (decide (ws ≤ MaximumPort) && (Option.isSome (none : Option ℕ) ||
      !isAutomaticPort ws ranges) && !isReservedPort ws && !claimed.has ws) = true ↔
      ws ≤ MaximumPort ∧ isAvailable claimed ranges ws = true := by
    rw [isAvailable_iff]
    simp only [Option.isSome_none, Bool.false_or, Bool.and_eq_true, decide_eq_true_eq,
      Bool.not_eq_true']
    tauto
  rw [hguard]
  refine ⟨fun hok => ?_, fun hno => ⟨Nat.le_refl _, by simp; tauto⟩⟩
  have hx := (isAvailable_iff.mp hok.2).1
  have hanswer : getPortAnswer (adversary A drawn random) s.clock [ws] claimed = ws ↔
      ws ∈ A := by
    constructor
    · intro h
      by_contra hA
      have hdraw : getPortAnswer (adversary A drawn random) s.clock [ws] claimed = drawn := by
        simp [getPortAnswer, adversary, hA]
      rw [h] at hdraw
      rw [← hdraw, (isAvailable_iff.mp hok.2).2.2] at hdrawn
      exact Bool.false_ne_true hdrawn
    · exact fun hA => getPortAnswer_of_free h0 (adversary_free hA) hx
  rw [hanswer]
  refine ⟨fun hA => ⟨?_, by simp [adversary, hok, hA]⟩, fun hA => ⟨?_, by simp [hA]⟩⟩
  · simp only [Allocation.probe, Allocation.record]
    omega
  · simp [Allocation.record]

/-- With an available pair that can be had and random numbers that point at it, the RPC pick is
answered with it, or else with a pair on the default that can be had. -/
theorem pickSolanaRpc_adversary {p : ℕ} (hp : p ∈ A) (hp' : p + SolanaWsPortOffset ∈ A)
    (hfirst : ServicePortFirst ≤ p) (hmax : p + SolanaWsPortOffset ≤ MaximumPort)
    (havail : isAvailable claimed ranges p = true)
    (havail' : isAvailable claimed ranges (p + SolanaWsPortOffset) = true)
    (hdrawn : isAutomaticPort drawn ranges = true)
    (hrandom : random s.clock =
      (servicePool (some DefaultSolanaRpc) claimed ranges).idxOf p)
    (hrandom' : ∀ now, now ≠ s.clock → random now = (servicePool none claimed ranges).idxOf p) :
    Ends (pickSolanaRpc (adversary A drawn random) none (some DefaultSolanaRpc) claimed ranges) s
      (fun h _ => h ∈ A ∧ h + SolanaWsPortOffset ∈ A ∧ isAvailable claimed ranges h = true ∧
        isAvailable claimed ranges (h + SolanaWsPortOffset) = true ∧
        (h = p ∨ h = DefaultSolanaRpc)) E := by
  have hattempts : List.range SolanaRpcPickAttempts = 0 :: 1 :: (List.range' 2 14) := rfl
  have hpool : ServicePortFirst ≤ p ∧ p ≤ MaximumPort := ⟨hfirst, by omega⟩
  have hws : ∀ h : ℕ, h + SolanaWsPortOffset ≠ 0 := fun h => Nat.succ_ne_zero h
  simp only [pickSolanaRpc, Option.isSome_none, Bool.false_eq_true, if_false, hattempts,
    List.findSomeM?, ends_bind, if_true, Nat.one_ne_zero, ends_pure]
  refine (pickPort_adversary hp hpool havail).mono ?_ (fun _ h => h)
  rintro h₁ s₁ ⟨hA₁, hav₁, _, hclock₁, hpreferred₁, htarget₁⟩
  refine (isCompanionFree_adversary (hws h₁) hdrawn).mono ?_ (fun _ h => h)
  rintro free₁ s₂ ⟨hclock₂, hfree₁⟩
  cases free₁ with
  | true =>
      obtain ⟨_, hws₁, hwsA₁⟩ := hfree₁.mp rfl
      simp only [ends_assertOk]
      refine ⟨fun _ => ⟨hA₁, hwsA₁, hav₁, hws₁, ?_⟩, by simp⟩
      by_cases hdef : p = DefaultSolanaRpc
      · exact .inl (hpreferred₁ (by rw [hdef]))
      · have hmem : p ∈ servicePool (some DefaultSolanaRpc) claimed ranges :=
          mem_servicePool.mpr ⟨hpool, by simpa using hdef, havail⟩
        rcases htarget₁ hmem hrandom with h | h
        · exact .inl h
        · exact .inr (Option.some.inj h).symm
  | false =>
      simp only [ends_assertOk, Bool.false_eq_true, if_false, ends_bind]
      refine ⟨fun _ => ?_, by simp⟩
      refine (pickPort_adversary hp hpool havail).mono ?_ (fun _ h => h)
      rintro h₂ s₃ ⟨_, _, _, _, _, htarget₂⟩
      have hmem : p ∈ servicePool none claimed ranges :=
        mem_servicePool.mpr ⟨hpool, by simp, havail⟩
      have hnow : random s₂.clock = (servicePool none claimed ranges).idxOf p :=
        hrandom' _ (by omega)
      obtain rfl : h₂ = p := by simpa using htarget₂ hmem hnow
      refine (isCompanionFree_adversary (hws h₂) hdrawn).mono ?_ (fun _ h => h)
      rintro free₂ s₄ ⟨_, hfree₂⟩
      obtain rfl := hfree₂.mpr ⟨hmax, havail', hp'⟩
      exact ⟨fun _ => ⟨hp, hp', havail, havail', .inl rfl⟩, by simp⟩

theorem isRangeFree_adversary {first last : ℕ} {exclusions : PortSet} (h0 : 0 < first)
    (hdrawn : ∀ p, first ≤ p → p ≤ last → drawn ≠ p) :
    Ends (isRangeFree (adversary A drawn random) first last exclusions) s
      (fun free _ => free = true ↔ ∀ p, first ≤ p → p ≤ last → exclusions.has p = false ∧ p ∈ A)
      E := by
  simp only [isRangeFree, ends_ite, ends_pure]
  refine ⟨fun hany => ?_, fun hany => ?_⟩
  · obtain ⟨p, hp, hx⟩ := List.any_eq_true.mp hany
    have hp' := BindConfigPortRange.mem_ports.mp hp
    refine ⟨fun h => absurd h Bool.false_ne_true, fun h => ?_⟩
    rw [(h p hp'.1 hp'.2).1] at hx
    exact hx
  · have hclear : ∀ p, first ≤ p → p ≤ last → exclusions.has p = false := by
      intro p h₁ h₂
      by_contra hx
      exact hany (List.any_eq_true.mpr
        ⟨p, BindConfigPortRange.mem_ports.mpr ⟨h₁, h₂⟩, by simpa using hx⟩)
    refine ends_allM (I := fun l _ => (∀ p ∈ l, first ≤ p ∧ p ≤ last) ∧
      ∀ p, first ≤ p → p ≤ last → p ∈ l ∨ p ∈ A) ?_ ?_ _ s
      ⟨fun p hp => BindConfigPortRange.mem_ports.mp hp,
        fun p h₁ h₂ => .inl (BindConfigPortRange.mem_ports.mpr ⟨h₁, h₂⟩)⟩
    · rintro p l t ⟨hl, hA⟩
      obtain ⟨h₁, h₂⟩ := hl p (by simp)
      have hanswer : getPortAnswer (adversary A drawn random) t.clock [p] .empty = p ↔ p ∈ A := by
        constructor
        · intro h
          by_contra hno
          have hdraw : getPortAnswer (adversary A drawn random) t.clock [p] .empty = drawn := by
            simp [getPortAnswer, adversary, hno]
          exact hdrawn p h₁ h₂ (hdraw.symm.trans h)
        · exact fun h => getPortAnswer_of_free (by omega) (adversary_free h) rfl
      simp only [ends_bind, ends_getPort, ends_ite, ends_isIpv6PortFree, ends_isUdpPortFree,
        ends_pure, hanswer, adversary_ipv6Free, adversary_udpFree, not_true_eq_false, false_imp_iff, and_true, true_imp_iff]
      refine ⟨fun hp => ⟨fun q hq => hl q (by simp [hq]), fun q hq₁ hq₂ => ?_⟩, fun hp => ?_⟩
      · rcases hA q hq₁ hq₂ with hq | hq
        · rcases List.mem_cons.mp hq with rfl | hq
          · exact .inr hp
          · exact .inl hq
        · exact .inr hq
      · exact ⟨fun h => absurd h Bool.false_ne_true, fun h => absurd (h p h₁ h₂).2 hp⟩
    · rintro t ⟨_, hA⟩
      exact ⟨fun _ p h₁ h₂ => ⟨hclear p h₁ h₂, by simpa using hA p h₁ h₂⟩, fun _ => rfl⟩

/-- While a candidate window can be had, the window pick is answered with a candidate window that
can be had. -/
theorem pickPortRange_adversary {start : ℕ} {exclusions : PortSet} {daemon : String}
    (hstart : start ∈ windowStarts ranges)
    (hfree : ∀ p, start ≤ p → p ≤ start + SolanaDynamicPortRangeSize - 1 →
      exclusions.has p = false ∧ p ∈ A)
    (hdrawn : isAutomaticPort drawn ranges = true) :
    Ends (pickPortRange (adversary A drawn random) none exclusions daemon ranges) s
      (fun r _ => r.last = r.first + SolanaDynamicPortRangeSize - 1 ∧
        ∀ p ∈ r.ports, exclusions.has p = false ∧ p ∈ A) E := by
  simp only [pickPortRange, ends_bind]
  have hall : ∀ (l : List ℕ) (t : Allocation), (∀ i ∈ l, i ∈ windowStarts ranges) → start ∈ l →
      Ends (l.findSomeM? fun i => do
        let free ← isRangeFree (adversary A drawn random) i (i + SolanaDynamicPortRangeSize - 1)
          exclusions
        return if free then some i else none) t
        (fun first _ => ∃ i, first = some i ∧ ∀ p, i ≤ p →
          p ≤ i + SolanaDynamicPortRangeSize - 1 → exclusions.has p = false ∧ p ∈ A) E := by
    intro l
    induction l with
    | nil => exact fun t _ h => absurd h List.not_mem_nil
    | cons i l ih =>
        intro t hl hmem
        have hi := mem_windowStarts (hl i (by simp))
        have hpos : 0 < i := by
          have h12000 : DefaultSolanaDynamicPortFirst = 12000 := rfl
          omega
        rw [List.findSomeM?]
        simp only [ends_bind]
        refine (isRangeFree_adversary hpos fun p h₁ h₂ h => ?_).mono ?_ (fun _ h => h)
        · rw [h, (hi.2.2 p h₁ h₂).2] at hdrawn
          exact Bool.false_ne_true hdrawn
        · intro free t' hfree'
          cases free with
          | true => exact ⟨i, rfl, hfree'.mp rfl⟩
          | false =>
              refine ih t' (fun j hj => hl j (by simp [hj])) ?_
              rcases List.mem_cons.mp hmem with rfl | hmem
              · exact absurd (hfree'.mpr hfree) Bool.false_ne_true
              · exact hmem
  refine (hall _ s (fun _ h => h) hstart).mono ?_ (fun _ h => h)
  rintro first s' ⟨i, rfl, hi⟩
  refine ⟨rfl, fun p hp => ?_⟩
  have hp' := BindConfigPortRange.mem_ports.mp hp
  exact hi p hp'.1 hp'.2

/-! ### Reaching a request -/

variable {options : BindOptions} {topology : ClusterTopologyOptions} {exclusions : PortSet}
  {host : Host}

variable {asked rest : List Request} {extra : List ℕ} {r : Request}

/-- An automatic request that is reached takes no pin, if none is ever stolen. -/
theorem Reaches.unstolen
    (h : Reaches options topology ranges exclusions host asked (r :: rest) extra s)
    (hr : r.pinned = none) (hsafe : NeverStolen options topology ranges exclusions host) :
    Ends (serve host options ranges r) s (fun block _ => ∀ p ∈ block, p ∉ pinsOf rest)
      (fun _ => True) := by
  obtain ⟨done, hdone⟩ := h.run
  have hends := hsafe asked r rest h.split hr
  rw [ends_bind] at hends
  exact hends.of_ok hdone

/-- So it is no thief. -/
theorem Reaches.no_thief
    (h : Reaches options topology ranges exclusions host asked (r :: rest) extra s)
    (hr : r.pinned = none) (hsafe : NeverStolen options topology ranges exclusions host)
    (hsteal : Ends (serve host options ranges r) s (fun block _ => ∃ p ∈ block, p ∈ pinsOf rest)
      (fun _ => False)) : False := by
  have hboth := ((h.unstolen hr hsafe).and hsteal).mono (fun _ _ hq => hq) (fun _ he => he.2)
  obtain ⟨block, s', _, hyes, p, hp, hrest⟩ := hboth.returns
  exact hyes p hp hrest

/-- So are pinned requests in a row. -/
theorem Reaches.pinned_all (hfit : PinsFit options topology exclusions)
    (hfree : PinsFree options topology ranges host)
    (hextra : ∀ p ∈ extra, p ∉ pinsOf (requests options topology)) :
    ∀ (rs : List Request) {asked : List Request} {s : Allocation},
      Reaches options topology ranges exclusions host asked (rs ++ rest) extra s →
      (∀ r ∈ rs, r.pinned ≠ none) →
      ∃ s', Reaches options topology ranges exclusions host (asked ++ rs) rest extra s'
  | [], asked, s, h, _ => ⟨s, by simpa using h⟩
  | r :: rs, asked, s, h, hpin => by
      obtain ⟨s₁, h₁⟩ := Reaches.pinned hfit hfree (by simpa using h) hextra
        (hpin r (by simp))
      obtain ⟨s₂, h₂⟩ := Reaches.pinned_all hfit hfree hextra rs h₁
        fun r' hr' => hpin r' (by simp [hr'])
      exact ⟨s₂, by simpa using h₂⟩

/-! ### Thieves -/

/-- A pin that is still unclaimed is still open. -/
theorem Reaches.open_pin
    (h : Reaches options topology ranges exclusions host asked (r :: rest) extra s)
    (hr : r.pinned = none) {p : ℕ} (hp : p ∈ pinsOf (requests options topology))
    (hx : s.claimed.has p = false) : p ∈ pinsOf rest := by
  simp only [h.split, pinsOf_append, pinsOf_cons, hr, Option.getD_none, List.nil_append,
    List.mem_append] at hp
  rcases hp with hp | hp
  · rw [(h.claimed p).mpr (.inr (.inl hp))] at hx
    exact absurd hx.symm Bool.false_ne_true
  · exact hp

theorem pinned_none_of_port {pin preferred : Option ℕ} {daemon : String}
    {protocol : BindConfigPortProtocol}
    (h : (Request.port pin preferred daemon protocol).pinned = none) : pin = none := by
  simpa [Request.pinned] using h

/-- On a host where nothing but pins can be had, an automatic single pick takes a pin. -/
theorem Reaches.port_thief {pin preferred : Option ℕ} {daemon : String}
    {protocol : BindConfigPortProtocol} {q : ℕ}
    (hfit : PinsFit options topology exclusions)
    (h : Reaches options topology ranges exclusions (adversary A drawn random) asked
      (.port pin preferred daemon protocol :: rest) extra s)
    (hr : (Request.port pin preferred daemon protocol).pinned = none)
    (hsafe : NeverStolen options topology ranges exclusions (adversary A drawn random))
    (hextra : ∀ p ∈ extra, p ∉ pinsOf (requests options topology))
    (hA : ∀ p ∈ A, p ∈ pinsOf (requests options topology) ∨ p ∈ extra)
    (hqA : q ∈ A) (hq : q ∈ pinsOf rest) (hpool : ServicePortFirst ≤ q ∧ q ≤ MaximumPort)
    (hauto : isAutomaticPort q ranges = false) (hsol : q ∉ pinnedSolanaPorts options) : False := by
  refine h.no_thief hr hsafe ?_
  obtain rfl := pinned_none_of_port hr
  have hmem : q ∈ pinsOf (requests options topology) := by simp [h.split, hq]
  have havail : isAvailable (s.claimed.addAll (pinnedSolanaPorts options)) ranges q = true := by
    refine isAvailable_iff.mpr ⟨?_, hfit.unreserved q hmem, hauto⟩
    simp [h.clear hfit hextra (p := q) (by simp [hq]), hsol]
  simp only [serve, claim, ends_bind, ends_get, ends_modify, ends_pure, Option.isNone_none,
    if_true]
  refine (pickPort_adversary hqA hpool havail).mono ?_ (fun _ h => h)
  rintro p s' ⟨hpA, hpav, _⟩
  have hpx := (isAvailable_iff.mp hpav).1
  rw [PortSet.addAll_has, Bool.or_eq_false_iff] at hpx
  refine ⟨p, by simp, h.open_pin hr ?_ hpx.1⟩
  rcases hA p hpA with hpin | hpe
  · exact hpin
  · rw [(h.claimed p).mpr (.inr (.inr hpe))] at hpx
    exact absurd hpx.1.symm Bool.false_ne_true

/-- The random numbers that point an automatic RPC pick at `p`, when it starts at `now`. -/
def pointAt (claimed : PortSet) (ranges : List BindConfigPortRange) (p now : ℕ) : ℕ → ℕ :=
  fun n => (servicePool (if n = now then some DefaultSolanaRpc else none) claimed ranges).idxOf p

/-- An automatic RPC request that nothing but the pins and one pair is left for takes that pair,
unless it takes a pin. -/
theorem Reaches.solanaHttp_answer {p : ℕ}
    (h : Reaches options topology ranges exclusions
      (adversary A drawn (pointAt s.claimed ranges p s.clock)) asked
      (.solanaHttp none :: rest) [] s)
    (hp : p ∈ A) (hp' : p + SolanaWsPortOffset ∈ A) (hfirst : ServicePortFirst ≤ p)
    (hmax : p + SolanaWsPortOffset ≤ MaximumPort)
    (havail : isAvailable s.claimed ranges p = true)
    (havail' : isAvailable s.claimed ranges (p + SolanaWsPortOffset) = true)
    (hdrawn : isAutomaticPort drawn ranges = true)
    (hA : ∀ x ∈ A, x ∈ pinsOf (requests options topology) ∨ x = p ∨
      x = p + SolanaWsPortOffset ∨ (DefaultSolanaDynamicPortFirst ≤ x ∧
        p + SolanaWsPortOffset + 1 < DefaultSolanaDynamicPortFirst)) :
    Ends (serve (adversary A drawn (pointAt s.claimed ranges p s.clock)) options ranges
        (.solanaHttp none)) s
      (fun block _ => block = [p, p + SolanaWsPortOffset] ∨ ∃ x ∈ block, x ∈ pinsOf rest)
      (fun _ => False) := by
  have hrandom : pointAt s.claimed ranges p s.clock s.clock =
      (servicePool (some DefaultSolanaRpc) s.claimed ranges).idxOf p := by simp [pointAt]
  have hrandom' : ∀ now, now ≠ s.clock → pointAt s.claimed ranges p s.clock now =
      (servicePool none s.claimed ranges).idxOf p := fun now hne => by simp [pointAt, hne]
  simp only [serve, claimSolanaHttp, ends_bind, ends_get, ends_modify, ends_pure]
  refine (pickSolanaRpc_adversary hp hp' hfirst hmax havail havail' hdrawn hrandom hrandom').mono
    ?_ (fun _ h => h)
  rintro x s' ⟨hxA, hxA', hxav, hxav', rfl | hx⟩
  · exact .inl rfl
  · have hopen : ∀ y, y ∈ pinsOf (requests options topology) →
        isAvailable s.claimed ranges y = true → y ∈ pinsOf rest := fun y hy hav =>
      h.open_pin rfl hy (isAvailable_iff.mp hav).1
    have hdefault : x = 10899 := hx
    have hone : SolanaWsPortOffset = 1 := rfl
    have h12000 : DefaultSolanaDynamicPortFirst = 12000 := rfl
    rcases hA x hxA with hpin | rfl | hx' | hx'
    · exact .inr ⟨x, by simp, hopen x hpin hxav⟩
    · exact .inl rfl
    · rcases hA _ hxA' with hpin | hx'' | hx'' | hx''
      · exact .inr ⟨x + SolanaWsPortOffset, by simp, hopen _ hpin hxav'⟩
      · omega
      · omega
      · omega
    · omega

/-- On a host where nothing but pins and one candidate window with a pin can be had, an automatic
window takes a pin. -/
theorem Reaches.window_thief {start q : ℕ}
    (h : Reaches options topology ranges exclusions (adversary A drawn random) asked
      (.solanaDynamicRange none :: rest) extra s)
    (hsafe : NeverStolen options topology ranges exclusions (adversary A drawn random))
    (hstart : start ∈ windowStarts ranges)
    (hA : ∀ p ∈ A, p ∈ pinsOf (requests options topology) ∨ p ∈ extra ∨
      start ≤ p ∧ p ≤ start + SolanaDynamicPortRangeSize - 1)
    (hwindow : ∀ p, start ≤ p → p ≤ start + SolanaDynamicPortRangeSize - 1 →
      s.claimed.has p = false ∧ p ∈ A)
    (hdrawn : isAutomaticPort drawn ranges = true) (hq : q ∈ pinsOf rest)
    (hqs : start ≤ q ∧ q ≤ start + SolanaDynamicPortRangeSize - 1) : False := by
  refine h.no_thief rfl hsafe ?_
  simp only [serve, claimSolanaDynamicRange, ends_bind, ends_get, ends_modify, ends_pure]
  refine (pickPortRange_adversary hstart hwindow hdrawn).mono ?_ (fun _ h => h)
  rintro ⟨first, last⟩ s' ⟨hlast, hports⟩
  have hlast' : last = first + SolanaDynamicPortRangeSize - 1 := hlast
  by_contra hno
  push Not at hno
  have hinside : ∀ p, first ≤ p → p ≤ last →
      start ≤ p ∧ p ≤ start + SolanaDynamicPortRangeSize - 1 := by
    intro p h₁ h₂
    have hp := hports p (BindConfigPortRange.mem_ports.mpr ⟨h₁, h₂⟩)
    rcases hA p hp.2 with hpin | hpe | hpw
    · exact absurd (h.open_pin rfl hpin hp.1)
        (hno p (BindConfigPortRange.mem_ports.mpr ⟨h₁, h₂⟩))
    · rw [(h.claimed p).mpr (.inr (.inr hpe))] at hp
      exact absurd hp.1.symm Bool.false_ne_true
    · exact hpw
  have hsize : SolanaDynamicPortRangeSize = 64 := rfl
  have hlow := hinside first (by omega) (by omega)
  have hhigh := hinside last (by omega) (by omega)
  exact hno q (BindConfigPortRange.mem_ports.mpr ⟨by simp only; omega, by simp only; omega⟩) hq

/-! ### The order of the requests -/

/-- The requests before the RPC pair. -/
def frontRequests (options : BindOptions) (topology : ClusterTopologyOptions) : List Request :=
  [Request.port options.kiodPort (some DefaultKiod) "kiod" .tcp,
   .port (options.bios.bind (·.http)) (some DefaultBiosHttp) "nodeop.bios.http" .tcp,
   .port (options.bios.bind (·.p2p)) (some DefaultBiosP2p) "nodeop.bios.p2p" .tcp] ++
  (nodeRequests options.producers "producer" (List.range topology.producers) ++
  (nodeRequests options.batch "batch" (List.range topology.batch) ++
  (nodeRequests options.underwriters "underwriter" (List.range topology.underwriters) ++
  (nodeRequests options.api "api" (List.range topology.api) ++
  (nodeRequests options.adHoc "adHoc" (List.range topology.adHoc) ++
  [Request.port options.anvilPort (some DefaultAnvil) "anvil" .tcp])))))

/-- A request for one port. -/
def Request.isPort : Request → Bool
  | .port .. => true
  | _ => false

/-- The requests for the two ports between the RPC pair and the window. -/
def middleRequests (options : BindOptions) : List Request :=
  [.port options.solanaFaucet (some DefaultSolanaFaucet) "solana.faucet" .tcp,
   .port options.solanaGossip (some DefaultSolanaGossip) "solana.gossip" .udp]

/-- The request after the window. -/
def lastRequest (options : BindOptions) : Request :=
  .port options.debuggingServerPort (some DefaultDebuggingServer) "debuggingServer" .tcp

theorem requests_eq (options : BindOptions) (topology : ClusterTopologyOptions) :
    requests options topology = frontRequests options topology ++
      .solanaHttp options.solanaHttp :: (middleRequests options ++
        .solanaDynamicRange options.solanaDynamicRange :: [lastRequest options]) := by
  simp [requests, frontRequests, middleRequests, lastRequest]

theorem isPort_of_mem_front {options : BindOptions} {topology : ClusterTopologyOptions}
    {r : Request} (h : r ∈ frontRequests options topology) : r.isPort = true := by
  have hnode : ∀ bases name indices, r ∈ nodeRequests bases name indices → r.isPort = true := by
    intro bases name indices hr
    simp only [nodeRequests, pairRequests, List.mem_flatMap, List.mem_cons, List.not_mem_nil,
      or_false] at hr
    obtain ⟨i, _, rfl | rfl⟩ := hr <;> rfl
  simp only [frontRequests, List.mem_append, List.mem_cons, List.not_mem_nil, or_false] at h
  rcases h with (rfl | rfl | rfl) | h | h | h | h | h | rfl
  all_goals first | rfl | exact hnode _ _ _ h

theorem isPort_of_mem_middle {options : BindOptions} {r : Request}
    (h : r ∈ middleRequests options) : r.isPort = true := by
  simp only [middleRequests, List.mem_cons, List.not_mem_nil, or_false] at h
  rcases h with rfl | rfl <;> rfl

/-- The RPC pair stands in one place. -/
theorem split_solanaHttp {options : BindOptions} {topology : ClusterTopologyOptions}
    {asked rest : List Request} {pin : Option ℕ}
    (h : requests options topology = asked ++ .solanaHttp pin :: rest) :
    asked = frontRequests options topology ∧ pin = options.solanaHttp ∧
      rest = middleRequests options ++
        .solanaDynamicRange options.solanaDynamicRange :: [lastRequest options] := by
  rw [requests_eq] at h
  have hfront : ∀ r ∈ frontRequests options topology, ¬ ∃ pin, r = Request.solanaHttp pin := by
    rintro r hr ⟨pin, rfl⟩
    exact Bool.false_ne_true (isPort_of_mem_front hr)
  have hafter : ∀ r ∈ middleRequests options ++
      .solanaDynamicRange options.solanaDynamicRange :: [lastRequest options],
      ¬ ∃ pin, r = Request.solanaHttp pin := by
    rintro r hr ⟨pin, rfl⟩
    rcases List.mem_append.mp hr with hr | hr
    · exact Bool.false_ne_true (isPort_of_mem_middle hr)
    · simp [lastRequest] at hr
  obtain ⟨h₁, h₂, h₃⟩ := append_cons_unique h ⟨pin, rfl⟩ hfront hafter
  exact ⟨h₁, Request.solanaHttp.inj h₂, h₃⟩

/-- The window stands in one place. -/
theorem split_solanaDynamicRange {options : BindOptions} {topology : ClusterTopologyOptions}
    {asked rest : List Request} {pin : Option BindConfigPortRange}
    (h : requests options topology = asked ++ .solanaDynamicRange pin :: rest) :
    asked = frontRequests options topology ++
      .solanaHttp options.solanaHttp :: middleRequests options ∧
      rest = [lastRequest options] := by
  rw [requests_eq, ← List.cons_append, ← List.append_assoc] at h
  have hbefore : ∀ r ∈ frontRequests options topology ++
      .solanaHttp options.solanaHttp :: middleRequests options,
      ¬ ∃ pin, r = Request.solanaDynamicRange pin := by
    rintro r hr ⟨pin, rfl⟩
    rcases List.mem_append.mp hr with hr | hr
    · exact Bool.false_ne_true (isPort_of_mem_front hr)
    · rcases List.mem_cons.mp hr with hr | hr
      · exact absurd hr (by simp)
      · exact Bool.false_ne_true (isPort_of_mem_middle hr)
  have hafter : ∀ r ∈ [lastRequest options], ¬ ∃ pin, r = Request.solanaDynamicRange pin := by
    rintro r hr ⟨pin, rfl⟩
    simp [lastRequest] at hr
  obtain ⟨h₁, _, h₃⟩ := append_cons_unique h ⟨pin, rfl⟩ hbefore hafter
  exact ⟨h₁, h₃⟩

/-! ### Every pin in reach is stolen -/

/-- Enough other free ports: below the candidate windows, two neighbouring ports that are
available and not pinned. -/
def HasRoom (options : BindOptions) (topology : ClusterTopologyOptions)
    (ranges : List BindConfigPortRange) (exclusions : PortSet) : Prop :=
  ∃ p, ServicePortFirst ≤ p ∧ p + SolanaWsPortOffset + 1 < DefaultSolanaDynamicPortFirst ∧
    ∀ q ∈ [p, p + SolanaWsPortOffset],
      isAvailable exclusions ranges q = true ∧ q ∉ pinsOf (requests options topology)

/-- What can be taken is in the service pool. -/
theorem Takeable.pool {block : List ℕ} (h : Takeable options ranges claimed r block) :
    ∀ q ∈ block, (ServicePortFirst ≤ q ∧ q ≤ MaximumPort) ∧
      isAvailable claimed ranges q = true := by
  intro q hq
  cases r with
  | port pin preferred daemon protocol =>
      obtain ⟨p, rfl, hpool, _, havail⟩ := h
      rw [List.mem_singleton.mp hq]
      exact ⟨hpool, havail⟩
  | solanaHttp pin =>
      obtain ⟨p, rfl, hfirst, hmax, havail⟩ := h
      have hone : SolanaWsPortOffset = 1 := rfl
      refine ⟨?_, havail q hq⟩
      simp only [List.mem_cons, List.not_mem_nil, or_false] at hq
      rcases hq with rfl | rfl <;> omega
  | solanaDynamicRange pin =>
      obtain ⟨first, hstart, rfl, havail⟩ := h
      obtain ⟨h₁, h₂, _⟩ := mem_windowStarts hstart
      have hq' := BindConfigPortRange.mem_ports.mp hq
      have h12000 : DefaultSolanaDynamicPortFirst = 12000 := rfl
      have h10001 : ServicePortFirst = 10001 := rfl
      simp only at hq'
      exact ⟨by omega, havail q hq⟩

/-- A later pin in reach is not one of the pinned RPC ports. -/
theorem Takeable.not_solana {block : List ℕ} {q : ℕ}
    (hsplit : requests options topology = asked ++ r :: rest) (hr : r.pinned = none)
    (h : Takeable options ranges (exclusions.addAll (pinsOf asked)) r block) (hq : q ∈ block) :
    q ∉ pinnedSolanaPorts options := by
  cases r with
  | port pin preferred daemon protocol =>
      obtain ⟨p, rfl, _, hsol, _⟩ := h
      rwa [List.mem_singleton.mp hq]
  | solanaHttp pin =>
      obtain ⟨_, hpin, _⟩ := split_solanaHttp hsplit
      have hnone : pin = none := by simpa [Request.pinned] using hr
      rw [hnone] at hpin
      simp [pinnedSolanaPorts, ← hpin]
  | solanaDynamicRange pin =>
      obtain ⟨rfl, _⟩ := split_solanaDynamicRange hsplit
      have hx := (isAvailable_iff.mp (h.pool q hq).2).1
      intro hsol
      cases hpin : options.solanaHttp with
      | none => simp [pinnedSolanaPorts, hpin] at hsol
      | some pin' =>
          have hmem : q ∈ pinsOf (frontRequests options topology ++
              .solanaHttp options.solanaHttp :: middleRequests options) := by
            simp only [pinnedSolanaPorts, hpin] at hsol
            simp only [pinsOf_append, pinsOf_cons, Request.pinned, hpin, Option.map_some,
              Option.getD_some, List.mem_append]
            exact .inr (.inl hsol)
          rw [PortSet.addAll_has, Bool.or_eq_false_iff] at hx
          exact absurd hmem (by simpa using hx.2)

/-- A pinned pick does not look at the random numbers. -/
theorem pickPort_pin_random (random random' : ℕ → ℕ) (pin : ℕ) (preferred : Option ℕ) (daemon : String)
    (protocol : BindConfigPortProtocol) :
    pickPort (adversary A drawn random) (some pin) preferred claimed daemon protocol ranges =
      pickPort (adversary A drawn random') (some pin) preferred claimed daemon protocol ranges := by
  simp only [pickPort, getPort, getPortAnswer, isSecondaryFree, isIpv6PortFree, isUdpPortFree,
    adversary]

theorem serveAll_random (random random' : ℕ → ℕ) :
    ∀ rs : List Request, (∀ r ∈ rs, r.isPort = true ∧ r.pinned ≠ none) →
      serveAll (adversary A drawn random) options ranges rs =
        serveAll (adversary A drawn random') options ranges rs
  | [], _ => by simp only [serveAll, List.mapM_nil]
  | r :: rs, h => by
      have hr : serve (adversary A drawn random) options ranges r =
          serve (adversary A drawn random') options ranges r := by
        obtain ⟨hport, hpin⟩ := h r (by simp)
        cases r with
        | port pin preferred daemon protocol =>
            cases pin with
            | none => exact absurd rfl hpin
            | some pin => simp only [serve, claim, pickPort_pin_random random random']
        | solanaHttp pin => exact absurd hport Bool.false_ne_true
        | solanaDynamicRange pin => exact absurd hport Bool.false_ne_true
      rw [serveAll_cons, serveAll_cons, hr, serveAll_random random random' rs fun r' hr' => h r' (by simp [hr'])]

theorem Reaches.any_random (random' : ℕ → ℕ)
    (h : Reaches options topology ranges exclusions (adversary A drawn random) asked rest extra s)
    (hpin : ∀ r ∈ asked, r.isPort = true ∧ r.pinned ≠ none) :
    Reaches options topology ranges exclusions (adversary A drawn random') asked rest extra s :=
  ⟨h.split, by rw [← serveAll_random random random' asked hpin]; exact h.run, h.claimed⟩

theorem adversary_pinsFree (random : ℕ → ℕ)
    (hA : ∀ p ∈ pinsOf (requests options topology), p ∈ A)
    (hdrawn : isAutomaticPort drawn ranges = true) :
    PinsFree options topology ranges (adversary A drawn random) :=
  ⟨fun p hp => adversary_free (hA p hp), fun _ => hdrawn⟩

/-- The pinned requests at the front are answered. -/
theorem reaches_pinned (random : ℕ → ℕ) (hfit : PinsFit options topology exclusions)
    (hA : ∀ p ∈ pinsOf (requests options topology), p ∈ A)
    (hdrawn : isAutomaticPort drawn ranges = true)
    (hsplit : requests options topology = asked ++ rest) (hpin : ∀ r ∈ asked, r.pinned ≠ none) :
    ∃ s, Reaches options topology ranges exclusions (adversary A drawn random) asked rest [] s := by
  have hstart := Reaches.start options topology ranges exclusions (adversary A drawn random)
  rw [hsplit] at hstart
  exact Reaches.pinned_all hfit (adversary_pinsFree random hA hdrawn) (by simp) asked hstart hpin

/-- A port that is available and no pin stays available after the pins. -/
theorem Reaches.available
    (h : Reaches options topology ranges exclusions host asked rest extra s) {p : ℕ}
    (havail : isAvailable (exclusions.addAll (pinsOf asked)) ranges p = true)
    (hextra : p ∉ extra) : isAvailable s.claimed ranges p = true := by
  refine isAvailable_mono (fun hx => ?_) havail
  rcases (h.claimed p).mp hx with hx | hx | hx
  · simp [hx]
  · simp [hx]
  · exact absurd hx hextra

/-- An automatic RPC request before which everything is pinned takes the pair with room. -/
theorem reaches_after_solanaHttp {p : ℕ} {between : List Request}
    (hfit : PinsFit options topology exclusions)
    (hsafe : PinsSafe options topology ranges exclusions)
    (hdrawn : isAutomaticPort drawn ranges = true)
    (hsplit : requests options topology = asked ++ .solanaHttp none :: (between ++ rest))
    (hasked : ∀ r ∈ asked, r.pinned ≠ none) (hbetween : ∀ r ∈ between, r.pinned ≠ none)
    (hfirst : ServicePortFirst ≤ p)
    (hroom : p + SolanaWsPortOffset + 1 < DefaultSolanaDynamicPortFirst)
    (hpair : ∀ q ∈ [p, p + SolanaWsPortOffset],
      isAvailable exclusions ranges q = true ∧ q ∉ pinsOf (requests options topology))
    (hpins : ∀ q ∈ pinsOf (requests options topology), q ∈ A)
    (hpA : ∀ q ∈ [p, p + SolanaWsPortOffset], q ∈ A)
    (hA : ∀ x ∈ A, x ∈ pinsOf (requests options topology) ∨ x ∈ [p, p + SolanaWsPortOffset] ∨
      DefaultSolanaDynamicPortFirst ≤ x) :
    ∃ random s, Reaches options topology ranges exclusions (adversary A drawn random)
      (asked ++ [.solanaHttp none] ++ between) rest [p, p + SolanaWsPortOffset] s := by
  obtain ⟨s, hs⟩ := reaches_pinned (fun _ => 0) hfit hpins hdrawn hsplit hasked
  have hports : ∀ r ∈ asked, r.isPort = true ∧ r.pinned ≠ none := by
    obtain ⟨hfront, _⟩ := split_solanaHttp hsplit
    exact fun r hr => ⟨isPort_of_mem_front (hfront ▸ hr), hasked r hr⟩
  have hs' := hs.any_random (pointAt s.claimed ranges p s.clock) hports
  have hav : ∀ q ∈ [p, p + SolanaWsPortOffset], isAvailable s.claimed ranges q = true := by
    intro q hq
    obtain ⟨havail, hno⟩ := hpair q hq
    refine hs'.available (isAvailable_mono (fun hx => ?_) havail) (by simp)
    rw [PortSet.addAll_has, Bool.or_eq_true, decide_eq_true_iff] at hx
    rcases hx with hx | hx
    · exact hx
    · exact absurd (by simp [hsplit, hx]) hno
  have hmax : p + SolanaWsPortOffset ≤ MaximumPort := by
    have h12000 : DefaultSolanaDynamicPortFirst = 12000 := rfl
    have h65535 : MaximumPort = 65535 := rfl
    omega
  have hA' : ∀ x ∈ A, x ∈ pinsOf (requests options topology) ∨ x = p ∨
      x = p + SolanaWsPortOffset ∨ (DefaultSolanaDynamicPortFirst ≤ x ∧
        p + SolanaWsPortOffset + 1 < DefaultSolanaDynamicPortFirst) := by
    intro x hx
    rcases hA x hx with h | h | h
    · exact .inl h
    · simp only [List.mem_cons, List.not_mem_nil, or_false] at h
      exact .inr (h.imp id .inl)
    · exact .inr (.inr (.inr ⟨h, hroom⟩))
  have hanswer := hs'.solanaHttp_answer (hpA p (by simp)) (hpA _ (by simp)) hfirst hmax
    (hav p (by simp)) (hav _ (by simp)) hdrawn hA'
  have hfree := adversary_pinsFree (pointAt s.claimed ranges p s.clock) hpins hdrawn
  have hunstolen := hs'.unstolen rfl (hsafe.unstolen _ hfree)
  have hall := (((serve_ends (.solanaHttp none) s).and hunstolen).and hanswer).mono
    (fun _ _ hq => hq) (fun _ he => he.2)
  obtain ⟨block, s₁, hrun, ⟨hserved, hno⟩, hyes⟩ := hall.returns
  have hblock : block = [p, p + SolanaWsPortOffset] := by
    rcases hyes with h | ⟨x, hx, hxrest⟩
    · exact h
    · exact absurd hxrest (hno x hx)
  have hs₁ := hs'.answer [p, p + SolanaWsPortOffset] hrun hserved
    (by simp [hblock, Request.pinned])
  obtain ⟨s₂, hs₂⟩ := Reaches.pinned_all hfit hfree (fun q hq => (hpair q hq).2) between hs₁ hbetween
  exact ⟨_, s₂, hs₂⟩

/-- An automatic single request before which everything is pinned reaches every later pin of the
pool that is not automatic. -/
theorem port_takes_pin {q : ℕ} (hfit : PinsFit options topology exclusions)
    (hsafe : PinsSafe options topology ranges exclusions)
    (hdrawn : isAutomaticPort drawn ranges = true) (hport : r.isPort = true)
    (hr : r.pinned = none) (hsplit : requests options topology = asked ++ r :: rest)
    (hasked : ∀ r ∈ asked, r.pinned ≠ none) (hq : q ∈ pinsOf rest)
    (hpool : ServicePortFirst ≤ q ∧ q ≤ MaximumPort)
    (hauto : isAutomaticPort q ranges = false) (hsol : q ∉ pinnedSolanaPorts options) : False := by
  cases r with
  | port pin preferred daemon protocol =>
      obtain ⟨s, hs⟩ := reaches_pinned (fun _ => 0) hfit (fun _ hp => hp) hdrawn hsplit hasked
      exact hs.port_thief hfit hr (hsafe.unstolen _ (adversary_pinsFree _ (fun _ hp => hp) hdrawn))
        (by simp) (fun p hp => .inl hp) (by simp [hsplit, hq]) hq hpool hauto hsol
  | solanaHttp pin => exact Bool.false_ne_true hport
  | solanaDynamicRange pin => exact Bool.false_ne_true hport

/-- An automatic RPC request before which everything is pinned reaches every later pin of a pair
it may take. -/
theorem solanaHttp_takes_pin {block : List ℕ} {q : ℕ} (hfit : PinsFit options topology exclusions)
    (hsafe : PinsSafe options topology ranges exclusions)
    (hdrawn : isAutomaticPort drawn ranges = true)
    (hsplit : requests options topology = asked ++ .solanaHttp none :: rest)
    (hasked : ∀ r ∈ asked, r.pinned ≠ none)
    (htake : Takeable options ranges (exclusions.addAll (pinsOf asked)) (.solanaHttp none) block)
    (hq : q ∈ block) (hqrest : q ∈ pinsOf rest) : False := by
  obtain ⟨p, rfl, hfirst, hmax, havail⟩ := htake
  have hpins : ∀ x ∈ pinsOf (requests options topology),
      x ∈ pinsOf (requests options topology) ++ [p, p + SolanaWsPortOffset] :=
    fun _ hx => List.mem_append_left _ hx
  obtain ⟨s, hs⟩ := reaches_pinned (fun _ => 0) hfit hpins hdrawn hsplit hasked
  have hports : ∀ r ∈ asked, r.isPort = true ∧ r.pinned ≠ none := by
    obtain ⟨hfront, _⟩ := split_solanaHttp hsplit
    exact fun r hr => ⟨isPort_of_mem_front (hfront ▸ hr), hasked r hr⟩
  have hs' := hs.any_random (pointAt s.claimed ranges p s.clock) hports
  have hA : ∀ x ∈ pinsOf (requests options topology) ++ [p, p + SolanaWsPortOffset],
      x ∈ pinsOf (requests options topology) ∨ x = p ∨ x = p + SolanaWsPortOffset ∨
        (DefaultSolanaDynamicPortFirst ≤ x ∧
          p + SolanaWsPortOffset + 1 < DefaultSolanaDynamicPortFirst) := by
    intro x hx
    simp only [List.mem_append, List.mem_cons, List.not_mem_nil, or_false] at hx
    tauto
  have hanswer := hs'.solanaHttp_answer (by simp) (by simp) hfirst hmax
    (hs'.available (havail p (by simp)) (by simp)) (hs'.available (havail _ (by simp)) (by simp))
    hdrawn hA
  have hfree := adversary_pinsFree (pointAt s.claimed ranges p s.clock) hpins hdrawn
  refine hs'.no_thief rfl (hsafe.unstolen _ hfree) (hanswer.mono ?_ fun _ he => he)
  rintro block s' (rfl | hx)
  · exact ⟨q, hq, hqrest⟩
  · exact hx

/-- An automatic window reaches every later pin of a candidate window, wherever it is reached from
with that window unclaimed. -/
theorem Reaches.window_takes_pin {block : List ℕ} {q : ℕ}
    (hsafe : NeverStolen options topology ranges exclusions (adversary A drawn random))
    (hdrawn : isAutomaticPort drawn ranges = true)
    (h : Reaches options topology ranges exclusions (adversary A drawn random) asked
      (.solanaDynamicRange none :: rest) extra s)
    (htake : Takeable options ranges (exclusions.addAll (pinsOf asked)) (.solanaDynamicRange none)
      block)
    (hextra : ∀ p ∈ extra, p ∉ block) (hblock : ∀ p ∈ block, p ∈ A)
    (hA : ∀ p ∈ A, p ∈ pinsOf (requests options topology) ∨ p ∈ extra ∨ p ∈ block)
    (hq : q ∈ block) (hqrest : q ∈ pinsOf rest) : False := by
  obtain ⟨start, hstart, rfl, havail⟩ := htake
  simp only [BindConfigPortRange.mem_ports] at hextra hblock hA hq havail
  refine h.window_thief hsafe hstart hA (fun p h₁ h₂ => ⟨?_, hblock p ⟨h₁, h₂⟩⟩) hdrawn hqrest hq
  exact (isAvailable_iff.mp (h.available (havail p ⟨h₁, h₂⟩)
    fun hp => hextra p hp ⟨h₁, h₂⟩)).1

/-- After an automatic RPC request that has room elsewhere, a later automatic request, or one
before it, reaches every pin that the later request may take. -/
theorem takes_pin_after_solanaHttp {before between : List Request} {block : List ℕ} {q : ℕ}
    (hfit : PinsFit options topology exclusions)
    (hsafe : PinsSafe options topology ranges exclusions)
    (hdrawn : isAutomaticPort drawn ranges = true)
    (hroom : HasRoom options topology ranges exclusions)
    (hsplit : requests options topology =
      before ++ .solanaHttp none :: (between ++ r :: rest))
    (hbefore : ∀ r ∈ before, r.pinned ≠ none) (hr : r.pinned = none)
    (htake : Takeable options ranges
      (exclusions.addAll (pinsOf (before ++ .solanaHttp none :: between))) r block)
    (hq : q ∈ block) (hqrest : q ∈ pinsOf rest) : False := by
  obtain ⟨p, hp₁, hp₂, hpair⟩ := hroom
  obtain ⟨hpool, havail⟩ := htake.pool q hq
  have hsplit' : requests options topology =
      (before ++ .solanaHttp none :: between) ++ r :: rest := by simp [hsplit]
  have hsol := htake.not_solana hsplit' hr hq
  obtain ⟨b₁, first, b₂, hcut, hb₁, hfirst⟩ := exists_first
    (P := fun r : Request => r.pinned = none) (l := between ++ [r]) ⟨r, by simp, hr⟩
  have hsplit₁ : requests options topology =
      before ++ .solanaHttp none :: (b₁ ++ (first :: (b₂ ++ rest))) := by
    have hone : between ++ r :: rest = (between ++ [r]) ++ rest := by simp
    rw [hsplit, hone, hcut, List.append_assoc, List.cons_append]
  have hsplit₂ : requests options topology =
      (before ++ .solanaHttp none :: b₁) ++ first :: (b₂ ++ rest) := by simp [hsplit₁]
  have hextra : ∀ x ∈ [p, p + SolanaWsPortOffset], x ∉ pinsOf (requests options topology) :=
    fun x hx => (hpair x hx).2
  have hreach := fun (A : List ℕ) hpins hpA hA => reaches_after_solanaHttp (A := A) hfit hsafe
    hdrawn hsplit₁ hbefore hb₁ hp₁ hp₂ hpair hpins hpA hA
  cases first with
  | port pin preferred daemon protocol =>
      have hpins : ∀ x ∈ pinsOf (requests options topology),
          x ∈ pinsOf (requests options topology) ++ [p, p + SolanaWsPortOffset] :=
        fun _ hx => List.mem_append_left _ hx
      obtain ⟨random, s, hs⟩ := hreach _ hpins (fun _ hx => List.mem_append_right _ hx)
        (fun x hx => (List.mem_append.mp hx).imp id .inl)
      refine hs.port_thief (q := q) hfit hfirst
        (hsafe.unstolen _ (adversary_pinsFree random hpins hdrawn)) hextra
        (fun x hx => List.mem_append.mp hx) (hpins q ?_) ?_ hpool (isAvailable_iff.mp havail).2.2
        hsol
      · simp [hsplit, hqrest]
      · simp [hqrest]
  | solanaHttp pin =>
      obtain ⟨hfront, _⟩ := split_solanaHttp hsplit₂
      have hmem : Request.solanaHttp none ∈ frontRequests options topology := by simp [← hfront]
      exact Bool.false_ne_true (isPort_of_mem_front hmem)
  | solanaDynamicRange pin =>
      obtain rfl : pin = none := by simpa [Request.pinned] using hfirst
      obtain ⟨_, hlast⟩ := split_solanaDynamicRange hsplit₂
      obtain rfl : b₂ = [] := by
        cases b₂ with
        | nil => rfl
        | cons x b₂ =>
            obtain ⟨_, hnil⟩ := List.cons.inj hlast
            rw [(List.append_eq_nil_iff.mp hnil).2] at hqrest
            exact absurd hqrest List.not_mem_nil
      obtain ⟨rfl, hone⟩ := List.append_inj' hcut rfl
      obtain rfl : r = .solanaDynamicRange none := List.singleton_inj.mp hone
      have hlow : ∀ x ∈ block, DefaultSolanaDynamicPortFirst ≤ x := by
        obtain ⟨start, hstart, rfl, _⟩ := htake
        intro x hx
        exact Nat.le_trans (mem_windowStarts hstart).1 (BindConfigPortRange.mem_ports.mp hx).1
      have hpins : ∀ x ∈ pinsOf (requests options topology), x ∈
          pinsOf (requests options topology) ++ ([p, p + SolanaWsPortOffset] ++ block) :=
        fun _ hx => List.mem_append_left _ hx
      obtain ⟨random, s, hs⟩ := hreach _ hpins
        (fun _ hx => List.mem_append_right _ (List.mem_append_left _ hx))
        (fun x hx => (List.mem_append.mp hx).imp id fun hx =>
          (List.mem_append.mp hx).imp id (hlow x))
      rw [List.append_assoc, List.singleton_append] at hs
      refine hs.window_takes_pin (hsafe.unstolen _ (adversary_pinsFree random hpins hdrawn))
        hdrawn htake ?_ (fun _ hx => List.mem_append_right _ (List.mem_append_right _ hx))
        (fun x hx => (List.mem_append.mp hx).imp id List.mem_append.mp) hq (by simpa using hqrest)
      intro x hx hxb
      have hone' : SolanaWsPortOffset = 1 := rfl
      have hge := hlow x hxb
      simp only [List.mem_cons, List.not_mem_nil, or_false] at hx
      omega

/-- With enough other free ports, the pins are safe exactly when no earlier automatic request can
reach them. -/
theorem pinsSafe_iff (hfit : PinsFit options topology exclusions)
    (hranges : ∃ p, isAutomaticPort p ranges = true)
    (hroom : HasRoom options topology ranges exclusions) :
    PinsSafe options topology ranges exclusions ↔
      PinsOutOfReach options topology ranges exclusions := by
  refine ⟨fun hsafe asked r rest hsplit hr block htake q hq hqrest => ?_,
    pinsSafe_of_outOfReach hfit⟩
  obtain ⟨drawn, hdrawn⟩ := hranges
  obtain ⟨hpool, havail⟩ := htake.pool q hq
  have hauto := (isAvailable_iff.mp havail).2.2
  have hsol := htake.not_solana hsplit hr hq
  obtain ⟨before, first, after, hcut, hbefore, hfirst⟩ :=
    exists_first (P := fun r : Request => r.pinned = none) (l := asked ++ [r]) ⟨r, by simp, hr⟩
  have hsplit₁ : requests options topology = before ++ first :: (after ++ rest) := by
    have hone : asked ++ r :: rest = (asked ++ [r]) ++ rest := by simp
    rw [hsplit, hone, hcut, List.append_assoc, List.cons_append]
  have hlater : q ∈ pinsOf (after ++ rest) := by simp [hqrest]
  cases first with
  | port pin preferred daemon protocol =>
      exact port_takes_pin hfit hsafe hdrawn rfl hfirst hsplit₁ hbefore hlater hpool hauto hsol
  | solanaHttp pin =>
      obtain rfl : pin = none := by simpa [Request.pinned] using hfirst
      rcases List.eq_nil_or_concat after with rfl | ⟨between, last, rfl⟩
      · obtain ⟨rfl, hlast⟩ := List.append_inj' hcut rfl
        obtain rfl : r = .solanaHttp none := List.singleton_inj.mp hlast
        exact solanaHttp_takes_pin hfit hsafe hdrawn hsplit hbefore htake hq hqrest
      · rw [List.concat_eq_append, ← List.cons_append, ← List.append_assoc] at hcut
        obtain ⟨rfl, hlast⟩ := List.append_inj' hcut rfl
        obtain rfl : r = last := List.singleton_inj.mp hlast
        exact takes_pin_after_solanaHttp hfit hsafe hdrawn hroom (by simpa using hsplit) hbefore hr
          htake hq hqrest
  | solanaDynamicRange pin =>
      obtain rfl : pin = none := by simpa [Request.pinned] using hfirst
      obtain ⟨_, hlast⟩ := split_solanaDynamicRange hsplit₁
      obtain rfl : after = [] := by
        cases after with
        | nil => rfl
        | cons x after =>
            obtain ⟨_, hnil⟩ := List.cons.inj hlast
            rw [(List.append_eq_nil_iff.mp hnil).2] at hqrest
            exact absurd hqrest List.not_mem_nil
      obtain ⟨rfl, hone⟩ := List.append_inj' hcut rfl
      obtain rfl : r = .solanaDynamicRange none := List.singleton_inj.mp hone
      have hpins : ∀ x ∈ pinsOf (requests options topology),
          x ∈ pinsOf (requests options topology) ++ block := fun _ hx => List.mem_append_left _ hx
      obtain ⟨s, hs⟩ := reaches_pinned (fun _ => 0) hfit hpins hdrawn hsplit hbefore
      exact hs.window_takes_pin (hsafe.unstolen _ (adversary_pinsFree _ hpins hdrawn)) hdrawn htake
        (by simp) (fun _ hx => List.mem_append_right _ hx)
        (fun x hx => (List.mem_append.mp hx).imp id .inr) hq hqrest

/-! ### A stolen pin -/

/-- The caller pins the bios node's http port to kiod's default. -/
def biosPin : BindOptions where
  nodeop := some { ports := some { bios := some { http := some 10890 } } }

theorem biosPin_fit : PinsFit biosPin biosOnly .empty := by
  have hpins : pinsOf (requests biosPin biosOnly) = [10890] := by decide
  refine ⟨by decide, ?_, ?_, ?_, ?_⟩ <;> rw [hpins] <;> decide

theorem biosPin_room : HasRoom biosPin biosOnly [LinuxAutomaticPorts] .empty :=
  ⟨11100, by decide, by decide, by decide⟩

/-- The caller pins it to a port outside the pool. -/
def lowPin : BindOptions where
  nodeop := some { ports := some { bios := some { http := some 7000 } } }

theorem lowPin_pins : pinsOf (requests lowPin biosOnly) = [7000] := by
  decide

theorem lowPin_fit : PinsFit lowPin biosOnly .empty := by
  refine ⟨by decide, ?_, ?_, ?_, ?_⟩ <;> rw [lowPin_pins] <;> decide

theorem lowPin_outOfReach : PinsOutOfReach lowPin biosOnly [LinuxAutomaticPorts] .empty := by
  intro asked r rest hsplit _ block htake p hp hmem
  have h10001 : ServicePortFirst = 10001 := rfl
  have hpool := (htake.pool p hp).1
  have hpin : p ∈ pinsOf (requests lowPin biosOnly) := by simp [hsplit, hmem]
  rw [lowPin_pins, List.mem_singleton] at hpin
  omega

theorem lowPin_room : HasRoom lowPin biosOnly [LinuxAutomaticPorts] .empty :=
  ⟨11100, by decide, by decide, by decide⟩

theorem lowPin_free : PinsFree lowPin biosOnly [LinuxAutomaticPorts] (drawingHost 40001) :=
  ⟨fun _ _ _ => ⟨rfl, rfl, rfl⟩, fun _ => rfl⟩

theorem lowPin_spare {p : ℕ} (h₁ : 10001 ≤ p) (h₂ : p < 32768) :
    Spare lowPin biosOnly [LinuxAutomaticPorts] .empty (drawingHost 40001) p := by
  refine ⟨isAvailable_iff.mpr ⟨rfl, ?_, ?_⟩, ?_, fun _ => ⟨rfl, rfl, rfl⟩⟩
  · rw [← Bool.not_eq_true, isReservedPort_iff]
    omega
  · rw [← Bool.not_eq_true, isAutomaticPort_iff]
    rintro ⟨r, hr, hle, _⟩
    rw [List.mem_singleton.mp hr] at hle
    have h32768 : LinuxAutomaticPorts.first = 32768 := rfl
    omega
  · rw [lowPin_pins, List.mem_singleton]
    omega

theorem lowPin_enough :
    EnoughPorts lowPin biosOnly [LinuxAutomaticPorts] .empty (drawingHost 40001) where
  whole _ _ _ := fun _ => ⟨rfl, rfl⟩
  ports := by
    refine ⟨List.range' 10001 72, List.nodup_range', by decide, fun p hp => ?_⟩
    have h10001 : ServicePortFirst = 10001 := rfl
    have h65535 : MaximumPort = 65535 := rfl
    have hp' := List.mem_range'_1.mp hp
    exact ⟨by omega, lowPin_spare hp'.1 (by omega)⟩
  windows asked rest hsplit := by
    have hsize : automaticSize (requests lowPin biosOnly) = 72 := by decide
    have h64 : SolanaDynamicPortRangeSize = 64 := rfl
    rw [hsplit, automaticSize_append, automaticSize_cons rfl, Request.size] at hsize
    refine ⟨List.range' 12000 9 64, by decide, by rw [List.length_range']; omega, fun start hs => ?_⟩
    have hstarts : ∀ start ∈ List.range' 12000 9 64,
        start ∈ windowStarts [LinuxAutomaticPorts] ∧ 12000 ≤ start ∧ start ≤ 12512 := by
      decide +kernel
    obtain ⟨hmem, hge, hle⟩ := hstarts start hs
    exact ⟨hmem, fun p h₁ h₂ => lowPin_spare (by omega) (by omega)⟩
  pair asked rest hsplit := by
    obtain ⟨rfl, _⟩ := split_solanaHttp hsplit
    have hrun : (serveAll (drawingHost 40001) lowPin [LinuxAutomaticPorts]
        (frontRequests lowPin biosOnly) ⟨.empty, 0, []⟩).toOption.all (fun r =>
          isAvailable r.2.claimed [LinuxAutomaticPorts] DefaultSolanaRpc &&
            isAvailable r.2.claimed [LinuxAutomaticPorts]
              (DefaultSolanaRpc + SolanaWsPortOffset)) = true := by
      decide +kernel
    unfold Ends
    cases h : serveAll (drawingHost 40001) lowPin [LinuxAutomaticPorts]
        (frontRequests lowPin biosOnly) ⟨.empty, 0, []⟩ with
    | error e => trivial
    | ok r =>
        rw [h] at hrun
        obtain ⟨hrpc, hws⟩ := Bool.and_eq_true_iff.mp hrun
        exact .inl ⟨hrpc, fun _ => ⟨rfl, rfl, rfl⟩, by decide, hws, fun _ => ⟨rfl, rfl, rfl⟩⟩

/-- The theorem for both pins; the second is honoured on a host with every port free. -/
theorem pinsSafe_iff_biosPin :
    (PinsSafe biosPin biosOnly [LinuxAutomaticPorts] .empty ↔
      PinsOutOfReach biosPin biosOnly [LinuxAutomaticPorts] .empty) ∧
    ∃ config s, resolveLocked (drawingHost 40001) lowPin [LinuxAutomaticPorts] biosOnly
      ⟨.empty, 0, []⟩ = .ok (config, s) ∧ PinsHonoured lowPin biosOnly config := by
  have hranges : ∃ p, isAutomaticPort p [LinuxAutomaticPorts] = true := ⟨40001, by decide⟩
  have hsafe := (pinsSafe_iff lowPin_fit hranges lowPin_room).mpr lowPin_outOfReach
  refine ⟨pinsSafe_iff biosPin_fit hranges biosPin_room, ?_⟩
  exact hsafe.returns lowPin_free lowPin_enough

/-- Why a resolve failed. -/
def refusalOf : Except PickError (BindConfig × Allocation) → Option PickError
  | .ok _ => none
  | .error e => some e

/-- On a host with every port free, kiod takes its default 10890 first and the bios node's pin on
that port is refused. -/
theorem bios_pin_stolen :
    ¬ ∀ (options : BindOptions) (topology : ClusterTopologyOptions)
      (ranges : List BindConfigPortRange) (exclusions : PortSet),
      PinsFit options topology exclusions → (∃ p, isAutomaticPort p ranges = true) →
        HasRoom options topology ranges exclusions →
          PinsSafe options topology ranges exclusions := by
  intro hall
  have hsafe := hall biosPin biosOnly [LinuxAutomaticPorts] .empty biosPin_fit
    ⟨40001, by decide⟩ biosPin_room
  have hfree : PinsFree biosPin biosOnly [LinuxAutomaticPorts] (drawingHost 40001) :=
    ⟨fun _ _ _ => ⟨rfl, rfl, rfl⟩, fun _ => rfl⟩
  have hrun : refusalOf (allocate (drawingHost 40001) biosPin [LinuxAutomaticPorts] biosOnly
      .empty) = some (.pinUnavailable 10890 "nodeop.bios.http") := by decide
  cases h : allocate (drawingHost 40001) biosPin [LinuxAutomaticPorts] biosOnly .empty with
  | ok r =>
      rw [h] at hrun
      exact Option.some_ne_none _ hrun.symm
  | error e =>
      rw [h] at hrun
      have he : e = .pinUnavailable 10890 "nodeop.bios.http" := Option.some.inj hrun
      have hexhausted := (hsafe.honoured _ hfree).of_error h
      rw [he] at hexhausted
      exact Bool.false_ne_true hexhausted

end WireTools
