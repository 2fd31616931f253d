import WireTools.ResolveBinding

/-! # What a resolved binding guarantees

`Sound` is what a resolve owes its caller: the ports of the binding are pairwise distinct, none
is reserved or excluded, every pin is returned unchanged and every automatic port lies outside
the automatic ranges.

* `allocate_sound_iff`: a resolved binding is sound exactly when no `get-port` call of the resolve
  was answered, by the kernel's own draw, with the one port it had been told to exclude.
* `allocate_excluded_pin`: that draw hands a caller's pin out although the registry excludes it. -/

namespace WireTools

open Outcome

/-- A block answers its request: the pin unchanged, or ports outside the automatic ranges. -/
def Honours (ranges : List BindConfigPortRange) (r : Request) (block : List ℕ) : Prop :=
  match r.pinned with
  | some ports => block = ports
  | none => ∀ p ∈ block, isAutomaticPort p ranges = false

/-- What a resolve owes its caller. -/
structure Sound (options : BindOptions) (topology : ClusterTopologyOptions)
    (ranges : List BindConfigPortRange) (exclusions : PortSet) (config : BindConfig) : Prop where
  counts : HasCounts topology config
  honoured : List.Forall₂ (Honours ranges) (requests options topology) (blocks config)
  distinct : (allPorts config).Nodup
  unreserved : ∀ p ∈ allPorts config, isReservedPort p = false
  unexcluded : ∀ p ∈ allPorts config, exclusions.has p = false

variable {host : Host} {options : BindOptions} {topology : ClusterTopologyOptions}
  {ranges : List BindConfigPortRange} {exclusions : PortSet}

/-- The state of a resolve after the blocks `done`, with the requests `rest` still open. -/
structure Resolving (options : BindOptions) (topology : ClusterTopologyOptions)
    (ranges : List BindConfigPortRange) (exclusions : PortSet) (done : List (List ℕ))
    (rest : List Request) (s : Allocation) : Prop where
  answered : ∃ asked, asked ++ rest = requests options topology ∧
    List.Forall₂ (Honours ranges) asked done
  unreserved : ∀ p ∈ done.flatten, isReservedPort p = false
  claimed : ∀ p, s.claimed.has p = (exclusions.has p || decide (p ∈ done.flatten))
  calls : (∀ call ∈ s.calls, ¬ call.DrewExcluded) ↔
    done.flatten.Nodup ∧ ∀ p ∈ done.flatten, exclusions.has p = false

theorem Resolving.start (options : BindOptions) (topology : ClusterTopologyOptions)
    (ranges : List BindConfigPortRange) (exclusions : PortSet) :
    Resolving options topology ranges exclusions [] (requests options topology)
      ⟨exclusions, 0, []⟩ :=
  ⟨⟨[], rfl, .nil⟩, by simp, by simp, by simp⟩

theorem Served.honours {r : Request} {s s' : Allocation} {block : List ℕ}
    (h : Served host options ranges r s block s') : Honours ranges r block := by
  unfold Honours
  cases hp : r.pinned with
  | some ports => exact h.pinned ports hp
  | none => exact fun p hmem => (isAvailable_iff.mp ((h.taken hp).available p hmem)).2.2

theorem Resolving.serve {done : List (List ℕ)} {r : Request} {rest : List Request}
    {s s' : Allocation} {block : List ℕ}
    (h : Resolving options topology ranges exclusions done (r :: rest) s)
    (hs : Served host options ranges r s block s') :
    Resolving options topology ranges exclusions (done ++ [block]) rest s' := by
  obtain ⟨asked, hasked, hans⟩ := h.answered
  obtain ⟨made, hmade, hdrew⟩ := hs.calls
  refine ⟨⟨asked ++ [r], by simpa using hasked, ?_⟩, ?_, ?_, ?_⟩
  · exact List.rel_append hans (.cons hs.honours .nil)
  · intro p hp
    rw [List.flatten_append, List.mem_append] at hp
    rcases hp with hp | hp
    · exact h.unreserved p hp
    · exact hs.unreserved p (by simpa using hp)
  · intro p
    rw [hs.claimed, h.claimed, List.flatten_append, List.flatten_singleton, Bool.or_assoc]
    simp only [List.mem_append, Bool.decide_or]
  · have hclear : (∀ call ∈ made, ¬ call.DrewExcluded) ↔
        ∀ p ∈ block, exclusions.has p = false ∧ p ∉ done.flatten := by
      have hnot := not_congr hdrew
      push Not at hnot
      rw [hnot]
      simp only [h.claimed, ne_eq, Bool.not_eq_true, Bool.or_eq_false_iff, decide_eq_false_iff_not]
    have hsplit : (∀ call ∈ s'.calls, ¬ call.DrewExcluded) ↔
        (∀ call ∈ s.calls, ¬ call.DrewExcluded) ∧ ∀ call ∈ made, ¬ call.DrewExcluded := by
      rw [hmade]
      simp only [List.mem_append, or_imp, forall_and]
    rw [hsplit, hclear, h.calls, List.flatten_append, List.flatten_singleton,
      List.nodup_append']
    simp only [List.mem_append, or_imp, forall_and]
    constructor
    · rintro ⟨⟨hnd, hx⟩, hbx, hdisj⟩
      exact ⟨⟨hnd, hs.nodup, fun p hp hb => hdisj p hb hp⟩, hx, hbx⟩
    · rintro ⟨⟨hnd, _, hdisj⟩, hx, hbx⟩
      exact ⟨⟨hnd, hx⟩, hbx, fun p hb hp => hdisj hp hb⟩

/-- A resolved binding, with the state its resolve ended in. -/
theorem allocate_resolving {config : BindConfig} {s' : Allocation}
    (h : allocate host options ranges topology exclusions = .ok (config, s')) :
    HasCounts topology config ∧
      Resolving options topology ranges exclusions (blocks config) [] s' := by
  have step : ∀ done r rest s, Resolving options topology ranges exclusions done (r :: rest) s →
      Ends (WireTools.serve host options ranges r) s
        (fun b s' => Resolving options topology ranges exclusions (done ++ [b]) rest s')
        (fun _ => True) := fun done r rest s hI =>
    (serve_ends r s).mono (fun _ _ hs => hI.serve hs) (fun _ _ => trivial)
  exact ⟨(resolveLocked_counts _).of_ok h,
    (resolveLocked_ends step (Resolving.start options topology ranges exclusions)).of_ok h⟩

/-- A resolved binding is sound exactly when no call drew the port it had excluded. -/
theorem allocate_sound_iff {config : BindConfig} {s' : Allocation}
    (h : allocate host options ranges topology exclusions = .ok (config, s')) :
    Sound options topology ranges exclusions config ↔
      ∀ call ∈ s'.calls, ¬ call.DrewExcluded := by
  obtain ⟨hcounts, hres⟩ := allocate_resolving h
  obtain ⟨asked, hasked, hans⟩ := hres.answered
  rw [List.append_nil] at hasked
  rw [hasked] at hans
  have hcalls := hres.calls
  have hunreserved := hres.unreserved
  rw [flatten_blocks] at hcalls hunreserved
  rw [hcalls]
  constructor
  · exact fun hsound => ⟨hsound.distinct, hsound.unexcluded⟩
  · rintro ⟨hdistinct, hunexcluded⟩
    exact ⟨hcounts, hans, hdistinct, hunreserved, hunexcluded⟩

/-! ### The kernel's draw -/

/-- Every port pinned, from `base` on but for kiod's. -/
def pinnedOptions (kiod base : ℕ) : BindOptions where
  kiod := some { port := some kiod }
  nodeop := some {
    ports := some { bios := some { http := some base, p2p := some (base + 1) } } }
  anvil := some { port := some (base + 2) }
  solana := some {
    ports := some {
      http := some (base + 3), faucet := some (base + 5), gossip := some (base + 6)
      dynamicRange := some ⟨base + 7, base + 8⟩ } }
  debuggingServer := some { port := some (base + 9) }

/-- No node but the bios node. -/
def biosOnly : ClusterTopologyOptions where
  producerCount := some 0
  batchOperatorCount := some 0

/-- A host with every port free, whose kernel draws one port of its ephemeral range. -/
def drawingHost (port : ℕ) : Host where
  bindable _ _ := true
  draw _ := port
  ipv6Free _ _ := true
  udpFree _ _ := true
  random _ := 0

/-- The kernel's ephemeral ports on Linux, by default. -/
def LinuxAutomaticPorts : BindConfigPortRange := ⟨32768, 60999⟩

/-- The port of kiod in a resolve's outcome. -/
def kiodOf : Except PickError (BindConfig × Allocation) → Option ℕ
  | .ok (config, _) => some config.kiod.port
  | .error _ => none

theorem allocate_of_kiodOf {n : ℕ}
    (h : kiodOf (allocate host options ranges topology exclusions) = some n) :
    ∃ config s', allocate host options ranges topology exclusions = .ok (config, s') ∧
      config.kiod.port = n := by
  cases hrun : allocate host options ranges topology exclusions with
  | error e =>
      rw [hrun] at h
      exact absurd h.symm (Option.some_ne_none n)
  | ok r =>
      rw [hrun] at h
      exact ⟨r.1, r.2, rfl, Option.some.inj h⟩

theorem allocate_sound_iff_pinned :
    ∃ config s', allocate (drawingHost 40001) (pinnedOptions 40001 11000) [LinuxAutomaticPorts] biosOnly
      .empty = .ok (config, s') ∧
      (Sound (pinnedOptions 40001 11000) biosOnly [LinuxAutomaticPorts] .empty config ↔
        ∀ call ∈ s'.calls, ¬ call.DrewExcluded) := by
  have hrun : kiodOf (allocate (drawingHost 40001) (pinnedOptions 40001 11000)
      [LinuxAutomaticPorts] biosOnly .empty) = some 40001 := by decide +kernel
  obtain ⟨config, s', h, _⟩ := allocate_of_kiodOf hrun
  exact ⟨config, s', h, allocate_sound_iff h⟩

/-- Another live cluster holds port 40001, which is not bound yet: the pin on it is accepted when
the kernel happens to draw it. -/
theorem allocate_excluded_pin :
    ¬ ∀ (host : Host) (options : BindOptions) (topology : ClusterTopologyOptions)
      (ranges : List BindConfigPortRange) (exclusions : PortSet) (config : BindConfig)
      (s' : Allocation),
      allocate host options ranges topology exclusions = .ok (config, s') →
        Sound options topology ranges exclusions config := by
  intro hall
  have hrun : kiodOf (allocate (drawingHost 40001) (pinnedOptions 40001 11000)
      [LinuxAutomaticPorts] biosOnly (.ofList [40001])) = some 40001 := by decide +kernel
  obtain ⟨config, s', h, hkiod⟩ := allocate_of_kiodOf hrun
  have hx := (hall _ _ _ _ _ config s' h).unexcluded 40001
    (by simp [allPorts, addressedPorts, hkiod])
  simp at hx

end WireTools
