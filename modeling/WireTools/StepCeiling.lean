import WireTools.BuildInvariants

/-! # Step ceilings

A running step is cut off by its timer.  The timer is cleared when the step settles, and also
by an abort listener on the controller that all steps of the phase share.

* `Ceiling`: a timed step that runs has its timer armed;
* `TimerInv`: before the phase is aborted every timed step that runs is armed, afterwards none
  is, so in any state the ceilings stand exactly when the phase is not aborted or no timed
  step is running;
* an event that aborts the phase while no other timed step runs is `Lone`; only other aborts
  leave a step without its ceiling (`ceilings`). -/

namespace WireTools.ClusterBuild

def Run.steps : Run → List StepRun
  | .phase _ _ _ steps => steps
  | .group _ _ _ _ => []

/-- A timed step that is running has its timer armed. -/
def Ceiling (s : StepRun) : Prop :=
  s.timed = true → s.state.isRunning = true → s.state = .running true

/-- No timed step is running. -/
def NoneTimed (steps : List StepRun) : Prop :=
  ∀ s ∈ steps, s.timed = true → s.state.isRunning = false

/-- Where the event aborts the phase, no timed step is running but the one that ends. -/
def Lone (r : Run) : Event → Prop
  | .act _ (.settleStep i false) =>
      ∀ k s, r.steps[k]? = some s → s.timed = true → s.state.isRunning = true → k = i
  | .act _ (.expireStep i _) =>
      ∀ k s, r.steps[k]? = some s → s.timed = true → s.state.isRunning = true → k = i
  | .abort => NoneTimed r.steps
  | _ => True

/-! ### The timers of a phase -/

structure TimerInv (aborted : Bool) (steps : List StepRun) : Prop where
  armed : aborted = false → ∀ s ∈ steps, Ceiling s
  cleared : aborted = true → ∀ s ∈ steps, s.state ≠ .running true

/-- The ceilings of a phase stand exactly when it is not aborted or no timed step is running. -/
theorem TimerInv.ceiling_iff {aborted : Bool} {steps : List StepRun}
    (h : TimerInv aborted steps) :
    (∀ s ∈ steps, Ceiling s) ↔ aborted = false ∨ NoneTimed steps := by
  constructor
  · intro hall
    cases ha : aborted with
    | false => exact .inl rfl
    | true =>
        refine .inr fun s hs ht => ?_
        by_contra hr
        exact h.cleared ha s hs (hall s hs ht (by simpa using hr))
  · rintro (ha | hnone) s hs ht hr
    · exact h.armed ha s hs ht hr
    · cases (hnone s hs ht).symm.trans hr

theorem StepState.isRunning_disarm (s : StepState) : s.disarm.isRunning = s.isRunning := by
  cases s <;> rfl

theorem timerInv_disarm (steps : List StepRun) :
    TimerInv true (steps.map StepRun.disarm) := by
  refine ⟨nofun, fun _ s hs => ?_⟩
  obtain ⟨t, _, rfl⟩ := List.mem_map.mp hs
  rw [StepRun.disarm_state]
  cases t.state <;> simp [StepState.disarm]

theorem noneTimed_disarm {steps : List StepRun} (h : NoneTimed steps) :
    NoneTimed (steps.map StepRun.disarm) := by
  intro s hs ht
  obtain ⟨t, htm, rfl⟩ := List.mem_map.mp hs
  rw [StepRun.disarm_state, StepState.isRunning_disarm]
  exact h t htm ht

/-- The step that ends was the only timed one that ran. -/
theorem noneTimed_set {steps : List StepRun} {i : ℕ} {s : StepRun} {state : StepState}
    (hlone : ∀ k s, steps[k]? = some s → s.timed = true → s.state.isRunning = true → k = i)
    (hstate : state.isRunning = false) : NoneTimed (steps.set i (s.set state)) := by
  intro t ht htimed
  obtain ⟨k, hk⟩ := List.mem_iff_getElem?.mp ht
  by_cases hki : k = i
  · subst hki
    have hlen : k < steps.length := by
      simpa using (List.getElem?_eq_some_iff.mp hk).1
    rw [List.getElem?_set_self hlen] at hk
    cases hk
    exact hstate
  · rw [List.getElem?_set_ne (Ne.symm hki)] at hk
    by_contra hr
    exact hki (hlone k t hk htimed (by simpa using hr))

theorem timerInv_phaseStep {o : Schedule} {aborted : Bool} {steps : List StepRun} {a : Action}
    {r : Run} (h : TimerInv aborted steps) (hstep : PhaseStep o aborted steps a r) :
    TimerInv r.aborted r.steps := by
  have hset : ∀ {i s} (state : StepState), steps[i]? = some s → state ≠ .running true →
      Ceiling (s.set state) → TimerInv aborted (steps.set i (s.set state)) :=
    fun state _ hne hceil => ⟨fun ha => forall_mem_set (h.armed ha) hceil,
      fun ha => forall_mem_set (h.cleared ha) hne⟩
  cases hstep with
  | start hs hw hclear hturn =>
      refine ⟨fun ha => forall_mem_set (h.armed ha) fun ht _ => ?_, fun ha => ?_⟩
      · exact congrArg StepState.running ht
      · cases hclear.symm.trans ha
  | skip hs hw habort hturn => exact hset .skipped hs (by simp) nofun
  | settle hs hr => exact hset .ok hs (by simp) nofun
  | fail hs hr => exact timerInv_disarm _
  | expire hs hr => exact timerInv_disarm _
  | finish hall => exact h

/-- In a run whose aborts are lone, no timed step is running once the phase is aborted. -/
theorem lone_phaseStep {o : Schedule} {life : Life} {aborted : Bool} {steps : List StepRun}
    {a : Action} {r : Run} (h : aborted = true → NoneTimed steps)
    (hlone : Lone (.phase o life aborted steps) (.act [] a))
    (hstep : PhaseStep o aborted steps a r) : r.aborted = true → NoneTimed r.steps := by
  cases hstep with
  | start hs hw hclear hturn =>
      intro ha
      cases hclear.symm.trans ha
  | skip hs hw habort hturn => exact fun ha => forall_mem_set (h ha) fun _ => rfl
  | settle hs hr => exact fun ha => forall_mem_set (h ha) fun _ => rfl
  | fail hs hr => exact fun _ => noneTimed_disarm (noneTimed_set hlone rfl)
  | expire hs hr =>
      rename_i i s ok
      exact fun _ => noneTimed_disarm (noneTimed_set hlone (by cases ok <;> rfl))
  | finish hall => exact h

/-- An event of a phase on its own. -/
theorem exec_phase {o : Schedule} {life : Life} {aborted : Bool} {steps : List StepRun}
    {ev : Event} {r : Run} (h : exec (.phase o life aborted steps) ev = some r) :
    (∃ a, ev = .act [] a ∧ PhaseStep o aborted steps a r) ∨
      ev = .abort ∧ r = abort (.phase o life aborted steps) := by
  cases ev with
  | abort =>
      cases h
      exact .inr ⟨rfl, rfl⟩
  | act path a =>
      cases path with
      | cons k path => cases h
      | nil =>
          have hrun := act_running h
          cases hrun
          exact .inl ⟨a, rfl, phaseStep h⟩

/-- The state is one of a phase that keeps its timers. -/
structure PhaseState (s : Run) : Prop where
  phase : ∃ o life aborted steps, s = .phase o life aborted steps
  timers : TimerInv s.aborted s.steps

theorem phaseState_exec {r r' : Run} {ev : Event} (hr : PhaseState r)
    (h : exec r ev = some r') : PhaseState r' := by
  obtain ⟨o, life, aborted, steps, rfl⟩ := hr.phase
  rcases exec_phase h with ⟨a, rfl, hstep⟩ | ⟨rfl, rfl⟩
  · refine ⟨?_, timerInv_phaseStep hr.timers hstep⟩
    cases hstep <;> exact ⟨_, _, _, _, rfl⟩
  · by_cases hl : life = .running
    · subst hl
      exact ⟨⟨_, _, _, _, rfl⟩, timerInv_disarm _⟩
    · rwa [abort_of_not_running (r := .phase o life aborted steps) hl]

theorem lone_exec {r r' : Run} {ev : Event} (hr : PhaseState r)
    (hnone : r.aborted = true → NoneTimed r.steps) (hlone : Lone r ev)
    (h : exec r ev = some r') : r'.aborted = true → NoneTimed r'.steps := by
  obtain ⟨o, life, aborted, steps, rfl⟩ := hr.phase
  rcases exec_phase h with ⟨a, rfl, hstep⟩ | ⟨rfl, rfl⟩
  · exact lone_phaseStep hnone hlone hstep
  · by_cases hl : life = .running
    · subst hl
      exact fun _ => noneTimed_disarm hlone
    · rwa [abort_of_not_running (r := .phase o life aborted steps) hl]

theorem phaseState_begun (scale : ℚ) (o : Schedule) (timeoutMs : Option ℚ)
    (steps : List StepOptions) (aborted : Bool) :
    PhaseState (begun scale (.phase o timeoutMs steps) aborted) ∧
      NoneTimed (begun scale (.phase o timeoutMs steps) aborted).steps := by
  have hwait : ∀ s ∈ (begun scale (.phase o timeoutMs steps) aborted).steps,
      s.state = .waiting := by
    intro s hs
    obtain ⟨_, _, rfl⟩ := List.mem_map.mp hs
    rfl
  refine ⟨⟨⟨_, _, _, _, rfl⟩, fun _ s hs _ hr => ?_, fun _ s hs => ?_⟩, fun s hs _ => ?_⟩
  · rw [hwait s hs] at hr
    cases hr
  · simp [hwait s hs]
  · rw [hwait s hs]
    rfl

/-! ### Ceilings over runs -/

/-- In every run of a phase whose aborts are lone the ceilings stand in the state reached; in
any run they stand exactly when the phase is not aborted or no timed step is running. -/
theorem ceilings {scale : ℚ} {o : Schedule} {timeoutMs : Option ℚ} {steps : List StepOptions}
    {aborted : Bool} {events : List Event} {s : Run}
    (h : run (begun scale (.phase o timeoutMs steps) aborted) events = some s) :
    (Along exec Lone (begun scale (.phase o timeoutMs steps) aborted) events →
        ∀ x ∈ s.steps, Ceiling x) ∧
      ((∀ x ∈ s.steps, Ceiling x) ↔ s.aborted = false ∨ NoneTimed s.steps) := by
  obtain ⟨hphase, hnone⟩ := phaseState_begun scale o timeoutMs steps aborted
  have hstate : PhaseState s :=
    runs_induction h hphase fun _ _ _ _ hm hstate => phaseState_exec hstate hm
  refine ⟨fun halong => ?_, hstate.timers.ceiling_iff⟩
  have hboth : PhaseState s ∧ (s.aborted = true → NoneTimed s.steps) := by
    refine along_induction
      (motive := fun m => PhaseState m ∧ (m.aborted = true → NoneTimed m.steps))
      h halong ⟨hphase, fun _ => hnone⟩ ?_
    intro m m' ev hlone hm hboth
    exact ⟨phaseState_exec hboth.1 hm, lone_exec hboth.1 hboth.2 hlone hm⟩
  refine hstate.timers.ceiling_iff.mpr ?_
  cases ha : s.aborted with
  | false => exact .inl rfl
  | true => exact .inr (hboth.2 ha)

/-! ### A step left without its ceiling -/

/-- Two steps in parallel, the second with a ceiling of a second. -/
def twoSteps : Element :=
  .phase ⟨true, none⟩ none [⟨none⟩, ⟨some 1000⟩]

theorem begun_twoSteps : begun 1 twoSteps false =
    .phase ⟨true, none⟩ .running false [⟨false, .waiting⟩, ⟨true, .waiting⟩] := by
  have htimed : isTimed 1 none ⟨some 1000⟩ = true := by decide +kernel
  simp [begun, twoSteps, start, Run.begin, htimed]
  rfl

theorem ceilings_twoSteps : Ceiling ⟨true, .running true⟩ := by
  have hrun : run (begun 1 twoSteps false)
      [.act [] (.startStep 1), .act [] (.startStep 0), .act [] (.settleStep 0 true)] =
        some (.phase ⟨true, none⟩ .running false [⟨false, .ok⟩, ⟨true, .running true⟩]) := by
    rw [begun_twoSteps]
    rfl
  refine (ceilings hrun).1 ?_ ⟨true, .running true⟩ (by simp [Run.steps])
  have hbegun := begun_twoSteps
  rw [twoSteps] at hbegun
  rw [hbegun]
  exact ⟨trivial, trivial, trivial, trivial⟩

/-- The first step fails while the second runs: the second has lost its timer. -/
theorem ceiling_lost : ∃ s, run (begun 1 twoSteps false)
    [.act [] (.startStep 0), .act [] (.startStep 1), .act [] (.settleStep 0 false)] = some s ∧
      ∃ x ∈ s.steps, ¬ Ceiling x := by
  rw [begun_twoSteps]
  refine ⟨.phase ⟨true, none⟩ .running true [⟨false, .failed⟩, ⟨true, .running false⟩], rfl,
    ⟨true, .running false⟩, by simp [Run.steps], fun h => ?_⟩
  cases h rfl rfl

end WireTools.ClusterBuild
