import WireTools.BuildInvariants

/-! # The verdicts of a build

* `Truthful`: whatever node has returned reports success exactly when every step registered
  under it was executed and ended ok;
* a group that is aborted from above while its own children succeed passes over the children
  it has not begun, and nothing in its report says so.  `Justified` excludes such an event,
  `Covered` is what a run without it keeps (`covered_exec`), and then every verdict is right;
* the root of a build has nobody above it, so its verdict is right in every run. -/

namespace WireTools.ClusterBuild

/-- No step is registered under the node. -/
def StepFree : Run → Prop :=
  AllSteps fun _ => False

/-- Every node that has returned reports success exactly when all its steps ended ok. -/
def Truthful (s : Run) : Prop :=
  ∀ path n, nodeAt path s = some n → n.life.reported = true → (succeeded n = true ↔ AllOk n)

/-- A child that is passed over has no steps, or a child of the same group failed before. -/
def Justified (r : Run) : Event → Prop
  | .act path (.omitChild i) =>
      match nodeAt path r with
      | some (.group _ _ _ children) =>
          (∃ d ∈ children, Broken d) ∨ ∀ c, children[i]? = some c → StepFree c
      | _ => True
  | _ => True

/-- The children that a group passed over are accounted for in its report. -/
def Covered : Run → Prop
  | .phase _ _ _ _ => True
  | .group _ _ _ children =>
      ∀ c ∈ children, c.life = .omitted → StepFree c ∨ ∃ d ∈ children, Broken d

/-! ### The invariant -/

theorem allOk_of_stepFree {r : Run} (h : StepFree r) : AllOk r :=
  Everywhere.imp (fun n hn => by
    cases n with
    | phase o life aborted steps => exact fun s hs => (hn s hs).elim
    | group o life aborted children => trivial) h

theorem stepFree_setLife {l : Life} {r : Run} (h : StepFree r) : StepFree (r.setLife l) := by
  cases r with
  | phase o life aborted steps => exact h
  | group o life aborted children => exact allSteps_group.mpr (allSteps_group.mp h)

theorem covered_set {o life aborted} {children : List Run} {i : ℕ} {c c' : Run}
    (h : Covered (.group o life aborted children)) (hc : children[i]? = some c)
    (hb : ¬ Broken c)
    (hc' : c'.life = .omitted → StepFree c' ∨ ∃ d ∈ children, Broken d) :
    Covered (.group o life aborted (children.set i c')) := by
  have hkept : (∃ d ∈ children, Broken d) → ∃ d ∈ children.set i c', Broken d :=
    exists_mem_set hc hb
  intro d hd hl
  rcases List.mem_or_eq_of_mem_set hd with hd | rfl
  · exact (h d hd hl).imp id hkept
  · exact (hc' hl).imp id hkept

theorem covered_setLife {l : Life} {r : Run} (h : Everywhere Covered r) :
    Everywhere Covered (r.setLife l) := by
  cases r with
  | phase o life aborted steps => trivial
  | group o life aborted children => exact everywhere_group.mpr (everywhere_group.mp h)

theorem covered_begin {b : Bool} {r : Run} (h : Everywhere Covered r) :
    Everywhere Covered (r.begin b) := by
  cases r with
  | phase o life aborted steps => trivial
  | group o life aborted children => exact everywhere_group.mpr (everywhere_group.mp h)

theorem covered_start (scale : ℚ) : ∀ e : Element, Everywhere Covered (start scale e)
  | .phase o timeoutMs steps => trivial
  | .group o children => by
      rw [start, startAll_eq, everywhere_group]
      refine ⟨fun c hc hl => ?_, fun c hc => ?_⟩
      · obtain ⟨e, _, rfl⟩ := List.mem_map.mp hc
        cases e <;> cases hl
      · obtain ⟨e, _, rfl⟩ := List.mem_map.mp hc
        exact covered_start scale e

theorem covered_abort {r : Run} (h : Everywhere Covered r) : Everywhere Covered (abort r) := by
  induction r with
  | phase o life aborted steps =>
      by_cases hl : life = .running
      · subst hl
        trivial
      · rwa [abort_of_not_running (r := .phase o life aborted steps) hl]
  | group o life aborted children ih =>
      by_cases hl : life = .running
      · subst hl
        rw [everywhere_group] at h
        rw [abort_group, everywhere_group]
        refine ⟨fun c hc hl => ?_, fun c hc => ?_⟩
        · obtain ⟨d, hd, rfl⟩ := List.mem_map.mp hc
          rw [life_abort] at hl
          rw [abort_of_not_running (by simp [hl])]
          refine (h.1 d hd hl).imp id ?_
          rintro ⟨b, hb, hbroken⟩
          have hsame : abort b = b := abort_of_not_running (by simp [hbroken.1])
          exact ⟨b, List.mem_map.mpr ⟨b, hb, hsame⟩, hbroken⟩
        · obtain ⟨d, hd, rfl⟩ := List.mem_map.mp hc
          exact ih d hd (h.2 d hd)
      · rwa [abort_of_not_running (r := .group o life aborted children) hl]

theorem covered_groupStep {o : Schedule} {aborted : Bool} {children : List Run} {a : Action}
    {r : Run} (h : Everywhere Covered (.group o .running aborted children))
    (hj : Justified (.group o .running aborted children) (.act [] a))
    (hstep : GroupStep o aborted children a r) : Everywhere Covered r := by
  rw [everywhere_group] at h
  cases hstep with
  | start hc hw hclear hturn =>
      refine everywhere_group.mpr ⟨covered_set h.1 hc (fun hb => ?_) (fun hl => ?_), ?_⟩
      · cases hw.symm.trans hb.1
      · rw [life_begin] at hl
        cases hl
      · exact forall_mem_set h.2 (covered_begin (h.2 _ (List.mem_of_getElem? hc)))
  | pass hc hw habort hseq hturn =>
      refine everywhere_group.mpr ⟨covered_set h.1 hc (fun hb => ?_) (fun _ => ?_), ?_⟩
      · cases hw.symm.trans hb.1
      · exact hj.symm.imp (fun hfree => stepFree_setLife (hfree _ hc)) id
      · exact forall_mem_set h.2 (covered_setLife (h.2 _ (List.mem_of_getElem? hc)))
  | record hc hl hok =>
      refine everywhere_group.mpr ⟨covered_set h.1 hc (fun hb => ?_) (fun hl => ?_), ?_⟩
      · cases hl.symm.trans hb.1
      · rw [life_setLife] at hl
        cases hl
      · exact forall_mem_set h.2 (covered_setLife (h.2 _ (List.mem_of_getElem? hc)))
  | stop hc hl hok =>
      refine covered_abort (everywhere_group.mpr
        ⟨covered_set h.1 hc (fun hb => ?_) (fun hl => ?_), ?_⟩)
      · cases hl.symm.trans hb.1
      · rw [life_setLife] at hl
        cases hl
      · exact forall_mem_set h.2 (covered_setLife (h.2 _ (List.mem_of_getElem? hc)))
  | finish hall => exact everywhere_group.mpr h

theorem covered_actAt {a : Action} : ∀ {path : List ℕ} {r r' : Run}, Everywhere Inv r →
    Everywhere Covered r → Justified r (.act path a) → actAt path a r = some r' →
    Everywhere Covered r'
  | [], r, r', _, hr, hj, h => by
      have hrun := act_running h
      cases r with
      | phase o life aborted steps =>
          cases hrun
          cases phaseStep h <;> trivial
      | group o life aborted children =>
          cases hrun
          exact covered_groupStep hr hj (groupStep h)
  | i :: path, _, _, hinv, hr, hj, h => by
      obtain ⟨o, life, aborted, children, c, c', rfl, hc, hact, rfl⟩ := actAt_cons h
      rw [everywhere_group] at hinv hr ⊢
      have hmem := List.mem_of_getElem? hc
      have hevolves := (inv_actAt (hinv.2 c hmem) hact).2
      have hjc : Justified c (.act path a) := by
        cases a with
        | omitChild k => simpa [Justified, nodeAt, hc] using hj
        | _ => trivial
      refine ⟨covered_set hr.1 hc (fun hb => ?_) (fun hl => ?_), ?_⟩
      · cases hevolves.running.symm.trans hb.1
      · exact absurd hl hevolves.ne_omitted
      · exact forall_mem_set hr.2 (covered_actAt (hinv.2 c hmem) (hr.2 c hmem) hjc hact)

theorem covered_exec {r r' : Run} {ev : Event} (hinv : Everywhere Inv r)
    (hr : Everywhere Covered r) (hj : Justified r ev) (h : exec r ev = some r') :
    Everywhere Covered r' := by
  cases ev with
  | act path a => exact covered_actAt hinv hr hj h
  | abort =>
      cases h
      exact covered_abort hr

/-! ### Verdicts -/

/-- The verdict of a node that has returned, when all that was passed over is accounted for. -/
theorem verdict_iff {r : Run} (hinv : Everywhere Inv r) (hr : Everywhere Covered r)
    (hl : r.life.reported = true) : succeeded r = true ↔ AllOk r := by
  refine ⟨fun hs => ?_, succeeded_of_allOk⟩
  induction r with
  | phase o life aborted steps => exact succeeded_phase.mp hs
  | group o life aborted children ih =>
      rw [everywhere_group] at hinv hr
      have hg : GroupInv o life aborted children := hinv.1
      refine allSteps_group.mpr fun c hc => ?_
      have hdone := hg.complete hl c hc
      cases hlife : c.life with
      | recorded =>
          have hsc : succeeded c = true := succeeded_group.mp hs c hc (by simp [hlife])
          exact ih c hc (hinv.2 c hc) (hr.2 c hc) (by rw [hlife]; rfl) hsc
      | omitted =>
          rcases hr.1 c hc hlife with hfree | hbroken
          · exact allOk_of_stepFree hfree
          · cases hs.symm.trans (not_succeeded_group hbroken)
      | _ => simp [hlife, Life.done] at hdone

/-- A run that nobody aborts from outside leaves the root to abort itself. -/
theorem own_run {scale : ℚ} {e : Element} {events : List Event} {s : Run}
    (h : run (begun scale e false) events = some s) (hno : Event.abort ∉ events) : Own s := by
  have hboth : Everywhere Inv s ∧ Own s := by
    refine runs_induction (motive := fun m => Everywhere Inv m ∧ Own m) h
      ⟨inv_begun scale e false, own_of_not_aborted (aborted_begin _ _)⟩ ?_
    intro m m' ev hev hm hboth
    refine ⟨inv_exec hboth.1 hm, ?_⟩
    cases ev with
    | act path a => exact (inv_actAt hboth.1 hm).2.own hboth.2
    | abort => exact absurd hev hno
  exact hboth.2

/-- In a run in which whatever is passed over is accounted for, every node that has returned
tells the truth; the root does in every run that is not aborted from outside. -/
theorem verdicts_truthful {scale : ℚ} {e : Element} {aborted : Bool} {events : List Event}
    {s : Run} (h : run (begun scale e aborted) events = some s) :
    (Along exec Justified (begun scale e aborted) events → Truthful s) ∧
      (aborted = false → Event.abort ∉ events → s.life = .returned →
        (succeeded s = true ↔ AllOk s)) := by
  refine ⟨fun halong => ?_, ?_⟩
  · have hboth : Everywhere Inv s ∧ Everywhere Covered s := by
      refine along_induction (motive := fun m => Everywhere Inv m ∧ Everywhere Covered m) h
        halong ⟨inv_begun scale e aborted, covered_begin (covered_start scale e)⟩ ?_
      intro m m' ev hj hm hboth
      exact ⟨inv_exec hboth.1 hm, covered_exec hboth.1 hboth.2 hj hm⟩
    intro path n hn hl
    exact verdict_iff (hboth.1.nodeAt hn) (hboth.2.nodeAt hn) hl
  · rintro rfl hno hl
    refine ⟨fun hs => ?_, succeeded_of_allOk⟩
    exact allOk_of_succeeded (inv_run h) (own_run h hno) (by rw [hl]; rfl) hs

/-! ### A failure that is accounted for, and a hollow success -/

/-- Two phases in sequence. -/
def twoPhases : Element :=
  buildRoot [.phase ⟨false, none⟩ none [⟨none⟩], .phase ⟨false, none⟩ none [⟨none⟩]]

/-- The first phase fails, the second is passed over. -/
def twoPhasesEvents : List Event :=
  [.act [] (.startChild 0), .act [0] (.startStep 0), .act [0] (.settleStep 0 false),
    .act [0] .finish, .act [] (.recordChild 0), .act [] (.omitChild 1), .act [] .finish]

def twoPhasesEnd : Run :=
  .group ⟨false, none⟩ .returned true
    [.phase ⟨false, none⟩ .recorded true [⟨false, .failed⟩],
      .phase ⟨false, none⟩ .omitted false [⟨false, .waiting⟩]]

theorem verdicts_truthful_twoPhases : Truthful twoPhasesEnd := by
  have hrun : run (begun 1 twoPhases false) twoPhasesEvents = some twoPhasesEnd := rfl
  refine (verdicts_truthful hrun).1 ⟨trivial, trivial, trivial, trivial, trivial, .inl ?_,
    trivial, trivial⟩
  exact ⟨.phase ⟨false, none⟩ .recorded true [⟨false, .failed⟩], List.mem_cons_self, rfl, rfl⟩

/-- A parallel group of a phase and of a sequential group of two phases. -/
def hollowBuild : Element :=
  buildRoot [.group ⟨true, none⟩
    [.phase ⟨false, none⟩ none [⟨none⟩],
      .group ⟨false, none⟩
        [.phase ⟨false, none⟩ none [⟨none⟩], .phase ⟨false, none⟩ none [⟨none⟩]]]]

/-- The phase fails while the first phase of the sequential group runs; that one ends ok. -/
def hollowEvents : List Event :=
  [.act [] (.startChild 0), .act [0] (.startChild 0), .act [0] (.startChild 1),
    .act [0, 1] (.startChild 0), .act [0, 0] (.startStep 0), .act [0, 1, 0] (.startStep 0),
    .act [0, 0] (.settleStep 0 false), .act [0, 0] .finish, .act [0] (.recordChild 0),
    .act [0, 1, 0] (.settleStep 0 true), .act [0, 1, 0] .finish, .act [0, 1] (.recordChild 0),
    .act [0, 1] (.omitChild 1), .act [0, 1] .finish]

/-- The sequential group as it returns. -/
def hollowGroup : Run :=
  .group ⟨false, none⟩ .returned true
    [.phase ⟨false, none⟩ .recorded true [⟨false, .ok⟩],
      .phase ⟨false, none⟩ .omitted false [⟨false, .waiting⟩]]

/-- The sequential group reports success with its second phase never begun. -/
theorem hollow_success : ∃ s n, run (begun 1 hollowBuild false) hollowEvents = some s ∧
    nodeAt [0, 1] s = some n ∧ n.life.reported = true ∧ succeeded n = true ∧ ¬ AllOk n := by
  refine ⟨_, hollowGroup, rfl, rfl, rfl, rfl, fun h => ?_⟩
  have hsecond := allSteps_group.mp h
    (.phase ⟨false, none⟩ .omitted false [⟨false, .waiting⟩]) (by simp)
  cases allSteps_phase.mp hsecond ⟨false, .waiting⟩ (by simp)

end WireTools.ClusterBuild
