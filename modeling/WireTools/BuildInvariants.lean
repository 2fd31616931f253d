import WireTools.BuildEngine
import WireTools.Collections
import WireTools.Outcome

/-! # What every state of a build keeps

* `PhaseStep` and `GroupStep` say once what an action at a phase or a group can do;
* `Inv` is the invariant of one node and its immediate children, `Everywhere Inv` that of a
  tree;
* an action deep in the tree changes a node's child only in the ways `Evolves` lists, which is
  all that `Inv` needs of it (`evolves_actAt`, `inv_actAt`);
* `inv_run`: the invariant holds in every state that a run reaches. -/

namespace WireTools.ClusterBuild

/-! ### Lists of nodes -/

variable {P Q : Run → Prop}

theorem everywhereAll_iff : ∀ {rs : List Run}, EverywhereAll P rs ↔ ∀ r ∈ rs, Everywhere P r
  | [] => by simp [EverywhereAll]
  | r :: rs => by rw [EverywhereAll, everywhereAll_iff, List.forall_mem_cons]

@[simp] theorem everywhere_phase {o life aborted steps} :
    Everywhere P (.phase o life aborted steps) ↔ P (.phase o life aborted steps) :=
  Iff.rfl

@[simp] theorem everywhere_group {o life aborted children} :
    Everywhere P (.group o life aborted children) ↔
      P (.group o life aborted children) ∧ ∀ c ∈ children, Everywhere P c := by
  rw [Everywhere, everywhereAll_iff]

theorem Everywhere.here {r : Run} (h : Everywhere P r) : P r := by
  cases r with
  | phase o life aborted steps => exact h
  | group o life aborted children => exact (everywhere_group.mp h).1

theorem Everywhere.imp {r : Run} (hPQ : ∀ n, P n → Q n) (h : Everywhere P r) :
    Everywhere Q r := by
  induction r with
  | phase o life aborted steps => exact hPQ _ h
  | group o life aborted children ih =>
      rw [everywhere_group] at h ⊢
      exact ⟨hPQ _ h.1, fun c hc => ih c hc (h.2 c hc)⟩

theorem allSteps_phase {p : StepState → Prop} {o life aborted steps} :
    AllSteps p (.phase o life aborted steps) ↔ ∀ s ∈ steps, p s.state :=
  Iff.rfl

theorem allSteps_group {p : StepState → Prop} {o life aborted children} :
    AllSteps p (.group o life aborted children) ↔ ∀ c ∈ children, AllSteps p c := by
  rw [AllSteps, everywhere_group]
  exact ⟨fun h => h.2, fun h => ⟨trivial, h⟩⟩

@[simp] theorem startAll_eq (scale : ℚ) : ∀ es, startAll scale es = es.map (start scale)
  | [] => rfl
  | e :: es => by rw [startAll, startAll_eq scale es, List.map_cons]

@[simp] theorem abortAll_eq : ∀ rs, abortAll rs = rs.map abort
  | [] => rfl
  | r :: rs => by rw [abortAll, abortAll_eq rs, List.map_cons]

theorem mem_reportAll {n : ReportNode} : ∀ {rs : List Run},
    n ∈ reportAll rs ↔ ∃ r ∈ rs, r.life ≠ .omitted ∧ report r = n
  | [] => by simp [reportAll]
  | r :: rs => by
      rw [reportAll]
      by_cases h : r.life = .omitted
      · rw [if_pos h, mem_reportAll]
        simp [h]
      · rw [if_neg h, List.mem_cons, mem_reportAll, List.exists_mem_cons_iff,
          eq_comm (a := n)]
        simp only [ne_eq, h, not_false_eq_true, true_and]

/-! ### Verdicts of reports -/

theorem succeeded_phase {o life aborted steps} :
    succeeded (.phase o life aborted steps) = true ↔ ∀ s ∈ steps, s.state = .ok := by
  simp [succeeded, report, buildPhase, ReportNode.succeeded]

theorem succeeded_group {o life aborted children} :
    succeeded (.group o life aborted children) = true ↔
      ∀ c ∈ children, c.life ≠ .omitted → succeeded c = true := by
  rw [succeeded, report, groupFrom, ReportNode.succeeded, List.all_eq_true]
  constructor
  · intro h c hc hlife
    exact h _ (mem_reportAll.mpr ⟨c, hc, hlife, rfl⟩)
  · rintro h n hn
    obtain ⟨c, hc, hlife, rfl⟩ := mem_reportAll.mp hn
    exact h c hc hlife

/-- A recorded child that did not succeed. -/
def Broken (c : Run) : Prop :=
  c.life = .recorded ∧ succeeded c = false

theorem not_succeeded_group {o life aborted children} (h : ∃ c ∈ children, Broken c) :
    succeeded (.group o life aborted children) = false := by
  obtain ⟨c, hc, hlife, hfalse⟩ := h
  by_contra htrue
  rw [Bool.not_eq_false, succeeded_group] at htrue
  rw [htrue c hc (by simp [hlife])] at hfalse
  cases hfalse

/-! ### The life of a node under the operations -/

@[simp] theorem life_setLife (l : Life) (r : Run) : (r.setLife l).life = l := by
  cases r <;> rfl

@[simp] theorem aborted_setLife (l : Life) (r : Run) : (r.setLife l).aborted = r.aborted := by
  cases r <;> rfl

@[simp] theorem succeeded_setLife (l : Life) (r : Run) :
    succeeded (r.setLife l) = succeeded r := by
  cases r <;> rfl

@[simp] theorem life_begin (b : Bool) (r : Run) : (r.begin b).life = .running := by
  cases r <;> rfl

@[simp] theorem aborted_begin (b : Bool) (r : Run) : (r.begin b).aborted = b := by
  cases r <;> rfl

theorem abort_of_not_running {r : Run} (h : r.life ≠ .running) : abort r = r := by
  cases r with
  | phase o life aborted steps =>
      cases life with
      | running => exact absurd rfl h
      | _ => rfl
  | group o life aborted children =>
      cases life with
      | running => exact absurd rfl h
      | _ => rfl

@[simp] theorem abort_phase {o aborted steps} : abort (.phase o .running aborted steps) =
    .phase o .running true (steps.map StepRun.disarm) :=
  rfl

@[simp] theorem abort_group {o aborted children} : abort (.group o .running aborted children) =
    .group o .running true (children.map abort) := by
  rw [abort, abortAll_eq]

@[simp] theorem life_abort (r : Run) : (abort r).life = r.life := by
  by_cases h : r.life = .running
  · cases r <;> cases h
    · rfl
    · rw [abort_group]
      rfl
  · rw [abort_of_not_running h]

theorem aborted_abort {r : Run} (h : r.life = .running) : (abort r).aborted = true := by
  cases r <;> cases h
  · rfl
  · rw [abort_group]
    rfl

namespace StepState

theorem disarm_eq_waiting {s : StepState} : s.disarm = .waiting ↔ s = .waiting := by
  cases s <;> simp [disarm]

@[simp] theorem disarm_settled (s : StepState) : s.disarm.settled = s.settled := by
  cases s <;> rfl

@[simp] theorem disarm_launched (s : StepState) : s.disarm.launched = s.launched := by
  cases s <;> rfl

end StepState

@[simp] theorem StepRun.disarm_state (s : StepRun) : s.disarm.state = s.state.disarm := rfl

@[simp] theorem StepRun.set_state (s : StepRun) (state : StepState) :
    (s.set state).state = state := rfl

/-! ### What an action can do -/

/-- What an action does to a running phase. -/
inductive PhaseStep (o : Schedule) (aborted : Bool) (steps : List StepRun) : Action → Run → Prop
  | start {i s} (hs : steps[i]? = some s) (hw : s.state = .waiting) (hclear : aborted = false)
      (hturn : o.parallel = false → ∀ t ∈ steps.take i, t.state.settled = true) :
      PhaseStep o aborted steps (.startStep i)
        (.phase o .running aborted (steps.set i (s.set (.running s.timed))))
  | skip {i s} (hs : steps[i]? = some s) (hw : s.state = .waiting) (habort : aborted = true)
      (hturn : o.parallel = false → ∀ t ∈ steps.take i, t.state.settled = true) :
      PhaseStep o aborted steps (.skipStep i)
        (.phase o .running aborted (steps.set i (s.set .skipped)))
  | settle {i s} (hs : steps[i]? = some s) (hr : s.state.isRunning = true) :
      PhaseStep o aborted steps (.settleStep i true)
        (.phase o .running aborted (steps.set i (s.set .ok)))
  | fail {i s} (hs : steps[i]? = some s) (hr : s.state.isRunning = true) :
      PhaseStep o aborted steps (.settleStep i false) (endStep o steps i s false)
  | expire {i s ok} (hs : steps[i]? = some s) (hr : s.state = .running true) :
      PhaseStep o aborted steps (.expireStep i ok) (endStep o steps i s ok)
  | finish (hall : ∀ s ∈ steps, s.state.settled = true) :
      PhaseStep o aborted steps .finish (.phase o .returned aborted steps)

theorem stepTurn_eq_true {o : Schedule} {steps : List StepRun} {i : ℕ} {s : StepRun}
    (hs : steps[i]? = some s) (h : stepTurn o steps i = true) :
    s.state = .waiting ∧
      (o.parallel = false → ∀ t ∈ steps.take i, t.state.settled = true) := by
  rw [stepTurn, Bool.and_eq_true, hs] at h
  refine ⟨by simpa using h.1, fun hseq => ?_⟩
  have hall := h.2
  rw [hseq, if_neg (by simp), List.all_eq_true] at hall
  exact hall

theorem phaseStep {o : Schedule} {aborted : Bool} {steps : List StepRun} {a : Action} {r : Run}
    (h : actPhase o aborted steps a = some r) : PhaseStep o aborted steps a r := by
  cases a with
  | startStep i =>
      obtain ⟨s, hs, h⟩ := Option.bind_eq_some_iff.mp h
      split_ifs at h with hif
      cases h
      rw [Bool.and_eq_true] at hif
      obtain ⟨hw, hturn⟩ := stepTurn_eq_true hs hif.1
      exact .start hs hw (by simpa using hif.2) hturn
  | skipStep i =>
      obtain ⟨s, hs, h⟩ := Option.bind_eq_some_iff.mp h
      split_ifs at h with hif
      cases h
      rw [Bool.and_eq_true] at hif
      obtain ⟨hw, hturn⟩ := stepTurn_eq_true hs hif.1
      exact .skip hs hw hif.2 hturn
  | settleStep i ok =>
      obtain ⟨s, hs, h⟩ := Option.bind_eq_some_iff.mp h
      split_ifs at h with hr hok
      · cases h
        rw [hok]
        exact .settle hs hr
      · cases h
        rw [Bool.not_eq_true] at hok
        rw [hok]
        exact .fail hs hr
  | expireStep i ok =>
      obtain ⟨s, hs, h⟩ := Option.bind_eq_some_iff.mp h
      split_ifs at h with hr
      cases h
      exact .expire hs hr
  | finish =>
      rw [actPhase] at h
      split_ifs at h with hall
      cases h
      exact .finish (List.all_eq_true.mp hall)
  | startChild i => cases h
  | omitChild i => cases h
  | recordChild i => cases h

/-- What an action does to a running group. -/
inductive GroupStep (o : Schedule) (aborted : Bool) (children : List Run) : Action → Run → Prop
  | start {i c} (hc : children[i]? = some c) (hw : c.life = .waiting)
      (hclear : o.parallel = false → aborted = false)
      (hturn : o.parallel = false → ∀ d ∈ children.take i, d.life.done = true) :
      GroupStep o aborted children (.startChild i)
        (.group o .running aborted (children.set i (c.begin aborted)))
  | pass {i c} (hc : children[i]? = some c) (hw : c.life = .waiting) (habort : aborted = true)
      (hseq : o.parallel = false) (hturn : ∀ d ∈ children.take i, d.life.done = true) :
      GroupStep o aborted children (.omitChild i)
        (.group o .running aborted (children.set i (c.setLife .omitted)))
  | record {i c} (hc : children[i]? = some c) (hl : c.life = .returned)
      (hok : succeeded c = true) :
      GroupStep o aborted children (.recordChild i)
        (.group o .running aborted (children.set i (c.setLife .recorded)))
  | stop {i c} (hc : children[i]? = some c) (hl : c.life = .returned)
      (hok : succeeded c = false) :
      GroupStep o aborted children (.recordChild i)
        (abort (.group o .running aborted (children.set i (c.setLife .recorded))))
  | finish (hall : ∀ c ∈ children, c.life.done = true) :
      GroupStep o aborted children .finish (.group o .returned aborted children)

theorem childTurn_eq_true {o : Schedule} {children : List Run} {i : ℕ} {c : Run}
    (hc : children[i]? = some c) (h : childTurn o children i = true) :
    c.life = .waiting ∧
      (o.parallel = false → ∀ d ∈ children.take i, d.life.done = true) := by
  rw [childTurn, Bool.and_eq_true, hc] at h
  refine ⟨by simpa using h.1, fun hseq => ?_⟩
  have hall := h.2
  rw [hseq, if_neg (by simp), List.all_eq_true] at hall
  exact hall

theorem groupStep {o : Schedule} {aborted : Bool} {children : List Run} {a : Action} {r : Run}
    (h : actGroup o aborted children a = some r) : GroupStep o aborted children a r := by
  cases a with
  | startChild i =>
      obtain ⟨c, hc, h⟩ := Option.bind_eq_some_iff.mp h
      split_ifs at h with hif
      cases h
      rw [Bool.and_eq_true, Bool.or_eq_true] at hif
      obtain ⟨hw, hturn⟩ := childTurn_eq_true hc hif.1
      refine .start hc hw (fun hseq => ?_) hturn
      simpa [hseq] using hif.2
  | omitChild i =>
      obtain ⟨c, hc, h⟩ := Option.bind_eq_some_iff.mp h
      split_ifs at h with hif
      cases h
      rw [Bool.and_eq_true, Bool.and_eq_true] at hif
      obtain ⟨hw, hturn⟩ := childTurn_eq_true hc hif.1.1
      have hseq : o.parallel = false := by simpa using hif.1.2
      exact .pass hc hw hif.2 hseq (hturn hseq)
  | recordChild i =>
      obtain ⟨c, hc, h⟩ := Option.bind_eq_some_iff.mp h
      split_ifs at h with hl hok
      · cases h
        exact .record hc hl hok
      · cases h
        exact .stop hc hl (by simpa using hok)
  | finish =>
      rw [actGroup] at h
      split_ifs at h with hall
      cases h
      exact .finish (List.all_eq_true.mp hall)
  | startStep i => cases h
  | skipStep i => cases h
  | settleStep i ok => cases h
  | expireStep i ok => cases h

/-! ### The invariant -/

/-- A group whose controller is aborted by a child of its own. -/
def Own : Run → Prop
  | .phase _ _ _ _ => True
  | .group _ _ aborted children => aborted = true → ∃ c ∈ children, Broken c

structure PhaseInv (o : Schedule) (life : Life) (aborted : Bool) (steps : List StepRun) :
    Prop where
  /-- A phase that never began has not touched its steps. -/
  fresh : life.fresh = true → aborted = false ∧ ∀ s ∈ steps, s.state = .waiting
  harmless : aborted = false → ∀ s ∈ steps, s.state ≠ .failed ∧ s.state ≠ .skipped
  ordered : o.parallel = false →
    steps.Pairwise fun s t => ¬ t.state = .waiting → s.state.settled = true
  complete : life.reported = true → ∀ s ∈ steps, s.state.settled = true

structure GroupInv (o : Schedule) (life : Life) (aborted : Bool) (children : List Run) :
    Prop where
  /-- A group that never began has not begun a child. -/
  fresh : life.fresh = true → aborted = false ∧ ∀ c ∈ children, c.life = .waiting
  /-- The running children listen to the group's signal. -/
  linked : aborted = true → ∀ c ∈ children, c.life = .running → c.aborted = true
  omits : ∀ c ∈ children, c.life = .omitted → aborted = true
  /-- Until the group is aborted, its children succeed and abort only themselves. -/
  clean : aborted = false →
    ∀ c ∈ children, (c.life = .recorded → succeeded c = true) ∧ Own c
  ordered : o.parallel = false →
    children.Pairwise fun c d => ¬ d.life = .waiting → c.life.done = true
  complete : life.reported = true → ∀ c ∈ children, c.life.done = true

/-- The invariant of a node and its immediate children. -/
def Inv : Run → Prop
  | .phase o life aborted steps => PhaseInv o life aborted steps
  | .group o life aborted children => GroupInv o life aborted children

theorem Inv.aborted_of_fresh {r : Run} (h : Inv r) (hf : r.life.fresh = true) :
    r.aborted = false := by
  cases r with
  | phase o life aborted steps => exact (PhaseInv.fresh h hf).1
  | group o life aborted children => exact (GroupInv.fresh h hf).1

theorem own_of_not_aborted {r : Run} (h : r.aborted = false) : Own r := by
  cases r with
  | phase o life aborted steps => trivial
  | group o life aborted children =>
      intro habort
      cases h.symm.trans habort

theorem own_setLife {l : Life} {r : Run} (h : Own r) : Own (r.setLife l) := by
  cases r <;> exact h

/-! ### Beginning and aborting -/

theorem inv_start (scale : ℚ) : ∀ e : Element, Everywhere Inv (start scale e)
  | .phase o timeoutMs steps => by
      rw [start, everywhere_phase]
      have hwait : ∀ s ∈ steps.map (fun s => (⟨isTimed scale timeoutMs s, .waiting⟩ : StepRun)),
          s.state = .waiting := by
        intro s hs
        obtain ⟨_, _, rfl⟩ := List.mem_map.mp hs
        rfl
      refine ⟨fun _ => ⟨rfl, hwait⟩, fun _ s hs => ?_, fun _ => ?_, nofun⟩
      · rw [hwait s hs]
        exact ⟨by simp, by simp⟩
      · exact List.Pairwise.imp_mem.mpr (List.pairwise_of_forall fun s t _ ht hne =>
          absurd (hwait t ht) hne)
  | .group o children => by
      rw [start, startAll_eq, everywhere_group]
      have hlife : ∀ e : Element, (start scale e).life = .waiting ∧
          (start scale e).aborted = false := by
        intro e
        cases e <;> exact ⟨rfl, rfl⟩
      have hwait : ∀ c ∈ children.map (start scale), c.life = .waiting ∧ c.aborted = false := by
        intro c hc
        obtain ⟨e, _, rfl⟩ := List.mem_map.mp hc
        exact hlife e
      refine ⟨⟨fun _ => ⟨rfl, fun c hc => (hwait c hc).1⟩, nofun, ?_, ?_, ?_,
        nofun⟩, ?_⟩
      · intro c hc h
        rw [(hwait c hc).1] at h
        cases h
      · intro _ c hc
        refine ⟨fun h => ?_, own_of_not_aborted (hwait c hc).2⟩
        rw [(hwait c hc).1] at h
        cases h
      · exact fun _ => List.Pairwise.imp_mem.mpr (List.pairwise_of_forall fun c d _ hd hne =>
          absurd (hwait d hd).1 hne)
      · intro c hc
        obtain ⟨e, he, rfl⟩ := List.mem_map.mp hc
        exact inv_start scale e

theorem inv_setLife {l : Life} {r : Run} (h : Everywhere Inv r)
    (hl : l = .omitted ∧ r.life = .waiting ∨ l = .recorded ∧ r.life = .returned) :
    Everywhere Inv (r.setLife l) := by
  have hsame : l.fresh = r.life.fresh ∧ l.reported = r.life.reported := by
    rcases hl with ⟨rfl, hl⟩ | ⟨rfl, hl⟩ <;> rw [hl] <;> exact ⟨rfl, rfl⟩
  cases r with
  | phase o life aborted steps =>
      have h : PhaseInv o life aborted steps := h
      refine ⟨fun hf => h.fresh ?_, h.harmless, h.ordered, fun hr => h.complete ?_⟩
      · rwa [← show l.fresh = life.fresh from hsame.1]
      · rwa [← show l.reported = life.reported from hsame.2]
  | group o life aborted children =>
      rw [everywhere_group] at h
      refine everywhere_group.mpr ⟨?_, h.2⟩
      have hg : GroupInv o life aborted children := h.1
      refine ⟨fun hf => hg.fresh ?_, hg.linked, hg.omits, hg.clean, hg.ordered,
        fun hr => hg.complete ?_⟩
      · rwa [← show l.fresh = life.fresh from hsame.1]
      · rwa [← show l.reported = life.reported from hsame.2]

theorem inv_begin {r : Run} (h : Everywhere Inv r) (hw : r.life = .waiting) (b : Bool) :
    Everywhere Inv (r.begin b) := by
  have hf : r.life.fresh = true := by rw [hw]; rfl
  cases r with
  | phase o life aborted steps =>
      have h : PhaseInv o life aborted steps := h
      have hwait := (h.fresh hf).2
      refine ⟨nofun, fun _ s hs => ?_, h.ordered, nofun⟩
      rw [hwait s hs]
      exact ⟨by simp, by simp⟩
  | group o life aborted children =>
      rw [everywhere_group] at h
      have hg : GroupInv o life aborted children := h.1
      have hwait := (hg.fresh hf).2
      refine everywhere_group.mpr
        ⟨⟨nofun, fun _ c hc h => ?_, fun c hc h => ?_, fun _ c hc => ?_,
          hg.ordered, nofun⟩, h.2⟩
      · rw [hwait c hc] at h
        cases h
      · rw [hwait c hc] at h
        cases h
      · refine ⟨fun h => ?_, own_of_not_aborted ?_⟩
        · rw [hwait c hc] at h
          cases h
        · exact (h.2 c hc).here.aborted_of_fresh (by rw [hwait c hc]; rfl)

theorem phaseInv_abort {o : Schedule} {steps : List StepRun}
    (h : o.parallel = false →
      steps.Pairwise fun s t => ¬ t.state = .waiting → s.state.settled = true) :
    PhaseInv o .running true (steps.map StepRun.disarm) := by
  refine ⟨nofun, nofun, fun hseq => ?_, nofun⟩
  rw [List.pairwise_map]
  refine (h hseq).imp fun {s t} hst hne => ?_
  rw [StepRun.disarm_state, StepState.disarm_settled]
  exact hst fun hw => hne (StepState.disarm_eq_waiting.mpr hw)

theorem groupInv_abort {o : Schedule} {children : List Run}
    (h : o.parallel = false →
      children.Pairwise fun c d => ¬ d.life = .waiting → c.life.done = true) :
    GroupInv o .running true (children.map abort) := by
  refine ⟨nofun, fun _ c hc hlife => ?_, fun _ _ _ => rfl, nofun,
    fun hseq => ?_, nofun⟩
  · obtain ⟨d, _, rfl⟩ := List.mem_map.mp hc
    exact aborted_abort (by rwa [life_abort] at hlife)
  · rw [List.pairwise_map]
    refine (h hseq).imp fun {c d} hcd hne => ?_
    rw [life_abort] at hne ⊢
    exact hcd hne

theorem inv_abort {r : Run} (h : Everywhere Inv r) : Everywhere Inv (abort r) := by
  induction r with
  | phase o life aborted steps =>
      by_cases hl : life = .running
      · subst hl
        exact phaseInv_abort (PhaseInv.ordered h)
      · rwa [abort_of_not_running (r := .phase o life aborted steps) hl]
  | group o life aborted children ih =>
      by_cases hl : life = .running
      · subst hl
        rw [everywhere_group] at h
        rw [abort_group, everywhere_group]
        refine ⟨groupInv_abort (GroupInv.ordered h.1), fun c hc => ?_⟩
        obtain ⟨d, hd, rfl⟩ := List.mem_map.mp hc
        exact ih d hd (h.2 d hd)
      · rwa [abort_of_not_running (r := .group o life aborted children) hl]

/-! ### One action -/

/-- How an action at a node or below it changes the node, as its parent sees it. -/
structure Evolves (r r' : Run) : Prop where
  running : r.life = .running
  life : r'.life = .running ∨ r'.life = .returned
  aborted : r.aborted = true → r'.aborted = true
  own : Own r → Own r'

theorem Evolves.ne_omitted {r r' : Run} (h : Evolves r r') : r'.life ≠ .omitted := by
  rcases h.life with h | h <;> rw [h] <;> simp

theorem Evolves.ne_recorded {r r' : Run} (h : Evolves r r') : r'.life ≠ .recorded := by
  rcases h.life with h | h <;> rw [h] <;> simp

/-- The invariant of a group one of whose running children evolves. -/
theorem groupInv_child {o : Schedule} {life : Life} {aborted : Bool} {children : List Run}
    {i : ℕ} {c c' : Run} (h : GroupInv o life aborted children) (hc : children[i]? = some c)
    (he : Evolves c c') : GroupInv o life aborted (children.set i c') := by
  have hmem : c ∈ children := List.mem_of_getElem? hc
  refine ⟨fun hf => ?_, fun ha => ?_, ?_, fun ha => ?_, fun hseq => ?_, fun hr => ?_⟩
  · have hw := (h.fresh hf).2 c hmem
    rw [he.running] at hw
    cases hw
  · exact forall_mem_set (h.linked ha) fun _ => he.aborted (h.linked ha c hmem he.running)
  · exact forall_mem_set h.omits fun hl => absurd hl he.ne_omitted
  · exact forall_mem_set (h.clean ha)
      ⟨fun hl => absurd hl he.ne_recorded, he.own (h.clean ha c hmem).2⟩
  · refine pairwise_set (h.ordered hseq) hc (fun hw => ?_) (fun hd => ?_)
    · rw [he.running] at hw
      cases hw
    · rw [he.running] at hd
      cases hd
  · have hd := h.complete hr c hmem
    rw [he.running] at hd
    cases hd

theorem GroupInv.running_of_child {o : Schedule} {life : Life} {aborted : Bool}
    {children : List Run} {c : Run} (h : GroupInv o life aborted children) (hc : c ∈ children)
    (hr : c.life = .running) : life = .running := by
  cases life with
  | running => rfl
  | waiting => exact absurd (hr ▸ (h.fresh rfl).2 c hc) (by simp)
  | omitted => exact absurd (hr ▸ (h.fresh rfl).2 c hc) (by simp)
  | returned => exact absurd (hr ▸ h.complete rfl c hc) (by simp [Life.done])
  | recorded => exact absurd (hr ▸ h.complete rfl c hc) (by simp [Life.done])

/-- The steps of a phase stay in order when one that is running, or whose turn it is, moves. -/
theorem ordered_step {o : Schedule} {steps : List StepRun} {i : ℕ} {s : StepRun}
    {state : StepState}
    (h : o.parallel = false →
      steps.Pairwise fun s t => ¬ t.state = .waiting → s.state.settled = true)
    (hs : steps[i]? = some s) (hns : s.state.settled = false)
    (hturn : s.state = .waiting → o.parallel = false →
      ∀ t ∈ steps.take i, t.state.settled = true) (hseq : o.parallel = false) :
    (steps.set i (s.set state)).Pairwise
      fun s t => ¬ t.state = .waiting → s.state.settled = true := by
  refine pairwise_set (h hseq) hs (fun hw => hturn hw hseq) (fun hd => ?_)
  rw [hns] at hd
  cases hd

theorem running_facts {s : StepState} (h : s.isRunning = true) :
    s.settled = false ∧ s ≠ .waiting := by
  cases s with
  | running armed => exact ⟨rfl, by simp⟩
  | _ => cases h

theorem inv_phaseStep {o : Schedule} {aborted : Bool} {steps : List StepRun} {a : Action}
    {r : Run} (h : PhaseInv o .running aborted steps) (hstep : PhaseStep o aborted steps a r) :
    Everywhere Inv r := by
  have hended : ∀ {i s} (ok : Bool), steps[i]? = some s → s.state.isRunning = true →
      Everywhere Inv (endStep o steps i s ok) := fun ok hs hr =>
    phaseInv_abort fun hseq => ordered_step h.ordered hs (running_facts hr).1
      (fun hw => absurd hw (running_facts hr).2) hseq
  cases hstep with
  | start hs hw hclear hturn =>
      refine ⟨nofun, fun _ => ?_, ?_, nofun⟩
      · exact forall_mem_set (h.harmless hclear) ⟨by simp, by simp⟩
      · exact ordered_step h.ordered hs (by rw [hw]; rfl) fun _ => hturn
  | skip hs hw habort hturn =>
      refine ⟨nofun, fun ha => ?_, ?_, nofun⟩
      · cases habort.symm.trans ha
      · exact ordered_step h.ordered hs (by rw [hw]; rfl) fun _ => hturn
  | settle hs hr =>
      refine ⟨nofun, fun ha => ?_, ?_, nofun⟩
      · exact forall_mem_set (h.harmless ha) ⟨by simp, by simp⟩
      · exact ordered_step h.ordered hs (running_facts hr).1
          fun hw => absurd hw (running_facts hr).2
  | fail hs hr => exact hended false hs hr
  | expire hs hr => exact hended _ hs (by rw [hr]; rfl)
  | finish hall =>
      exact ⟨nofun, h.harmless, h.ordered, fun _ => hall⟩

theorem evolves_phaseStep {o : Schedule} {aborted : Bool} {steps : List StepRun} {a : Action}
    {r : Run} (hstep : PhaseStep o aborted steps a r) :
    Evolves (.phase o .running aborted steps) r := by
  cases hstep with
  | start hs hw hclear hturn => exact ⟨rfl, .inl rfl, id, fun _ => trivial⟩
  | skip hs hw habort hturn => exact ⟨rfl, .inl rfl, id, fun _ => trivial⟩
  | settle hs hr => exact ⟨rfl, .inl rfl, id, fun _ => trivial⟩
  | fail hs hr => exact ⟨rfl, .inl rfl, fun _ => rfl, fun _ => trivial⟩
  | expire hs hr => exact ⟨rfl, .inl rfl, fun _ => rfl, fun _ => trivial⟩
  | finish hall => exact ⟨rfl, .inr rfl, id, fun _ => trivial⟩

/-- The children of a group stay in order when one leaves the state it is in. -/
theorem ordered_child {o : Schedule} {children : List Run} {i : ℕ} {c c' : Run}
    (h : o.parallel = false →
      children.Pairwise fun c d => ¬ d.life = .waiting → c.life.done = true)
    (hc : children[i]? = some c) (hnd : c.life.done = false)
    (hturn : c.life = .waiting → o.parallel = false →
      ∀ d ∈ children.take i, d.life.done = true) (hseq : o.parallel = false) :
    (children.set i c').Pairwise fun c d => ¬ d.life = .waiting → c.life.done = true := by
  refine pairwise_set (h hseq) hc (fun hw => hturn hw hseq) (fun hd => ?_)
  rw [hnd] at hd
  cases hd

theorem inv_groupStep {o : Schedule} {aborted : Bool} {children : List Run} {a : Action}
    {r : Run} (h : GroupInv o .running aborted children)
    (hch : ∀ c ∈ children, Everywhere Inv c) (hstep : GroupStep o aborted children a r) :
    Everywhere Inv r := by
  cases hstep with
  | start hc hw hclear hturn =>
      rename_i i c
      have hmem := List.mem_of_getElem? hc
      refine everywhere_group.mpr
        ⟨⟨nofun, fun ha => ?_, ?_, fun ha => ?_, ?_, nofun⟩, ?_⟩
      · exact forall_mem_set (h.linked ha) fun _ => by rw [aborted_begin, ha]
      · exact forall_mem_set h.omits fun hl => by rw [life_begin] at hl; cases hl
      · refine forall_mem_set (h.clean ha) ⟨fun hl => ?_, own_of_not_aborted ?_⟩
        · rw [life_begin] at hl
          cases hl
        · rw [aborted_begin, ha]
      · exact ordered_child h.ordered hc (by rw [hw]; rfl) fun _ => hturn
      · exact forall_mem_set hch (inv_begin (hch c hmem) hw aborted)
  | pass hc hw habort hseq hturn =>
      rename_i i c
      have hmem := List.mem_of_getElem? hc
      refine everywhere_group.mpr
        ⟨⟨nofun, fun ha => ?_, fun _ _ _ => habort, fun ha => ?_, ?_,
          nofun⟩, ?_⟩
      · exact forall_mem_set (h.linked ha) fun hl => by rw [life_setLife] at hl; cases hl
      · cases habort.symm.trans ha
      · exact ordered_child h.ordered hc (by rw [hw]; rfl) fun _ _ => hturn
      · exact forall_mem_set hch (inv_setLife (hch c hmem) (.inl ⟨rfl, hw⟩))
  | record hc hl hok =>
      rename_i i c
      have hmem := List.mem_of_getElem? hc
      refine everywhere_group.mpr
        ⟨⟨nofun, fun ha => ?_, ?_, fun ha => ?_, ?_, nofun⟩, ?_⟩
      · exact forall_mem_set (h.linked ha) fun hl => by rw [life_setLife] at hl; cases hl
      · exact forall_mem_set h.omits fun hl => by rw [life_setLife] at hl; cases hl
      · refine forall_mem_set (h.clean ha) ⟨fun _ => by rwa [succeeded_setLife], ?_⟩
        exact own_setLife (h.clean ha c hmem).2
      · exact ordered_child h.ordered hc (by rw [hl]; rfl)
          fun hw => absurd (hl.symm.trans hw) (by simp)
      · exact forall_mem_set hch (inv_setLife (hch c hmem) (.inr ⟨rfl, hl⟩))
  | stop hc hl hok =>
      rename_i i c
      have hmem := List.mem_of_getElem? hc
      rw [abort_group, everywhere_group]
      refine ⟨groupInv_abort ?_, fun d hd => ?_⟩
      · exact ordered_child h.ordered hc (by rw [hl]; rfl)
          fun hw => absurd (hl.symm.trans hw) (by simp)
      · obtain ⟨d', hd', rfl⟩ := List.mem_map.mp hd
        exact inv_abort (forall_mem_set hch (inv_setLife (hch c hmem) (.inr ⟨rfl, hl⟩)) d' hd')
  | finish hall =>
      exact everywhere_group.mpr
        ⟨⟨nofun, h.linked, h.omits, h.clean, h.ordered, fun _ => hall⟩, hch⟩

theorem evolves_groupStep {o : Schedule} {aborted : Bool} {children : List Run} {a : Action}
    {r : Run} (hstep : GroupStep o aborted children a r) :
    Evolves (.group o .running aborted children) r := by
  have hkept : ∀ {i c c'}, children[i]? = some c → c.life ≠ .recorded →
      Own (.group o .running aborted children) →
      Own (.group o .running aborted (children.set i c')) :=
    fun hc hl hown ha => exists_mem_set hc (fun hb => hl hb.1) (hown ha)
  cases hstep with
  | start hc hw hclear hturn => exact ⟨rfl, .inl rfl, id, hkept hc (by simp [hw])⟩
  | pass hc hw habort hseq hturn => exact ⟨rfl, .inl rfl, id, hkept hc (by simp [hw])⟩
  | record hc hl hok => exact ⟨rfl, .inl rfl, id, hkept hc (by simp [hl])⟩
  | stop hc hl hok =>
      rename_i i c
      rw [abort_group]
      refine ⟨rfl, .inl rfl, fun _ => rfl, fun _ _ => ?_⟩
      refine ⟨c.setLife .recorded, List.mem_map.mpr ⟨c.setLife .recorded, ?_, ?_⟩, ?_, ?_⟩
      · exact List.mem_set (List.getElem?_eq_some_iff.mp hc).1 _
      · exact abort_of_not_running (by simp)
      · exact life_setLife _ _
      · rwa [succeeded_setLife]
  | finish hall => exact ⟨rfl, .inr rfl, id, id⟩

theorem act_running {a : Action} {r r' : Run} (h : act a r = some r') : r.life = .running := by
  cases r with
  | phase o life aborted steps =>
      cases life with
      | running => rfl
      | _ => cases h
  | group o life aborted children =>
      cases life with
      | running => rfl
      | _ => cases h

theorem inv_act {a : Action} {r r' : Run} (hr : Everywhere Inv r) (h : act a r = some r') :
    Everywhere Inv r' ∧ Evolves r r' := by
  have hrun := act_running h
  cases r with
  | phase o life aborted steps =>
      cases hrun
      exact ⟨inv_phaseStep hr (phaseStep h), evolves_phaseStep (phaseStep h)⟩
  | group o life aborted children =>
      cases hrun
      rw [everywhere_group] at hr
      exact ⟨inv_groupStep hr.1 hr.2 (groupStep h), evolves_groupStep (groupStep h)⟩

/-- An action below a node acts on a child. -/
theorem actAt_cons {i : ℕ} {path : List ℕ} {a : Action} {r r' : Run}
    (h : actAt (i :: path) a r = some r') :
    ∃ o life aborted children c c', r = .group o life aborted children ∧
      children[i]? = some c ∧ actAt path a c = some c' ∧
      r' = .group o life aborted (children.set i c') := by
  cases r with
  | phase o life aborted steps => cases h
  | group o life aborted children =>
      obtain ⟨c, hc, h⟩ := Option.bind_eq_some_iff.mp h
      obtain ⟨c', hact, h⟩ := Option.bind_eq_some_iff.mp h
      cases h
      exact ⟨o, life, aborted, children, c, c', rfl, hc, hact, rfl⟩

theorem inv_actAt {a : Action} : ∀ {path : List ℕ} {r r' : Run}, Everywhere Inv r →
    actAt path a r = some r' → Everywhere Inv r' ∧ Evolves r r'
  | [], _, _, hr, h => inv_act hr h
  | i :: path, _, _, hr, h => by
      obtain ⟨o, life, aborted, children, c, c', rfl, hc, hact, rfl⟩ := actAt_cons h
      rw [everywhere_group] at hr ⊢
      have hmem := List.mem_of_getElem? hc
      obtain ⟨hc', hevolves⟩ := inv_actAt (hr.2 c hmem) hact
      refine ⟨⟨groupInv_child hr.1 hc hevolves, forall_mem_set hr.2 hc'⟩, ?_, ?_, id, ?_⟩
      · exact GroupInv.running_of_child hr.1 hmem hevolves.running
      · exact .inl (GroupInv.running_of_child hr.1 hmem hevolves.running)
      · exact fun hown ha => exists_mem_set hc
          (fun hb => absurd (hevolves.running.symm.trans hb.1) (by simp)) (hown ha)

/-! ### Runs -/

theorem inv_exec {r r' : Run} {ev : Event} (hr : Everywhere Inv r) (h : exec r ev = some r') :
    Everywhere Inv r' := by
  cases ev with
  | act path a => exact (inv_actAt hr h).1
  | abort =>
      cases h
      exact inv_abort hr

theorem inv_begun (scale : ℚ) (e : Element) (aborted : Bool) :
    Everywhere Inv (begun scale e aborted) :=
  inv_begin (inv_start scale e) (by cases e <;> rfl) aborted

theorem inv_run {scale : ℚ} {e : Element} {aborted : Bool} {events : List Event} {s : Run}
    (h : run (begun scale e aborted) events = some s) : Everywhere Inv s :=
  runs_induction h (inv_begun scale e aborted) fun _ _ _ _ hm hinv => inv_exec hinv hm

/-! ### Nodes by path -/

theorem Everywhere.nodeAt : ∀ {path : List ℕ} {r n : Run}, Everywhere P r →
    nodeAt path r = some n → Everywhere P n
  | [], _, _, h, hn => by
      cases hn
      exact h
  | _ :: _, .phase _ _ _ _, _, _, hn => by cases hn
  | i :: path, .group _ _ _ children, _, h, hn => by
      obtain ⟨c, hc, hn⟩ := Option.bind_eq_some_iff.mp hn
      exact ((everywhere_group.mp h).2 c (List.mem_of_getElem? hc)).nodeAt hn

/-! ### What a report says -/

/-- A node that has returned, and was aborted by nobody but itself, tells the truth when it
reports success. -/
theorem allOk_of_succeeded {r : Run} (h : Everywhere Inv r) (hown : Own r)
    (hl : r.life.reported = true) (hs : succeeded r = true) : AllOk r := by
  induction r with
  | phase o life aborted steps => exact succeeded_phase.mp hs
  | group o life aborted children ih =>
      rw [everywhere_group] at h
      have hg : GroupInv o life aborted children := h.1
      have hclear : aborted = false := by
        by_contra ha
        rw [not_succeeded_group (hown (by simpa using ha))] at hs
        cases hs
      refine allSteps_group.mpr fun c hc => ?_
      have hrec : c.life = .recorded := by
        have hdone := hg.complete hl c hc
        have homit := hg.omits c hc
        cases hlife : c.life with
        | recorded => rfl
        | omitted => cases (hclear.symm.trans (homit hlife))
        | _ => simp [hlife, Life.done] at hdone
      obtain ⟨hok, hcown⟩ := hg.clean hclear c hc
      exact ih c hc (h.2 c hc) hcown (by rw [hrec]; rfl) (hok hrec)

/-- A node whose steps all ended ok reports success. -/
theorem succeeded_of_allOk {r : Run} (h : AllOk r) : succeeded r = true := by
  induction r with
  | phase o life aborted steps => exact succeeded_phase.mpr h
  | group o life aborted children ih =>
      exact succeeded_group.mpr fun c hc _ => ih c hc (allSteps_group.mp h c hc)

end WireTools.ClusterBuild
