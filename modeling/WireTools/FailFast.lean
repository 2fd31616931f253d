import WireTools.BuildInvariants

/-! # Failing fast

* `ClearAt`: what a node must look like for its step or child `i` to begin; a step that starts
  finds every node above it clear (`clear_of_start`);
* `began`: whether a step was started, which changes only in the event that starts it, so no
  step is started twice (`run_began`);
* a run without failures and aborts leaves no node aborted, can go on until its root has
  returned (`calm_progress`), and has then started every step (`failFast`). -/

namespace WireTools.ClusterBuild

/-! ### What a start finds -/

/-- Nothing that was recorded keeps the node from beginning its step or child `i`. -/
def ClearAt (i : ℕ) : Run → Prop
  | .phase o _ aborted steps =>
      aborted = false ∧ (∀ s ∈ steps, s.state ≠ .failed) ∧
        (o.parallel = false → ∀ s ∈ steps.take i, s.state = .ok)
  | .group o _ aborted children =>
      aborted = false ∧ (∀ c ∈ children, ¬ Broken c) ∧
        (o.parallel = false → ∀ c ∈ children.take i, AllOk c)

theorem ClearAt.not_aborted {i : ℕ} {r : Run} (h : ClearAt i r) : r.aborted = false := by
  cases r <;> exact h.1

/-- A group that is not aborted has seen the children it is done with succeed. -/
theorem allOk_of_done {o : Schedule} {life : Life} {children : List Run} {c : Run}
    (h : GroupInv o life false children) (hc : c ∈ children) (hinv : Everywhere Inv c)
    (hd : c.life.done = true) : AllOk c := by
  have hrec : c.life = .recorded := by
    cases hl : c.life with
    | recorded => rfl
    | omitted => cases h.omits c hc hl
    | _ => simp [hl, Life.done] at hd
  obtain ⟨hok, hown⟩ := h.clean rfl c hc
  exact allOk_of_succeeded hinv hown (by rw [hrec]; rfl) (hok hrec)

theorem ok_of_settled {s : StepState} (h : s.settled = true)
    (hne : s ≠ .failed ∧ s ≠ .skipped) : s = .ok := by
  cases s with
  | ok => rfl
  | failed => exact absurd rfl hne.1
  | skipped => exact absurd rfl hne.2
  | _ => cases h

theorem clearAt_phase {o : Schedule} {aborted : Bool} {steps : List StepRun} {j : ℕ} {r : Run}
    (h : PhaseInv o .running aborted steps)
    (hact : actPhase o aborted steps (.startStep j) = some r) :
    ClearAt j (.phase o .running aborted steps) := by
  cases phaseStep hact with
  | start hs hw hclear hturn =>
      have hgood := h.harmless hclear
      refine ⟨hclear, fun s hs => (hgood s hs).1, fun hseq s hs => ?_⟩
      exact ok_of_settled (hturn hseq s hs) (hgood s (List.mem_of_mem_take hs))

theorem clearAt_group {o : Schedule} {life : Life} {aborted : Bool} {children : List Run}
    {i : ℕ} {c : Run} (h : GroupInv o life aborted children)
    (hch : ∀ c ∈ children, Everywhere Inv c) (hc : children[i]? = some c)
    (hr : c.life = .running) (hca : c.aborted = false) :
    ClearAt i (.group o life aborted children) := by
  have hmem := List.mem_of_getElem? hc
  have hclear : aborted = false := by
    by_contra ha
    cases hca.symm.trans (h.linked (by simpa using ha) c hmem hr)
  subst hclear
  refine ⟨rfl, fun d hd hb => ?_, fun hseq d hd => ?_⟩
  · cases hb.2.symm.trans ((h.clean rfl d hd).1 hb.1)
  · have hdone : d.life.done = true :=
      pairwise_take (h.ordered hseq) hc d hd (by rw [hr]; simp)
    have hdmem := List.mem_of_mem_take hd
    exact allOk_of_done h hdmem (hch d hdmem) hdone

/-- A step that starts finds the nodes on its path clear. -/
theorem clear_of_start {j : ℕ} : ∀ {path : List ℕ} {r r' : Run}, Everywhere Inv r →
    actAt path (.startStep j) r = some r' →
    ∀ before i after n, path ++ [j] = before ++ i :: after → nodeAt before r = some n →
      ClearAt i n
  | [], r, r', hr, h, [], i, after, n, hpath, hn => by
      obtain ⟨rfl, _⟩ := List.cons.inj hpath
      cases hn
      have hrun := act_running h
      cases r with
      | phase o life aborted steps =>
          cases hrun
          exact clearAt_phase hr h
      | group o life aborted children =>
          cases hrun
          cases h
  | [], _, _, _, _, b :: before, i, after, _, hpath, _ => by
      have hlen := congrArg List.length hpath
      simp at hlen
  | k :: path, _, _, hr, h, before, i, after, n, hpath, hn => by
      obtain ⟨o, life, aborted, children, c, c', rfl, hc, hact, rfl⟩ := actAt_cons h
      rw [everywhere_group] at hr
      have hmem := List.mem_of_getElem? hc
      have hinv := hr.2 c hmem
      cases before with
      | nil =>
          obtain ⟨rfl, _⟩ := List.cons.inj hpath
          cases hn
          have hclear : c.aborted = false := by
            cases path with
            | nil => exact (clear_of_start hinv hact [] j [] c rfl rfl).not_aborted
            | cons k' path =>
                exact (clear_of_start hinv hact [] k' (path ++ [j]) c rfl rfl).not_aborted
          exact clearAt_group hr.1 hr.2 hc (inv_actAt hinv hact).2.running hclear
      | cons b before =>
          obtain ⟨rfl, hrest⟩ := List.cons.inj hpath
          have hn : nodeAt before c = some n := by simpa [nodeAt, hc] using hn
          exact clear_of_start hinv hact before i after n hrest hn

/-! ### Starts of one step -/

/-- Whether the step was started, where the path leads to one. -/
def began (path : List ℕ) (j : ℕ) (r : Run) : Option Bool :=
  (stateAt path j r).map StepState.launched

theorem began_phase {j : ℕ} {o life aborted steps} :
    began [] j (.phase o life aborted steps) =
      (steps[j]?).map fun s => s.state.launched := by
  rw [began, stateAt, nodeAt, Option.map_map]
  rfl

theorem began_group {j : ℕ} {o life aborted children} :
    began [] j (.group o life aborted children) = none :=
  rfl

theorem began_cons {k : ℕ} {path : List ℕ} {j : ℕ} {o life aborted children} :
    began (k :: path) j (.group o life aborted children) =
      (children[k]?).bind (began path j) := by
  rw [began, stateAt, nodeAt]
  cases children[k]? <;> rfl

theorem began_setLife {path : List ℕ} {j : ℕ} {l : Life} {r : Run} :
    began path j (r.setLife l) = began path j r := by
  cases r <;> cases path <;> rfl

theorem began_begin {path : List ℕ} {j : ℕ} {b : Bool} {r : Run} :
    began path j (r.begin b) = began path j r := by
  cases r <;> cases path <;> rfl

theorem began_abort {j : ℕ} {r : Run} :
    ∀ {path : List ℕ}, began path j (abort r) = began path j r := by
  induction r with
  | phase o life aborted steps =>
      intro path
      by_cases hl : life = .running
      · subst hl
        cases path with
        | nil =>
            rw [abort_phase, began_phase, began_phase, List.getElem?_map, Option.map_map]
            congr 1
            funext s
            exact StepState.disarm_launched s.state
        | cons k path => rfl
      · rw [abort_of_not_running (r := .phase o life aborted steps) hl]
  | group o life aborted children ih =>
      intro path
      by_cases hl : life = .running
      · subst hl
        rw [abort_group]
        cases path with
        | nil => rfl
        | cons k path =>
            rw [began_cons, began_cons, List.getElem?_map]
            cases hk : children[k]? with
            | none => rfl
            | some c => exact ih c (List.mem_of_getElem? hk)
      · rw [abort_of_not_running (r := .group o life aborted children) hl]

theorem began_set_child {i k : ℕ} {path : List ℕ} {j : ℕ} {o life aborted} {children : List Run}
    {c c' : Run} (hc : children[i]? = some c) (h : began path j c' = began path j c ∨ k ≠ i) :
    began (k :: path) j (.group o life aborted (children.set i c')) =
      began (k :: path) j (.group o life aborted children) := by
  rw [began_cons, began_cons]
  by_cases hki : k = i
  · subst hki
    rw [List.getElem?_set_self (List.getElem?_eq_some_iff.mp hc).1, hc]
    rcases h with h | h
    · exact h
    · exact absurd rfl h
  · rw [List.getElem?_set_ne (Ne.symm hki)]

theorem began_set_step {i j : ℕ} {o life aborted} {steps : List StepRun} {s : StepRun}
    {state : StepState} (hs : steps[i]? = some s)
    (h : state.launched = s.state.launched ∨ j ≠ i) :
    began [] j (.phase o life aborted (steps.set i (s.set state))) =
      began [] j (.phase o life aborted steps) := by
  rw [began_phase, began_phase]
  by_cases hji : j = i
  · subst hji
    rw [List.getElem?_set_self (List.getElem?_eq_some_iff.mp hs).1, hs]
    rcases h with h | h
    · exact congrArg some h
    · exact absurd rfl h
  · rw [List.getElem?_set_ne (Ne.symm hji)]

/-- What an event at `q` does to the step `j` of the phase at `path`. -/
def Began (path : List ℕ) (j : ℕ) (q : List ℕ) (a : Action) (r r' : Run) : Prop :=
  if q = path ∧ a = .startStep j then began path j r = some false ∧ began path j r' = some true
  else began path j r' = began path j r

theorem launched_of_running {s : StepState} (h : s.isRunning = true) : s.launched = true := by
  cases s with
  | running armed => rfl
  | _ => cases h

theorem began_phaseStep {path : List ℕ} {j : ℕ} {o : Schedule} {aborted : Bool}
    {steps : List StepRun} {a : Action} {r : Run} (hstep : PhaseStep o aborted steps a r) :
    Began path j [] a (.phase o .running aborted steps) r := by
  cases path with
  | cons k path =>
      rw [Began, if_neg (by simp)]
      cases hstep <;> rfl
  | nil =>
      have hended : ∀ {i s} (ok : Bool), steps[i]? = some s → s.state.isRunning = true →
          began [] j (endStep o steps i s ok) = began [] j (.phase o .running aborted steps) := by
        intro i s ok hs hr
        rw [endStep, began_abort, began_set_step (o := o) hs (.inl ?_), began_phase, began_phase]
        rw [launched_of_running hr]
        cases ok <;> rfl
      rw [Began]
      cases hstep with
      | start hs hw hclear hturn =>
          rename_i i s
          by_cases hij : i = j
          · subst hij
            rw [if_pos ⟨rfl, rfl⟩, began_phase, began_phase, hs,
              List.getElem?_set_self (List.getElem?_eq_some_iff.mp hs).1]
            refine ⟨?_, rfl⟩
            rw [Option.map_some, hw]
            rfl
          · rw [if_neg fun h => hij (Action.startStep.inj h.2),
              began_set_step hs (.inr (Ne.symm hij))]
      | skip hs hw habort hturn =>
          rw [if_neg (by simp), began_set_step hs (.inl (by rw [hw]; rfl))]
      | settle hs hr =>
          rw [if_neg (by simp), began_set_step hs (.inl (by rw [launched_of_running hr]; rfl))]
      | fail hs hr =>
          rw [if_neg (by simp)]
          exact hended false hs hr
      | expire hs hr =>
          rw [if_neg (by simp)]
          exact hended _ hs (by rw [hr]; rfl)
      | finish hall =>
          rw [if_neg (by simp)]
          rfl

theorem began_groupStep {path : List ℕ} {j : ℕ} {o : Schedule} {aborted : Bool}
    {children : List Run} {a : Action} {r : Run} (hstep : GroupStep o aborted children a r) :
    Began path j [] a (.group o .running aborted children) r := by
  have hsame : began path j r = began path j (.group o .running aborted children) := by
    cases path with
    | nil =>
        cases hstep with
        | stop hc hl hok => rw [began_abort, began_group, began_group]
        | _ => rfl
    | cons k path =>
        cases hstep with
        | start hc hw hclear hturn => exact began_set_child hc (.inl began_begin)
        | pass hc hw habort hseq hturn => exact began_set_child hc (.inl began_setLife)
        | record hc hl hok => exact began_set_child hc (.inl began_setLife)
        | stop hc hl hok =>
            rw [began_abort]
            exact began_set_child hc (.inl began_setLife)
        | finish hall => rw [began_cons, began_cons]
  rw [Began, if_neg]
  · exact hsame
  · rintro ⟨_, rfl⟩
    cases hstep

theorem began_actAt {path : List ℕ} {j : ℕ} {a : Action} : ∀ {q : List ℕ} {r r' : Run},
    actAt q a r = some r' → Began path j q a r r'
  | [], r, r', h => by
      have hrun := act_running h
      cases r with
      | phase o life aborted steps =>
          cases hrun
          exact began_phaseStep (phaseStep h)
      | group o life aborted children =>
          cases hrun
          exact began_groupStep (groupStep h)
  | i :: q, _, _, h => by
      obtain ⟨o, life, aborted, children, c, c', rfl, hc, hact, rfl⟩ := actAt_cons h
      cases path with
      | nil =>
          rw [Began, if_neg (by simp)]
          rfl
      | cons k path =>
          have hgetk : k = i → (children.set i c')[k]? = some c' := by
            rintro rfl
            exact List.getElem?_set_self (List.getElem?_eq_some_iff.mp hc).1
          have ih : Began path j q a c c' := began_actAt hact
          rw [Began] at ih ⊢
          by_cases hq : q = path ∧ a = .startStep j
          · rw [if_pos hq] at ih
            by_cases hki : k = i
            · rw [if_pos ⟨by rw [hki, hq.1], hq.2⟩, began_cons, began_cons, hgetk hki, hki, hc]
              exact ih
            · rw [if_neg fun h => hki (List.cons.inj h.1).1.symm]
              exact began_set_child hc (.inr hki)
          · rw [if_neg hq] at ih
            rw [if_neg fun h => hq ⟨(List.cons.inj h.1).2, h.2⟩]
            exact began_set_child hc (.inl ih)

/-- A run starts a step never or once: once exactly when it was not started and now is. -/
theorem run_began {path : List ℕ} {j : ℕ} {events : List Event} {r s : Run}
    (h : run r events = some s) :
    (began path j s = began path j r ∧ events.count (.act path (.startStep j)) = 0) ∨
      (began path j r = some false ∧ began path j s = some true ∧
        events.count (.act path (.startStep j)) = 1) := by
  induction events generalizing r with
  | nil =>
      cases h
      exact .inl ⟨rfl, rfl⟩
  | cons ev events ih =>
      obtain ⟨m, hm, hrest⟩ := runs_cons.mp h
      rw [List.count_cons]
      by_cases hev : ev = .act path (.startStep j)
      · subst hev
        have hact : Began path j path (.startStep j) r m := began_actAt hm
        rw [Began, if_pos ⟨rfl, rfl⟩] at hact
        rcases ih hrest with ⟨hs, hcount⟩ | ⟨hfalse, _, _⟩
        · exact .inr ⟨hact.1, hs.trans hact.2, by simp [hcount]⟩
        · cases hfalse.symm.trans hact.2
      · have hsame : began path j m = began path j r := by
          cases ev with
          | act q a =>
              have hact : Began path j q a r m := began_actAt hm
              rw [Began, if_neg fun h => hev (by rw [h.1, h.2])] at hact
              exact hact
          | abort =>
              cases hm
              exact began_abort
        rw [if_neg (by simpa using hev), ← hsame]
        exact ih hrest

theorem began_start {scale : ℚ} {j : ℕ} : ∀ {path : List ℕ} {e : Element},
    registered path j e = true → began path j (start scale e) = some false
  | [], .phase o timeoutMs steps, h => by
      have hj : j < steps.length := by simpa [registered] using h
      rw [start, began_phase, List.getElem?_map, List.getElem?_eq_getElem hj]
      rfl
  | [], .group o children, h => by cases h
  | k :: path, .phase o timeoutMs steps, h => by cases h
  | k :: path, .group o children, h => by
      rw [registered] at h
      cases hk : children[k]? with
      | none => simp [hk] at h
      | some e =>
          rw [hk] at h
          rw [start, startAll_eq, began_cons, List.getElem?_map, hk]
          exact began_start h

/-! ### Runs without failures and aborts -/

/-- No step fails or times out in the action. -/
def Action.calm : Action → Bool
  | .settleStep _ ok => ok
  | .expireStep _ _ => false
  | _ => true

/-- Nor is the signal of the run aborted. -/
def Event.calm : Event → Bool
  | .act _ a => a.calm
  | .abort => false

def Quiet (r : Run) : Prop :=
  r.aborted = false

theorem allOk_of_quiet {r : Run} (h : Everywhere Inv r) (hq : Everywhere Quiet r)
    (hl : r.life.reported = true) : AllOk r := by
  induction r with
  | phase o life aborted steps =>
      have h : PhaseInv o life aborted steps := h
      exact fun s hs => ok_of_settled (h.complete hl s hs) (h.harmless hq s hs)
  | group o life aborted children ih =>
      rw [everywhere_group] at h hq
      have hg : GroupInv o life aborted children := h.1
      obtain rfl : aborted = false := hq.1
      exact allSteps_group.mpr fun c hc =>
        allOk_of_done hg hc (h.2 c hc) (hg.complete hl c hc)

theorem quiet_setLife {l : Life} {r : Run} (h : Everywhere Quiet r) :
    Everywhere Quiet (r.setLife l) := by
  cases r with
  | phase o life aborted steps => exact h
  | group o life aborted children =>
      rw [everywhere_group] at h
      exact everywhere_group.mpr h

theorem quiet_begin {r : Run} (h : Everywhere Quiet r) : Everywhere Quiet (r.begin false) := by
  cases r with
  | phase o life aborted steps => exact rfl
  | group o life aborted children =>
      rw [everywhere_group] at h
      exact everywhere_group.mpr ⟨rfl, h.2⟩

theorem quiet_start (scale : ℚ) : ∀ e : Element, Everywhere Quiet (start scale e)
  | .phase o timeoutMs steps => rfl
  | .group o children => by
      rw [start, startAll_eq, everywhere_group]
      refine ⟨rfl, fun c hc => ?_⟩
      obtain ⟨e, _, rfl⟩ := List.mem_map.mp hc
      exact quiet_start scale e

theorem quiet_groupStep {o : Schedule} {children : List Run} {a : Action} {r : Run}
    (hinv : ∀ c ∈ children, Everywhere Inv c) (hq : ∀ c ∈ children, Everywhere Quiet c)
    (hstep : GroupStep o false children a r) : Everywhere Quiet r := by
  cases hstep with
  | start hc hw hclear hturn =>
      exact everywhere_group.mpr
        ⟨rfl, forall_mem_set hq (quiet_begin (hq _ (List.mem_of_getElem? hc)))⟩
  | pass hc hw habort hseq hturn => cases habort
  | record hc hl hok =>
      exact everywhere_group.mpr
        ⟨rfl, forall_mem_set hq (quiet_setLife (hq _ (List.mem_of_getElem? hc)))⟩
  | stop hc hl hok =>
      have hmem := List.mem_of_getElem? hc
      have hall := allOk_of_quiet (hinv _ hmem) (hq _ hmem) (by rw [hl]; rfl)
      cases hok.symm.trans (succeeded_of_allOk hall)
  | finish hall => exact everywhere_group.mpr ⟨rfl, hq⟩

theorem quiet_actAt {a : Action} : ∀ {path : List ℕ} {r r' : Run}, Everywhere Inv r →
    Everywhere Quiet r → a.calm = true → actAt path a r = some r' →
    Everywhere Quiet r'
  | [], r, r', hinv, hq, hcalm, h => by
      have hrun := act_running h
      cases r with
      | phase o life aborted steps =>
          cases hrun
          obtain rfl : aborted = false := hq
          cases phaseStep h with
          | start hs hw hclear hturn => exact rfl
          | skip hs hw habort hturn => cases habort
          | settle hs hr => exact rfl
          | fail hs hr => cases hcalm
          | expire hs hr => cases hcalm
          | finish hall => exact rfl
      | group o life aborted children =>
          cases hrun
          rw [everywhere_group] at hinv hq
          obtain rfl : aborted = false := hq.1
          exact quiet_groupStep hinv.2 hq.2 (groupStep h)
  | i :: path, _, _, hinv, hq, hcalm, h => by
      obtain ⟨o, life, aborted, children, c, c', rfl, hc, hact, rfl⟩ := actAt_cons h
      rw [everywhere_group] at hinv hq ⊢
      have hmem := List.mem_of_getElem? hc
      refine ⟨hq.1, forall_mem_set hq.2 ?_⟩
      exact quiet_actAt (hinv.2 c hmem) (hq.2 c hmem) hcalm hact

theorem quiet_run {scale : ℚ} {e : Element} {events : List Event} {s : Run}
    (h : run (begun scale e false) events = some s) (hcalm : ∀ ev ∈ events, ev.calm = true) :
    Everywhere Quiet s := by
  have hboth : Everywhere Inv s ∧ Everywhere Quiet s := by
    refine runs_induction (motive := fun m => Everywhere Inv m ∧ Everywhere Quiet m) h
      ⟨inv_begun scale e false, quiet_begin (quiet_start scale e)⟩ ?_
    intro m m' ev hev hm hboth
    refine ⟨inv_exec hboth.1 hm, ?_⟩
    have hc := hcalm ev hev
    cases ev with
    | act path a => exact quiet_actAt hboth.1 hboth.2 hc hm
    | abort => cases hc
  exact hboth.2

/-! ### Going on -/

theorem Schedule.hasRoom_zero (o : Schedule) : o.hasRoom 0 = true := by
  unfold Schedule.hasRoom
  cases o.concurrency with
  | none => rfl
  | some limit => cases limit <;> rfl

theorem stepTurn_of_first {o : Schedule} {before after : List StepRun} {s : StepRun}
    (hw : s.state = .waiting) (hbefore : ∀ t ∈ before, t.state.settled = true)
    (hidle : ∀ t ∈ before ++ s :: after, t.state.isRunning = false) :
    stepTurn o (before ++ s :: after) before.length = true := by
  rw [stepTurn, Bool.and_eq_true]
  refine ⟨by simp [hw], ?_⟩
  split_ifs with hpar
  · rw [List.countP_eq_zero.mpr fun t ht => by simp [hidle t ht]]
    exact o.hasRoom_zero
  · rw [List.take_left, List.all_eq_true]
    exact hbefore

theorem childTurn_of_first {o : Schedule} {before after : List Run} {c : Run}
    (hw : c.life = .waiting) (hbefore : ∀ d ∈ before, d.life.done = true)
    (hidle : ∀ d ∈ before ++ c :: after, d.life.busy = false) :
    childTurn o (before ++ c :: after) before.length = true := by
  rw [childTurn, Bool.and_eq_true]
  refine ⟨by simp [hw], ?_⟩
  split_ifs with hpar
  · rw [List.countP_eq_zero.mpr fun d hd => by simp [hidle d hd]]
    exact o.hasRoom_zero
  · rw [List.take_left, List.all_eq_true]
    exact hbefore

theorem progress_phase (o : Schedule) (steps : List StepRun) :
    ∃ a r, a.calm = true ∧ actPhase o false steps a = some r := by
  by_cases hall : steps.all fun s => s.state.settled
  · exact ⟨.finish, _, rfl, by rw [actPhase, if_pos hall]⟩
  by_cases hrun : ∃ s ∈ steps, s.state.isRunning = true
  · obtain ⟨s, hs, hr⟩ := hrun
    obtain ⟨i, hi⟩ := List.mem_iff_getElem?.mp hs
    exact ⟨.settleStep i true, _, rfl,
      Option.bind_eq_some_iff.mpr ⟨s, hi, by rw [if_pos hr, if_pos rfl]⟩⟩
  · have hopen : ∃ s ∈ steps, ¬ s.state.settled = true := by
      by_contra hno
      refine hall (List.all_eq_true.mpr fun s hs => ?_)
      by_contra hns
      exact hno ⟨s, hs, hns⟩
    obtain ⟨before, s, after, rfl, hbefore, hs⟩ := exists_first hopen
    have hidle : ∀ t ∈ before ++ s :: after, t.state.isRunning = false := by
      intro t ht
      by_contra htr
      exact hrun ⟨t, ht, by simpa using htr⟩
    have hw : s.state = .waiting := by
      have hsr := hidle s (by simp)
      cases hstate : s.state with
      | waiting => rfl
      | running armed => simp [hstate, StepState.isRunning] at hsr
      | _ => simp [hstate, StepState.settled] at hs
    have hturn := stepTurn_of_first (o := o) hw
      (fun t ht => by simpa using hbefore t ht) hidle
    exact ⟨.startStep before.length, _, rfl,
      Option.bind_eq_some_iff.mpr ⟨s, by simp, by rw [hturn]; rfl⟩⟩

theorem actGroup_startChild {o : Schedule} {children : List Run} {i : ℕ} {c : Run}
    (hc : children[i]? = some c) (hturn : childTurn o children i = true) :
    actGroup o false children (.startChild i) =
      some (.group o .running false (children.set i (c.begin false))) :=
  Option.bind_eq_some_iff.mpr ⟨c, hc, by rw [hturn, if_pos (by simp)]⟩

/-- A running node that nothing was aborted in can take a calm action. -/
theorem calm_progress {r : Run} (hq : Everywhere Quiet r) (hl : r.life = .running) :
    ∃ path a r', a.calm = true ∧ actAt path a r = some r' := by
  induction r with
  | phase o life aborted steps =>
      cases hl
      obtain rfl : aborted = false := hq
      obtain ⟨a, r, hcalm, hact⟩ := progress_phase o steps
      exact ⟨[], a, r, hcalm, hact⟩
  | group o life aborted children ih =>
      cases hl
      rw [everywhere_group] at hq
      obtain rfl : aborted = false := hq.1
      by_cases hall : children.all fun c => c.life.done
      · exact ⟨[], .finish, _, rfl, by rw [actAt, act, actGroup, if_pos hall]⟩
      by_cases hrun : ∃ c ∈ children, c.life = .running
      · obtain ⟨c, hc, hr⟩ := hrun
        obtain ⟨i, hi⟩ := List.mem_iff_getElem?.mp hc
        obtain ⟨path, a, c', hcalm, hact⟩ := ih c hc (hq.2 c hc) hr
        refine ⟨i :: path, a, .group o .running false (children.set i c'), hcalm, ?_⟩
        exact Option.bind_eq_some_iff.mpr
          ⟨c, hi, Option.bind_eq_some_iff.mpr ⟨c', hact, rfl⟩⟩
      by_cases hret : ∃ c ∈ children, c.life = .returned
      · obtain ⟨c, hc, hr⟩ := hret
        obtain ⟨i, hi⟩ := List.mem_iff_getElem?.mp hc
        have hact : ∃ r', actGroup o false children (.recordChild i) = some r' := by
          cases hok : succeeded c with
          | true => exact ⟨_, Option.bind_eq_some_iff.mpr
              ⟨c, hi, by rw [if_pos hr, if_pos hok]⟩⟩
          | false => exact ⟨_, Option.bind_eq_some_iff.mpr
              ⟨c, hi, by rw [if_pos hr, if_neg (by simp [hok])]⟩⟩
        obtain ⟨r', hr'⟩ := hact
        exact ⟨[], .recordChild i, r', rfl, hr'⟩
      · have hopen : ∃ c ∈ children, ¬ c.life.done = true := by
          by_contra hno
          refine hall (List.all_eq_true.mpr fun c hc => ?_)
          by_contra hnd
          exact hno ⟨c, hc, hnd⟩
        obtain ⟨before, c, after, rfl, hbefore, hc⟩ := exists_first hopen
        have hidle : ∀ d ∈ before ++ c :: after, d.life.busy = false := by
          intro d hd
          cases hdl : d.life with
          | running => exact absurd ⟨d, hd, hdl⟩ hrun
          | returned => exact absurd ⟨d, hd, hdl⟩ hret
          | _ => rfl
        have hw : c.life = .waiting := by
          have hcb := hidle c (by simp)
          cases hcl : c.life with
          | waiting => rfl
          | recorded => simp [hcl, Life.done] at hc
          | omitted => simp [hcl, Life.done] at hc
          | _ => simp [hcl, Life.busy] at hcb
        have hturn := childTurn_of_first (o := o) hw
          (fun d hd => by simpa using hbefore d hd) hidle
        exact ⟨[], .startChild before.length, _, rfl,
          actGroup_startChild (c := c) (by simp) hturn⟩

/-- What an action leaves of a node that is in flight. -/
theorem busy_run {scale : ℚ} {e : Element} {aborted : Bool} {events : List Event} {s : Run}
    (h : run (begun scale e aborted) events = some s) :
    s.life = .running ∨ s.life = .returned := by
  have hboth : Everywhere Inv s ∧ (s.life = .running ∨ s.life = .returned) := by
    refine runs_induction
      (motive := fun m => Everywhere Inv m ∧ (m.life = .running ∨ m.life = .returned)) h
      ⟨inv_begun scale e aborted, .inl (life_begin _ _)⟩ ?_
    intro m m' ev _ hm hboth
    refine ⟨inv_exec hboth.1 hm, ?_⟩
    cases ev with
    | act path a => exact (inv_actAt hboth.1 hm).2.life
    | abort =>
        cases hm
        rw [life_abort]
        exact hboth.2
  exact hboth.2

/-- A run without failures and aborts that cannot go on has every step ok. -/
theorem allOk_of_calm {scale : ℚ} {e : Element} {events : List Event} {s : Run}
    (h : run (begun scale e false) events = some s) (hcalm : ∀ ev ∈ events, ev.calm = true)
    (hend : ∀ ev, ev.calm = true → exec s ev = none) : AllOk s := by
  have hq := quiet_run h hcalm
  have hret : s.life = .returned := by
    rcases busy_run h with hl | hl
    · obtain ⟨path, a, s', hc, hact⟩ := calm_progress hq hl
      cases (hend (.act path a) hc).symm.trans hact
    · exact hl
  exact allOk_of_quiet (inv_run h) hq (by rw [hret]; rfl)

theorem began_of_allOk {j : ℕ} {b : Bool} : ∀ {path : List ℕ} {r : Run},
    AllOk r → began path j r = some b → b = true
  | [], .phase o life aborted steps, h, hb => by
      rw [began_phase] at hb
      obtain ⟨s, hs, rfl⟩ := Option.map_eq_some_iff.mp hb
      rw [allSteps_phase.mp h s (List.mem_of_getElem? hs)]
      rfl
  | [], .group o life aborted children, _, hb => by cases hb
  | _ :: _, .phase o life aborted steps, _, hb => by cases hb
  | k :: path, .group o life aborted children, h, hb => by
      rw [began_cons] at hb
      obtain ⟨c, hc, hb⟩ := Option.bind_eq_some_iff.mp hb
      exact began_of_allOk (allSteps_group.mp h c (List.mem_of_getElem? hc)) hb

/-! ### Failing fast -/

/-- In every run of every element no step is started twice, a step that starts finds every
node above it clear, and a run without failures and aborts that goes on as long as it can
starts every step once. -/
theorem failFast {scale : ℚ} {e : Element} {aborted : Bool} {events : List Event} {s : Run}
    (h : run (begun scale e aborted) events = some s) (path : List ℕ) (j : ℕ) :
    events.count (.act path (.startStep j)) ≤ 1 ∧
      (∀ s', exec s (.act path (.startStep j)) = some s' →
        ∀ before i after n, path ++ [j] = before ++ i :: after → nodeAt before s = some n →
          ClearAt i n) ∧
      (aborted = false → (∀ ev ∈ events, ev.calm = true) →
        (∀ ev, ev.calm = true → exec s ev = none) → registered path j e = true →
        events.count (.act path (.startStep j)) = 1) := by
  have hcount := @run_began path j _ _ _ h
  refine ⟨?_, fun s' hs' => clear_of_start (inv_run h) hs', ?_⟩
  · rcases hcount with ⟨_, hcount⟩ | ⟨_, _, hcount⟩ <;> omega
  · rintro rfl hcalm hend hreg
    rcases hcount with ⟨hsame, _⟩ | ⟨_, _, hcount⟩
    · rw [begun, began_begin, began_start hreg] at hsame
      cases began_of_allOk (allOk_of_calm h hcalm hend) hsame
    · exact hcount

/-- A parallel group of a phase with two steps and one with one step. -/
def parallelPhases : Element :=
  buildRoot [.group ⟨true, none⟩
    [.phase ⟨false, none⟩ none [⟨none⟩, ⟨none⟩], .phase ⟨false, none⟩ none [⟨none⟩]]]

/-- Both phases are under way, and the second step of the first one is next. -/
def parallelPhasesFirst : List Event :=
  [.act [] (.startChild 0), .act [0] (.startChild 1), .act [0] (.startChild 0),
    .act [0, 0] (.startStep 0), .act [0, 1] (.startStep 0), .act [0, 0] (.settleStep 0 true)]

def parallelPhasesRest : List Event :=
  [.act [0, 0] (.startStep 1), .act [0, 1] (.settleStep 0 true), .act [0, 1] .finish,
    .act [0] (.recordChild 1), .act [0, 0] (.settleStep 1 true), .act [0, 0] .finish,
    .act [0] (.recordChild 0), .act [0] .finish, .act [] (.recordChild 0), .act [] .finish]

def parallelPhasesGroup : Run :=
  .group ⟨true, none⟩ .running false
    [.phase ⟨false, none⟩ .running false [⟨false, .ok⟩, ⟨false, .waiting⟩],
      .phase ⟨false, none⟩ .running false [⟨false, .running false⟩]]

def parallelPhasesEnd : Run :=
  .group ⟨false, none⟩ .returned false
    [.group ⟨true, none⟩ .recorded false
      [.phase ⟨false, none⟩ .recorded false [⟨false, .ok⟩, ⟨false, .ok⟩],
        .phase ⟨false, none⟩ .recorded false [⟨false, .ok⟩]]]

theorem failFast_parallel :
    (parallelPhasesFirst ++ parallelPhasesRest).count (.act [0, 0] (.startStep 1)) = 1 ∧
      run (begun 1 parallelPhases false) parallelPhasesFirst =
        some (.group ⟨false, none⟩ .running false [parallelPhasesGroup]) ∧
      ClearAt 0 parallelPhasesGroup := by
  have hrun : run (begun 1 parallelPhases false) (parallelPhasesFirst ++ parallelPhasesRest) =
      some parallelPhasesEnd := rfl
  have hfirst : run (begun 1 parallelPhases false) parallelPhasesFirst =
      some (.group ⟨false, none⟩ .running false [parallelPhasesGroup]) := rfl
  refine ⟨(failFast hrun [0, 0] 1).2.2 rfl (by decide) ?_ rfl, hfirst,
    (failFast hfirst [0, 0] 1).2.1 _ rfl [0] 0 [1] _ rfl rfl⟩
  intro ev hcalm
  cases ev with
  | abort => cases hcalm
  | act path a =>
      match path with
      | [] => rfl
      | [0] => rfl
      | [0, 0] => rfl
      | [0, 1] => rfl
      | 0 :: (_ + 2) :: _ => rfl
      | 0 :: 0 :: _ :: _ => rfl
      | 0 :: 1 :: _ :: _ => rfl
      | (_ + 1) :: _ => rfl

end WireTools.ClusterBuild
