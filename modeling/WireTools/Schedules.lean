import Mathlib.Data.List.Induction

/-! # Steps in an order that meets their needs

A list of steps is performed until one fails.  Each step needs something and provides something,
as `Legit` says.

* `Scheduled`: every step comes after steps that provide what it needs;
* `Scheduled.append`, `Scheduled.of_forall`: how schedules are put together;
* `Scheduled.run`: when a step whose needs are met succeeds, keeps an invariant and what was met,
  and provides, then all steps of a schedule succeed, and what they provide is met. -/

namespace WireTools.Schedules

variable {State Step Need Error : Type}

/-- Perform steps until one fails: the state they leave, and the failure. -/
def run (perform : State → Step → Except Error State) : List Step → State → State × Option Error
  | [], s => (s, none)
  | step :: steps, s =>
    match perform s step with
    | .ok s' => run perform steps s'
    | .error e => (s, some e)

section Run

variable {perform : State → Step → Except Error State} {s s' : State} {step : Step}
  {steps rest : List Step}

theorem run_cons_ok (h : perform s step = .ok s') :
    run perform (step :: steps) s = run perform steps s' := by
  rw [run, h]

theorem run_cons_error {e : Error} (h : perform s step = .error e) :
    run perform (step :: steps) s = (s, some e) := by
  rw [run, h]

/-- A run that succeeds is a fold. -/
theorem run_eq_foldlM : run perform steps s = (s', none) ↔ steps.foldlM perform s = .ok s' := by
  induction steps generalizing s with
  | nil =>
      show (s, none) = (s', none) ↔ Except.ok s = .ok s'
      rw [Prod.mk.injEq, Except.ok.injEq, and_iff_left rfl]
  | cons step steps ih =>
      rw [List.foldlM_cons]
      cases hstep : perform s step with
      | ok next =>
          rw [run_cons_ok hstep]
          exact ih
      | error e =>
          rw [run_cons_error hstep]
          constructor
          · intro h
            cases h
          · intro h
            cases h

theorem run_append (h : run perform steps s = (s', none)) :
    run perform (steps ++ rest) s = run perform rest s' := by
  induction steps generalizing s with
  | nil =>
      cases h
      rfl
  | cons step steps ih =>
      rw [List.cons_append]
      cases hstep : perform s step with
      | ok next =>
          rw [run_cons_ok hstep] at h ⊢
          exact ih h
      | error e =>
          rw [run_cons_error hstep] at h
          cases h

/-- What every step keeps holds after a run, also after one that fails. -/
theorem run_induction (P : State → Prop) (hs : P s)
    (hstep : ∀ s s' step, step ∈ steps → P s → perform s step = .ok s' → P s') :
    P (run perform steps s).1 := by
  induction steps generalizing s with
  | nil => exact hs
  | cons step steps ih =>
      cases hperform : perform s step with
      | ok next =>
          rw [run_cons_ok hperform]
          exact ih (hstep s next step List.mem_cons_self hs hperform)
            fun s s' x hx => hstep s s' x (List.mem_cons_of_mem _ hx)
      | error e =>
          rw [run_cons_error hperform]
          exact hs

/-- A run that succeeds succeeds at its beginning, and from there on. -/
theorem run_append_none (h : (run perform (steps ++ rest) s).2 = none) :
    ∃ s', run perform steps s = (s', none) ∧ (run perform rest s').2 = none := by
  induction steps generalizing s with
  | nil => exact ⟨s, rfl, h⟩
  | cons step steps ih =>
      rw [List.cons_append] at h
      cases hperform : perform s step with
      | ok next =>
          rw [run_cons_ok hperform] at h ⊢
          exact ih h
      | error e =>
          rw [run_cons_error hperform] at h
          cases h

end Run

/-! ### Schedules -/

section Scheduled

variable (Legit : List Need → Step → List Need → Prop)

/-- One of the steps provides it. -/
def Supplied (done : List Step) (need : Need) : Prop :=
  ∃ step ∈ done, ∃ needs provides, Legit needs step provides ∧ need ∈ provides

/-- Each of the steps, taken after the done ones, needs what earlier ones provide. -/
def Scheduled (done steps : List Step) : Prop :=
  ∀ before step after, steps = before ++ step :: after →
    ∃ needs provides, Legit needs step provides ∧
      ∀ need ∈ needs, Supplied Legit (done ++ before) need

variable {Legit} {done done' steps rest : List Step} {step : Step} {need : Need}
  {needs provides : List Need}

theorem Supplied.mono (h : Supplied Legit done need) (hsub : done ⊆ done') :
    Supplied Legit done' need := by
  obtain ⟨step, hstep, hprovides⟩ := h
  exact ⟨step, hsub hstep, hprovides⟩

theorem Supplied.left (h : Supplied Legit done need) : Supplied Legit (done ++ rest) need :=
  h.mono (List.subset_append_left done rest)

/-- Steps that need only what is done already. -/
theorem Scheduled.of_forall (h : ∀ step ∈ steps, ∃ needs provides,
    Legit needs step provides ∧ ∀ need ∈ needs, Supplied Legit done need) :
    Scheduled Legit done steps := by
  intro before step after hsteps
  obtain ⟨needs, provides, hlegit, hneeds⟩ := h step (by simp [hsteps])
  exact ⟨needs, provides, hlegit, fun need hneed => (hneeds need hneed).left⟩

theorem Scheduled.append (h : Scheduled Legit done steps)
    (hrest : Scheduled Legit (done ++ steps) rest) : Scheduled Legit done (steps ++ rest) := by
  intro before step after heq
  rcases List.append_eq_append_iff.mp heq with ⟨xs, rfl, hxs⟩ | ⟨xs, hsteps, hxs⟩
  · obtain ⟨needs, provides, hlegit, hneeds⟩ := hrest xs step after hxs
    exact ⟨needs, provides, hlegit, fun need hneed => by
      rw [← List.append_assoc]
      exact hneeds need hneed⟩
  · cases xs with
    | nil =>
        obtain ⟨needs, provides, hlegit, hneeds⟩ := hrest [] step after hxs.symm
        refine ⟨needs, provides, hlegit, fun need hneed => ?_⟩
        have hsupplied := hneeds need hneed
        rwa [List.append_nil, hsteps, List.append_nil] at hsupplied
    | cons x xs =>
        rw [List.cons_append, List.cons.injEq] at hxs
        rw [← hxs.1] at hsteps
        exact h before step xs hsteps

theorem Scheduled.left (h : Scheduled Legit done (steps ++ rest)) :
    Scheduled Legit done steps := by
  intro before step after hsteps
  apply h before step (after ++ rest)
  rw [hsteps, List.append_assoc, List.cons_append]

/-- The beginning of a schedule is one. -/
theorem Scheduled.take (h : Scheduled Legit done steps) (n : ℕ) :
    Scheduled Legit done (steps.take n) := by
  rw [← List.take_append_drop n steps] at h
  exact h.left

variable (Legit) in
/-- The steps of a schedule all succeed, with an invariant that knows the steps done. -/
theorem Scheduled.run (perform : State → Step → Except Error State)
    (Inv : List Step → State → Prop) (Met : Need → State → Prop)
    (hunique : ∀ {needs provides needs' provides' step}, Legit needs step provides →
      Legit needs' step provides' → provides = provides')
    (hstep : ∀ {done s step needs provides} rest, steps = done ++ step :: rest → Inv done s →
      Legit needs step provides → (∀ need ∈ needs, Met need s) →
        ∃ s', perform s step = .ok s' ∧ Inv (done ++ [step]) s' ∧
          (∀ need, Met need s → Met need s') ∧ ∀ need ∈ provides, Met need s')
    {s : State} (hs : Inv [] s) (h : Scheduled Legit [] steps) :
    ∃ s', run perform steps s = (s', none) ∧ Inv steps s' ∧
      ∀ need, Supplied Legit steps need → Met need s' := by
  induction steps using List.reverseRecOn with
  | nil => exact ⟨s, rfl, hs, fun need ⟨_, hmem, _⟩ => absurd hmem List.not_mem_nil⟩
  | append_singleton steps step ih =>
      obtain ⟨s', hrun, hinv, hmet⟩ := ih
        (fun rest heq => hstep (rest ++ [step]) (by rw [heq]; simp)) h.left
      obtain ⟨needs, provides, hlegit, hneeds⟩ := h steps step [] rfl
      obtain ⟨s'', hperform, hinv', hkept, hprovided⟩ :=
        hstep [] rfl hinv hlegit fun need hneed => hmet need (hneeds need hneed)
      refine ⟨s'', ?_, hinv', ?_⟩
      · rw [run_append hrun, run_cons_ok hperform]
        rfl
      · rintro need ⟨x, hx, needs', provides', hlegit', hneed⟩
        rcases List.mem_append.mp hx with hx | hx
        · exact hkept need (hmet need ⟨x, hx, needs', provides', hlegit', hneed⟩)
        · rw [List.mem_singleton.mp hx] at hlegit'
          rw [← hunique hlegit hlegit'] at hneed
          exact hprovided need hneed

end Scheduled

end WireTools.Schedules
