import Mathlib.Data.List.Basic

/-! # Runs of a transition function

* `runs step s events`: the state that a sequence of events leads to, none when one of them
  is not possible;
* `runs_induction`: what every event preserves, every run preserves;
* `Along`: every event of a run meets a condition in the state it happens in, and
  `along_induction`, the induction over such a run. -/

namespace WireTools

variable {σ ε : Type} {step : σ → ε → Option σ}

/-- The state after a sequence of events. -/
def runs (step : σ → ε → Option σ) (s : σ) (events : List ε) : Option σ :=
  events.foldlM step s

theorem runs_cons {s s' : σ} {ev : ε} {events : List ε} :
    runs step s (ev :: events) = some s' ↔
      ∃ m, step s ev = some m ∧ runs step m events = some s' := by
  rw [runs, List.foldlM_cons]
  exact Option.bind_eq_some_iff

theorem runs_cons_eq (s : σ) (ev : ε) (events : List ε) :
    runs step s (ev :: events) = (step s ev).bind fun m => runs step m events :=
  rfl

theorem runs_append (s : σ) (events events' : List ε) :
    runs step s (events ++ events') = (runs step s events).bind fun m => runs step m events' :=
  List.foldlM_append

/-- A run and a property of the state it ends in, by one evaluation. -/
theorem exists_run {s : σ} {events : List ε} {p : σ → Prop} [DecidablePred p]
    (h : (runs step s events).any (fun t => decide (p t)) = true) :
    ∃ t, runs step s events = some t ∧ p t := by
  obtain ⟨t, ht, hp⟩ := (Option.any_eq_true _ _).mp h
  exact ⟨t, ht, of_decide_eq_true hp⟩

/-- What every event of a run preserves, the run preserves. -/
theorem runs_induction {motive : σ → Prop} {events : List ε} {s s' : σ}
    (h : runs step s events = some s') (hs : motive s)
    (hstep : ∀ m m' ev, ev ∈ events → step m ev = some m' → motive m → motive m') :
    motive s' := by
  induction events generalizing s with
  | nil =>
      cases h
      exact hs
  | cons ev events ih =>
      obtain ⟨m, hm, hrest⟩ := runs_cons.mp h
      refine ih hrest (hstep s m ev (by simp) hm hs) ?_
      exact fun m m' ev hev => hstep m m' ev (List.mem_cons_of_mem _ hev)

/-- Every event of the run meets the condition in the state it happens in. -/
def Along (step : σ → ε → Option σ) (C : σ → ε → Prop) (s : σ) : List ε → Prop
  | [] => True
  | ev :: events =>
      C s ev ∧
        match step s ev with
        | some m => Along step C m events
        | none => True

instance decidableAlong {C : σ → ε → Prop} [∀ s ev, Decidable (C s ev)] :
    ∀ s events, Decidable (Along step C s events)
  | _, [] => isTrue trivial
  | s, ev :: events =>
      have : Decidable (match step s ev with
          | some m => Along step C m events
          | none => True) :=
        match step s ev with
        | some m => decidableAlong m events
        | none => isTrue trivial
      inferInstanceAs (Decidable (C s ev ∧ _))

theorem along_induction {C : σ → ε → Prop} {motive : σ → Prop} {events : List ε} {s s' : σ}
    (h : runs step s events = some s') (hC : Along step C s events) (hs : motive s)
    (hstep : ∀ m m' ev, C m ev → step m ev = some m' → motive m → motive m') :
    motive s' := by
  induction events generalizing s with
  | nil =>
      cases h
      exact hs
  | cons ev events ih =>
      obtain ⟨m, hm, hrest⟩ := runs_cons.mp h
      rw [Along, hm] at hC
      exact ih hrest hC.2 (hstep s m ev hC.1 hm hs)

end WireTools
