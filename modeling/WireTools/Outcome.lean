import Mathlib.Data.List.Basic
import Mathlib.Data.List.Forall2

/-! # Rules for stateful computations that may fail

A computation is a `StateT σ (Except ε)` program.  `Ends m s Q E` says how `m` ends when it
is started in `s`: in a result and a state that satisfy `Q`, or in an error that satisfies
`E`.  The rules below compute `Ends` of a program from `Ends` of its parts:

* `ends_pure`, `ends_throw`, `ends_bind`, `ends_get`, `ends_modify`, `ends_ite` for the
  control structure;
* `ends_findSome` for the first result of a bounded series of attempts, `ends_allM` for a
  conjunction checked item by item and `ends_mapM` for a series that collects its results,
  each with an invariant on the state. -/

namespace WireTools.Outcome

variable {σ ε α β ι : Type}

/-- How `m` ends from `s`: in a result satisfying `Q`, or in an error satisfying `E`. -/
def Ends (m : StateT σ (Except ε) α) (s : σ) (Q : α → σ → Prop) (E : ε → Prop) : Prop :=
  match m s with
  | .ok (a, s') => Q a s'
  | .error e => E e

/-- Fail with `e` unless `b` holds. -/
def assertOk (b : Bool) (e : ε) : StateT σ (Except ε) Unit :=
  if b then pure () else throw e

variable {s : σ} {Q : α → σ → Prop} {E : ε → Prop}

theorem Ends.of_ok {m : StateT σ (Except ε) α} {a : α} {s' : σ} (h : Ends m s Q E)
    (hm : m s = .ok (a, s')) : Q a s' := by
  unfold Ends at h
  rw [hm] at h
  exact h

theorem Ends.of_error {m : StateT σ (Except ε) α} {e : ε} (h : Ends m s Q E)
    (hm : m s = .error e) : E e := by
  unfold Ends at h
  rw [hm] at h
  exact h

/-- A computation that can only fail with an impossible error returns. -/
theorem Ends.returns {m : StateT σ (Except ε) α} (h : Ends m s Q (fun _ => False)) :
    ∃ a s', m s = .ok (a, s') ∧ Q a s' := by
  unfold Ends at h
  cases hm : m s with
  | ok p => rw [hm] at h; exact ⟨p.1, p.2, rfl, h⟩
  | error e => rw [hm] at h; exact h.elim

theorem Ends.mono {m : StateT σ (Except ε) α} {Q' : α → σ → Prop} {E' : ε → Prop}
    (h : Ends m s Q E) (hQ : ∀ a s', Q a s' → Q' a s') (hE : ∀ e, E e → E' e) :
    Ends m s Q' E' := by
  unfold Ends at h ⊢
  cases hm : m s with
  | ok p => rw [hm] at h; exact hQ p.1 p.2 h
  | error e => rw [hm] at h; exact hE e h

/-- Every computation ends somehow. -/
theorem Ends.trivial (m : StateT σ (Except ε) α) (s : σ) :
    Ends m s (fun _ _ => True) (fun _ => True) := by
  unfold Ends
  cases m s with
  | ok p => exact True.intro
  | error e => exact True.intro

theorem Ends.and {m : StateT σ (Except ε) α} {Q' : α → σ → Prop} {E' : ε → Prop}
    (h : Ends m s Q E) (h' : Ends m s Q' E') :
    Ends m s (fun a s' => Q a s' ∧ Q' a s') (fun e => E e ∧ E' e) := by
  unfold Ends at h h' ⊢
  cases hm : m s with
  | ok p => rw [hm] at h h'; exact ⟨h, h'⟩
  | error e => rw [hm] at h h'; exact ⟨h, h'⟩

/-- A sequence returned exactly when both its parts did. -/
theorem except_bind_eq_ok {x : Except ε β} {f : β → Except ε α} {a : α} :
    (x >>= f) = .ok a ↔ ∃ b, x = .ok b ∧ f b = .ok a := by
  cases x with
  | ok b => exact ⟨fun h => ⟨b, rfl, h⟩, by rintro ⟨_, ⟨⟩, h⟩; exact h⟩
  | error e =>
      refine ⟨fun h => ?_, ?_⟩
      · cases h
      · rintro ⟨_, ⟨⟩, _⟩

/-- A fold whose steps all return is the fold of what they return. -/
theorem except_foldlM_ok {step : β → α → Except ε β} {f : β → α → β}
    (hstep : ∀ b a b', step b a = .ok b' → b' = f b a) :
    ∀ {l : List α} {b b' : β}, l.foldlM step b = .ok b' → b' = l.foldl f b
  | [], b, b', h => by
      cases h
      rfl
  | a :: l, b, b', h => by
      rw [List.foldlM_cons] at h
      obtain ⟨m, hm, h⟩ := except_bind_eq_ok.mp h
      rw [List.foldl_cons, ← hstep b a m hm]
      exact except_foldlM_ok hstep h

/-- A check of every item returns when each of them passes. -/
theorem except_forM_eq_ok {f : α → Except ε PUnit} {u : PUnit} : ∀ {l : List α},
    l.forM f = .ok u ↔ ∀ a ∈ l, f a = .ok ()
  | [] => ⟨fun _ => nofun, fun _ => rfl⟩
  | a :: l => by
      rw [List.forM_eq_forM, List.forM_cons, except_bind_eq_ok, List.forall_mem_cons]
      constructor
      · rintro ⟨_, ha, hl⟩
        exact ⟨ha, except_forM_eq_ok.mp hl⟩
      · rintro ⟨ha, hl⟩
        exact ⟨(), ha, except_forM_eq_ok.mpr hl⟩

/-- A series over a list returns the results of its items. -/
theorem except_mapM_eq_ok {f : α → Except ε β} : ∀ {xs : List α} {ys : List β},
    xs.mapM f = .ok ys ↔ List.Forall₂ (fun x y => f x = .ok y) xs ys
  | [], ys => by
      rw [List.mapM_nil, List.forall₂_nil_left_iff]
      constructor
      · rintro ⟨⟩
        rfl
      · rintro rfl
        rfl
  | x :: xs, ys => by
      simp only [List.mapM_cons, except_bind_eq_ok]
      constructor
      · rintro ⟨y, hy, ys', hys, ⟨⟩⟩
        exact .cons hy (except_mapM_eq_ok.1 hys)
      · rintro (_ | ⟨hy, hys⟩)
        exact ⟨_, hy, _, except_mapM_eq_ok.2 hys, rfl⟩

/-- A series over the results of a series. -/
theorem except_mapM_bind {γ : Type} {f : γ → Except ε α} {g : α → Except ε β} {l : List γ}
    {xs : List α} (h : l.mapM f = .ok xs) : l.mapM (fun i => f i >>= g) = xs.mapM g := by
  have hforall := except_mapM_eq_ok.mp h
  clear h
  induction hforall with
  | nil => rfl
  | cons hi _ ih => rw [List.mapM_cons, List.mapM_cons, ih, hi]; rfl

/-- A series over a list returns when it returns on every item. -/
theorem except_mapM_mem {f : α → Except ε β} {xs : List α} {ys : List β} (h : xs.mapM f = .ok ys)
    {x : α} (hx : x ∈ xs) : ∃ y, f x = .ok y := by
  have hall := except_mapM_eq_ok.mp h
  clear h
  induction hall with
  | nil => cases hx
  | cons hxy _ ih =>
      rcases List.mem_cons.mp hx with rfl | hx
      · exact ⟨_, hxy⟩
      · exact ih hx

theorem except_mapM_returns {f : α → Except ε β} : ∀ {xs : List α},
    (∀ x ∈ xs, ∃ y, f x = .ok y) → ∃ ys, xs.mapM f = .ok ys
  | [], _ => ⟨[], rfl⟩
  | x :: xs, h => by
      obtain ⟨y, hy⟩ := h x (by simp)
      obtain ⟨ys, hys⟩ := except_mapM_returns fun x' hx' => h x' (List.mem_cons_of_mem x hx')
      exact ⟨y :: ys, except_mapM_eq_ok.2 (.cons hy (except_mapM_eq_ok.1 hys))⟩

/-- A series over a list returns what its items return. -/
theorem except_mapM_filterMap {f : α → Except ε β} {g : α → Option β} : ∀ {l : List α},
    (∀ a ∈ l, ∃ y, f a = .ok y ∧ g a = some y) → l.mapM f = .ok (l.filterMap g)
  | [], _ => rfl
  | a :: l, h => by
      obtain ⟨y, hf, hg⟩ := h a (by simp)
      have ih := except_mapM_filterMap fun x hx => h x (List.mem_cons_of_mem a hx)
      rw [List.mapM_cons, hf, ih, List.filterMap_cons_some hg]
      rfl

/-- A conjunction whose items all return is the conjunction of what they return. -/
theorem except_allM {f : α → Except ε Bool} {p : α → Bool} : ∀ {l : List α},
    (∀ a ∈ l, f a = .ok (p a)) → l.allM f = .ok (l.all p)
  | [], _ => rfl
  | a :: l, h => by
      have ih := except_allM fun x hx => h x (List.mem_cons_of_mem a hx)
      rw [List.allM, h a (by simp), List.all_cons]
      cases hp : p a with
      | true => exact ih
      | false => rfl

theorem except_filterAuxM {f : α → Except ε Bool} {p : α → Bool} :
    ∀ (l acc : List α), (∀ a ∈ l, f a = .ok (p a)) →
      l.filterAuxM f acc = .ok ((l.filter p).reverse ++ acc)
  | [], _, _ => rfl
  | a :: l, acc, h => by
      have hrest : ∀ x ∈ l, f x = .ok (p x) := fun x hx => h x (List.mem_cons_of_mem a hx)
      rw [List.filterAuxM, h a (by simp)]
      cases hp : p a with
      | true =>
          rw [List.filter_cons_of_pos hp, List.reverse_cons, List.append_assoc]
          exact except_filterAuxM l (a :: acc) hrest
      | false =>
          rw [List.filter_cons_of_neg (by simp [hp])]
          exact except_filterAuxM l acc hrest

theorem except_filterM {f : α → Except ε Bool} {p : α → Bool} {l : List α}
    (h : ∀ a ∈ l, f a = .ok (p a)) : l.filterM f = .ok (l.filter p) := by
  rw [List.filterM, except_filterAuxM l [] h, List.append_nil]
  change Except.ok _ = _
  rw [List.reverse_reverse]

theorem except_toOption_eq_some {x : Except ε α} {a : α} : x.toOption = some a ↔ x = .ok a := by
  cases x with
  | error e => exact iff_of_false (fun h => by cases h) fun h => by cases h
  | ok b => exact ⟨fun h => congrArg _ (Option.some.inj h), fun h => congrArg _ (Except.ok.inj h)⟩

theorem except_map_eq_ok {x : Except ε α} {f : α → β} {y : β} (h : x.map f = .ok y) :
    ∃ a, x = .ok a ∧ f a = y := by
  cases x with
  | error e => cases h
  | ok a => exact ⟨a, rfl, Except.ok.inj h⟩

theorem except_map_returns {x : Except ε α} (f : α → β) (h : ∃ a, x = .ok a) :
    ∃ y, x.map f = .ok y := by
  obtain ⟨a, rfl⟩ := h
  exact ⟨f a, rfl⟩

/-- A computation that returned goes on with its result. -/
theorem bind_of_ok {m : StateT σ (Except ε) β} {f : β → StateT σ (Except ε) α} {b : β} {s' : σ}
    (h : m s = .ok (b, s')) : (m >>= f) s = f b s' := by
  change StateT.bind m f s = _
  unfold StateT.bind
  rw [h]
  rfl

@[simp] theorem ends_pure (a : α) :
    Ends (pure a : StateT σ (Except ε) α) s Q E ↔ Q a s := Iff.rfl

@[simp] theorem ends_throw (e : ε) :
    Ends (throw e : StateT σ (Except ε) α) s Q E ↔ E e := Iff.rfl

@[simp] theorem ends_get {Q : σ → σ → Prop} :
    Ends (get : StateT σ (Except ε) σ) s Q E ↔ Q s s := Iff.rfl

@[simp] theorem ends_set (t : σ) {Q : PUnit → σ → Prop} :
    Ends (set t : StateT σ (Except ε) PUnit) s Q E ↔ Q ⟨⟩ t := Iff.rfl

@[simp] theorem ends_modify (f : σ → σ) {Q : PUnit → σ → Prop} :
    Ends (modify f : StateT σ (Except ε) PUnit) s Q E ↔ Q ⟨⟩ (f s) := Iff.rfl

@[simp] theorem ends_bind (m : StateT σ (Except ε) β) (f : β → StateT σ (Except ε) α) :
    Ends (m >>= f) s Q E ↔ Ends m s (fun b s' => Ends (f b) s' Q E) E := by
  unfold Ends
  change (match StateT.bind m f s with | .ok (a, s') => Q a s' | .error e => E e) ↔ _
  unfold StateT.bind
  cases hm : m s with
  | ok p => obtain ⟨b, s'⟩ := p; rfl
  | error e => rfl

@[simp] theorem ends_map (f : β → α) (m : StateT σ (Except ε) β) :
    Ends (f <$> m) s Q E ↔ Ends m s (fun b s' => Q (f b) s') E := by
  unfold Ends
  change (match StateT.map f m s with | .ok (a, s') => Q a s' | .error e => E e) ↔ _
  unfold StateT.map
  cases hm : m s with
  | ok p => obtain ⟨b, s'⟩ := p; rfl
  | error e => rfl

@[simp] theorem ends_ite {c : Prop} [Decidable c] (m m' : StateT σ (Except ε) α) :
    Ends (if c then m else m') s Q E ↔ (c → Ends m s Q E) ∧ (¬c → Ends m' s Q E) := by
  split_ifs with h <;> simp [h]

@[simp] theorem ends_assertOk (b : Bool) (e : ε) {Q : Unit → σ → Prop} :
    Ends (assertOk b e) s Q E ↔ (b = true → Q () s) ∧ (b = false → E e) := by
  unfold assertOk
  cases b <;> simp

/-- The first result of a series of attempts: every attempt keeps `I` when it finds
nothing. -/
theorem ends_findSome {I : σ → Prop} {f : ι → StateT σ (Except ε) (Option β)}
    {Q : Option β → σ → Prop}
    (step : ∀ i s, I s → Ends (f i) s (fun r s' => match r with
      | some b => Q (some b) s'
      | none => I s') E)
    (done : ∀ s, I s → Q none s) :
    ∀ (l : List ι) (s : σ), I s → Ends (l.findSomeM? f) s Q E
  | [], s, h => done s h
  | i :: l, s, h => by
      rw [List.findSomeM?, ends_bind]
      refine (step i s h).mono ?_ (fun _ he => he)
      intro r s' hr
      cases r with
      | some b => exact hr
      | none => exact ends_findSome step done l s' hr

/-- A conjunction checked item by item, with `I` kept by every check that passes. -/
theorem ends_allM {I : List ι → σ → Prop} {f : ι → StateT σ (Except ε) Bool}
    {Q : Bool → σ → Prop}
    (step : ∀ i l s, I (i :: l) s → Ends (f i) s (fun r s' => match r with
      | true => I l s'
      | false => Q false s') E)
    (done : ∀ s, I [] s → Q true s) :
    ∀ (l : List ι) (s : σ), I l s → Ends (l.allM f) s Q E
  | [], s, h => done s h
  | i :: l, s, h => by
      rw [List.allM, ends_bind]
      refine (step i l s h).mono ?_ (fun _ he => he)
      intro r s' hr
      cases r with
      | true => exact ends_allM step done l s' hr
      | false => exact hr

/-- A series that collects its results: `I done rest s` holds after the results `done`, with
`rest` still to run. -/
theorem ends_mapM {I : List β → List ι → σ → Prop} {f : ι → StateT σ (Except ε) β}
    {Q : List β → σ → Prop}
    (step : ∀ i rest done s, I done (i :: rest) s →
      Ends (f i) s (fun b s' => I (done ++ [b]) rest s') E) :
    ∀ (l : List ι) (done : List β) (s : σ), I done l s →
      (∀ bs s', bs.length = l.length → I (done ++ bs) [] s' → Q bs s') → Ends (l.mapM f) s Q E
  | [], done, s, h, fin => by
      rw [List.mapM_nil, ends_pure]
      exact fin [] s rfl (by simpa using h)
  | i :: l, done, s, h, fin => by
      rw [List.mapM_cons, ends_bind]
      refine (step i l done s h).mono ?_ (fun _ he => he)
      intro b s' hb
      rw [ends_bind]
      refine ends_mapM step l (done ++ [b]) s' hb ?_
      intro bs s'' hlen hbs
      rw [ends_pure]
      exact fin (b :: bs) s'' (by simp [hlen]) (by simpa using hbs)

end WireTools.Outcome
