import WireTools.Runs
import WireTools.Text

/-! # Newlines of a document

A reader of markup makes every newline of its input a line feed before it reads anything else.

* `normalizeNewlines`: each of CR LF, CR and LF becomes an LF;
* `newlinesFrom_flatMap`: a text that is escaped unit by unit, its newlines left as they are, has
  the newlines of the text;
* `Sees step s w s'`: what a reader makes of a piece of its input, whatever is behind it.  The
  pieces of a document are put together by `Sees.trans`. -/

namespace WireTools

/-- The newlines of a text, behind a carriage return or not: each of CR LF, CR and LF is an LF. -/
def newlinesFrom (returned : Bool) : Text → Text
  | [] => []
  | c :: t =>
      if c = 13 then newline :: newlinesFrom true t
      else if returned && c = newline then newlinesFrom false t
      else c :: newlinesFrom false t

def normalizeNewlines (t : Text) : Text :=
  newlinesFrom false t

theorem newlinesFrom_of_head {r : Bool} {u : Text} (h : ∀ c ∈ u.head?, c ≠ newline) :
    newlinesFrom r u = normalizeNewlines u := by
  cases u with
  | nil => rfl
  | cons c u =>
      have hc : c ≠ newline := h c rfl
      rw [normalizeNewlines, newlinesFrom, newlinesFrom]
      simp only [hc, decide_false, Bool.and_false, Bool.false_eq_true, if_false]

theorem newlinesFrom_append {r : Bool} (t : Text) {u : Text} (h : ∀ c ∈ u.head?, c ≠ newline) :
    newlinesFrom r (t ++ u) = newlinesFrom r t ++ normalizeNewlines u := by
  induction t generalizing r with
  | nil => exact newlinesFrom_of_head h
  | cons c t ih =>
      rw [List.cons_append, newlinesFrom, newlinesFrom]
      split
      · rw [ih, List.cons_append]
      · split
        · rw [ih]
        · rw [ih, List.cons_append]

theorem newlinesFrom_cons {r : Bool} {c : CodeUnit} {t : Text} (hc : c ≠ 13)
    (hr : r = false ∨ c ≠ newline) : newlinesFrom r (c :: t) = c :: normalizeNewlines t := by
  rw [newlinesFrom, if_neg hc, if_neg, normalizeNewlines]
  rw [Bool.and_eq_true, decide_eq_true_eq]
  rintro ⟨rfl, rfl⟩
  rcases hr with h | h
  · cases h
  · exact h rfl

/-- What has no carriage return stays as it is. -/
theorem normalizeNewlines_append {w u : Text} (h : ∀ c ∈ w, c ≠ 13) :
    normalizeNewlines (w ++ u) = w ++ normalizeNewlines u := by
  induction w with
  | nil => rfl
  | cons c w ih =>
      rw [List.forall_mem_cons] at h
      rw [List.cons_append, normalizeNewlines, newlinesFrom_cons h.1 (Or.inl rfl), ih h.2,
        List.cons_append]

/-- Nor does it matter what is before units that are no newlines. -/
theorem newlinesFrom_plain {r : Bool} {w u : Text} (h : ∀ c ∈ w, c ≠ 13 ∧ c ≠ newline)
    (hne : w ≠ []) : newlinesFrom r (w ++ u) = w ++ normalizeNewlines u := by
  cases w with
  | nil => exact absurd rfl hne
  | cons c w =>
      rw [List.forall_mem_cons] at h
      rw [List.cons_append, newlinesFrom_cons h.1.1 (Or.inr h.1.2),
        normalizeNewlines_append fun d hd => (h.2 d hd).1, List.cons_append]

theorem mem_newlinesFrom {r : Bool} {c : CodeUnit} {t : Text} (h : c ∈ newlinesFrom r t) :
    c = newline ∨ c ∈ t := by
  induction t generalizing r with
  | nil => cases h
  | cons d t ih =>
      rw [newlinesFrom] at h
      split at h
      · rcases List.mem_cons.mp h with h | h
        · exact Or.inl h
        · exact (ih h).imp_right (List.mem_cons_of_mem d)
      · split at h
        · exact (ih h).imp_right (List.mem_cons_of_mem d)
        · rcases List.mem_cons.mp h with h | h
          · exact Or.inr (h ▸ List.mem_cons_self)
          · exact (ih h).imp_right (List.mem_cons_of_mem d)

/-! ### Escaped texts -/

/-- An escape of single units that leaves the newlines alone and makes no other. -/
structure KeepsNewlines (f : CodeUnit → Text) : Prop where
  carriageReturn : f 13 = [13]
  lineFeed : f newline = [newline]
  ne_nil : ∀ c, f c ≠ []
  plain : ∀ c, c ≠ 13 → c ≠ newline → ∀ d ∈ f c, d ≠ 13 ∧ d ≠ newline

theorem newlinesFrom_flatMap {f : CodeUnit → Text} (hf : KeepsNewlines f) {r : Bool} (t : Text) :
    newlinesFrom r (t.flatMap f) = (newlinesFrom r t).flatMap f := by
  induction t generalizing r with
  | nil => rfl
  | cons c t ih =>
      rw [List.flatMap_cons]
      by_cases hreturn : c = 13
      · subst hreturn
        rw [newlinesFrom, if_pos rfl, List.flatMap_cons, ← ih, hf.carriageReturn, hf.lineFeed]
        rfl
      · by_cases hline : c = newline
        · subst hline
          cases r with
          | true =>
              rw [hf.lineFeed]
              exact ih
          | false =>
              rw [newlinesFrom_cons hreturn (Or.inl rfl), List.flatMap_cons, hf.lineFeed,
                normalizeNewlines, ← ih]
              rfl
        · rw [newlinesFrom_plain (hf.plain c hreturn hline) (hf.ne_nil c),
            newlinesFrom_cons hreturn (Or.inr hline), List.flatMap_cons, normalizeNewlines, ih,
            normalizeNewlines]

theorem normalizeNewlines_flatMap {f : CodeUnit → Text} (hf : KeepsNewlines f) (t : Text)
    {u : Text} (h : ∀ c ∈ u.head?, c ≠ newline) :
    normalizeNewlines (t.flatMap f ++ u) =
      (normalizeNewlines t).flatMap f ++ normalizeNewlines u := by
  rw [normalizeNewlines, newlinesFrom_append _ h, newlinesFrom_flatMap hf, ← normalizeNewlines]

/-! ### Readers -/

section readers

variable {σ : Type} {step : σ → CodeUnit → Option σ} {s s' s'' : σ} {w w' : Text}

/-- From the one state, what is written is read up to the other. -/
def Sees (step : σ → CodeUnit → Option σ) (s : σ) (w : Text) (s' : σ) : Prop :=
  ∀ u, runs step s (normalizeNewlines (w ++ u)) = runs step s' (normalizeNewlines u)

theorem Sees.trans (h : Sees step s w s') (h' : Sees step s' w' s'') :
    Sees step s (w ++ w') s'' := fun u => by
  rw [List.append_assoc, h, h']

theorem sees_plain (hw : ∀ c ∈ w, c ≠ 13) (h : runs step s w = some s') : Sees step s w s' :=
  fun u => by rw [normalizeNewlines_append hw, runs_append, h, Option.bind_some]

/-- An escaped text up to a unit that is no line feed. -/
theorem sees_flatMap {f : CodeUnit → Text} (hf : KeepsNewlines f) {t : Text} {c : CodeUnit}
    (hc : c ≠ newline) (ht : runs step s ((normalizeNewlines t).flatMap f) = some s')
    (hw : Sees step s' (c :: w) s'') : Sees step s (t.flatMap f ++ c :: w) s'' := fun u => by
  have hhead : ∀ d ∈ (c :: w ++ u).head?, d ≠ newline := by
    intro d hd
    rw [List.cons_append, List.head?_cons, Option.mem_some_iff] at hd
    exact hd ▸ hc
  rw [List.append_assoc, normalizeNewlines_flatMap hf t hhead, runs_append, ht, Option.bind_some]
  exact hw u

end readers

end WireTools
