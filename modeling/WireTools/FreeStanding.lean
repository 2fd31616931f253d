import Mathlib.Data.List.Basic

/-! # Words that stand free

A search for a word that no hostile item touches, in a list from which items may be taken out.

* `stands hostile w prev t`: the word `w` is in `t` with no hostile item before or behind it, where
  `prev` is what stands before `t` (`stands_iff`);
* `kept m`: what is left of a list of items some of which are marked;
* a free word without a marked item is still there, and still free, where every marked item is
  hostile (`stands_kept`). -/

namespace WireTools

variable {α : Type} [DecidableEq α]

/-! ### The search -/

def standsAt (hostile : α → Bool) (w : List α) (prev : Option α) (t : List α) : Bool :=
  !prev.any hostile && w.isPrefixOf t && !(t.drop w.length).head?.any hostile

def stands (hostile : α → Bool) (w : List α) : Option α → List α → Bool
  | prev, [] => standsAt hostile w prev []
  | prev, c :: t => standsAt hostile w prev (c :: t) || stands hostile w (some c) t

variable {hostile : α → Bool} {w : List α}

theorem standsAt_iff {prev : Option α} {t : List α} :
    standsAt hostile w prev t = true ↔
      prev.any hostile = false ∧ ∃ after, t = w ++ after ∧ after.head?.any hostile = false := by
  rw [standsAt, Bool.and_eq_true, Bool.and_eq_true, Bool.not_eq_true', Bool.not_eq_true',
    List.isPrefixOf_iff_prefix, and_assoc]
  refine and_congr_right fun _ => ⟨?_, ?_⟩
  · rintro ⟨⟨after, rfl⟩, hafter⟩
    rw [List.drop_left] at hafter
    exact ⟨after, rfl, hafter⟩
  · rintro ⟨after, rfl, hafter⟩
    rw [List.drop_left]
    exact ⟨List.prefix_append w after, hafter⟩

omit [DecidableEq α] in
theorem getLast?_cons_or (c : α) (before : List α) (prev : Option α) :
    (c :: before).getLast?.or prev = before.getLast?.or (some c) := by
  rw [List.getLast?_cons]
  cases before.getLast? <;> rfl

theorem stands_iff {prev : Option α} {t : List α} :
    stands hostile w prev t = true ↔
      ∃ before after, t = before ++ w ++ after ∧
        (before.getLast?.or prev).any hostile = false ∧ after.head?.any hostile = false := by
  induction t generalizing prev with
  | nil =>
      rw [stands, standsAt_iff]
      constructor
      · rintro ⟨hprev, after, ht, hafter⟩
        exact ⟨[], after, ht, hprev, hafter⟩
      · rintro ⟨before, after, ht, hbefore, hafter⟩
        obtain ⟨hfront, rfl⟩ := List.append_eq_nil_iff.mp ht.symm
        obtain ⟨rfl, rfl⟩ := List.append_eq_nil_iff.mp hfront
        exact ⟨hbefore, [], rfl, rfl⟩
  | cons c t ih =>
      rw [stands, Bool.or_eq_true, standsAt_iff, ih]
      constructor
      · rintro (⟨hprev, after, ht, hafter⟩ | ⟨before, after, rfl, hbefore, hafter⟩)
        · exact ⟨[], after, ht, hprev, hafter⟩
        · exact ⟨c :: before, after, rfl, getLast?_cons_or c before prev ▸ hbefore, hafter⟩
      · rintro ⟨before, after, ht, hbefore, hafter⟩
        cases before with
        | nil => exact Or.inl ⟨hbefore, after, ht, hafter⟩
        | cons d before =>
            obtain ⟨rfl, rfl⟩ := List.cons.inj ht
            exact Or.inr ⟨before, after, rfl, getLast?_cons_or c before prev ▸ hbefore, hafter⟩

/-! ### Marked items -/

/-- The items that are not marked. -/
def kept (m : List (α × Bool)) : List α :=
  (m.filter fun item => !item.2).map Prod.fst

omit [DecidableEq α] in
theorem kept_append (m n : List (α × Bool)) : kept (m ++ n) = kept m ++ kept n := by
  rw [kept, List.filter_append, List.map_append]
  rfl

omit [DecidableEq α] in
theorem kept_of_unmarked {m : List (α × Bool)} (h : ∀ item ∈ m, item.2 = false) :
    kept m = m.map Prod.fst := by
  rw [kept, List.filter_eq_self.mpr fun item hitem => by rw [h item hitem]; rfl]

omit [DecidableEq α] in
/-- The last item, where it is not hostile, is still the last one. -/
theorem getLast?_kept {m : List (α × Bool)} (hmarks : ∀ item ∈ m, item.2 = true →
      hostile item.1 = true) (h : (m.map Prod.fst).getLast?.any hostile = false) :
    (kept m).getLast?.any hostile = false := by
  rcases List.eq_nil_or_concat m with rfl | ⟨front, item, rfl⟩
  · rfl
  · rw [List.concat_eq_append, List.map_append, List.map_singleton, List.getLast?_concat] at h
    have hitem : item.2 = false := by
      by_contra hmark
      have hhostile := hmarks item (by simp) (by simpa using hmark)
      rw [Option.any_some, hhostile] at h
      cases h
    have hlast : kept [item] = [item.1] := kept_of_unmarked (by simpa using hitem)
    rw [List.concat_eq_append, kept_append, hlast, List.getLast?_concat]
    exact h

omit [DecidableEq α] in
theorem head?_kept {m : List (α × Bool)} (hmarks : ∀ item ∈ m, item.2 = true →
      hostile item.1 = true) (h : (m.map Prod.fst).head?.any hostile = false) :
    (kept m).head?.any hostile = false := by
  cases m with
  | nil => rfl
  | cons item rest =>
      have hitem : item.2 = false := by
        by_contra hmark
        have hhostile := hmarks item List.mem_cons_self (by simpa using hmark)
        rw [List.map_cons, List.head?_cons, Option.any_some, hhostile] at h
        cases h
      have hfirst : kept [item] = [item.1] := kept_of_unmarked (by simpa using hitem)
      rw [← List.singleton_append, kept_append, hfirst]
      exact h

/-- A free word that no mark touches stands free in what is left. -/
theorem stands_kept {m : List (α × Bool)} {before after : List α}
    (hmarks : ∀ item ∈ m, item.2 = true → hostile item.1 = true)
    (ht : m.map Prod.fst = before ++ w ++ after)
    (hfree : ∀ item ∈ (m.drop before.length).take w.length, item.2 = false)
    (hbefore : before.getLast?.any hostile = false) (hafter : after.head?.any hostile = false) :
    stands hostile w none (kept m) = true := by
  obtain ⟨front, back, rfl, hfront, rfl⟩ := List.map_eq_append_iff.mp ht
  obtain ⟨first, middle, rfl, rfl, rfl⟩ := List.map_eq_append_iff.mp hfront
  have hmiddle : ∀ item ∈ middle, item.2 = false := by
    simp only [List.length_map, List.append_assoc, List.drop_left, List.take_left] at hfree
    exact hfree
  rw [stands_iff]
  refine ⟨kept first, kept back, ?_, ?_, ?_⟩
  · rw [kept_append, kept_append, kept_of_unmarked hmiddle]
  · rw [Option.or_none]
    exact getLast?_kept (fun item hitem => hmarks item (by simp [hitem])) hbefore
  · exact head?_kept (fun item hitem => hmarks item (by simp [hitem])) hafter

end WireTools
