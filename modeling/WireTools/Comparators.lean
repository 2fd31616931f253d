import Mathlib.Data.List.Nodup
import Mathlib.Data.Set.Basic
import Mathlib.Order.Defs.LinearOrder

/-! # Comparators and sorting

A comparator returns a number whose sign says which of two items comes first.

* `Preordered cmp S`: on `S` the comparator is a total preorder.  `byKey` compares the keys of a
  linear order; `thenBy`, `firstOf`, `nullsLast`, `neg` and `comap` keep a preorder one;
* `firstOf_neg`: several comparators, one after the other, are the lexicographic order;
* `Consistent cmp l` is the condition under which a sort has to order the items of `l`, and
  `ArraySort` is any sort that keeps to it: what it does with another comparator is open;
* `ArraySort.eq_sort`: where only equal items tie, the sorted arrangement is unique. -/

namespace WireTools

variable {α β : Type}

/-- Negative, zero or positive, as the first item comes before, with or after the second. -/
abbrev Comparator (α : Type) := α → α → ℤ

/-- On `S` the comparator is a total preorder. -/
structure Preordered (cmp : Comparator α) (S : Set α) : Prop where
  skew : ∀ a ∈ S, ∀ b ∈ S, cmp b a = -cmp a b
  trans : ∀ a ∈ S, ∀ b ∈ S, ∀ c ∈ S, cmp a b ≤ 0 → cmp b c ≤ 0 → cmp a c ≤ 0

namespace Preordered

variable {cmp cmp' : Comparator α} {S T : Set α}

theorem congr (h : Preordered cmp S) (heq : ∀ a ∈ S, ∀ b ∈ S, cmp' a b = cmp a b) :
    Preordered cmp' S where
  skew a ha b hb := by
    rw [heq b hb a ha, heq a ha b hb]
    exact h.skew a ha b hb
  trans a ha b hb c hc := by
    rw [heq a ha b hb, heq b hb c hc, heq a ha c hc]
    exact h.trans a ha b hb c hc

theorem subset (h : Preordered cmp S) (hsub : T ⊆ S) : Preordered cmp T where
  skew a ha b hb := h.skew a (hsub ha) b (hsub hb)
  trans a ha b hb c hc := h.trans a (hsub ha) b (hsub hb) c (hsub hc)

theorem comap (h : Preordered cmp S) {R : Set β} (f : β → α) (hf : ∀ b ∈ R, f b ∈ S) :
    Preordered (fun a b => cmp (f a) (f b)) R where
  skew a ha b hb := h.skew _ (hf a ha) _ (hf b hb)
  trans a ha b hb c hc := h.trans _ (hf a ha) _ (hf b hb) _ (hf c hc)

/-- Items made of preordered ones. -/
theorem image (h : Preordered cmp S) {R : Set β} {cmp' : Comparator β} (make : α → β)
    (hmake : ∀ b ∈ R, ∃ a ∈ S, make a = b) (hcmp : ∀ x y, cmp' (make x) (make y) = cmp x y) :
    Preordered cmp' R where
  skew a ha b hb := by
    obtain ⟨x, hx, rfl⟩ := hmake a ha
    obtain ⟨y, hy, rfl⟩ := hmake b hb
    rw [hcmp, hcmp]
    exact h.skew x hx y hy
  trans a ha b hb c hc := by
    obtain ⟨x, hx, rfl⟩ := hmake a ha
    obtain ⟨y, hy, rfl⟩ := hmake b hb
    obtain ⟨z, hz, rfl⟩ := hmake c hc
    rw [hcmp, hcmp, hcmp]
    exact h.trans x hx y hy z hz

theorem self (h : Preordered cmp S) {a : α} (ha : a ∈ S) : cmp a a = 0 := by
  have hskew := h.skew a ha a ha
  omega

/-- The opposite direction. -/
theorem neg (h : Preordered cmp S) : Preordered (fun a b => -cmp a b) S where
  skew a ha b hb := by rw [h.skew a ha b hb]
  trans a ha b hb c hc hab hbc := by
    have hcb := h.skew b hb c hc
    have hba := h.skew a ha b hb
    have hca := h.skew a ha c hc
    have htrans := h.trans c hc b hb a ha (by omega) (by omega)
    omega

/-- What comes no later than an item that comes before another comes before the other. -/
theorem lt_of_le_of_lt (h : Preordered cmp S) {a b c : α} (ha : a ∈ S) (hb : b ∈ S) (hc : c ∈ S)
    (hab : cmp a b ≤ 0) (hbc : cmp b c < 0) : cmp a c < 0 := by
  by_contra hac
  have hcb := h.skew b hb c hc
  have hca := h.skew a ha c hc
  have hle := h.trans c hc a ha b hb (by omega) hab
  omega

theorem lt_of_lt_of_le (h : Preordered cmp S) {a b c : α} (ha : a ∈ S) (hb : b ∈ S) (hc : c ∈ S)
    (hab : cmp a b < 0) (hbc : cmp b c ≤ 0) : cmp a c < 0 := by
  by_contra hac
  have hba := h.skew a ha b hb
  have hca := h.skew a ha c hc
  have hle := h.trans b hb c hc a ha hbc (by omega)
  omega

end Preordered

/-! ### Comparators -/

/-- The order of the keys. -/
def byKey [LinearOrder β] (key : α → β) : Comparator α := fun a b =>
  if key a < key b then -1 else if key b < key a then 1 else 0

theorem byKey_nonpos [LinearOrder β] {key : α → β} {a b : α} :
    byKey key a b ≤ 0 ↔ key a ≤ key b := by
  unfold byKey
  split_ifs with hlt hgt
  · exact ⟨fun _ => hlt.le, fun _ => by omega⟩
  · exact ⟨fun h => by omega, fun h => absurd hgt (not_lt.mpr h)⟩
  · exact ⟨fun _ => not_lt.mp hgt, fun _ => le_refl 0⟩

theorem byKey_neg [LinearOrder β] {key : α → β} {a b : α} : byKey key a b < 0 ↔ key a < key b := by
  unfold byKey
  split_ifs with hlt hgt
  · exact ⟨fun _ => hlt, fun _ => by omega⟩
  · exact ⟨fun h => by omega, fun h => absurd h hlt⟩
  · exact ⟨fun h => by omega, fun h => absurd h hlt⟩

theorem byKey_swap [LinearOrder β] (key : α → β) (a b : α) : byKey key b a = -byKey key a b := by
  unfold byKey
  rcases lt_trichotomy (key a) (key b) with h | h | h
  · rw [if_neg h.not_gt, if_pos h, if_pos h]
    rfl
  · rw [h]
    simp
  · rw [if_pos h, if_neg h.not_gt, if_pos h]

theorem preordered_byKey [LinearOrder β] (key : α → β) (S : Set α) : Preordered (byKey key) S where
  skew a _ b _ := byKey_swap key a b
  trans a _ b _ c _ hab hbc := by
    rw [byKey_nonpos] at hab hbc ⊢
    exact hab.trans hbc

/-- The second comparator decides where the first one ties. -/
def thenBy (cmp cmp' : Comparator α) : Comparator α := fun a b =>
  if cmp a b ≠ 0 then cmp a b else cmp' a b

theorem Preordered.thenBy {cmp cmp' : Comparator α} {S : Set α} (h : Preordered cmp S)
    (h' : Preordered cmp' S) : Preordered (thenBy cmp cmp') S where
  skew a ha b hb := by
    have hskew := h.skew a ha b hb
    unfold WireTools.thenBy
    split_ifs with hba hab hab
    · exact hskew
    · omega
    · omega
    · exact h'.skew a ha b hb
  trans a ha b hb c hc := by
    have hle : ∀ x ∈ S, ∀ y ∈ S, WireTools.thenBy cmp cmp' x y ≤ 0 →
        cmp x y < 0 ∨ cmp x y = 0 ∧ cmp' x y ≤ 0 := by
      intro x _ y _ hxy
      unfold WireTools.thenBy at hxy
      split_ifs at hxy with hne
      · exact Or.inl (by omega)
      · exact Or.inr ⟨by omega, hxy⟩
    intro hab hbc
    have hlt : cmp a c < 0 → WireTools.thenBy cmp cmp' a c ≤ 0 := by
      intro hac
      unfold WireTools.thenBy
      rw [if_pos (by omega)]
      omega
    rcases hle a ha b hb hab with hab | ⟨hab, hab'⟩
    · rcases hle b hb c hc hbc with hbc | ⟨hbc, _⟩
      · exact hlt (h.lt_of_lt_of_le ha hb hc hab hbc.le)
      · exact hlt (h.lt_of_lt_of_le ha hb hc hab hbc.le)
    · rcases hle b hb c hc hbc with hbc | ⟨hbc, hbc'⟩
      · exact hlt (h.lt_of_le_of_lt ha hb hc hab.le hbc)
      · have hac := h.trans a ha b hb c hc hab.le hbc.le
        have hle' := h'.trans a ha b hb c hc hab' hbc'
        unfold WireTools.thenBy
        split_ifs
        · exact hac
        · exact hle'

/-- The first of the comparators that tells two items apart decides, else the last one. -/
def firstOf (cmps : List (Comparator α)) (last : Comparator α) : Comparator α := fun a b =>
  ((cmps.map fun cmp => cmp a b).find? (· ≠ 0)).getD (last a b)

theorem firstOf_cons (cmp : Comparator α) (cmps : List (Comparator α)) (last : Comparator α) :
    firstOf (cmp :: cmps) last = thenBy cmp (firstOf cmps last) := by
  funext a b
  unfold firstOf thenBy
  rw [List.map_cons]
  by_cases h : cmp a b = 0
  · rw [List.find?_cons_of_neg (by simpa using h), if_neg (not_not.mpr h)]
  · rw [List.find?_cons_of_pos (by simpa using h), if_pos h]
    rfl

theorem Preordered.firstOf {cmps : List (Comparator α)} {last : Comparator α} {S : Set α}
    (h : ∀ cmp ∈ cmps, Preordered cmp S) (hlast : Preordered last S) :
    Preordered (firstOf cmps last) S := by
  induction cmps with
  | nil => exact hlast
  | cons cmp cmps ih =>
      rw [firstOf_cons]
      exact (h cmp (by simp)).thenBy (ih fun c hc => h c (List.mem_cons_of_mem _ hc))

/-- Where the last comparator tells every two items apart, so do all together. -/
theorem eq_of_firstOf {cmps : List (Comparator α)} {last : Comparator α} {a b : α}
    (hlast : last a b = 0 → a = b) (h : firstOf cmps last a b = 0) : a = b := by
  unfold firstOf at h
  cases hfind : (cmps.map fun cmp => cmp a b).find? (· ≠ 0) with
  | none =>
      rw [hfind] at h
      exact hlast h
  | some n =>
      rw [hfind] at h
      have hn := List.find?_some hfind
      rw [decide_eq_true_eq] at hn
      exact absurd h hn

/-- The lexicographic order of several strict orders, the most significant first. -/
def lexicographic {γ : Type} (before : γ → α → α → Prop) : List γ → α → α → Prop
  | [], _, _ => False
  | s :: l, a, b => before s a b ∨ ¬before s b a ∧ lexicographic before l a b

theorem firstOf_neg {γ : Type} {cmp : γ → Comparator α} {before : γ → α → α → Prop}
    (last : Comparator α) {a b : α} : ∀ {l : List γ},
      (∀ s ∈ l, (before s a b ↔ cmp s a b < 0) ∧ (before s b a ↔ 0 < cmp s a b)) →
        (firstOf (l.map cmp) last a b < 0 ↔
          lexicographic before l a b ∨ ¬lexicographic before l b a ∧ last a b < 0)
  | [], _ => by
      change last a b < 0 ↔ False ∨ ¬False ∧ last a b < 0
      rw [false_or, not_false_eq_true, true_and]
  | s :: l, h => by
      have ih := firstOf_neg last fun t ht => h t (List.mem_cons_of_mem _ ht)
      obtain ⟨hab, hba⟩ := h s (by simp)
      rw [List.map_cons, firstOf_cons, thenBy, lexicographic, lexicographic, hab, hba]
      rcases lt_trichotomy (cmp s a b) 0 with hlt | heq | hgt
      · rw [if_pos hlt.ne]
        exact ⟨fun _ => Or.inl (Or.inl hlt), fun _ => hlt⟩
      · rw [if_neg (not_not.mpr heq), ih, heq]
        simp
      · rw [if_pos hgt.ne']
        constructor
        · intro h
          omega
        · rintro ((hlt | ⟨hn, _⟩) | ⟨hn, _⟩)
          · omega
          · exact absurd hgt hn
          · exact absurd (Or.inl hgt) hn

/-- NULL comes last, and ties with NULL. -/
def nullOrder (left right : Bool) : ℤ :=
  if left = right then 0 else if left then 1 else -1

/-- The comparator of what is not null; null comes last. -/
def nullsLast (isNull : α → Bool) (cmp : Comparator α) : Comparator α := fun a b =>
  if isNull a || isNull b then nullOrder (isNull a) (isNull b) else cmp a b

theorem Preordered.nullsLast {isNull : α → Bool} {cmp : Comparator α} {S : Set α}
    (h : Preordered cmp {a | a ∈ S ∧ isNull a = false}) :
    Preordered (nullsLast isNull cmp) S where
  skew a ha b hb := by
    unfold WireTools.nullsLast
    cases hna : isNull a with
    | true =>
        cases hnb : isNull b with
        | true => rfl
        | false => rfl
    | false =>
        cases hnb : isNull b with
        | true => rfl
        | false => exact h.skew a ⟨ha, hna⟩ b ⟨hb, hnb⟩
  trans a ha b hb c hc := by
    unfold WireTools.nullsLast
    cases hna : isNull a with
    | true =>
        cases hnb : isNull b with
        | true =>
            cases hnc : isNull c with
            | true => exact fun _ _ => le_refl 0
            | false => exact fun _ hbc => hbc
        | false => exact fun hab => absurd (show (1 : ℤ) ≤ 0 from hab) (by decide)
    | false =>
        cases hnc : isNull c with
        | true => exact fun _ _ => show (-1 : ℤ) ≤ 0 by decide
        | false =>
            cases hnb : isNull b with
            | true => exact fun _ hbc => absurd (show (1 : ℤ) ≤ 0 from hbc) (by decide)
            | false => exact h.trans a ⟨ha, hna⟩ b ⟨hb, hnb⟩ c ⟨hc, hnc⟩

/-! ### Sorting -/

/-- A consistent comparator: the items of the list fall into classes of equal ones, and these are
totally ordered. -/
structure ConsistentOn (cmp : Comparator α) (l : List α) : Prop where
  refl : ∀ a ∈ l, cmp a a = 0
  symm : ∀ a ∈ l, ∀ b ∈ l, cmp a b = 0 → cmp b a = 0
  trans_eq : ∀ a ∈ l, ∀ b ∈ l, ∀ c ∈ l, cmp a b = 0 → cmp b c = 0 → cmp a c = 0
  trans_lt : ∀ a ∈ l, ∀ b ∈ l, ∀ c ∈ l, cmp a b < 0 → cmp b c < 0 → cmp a c < 0
  trans_gt : ∀ a ∈ l, ∀ b ∈ l, ∀ c ∈ l, 0 < cmp a b → 0 < cmp b c → 0 < cmp a c

theorem Preordered.consistent {cmp : Comparator α} {l : List α}
    (h : Preordered cmp {a | a ∈ l}) : ConsistentOn cmp l where
  refl a ha := h.self ha
  symm a ha b hb hab := by
    rw [h.skew a ha b hb, hab]
    rfl
  trans_eq a ha b hb c hc hab hbc := by
    have hle := h.trans a ha b hb c hc hab.le hbc.le
    have hba := h.skew a ha b hb
    have hcb := h.skew b hb c hc
    have hca := h.skew a ha c hc
    have hge := h.trans c hc b hb a ha (by omega) (by omega)
    omega
  trans_lt a ha b hb c hc hab hbc := h.lt_of_lt_of_le ha hb hc hab hbc.le
  trans_gt a ha b hb c hc hab hbc := by
    have hba := h.skew a ha b hb
    have hcb := h.skew b hb c hc
    have hca := h.skew a ha c hc
    have hlt := h.lt_of_lt_of_le hc hb ha (by omega) (by omega)
    omega

namespace ConsistentOn

variable {cmp : Comparator α} {l : List α}

theorem lt_of_gt (h : ConsistentOn cmp l) {a b : α} (ha : a ∈ l) (hb : b ∈ l) (hab : 0 < cmp a b) :
    cmp b a < 0 := by
  rcases lt_trichotomy (cmp b a) 0 with hba | hba | hba
  · exact hba
  · have heq := h.symm b hb a ha hba
    omega
  · have hself := h.trans_gt a ha b hb a ha hab hba
    rw [h.refl a ha] at hself
    omega

theorem trans_le (h : ConsistentOn cmp l) {a b c : α} (ha : a ∈ l) (hb : b ∈ l) (hc : c ∈ l)
    (hab : cmp a b ≤ 0) (hbc : cmp b c ≤ 0) : cmp a c ≤ 0 := by
  by_contra hac
  have hca := h.lt_of_gt ha hc (by omega)
  rcases hab.lt_or_eq with hab | hab
  · rcases hbc.lt_or_eq with hbc | hbc
    · have hlt := h.trans_lt a ha b hb c hc hab hbc
      omega
    · have hlt := h.trans_lt c hc a ha b hb hca hab
      have heq := h.symm b hb c hc hbc
      omega
  · rcases hbc.lt_or_eq with hbc | hbc
    · have hlt := h.trans_lt b hb c hc a ha hbc hca
      have heq := h.symm a ha b hb hab
      omega
    · have heq := h.trans_eq a ha b hb c hc hab hbc
      omega

end ConsistentOn

/-- A sort: a rearrangement of the items, in order when the comparator is consistent on them. -/
structure ArraySort (α : Type) where
  sort : Comparator α → List α → List α
  perm : ∀ cmp l, (sort cmp l).Perm l
  sorted : ∀ cmp l, ConsistentOn cmp l → (sort cmp l).Pairwise fun a b => cmp a b ≤ 0

/-- The merge sort. -/
def ArraySort.merge (α : Type) : ArraySort α where
  sort cmp l := l.mergeSort fun a b => decide (cmp a b ≤ 0)
  perm cmp l := List.mergeSort_perm l _
  sorted cmp l h := by
    let le : {a // a ∈ l} → {a // a ∈ l} → Bool := fun a b => decide (cmp a b ≤ 0)
    have hsorted : (l.attach.mergeSort le).Pairwise fun a b => le a b = true := by
      refine List.pairwise_mergeSort ?_ ?_ _
      · intro a b c hab hbc
        rw [decide_eq_true_eq] at hab hbc ⊢
        exact h.trans_le a.2 b.2 c.2 hab hbc
      · intro a b
        rw [Bool.or_eq_true, decide_eq_true_eq, decide_eq_true_eq]
        refine (le_or_gt (cmp a b) 0).imp_right fun hab => ?_
        exact (h.lt_of_gt a.2 b.2 hab).le
    have hmap : (l.attach.mergeSort le).map Subtype.val =
        l.mergeSort fun a b => decide (cmp a b ≤ 0) := by
      rw [List.map_mergeSort (s := fun a b => decide (cmp a b ≤ 0)) (f := Subtype.val)
        fun a _ b _ => rfl, List.attach_map_subtype_val]
    rw [← hmap, List.pairwise_map]
    exact hsorted.imp of_decide_eq_true

/-- Where only equal items tie, the sorted arrangement is the only one. -/
theorem ArraySort.eq_sort (s : ArraySort α) {cmp : Comparator α} {l order : List α}
    (h : Preordered cmp {a | a ∈ l}) (hties : ∀ a ∈ l, ∀ b ∈ l, cmp a b = 0 → a = b) :
    order.Perm l ∧ (order.Pairwise fun a b => cmp a b ≤ 0) ↔ order = s.sort cmp l := by
  have hsorted := s.sorted cmp l h.consistent
  constructor
  · rintro ⟨hperm, hpairwise⟩
    refine List.Perm.eq_of_pairwise ?_ hpairwise hsorted (hperm.trans (s.perm cmp l).symm)
    intro a b ha hb hab hba
    have ha := hperm.mem_iff.mp ha
    have hb := (s.perm cmp l).mem_iff.mp hb
    have hskew := h.skew a ha b hb
    exact hties a ha b hb (by omega)
  · rintro rfl
    exact ⟨s.perm cmp l, hsorted⟩

end WireTools
