import Mathlib.Data.List.Nodup

/-! # Sorting by a key

`sortBy key xs` sorts by what `key` says of an item, items with the same key in the order in which
they stand.

* the items are those of the list (`sortBy_perm`), their keys in order (`sortBy_pairwise`);
* where no two items share a key, lists with the same items have one sorting
  (`sortBy_eq_iff_perm`), so two tables sorted for a comparison agree when they hold the same
  rows. -/

namespace WireTools

variable {α κ : Type} [LE κ] [DecidableLE κ]

def sortBy (key : α → κ) (xs : List α) : List α :=
  xs.mergeSort fun a b => decide (key a ≤ key b)

theorem sortBy_perm (key : α → κ) (xs : List α) : (sortBy key xs).Perm xs :=
  List.mergeSort_perm _ _

@[simp] theorem mem_sortBy {key : α → κ} {xs : List α} {a : α} : a ∈ sortBy key xs ↔ a ∈ xs :=
  List.mem_mergeSort

variable [Std.IsLinearOrder κ]

theorem sortBy_pairwise (key : α → κ) (xs : List α) :
    (sortBy key xs).Pairwise fun a b => key a ≤ key b := by
  have hsorted : (sortBy key xs).Pairwise fun a b => decide (key a ≤ key b) = true := by
    refine List.pairwise_mergeSort (fun a b c hab hbc => ?_) (fun a b => ?_) _
    · exact decide_eq_true (Std.le_trans (of_decide_eq_true hab) (of_decide_eq_true hbc))
    · rw [Bool.or_eq_true, decide_eq_true_eq, decide_eq_true_eq]
      exact Std.le_total
  exact hsorted.imp fun h => of_decide_eq_true h

/-- Where no two items share a key, the keys are in strict order. -/
theorem sortBy_strict [LT κ] [Std.LawfulOrderLT κ] {key : α → κ} {xs : List α}
    (h : (xs.map key).Nodup) : ((sortBy key xs).map key).Pairwise (· < ·) := by
  have hle : ((sortBy key xs).map key).Pairwise (· ≤ ·) :=
    List.pairwise_map.mpr (sortBy_pairwise key xs)
  have hne : ((sortBy key xs).map key).Nodup :=
    ((sortBy_perm key xs).map key).nodup_iff.mpr h
  refine (hle.and hne).imp fun {j k} hjk => ?_
  exact Std.lt_of_le_of_ne hjk.1 hjk.2

/-- Two sortings agree exactly when the items do, where no two of them share a key. -/
theorem sortBy_eq_iff_perm {key : α → κ} {xs ys : List α} (h : (ys.map key).Nodup) :
    sortBy key xs = sortBy key ys ↔ xs.Perm ys := by
  constructor
  · intro heq
    exact (sortBy_perm key xs).symm.trans (heq ▸ sortBy_perm key ys)
  · intro hperm
    refine List.Perm.eq_of_pairwise (fun a b ha hb hab hba => ?_) (sortBy_pairwise key xs)
      (sortBy_pairwise key ys) ?_
    · have ha := hperm.mem_iff.mp (mem_sortBy.mp ha)
      have hb := mem_sortBy.mp hb
      exact List.inj_on_of_nodup_map h ha hb (Std.le_antisymm hab hba)
    · exact (sortBy_perm key xs).trans (hperm.trans (sortBy_perm key ys).symm)

/-- Items that are read alike are the same items, where the reading tells them apart. -/
theorem map_perm_iff {β : Type} {f : α → β} {xs ys : List α}
    (hinj : ∀ a ∈ xs ++ ys, ∀ b ∈ xs ++ ys, f a = f b → a = b) (hxs : xs.Nodup) (hys : ys.Nodup) :
    (xs.map f).Perm (ys.map f) ↔ xs.Perm ys := by
  refine ⟨fun h => ?_, fun h => h.map f⟩
  rw [List.perm_ext_iff_of_nodup hxs hys]
  intro a
  constructor
  · intro ha
    obtain ⟨b, hb, hab⟩ := List.mem_map.mp (h.mem_iff.mp (List.mem_map_of_mem ha))
    exact hinj b (List.mem_append_right _ hb) a (List.mem_append_left _ ha) hab ▸ hb
  · intro ha
    obtain ⟨b, hb, hab⟩ := List.mem_map.mp (h.mem_iff.mpr (List.mem_map_of_mem ha))
    exact hinj b (List.mem_append_left _ hb) a (List.mem_append_right _ ha) hab ▸ hb

end WireTools
