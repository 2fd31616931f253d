import Mathlib.Algebra.BigOperators.Group.List.Basic
import Mathlib.Data.List.Induction
import WireTools.OrderedMap

/-! # Sums by key

* `sumAt entries k`: the sum of the amounts that a list of entries has for a key;
* `tally`: the entries added one after the other to a map, which then has `sumAt` for every key
  there is (`get_tally`), each key once (`distinct_tally`). -/

namespace WireTools

open OrderedMap

variable {κ ν : Type} [DecidableEq κ] [AddCommMonoid ν]

/-- What is there for a key and one amount more. -/
def addTo (m : OrderedMap κ ν) (k : κ) (n : ν) : OrderedMap κ ν :=
  m.set k ((m.get k).getD 0 + n)

def tally (entries : List (κ × ν)) : OrderedMap κ ν :=
  entries.foldl (fun m entry => addTo m entry.1 entry.2) []

def sumAt (entries : List (κ × ν)) (k : κ) : ν :=
  ((entries.filter fun entry => entry.1 = k).map Prod.snd).sum

theorem sumAt_append (entries more : List (κ × ν)) (k : κ) :
    sumAt (entries ++ more) k = sumAt entries k + sumAt more k := by
  rw [sumAt, List.filter_append, List.map_append, List.sum_append]
  rfl

theorem sumAt_cons (entry : κ × ν) (entries : List (κ × ν)) (k : κ) :
    sumAt (entry :: entries) k = (if entry.1 = k then entry.2 else 0) + sumAt entries k := by
  unfold sumAt
  rw [List.filter_cons]
  by_cases hk : entry.1 = k
  · rw [if_pos (decide_eq_true hk), if_pos hk, List.map_cons, List.sum_cons]
  · rw [if_neg (by simpa using hk), if_neg hk, zero_add]

theorem sumAt_of_not_mem {entries : List (κ × ν)} {k : κ} (h : k ∉ entries.map Prod.fst) :
    sumAt entries k = 0 := by
  have hnone : (entries.filter fun entry => entry.1 = k) = [] := by
    refine List.filter_eq_nil_iff.mpr fun entry hmem hk => h ?_
    rw [← of_decide_eq_true hk]
    exact List.mem_map_of_mem hmem
  rw [sumAt, hnone]
  rfl

theorem get_addTo (m : OrderedMap κ ν) (k : κ) (n : ν) (j : κ) :
    (addTo m k n).get j = if j = k then some ((m.get k).getD 0 + n) else m.get j :=
  get_set _ _ _ _

theorem get_tally (entries : List (κ × ν)) (k : κ) :
    (tally entries).get k =
      if k ∈ entries.map Prod.fst then some (sumAt entries k) else none := by
  induction entries using List.reverseRecOn with
  | nil => rfl
  | append_singleton entries entry ih =>
      have hlast : sumAt [entry] k = if entry.1 = k then entry.2 else 0 := by
        rw [sumAt_cons, sumAt_of_not_mem List.not_mem_nil, add_zero]
      rw [tally, List.foldl_append, List.foldl_cons, List.foldl_nil, ← tally, get_addTo,
        sumAt_append, hlast, List.map_append, List.map_singleton]
      by_cases hk : k = entry.1
      · subst hk
        rw [if_pos rfl, if_pos (List.mem_append_right _ List.mem_cons_self), if_pos rfl, ih]
        split
        · rfl
        · next hout => rw [sumAt_of_not_mem hout, Option.getD_none]
      · rw [if_neg hk, ih, if_neg (Ne.symm hk), add_zero]
        have hmem : k ∈ entries.map Prod.fst ++ [entry.1] ↔ k ∈ entries.map Prod.fst := by
          rw [List.mem_append, List.mem_singleton]
          exact or_iff_left hk
        simp only [hmem]

theorem mem_keys_tally {entries : List (κ × ν)} {k : κ} :
    k ∈ (tally entries).keys ↔ k ∈ entries.map Prod.fst := by
  rw [mem_keys, get_tally]
  split
  · next hmem => exact ⟨fun _ => hmem, fun _ => ⟨_, rfl⟩⟩
  · next hout => exact ⟨nofun, fun hmem => absurd hmem hout⟩

theorem distinct_tally (entries : List (κ × ν)) : (tally entries).Distinct := by
  have hadd : ∀ m : OrderedMap κ ν, m.Distinct →
      (entries.foldl (fun m entry => addTo m entry.1 entry.2) m).Distinct := by
    induction entries with
    | nil => exact fun m hm => hm
    | cons entry entries ih => exact fun m hm => ih _ (hm.set _ _)
  exact hadd [] List.nodup_nil

/-- What is there for every key. -/
theorem tally_eq_map (entries : List (κ × ν)) :
    tally entries = (tally entries).keys.map fun k => (k, sumAt entries k) := by
  have hkeys : OrderedMap.keys ((tally entries).keys.map fun k => (k, sumAt entries k)) =
      (tally entries).keys := by
    rw [OrderedMap.keys, List.map_map]
    exact List.map_id _
  have hdistinct : OrderedMap.Distinct ((tally entries).keys.map fun k =>
      (k, sumAt entries k)) := by
    rw [OrderedMap.Distinct, hkeys]
    exact distinct_tally entries
  refine (distinct_tally entries).ext hkeys.symm fun k => ?_
  rw [get_tally]
  split
  · next hmem =>
      exact (hdistinct.mem_iff.mp (List.mem_map.mpr ⟨k, mem_keys_tally.mpr hmem, rfl⟩)).symm
  · next hout =>
      refine (not_mem_keys.mp ?_).symm
      rw [hkeys, mem_keys_tally]
      exact hout

/-- Over keys that are all there, each once, the sums are the sum of all amounts. -/
theorem sum_sumAt {entries : List (κ × ν)} {keys : List κ} (hnodup : keys.Nodup)
    (hmem : ∀ entry ∈ entries, entry.1 ∈ keys) :
    (keys.map fun k => sumAt entries k).sum = (entries.map Prod.snd).sum := by
  induction entries with
  | nil =>
      refine List.sum_eq_zero fun amount hamount => ?_
      obtain ⟨_, _, rfl⟩ := List.mem_map.mp hamount
      rfl
  | cons entry entries ih =>
      rw [List.forall_mem_cons] at hmem
      have hone : (keys.map fun k => if entry.1 = k then entry.2 else 0).sum = entry.2 := by
        rw [List.sum_map_eq_nsmul_single entry.1 _ fun k hk _ => if_neg (Ne.symm hk),
          hnodup.count, if_pos hmem.1, if_pos rfl, one_nsmul]
      simp only [sumAt_cons, List.sum_map_add, List.map_cons, List.sum_cons, ih hmem.2, hone]

end WireTools
