import Mathlib.Algebra.BigOperators.Group.Finset.Basic
import Mathlib.Algebra.Order.BigOperators.Group.Finset
import Mathlib.Algebra.Order.Ring.Int
import Mathlib.Data.List.Nodup
import Mathlib.Data.List.Pairwise
import Mathlib.Tactic.Linarith
import WireTools.Tally

/-! # Ledgers that batches fill

A batch adds its entries to a ledger.  `filled batch executed` are the entries of the batches that
were executed, in the order of execution, each as often as it was executed; the ledger is their
`tally`.

* maps with distinct keys hold the same entries when they agree at every key
  (`Distinct.perm_iff`), and a tally without repeated keys is its entries (`tally_of_nodup`);
* `sumAt_filled`: where every key is planned once, a key has its amount times the number of
  executions of its batch;
* `tally_filled_perm_iff`: the ledger holds what is planned when every batch was executed exactly
  once. -/

namespace WireTools

open OrderedMap

/-! ### Maps as their entries -/

section Maps

variable {κ ν : Type} [DecidableEq κ]

omit [DecidableEq κ] in
theorem OrderedMap.Distinct.nodup {m : OrderedMap κ ν} (h : m.Distinct) : m.Nodup :=
  List.Nodup.of_map Prod.fst h

omit [DecidableEq κ] in
theorem OrderedMap.Distinct.perm {m n : OrderedMap κ ν} (hm : m.Distinct) (h : m.Perm n) :
    n.Distinct :=
  (h.map Prod.fst).nodup_iff.mp hm

theorem OrderedMap.Distinct.perm_iff {m n : OrderedMap κ ν} (hm : m.Distinct) (hn : n.Distinct) :
    m.Perm n ↔ ∀ k, m.get k = n.get k := by
  rw [List.perm_ext_iff_of_nodup hm.nodup hn.nodup]
  constructor
  · intro h k
    refine Option.ext fun v => ?_
    rw [← hm.mem_iff, ← hn.mem_iff, h]
  · rintro h ⟨k, v⟩
    rw [hm.mem_iff, hn.mem_iff, h]

omit [DecidableEq κ] in
/-- What is read of entries tells them apart, where it tells their keys apart. -/
theorem nodup_map_key {θ : Type} {entries : List (κ × ν)} (h : (entries.map Prod.fst).Nodup)
    {f : κ × ν → θ} (hf : ∀ a ∈ entries, ∀ b ∈ entries, f a = f b → a.1 = b.1) :
    (entries.map f).Nodup :=
  (List.Nodup.of_map Prod.fst h).map_on fun a ha b hb hab =>
    List.inj_on_of_nodup_map h ha hb (hf a ha b hb hab)

variable [AddCommMonoid ν]

/-- The sum of a key that comes once. -/
theorem sumAt_of_mem {entries : List (κ × ν)} (h : (entries.map Prod.fst).Nodup) {k : κ} {n : ν}
    (hmem : (k, n) ∈ entries) : sumAt entries k = n := by
  induction entries with
  | nil => cases hmem
  | cons entry entries ih =>
      rw [List.map_cons, List.nodup_cons] at h
      rw [sumAt_cons]
      rcases List.mem_cons.mp hmem with rfl | hmem
      · rw [if_pos rfl, sumAt_of_not_mem h.1, add_zero]
      · have hne : entry.1 ≠ k := by
          rintro rfl
          exact h.1 (List.mem_map.mpr ⟨_, hmem, rfl⟩)
        rw [if_neg hne, zero_add, ih h.2 hmem]

theorem mem_tally {entries : List (κ × ν)} {k : κ} {n : ν} :
    (k, n) ∈ tally entries ↔ k ∈ entries.map Prod.fst ∧ sumAt entries k = n := by
  rw [(distinct_tally entries).mem_iff, get_tally]
  split
  · next hmem => rw [Option.some.injEq, and_iff_right hmem]
  · next hout => exact iff_of_false (fun h => by cases h) fun h => hout h.1

theorem sumAt_perm {entries entries' : List (κ × ν)} (h : entries.Perm entries') (k : κ) :
    sumAt entries k = sumAt entries' k :=
  ((h.filter _).map _).sum_eq

theorem tally_perm {entries entries' : List (κ × ν)} (h : entries.Perm entries') :
    (tally entries).Perm (tally entries') := by
  refine ((distinct_tally entries).perm_iff (distinct_tally entries')).mpr fun k => ?_
  rw [get_tally, get_tally, sumAt_perm h]
  simp only [(h.map Prod.fst).mem_iff]

theorem tally_of_nodup {entries : List (κ × ν)} (h : (entries.map Prod.fst).Nodup) :
    (tally entries).Perm entries := by
  rw [List.perm_ext_iff_of_nodup (distinct_tally entries).nodup (List.Nodup.of_map _ h)]
  rintro ⟨k, n⟩
  rw [mem_tally]
  constructor
  · rintro ⟨hmem, rfl⟩
    obtain ⟨⟨_, n⟩, hentry, rfl⟩ := List.mem_map.mp hmem
    rw [sumAt_of_mem h hentry]
    exact hentry
  · exact fun hentry => ⟨List.mem_map_of_mem hentry, sumAt_of_mem h hentry⟩

/-- Fewer entries have the sums of a tally where they have those of all its keys. -/
theorem forall_tally_iff {entries more : List (κ × ν)} (hsub : entries ⊆ more) :
    (∀ entry ∈ tally more, sumAt entries entry.1 = entry.2) ↔
      ∀ k, sumAt entries k = sumAt more k := by
  constructor
  · intro h k
    by_cases hk : k ∈ more.map Prod.fst
    · exact h (k, sumAt more k) (mem_tally.mpr ⟨hk, rfl⟩)
    · rw [sumAt_of_not_mem hk, sumAt_of_not_mem fun hmem => hk (List.map_subset _ hsub hmem)]
  · rintro h ⟨k, n⟩ hentry
    exact (h k).trans (mem_tally.mp hentry).2

end Maps

/-! ### Maps under other keys -/

section Relabelled

variable {κ κ' ν ν' : Type} [DecidableEq κ] [DecidableEq κ'] {f : κ → κ'} {g : κ → ν → ν'}

/-- The entries under other keys, with what a key and its value give. -/
def OrderedMap.relabel (f : κ → κ') (g : κ → ν → ν') (m : OrderedMap κ ν) : OrderedMap κ' ν' :=
  m.map fun entry => (f entry.1, g entry.1 entry.2)

theorem OrderedMap.get_relabel {m : OrderedMap κ ν} {k : κ}
    (hinj : ∀ entry ∈ m, f entry.1 = f k → entry.1 = k) :
    (m.relabel f g).get (f k) = (m.get k).map (g k) := by
  induction m with
  | nil => rfl
  | cons entry m ih =>
      rw [List.forall_mem_cons] at hinj
      rw [relabel, List.map_cons, get, get]
      by_cases hk : entry.1 = k
      · subst hk
        rw [if_pos rfl, if_pos rfl]
        rfl
      · rw [if_neg fun h => hk (hinj.1 h), if_neg hk]
        exact ih hinj.2

theorem OrderedMap.set_relabel {m : OrderedMap κ ν} {k : κ}
    (hinj : ∀ entry ∈ m, f entry.1 = f k → entry.1 = k) (v : ν) :
    (m.relabel f g).set (f k) (g k v) = (m.set k v).relabel f g := by
  induction m with
  | nil => rfl
  | cons entry m ih =>
      rw [List.forall_mem_cons] at hinj
      rw [relabel, List.map_cons, set, set]
      by_cases hk : entry.1 = k
      · subst hk
        rw [if_pos rfl, if_pos rfl]
        rfl
      · rw [if_neg fun h => hk (hinj.1 h), if_neg hk]
        exact congrArg _ (ih hinj.2)

end Relabelled

/-! ### Entries added to a map -/

section Adding

variable {κ ν : Type} [DecidableEq κ] [AddCommMonoid ν]

def addAll (m : OrderedMap κ ν) (entries : List (κ × ν)) : OrderedMap κ ν :=
  entries.foldl (fun m entry => addTo m entry.1 entry.2) m

theorem key_addTo {m : OrderedMap κ ν} {k : κ} {n : ν} {entry : κ × ν}
    (h : entry ∈ addTo m k n) : entry.1 = k ∨ entry.1 ∈ m.map Prod.fst := by
  have hkey : entry.1 ∈ (addTo m k n).keys := List.mem_map_of_mem h
  rw [addTo, keys_set] at hkey
  split at hkey
  · exact Or.inr hkey
  · exact (List.mem_append.mp hkey).symm.imp_left List.mem_singleton.mp

theorem addAll_perm {m n : OrderedMap κ ν} (hm : m.Distinct) (h : m.Perm n)
    (entries : List (κ × ν)) : (addAll m entries).Perm (addAll n entries) := by
  induction entries generalizing m n with
  | nil => exact h
  | cons entry entries ih =>
      have hn := hm.perm h
      have hget := (hm.perm_iff hn).mp h
      refine ih (hm.set _ _) (((hm.set _ _).perm_iff (hn.set _ _)).mpr fun k => ?_)
      rw [get_set, get_set, hget, hget]

theorem getD_addAll (m : OrderedMap κ ν) (entries : List (κ × ν)) (k : κ) :
    ((addAll m entries).get k).getD 0 = (m.get k).getD 0 + sumAt entries k := by
  induction entries generalizing m with
  | nil => exact (add_zero _).symm
  | cons entry entries ih =>
      rw [addAll, List.foldl_cons]
      refine (ih _).trans ?_
      rw [get_addTo, sumAt_cons, ← add_assoc]
      by_cases hk : entry.1 = k
      · subst hk
        rw [if_pos rfl, if_pos rfl, Option.getD_some]
      · rw [if_neg (Ne.symm hk), if_neg hk, add_zero]

/-- More entries are added to a map that holds a tally, in whatever order it holds it. -/
theorem perm_tally_append {m m' : OrderedMap κ ν} {entries more : List (κ × ν)}
    (h : m.Perm (tally entries)) (h' : m'.Perm (addAll m more)) :
    m'.Perm (tally (entries ++ more)) := by
  have happend : tally (entries ++ more) = addAll (tally entries) more := List.foldl_append
  rw [happend]
  exact h'.trans (addAll_perm ((distinct_tally entries).perm h.symm) h more)

/-- Two maps that hold the same tally. -/
theorem get_of_perm_tally {m : OrderedMap κ ν} {entries : List (κ × ν)}
    (h : m.Perm (tally entries)) (k : κ) : m.get k = (tally entries).get k :=
  (((distinct_tally entries).perm h.symm).perm_iff (distinct_tally entries)).mp h k

theorem getD_of_perm_tally {m : OrderedMap κ ν} {entries : List (κ × ν)}
    (h : m.Perm (tally entries)) (k : κ) : (m.get k).getD 0 = sumAt entries k := by
  rw [get_of_perm_tally h, get_tally]
  split
  · rfl
  · next hout => rw [sumAt_of_not_mem hout, Option.getD_none]

end Adding

/-! ### Lists put together -/

section Lists

variable {α β τ : Type}

/-- Lists without repetition whose items show which list they are from. -/
theorem nodup_flatMap_of_tag {l : List α} {f : α → List β} (tag : β → τ) (source : α → τ)
    (hl : l.Pairwise fun a a' => source a ≠ source a') (hf : ∀ a ∈ l, (f a).Nodup)
    (htag : ∀ a ∈ l, ∀ b ∈ f a, tag b = source a) : (l.flatMap f).Nodup := by
  refine List.nodup_flatMap.mpr ⟨hf, hl.imp_of_mem fun {a a'} ha ha' hne b hb hb' => hne ?_⟩
  rw [← htag a ha b hb, ← htag a' ha' b hb']

end Lists

/-! ### Executed batches -/

section Batches

variable {ι κ ν : Type} [DecidableEq κ] [AddCommMonoid ν] (batch : ι → List (κ × ν))

def filled (executed : List ι) : List (κ × ν) :=
  executed.flatMap batch

variable {batch}

theorem sumAt_filled_sum (executed : List ι) (k : κ) :
    sumAt (filled batch executed) k = (executed.map fun i => sumAt (batch i) k).sum := by
  induction executed with
  | nil => rfl
  | cons i executed ih =>
      rw [filled, List.flatMap_cons, sumAt_append, List.map_cons, List.sum_cons, ← ih]
      rfl

omit [DecidableEq κ] [AddCommMonoid ν] in
theorem mem_keys_filled {executed : List ι} {k : κ} :
    k ∈ (filled batch executed).map Prod.fst ↔ ∃ i ∈ executed, k ∈ (batch i).map Prod.fst := by
  rw [filled, List.map_flatMap, List.mem_flatMap]

omit [DecidableEq κ] [AddCommMonoid ν] in
theorem filled_perm {planned executed : List ι} (h : executed.Perm planned) :
    (filled batch executed).Perm (filled batch planned) :=
  h.flatMap_right batch

omit [DecidableEq κ] [AddCommMonoid ν] in
theorem filled_subset {planned executed : List ι} (h : executed ⊆ planned) :
    filled batch executed ⊆ filled batch planned := fun entry hentry => by
  obtain ⟨i, hi, hmem⟩ := List.mem_flatMap.mp hentry
  exact List.mem_flatMap.mpr ⟨i, h hi, hmem⟩

/-- A row that was filled is for a planned key. -/
theorem key_planned {planned executed : List ι} (h : executed ⊆ planned) {m : OrderedMap κ ν}
    (hm : m.Perm (tally (filled batch executed))) {row : κ × ν} (hrow : row ∈ m) :
    row.1 ∈ (filled batch planned).map Prod.fst := by
  have hkey := (mem_tally.mp (hm.mem_iff.mp hrow)).1
  exact List.map_subset _ (filled_subset h) hkey

variable [DecidableEq ι] {planned executed : List ι}

omit [DecidableEq κ] [AddCommMonoid ν] in
/-- A key that is planned once stands in one batch. -/
theorem eq_of_mem_batches (hkeys : ((filled batch planned).map Prod.fst).Nodup) {i j : ι} {k : κ}
    (hi : i ∈ planned) (hj : j ∈ planned) (hki : k ∈ (batch i).map Prod.fst)
    (hkj : k ∈ (batch j).map Prod.fst) : i = j := by
  rw [filled, List.map_flatMap, List.nodup_flatMap] at hkeys
  by_contra hne
  have hsymm : Std.Symm (Function.onFun List.Disjoint fun i => (batch i).map Prod.fst) :=
    ⟨fun _ _ h _ ha hb => h hb ha⟩
  exact hkeys.2.forall hi hj hne hki hkj

theorem sumAt_filled (hkeys : ((filled batch planned).map Prod.fst).Nodup)
    (hsub : executed ⊆ planned) {i : ι} (hi : i ∈ planned) {k : κ} {n : ν}
    (hentry : (k, n) ∈ batch i) : sumAt (filled batch executed) k = executed.count i • n := by
  have hk : k ∈ (batch i).map Prod.fst := List.mem_map_of_mem hentry
  have hbatch : ((batch i).map Prod.fst).Nodup := by
    rw [filled, List.map_flatMap, List.nodup_flatMap] at hkeys
    exact hkeys.1 i hi
  rw [sumAt_filled_sum, List.sum_map_eq_nsmul_single i, sumAt_of_mem hbatch hentry]
  intro j hne hj
  exact sumAt_of_not_mem fun hkj => hne (eq_of_mem_batches hkeys (hsub hj) hi hkj hk)

end Batches

/-! ### Exactly once -/

section Once

variable {ι κ : Type} [DecidableEq κ] [DecidableEq ι] {batch : ι → List (κ × ℤ)}
  {planned executed : List ι}

/-- Where all amounts are positive, only one execution of each batch gives what is planned. -/
theorem tally_filled_perm_iff (hkeys : ((filled batch planned).map Prod.fst).Nodup)
    (hpos : ∀ entry ∈ filled batch planned, 0 < entry.2) (hsub : executed ⊆ planned) :
    (tally (filled batch executed)).Perm (filled batch planned) ↔
      ∀ i ∈ planned, batch i ≠ [] → executed.count i = 1 := by
  constructor
  · intro hperm i hi hne
    obtain ⟨⟨k, n⟩, hentry⟩ := List.exists_mem_of_ne_nil _ hne
    have hplanned : (k, n) ∈ filled batch planned := List.mem_flatMap.mpr ⟨i, hi, hentry⟩
    have hsum := (mem_tally.mp (hperm.mem_iff.mpr hplanned)).2
    have hn := hpos _ hplanned
    rw [sumAt_filled hkeys hsub hi hentry, nsmul_eq_mul] at hsum
    have hcount : ((executed.count i : ℤ) - 1) * n = 0 := by linarith
    rcases mul_eq_zero.mp hcount with hone | hzero
    · omega
    · exact absurd hzero hn.ne'
  · intro hcount
    rw [List.perm_ext_iff_of_nodup (distinct_tally _).nodup (List.Nodup.of_map _ hkeys)]
    have hsum : ∀ i ∈ planned, ∀ k n, (k, n) ∈ batch i → sumAt (filled batch executed) k = n :=
      fun i hi k n hentry => by
        rw [sumAt_filled hkeys hsub hi hentry, hcount i hi (List.ne_nil_of_mem hentry), one_nsmul]
    rintro ⟨k, n⟩
    rw [mem_tally, mem_keys_filled]
    constructor
    · rintro ⟨⟨i, hi, hk⟩, rfl⟩
      obtain ⟨⟨_, n⟩, hentry, rfl⟩ := List.mem_map.mp hk
      rw [hsum i (hsub hi) _ n hentry]
      exact List.mem_flatMap.mpr ⟨i, hsub hi, hentry⟩
    · intro hmem
      obtain ⟨i, hi, hentry⟩ := List.mem_flatMap.mp hmem
      refine ⟨⟨i, ?_, List.mem_map_of_mem hentry⟩, hsum i hi k n hentry⟩
      refine List.count_pos_iff.mp ?_
      rw [hcount i hi (List.ne_nil_of_mem hentry)]
      exact Nat.one_pos

theorem sumAt_nonneg {entries : List (κ × ℤ)} (h : ∀ entry ∈ entries, 0 ≤ entry.2) {k : κ} :
    0 ≤ sumAt entries k := by
  refine List.sum_nonneg fun amount hamount => ?_
  obtain ⟨entry, hentry, rfl⟩ := List.mem_map.mp hamount
  exact h entry (List.mem_filter.mp hentry).1

theorem sumAt_pos {entries : List (κ × ℤ)} (h : ∀ entry ∈ entries, 0 < entry.2) {k : κ}
    (hk : k ∈ entries.map Prod.fst) : 0 < sumAt entries k := by
  obtain ⟨entry, hentry, rfl⟩ := List.mem_map.mp hk
  obtain ⟨front, back, rfl⟩ := List.append_of_mem hentry
  have hfront : 0 ≤ sumAt front entry.1 :=
    sumAt_nonneg fun e he => (h e (List.mem_append_left _ he)).le
  have hback : 0 ≤ sumAt back entry.1 :=
    sumAt_nonneg fun e he => (h e (List.mem_append_right _ (List.mem_cons_of_mem _ he))).le
  have hown := h entry hentry
  rw [sumAt_append, sumAt_cons, if_pos rfl]
  linarith

/-- What was executed once each is what is planned, in some order. -/
theorem perm_of_count_one (hnodup : planned.Nodup) (hsub : executed ⊆ planned)
    (h : ∀ i ∈ planned, executed.count i = 1) : executed.Perm planned := by
  have hexecuted : executed.Nodup := List.nodup_iff_count_le_one.mpr fun i => by
    by_cases hi : i ∈ executed
    · exact (h i (hsub hi)).le
    · rw [List.count_eq_zero_of_not_mem hi]
      exact Nat.zero_le 1
  refine (List.perm_ext_iff_of_nodup hexecuted hnodup).mpr fun i => ⟨fun hi => hsub hi, fun hi => ?_⟩
  refine List.count_pos_iff.mp ?_
  rw [h i hi]
  exact Nat.one_pos

/-- Where nothing was skipped, or nothing repeated, the sum of what has a weight shows that it was
executed once. -/
theorem count_eq_one_of_sum {weight : ι → ℤ} (hnodup : planned.Nodup) (hsub : executed ⊆ planned)
    (hweight : ∀ i ∈ planned, 0 ≤ weight i)
    (hsum : (executed.map weight).sum = (planned.map weight).sum)
    (hcount : (∀ i ∈ planned, 1 ≤ executed.count i) ∨ ∀ i ∈ planned, executed.count i ≤ 1) {i : ι}
    (hi : i ∈ planned) (hpos : 0 < weight i) : executed.count i = 1 := by
  have hplanned : (planned.map weight).sum = ∑ j ∈ planned.toFinset, weight j :=
    (List.sum_toFinset weight hnodup).symm
  have hexecuted : (executed.map weight).sum =
      ∑ j ∈ planned.toFinset, (executed.count j : ℤ) * weight j := by
    rw [Finset.sum_list_map_count]
    refine Finset.sum_subset_zero_on_sdiff (fun j hj => ?_) (fun j hj => ?_) fun j _ => ?_
    · exact List.mem_toFinset.mpr (hsub (List.mem_toFinset.mp hj))
    · rw [Finset.mem_sdiff, List.mem_toFinset, List.mem_toFinset] at hj
      rw [List.count_eq_zero_of_not_mem hj.2, Nat.cast_zero, zero_mul]
    · exact nsmul_eq_mul _ _
  have hone : (executed.count i : ℤ) * weight i = weight i := by
    rw [hplanned, hexecuted] at hsum
    rcases hcount with hmore | hless
    · refine ((Finset.sum_eq_sum_iff_of_le fun j hj => ?_).mp hsum.symm i
        (List.mem_toFinset.mpr hi)).symm
      have hj := List.mem_toFinset.mp hj
      have hj1 : (1 : ℤ) ≤ executed.count j := by exact_mod_cast hmore j hj
      nlinarith [hweight j hj]
    · refine (Finset.sum_eq_sum_iff_of_le fun j hj => ?_).mp hsum i (List.mem_toFinset.mpr hi)
      have hj := List.mem_toFinset.mp hj
      have hj1 : (executed.count j : ℤ) ≤ 1 := by exact_mod_cast hless j hj
      nlinarith [hweight j hj]
  have hcount : (executed.count i : ℤ) = 1 := by
    have := mul_right_cancel₀ hpos.ne' (hone.trans (one_mul _).symm)
    exact this
  exact_mod_cast hcount

end Once

end WireTools
