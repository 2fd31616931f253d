import Mathlib.Data.List.Basic

/-! # Maps that keep the order of insertion

A map is the list of its entries.  A new key goes to the end, a known one keeps its place.

* `get`, `set`, `keys` and `deleteAll`, with one lemma each on what `get` finds afterwards;
* `collect` sets a list of entries one after the other; the last one of a key counts
  (`get_collect`);
* `Distinct`: no key twice.  `set` keeps it, then an entry is what `get` finds
  (`Distinct.mem_iff`), and keys and values determine the map (`Distinct.ext`). -/

namespace WireTools

abbrev OrderedMap (κ ν : Type) := List (κ × ν)

namespace OrderedMap

variable {κ ν : Type} [DecidableEq κ]

def get : OrderedMap κ ν → κ → Option ν
  | [], _ => none
  | entry :: m, k => if entry.1 = k then some entry.2 else get m k

def set : OrderedMap κ ν → κ → ν → OrderedMap κ ν
  | [], k, v => [(k, v)]
  | entry :: m, k, v => if entry.1 = k then (k, v) :: m else entry :: set m k v

def keys (m : OrderedMap κ ν) : List κ :=
  m.map Prod.fst

def deleteAll (m : OrderedMap κ ν) (ks : List κ) : OrderedMap κ ν :=
  m.filter fun entry => entry.1 ∉ ks

def collect (m : OrderedMap κ ν) (entries : List (κ × ν)) : OrderedMap κ ν :=
  entries.foldl (fun m entry => m.set entry.1 entry.2) m

/-- The last value that a list of entries has for a key. -/
def last (entries : List (κ × ν)) (k : κ) : Option ν :=
  ((entries.filter fun entry => entry.1 = k).getLast?).map Prod.snd

theorem get_set (m : OrderedMap κ ν) (k : κ) (v : ν) (j : κ) :
    (m.set k v).get j = if j = k then some v else m.get j := by
  induction m with
  | nil => simp only [set, get, eq_comm]
  | cons entry m ih =>
      unfold set
      split
      · next hentry =>
          simp only [get, hentry, eq_comm]
          split <;> rfl
      · next hentry =>
          simp only [get, ih]
          split
          · next hj => rw [if_neg fun heq => hentry (hj.trans heq)]
          · rfl

theorem mem_keys {m : OrderedMap κ ν} {k : κ} : k ∈ m.keys ↔ ∃ v, m.get k = some v := by
  induction m with
  | nil => exact ⟨nofun, nofun⟩
  | cons entry m ih =>
      rw [keys, List.map_cons, List.mem_cons, get]
      split
      · next hentry => exact ⟨fun _ => ⟨_, rfl⟩, fun _ => Or.inl hentry.symm⟩
      · next hentry =>
          rw [← ih]
          exact or_iff_right fun heq => hentry heq.symm

theorem not_mem_keys {m : OrderedMap κ ν} {k : κ} : k ∉ m.keys ↔ m.get k = none := by
  rw [mem_keys, ← Option.ne_none_iff_exists', not_not]

theorem get_deleteAll (m : OrderedMap κ ν) (ks : List κ) (k : κ) :
    (m.deleteAll ks).get k = if k ∈ ks then none else m.get k := by
  induction m with
  | nil =>
      split <;> rfl
  | cons entry m ih =>
      rw [deleteAll, List.filter_cons]
      split
      · next hkeep =>
          have hkeep : entry.1 ∉ ks := of_decide_eq_true hkeep
          rw [get, get]
          split
          · next hentry => rw [if_neg (hentry ▸ hkeep)]
          · exact ih
      · next hdrop =>
          have hdrop : entry.1 ∈ ks := by simpa using hdrop
          refine Eq.trans ih ?_
          by_cases hk : k ∈ ks
          · rw [if_pos hk, if_pos hk]
          · have hentry : ¬entry.1 = k := by
              rintro rfl
              exact hk hdrop
            rw [if_neg hk, if_neg hk, get, if_neg hentry]

theorem last_cons (entry : κ × ν) (entries : List (κ × ν)) (k : κ) :
    last (entry :: entries) k =
      (last entries k).or (if entry.1 = k then some entry.2 else none) := by
  unfold last
  rw [List.filter_cons]
  by_cases hk : entry.1 = k
  · rw [if_pos (decide_eq_true hk), if_pos hk, List.getLast?_cons]
    cases (entries.filter fun entry => decide (entry.1 = k)).getLast? <;> rfl
  · rw [if_neg (by simpa using hk), if_neg hk, Option.or_none]

theorem get_collect (entries : List (κ × ν)) (m : OrderedMap κ ν) (k : κ) :
    (m.collect entries).get k = (last entries k).or (m.get k) := by
  induction entries generalizing m with
  | nil => rfl
  | cons entry entries ih =>
      rw [collect, List.foldl_cons, ← collect, ih, get_set, last_cons, Option.or_assoc]
      refine congrArg _ ?_
      by_cases hk : entry.1 = k
      · rw [if_pos hk.symm, if_pos hk]
        rfl
      · rw [if_neg fun heq => hk heq.symm, if_neg hk]
        rfl

theorem last_eq_some {entries : List (κ × ν)} {k : κ} {v : ν} (h : last entries k = some v) :
    (k, v) ∈ entries := by
  obtain ⟨entry, hlast, rfl⟩ := Option.map_eq_some_iff.mp h
  obtain ⟨hmem, hk⟩ := List.mem_filter.mp (List.mem_of_getLast? hlast)
  rw [← of_decide_eq_true hk]
  exact hmem

theorem last_eq_none {entries : List (κ × ν)} {k : κ} :
    last entries k = none ↔ ∀ v, (k, v) ∉ entries := by
  unfold last
  rw [Option.map_eq_none_iff, List.getLast?_eq_none_iff, List.filter_eq_nil_iff]
  constructor
  · exact fun h v hmem => h (k, v) hmem (decide_eq_true rfl)
  · rintro h ⟨j, v⟩ hmem hk
    obtain rfl := of_decide_eq_true hk
    exact h v hmem

/-! ### Distinct keys -/

def Distinct (m : OrderedMap κ ν) : Prop :=
  m.keys.Nodup

theorem keys_set (m : OrderedMap κ ν) (k : κ) (v : ν) :
    (m.set k v).keys = if k ∈ m.keys then m.keys else m.keys ++ [k] := by
  induction m with
  | nil => rfl
  | cons entry m ih =>
      unfold set
      split
      · next hentry =>
          rw [keys, keys, List.map_cons, List.map_cons, ← hentry, if_pos List.mem_cons_self]
      · next hentry =>
          have hcons : ∀ m : OrderedMap κ ν, keys (entry :: m) = entry.1 :: keys m := fun _ => rfl
          rw [hcons, hcons, ih]
          by_cases hk : k ∈ keys m
          · rw [if_pos hk, if_pos (List.mem_cons_of_mem _ hk)]
          · rw [if_neg hk, if_neg]
            · rfl
            · intro hmem
              rcases List.mem_cons.mp hmem with heq | hmem
              · exact hentry heq.symm
              · exact hk hmem

theorem Distinct.set {m : OrderedMap κ ν} (h : m.Distinct) (k : κ) (v : ν) :
    (m.set k v).Distinct := by
  rw [Distinct, keys_set]
  split
  · exact h
  · next hk =>
      refine List.nodup_append.mpr ⟨h, List.pairwise_singleton _ _, ?_⟩
      rintro j hj _ hlast rfl
      rw [List.mem_singleton.mp hlast] at hj
      exact hk hj

theorem Distinct.collect {m : OrderedMap κ ν} (h : m.Distinct) (entries : List (κ × ν)) :
    (m.collect entries).Distinct := by
  induction entries generalizing m with
  | nil => exact h
  | cons entry entries ih => exact ih (h.set entry.1 entry.2)

theorem mem_of_get {m : OrderedMap κ ν} {k : κ} {v : ν} (h : m.get k = some v) : (k, v) ∈ m := by
  induction m with
  | nil => cases h
  | cons entry m ih =>
      rw [get] at h
      split at h
      · next hentry =>
          cases h
          rw [← hentry]
          exact List.mem_cons_self
      · exact List.mem_cons_of_mem _ (ih h)

theorem Distinct.mem_iff {m : OrderedMap κ ν} (h : m.Distinct) {k : κ} {v : ν} :
    (k, v) ∈ m ↔ m.get k = some v := by
  refine ⟨fun hmem => ?_, mem_of_get⟩
  induction m with
  | nil => cases hmem
  | cons entry m ih =>
      obtain ⟨hnew, hrest⟩ := List.nodup_cons.mp h
      rw [get]
      rcases List.mem_cons.mp hmem with rfl | hmem
      · rw [if_pos rfl]
      · rw [if_neg]
        · exact ih hrest hmem
        · rintro rfl
          exact hnew (List.mem_map.mpr ⟨_, hmem, rfl⟩)

theorem Distinct.last_eq {m : OrderedMap κ ν} (h : m.Distinct) (k : κ) : last m k = m.get k := by
  cases hlast : last m k with
  | some v => exact (h.mem_iff.mp (last_eq_some hlast)).symm
  | none =>
      refine (Option.eq_none_iff_forall_ne_some.mpr fun v hget => ?_).symm
      exact last_eq_none.mp hlast v (h.mem_iff.mpr hget)

omit [DecidableEq κ] in
theorem Distinct.filter {m : OrderedMap κ ν} (h : m.Distinct) (p : κ × ν → Bool) :
    Distinct (List.filter p m) :=
  h.sublist (List.Sublist.map _ List.filter_sublist)

theorem Distinct.get_filter {m : OrderedMap κ ν} (h : m.Distinct) (p : κ × ν → Bool) (k : κ) :
    OrderedMap.get (List.filter p m) k = (m.get k).filter fun v => p (k, v) := by
  ext v
  rw [← (h.filter p).mem_iff, List.mem_filter, h.mem_iff, Option.filter_eq_some_iff]

/-- Which keys there are, and in which order, does not depend on the values. -/
theorem keys_collect_congr {entries entries' : List (κ × ν)} {m n : OrderedMap κ ν}
    (h : entries.map Prod.fst = entries'.map Prod.fst) (hkeys : m.keys = n.keys) :
    (m.collect entries).keys = (n.collect entries').keys := by
  induction entries generalizing entries' m n with
  | nil =>
      cases entries' with
      | nil => exact hkeys
      | cons _ _ => cases h
  | cons entry entries ih =>
      cases entries' with
      | nil => cases h
      | cons entry' entries' =>
          obtain ⟨hk, hrest⟩ := List.cons.inj h
          have hset : (m.set entry.1 entry.2).keys = (n.set entry'.1 entry'.2).keys := by
            rw [keys_set, keys_set, hkeys, hk]
          exact ih (m := m.set entry.1 entry.2) (n := n.set entry'.1 entry'.2) hrest hset

theorem Distinct.ext {m n : OrderedMap κ ν} (h : m.Distinct) (hkeys : m.keys = n.keys)
    (hget : ∀ k, m.get k = n.get k) : m = n := by
  induction m generalizing n with
  | nil => exact (List.map_eq_nil_iff.mp hkeys.symm).symm
  | cons entry m ih =>
      cases n with
      | nil => cases hkeys
      | cons entry' n =>
          obtain ⟨hk, hrest⟩ := List.cons.inj hkeys
          obtain ⟨hnew, hm⟩ := List.nodup_cons.mp h
          have hv : entry.2 = entry'.2 := by
            have := hget entry.1
            rw [get, get, if_pos rfl, if_pos hk.symm] at this
            exact Option.some.inj this
          refine congrArg₂ _ (Prod.ext hk hv) (ih hm hrest fun k => ?_)
          have := hget k
          rw [get, get, ← hk] at this
          by_cases hentry : entry.1 = k
          · have hnone : k ∉ keys m := hentry ▸ hnew
            have hnone' : k ∉ keys n := by
              rwa [keys, ← hrest]
            rw [not_mem_keys.mp hnone, not_mem_keys.mp hnone']
          · rwa [if_neg hentry, if_neg hentry] at this

end OrderedMap

end WireTools
