import Mathlib.Data.Finset.Insert
import Mathlib.Data.Finset.Card
import Mathlib.Data.List.Sort

/-! # The largest items of a set

A list kept in order and below a bound by dropping its smallest items.

* `keepLast cap l`: what `l` has too many is dropped from the front;
* `Top cap all l`: `l` lists the `cap` largest items of `all` in ascending order;
* an item that was not in `all` is inserted and the excess dropped (`Top.insert`); one that is in
  `all` and not in the list is dropped again at once (`Top.reinsert`). -/

namespace WireTools

variable {α : Type}

def keepLast (cap : ℕ) (l : List α) : List α :=
  l.drop (l.length - cap)

theorem length_keepLast (cap : ℕ) (l : List α) : (keepLast cap l).length = min cap l.length := by
  rw [keepLast, List.length_drop]
  omega

theorem mem_keepLast {cap : ℕ} {l : List α} {a : α} (h : l.Nodup) :
    a ∈ keepLast cap l ↔ a ∈ l ∧ a ∉ l.take (l.length - cap) := by
  have hdisj := List.disjoint_take_drop h (Nat.le_refl (l.length - cap))
  have hsplit : a ∈ l ↔ a ∈ l.take (l.length - cap) ∨ a ∈ l.drop (l.length - cap) := by
    rw [← List.mem_append, List.take_append_drop]
  rw [keepLast, hsplit]
  constructor
  · exact fun hdrop => ⟨Or.inr hdrop, fun htake => hdisj htake hdrop⟩
  · exact fun hmem => hmem.1.resolve_left hmem.2

variable [LinearOrder α]

theorem pairwise_orderedInsert {a : α} {l : List α} (h : l.Pairwise (· < ·)) (ha : a ∉ l) :
    (l.orderedInsert (· < ·) a).Pairwise (· < ·) := by
  induction l with
  | nil => exact List.pairwise_singleton _ a
  | cons b l ih =>
      obtain ⟨hb, hl⟩ := List.pairwise_cons.mp h
      obtain ⟨hne, hal⟩ := not_or.mp (mt List.mem_cons.mpr ha)
      rw [List.orderedInsert_cons]
      split
      · next hlt =>
          refine List.pairwise_cons.mpr ⟨fun c hc => ?_, h⟩
          rcases List.mem_cons.mp hc with rfl | hc
          · exact hlt
          · exact lt_trans hlt (hb c hc)
      · next hnot =>
          refine List.pairwise_cons.mpr ⟨fun c hc => ?_, ih hl hal⟩
          rcases (List.mem_orderedInsert _).mp hc with rfl | hc
          · exact lt_of_le_of_ne (not_lt.mp hnot) (Ne.symm hne)
          · exact hb c hc

/-- `l` lists the `cap` largest items of `all`, in ascending order. -/
structure Top (cap : ℕ) (all : Finset α) (l : List α) : Prop where
  ascending : l.Pairwise (· < ·)
  sub : ∀ a ∈ l, a ∈ all
  length : l.length = min cap all.card
  above : ∀ a ∈ all, a ∉ l → ∀ b ∈ l, a < b

namespace Top

variable {cap : ℕ} {all : Finset α} {l : List α} {a : α}

theorem nodup (h : Top cap all l) : l.Nodup :=
  h.ascending.imp fun hlt => ne_of_lt hlt

/-- An item is missing only where the list is full. -/
theorem full (h : Top cap all l) (ha : a ∈ all) (hal : a ∉ l) : l.length = cap := by
  have hsub : l.toFinset ⊆ all := fun b hb => h.sub b (List.mem_toFinset.mp hb)
  have hcard : l.toFinset.card = l.length := List.toFinset_card_of_nodup h.nodup
  have hlt : l.toFinset.card < all.card := by
    refine Finset.card_lt_card ⟨hsub, fun hall => ?_⟩
    exact hal (List.mem_toFinset.mp (hall ha))
  have := h.length
  omega

theorem reinsert (h : Top cap all l) (ha : a ∈ all) (hal : a ∉ l) :
    keepLast cap (l.orderedInsert (· < ·) a) = l := by
  have hfirst : l.orderedInsert (· < ·) a = a :: l := by
    cases l with
    | nil => rfl
    | cons b l => exact List.orderedInsert_cons_of_le _ _ (h.above a ha hal b List.mem_cons_self)
  have hone : (a :: l).length - cap = 1 := by
    rw [List.length_cons, h.full ha hal]
    omega
  rw [keepLast, hfirst, hone, List.drop_one, List.tail_cons]

theorem insert (h : Top cap all l) (ha : a ∉ all) :
    Top cap (insert a all) (keepLast cap (l.orderedInsert (· < ·) a)) := by
  have hal : a ∉ l := fun hmem => ha (h.sub a hmem)
  have hasc := pairwise_orderedInsert h.ascending hal
  have hsplit := List.take_append_drop ((l.orderedInsert (· < ·) a).length - cap)
    (l.orderedInsert (· < ·) a)
  refine ⟨hasc.sublist (List.drop_sublist _ _), fun b hb => ?_, ?_, fun b hb hout c hc => ?_⟩
  · rcases (List.mem_orderedInsert _).mp (List.mem_of_mem_drop hb) with rfl | hb
    · exact Finset.mem_insert_self _ _
    · exact Finset.mem_insert_of_mem (h.sub b hb)
  · rw [length_keepLast, List.orderedInsert_length, h.length, Finset.card_insert_of_notMem ha]
    omega
  · by_cases hbl : b ∈ l.orderedInsert (· < ·) a
    · -- dropped now: it stands before all that is kept
      rw [← hsplit] at hasc hbl
      rcases List.mem_append.mp hbl with hbl | hbl
      · exact (List.pairwise_append.mp hasc).2.2 b hbl c hc
      · exact absurd hbl hout
    · -- dropped before: the list is full, and its least item is dropped now
      obtain ⟨hba, hbold⟩ := not_or.mp (mt (List.mem_orderedInsert _).mpr hbl)
      have hball := Finset.mem_of_mem_insert_of_ne hb hba
      have hcl := List.mem_of_mem_drop hc
      rcases (List.mem_orderedInsert _).mp hcl with rfl | hcl
      · have hone : (l.orderedInsert (· < ·) c).length - cap = 1 := by
          rw [List.orderedInsert_length, h.full hball hbold]
          omega
        rw [keepLast, hone] at hc
        cases hins : l.orderedInsert (· < ·) c with
        | nil =>
            rw [hins] at hc
            cases hc
        | cons d rest =>
            rw [hins] at hc hasc
            have hdc : d < c := (List.pairwise_cons.mp hasc).1 c hc
            have hd : d ∈ l.orderedInsert (· < ·) c := hins ▸ List.mem_cons_self
            have hdl := ((List.mem_orderedInsert _).mp hd).resolve_left (ne_of_lt hdc)
            exact lt_trans (h.above b hball hbold d hdl) hdc
      · exact h.above b hball hbold c hcl

end Top

end WireTools
