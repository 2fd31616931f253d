import Mathlib.Data.List.Basic
import Mathlib.Data.List.Nodup

/-! # List utilities

`uniq` keeps the first occurrence of every item, `eraseDupsBy` of every kind of item
(`eraseDupsBy_snoc`); `exists_first` and `append_cons_unique` split a
list at an item. -/

namespace WireTools

variable {α : Type}

/-- Each item once, in order of first occurrence. -/
def uniq [BEq α] (l : List α) : List α := l.eraseDups

@[simp] theorem mem_uniq [BEq α] [LawfulBEq α] {a : α} {l : List α} : a ∈ uniq l ↔ a ∈ l :=
  List.mem_eraseDups

theorem uniq_nodup [BEq α] [LawfulBEq α] : ∀ (l : List α), (uniq l).Nodup
  | [] => List.nodup_nil
  | a :: l => by
      have ih := uniq_nodup (l.filter fun b => !b == a)
      unfold uniq at ih ⊢
      rw [List.eraseDups_cons, List.nodup_cons]
      refine ⟨?_, ih⟩
      rw [List.mem_eraseDups, List.mem_filter]
      simp
  termination_by l => l.length
  decreasing_by
    have := List.length_filter_le (fun b => !b == a) l
    simp only [List.length_cons]
    omega

/-- One more item at the end stays unless it repeats one that is there. -/
theorem eraseDupsBy_snoc (r : α → α → Bool) (l : List α) (a : α) :
    (l ++ [a]).eraseDupsBy r =
      if (l.eraseDupsBy r).any (r a) then l.eraseDupsBy r else l.eraseDupsBy r ++ [a] := by
  suffices hloop : ∀ kept, List.eraseDupsBy.loop r (l ++ [a]) kept =
      if (List.eraseDupsBy.loop r l kept).any (r a) then List.eraseDupsBy.loop r l kept
      else List.eraseDupsBy.loop r l kept ++ [a] from hloop []
  induction l with
  | nil =>
      intro kept
      rw [List.nil_append, List.eraseDupsBy.loop, List.eraseDupsBy.loop, List.any_reverse]
      cases kept.any (r a)
      · exact List.reverse_cons
      · rfl
  | cons b l ih =>
      intro kept
      rw [List.cons_append, List.eraseDupsBy.loop, List.eraseDupsBy.loop]
      cases kept.any (r b)
      · exact ih _
      · exact ih _

/-- A list that holds an item with `P` splits at the first one. -/
theorem exists_first {P : α → Prop} : ∀ {l : List α}, (∃ a ∈ l, P a) →
    ∃ before a after, l = before ++ a :: after ∧ (∀ b ∈ before, ¬ P b) ∧ P a
  | [], h => by
      obtain ⟨a, ha, _⟩ := h
      exact absurd ha List.not_mem_nil
  | a :: l, h => by
      by_cases ha : P a
      · exact ⟨[], a, l, rfl, by simp, ha⟩
      · have hl : ∃ b ∈ l, P b := by
          obtain ⟨b, hb, hP⟩ := h
          rcases List.mem_cons.mp hb with rfl | hb
          · exact absurd hP ha
          · exact ⟨b, hb, hP⟩
        obtain ⟨before, b, after, rfl, hbefore, hb⟩ := exists_first hl
        exact ⟨a :: before, b, after, rfl, by simpa using ⟨ha, hbefore⟩, hb⟩

/-- Two splits at the only item with `P` are the same. -/
theorem append_cons_unique {P : α → Prop} {x y : α} {t b : List α} :
    ∀ {l a : List α}, l ++ x :: t = a ++ y :: b → P y → (∀ z ∈ l, ¬ P z) → (∀ z ∈ t, ¬ P z) →
      a = l ∧ y = x ∧ b = t
  | [], [], h, _, _, _ => by
      obtain ⟨rfl, rfl⟩ := List.cons.inj h
      exact ⟨rfl, rfl, rfl⟩
  | [], z :: a, h, hy, _, ht => by
      obtain ⟨_, rfl⟩ := List.cons.inj h
      exact absurd hy (ht y (by simp))
  | z :: l, [], h, hy, hl, _ => by
      obtain ⟨rfl, _⟩ := List.cons.inj h
      exact absurd hy (hl z (by simp))
  | z :: l, z' :: a, h, hy, hl, ht => by
      obtain ⟨rfl, htail⟩ := List.cons.inj h
      obtain ⟨hal, hyx, hbt⟩ :=
        append_cons_unique htail hy (fun w hw => hl w (by simp [hw])) ht
      exact ⟨by rw [hal], hyx, hbt⟩

/-- One item of a list is replaced: what holds of every item still does. -/
theorem forall_mem_set {P : α → Prop} {l : List α} {i : ℕ} {a : α} (hl : ∀ b ∈ l, P b)
    (ha : P a) : ∀ b ∈ l.set i a, P b := by
  intro b hb
  rcases List.mem_or_eq_of_mem_set hb with hb | rfl
  · exact hl b hb
  · exact ha

/-- An item other than the replaced one is still there. -/
theorem exists_mem_set {P : α → Prop} {l : List α} {i : ℕ} {a x : α} (hx : l[i]? = some x)
    (hP : ¬ P x) (h : ∃ b ∈ l, P b) : ∃ b ∈ l.set i a, P b := by
  obtain ⟨b, hb, hPb⟩ := h
  obtain ⟨k, hk⟩ := List.mem_iff_getElem?.mp hb
  have hik : i ≠ k := by
    rintro rfl
    rw [hx] at hk
    exact hP (Option.some.inj hk ▸ hPb)
  exact ⟨b, List.mem_iff_getElem?.mpr ⟨k, by rw [List.getElem?_set_ne hik, hk]⟩, hPb⟩

/-- A list in which whatever stands before a non-`W` item is `D` keeps this when an item makes
progress: it leaves `W` only when all before it is `D`, and it stays `D`. -/
theorem pairwise_set {W D : α → Prop} {x' : α} :
    ∀ {l : List α} {i : ℕ} {x : α}, l.Pairwise (fun s t => ¬ W t → D s) → l[i]? = some x →
      (W x → ∀ y ∈ l.take i, D y) → (D x → D x') →
      (l.set i x').Pairwise (fun s t => ¬ W t → D s)
  | [], _, _, _, hx, _, _ => by simp at hx
  | y :: l, 0, x, h, hx, _, hD => by
      rw [List.pairwise_cons] at h
      have hyx : y = x := by simpa using hx
      subst hyx
      exact List.pairwise_cons.mpr ⟨fun z hz hW => hD (h.1 z hz hW), h.2⟩
  | y :: l, i + 1, x, h, hx, hW, hD => by
      rw [List.pairwise_cons] at h
      have hx0 : l[i]? = some x := by simpa using hx
      refine List.pairwise_cons.mpr ⟨?_, pairwise_set h.2 hx0
        (fun hw z hz => hW hw z (by simp [hz])) hD⟩
      intro z hz hzW
      rcases List.mem_or_eq_of_mem_set hz with hz | rfl
      · exact h.1 z hz hzW
      · by_cases hw : W x
        · exact hW hw y (by simp)
        · exact h.1 x (List.mem_iff_getElem?.mpr ⟨i, hx0⟩) hw

theorem pairwise_take {R : α → α → Prop} :
    ∀ {l : List α} {i : ℕ} {x : α}, l.Pairwise R → l[i]? = some x → ∀ y ∈ l.take i, R y x
  | [], _, _, _, hx, _, _ => by simp at hx
  | _ :: _, 0, _, _, _, _, hz => by simp at hz
  | y :: l, i + 1, x, h, hx, z, hz => by
      rw [List.pairwise_cons] at h
      have hx0 : l[i]? = some x := by simpa using hx
      rcases List.mem_cons.mp hz with rfl | hz
      · exact h.1 x (List.mem_of_getElem? hx0)
      · exact pairwise_take h.2 hx0 z hz

/-- Items that a filter maps to one thing are one item, where it maps no two to the same. -/
theorem inj_of_nodup_filterMap {β : Type} {f : α → Option β} {a b : α} {c : β} :
    ∀ {l : List α}, (l.filterMap f).Nodup → a ∈ l → b ∈ l → f a = some c → f b = some c → a = b
  | x :: l, h, ha, hb, hfa, hfb => by
      have hmem : ∀ {y}, y ∈ l → f y = some c → c ∈ l.filterMap f := fun hy hf =>
        List.mem_filterMap.mpr ⟨_, hy, hf⟩
      rcases List.mem_cons.mp ha with rfl | hal
      · rw [List.filterMap_cons_some hfa, List.nodup_cons] at h
        exact ((List.mem_cons.mp hb).resolve_right fun hbl => h.1 (hmem hbl hfb)).symm
      · rcases List.mem_cons.mp hb with rfl | hbl
        · rw [List.filterMap_cons_some hfb, List.nodup_cons] at h
          exact absurd (hmem hal hfa) h.1
        · refine inj_of_nodup_filterMap (h.sublist ?_) hal hbl hfa hfb
          exact (List.sublist_cons_self x l).filterMap f

/-- Items paired with what belongs to them. -/
theorem lookup_map [BEq α] [LawfulBEq α] {β : Type} {f : α → β} {i : α} : ∀ {l : List α}, i ∈ l →
    (l.map fun j => (j, f j)).lookup i = some (f i)
  | j :: l, h => by
      rw [List.map_cons, List.lookup_cons]
      by_cases hj : i = j
      · rw [hj, beq_self_eq_true]
      · rw [beq_false_of_ne hj]
        exact lookup_map ((List.mem_cons.mp h).resolve_left hj)

theorem zip_maps {β : Type} {f g : α → β} : ∀ {l : List α},
    l.zip ((l.map f).zip (l.map g)) = l.map fun a => (a, f a, g a)
  | [] => rfl
  | a :: l => by
      rw [List.map_cons, List.map_cons, List.zip_cons_cons, List.zip_cons_cons, zip_maps,
        List.map_cons]

end WireTools
