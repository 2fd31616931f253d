import Mathlib.Data.Int.Order.Basic
import Mathlib.Data.List.Basic

/-! # Chains that switch forks

A chain is its final blocks and the blocks after them, which a fork switch may drop.  Items carry
the latest time of a block that may take them.

* `Chain.step`: a block is produced, the head is cut back, blocks become final;
* `Valid`: block times rise, items are taken in time and at most once; every step keeps it
  (`Valid.step`), and what is final stays final (`final_step`);
* `Dead`: an item that is not final and whose time is past by a final block.  It never becomes
  final (`Dead.step`). -/

namespace WireTools.ForkableChain

structure Block (ι : Type) where
  time : ℤ
  items : List ι

structure Chain (ι : Type) where
  final : List (Block ι)
  head : List (Block ι)

/-- An item and the latest time of a block that takes it. -/
structure Timed (ι : Type) where
  id : ι
  expiration : ℤ

inductive ChainEvent (ι : Type) where
  | produce (block : Block ι)
  | switch (kept : ℕ)
  | finalize (count : ℕ)

variable {ι : Type}

def Chain.blocks (c : Chain ι) : List (Block ι) :=
  c.final ++ c.head

def Chain.taken (c : Chain ι) : List ι :=
  c.blocks.flatMap Block.items

def Chain.finalItems (c : Chain ι) : List ι :=
  c.final.flatMap Block.items

/-- Heights count from one. -/
def Chain.blockAt (c : Chain ι) (height : ℕ) : Option (Block ι) :=
  if height = 0 then none else c.blocks[height - 1]?

def Chain.headTime (c : Chain ι) : ℤ :=
  (c.blocks.getLast?.map Block.time).getD 0

variable [DecidableEq ι]

/-- A block follows the last one, and takes each item in time and not a second time. -/
def Accepts (items : List (Timed ι)) (c : Chain ι) (block : Block ι) : Prop :=
  (∀ before ∈ c.blocks, before.time < block.time) ∧
    ∀ item ∈ items, item.id ∈ block.items → block.time ≤ item.expiration ∧
      item.id ∉ c.taken ∧ block.items.count item.id ≤ 1

instance (items : List (Timed ι)) (c : Chain ι) (block : Block ι) :
    Decidable (Accepts items c block) :=
  inferInstanceAs (Decidable (_ ∧ _))

def Chain.step (items : List (Timed ι)) (c : Chain ι) : ChainEvent ι → Option (Chain ι)
  | .produce block =>
      if Accepts items c block then some { c with head := c.head ++ [block] } else none
  | .switch kept => some { c with head := c.head.take kept }
  | .finalize count => some ⟨c.final ++ c.head.take count, c.head.drop count⟩

/-! ### Valid chains -/

structure Valid (items : List (Timed ι)) (c : Chain ι) : Prop where
  times : c.blocks.Pairwise fun before after => before.time < after.time
  timely : ∀ block ∈ c.blocks, ∀ item ∈ items, item.id ∈ block.items →
    block.time ≤ item.expiration
  once : ∀ item ∈ items, c.taken.count item.id ≤ 1

variable {items : List (Timed ι)} {c c' : Chain ι}

/-- What the blocks of a chain keep, a chain with fewer of its last blocks keeps. -/
theorem Valid.of_prefix (h : Valid items c) {rest : List (Block ι)}
    (hblocks : c.blocks = c'.blocks ++ rest) : Valid items c' := by
  refine ⟨?_, fun block hblock => ?_, fun item hitem => ?_⟩
  · have htimes := h.times
    rw [hblocks] at htimes
    exact (List.pairwise_append.mp htimes).1
  · refine h.timely block ?_
    rw [hblocks]
    exact List.mem_append_left _ hblock
  · have honce := h.once item hitem
    rw [Chain.taken, hblocks, List.flatMap_append, List.count_append] at honce
    rw [Chain.taken]
    omega

theorem Valid.produce (h : Valid items c) {block : Block ι} (haccepts : Accepts items c block) :
    Valid items { c with head := c.head ++ [block] } := by
  have hblocks : Chain.blocks { c with head := c.head ++ [block] } = c.blocks ++ [block] :=
    (List.append_assoc _ _ _).symm
  have htaken : Chain.taken { c with head := c.head ++ [block] } = c.taken ++ block.items := by
    rw [Chain.taken, hblocks, List.flatMap_append, List.flatMap_singleton]
    rfl
  refine ⟨?_, fun b hb item hitem hmem => ?_, fun item hitem => ?_⟩
  · rw [hblocks, List.pairwise_append]
    refine ⟨h.times, List.pairwise_singleton _ _, fun before hbefore after hafter => ?_⟩
    rw [List.mem_singleton.mp hafter]
    exact haccepts.1 before hbefore
  · rw [hblocks, List.mem_append, List.mem_singleton] at hb
    rcases hb with hb | rfl
    · exact h.timely b hb item hitem hmem
    · exact (haccepts.2 item hitem hmem).1
  · rw [htaken, List.count_append]
    by_cases hmem : item.id ∈ block.items
    · obtain ⟨_, hnew, hcount⟩ := haccepts.2 item hitem hmem
      rw [List.count_eq_zero_of_not_mem hnew]
      omega
    · rw [List.count_eq_zero_of_not_mem hmem]
      exact h.once item hitem

theorem Valid.step (h : Valid items c) {event : ChainEvent ι} (hstep : c.step items event = some c') :
    Valid items c' := by
  cases event with
  | produce block =>
      rw [Chain.step, Option.ite_none_right_eq_some] at hstep
      obtain ⟨haccepts, hc⟩ := hstep
      cases hc
      exact h.produce haccepts
  | switch kept =>
      cases hstep
      apply @Valid.of_prefix _ _ _ _ _ h (c.head.drop kept)
      show c.final ++ c.head = c.final ++ c.head.take kept ++ c.head.drop kept
      rw [List.append_assoc, List.take_append_drop]
  | finalize count =>
      cases hstep
      apply @Valid.of_prefix _ _ _ _ _ h []
      show c.final ++ c.head = c.final ++ c.head.take count ++ c.head.drop count ++ []
      rw [List.append_nil, List.append_assoc, List.take_append_drop]

/-- More items may be taken from now on, where none of them was taken yet. -/
theorem Valid.cons (h : Valid items c) {item : Timed ι} (hnew : item.id ∉ c.taken) :
    Valid (item :: items) c := by
  refine ⟨h.times, fun block hblock other hother hmem => ?_, fun other hother => ?_⟩
  · rcases List.mem_cons.mp hother with rfl | hother
    · exact absurd (List.mem_flatMap.mpr ⟨block, hblock, hmem⟩) hnew
    · exact h.timely block hblock other hother hmem
  · rcases List.mem_cons.mp hother with rfl | hother
    · rw [List.count_eq_zero_of_not_mem hnew]
      omega
    · exact h.once other hother

/-! ### What is final -/

/-- What is final stays final, at its height. -/
theorem final_step {event : ChainEvent ι} (hstep : c.step items event = some c') :
    c.final <+: c'.final := by
  cases event with
  | produce block =>
      rw [Chain.step, Option.ite_none_right_eq_some] at hstep
      obtain ⟨_, hc⟩ := hstep
      cases hc
      exact List.prefix_refl _
  | switch kept =>
      cases hstep
      exact List.prefix_refl _
  | finalize count =>
      cases hstep
      exact List.prefix_append _ _

theorem finalItems_step {event : ChainEvent ι} (hstep : c.step items event = some c') :
    c.finalItems ⊆ c'.finalItems := fun id hid => by
  obtain ⟨block, hblock, hmem⟩ := List.mem_flatMap.mp hid
  exact List.mem_flatMap.mpr ⟨block, (final_step hstep).subset hblock, hmem⟩

omit [DecidableEq ι] in
/-- A block at a final height is a final block. -/
theorem final_of_blockAt {height : ℕ} {block : Block ι} (h : c.blockAt height = some block)
    (hheight : height ≤ c.final.length) : block ∈ c.final := by
  unfold Chain.blockAt at h
  split at h
  · cases h
  · rw [Chain.blocks, List.getElem?_append_left (by omega)] at h
    exact List.mem_of_getElem? h

/-- Where only one item is final, it is so once. -/
theorem length_final_le_one (h : Valid items c) {p : ι → Bool} {id : ι}
    (hp : ∀ other, p other = true → ∃ item ∈ items, item.id = other)
    (hid : ∀ other ∈ c.finalItems.filter p, other = id) : (c.finalItems.filter p).length ≤ 1 := by
  have hcount : (c.finalItems.filter p).count id = (c.finalItems.filter p).length :=
    List.count_eq_length.mpr fun other hother => (hid other hother).symm
  rw [← hcount]
  by_cases hmem : id ∈ c.finalItems.filter p
  · obtain ⟨item, hitem, rfl⟩ := hp id (List.mem_filter.mp hmem).2
    have honce := h.once item hitem
    have htaken : c.taken = c.finalItems ++ c.head.flatMap Block.items := List.flatMap_append
    rw [htaken, List.count_append] at honce
    have hfilter := (@List.filter_sublist _ p c.finalItems).count_le item.id
    omega
  · rw [List.count_eq_zero_of_not_mem hmem]
    omega

/-- An item that no block may take any more, and that is not final. -/
structure Dead (c : Chain ι) (item : Timed ι) : Prop where
  notFinal : item.id ∉ c.finalItems
  past : ∃ block ∈ c.final, item.expiration < block.time

instance (c : Chain ι) (item : Timed ι) : Decidable (Dead c item) :=
  decidable_of_iff (item.id ∉ c.finalItems ∧ ∃ block ∈ c.final, item.expiration < block.time)
    ⟨fun h => ⟨h.1, h.2⟩, fun h => ⟨h.1, h.2⟩⟩

/-- What is dead stays dead. -/
theorem Dead.step {item : Timed ι} (h : Dead c item) (hvalid : Valid items c) (hitem : item ∈ items)
    {event : ChainEvent ι} (hstep : c.step items event = some c') : Dead c' item := by
  obtain ⟨last, hlast, hpast⟩ := h.past
  refine ⟨fun hfinal => ?_, last, (final_step hstep).subset hlast, hpast⟩
  cases event with
  | produce block =>
      rw [Chain.step, Option.ite_none_right_eq_some] at hstep
      obtain ⟨_, hc⟩ := hstep
      cases hc
      exact h.notFinal hfinal
  | switch kept =>
      cases hstep
      exact h.notFinal hfinal
  | finalize count =>
      cases hstep
      obtain ⟨block, hblock, hmem⟩ := List.mem_flatMap.mp hfinal
      rcases List.mem_append.mp hblock with hblock | hblock
      · exact h.notFinal (List.mem_flatMap.mpr ⟨block, hblock, hmem⟩)
      · -- A block behind a final one is later than it, and so too late for the item.
        have hhead := List.mem_of_mem_take hblock
        have hlater := (List.pairwise_append.mp hvalid.times).2.2 last hlast block hhead
        have htimely := hvalid.timely block (List.mem_append_right _ hhead) item hitem hmem
        omega

end WireTools.ForkableChain
