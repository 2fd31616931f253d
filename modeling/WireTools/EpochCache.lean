import WireTools.Collections
import WireTools.EnvelopeRoutes
import WireTools.OrderedMap
import WireTools.Top

/-! # The cache of decoded epochs

The `opp` slice of the terminal client keeps the records of at most `MaxEpochs` epochs.

* `appendEnvelope`: a record goes to the epoch record that the action found or made.  Where the
  eviction of the same action has dropped that one, nothing in the state changes by it;
* `recordsOf`: the records received for an epoch, the first of each endpoint type and checksum;
* `Caches all records s`: `s` has the largest epochs of `all`, each with its `records`;
* after any sequence of actions the slice caches the top of all epochs received, with all their
  records (`epoch_cache`). -/

namespace WireTools.OPPSlice

open EnvelopeStorage (Models DebugOPPEnvelopeRecord DebugOPPEpochRecord)

variable {models : Models}

/-! ### The slice -/

structure OPPState (models : Models) where
  epochIndex : ℕ
  epochs : OrderedMap ℕ (DebugOPPEpochRecord models)
  epochOrder : List ℕ

def MaxEpochs : ℕ := 1000

def initialState : OPPState models := ⟨0, [], []⟩

def insertEpoch (order : List ℕ) (epoch : ℕ) : List ℕ :=
  match order.findIdx? fun e => e > epoch with
  | none => order ++ [epoch]
  | some i => order.take i ++ epoch :: order.drop i

def evictExcess (state : OPPState models) : OPPState models :=
  let excess := state.epochOrder.length - MaxEpochs
  { state with
    epochs := state.epochs.deleteAll (state.epochOrder.take excess)
    epochOrder := state.epochOrder.drop excess }

structure AppendEnvelopePayload (models : Models) where
  epoch : ℕ
  record : DebugOPPEnvelopeRecord models

def duplicate (record e : DebugOPPEnvelopeRecord models) : Bool :=
  e.checksum == record.checksum && e.endpointsType == record.endpointsType

def fresh (epoch : ℕ) : DebugOPPEpochRecord models := ⟨epoch, []⟩

def insertFresh (state : OPPState models) (epoch : ℕ) : OPPState models :=
  { state with
    epochs := state.epochs.set epoch (fresh epoch)
    epochOrder := insertEpoch state.epochOrder epoch }

/-- The epoch record that an action writes to, and the state it is found or made in. -/
def openEpoch (state : OPPState models) (epoch : ℕ) :
    OPPState models × DebugOPPEpochRecord models :=
  match state.epochs.get epoch with
  | some epochRecord => (state, epochRecord)
  | none => (evictExcess (insertFresh state epoch), fresh epoch)

/-- The epoch record is an object of the state, unless it was dropped since it was made. -/
def pushEnvelope (state : OPPState models) (epoch : ℕ) (epochRecord : DebugOPPEpochRecord models)
    (record : DebugOPPEnvelopeRecord models) : OPPState models :=
  match state.epochs.get epoch with
  | some _ =>
      { state with
        epochs := state.epochs.set epoch
          { epochRecord with envelopes := epochRecord.envelopes ++ [record] } }
  | none => state

def addRecord (state : OPPState models) (action : AppendEnvelopePayload models) :
    OPPState models :=
  let opened := openEpoch state action.epoch
  if opened.2.envelopes.any (duplicate action.record) then opened.1
  else pushEnvelope opened.1 action.epoch opened.2 action.record

def appendEnvelope (state : OPPState models) (action : AppendEnvelopePayload models) :
    OPPState models :=
  let appended := addRecord state action
  if action.epoch > appended.epochIndex then { appended with epochIndex := action.epoch }
  else appended

/-! ### What was received -/

def epochsOf (received : List (AppendEnvelopePayload models)) : Finset ℕ :=
  (received.map AppendEnvelopePayload.epoch).toFinset

/-- The records received for an epoch, the first of each endpoint type and checksum. -/
def recordsOf (received : List (AppendEnvelopePayload models)) (epoch : ℕ) :
    List (DebugOPPEnvelopeRecord models) :=
  ((received.filter fun action => action.epoch = epoch).map
    AppendEnvelopePayload.record).eraseDupsBy duplicate

theorem epochsOf_snoc (received : List (AppendEnvelopePayload models))
    (action : AppendEnvelopePayload models) :
    epochsOf (received ++ [action]) = insert action.epoch (epochsOf received) := by
  ext epoch
  simp only [epochsOf, List.map_append, List.map_cons, List.map_nil, List.mem_toFinset,
    List.mem_append, List.mem_singleton, Finset.mem_insert]
  exact or_comm

theorem recordsOf_of_not_mem {received : List (AppendEnvelopePayload models)} {epoch : ℕ}
    (h : epoch ∉ epochsOf received) : recordsOf received epoch = [] := by
  have hnone : (received.filter fun action => action.epoch = epoch) = [] := by
    refine List.filter_eq_nil_iff.mpr fun action hmem heq => h ?_
    rw [← of_decide_eq_true heq]
    exact List.mem_toFinset.mpr (List.mem_map_of_mem hmem)
  rw [recordsOf, hnone]
  rfl

/-- One more action: its record is added unless it repeats one that is there. -/
theorem recordsOf_snoc (received : List (AppendEnvelopePayload models))
    (action : AppendEnvelopePayload models) :
    recordsOf (received ++ [action]) =
      Function.update (recordsOf received) action.epoch
        (if (recordsOf received action.epoch).any (duplicate action.record) then
          recordsOf received action.epoch
        else recordsOf received action.epoch ++ [action.record]) := by
  funext epoch
  by_cases he : action.epoch = epoch
  · have hlast : [action].filter (fun action => action.epoch = epoch) = [action] :=
      List.filter_cons_of_pos (decide_eq_true he)
    rw [← he] at hlast ⊢
    rw [Function.update_self, recordsOf, List.filter_append, hlast, List.map_append,
      List.map_singleton, eraseDupsBy_snoc]
    rfl
  · have hlast : [action].filter (fun action => action.epoch = epoch) = [] :=
      List.filter_cons_of_neg (p := fun action : AppendEnvelopePayload models => action.epoch = epoch)
        (by simpa using he)
    rw [Function.update_of_ne (Ne.symm he), recordsOf, List.filter_append, hlast, List.append_nil]
    rfl

/-! ### The cache -/

/-- The state has the largest epochs of `all`, each with its records. -/
structure Caches (all : Finset ℕ) (records : ℕ → List (DebugOPPEnvelopeRecord models))
    (s : OPPState models) : Prop where
  top : Top MaxEpochs all s.epochOrder
  distinct : s.epochs.Distinct
  keys : ∀ epoch, epoch ∈ s.epochs.keys ↔ epoch ∈ s.epochOrder
  cached : ∀ epoch ∈ s.epochOrder, s.epochs.get epoch = some ⟨epoch, records epoch⟩

theorem insertEpoch_eq (order : List ℕ) (epoch : ℕ) :
    insertEpoch order epoch = order.orderedInsert (· < ·) epoch := by
  induction order with
  | nil => rfl
  | cons e order ih =>
      unfold insertEpoch at ih ⊢
      rw [List.findIdx?_cons, List.orderedInsert_cons, ← ih]
      by_cases he : epoch < e
      · rw [if_pos he, if_pos (decide_eq_true he)]
        rfl
      · rw [if_neg he, if_neg (by simpa using he)]
        cases order.findIdx? fun e => e > epoch <;> rfl

theorem epochOrder_evictExcess (s : OPPState models) :
    (evictExcess s).epochOrder = keepLast MaxEpochs s.epochOrder := by
  rw [evictExcess, keepLast]

theorem get_evictExcess (s : OPPState models) (epoch : ℕ) :
    (evictExcess s).epochs.get epoch =
      if epoch ∈ s.epochOrder.take (s.epochOrder.length - MaxEpochs) then none
      else s.epochs.get epoch :=
  OrderedMap.get_deleteAll _ _ _

variable {all : Finset ℕ} {records : ℕ → List (DebugOPPEnvelopeRecord models)}
  {s : OPPState models} {epoch : ℕ}

theorem Caches.congr (h : Caches all records s)
    {records' : ℕ → List (DebugOPPEnvelopeRecord models)}
    (heq : ∀ epoch ∈ s.epochOrder, records epoch = records' epoch) : Caches all records' s := by
  refine ⟨h.top, h.distinct, h.keys, fun epoch he => ?_⟩
  rw [h.cached epoch he, heq epoch he]

theorem Caches.get_eq_none (h : Caches all records s) (he : epoch ∉ s.epochOrder) :
    s.epochs.get epoch = none :=
  OrderedMap.not_mem_keys.mp fun hmem => he ((h.keys epoch).mp hmem)

theorem Caches.get_insertFresh (h : Caches all records s) (he : epoch ∉ s.epochOrder) (e : ℕ) :
    (evictExcess (insertFresh s epoch)).epochs.get e =
      if e ∈ (evictExcess (insertFresh s epoch)).epochOrder then
        if e = epoch then some (fresh epoch) else s.epochs.get e
      else none := by
  have hasc := pairwise_orderedInsert h.top.ascending he
  rw [← insertEpoch_eq] at hasc
  have hnodup := hasc.imp fun hlt => ne_of_lt hlt
  have hmem : e ∈ keepLast MaxEpochs (insertEpoch s.epochOrder epoch) ↔ _ := mem_keepLast hnodup
  rw [get_evictExcess, epochOrder_evictExcess, insertFresh, OrderedMap.get_set]
  by_cases hdropped : e ∈ (insertEpoch s.epochOrder epoch).take
      ((insertEpoch s.epochOrder epoch).length - MaxEpochs)
  · rw [if_pos hdropped, if_neg fun hkept => (hmem.mp hkept).2 hdropped]
  · rw [if_neg hdropped]
    by_cases hin : e ∈ insertEpoch s.epochOrder epoch
    · rw [if_pos (hmem.mpr ⟨hin, hdropped⟩)]
    · rw [if_neg fun hkept => hin (hmem.mp hkept).1]
      rw [insertEpoch_eq, List.mem_orderedInsert] at hin
      obtain ⟨hne, hout⟩ := not_or.mp hin
      rw [if_neg hne, h.get_eq_none hout]

/-- A new epoch is inserted and the excess evicted: what is kept is cached as before. -/
theorem Caches.evict (h : Caches all records s) (he : epoch ∉ s.epochOrder)
    (hnew : epoch ∉ all → records epoch = []) :
    Caches (insert epoch all) records (evictExcess (insertFresh s epoch)) := by
  have horder : (evictExcess (insertFresh s epoch)).epochOrder =
      keepLast MaxEpochs (s.epochOrder.orderedInsert (· < ·) epoch) := by
    rw [epochOrder_evictExcess, insertFresh, insertEpoch_eq]
  have htop : Top MaxEpochs (insert epoch all) (evictExcess (insertFresh s epoch)).epochOrder := by
    rw [horder]
    by_cases hall : epoch ∈ all
    · rw [Finset.insert_eq_of_mem hall, h.top.reinsert hall he]
      exact h.top
    · exact h.top.insert hall
  have hin : ∀ e ∈ (evictExcess (insertFresh s epoch)).epochOrder,
      e = epoch ∨ e ∈ s.epochOrder := by
    intro e hmem
    rw [horder] at hmem
    exact (List.mem_orderedInsert _).mp (List.mem_of_mem_drop hmem)
  have hcached : ∀ e ∈ (evictExcess (insertFresh s epoch)).epochOrder,
      (evictExcess (insertFresh s epoch)).epochs.get e = some ⟨e, records e⟩ := by
    intro e hmem
    rw [h.get_insertFresh he, if_pos hmem]
    split
    · next heq =>
        -- an epoch that is kept is a new one
        have hall : epoch ∉ all := by
          intro hall
          rw [horder, h.top.reinsert hall he, heq] at hmem
          exact he hmem
        rw [heq, hnew hall]
        rfl
    · next hne => exact h.cached e ((hin e hmem).resolve_left hne)
  refine ⟨htop, (h.distinct.set _ _).filter _, fun e => ?_, hcached⟩
  rw [OrderedMap.mem_keys]
  constructor
  · rintro ⟨epochRecord, hget⟩
    by_contra hout
    rw [h.get_insertFresh he, if_neg hout] at hget
    cases hget
  · exact fun hmem => ⟨_, hcached e hmem⟩

theorem Caches.openEpoch (h : Caches all records s) (hnew : epoch ∉ all → records epoch = []) :
    Caches (insert epoch all) records (openEpoch s epoch).1 := by
  unfold OPPSlice.openEpoch
  split
  · next epochRecord hget =>
      have hmem := (h.keys epoch).mp (OrderedMap.mem_keys.mpr ⟨epochRecord, hget⟩)
      rw [Finset.insert_eq_of_mem (h.top.sub epoch hmem)]
      exact h
  · next hget =>
      have hout : epoch ∉ s.epochOrder := fun hmem =>
        OrderedMap.not_mem_keys.mpr hget ((h.keys epoch).mpr hmem)
      exact h.evict hout hnew

/-- Where the epoch is cached, its record is the one that the action writes to. -/
theorem openEpoch_found (s : OPPState models) {epochRecord : DebugOPPEpochRecord models}
    (h : (openEpoch s epoch).1.epochs.get epoch = some epochRecord) :
    (openEpoch s epoch).2 = epochRecord := by
  unfold openEpoch at h ⊢
  split at h
  · next found hget => exact Option.some.inj (hget.symm.trans h)
  · next hget =>
      rw [get_evictExcess, insertFresh, OrderedMap.get_set, if_pos rfl] at h
      split at h
      · cases h
      · exact Option.some.inj h

theorem Caches.pushEnvelope (h : Caches all records s) (he : epoch ∈ s.epochOrder)
    (record : DebugOPPEnvelopeRecord models) :
    Caches all (Function.update records epoch (records epoch ++ [record]))
      (pushEnvelope s epoch ⟨epoch, records epoch⟩ record) := by
  unfold OPPSlice.pushEnvelope
  rw [h.cached epoch he]
  refine ⟨h.top, h.distinct.set _ _, fun e => ?_, fun e hmem => ?_⟩
  · rw [OrderedMap.keys_set, if_pos ((h.keys epoch).mpr he)]
    exact h.keys e
  · rw [OrderedMap.get_set]
    split
    · next heq => rw [heq, Function.update_self]
    · next hne => rw [Function.update_of_ne hne, h.cached e hmem]

theorem Caches.withIndex (h : Caches all records s) (epochIndex : ℕ) :
    Caches all records { s with epochIndex := epochIndex } :=
  ⟨h.top, h.distinct, h.keys, h.cached⟩

/-! ### Runs -/

theorem Caches.addRecord {received : List (AppendEnvelopePayload models)}
    (h : Caches (epochsOf received) (recordsOf received) s)
    (action : AppendEnvelopePayload models) :
    Caches (epochsOf (received ++ [action])) (recordsOf (received ++ [action]))
      (addRecord s action) := by
  have hopen : Caches (insert action.epoch (epochsOf received)) (recordsOf received)
      (OPPSlice.openEpoch s action.epoch).1 := h.openEpoch recordsOf_of_not_mem
  rw [epochsOf_snoc, recordsOf_snoc, OPPSlice.addRecord]
  by_cases he : action.epoch ∈ (OPPSlice.openEpoch s action.epoch).1.epochOrder
  · rw [openEpoch_found s (hopen.cached _ he)]
    by_cases hdup : (recordsOf received action.epoch).any (duplicate action.record)
    · rw [if_pos hdup, if_pos hdup, Function.update_eq_self]
      exact hopen
    · rw [if_neg hdup, if_neg hdup]
      exact hopen.pushEnvelope he action.record
  · -- what is written to a record that was dropped is nowhere in the state
    have hpush : OPPSlice.pushEnvelope (OPPSlice.openEpoch s action.epoch).1 action.epoch
        (OPPSlice.openEpoch s action.epoch).2 action.record =
        (OPPSlice.openEpoch s action.epoch).1 := by
      rw [OPPSlice.pushEnvelope, hopen.get_eq_none he]
    rw [hpush, ite_self]
    refine hopen.congr fun epoch hmem => (Function.update_of_ne ?_ _ _).symm
    rintro rfl
    exact he hmem

theorem Caches.appendEnvelope {received : List (AppendEnvelopePayload models)}
    (h : Caches (epochsOf received) (recordsOf received) s)
    (action : AppendEnvelopePayload models) :
    Caches (epochsOf (received ++ [action])) (recordsOf (received ++ [action]))
      (appendEnvelope s action) := by
  unfold OPPSlice.appendEnvelope
  dsimp only
  split
  · exact (h.addRecord action).withIndex _
  · exact h.addRecord action

theorem epochIndex_addRecord (s : OPPState models) (action : AppendEnvelopePayload models) :
    (addRecord s action).epochIndex = s.epochIndex := by
  have hopen : (openEpoch s action.epoch).1.epochIndex = s.epochIndex := by
    unfold openEpoch
    split <;> rfl
  unfold addRecord pushEnvelope
  dsimp only
  split
  · exact hopen
  · split
    · exact hopen
    · exact hopen

theorem epochIndex_appendEnvelope (s : OPPState models) (action : AppendEnvelopePayload models) :
    (appendEnvelope s action).epochIndex = max s.epochIndex action.epoch := by
  have hadd := epochIndex_addRecord s action
  unfold appendEnvelope
  dsimp only
  split
  · next hgt => exact (Nat.max_eq_right (Nat.le_of_lt (hadd ▸ hgt))).symm
  · next hnot => rw [hadd, Nat.max_eq_left (Nat.le_of_not_lt (hadd ▸ hnot))]

theorem caches_initialState (records : ℕ → List (DebugOPPEnvelopeRecord models)) :
    Caches ∅ records initialState :=
  ⟨⟨List.Pairwise.nil, nofun, rfl, nofun⟩, List.nodup_nil, fun _ => Iff.rfl, nofun⟩

/-- After any actions the slice caches the largest epochs received, each with the records received
for it. -/
theorem epoch_cache (received : List (AppendEnvelopePayload models)) :
    let s := received.foldl appendEnvelope initialState
    Caches (epochsOf received) (recordsOf received) s ∧
      (∀ action ∈ received, action.epoch ≤ s.epochIndex) ∧
      (received ≠ [] → ∃ action ∈ received, action.epoch = s.epochIndex) := by
  induction received using List.reverseRecOn with
  | nil => exact ⟨caches_initialState _, nofun, fun h => absurd rfl h⟩
  | append_singleton received action ih =>
      obtain ⟨hcaches, hle, hmax⟩ := ih
      rw [List.foldl_append, List.foldl_cons, List.foldl_nil]
      have hindex := epochIndex_appendEnvelope (received.foldl appendEnvelope initialState) action
      refine ⟨hcaches.appendEnvelope action, fun a ha => ?_, fun _ => ?_⟩
      · rw [hindex]
        rcases List.mem_append.mp ha with ha | ha
        · exact Nat.le_trans (hle a ha) (Nat.le_max_left _ _)
        · rw [List.mem_singleton.mp ha]
          exact Nat.le_max_right _ _
      · rw [hindex]
        rcases Nat.le_total (received.foldl appendEnvelope initialState).epochIndex action.epoch
          with hnew | hold
        · exact ⟨action, List.mem_append_right _ List.mem_cons_self, (Nat.max_eq_right hnew).symm⟩
        · rw [Nat.max_eq_left hold]
          by_cases hnil : received = []
          · subst hnil
            exact ⟨action, List.mem_cons_self, Nat.le_zero.mp hold⟩
          · obtain ⟨a, ha, heq⟩ := hmax hnil
            exact ⟨a, List.mem_append_left _ ha, heq⟩

end WireTools.OPPSlice
