import Mathlib.Data.List.Basic
import WireTools.Runs

/-! # The subscription handle

`DebuggingSubscription` buffers what the transport emits before a listener is attached and
replays it on the next turn of the event loop.

* `Subscription` is the handle with the callbacks it has deferred and what it delivered,
  `step` one call or one deferred callback;
* `waiting` are the payloads taken and not yet delivered, `taken` the payloads that a row of
  calls hands to the open subscription;
* `Inv`: what every call keeps;
* `subscription_delivers`: the first listener is owed exactly what was taken, in order unless
  a payload is emitted while a replay is deferred; after the close only waiting payloads are
  delivered; nobody hears twice that the subscription closed. -/

namespace WireTools
namespace DebuggingSubscription

inductive EventName where
  | event
  | closed
deriving DecidableEq

variable {T Reason : Type}

/-- A callback handed to `setImmediate`. -/
inductive Immediate (T Reason : Type) where
  | drain (payloads : List T)
  | closed (reason : Reason)
deriving DecidableEq

/-- What a deferred callback will deliver. -/
def Immediate.payloads : Immediate T Reason → List T
  | .drain payloads => payloads
  | .closed _ => []

def Immediate.closes : Immediate T Reason → Bool
  | .drain _ => false
  | .closed _ => true

/-- A call of a listener, or of the transport's teardown hook. -/
inductive Delivery (T Reason : Type) where
  | event (listener : ℕ) (payload : T)
  | closed (listener : ℕ) (reason : Reason)
  | onClose (reason : Reason)
deriving DecidableEq

/-- The handle.  Listeners are numbered in the order they are attached. -/
structure Subscription (T Reason : Type) where
  closed : Bool := false
  pendingEvents : List T := []
  pendingCloseReason : Option Reason := none
  eventListeners : ℕ := 0
  closedListeners : ℕ := 0
  immediates : List (Immediate T Reason) := []
  deliveries : List (Delivery T Reason) := []
deriving DecidableEq

inductive Call (T Reason : Type) where
  | emitEvent (payload : T)
  | notifyClosed (reason : Reason)
  | close (reason : Reason)
  | on (name : EventName)
  | immediate
deriving DecidableEq

namespace Subscription

/-- `emit` of the event emitter for a payload: every listener attached is called. -/
def emitPayload (s : Subscription T Reason) (payload : T) : Subscription T Reason :=
  { s with deliveries :=
      s.deliveries ++ (List.range s.eventListeners).map fun l => .event l payload }

def emitClosed (s : Subscription T Reason) (reason : Reason) : Subscription T Reason :=
  { s with deliveries :=
      s.deliveries ++ (List.range s.closedListeners).map fun l => .closed l reason }

def emitEvent (s : Subscription T Reason) (payload : T) : Subscription T Reason :=
  if s.closed then s
  else if s.eventListeners = 0 then { s with pendingEvents := s.pendingEvents ++ [payload] }
  else s.emitPayload payload

def notifyClosed (s : Subscription T Reason) (reason : Reason) : Subscription T Reason :=
  if s.closed then s
  else
    let s := { s with closed := true }
    if s.closedListeners = 0 then { s with pendingCloseReason := some reason }
    else s.emitClosed reason

def close (s : Subscription T Reason) (reason : Reason) : Subscription T Reason :=
  if s.closed then s
  else notifyClosed { s with deliveries := s.deliveries ++ [.onClose reason] } reason

def onEvent (s : Subscription T Reason) : Subscription T Reason :=
  let s := { s with eventListeners := s.eventListeners + 1 }
  if 0 < s.pendingEvents.length then
    { s with
      pendingEvents := []
      immediates := s.immediates ++ [.drain s.pendingEvents] }
  else s

def onClosed (s : Subscription T Reason) : Subscription T Reason :=
  let s := { s with closedListeners := s.closedListeners + 1 }
  match s.pendingCloseReason with
  | some reason =>
      { s with
        pendingCloseReason := none
        immediates := s.immediates ++ [.closed reason] }
  | none => s

def on (s : Subscription T Reason) : EventName → Subscription T Reason
  | .event => s.onEvent
  | .closed => s.onClosed

/-- What a deferred callback does. -/
def runImmediate (s : Subscription T Reason) : Immediate T Reason → Subscription T Reason
  | .drain payloads => payloads.foldl emitPayload s
  | .closed reason => s.emitClosed reason

/-- One call.  Deferred callbacks run in the order they were deferred. -/
def step (s : Subscription T Reason) : Call T Reason → Option (Subscription T Reason)
  | .emitEvent payload => some (s.emitEvent payload)
  | .notifyClosed reason => some (s.notifyClosed reason)
  | .close reason => some (s.close reason)
  | .on name => some (s.on name)
  | .immediate =>
      match s.immediates with
      | [] => none
      | callback :: immediates => some (runImmediate { s with immediates := immediates } callback)

/-! ### What a listener is owed -/

/-- The payloads an event listener was called with. -/
def received (l : ℕ) (s : Subscription T Reason) : List T :=
  s.deliveries.filterMap fun
    | .event l' payload => if l' = l then some payload else none
    | _ => none

/-- How often a closed listener was called. -/
def closings (l : ℕ) (s : Subscription T Reason) : ℕ :=
  s.deliveries.countP fun
    | .closed l' _ => l' = l
    | _ => false

/-- The payloads taken and not yet delivered. -/
def waiting (s : Subscription T Reason) : List T :=
  s.immediates.flatMap Immediate.payloads ++ s.pendingEvents

end Subscription

/-- The payloads that a row of calls hands to the open subscription. -/
def taken : List (Call T Reason) → List T
  | [] => []
  | .emitEvent payload :: calls => payload :: taken calls
  | .notifyClosed _ :: _ => []
  | .close _ :: _ => []
  | .on _ :: calls => taken calls
  | .immediate :: calls => taken calls

namespace Subscription

/-! ### Deliveries -/

theorem filterMap_range (payload : T) (l n : ℕ) :
    ((List.range n).filterMap fun l' => if l' = l then some payload else none) =
      if l < n then [payload] else [] := by
  induction n with
  | zero => rfl
  | succ n ih =>
      rw [List.range_succ, List.filterMap_append, ih]
      rcases Nat.lt_trichotomy l n with hlt | rfl | hgt
      · simp [hlt, Nat.lt_succ_of_lt hlt, Nat.ne_of_gt hlt]
      · simp
      · simp [Nat.le_of_lt hgt, Nat.not_lt.mpr hgt, Nat.ne_of_lt hgt]

theorem countP_range (l n : ℕ) :
    ((List.range n).countP fun l' => l' = l) = if l < n then 1 else 0 := by
  induction n with
  | zero => rfl
  | succ n ih =>
      rw [List.range_succ, List.countP_append, ih]
      rcases Nat.lt_trichotomy l n with hlt | rfl | hgt
      · simp [hlt, Nat.lt_succ_of_lt hlt, Nat.ne_of_gt hlt]
      · simp
      · simp [Nat.le_of_lt hgt, Nat.not_lt.mpr hgt, Nat.ne_of_lt hgt]

/-- A replay changes what was delivered, and nothing else. -/
theorem foldl_emitPayload (payloads : List T) (s : Subscription T Reason) :
    payloads.foldl emitPayload s =
      { s with deliveries := (payloads.foldl emitPayload s).deliveries } := by
  induction payloads generalizing s with
  | nil => rfl
  | cons payload payloads ih => exact ih (s.emitPayload payload)

theorem received_emitPayload (s : Subscription T Reason) (payload : T) (l : ℕ) :
    received l (s.emitPayload payload) =
      received l s ++ if l < s.eventListeners then [payload] else [] := by
  rw [received, emitPayload, List.filterMap_append, List.filterMap_map, ← filterMap_range]
  rfl

theorem received_foldl (payloads : List T) (s : Subscription T Reason) (l : ℕ) :
    received l (payloads.foldl emitPayload s) =
      received l s ++ if l < s.eventListeners then payloads else [] := by
  induction payloads generalizing s with
  | nil => simp
  | cons payload payloads ih =>
      rw [List.foldl_cons, ih, received_emitPayload, List.append_assoc]
      refine congrArg _ ?_
      change _ ++ (if l < s.eventListeners then payloads else []) = _
      split <;> rfl

theorem received_emitClosed (s : Subscription T Reason) (reason : Reason) (l : ℕ) :
    received l (s.emitClosed reason) = received l s := by
  rw [received, emitClosed, List.filterMap_append, List.filterMap_map]
  refine (congrArg _ ?_).trans (List.append_nil _)
  exact List.filterMap_eq_nil_iff.mpr fun _ _ => rfl

theorem closings_emitPayload (s : Subscription T Reason) (payload : T) (l : ℕ) :
    closings l (s.emitPayload payload) = closings l s := by
  rw [closings, emitPayload, List.countP_append, List.countP_map]
  refine (congrArg _ ?_).trans (Nat.add_zero _)
  exact List.countP_eq_zero.mpr fun _ _ => Bool.false_ne_true

theorem closings_foldl (payloads : List T) (s : Subscription T Reason) (l : ℕ) :
    closings l (payloads.foldl emitPayload s) = closings l s := by
  induction payloads generalizing s with
  | nil => rfl
  | cons payload payloads ih => rw [List.foldl_cons, ih, closings_emitPayload]

theorem closings_emitClosed (s : Subscription T Reason) (reason : Reason) (l : ℕ) :
    closings l (s.emitClosed reason) =
      closings l s + if l < s.closedListeners then 1 else 0 := by
  rw [closings, emitClosed, List.countP_append, List.countP_map, ← countP_range]
  rfl

/-! ### What every call keeps -/

/-- The notices of the close that are still to come. -/
def closesDue (s : Subscription T Reason) : ℕ :=
  s.pendingCloseReason.toList.length + s.immediates.countP Immediate.closes

/-- Payloads are buffered only without a listener and replayed only to one; the close is told
at most once. -/
structure Inv (s : Subscription T Reason) : Prop where
  buffered : 0 < s.eventListeners → s.pendingEvents = []
  deferred : ∀ payloads, .drain payloads ∈ s.immediates → 0 < s.eventListeners
  once : ∀ l, closings l s + closesDue s ≤ s.closed.toNat

theorem inv_init : Inv ({} : Subscription T Reason) :=
  ⟨fun _ => rfl, nofun, fun _ => Nat.le_refl _⟩

theorem Inv.emitEvent {s : Subscription T Reason} (h : Inv s) (payload : T) :
    Inv (s.emitEvent payload) := by
  unfold Subscription.emitEvent
  split
  · exact h
  · split
    · next hnone => exact ⟨fun hpos => absurd hnone (Nat.ne_of_gt hpos), h.deferred, h.once⟩
    · refine ⟨h.buffered, h.deferred, fun l => ?_⟩
      rw [closings_emitPayload]
      exact h.once l

theorem Inv.notifyClosed {s : Subscription T Reason} (h : Inv s) (reason : Reason) :
    Inv (s.notifyClosed reason) := by
  unfold Subscription.notifyClosed
  split
  · exact h
  · next hopen =>
      have honce : ∀ l, closings l s + closesDue s = 0 := by
        intro l
        have := h.once l
        rw [Bool.eq_false_iff.mpr hopen] at this
        exact Nat.eq_zero_of_le_zero this
      dsimp only
      split
      · refine ⟨h.buffered, h.deferred, fun l => ?_⟩
        have := honce l
        simp only [closings, closesDue, Option.toList_some, List.length_singleton,
          Bool.toNat_true] at this ⊢
        omega
      · refine ⟨h.buffered, h.deferred, fun l => ?_⟩
        rw [closings_emitClosed]
        have := honce l
        simp only [closings, closesDue, emitClosed, Bool.toNat_true] at this ⊢
        split <;> omega

theorem Inv.close {s : Subscription T Reason} (h : Inv s) (reason : Reason) :
    Inv (s.close reason) := by
  unfold Subscription.close
  split
  · exact h
  · have htorn : Inv { s with deliveries := s.deliveries ++ [.onClose reason] } := by
      refine ⟨h.buffered, h.deferred, fun l => ?_⟩
      have := h.once l
      simp only [closings, closesDue, List.countP_append] at this ⊢
      exact this
    exact htorn.notifyClosed reason

theorem Inv.onEvent {s : Subscription T Reason} (h : Inv s) : Inv s.onEvent := by
  unfold Subscription.onEvent
  dsimp only
  split
  · refine ⟨fun _ => rfl, fun _ _ => Nat.succ_pos _, fun l => ?_⟩
    have := h.once l
    simp only [closings, closesDue, List.countP_append] at this ⊢
    exact this
  · next hnone =>
      refine ⟨fun _ => ?_, fun _ _ => Nat.succ_pos _, h.once⟩
      exact List.eq_nil_of_length_eq_zero (Nat.eq_zero_of_not_pos hnone)

theorem Inv.onClosed {s : Subscription T Reason} (h : Inv s) : Inv s.onClosed := by
  unfold Subscription.onClosed
  dsimp only
  split
  · next reason hreason =>
      refine ⟨h.buffered, fun payloads hmem => ?_, fun l => ?_⟩
      · rcases List.mem_append.mp hmem with hmem | hmem
        · exact h.deferred payloads hmem
        · cases List.mem_singleton.mp hmem
      · have := h.once l
        simp only [closings, closesDue, hreason, List.countP_append, List.countP_singleton,
          Option.toList_some, Option.toList_none, List.length_singleton, List.length_nil,
          Immediate.closes, if_true] at this ⊢
        omega
  · exact ⟨h.buffered, h.deferred, h.once⟩

theorem Inv.immediate {s : Subscription T Reason} (h : Inv s) {callback : Immediate T Reason}
    {immediates : List (Immediate T Reason)} (hs : s.immediates = callback :: immediates) :
    Inv (runImmediate { s with immediates := immediates } callback) := by
  have hdeferred : ∀ payloads, .drain payloads ∈ immediates → 0 < s.eventListeners :=
    fun payloads hmem => h.deferred payloads (hs ▸ List.mem_cons_of_mem _ hmem)
  cases callback with
  | drain payloads =>
      rw [runImmediate, foldl_emitPayload]
      refine ⟨h.buffered, hdeferred, fun l => ?_⟩
      have hclosings := closings_foldl payloads { s with immediates := immediates } l
      have := h.once l
      simp only [closings, closesDue, hs, List.countP_cons, Immediate.closes] at this hclosings ⊢
      rw [hclosings]
      exact this
  | closed reason =>
      refine ⟨h.buffered, hdeferred, fun l => ?_⟩
      have := h.once l
      rw [runImmediate, closings_emitClosed]
      simp only [closings, closesDue, hs, List.countP_cons, Immediate.closes, emitClosed,
        if_true] at this ⊢
      split <;> omega

theorem step_immediate {s s' : Subscription T Reason} :
    s.step .immediate = some s' ↔ ∃ callback immediates,
      s.immediates = callback :: immediates ∧
        s' = runImmediate { s with immediates := immediates } callback := by
  unfold step
  cases hs : s.immediates with
  | nil => simp
  | cons callback immediates => simp [eq_comm]

theorem Inv.step {s s' : Subscription T Reason} {call : Call T Reason} (h : Inv s)
    (hstep : s.step call = some s') : Inv s' := by
  cases call with
  | emitEvent payload => exact Option.some.inj hstep ▸ h.emitEvent payload
  | notifyClosed reason => exact Option.some.inj hstep ▸ h.notifyClosed reason
  | close reason => exact Option.some.inj hstep ▸ h.close reason
  | on name =>
      obtain rfl := Option.some.inj hstep
      cases name with
      | event => exact h.onEvent
      | closed => exact h.onClosed
  | immediate =>
      obtain ⟨callback, immediates, hs, rfl⟩ := step_immediate.mp hstep
      exact h.immediate hs

/-! ### What becomes of the payloads -/

/-- The payload that a call hands to the open subscription. -/
def takes (s : Subscription T Reason) : Call T Reason → List T
  | .emitEvent payload => if s.closed then [] else [payload]
  | _ => []

/-- The step replays the payloads that waited longest, possibly none, and does nothing else
with payloads. -/
def Replays (s s' : Subscription T Reason) : Prop :=
  ∃ replayed, waiting s = replayed ++ waiting s' ∧ (replayed ≠ [] → 0 < s.eventListeners) ∧
    ∀ l, received l s' = received l s ++ if l < s.eventListeners then replayed else []

theorem replays_none {s s' : Subscription T Reason} (hwaiting : waiting s' = waiting s)
    (hreceived : ∀ l, received l s' = received l s) : Replays s s' :=
  ⟨[], hwaiting.symm, nofun, fun l => by rw [hreceived, ite_self, List.append_nil]⟩

theorem replays_notifyClosed (s : Subscription T Reason) (reason : Reason) :
    Replays s (s.notifyClosed reason) := by
  unfold notifyClosed
  split
  · exact replays_none rfl fun _ => rfl
  · dsimp only
    split
    · exact replays_none rfl fun _ => rfl
    · exact replays_none rfl fun l => received_emitClosed _ reason l

theorem replays_close (s : Subscription T Reason) (reason : Reason) :
    Replays s (s.close reason) := by
  unfold close
  split
  · exact replays_none rfl fun _ => rfl
  · obtain ⟨replayed, hwaiting, hpos, hreceived⟩ :=
      replays_notifyClosed { s with deliveries := s.deliveries ++ [.onClose reason] } reason
    refine ⟨replayed, hwaiting, hpos, fun l => ?_⟩
    rw [hreceived, received, List.filterMap_append]
    exact congrArg (· ++ _) (List.append_nil _)

theorem replays_onEvent (s : Subscription T Reason) : Replays s s.onEvent := by
  unfold onEvent
  dsimp only
  split
  · refine replays_none ?_ fun _ => rfl
    simp [waiting, Immediate.payloads]
  · exact replays_none rfl fun _ => rfl

theorem replays_onClosed (s : Subscription T Reason) : Replays s s.onClosed := by
  unfold onClosed
  dsimp only
  split
  · refine replays_none ?_ fun _ => rfl
    simp [waiting, Immediate.payloads]
  · exact replays_none rfl fun _ => rfl

theorem Inv.replays_immediate {s : Subscription T Reason} (h : Inv s)
    {callback : Immediate T Reason} {immediates : List (Immediate T Reason)}
    (hs : s.immediates = callback :: immediates) :
    Replays s (runImmediate { s with immediates := immediates } callback) := by
  cases callback with
  | drain payloads =>
      refine ⟨payloads, ?_, fun _ => h.deferred payloads (hs ▸ List.mem_cons_self), fun l => ?_⟩
      · rw [runImmediate, foldl_emitPayload, waiting, hs, List.flatMap_cons, List.append_assoc]
        rfl
      · exact received_foldl payloads { s with immediates := immediates } l
  | closed reason =>
      refine replays_none ?_ fun l => received_emitClosed _ reason l
      rw [waiting, waiting, hs]
      rfl

theorem Inv.replays {s s' : Subscription T Reason} (h : Inv s) {call : Call T Reason}
    (hstep : s.step call = some s') (htakes : takes s call = []) : Replays s s' := by
  cases call with
  | emitEvent payload =>
      obtain rfl := Option.some.inj hstep
      have hclosed : s.closed = true := by
        by_contra hopen
        rw [takes, if_neg hopen] at htakes
        cases htakes
      rw [Subscription.emitEvent, if_pos hclosed]
      exact replays_none rfl fun _ => rfl
  | notifyClosed reason => exact Option.some.inj hstep ▸ replays_notifyClosed s reason
  | close reason => exact Option.some.inj hstep ▸ replays_close s reason
  | on name =>
      obtain rfl := Option.some.inj hstep
      cases name with
      | event => exact replays_onEvent s
      | closed => exact replays_onClosed s
  | immediate =>
      obtain ⟨callback, immediates, hs, rfl⟩ := step_immediate.mp hstep
      exact h.replays_immediate hs

/-- What the first listener has and what waits for it. -/
def due (s : Subscription T Reason) : List T :=
  received 0 s ++ waiting s

theorem Replays.due {s s' : Subscription T Reason} (h : Replays s s') :
    s'.due = s.due := by
  obtain ⟨replayed, hwaiting, hpos, hreceived⟩ := h
  rw [Subscription.due, Subscription.due, hreceived, hwaiting, List.append_assoc]
  refine congrArg (_ ++ ·) ?_
  cases replayed with
  | nil => rw [ite_self]
  | cons payload replayed => rw [if_pos (hpos (List.cons_ne_nil _ _))]

/-- A payload emitted to an open subscription is delivered at once or waits. -/
theorem due_emitEvent {s : Subscription T Reason} (hopen : s.closed = false) (payload : T) :
    (s.emitEvent payload).due = s.due ++ [payload] ∨
      (s.emitEvent payload).due = received 0 s ++ [payload] ++ waiting s ∧
        0 < s.eventListeners := by
  rw [emitEvent, if_neg (by rw [hopen]; exact Bool.false_ne_true)]
  split
  · refine Or.inl ?_
    simp [due, waiting, received]
  · next hsome =>
      have hpos := Nat.pos_of_ne_zero hsome
      refine Or.inr ⟨?_, hpos⟩
      rw [due, received_emitPayload, if_pos hpos]
      rfl

/-- No replay is deferred while a payload is emitted. -/
def Quiet (s : Subscription T Reason) (call : Call T Reason) : Prop :=
  takes s call ≠ [] → s.immediates.flatMap Immediate.payloads = []

instance [DecidableEq T] (s : Subscription T Reason) (call : Call T Reason) :
    Decidable (Quiet s call) :=
  inferInstanceAs (Decidable (takes s call ≠ [] → _))

/-! ### Runs -/

/-- What a row of calls hands to the subscription in a state. -/
def takenFrom (s : Subscription T Reason) (calls : List (Call T Reason)) : List T :=
  if s.closed then [] else taken calls

/-- Whether a call closes the subscription. -/
def closes : Call T Reason → Bool
  | .notifyClosed _ => true
  | .close _ => true
  | _ => false

theorem closed_notifyClosed (s : Subscription T Reason) (reason : Reason) :
    (s.notifyClosed reason).closed = true := by
  unfold notifyClosed
  split
  · assumption
  · dsimp only
    split <;> rfl

theorem closed_step {s s' : Subscription T Reason} {call : Call T Reason}
    (hstep : s.step call = some s') : s'.closed = (s.closed || closes call) := by
  cases call with
  | emitEvent payload =>
      obtain rfl := Option.some.inj hstep
      refine Eq.trans ?_ (Bool.or_false s.closed).symm
      unfold emitEvent
      split
      · rfl
      · split <;> rfl
  | notifyClosed reason =>
      obtain rfl := Option.some.inj hstep
      rw [closes, Bool.or_true, closed_notifyClosed]
  | close reason =>
      obtain rfl := Option.some.inj hstep
      rw [closes, Bool.or_true]
      unfold close
      split
      · assumption
      · exact closed_notifyClosed _ reason
  | on name =>
      obtain rfl := Option.some.inj hstep
      refine Eq.trans ?_ (Bool.or_false s.closed).symm
      cases name with
      | event =>
          rw [on, onEvent]
          dsimp only
          split <;> rfl
      | closed =>
          rw [on, onClosed]
          dsimp only
          split <;> rfl
  | immediate =>
      obtain ⟨callback, immediates, -, rfl⟩ := step_immediate.mp hstep
      refine Eq.trans ?_ (Bool.or_false s.closed).symm
      cases callback with
      | drain payloads => rw [runImmediate, foldl_emitPayload]
      | closed reason => rfl

theorem takenFrom_cons {s s' : Subscription T Reason} {call : Call T Reason}
    (hstep : s.step call = some s') (calls : List (Call T Reason)) :
    takenFrom s (call :: calls) = takes s call ++ takenFrom s' calls := by
  rw [takenFrom, takenFrom, closed_step hstep]
  cases hclosed : s.closed with
  | true => cases call <;> simp [takes, hclosed]
  | false => cases call <;> simp [takes, taken, closes, hclosed]

theorem inv_run {calls : List (Call T Reason)} {s s' : Subscription T Reason}
    (hrun : runs step s calls = some s') (h : Inv s) : Inv s' :=
  runs_induction hrun h fun _ _ _ _ hstep hinv => hinv.step hstep

theorem step_due {s s' : Subscription T Reason} {call : Call T Reason} (h : Inv s)
    (hstep : s.step call = some s') :
    (s'.due).Perm (s.due ++ takes s call) ∧ (Quiet s call → s'.due = s.due ++ takes s call) := by
  by_cases htakes : takes s call = []
  · rw [htakes, List.append_nil, (h.replays hstep htakes).due]
    exact ⟨List.Perm.refl _, fun _ => rfl⟩
  · cases call with
    | emitEvent payload =>
        obtain rfl := Option.some.inj hstep
        have hopen : s.closed = false := by
          by_contra hclosed
          exact htakes (if_pos (Bool.of_not_eq_false hclosed))
        have hpayload : takes s (.emitEvent payload) = [payload] := by
          rw [takes, hopen]
          rfl
        rw [hpayload]
        rcases due_emitEvent hopen payload with heq | ⟨heq, hpos⟩
        · exact ⟨heq ▸ List.Perm.refl _, fun _ => heq⟩
        · refine ⟨?_, fun hquiet => ?_⟩
          · rw [heq, due, List.append_assoc, List.append_assoc]
            exact List.Perm.append_left _ List.perm_append_comm
          · have hwaiting : waiting s = [] := by
              rw [waiting, hquiet htakes, h.buffered hpos]
              rfl
            rw [heq, due, hwaiting, List.append_nil, List.append_nil]
    | notifyClosed reason => exact absurd rfl htakes
    | close reason => exact absurd rfl htakes
    | on name => exact absurd rfl htakes
    | immediate => exact absurd rfl htakes

theorem perm_run {calls : List (Call T Reason)} {s s' : Subscription T Reason}
    (hrun : runs step s calls = some s') (h : Inv s) :
    (s'.due).Perm (s.due ++ takenFrom s calls) := by
  induction calls generalizing s with
  | nil =>
      cases hrun
      rw [takenFrom, taken, ite_self, List.append_nil]
  | cons call calls ih =>
      obtain ⟨m, hstep, hrest⟩ := runs_cons.mp hrun
      rw [takenFrom_cons hstep, ← List.append_assoc]
      exact (ih hrest (h.step hstep)).trans ((step_due h hstep).1.append_right _)

theorem due_run {calls : List (Call T Reason)} {s s' : Subscription T Reason}
    (hrun : runs step s calls = some s') (h : Inv s) (hquiet : Along step Quiet s calls) :
    s'.due = s.due ++ takenFrom s calls := by
  induction calls generalizing s with
  | nil =>
      cases hrun
      rw [takenFrom, taken, ite_self, List.append_nil]
  | cons call calls ih =>
      obtain ⟨m, hstep, hrest⟩ := runs_cons.mp hrun
      rw [Along, hstep] at hquiet
      rw [takenFrom_cons hstep, ← List.append_assoc, ih hrest (h.step hstep) hquiet.2,
        (step_due h hstep).2 hquiet.1]

/-- After the close only waiting payloads are delivered. -/
theorem late_run {calls : List (Call T Reason)} {s s' : Subscription T Reason}
    (hrun : runs step s calls = some s') (h : Inv s) (hclosed : s.closed = true) (l : ℕ) :
    ∃ late, received l s' = received l s ++ late ∧ (late ++ waiting s').Sublist (waiting s) := by
  have hkeep : Inv s' ∧ s'.closed = true ∧ ∃ late, received l s' = received l s ++ late ∧
      (late ++ waiting s').Sublist (waiting s) := by
    refine runs_induction (motive := fun m => Inv m ∧ m.closed = true ∧ ∃ late,
      received l m = received l s ++ late ∧ (late ++ waiting m).Sublist (waiting s)) hrun
      ⟨h, hclosed, [], (List.append_nil _).symm, List.Sublist.refl _⟩ ?_
    rintro m m' call - hstep ⟨hinv, hm, late, hreceived, hlate⟩
    have htakes : takes m call = [] := by
      cases call with
      | emitEvent payload => exact if_pos hm
      | _ => rfl
    obtain ⟨replayed, hwaiting, -, hnew⟩ := hinv.replays hstep htakes
    refine ⟨hinv.step hstep, ?_, late ++ if l < m.eventListeners then replayed else [], ?_, ?_⟩
    · rw [closed_step hstep, hm, Bool.true_or]
    · rw [hnew, hreceived, List.append_assoc]
    · rw [hwaiting] at hlate
      refine List.Sublist.trans ?_ hlate
      rw [List.append_assoc]
      refine List.Sublist.append_left ?_ _
      split
      · exact List.Sublist.refl _
      · exact List.sublist_append_right _ _
  exact hkeep.2.2

/-- A listener stays attached. -/
theorem listeners_step {s s' : Subscription T Reason} {call : Call T Reason}
    (hstep : step s call = some s') : s.eventListeners ≤ s'.eventListeners ∧
      (call = .on .event → 0 < s'.eventListeners) := by
  cases call with
  | emitEvent payload =>
      cases hstep
      refine ⟨?_, nofun⟩
      unfold Subscription.emitEvent
      split_ifs <;> exact Nat.le_refl _
  | notifyClosed reason =>
      cases hstep
      refine ⟨?_, nofun⟩
      unfold Subscription.notifyClosed
      dsimp only
      split_ifs <;> exact Nat.le_refl _
  | close reason =>
      cases hstep
      refine ⟨?_, nofun⟩
      unfold Subscription.close Subscription.notifyClosed
      dsimp only
      split_ifs <;> exact Nat.le_refl _
  | on name =>
      cases hstep
      cases name with
      | event =>
          have hone : (s.on .event).eventListeners = s.eventListeners + 1 := by
            unfold on onEvent
            dsimp only
            split_ifs <;> rfl
          rw [hone]
          exact ⟨Nat.le_succ _, fun _ => Nat.succ_pos _⟩
      | closed =>
          refine ⟨?_, nofun⟩
          unfold on onClosed
          dsimp only
          split <;> exact Nat.le_refl _
  | immediate =>
      refine ⟨?_, nofun⟩
      unfold step at hstep
      dsimp only at hstep
      split at hstep
      · cases hstep
      · cases hstep
        next callback immediates hs =>
          cases callback with
          | drain payloads =>
              exact Nat.le_of_eq (by rw [runImmediate, foldl_emitPayload])
          | closed reason => exact Nat.le_refl _

theorem listeners_run {calls : List (Call T Reason)} {s s' : Subscription T Reason}
    (hrun : runs step s calls = some s') (hon : .on .event ∈ calls) : 0 < s'.eventListeners := by
  obtain ⟨before, after, rfl⟩ := List.append_of_mem hon
  rw [runs_append] at hrun
  obtain ⟨m, -, hrest⟩ := Option.bind_eq_some_iff.mp hrun
  obtain ⟨m', hstep, hafter⟩ := runs_cons.mp hrest
  refine runs_induction (motive := fun m => 0 < m.eventListeners) hafter
    ((listeners_step hstep).2 rfl) ?_
  intro m m' call _ hcall hpos
  exact Nat.lt_of_lt_of_le hpos (listeners_step hcall).1

end Subscription

open Subscription

/-- Over every row of calls: the first listener is owed every payload taken, exactly once, and
in order when nothing is emitted while a replay is deferred; once a listener was attached and no
deferred callback is left, nothing waits; listeners hear of the close only after it; from then on
only payloads that waited at that point are delivered; and nobody hears of it twice. -/
theorem subscription_delivers {calls : List (Call T Reason)} {s : Subscription T Reason}
    (hrun : runs Subscription.step {} calls = some s) :
    (received 0 s ++ waiting s).Perm (taken calls) ∧
      (Along Subscription.step Quiet {} calls → received 0 s ++ waiting s = taken calls) ∧
      (.on .event ∈ calls → s.immediates = [] → waiting s = []) ∧
      (∀ l reason, .closed l reason ∈ s.deliveries → s.closed = true) ∧
      (s.closed = true → ∀ more s', runs Subscription.step s more = some s' → ∀ l,
        ∃ late, received l s' = received l s ++ late ∧ (late ++ waiting s').Sublist (waiting s)) ∧
      ∀ l, closings l s ≤ 1 := by
  have h := inv_run hrun inv_init
  refine ⟨perm_run hrun inv_init, fun hquiet => due_run hrun inv_init hquiet, ?_, ?_, ?_, ?_⟩
  · intro hon hnone
    rw [waiting, hnone, h.buffered (listeners_run hrun hon)]
    rfl
  · intro l reason hmem
    by_contra hopen
    have honce := h.once l
    rw [Bool.eq_false_iff.mpr hopen] at honce
    have hheard : 0 < closings l s :=
      List.countP_pos_iff.mpr ⟨_, hmem, decide_eq_true rfl⟩
    exact absurd (Nat.le_trans hheard (Nat.le_trans (Nat.le_add_right _ _) honce)) (by decide)
  · exact fun hclosed more s' hmore l => late_run hmore h hclosed l
  · intro l
    exact Nat.le_trans (Nat.le_add_right _ _) (Nat.le_trans (h.once l) (Bool.toNat_le _))

/-- Two payloads before the listener, one after its replay, then the close. -/
def hydrated : List (Call ℕ Unit) :=
  [.emitEvent 1, .emitEvent 2, .on .event, .immediate, .emitEvent 3, .notifyClosed ()]

theorem subscription_delivers_hydrated :
    ∃ s : Subscription ℕ Unit, runs Subscription.step {} hydrated = some s ∧
      received 0 s = [1, 2, 3] ∧ waiting s = [] ∧ ∀ l, closings l s ≤ 1 := by
  obtain ⟨s, hrun, hnone⟩ : ∃ s : Subscription ℕ Unit,
      runs Subscription.step {} hydrated = some s ∧ s.immediates = [] := ⟨_, rfl, rfl⟩
  obtain ⟨-, horder, hdrained, -, -, honce⟩ := subscription_delivers hrun
  have hwaiting : waiting s = [] := hdrained (by decide) hnone
  have htaken : received 0 s ++ waiting s = [1, 2, 3] := horder (by decide)
  rw [hwaiting, List.append_nil] at htaken
  exact ⟨s, hrun, htaken, hwaiting, honce⟩

/-- A payload emitted between the attach and the replay overtakes the buffered one; a listener
attached after the close still gets the buffered payload. -/
theorem replay_overtaken_and_late :
    (∃ s : Subscription ℕ Unit,
      runs Subscription.step {} [.emitEvent 1, .on .event, .emitEvent 2, .immediate] = some s ∧
        received 0 s = [2, 1]) ∧
    ∃ s : Subscription ℕ Unit,
      runs Subscription.step {}
          [.on .closed, .emitEvent 1, .notifyClosed (), .on .event, .immediate] = some s ∧
        s.deliveries = [.closed 0 (), .event 0 1] :=
  ⟨⟨_, rfl, rfl⟩, ⟨_, rfl, rfl⟩⟩

end DebuggingSubscription
end WireTools
