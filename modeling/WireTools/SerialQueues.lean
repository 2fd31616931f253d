import Mathlib.Algebra.BigOperators.Group.Finset.Basic
import Mathlib.Algebra.Order.BigOperators.Group.Finset
import Mathlib.Data.Finset.Max
import Mathlib.Logic.Function.Basic
import WireTools.Runs
import WireTools.Text

/-! # Serial queues

Every call of `serialize` chains its work behind the promise that its key holds, and leaves there
one that no error reaches.

* `State`: the promises of every call, the queues, the microtasks, and the work whose synchronous
  part is on the stack;
* `exec`: a call at any time, one microtask, a work that returns or throws, and the promise that a
  work returned settling at any time;
* `Stage`: how far a call has come, and `Inv`, what its promises and microtasks are then;
* `serialize_serial`: the works of a key run one at a time in the order of the calls, none waits
  for another key, and every caller gets the outcome of its own. -/

namespace WireTools.SerialQueues

open Finset (range mem_range mem_filter exists_max_image)

/-- No value is `undefined`. -/
inductive Outcome (α : Type) where
  | fulfilled (value : Option α)
  | rejected (error : α)
  deriving DecidableEq

/-- What is attached to a promise: `then(work, work)`, the functions that settle what a call
returns, and `catch(() => undefined)`; each for one call. -/
inductive Reaction where
  | run (i : ℕ)
  | adopt (i : ℕ)
  | swallow (i : ℕ)
  deriving DecidableEq

structure Promise (α : Type) where
  outcome : Option (Outcome α)
  reactions : List Reaction
  deriving DecidableEq

/-- A microtask: a reaction with what its promise settled to, or that the promise a work returned
is to be followed. -/
inductive Job (α : Type) where
  | react (r : Reaction) (o : Outcome α)
  | follow (i : ℕ)
  deriving DecidableEq

namespace Promise

variable {α : Type}

def pending : Promise α := ⟨none, []⟩

/-- A reaction is attached, or queued when the promise has settled already. -/
def react (p : Promise α) (r : Reaction) : Promise α × List (Job α) :=
  match p.outcome with
  | some o => (p, [.react r o])
  | none => (⟨none, p.reactions ++ [r]⟩, [])

/-- A promise settles once, and its reactions are queued. -/
def settle (p : Promise α) (o : Outcome α) : Promise α × List (Job α) :=
  match p.outcome with
  | some _ => (p, [])
  | none => (⟨some o, []⟩, p.reactions.map fun r => .react r o)

theorem react_of_open {p : Promise α} (h : p.outcome = none) (r : Reaction) :
    p.react r = (⟨none, p.reactions ++ [r]⟩, []) := by
  rw [react, h]

theorem react_of_settled {p : Promise α} {o : Outcome α} (h : p.outcome = some o) (r : Reaction) :
    p.react r = (p, [.react r o]) := by
  rw [react, h]

theorem settle_of_open {p : Promise α} (h : p.outcome = none) (o : Outcome α) :
    p.settle o = (⟨some o, []⟩, p.reactions.map fun r => .react r o) := by
  rw [settle, h]

end Promise

/-- The calls are numbered in their order. -/
structure State (α : Type) where
  created : ℕ
  key : ℕ → Text
  /-- What the work returned.  A work that throws has no promise; its error is kept as that of
  one. -/
  own : ℕ → Promise α
  /-- What the call returned. -/
  next : ℕ → Promise α
  /-- What the call left in the queue. -/
  tail : ℕ → Promise α
  serialQueues : Text → Option ℕ
  jobs : List (Job α)
  active : Option ℕ
  /-- The works in the order they were started. -/
  started : List ℕ

def State.init (α : Type) : State α where
  created := 0
  key _ := []
  own _ := .pending
  next _ := .pending
  tail _ := .pending
  serialQueues _ := none
  jobs := []
  active := none
  started := []

namespace State

variable {α : Type} (s : State α)

def reactOwn (i : ℕ) (r : Reaction) : State α :=
  { s with
    own := Function.update s.own i ((s.own i).react r).1
    jobs := s.jobs ++ ((s.own i).react r).2 }

def reactTail (i : ℕ) (r : Reaction) : State α :=
  { s with
    tail := Function.update s.tail i ((s.tail i).react r).1
    jobs := s.jobs ++ ((s.tail i).react r).2 }

def settleOwn (i : ℕ) (o : Outcome α) : State α :=
  { s with
    own := Function.update s.own i ((s.own i).settle o).1
    jobs := s.jobs ++ ((s.own i).settle o).2 }

def settleNext (i : ℕ) (o : Outcome α) : State α :=
  { s with
    next := Function.update s.next i ((s.next i).settle o).1
    jobs := s.jobs ++ ((s.next i).settle o).2 }

def settleTail (i : ℕ) (o : Outcome α) : State α :=
  { s with
    tail := Function.update s.tail i ((s.tail i).settle o).1
    jobs := s.jobs ++ ((s.tail i).settle o).2 }

def serialize (key : Text) : State α :=
  let i := s.created
  let s := match s.serialQueues key with
    | some p => s.reactTail p (.run i)
    -- `Promise.resolve()` has settled already
    | none => { s with jobs := s.jobs ++ [Job.react (.run i) (.fulfilled none)] }
  { s with
    created := i + 1
    key := Function.update s.key i key
    next := Function.update s.next i ((Promise.pending : Promise α).react (.swallow i)).1
    serialQueues := Function.update s.serialQueues key (some i) }

/-- One microtask. -/
def runJob : Job α → State α
  | .react (.run i) _ => { s with active := some i, started := s.started ++ [i] }
  | .react (.adopt i) o => s.settleNext i o
  | .react (.swallow i) (.fulfilled value) => s.settleTail i (.fulfilled value)
  | .react (.swallow i) (.rejected _) => s.settleTail i (.fulfilled none)
  | .follow i => s.reactOwn i (.adopt i)

end State

inductive Event (α : Type) where
  | call (key : Text)
  | job
  | back
  | throw (error : α)
  | settle (i : ℕ) (o : Outcome α)
  deriving DecidableEq

variable {α : Type}

def exec (s : State α) : Event α → Option (State α)
  | .call key => some (s.serialize key)
  | .job =>
      match s.active, s.jobs with
      | none, j :: jobs => some ({ s with jobs := jobs }.runJob j)
      | _, _ => none
  | .back =>
      match s.active with
      | some i => some { s with active := none, jobs := s.jobs ++ [.follow i] }
      | none => none
  | .throw error =>
      match s.active with
      | some i =>
          if (s.own i).outcome.isNone then
            some ({ s.settleOwn i (.rejected error) with active := none }.settleNext i
              (.rejected error))
          else none
      | none => none
  | .settle i o =>
      if i ∈ s.started ∧ (s.own i).outcome.isNone then some (s.settleOwn i o) else none

namespace State

/-- The work has been started and has not settled. -/
def Running (s : State α) (i : ℕ) : Prop :=
  i ∈ s.started ∧ (s.own i).outcome = none

/-- No microtask is left, and no work is on the stack. -/
def Idle (s : State α) : Prop :=
  s.jobs = [] ∧ s.active = none

end State

/-! ### How far a call has come -/

inductive Stage where
  /-- The reaction stands at the call before. -/
  | waiting
  | ready
  | active
  /-- The promise that was returned is to be followed. -/
  | returned
  | pending
  | adopting
  | settled
  | done
  deriving DecidableEq

namespace Stage

/-- The work has been started. -/
def Started : Stage → Prop
  | .waiting | .ready => False
  | _ => True

/-- The call has been answered. -/
def Closed : Stage → Prop
  | .settled | .done => True
  | _ => False

/-- The stages of the microtasks that a call has in the queue. -/
def queued : Stage → List Stage
  | .ready => [.ready]
  | .returned => [.returned]
  | .adopting => [.adopting]
  | .settled => [.settled]
  | _ => []

/-- The microtasks that are still to come. -/
def remaining : Stage → ℕ
  | .waiting | .ready => 4
  | .active | .returned => 3
  | .pending | .adopting => 2
  | .settled => 1
  | .done => 0

end Stage

/-- The call that a microtask belongs to, and the stage that it belongs to. -/
def Job.call : Job α → ℕ
  | .react (.run i) _ | .react (.adopt i) _ | .react (.swallow i) _ | .follow i => i

def Job.stage : Job α → Stage
  | .react (.run _) _ => .ready
  | .react (.adopt _) _ => .adopting
  | .react (.swallow _) _ => .settled
  | .follow _ => .returned

section

variable (i : ℕ) (o : Outcome α)

@[simp] theorem Job.call_run : (Job.react (.run i) o).call = i := rfl

@[simp] theorem Job.call_adopt : (Job.react (.adopt i) o).call = i := rfl

@[simp] theorem Job.call_swallow : (Job.react (.swallow i) o).call = i := rfl

@[simp] theorem Job.call_follow : (Job.follow i : Job α).call = i := rfl

end

/-- What belongs to one call. -/
structure View (α : Type) where
  active : Prop
  started : Prop
  own : Promise α
  next : Promise α
  tail : Promise α
  jobs : List (Job α)

def State.view (s : State α) (i : ℕ) : View α where
  active := s.active = some i
  started := i ∈ s.started
  own := s.own i
  next := s.next i
  tail := s.tail i
  jobs := s.jobs.filter fun j => j.call = i

/-- What a call has in its stage. -/
structure Placed (v : View α) (st : Stage) (i : ℕ) : Prop where
  active : v.active ↔ st = .active
  started : v.started ↔ st.Started
  ownOpen : st = .waiting ∨ st = .ready ∨ st = .pending → v.own.outcome = none
  ownSettled : st = .adopting ∨ st = .settled ∨ st = .done → v.own.outcome ≠ none
  ownReactions : v.own.reactions = if st = .pending then [.adopt i] else []
  nextOpen : ¬st.Closed → v.next = ⟨none, [.swallow i]⟩
  nextClosed : st.Closed → v.next.outcome = v.own.outcome
  tailOpen : v.tail.outcome = none ↔ st ≠ .done
  jobs : v.jobs.map Job.stage = st.queued
  adopt : ∀ o, .react (.adopt i) o ∈ v.jobs → v.own.outcome = some o

/-- `j` is the next call with the key of `i`. -/
structure Next (s : State α) (i j : ℕ) : Prop where
  lt : i < j
  created : j < s.created
  key : s.key i = s.key j
  between : ∀ k, i < k → k < j → s.key k ≠ s.key i

/-- The calls of one key hand on to each other. -/
structure Chained (s : State α) (g : ℕ → Stage) : Prop where
  queue : ∀ k i, s.serialQueues k = some i → i < s.created ∧ s.key i = k ∧
    ∀ j < s.created, s.key j = k → j ≤ i
  queueNone : ∀ k, s.serialQueues k = none → ∀ j < s.created, s.key j ≠ k
  first : ∀ j < s.created, (∀ i < j, s.key i ≠ s.key j) → g j ≠ .waiting
  waits : ∀ i j, Next s i j → (g j = .waiting ↔ g i ≠ .done)
  reaction : ∀ i j, Next s i j → g i ≠ .done → (s.tail i).reactions = [.run j]
  last : ∀ i < s.created, (∀ j, ¬Next s i j) → (s.tail i).reactions = []

structure Inv (s : State α) (g : ℕ → Stage) : Prop where
  placed : ∀ i < s.created, Placed (s.view i) (g i) i
  blank : ∀ i, s.created ≤ i → s.view i = ⟨False, False, .pending, .pending, .pending, []⟩
  chained : Chained s g
  ordered : s.started.Pairwise fun i j => s.key i = s.key j → i < j

/-! ### What follows from the stages -/

section

variable {s : State α} {g : ℕ → Stage}

theorem Next.congr {s' : State α} (hcreated : s'.created = s.created) (hkey : s'.key = s.key)
    {i j : ℕ} : Next s' i j ↔ Next s i j := by
  constructor
  · rintro ⟨hlt, hj, hij, hbetween⟩
    rw [hcreated, hkey] at *
    exact ⟨hlt, hj, hij, hbetween⟩
  · rintro ⟨hlt, hj, hij, hbetween⟩
    exact ⟨hlt, by rwa [hcreated], by rwa [hkey], by rwa [hkey]⟩

theorem Next.right_unique {i j k : ℕ} (hj : Next s i j) (hk : Next s i k) : j = k := by
  rcases lt_trichotomy j k with hlt | heq | hlt
  · exact absurd hj.key.symm (hk.between j hj.lt hlt)
  · exact heq
  · exact absurd hk.key.symm (hj.between k hk.lt hlt)

theorem Next.left_unique {i j k : ℕ} (hi : Next s i k) (hj : Next s j k) : i = j := by
  have hkey : s.key i = s.key j := hi.key.trans hj.key.symm
  rcases lt_trichotomy i j with hlt | heq | hlt
  · exact absurd hkey.symm (hi.between j hlt hj.lt)
  · exact heq
  · exact absurd hkey (hj.between i hlt hi.lt)

/-- The last call of the key before `j`. -/
theorem exists_next {i j : ℕ} (hj : j < s.created) (hlt : i < j) (hkey : s.key i = s.key j) :
    ∃ m, i ≤ m ∧ Next s m j := by
  have hmem (k : ℕ) : k ∈ (range j).filter (fun k => i ≤ k ∧ s.key k = s.key j) ↔
      k < j ∧ i ≤ k ∧ s.key k = s.key j := by
    rw [mem_filter, mem_range]
  obtain ⟨m, hm, hmax⟩ := exists_max_image _ id ⟨i, (hmem i).mpr ⟨hlt, le_rfl, hkey⟩⟩
  obtain ⟨hmj, him, hmkey⟩ := (hmem m).mp hm
  refine ⟨m, him, hmj, hj, hmkey, fun k hmk hkj hkkey => ?_⟩
  exact hmk.not_ge (hmax k ((hmem k).mpr ⟨hkj, him.trans hmk.le, hkkey.trans hmkey⟩))

/-- Before a call that does not wait all earlier ones of its key are done. -/
theorem Inv.done_of_lt (h : Inv s g) {i j : ℕ} (hj : j < s.created) (hlt : i < j)
    (hkey : s.key i = s.key j) (hstage : g j ≠ .waiting) : g i = .done := by
  induction j using Nat.strong_induction_on with
  | h j ih =>
      obtain ⟨m, him, hnext⟩ := exists_next hj hlt hkey
      have hdone : g m = .done := by
        by_contra hne
        exact hstage ((h.chained.waits m j hnext).mpr hne)
      rcases him.eq_or_lt with rfl | him
      · exact hdone
      · refine ih m hnext.lt (hnext.lt.trans hj) him (hkey.trans hnext.key.symm) ?_
        rw [hdone]
        decide

theorem Stage.eq_of_queued {st a : Stage} {stages : List Stage} (h : a :: stages = st.queued) :
    st = a ∧ stages = [] := by
  cases st <;> cases h <;> exact ⟨rfl, rfl⟩

/-- The first microtask, and that its call has no other. -/
theorem Inv.head (h : Inv s g) {j : Job α} {jobs : List (Job α)} (hjobs : s.jobs = j :: jobs) :
    j.call < s.created ∧ g j.call = j.stage ∧ jobs.filter (fun k => k.call = j.call) = [] := by
  have hview : (s.view j.call).jobs = j :: jobs.filter fun k => k.call = j.call := by
    rw [State.view, hjobs, List.filter_cons_of_pos (by simp)]
  have hcreated : j.call < s.created := by
    by_contra hge
    rw [h.blank j.call (not_lt.mp hge)] at hview
    cases hview
  have hstage := (h.placed _ hcreated).jobs
  rw [hview, List.map_cons] at hstage
  obtain ⟨hst, hrest⟩ := Stage.eq_of_queued hstage
  exact ⟨hcreated, hst, List.map_eq_nil_iff.mp hrest⟩

/-- A step that only one call takes part in, between stages that do not wait and are not done. -/
theorem Inv.update (h : Inv s g) {s' : State α} {i : ℕ} {st : Stage}
    (hcreated : s'.created = s.created) (hkey : s'.key = s.key)
    (hqueues : s'.serialQueues = s.serialQueues) (htail : s'.tail = s.tail) (hi : i < s.created)
    (hview : ∀ k ≠ i, s'.view k = s.view k) (hplaced : Placed (s'.view i) st i)
    (hwaiting : g i ≠ .waiting ∧ st ≠ .waiting) (hdone : g i ≠ .done ∧ st ≠ .done)
    (hordered : s'.started.Pairwise fun i j => s.key i = s.key j → i < j) :
    Inv s' (Function.update g i st) := by
  have hnext (a b : ℕ) : Next s' a b ↔ Next s a b := Next.congr hcreated hkey
  have hwait (k : ℕ) : Function.update g i st k = .waiting ↔ g k = .waiting := by
    by_cases hk : k = i
    · rw [hk, Function.update_self]
      exact iff_of_false hwaiting.2 hwaiting.1
    · rw [Function.update_of_ne hk]
  have hends (k : ℕ) : Function.update g i st k = .done ↔ g k = .done := by
    by_cases hk : k = i
    · rw [hk, Function.update_self]
      exact iff_of_false hdone.2 hdone.1
    · rw [Function.update_of_ne hk]
  refine ⟨fun k hk => ?_, fun k hk => ?_, ⟨?_, ?_, ?_, ?_, ?_, ?_⟩, ?_⟩
  · by_cases hki : k = i
    · rw [hki, Function.update_self]
      exact hplaced
    · rw [hview k hki, Function.update_of_ne hki]
      exact h.placed k (hcreated ▸ hk)
  · rw [hcreated] at hk
    rw [hview k (by omega)]
    exact h.blank k hk
  · rw [hqueues, hcreated, hkey]
    exact h.chained.queue
  · rw [hqueues, hcreated, hkey]
    exact h.chained.queueNone
  · intro j hj hfirst
    rw [Ne, hwait]
    rw [hcreated] at hj
    rw [hkey] at hfirst
    exact h.chained.first j hj hfirst
  · intro a b hab
    rw [hwait, Ne, hends]
    exact h.chained.waits a b ((hnext a b).mp hab)
  · intro a b hab hne
    rw [Ne, hends] at hne
    rw [htail]
    exact h.chained.reaction a b ((hnext a b).mp hab) hne
  · intro a ha hlast
    rw [hcreated] at ha
    rw [htail]
    exact h.chained.last a ha fun j hj => hlast j ((hnext a j).mpr hj)
  · rw [hkey]
    exact hordered

/-! ### One call -/

section

variable {v : View α} {i : ℕ}

theorem Placed.run (h : Placed v .ready i) :
    Placed { v with active := True, started := True, jobs := [] } .active i where
  active := by simp
  started := by simp [Stage.Started]
  ownOpen := by simp
  ownSettled := by simp
  ownReactions := by simpa using h.ownReactions
  nextOpen := h.nextOpen
  nextClosed := False.elim
  tailOpen := by simpa using h.tailOpen
  jobs := rfl
  adopt := by simp

theorem Placed.back (h : Placed v .active i) :
    Placed { v with active := False, jobs := [.follow i] } .returned i where
  active := by simp
  started := h.started
  ownOpen := by simp
  ownSettled := by simp
  ownReactions := by simpa using h.ownReactions
  nextOpen := h.nextOpen
  nextClosed := False.elim
  tailOpen := by simpa using h.tailOpen
  jobs := rfl
  adopt := by simp

theorem Placed.throw (h : Placed v .active i) (o : Outcome α) :
    Placed { v with
      active := False
      own := ⟨some o, []⟩
      next := ⟨some o, []⟩
      jobs := [.react (.swallow i) o] } .settled i where
  active := by simp
  started := h.started
  ownOpen := by simp
  ownSettled := by simp
  ownReactions := by simp
  nextOpen := fun hopen => absurd trivial hopen
  nextClosed := fun _ => rfl
  tailOpen := by simpa using h.tailOpen
  jobs := rfl
  adopt := by simp

/-- The promise of a work settles before anything is attached to it. -/
theorem Placed.settle_early {st : Stage} (h : Placed v st i) (hst : st = .active ∨ st = .returned)
    (o : Outcome α) : Placed { v with own := ⟨some o, []⟩ } st i := by
  have hopen : ¬st.Closed := by rcases hst with rfl | rfl <;> exact id
  refine ⟨h.active, h.started, ?_, ?_, ?_, h.nextOpen, fun hclosed => absurd hclosed hopen,
    h.tailOpen, h.jobs, ?_⟩
  · rcases hst with rfl | rfl <;> simp
  · simp
  · rcases hst with rfl | rfl <;> simp
  · intro o' ho'
    have hmem := List.mem_map_of_mem (f := Job.stage) ho'
    rw [h.jobs] at hmem
    rcases hst with rfl | rfl <;> simp [Stage.queued, Job.stage] at hmem

theorem Placed.settle (h : Placed v .pending i) (o : Outcome α) :
    Placed { v with own := ⟨some o, []⟩, jobs := [.react (.adopt i) o] } .adopting i where
  active := by simpa using h.active
  started := h.started
  ownOpen := by simp
  ownSettled := by simp
  ownReactions := by simp
  nextOpen := h.nextOpen
  nextClosed := False.elim
  tailOpen := by simpa using h.tailOpen
  jobs := rfl
  adopt := by simp

/-- The promise that was returned has not settled. -/
theorem Placed.follow (h : Placed v .returned i) :
    Placed { v with own := ⟨none, [.adopt i]⟩, jobs := [] } .pending i where
  active := by simpa using h.active
  started := h.started
  ownOpen := by simp
  ownSettled := by simp
  ownReactions := by simp
  nextOpen := h.nextOpen
  nextClosed := False.elim
  tailOpen := by simpa using h.tailOpen
  jobs := rfl
  adopt := by simp

/-- The promise that was returned has settled already. -/
theorem Placed.follow_settled (h : Placed v .returned i) {o : Outcome α}
    (hown : v.own.outcome = some o) :
    Placed { v with jobs := [.react (.adopt i) o] } .adopting i where
  active := by simpa using h.active
  started := h.started
  ownOpen := by simp
  ownSettled := by simp [hown]
  ownReactions := by simpa using h.ownReactions
  nextOpen := h.nextOpen
  nextClosed := False.elim
  tailOpen := by simpa using h.tailOpen
  jobs := rfl
  adopt := by simp [hown]

theorem Placed.adopted (h : Placed v .adopting i) {o : Outcome α}
    (hown : v.own.outcome = some o) :
    Placed { v with next := ⟨some o, []⟩, jobs := [.react (.swallow i) o] } .settled i where
  active := by simpa using h.active
  started := h.started
  ownOpen := by simp
  ownSettled := by simp [hown]
  ownReactions := by simpa using h.ownReactions
  nextOpen := fun hopen => absurd trivial hopen
  nextClosed := fun _ => hown.symm
  tailOpen := by simpa using h.tailOpen
  jobs := rfl
  adopt := by simp

theorem Placed.swallowed (h : Placed v .settled i) (o : Outcome α) :
    Placed { v with tail := ⟨some o, []⟩, jobs := [] } .done i where
  active := by simpa using h.active
  started := h.started
  ownOpen := by simp
  ownSettled := by simpa using h.ownSettled
  ownReactions := by simpa using h.ownReactions
  nextOpen := fun hopen => absurd trivial hopen
  nextClosed := h.nextClosed
  tailOpen := by simp
  jobs := rfl
  adopt := by simp

/-- The call before is done. -/
theorem Placed.woken (h : Placed v .waiting i) (o : Outcome α) :
    Placed { v with jobs := [.react (.run i) o] } .ready i where
  active := by simpa using h.active
  started := h.started
  ownOpen := by simpa using h.ownOpen
  ownSettled := by simp
  ownReactions := by simpa using h.ownReactions
  nextOpen := h.nextOpen
  nextClosed := False.elim
  tailOpen := by simpa using h.tailOpen
  jobs := rfl
  adopt := by simp

/-- A reaction is attached to the promise in the queue. -/
theorem Placed.attached {st : Stage} (h : Placed v st i) (hst : st ≠ .done)
    (reactions : List Reaction) : Placed { v with tail := ⟨none, reactions⟩ } st i :=
  ⟨h.active, h.started, h.ownOpen, h.ownSettled, h.ownReactions, h.nextOpen, h.nextClosed,
    by simpa using hst, h.jobs, h.adopt⟩

variable (i)

theorem placed_waiting : Placed (α := α)
    ⟨False, False, .pending, ⟨none, [.swallow i]⟩, .pending, []⟩ .waiting i where
  active := by simp
  started := by simp [Stage.Started]
  ownOpen := fun _ => rfl
  ownSettled := by simp
  ownReactions := rfl
  nextOpen := fun _ => rfl
  nextClosed := False.elim
  tailOpen := by simp [Promise.pending]
  jobs := rfl
  adopt := by simp

end

/-! ### The steps -/

theorem Inv.created_of_started (h : Inv s g) {i : ℕ} (hi : i ∈ s.started) : i < s.created := by
  by_contra hge
  have hview : i ∈ s.started ↔ False := by
    rw [← eq_iff_iff]
    exact congrArg View.started (h.blank i (not_lt.mp hge))
  exact hview.mp hi

theorem Inv.created_of_active (h : Inv s g) {i : ℕ} (hi : s.active = some i) : i < s.created := by
  by_contra hge
  have hview : s.active = some i ↔ False := by
    rw [← eq_iff_iff]
    exact congrArg View.active (h.blank i (not_lt.mp hge))
  exact hview.mp hi

theorem Inv.started_iff (h : Inv s g) {i : ℕ} (hi : i < s.created) :
    i ∈ s.started ↔ (g i).Started :=
  (h.placed i hi).started

theorem Inv.jobs_eq_nil (h : Inv s g) {i : ℕ} (hi : i < s.created) (hstage : (g i).queued = []) :
    s.jobs.filter (fun j => j.call = i) = [] :=
  List.map_eq_nil_iff.mp ((h.placed i hi).jobs.trans hstage)

theorem Inv.run (h : Inv s g) {i : ℕ} {o : Outcome α} {jobs : List (Job α)}
    (hactive : s.active = none) (hjobs : s.jobs = .react (.run i) o :: jobs) :
    g i = .ready ∧
      Inv ({ s with jobs := jobs }.runJob (.react (.run i) o)) (Function.update g i .active) := by
  obtain ⟨hi, hstage, hrest⟩ := h.head hjobs
  replace hi : i < s.created := hi
  replace hstage : g i = .ready := hstage
  replace hrest : jobs.filter (fun k => k.call = i) = [] := hrest
  have hp := h.placed i hi
  rw [hstage] at hp
  refine ⟨hstage, h.update rfl rfl rfl rfl hi ?_ ?_ ?_ ?_ ?_⟩
  · intro k hk
    simp [State.view, State.runJob, hjobs, hactive, hk, Ne.symm hk]
  · have hview : ({ s with jobs := jobs }.runJob (.react (.run i) o)).view i =
        { s.view i with active := True, started := True, jobs := [] } := by
      simp [State.view, State.runJob, hrest]
    rw [hview]
    exact hp.run
  · simp [hstage]
  · simp [hstage]
  · -- a later call of the key would have started only after this one was done
    refine List.pairwise_append.mpr ⟨h.ordered, List.pairwise_singleton _ _, fun a ha b hb => ?_⟩
    obtain rfl := List.mem_singleton.mp hb
    intro hkey
    have hcreated := h.created_of_started ha
    have hstarted := (h.started_iff hcreated).mp ha
    by_contra hge
    rcases (not_lt.mp hge).eq_or_lt with rfl | hlt
    · rw [hstage] at hstarted
      exact hstarted
    · have hdone := h.done_of_lt hcreated hlt hkey.symm fun hw => by
        rw [hw] at hstarted
        exact hstarted
      rw [hstage] at hdone
      cases hdone

theorem Inv.back (h : Inv s g) {i : ℕ} (hactive : s.active = some i) :
    g i = .active ∧ Inv { s with active := none, jobs := s.jobs ++ [.follow i] }
      (Function.update g i .returned) := by
  have hi := h.created_of_active hactive
  have hp := h.placed i hi
  have hstage : g i = .active := hp.active.mp hactive
  have hrest := h.jobs_eq_nil hi (by rw [hstage]; rfl)
  rw [hstage] at hp
  refine ⟨hstage, h.update rfl rfl rfl rfl hi ?_ ?_ ?_ ?_ h.ordered⟩
  · intro k hk
    simp [State.view, hactive, Ne.symm hk]
  · have hview : State.view { s with active := none, jobs := s.jobs ++ [.follow i] } i =
        { s.view i with active := False, jobs := [.follow i] } := by
      simp [State.view, hrest]
    rw [hview]
    exact hp.back
  · simp [hstage]
  · simp [hstage]

theorem Inv.throw (h : Inv s g) {i : ℕ} (o : Outcome α) (hactive : s.active = some i)
    (hown : (s.own i).outcome = none) :
    g i = .active ∧ Inv ({ s.settleOwn i o with active := none }.settleNext i o)
      (Function.update g i .settled) := by
  have hi := h.created_of_active hactive
  have hp := h.placed i hi
  have hstage : g i = .active := hp.active.mp hactive
  have hrest := h.jobs_eq_nil hi (by rw [hstage]; rfl)
  rw [hstage] at hp
  have hreactions : (s.own i).reactions = [] := hp.ownReactions
  have hnext : s.next i = ⟨none, [.swallow i]⟩ := hp.nextOpen id
  have howned : (s.own i).settle o = (⟨some o, []⟩, []) := by
    rw [Promise.settle_of_open hown, hreactions, List.map_nil]
  have hanswered : (s.next i).settle o = (⟨some o, []⟩, [.react (.swallow i) o]) := by
    rw [hnext]
    rfl
  refine ⟨hstage, h.update rfl rfl rfl rfl hi ?_ ?_ ?_ ?_ h.ordered⟩
  · intro k hk
    simp [State.view, State.settleOwn, State.settleNext, hactive, howned, hanswered, Ne.symm hk, hk]
  · have hview : ({ s.settleOwn i o with active := none }.settleNext i o).view i =
        { s.view i with
          active := False
          own := ⟨some o, []⟩
          next := ⟨some o, []⟩
          jobs := [.react (.swallow i) o] } := by
      simp [State.view, State.settleOwn, State.settleNext, howned, hanswered, hrest]
    rw [hview]
    exact hp.throw o
  · simp [hstage]
  · simp [hstage]

/-- The stages of a work that has been started and has not settled. -/
theorem Inv.running_stage (h : Inv s g) {i : ℕ} (hrun : s.Running i) :
    g i = .active ∨ g i = .returned ∨ g i = .pending := by
  have hi := h.created_of_started hrun.1
  have hstarted := (h.started_iff hi).mp hrun.1
  have hsettled := mt (h.placed i hi).ownSettled (not_not.mpr hrun.2)
  cases hst : g i <;> simp [hst, Stage.Started] at hstarted hsettled ⊢

theorem Inv.settle (h : Inv s g) {i : ℕ} (o : Outcome α) (hrun : s.Running i) :
    ∃ st, st.remaining = (g i).remaining ∧ Inv (s.settleOwn i o) (Function.update g i st) := by
  have hi := h.created_of_started hrun.1
  have hp := h.placed i hi
  have hown := Promise.settle_of_open hrun.2 o
  have hreactions : (s.own i).reactions = if g i = .pending then [.adopt i] else [] :=
    hp.ownReactions
  rw [hreactions] at hown
  by_cases hpending : g i = .pending
  · have hrest := h.jobs_eq_nil hi (by rw [hpending]; rfl)
    rw [if_pos hpending, List.map_singleton] at hown
    rw [hpending] at hp
    refine ⟨.adopting, by rw [hpending]; rfl, h.update rfl rfl rfl rfl hi ?_ ?_ ?_ ?_ h.ordered⟩
    · intro k hk
      simp [State.view, State.settleOwn, hown, Ne.symm hk, hk]
    · have hview : (s.settleOwn i o).view i =
          { s.view i with own := ⟨some o, []⟩, jobs := [.react (.adopt i) o] } := by
        simp [State.view, State.settleOwn, hown, hrest]
      rw [hview]
      exact hp.settle o
    · simp [hpending]
    · simp [hpending]
  · have hearly : g i = .active ∨ g i = .returned := by
      rcases h.running_stage hrun with hst | hst | hst
      · exact Or.inl hst
      · exact Or.inr hst
      · exact absurd hst hpending
    rw [if_neg hpending, List.map_nil] at hown
    refine ⟨g i, rfl, h.update rfl rfl rfl rfl hi ?_ ?_ ?_ ?_ h.ordered⟩
    · intro k hk
      simp [State.view, State.settleOwn, hown, hk]
    · have hview : (s.settleOwn i o).view i = { s.view i with own := ⟨some o, []⟩ } := by
        simp [State.view, State.settleOwn, hown]
      rw [hview]
      exact hp.settle_early hearly o
    · rcases hearly with hst | hst <;> simp [hst]
    · rcases hearly with hst | hst <;> simp [hst]

theorem Inv.follow (h : Inv s g) {i : ℕ} {jobs : List (Job α)} (hjobs : s.jobs = .follow i :: jobs) :
    ∃ st, st.remaining < (g i).remaining ∧
      Inv ({ s with jobs := jobs }.runJob (.follow i)) (Function.update g i st) := by
  obtain ⟨hi, hstage, hrest⟩ := h.head hjobs
  replace hi : i < s.created := hi
  replace hstage : g i = .returned := hstage
  replace hrest : jobs.filter (fun k => k.call = i) = [] := hrest
  have hp := h.placed i hi
  rw [hstage] at hp ⊢
  have hreactions : (s.own i).reactions = [] := hp.ownReactions
  cases hown : (s.own i).outcome with
  | none =>
      have hreact := Promise.react_of_open hown (.adopt i)
      rw [hreactions, List.nil_append] at hreact
      refine ⟨.pending, by decide, h.update rfl rfl rfl rfl hi ?_ ?_ ?_ ?_ h.ordered⟩
      · intro k hk
        simp [State.view, State.runJob, State.reactOwn, hreact, hjobs, hk, Ne.symm hk]
      · have hview : ({ s with jobs := jobs }.runJob (.follow i)).view i =
            { s.view i with own := ⟨none, [.adopt i]⟩, jobs := [] } := by
          simp [State.view, State.runJob, State.reactOwn, hreact, hrest]
        rw [hview]
        exact hp.follow
      · simp [hstage]
      · simp [hstage]
  | some o =>
      have hreact := Promise.react_of_settled hown (.adopt i)
      refine ⟨.adopting, by decide, h.update rfl rfl rfl rfl hi ?_ ?_ ?_ ?_ h.ordered⟩
      · intro k hk
        simp [State.view, State.runJob, State.reactOwn, hreact, hjobs, Ne.symm hk]
      · have hview : ({ s with jobs := jobs }.runJob (.follow i)).view i =
            { s.view i with jobs := [.react (.adopt i) o] } := by
          simp [State.view, State.runJob, State.reactOwn, hreact, hrest]
        rw [hview]
        exact hp.follow_settled hown
      · simp [hstage]
      · simp [hstage]

theorem Inv.adopt (h : Inv s g) {i : ℕ} {o : Outcome α} {jobs : List (Job α)}
    (hjobs : s.jobs = .react (.adopt i) o :: jobs) : g i = .adopting ∧
      Inv ({ s with jobs := jobs }.runJob (.react (.adopt i) o)) (Function.update g i .settled) := by
  obtain ⟨hi, hstage, hrest⟩ := h.head hjobs
  replace hi : i < s.created := hi
  replace hstage : g i = .adopting := hstage
  replace hrest : jobs.filter (fun k => k.call = i) = [] := hrest
  have hp := h.placed i hi
  have hown : (s.own i).outcome = some o := by
    refine hp.adopt o ?_
    rw [State.view, hjobs]
    exact List.mem_filter.mpr ⟨List.mem_cons_self, by simp⟩
  rw [hstage] at hp
  have hnext : s.next i = ⟨none, [.swallow i]⟩ := hp.nextOpen id
  have hanswered : (s.next i).settle o = (⟨some o, []⟩, [.react (.swallow i) o]) := by
    rw [hnext]
    rfl
  refine ⟨hstage, h.update rfl rfl rfl rfl hi ?_ ?_ ?_ ?_ h.ordered⟩
  · intro k hk
    simp [State.view, State.runJob, State.settleNext, hanswered, hjobs, hk, Ne.symm hk]
  · have hview : ({ s with jobs := jobs }.runJob (.react (.adopt i) o)).view i =
        { s.view i with next := ⟨some o, []⟩, jobs := [.react (.swallow i) o] } := by
      simp [State.view, State.runJob, State.settleNext, hanswered, hrest]
    rw [hview]
    exact hp.adopted hown
  · simp [hstage]
  · simp [hstage]

open Classical in
/-- A call is done, and the next one of its key no longer waits. -/
noncomputable def handOn (s : State α) (g : ℕ → Stage) (i k : ℕ) : Stage :=
  if k = i then .done else if Next s i k then .ready else g k

theorem handOn_self (i : ℕ) : handOn s g i i = .done := if_pos rfl

theorem handOn_next {i k : ℕ} (h : Next s i k) : handOn s g i k = .ready := by
  rw [handOn, if_neg h.lt.ne', if_pos h]

theorem handOn_other {i k : ℕ} (hk : k ≠ i) (h : ¬Next s i k) : handOn s g i k = g k := by
  rw [handOn, if_neg hk, if_neg h]

open Classical in
/-- The microtasks that the tail of a call queues when it settles. -/
theorem Inv.woken (h : Inv s g) {i : ℕ} (hi : i < s.created) (hstage : g i ≠ .done)
    (v : Outcome α) (k : ℕ) :
    ((s.tail i).reactions.map fun r => Job.react r v).filter (fun j => j.call = k) =
      if Next s i k then [.react (.run k) v] else [] := by
  by_cases hlast : ∃ j, Next s i j
  swap
  · rw [h.chained.last i hi (not_exists.mp hlast), if_neg (not_exists.mp hlast k)]
    rfl
  · obtain ⟨j, hj⟩ := hlast
    rw [h.chained.reaction i j hj hstage, List.map_singleton]
    by_cases hk : k = j
    · rw [hk, if_pos hj, List.filter_cons_of_pos (by simp)]
      rfl
    · rw [if_neg fun hnext => hk (hnext.right_unique hj),
        List.filter_cons_of_neg (by simp [Ne.symm hk])]
      rfl

theorem Inv.swallow (h : Inv s g) {i : ℕ} {o : Outcome α} (v : Outcome α) {jobs : List (Job α)}
    (hjobs : s.jobs = .react (.swallow i) o :: jobs) :
    i < s.created ∧ g i = .settled ∧
      Inv ({ s with jobs := jobs }.settleTail i v) (handOn s g i) := by
  obtain ⟨hi, hstage, hrest⟩ := h.head hjobs
  replace hi : i < s.created := hi
  replace hstage : g i = .settled := hstage
  replace hrest : jobs.filter (fun k => k.call = i) = [] := hrest
  have hp := h.placed i hi
  have hopen : g i ≠ .done := by rw [hstage]; decide
  have hsettle := Promise.settle_of_open (hp.tailOpen.mpr hopen) v
  have hwoken := h.woken hi hopen v
  rw [State.view] at hsettle
  rw [hstage] at hp
  have hjobs' (k : ℕ) (hk : k ≠ i) :
      s.jobs.filter (fun j => j.call = k) = jobs.filter fun j => j.call = k := by
    rw [hjobs, List.filter_cons_of_neg (by simp [Ne.symm hk])]
  have hself : ({ s with jobs := jobs }.settleTail i v).view i =
      { s.view i with tail := ⟨some v, []⟩, jobs := [] } := by
    have hnot : ¬Next s i i := fun hnext => hnext.lt.ne rfl
    simp only [State.view, State.settleTail, hsettle, List.filter_append, hrest, hwoken, if_neg hnot,
      Function.update_self, List.append_nil]
  have hnext' {k : ℕ} (hk : Next s i k) : ({ s with jobs := jobs }.settleTail i v).view k =
      { s.view k with jobs := [.react (.run k) v] } := by
    have hwaiting : g k = .waiting := (h.chained.waits i k hk).mpr hopen
    have hnone := h.jobs_eq_nil hk.created (by rw [hwaiting]; rfl)
    rw [hjobs' k hk.lt.ne'] at hnone
    simp only [State.view, State.settleTail, hsettle, List.filter_append, hnone, hwoken, if_pos hk,
      Function.update_of_ne hk.lt.ne', List.nil_append]
  have hother {k : ℕ} (hki : k ≠ i) (hk : ¬Next s i k) :
      ({ s with jobs := jobs }.settleTail i v).view k = s.view k := by
    simp only [State.view, State.settleTail, hsettle, List.filter_append, hwoken, if_neg hk,
      hjobs' k hki, Function.update_of_ne hki, List.append_nil]
  have hnext (a b : ℕ) : Next ({ s with jobs := jobs }.settleTail i v) a b ↔ Next s a b :=
    by apply Next.congr <;> rfl
  refine ⟨hi, hstage, fun k hk => ?_, fun k hk => ?_,
    ⟨h.chained.queue, h.chained.queueNone, ?_, ?_, ?_, ?_⟩, h.ordered⟩
  · by_cases hki : k = i
    · rw [hki, hself, handOn_self]
      exact hp.swallowed v
    · by_cases hk' : Next s i k
      · have hwaiting := h.placed k hk'.created
        rw [(h.chained.waits i k hk').mpr hopen] at hwaiting
        rw [hnext' hk', handOn_next hk']
        exact hwaiting.woken v
      · rw [hother hki hk', handOn_other hki hk']
        exact h.placed k hk
  · rw [hother (by rintro rfl; exact hk.not_gt hi) fun hk' => hk.not_gt hk'.created]
    exact h.blank k hk
  · intro j hj hfirst
    by_cases hji : j = i
    · rw [hji, handOn_self]
      decide
    · rw [handOn_other (s := s) hji fun hj' => hfirst i hj'.lt hj'.key]
      exact h.chained.first j hj hfirst
  · intro a b hab
    replace hab := (hnext a b).mp hab
    have hwait := h.chained.waits a b hab
    by_cases hai : a = i
    · rw [hai] at hab ⊢
      rw [handOn_next hab, handOn_self]
      decide
    · have hib : ¬Next s i b := fun hib => hai (hab.left_unique hib)
      by_cases hbi : b = i
      · -- the call before is done already
        have hdone : g a = .done := by
          by_contra hne
          rw [hbi, hstage] at hwait
          cases hwait.mpr hne
        have hnot : ¬Next s i a := fun hia => (hia.lt.trans hab.lt).ne' hbi
        rw [hbi, handOn_self, handOn_other hai hnot, hdone]
        decide
      · rw [handOn_other hbi hib]
        by_cases hia : Next s i a
        · rw [handOn_next hia]
          rw [(h.chained.waits i a hia).mpr hopen] at hwait
          exact iff_of_true (hwait.mpr (by decide)) (by decide)
        · rw [handOn_other hai hia]
          exact hwait
  · intro a b hab hne
    have hai : a ≠ i := by
      rintro rfl
      exact hne (handOn_self _)
    have hne' : g a ≠ .done := by
      by_cases hia : Next s i a
      · rw [(h.chained.waits i a hia).mpr hopen]
        decide
      · rwa [handOn_other hai hia] at hne
    simp only [State.settleTail, Function.update_of_ne hai]
    exact h.chained.reaction a b ((hnext a b).mp hab) hne'
  · intro a ha hnone
    by_cases hai : a = i
    · simp only [State.settleTail, hai, Function.update_self, hsettle]
    · simp only [State.settleTail, Function.update_of_ne hai]
      exact h.chained.last a ha fun j hj => hnone j ((hnext a j).mpr hj)

/-! ### A new call -/

/-- The new call is the next one of the call that its key holds. -/
theorem Inv.next_concat (h : Inv s g) {s' : State α} {key : Text}
    (hcreated : s'.created = s.created + 1)
    (hkey : s'.key = Function.update s.key s.created key) {a b : ℕ} :
    Next s' a b ↔ Next s a b ∨ b = s.created ∧ s.serialQueues key = some a := by
  have hold {k : ℕ} (hk : k < s.created) : s'.key k = s.key k := by
    rw [hkey, Function.update_of_ne hk.ne]
  have hnew : s'.key s.created = key := by rw [hkey, Function.update_self]
  constructor
  · rintro ⟨hlt, hb, hab, hbetween⟩
    rw [hcreated] at hb
    rcases (Nat.lt_succ_iff.mp hb).lt_or_eq with hb | rfl
    · refine Or.inl ⟨hlt, hb, ?_, fun k hak hkb => ?_⟩
      · rw [← hold hb, ← hab, hold (hlt.trans hb)]
      · rw [← hold (hkb.trans hb), ← hold (hlt.trans hb)]
        exact hbetween k hak hkb
    · rw [hold hlt, hnew] at hab
      refine Or.inr ⟨rfl, ?_⟩
      cases hqueue : s.serialQueues key with
      | none => exact absurd hab (h.chained.queueNone key hqueue a hlt)
      | some p =>
          obtain ⟨hp, hpkey, hlast⟩ := h.chained.queue key p hqueue
          rcases (hlast a hlt hab).eq_or_lt with rfl | hap
          · rfl
          · refine absurd ?_ (hbetween p hap hp)
            rw [hold hp, hold hlt, hpkey, hab]
  · rintro (⟨hlt, hb, hab, hbetween⟩ | ⟨rfl, hqueue⟩)
    · refine ⟨hlt, by omega, ?_, fun k hak hkb => ?_⟩
      · rw [hold hb, hold (hlt.trans hb), hab]
      · rw [hold (hkb.trans hb), hold (hlt.trans hb)]
        exact hbetween k hak hkb
    · obtain ⟨ha, hakey, hlast⟩ := h.chained.queue key a hqueue
      refine ⟨ha, by omega, ?_, fun k hak hk hkkey => ?_⟩
      · rw [hold ha, hnew, hakey]
      · rw [hold hk, hold ha, hakey] at hkkey
        exact hak.not_ge (hlast k hk hkkey)

/-- What a new call needs of the promises and microtasks, whether it waits or is ready. -/
theorem Inv.enqueue (h : Inv s g) {s' : State α} {key : Text} {st : Stage}
    (hcreated : s'.created = s.created + 1)
    (hkey : s'.key = Function.update s.key s.created key)
    (hqueues : s'.serialQueues = Function.update s.serialQueues key (some s.created))
    (hstarted : s'.started = s.started)
    (hwaits : st = .waiting ↔ ∃ p, s.serialQueues key = some p ∧ g p ≠ .done)
    (hplaced : ∀ k < s.created, Placed (s'.view k) (g k) k)
    (hself : Placed (s'.view s.created) st s.created)
    (hblank : ∀ k, s.created < k → s'.view k = s.view k)
    (hreaction : ∀ p, s.serialQueues key = some p → g p ≠ .done →
      (s'.tail p).reactions = [.run s.created])
    (htail : ∀ k, s.serialQueues key ≠ some k → (s'.tail k).reactions = (s.tail k).reactions) :
    Inv s' (Function.update g s.created st) := by
  have hold {k : ℕ} (hk : k < s.created) : s'.key k = s.key k := by
    rw [hkey, Function.update_of_ne hk.ne]
  have hnew : s'.key s.created = key := by rw [hkey, Function.update_self]
  have hstage {k : ℕ} (hk : k < s.created) : Function.update g s.created st k = g k :=
    Function.update_of_ne hk.ne _ _
  have hnext (a b : ℕ) := h.next_concat hcreated hkey (a := a) (b := b)
  refine ⟨fun k hk => ?_, fun k hk => ?_, ⟨?_, ?_, ?_, ?_, ?_, ?_⟩, ?_⟩
  · rw [hcreated] at hk
    rcases (Nat.lt_succ_iff.mp hk).lt_or_eq with hk | rfl
    · rw [hstage hk]
      exact hplaced k hk
    · rw [Function.update_self]
      exact hself
  · rw [hblank k (by omega)]
    exact h.blank k (by omega)
  · intro k i hqueue
    rw [hqueues] at hqueue
    by_cases hk : k = key
    · rw [hk, Function.update_self] at hqueue
      obtain rfl := Option.some.inj hqueue
      exact ⟨by omega, by rw [hnew, hk], fun j hj _ => by omega⟩
    · rw [Function.update_of_ne hk] at hqueue
      obtain ⟨hi, hikey, hlast⟩ := h.chained.queue k i hqueue
      refine ⟨by omega, by rw [hold hi, hikey], fun j hj hjkey => ?_⟩
      rw [hcreated] at hj
      rcases (Nat.lt_succ_iff.mp hj).lt_or_eq with hj | rfl
      · rw [hold hj] at hjkey
        exact hlast j hj hjkey
      · rw [hnew] at hjkey
        exact absurd hjkey.symm hk
  · intro k hqueue j hj hjkey
    rw [hqueues] at hqueue
    by_cases hk : k = key
    · rw [hk, Function.update_self] at hqueue
      cases hqueue
    · rw [Function.update_of_ne hk] at hqueue
      rw [hcreated] at hj
      rcases (Nat.lt_succ_iff.mp hj).lt_or_eq with hj | rfl
      · rw [hold hj] at hjkey
        exact h.chained.queueNone k hqueue j hj hjkey
      · rw [hnew] at hjkey
        exact hk hjkey.symm
  · intro j hj hfirst
    rw [hcreated] at hj
    rcases (Nat.lt_succ_iff.mp hj).lt_or_eq with hj | rfl
    · rw [hstage hj]
      refine h.chained.first j hj fun i hi => ?_
      rw [← hold hj, ← hold (hi.trans hj)]
      exact hfirst i hi
    · rw [Function.update_self, Ne, hwaits]
      rintro ⟨p, hqueue, _⟩
      obtain ⟨hp, hpkey, _⟩ := h.chained.queue key p hqueue
      exact hfirst p hp (by rw [hold hp, hnew, hpkey])
  · intro a b hab
    rcases (hnext a b).mp hab with hab | ⟨rfl, hqueue⟩
    · rw [hstage hab.created, hstage (hab.lt.trans hab.created)]
      exact h.chained.waits a b hab
    · rw [Function.update_self, hstage (h.chained.queue key a hqueue).1, hwaits, hqueue]
      exact ⟨fun ⟨p, hp, hne⟩ => Option.some.inj hp ▸ hne, fun hne => ⟨a, rfl, hne⟩⟩
  · intro a b hab hne
    rcases (hnext a b).mp hab with hab' | ⟨rfl, hqueue⟩
    · have hlast : s.serialQueues key ≠ some a := by
        intro hqueue
        obtain ⟨ha, hakey, hlast⟩ := h.chained.queue key a hqueue
        exact hab'.lt.not_ge (hlast b hab'.created (hab'.key ▸ hakey))
      rw [hstage (hab'.lt.trans hab'.created)] at hne
      rw [htail a hlast]
      exact h.chained.reaction a b hab' hne
    · rw [hstage (h.chained.queue key a hqueue).1] at hne
      exact hreaction a hqueue hne
  · intro a ha hnone
    have hlast : s.serialQueues key ≠ some a := fun hqueue =>
      hnone s.created ((hnext a s.created).mpr (Or.inr ⟨rfl, hqueue⟩))
    rw [htail a hlast]
    rw [hcreated] at ha
    rcases (Nat.lt_succ_iff.mp ha).lt_or_eq with ha | rfl
    · exact h.chained.last a ha fun j hj => hnone j ((hnext a j).mpr (Or.inl hj))
    · exact congrArg (fun v => v.tail.reactions) (h.blank s.created le_rfl)
  · rw [hstarted]
    refine h.ordered.imp_of_mem fun ha hb hab => ?_
    rw [hold (h.created_of_started ha), hold (h.created_of_started hb)]
    exact hab

/-- The state after a call whose work need not wait. -/
def State.readied (s : State α) (key : Text) (o : Outcome α) : State α :=
  { s with
    created := s.created + 1
    key := Function.update s.key s.created key
    next := Function.update s.next s.created ⟨none, [.swallow s.created]⟩
    serialQueues := Function.update s.serialQueues key (some s.created)
    jobs := s.jobs ++ [.react (.run s.created) o] }

theorem Inv.readied (h : Inv s g) {key : Text} (o : Outcome α)
    (hdone : ∀ p, s.serialQueues key = some p → g p = .done) :
    Inv (s.readied key o) (Function.update g s.created .ready) := by
  have hblank := h.blank s.created le_rfl
  refine h.enqueue rfl rfl rfl rfl ?_ ?_ ?_ ?_ ?_ fun _ _ => rfl
  · refine iff_of_false (by decide) ?_
    rintro ⟨p, hp, hne⟩
    exact hne (hdone p hp)
  · intro k hk
    have hview : (s.readied key o).view k = s.view k := by
      simp [State.view, State.readied, hk.ne, hk.ne']
    rw [hview]
    exact h.placed k hk
  · have hview : (s.readied key o).view s.created =
        { s.view s.created with
          next := ⟨none, [.swallow s.created]⟩
          jobs := [.react (.run s.created) o] } := by
      have hjobs : s.jobs.filter (fun j => j.call = s.created) = [] := congrArg View.jobs hblank
      simp [State.view, State.readied, hjobs]
    rw [hview, hblank]
    exact (placed_waiting s.created).woken o
  · intro k hk
    simp [State.view, State.readied, hk.ne, hk.ne']
  · exact fun p hp hne => absurd (hdone p hp) hne

/-- The state after a call whose work waits for that of `p`. -/
def State.queuedBehind (s : State α) (key : Text) (p : ℕ) : State α :=
  { s with
    created := s.created + 1
    key := Function.update s.key s.created key
    next := Function.update s.next s.created ⟨none, [.swallow s.created]⟩
    tail := Function.update s.tail p ⟨none, [.run s.created]⟩
    serialQueues := Function.update s.serialQueues key (some s.created) }

theorem Inv.queuedBehind (h : Inv s g) {key : Text} {p : ℕ} (hqueue : s.serialQueues key = some p)
    (hopen : g p ≠ .done) :
    Inv (s.queuedBehind key p) (Function.update g s.created .waiting) := by
  have hblank := h.blank s.created le_rfl
  have hp := (h.chained.queue key p hqueue).1
  refine h.enqueue rfl rfl rfl rfl ?_ ?_ ?_ ?_ ?_ ?_
  · exact iff_of_true rfl ⟨p, hqueue, hopen⟩
  · intro k hk
    by_cases hkp : k = p
    · have hview : (s.queuedBehind key p).view k =
          { s.view k with tail := ⟨none, [.run s.created]⟩ } := by
        simp [State.view, State.queuedBehind, hkp, hp.ne]
      rw [hview, hkp]
      exact (h.placed p hp).attached hopen _
    · have hview : (s.queuedBehind key p).view k = s.view k := by
        simp [State.view, State.queuedBehind, hk.ne, hkp]
      rw [hview]
      exact h.placed k hk
  · have hview : (s.queuedBehind key p).view s.created =
        { s.view s.created with next := ⟨none, [.swallow s.created]⟩ } := by
      simp [State.view, State.queuedBehind, hp.ne']
    rw [hview, hblank]
    exact placed_waiting s.created
  · intro k hk
    simp [State.view, State.queuedBehind, hk.ne', (hp.trans hk).ne']
  · intro q hq _
    obtain rfl := Option.some.inj (hqueue.symm.trans hq)
    simp [State.queuedBehind]
  · intro k hk
    have hkp : k ≠ p := by
      rintro rfl
      exact hk hqueue
    simp [State.queuedBehind, hkp]

theorem Inv.serialize (h : Inv s g) (key : Text) :
    ∃ st, st.remaining = 4 ∧ Inv (s.serialize key) (Function.update g s.created st) := by
  cases hqueue : s.serialQueues key with
  | none =>
      have heq : s.serialize key = s.readied key (.fulfilled none) := by
        rw [State.serialize, hqueue]
        rfl
      rw [heq]
      refine ⟨.ready, rfl, h.readied _ fun p hp => ?_⟩
      rw [hqueue] at hp
      cases hp
  | some p =>
      obtain ⟨hp, hpkey, hlast⟩ := h.chained.queue key p hqueue
      have hplaced := h.placed p hp
      cases houtcome : (s.tail p).outcome with
      | some o =>
          have heq : s.serialize key = s.readied key o := by
            rw [State.serialize, hqueue]
            simp only [State.reactTail, Promise.react_of_settled houtcome, Function.update_eq_self]
            rfl
          rw [heq]
          refine ⟨.ready, rfl, h.readied o fun q hq => ?_⟩
          obtain rfl := Option.some.inj (hqueue.symm.trans hq)
          by_contra hne
          have hnone : (s.tail p).outcome = none := hplaced.tailOpen.mpr hne
          rw [hnone] at houtcome
          cases houtcome
      | none =>
          have hreactions := h.chained.last p hp fun j hj =>
            hj.lt.not_ge (hlast j hj.created (hj.key ▸ hpkey))
          have heq : s.serialize key = s.queuedBehind key p := by
            rw [State.serialize, hqueue]
            simp only [State.reactTail, Promise.react_of_open houtcome, hreactions, List.nil_append,
              List.append_nil]
            rfl
          rw [heq]
          exact ⟨.waiting, rfl, h.queuedBehind hqueue (hplaced.tailOpen.mp houtcome)⟩

/-! ### Runs -/

/-- The microtasks that are still to come. -/
def remaining (s : State α) (g : ℕ → Stage) : ℕ :=
  ∑ i ∈ range s.created, (g i).remaining

theorem remaining_update {i : ℕ} (hi : i < s.created) (st : Stage) :
    remaining s (Function.update g i st) + (g i).remaining = remaining s g + st.remaining := by
  have hmem : i ∈ range s.created := mem_range.mpr hi
  have hrest : ∑ k ∈ (range s.created).erase i, (Function.update g i st k).remaining =
      ∑ k ∈ (range s.created).erase i, (g k).remaining := by
    refine Finset.sum_congr rfl fun k hk => ?_
    rw [Function.update_of_ne (Finset.ne_of_mem_erase hk)]
  have hnew := Finset.add_sum_erase (range s.created)
    (fun k => (Function.update g i st k).remaining) hmem
  have hold := Finset.add_sum_erase (range s.created) (fun k => (g k).remaining) hmem
  rw [Function.update_self] at hnew
  unfold remaining
  omega

theorem Inv.remaining_handOn (h : Inv s g) {i : ℕ} (hi : i < s.created) (hstage : g i = .settled) :
    remaining s (handOn s g i) + 1 = remaining s g := by
  have hsame : remaining s (handOn s g i) = remaining s (Function.update g i .done) := by
    refine Finset.sum_congr rfl fun k _ => ?_
    by_cases hki : k = i
    · rw [hki, handOn_self, Function.update_self]
    · rw [Function.update_of_ne hki]
      by_cases hk : Next s i k
      · have hwaiting : g k = .waiting := (h.chained.waits i k hk).mpr (by rw [hstage]; decide)
        rw [handOn_next hk, hwaiting]
        rfl
      · rw [handOn_other hki hk]
  have hupdate := remaining_update (g := g) hi .done
  rw [hstage] at hupdate
  rw [hsame]
  exact hupdate

def Event.isJob : Event α → Bool
  | .job => true
  | _ => false

theorem exec_job {s' : State α} (hstep : exec s .job = some s') : ∃ j jobs, s.active = none ∧
    s.jobs = j :: jobs ∧ s' = { s with jobs := jobs }.runJob j := by
  rw [exec] at hstep
  split at hstep
  · next j jobs hactive hjobs => exact ⟨j, jobs, hactive, hjobs, (Option.some.inj hstep).symm⟩
  · cases hstep

/-- A microtask brings its call nearer to the end. -/
theorem Inv.job (h : Inv s g) {s' : State α} (hstep : exec s .job = some s') :
    ∃ g', Inv s' g' ∧ s'.created = s.created ∧ remaining s' g' < remaining s g := by
  obtain ⟨j, jobs, hactive, hjobs, rfl⟩ := exec_job hstep
  have hi := (h.head hjobs).1
  rcases j with ⟨i | i | i, o⟩ | i
  · obtain ⟨hstage, hinv⟩ := h.run hactive hjobs
    have hsum := remaining_update (g := g) hi .active
    rw [Job.call_run, hstage] at hsum
    exact ⟨_, hinv, rfl, Nat.lt_of_add_lt_add_right (hsum.trans_lt (by simp [Stage.remaining]))⟩
  · obtain ⟨hstage, hinv⟩ := h.adopt hjobs
    have hsum := remaining_update (g := g) hi .settled
    rw [Job.call_adopt, hstage] at hsum
    exact ⟨_, hinv, rfl, Nat.lt_of_add_lt_add_right (hsum.trans_lt (by simp [Stage.remaining]))⟩
  · cases o with
    | fulfilled value =>
        obtain ⟨_, hstage, hinv⟩ := h.swallow (.fulfilled value) hjobs
        exact ⟨_, hinv, rfl, Nat.lt_of_succ_le (h.remaining_handOn hi hstage).le⟩
    | rejected error =>
        obtain ⟨_, hstage, hinv⟩ := h.swallow (.fulfilled none) hjobs
        exact ⟨_, hinv, rfl, Nat.lt_of_succ_le (h.remaining_handOn hi hstage).le⟩
  · obtain ⟨st, hst, hinv⟩ := h.follow hjobs
    have hsum := remaining_update (g := g) hi st
    rw [Job.call_follow] at hsum
    exact ⟨_, hinv, rfl, Nat.lt_of_add_lt_add_right
      (hsum.trans_lt (Nat.add_lt_add_left hst _))⟩

/-- No other event takes a call farther from the end. -/
theorem Inv.step (h : Inv s g) {s' : State α} {ev : Event α} (hstep : exec s ev = some s') :
    ∃ g', Inv s' g' ∧ remaining s' g' + (if ev.isJob then 1 else 0) + 4 * s.created ≤
      remaining s g + 4 * s'.created := by
  cases ev with
  | call key =>
      obtain rfl := Option.some.inj hstep
      obtain ⟨st, hst, hinv⟩ := h.serialize key
      have hcreated : (s.serialize key).created = s.created + 1 := rfl
      have hsum : remaining (s.serialize key) (Function.update g s.created st) =
          remaining s g + 4 := by
        rw [remaining, hcreated, Finset.sum_range_succ, Function.update_self, hst]
        refine congrArg (· + 4) (Finset.sum_congr rfl fun k hk => ?_)
        rw [Function.update_of_ne (mem_range.mp hk).ne]
      refine ⟨_, hinv, ?_⟩
      rw [hsum, hcreated]
      simp only [Event.isJob, Bool.false_eq_true, if_false]
      omega
  | job =>
      obtain ⟨g', hinv, hcreated, hlt⟩ := h.job hstep
      refine ⟨g', hinv, ?_⟩
      simp only [Event.isJob, if_true]
      omega
  | back =>
      rw [exec] at hstep
      split at hstep
      · next i hactive =>
          obtain rfl := Option.some.inj hstep
          obtain ⟨hstage, hinv⟩ := h.back hactive
          have hsum := remaining_update (g := g) (h.created_of_active hactive) .returned
          rw [hstage] at hsum
          exact ⟨_, hinv, Nat.add_le_add_right (Nat.add_right_cancel hsum).le _⟩
      · cases hstep
  | throw e =>
      rw [exec] at hstep
      split at hstep
      · next i hactive =>
          split at hstep
          · next hown =>
              obtain rfl := Option.some.inj hstep
              obtain ⟨hstage, hinv⟩ := h.throw (.rejected e) hactive (Option.isNone_iff_eq_none.mp hown)
              have hsum := remaining_update (g := g) (h.created_of_active hactive) .settled
              rw [hstage] at hsum
              refine ⟨_, hinv, Nat.add_le_add_right ?_ _⟩
              exact Nat.le_of_add_le_add_right (hsum.trans_le (by simp [Stage.remaining]))
          · cases hstep
      · cases hstep
  | settle i o =>
      rw [exec] at hstep
      split at hstep
      · next hrun =>
          obtain rfl := Option.some.inj hstep
          have hrunning : s.Running i := ⟨hrun.1, Option.isNone_iff_eq_none.mp hrun.2⟩
          obtain ⟨st, hst, hinv⟩ := h.settle o hrunning
          have hsum := remaining_update (g := g) (h.created_of_started hrun.1) st
          rw [hst] at hsum
          exact ⟨_, hinv, Nat.add_le_add_right (Nat.add_right_cancel hsum).le _⟩
      · cases hstep

theorem inv_init : Inv (State.init α) fun _ => .waiting where
  placed := fun i hi => absurd hi (Nat.not_lt_zero i)
  blank := by simp [State.view, State.init]
  chained := by
    refine ⟨?_, ?_, ?_, ?_, ?_, ?_⟩
    · intro k i hqueue
      cases hqueue
    · exact fun k _ j hj => absurd hj (Nat.not_lt_zero j)
    · exact fun j hj => absurd hj (Nat.not_lt_zero j)
    · exact fun i j hij => absurd hij.created (Nat.not_lt_zero j)
    · exact fun i j hij => absurd hij.created (Nat.not_lt_zero j)
    · exact fun i hi => absurd hi (Nat.not_lt_zero i)
  ordered := List.Pairwise.nil

theorem Inv.runs (h : Inv s g) {events : List (Event α)} {s' : State α}
    (hrun : runs exec s events = some s') : ∃ g', Inv s' g' ∧
      remaining s' g' + events.countP Event.isJob + 4 * s.created ≤
        remaining s g + 4 * s'.created := by
  induction events generalizing s g with
  | nil =>
      obtain rfl := Option.some.inj hrun
      exact ⟨g, h, le_rfl⟩
  | cons ev events ih =>
      obtain ⟨m, hstep, hrest⟩ := runs_cons.mp hrun
      obtain ⟨gm, hm, hone⟩ := h.step hstep
      obtain ⟨g', h', hmore⟩ := ih hm hrest
      refine ⟨g', h', ?_⟩
      rw [List.countP_cons]
      omega

/-! ### The result -/

/-- What every caller relies on. -/
structure Serial (s : State α) : Prop where
  /-- Of one key at most one work is running. -/
  exclusive : ∀ i j, s.Running i → s.Running j → s.key i = s.key j → i = j
  /-- The works of one key are started in the order of the calls. -/
  order : s.started.Pairwise fun i j => s.key i = s.key j → i < j
  /-- All earlier ones of the key have settled then. -/
  after : ∀ j ∈ s.started, ∀ i < j, s.key i = s.key j →
    i ∈ s.started ∧ (s.own i).outcome ≠ none
  /-- A caller is answered with the outcome of its own work. -/
  answer : ∀ i < s.created, ∀ o, (s.next i).outcome = some o → (s.own i).outcome = some o
  /-- When no microtask is left, a work has been started if no earlier one of its own key is still
  to settle. -/
  prompt : s.Idle → ∀ j < s.created,
    (∀ i < j, s.key i = s.key j → (s.own i).outcome ≠ none) → j ∈ s.started
  /-- Then a caller has been answered if its work has settled. -/
  answered : s.Idle → ∀ i < s.created, ∀ o, (s.own i).outcome = some o →
    (s.next i).outcome = some o

theorem Inv.settled_of_lt (h : Inv s g) {i j : ℕ} (hj : j ∈ s.started) (hlt : i < j)
    (hkey : s.key i = s.key j) : i ∈ s.started ∧ (s.own i).outcome ≠ none := by
  have hcreated := h.created_of_started hj
  have hstarted := (h.started_iff hcreated).mp hj
  have hdone := h.done_of_lt hcreated hlt hkey fun hw => by
    rw [hw] at hstarted
    exact hstarted
  have hi := hlt.trans hcreated
  refine ⟨(h.started_iff hi).mpr (by rw [hdone]; trivial), ?_⟩
  exact (h.placed i hi).ownSettled (Or.inr (Or.inr hdone))

/-- Without microtasks a call waits, its promise is pending, or it is done. -/
theorem Inv.idle_stage (h : Inv s g) (hidle : s.Idle) {i : ℕ} (hi : i < s.created) :
    g i = .waiting ∨ g i = .pending ∨ g i = .done := by
  have hqueued : [] = (g i).queued := by
    rw [← (h.placed i hi).jobs, State.view, hidle.1]
    rfl
  have hactive : g i ≠ .active := fun hst => by
    have hnone := (h.placed i hi).active.mpr hst
    rw [State.view, hidle.2] at hnone
    cases hnone
  cases hst : g i <;> simp [hst, Stage.queued] at hqueued hactive ⊢

theorem Inv.serial (h : Inv s g) : Serial s where
  exclusive := by
    intro i j hi hj hkey
    rcases lt_trichotomy i j with hlt | heq | hlt
    · exact absurd hi.2 (h.settled_of_lt hj.1 hlt hkey).2
    · exact heq
    · exact absurd hj.2 (h.settled_of_lt hi.1 hlt hkey.symm).2
  order := h.ordered
  after := fun j hj i hlt hkey => h.settled_of_lt hj hlt hkey
  answer := by
    intro i hi o ho
    have hp := h.placed i hi
    have hclosed : (g i).Closed := by
      by_contra hopen
      have hnone : s.next i = ⟨none, [.swallow i]⟩ := hp.nextOpen hopen
      rw [hnone] at ho
      cases ho
    exact (hp.nextClosed hclosed).symm.trans ho
  prompt := by
    intro hidle j hj hsettled
    rw [h.started_iff hj]
    rcases h.idle_stage hidle hj with hst | hst | hst
    · -- a call that waits has an earlier one of its key that is not done
      obtain ⟨i, hlt, hkey⟩ : ∃ i < j, s.key i = s.key j := by
        by_contra hnone
        exact h.chained.first j hj (fun i hi hkey => hnone ⟨i, hi, hkey⟩) hst
      obtain ⟨m, _, hnext⟩ := exists_next hj hlt hkey
      have hopen := (h.chained.waits m j hnext).mp hst
      have hmj := hnext.lt.trans hj
      refine absurd ?_ (hsettled m hnext.lt hnext.key)
      rcases h.idle_stage hidle hmj with hm | hm | hm
      · exact (h.placed m hmj).ownOpen (Or.inl hm)
      · exact (h.placed m hmj).ownOpen (Or.inr (Or.inr hm))
      · exact absurd hm hopen
    · rw [hst]
      trivial
    · rw [hst]
      trivial
  answered := by
    intro hidle i hi o ho
    have hp := h.placed i hi
    have hown : (s.view i).own.outcome ≠ none := by
      rw [State.view, ho]
      exact Option.some_ne_none o
    rcases h.idle_stage hidle hi with hst | hst | hst
    · exact absurd (hp.ownOpen (Or.inl hst)) hown
    · exact absurd (hp.ownOpen (Or.inr (Or.inr hst))) hown
    · exact (hp.nextClosed (by rw [hst]; trivial)).trans ho

end

/-- In every history of calls the works of one key run one at a time and in order, no work waits
for one of another key, and there are four microtasks for a call at most. -/
theorem serialize_serial {events : List (Event α)} {s : State α}
    (h : runs exec (State.init α) events = some s) :
    Serial s ∧ events.countP Event.isJob ≤ 4 * s.created := by
  obtain ⟨g, hinv, hcount⟩ := inv_init.runs h
  have hzero : remaining (State.init α) (fun _ => .waiting) = 0 := rfl
  have hcreated : (State.init α).created = 0 := rfl
  rw [hzero, hcreated] at hcount
  exact ⟨hinv.serial, by omega⟩

/-- Two calls of one key, and one of another from inside the first work; its work throws, and the
first one is rejected. -/
def nestedCalls : List (Event ℕ) :=
  [.call (text "a"), .call (text "a"), .job, .call (text "b"), .back, .job, .throw 5,
    .settle 0 (.rejected 7), .job, .job, .job, .job, .job]

theorem serialize_serial_nested : ∃ s, runs exec (State.init ℕ) nestedCalls = some s ∧
    (s.started = [0, 2, 1] ∧ (s.next 0).outcome = some (.rejected 7) ∧
      (s.next 2).outcome = some (.rejected 5)) ∧ Serial s := by
  obtain ⟨s, hrun, hs⟩ : ∃ s, runs exec (State.init ℕ) nestedCalls = some s ∧
      s.started = [0, 2, 1] ∧ (s.next 0).outcome = some (.rejected 7) ∧
        (s.next 2).outcome = some (.rejected 5) := exists_run (by decide)
  exact ⟨s, hrun, hs, (serialize_serial hrun).1⟩

end WireTools.SerialQueues
