import Mathlib.Logic.Function.Basic
import WireTools.Runs
import WireTools.Text

/-! # The nonce counters

Every caller of `resolveLatestNonce` takes the promise that the counter of its address holds,
or a chain read where there is none, and installs the next link before it yields.

* `State`: the promises with their reactions, the counters, the microtask queue and the calls;
* `exec`: a caller's continuation after `getAddress`, a chain read that settles, one microtask,
  or `clearNonceCache`, in any order;
* the reactions of a promise run in the order they were attached, one job each, first in first
  out; a call returns what its promise does. -/

namespace WireTools.NonceCounters

inductive Outcome where
  | fulfilled (nonce : ℕ)
  | rejected
  deriving DecidableEq

/-- What is attached to a promise: `then(value => value + 1)`, which settles another promise,
and the `catch` that deletes the counter. -/
inductive Reaction where
  | next (promise : ℕ)
  | drop (key : Text)
  deriving DecidableEq

/-- A promise.  The counter it belongs to, the chain read at its head and its distance from
that read are fixed when it is made; the read itself is at distance 0. -/
structure Promise where
  key : Text
  seed : ℕ
  offset : ℕ
  outcome : Option Outcome
  reactions : List Reaction

structure Job where
  source : ℕ
  reaction : Reaction

/-- A call of `resolveLatestNonce` past its continuation, and the promise it returns. -/
structure Call where
  key : Text
  promise : ℕ

structure State where
  promise : ℕ → Promise
  created : ℕ
  counters : Text → Option ℕ
  jobs : List Job
  calls : List Call

/-- Before the first call. -/
def State.init : State where
  promise p := ⟨[], p, 0, none, []⟩
  created := 0
  counters _ := none
  jobs := []
  calls := []

namespace State

variable (s : State)

/-- A promise settles once, and its reactions are queued. -/
def settle (p : ℕ) (o : Outcome) : State :=
  match (s.promise p).outcome with
  | some _ => s
  | none =>
      { s with
        promise := Function.update s.promise p
          { s.promise p with outcome := some o, reactions := [] }
        jobs := s.jobs ++ (s.promise p).reactions.map fun r => ⟨p, r⟩ }

/-- A reaction is attached, or queued when the promise has settled already. -/
def react (p : ℕ) (r : Reaction) : State :=
  match (s.promise p).outcome with
  | some _ => { s with jobs := s.jobs ++ [⟨p, r⟩] }
  | none =>
      { s with
        promise := Function.update s.promise p
          { s.promise p with reactions := (s.promise p).reactions ++ [r] } }

def create (p : Promise) : State :=
  { s with promise := Function.update s.promise s.created p, created := s.created + 1 }

/-- `provider.getTransactionCount(key, "latest")`. -/
def getTransactionCount (key : Text) : State × ℕ :=
  (s.create ⟨key, s.created, 0, none, []⟩, s.created)

/-- `p.then(value => value + 1)`. -/
def andNext (p : ℕ) : State × ℕ :=
  ((s.create ⟨(s.promise p).key, (s.promise p).seed, (s.promise p).offset + 1, none, []⟩).react p
    (.next s.created), s.created)

def setCounter (key : Text) (p : Option ℕ) : State :=
  { s with counters := Function.update s.counters key p }

/-- The part of a call that runs from its promise to the end without a yield. -/
def take (key : Text) (nonce : ℕ) : State :=
  let (s, tail) := s.andNext nonce
  let s := s.setCounter key (some tail)
  let s := s.react nonce (.drop key)
  { s with calls := s.calls ++ [⟨key, nonce⟩] }

/-- A call whose `getAddress` has answered. -/
def resolveLatestNonce (address : Text) : State :=
  let key := address.map toLower
  match s.counters key with
  | some nonce => s.take key nonce
  | none =>
      let (s, nonce) := s.getTransactionCount key
      s.take key nonce

def clearNonceCache (address : Text) : State :=
  s.setCounter (address.map toLower) none

/-- One microtask. -/
def runJob (j : Job) : State :=
  match (s.promise j.source).outcome, j.reaction with
  | some (.fulfilled value), .next p => s.settle p (.fulfilled (value + 1))
  | some .rejected, .next p => s.settle p .rejected
  | some .rejected, .drop key => s.setCounter key none
  | _, _ => s

end State

inductive Event where
  | call (address : Text)
  | read (p : ℕ) (o : Outcome)
  | job
  | clear (address : Text)
  deriving DecidableEq

def exec (s : State) : Event → Option State
  | .call address => some (s.resolveLatestNonce address)
  | .read p o =>
      if p < s.created ∧ (s.promise p).offset = 0 ∧ (s.promise p).outcome = none then
        some (s.settle p o)
      else none
  | .job =>
      match s.jobs with
      | [] => none
      | j :: jobs => some ({ s with jobs := jobs }.runJob j)
  | .clear address => some (s.clearNonceCache address)

/-- The nonce a call returns, once it does. -/
def returned (s : State) (c : Call) : Option ℕ :=
  match (s.promise c.promise).outcome with
  | some (.fulfilled nonce) => some nonce
  | _ => none

/-- The counter is never cleared, and a delete that a rejected promise brings about finds the
counter empty or on the chain of that promise. -/
def Current (s : State) : Event → Prop
  | .job =>
      match s.jobs with
      | [] => True
      | j :: _ =>
          match (s.promise j.source).outcome, j.reaction with
          | some .rejected, .drop key =>
              ∀ q, s.counters key = some q → (s.promise q).seed = (s.promise j.source).seed
          | _, _ => True
  | .clear _ => False
  | _ => True

/-! ### The invariant -/

variable {s s' : State}

/-- The last promise of its chain. -/
def IsTail (s : State) (q : ℕ) : Prop :=
  ∀ r < s.created, (s.promise r).seed = (s.promise q).seed →
    (s.promise r).offset ≤ (s.promise q).offset

/-- The read at the head of a promise's chain is older and belongs to the same counter. -/
def Seeded (s : State) : Prop :=
  ∀ p < s.created, (s.promise p).seed < s.created ∧
    (s.promise (s.promise p).seed).key = (s.promise p).key ∧
      ((s.promise p).offset = 0 → (s.promise p).seed = p)

/-- How the chains, the counters and the calls lie. -/
structure Chains (s : State) : Prop where
  counter : ∀ key q, s.counters key = some q → q < s.created ∧ (s.promise q).key = key
  tail : ∀ key q, s.counters key = some q → IsTail s q
  untaken : ∀ key q, s.counters key = some q → q ∉ s.calls.map Call.promise
  taken : ∀ c ∈ s.calls, c.promise < s.created ∧ (s.promise c.promise).key = c.key
  once : (s.calls.map Call.promise).Nodup
  seed : Seeded s
  distinct : ∀ p < s.created, ∀ q < s.created, (s.promise p).seed = (s.promise q).seed →
    (s.promise p).offset = (s.promise q).offset → p = q

/-- A reaction of `p` settles the next promise of the chain or deletes the chain's counter. -/
def Linked (s : State) (p : ℕ) : Reaction → Prop
  | .next q => q < s.created ∧ (s.promise q).seed = (s.promise p).seed ∧
      (s.promise q).offset = (s.promise p).offset + 1
  | .drop key => key = (s.promise p).key

/-- An outcome of `p` is that of the read at the head of its chain. -/
def Explained (s : State) (p : ℕ) : Outcome → Prop
  | .fulfilled nonce => ∃ seed, (s.promise (s.promise p).seed).outcome = some (.fulfilled seed) ∧
      nonce = seed + (s.promise p).offset
  | .rejected => (s.promise (s.promise p).seed).outcome = some .rejected

/-- How the outcomes lie. -/
structure Outcomes (s : State) : Prop where
  explained : ∀ p < s.created, ∀ o, (s.promise p).outcome = some o → Explained s p o
  attached : ∀ p < s.created, ∀ r ∈ (s.promise p).reactions, Linked s p r
  queued : ∀ j ∈ s.jobs, j.source < s.created ∧ Linked s j.source j.reaction

/-- Every chain but the one from `x` has failed or is the one its counter is on. -/
def LiveBut (s : State) (x : ℕ) : Prop :=
  ∀ p < s.created, (s.promise (s.promise p).seed).outcome = some .rejected ∨
    (∃ q, s.counters (s.promise p).key = some q ∧
      (s.promise q).seed = (s.promise p).seed) ∨ (s.promise p).seed = x

def Live (s : State) : Prop :=
  ∀ p < s.created, (s.promise (s.promise p).seed).outcome = some .rejected ∨
    ∃ q, s.counters (s.promise p).key = some q ∧ (s.promise q).seed = (s.promise p).seed

structure Inv (s : State) : Prop where
  chains : Chains s
  outcomes : Outcomes s
  live : Live s

/-! ### States that grow -/

/-- Promises are added and settled, and nothing is taken back. -/
structure Extends (s s' : State) : Prop where
  created : s.created ≤ s'.created
  fixed : ∀ p < s.created, (s'.promise p).key = (s.promise p).key ∧
    (s'.promise p).seed = (s.promise p).seed ∧ (s'.promise p).offset = (s.promise p).offset
  outcome : ∀ p < s.created, ∀ o, (s.promise p).outcome = some o →
    (s'.promise p).outcome = some o

theorem Linked.extend {p : ℕ} {r : Reaction} (hp : p < s.created) (he : Extends s s')
    (h : Linked s p r) : Linked s' p r := by
  cases r with
  | next q =>
      obtain ⟨hq, hseed, hoffset⟩ := h
      refine ⟨Nat.lt_of_lt_of_le hq he.created, ?_, ?_⟩
      · rw [(he.fixed q hq).2.1, (he.fixed p hp).2.1, hseed]
      · rw [(he.fixed q hq).2.2, (he.fixed p hp).2.2, hoffset]
  | drop key => exact Eq.trans h (he.fixed p hp).1.symm

theorem Explained.extend {p : ℕ} {o : Outcome} (hc : Seeded s) (hp : p < s.created)
    (he : Extends s s') (h : Explained s p o) : Explained s' p o := by
  have hseed := (hc p hp).1
  cases o with
  | fulfilled nonce =>
      obtain ⟨seed, hread, hnonce⟩ := h
      refine ⟨seed, ?_, ?_⟩
      · rw [(he.fixed p hp).2.1]
        exact he.outcome _ hseed _ hread
      · rw [(he.fixed p hp).2.2, hnonce]
  | rejected =>
      rw [Explained, (he.fixed p hp).2.1]
      exact he.outcome _ hseed _ h

/-! ### The operations on promises -/

/-- What does not depend on outcomes and reactions. -/
structure SameChains (s s' : State) : Prop where
  created : s'.created = s.created
  counters : s'.counters = s.counters
  calls : s'.calls = s.calls
  fixed : ∀ p, (s'.promise p).key = (s.promise p).key ∧
    (s'.promise p).seed = (s.promise p).seed ∧ (s'.promise p).offset = (s.promise p).offset

theorem Seeded.same (h : Seeded s) (hs : SameChains s s') : Seeded s' := by
  simpa only [Seeded, hs.created, fun p => (hs.fixed p).1, fun p => (hs.fixed p).2.1,
    fun p => (hs.fixed p).2.2] using h

theorem Chains.same (h : Chains s) (hs : SameChains s s') : Chains s' := by
  have hkey := fun p => (hs.fixed p).1
  have hseed := fun p => (hs.fixed p).2.1
  have hoffset := fun p => (hs.fixed p).2.2
  refine ⟨?_, ?_, ?_, ?_, ?_, h.seed.same hs, ?_⟩
  · rw [hs.counters, hs.created]
    simpa only [hkey] using h.counter
  · rw [hs.counters]
    simpa only [IsTail, hs.created, hseed, hoffset] using h.tail
  · rw [hs.counters, hs.calls]
    exact h.untaken
  · rw [hs.calls, hs.created]
    simpa only [hkey] using h.taken
  · rw [hs.calls]
    exact h.once
  · simpa only [hs.created, hseed, hoffset] using h.distinct

theorem sameChains_settle (s : State) (p : ℕ) (o : Outcome) : SameChains s (s.settle p o) := by
  unfold State.settle
  split
  · exact ⟨rfl, rfl, rfl, fun _ => ⟨rfl, rfl, rfl⟩⟩
  · refine ⟨rfl, rfl, rfl, fun q => ?_⟩
    by_cases hq : q = p
    · subst hq
      simp only [Function.update_self]
      exact ⟨trivial, trivial, trivial⟩
    · simp only [Function.update_of_ne hq]
      exact ⟨trivial, trivial, trivial⟩

theorem sameChains_react (s : State) (p : ℕ) (r : Reaction) : SameChains s (s.react p r) := by
  unfold State.react
  split
  · exact ⟨rfl, rfl, rfl, fun _ => ⟨rfl, rfl, rfl⟩⟩
  · refine ⟨rfl, rfl, rfl, fun q => ?_⟩
    by_cases hq : q = p
    · subst hq
      simp only [Function.update_self]
      exact ⟨trivial, trivial, trivial⟩
    · simp only [Function.update_of_ne hq]
      exact ⟨trivial, trivial, trivial⟩

theorem SameChains.extends (hs : SameChains s s')
    (ho : ∀ p < s.created, ∀ o, (s.promise p).outcome = some o →
      (s'.promise p).outcome = some o) : Extends s s' :=
  ⟨Nat.le_of_eq hs.created.symm, fun p _ => hs.fixed p, ho⟩

theorem outcome_settle {p : ℕ} {o : Outcome} (h : (s.promise p).outcome = none) (q : ℕ) :
    ((s.settle p o).promise q).outcome = if q = p then some o else (s.promise q).outcome := by
  unfold State.settle
  rw [h]
  by_cases hq : q = p
  · subst hq
    simp
  · simp [hq]

theorem outcome_react (s : State) (p : ℕ) (r : Reaction) (q : ℕ) :
    ((s.react p r).promise q).outcome = (s.promise q).outcome := by
  unfold State.react
  split
  · rfl
  · by_cases hq : q = p
    · subst hq
      simp
    · simp [Function.update_of_ne hq]

theorem extends_settle (s : State) (p : ℕ) (o : Outcome) : Extends s (s.settle p o) := by
  refine (sameChains_settle s p o).extends fun q _ o' hq => ?_
  cases hp : (s.promise p).outcome with
  | some x =>
      unfold State.settle
      rw [hp]
      exact hq
  | none =>
      rw [outcome_settle hp]
      by_cases hqp : q = p
      · subst hqp
        cases hp.symm.trans hq
      · rw [if_neg hqp, hq]

theorem extends_react (s : State) (p : ℕ) (r : Reaction) : Extends s (s.react p r) :=
  (sameChains_react s p r).extends fun q _ o hq => by rw [outcome_react, hq]

/-- A promise settles with an outcome that its chain explains. -/
theorem outcomes_settle {p : ℕ} {o : Outcome} (hc : Seeded s) (h : Outcomes s)
    (hp : p < s.created) (ho : (s.promise p).offset = 0 ∨ Explained s p o) :
    Outcomes (s.settle p o) := by
  cases hout : (s.promise p).outcome with
  | some x =>
      have hsame : s.settle p o = s := by
        unfold State.settle
        rw [hout]
      rwa [hsame]
  | none =>
      have he := extends_settle s p o
      have hs := sameChains_settle s p o
      refine ⟨fun q hq o' ho' => ?_, fun q hq r hr => ?_, fun j hj => ?_⟩
      · rw [hs.created] at hq
        rw [outcome_settle hout] at ho'
        by_cases hqp : q = p
        · subst hqp
          rw [if_pos rfl] at ho'
          obtain rfl := Option.some.inj ho'
          rcases ho with hzero | hexp
          · -- a chain read explains itself
            have hself := (hc q hp).2.2 hzero
            have hread : ((s.settle q o).promise q).outcome = some o := by
              rw [outcome_settle hout, if_pos rfl]
            cases o with
            | fulfilled nonce =>
                refine ⟨nonce, ?_, ?_⟩
                · rw [(hs.fixed q).2.1, hself, hread]
                · rw [(hs.fixed q).2.2, hzero, Nat.add_zero]
            | rejected => rw [Explained, (hs.fixed q).2.1, hself, hread]
          · exact hexp.extend hc hp he
        · rw [if_neg hqp] at ho'
          exact (h.explained q hq o' ho').extend hc hq he
      · rw [hs.created] at hq
        have hr' : r ∈ (s.promise q).reactions := by
          unfold State.settle at hr
          rw [hout] at hr
          by_cases hqp : q = p
          · subst hqp
            simp at hr
          · simpa [Function.update_of_ne hqp] using hr
        exact (h.attached q hq r hr').extend hq he
      · have hj' : j ∈ s.jobs ∨ ∃ r ∈ (s.promise p).reactions, ⟨p, r⟩ = j := by
          unfold State.settle at hj
          rw [hout] at hj
          simpa using hj
        rw [hs.created]
        rcases hj' with hj | ⟨r, hr, rfl⟩
        · obtain ⟨hlt, hlink⟩ := h.queued j hj
          exact ⟨hlt, hlink.extend hlt he⟩
        · exact ⟨hp, (h.attached p hp r hr).extend hp he⟩

theorem outcomes_react {p : ℕ} {r : Reaction} (hc : Seeded s) (h : Outcomes s)
    (hp : p < s.created) (hr : Linked s p r) : Outcomes (s.react p r) := by
  have he := extends_react s p r
  have hs := sameChains_react s p r
  refine ⟨fun q hq o ho => ?_, fun q hq r' hr' => ?_, fun j hj => ?_⟩
  · rw [hs.created] at hq
    rw [outcome_react] at ho
    exact (h.explained q hq o ho).extend hc hq he
  · rw [hs.created] at hq
    have hmem : r' ∈ (s.promise q).reactions ∨ q = p ∧ r' = r := by
      unfold State.react at hr'
      split at hr'
      · exact .inl hr'
      · by_cases hqp : q = p
        · subst hqp
          simpa using hr'
        · exact .inl (by simpa [Function.update_of_ne hqp] using hr')
    rcases hmem with hmem | ⟨rfl, rfl⟩
    · exact (h.attached q hq r' hmem).extend hq he
    · exact hr.extend hp he
  · have hmem : j ∈ s.jobs ∨ j = ⟨p, r⟩ := by
      unfold State.react at hj
      split at hj
      · simpa using hj
      · exact .inl hj
    rw [hs.created]
    rcases hmem with hmem | rfl
    · obtain ⟨hlt, hlink⟩ := h.queued j hmem
      exact ⟨hlt, hlink.extend hlt he⟩
    · exact ⟨hp, hr.extend hp he⟩

theorem live_extends (hs : SameChains s s') (he : Extends s s') (hc : Chains s)
    (h : Live s) : Live s' := by
  intro p hp
  rw [hs.created] at hp
  rw [hs.counters, (hs.fixed p).1, (hs.fixed p).2.1]
  rcases h p hp with hrej | ⟨q, hq, hseed⟩
  · exact .inl (he.outcome _ (hc.seed p hp).1 _ hrej)
  · exact .inr ⟨q, hq, (hs.fixed q).2.1.trans hseed⟩

theorem inv_settle {p : ℕ} {o : Outcome} (h : Inv s) (hp : p < s.created)
    (ho : (s.promise p).offset = 0 ∨ Explained s p o) : Inv (s.settle p o) :=
  ⟨h.chains.same (sameChains_settle s p o), outcomes_settle h.chains.seed h.outcomes hp ho,
    live_extends (sameChains_settle s p o) (extends_settle s p o) h.chains h.live⟩

/-! ### Taking a link -/

@[simp] theorem create_promise_self (s : State) (p : Promise) :
    (s.create p).promise s.created = p :=
  Function.update_self ..

theorem create_promise_lt (s : State) (p : Promise) {q : ℕ} (hq : q < s.created) :
    (s.create p).promise q = s.promise q :=
  Function.update_of_ne (Nat.ne_of_lt hq) ..

theorem extends_create (s : State) (p : Promise) : Extends s (s.create p) := by
  refine ⟨Nat.le_succ _, fun q hq => ?_, fun q hq o ho => ?_⟩
  · rw [create_promise_lt s p hq]
    exact ⟨rfl, rfl, rfl⟩
  · rwa [create_promise_lt s p hq]

theorem outcomes_create {p : Promise} (hc : Seeded s) (h : Outcomes s)
    (ho : p.outcome = none) (hr : p.reactions = []) : Outcomes (s.create p) := by
  have he := extends_create s p
  refine ⟨fun q hq o hqo => ?_, fun q hq r hqr => ?_, fun j hj => ?_⟩
  · rcases Nat.lt_succ_iff_lt_or_eq.mp hq with hlt | rfl
    · rw [create_promise_lt s p hlt] at hqo
      exact (h.explained q hlt o hqo).extend hc hlt he
    · rw [create_promise_self, ho] at hqo
      cases hqo
  · rcases Nat.lt_succ_iff_lt_or_eq.mp hq with hlt | rfl
    · rw [create_promise_lt s p hlt] at hqr
      exact (h.attached q hlt r hqr).extend hlt he
    · rw [create_promise_self, hr] at hqr
      cases hqr
  · obtain ⟨hlt, hlink⟩ := h.queued j hj
    exact ⟨Nat.lt_succ_of_lt hlt, hlink.extend hlt he⟩

theorem Extends.trans {s'' : State} (h : Extends s s') (h' : Extends s' s'') :
    Extends s s'' := by
  have hlt : ∀ {p}, p < s.created → p < s'.created := fun hp =>
    Nat.lt_of_lt_of_le hp h.created
  refine ⟨Nat.le_trans h.created h'.created, fun p hp => ?_, fun p hp o ho => ?_⟩
  · obtain ⟨hk, hs, ho⟩ := h.fixed p hp
    obtain ⟨hk', hs', ho'⟩ := h'.fixed p (hlt hp)
    exact ⟨hk'.trans hk, hs'.trans hs, ho'.trans ho⟩
  · exact h'.outcome p (hlt hp) o (h.outcome p hp o ho)

/-- The next promise of `p`'s chain. -/
def nextOf (s : State) (p : ℕ) : Promise :=
  ⟨(s.promise p).key, (s.promise p).seed, (s.promise p).offset + 1, none, []⟩

/-- The state after a link is taken, as far as chains, counters and calls go. -/
def linked (s : State) (key : Text) (p : ℕ) : State :=
  { s.create (nextOf s p) with
    counters := Function.update s.counters key (some s.created)
    calls := s.calls ++ [⟨key, p⟩] }

theorem sameChains_take (s : State) (key : Text) (p : ℕ) :
    SameChains (linked s key p) (s.take key p) := by
  have hnext := sameChains_react (s.create (nextOf s p)) p (.next s.created)
  have hdrop := sameChains_react
    (((s.create (nextOf s p)).react p (.next s.created)).setCounter key (some s.created)) p
    (.drop key)
  refine ⟨hdrop.created.trans hnext.created, ?_, ?_, fun q => ?_⟩
  · refine hdrop.counters.trans ?_
    exact congrArg (fun c => Function.update c key (some s.created)) hnext.counters
  · exact congrArg (fun c => c ++ [(⟨key, p⟩ : Call)]) (hdrop.calls.trans hnext.calls)
  · obtain ⟨hk, hs, ho⟩ := hnext.fixed q
    obtain ⟨hk', hs', ho'⟩ := hdrop.fixed q
    exact ⟨hk'.trans hk, hs'.trans hs, ho'.trans ho⟩

theorem extends_take (s : State) (key : Text) (p : ℕ) : Extends s (s.take key p) := by
  have hcounter : ∀ t : State, Extends t (t.setCounter key (some s.created)) := fun t =>
    ⟨Nat.le_refl _, fun _ _ => ⟨rfl, rfl, rfl⟩, fun _ _ _ h => h⟩
  have he := ((extends_create s (nextOf s p)).trans
    (extends_react _ p (.next s.created))).trans ((hcounter _).trans
      (extends_react _ p (.drop key)))
  exact ⟨he.created, he.fixed, he.outcome⟩

/-- Promises of one chain belong to one counter. -/
theorem key_of_seed (hc : Seeded s) {p q : ℕ} (hp : p < s.created) (hq : q < s.created)
    (h : (s.promise p).seed = (s.promise q).seed) :
    (s.promise p).key = (s.promise q).key := by
  rw [← (hc p hp).2.1, ← (hc q hq).2.1, h]

theorem seeded_linked {p : ℕ} (hc : Seeded s) (hp : p < s.created) :
    Seeded (s.create (nextOf s p)) := by
  intro q hq
  rcases Nat.lt_succ_iff_lt_or_eq.mp hq with hlt | rfl
  · obtain ⟨hseed, hkey, hzero⟩ := hc q hlt
    rw [create_promise_lt s _ hlt, create_promise_lt s _ hseed]
    exact ⟨Nat.lt_succ_of_lt hseed, hkey, hzero⟩
  · obtain ⟨hseed, hkey, _⟩ := hc p hp
    rw [create_promise_self]
    refine ⟨Nat.lt_succ_of_lt hseed, ?_, fun h => absurd h (Nat.succ_ne_zero _)⟩
    rw [show (nextOf s p).seed = (s.promise p).seed from rfl, create_promise_lt s _ hseed, hkey]
    rfl

theorem chains_linked {key : Text} {p : ℕ} (hc : Chains s) (hp : p < s.created)
    (hkey : (s.promise p).key = key) (htail : IsTail s p)
    (hfree : p ∉ s.calls.map Call.promise) : Chains (linked s key p) := by
  have hold : ∀ {q}, q < s.created → (linked s key p).promise q = s.promise q := fun hq =>
    create_promise_lt s (nextOf s p) hq
  have hnew : (linked s key p).promise s.created = nextOf s p := create_promise_self _ _
  have hother : ∀ {key' q}, key' ≠ key → s.counters key' = some q →
      (s.promise q).seed ≠ (s.promise p).seed := by
    intro key' q hne hq hseed
    obtain ⟨hlt, hkey'⟩ := hc.counter key' q hq
    exact hne (hkey' ▸ hkey ▸ key_of_seed hc.seed hlt hp hseed)
  have hcounter : ∀ {key' q}, (linked s key p).counters key' = some q →
      key' = key ∧ q = s.created ∨ key' ≠ key ∧ s.counters key' = some q := by
    intro key' q hq
    rw [show (linked s key p).counters = Function.update s.counters key (some s.created)
      from rfl] at hq
    by_cases hk : key' = key
    · subst hk
      rw [Function.update_self] at hq
      exact .inl ⟨rfl, (Option.some.inj hq).symm⟩
    · rw [Function.update_of_ne hk] at hq
      exact .inr ⟨hk, hq⟩
  refine ⟨fun key' q hq => ?_, fun key' q hq => ?_, fun key' q hq => ?_, fun c hmem => ?_, ?_,
    seeded_linked hc.seed hp, ?_⟩
  · rcases hcounter hq with ⟨rfl, rfl⟩ | ⟨_, hq⟩
    · exact ⟨Nat.lt_succ_self _, by rw [hnew]; exact hkey⟩
    · obtain ⟨hlt, hkey'⟩ := hc.counter key' q hq
      exact ⟨Nat.lt_succ_of_lt hlt, by rw [hold hlt]; exact hkey'⟩
  · intro r hr hseed
    rcases hcounter hq with ⟨rfl, rfl⟩ | ⟨hne, hq⟩
    · rw [hnew] at hseed ⊢
      rcases Nat.lt_succ_iff_lt_or_eq.mp hr with hlt | rfl
      · rw [hold hlt] at hseed ⊢
        exact Nat.le_succ_of_le (htail r hlt hseed)
      · exact Nat.le_of_eq (congrArg Promise.offset hnew)
    · have hlt := (hc.counter key' q hq).1
      rw [hold hlt] at hseed ⊢
      rcases Nat.lt_succ_iff_lt_or_eq.mp hr with hrlt | rfl
      · rw [hold hrlt] at hseed ⊢
        exact hc.tail key' q hq r hrlt hseed
      · rw [hnew] at hseed
        exact absurd hseed.symm (hother hne hq)
  · rw [show (linked s key p).calls = s.calls ++ [⟨key, p⟩] from rfl, List.map_append,
      List.mem_append]
    rintro (hmem | hmem)
    · obtain ⟨c, hcm, rfl⟩ := List.mem_map.mp hmem
      rcases hcounter hq with ⟨_, heq⟩ | ⟨_, hq⟩
      · exact absurd heq (Nat.ne_of_lt (hc.taken c hcm).1)
      · exact hc.untaken key' _ hq (List.mem_map.mpr ⟨c, hcm, rfl⟩)
    · obtain rfl : q = p := by simpa using hmem
      rcases hcounter hq with ⟨_, heq⟩ | ⟨hne, hq⟩
      · exact absurd heq (Nat.ne_of_lt hp)
      · exact hother hne hq rfl
  · rcases List.mem_append.mp hmem with hmem | hmem
    · obtain ⟨hlt, hkey'⟩ := hc.taken c hmem
      exact ⟨Nat.lt_succ_of_lt hlt, by rw [hold hlt]; exact hkey'⟩
    · obtain rfl : c = ⟨key, p⟩ := by simpa using hmem
      exact ⟨Nat.lt_succ_of_lt hp, by rw [hold hp]; exact hkey⟩
  · rw [show (linked s key p).calls = s.calls ++ [⟨key, p⟩] from rfl, List.map_append,
      List.nodup_append]
    refine ⟨hc.once, by simp, fun x hx y hy => ?_⟩
    obtain rfl : y = p := by simpa using hy
    rintro rfl
    exact hfree hx
  · intro q hq r hr hseed hoffset
    rcases Nat.lt_succ_iff_lt_or_eq.mp hq with hql | rfl <;>
      rcases Nat.lt_succ_iff_lt_or_eq.mp hr with hrl | rfl
    · rw [hold hql, hold hrl] at hseed hoffset
      exact hc.distinct q hql r hrl hseed hoffset
    · rw [hold hql, hnew] at hseed hoffset
      have hle := htail q hql hseed
      rw [hoffset] at hle
      exact absurd hle (Nat.not_succ_le_self _)
    · rw [hnew, hold hrl] at hseed hoffset
      have hle := htail r hrl hseed.symm
      rw [← hoffset] at hle
      exact absurd hle (Nat.not_succ_le_self _)
    · rfl

theorem outcomes_take {key : Text} {p : ℕ} (hc : Chains s) (h : Outcomes s)
    (hp : p < s.created) (hkey : (s.promise p).key = key) : Outcomes (s.take key p) := by
  have hseeded := seeded_linked hc.seed hp
  have hpc : p < (s.create (nextOf s p)).created := Nat.lt_succ_of_lt hp
  have hcreate := outcomes_create (p := nextOf s p) hc.seed h rfl rfl
  have hnext : Linked (s.create (nextOf s p)) p (.next s.created) := by
    refine ⟨Nat.lt_succ_self _, ?_, ?_⟩ <;>
      rw [create_promise_self, create_promise_lt s _ hp] <;> rfl
  have hs := sameChains_react (s.create (nextOf s p)) p (.next s.created)
  have hreact := outcomes_react hseeded hcreate hpc hnext
  have hseeded' : Seeded (((s.create (nextOf s p)).react p (.next s.created)).setCounter key
      (some s.created)) := fun q hq => hseeded.same hs q hq
  have hset : Outcomes (((s.create (nextOf s p)).react p (.next s.created)).setCounter key
      (some s.created)) :=
    ⟨hreact.explained, hreact.attached, hreact.queued⟩
  have hdrop := outcomes_react (r := .drop key) hseeded' hset
    (Nat.lt_of_lt_of_eq hpc hs.created.symm) (by
      refine Eq.trans ?_ (hs.fixed p).1.symm
      rw [create_promise_lt s _ hp, hkey])
  exact ⟨hdrop.explained, hdrop.attached, hdrop.queued⟩

theorem live_take {key : Text} {p : ℕ} (hc : Chains s) (h : LiveBut s (s.promise p).seed)
    (hp : p < s.created) (hkey : (s.promise p).key = key)
    (hcount : s.counters key = none ∨ s.counters key = some p) : Live (s.take key p) := by
  have hs := sameChains_take s key p
  have he := extends_take s key p
  have htaken : (s.take key p).counters = Function.update s.counters key (some s.created) :=
    hs.counters
  have hnew : ((s.take key p).promise s.created).seed = (s.promise p).seed := by
    rw [(hs.fixed s.created).2.1]
    have hself := congrArg Promise.seed (create_promise_self s (nextOf s p))
    exact hself
  have hnewkey : ((s.take key p).promise s.created).key = key := by
    rw [(hs.fixed s.created).1, ← hkey]
    have hself := congrArg Promise.key (create_promise_self s (nextOf s p))
    exact hself
  intro q hq
  rw [hs.created] at hq
  rcases Nat.lt_succ_iff_lt_or_eq.mp hq with hlt | rfl
  · have hsame : (s.promise q).seed = (s.promise p).seed →
        ∃ r, (s.take key p).counters ((s.take key p).promise q).key = some r ∧
          ((s.take key p).promise r).seed = ((s.take key p).promise q).seed := by
      intro hseed
      have hqkey : (s.promise q).key = key := (key_of_seed hc.seed hlt hp hseed).trans hkey
      refine ⟨s.created, ?_, ?_⟩
      · rw [htaken, (he.fixed q hlt).1, hqkey, Function.update_self]
      · rw [hnew, (he.fixed q hlt).2.1, hseed]
    rcases h q hlt with hrej | ⟨r, hr, hseed⟩ | hseed
    · refine .inl ?_
      rw [(he.fixed q hlt).2.1]
      exact he.outcome _ (hc.seed q hlt).1 _ hrej
    · by_cases hk : (s.promise q).key = key
      · rw [hk] at hr
        rcases hcount with hnone | hsome
        · cases hnone.symm.trans hr
        · obtain rfl := Option.some.inj (hsome.symm.trans hr)
          exact .inr (hsame hseed.symm)
      · refine .inr ⟨r, ?_, ?_⟩
        · rw [htaken, (he.fixed q hlt).1, Function.update_of_ne hk, hr]
        · have hrlt := (hc.counter _ r hr).1
          rw [(he.fixed r hrlt).2.1, (he.fixed q hlt).2.1, hseed]
    · exact .inr (hsame hseed)
  · refine .inr ⟨s.created, ?_, rfl⟩
    rw [htaken, hnewkey, Function.update_self]

theorem inv_take {key : Text} {p : ℕ} (hc : Chains s) (ho : Outcomes s)
    (hlive : LiveBut s (s.promise p).seed) (hp : p < s.created) (hkey : (s.promise p).key = key)
    (htail : IsTail s p) (hfree : p ∉ s.calls.map Call.promise)
    (hcount : s.counters key = none ∨ s.counters key = some p) : Inv (s.take key p) :=
  ⟨(chains_linked hc hp hkey htail hfree).same (sameChains_take s key p),
    outcomes_take hc ho hp hkey, live_take hc hlive hp hkey hcount⟩

/-- A new chain read, which no counter and no call knows yet. -/
theorem chains_read {key : Text} (hc : Chains s) :
    Chains (s.create ⟨key, s.created, 0, none, []⟩) := by
  have hold : ∀ {q}, q < s.created →
      (s.create ⟨key, s.created, 0, none, []⟩).promise q = s.promise q := fun hq =>
    create_promise_lt s _ hq
  have hnew : (s.create ⟨key, s.created, 0, none, []⟩).promise s.created =
      ⟨key, s.created, 0, none, []⟩ := create_promise_self _ _
  have hseed : ∀ {q}, q < s.created → (s.promise q).seed ≠ s.created := fun hq =>
    Nat.ne_of_lt (hc.seed _ hq).1
  refine ⟨fun key' q hq => ?_, fun key' q hq r hr hrq => ?_, hc.untaken, fun c hmem => ?_,
    hc.once, fun q hq => ?_, fun q hq r hr hqr hoffset => ?_⟩
  · obtain ⟨hlt, hkey'⟩ := hc.counter key' q hq
    exact ⟨Nat.lt_succ_of_lt hlt, by rw [hold hlt]; exact hkey'⟩
  · have hlt := (hc.counter key' q hq).1
    rw [hold hlt] at hrq ⊢
    rcases Nat.lt_succ_iff_lt_or_eq.mp hr with hrlt | rfl
    · rw [hold hrlt] at hrq ⊢
      exact hc.tail key' q hq r hrlt hrq
    · rw [hnew]
      exact Nat.zero_le _
  · obtain ⟨hlt, hkey'⟩ := hc.taken c hmem
    exact ⟨Nat.lt_succ_of_lt hlt, by rw [hold hlt]; exact hkey'⟩
  · rcases Nat.lt_succ_iff_lt_or_eq.mp hq with hlt | rfl
    · obtain ⟨hslt, hkey', hzero⟩ := hc.seed q hlt
      rw [hold hlt, hold hslt]
      exact ⟨Nat.lt_succ_of_lt hslt, hkey', hzero⟩
    · rw [hnew]
      exact ⟨Nat.lt_succ_self _, by rw [hnew], fun _ => rfl⟩
  · rcases Nat.lt_succ_iff_lt_or_eq.mp hq with hql | rfl <;>
      rcases Nat.lt_succ_iff_lt_or_eq.mp hr with hrl | rfl
    · rw [hold hql, hold hrl] at hqr hoffset
      exact hc.distinct q hql r hrl hqr hoffset
    · rw [hold hql, hnew] at hqr
      exact absurd hqr (hseed hql)
    · rw [hnew, hold hrl] at hqr
      exact absurd hqr.symm (hseed hrl)
    · rfl

theorem inv_resolveLatestNonce (h : Inv s) (address : Text) :
    Inv (s.resolveLatestNonce address) := by
  cases hcount : s.counters (address.map toLower) with
  | some p =>
      simp only [State.resolveLatestNonce, hcount]
      obtain ⟨hp, hkey⟩ := h.chains.counter _ p hcount
      refine inv_take h.chains h.outcomes (fun q hq => ?_) hp hkey (h.chains.tail _ p hcount)
        (h.chains.untaken _ p hcount) (.inr hcount)
      exact (h.live q hq).imp id .inl
  | none =>
      simp only [State.resolveLatestNonce, hcount, State.getTransactionCount]
      have hnew := create_promise_self s ⟨address.map toLower, s.created, 0, none, []⟩
      have hold := fun q (hq : q < s.created) =>
        create_promise_lt s ⟨address.map toLower, s.created, 0, none, []⟩ hq
      refine inv_take (chains_read h.chains) (outcomes_create h.chains.seed h.outcomes rfl rfl)
        (fun q hq => ?_) (Nat.lt_succ_self _) (by rw [hnew]) (fun r hr hseed => ?_)
        (fun hmem => ?_) (.inl hcount)
      · rcases Nat.lt_succ_iff_lt_or_eq.mp hq with hlt | rfl
        · rw [hold q hlt, hold _ (h.chains.seed q hlt).1]
          refine (h.live q hlt).imp id fun ⟨r, hr, hseed⟩ => .inl ⟨r, hr, ?_⟩
          rw [hold r (h.chains.counter _ r hr).1, hseed]
        · exact .inr (.inr rfl)
      · rcases Nat.lt_succ_iff_lt_or_eq.mp hr with hlt | rfl
        · rw [hold r hlt, hnew] at hseed
          exact absurd hseed (Nat.ne_of_lt (h.chains.seed r hlt).1)
        · exact Nat.le_refl _
      · obtain ⟨c, hc, hpromise⟩ := List.mem_map.mp hmem
        exact Nat.ne_of_lt (h.chains.taken c hc).1 hpromise

/-! ### Jobs -/

theorem inv_runJob {j : Job} (h : Inv s) (hj : j.source < s.created ∧ Linked s j.source j.reaction)
    (hcur : (s.promise j.source).outcome = some .rejected → ∀ key, j.reaction = .drop key →
      ∀ q, s.counters key = some q → (s.promise q).seed = (s.promise j.source).seed) :
    Inv (s.runJob j) := by
  obtain ⟨hsource, hlink⟩ := hj
  have hexp := h.outcomes.explained j.source hsource
  unfold State.runJob
  cases ho : (s.promise j.source).outcome with
  | none => exact h
  | some o =>
      cases hr : j.reaction with
      | next p =>
          rw [hr] at hlink
          obtain ⟨hp, hseed, hoffset⟩ := hlink
          have hexp := hexp o ho
          cases o with
          | fulfilled value =>
              obtain ⟨seed, hread, hvalue⟩ := hexp
              refine inv_settle h hp (.inr ⟨seed, by rw [hseed, hread], ?_⟩)
              rw [hoffset, hvalue, Nat.add_assoc]
          | rejected =>
              refine inv_settle h hp (.inr ?_)
              rw [Explained, hseed]
              exact hexp
      | drop key =>
          cases o with
          | fulfilled value => exact h
          | rejected =>
              have hkey : key = (s.promise j.source).key := by rwa [hr] at hlink
              have hcounter : ∀ {key' q}, (s.setCounter key none).counters key' = some q →
                  s.counters key' = some q := by
                intro key' q hq
                rw [show (s.setCounter key none).counters = Function.update s.counters key none
                  from rfl] at hq
                by_cases hk : key' = key
                · subst hk
                  rw [Function.update_self] at hq
                  cases hq
                · rwa [Function.update_of_ne hk] at hq
              refine ⟨⟨fun key' q hq => h.chains.counter key' q (hcounter hq),
                fun key' q hq => h.chains.tail key' q (hcounter hq),
                fun key' q hq => h.chains.untaken key' q (hcounter hq), h.chains.taken,
                h.chains.once, h.chains.seed, h.chains.distinct⟩,
                ⟨h.outcomes.explained, h.outcomes.attached, h.outcomes.queued⟩, fun p hp => ?_⟩
              rcases h.live p hp with hrej | ⟨q, hq, hseed⟩
              · exact .inl hrej
              · by_cases hk : (s.promise p).key = key
                · -- the counter was on the chain that failed
                  have hfailed := hcur ho key hr q (hk ▸ hq)
                  refine .inl ?_
                  rw [show (s.setCounter key none).promise = s.promise from rfl, ← hseed, hfailed]
                  exact hexp .rejected ho
                · refine .inr ⟨q, ?_, hseed⟩
                  rw [show (s.setCounter key none).counters =
                    Function.update s.counters key none from rfl]
                  exact (Function.update_of_ne hk _ _).trans hq

theorem inv_exec {ev : Event} (h : Inv s) (hcur : Current s ev) (hev : exec s ev = some s') :
    Inv s' := by
  cases ev with
  | call address =>
      cases hev
      exact inv_resolveLatestNonce h address
  | read p o =>
      rw [exec] at hev
      split_ifs at hev with hif
      cases hev
      exact inv_settle h hif.1 (.inl hif.2.1)
  | job =>
      rw [exec] at hev
      cases hjobs : s.jobs with
      | nil =>
          rw [hjobs] at hev
          cases hev
      | cons j jobs =>
          rw [hjobs] at hev
          cases hev
          have hpop : Inv { s with jobs := jobs } :=
            ⟨⟨h.chains.counter, h.chains.tail, h.chains.untaken, h.chains.taken,
                h.chains.once, h.chains.seed, h.chains.distinct⟩,
              ⟨h.outcomes.explained, h.outcomes.attached, fun i hi =>
                h.outcomes.queued i (by rw [hjobs]; exact List.mem_cons_of_mem _ hi)⟩, h.live⟩
          refine inv_runJob hpop (h.outcomes.queued j (by rw [hjobs]; exact List.mem_cons_self))
            fun ho key hr q hq => ?_
          rw [Current, hjobs] at hcur
          simp only [show (s.promise j.source).outcome = some .rejected from ho, hr] at hcur
          exact hcur q hq
  | clear address => cases hcur

theorem inv_init : Inv State.init := by
  have hno : ∀ {p}, ¬ p < State.init.created := fun hp => absurd hp (Nat.not_lt_zero _)
  refine ⟨⟨fun _ _ h => ?_, fun _ _ h => ?_, fun _ _ h => ?_, fun _ h => ?_, List.nodup_nil,
    fun _ h => absurd h hno, fun _ h => absurd h hno⟩,
    ⟨fun _ h => absurd h hno, fun _ h => absurd h hno, fun _ h => ?_⟩,
    fun _ h => absurd h hno⟩
  · cases h
  · cases h
  · cases h
  · cases h
  · cases h

/-! ### Uniqueness -/

/-- The promise of a call that returned is on the chain that the counter of its address is
on. -/
theorem chain_of_returned {c : Call} {n : ℕ} (h : Inv s) (hc : c ∈ s.calls)
    (hn : returned s c = some n) :
    ∃ q seed, s.counters c.key = some q ∧ (s.promise q).seed = (s.promise c.promise).seed ∧
      (s.promise (s.promise q).seed).outcome = some (.fulfilled seed) ∧
      n = seed + (s.promise c.promise).offset := by
  obtain ⟨hlt, hkey⟩ := h.chains.taken c hc
  have hout : (s.promise c.promise).outcome = some (.fulfilled n) := by
    unfold returned at hn
    split at hn
    · rename_i nonce hout
      rw [hout, Option.some.inj hn]
    · cases hn
  obtain ⟨seed, hread, hvalue⟩ := h.outcomes.explained c.promise hlt _ hout
  rcases h.live c.promise hlt with hrej | ⟨q, hq, hseed⟩
  · cases hread.symm.trans hrej
  · exact ⟨q, seed, hkey ▸ hq, hseed, by rw [hseed, hread], hvalue⟩

/-- In a run whose deletes find the counter empty or on the chain that failed, two calls for
one address never return the same nonce. -/
theorem nonces_unique {events : List Event}
    (h : runs exec State.init events = some s) (hcur : Along exec Current State.init events)
    {i j : ℕ} {c d : Call} (hij : i ≠ j) (hc : s.calls[i]? = some c)
    (hd : s.calls[j]? = some d) (hkey : c.key = d.key) {n m : ℕ}
    (hn : returned s c = some n) (hm : returned s d = some m) : n ≠ m := by
  have hinv : Inv s := along_induction h hcur inv_init
    fun _ _ _ hcur hev hinv => inv_exec hinv hcur hev
  have hcm := List.mem_of_getElem? hc
  have hdm := List.mem_of_getElem? hd
  obtain ⟨q, seed, hq, hseed, hread, hnv⟩ := chain_of_returned hinv hcm hn
  obtain ⟨q', seed', hq', hseed', hread', hmv⟩ := chain_of_returned hinv hdm hm
  obtain rfl : q = q' := Option.some.inj (hq.symm.trans (hkey ▸ hq'))
  obtain rfl : seed = seed' := by
    simpa using hread.symm.trans hread'
  have hpromise : c.promise ≠ d.promise := by
    intro heq
    have hlen : i < (s.calls.map Call.promise).length := by
      rw [List.length_map]
      exact (List.getElem?_eq_some_iff.mp hc).1
    refine hij ((List.getElem?_inj hlen hinv.chains.once).mp ?_)
    rw [List.getElem?_map, List.getElem?_map, hc, hd, Option.map_some, Option.map_some, heq]
  rintro rfl
  refine hpromise (hinv.chains.distinct _ (hinv.chains.taken c hcm).1 _
    (hinv.chains.taken d hdm).1 (hseed.symm.trans hseed') ?_)
  omega

/-! ### A delete that comes too late -/

def account : Text := text "0xbb"

/-- Two calls share a chain that the read seeds. -/
def twoCalls : List Event :=
  [.call account, .call account, .read 0 (.fulfilled 7), .job]

theorem nonces_unique_twoCalls : ∃ s, runs exec State.init twoCalls = some s ∧
    returned s ⟨account, 0⟩ ≠ returned s ⟨account, 1⟩ := by
  obtain ⟨s, hs⟩ : ∃ s, runs exec State.init twoCalls = some s := ⟨_, rfl⟩
  have hend : (runs exec State.init twoCalls).map (fun s => (s.calls, returned s ⟨account, 0⟩,
      returned s ⟨account, 1⟩)) = some ([⟨account, 0⟩, ⟨account, 1⟩], some 7, some 8) := rfl
  rw [hs, Option.map_some, Option.some.injEq, Prod.mk.injEq, Prod.mk.injEq] at hend
  obtain ⟨hcalls, hfirst, hsecond⟩ := hend
  have hcur : Along exec Current State.init twoCalls :=
    ⟨trivial, trivial, trivial, trivial, trivial⟩
  refine ⟨s, hs, fun h => ?_⟩
  exact nonces_unique hs hcur (i := 0) (j := 1) (c := ⟨account, 0⟩) (by simp) (by rw [hcalls]; rfl)
    (d := ⟨account, 1⟩) (by rw [hcalls]; rfl) rfl hfirst (h.symm.trans hfirst) rfl

/-- The first read fails while two calls wait on it.  The first delete empties the counter, a
third call seeds a new chain, and the second delete takes that one away too. -/
def lateDelete : List Event :=
  [.call account, .call account, .read 0 .rejected, .job, .job, .call account, .job, .job,
    .call account, .read 3 (.fulfilled 7), .read 5 (.fulfilled 7)]

theorem nonce_given_twice :
    (runs exec State.init lateDelete).map (fun s => s.calls.map fun c => (c.key, returned s c)) =
      some [(account, none), (account, none), (account, some 7), (account, some 7)] := by
  decide

end WireTools.NonceCounters
