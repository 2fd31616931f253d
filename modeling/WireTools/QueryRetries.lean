import Mathlib.Data.Rat.Floor
import WireTools.QueryExecution
import WireTools.Runs

/-! # Retries of a query

An execution sends its request, and sends it again after a failure that the server and the client
both think another attempt may clear.  The caller can abort it at any moment.

* `shouldAutoRetry` and `backoffMs` are the policy;
* `step` is what one event does to an execution: the answer to a request, an abort, the timer of a
  backoff, time that passes, and the turn of the code that waits for one of them.  The events come
  in any order, so an abort may fall between a failure and its handler, too;
* `Inv`: which answers an execution has had, by where it is;
* `execute_bounded`: the laws of the retries, for every run. -/

namespace WireTools.QueryEngineClient

/-! ### Failures -/

inductive QueryErrorKind where
  | parseError
  | invalidRequest
  | methodNotFound
  | invalidParams
  | querySyntax
  | querySemantics
  | queryLimit
  | queryTimeout
  | queryBusy
  | schemaChanged
  | rowDecodeError
  | valueError
  | stateUnavailable
  | queryCancelled
  | internalError
  deriving DecidableEq

structure QueryErrorData where
  kind : QueryErrorKind
  /-- The server's flag. -/
  retryable : Bool
  position : Option ℕ
  limit : Option Text
  deriving DecidableEq

structure QueryEngineError where
  code : ℤ
  data : QueryErrorData
  engineMessage : Text
  deriving DecidableEq

/-- What an attempt throws. -/
inductive AttemptError where
  | engine (error : QueryEngineError)
  | transport (detail : Text)
  deriving DecidableEq

structure Failure where
  kind : QueryFailureKind
  message : Text
  code : Option ℤ
  data : Option QueryErrorData
  deriving DecidableEq

def CancelledMessage : Text := text "query cancelled"

def engineFailure (error : QueryEngineError) : Failure :=
  ⟨.engine, error.engineMessage, some error.code, some error.data⟩

def transportFailure (detail : Text) : Failure :=
  ⟨.transport, detail, none, none⟩

def cancelledFailure : Failure :=
  ⟨.cancelled, CancelledMessage, none, none⟩

/-! ### The policy -/

def AutoRetryKinds : List QueryErrorKind := [.queryBusy, .schemaChanged, .stateUnavailable]

def BackoffBaseMs : ℚ := 250

def BackoffMaxMs : ℚ := 2000

def shouldAutoRetry (data : QueryErrorData) : Bool :=
  data.retryable && AutoRetryKinds.contains data.kind

def backoffMs (attempt : ℕ) : ℚ :=
  min (BackoffBaseMs * 2 ^ (attempt - 1)) BackoffMaxMs

/-! ### An execution -/

variable {Result : Type}

inductive Outcome (Result : Type) where
  | success (result : Result)
  | failure (failure : Failure)

structure Execution (Result : Type) where
  requestId : Text
  query : Text
  wallTimeMs : ℚ
  attempts : ℕ
  outcome : Outcome Result

/-- What all attempts of an execution share. -/
structure Context where
  requestId : Text
  query : Text
  /-- The number of retries that the profile allows. -/
  retries : ℕ
  started : ℚ

/-- How an attempt ends. -/
inductive Answer (Result : Type) where
  | success (result : Result)
  | failed (error : AttemptError)

inductive Phase (Result : Type) where
  /-- The request is sent. -/
  | sending
  /-- The attempt has failed, and its handler has not run. -/
  | failing (error : AttemptError)
  /-- The timer of the backoff is set, and the abort is listened for. -/
  | waiting (due : ℚ)
  /-- The timer went off. -/
  | resumed
  /-- The abort ended the backoff. -/
  | refused
  | done (execution : Execution Result)

structure State (Result : Type) where
  phase : Phase Result
  attempt : ℕ
  aborted : Bool
  now : ℚ
  /-- The number of requests that were sent. -/
  requests : ℕ
  /-- How they ended, the first one first. -/
  answers : List (Answer Result)

inductive Event (Result : Type) where
  | abort
  | elapse (ms : ℚ)
  | answer (a : Answer Result)
  | timer
  | turn

namespace State

def runAttempt (s : State Result) (attempt : ℕ) : State Result :=
  { s with phase := .sending, attempt := attempt, requests := s.requests + 1 }

def finish (context : Context) (s : State Result) (outcome : Outcome Result) : State Result :=
  { s with
    phase := .done ⟨context.requestId, context.query, s.now - context.started, s.attempt, outcome⟩ }

def backoff (s : State Result) (delayMs : ℚ) : State Result :=
  if s.aborted then { s with phase := .refused }
  else { s with phase := .waiting (s.now + delayMs) }

def handleAttemptFailure (context : Context) (s : State Result) (error : AttemptError) :
    State Result :=
  if s.aborted then s.finish context (.failure cancelledFailure)
  else
    match error with
    | .engine engineError =>
        if shouldAutoRetry engineError.data && decide (s.attempt ≤ context.retries) then
          s.backoff (backoffMs s.attempt)
        else s.finish context (.failure (engineFailure engineError))
    | .transport detail => s.finish context (.failure (transportFailure detail))

end State

/-- The first attempt; the signal may be aborted already. -/
def execute (context : Context) (aborted : Bool) : State Result :=
  State.runAttempt ⟨.sending, 0, aborted, context.started, 0, []⟩ 1

def step (context : Context) (s : State Result) : Event Result → Option (State Result)
  | .abort =>
      match s.phase with
      | .waiting _ => some { s with aborted := true, phase := .refused }
      | _ => some { s with aborted := true }
  | .elapse ms => if 0 ≤ ms then some { s with now := s.now + ms } else none
  | .answer a =>
      match s.phase with
      | .sending =>
          let s := { s with answers := s.answers ++ [a] }
          match a with
          | .success result => some (s.finish context (.success result))
          | .failed error => some { s with phase := .failing error }
      | _ => none
  | .timer =>
      match s.phase with
      | .waiting due => if due ≤ s.now then some { s with phase := .resumed } else none
      | _ => none
  | .turn =>
      match s.phase with
      | .failing error => some (s.handleAttemptFailure context error)
      | .resumed => some (s.runAttempt (s.attempt + 1))
      | .refused => some (s.finish context (.failure cancelledFailure))
      | _ => none

/-! ### The laws -/

/-- The number of requests that are not answered. -/
def Phase.inFlight : Phase Result → ℕ
  | sending => 1
  | _ => 0

def Phase.isWaiting : Phase Result → Bool
  | waiting _ => true
  | _ => false

/-- An abort precedes the failure of an attempt, or the end of a backoff. -/
def Overtaken (s : State Result) (event : Event Result) : Prop :=
  (s.aborted = true ∧ ∃ error, event = .answer (.failed error)) ∨
    (s.phase.isWaiting = true ∧ event = .abort)

/-- No more requests, and the outcome is the cancelled failure once the code has had its turn. -/
structure Cancelled (requests : ℕ) (events : List (Event Result)) (s : State Result) : Prop where
  requests_eq : s.requests = requests
  ends : .turn ∈ events → ∃ e, s.phase = .done e
  outcome : ∀ e, s.phase = .done e → e.outcome = .failure cancelledFailure

structure RetriesBounded (context : Context) (aborted : Bool) (events : List (Event Result))
    (s : State Result) : Prop where
  requests_le : s.requests ≤ context.retries + 1
  one_at_a_time : s.answers.length + s.phase.inFlight = s.requests
  resent : ∀ i, i + 1 < s.requests → ∃ error, s.answers[i]? = some (.failed (.engine error)) ∧
    error.data.kind ∈ AutoRetryKinds ∧ error.data.retryable = true
  returned : ∀ result, .success result ∈ s.answers →
    ∃ e, s.phase = .done e ∧ e.outcome = .success result
  attempts : ∀ e, s.phase = .done e → e.attempts = s.requests
  cancelled : ∀ front event rest m, events = front ++ event :: rest →
    runs (step context) (execute context aborted) front = some m → Overtaken m event →
      Cancelled m.requests rest s

/-! ### What has been answered -/

/-- An engine failure that is retried. -/
def Retried (a : Answer Result) : Prop :=
  ∃ error, a = .failed (.engine error) ∧ shouldAutoRetry error.data = true

/-- The answers of an execution, by where it is. -/
def Answered (context : Context) (s : State Result) : Phase Result → Prop
  | .sending => s.answers.length + 1 = s.requests ∧ ∀ a ∈ s.answers, Retried a
  | .failing error => s.answers.length = s.requests ∧
      ∃ front, s.answers = front ++ [.failed error] ∧ ∀ a ∈ front, Retried a
  | .waiting _ => s.answers.length = s.requests ∧ s.requests ≤ context.retries ∧
      s.aborted = false ∧ ∀ a ∈ s.answers, Retried a
  | .resumed => s.answers.length = s.requests ∧ s.requests ≤ context.retries ∧
      ∀ a ∈ s.answers, Retried a
  | .refused => s.answers.length = s.requests ∧ ∀ a ∈ s.answers, Retried a
  | .done e => s.answers.length = s.requests ∧ e.attempts = s.requests ∧
      ∃ front last, s.answers = front ++ [last] ∧ (∀ a ∈ front, Retried a) ∧
        ∀ result, last = .success result → e.outcome = .success result

structure Inv (context : Context) (s : State Result) : Prop where
  attempt : s.attempt = s.requests
  requests_pos : 0 < s.requests
  requests_le : s.requests ≤ context.retries + 1
  answered : Answered context s s.phase

variable {context : Context} {s s' : State Result} {event : Event Result}

theorem inv_execute (aborted : Bool) : Inv context (execute context aborted : State Result) where
  attempt := rfl
  requests_pos := Nat.one_pos
  requests_le := Nat.le_add_left 1 _
  answered := ⟨rfl, fun _ ha => absurd ha List.not_mem_nil⟩

/-- The outcome of an execution, when its last answer fits. -/
theorem Inv.finish {outcome : Outcome Result} {front : List (Answer Result)} {last : Answer Result}
    (h : Inv context s) (hlength : s.answers.length = s.requests)
    (hlast : s.answers = front ++ [last]) (hfront : ∀ a ∈ front, Retried a)
    (houtcome : ∀ result, last = .success result → outcome = .success result) :
    Inv context (s.finish context outcome) where
  attempt := h.attempt
  requests_pos := h.requests_pos
  requests_le := h.requests_le
  answered := ⟨hlength, h.attempt, front, last, hlast, hfront, houtcome⟩

/-- A list of answers that all are retried, taken apart. -/
theorem exists_last (h : s.answers.length = s.requests) (hpos : 0 < s.requests)
    (hall : ∀ a ∈ s.answers, Retried a) : ∃ front last, s.answers = front ++ [last] ∧
      (∀ a ∈ front, Retried a) ∧ Retried last := by
  rcases List.eq_nil_or_concat s.answers with hnil | ⟨front, last, hlast⟩
  · rw [hnil, List.length_nil] at h
    omega
  · rw [List.concat_eq_append] at hlast
    rw [hlast] at hall
    exact ⟨front, last, hlast, fun a ha => hall a (List.mem_append_left _ ha),
      hall last (List.mem_append_right _ (List.mem_singleton_self last))⟩

theorem Retried.ne_success {last : Answer Result} (h : Retried last) (result : Result) :
    last ≠ .success result := by
  obtain ⟨error, rfl, _⟩ := h
  intro hsuccess
  cases hsuccess

theorem Inv.abort (h : Inv context s) (hstep : step context s .abort = some s') :
    Inv context s' := by
  have hanswered := h.answered
  cases hphase : s.phase with
  | waiting due =>
      rw [hphase] at hanswered
      simp only [step, hphase, Option.some.injEq] at hstep
      subst hstep
      exact ⟨h.attempt, h.requests_pos, h.requests_le, hanswered.1, hanswered.2.2.2⟩
  | sending | failing error | resumed | refused | done e =>
      rw [hphase] at hanswered
      simp only [step, hphase, Option.some.injEq] at hstep
      subst hstep
      exact ⟨h.attempt, h.requests_pos, h.requests_le, hanswered⟩

theorem Inv.answer {a : Answer Result} (h : Inv context s)
    (hstep : step context s (.answer a) = some s') : Inv context s' := by
  have hanswered := h.answered
  cases hphase : s.phase with
  | sending =>
      rw [hphase] at hanswered
      have hlength : (s.answers ++ [a]).length = s.requests := by
        rw [List.length_append, List.length_singleton, hanswered.1]
      cases a with
      | success result =>
          simp only [step, hphase, Option.some.injEq] at hstep
          subst hstep
          refine ⟨h.attempt, h.requests_pos, h.requests_le, hlength, h.attempt, s.answers, _, rfl,
            hanswered.2, ?_⟩
          intro result' hresult
          cases hresult
          rfl
      | failed error =>
          simp only [step, hphase, Option.some.injEq] at hstep
          subst hstep
          exact ⟨h.attempt, h.requests_pos, h.requests_le, hlength, s.answers, rfl, hanswered.2⟩
  | failing error | waiting due | resumed | refused | done e =>
      simp only [step, hphase] at hstep
      cases hstep

theorem Inv.handleAttemptFailure {error : AttemptError} (h : Inv context s)
    (hphase : s.phase = .failing error) :
    Inv context (s.handleAttemptFailure context error) := by
  have hanswered := h.answered
  rw [hphase] at hanswered
  obtain ⟨hlength, front, hlast, hfront⟩ := hanswered
  have hfinish : ∀ failure, Inv context (s.finish context (.failure failure)) := fun failure =>
    h.finish hlength hlast hfront fun result hsuccess => by cases hsuccess
  unfold State.handleAttemptFailure
  cases haborted : s.aborted with
  | true => exact hfinish cancelledFailure
  | false =>
      rw [if_neg Bool.false_ne_true]
      cases error with
      | transport detail => exact hfinish (transportFailure detail)
      | engine engineError =>
          dsimp only
          by_cases hretry : shouldAutoRetry engineError.data = true ∧ s.attempt ≤ context.retries
          · rw [if_pos (by simpa using hretry)]
            have hall : ∀ a ∈ s.answers, Retried a := by
              intro a ha
              rw [hlast, List.mem_append, List.mem_singleton] at ha
              rcases ha with ha | rfl
              · exact hfront a ha
              · exact ⟨engineError, rfl, hretry.1⟩
            rw [State.backoff, haborted, if_neg Bool.false_ne_true]
            exact ⟨h.attempt, h.requests_pos, h.requests_le, hlength, h.attempt ▸ hretry.2, rfl, hall⟩
          · rw [if_neg (by simpa using hretry)]
            exact hfinish (engineFailure engineError)

theorem Inv.turn (h : Inv context s)
    (hstep : step context s .turn = some s') : Inv context s' := by
  have hanswered := h.answered
  cases hphase : s.phase with
  | failing error =>
      simp only [step, hphase, Option.some.injEq] at hstep
      exact hstep ▸ h.handleAttemptFailure hphase
  | resumed =>
      rw [hphase] at hanswered
      simp only [step, hphase, Option.some.injEq] at hstep
      subst hstep
      exact ⟨congrArg Nat.succ h.attempt, Nat.succ_pos _, Nat.succ_le_succ hanswered.2.1,
        congrArg Nat.succ hanswered.1, hanswered.2.2⟩
  | refused =>
      rw [hphase] at hanswered
      obtain ⟨front, last, hlast, hfront, hretried⟩ := exists_last hanswered.1 h.requests_pos hanswered.2
      simp only [step, hphase, Option.some.injEq] at hstep
      subst hstep
      exact h.finish hanswered.1 hlast hfront fun result hsuccess =>
        absurd hsuccess (hretried.ne_success result)
  | sending | waiting due | done e =>
      simp only [step, hphase] at hstep
      cases hstep

theorem Inv.timer (h : Inv context s) (hstep : step context s .timer = some s') :
    Inv context s' := by
  have hanswered := h.answered
  cases hphase : s.phase with
  | waiting due =>
      rw [hphase] at hanswered
      simp only [step, hphase] at hstep
      split at hstep
      · cases hstep
        exact ⟨h.attempt, h.requests_pos, h.requests_le, hanswered.1, hanswered.2.1,
          hanswered.2.2.2⟩
      · cases hstep
  | sending | failing error | resumed | refused | done e =>
      simp only [step, hphase] at hstep
      cases hstep

theorem Inv.elapse {ms : ℚ} (h : Inv context s)
    (hstep : step context s (.elapse ms) = some s') : Inv context s' := by
  have hanswered := h.answered
  simp only [step] at hstep
  split at hstep
  · cases hstep
    refine ⟨h.attempt, h.requests_pos, h.requests_le, ?_⟩
    cases hphase : s.phase <;> rw [hphase] at hanswered <;> exact hanswered
  · cases hstep

theorem Inv.step (h : Inv context s) (hstep : step context s event = some s') :
    Inv context s' := by
  cases event with
  | abort => exact h.abort hstep
  | elapse ms => exact h.elapse hstep
  | answer a => exact h.answer hstep
  | timer => exact h.timer hstep
  | turn => exact h.turn hstep

theorem inv_run {aborted : Bool} {events : List (Event Result)}
    (h : runs (QueryEngineClient.step context) (execute context aborted) events = some s) :
    Inv context s :=
  runs_induction h (inv_execute aborted) fun _ _ _ _ hstep hinv => hinv.step hstep

/-! ### Behind an abort -/

/-- The next turn ends the execution as cancelled, unless one has. -/
def Doomed (s : State Result) : Prop :=
  (s.aborted = true ∧ ∃ error, s.phase = .failing error) ∨ s.phase = .refused ∨
    ∃ e, s.phase = .done e ∧ e.outcome = .failure cancelledFailure

/-- Where nothing is waited for by a timer, an abort or time alone changes no phase. -/
theorem step_of_passing (hphase : s.phase.isWaiting = false)
    (hevent : event = .abort ∨ ∃ ms, event = .elapse ms)
    (hstep : step context s event = some s') :
    s'.phase = s.phase ∧ s'.requests = s.requests ∧ (s.aborted = true → s'.aborted = true) := by
  rcases hevent with rfl | ⟨ms, rfl⟩
  · cases hcase : s.phase with
    | waiting due =>
        rw [hcase] at hphase
        cases hphase
    | sending | failing _ | resumed | refused | done _ =>
        simp only [QueryEngineClient.step, hcase, Option.some.injEq] at hstep
        subst hstep
        exact ⟨rfl, rfl, fun _ => rfl⟩
  · simp only [QueryEngineClient.step] at hstep
    split at hstep
    · cases hstep
      exact ⟨rfl, rfl, id⟩
    · cases hstep

theorem Doomed.not_waiting (h : Doomed s) : s.phase.isWaiting = false := by
  rcases h with ⟨_, error, hphase⟩ | hphase | ⟨e, hphase, _⟩ <;> rw [hphase] <;> rfl

/-- A turn ends the execution, if another one has not. -/
theorem Doomed.turn (h : Doomed s) (hstep : step context s .turn = some s') :
    s'.requests = s.requests ∧ ∃ e, s'.phase = .done e ∧ e.outcome = .failure cancelledFailure := by
  rcases h with ⟨haborted, error, hphase⟩ | hphase | ⟨e, hphase, _⟩
  · simp only [QueryEngineClient.step, hphase, Option.some.injEq] at hstep
    have hfinish : s.handleAttemptFailure context error =
        s.finish context (.failure cancelledFailure) := if_pos haborted
    rw [← hstep, hfinish]
    exact ⟨rfl, _, rfl, rfl⟩
  · simp only [QueryEngineClient.step, hphase, Option.some.injEq] at hstep
    subst hstep
    exact ⟨rfl, _, rfl, rfl⟩
  · simp only [QueryEngineClient.step, hphase] at hstep
    cases hstep

theorem Doomed.step (h : Doomed s) (hstep : step context s event = some s') :
    Doomed s' ∧ s'.requests = s.requests ∧
      ((∃ e, s.phase = .done e) ∨ event = .turn → ∃ e, s'.phase = .done e) := by
  have hkeeps : (event = .abort ∨ ∃ ms, event = .elapse ms) → Doomed s' ∧
      s'.requests = s.requests ∧
        ((∃ e, s.phase = .done e) ∨ event = .turn → ∃ e, s'.phase = .done e) := by
    intro hevent
    obtain ⟨hphase, hrequests, haborted⟩ := step_of_passing h.not_waiting hevent hstep
    refine ⟨?_, hrequests, ?_⟩
    · rcases h with ⟨habort, hfailing⟩ | hrefused | hdone
      · exact Or.inl ⟨haborted habort, hphase ▸ hfailing⟩
      · exact Or.inr (Or.inl (hphase.trans hrefused))
      · exact Or.inr (Or.inr (hphase ▸ hdone))
    · rintro (hdone | hturn)
      · exact hphase ▸ hdone
      · rcases hevent with habort | ⟨ms, helapse⟩
        · rw [habort] at hturn
          cases hturn
        · rw [helapse] at hturn
          cases hturn
  cases event with
  | abort => exact hkeeps (Or.inl rfl)
  | elapse ms => exact hkeeps (Or.inr ⟨ms, rfl⟩)
  | turn =>
      obtain ⟨hrequests, e, hphase, houtcome⟩ := h.turn hstep
      exact ⟨Or.inr (Or.inr ⟨e, hphase, houtcome⟩), hrequests, fun _ => ⟨e, hphase⟩⟩
  | answer a =>
      rcases h with ⟨_, error, hphase⟩ | hphase | ⟨e, hphase, _⟩ <;>
        simp only [QueryEngineClient.step, hphase] at hstep <;> cases hstep
  | timer =>
      rcases h with ⟨_, error, hphase⟩ | hphase | ⟨e, hphase, _⟩ <;>
        simp only [QueryEngineClient.step, hphase] at hstep <;> cases hstep

theorem Doomed.run {events : List (Event Result)} (h : Doomed s)
    (hrun : runs (QueryEngineClient.step context) s events = some s') :
    Doomed s' ∧ s'.requests = s.requests ∧
      ((∃ e, s.phase = .done e) ∨ .turn ∈ events → ∃ e, s'.phase = .done e) := by
  induction events generalizing s with
  | nil =>
      cases hrun
      refine ⟨h, rfl, ?_⟩
      rintro (hdone | hturn)
      · exact hdone
      · cases hturn
  | cons event events ih =>
      obtain ⟨m, hm, hrest⟩ := runs_cons.mp hrun
      obtain ⟨hdoomed, hrequests, hdone⟩ := h.step hm
      obtain ⟨hdoomed', hrequests', hdone'⟩ := ih hdoomed hrest
      refine ⟨hdoomed', hrequests'.trans hrequests, ?_⟩
      rintro (hended | hturn)
      · exact hdone' (Or.inl (hdone (Or.inl hended)))
      · rcases List.mem_cons.mp hturn with heq | hturn
        · exact hdone' (Or.inl (hdone (Or.inr heq.symm)))
        · exact hdone' (Or.inr hturn)

theorem Doomed.cancelled {events : List (Event Result)} (h : Doomed s)
    (hrun : runs (QueryEngineClient.step context) s events = some s') :
    Cancelled s.requests events s' := by
  obtain ⟨hdoomed, hrequests, hdone⟩ := h.run hrun
  refine ⟨hrequests, fun hturn => hdone (Or.inr hturn), fun e he => ?_⟩
  rcases hdoomed with ⟨_, error, hphase⟩ | hphase | ⟨e', hphase, houtcome⟩
  · rw [hphase] at he
    cases he
  · rw [hphase] at he
    cases he
  · rw [hphase] at he
    cases he
    exact houtcome

/-- An abort before the failure of an attempt, or before the end of a backoff. -/
theorem doomed_of_overtaken (h : Overtaken s event) (hstep : step context s event = some s') :
    Doomed s' ∧ s'.requests = s.requests := by
  rcases h with ⟨haborted, error, rfl⟩ | ⟨hwaiting, rfl⟩
  · cases hphase : s.phase with
    | sending =>
        simp only [QueryEngineClient.step, hphase, Option.some.injEq] at hstep
        subst hstep
        exact ⟨Or.inl ⟨haborted, error, rfl⟩, rfl⟩
    | failing _ | waiting _ | resumed | refused | done _ =>
        simp only [QueryEngineClient.step, hphase] at hstep
        cases hstep
  · cases hphase : s.phase with
    | waiting due =>
        simp only [QueryEngineClient.step, hphase, Option.some.injEq] at hstep
        subst hstep
        exact ⟨Or.inr (Or.inl rfl), rfl⟩
    | sending | failing _ | resumed | refused | done _ =>
        rw [hphase] at hwaiting
        cases hwaiting

/-! ### Every run -/

/-- An answer that another one follows was retried. -/
theorem Inv.retried (h : Inv context s) {i : ℕ} (hi : i + 1 < s.requests) :
    ∃ a, s.answers[i]? = some a ∧ Retried a := by
  have hall : (∀ a ∈ s.answers, Retried a) → s.requests ≤ s.answers.length + 1 →
      ∃ a, s.answers[i]? = some a ∧ Retried a := by
    intro hretried hlength
    have hlt : i < s.answers.length := by omega
    exact ⟨_, List.getElem?_eq_getElem hlt, hretried _ (List.getElem_mem hlt)⟩
  have hfront : ∀ {front : List (Answer Result)} {last : Answer Result},
      s.answers = front ++ [last] → s.answers.length = s.requests →
        (∀ a ∈ front, Retried a) → ∃ a, s.answers[i]? = some a ∧ Retried a := by
    intro front last hlast hlength hretried
    have hlt : i < front.length := by
      rw [hlast, List.length_append, List.length_singleton] at hlength
      omega
    refine ⟨front[i], ?_, hretried _ (List.getElem_mem hlt)⟩
    rw [hlast, List.getElem?_append_left hlt, List.getElem?_eq_getElem hlt]
  have hanswered := h.answered
  cases hphase : s.phase with
  | sending =>
      rw [hphase] at hanswered
      exact hall hanswered.2 hanswered.1.ge
  | failing error =>
      rw [hphase] at hanswered
      obtain ⟨hlength, front, hlast, hretried⟩ := hanswered
      exact hfront hlast hlength hretried
  | waiting due =>
      rw [hphase] at hanswered
      exact hall hanswered.2.2.2 (hanswered.1 ▸ Nat.le_succ _)
  | resumed =>
      rw [hphase] at hanswered
      exact hall hanswered.2.2 (hanswered.1 ▸ Nat.le_succ _)
  | refused =>
      rw [hphase] at hanswered
      exact hall hanswered.2 (hanswered.1 ▸ Nat.le_succ _)
  | done e =>
      rw [hphase] at hanswered
      obtain ⟨hlength, _, front, last, hlast, hretried, _⟩ := hanswered
      exact hfront hlast hlength hretried

theorem Inv.returned (h : Inv context s) {result : Result}
    (hresult : .success result ∈ s.answers) :
    ∃ e, s.phase = .done e ∧ e.outcome = .success result := by
  have hnone : (∀ a ∈ s.answers, Retried a) → False := fun hall =>
    (hall _ hresult).ne_success result rfl
  have hanswered := h.answered
  cases hphase : s.phase with
  | done e =>
      rw [hphase] at hanswered
      obtain ⟨_, _, front, last, hlast, hretried, houtcome⟩ := hanswered
      rw [hlast, List.mem_append, List.mem_singleton] at hresult
      rcases hresult with hmem | hlast'
      · exact absurd rfl ((hretried _ hmem).ne_success result)
      · exact ⟨e, rfl, houtcome result hlast'.symm⟩
  | failing error =>
      rw [hphase] at hanswered
      obtain ⟨_, front, hlast, hretried⟩ := hanswered
      rw [hlast, List.mem_append, List.mem_singleton] at hresult
      rcases hresult with hmem | hfailed
      · exact absurd rfl ((hretried _ hmem).ne_success result)
      · cases hfailed
  | sending =>
      rw [hphase] at hanswered
      exact (hnone hanswered.2).elim
  | waiting due =>
      rw [hphase] at hanswered
      exact (hnone hanswered.2.2.2).elim
  | resumed =>
      rw [hphase] at hanswered
      exact (hnone hanswered.2.2).elim
  | refused =>
      rw [hphase] at hanswered
      exact (hnone hanswered.2).elim

theorem Inv.one_at_a_time (h : Inv context s) :
    s.answers.length + s.phase.inFlight = s.requests := by
  have hanswered := h.answered
  cases hphase : s.phase <;> rw [hphase] at hanswered <;> exact hanswered.1

/-- Every run of an execution keeps the bound, and every abort counts. -/
theorem execute_bounded (context : Context) (aborted : Bool) (events : List (Event Result))
    (s : State Result)
    (h : runs (QueryEngineClient.step context) (execute context aborted) events = some s) :
    RetriesBounded context aborted events s := by
  have hinv := inv_run h
  refine ⟨hinv.requests_le, hinv.one_at_a_time, fun i hi => ?_, fun result => hinv.returned,
    fun e he => ?_, ?_⟩
  · obtain ⟨a, ha, error, rfl, hretry⟩ := hinv.retried hi
    rw [shouldAutoRetry, Bool.and_eq_true, List.contains_iff_mem] at hretry
    exact ⟨error, ha, hretry.2, hretry.1⟩
  · have hanswered := hinv.answered
    rw [he] at hanswered
    exact hanswered.2.1
  · rintro front event rest m rfl hm hovertaken
    rw [runs, List.foldlM_append] at h
    obtain ⟨m', hm', hrest⟩ := Option.bind_eq_some_iff.mp h
    obtain rfl : m = m' := Option.some.inj (hm.symm.trans hm')
    obtain ⟨n, hn, hrest⟩ := runs_cons.mp hrest
    obtain ⟨hdoomed, hrequests⟩ := doomed_of_overtaken hovertaken hn
    exact hrequests ▸ hdoomed.cancelled hrest

/-- A busy engine, and an abort in the backoff. -/
def busyThenAbort : List (Event Unit) :=
  [.answer (.failed (.engine ⟨-32014, ⟨.queryBusy, true, none, none⟩, text "busy"⟩)), .turn,
    .abort, .turn]

theorem execute_bounded_busy : ∃ s,
    runs (QueryEngineClient.step ⟨text "1", text "SELECT 1", 2, 0⟩)
        (execute ⟨text "1", text "SELECT 1", 2, 0⟩ false) busyThenAbort = some s ∧
      RetriesBounded ⟨text "1", text "SELECT 1", 2, 0⟩ false busyThenAbort s ∧ s.requests = 1 :=
  ⟨_, rfl, execute_bounded _ false busyThenAbort _ rfl, rfl⟩

end WireTools.QueryEngineClient
