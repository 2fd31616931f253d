import WireTools.FinalityWait
import WireTools.Runs

/-! # Runs of a push and its wait

The client's answers come from a chain that goes on between them: it produces blocks, switches
forks and makes blocks final.

* `Event` and `System.step`: the chain moves, or the client gets an answer that is true of the
  chain (`Honest`).  The trace index may say anything;
* `Move`: what an answer can do to the client, in one inductive relation (`move_of_resume`);
* `result_irreversible`: a result with a transaction id is in an irreversible block;
* `at_most_once`: at most one transaction of a call is ever irreversible, where each verdict that
  one is unappliable is given on a dead one;
* `push_bounds`: how often a call pushes, by round. -/

namespace WireTools.WireClient

open ForkableChain

variable {T : Type}

/-! ### The client and the chain -/

structure System (T : Type) where
  chain : Chain Text
  /-- The transactions of the call that a block may take. -/
  signed : List (Timed Text)
  sends : ℕ
  client : Phase T

inductive Event (T : Type) where
  | chain (event : ChainEvent Text)
  /-- An answer, and the transaction that a push signed. -/
  | answer (answer : Answer T) (transaction : Option (Timed Text))

/-- Every push signs a transaction of its own. -/
def Fresh (s : System T) (transaction : Option (Timed Text)) : Prop :=
  ∀ t ∈ transaction, t.id ∉ s.chain.taken ∧ t.id ∉ s.signed.map Timed.id

/-- Answers that are true of the chain.  A push that is proven not applied leaves no transaction, and
one that returns an id has signed the transaction of that id. -/
def Honest (call : Call T) (s : System T) :
    Query → Answer T → Option (Timed Text) → Prop
  | .now, .time _, none => True
  | .delay _, .woken, none => True
  | .send, .sent result, transaction => Fresh s transaction ∧
      ∀ id ∈ call.realId result, transaction.map Timed.id = some id
  | .send, .sendFailed provenUnapplied, transaction => Fresh s transaction ∧
      (provenUnapplied = true → transaction = none)
  | .getTransaction _, .trace _, none => True
  | .getTransaction _, .failed, none => True
  | .getInfo, .info info, none => info.head = s.chain.blocks.length ∧
      info.lib = s.chain.final.length ∧ info.headTimeMs = s.chain.headTime
  | .getInfo, .failed, none => True
  | .getBlock height, .block transactions, none =>
      (s.chain.blockAt height).map Block.items = some transactions
  | .getBlock _, .failed, none => True
  | _, _, _ => False

instance (s : System T) (transaction : Option (Timed Text)) : Decidable (Fresh s transaction) :=
  inferInstanceAs (Decidable (∀ t ∈ transaction, _))

instance (call : Call T) (s : System T) (query : Query) (answer : Answer T)
    (transaction : Option (Timed Text)) : Decidable (Honest call s query answer transaction) := by
  unfold Honest
  split <;> infer_instance

def System.step (call : Call T) (s : System T) : Event T → Option (System T)
  | .chain event => (s.chain.step s.signed event).map fun chain => { s with chain := chain }
  | .answer answer transaction =>
      match s.client.ask with
      | none => none
      | some query =>
          if Honest call s query answer transaction then
            (s.client.resume call answer).map fun client =>
              { chain := s.chain
                signed := transaction.toList ++ s.signed
                sends := if query = .send then s.sends + 1 else s.sends
                client := client }
          else none

def System.start (chain : Chain Text) : System T :=
  ⟨chain, [], 0, withFinality⟩

/-! ### What an answer can do -/

/-- The push that a phase follows. -/
def Phase.following : Phase T → Option (Wait T)
  | .budget wait => some wait
  | .remaining wait _ => some wait
  | .searchStart wait _ _ => some wait
  | .traceClock search => some search.wait
  | .trace search => some search.wait
  | .traceAhead search => some search.wait
  | .tracePause search => some search.wait
  | .searchHead search _ => some search.wait
  | .scanClock scan => some scan.search.wait
  | .scanHead scan => some scan.search.wait
  | .scanBehind scan => some scan.search.wait
  | .scanPause scan => some scan.search.wait
  | .scanBlock scan => some scan.search.wait
  | .pollClock poll => some poll.wait
  | .pollLib poll => some poll.wait
  | .pollBlock poll => some poll.wait
  | .pollLocate poll => some poll.wait
  | .pollPause poll => some poll.wait
  | .locate wait _ => some wait
  | .appliedLib wait _ => some wait
  | .absentLib wait _ => some wait
  | .absentTime wait _ _ => some wait
  | _ => none

/-- The height that was found to be irreversible. -/
def Phase.checked : Phase T → Option ℕ
  | .pollBlock poll => some poll.height
  | _ => none

/-- Whether a phase follows a push, and has checked no height. -/
def Phase.Follows (phase : Phase T) (wait : Wait T) : Prop :=
  phase.following = some wait ∧ phase.checked = none

inductive Move (call : Call T) : Phase T → Answer T → Phase T → Prop where
  | stamp (attempt : ℕ) (ms : ℤ) : Move call (.stamp attempt) (.time ms) (.push attempt ms 1)
  | again (attempt : ℕ) (pushedAtMs : ℤ) (n : ℕ) :
      Move call (.pushPause attempt pushedAtMs n) .woken (.push attempt pushedAtMs (n + 1))
  | pushed (attempt : ℕ) (pushedAtMs : ℤ) (n : ℕ) (result : T) :
      Move call (.push attempt pushedAtMs n) (.sent result) (pushed call attempt pushedAtMs result)
  | pushFailed (attempt : ℕ) (pushedAtMs : ℤ) (n : ℕ) (provenUnapplied : Bool) :
      Move call (.push attempt pushedAtMs n) (.sendFailed provenUnapplied)
        (pushFailed attempt pushedAtMs n provenUnapplied)
  | follow {phase phase' : Phase T} {answer : Answer T} {wait : Wait T}
      (h : phase.following = some wait) (h' : phase'.Follows wait) : Move call phase answer phase'
  | check (poll : Poll T) (info : Info) (h : poll.height ≤ info.lib) :
      Move call (.pollLib poll) (.info info) (.pollBlock poll)
  | found (poll : Poll T) (transactions : List Text)
      (h : poll.wait.transactionId ∈ transactions) :
      Move call (.pollBlock poll) (.block transactions) (.done (.ok poll.wait.result))
  | included {phase : Phase T} {answer : Answer T} {wait : Wait T}
      (h : phase.following = some wait) (hfinality : call.finality ≠ .irreversible) :
      Move call phase answer (.done (.ok wait.result))
  | giveUp {phase : Phase T} {answer : Answer T} {wait : Wait T}
      (h : phase.following = some wait) (kind : FinalityOutcome) (blockNum lib : Option ℕ) :
      Move call phase answer (throwFinality kind wait blockNum lib)
  | pushAgain (wait : Wait T) (blockNum lib : Option ℕ) (info : Info)
      (h : expired wait info.headTimeMs = true) (hattempt : wait.attempt < FinalityMaxAttempts) :
      Move call (.absentTime wait blockNum lib) (.info info) (.stamp (wait.attempt + 1))

variable {call : Call T}

theorem pushed_cases (call : Call T) (attempt : ℕ) (pushedAtMs : ℤ) (result : T) :
    (∃ id, call.realId result = some id ∧
      pushed call attempt pushedAtMs result = .budget ⟨attempt, pushedAtMs, result, id⟩) ∨
    (call.realId result = none ∧ pushed call attempt pushedAtMs result = .done (.ok result)) := by
  unfold pushed
  cases hreal : call.realId result with
  | some id => exact Or.inl ⟨id, rfl, rfl⟩
  | none => exact Or.inr ⟨rfl, rfl⟩

/-- A push is run again where it is proven not applied, and not too often. -/
theorem pushFailed_cases (attempt : ℕ) (pushedAtMs : ℤ) (n : ℕ) (provenUnapplied : Bool) :
    (provenUnapplied = true ∧ n < PushMaxAttempts ∧
      pushFailed attempt pushedAtMs n provenUnapplied = Phase.pushPause (T := T) attempt pushedAtMs n) ∨
    ∃ failure, pushFailed attempt pushedAtMs n provenUnapplied =
      Phase.done (T := T) (.error failure) := by
  unfold pushFailed
  split
  · next hproven =>
      split
      · exact Or.inr ⟨_, rfl⟩
      · next hn => exact Or.inl ⟨hproven, by omega, rfl⟩
  · exact Or.inr ⟨_, rfl⟩

theorem follows_scanBlocks (scan : Scan T) : (scanBlocks scan).Follows scan.search.wait := by
  unfold scanBlocks
  split <;> exact ⟨rfl, rfl⟩

theorem follows_scanFrom (search : Search T) (refBlockNum : Option ℕ) (headBlock : ℕ) :
    (scanFrom search refBlockNum headBlock).Follows search.wait :=
  follows_scanBlocks _

theorem move_time {phase phase' : Phase T} {ms : ℤ} (h : answeredTime call ms phase = some phase') :
    Move call phase (.time ms) phase' := by
  cases phase with
  | stamp attempt =>
      cases h
      exact .stamp attempt ms
  | budget wait | remaining wait deadlineMs | searchStart wait deadlineMs timeoutMs =>
      cases h
      exact .follow rfl ⟨rfl, rfl⟩
  | traceClock search | traceAhead search | scanClock scan | scanBehind scan | pollClock poll =>
      simp only [answeredTime, Option.some.injEq] at h
      subst h
      split <;> exact .follow rfl ⟨rfl, rfl⟩
  | _ => cases h

theorem move_woken {phase phase' : Phase T} (h : answeredWoken phase = some phase') :
    Move call phase .woken phase' := by
  cases phase with
  | pushPause attempt pushedAtMs n =>
      cases h
      exact .again attempt pushedAtMs n
  | tracePause search | scanPause scan | pollPause poll =>
      cases h
      exact .follow rfl ⟨rfl, rfl⟩
  | _ => cases h

theorem move_trace {phase phase' : Phase T} {blockNum : Option ℕ}
    (h : answeredTrace blockNum phase = some phase') : Move call phase (.trace blockNum) phase' := by
  cases phase with
  | trace search | pollLocate poll | locate wait seen =>
      simp only [answeredTrace, Option.some.injEq] at h
      subst h
      split <;> exact .follow rfl ⟨rfl, rfl⟩
  | _ => cases h

theorem move_info {phase phase' : Phase T} {info : Info}
    (h : answeredInfo info phase = some phase') : Move call phase (.info info) phase' := by
  cases phase with
  | searchHead search refBlockNum =>
      cases h
      exact .follow rfl (follows_scanFrom search refBlockNum info.head)
  | scanHead scan =>
      simp only [answeredInfo, Option.some.injEq] at h
      subst h
      split <;> exact .follow rfl ⟨rfl, rfl⟩
  | pollLib poll =>
      simp only [answeredInfo, Option.some.injEq] at h
      subst h
      split
      · next hheight => exact .check poll info hheight
      · exact .follow rfl ⟨rfl, rfl⟩
  | appliedLib wait blockNum =>
      cases h
      exact .giveUp rfl _ _ _
  | absentLib wait blockNum =>
      cases h
      exact .follow rfl ⟨rfl, rfl⟩
  | absentTime wait blockNum lib =>
      simp only [answeredInfo, Option.some.injEq] at h
      subst h
      split
      · next hexpired =>
          unfold unappliable
          split
          · next hattempt => exact .pushAgain wait blockNum lib info hexpired hattempt
          · exact .giveUp rfl _ _ _
      · exact .giveUp rfl _ _ _
  | _ => cases h

theorem move_block {phase phase' : Phase T} {transactions : List Text}
    (h : answeredBlock call transactions phase = some phase') :
    Move call phase (.block transactions) phase' := by
  cases phase with
  | scanBlock scan =>
      simp only [answeredBlock, Option.some.injEq] at h
      subst h
      split
      · unfold located
        split
        · exact .follow rfl ⟨rfl, rfl⟩
        · next hfinality => exact .included rfl hfinality
      · exact .follow rfl (follows_scanBlocks _)
  | pollBlock poll =>
      simp only [answeredBlock, Option.some.injEq] at h
      subst h
      split
      · next hmem => exact .found poll transactions hmem
      · exact .follow rfl ⟨rfl, rfl⟩
  | _ => cases h

theorem move_failed {phase phase' : Phase T} (h : answeredFailed phase = some phase') :
    Move call phase .failed phase' := by
  cases phase with
  | appliedLib wait blockNum | absentTime wait blockNum lib =>
      cases h
      exact .giveUp rfl _ _ _
  | trace | searchHead | scanHead | scanBlock | pollLib | pollBlock | pollLocate | locate
  | absentLib =>
      cases h
      exact .follow rfl ⟨rfl, rfl⟩
  | _ => cases h

theorem move_of_resume {phase phase' : Phase T} {answer : Answer T}
    (h : phase.resume call answer = some phase') : Move call phase answer phase' := by
  cases answer with
  | time ms => exact move_time h
  | woken => exact move_woken h
  | sent result =>
      cases phase with
      | push attempt pushedAtMs n =>
          cases h
          exact .pushed attempt pushedAtMs n result
      | _ => cases h
  | sendFailed provenUnapplied =>
      cases phase with
      | push attempt pushedAtMs n =>
          cases h
          exact .pushFailed attempt pushedAtMs n provenUnapplied
      | _ => cases h
  | trace blockNum => exact move_trace h
  | info info => exact move_info h
  | block transactions => exact move_block h
  | failed => exact move_failed h

/-! ### Steps of the system -/

/-- The chain moves, or the client by an answer that is true of the chain. -/
theorem step_cases {s s' : System T} {event : Event T} (h : s.step call event = some s') :
    (∃ move chain, event = .chain move ∧ s.chain.step s.signed move = some chain ∧
      s' = { s with chain := chain }) ∨
    ∃ query answer transaction client, event = .answer answer transaction ∧
      s.client.ask = some query ∧ Honest call s query answer transaction ∧
        Move call s.client answer client ∧
          s' = ⟨s.chain, transaction.toList ++ s.signed,
            if query = .send then s.sends + 1 else s.sends, client⟩ := by
  cases event with
  | chain move =>
      obtain ⟨chain, hchain, hs⟩ := Option.map_eq_some_iff.mp h
      exact Or.inl ⟨move, chain, rfl, hchain, hs.symm⟩
  | answer answer transaction =>
      unfold System.step at h
      cases hask : s.client.ask with
      | none =>
          rw [hask] at h
          cases h
      | some query =>
          rw [hask] at h
          dsimp only at h
          split at h
          · next hhonest =>
              obtain ⟨client, hclient, hs⟩ := Option.map_eq_some_iff.mp h
              exact Or.inr ⟨query, answer, transaction, client, rfl, rfl, hhonest,
                move_of_resume hclient, hs.symm⟩
          · cases h

theorem fresh_none (s : System T) : Fresh s none :=
  fun _ ht => by cases ht

/-- Only a push signs a transaction. -/
theorem transaction_of_honest {s : System T} {query : Query} {answer : Answer T}
    {transaction : Option (Timed Text)} (h : Honest call s query answer transaction) :
    Fresh s transaction ∧ (query ≠ .send → transaction = none) := by
  unfold Honest at h
  split at h
  · exact ⟨fresh_none s, fun _ => rfl⟩
  · exact ⟨fresh_none s, fun _ => rfl⟩
  · exact ⟨h.1, fun hsend => absurd rfl hsend⟩
  · exact ⟨h.1, fun hsend => absurd rfl hsend⟩
  all_goals first
    | exact h.elim
    | exact ⟨fresh_none s, fun _ => rfl⟩

theorem ask_of_following {phase : Phase T} {wait : Wait T} (h : phase.following = some wait) :
    phase.ask ≠ some .send := by
  cases phase with
  | stamp | push | pushPause | done => cases h
  | _ => simp [Phase.ask]

/-! ### The chain stays valid -/

structure Sound (s : System T) : Prop where
  valid : Valid s.signed s.chain
  distinct : (s.signed.map Timed.id).Nodup

theorem Sound.step {s s' : System T} {event : Event T} (hsound : Sound s)
    (h : s.step call event = some s') : Sound s' := by
  rcases step_cases h with ⟨move, chain, rfl, hchain, rfl⟩ |
    ⟨query, answer, transaction, client, rfl, _, hhonest, _, rfl⟩
  · exact ⟨hsound.valid.step hchain, hsound.distinct⟩
  · obtain ⟨hfresh, _⟩ := transaction_of_honest hhonest
    cases transaction with
    | none => exact ⟨hsound.valid, hsound.distinct⟩
    | some t =>
        obtain ⟨hchain, hsigned⟩ := hfresh t rfl
        exact ⟨hsound.valid.cons hchain, List.nodup_cons.mpr ⟨hsigned, hsound.distinct⟩⟩

/-! ### A result is irreversible -/

/-- What the client knows of the push it follows. -/
structure Knows (call : Call T) (s : System T) : Prop where
  real : ∀ wait, s.client.following = some wait → call.realId wait.result = some wait.transactionId
  checked : ∀ height, s.client.checked = some height → height ≤ s.chain.final.length
  result : ∀ result, s.client = .done (.ok result) → ∀ id, call.realId result = some id →
    id ∈ s.chain.finalItems

theorem Knows.of_follows {chain : Chain Text} {signed : List (Timed Text)} {sends : ℕ}
    {client : Phase T} {wait : Wait T}
    (hreal : call.realId wait.result = some wait.transactionId) (h : client.Follows wait) :
    Knows call ⟨chain, signed, sends, client⟩ := by
  refine ⟨fun wait' hwait' => ?_, fun height hheight => ?_, fun result hresult => ?_⟩
  · obtain rfl := Option.some.inj (h.1.symm.trans hwait')
    exact hreal
  · exact absurd (h.2.symm.trans hheight) (by simp)
  · have hfollowing := h.1
    rw [show client = .done (.ok result) from hresult] at hfollowing
    cases hfollowing

/-- A phase that follows nothing and has no result. -/
theorem Knows.of_none {s : System T} (h : s.client.following = none)
    (hresult : ∀ result, s.client ≠ .done (.ok result)) : Knows call s := by
  refine ⟨fun wait hwait => ?_, fun height hheight => ?_, fun result heq => absurd heq (hresult _)⟩
  · rw [h] at hwait
    cases hwait
  · cases hclient : s.client with
    | pollBlock poll =>
        rw [hclient] at h
        cases h
    | _ =>
        rw [hclient] at hheight
        cases hheight

theorem Knows.step {s s' : System T} {event : Event T} (hfinality : call.finality = .irreversible)
    (hknows : Knows call s) (h : s.step call event = some s') : Knows call s' := by
  rcases step_cases h with ⟨move, chain, rfl, hchain, rfl⟩ |
    ⟨query, answer, transaction, client, rfl, hask, hhonest, hmove, rfl⟩
  · refine ⟨hknows.real, fun height hheight => ?_, fun result hresult id hid => ?_⟩
    · exact Nat.le_trans (hknows.checked height hheight) (final_step hchain).length_le
    · exact finalItems_step hchain (hknows.result result hresult id hid)
  · obtain ⟨chain, signed, sends, phase⟩ := s
    dsimp only at hmove hask hknows ⊢
    generalize (if query = .send then sends + 1 else sends) = total
    cases hmove with
    | stamp | again => exact .of_none rfl fun result heq => by cases heq
    | pushed attempt pushedAtMs n result =>
        rcases pushed_cases call attempt pushedAtMs result with ⟨id, hid, heq⟩ | ⟨hnone, heq⟩
        · have hfollows : (Phase.budget ⟨attempt, pushedAtMs, result, id⟩).Follows
              ⟨attempt, pushedAtMs, result, id⟩ := ⟨rfl, rfl⟩
          rw [heq]
          exact .of_follows hid hfollows
        · rw [heq]
          refine ⟨fun wait hwait => (by cases hwait), fun height hheight => (by cases hheight), ?_⟩
          rintro _ ⟨⟩ id hid
          rw [hnone] at hid
          cases hid
    | pushFailed attempt pushedAtMs n provenUnapplied =>
        rcases pushFailed_cases (T := T) attempt pushedAtMs n provenUnapplied with
          ⟨_, _, heq⟩ | ⟨failure, heq⟩ <;>
        · rw [heq]
          exact .of_none rfl fun result heq => by cases heq
    | follow hfollowing hfollows =>
        exact .of_follows (hknows.real _ hfollowing) hfollows
    | check poll info hheight =>
        cases hask
        obtain ⟨_, hlib, _⟩ : info.head = chain.blocks.length ∧ info.lib = chain.final.length ∧
            info.headTimeMs = chain.headTime := by
          cases transaction with
          | none => exact hhonest
          | some t => exact hhonest.elim
        refine ⟨fun wait hwait => hknows.real wait hwait, ?_, fun result heq => by cases heq⟩
        rintro _ ⟨⟩
        show poll.height ≤ chain.final.length
        omega
    | found poll transactions hmem =>
        cases hask
        have hblock : (chain.blockAt poll.height).map Block.items = some transactions := by
          cases transaction with
          | none => exact hhonest
          | some t => exact hhonest.elim
        obtain ⟨block, hat, rfl⟩ := Option.map_eq_some_iff.mp hblock
        have hfinal := final_of_blockAt hat (hknows.checked poll.height rfl)
        refine ⟨fun wait hwait => (by cases hwait), fun height hheight => (by cases hheight), ?_⟩
        rintro _ ⟨⟩ id hid
        obtain rfl := Option.some.inj ((hknows.real poll.wait rfl).symm.trans hid)
        exact List.mem_flatMap.mpr ⟨block, hfinal, hmem⟩
    | included hfollowing hother => exact absurd hfinality hother
    | giveUp hfollowing kind blockNum lib => exact .of_none rfl fun result heq => by cases heq
    | pushAgain wait blockNum lib info hexpired hattempt =>
        exact .of_none rfl fun result heq => by cases heq

/-! ### At most once -/

/-- Whether the client is about to push. -/
def Phase.pushing : Phase T → Bool
  | .stamp _ => true
  | .push _ _ _ => true
  | .pushPause _ _ _ => true
  | _ => false

/-- All transactions of the call but the one that is followed are dead. -/
structure Followed (s : System T) : Prop where
  pushing : s.client.pushing = true → ∀ t ∈ s.signed, Dead s.chain t
  following : ∀ wait, s.client.following = some wait →
    ∀ t ∈ s.signed, t.id = wait.transactionId ∨ Dead s.chain t
  one : ∃ id, ∀ t ∈ s.signed, t.id = id ∨ Dead s.chain t

/-- The verdict that a transaction is unappliable is given on a dead one. -/
def VerdictsDead (s : System T) : Event T → Prop
  | .answer (.info info) _ =>
      match s.client with
      | .absentTime wait _ _ => expired wait info.headTimeMs = true →
          ∀ t ∈ s.signed, t.id = wait.transactionId → Dead s.chain t
      | _ => True
  | _ => True

instance (s : System T) (event : Event T) : Decidable (VerdictsDead s event) := by
  unfold VerdictsDead
  split
  · split <;> infer_instance
  · infer_instance

section Following

variable {chain : Chain Text} {signed : List (Timed Text)} {sends : ℕ} {client : Phase T}

theorem Followed.of_pushing (h : ∀ t ∈ signed, Dead chain t) (hclient : client.following = none) :
    Followed ⟨chain, signed, sends, client⟩ := by
  refine ⟨fun _ => h, fun wait hwait => ?_, [], fun t ht => Or.inr (h t ht)⟩
  rw [show client.following = none from hclient] at hwait
  cases hwait

theorem Followed.of_following {wait : Wait T}
    (h : ∀ t ∈ signed, t.id = wait.transactionId ∨ Dead chain t)
    (hclient : client.following = some wait) : Followed ⟨chain, signed, sends, client⟩ := by
  refine ⟨fun hpushing => ?_, fun wait' hwait' => ?_, wait.transactionId, h⟩
  · exfalso
    revert hclient hpushing
    cases client <;> simp [Phase.pushing, Phase.following]
  · obtain rfl := Option.some.inj (hclient.symm.trans hwait')
    exact h

theorem Followed.of_done {id : Text} {outcome : Except Failure T}
    (h : ∀ t ∈ signed, t.id = id ∨ Dead chain t) : Followed ⟨chain, signed, sends, .done outcome⟩ :=
  ⟨fun hpushing => (by cases hpushing), fun _ hwait => (by cases hwait), id, h⟩

/-- A push that ends the call leaves at most its own transaction. -/
theorem Followed.of_last {transaction : Option (Timed Text)} {outcome : Except Failure T}
    (h : ∀ t ∈ signed, Dead chain t) :
    Followed ⟨chain, transaction.toList ++ signed, sends, .done outcome⟩ := by
  cases transaction with
  | none => exact @Followed.of_done _ _ _ _ [] _ fun t ht => Or.inr (h t ht)
  | some last =>
      refine @Followed.of_done _ _ _ _ last.id _ fun t ht => ?_
      rcases List.mem_cons.mp ht with rfl | ht
      · exact Or.inl rfl
      · exact Or.inr (h t ht)

end Following

theorem Followed.chain {s : System T} (hsound : Sound s) (hfollowed : Followed s)
    {move : ChainEvent Text} {chain : Chain Text} (h : s.chain.step s.signed move = some chain) :
    Followed { s with chain := chain } := by
  have hdead : ∀ t ∈ s.signed, Dead s.chain t → Dead chain t :=
    fun t ht hdead => hdead.step hsound.valid ht h
  obtain ⟨id, hone⟩ := hfollowed.one
  refine ⟨fun hpushing t ht => hdead t ht (hfollowed.pushing hpushing t ht),
    fun wait hwait t ht => ?_, id, fun t ht => ?_⟩
  · exact (hfollowed.following wait hwait t ht).imp_right (hdead t ht)
  · exact (hone t ht).imp_right (hdead t ht)

/-- A step by which the client goes on with the push that it follows, or ends with it. -/
theorem Followed.signed_eq {phase : Phase T} {wait : Wait T} {query : Query}
    {transaction : Option (Timed Text)} (h : phase.following = some wait)
    (hask : phase.ask = some query) (honly : query ≠ .send → transaction = none) :
    transaction = none :=
  honly fun hsend => ask_of_following h (hsend ▸ hask)

theorem Followed.step {s s' : System T} {event : Event T} (hsound : Sound s)
    (hverdict : VerdictsDead s event) (hfollowed : Followed s) (h : s.step call event = some s') :
    Followed s' := by
  rcases step_cases h with ⟨move, chain, rfl, hchain, rfl⟩ |
    ⟨query, answer, transaction, client, rfl, hask, hhonest, hmove, rfl⟩
  · exact hfollowed.chain hsound hchain
  · obtain ⟨chain, signed, sends, phase⟩ := s
    obtain ⟨_, honly⟩ := transaction_of_honest hhonest
    obtain ⟨id, hone⟩ := hfollowed.one
    have hpushing := hfollowed.pushing
    have hfollowing := hfollowed.following
    dsimp only at hmove hask hone hpushing hfollowing ⊢
    generalize (if query = .send then sends + 1 else sends) = total
    cases hmove with
    | stamp | again =>
        cases hask
        obtain rfl := honly (by simp)
        exact .of_pushing (hpushing rfl) rfl
    | pushed attempt pushedAtMs n result =>
        cases hask
        rcases pushed_cases call attempt pushedAtMs result with ⟨real, hreal, heq⟩ | ⟨_, heq⟩
        · obtain ⟨t, rfl, hid⟩ := Option.map_eq_some_iff.mp (hhonest.2 real hreal)
          rw [heq]
          refine @Followed.of_following _ _ _ _ _ ⟨attempt, pushedAtMs, result, real⟩ (fun t' ht' => ?_)
            rfl
          rcases List.mem_cons.mp ht' with rfl | ht'
          · exact Or.inl hid
          · exact Or.inr (hpushing rfl t' ht')
        · rw [heq]
          exact .of_last (hpushing rfl)
    | pushFailed attempt pushedAtMs n provenUnapplied =>
        cases hask
        rcases pushFailed_cases (T := T) attempt pushedAtMs n provenUnapplied with
          ⟨hproven, _, heq⟩ | ⟨failure, heq⟩
        · obtain rfl := hhonest.2 hproven
          rw [heq]
          exact .of_pushing (hpushing rfl) rfl
        · rw [heq]
          exact .of_last (hpushing rfl)
    | follow hphase hfollows =>
        obtain rfl := Followed.signed_eq hphase hask honly
        exact .of_following (hfollowing _ hphase) hfollows.1
    | check poll info hheight =>
        obtain rfl := @Followed.signed_eq _ (.pollLib poll) poll.wait _ _ rfl hask honly
        exact .of_following (hfollowing poll.wait rfl) rfl
    | found poll transactions hmem =>
        obtain rfl := @Followed.signed_eq _ (.pollBlock poll) poll.wait _ _ rfl hask honly
        exact .of_done hone
    | included hphase hother =>
        obtain rfl := Followed.signed_eq hphase hask honly
        exact .of_done hone
    | giveUp hphase kind blockNum lib =>
        obtain rfl := Followed.signed_eq hphase hask honly
        exact .of_done hone
    | pushAgain wait blockNum lib info hexpired hattempt =>
        obtain rfl := @Followed.signed_eq _ (.absentTime wait blockNum lib) wait _ _ rfl hask honly
        refine .of_pushing (fun t ht => ?_) rfl
        exact (hfollowing wait rfl t ht).elim (hverdict hexpired t ht) fun hdead => hdead

/-! ### How often a call pushes -/

/-- The pushes that have been made and the transactions that they may have left, by the phase. -/
def Phase.Within (sends signed : ℕ) : Phase T → Prop
  | .stamp attempt => 1 ≤ attempt ∧ attempt ≤ FinalityMaxAttempts ∧
      sends + PushMaxAttempts ≤ attempt * PushMaxAttempts ∧ signed + 1 ≤ attempt
  | .push attempt _ n => 1 ≤ n ∧ n ≤ PushMaxAttempts ∧ attempt ≤ FinalityMaxAttempts ∧
      sends + PushMaxAttempts + 1 ≤ attempt * PushMaxAttempts + n ∧ signed + 1 ≤ attempt
  | .pushPause attempt _ n => n < PushMaxAttempts ∧ attempt ≤ FinalityMaxAttempts ∧
      sends + PushMaxAttempts ≤ attempt * PushMaxAttempts + n ∧ signed + 1 ≤ attempt
  | phase =>
      match phase.following with
      | some wait => wait.attempt ≤ FinalityMaxAttempts ∧
          sends ≤ wait.attempt * PushMaxAttempts ∧ signed ≤ wait.attempt
      | none => sends ≤ FinalityMaxAttempts * PushMaxAttempts ∧ signed ≤ FinalityMaxAttempts

section Bounds

variable {sends signed : ℕ} {phase : Phase T}

theorem within_following {wait : Wait T} (h : phase.following = some wait) :
    phase.Within sends signed ↔ wait.attempt ≤ FinalityMaxAttempts ∧
      sends ≤ wait.attempt * PushMaxAttempts ∧ signed ≤ wait.attempt := by
  cases phase with
  | stamp | push | pushPause | done => cases h
  | _ =>
      cases h
      exact Iff.rfl

theorem within_done {outcome : Except Failure T} :
    (Phase.done outcome).Within sends signed ↔
      sends ≤ FinalityMaxAttempts * PushMaxAttempts ∧ signed ≤ FinalityMaxAttempts :=
  Iff.rfl

theorem within_total (h : phase.Within sends signed) :
    sends ≤ FinalityMaxAttempts * PushMaxAttempts ∧ signed ≤ FinalityMaxAttempts := by
  cases hfollowing : phase.following with
  | some wait =>
      rw [within_following hfollowing] at h
      unfold FinalityMaxAttempts PushMaxAttempts at *
      omega
  | none =>
      cases phase with
      | stamp | push | pushPause =>
          unfold Phase.Within FinalityMaxAttempts PushMaxAttempts at *
          omega
      | done => exact h
      | _ => cases hfollowing

end Bounds

theorem length_toList_le (transaction : Option (Timed Text)) (signed : List (Timed Text)) :
    (transaction.toList ++ signed).length ≤ signed.length + 1 := by
  cases transaction with
  | none => exact Nat.le_succ _
  | some t => exact Nat.le_refl _

theorem within_step {s s' : System T} {event : Event T}
    (hwithin : s.client.Within s.sends s.signed.length) (h : s.step call event = some s') :
    s'.client.Within s'.sends s'.signed.length := by
  rcases step_cases h with ⟨move, chain, rfl, _, rfl⟩ |
    ⟨query, answer, transaction, client, rfl, hask, hhonest, hmove, rfl⟩
  · exact hwithin
  · obtain ⟨chain, signed, sends, phase⟩ := s
    obtain ⟨_, honly⟩ := transaction_of_honest hhonest
    have hlength := length_toList_le transaction signed
    dsimp only at hmove hask hwithin ⊢
    -- A step that follows the same push leaves both numbers as they are.
    have hsame : ∀ wait, phase.following = some wait → transaction = none ∧ query ≠ .send :=
      fun wait hphase => ⟨Followed.signed_eq hphase hask honly,
        fun hsend => ask_of_following hphase (hsend ▸ hask)⟩
    cases hmove with
    | stamp attempt ms =>
        cases hask
        obtain rfl := honly (by simp)
        unfold Phase.Within PushMaxAttempts at *
        simp only [reduceCtorEq, if_false, Option.toList_none, List.nil_append]
        omega
    | again attempt pushedAtMs n =>
        cases hask
        obtain rfl := honly (by simp)
        unfold Phase.Within PushMaxAttempts at *
        simp only [reduceCtorEq, if_false, Option.toList_none, List.nil_append]
        omega
    | pushed attempt pushedAtMs n result =>
        cases hask
        rw [if_pos rfl]
        rcases pushed_cases call attempt pushedAtMs result with ⟨real, _, heq⟩ | ⟨_, heq⟩
        · rw [heq, @within_following _ _ _ (.budget ⟨attempt, pushedAtMs, result, real⟩) _ rfl]
          unfold Phase.Within PushMaxAttempts FinalityMaxAttempts at *
          dsimp only
          omega
        · rw [heq, within_done]
          unfold Phase.Within PushMaxAttempts FinalityMaxAttempts at *
          omega
    | pushFailed attempt pushedAtMs n provenUnapplied =>
        cases hask
        rw [if_pos rfl]
        rcases pushFailed_cases (T := T) attempt pushedAtMs n provenUnapplied with
          ⟨hproven, hn, heq⟩ | ⟨failure, heq⟩
        · obtain rfl := hhonest.2 hproven
          rw [heq]
          unfold Phase.Within PushMaxAttempts at *
          simp only [Option.toList_none, List.nil_append]
          omega
        · rw [heq, within_done]
          unfold Phase.Within PushMaxAttempts FinalityMaxAttempts at *
          omega
    | follow hphase hfollows =>
        obtain ⟨rfl, hquery⟩ := hsame _ hphase
        rw [within_following hphase] at hwithin
        rw [within_following hfollows.1, if_neg hquery]
        exact hwithin
    | check poll info hheight =>
        obtain ⟨rfl, hquery⟩ := hsame poll.wait rfl
        rw [if_neg hquery]
        exact hwithin
    | found poll transactions hmem =>
        obtain ⟨rfl, hquery⟩ := hsame poll.wait rfl
        rw [if_neg hquery]
        exact within_total hwithin
    | included hphase hother =>
        obtain ⟨rfl, hquery⟩ := hsame _ hphase
        rw [if_neg hquery]
        exact within_total hwithin
    | giveUp hphase kind blockNum lib =>
        obtain ⟨rfl, hquery⟩ := hsame _ hphase
        rw [if_neg hquery]
        exact within_total hwithin
    | pushAgain wait blockNum lib info hexpired hattempt =>
        obtain ⟨rfl, hquery⟩ := hsame wait rfl
        rw [if_neg hquery]
        have hwait := (@within_following _ _ _ (.absentTime wait blockNum lib) wait rfl).mp hwithin
        unfold Phase.Within PushMaxAttempts FinalityMaxAttempts at *
        simp only [Option.toList_none, List.nil_append]
        omega

/-! ### How often a round pushes -/

/-- The round that an event pushes in. -/
def System.pushRound (s : System T) : Event T → Option ℕ
  | .chain _ => none
  | .answer _ _ =>
      match s.client with
      | .push attempt _ _ => some attempt
      | _ => none

/-- The pushes of one round in a run. -/
def roundSends (call : Call T) (round : ℕ) : System T → List (Event T) → ℕ
  | _, [] => 0
  | s, event :: events =>
      match s.step call event with
      | some s' =>
          (if s.pushRound event = some round then 1 else 0) + roundSends call round s' events
      | none => 0

/-- What is left for a round after the rounds up to `attempt`. -/
def roundLeft (round attempt : ℕ) : ℕ :=
  if attempt < round ∧ round ≤ FinalityMaxAttempts then PushMaxAttempts else 0

/-- The pushes of a round that may still come from a phase. -/
def Phase.room (round : ℕ) : Phase T → ℕ
  | .stamp attempt => if round = attempt then PushMaxAttempts else roundLeft round attempt
  | .push attempt _ n =>
      if round = attempt then PushMaxAttempts + 1 - n else roundLeft round attempt
  | .pushPause attempt _ n => if round = attempt then PushMaxAttempts - n else roundLeft round attempt
  | phase =>
      match phase.following with
      | some wait => roundLeft round wait.attempt
      | none => 0

theorem room_following {round : ℕ} {phase : Phase T} {wait : Wait T}
    (h : phase.following = some wait) : phase.room round = roundLeft round wait.attempt := by
  cases phase with
  | stamp | push | pushPause | done => cases h
  | _ =>
      cases h
      rfl

theorem pushRound_of_following {s : System T} {wait : Wait T} (h : s.client.following = some wait)
    (event : Event T) : s.pushRound event = none := by
  obtain ⟨chain, signed, sends, phase⟩ := s
  cases event with
  | chain move => rfl
  | answer answer transaction =>
      cases phase with
      | push => cases h
      | _ => rfl

theorem room_push {round attempt n room : ℕ} {pushedAtMs : ℤ} (hn : n ≤ PushMaxAttempts)
    (hroom : room ≤ if round = attempt then PushMaxAttempts - n else roundLeft round attempt) :
    (if some attempt = some round then 1 else 0) + room ≤
      (Phase.push attempt pushedAtMs n : Phase T).room round := by
  show _ ≤ if round = attempt then PushMaxAttempts + 1 - n else roundLeft round attempt
  by_cases hround : round = attempt
  · subst hround
    rw [if_pos rfl] at hroom ⊢
    rw [if_pos rfl]
    omega
  · rw [if_neg hround] at hroom ⊢
    rw [if_neg fun h => hround (Option.some.inj h).symm, Nat.zero_add]
    exact hroom

/-- What an event pushes is taken from the room of its round. -/
theorem room_step (round : ℕ) {s s' : System T} {event : Event T}
    (hwithin : s.client.Within s.sends s.signed.length) (h : s.step call event = some s') :
    (if s.pushRound event = some round then 1 else 0) + s'.client.room round ≤
      s.client.room round := by
  rcases step_cases h with ⟨move, chain, rfl, _, rfl⟩ |
    ⟨query, answer, transaction, client, rfl, hask, hhonest, hmove, rfl⟩
  · exact Nat.le_of_eq (Nat.zero_add _)
  · obtain ⟨chain, signed, sends, phase⟩ := s
    dsimp only at hmove hask hwithin ⊢
    have hfollows : ∀ {wait : Wait T}, phase.following = some wait →
        client.room round ≤ roundLeft round wait.attempt →
          (if (⟨chain, signed, sends, phase⟩ : System T).pushRound (.answer answer transaction) =
            some round then 1 else 0) + client.room round ≤ phase.room round := by
      intro wait hphase hroom
      rw [pushRound_of_following hphase, room_following hphase]
      simpa using hroom
    cases hmove with
    | stamp attempt ms =>
        unfold Phase.room System.pushRound
        simp
    | again attempt pushedAtMs n =>
        unfold Phase.room System.pushRound
        simp
    | pushed attempt pushedAtMs n result =>
        have hroom : (pushed call attempt pushedAtMs result).room round ≤
            roundLeft round attempt := by
          rcases pushed_cases call attempt pushedAtMs result with ⟨real, _, heq⟩ | ⟨_, heq⟩
          · rw [heq]
            exact Nat.le_of_eq (@room_following _ _ _ ⟨attempt, pushedAtMs, result, real⟩ rfl)
          · rw [heq]
            exact Nat.zero_le _
        refine room_push hwithin.2.1 (Nat.le_trans hroom ?_)
        unfold roundLeft
        split_ifs <;> omega
    | pushFailed attempt pushedAtMs n provenUnapplied =>
        refine room_push hwithin.2.1 ?_
        rcases pushFailed_cases (T := T) attempt pushedAtMs n provenUnapplied with
          ⟨_, _, heq⟩ | ⟨failure, heq⟩
        · rw [heq]
          exact Nat.le_refl _
        · rw [heq]
          exact Nat.zero_le _
    | follow hphase hfollow => exact hfollows hphase (Nat.le_of_eq (room_following hfollow.1))
    | check poll info hheight =>
        exact @hfollows poll.wait rfl (Nat.le_refl (roundLeft round poll.wait.attempt))
    | found poll transactions hmem => exact @hfollows poll.wait rfl (Nat.zero_le _)
    | included hphase hother => exact hfollows hphase (Nat.zero_le _)
    | giveUp hphase kind blockNum lib => exact hfollows hphase (Nat.zero_le _)
    | pushAgain wait blockNum lib info hexpired hattempt =>
        refine @hfollows wait rfl ?_
        show (if round = wait.attempt + 1 then _ else roundLeft round (wait.attempt + 1)) ≤ _
        unfold roundLeft
        split_ifs <;> omega

theorem roundSends_le (round : ℕ) {events : List (Event T)} {s : System T}
    (hwithin : s.client.Within s.sends s.signed.length) :
    roundSends call round s events ≤ s.client.room round := by
  induction events generalizing s with
  | nil => exact Nat.zero_le _
  | cons event events ih =>
      unfold roundSends
      cases hstep : s.step call event with
      | none => exact Nat.zero_le _
      | some s' =>
          have hrest := ih (within_step hwithin hstep)
          have hfirst := room_step round hwithin hstep
          dsimp only
          omega

/-! ### Runs -/

section Results

variable {chain : Chain Text} {events : List (Event T)} {s : System T}

/-- What a call returns with a transaction id is in an irreversible block. -/
theorem result_irreversible (hfinality : call.finality = .irreversible)
    (h : runs (System.step call) (.start chain) events = some s) {result : T}
    (hdone : s.client = .done (.ok result)) {id : Text} (hid : call.realId result = some id) :
    ∃ block ∈ s.chain.final, id ∈ block.items := by
  have hstart : Knows call (.start chain) :=
    .of_none rfl fun result heq => by cases heq
  have hknows := runs_induction h hstart fun _ _ _ _ hstep hknows => hknows.step hfinality hstep
  exact List.mem_flatMap.mp (hknows.result result hdone id hid)

end Results

/-! A sample: the first transaction is never included and expires, the second is followed until it is
irreversible. -/

def sampleCall : Call Text where
  label := text "deposit"
  finality := .irreversible
  budgetMs := 60000
  getTransactionId := some

def sampleChain : Chain Text :=
  ⟨[⟨0, []⟩], []⟩

def sampleEvents : List (Event Text) :=
  [.answer (.time 0) none, .answer (.sent (text "a1")) (some ⟨text "a1", 120000⟩),
    .answer (.time 10) none, .answer (.time 10) none, .answer (.time 10) none,
    .answer (.time 20) none, .answer (.trace none) none, .answer (.time 60000) none,
    .answer (.time 60020) none, .answer .failed none,
    .chain (.produce ⟨121000, []⟩), .chain (.finalize 1),
    .answer (.trace none) none, .answer (.info ⟨2, 2, 121000⟩) none,
    .answer (.info ⟨2, 2, 121000⟩) none,
    .answer (.time 121000) none, .answer (.sent (text "a2")) (some ⟨text "a2", 241000⟩),
    .chain (.produce ⟨122000, [text "a2"]⟩),
    .answer (.time 121010) none, .answer (.time 121010) none, .answer (.time 121010) none,
    .answer (.time 121020) none, .answer (.trace (some 3)) none,
    .answer (.info ⟨3, 2, 122000⟩) none, .answer (.time 121030) none,
    .answer (.info ⟨3, 2, 122000⟩) none, .answer (.block [text "a2"]) none,
    .answer (.time 121040) none, .chain (.finalize 1), .answer (.info ⟨3, 3, 122000⟩) none,
    .answer (.block [text "a2"]) none]

/-- What a call has returned. -/
def Phase.result : Phase T → Option T
  | .done (.ok result) => some result
  | _ => none

theorem done_of_result {phase : Phase T} {result : T} (h : phase.result = some result) :
    phase = .done (.ok result) := by
  cases phase with
  | done outcome =>
      cases outcome with
      | ok _ => exact congrArg _ (congrArg _ (Option.some.inj h))
      | error _ => cases h
  | _ => cases h

theorem sample_run : ∃ s, runs (System.step sampleCall) (.start sampleChain) sampleEvents = some s ∧
    s.client.result = some (text "a2") :=
  exists_run (by decide +kernel)

theorem sampleChain_valid : Valid [] sampleChain :=
  ⟨List.pairwise_singleton _ _, fun _ _ _ hitem => (by cases hitem), fun _ hitem => (by cases hitem)⟩

theorem result_irreversible_sample : ∃ s,
    runs (System.step sampleCall) (.start sampleChain) sampleEvents = some s ∧
      ∃ block ∈ s.chain.final, text "a2" ∈ block.items := by
  obtain ⟨s, hrun, hresult⟩ := sample_run
  exact ⟨s, hrun, result_irreversible rfl hrun (done_of_result hresult) (by decide)⟩

section Results

variable {chain : Chain Text} {events : List (Event T)} {s : System T}

/-- Where each verdict that a transaction is unappliable is given on a dead one, at most one
transaction of a call is ever irreversible, and once. -/
theorem at_most_once (hvalid : Valid [] chain)
    (h : runs (System.step call) (.start chain) events = some s)
    (hverdicts : Along (System.step call) VerdictsDead (.start chain) events) :
    (s.chain.finalItems.filter fun id => id ∈ s.signed.map Timed.id).length ≤ 1 := by
  have hstart : Sound (.start chain : System T) ∧ Followed (.start chain : System T) :=
    ⟨⟨hvalid, List.nodup_nil⟩, .of_pushing (fun _ ht => (by cases ht)) rfl⟩
  obtain ⟨hsound, hfollowed⟩ := along_induction (motive := fun s => Sound s ∧ Followed s) h
    hverdicts hstart fun _ _ _ hverdict hstep hkept =>
      ⟨hkept.1.step hstep, hkept.2.step hkept.1 hverdict hstep⟩
  obtain ⟨id, hone⟩ := hfollowed.one
  have hid : ∀ other ∈ s.chain.finalItems.filter fun id => id ∈ s.signed.map Timed.id,
      other = id := by
    intro other hother
    obtain ⟨hfinal, hsigned⟩ := List.mem_filter.mp hother
    obtain ⟨t, ht, rfl⟩ := List.mem_map.mp (of_decide_eq_true hsigned)
    exact (hone t ht).resolve_right fun hdead => hdead.notFinal hfinal
  refine length_final_le_one hsound.valid (fun other hother => ?_) hid
  exact List.mem_map.mp (of_decide_eq_true hother)

end Results

theorem at_most_once_sample : ∃ s,
    runs (System.step sampleCall) (.start sampleChain) sampleEvents = some s ∧
      (s.chain.finalItems.filter fun id => id ∈ s.signed.map Timed.id).length ≤ 1 := by
  obtain ⟨s, hrun, _⟩ := sample_run
  exact ⟨s, hrun, at_most_once sampleChain_valid hrun (by decide +kernel)⟩

/-- A call pushes at most three times in each of at most three rounds, and it leaves at most three
transactions. -/
theorem push_bounds {chain : Chain Text} {events : List (Event T)} {s : System T}
    (h : runs (System.step call) (.start chain) events = some s) :
    (∀ round, roundSends call round (.start chain) events ≤
      if 1 ≤ round ∧ round ≤ FinalityMaxAttempts then PushMaxAttempts else 0) ∧
      s.sends ≤ FinalityMaxAttempts * PushMaxAttempts ∧ s.signed.length ≤ FinalityMaxAttempts := by
  have hstart : (System.start chain : System T).client.Within 0 0 := by
    show 1 ≤ 1 ∧ 1 ≤ FinalityMaxAttempts ∧ 0 + PushMaxAttempts ≤ 1 * PushMaxAttempts ∧ 0 + 1 ≤ 1
    unfold FinalityMaxAttempts PushMaxAttempts
    omega
  refine ⟨fun round => Nat.le_trans (roundSends_le round hstart) ?_, ?_⟩
  · show (if round = 1 then PushMaxAttempts else roundLeft round 1) ≤ _
    unfold roundLeft FinalityMaxAttempts
    split_ifs <;> omega
  · refine @within_total _ _ _ s.client ?_
    exact runs_induction (motive := fun s => s.client.Within s.sends s.signed.length) h hstart
      fun _ _ _ _ hstep hwithin => within_step hwithin hstep

theorem push_bounds_sample : ∃ s,
    runs (System.step sampleCall) (.start sampleChain) sampleEvents = some s ∧
      roundSends sampleCall 2 (.start sampleChain) sampleEvents ≤ PushMaxAttempts ∧
        s.signed.length ≤ FinalityMaxAttempts := by
  obtain ⟨s, hrun, _⟩ := sample_run
  have hbounds := push_bounds hrun
  exact ⟨s, hrun, hbounds.1 2, hbounds.2.2⟩

end WireTools.WireClient
