import WireTools.ForkableChain
import WireTools.Text

/-! # Pushing a transaction and waiting for it

`WireClient.withFinality` pushes a transaction, follows it until it is in an irreversible block, and
pushes it again only where it can never be applied any more.

* `Query` is what the client awaits next: its clock, a pause, the push, the node;
* `Phase` is where the client is, with the values it has read; `Phase.ask` is the query it awaits
  there and `Phase.resume` where an answer takes it;
* `withFinality` is the call at its start, `Phase.done` its end. -/

namespace WireTools.WireClient

/-! ### Constants -/

def PushMaxAttempts : ℕ := 3

def TransactionExpirationSec : ℤ := 120

def FinalityMaxAttempts : ℕ := 3

def FinalityRetryDelayMs : ℤ := 1000

def PollIntervalMs : ℤ := 500

def BlocksAhead : ℕ := 5

def MsPerSecond : ℤ := 1000

def NoTransactionSentTransactionId : Text := text "no_transaction_sent"

/-! ### The call -/

inductive FinalityType where
  | speculative
  | head
  | irreversible
  deriving DecidableEq

inductive FinalityOutcome where
  | irreversible
  | unappliable
  | unresolved
  deriving DecidableEq

/-- What a call is made with.  `T` is what a push returns. -/
structure Call (T : Type) where
  label : Text
  finality : FinalityType
  budgetMs : ℤ
  getTransactionId : T → Option Text

structure FinalityResult where
  kind : FinalityOutcome
  transactionId : Text
  blockNum : Option ℕ
  lib : Option ℕ
  deriving DecidableEq

inductive Failure where
  /-- The error of the push itself, which is proven not applied. -/
  | rejected
  | mayHaveReached
  | finality (result : FinalityResult)
  deriving DecidableEq

/-- The text of an error of the call; that of a rejected push is the push's own. -/
def Failure.message (label : Text) : Failure → Option Text
  | .rejected => none
  | .mayHaveReached => some (label ++ text (": the push may have reached the node, so it is not " ++
      "re-sent; read its outcome on the chain before running it again"))
  | .finality result =>
      match result.kind with
      | .unappliable => some (label ++
          text ": transaction can never apply (expiration window closed while absent)")
      | _ => some (label ++ text (": finality unresolved — NOT re-pushed (the transaction may be " ++
          "applied)"))

/-- The id of a transaction that reached the chain. -/
def Call.realId {T : Type} (call : Call T) (result : T) : Option Text :=
  (call.getTransactionId result).filter fun id =>
    !id.isEmpty && id != NoTransactionSentTransactionId

/-! ### Queries -/

inductive Query where
  | now
  | delay (ms : ℤ)
  | send
  | getTransaction (id : Text)
  | getInfo
  | getBlock (height : ℕ)
  deriving DecidableEq

structure Info where
  head : ℕ
  lib : ℕ
  headTimeMs : ℤ

/-- An answer; `failed` where the node could not be asked. -/
inductive Answer (T : Type) where
  | time (ms : ℤ)
  | woken
  | sent (result : T)
  | sendFailed (provenUnapplied : Bool)
  /-- The block of a transaction, none where the index does not hold it. -/
  | trace (blockNum : Option ℕ)
  | info (info : Info)
  | block (transactions : List Text)
  | failed

/-! ### Phases -/

/-- A push that is followed. -/
structure Wait (T : Type) where
  attempt : ℕ
  pushedAtMs : ℤ
  result : T
  transactionId : Text
  deriving DecidableEq

/-- The wait for a block: its own deadline, and the budget's. -/
structure Search (T : Type) where
  wait : Wait T
  deadlineMs : ℤ
  searchDeadlineMs : ℤ
  deriving DecidableEq

structure Scan (T : Type) where
  search : Search T
  endBlock : ℕ
  blockNum : ℕ
  deriving DecidableEq

structure Poll (T : Type) where
  wait : Wait T
  deadlineMs : ℤ
  blockNum : ℕ
  height : ℕ
  deriving DecidableEq

inductive Phase (T : Type) where
  | stamp (attempt : ℕ)
  | push (attempt : ℕ) (pushedAtMs : ℤ) (n : ℕ)
  | pushPause (attempt : ℕ) (pushedAtMs : ℤ) (n : ℕ)
  | budget (wait : Wait T)
  | remaining (wait : Wait T) (deadlineMs : ℤ)
  | searchStart (wait : Wait T) (deadlineMs timeoutMs : ℤ)
  | traceClock (search : Search T)
  | trace (search : Search T)
  | traceAhead (search : Search T)
  | tracePause (search : Search T)
  | searchHead (search : Search T) (refBlockNum : Option ℕ)
  | scanClock (scan : Scan T)
  | scanHead (scan : Scan T)
  | scanBehind (scan : Scan T)
  | scanPause (scan : Scan T)
  | scanBlock (scan : Scan T)
  | pollClock (poll : Poll T)
  | pollLib (poll : Poll T)
  | pollBlock (poll : Poll T)
  | pollLocate (poll : Poll T)
  | pollPause (poll : Poll T)
  | locate (wait : Wait T) (blockNum : Option ℕ)
  | appliedLib (wait : Wait T) (blockNum : Option ℕ)
  | absentLib (wait : Wait T) (blockNum : Option ℕ)
  | absentTime (wait : Wait T) (blockNum : Option ℕ) (lib : Option ℕ)
  | done (outcome : Except Failure T)

variable {T : Type}

def Phase.ask : Phase T → Option Query
  | .stamp _ => some .now
  | .push _ _ _ => some .send
  | .pushPause _ _ _ => some (.delay FinalityRetryDelayMs)
  | .budget _ => some .now
  | .remaining _ _ => some .now
  | .searchStart _ _ _ => some .now
  | .traceClock _ => some .now
  | .trace search => some (.getTransaction search.wait.transactionId)
  | .traceAhead _ => some .now
  | .tracePause _ => some (.delay PollIntervalMs)
  | .searchHead _ _ => some .getInfo
  | .scanClock _ => some .now
  | .scanHead _ => some .getInfo
  | .scanBehind _ => some .now
  | .scanPause _ => some (.delay PollIntervalMs)
  | .scanBlock scan => some (.getBlock scan.blockNum)
  | .pollClock _ => some .now
  | .pollLib _ => some .getInfo
  | .pollBlock poll => some (.getBlock poll.height)
  | .pollLocate poll => some (.getTransaction poll.wait.transactionId)
  | .pollPause _ => some (.delay PollIntervalMs)
  | .locate wait _ => some (.getTransaction wait.transactionId)
  | .appliedLib _ _ => some .getInfo
  | .absentLib _ _ => some .getInfo
  | .absentTime _ _ _ => some .getInfo
  | .done _ => none

/-! ### Where an answer takes the client -/

variable (call : Call T)

/-- The push returned: nothing is followed where nothing reached the chain. -/
def pushed (attempt : ℕ) (pushedAtMs : ℤ) (result : T) : Phase T :=
  match call.realId result with
  | some transactionId => .budget ⟨attempt, pushedAtMs, result, transactionId⟩
  | none => .done (.ok result)

/-- `retry` runs a push again that is proven not applied. -/
def pushFailed (attempt : ℕ) (pushedAtMs : ℤ) (n : ℕ) (provenUnapplied : Bool) : Phase T :=
  if provenUnapplied then
    if PushMaxAttempts ≤ n then .done (.error .rejected) else .pushPause attempt pushedAtMs n
  else .done (.error .mayHaveReached)

/-- A transaction that was not located. -/
def notLocated (search : Search T) : Phase T :=
  .locate search.wait none

def scanBlocks (scan : Scan T) : Phase T :=
  if scan.endBlock < scan.blockNum then notLocated scan.search else .scanClock scan

def scanFrom (search : Search T) (refBlockNum : Option ℕ) (headBlock : ℕ) : Phase T :=
  let startBlock := match refBlockNum with
    | some blockNum => if 0 < blockNum then blockNum else headBlock
    | none => headBlock
  scanBlocks ⟨search, headBlock + BlocksAhead, startBlock⟩

/-- The transaction is in a block, and `finality` says whether that is enough. -/
def located (search : Search T) (blockNum : ℕ) : Phase T :=
  if call.finality = .irreversible then
    .pollClock ⟨search.wait, search.deadlineMs, blockNum, blockNum⟩
  else .done (.ok search.wait.result)

def throwFinality (kind : FinalityOutcome) (wait : Wait T) (blockNum lib : Option ℕ) : Phase T :=
  .done (.error (.finality ⟨kind, wait.transactionId, blockNum, lib⟩))

/-- The head is past the expiration of a push that was issued at `pushedAtMs`. -/
def expired (wait : Wait T) (headTimeMs : ℤ) : Bool :=
  wait.pushedAtMs + TransactionExpirationSec * MsPerSecond < headTimeMs

/-- Only what can never be applied is pushed again. -/
def unappliable (wait : Wait T) (blockNum lib : Option ℕ) : Phase T :=
  if wait.attempt < FinalityMaxAttempts then .stamp (wait.attempt + 1)
  else throwFinality .unappliable wait blockNum lib

def answeredTime (ms : ℤ) : Phase T → Option (Phase T)
  | .stamp attempt => some (.push attempt ms 1)
  | .budget wait => some (.remaining wait (ms + call.budgetMs))
  | .remaining wait deadlineMs => some (.searchStart wait deadlineMs (max (deadlineMs - ms) 0))
  | .searchStart wait deadlineMs timeoutMs => some (.traceClock ⟨wait, deadlineMs, ms + timeoutMs⟩)
  | .traceClock search =>
      some (if search.searchDeadlineMs < ms then .searchHead search none else .trace search)
  | .traceAhead search => some (if search.searchDeadlineMs < ms + PollIntervalMs then
      .traceClock search else .tracePause search)
  | .scanClock scan => some (if scan.search.searchDeadlineMs < ms then notLocated scan.search
      else .scanHead scan)
  | .scanBehind scan => some (if scan.search.searchDeadlineMs < ms then notLocated scan.search
      else .scanPause scan)
  | .pollClock poll => some (if ms < poll.deadlineMs then .pollLib poll
      else .locate poll.wait (some poll.blockNum))
  | _ => none

def answeredWoken : Phase T → Option (Phase T)
  | .pushPause attempt pushedAtMs n => some (.push attempt pushedAtMs (n + 1))
  | .tracePause search => some (.traceClock search)
  | .scanPause scan => some (.scanHead scan)
  | .pollPause poll => some (.pollClock poll)
  | _ => none

def answeredTrace (blockNum : Option ℕ) : Phase T → Option (Phase T)
  | .trace search => some (match blockNum with
      | some refBlockNum => .searchHead search (some refBlockNum)
      | none => .traceAhead search)
  | .pollLocate poll => some (match blockNum.filter (0 < ·) with
      | some height => .pollPause { poll with height := height }
      | none => .locate poll.wait (some poll.blockNum))
  | .locate wait seen => some (match blockNum.filter (0 < ·) with
      | some height => .appliedLib wait (some height)
      | none => .absentLib wait seen)
  | _ => none

def answeredInfo (info : Info) : Phase T → Option (Phase T)
  | .searchHead search refBlockNum => some (scanFrom search refBlockNum info.head)
  | .scanHead scan => some (if info.head < scan.blockNum then .scanBehind scan else .scanBlock scan)
  | .pollLib poll => some (if poll.height ≤ info.lib then .pollBlock poll else .pollPause poll)
  | .appliedLib wait blockNum => some (throwFinality .unresolved wait blockNum (some info.lib))
  | .absentLib wait blockNum => some (.absentTime wait blockNum (some info.lib))
  | .absentTime wait blockNum lib => some (if expired wait info.headTimeMs then
      unappliable wait blockNum lib else throwFinality .unresolved wait blockNum lib)
  | _ => none

def answeredBlock (transactions : List Text) : Phase T → Option (Phase T)
  | .scanBlock scan => some (if scan.search.wait.transactionId ∈ transactions then
      located call scan.search scan.blockNum
      else scanBlocks { scan with blockNum := scan.blockNum + 1 })
  | .pollBlock poll => some (if poll.wait.transactionId ∈ transactions then
      .done (.ok poll.wait.result) else .pollLocate poll)
  | _ => none

/-- The node could not be asked. -/
def answeredFailed : Phase T → Option (Phase T)
  | .trace search => some (.traceAhead search)
  | .searchHead search _ => some (notLocated search)
  | .scanHead scan => some (notLocated scan.search)
  | .scanBlock scan => some (notLocated scan.search)
  | .pollLib poll => some (.pollPause poll)
  | .pollBlock poll => some (.pollPause poll)
  | .pollLocate poll => some (.locate poll.wait (some poll.blockNum))
  | .locate wait blockNum => some (.appliedLib wait blockNum)
  | .appliedLib wait blockNum => some (throwFinality .unresolved wait blockNum none)
  | .absentLib wait blockNum => some (.absentTime wait blockNum none)
  | .absentTime wait blockNum lib => some (throwFinality .unresolved wait blockNum lib)
  | _ => none

def Phase.resume (phase : Phase T) : Answer T → Option (Phase T)
  | .time ms => answeredTime call ms phase
  | .woken => answeredWoken phase
  | .sent result =>
      match phase with
      | .push attempt pushedAtMs _ => some (pushed call attempt pushedAtMs result)
      | _ => none
  | .sendFailed provenUnapplied =>
      match phase with
      | .push attempt pushedAtMs n => some (pushFailed attempt pushedAtMs n provenUnapplied)
      | _ => none
  | .trace blockNum => answeredTrace blockNum phase
  | .info info => answeredInfo info phase
  | .block transactions => answeredBlock call transactions phase
  | .failed => answeredFailed phase

def withFinality : Phase T :=
  .stamp 1

end WireTools.WireClient
