import Mathlib.Data.Int.Notation
import WireTools.Text

/-! # Query executions and server windows

* a `QueryPager` asks for one page of rows or for all of them; `window` is the limit and the
  offset that are sent;
* a `QueryExecution` is what a request came to: a success with its page, or a failure. -/

namespace WireTools

inductive PageSizeMode where
  | paged
  | all
  deriving DecidableEq

/-- What a request sends as limit and offset. -/
structure PageWindow where
  limit : Option ℤ
  offset : ℤ
  deriving DecidableEq

/-- One page of a size, or all rows at once. -/
structure QueryPager where
  mode : PageSizeMode
  pageSize : ℕ
  page : ℕ
  pageSize_pos : 0 < pageSize
  page_pos : 0 < page
  deriving DecidableEq

namespace QueryPager

def pageSizeChoices : List ℕ := [25, 50, 100, 500, 1000]

/-- The first page, of the default size. -/
def default : QueryPager :=
  ⟨.paged, 100, 1, by decide, by decide⟩

def window (p : QueryPager) : PageWindow :=
  match p.mode with
  | .all => ⟨none, 0⟩
  | .paged => ⟨some p.pageSize, (p.page - 1 : ℕ) * p.pageSize⟩

/-- The pager on a page, the first at least. -/
def select (p : QueryPager) (page : ℤ) : QueryPager :=
  { p with
    page := max 1 page.toNat
    page_pos := Nat.lt_of_lt_of_le Nat.one_pos (Nat.le_max_left 1 _) }

def pageCount (totalRows pageSize : ℕ) : ℕ :=
  max 1 ((totalRows + pageSize - 1) / pageSize)

end QueryPager

inductive QueryFailureKind where
  | engine
  | transport
  | cancelled
  deriving DecidableEq

structure QueryFailure where
  kind : QueryFailureKind
  message : Text
  /-- The server's flag, of an engine failure. -/
  retryable : Bool
  deriving DecidableEq

/-- A cancelled run is run again with Run, a transport failure can always be sent again, and an
engine failure follows the server's flag. -/
def QueryFailure.isRetryable (f : QueryFailure) : Bool :=
  match f.kind with
  | .engine => f.retryable
  | .transport => true
  | .cancelled => false

/-- What is read of a result: the rows of all pages, and the block it shows. -/
structure PageInfo where
  totalRows : ℕ
  blockId : Text
  deriving DecidableEq

inductive ExecutionOutcome where
  | success (page : PageInfo)
  | failure (failure : QueryFailure)
  deriving DecidableEq

structure QueryExecution where
  requestId : Text
  query : Text
  outcome : ExecutionOutcome
  deriving DecidableEq

namespace QueryExecution

def success (e : QueryExecution) : Option PageInfo :=
  match e.outcome with
  | .success page => some page
  | .failure _ => none

def failure (e : QueryExecution) : Option QueryFailure :=
  match e.outcome with
  | .success _ => none
  | .failure f => some f

end QueryExecution

end WireTools
