import WireTools.CellFormatter
import WireTools.Runs

/-! # The schema catalog

A catalog holds the tables of every owner account.  It asks the chain for an owner's ABI and the
query engine for the logical types of a table, and several calls may wait for an answer at once.

* `tablesOf` derives the tables of an ABI;
* `Catalog.step`: a call of `loadOwner`, `describe` or `invalidate`, the answer, the failure or the
  abort of a request, or a describe that goes on after the load it has waited for, in any order.
  Requests are numbered as they are sent;
* an owner's `source` is the answer that filled its entry, carried wherever the code copies the
  entry, and `history` holds what has dropped or replaced entries, the latest first.  The code
  reads neither. -/

namespace WireTools.SchemaCatalog

/-! ### Tables of an ABI -/

structure AbiField where
  name : Text
  type : Text
  deriving DecidableEq

structure AbiStruct where
  name : Text
  base : Text
  fields : List AbiField
  deriving DecidableEq

structure AbiTypeDef where
  newTypeName : Text
  type : Text
  deriving DecidableEq

structure AbiTable where
  name : Text
  type : Text
  keyNames : List Text
  keyTypes : List Text
  deriving DecidableEq

structure Abi where
  types : List AbiTypeDef
  structs : List AbiStruct
  tables : List AbiTable
  deriving DecidableEq

inductive CatalogFieldRole where
  | key
  | value
  deriving DecidableEq

structure CatalogField where
  path : Text
  role : CatalogFieldRole
  /-- None for a key without a type. -/
  abiType : Option Text
  /-- Known once a describe has run, for value fields only. -/
  logicalType : Option LogicalType
  deriving DecidableEq

structure CatalogTable where
  name : Text
  rowType : Text
  described : Bool
  fields : List CatalogField
  deriving DecidableEq

def keyPathPrefix : Text := text "key."

/-- The fields of a struct, those of its base first.  A chain of bases longer than the list of
structs runs in a circle, and following it overflows the stack. -/
def structFieldsFrom (abi : Abi) : ℕ → Text → Option (List AbiField)
  | 0, _ => none
  | fuel + 1, typeName =>
      let resolved := ((abi.types.find? fun d => d.newTypeName = typeName).map (·.type)).getD typeName
      match abi.structs.find? fun s => s.name = resolved with
      | none => some []
      | some struct =>
          if struct.base = [] then some struct.fields
          else (structFieldsFrom abi fuel struct.base).map (· ++ struct.fields)

def structFields (abi : Abi) (typeName : Text) : Option (List AbiField) :=
  structFieldsFrom abi (abi.structs.length + 1) typeName

def tableOf (abi : Abi) (table : AbiTable) : Option CatalogTable :=
  (structFields abi table.type).map fun fields =>
    { name := table.name
      rowType := table.type
      described := false
      fields :=
        (table.keyNames.zipIdx.map fun key =>
          ⟨keyPathPrefix ++ key.1, .key, table.keyTypes[key.2]?, none⟩) ++
        fields.map fun field => ⟨field.name, .value, some field.type, none⟩ }

/-- The tables of an ABI in its order. -/
def tablesOf (abi : Abi) : Option (List CatalogTable) :=
  abi.tables.mapM (tableOf abi)

/-- The tables of an answer; an account without a contract has none. -/
def tablesOfReply : Option Abi → Option (List CatalogTable)
  | none => some []
  | some abi => tablesOf abi

/-! ### The snapshot -/

/-- The answer that filled an entry: the number of its request and its tables. -/
structure Source where
  ticket : ℕ
  tables : List CatalogTable
  deriving DecidableEq

structure CatalogOwner where
  account : Text
  tables : List CatalogTable
  loaded : Bool
  source : Option Source
  deriving DecidableEq

/-- Nothing is known of the account. -/
def CatalogOwner.unloaded (account : Text) : CatalogOwner :=
  ⟨account, [], false, none⟩

def tableNames (tables : List CatalogTable) : List Text :=
  tables.map CatalogTable.name

def lookupOwner (owners : List CatalogOwner) (owner : Text) : Option CatalogOwner :=
  owners.find? fun candidate => candidate.account = owner

def lookupIn (tables : List CatalogTable) (table : Text) : Option CatalogTable :=
  tables.find? fun candidate => candidate.name = table

def lookupTable (owners : List CatalogOwner) (owner table : Text) : Option CatalogTable :=
  (lookupOwner owners owner).bind fun entry => lookupIn entry.tables table

/-- Replace (or append) one owner entry. -/
def replaceOwner (owners : List CatalogOwner) (entry : CatalogOwner) : List CatalogOwner :=
  if owners.any fun candidate => candidate.account = entry.account then
    owners.map fun candidate => if candidate.account = entry.account then entry else candidate
  else owners ++ [entry]

/-- Whether an invalidation of one owner, or of every owner, drops this one. -/
def covers (which : Option Text) (owner : Text) : Bool :=
  which.all fun w => w = owner

def invalidated (owners : List CatalogOwner) (which : Option Text) : List CatalogOwner :=
  owners.map fun candidate =>
    if covers which candidate.account then .unloaded candidate.account else candidate

/-- A column of a describe answer. -/
abbrev Column := Text × LogicalType

/-- The table with the logical types of its value fields; of two columns of one name the last
counts. -/
def describedTable (existing : CatalogTable) (columns : List Column) : CatalogTable :=
  { existing with
    described := true
    fields := existing.fields.map fun field =>
      match columns.reverse.lookup field.path with
      | some logicalType =>
          if field.role = .value then { field with logicalType := some logicalType } else field
      | none => field }

/-- The entry with one of its tables replaced. -/
def CatalogOwner.withTable (entry : CatalogOwner) (table : Text) (described : CatalogTable) :
    CatalogOwner :=
  { entry with
    tables := entry.tables.map fun candidate =>
      if candidate.name = table then described else candidate }

/-! ### Calls and their requests -/

/-- What a call waits for: an ABI; an ABI and then a describe of a table; to go on after that ABI; or
that describe.  `present` is whether the catalog held the table when the describe was sent, or the
ABI it had waited for had the table, and `since` the number of the request that this is known
from. -/
inductive Request where
  | load
  | loadFor (table : Text)
  | loadedFor (table : Text) (present : Bool)
  | probe (table : Text) (present : Bool) (since : ℕ)
  deriving DecidableEq

/-- The call waits for an answer. -/
def Request.sent : Request → Bool
  | loadedFor _ _ => false
  | _ => true

structure Operation where
  ticket : ℕ
  owner : Text
  request : Request
  deriving DecidableEq

inductive Ending where
  | loaded
  | described
  | overflowed
  | failed
  | aborted
  | notInCatalog
  deriving DecidableEq

/-- What drops or replaces an entry, with the number of requests sent before it. -/
inductive Change where
  | invalidate (which : Option Text) (issued : ℕ)
  | load (owner : Text) (issued ticket : ℕ) (tables : List CatalogTable)
  deriving DecidableEq

namespace Change

def issued : Change → ℕ
  | invalidate _ n => n
  | load _ n _ _ => n

def concerns (owner : Text) : Change → Bool
  | invalidate which _ => covers which owner
  | load o _ _ _ => o = owner

/-- A request sent before the invalidation, or before the request of the load, is outdated. -/
def outdates (ticket : ℕ) : Change → Bool
  | invalidate _ n => ticket < n
  | load _ _ m _ => ticket < m

/-- The change leaves the owner with the table. -/
def installs (table : Text) : Change → Bool
  | invalidate _ _ => false
  | load _ _ _ tables => table ∈ tableNames tables

end Change

structure Catalog where
  owners : List CatalogOwner
  /-- The number of requests sent. -/
  issued : ℕ
  pending : List Operation
  history : List Change
  settled : List (Operation × Ending)

inductive Event where
  | loadOwner (owner : Text)
  | describe (owner table : Text)
  | invalidate (which : Option Text)
  | abi (ticket : ℕ) (reply : Option Abi)
  | resume (ticket : ℕ)
  | columns (ticket : ℕ) (reply : List Column)
  | fail (ticket : ℕ)
  | abort (ticket : ℕ)

namespace Catalog

/-- Before the first call. -/
def empty (accounts : List Text) : Catalog :=
  ⟨accounts.map .unloaded, 0, [], [], []⟩

variable (s : Catalog)

def issue (owner : Text) (request : Request) : Catalog :=
  { s with issued := s.issued + 1, pending := s.pending ++ [⟨s.issued, owner, request⟩] }

def waiting (ticket : ℕ) : Option Operation :=
  s.pending.find? fun op => op.ticket = ticket

def withdraw (op : Operation) : Catalog :=
  { s with pending := s.pending.filter fun other => other.ticket ≠ op.ticket }

/-- The call goes on to wait for something else. -/
def hold (op : Operation) (request : Request) : Catalog :=
  { s.withdraw op with pending := (s.withdraw op).pending ++ [{ op with request := request }] }

/-- The call ends. -/
def settle (op : Operation) (ending : Ending) : Catalog :=
  { s.withdraw op with settled := s.settled ++ [(op, ending)] }

def invalidate (which : Option Text) : Catalog :=
  { s with
    owners := invalidated s.owners which
    history := .invalidate which s.issued :: s.history }

def replace (entry : CatalogOwner) : Catalog :=
  { s with owners := replaceOwner s.owners entry }

/-- The tables of an answer become the owner's entry. -/
def install (op : Operation) (tables : List CatalogTable) : Catalog :=
  { s.replace ⟨op.owner, tables, true, some ⟨op.ticket, tables⟩⟩ with
    history := .load op.owner s.issued op.ticket tables :: s.history }

def loadOwner (owner : Text) : Catalog :=
  s.issue owner .load

/-- An owner that is not loaded yet is loaded first. -/
def describe (owner table : Text) : Catalog :=
  if (lookupOwner s.owners owner).any (·.loaded) then
    s.issue owner (.probe table (lookupTable s.owners owner table).isSome s.issued)
  else s.issue owner (.loadFor table)

/-- `get_abi` answers. -/
def answerAbi (op : Operation) (reply : Option Abi) : Option Catalog :=
  match op.request, tablesOfReply reply with
  | .probe _ _ _, _ | .loadedFor _ _, _ => none
  | _, none => some (s.settle op .overflowed)
  | .load, some tables => some ((s.install op tables).settle op .loaded)
  | .loadFor table, some tables =>
      some ((s.install op tables).hold op (.loadedFor table (table ∈ tableNames tables)))

/-- A describe sends its own request once it has its ABI; other calls may come between. -/
def resume (op : Operation) : Option Catalog :=
  match op.request with
  | .loadedFor table present =>
      some ((s.withdraw op).issue op.owner (.probe table present op.ticket))
  | _ => none

/-- The engine answers: the table is looked up again, and its entry written back. -/
def answerColumns (op : Operation) (columns : List Column) : Option Catalog :=
  match op.request with
  | .probe table _ _ =>
      match lookupOwner s.owners op.owner, lookupTable s.owners op.owner table with
      | some entry, some existing =>
          some ((s.replace (entry.withTable table (describedTable existing columns))).settle op
            .described)
      | _, _ => some (s.settle op .notInCatalog)
  | _ => none

def step : Event → Option Catalog
  | .loadOwner owner => some (s.loadOwner owner)
  | .describe owner table => some (s.describe owner table)
  | .invalidate which => some (s.invalidate which)
  | .abi ticket reply => (s.waiting ticket).bind fun op => s.answerAbi op reply
  | .resume ticket => (s.waiting ticket).bind s.resume
  | .columns ticket reply => (s.waiting ticket).bind fun op => s.answerColumns op reply
  | .fail ticket => ((s.waiting ticket).filter (·.request.sent)).map fun op => s.settle op .failed
  | .abort ticket => ((s.waiting ticket).filter (·.request.sent)).map fun op => s.settle op .aborted

/-- The latest change that concerns the owner. -/
def lastChange (owner : Text) : Option Change :=
  s.history.find? (Change.concerns owner)

/-- What the catalog promises.  A loaded entry is the answer of a request that no invalidation of
its owner and no later request for it has outdated, the tables of an entry are those of its
answer, and a describe of a table that was there, or that the ABI it waited for had, ends otherwise
than for the want of it. -/
structure Fresh : Prop where
  current : ∀ entry ∈ s.owners, entry.loaded = true → ∃ source, entry.source = some source ∧
    ∀ c ∈ s.history, c.concerns entry.account = true → c.outdates source.ticket = false
  kept : ∀ entry ∈ s.owners,
    tableNames entry.tables = (entry.source.map fun source => tableNames source.tables).getD []
  found : ∀ op table since, (op, Ending.notInCatalog) ∈ s.settled →
    op.request ≠ .probe table true since

/-- Answers come in time: an ABI before anything outdates its request, and the columns of a table
that was there while nothing has dropped it since, unless a load has brought it (back). -/
def Punctual : Event → Prop
  | .abi ticket _ => ∀ op, s.waiting ticket = some op →
      ∀ c ∈ s.history, c.concerns op.owner = true → c.outdates ticket = false
  | .columns ticket _ => ∀ op, s.waiting ticket = some op → ∀ table since,
      op.request = .probe table true since → ∀ c, s.lastChange op.owner = some c →
        c.issued ≤ since ∨ c.installs table = true
  | _ => True

end Catalog

end WireTools.SchemaCatalog
