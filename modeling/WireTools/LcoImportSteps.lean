import WireTools.BatchLedgers
import WireTools.LcoImportBatches

/-! # The steps of the launch-data import

`LcoImportSteps` pushes the batches of a plan to the depot and then compares what the depot holds
with the plan, before the import is sealed.

* `Depot` and `Contracts`: the tables that the import writes, and the contracts that write them;
  `ClaimsDocumented` and `Documented`: what a push is documented to add to the tables;
* `planImport`: the pushes of a plan in order; `runStep`: one of them, `runSteps`: any of them in
  any order;
* `runReconcileClaims` and `runReconcileSyndication`: the gates in front of the seals. -/

namespace WireTools.LcoImportSteps

open DclaimSeed (ImportSeedChainKind)
open WireLcoImportTool

/-! ### Keys of the links -/

inductive KeyType where
  | EM
  | ED
  | other (name : Text)
  deriving DecidableEq

/-- Public keys of `@wireio/sdk-core`, their bytes as hex. -/
structure Sdk where
  parse : Text → Except Text (KeyType × Text)
  print : KeyType → Text → Text
  /-- `getCompressedPublicKey` -/
  compress : Text → Text

def LinkKeyTypes : ImportSeedChainKind → KeyType
  | .EVM => .EM
  | .SVM => .ED

/-- A row of `sysio.authex::links`. -/
structure LinkRow where
  key : ℕ
  username : Text
  pub_key : Text
  deriving DecidableEq

variable (ext : Externals) (sdk : Sdk)

def linkKey (chain : ImportSeedChainKind) (pubkey : Text) : Except Text Text := do
  let bytes ← nativeBytesHex ext chain pubkey
  pure (sdk.print (LinkKeyTypes chain) bytes)

/-- The node prints a key of type EM uncompressed. -/
def linkRowKey (pubKey : Text) : Except Text Text := do
  let (type, data) ← sdk.parse pubKey
  match type with
  | .EM => pure (sdk.print .EM (sdk.compress data))
  | type => pure (sdk.print type data)

def linkEntry (link : LinkRow) : Except Text (Text × Text) := do
  let key ← linkRowKey sdk link.pub_key
  pure (key, link.username)

/-- The highest key comes first, so the lowest-keyed row of a pubkey is the one that is kept. -/
def readLinkedAccounts (links : List LinkRow) : Except Text (OrderedMap Text Text) := do
  let entries ← (sortBy LinkRow.key links).reverse.mapM (linkEntry sdk)
  pure (OrderedMap.collect [] entries)

/-! ### The depot -/

/-- Claims by chain and address, parked positions by chain, token and key, balances by account and
token, supplies and pending yield by token. -/
structure Depot where
  unmapped : OrderedMap (ImportSeedChainKind × Text) ℤ
  parked : OrderedMap (ImportSeedChainKind × Text × Text) ℤ
  accounts : OrderedMap (Text × Text) ℤ
  supply : OrderedMap Text ℤ
  liqpending : OrderedMap Text ℤ

def Depot.empty : Depot :=
  ⟨[], [], [], [], []⟩

/-- A balance without a row is nothing. -/
def readLiqBalance (depot : Depot) (account tokenCode : Text) : ℤ :=
  (depot.accounts.get (account, tokenCode)).getD 0

/-- The contracts on the node, which refuse a push or change the tables. -/
structure Contracts where
  /-- The kind that a chain is registered with. -/
  chainKind : Text → ImportSeedChainKind
  /-- How a row spells the kind of a chain. -/
  cell : ImportSeedChainKind → Text
  /-- The account that the `bypubkey` lookup finds for a key of a chain. -/
  linked : ImportSeedChainKind → Text → Option Text
  importseed : ImportseedAction → Depot → Except Text Depot
  importsynd : ImportsyndAction → Depot → Except Text Depot
  regliqpool : RegliqpoolAction → Depot → Except Text Depot

variable (contracts : Contracts)

/-- A position that is credited. -/
structure Credited where
  kind : ImportSeedChainKind
  tokenCode : Text
  pubkey : Text
  amount : ℤ

def claimEntries (data : ImportseedAction) : List ((ImportSeedChainKind × Text) × ℤ) :=
  data.credits.map fun claim => ((data.chain, claim.native_address), claim.wire_atomic)

def creditedOf (data : ImportsyndAction) : List Credited :=
  data.credits.map fun credit =>
    ⟨contracts.chainKind data.chain_code, data.token_code, credit.pubkey, credit.amount⟩

def accountEntry (credited : Credited) : Option ((Text × Text) × ℤ) :=
  (contracts.linked credited.kind credited.pubkey).map fun account =>
    ((account, credited.tokenCode), credited.amount)

def parkedEntry (credited : Credited) : Option ((ImportSeedChainKind × Text × Text) × ℤ) :=
  if (contracts.linked credited.kind credited.pubkey).isNone then
    some ((credited.kind, credited.tokenCode, credited.pubkey), credited.amount)
  else none

def supplyEntry (credited : Credited) : Text × ℤ :=
  (credited.tokenCode, credited.amount)

/-- What the pushes are documented to do to the claims, whose rows come in any order: every claim is
credited to the row of its address. -/
structure ClaimsDocumented : Prop where
  importseed : ∀ data before after, contracts.importseed data before = .ok after →
    after.unmapped.Perm (addAll before.unmapped (claimEntries data))
  importsynd : ∀ data before after, contracts.importsynd data before = .ok after →
    after.unmapped.Perm before.unmapped
  regliqpool : ∀ data before after, contracts.regliqpool data before = .ok after →
    after.unmapped.Perm before.unmapped

/-- The accounts of the chain itself.  The shadow of a pool goes through the system account to the
swap, and parked shadow is in the row of the contract that parks it. -/
def isSystemAccount (account : Text) : Bool :=
  account == text "sysio" || (text "sysio.").isPrefixOf account

/-- What a push adds to the other tables.  What it does to the chain's own accounts is left open. -/
structure Pushed (credited : List Credited) (minted : List (Text × ℤ)) (before after : Depot) :
    Prop where
  parked : after.parked.Perm (addAll before.parked (credited.filterMap (parkedEntry contracts)))
  accounts : ∀ account tokenCode, isSystemAccount account = false →
    readLiqBalance after account tokenCode = readLiqBalance before account tokenCode +
      sumAt (credited.filterMap (accountEntry contracts)) (account, tokenCode)
  supply : after.supply.Perm (addAll before.supply (credited.map supplyEntry ++ minted))
  liqpending : after.liqpending = before.liqpending

/-- What the pushes are documented to do to the positions. -/
structure Documented : Prop where
  importseed : ∀ data before after, contracts.importseed data before = .ok after →
    Pushed contracts [] [] before after
  /-- A position is minted to the account that its key is linked to, and else it is parked. -/
  importsynd : ∀ data before after, contracts.importsynd data before = .ok after →
    Pushed contracts (creditedOf contracts data) [] before after
  /-- The liq of the pool is minted. -/
  regliqpool : ∀ data before after, contracts.regliqpool data before = .ok after →
    Pushed contracts [] [(data.token_code, data.initial_chain_amount)] before after

/-- The lookup finds the lowest-keyed link of a key. -/
def Bypubkey (links : List LinkRow) : Prop :=
  ∀ kind bytes, contracts.linked kind bytes = ((sortBy LinkRow.key links).find? fun link =>
    (linkRowKey sdk link.pub_key).toOption == some (sdk.print (LinkKeyTypes kind) bytes)).map
      LinkRow.username

/-! ### Steps -/

inductive ImportStep where
  | syndicationBatch (chainCode : Text) (batchIndex : ℕ) (creditCount : ℤ)
  | claimBatch (chainCode : Text) (batchIndex : ℕ) (creditCount : ℤ)
  | regliqpool (data : RegliqpoolAction)
  deriving DecidableEq

def planChainImport (chainPlan : ChainPlan) : List ImportStep :=
  (List.range (syndicationBatches chainPlan)).map (fun batchIndex =>
    .syndicationBatch chainPlan.pool.chainCode batchIndex
      (batchCreditCount chainPlan.syndications.length SyndicationBatchSize batchIndex)) ++
  ((List.range (claimBatches chainPlan)).map (fun batchIndex =>
    .claimBatch chainPlan.pool.chainCode batchIndex
      (batchCreditCount chainPlan.claims.length ClaimBatchSize batchIndex)) ++
  [.regliqpool (poolRegistration chainPlan)])

def planImport (plan : Plan) : List ImportStep :=
  (chainPlans plan).flatMap planChainImport

def steps (message : Text) : Text :=
  text "LcoImportSteps: " ++ message

def assertChainPlan (plan : Plan) (chainCode : Text) : Except Text ChainPlan :=
  match (chainPlans plan).find? fun candidate => candidate.pool.chainCode == chainCode with
  | some chainPlan => .ok chainPlan
  | none => .error (steps (text "the import plan has no " ++ (chainCode ++ text " chain")))

def runSyndicationBatch (plan : Plan) (chainCode : Text) (batchIndex : ℕ) (creditCount : ℤ)
    (depot : Depot) : Except Text Depot := do
  let chainPlan ← assertChainPlan plan chainCode
  let data ← syndicationBatch ext chainPlan batchIndex
  assertOk ((data.credits.length : ℤ) == creditCount) (steps (chainCode ++
    (text " position batch " ++ (natText batchIndex ++ text " changed size"))))
  contracts.importsynd data depot

def runClaimBatch (plan : Plan) (chainCode : Text) (batchIndex : ℕ) (creditCount : ℤ)
    (depot : Depot) : Except Text Depot := do
  let chainPlan ← assertChainPlan plan chainCode
  let data ← claimBatch chainPlan batchIndex
  assertOk ((data.credits.length : ℤ) == creditCount) (steps (chainCode ++
    (text " claim batch " ++ (natText batchIndex ++ text " changed size"))))
  contracts.importseed data depot

def runStep (plan : Plan) (depot : Depot) : ImportStep → Except Text Depot
  | .syndicationBatch chainCode batchIndex creditCount =>
      runSyndicationBatch ext contracts plan chainCode batchIndex creditCount depot
  | .claimBatch chainCode batchIndex creditCount =>
      runClaimBatch contracts plan chainCode batchIndex creditCount depot
  | .regliqpool data => contracts.regliqpool data depot

/-- Steps are skipped, repeated and put into another order by taking another list of them. -/
def runSteps (plan : Plan) (executed : List ImportStep) : Except Text Depot :=
  executed.foldlM (runStep ext contracts plan) Depot.empty

/-! ### The claims -/

structure UnmappedClaim where
  chainCode : Text
  nativeAddress : Text
  amount : ℤ
  deriving DecidableEq

def chainCodeOf (chainPlans : List ChainPlan) (kind : ImportSeedChainKind) : Text :=
  match chainPlans.find? fun chainPlan => chainPlan.chain == kind with
  | some chainPlan => chainPlan.pool.chainCode
  | none => contracts.cell kind

def sortClaims (claims : List UnmappedClaim) : List UnmappedClaim :=
  sortBy (fun claim => [claim.chainCode, claim.nativeAddress]) claims

def plannedClaims (plan : Plan) : List UnmappedClaim :=
  (chainPlans plan).flatMap fun chainPlan => chainPlan.claims.map fun claim =>
    ⟨chainPlan.pool.chainCode, claim.native_address, claim.wire_atomic⟩

def claimCount (plan : Plan) : ℕ :=
  ((chainPlans plan).map fun chainPlan => chainPlan.claims.length).sum

def runReconcileClaims (plan : Plan) (claimCount : ℕ) (depot : Depot) : Except Text Unit := do
  let chainPlans := chainPlans plan
  let planned := plannedClaims plan
  assertOk (planned.length == claimCount) (steps (text "the plan holds " ++
    (natText planned.length ++ (text " claims, not the " ++ (natText claimCount ++
      text " the seal was composed for")))))
  let imported := depot.unmapped.map fun row =>
    (⟨chainCodeOf contracts chainPlans row.1.1, row.1.2, row.2⟩ : UnmappedClaim)
  assertOk (sortClaims imported == sortClaims planned) (steps
    (text "sysio.dclaim::unmapped differs from the planned claims; the claim import stays unsealed"))

/-! ### The positions -/

structure ImportedPosition where
  chainCode : Text
  tokenCode : Text
  pubkey : Text
  amount : ℤ
  deriving DecidableEq

structure PlannedPosition where
  position : ImportedPosition
  linkKey : Text

structure LinkedHolding where
  account : Text
  tokenCode : Text
  amount : ℤ

def plannedPosition (chainPlan : ChainPlan) (spec : SyndicationSpec) :
    Except Text PlannedPosition := do
  let pubkey ← nativeBytesHex ext chainPlan.chain spec.pubkey
  let linkKey ← linkKey ext sdk chainPlan.chain spec.pubkey
  pure ⟨⟨chainPlan.pool.chainCode, chainPlan.pool.tokenCode, pubkey, spec.amount⟩, linkKey⟩

def plannedPositions (plan : Plan) : Except Text (List PlannedPosition) := do
  let planned ← (chainPlans plan).mapM fun chainPlan =>
    chainPlan.syndications.mapM (plannedPosition ext sdk chainPlan)
  pure planned.flatten

def positionCount (plan : Plan) : ℕ :=
  ((chainPlans plan).map fun chainPlan => chainPlan.syndications.length).sum

/-- `account/tokenCode` -/
def holderText (account tokenCode : Text) : Text :=
  account ++ (47 :: tokenCode)

def addHolding (linkedAccounts : OrderedMap Text Text) (byHolder : OrderedMap Text LinkedHolding)
    (planned : PlannedPosition) : OrderedMap Text LinkedHolding :=
  let account := (linkedAccounts.get planned.linkKey).getD (text "undefined")
  let tokenCode := planned.position.tokenCode
  let holder := holderText account tokenCode
  byHolder.set holder
    ⟨account, tokenCode, ((byHolder.get holder).map LinkedHolding.amount).getD 0 +
      planned.position.amount⟩

def linkedHoldings (linked : List PlannedPosition) (linkedAccounts : OrderedMap Text Text) :
    List LinkedHolding :=
  sortBy (fun holding => [holding.account, holding.tokenCode])
    ((linked.foldl (addHolding linkedAccounts) []).map Prod.snd)

def sortPositions (positions : List ImportedPosition) : List ImportedPosition :=
  sortBy (fun position => [position.tokenCode, position.chainCode, position.pubkey]) positions

/-- The supply and the pending yield.  The shadow is opened before the import. -/
def readOutstanding (depot : Depot) (tokenCode : Text) : ℤ :=
  (depot.supply.get tokenCode).getD 0 + (depot.liqpending.get tokenCode).getD 0

def unsealed (message : Text) : Text :=
  steps (message ++ text "; the syndication import stays unsealed")

def assertHolding (depot : Depot) (holding : LinkedHolding) : Except Text Unit :=
  let balance := readLiqBalance depot holding.account holding.tokenCode
  assertOk (balance == holding.amount) (unsealed (holding.account ++ (text " holds " ++
    (intText balance ++ (text " " ++ (holding.tokenCode ++ (text ", not the " ++
      (intText holding.amount ++ text " its linked positions import"))))))))

def assertOutstanding (depot : Depot) (chainPlan : ChainPlan) : Except Text Unit :=
  let pool := chainPlan.pool
  let outstanding := readOutstanding depot pool.tokenCode
  assertOk (outstanding == pool.custodyTotal) (unsealed (pool.tokenCode ++ (text " outstanding " ++
    (intText outstanding ++ (text " differs from its booked custody " ++
      intText pool.custodyTotal)))))

def runReconcileSyndication (plan : Plan) (positionCount : ℕ) (links : List LinkRow)
    (depot : Depot) : Except Text Unit := do
  let chainPlans := chainPlans plan
  let planned ← plannedPositions ext sdk plan
  assertOk (planned.length == positionCount) (steps (text "the plan holds " ++
    (natText planned.length ++ (text " positions, not the " ++ (natText positionCount ++
      text " the seals were composed for")))))
  let linkedAccounts ← readLinkedAccounts sdk links
  let linked := planned.filter fun planned => (linkedAccounts.get planned.linkKey).isSome
  let unlinked := planned.filter fun planned => (linkedAccounts.get planned.linkKey).isNone
  let parked := depot.parked.map fun row =>
    (⟨chainCodeOf contracts chainPlans row.1.1, row.1.2.1, row.1.2.2, row.2⟩ : ImportedPosition)
  assertOk (sortPositions parked == sortPositions (unlinked.map PlannedPosition.position)) (unsealed
    (text "sysio.synd::parked differs from the planned positions of unlinked pubkeys"))
  (linkedHoldings linked linkedAccounts).forM (assertHolding depot)
  chainPlans.forM (assertOutstanding depot)

end WireTools.LcoImportSteps
