import WireTools.DclaimSeed
import WireTools.SortBy
import WireTools.SquareRoots

/-! # The launch-data import

`WireLcoImportTool` derives what the bootstrap imports of each outpost from the frozen export of
that outpost.

* the exports, as their schemas admit them, and the configuration;
* `createPool`: the liq that no position holds, priced for its WIRE side, and the checks of a pool;
* `createClaims`: what every address is owed, in WIRE;
* `createEthereumPlan` and `createSolanaPlan`: the positions, the claims and the pool of a chain,
  after the checks of its export; `createPlan`: both chains;
* `Externals`: what the tool takes from other packages and from the file system. -/

namespace WireTools.WireLcoImportTool

open DclaimSeed (ImportSeedChainKind toHex)
open Protobuf (Bytes)

/-! ### Constants -/

def SyndicationBatchSize : ℕ := 50

def ClaimBatchSize : ℕ := 500

def EthereumDecimals : ℕ := 18

def LIQ_TOKEN_PRECISION : ℕ := 9

def WIRE_PRECISION : ℕ := 9

def AssetMaxAmount : ℤ := 2 ^ 62 - 1

def MaxPoolFee : ℤ := 9999

def PoolSeedLimit : ℤ := 10 ^ 15

def ETHEREUM_CHAIN_CODENAME : Text := text "ETHEREUM"

def SOLANA_CHAIN_CODENAME : Text := text "SOLANA"

def SHADOW_LIQ_TOKEN_PAIRS : List (Text × Text) :=
  [(ETHEREUM_CHAIN_CODENAME, text "LIQETH"), (SOLANA_CHAIN_CODENAME, text "LIQSOL")]

def liqTokenCode (chainCode : Text) : Except Text Text :=
  match SHADOW_LIQ_TOKEN_PAIRS.lookup chainCode with
  | some token => .ok token
  | none => .error (text "Constants: chain " ++ (chainCode ++ text " has no shadow liq token"))

def LIQ_POOL_PAIR_SUFFIX : Text := text "P"

def liqPoolPairCode (codename : Text) : Text :=
  codename ++ LIQ_POOL_PAIR_SUFFIX

/-- The account of the system contract. -/
def PlaceholderDclaimFundingAccount : Text := text "sysio"

def dclaimAccount : Text := text "sysio.dclaim"

/-! ### Exports -/

/-- `/^\d+$/` -/
structure UnsignedDecimalString where
  text : Text
  nonempty : text ≠ []
  digits : ∀ c ∈ text, isDigit c = true

def UnsignedDecimalString.toBigInt (s : UnsignedDecimalString) : ℤ :=
  Json.digitsValue s.text

def isHexDigit : UnitClass := fun c => (Json.hexValue c).isSome

/-- `/^0x[0-9a-fA-F]{40}$/` -/
def isEvmAddress (t : Text) : Bool :=
  (text "0x").isPrefixOf t && (t.drop 2).length == 40 && (t.drop 2).all isHexDigit

/-- `/^(0x)?0[23][0-9a-fA-F]{64}$/` -/
def isEvmCompressedPublicKey (t : Text) : Bool :=
  let bare := if (text "0x").isPrefixOf t then t.drop 2 else t
  bare.length == 66 && ((text "02").isPrefixOf bare || (text "03").isPrefixOf bare) &&
    bare.all isHexDigit

/-- Letters and digits without `0`, `I`, `O` and `l`. -/
def isBase58 : UnitClass := fun c =>
  (isDigit c || isUpper c || isLower c) && !([48, 73, 79, 108].contains c)

/-- `/^[1-9A-HJ-NP-Za-km-z]{32,44}$/` -/
def isSolanaAddress (t : Text) : Bool :=
  32 ≤ t.length && t.length ≤ 44 && t.all isBase58

/-- `/^[a-f0-9]{64}$/` -/
def isAllocationHash (t : Text) : Bool :=
  t.length == 64 && t.all DclaimSeed.isLowerHex

abbrev EvmAddress := {t : Text // isEvmAddress t = true}

abbrev EvmCompressedPublicKey := {t : Text // isEvmCompressedPublicKey t = true}

abbrev SolanaAddress := {t : Text // isSolanaAddress t = true}

abbrev AllocationHash := {t : Text // isAllocationHash t = true}

structure EthereumGenesisStaker where
  address : EvmAddress
  pubkey : Option EvmCompressedPublicKey
  netPrincipal : UnsignedDecimalString
  pretokenYield : UnsignedDecimalString

structure EthereumGenesisPurchaser where
  address : EvmAddress
  pretokens : UnsignedDecimalString
  liqPrincipalIn : UnsignedDecimalString
  pretokenYield : UnsignedDecimalString
  totalPretokens : UnsignedDecimalString

structure EthereumGenesisMetadata where
  totalPrincipal : UnsignedDecimalString
  totalLiqEthStaked : UnsignedDecimalString
  totalLiqEthPurchased : UnsignedDecimalString
  lastPoolLiqBalance : Option UnsignedDecimalString
  highestTranchePriceUsd : Option UnsignedDecimalString

structure EthereumGenesisSnapshot where
  stakers : List EthereumGenesisStaker
  purchasers : List EthereumGenesisPurchaser
  metadata : EthereumGenesisMetadata

structure SolanaGenesisBalance where
  address : SolanaAddress
  syndicatedLiqsol : UnsignedDecimalString
  purchasedLiqsol : UnsignedDecimalString
  directlyPurchasedPretokens : UnsignedDecimalString
  pretokenYield : UnsignedDecimalString
  totalPretokens : UnsignedDecimalString

/-- The schema admits one value of each. -/
structure SolanaGenesisUnits where
  liqsolDecimals : ℕ
  pretokenDecimals : ℕ
  liqsol : liqsolDecimals = 9
  pretoken : pretokenDecimals = 8

structure SolanaGenesisAccounting where
  poolBalance : UnsignedDecimalString
  poolPretokens : UnsignedDecimalString
  allocatedPretokenYield : UnsignedDecimalString
  unallocatedPoolPretokens : UnsignedDecimalString
  directlyPurchasedPretokens : UnsignedDecimalString
  totalUserPretokens : UnsignedDecimalString
  totalPretokensSold : UnsignedDecimalString
  unreportedLiqsolYield : UnsignedDecimalString
  backingAvailable : UnsignedDecimalString
  initialChainAmount : UnsignedDecimalString
  issues : List Text
  units : SolanaGenesisUnits
  highestTranchePriceUsd : Option UnsignedDecimalString

structure SolanaGenesisSnapshot where
  programId : Text
  allocationHash : AllocationHash
  balances : List SolanaGenesisBalance
  accounting : SolanaGenesisAccounting

/-! ### Configuration and plans -/

structure LiqPoolSpec where
  chainCode : Text
  tokenCode : Text
  pairSymbol : Text
  name : Text
  description : Text
  initialChainAmount : ℤ
  initialWireAmount : ℤ
  fee : ℤ
  lockedShares : ℤ
  conversionHorizonSec : ℤ
  depthCapBps : ℤ
  clipFloor : ℤ
  custodyTotal : ℤ
  deriving DecidableEq

structure SyndicationSpec where
  chainCode : Text
  tokenCode : Text
  pubkey : Text
  amount : ℤ
  deriving DecidableEq

structure ClaimCredit where
  native_address : Text
  wire_atomic : ℤ
  deriving DecidableEq

structure LcoImportChainConfig where
  bootstrapJsonFile : Text
  nativePriceUsd : Option UnsignedDecimalString
  highestTranchePriceUsd : Option UnsignedDecimalString
  pool : Option LiqPoolSpec

structure LcoImportConfig where
  ethereum : Option LcoImportChainConfig
  solana : Option LcoImportChainConfig
  dclaimFundingAccount : Option Text

structure Placeholder where
  setting : Text
  value : Text
  deriving DecidableEq

structure ChainPlan where
  chain : ImportSeedChainKind
  bootstrapJsonFile : Text
  programId : Option Text
  syndications : List SyndicationSpec
  claims : List ClaimCredit
  pool : LiqPoolSpec

structure Plan where
  ethereum : Option ChainPlan
  solana : Option ChainPlan
  dclaimFundingAccount : Text
  placeholders : List Placeholder

structure ChainDerivation where
  plan : ChainPlan
  placeholders : List Placeholder

structure Externals where
  /-- Nothing where the file cannot be read. -/
  readFile : Text → Option Text
  ethereumCodec : Text → Option EthereumGenesisSnapshot
  solanaCodec : Text → Option SolanaGenesisSnapshot
  /-- SHA-256 over the members `schemaVersion`, `programId` and `balances` of an export. -/
  solanaAllocationHash : Text → Text
  /-- `ethers.computeAddress` -/
  computeAddress : Text → Except Text Text
  /-- `ethers.getBytes` -/
  getBytes : Text → Except Text Bytes
  /-- The bytes of a `PublicKey` of `@solana/web3.js`. -/
  solanaBytes : Text → Except Text Bytes
  /-- `LiqPoolSpec.toJsonString` -/
  toJsonString : LiqPoolSpec → Text

/-! ### Placeholders -/

def PlaceholderEthereumPriceUsd : UnsignedDecimalString :=
  ⟨text "400000000000", by decide, by decide⟩

def PlaceholderSolanaPriceUsd : UnsignedDecimalString :=
  ⟨text "20000000000", by decide, by decide⟩

def PlaceholderHighestTranchePriceUsd : UnsignedDecimalString :=
  ⟨text "10000000", by decide, by decide⟩

/-- What the options leave to the import is empty or zero. -/
def PlaceholderPoolTuning : LiqPoolSpec where
  chainCode := []
  tokenCode := []
  pairSymbol := []
  name := []
  description := []
  initialChainAmount := 0
  initialWireAmount := 0
  fee := 30
  lockedShares := 0
  conversionHorizonSec := 86400
  depthCapBps := 30
  clipFloor := 1000
  custodyTotal := 0

/-! ### Amounts, addresses and texts -/

def assertOk (b : Bool) (message : Text) : Except Text Unit :=
  if b then .ok () else .error message

def tool (message : Text) : Text :=
  text "WireLcoImportTool: " ++ message

/-- The division of the source rounds towards zero. -/
def scaleUnits (amount : ℤ) (fromDecimals toDecimals : ℕ) : ℤ :=
  if toDecimals ≤ fromDecimals then amount.tdiv (10 ^ (fromDecimals - toDecimals))
  else amount * 10 ^ (toDecimals - fromDecimals)

def sumOf (amounts : List UnsignedDecimalString) : ℤ :=
  amounts.foldl (fun sum amount => sum + amount.toBigInt) 0

/-- `value.replace(/^0x/i, "")` -/
def withoutHexPrefix (value : Text) : Text :=
  if (text "0x").isPrefixOf (value.map toLower) then value.drop 2 else value

def evmDisplayHex (value : Text) : Text :=
  text "0x" ++ (withoutHexPrefix value).map toLower

variable (ext : Externals)

def nativeBytesHex (chain : ImportSeedChainKind) (value : Text) : Except Text Text :=
  match chain with
  | .EVM => (ext.getBytes (evmDisplayHex value)).map toHex
  | .SVM => (ext.solanaBytes value).map toHex

/-- A key that cannot be read is the key of no address. -/
def isKeyOf (pubkey address : Text) : Bool :=
  match ext.computeAddress (evmDisplayHex pubkey) with
  | .ok computed => computed.map toLower == address.map toLower
  | .error _ => false

def poolName (tokenCode : Text) : Text :=
  tokenCode ++ text "/WIRE yield pool"

def poolDescription (tokenCode : Text) : Text :=
  text "The LCO " ++ (tokenCode ++ text " against WIRE at the highest tranche price")

/-! ### Checks of an export -/

structure DeclaredTotal where
  declared : UnsignedDecimalString
  derived : ℤ

structure RowTotal extends DeclaredTotal where
  address : Text

def DeclaredTotal.wrong (total : DeclaredTotal) : Bool :=
  total.declared.toBigInt != total.derived

def assertTotals (file : Text) (totals : List (Text × DeclaredTotal)) : Except Text Unit :=
  let wrong := (totals.filter fun entry => entry.2.wrong).map fun entry =>
    entry.1 ++ (text " " ++ (entry.2.declared.text ++
      (text " (derived: " ++ (intText entry.2.derived ++ text ")"))))
  assertOk wrong.isEmpty (tool (file ++
    (text ": declared totals do not add up: " ++ join (text "; ") wrong)))

def assertUnique (file list : Text) (identities : List Text) : Except Text Unit :=
  let repeated := identities.eraseDups.filter fun identity => 1 < identities.count identity
  assertOk repeated.isEmpty (tool (file ++ (text ": " ++ (list ++ (text " lists " ++
    (natText repeated.length ++ (text " address(es) more than once: " ++
      join (text ", ") repeated)))))))

def assertRowTotals (file : Text) (rows : List RowTotal) : Except Text Unit :=
  let wrong := (rows.filter fun row => row.wrong).map RowTotal.address
  assertOk wrong.isEmpty (tool (file ++ (text ": " ++ (natText wrong.length ++
    (text " row(s) whose totalPretokens is not its pretokens plus pretokenYield: " ++
      join (text ", ") wrong)))))

def readExport {α : Type} (codec : Text → Option α) (file : Text) : Except Text (Text × α) :=
  match ext.readFile file with
  | none => .error (tool (text "cannot read the export " ++ file))
  | some text =>
      match codec text with
      | none => .error (tool (file ++ WireTools.text " is not a valid export"))
      | some snapshot => .ok (text, snapshot)

/-! ### Positions and claims -/

def sortSyndications (specs : List SyndicationSpec) : Except Text (List SyndicationSpec) := do
  specs.forM fun spec => assertOk (decide (spec.amount ≤ AssetMaxAmount))
    (tool (text "the " ++ (spec.tokenCode ++ (text " position of " ++
      (spec.pubkey ++ text " exceeds the asset range")))))
  pure (sortBy SyndicationSpec.pubkey specs)

structure Owed where
  nativeAddress : Text
  amount : ℤ

def createClaims (owed : List Owed) (pretokenDecimals : ℕ) : Except Text (List ClaimCredit) := do
  let totals := tally (owed.map fun entry => (entry.nativeAddress, entry.amount))
  let claims := (totals.map fun entry =>
    (⟨entry.1, scaleUnits entry.2 pretokenDecimals WIRE_PRECISION⟩ : ClaimCredit)).filter
      fun claim => 0 < claim.wire_atomic
  claims.forM fun claim => assertOk (decide (claim.wire_atomic ≤ AssetMaxAmount))
    (tool (text "the WIRE claim of " ++ (claim.native_address ++
      text " exceeds the asset range")))
  pure (sortBy ClaimCredit.native_address claims)

def syndicatedTotal (syndications : List SyndicationSpec) : ℤ :=
  syndications.foldl (fun sum spec => sum + spec.amount) 0

/-! ### Pools -/

structure PoolSource where
  chainConfig : LcoImportChainConfig
  member : Text
  chainCode : Text
  tokenCode : Text
  custodyTotal : ℤ
  syndications : List SyndicationSpec
  exportedTranchePriceUsd : Option UnsignedDecimalString
  placeholderNativePriceUsd : UnsignedDecimalString

structure PoolPricing where
  nativePriceUsd : ℤ
  highestTranchePriceUsd : ℤ

/-- The printed value of a price that may be missing. -/
def shown (price : Option UnsignedDecimalString) : Text :=
  (price.map UnsignedDecimalString.text).getD (text "undefined")

/-- The options and the export do not name different prices. -/
def sameTranche : Option UnsignedDecimalString → Option UnsignedDecimalString → Bool
  | some configured, some exported => configured.toBigInt == exported.toBigInt
  | _, _ => true

def resolvePricing (source : PoolSource) : Except Text (PoolPricing × List Placeholder) := do
  let configuredTranche := source.chainConfig.highestTranchePriceUsd
  let setting := text "lcoImport." ++ source.member
  assertOk (sameTranche configuredTranche source.exportedTranchePriceUsd)
    (tool (setting ++ (text ".highestTranchePriceUsd " ++ (shown configuredTranche ++
      (text " disagrees with the export's " ++ shown source.exportedTranchePriceUsd)))))
  let nativePriceUsd := source.chainConfig.nativePriceUsd.getD source.placeholderNativePriceUsd
  let highestTranchePriceUsd :=
    (configuredTranche.or source.exportedTranchePriceUsd).getD PlaceholderHighestTranchePriceUsd
  let placeholders : List Placeholder :=
    (if source.chainConfig.nativePriceUsd.isNone then
      [⟨setting ++ text ".nativePriceUsd", nativePriceUsd.text⟩] else []) ++
    (if configuredTranche.isNone && source.exportedTranchePriceUsd.isNone then
      [⟨setting ++ text ".highestTranchePriceUsd", highestTranchePriceUsd.text⟩] else [])
  assertOk (decide (0 < highestTranchePriceUsd.toBigInt))
    (tool (text "the " ++ (source.member ++ text " highest tranche price must be positive")))
  pure (⟨nativePriceUsd.toBigInt, highestTranchePriceUsd.toBigInt⟩, placeholders)

/-- The options of the pool that the import derives itself, where they are set. -/
def derivedFields (tuning : LiqPoolSpec) : List Text :=
  [(tuning.chainCode != [], text "chainCode"), (tuning.tokenCode != [], text "tokenCode"),
    (tuning.pairSymbol != [], text "pairSymbol"),
    (tuning.initialChainAmount != 0, text "initialChainAmount"),
    (tuning.initialWireAmount != 0, text "initialWireAmount"),
    (tuning.custodyTotal != 0, text "custodyTotal")].filterMap fun field =>
      if field.1 then some field.2 else none

def assertTuningOnly (tuning : LiqPoolSpec) (member : Text) : Except Text Unit :=
  assertOk (derivedFields tuning).isEmpty (tool (text "lcoImport." ++ (member ++
    (text ".pool sets " ++ (join (text ", ") (derivedFields tuning) ++
      text ", which the import derives from the export")))))

/-- `/^[A-Z]{1,7}$/` -/
def isPairCode (code : Text) : Bool :=
  1 ≤ code.length && code.length ≤ 7 && code.all isUpper

def assertPool (pool : LiqPoolSpec) : Except Text Unit := do
  let label := tool (text "the " ++ (pool.tokenCode ++ text " pool"))
  assertOk (isPairCode pool.pairSymbol)
    (label ++ (text ": pair code " ++ (pool.pairSymbol ++ text " must be 1..7 capitals")))
  assertOk (decide (0 < pool.initialWireAmount))
    (label ++ text ": its WIRE side rounds to nothing")
  assertOk (decide (pool.initialChainAmount < PoolSeedLimit) &&
      decide (pool.initialWireAmount < PoolSeedLimit))
    (label ++ (text ": a seed reaches sysio.swap's " ++ (intText PoolSeedLimit ++
      (text " limit (liq " ++ (intText pool.initialChainAmount ++
        (text ", WIRE " ++ (intText pool.initialWireAmount ++ text ")")))))))
  assertOk (decide (pool.custodyTotal ≤ AssetMaxAmount))
    (label ++ (text ": its booked custody " ++ (intText pool.custodyTotal ++
      text " exceeds the asset range")))
  assertOk (decide (pool.fee ≤ MaxPoolFee))
    (label ++ (text ": fee " ++ (intText pool.fee ++ (text " exceeds " ++ intText MaxPoolFee))))
  assertOk (decide (0 < pool.conversionHorizonSec))
    (label ++ text ": conversionHorizonSec must be positive")
  assertOk (decide (1 ≤ pool.depthCapBps) && decide (pool.depthCapBps ≤ pool.fee))
    (label ++ (text ": depthCapBps " ++ (intText pool.depthCapBps ++
      (text " must be 1.." ++ (intText pool.fee ++ text ", the pool's fee")))))
  assertOk (decide (0 < pool.clipFloor) && decide (pool.clipFloor ≤ AssetMaxAmount))
    (label ++ text ": clipFloor must be positive and within the asset range")
  BigintUtils.assertShares label
    ⟨pool.initialChainAmount, pool.initialWireAmount, pool.lockedShares⟩

/-- An empty text is replaced, as `||` does. -/
def orElse (t fallback : Text) : Text :=
  if t = [] then fallback else t

def createPool (source : PoolSource) : Except Text (LiqPoolSpec × List Placeholder) := do
  let chainConfig := source.chainConfig
  let syndicated := syndicatedTotal source.syndications
  let initialChainAmount := source.custodyTotal - syndicated
  assertOk (decide (0 < initialChainAmount))
    (tool (chainConfig.bootstrapJsonFile ++ (text ": the booked custody " ++
      (intText source.custodyTotal ++ (text " does not exceed the syndicated " ++
        (intText syndicated ++ (text ", so no LCO liq is left for the " ++
          (source.tokenCode ++ text " pool"))))))))
  let (pricing, pricingPlaceholders) ← resolvePricing source
  let initialWireAmount :=
    (initialChainAmount * pricing.nativePriceUsd).tdiv pricing.highestTranchePriceUsd
  let tuning := chainConfig.pool.getD PlaceholderPoolTuning
  assertTuningOnly tuning source.member
  let pool : LiqPoolSpec :=
    { chainCode := source.chainCode
      tokenCode := source.tokenCode
      pairSymbol := liqPoolPairCode source.tokenCode
      name := orElse tuning.name (poolName source.tokenCode)
      description := orElse tuning.description (poolDescription source.tokenCode)
      initialChainAmount := initialChainAmount
      initialWireAmount := initialWireAmount
      fee := tuning.fee
      lockedShares := tuning.lockedShares
      conversionHorizonSec := tuning.conversionHorizonSec
      depthCapBps := tuning.depthCapBps
      clipFloor := tuning.clipFloor
      custodyTotal := source.custodyTotal }
  assertPool pool
  pure (pool, pricingPlaceholders ++
    (if chainConfig.pool.isNone then
      [⟨text "lcoImport." ++ (source.member ++ text ".pool"),
        ext.toJsonString PlaceholderPoolTuning⟩] else []))

/-! ### The plan of a chain -/

/-- The stakers with liq of their own, and how much at the precision of the depot. -/
def ethereumPositions (snapshot : EthereumGenesisSnapshot) :
    List (EthereumGenesisStaker × ℤ) :=
  (snapshot.stakers.map fun staker =>
    (staker, scaleUnits staker.netPrincipal.toBigInt EthereumDecimals LIQ_TOKEN_PRECISION)).filter
      fun position => 0 < position.2

def unkeyed (positions : List (EthereumGenesisStaker × ℤ)) : List Text :=
  (positions.filter fun position => position.1.pubkey.isNone).map
    fun position => position.1.address.val

def misKeyed (stakers : List EthereumGenesisStaker) : List Text :=
  (stakers.filter fun staker =>
    staker.pubkey.any fun pubkey => !isKeyOf ext pubkey.val staker.address.val).map
      fun staker => staker.address.val

def assertEthereumExport (file : Text) (snapshot : EthereumGenesisSnapshot) :
    Except Text Unit := do
  let unkeyed := unkeyed (ethereumPositions snapshot)
  let misKeyed := misKeyed ext snapshot.stakers
  assertOk unkeyed.isEmpty (tool (file ++ (text ": " ++ (natText unkeyed.length ++
    (text " staker(s) hold liqETH with no recovered pubkey, which no import can credit: " ++
      join (text ", ") unkeyed)))))
  assertOk misKeyed.isEmpty (tool (file ++ (text ": " ++ (natText misKeyed.length ++
    (text " staker(s) carry a pubkey that is not their address's key: " ++
      join (text ", ") misKeyed)))))
  assertUnique file (text "stakers")
    (snapshot.stakers.map fun staker => evmDisplayHex staker.address.val)
  assertUnique file (text "purchasers")
    (snapshot.purchasers.map fun purchaser => evmDisplayHex purchaser.address.val)
  assertRowTotals file (snapshot.purchasers.map fun purchaser =>
    { address := purchaser.address.val
      declared := purchaser.totalPretokens
      derived := purchaser.pretokens.toBigInt + purchaser.pretokenYield.toBigInt })
  let staked := sumOf (snapshot.stakers.map EthereumGenesisStaker.netPrincipal)
  assertTotals file
    [(text "metadata.totalPrincipal", ⟨snapshot.metadata.totalPrincipal, staked⟩),
      (text "metadata.totalLiqEthStaked", ⟨snapshot.metadata.totalLiqEthStaked, staked⟩),
      (text "metadata.totalLiqEthPurchased", ⟨snapshot.metadata.totalLiqEthPurchased,
        sumOf (snapshot.purchasers.map EthereumGenesisPurchaser.liqPrincipalIn)⟩)]

/-- `unkeyed` is empty, so every position has its key. -/
def ethereumSyndications (chainCode tokenCode : Text)
    (positions : List (EthereumGenesisStaker × ℤ)) : List SyndicationSpec :=
  positions.map fun position =>
    { chainCode := chainCode
      tokenCode := tokenCode
      pubkey := evmDisplayHex ((position.1.pubkey.map Subtype.val).getD [])
      amount := position.2 }

/-- What every row of a list owes, by its address. -/
def owedBy {α : Type} (chain : ImportSeedChainKind) (rows : List α) (address : α → Text)
    (amount : α → ℤ) : Except Text (List Owed) :=
  rows.mapM fun row => do
    let nativeAddress ← nativeBytesHex ext chain (address row)
    pure ⟨nativeAddress, amount row⟩

/-- What the pool is left with is what was purchased, where the export books no custody. -/
def bookedPlaceholder (syndications : List SyndicationSpec)
    (metadata : EthereumGenesisMetadata) : ℤ :=
  scaleUnits (syndicatedTotal syndications) LIQ_TOKEN_PRECISION EthereumDecimals +
    metadata.totalLiqEthPurchased.toBigInt

def createEthereumPlan (chainConfig : LcoImportChainConfig) : Except Text ChainDerivation := do
  let file := chainConfig.bootstrapJsonFile
  let (_, snapshot) ← readExport ext ext.ethereumCodec file
  let chainCode := ETHEREUM_CHAIN_CODENAME
  let tokenCode ← liqTokenCode chainCode
  assertEthereumExport ext file snapshot
  let syndications ← sortSyndications
    (ethereumSyndications chainCode tokenCode (ethereumPositions snapshot))
  let booked := bookedPlaceholder syndications snapshot.metadata
  let bookedWei := (snapshot.metadata.lastPoolLiqBalance.map
    UnsignedDecimalString.toBigInt).getD booked
  let bookedPlaceholders : List Placeholder :=
    if snapshot.metadata.lastPoolLiqBalance.isNone then
      [⟨file ++ text ": metadata.lastPoolLiqBalance", intText booked⟩] else []
  let (pool, placeholders) ← createPool ext
    { chainConfig := chainConfig
      member := text "ethereum"
      chainCode := chainCode
      tokenCode := tokenCode
      custodyTotal := scaleUnits bookedWei EthereumDecimals LIQ_TOKEN_PRECISION
      syndications := syndications
      exportedTranchePriceUsd := snapshot.metadata.highestTranchePriceUsd
      placeholderNativePriceUsd := PlaceholderEthereumPriceUsd }
  let bought ← owedBy ext .EVM snapshot.purchasers (fun purchaser => purchaser.address.val)
    fun purchaser => purchaser.totalPretokens.toBigInt
  let earned ← owedBy ext .EVM snapshot.stakers (fun staker => staker.address.val)
    fun staker => staker.pretokenYield.toBigInt
  let claims ← createClaims (bought ++ earned) EthereumDecimals
  pure
    { plan :=
        { chain := .EVM
          bootstrapJsonFile := file
          programId := none
          syndications := syndications
          claims := claims
          pool := pool }
      placeholders := bookedPlaceholders ++ placeholders }

def assertSolanaExport (file text' : Text) (snapshot : SolanaGenesisSnapshot) :
    Except Text Unit := do
  let accounting := snapshot.accounting
  let balances := snapshot.balances
  let allocationHash := ext.solanaAllocationHash text'
  let poolBalance := accounting.poolBalance.toBigInt
  let unreported := accounting.unreportedLiqsolYield.toBigInt
  assertOk accounting.issues.isEmpty (tool (file ++
    (text ": the export reports reconciliation issues: " ++ join (text "; ") accounting.issues)))
  assertOk (allocationHash == snapshot.allocationHash.val) (tool (file ++
    (text ": the balances hash to " ++ (allocationHash ++
      (text ", not the declared allocationHash " ++ snapshot.allocationHash.val)))))
  assertUnique file (text "balances") (balances.map fun balance => balance.address.val)
  assertRowTotals file (balances.map fun balance =>
    { address := balance.address.val
      declared := balance.totalPretokens
      derived := balance.directlyPurchasedPretokens.toBigInt + balance.pretokenYield.toBigInt })
  assertOk (decide (unreported ≤ poolBalance)) (tool (file ++ (text ": the pool's " ++
    (intText poolBalance ++ (text " liqSOL is less than its " ++
      (intText unreported ++ text " unreported yield"))))))
  assertTotals file
    [(text "accounting.initialChainAmount", ⟨accounting.initialChainAmount,
        sumOf (balances.map SolanaGenesisBalance.purchasedLiqsol)⟩),
      (text "accounting.backingAvailable", ⟨accounting.backingAvailable,
        poolBalance - unreported⟩),
      (text "accounting.directlyPurchasedPretokens", ⟨accounting.directlyPurchasedPretokens,
        sumOf (balances.map SolanaGenesisBalance.directlyPurchasedPretokens)⟩),
      (text "accounting.allocatedPretokenYield", ⟨accounting.allocatedPretokenYield,
        sumOf (balances.map SolanaGenesisBalance.pretokenYield)⟩),
      (text "accounting.totalUserPretokens", ⟨accounting.totalUserPretokens,
        sumOf (balances.map SolanaGenesisBalance.totalPretokens)⟩),
      (text "accounting.poolPretokens", ⟨accounting.poolPretokens,
        sumOf [accounting.allocatedPretokenYield, accounting.unallocatedPoolPretokens]⟩),
      (text "accounting.totalPretokensSold", ⟨accounting.totalPretokensSold,
        sumOf [accounting.directlyPurchasedPretokens, accounting.poolPretokens]⟩)]

def toDepot (units : SolanaGenesisUnits) (amount : UnsignedDecimalString) : ℤ :=
  scaleUnits amount.toBigInt units.liqsolDecimals LIQ_TOKEN_PRECISION

def solanaSyndications (chainCode tokenCode : Text) (snapshot : SolanaGenesisSnapshot) :
    List SyndicationSpec :=
  (snapshot.balances.map fun balance =>
    ({ chainCode := chainCode
       tokenCode := tokenCode
       pubkey := balance.address.val
       amount := toDepot snapshot.accounting.units balance.syndicatedLiqsol } :
      SyndicationSpec)).filter fun spec => 0 < spec.amount

def createSolanaPlan (chainConfig : LcoImportChainConfig) : Except Text ChainDerivation := do
  let file := chainConfig.bootstrapJsonFile
  let (text', snapshot) ← readExport ext ext.solanaCodec file
  let accounting := snapshot.accounting
  let chainCode := SOLANA_CHAIN_CODENAME
  let tokenCode ← liqTokenCode chainCode
  assertSolanaExport ext file text' snapshot
  let syndications ← sortSyndications (solanaSyndications chainCode tokenCode snapshot)
  let custodyTotal :=
    toDepot accounting.units accounting.initialChainAmount + syndicatedTotal syndications
  let backing := toDepot accounting.units accounting.backingAvailable
  assertOk (decide (custodyTotal ≤ backing)) (tool (file ++ (text ": the booked principal " ++
    (intText custodyTotal ++ (text " exceeds the " ++
      (intText backing ++ text " the pool can back"))))))
  let (pool, placeholders) ← createPool ext
    { chainConfig := chainConfig
      member := text "solana"
      chainCode := chainCode
      tokenCode := tokenCode
      custodyTotal := custodyTotal
      syndications := syndications
      exportedTranchePriceUsd := accounting.highestTranchePriceUsd
      placeholderNativePriceUsd := PlaceholderSolanaPriceUsd }
  let owed ← owedBy ext .SVM snapshot.balances (fun balance => balance.address.val)
    fun balance => balance.totalPretokens.toBigInt
  let claims ← createClaims owed accounting.units.pretokenDecimals
  pure
    { plan :=
        { chain := .SVM
          bootstrapJsonFile := file
          programId := some snapshot.programId
          syndications := syndications
          claims := claims
          pool := pool }
      placeholders := placeholders }

/-! ### The whole plan -/

def chainPlans (plan : Plan) : List ChainPlan :=
  [plan.ethereum, plan.solana].filterMap id

def claimTotal (chainPlan : ChainPlan) : ℤ :=
  chainPlan.claims.foldl (fun sum credit => sum + credit.wire_atomic) 0

def planClaimTotal (plan : Plan) : ℤ :=
  (chainPlans plan).foldl (fun sum chainPlan => sum + claimTotal chainPlan) 0

def dexEarmark (plan : Plan) : ℤ :=
  (chainPlans plan).foldl (fun sum chainPlan => sum + chainPlan.pool.initialWireAmount) 0

/-- The plan before its last checks. -/
def composePlan (config : LcoImportConfig) (ethereum solana : Option ChainDerivation) : Plan :=
  { ethereum := ethereum.map ChainDerivation.plan
    solana := solana.map ChainDerivation.plan
    dclaimFundingAccount := config.dclaimFundingAccount.getD PlaceholderDclaimFundingAccount
    placeholders := (ethereum.map ChainDerivation.placeholders).getD [] ++
      ((solana.map ChainDerivation.placeholders).getD [] ++
        if config.dclaimFundingAccount.isNone then
          [⟨text "lcoImport.dclaimFundingAccount", PlaceholderDclaimFundingAccount⟩] else []) }

/-- Nothing without an export. -/
def derive (createChain : LcoImportChainConfig → Except Text ChainDerivation) :
    Option LcoImportChainConfig → Except Text (Option ChainDerivation)
  | none => pure none
  | some chainConfig => (createChain chainConfig).map some

def createPlan (config : LcoImportConfig) : Except Text Plan := do
  let ethereum ← derive (createEthereumPlan ext) config.ethereum
  let solana ← derive (createSolanaPlan ext) config.solana
  let plan := composePlan config ethereum solana
  let claims := planClaimTotal plan
  assertOk (plan.dclaimFundingAccount != dclaimAccount)
    (tool (text "lcoImport.dclaimFundingAccount cannot be " ++ (dclaimAccount ++
      text ", which the claims are transferred into")))
  assertOk (decide (claims ≤ AssetMaxAmount))
    (tool (text "the claims total " ++ (intText claims ++
      text " WIRE subunits, beyond the asset range")))
  pure plan

/-- A value that no export or option supplied is refused where real custody is imported. -/
def assertRealData (plan : Plan) : Except Text Unit :=
  assertOk plan.placeholders.isEmpty
    (tool (text "an import against external outposts takes real values only — set " ++
      join (text ", ") (plan.placeholders.map Placeholder.setting)))

/-- The export of Solana is the one of the outpost that the cluster targets. -/
def assertExportOutposts (plan : Plan) (targeted : Text) : Except Text Unit :=
  let exported := plan.solana.bind ChainPlan.programId
  assertOk (exported.all fun programId => programId == targeted)
    (tool (text "the Solana export was read from program " ++ (exported.getD (text "undefined") ++
      (text ", not the outpost " ++ (targeted ++ text " the cluster targets")))))

end WireTools.WireLcoImportTool
