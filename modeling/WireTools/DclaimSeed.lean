import WireTools.Chunks
import WireTools.EnvelopeStorageKey
import WireTools.Protobuf
import WireTools.Tally

/-! # Seeding claims from an indexer dump

`WireDclaimSeedTool` turns the balances of an indexer dump into `importseed` batches.

* `accumulate`: the amounts of purchasers and stakers, summed by decoded address.  A staker row
  without a positive net is left out before the sum;
* `toCredits`: the sums in order of the addresses, divided by the divisor of the chain, and the
  dust that the division drops;
* `convertImportSeed`: the credits in batches, and the totals over them. -/

namespace WireTools.DclaimSeed

open EnvelopeStorage (hexNumber hexText)
open Json
open Protobuf (Bytes)

/-! ### Dumps and batches -/

inductive ImportSeedChainKind where
  | EVM
  | SVM
  deriving DecidableEq

def DefaultImportSeedBatchSize : ℕ := 10000

/-- Amounts are the integers that `toBigInt` reads. -/
structure IndexPurchaserRow where
  address : Text
  totalPretokens : ℤ

structure IndexStakerRow where
  address : Text
  pretokenYield : ℤ
  yieldClaimed : Option ℤ

structure IndexBalanceDump where
  purchasers : Option (List IndexPurchaserRow)
  stakers : Option (List IndexStakerRow)

structure ImportSeedCredit where
  native_address : Text
  wire_atomic : ℤ
  deriving DecidableEq

structure ImportSeedBatch where
  chain : ImportSeedChainKind
  credits : List ImportSeedCredit
  deriving DecidableEq

structure ImportSeedResult where
  batches : List ImportSeedBatch
  droppedDust : ℤ
  uniqueAddresses : ℕ
  nonZeroCredits : ℕ
  totalAtomic : ℤ
  deriving DecidableEq

/-! ### Addresses -/

/-- `[0-9a-f]` -/
def isLowerHex (c : CodeUnit) : Bool :=
  isDigit c || (97 ≤ c && c ≤ 102)

def ethDecode (addr : Text) : Except Text Bytes :=
  let lower := addr.map toLower
  let stripped := if (text "0x").isPrefixOf lower then lower.drop 2 else lower
  if stripped.length ≠ 40 || !stripped.all isLowerHex then
    throw (text "invalid ethereum address: " ++ quote addr)
  else
    pure ((List.range 20).map fun i => UInt8.ofNat (hexNumber ((stripped.drop (i * 2)).take 2)))

structure ChainConfig where
  decoder : Text → Except Text Bytes
  addrLen : ℕ
  divisor : ℤ

/-- The decoder of `@solana/web3.js` is an argument. -/
def CHAIN_CONFIG (solDecode : Text → Except Text Bytes) : ImportSeedChainKind → ChainConfig
  | .EVM => ⟨ethDecode, 20, 10 ^ 9⟩
  | .SVM => ⟨solDecode, 32, 1⟩

def toHex (bytes : Bytes) : Text :=
  bytes.flatMap fun b => padStart 2 48 (hexText b.toNat)

variable (cfg : ChainConfig)

def decodeOrThrow (addr : Text) : Except Text Text := do
  let b ← cfg.decoder addr
  if b.length ≠ cfg.addrLen then
    throw (text "address " ++ quote addr ++ text " decoded to " ++ natText b.length ++
      text " bytes, expected " ++ natText cfg.addrLen)
  else pure (toHex b)

/-! ### The conversion -/

def owed (row : IndexStakerRow) : ℤ :=
  row.pretokenYield - row.yieldClaimed.getD 0

def addPurchaser (acc : OrderedMap Text ℤ) (row : IndexPurchaserRow) :
    Except Text (OrderedMap Text ℤ) := do
  let key ← decodeOrThrow cfg row.address
  pure (addTo acc key row.totalPretokens)

def addStaker (acc : OrderedMap Text ℤ) (row : IndexStakerRow) :
    Except Text (OrderedMap Text ℤ) := do
  let key ← decodeOrThrow cfg row.address
  pure (if 0 < owed row then addTo acc key (owed row) else acc)

def accumulate (data : IndexBalanceDump) : Except Text (OrderedMap Text ℤ) := do
  let acc ← (data.purchasers.getD []).foldlM (addPurchaser cfg) []
  (data.stakers.getD []).foldlM (addStaker cfg) acc

structure ImportSeedCreditResult where
  credits : List ImportSeedCredit
  droppedDust : ℤ

/-- In order of the addresses.  The division is towards zero. -/
def toCredits (accumulator : OrderedMap Text ℤ) (divisor : ℤ) : ImportSeedCreditResult :=
  (accumulator.keys.mergeSort fun a b => decide (a ≤ b)).foldl
    (fun out addrHex =>
      let total := (accumulator.get addrHex).getD 0
      let atomic := total.tdiv divisor
      let dust := total - atomic * divisor
      { credits := if 0 < atomic then out.credits ++ [⟨addrHex, atomic⟩] else out.credits
        droppedDust := out.droppedDust + dust }) ⟨[], 0⟩

def chunked {α : Type} (arr : List α) (size : ℕ) : Except Text (List (List α)) :=
  if size = 0 then throw (text "batch size must be > 0; got " ++ natText size)
  else pure (chunks size arr)

def convertImportSeed (solDecode : Text → Except Text Bytes) (data : IndexBalanceDump)
    (chain : ImportSeedChainKind) (batchSize : Option ℕ) : Except Text ImportSeedResult := do
  let cfg := CHAIN_CONFIG solDecode chain
  let accumulator ← accumulate cfg data
  let converted := toCredits accumulator cfg.divisor
  let batches ← chunked converted.credits (batchSize.getD DefaultImportSeedBatchSize)
  pure
    { batches := batches.map fun c => ⟨chain, c⟩
      droppedDust := converted.droppedDust
      uniqueAddresses := accumulator.length
      nonZeroCredits := converted.credits.length
      totalAtomic := (converted.credits.map ImportSeedCredit.wire_atomic).sum }

end WireTools.DclaimSeed
