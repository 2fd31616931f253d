import Mathlib.Algebra.Order.BigOperators.Group.List
import WireTools.LcoImportTool
import WireTools.Outcome

/-! # The checks of the launch-data import

* what each check of an export or of a pool lets pass, as a property of what it checks;
* `scaleUnits_eq`: an amount at another precision is rounded down;
* `createPool_eq_ok`: the pool that is returned (`Pooled`), and when no placeholder went into it
  (`PoolSource.Supplied`). -/

namespace WireTools.WireLcoImportTool

open Outcome

/-! ### Checks -/

@[simp] theorem assertOk_eq_ok {b : Bool} {message : Text} :
    assertOk b message = .ok () ↔ b = true := by
  unfold assertOk
  cases b
  · exact iff_of_false (fun h => by cases h) Bool.false_ne_true
  · exact iff_of_true rfl rfl

/-- A check passed in front of the rest. -/
theorem assertOk_bind {α : Type} {b : Bool} {message : Text} {m : Except Text α} {a : α} :
    (assertOk b message >>= fun _ => m) = .ok a ↔ b = true ∧ m = .ok a := by
  rw [except_bind_eq_ok]
  constructor
  · rintro ⟨_, hb, hm⟩
    exact ⟨assertOk_eq_ok.mp hb, hm⟩
  · rintro ⟨hb, hm⟩
    exact ⟨(), assertOk_eq_ok.mpr hb, hm⟩

theorem assertUnique_eq_ok {file list : Text} {identities : List Text} :
    assertUnique file list identities = .ok () ↔ identities.Nodup := by
  unfold assertUnique
  rw [assertOk_eq_ok, List.isEmpty_iff, List.filter_eq_nil_iff, List.nodup_iff_count_le_one]
  constructor
  · intro h identity
    by_cases hmem : identity ∈ identities
    · have := h identity (List.mem_eraseDups.mpr hmem)
      rw [decide_eq_true_eq] at this
      omega
    · rw [List.count_eq_zero_of_not_mem hmem]
      exact Nat.zero_le 1
  · intro h identity _
    have := h identity
    rw [decide_eq_true_eq]
    omega

theorem wrong_eq_false {total : DeclaredTotal} :
    total.wrong = false ↔ total.declared.toBigInt = total.derived := by
  rw [DeclaredTotal.wrong, bne_eq_false_iff_eq]

theorem assertTotals_eq_ok {file : Text} {totals : List (Text × DeclaredTotal)} :
    assertTotals file totals = .ok () ↔
      ∀ entry ∈ totals, entry.2.declared.toBigInt = entry.2.derived := by
  unfold assertTotals
  rw [assertOk_eq_ok, List.isEmpty_iff, List.map_eq_nil_iff, List.filter_eq_nil_iff]
  simp only [Bool.not_eq_true, wrong_eq_false]

theorem assertRowTotals_eq_ok {file : Text} {rows : List RowTotal} :
    assertRowTotals file rows = .ok () ↔ ∀ row ∈ rows, row.declared.toBigInt = row.derived := by
  unfold assertRowTotals
  rw [assertOk_eq_ok, List.isEmpty_iff, List.map_eq_nil_iff, List.filter_eq_nil_iff]
  simp only [Bool.not_eq_true, wrong_eq_false]

theorem sortSyndications_eq_ok {specs sorted : List SyndicationSpec} :
    sortSyndications specs = .ok sorted ↔
      (∀ spec ∈ specs, spec.amount ≤ AssetMaxAmount) ∧
        sorted = sortBy SyndicationSpec.pubkey specs := by
  unfold sortSyndications
  rw [except_bind_eq_ok]
  constructor
  · rintro ⟨_, hfits, ⟨⟩⟩
    refine ⟨fun spec hspec => ?_, rfl⟩
    exact of_decide_eq_true (assertOk_eq_ok.mp (except_forM_eq_ok.mp hfits spec hspec))
  · rintro ⟨hfits, rfl⟩
    refine ⟨(), except_forM_eq_ok.mpr fun spec hspec => ?_, rfl⟩
    exact assertOk_eq_ok.mpr (decide_eq_true (hfits spec hspec))

/-! ### Amounts -/

theorem toBigInt_nonneg (s : UnsignedDecimalString) : 0 ≤ s.toBigInt :=
  Int.natCast_nonneg _

theorem sumOf_eq (amounts : List UnsignedDecimalString) :
    sumOf amounts = (amounts.map UnsignedDecimalString.toBigInt).sum := by
  rw [sumOf, List.sum_eq_foldl, List.foldl_map]

theorem syndicatedTotal_eq (syndications : List SyndicationSpec) :
    syndicatedTotal syndications = (syndications.map SyndicationSpec.amount).sum := by
  rw [syndicatedTotal, List.sum_eq_foldl, List.foldl_map]

theorem syndicatedTotal_nonneg {specs : List SyndicationSpec} (h : ∀ spec ∈ specs, 0 < spec.amount) :
    0 ≤ syndicatedTotal specs := by
  rw [syndicatedTotal_eq]
  refine List.sum_nonneg fun amount hamount => ?_
  obtain ⟨spec, hspec, rfl⟩ := List.mem_map.mp hamount
  exact (h spec hspec).le

/-- An amount at another precision, rounded down. -/
theorem scaleUnits_eq {amount : ℤ} (h : 0 ≤ amount) (source target : ℕ) :
    scaleUnits amount source target = amount * 10 ^ target / 10 ^ source := by
  have hpow : (0 : ℤ) < 10 ^ target := by positivity
  unfold scaleUnits
  split
  · next hle =>
      have hsplit : (10 : ℤ) ^ source = 10 ^ (source - target) * 10 ^ target := by
        rw [← pow_add, Nat.sub_add_cancel hle]
      rw [Int.tdiv_eq_ediv_of_nonneg h, hsplit, Int.mul_ediv_mul_of_pos_left _ _ hpow]
  · next hlt =>
      have hsplit : (10 : ℤ) ^ target = 10 ^ (target - source) * 10 ^ source := by
        rw [← pow_add, Nat.sub_add_cancel (by omega)]
      have hsource : (10 : ℤ) ^ source ≠ 0 := by positivity
      rw [hsplit, ← mul_assoc, Int.mul_ediv_cancel _ hsource]

/-- From the precision of Ethereum to that of the depot. -/
theorem scaleUnits_wei {amount : ℤ} (h : 0 ≤ amount) :
    scaleUnits amount EthereumDecimals LIQ_TOKEN_PRECISION = amount / 10 ^ 9 := by
  rw [scaleUnits, if_pos (by decide)]
  exact Int.tdiv_eq_ediv_of_nonneg h

/-- To the same precision: the amount itself. -/
theorem scaleUnits_self (amount : ℤ) (n : ℕ) : scaleUnits amount n n = amount := by
  rw [scaleUnits, if_pos le_rfl, Nat.sub_self, pow_zero, Int.tdiv_one]

/-! ### Pools -/

/-- What the checks of a pool let pass. -/
structure PoolFits (pool : LiqPoolSpec) : Prop where
  pair : isPairCode pool.pairSymbol = true
  wire : 0 < pool.initialWireAmount
  seeds : pool.initialChainAmount < PoolSeedLimit ∧ pool.initialWireAmount < PoolSeedLimit
  custody : pool.custodyTotal ≤ AssetMaxAmount
  fee : pool.fee ≤ MaxPoolFee
  horizon : 0 < pool.conversionHorizonSec
  clip : 1 ≤ pool.depthCapBps ∧ pool.depthCapBps ≤ pool.fee
  floor : 0 < pool.clipFloor ∧ pool.clipFloor ≤ AssetMaxAmount
  shares : pool.lockedShares < Nat.sqrt (pool.initialChainAmount * pool.initialWireAmount).toNat

theorem assertShares_eq_ok {label : Text} {pool : BigintUtils.PoolShares}
    (h : 0 ≤ pool.initialChainAmount * pool.initialWireAmount) :
    BigintUtils.assertShares label pool = .ok () ↔
      pool.lockedShares < Nat.sqrt (pool.initialChainAmount * pool.initialWireAmount).toNat := by
  unfold BigintUtils.assertShares
  rw [BigintUtils.isqrt_eq h, except_bind_eq_ok]
  constructor
  · rintro ⟨_, ⟨⟩, hshares⟩
    by_contra hnot
    rw [if_neg hnot] at hshares
    cases hshares
  · exact fun hshares => ⟨_, rfl, if_pos hshares⟩

theorem assertPool_eq_ok {pool : LiqPoolSpec} (h : 0 < pool.initialChainAmount) :
    assertPool pool = .ok () ↔ PoolFits pool := by
  unfold assertPool
  simp only [assertOk_bind, Bool.and_eq_true, decide_eq_true_eq]
  constructor
  · rintro ⟨hpair, hwire, hseeds, hcustody, hfee, hhorizon, hclip, hfloor, hshares⟩
    exact ⟨hpair, hwire, hseeds, hcustody, hfee, hhorizon, hclip, hfloor,
      (assertShares_eq_ok (Int.mul_nonneg h.le hwire.le)).mp hshares⟩
  · rintro ⟨hpair, hwire, hseeds, hcustody, hfee, hhorizon, hclip, hfloor, hshares⟩
    exact ⟨hpair, hwire, hseeds, hcustody, hfee, hhorizon, hclip, hfloor,
      (assertShares_eq_ok (Int.mul_nonneg h.le hwire.le)).mpr hshares⟩

namespace PoolSource

variable (source : PoolSource)

/-- The price of the options, else of the export. -/
def tranche : Option UnsignedDecimalString :=
  source.chainConfig.highestTranchePriceUsd.or source.exportedTranchePriceUsd

def nativePrice : ℤ :=
  (source.chainConfig.nativePriceUsd.getD source.placeholderNativePriceUsd).toBigInt

def tranchePrice : ℤ :=
  (source.tranche.getD PlaceholderHighestTranchePriceUsd).toBigInt

/-- Nothing is left to a placeholder. -/
def Supplied : Prop :=
  source.chainConfig.nativePriceUsd.isSome ∧ source.tranche.isSome ∧ source.chainConfig.pool.isSome

end PoolSource

theorem resolvePricing_eq_ok {source : PoolSource} {pricing : PoolPricing}
    {placeholders : List Placeholder} (h : resolvePricing source = .ok (pricing, placeholders)) :
    pricing = ⟨source.nativePrice, source.tranchePrice⟩ ∧ 0 < source.tranchePrice ∧
      (placeholders = [] ↔ source.chainConfig.nativePriceUsd.isSome ∧ source.tranche.isSome) := by
  unfold resolvePricing at h
  obtain ⟨_, h⟩ := assertOk_bind.mp h
  obtain ⟨hpositive, h⟩ := assertOk_bind.mp h
  cases h
  refine ⟨rfl, of_decide_eq_true hpositive, ?_⟩
  unfold PoolSource.tranche
  cases source.chainConfig.nativePriceUsd <;> cases source.chainConfig.highestTranchePriceUsd <;>
    cases source.exportedTranchePriceUsd <;> simp

/-- What `createPool` returns. -/
structure Pooled (source : PoolSource) (pool : LiqPoolSpec) : Prop where
  chainCode : pool.chainCode = source.chainCode
  tokenCode : pool.tokenCode = source.tokenCode
  custody : pool.custodyTotal = source.custodyTotal
  left : pool.initialChainAmount = source.custodyTotal - syndicatedTotal source.syndications
  positive : 0 < pool.initialChainAmount
  priced : 0 < source.tranchePrice ∧ pool.initialWireAmount =
    pool.initialChainAmount * source.nativePrice / source.tranchePrice
  fits : PoolFits pool

theorem nativePrice_nonneg (source : PoolSource) : 0 ≤ source.nativePrice :=
  toBigInt_nonneg _

theorem createPool_eq_ok {ext : Externals} {source : PoolSource} {pool : LiqPoolSpec}
    {placeholders : List Placeholder} (h : createPool ext source = .ok (pool, placeholders)) :
    Pooled source pool ∧ (placeholders = [] ↔ source.Supplied) := by
  unfold createPool at h
  obtain ⟨hpositive, h⟩ := assertOk_bind.mp h
  obtain ⟨⟨pricing, priced⟩, hpricing, h⟩ := except_bind_eq_ok.mp h
  obtain ⟨rfl, htranche, hpriced⟩ := resolvePricing_eq_ok hpricing
  obtain ⟨_, _, h⟩ := except_bind_eq_ok.mp h
  obtain ⟨_, hpool, h⟩ := except_bind_eq_ok.mp h
  cases h
  have hleft := of_decide_eq_true hpositive
  refine ⟨⟨rfl, rfl, rfl, rfl, hleft, ⟨htranche, ?_⟩, (assertPool_eq_ok hleft).mp hpool⟩, ?_⟩
  · exact Int.tdiv_eq_ediv_of_nonneg (Int.mul_nonneg hleft.le (nativePrice_nonneg source))
  · rw [List.append_eq_nil_iff, hpriced, PoolSource.Supplied, and_assoc]
    cases source.chainConfig.pool <;> simp

end WireTools.WireLcoImportTool
