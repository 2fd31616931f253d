import Mathlib.Algebra.BigOperators.Group.Finset.Basic
import Mathlib.Algebra.Order.BigOperators.Group.Finset
import Mathlib.Tactic.Ring
import WireTools.DclaimSeed
import WireTools.Outcome

/-! # Value is conserved in seeding

The rule of the conversion sums every staker row's net, the code only the positive ones.

* `total` and `keptTotal`: the sum of an address by the rule and in the code;
* `Conserves`: the credits are the floored sums by the rule, and the totals account for them;
* `NetsHarmless`: which negative nets may be left out;
* the code's sums are a `tally` (`accumulate_ok`), the credits and the dust are functions of
  `keptTotal` (`toCredits_eq`), and value is conserved where the nets are harmless
  (`conserves_iff`). -/

namespace WireTools.DclaimSeed

open Outcome
open Protobuf (Bytes)

/-! ### What the conversion rule says -/

variable (cfg : ChainConfig)

/-- The address that a row's text decodes to, where it decodes. -/
def addressOf (address : Text) : Text :=
  (decodeOrThrow cfg address).toOption.getD []

variable (data : IndexBalanceDump)

def purchased : List (Text × ℤ) :=
  (data.purchasers.getD []).map fun row => (addressOf cfg row.address, row.totalPretokens)

def staked : List (Text × ℤ) :=
  (data.stakers.getD []).map fun row => (addressOf cfg row.address, owed row)

/-- The sum of an address, negative nets included. -/
def total (a : Text) : ℤ :=
  sumAt (purchased cfg data) a + sumAt (staked cfg data) a

def addresses : Finset Text :=
  ((purchased cfg data ++ staked cfg data).map Prod.fst).toFinset

/-- The conversion conserves value. -/
structure Conserves (chain : ImportSeedChainKind) (batchSize : ℕ) (result : ImportSeedResult) :
    Prop where
  credits : ∀ c, c ∈ result.batches.flatMap ImportSeedBatch.credits ↔
    0 < total cfg data c.native_address / cfg.divisor ∧
      c.wire_atomic = total cfg data c.native_address / cfg.divisor
  sorted : ((result.batches.flatMap ImportSeedBatch.credits).map
    ImportSeedCredit.native_address).Pairwise (· < ·)
  chain : ∀ batch ∈ result.batches, batch.chain = chain
  bounded : ∀ batch ∈ result.batches, batch.credits.length ≤ batchSize
  full : ∀ batch ∈ result.batches.dropLast, batch.credits.length = batchSize
  value : result.totalAtomic * cfg.divisor + result.droppedDust =
    ∑ a ∈ addresses cfg data with 0 ≤ total cfg data a, total cfg data a
  unique : result.uniqueAddresses = (addresses cfg data).card

/-- The positive nets. -/
def credited : List (Text × ℤ) :=
  (staked cfg data).filter fun entry => 0 < entry.2

/-- The sum of an address, negative nets left out. -/
def keptTotal (a : Text) : ℤ :=
  sumAt (purchased cfg data) a + sumAt (credited cfg data) a

/-- The nets that are left out do not matter. -/
structure NetsHarmless : Prop where
  /-- No address has nothing but staker rows without a positive net. -/
  listed : ∀ entry ∈ staked cfg data,
    entry.1 ∈ (purchased cfg data ++ credited cfg data).map Prod.fst
  /-- No floor rises. -/
  floors : ∀ a ∈ addresses cfg data,
    max (keptTotal cfg data a / cfg.divisor) 0 = max (total cfg data a / cfg.divisor) 0
  /-- What the sums of addresses gain is what the division towards zero takes from the dust of
  negative sums. -/
  dust : ∑ a ∈ addresses cfg data, (max (keptTotal cfg data a) 0 - max (total cfg data a) 0) =
    ∑ a ∈ addresses cfg data, -(min (keptTotal cfg data a) 0).tmod cfg.divisor

/-! ### Sums -/

variable {cfg data}

theorem addPurchaser_ok (acc : OrderedMap Text ℤ) (row : IndexPurchaserRow)
    (acc' : OrderedMap Text ℤ) (h : addPurchaser cfg acc row = .ok acc') :
    acc' = addTo acc (addressOf cfg row.address) row.totalPretokens := by
  obtain ⟨key, hkey, h⟩ := except_bind_eq_ok.mp h
  cases h
  rw [addressOf, hkey]
  rfl

theorem addStaker_ok (acc : OrderedMap Text ℤ) (row : IndexStakerRow)
    (acc' : OrderedMap Text ℤ) (h : addStaker cfg acc row = .ok acc') :
    acc' = if 0 < owed row then addTo acc (addressOf cfg row.address) (owed row) else acc := by
  obtain ⟨key, hkey, h⟩ := except_bind_eq_ok.mp h
  cases h
  rw [addressOf, hkey]
  rfl

/-- What is summed: the purchasers, then the positive nets. -/
theorem accumulate_ok {acc : OrderedMap Text ℤ} (h : accumulate cfg data = .ok acc) :
    acc = tally (purchased cfg data ++ credited cfg data) := by
  obtain ⟨bought, hbought, hacc⟩ := except_bind_eq_ok.mp h
  rw [except_foldlM_ok addStaker_ok hacc, except_foldlM_ok addPurchaser_ok hbought, tally,
    List.foldl_append, credited, List.foldl_filter, staked, purchased, List.foldl_map,
    List.foldl_map]
  simp only [decide_eq_true_eq]

theorem keptTotal_eq (a : Text) :
    keptTotal cfg data a = sumAt (purchased cfg data ++ credited cfg data) a :=
  (sumAt_append _ _ _).symm

/-- The sum of an address in the code, 0 where it has none. -/
theorem get_accumulated (a : Text) :
    ((tally (purchased cfg data ++ credited cfg data)).get a).getD 0 = keptTotal cfg data a := by
  rw [get_tally, keptTotal_eq]
  split
  · rfl
  · next hout => rw [sumAt_of_not_mem hout, Option.getD_none]

theorem credited_subset {a : Text}
    (h : a ∈ (purchased cfg data ++ credited cfg data).map Prod.fst) :
    a ∈ addresses cfg data := by
  rw [addresses, List.mem_toFinset]
  rw [List.map_append, List.mem_append] at h ⊢
  refine h.imp_right fun hmem => ?_
  obtain ⟨entry, hentry, rfl⟩ := List.mem_map.mp hmem
  exact List.mem_map_of_mem (List.mem_filter.mp hentry).1

theorem keptTotal_of_not_mem {a : Text}
    (h : a ∉ (purchased cfg data ++ credited cfg data).map Prod.fst) :
    keptTotal cfg data a = 0 := by
  rw [keptTotal_eq, sumAt_of_not_mem h]

theorem total_of_not_mem {a : Text} (h : a ∉ addresses cfg data) : total cfg data a = 0 := by
  rw [total, ← sumAt_append]
  refine sumAt_of_not_mem fun hmem => h ?_
  rw [addresses, List.mem_toFinset]
  exact hmem

/-! ### Credits -/

/-- The credit of an address. -/
def creditAt (sum divisor : ℤ) (a : Text) : Option ImportSeedCredit :=
  if 0 < sum.tdiv divisor then some ⟨a, sum.tdiv divisor⟩ else none

def sortedKeys (accumulator : OrderedMap Text ℤ) : List Text :=
  accumulator.keys.mergeSort fun a b => decide (a ≤ b)

theorem toCredits_eq (accumulator : OrderedMap Text ℤ) (divisor : ℤ) :
    toCredits accumulator divisor =
      ⟨(sortedKeys accumulator).filterMap fun a =>
          creditAt ((accumulator.get a).getD 0) divisor a,
        ((sortedKeys accumulator).map fun a => ((accumulator.get a).getD 0).tmod divisor).sum⟩ := by
  have hfold : ∀ (keys : List Text) (out : ImportSeedCreditResult),
      keys.foldl (fun out addrHex =>
        let total := (accumulator.get addrHex).getD 0
        let atomic := total.tdiv divisor
        let dust := total - atomic * divisor
        { credits := if 0 < atomic then out.credits ++ [⟨addrHex, atomic⟩] else out.credits
          droppedDust := out.droppedDust + dust : ImportSeedCreditResult }) out =
        ⟨out.credits ++ keys.filterMap fun a =>
            creditAt ((accumulator.get a).getD 0) divisor a,
          out.droppedDust + (keys.map fun a =>
            ((accumulator.get a).getD 0).tmod divisor).sum⟩ := by
    intro keys
    induction keys with
    | nil =>
        intro out
        rw [List.foldl_nil, List.filterMap_nil, List.append_nil, List.map_nil, List.sum_nil,
          add_zero]
    | cons a keys ih =>
        intro out
        rw [List.foldl_cons, ih, List.map_cons, List.sum_cons, ← add_assoc, Int.tmod_def,
          mul_comm divisor]
        by_cases hpos : 0 < ((accumulator.get a).getD 0).tdiv divisor
        · have hcredit : creditAt ((accumulator.get a).getD 0) divisor a =
              some ⟨a, ((accumulator.get a).getD 0).tdiv divisor⟩ := if_pos hpos
          rw [List.filterMap_cons, hcredit]
          dsimp only
          rw [if_pos hpos, List.append_assoc]
          rfl
        · have hcredit : creditAt ((accumulator.get a).getD 0) divisor a = none := if_neg hpos
          rw [List.filterMap_cons, hcredit]
          dsimp only
          rw [if_neg hpos]
  have := hfold (sortedKeys accumulator) ⟨[], 0⟩
  rw [List.nil_append, zero_add] at this
  exact this

variable {sum divisor : ℤ}

/-- Towards zero or down: the same where the result is positive. -/
theorem tdiv_pos_iff (hd : 0 < divisor) : 0 < sum.tdiv divisor ↔ 0 < sum / divisor := by
  rcases le_or_gt 0 sum with hsum | hsum
  · rw [Int.tdiv_eq_ediv_of_nonneg hsum]
  · have hfloor := Int.ediv_neg_of_neg_of_pos hsum hd
    have hneg : 0 ≤ (-sum).tdiv divisor := Int.tdiv_nonneg (by omega) (by omega)
    rw [Int.neg_tdiv] at hneg
    omega

theorem tdiv_eq_floor (hd : 0 < divisor) (h : 0 < sum.tdiv divisor) :
    sum.tdiv divisor = sum / divisor := by
  rcases le_or_gt 0 sum with hsum | hsum
  · exact Int.tdiv_eq_ediv_of_nonneg hsum
  · have hfloor := Int.ediv_neg_of_neg_of_pos hsum hd
    have := (tdiv_pos_iff hd).mp h
    omega

theorem creditAt_eq_some (hd : 0 < divisor) {a : Text} {c : ImportSeedCredit} :
    creditAt sum divisor a = some c ↔
      a = c.native_address ∧ 0 < sum / divisor ∧ c.wire_atomic = sum / divisor := by
  unfold creditAt
  split
  · next hpos =>
      have hfloor := (tdiv_pos_iff hd).mp hpos
      rw [tdiv_eq_floor hd hpos]
      obtain ⟨native, wire⟩ := c
      rw [Option.some.injEq, ImportSeedCredit.mk.injEq]
      exact ⟨fun h => ⟨h.1, hfloor, h.2.symm⟩, fun h => ⟨h.1, h.2.2.symm⟩⟩
  · next hzero =>
      rw [tdiv_pos_iff hd] at hzero
      exact ⟨nofun, fun h => absurd h.2.1 hzero⟩

/-- What an address adds to the credits, in units of the source, and to the dust. -/
theorem accounted (hd : 0 < divisor) :
    (if 0 < sum.tdiv divisor then sum.tdiv divisor else 0) * divisor + sum.tmod divisor =
      max sum 0 + (min sum 0).tmod divisor := by
  have hsplit := Int.tdiv_mul_add_tmod sum divisor
  rcases le_or_gt 0 sum with hsum | hsum
  · have hdiv : 0 ≤ sum.tdiv divisor := Int.tdiv_nonneg hsum (by omega)
    rw [max_eq_left hsum, min_eq_right hsum, Int.zero_tmod, add_zero]
    split
    · exact hsplit
    · next hzero =>
        have hzero : sum.tdiv divisor = 0 := by omega
        rw [hzero, zero_mul, zero_add] at hsplit
        rw [zero_mul, zero_add, hsplit]
  · have hnot : ¬0 < sum.tdiv divisor := by
      rw [tdiv_pos_iff hd]
      have := Int.ediv_neg_of_neg_of_pos hsum hd
      omega
    rw [if_neg hnot, max_eq_right (le_of_lt hsum), min_eq_left (le_of_lt hsum), zero_mul]

section credits
variable (sums : Text → ℤ) (keys : List Text)

theorem native_credits : (keys.filterMap fun a => creditAt (sums a) divisor a).map
    ImportSeedCredit.native_address = keys.filter fun a => 0 < (sums a).tdiv divisor := by
  induction keys with
  | nil => rfl
  | cons a keys ih =>
      by_cases hpos : 0 < (sums a).tdiv divisor
      · have hcredit : creditAt (sums a) divisor a = some ⟨a, (sums a).tdiv divisor⟩ := if_pos hpos
        rw [List.filterMap_cons, hcredit, List.filter_cons, if_pos (decide_eq_true hpos), ← ih]
        rfl
      · have hcredit : creditAt (sums a) divisor a = none := if_neg hpos
        rw [List.filterMap_cons, hcredit, List.filter_cons, if_neg (by simpa using hpos), ← ih]

theorem sum_credits : ((keys.filterMap fun a => creditAt (sums a) divisor a).map
    ImportSeedCredit.wire_atomic).sum =
      (keys.map fun a => if 0 < (sums a).tdiv divisor then (sums a).tdiv divisor else 0).sum := by
  induction keys with
  | nil => rfl
  | cons a keys ih =>
      rw [List.map_cons, List.sum_cons, ← ih]
      by_cases hpos : 0 < (sums a).tdiv divisor
      · have hcredit : creditAt (sums a) divisor a = some ⟨a, (sums a).tdiv divisor⟩ := if_pos hpos
        rw [List.filterMap_cons, hcredit, if_pos hpos]
        exact List.sum_cons
      · have hcredit : creditAt (sums a) divisor a = none := if_neg hpos
        rw [List.filterMap_cons, hcredit, if_neg hpos, zero_add]

/-- The credits in units of the source and the dust, address by address. -/
theorem sum_accounted (hd : 0 < divisor) :
    ((keys.filterMap fun a => creditAt (sums a) divisor a).map
        ImportSeedCredit.wire_atomic).sum * divisor +
      (keys.map fun a => (sums a).tmod divisor).sum =
        (keys.map fun a => max (sums a) 0 + (min (sums a) 0).tmod divisor).sum := by
  rw [sum_credits]
  induction keys with
  | nil => simp only [List.map_nil, List.sum_nil, zero_mul, add_zero]
  | cons a keys ih =>
      simp only [List.map_cons, List.sum_cons]
      rw [← ih, ← accounted hd, add_mul]
      ring

end credits

theorem sortedKeys_perm (accumulator : OrderedMap Text ℤ) :
    (sortedKeys accumulator).Perm accumulator.keys :=
  List.mergeSort_perm _ _

theorem pairwise_sortedKeys {accumulator : OrderedMap Text ℤ} (h : accumulator.Distinct) :
    (sortedKeys accumulator).Pairwise (· < ·) := by
  have hle : (sortedKeys accumulator).Pairwise fun a b => decide (a ≤ b) = true := by
    refine List.pairwise_mergeSort (fun a b c hab hbc => ?_) (fun a b => ?_) _
    · exact decide_eq_true (List.le_trans (of_decide_eq_true hab) (of_decide_eq_true hbc))
    · rw [Bool.or_eq_true, decide_eq_true_eq, decide_eq_true_eq]
      exact List.le_total a b
  have hne : (sortedKeys accumulator).Nodup := (sortedKeys_perm accumulator).nodup_iff.mpr h
  refine (hle.and hne).imp fun {a b} hab => ?_
  by_contra hnot
  exact hab.2 (List.le_antisymm (of_decide_eq_true hab.1) (List.not_lt.mp hnot))

/-! ### The result -/

variable (cfg data)

def accumulated : OrderedMap Text ℤ :=
  tally (purchased cfg data ++ credited cfg data)

def creditsOf : List ImportSeedCredit :=
  (sortedKeys (accumulated cfg data)).filterMap fun a =>
    creditAt (keptTotal cfg data a) cfg.divisor a

def dustOf : ℤ :=
  ((sortedKeys (accumulated cfg data)).map fun a => (keptTotal cfg data a).tmod cfg.divisor).sum

theorem toCredits_accumulated :
    toCredits (accumulated cfg data) cfg.divisor = ⟨creditsOf cfg data, dustOf cfg data⟩ := by
  rw [toCredits_eq]
  simp only [accumulated, get_accumulated]
  rfl

/-- What is returned. -/
theorem convertImportSeed_ok {solDecode : Text → Except Text Bytes} {chain : ImportSeedChainKind}
    {batchSize : Option ℕ} {result : ImportSeedResult}
    (h : convertImportSeed solDecode data chain batchSize = .ok result) :
    0 < batchSize.getD DefaultImportSeedBatchSize ∧
      result =
        { batches := (chunks (batchSize.getD DefaultImportSeedBatchSize)
            (creditsOf (CHAIN_CONFIG solDecode chain) data)).map fun c => ⟨chain, c⟩
          droppedDust := dustOf (CHAIN_CONFIG solDecode chain) data
          uniqueAddresses := (accumulated (CHAIN_CONFIG solDecode chain) data).length
          nonZeroCredits := (creditsOf (CHAIN_CONFIG solDecode chain) data).length
          totalAtomic := ((creditsOf (CHAIN_CONFIG solDecode chain) data).map
            ImportSeedCredit.wire_atomic).sum } := by
  obtain ⟨acc, hacc, h⟩ := except_bind_eq_ok.mp h
  obtain ⟨batches, hbatches, h⟩ := except_bind_eq_ok.mp h
  have hcredits := toCredits_accumulated (CHAIN_CONFIG solDecode chain) data
  rw [accumulated, ← accumulate_ok hacc] at hcredits
  rw [hcredits] at h hbatches
  cases h
  unfold chunked at hbatches
  split at hbatches
  · cases hbatches
  · next hsize =>
      cases hbatches
      rw [accumulated, ← accumulate_ok hacc]
      exact ⟨Nat.pos_of_ne_zero hsize, rfl⟩

variable {cfg data}

theorem mem_creditsOf (hd : 0 < cfg.divisor) {c : ImportSeedCredit} :
    c ∈ creditsOf cfg data ↔
      0 < keptTotal cfg data c.native_address / cfg.divisor ∧
        c.wire_atomic = keptTotal cfg data c.native_address / cfg.divisor := by
  rw [creditsOf, List.mem_filterMap]
  constructor
  · rintro ⟨a, _, hc⟩
    obtain ⟨rfl, hcredit⟩ := (creditAt_eq_some hd).mp hc
    exact hcredit
  · intro hcredit
    refine ⟨c.native_address, ?_, (creditAt_eq_some hd).mpr ⟨rfl, hcredit⟩⟩
    rw [(sortedKeys_perm _).mem_iff, accumulated, mem_keys_tally]
    by_contra hout
    rw [keptTotal_of_not_mem hout, Int.zero_ediv] at hcredit
    exact absurd hcredit.1 (lt_irrefl 0)

/-- The credits are those of the rule where no floor rises. -/
theorem credits_iff (hd : 0 < cfg.divisor) :
    (∀ c, c ∈ creditsOf cfg data ↔
      0 < total cfg data c.native_address / cfg.divisor ∧
        c.wire_atomic = total cfg data c.native_address / cfg.divisor) ↔
      ∀ a ∈ addresses cfg data,
        max (keptTotal cfg data a / cfg.divisor) 0 = max (total cfg data a / cfg.divisor) 0 := by
  simp only [mem_creditsOf hd]
  constructor
  · intro h a _
    have hkept := h ⟨a, keptTotal cfg data a / cfg.divisor⟩
    have htotal := h ⟨a, total cfg data a / cfg.divisor⟩
    dsimp only at hkept htotal
    omega
  · intro h c
    by_cases ha : c.native_address ∈ addresses cfg data
    · have := h _ ha
      omega
    · have hout : c.native_address ∉ (purchased cfg data ++ credited cfg data).map Prod.fst :=
        fun hmem => ha (credited_subset hmem)
      rw [keptTotal_of_not_mem hout, total_of_not_mem ha]

theorem nodup_sortedKeys : (sortedKeys (accumulated cfg data)).Nodup :=
  (sortedKeys_perm _).nodup_iff.mpr (distinct_tally _)

theorem mem_sortedKeys {a : Text} : a ∈ sortedKeys (accumulated cfg data) ↔
    a ∈ (purchased cfg data ++ credited cfg data).map Prod.fst := by
  rw [(sortedKeys_perm _).mem_iff, accumulated, mem_keys_tally]

/-- The totals account for the sums by the rule where gains and losses cancel. -/
theorem value_iff (hd : 0 < cfg.divisor) :
    ((creditsOf cfg data).map ImportSeedCredit.wire_atomic).sum * cfg.divisor + dustOf cfg data =
        ∑ a ∈ addresses cfg data with 0 ≤ total cfg data a, total cfg data a ↔
      ∑ a ∈ addresses cfg data, (max (keptTotal cfg data a) 0 - max (total cfg data a) 0) =
        ∑ a ∈ addresses cfg data, -(min (keptTotal cfg data a) 0).tmod cfg.divisor := by
  have hcode : ((creditsOf cfg data).map ImportSeedCredit.wire_atomic).sum * cfg.divisor +
      dustOf cfg data = ∑ a ∈ addresses cfg data,
        (max (keptTotal cfg data a) 0 + (min (keptTotal cfg data a) 0).tmod cfg.divisor) := by
    rw [creditsOf, dustOf, sum_accounted _ _ hd, ← List.sum_toFinset _ nodup_sortedKeys]
    refine Finset.sum_subset (fun a ha => ?_) (fun a _ hout => ?_)
    · exact credited_subset (mem_sortedKeys.mp (List.mem_toFinset.mp ha))
    · rw [keptTotal_of_not_mem fun hmem => hout (List.mem_toFinset.mpr (mem_sortedKeys.mpr hmem)),
        max_self, min_self, Int.zero_tmod, add_zero]
  have hrule : ∑ a ∈ addresses cfg data with 0 ≤ total cfg data a, total cfg data a =
      ∑ a ∈ addresses cfg data, max (total cfg data a) 0 := by
    rw [Finset.sum_filter]
    refine Finset.sum_congr rfl fun a _ => ?_
    split
    · next hnonneg => exact (max_eq_left hnonneg).symm
    · next hneg => exact (max_eq_right (le_of_lt (not_le.mp hneg))).symm
  rw [hcode, hrule, Finset.sum_add_distrib, Finset.sum_sub_distrib, Finset.sum_neg_distrib]
  omega

/-- Every address is counted where none has only staker rows without a positive net. -/
theorem unique_iff :
    List.length (accumulated cfg data) = (addresses cfg data).card ↔
      ∀ entry ∈ staked cfg data,
        entry.1 ∈ (purchased cfg data ++ credited cfg data).map Prod.fst := by
  have hsub : (accumulated cfg data).keys.toFinset ⊆ addresses cfg data := fun a ha =>
    credited_subset (mem_keys_tally.mp (List.mem_toFinset.mp ha))
  have hlength : List.length (accumulated cfg data) =
      (accumulated cfg data).keys.toFinset.card := by
    have hnodup : (accumulated cfg data).keys.Nodup := distinct_tally _
    rw [List.toFinset_card_of_nodup hnodup, OrderedMap.keys, List.length_map]
  rw [hlength]
  constructor
  · intro hcard entry hentry
    have heq := Finset.eq_of_subset_of_card_le hsub (le_of_eq hcard.symm)
    have hmem : entry.1 ∈ addresses cfg data := by
      rw [addresses, List.mem_toFinset]
      exact List.mem_map_of_mem (List.mem_append_right _ hentry)
    rw [← heq, List.mem_toFinset] at hmem
    exact mem_keys_tally.mp hmem
  · intro hlisted
    refine congrArg Finset.card (Finset.Subset.antisymm hsub fun a ha => ?_)
    rw [addresses, List.mem_toFinset] at ha
    obtain ⟨entry, hentry, rfl⟩ := List.mem_map.mp ha
    rw [List.mem_toFinset]
    refine mem_keys_tally.mpr ?_
    rcases List.mem_append.mp hentry with hbought | hstaked
    · exact List.mem_map_of_mem (List.mem_append_left _ hbought)
    · exact hlisted entry hstaked

theorem sumAt_le_positive (entries : List (Text × ℤ)) (a : Text) :
    sumAt entries a ≤ sumAt (entries.filter fun entry => 0 < entry.2) a := by
  induction entries with
  | nil => exact le_refl _
  | cons entry entries ih =>
      rw [List.filter_cons]
      by_cases hpos : 0 < entry.2
      · rw [if_pos (decide_eq_true hpos), sumAt_cons, sumAt_cons]
        omega
      · rw [if_neg (by simpa using hpos), sumAt_cons]
        split <;> omega

/-- Leaving a negative net out raises a sum. -/
theorem total_le_keptTotal (a : Text) : total cfg data a ≤ keptTotal cfg data a := by
  have := sumAt_le_positive (staked cfg data) a
  rw [total, keptTotal, credited]
  omega

/-- Where no sum is negative, the nets left out do not matter exactly where every address is counted
and none of them lowers a sum that is positive. -/
theorem netsHarmless_iff (hd : 0 < cfg.divisor)
    (h : ∀ a ∈ addresses cfg data, 0 ≤ keptTotal cfg data a) :
    NetsHarmless cfg data ↔
      (∀ entry ∈ staked cfg data,
        entry.1 ∈ (purchased cfg data ++ credited cfg data).map Prod.fst) ∧
      ∀ a ∈ addresses cfg data, keptTotal cfg data a = max (total cfg data a) 0 := by
  have hloss : ∑ a ∈ addresses cfg data, -(min (keptTotal cfg data a) 0).tmod cfg.divisor = 0 := by
    refine Finset.sum_eq_zero fun a ha => ?_
    rw [min_eq_right (h a ha), Int.zero_tmod, neg_zero]
  constructor
  · intro hharmless
    refine ⟨hharmless.listed, fun a ha => ?_⟩
    have hdust := hharmless.dust
    have hgain : ∀ a ∈ addresses cfg data,
        0 ≤ max (keptTotal cfg data a) 0 - max (total cfg data a) 0 := by
      intro a _
      have := @total_le_keptTotal cfg data a
      omega
    rw [hloss, Finset.sum_eq_zero_iff_of_nonneg hgain] at hdust
    have := hdust a ha
    have := h a ha
    omega
  · rintro ⟨hlisted, hsums⟩
    refine ⟨hlisted, fun a ha => ?_, ?_⟩
    · rw [hsums a ha]
      rcases le_total 0 (total cfg data a) with hnonneg | hneg
      · rw [max_eq_left hnonneg]
      · have := Int.ediv_nonpos_of_nonpos_of_neg hneg hd
        rw [max_eq_right hneg, Int.zero_ediv]
        omega
    · rw [hloss]
      refine Finset.sum_eq_zero fun a ha => ?_
      have := hsums a ha
      have := h a ha
      omega

/-- What is returned conserves value exactly where the nets left out do not matter. -/
theorem conserves_iff {solDecode : Text → Except Text Bytes} {data : IndexBalanceDump}
    {chain : ImportSeedChainKind} {batchSize : Option ℕ} {result : ImportSeedResult}
    (h : convertImportSeed solDecode data chain batchSize = .ok result) :
    Conserves (CHAIN_CONFIG solDecode chain) data chain
        (batchSize.getD DefaultImportSeedBatchSize) result ↔
      NetsHarmless (CHAIN_CONFIG solDecode chain) data := by
  obtain ⟨hsize, rfl⟩ := convertImportSeed_ok data h
  have hd : 0 < (CHAIN_CONFIG solDecode chain).divisor := by
    cases chain with
    | EVM => exact (by decide : (0 : ℤ) < 10 ^ 9)
    | SVM => exact Int.one_pos
  have hflat : ((chunks (batchSize.getD DefaultImportSeedBatchSize)
      (creditsOf (CHAIN_CONFIG solDecode chain) data)).map
        fun c => (⟨chain, c⟩ : ImportSeedBatch)).flatMap ImportSeedBatch.credits =
      creditsOf (CHAIN_CONFIG solDecode chain) data := by
    rw [List.flatMap_map]
    exact List.flatMap_id'.trans (flatten_chunks hsize _)
  constructor
  · intro hconserves
    have hcredits := hconserves.credits
    rw [hflat] at hcredits
    exact ⟨unique_iff.mp hconserves.unique, (credits_iff hd).mp hcredits,
      (value_iff hd).mp hconserves.value⟩
  · intro hharmless
    refine ⟨?_, ?_, fun batch hbatch => ?_, fun batch hbatch => ?_, fun batch hbatch => ?_,
      (value_iff hd).mpr hharmless.dust, unique_iff.mpr hharmless.listed⟩
    · rw [hflat]
      exact (credits_iff hd).mpr hharmless.floors
    · rw [hflat, creditsOf, native_credits]
      exact (pairwise_sortedKeys (distinct_tally _)).sublist List.filter_sublist
    · obtain ⟨c, _, rfl⟩ := List.mem_map.mp hbatch
      rfl
    · obtain ⟨c, hc, rfl⟩ := List.mem_map.mp hbatch
      exact length_chunk_le hc
    · dsimp only at hbatch
      rw [← List.map_dropLast] at hbatch
      obtain ⟨c, hc, rfl⟩ := List.mem_map.mp hbatch
      exact length_chunk hsize hc

/-- An address of twenty equal bytes. -/
def sampleAddress (digit : CodeUnit) : Text :=
  text "0x" ++ List.replicate 40 digit

/-- A purchaser of five units who has claimed two more than the yield of its staker row. -/
def overclaimed : IndexBalanceDump where
  purchasers := some [⟨sampleAddress 49, 5000000000⟩]
  stakers := some [⟨sampleAddress 49, 1000000000, some 3000000000⟩]

def overclaimedResult : ImportSeedResult where
  batches := [⟨.EVM, [⟨List.replicate 40 49, 5⟩]⟩]
  droppedDust := 0
  uniqueAddresses := 1
  nonZeroCredits := 1
  totalAtomic := 5

theorem convert_overclaimed :
    convertImportSeed (fun _ => throw []) overclaimed .EVM none = .ok overclaimedResult := by
  decide +kernel

/-- By the rule three units are owed, and five are credited. -/
theorem overclaimed_not_conserved :
    convertImportSeed (fun _ => throw []) overclaimed .EVM none = .ok overclaimedResult ∧
      ¬Conserves (CHAIN_CONFIG (fun _ => throw []) .EVM) overclaimed .EVM
        DefaultImportSeedBatchSize overclaimedResult := by
  refine ⟨convert_overclaimed, fun hconserves => ?_⟩
  have hcredit := hconserves.credits ⟨List.replicate 40 49, 3⟩
  exact absurd (hcredit.mpr (by decide)) (by decide)

/-- A purchaser with a yield of which a part is claimed, in two spellings of its address. -/
def netted : IndexBalanceDump where
  purchasers := some [⟨sampleAddress 65, 5500000000⟩]
  stakers := some [⟨sampleAddress 97, 3000000000, some 1000000000⟩]

def nettedResult : ImportSeedResult where
  batches := [⟨.EVM, [⟨List.replicate 40 97, 7⟩]⟩]
  droppedDust := 500000000
  uniqueAddresses := 1
  nonZeroCredits := 1
  totalAtomic := 7

theorem conserves_netted :
    Conserves (CHAIN_CONFIG (fun _ => throw []) .EVM) netted .EVM 1 nettedResult := by
  have hreturns : convertImportSeed (fun _ => throw []) netted .EVM (some 1) =
      .ok nettedResult := by
    decide +kernel
  exact (conserves_iff hreturns).mpr
    ⟨by decide, by decide, by decide⟩

end WireTools.DclaimSeed
