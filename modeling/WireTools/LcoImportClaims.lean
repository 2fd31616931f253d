import WireTools.LcoImportChecks
import WireTools.SeedConservation

/-! # Claims of the launch-data import

`createClaims` sums what the rows of an export owe to each address and converts the sum to WIRE.

* `owedTo`: the sum of an address; `Claimed`: what the claims are, and what the conversion loses;
* `createClaims_eq_ok`: the claims are the floored sums of the addresses, in order, and every amount
  that is owed is in one of them or below the last decimal of WIRE. -/

namespace WireTools.WireLcoImportTool

open Outcome

/-! ### What is owed -/

def entries (owed : List Owed) : List (Text × ℤ) :=
  owed.map fun entry => (entry.nativeAddress, entry.amount)

def owedTo (owed : List Owed) (address : Text) : ℤ :=
  sumAt (entries owed) address

def owedTotal (owed : List Owed) : ℤ :=
  (owed.map Owed.amount).sum

/-- The addresses, each once. -/
def owedAddresses (owed : List Owed) : List Text :=
  (tally (entries owed)).keys

/-- The claims of what is owed, in units with `decimals` decimals. -/
structure Claimed (owed : List Owed) (decimals : ℕ) (claims : List ClaimCredit) : Prop where
  /-- A claim is the floored sum of its address, and there is one where this is not zero. -/
  claim : ∀ c, c ∈ claims ↔ 0 < c.wire_atomic ∧
    c.wire_atomic = owedTo owed c.native_address * 10 ^ WIRE_PRECISION / 10 ^ decimals
  fits : ∀ c ∈ claims, c.wire_atomic ≤ AssetMaxAmount
  sorted : (claims.map ClaimCredit.native_address).Pairwise (· < ·)
  /-- No more is claimed than is owed. -/
  covered : (claims.map ClaimCredit.wire_atomic).sum * 10 ^ decimals ≤
    owedTotal owed * 10 ^ WIRE_PRECISION
  /-- Every address loses less than a unit of WIRE. -/
  lost : owedTotal owed * 10 ^ WIRE_PRECISION ≤
    ((claims.map ClaimCredit.wire_atomic).sum + (owedAddresses owed).length) * 10 ^ decimals

/-! ### Sums over addresses -/

section Sums

variable {owed : List Owed}

theorem owedTo_nonneg (h : ∀ entry ∈ owed, 0 ≤ entry.amount) (address : Text) :
    0 ≤ owedTo owed address := by
  refine List.sum_nonneg fun amount hamount => ?_
  obtain ⟨pair, hpair, rfl⟩ := List.mem_map.mp hamount
  obtain ⟨entry, hentry, rfl⟩ := List.mem_map.mp (List.mem_filter.mp hpair).1
  exact h entry hentry

theorem nodup_owedAddresses : (owedAddresses owed).Nodup :=
  distinct_tally _

theorem owedTo_of_not_mem {address : Text} (h : address ∉ owedAddresses owed) :
    owedTo owed address = 0 :=
  sumAt_of_not_mem fun hmem => h (mem_keys_tally.mpr hmem)

theorem sum_owedTo : ((owedAddresses owed).map (owedTo owed)).sum = owedTotal owed := by
  have hkeys : ∀ entry ∈ entries owed, entry.1 ∈ owedAddresses owed := fun entry hentry =>
    mem_keys_tally.mpr (List.mem_map_of_mem hentry)
  refine (sum_sumAt nodup_owedAddresses hkeys).trans ?_
  rw [entries, List.map_map]
  rfl

end Sums

/-- Floors, item by item and in sum. -/
theorem sum_floors {α : Type} (amount : α → ℤ) (scale : ℤ) {unit : ℤ} (hunit : 0 < unit)
    (xs : List α) :
    (xs.map fun x => amount x * scale / unit).sum * unit ≤ (xs.map amount).sum * scale ∧
      (xs.map amount).sum * scale ≤
        ((xs.map fun x => amount x * scale / unit).sum + xs.length) * unit := by
  induction xs with
  | nil => simp
  | cons x xs ih =>
      have hlow : amount x * scale / unit * unit ≤ amount x * scale :=
        Int.ediv_mul_le _ hunit.ne'
      have hhigh : amount x * scale < (amount x * scale / unit + 1) * unit :=
        Int.lt_ediv_add_one_mul_self _ hunit
      obtain ⟨ihlow, ihhigh⟩ := ih
      rw [List.map_cons, List.map_cons, List.sum_cons, List.sum_cons, List.length_cons]
      push_cast
      constructor <;> nlinarith

/-! ### The claims -/

section Claims

variable (owed : List Owed) (decimals : ℕ)

def claimOf (address : Text) : ClaimCredit :=
  ⟨address, owedTo owed address * 10 ^ WIRE_PRECISION / 10 ^ decimals⟩

def claimsOf : List ClaimCredit :=
  ((owedAddresses owed).map (claimOf owed decimals)).filter fun claim => 0 < claim.wire_atomic

variable {owed decimals}

theorem claims_eq (h : ∀ entry ∈ owed, 0 ≤ entry.amount) :
    ((tally (entries owed)).map fun entry =>
      (⟨entry.1, scaleUnits entry.2 decimals WIRE_PRECISION⟩ : ClaimCredit)) =
      (owedAddresses owed).map (claimOf owed decimals) := by
  rw [tally_eq_map, List.map_map]
  refine List.map_congr_left fun address _ => ?_
  exact congrArg (ClaimCredit.mk address) (scaleUnits_eq (owedTo_nonneg h address) _ _)

theorem mem_claimsOf {c : ClaimCredit} : c ∈ claimsOf owed decimals ↔ 0 < c.wire_atomic ∧
    c.wire_atomic = owedTo owed c.native_address * 10 ^ WIRE_PRECISION / 10 ^ decimals := by
  rw [claimsOf, List.mem_filter, decide_eq_true_eq, and_comm]
  refine and_congr_right fun hpos => ⟨?_, fun hamount => ?_⟩
  · intro hmem
    obtain ⟨address, _, rfl⟩ := List.mem_map.mp hmem
    rfl
  · refine List.mem_map.mpr ⟨c.native_address, ?_, congrArg (ClaimCredit.mk _) hamount.symm⟩
    by_contra hout
    rw [owedTo_of_not_mem hout, zero_mul, Int.zero_ediv] at hamount
    omega

theorem nodup_claimsOf : ((claimsOf owed decimals).map ClaimCredit.native_address).Nodup := by
  have hall : ((owedAddresses owed).map (claimOf owed decimals)).map ClaimCredit.native_address =
      owedAddresses owed := by
    rw [List.map_map]
    exact List.map_id _
  refine List.Nodup.sublist (List.filter_sublist.map _) ?_
  rw [hall]
  exact nodup_owedAddresses

theorem sum_claimsOf (h : ∀ entry ∈ owed, 0 ≤ entry.amount) :
    ((claimsOf owed decimals).map ClaimCredit.wire_atomic).sum = ((owedAddresses owed).map
      fun address => owedTo owed address * 10 ^ WIRE_PRECISION / 10 ^ decimals).sum := by
  unfold claimsOf
  induction owedAddresses owed with
  | nil => rfl
  | cons address addresses ih =>
      have hnonneg : 0 ≤ (claimOf owed decimals address).wire_atomic :=
        Int.ediv_nonneg (Int.mul_nonneg (owedTo_nonneg h address) (by positivity)) (by positivity)
      rw [List.map_cons, List.map_cons, List.sum_cons, ← ih, List.filter_cons]
      split
      · rfl
      · next hzero =>
          rw [decide_eq_true_eq] at hzero
          have hzero : (claimOf owed decimals address).wire_atomic = 0 := by omega
          exact ((congrArg (· + _) hzero).trans (zero_add _)).symm

theorem createClaims_eq_ok {claims : List ClaimCredit} (h : ∀ entry ∈ owed, 0 ≤ entry.amount)
    (hclaims : createClaims owed decimals = .ok claims) : Claimed owed decimals claims := by
  unfold createClaims at hclaims
  dsimp only at hclaims
  rw [← entries, claims_eq h, ← claimsOf, except_bind_eq_ok] at hclaims
  obtain ⟨_, hfits, ⟨⟩⟩ := hclaims
  have hperm := sortBy_perm ClaimCredit.native_address (claimsOf owed decimals)
  have hsum := (hperm.map ClaimCredit.wire_atomic).sum_eq.trans (sum_claimsOf h)
  have hunit : (0 : ℤ) < 10 ^ decimals := by positivity
  obtain ⟨hlow, hhigh⟩ :=
    sum_floors (owedTo owed) (10 ^ WIRE_PRECISION) hunit (owedAddresses owed)
  rw [sum_owedTo] at hlow hhigh
  refine ⟨fun c => ?_, fun c hc => ?_, sortBy_strict nodup_claimsOf, ?_, ?_⟩
  · rw [mem_sortBy]
    exact mem_claimsOf
  · exact of_decide_eq_true (assertOk_eq_ok.mp
      (except_forM_eq_ok.mp hfits c (mem_sortBy.mp hc)))
  · rw [hsum]
    exact hlow
  · rw [hsum]
    exact hhigh

end Claims

end WireTools.WireLcoImportTool
