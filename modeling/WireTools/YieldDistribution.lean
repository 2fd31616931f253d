import Mathlib.Algebra.BigOperators.Intervals
import Mathlib.Algebra.Order.BigOperators.Ring.Finset
import Mathlib.Algebra.Order.BigOperators.Group.List
import Mathlib.Algebra.Order.Field.Rat
import Mathlib.Tactic.Linarith
import Mathlib.Tactic.Ring
import WireTools.JsonPrint

/-! # Yield distribution

WIRE is spread over the holders of a token by an index: a distribution raises it by what one unit
of the supply gets, and carries the remainder into the next distribution.  A holder is owed the
balance times the growth of the index, rounded down at every settlement.

* `distribute`, with numbers for the decimal strings of a row;
* `Settlements`: stretches of distributions in which the balance of one holder stays the same;
* `distribution_solvent`: what all holders are paid is covered by the pot, the growth of the index
  accounts for all that is distributed, and an amount may be split. -/

namespace WireTools.LIQKickerAccrual

open Finset

/-- Owed is the balance times the growth of the index, in these parts. -/
def YieldIndexScale : ℤ := 1000000000000

structure SysioLiqYieldIndexType where
  index : ℤ
  pot : ℤ
  carry : ℤ
  deriving DecidableEq

/-- The division of the source rounds towards zero. -/
def distribute (before : SysioLiqYieldIndexType) (amount supply : ℤ) :
    Except Text SysioLiqYieldIndexType :=
  if supply ≤ 0 then
    .error (text "LIQKickerAccrual: supply " ++ intText supply ++ text " must be positive")
  else
    let total := amount * YieldIndexScale + before.carry
    .ok
      { index := before.index + total.tdiv supply
        pot := before.pot + amount
        carry := total.tmod supply }

/-! ### One distribution -/

section Step

variable {before after : SysioLiqYieldIndexType} {amount supply : ℤ}

theorem total_nonneg (hcarry : 0 ≤ before.carry) (hamount : 0 ≤ amount) :
    0 ≤ amount * YieldIndexScale + before.carry :=
  Int.add_nonneg (Int.mul_nonneg hamount (by decide)) hcarry

/-- With nothing negative, the quotient is rounded down. -/
theorem distribute_eq_ok (hcarry : 0 ≤ before.carry) (hamount : 0 ≤ amount) :
    distribute before amount supply = .ok after ↔ 0 < supply ∧ after =
      { index := before.index + (amount * YieldIndexScale + before.carry) / supply
        pot := before.pot + amount
        carry := (amount * YieldIndexScale + before.carry) % supply } := by
  have htotal := total_nonneg hcarry hamount
  unfold distribute
  split
  · next hsupply => exact iff_of_false (fun h => by cases h) fun h => absurd h.1 (by omega)
  · next hsupply =>
      dsimp only
      rw [Int.tdiv_eq_ediv_of_nonneg htotal, Int.tmod_eq_emod_of_nonneg htotal, Except.ok.injEq]
      exact ⟨fun h => ⟨by omega, h.symm⟩, fun h => h.2.symm⟩

/-- What one distribution does to the row. -/
structure Distributed (before after : SysioLiqYieldIndexType) (amount supply : ℤ) : Prop where
  carry : 0 ≤ after.carry
  growth : 0 ≤ after.index - before.index
  pot : after.pot = before.pot + amount
  exact : supply * (after.index - before.index) + after.carry =
    YieldIndexScale * amount + before.carry

theorem distributed (hcarry : 0 ≤ before.carry) (hamount : 0 ≤ amount)
    (h : distribute before amount supply = .ok after) : Distributed before after amount supply := by
  obtain ⟨hsupply, rfl⟩ := (distribute_eq_ok hcarry hamount).mp h
  have htotal := total_nonneg hcarry hamount
  have hquotient := Int.ediv_nonneg htotal hsupply.le
  refine ⟨Int.emod_nonneg _ (by omega), by dsimp only; omega, rfl, ?_⟩
  dsimp only
  rw [add_sub_cancel_left, Int.mul_ediv_add_emod, Int.mul_comm]

/-- An amount that is distributed in two parts. -/
theorem distribute_distribute (hcarry : 0 ≤ before.carry) (hamount : 0 ≤ amount) {rest : ℤ}
    (hrest : 0 ≤ rest) : (distribute before amount supply >>= fun row =>
      distribute row rest supply) = distribute before (amount + rest) supply := by
  by_cases hsupply : supply ≤ 0
  · simp only [distribute, if_pos hsupply]
    rfl
  · have hpos : 0 < supply := by omega
    have hfirst := (distribute_eq_ok hcarry hamount).mpr ⟨hpos, rfl⟩
    have hmiddle : 0 ≤ (amount * YieldIndexScale + before.carry) % supply :=
      Int.emod_nonneg _ hpos.ne'
    have hsecond := (@distribute_eq_ok
      ⟨before.index + (amount * YieldIndexScale + before.carry) / supply, before.pot + amount,
        (amount * YieldIndexScale + before.carry) % supply⟩ _ _ _ hmiddle hrest).mpr ⟨hpos, rfl⟩
    have hboth := (distribute_eq_ok hcarry (Int.add_nonneg hamount hrest)).mpr ⟨hpos, rfl⟩
    have htotal : (amount + rest) * YieldIndexScale + before.carry =
        rest * YieldIndexScale + (amount * YieldIndexScale + before.carry) % supply +
          supply * ((amount * YieldIndexScale + before.carry) / supply) := by
      have hdivision := Int.emod_add_mul_ediv (amount * YieldIndexScale + before.carry) supply
      linarith
    rw [hfirst, hboth, htotal, Int.add_mul_ediv_left _ _ hpos.ne', Int.add_mul_emod_self_left]
    refine hsecond.trans ?_
    congr 2
    · ring
    · ring

/-- An amount that is distributed in any number of parts. -/
theorem foldlM_distribute {amounts : List ℤ} (hcarry : 0 ≤ before.carry) (hne : amounts ≠ [])
    (hamounts : ∀ a ∈ amounts, 0 ≤ a) :
    amounts.foldlM (fun row a => distribute row a supply) before =
      distribute before amounts.sum supply := by
  induction amounts generalizing before with
  | nil => exact absurd rfl hne
  | cons a rest ih =>
      rw [List.forall_mem_cons] at hamounts
      by_cases hrest : rest = []
      · subst hrest
        rw [List.foldlM_cons, List.sum_singleton]
        exact bind_pure _
      · rw [List.foldlM_cons, List.sum_cons,
          ← distribute_distribute hcarry hamounts.1 (List.sum_nonneg hamounts.2)]
        cases hfirst : distribute before a supply with
        | error message => rfl
        | ok row => exact ih (distributed hcarry hamounts.1 hfirst).carry hrest hamounts.2

end Step

/-! ### Runs of distributions -/

/-- Stretches among the first `n` distributions, in each of which the balance of a holder stays
the same.  The holder settles at the end of each. -/
structure Settlements (balance : ℕ → ℕ) (n : ℕ) where
  stretches : Finset (ℕ × ℕ)
  within : ∀ p ∈ stretches, p.1 ≤ p.2 ∧ p.2 ≤ n
  apart : ∀ p ∈ stretches, ∀ q ∈ stretches, p ≠ q → Disjoint (Ico p.1 p.2) (Ico q.1 q.2)
  constant : ∀ p ∈ stretches, ∀ t ∈ Ico p.1 p.2, balance t = balance p.1

section Run

variable {rows : ℕ → SysioLiqYieldIndexType} {amount supply : ℕ → ℤ} {n : ℕ}

/-- What a holder is paid, each settlement rounded down. -/
def Settlements.paid {balance : ℕ → ℕ} (s : Settlements balance n)
    (rows : ℕ → SysioLiqYieldIndexType) : ℤ :=
  ∑ p ∈ s.stretches, (balance p.1 * ((rows p.2).index - (rows p.1).index)) / YieldIndexScale

/-- The first `n` distributions of a run lead from row to row. -/
def IsRun (rows : ℕ → SysioLiqYieldIndexType) (amount supply : ℕ → ℤ) (n : ℕ) : Prop :=
  ∀ t < n, distribute (rows t) (amount t) (supply t) = .ok (rows (t + 1))

theorem IsRun.distributed (h : IsRun rows amount supply n) (hcarry : 0 ≤ (rows 0).carry)
    (hamount : ∀ t < n, 0 ≤ amount t) :
    ∀ t < n, Distributed (rows t) (rows (t + 1)) (amount t) (supply t) := by
  intro t ht
  have hkept : 0 ≤ (rows t).carry := by
    induction t with
    | zero => exact hcarry
    | succ t ih =>
        have hlt : t < n := by omega
        exact (LIQKickerAccrual.distributed (ih hlt) (hamount t hlt) (h t hlt)).carry
  exact LIQKickerAccrual.distributed hkept (hamount t ht) (h t ht)

/-- The growth of the index is paid on the whole supply. -/
theorem sum_growth (h : ∀ t < n, Distributed (rows t) (rows (t + 1)) (amount t) (supply t)) :
    ∑ t ∈ range n, supply t * ((rows (t + 1)).index - (rows t).index) + (rows n).carry =
      YieldIndexScale * ∑ t ∈ range n, amount t + (rows 0).carry := by
  induction n with
  | zero => simp
  | succ n ih =>
      have hlast := (h n (by omega)).exact
      have hfront := ih fun t ht => h t (by omega)
      rw [sum_range_succ, sum_range_succ, mul_add]
      linarith

theorem pot_eq (h : ∀ t < n, Distributed (rows t) (rows (t + 1)) (amount t) (supply t)) :
    (rows n).pot - (rows 0).pot = ∑ t ∈ range n, amount t := by
  induction n with
  | zero => simp
  | succ n ih =>
      have hlast := (h n (by omega)).pot
      have hfront := ih fun t ht => h t (by omega)
      rw [sum_range_succ]
      linarith

/-- A holder is paid no more than the exact sum over all distributions. -/
theorem Settlements.paid_le {balance : ℕ → ℕ} (s : Settlements balance n)
    (h : ∀ t < n, 0 ≤ (rows (t + 1)).index - (rows t).index) :
    YieldIndexScale * s.paid rows ≤
      ∑ t ∈ range n, balance t * ((rows (t + 1)).index - (rows t).index) := by
  have hstretch : ∀ p ∈ s.stretches,
      YieldIndexScale * ((balance p.1 * ((rows p.2).index - (rows p.1).index)) / YieldIndexScale) ≤
        ∑ t ∈ Ico p.1 p.2, balance t * ((rows (t + 1)).index - (rows t).index) := by
    intro p hp
    refine (Int.mul_ediv_self_le (by decide)).trans (le_of_eq ?_)
    rw [← sum_Ico_sub (fun t => (rows t).index) (s.within p hp).1, mul_sum]
    exact sum_congr rfl fun t ht => by rw [s.constant p hp t ht]
  have hdisjoint : (s.stretches : Set (ℕ × ℕ)).PairwiseDisjoint fun p => Ico p.1 p.2 :=
    fun p hp q hq hne => s.apart p hp q hq hne
  rw [paid, mul_sum]
  refine (sum_le_sum hstretch).trans ?_
  rw [← sum_biUnion hdisjoint]
  refine sum_le_sum_of_subset_of_nonneg (fun t ht => ?_) fun t ht _ => ?_
  · obtain ⟨p, hp, hmem⟩ := mem_biUnion.mp ht
    have hwithin := (s.within p hp).2
    rw [mem_Ico] at hmem
    exact mem_range.mpr (by omega)
  · exact mul_nonneg (Int.natCast_nonneg _) (h t (mem_range.mp ht))

/-- Solvency: what the holders are paid is covered, for balances that never exceed the supply. -/
theorem IsRun.paid_le (h : IsRun rows amount supply n) (hcarry : 0 ≤ (rows 0).carry)
    (hamount : ∀ t < n, 0 ≤ amount t) {Holder : Type} [Fintype Holder] {balance : Holder → ℕ → ℕ}
    (hbalance : ∀ t < n, ∑ holder, (balance holder t : ℤ) ≤ supply t)
    (settlements : ∀ holder, Settlements (balance holder) n) :
    YieldIndexScale * ∑ holder, (settlements holder).paid rows ≤
      YieldIndexScale * ((rows n).pot - (rows 0).pot) + (rows 0).carry := by
  have hsteps := h.distributed hcarry hamount
  have hlast : 0 ≤ (rows n).carry := by
    cases n with
    | zero => exact hcarry
    | succ n => exact (hsteps n (by omega)).carry
  calc YieldIndexScale * ∑ holder, (settlements holder).paid rows
      ≤ ∑ holder, ∑ t ∈ range n,
          balance holder t * ((rows (t + 1)).index - (rows t).index) := by
        rw [mul_sum]
        exact sum_le_sum fun holder _ =>
          (settlements holder).paid_le fun t ht => (hsteps t ht).growth
    _ = ∑ t ∈ range n,
          (∑ holder, (balance holder t : ℤ)) * ((rows (t + 1)).index - (rows t).index) := by
        rw [sum_comm]
        exact sum_congr rfl fun t _ => (sum_mul _ _ _).symm
    _ ≤ ∑ t ∈ range n, supply t * ((rows (t + 1)).index - (rows t).index) := by
        refine sum_le_sum fun t ht => ?_
        have ht := mem_range.mp ht
        exact mul_le_mul_of_nonneg_right (hbalance t ht) (hsteps t ht).growth
    _ ≤ YieldIndexScale * ((rows n).pot - (rows 0).pot) + (rows 0).carry := by
        rw [pot_eq hsteps]
        linarith [sum_growth hsteps]

/-- Yield distribution is solvent, for any start row, any amounts and supplies, and any balances:
payments are covered by the pot and the first carry, the growth of the index accounts for all that
is distributed, and an amount may be split. -/
theorem distribution_solvent (h : IsRun rows amount supply n) (hcarry : 0 ≤ (rows 0).carry)
    (hamount : ∀ t < n, 0 ≤ amount t) :
    (∀ {Holder : Type} [Fintype Holder] (balance : Holder → ℕ → ℕ),
      (∀ t < n, ∑ holder, (balance holder t : ℤ) ≤ supply t) →
      ∀ settlements : ∀ holder, Settlements (balance holder) n,
        ((∑ holder, (settlements holder).paid rows : ℤ) : ℚ) ≤
          ((rows n).pot - (rows 0).pot) + (rows 0).carry / YieldIndexScale) ∧
    ∑ t ∈ range n, supply t * ((rows (t + 1)).index - (rows t).index) + (rows n).carry =
      YieldIndexScale * ∑ t ∈ range n, amount t + (rows 0).carry ∧
    ∀ (row : SysioLiqYieldIndexType) (amounts : List ℤ) (supply : ℤ), 0 ≤ row.carry →
      amounts ≠ [] → (∀ a ∈ amounts, 0 ≤ a) →
      amounts.foldlM (fun row a => distribute row a supply) row =
        distribute row amounts.sum supply := by
  refine ⟨fun balance hbalance settlements => ?_, sum_growth (h.distributed hcarry hamount),
    fun row amounts supply => foldlM_distribute⟩
  have hpaid := h.paid_le hcarry hamount hbalance settlements
  have hscale : (0 : ℚ) < YieldIndexScale := by norm_num [YieldIndexScale]
  rw [← sub_le_iff_le_add', le_div_iff₀ hscale]
  have hcast : (YieldIndexScale * ∑ holder, (settlements holder).paid rows : ℚ) ≤
      YieldIndexScale * ((rows n).pot - (rows 0).pot) + (rows 0).carry := by exact_mod_cast hpaid
  linarith

end Run

/-- Two kicks: 3 over a supply of 7, and 4 over a supply of 10. -/
def kicked : ℕ → SysioLiqYieldIndexType
  | 0 => ⟨0, 0, 0⟩
  | 1 => ⟨428571428571, 3, 3⟩
  | _ => ⟨828571428571, 7, 3⟩

/-- A holder of 7 who settles after the second one. -/
def settled : Settlements (fun _ => 7) 2 where
  stretches := {(0, 2)}
  within := by decide
  apart := by decide
  constant _ _ _ _ := rfl

theorem distribution_solvent_kicked :
    ((∑ _holder : Unit, settled.paid kicked : ℤ) : ℚ) ≤
      ((kicked 2).pot - (kicked 0).pot) + (kicked 0).carry / YieldIndexScale := by
  have hrun : IsRun kicked (fun t => if t = 0 then 3 else 4)
      (fun t => if t = 0 then 7 else 10) 2 := by
    intro t ht
    obtain rfl | rfl : t = 0 ∨ t = 1 := by omega
    · rfl
    · rfl
  refine (distribution_solvent hrun (by decide) (by decide)).1 (fun _ _ => 7) ?_ fun _ => settled
  intro t _
  split <;> decide

end WireTools.LIQKickerAccrual
