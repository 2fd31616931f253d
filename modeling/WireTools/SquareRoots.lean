import Mathlib.Algebra.Order.Ring.Unbundled.Basic
import Mathlib.Data.Nat.Sqrt
import Mathlib.Tactic.Linarith
import Mathlib.Tactic.Zify
import WireTools.JsonPrint

/-! # Square roots of large integers

Newton's method from above, which stops at the first root that is not made smaller.

* `next`: one step; from any root it does not fall below the square root (`lt_next_sq`), and a root
  that it does not make smaller is not above it (`sq_le_of_le_next`);
* `step` ends, since every root is below the one before; `step_eq` is where it ends;
* `isqrt_floor`: the largest `r` with `r * r ≤ value`, for every value that is not negative;
* `assertShares`: the bound on the locked shares of a pool, and that it is one on their square. -/

namespace WireTools.BigintUtils

/-! ### The iteration -/

def next (value root : ℕ) : ℕ :=
  (root + value / root) / 2

/-- The roots, down to the last one; nothing is divided by zero. -/
def step (value root : ℕ) : Except Text ℕ :=
  if root = 0 then .error (text "Division by zero")
  else if root ≤ next value root then .ok root
  else step value (next value root)
termination_by root
decreasing_by exact not_le.mp ‹_›

def isqrt (value : ℤ) : Except Text ℤ :=
  if value < 0 then .error (text "isqrt: " ++ (intText value ++ text " is negative"))
  else if value < 2 then .ok value
  else (step value.toNat value.toNat).map Int.ofNat

/-! ### One step -/

variable {value root : ℕ}

theorem lt_next_sq (h : 0 < root) : value < (next value root + 1) * (next value root + 1) := by
  have hdiv : value < root * (value / root + 1) := Nat.lt_mul_div_succ value h
  have hhalf : root + (value / root + 1) ≤ 2 * (next value root + 1) := by
    unfold next
    omega
  have hmean : 4 * root * (value / root + 1) ≤ (root + (value / root + 1)) ^ 2 :=
    four_mul_le_sq_add root (value / root + 1)
  have hsq : (root + (value / root + 1)) ^ 2 ≤ (2 * (next value root + 1)) ^ 2 :=
    Nat.pow_le_pow_left hhalf 2
  nlinarith

theorem next_pos (hvalue : 0 < value) (hroot : 0 < root) : 0 < next value root := by
  unfold next
  rcases Nat.lt_or_ge root 2 with hone | htwo
  · have hdiv : value / root = value := by
      rw [show root = 1 by omega, Nat.div_one]
    omega
  · exact Nat.div_pos (htwo.trans (Nat.le_add_right _ _)) (by decide)

theorem sq_le_of_le_next (h : 0 < root) (hle : root ≤ next value root) : root * root ≤ value := by
  have hquot : root ≤ value / root := by
    unfold next at hle
    omega
  exact (Nat.le_div_iff_mul_le h).mp hquot

/-! ### The whole iteration -/

/-- From a root that is not too small, the iteration ends at the square root. -/
theorem step_eq (hvalue : 0 < value) (hroot : 0 < root) (h : value < (root + 1) * (root + 1)) :
    step value root = .ok (Nat.sqrt value) := by
  induction root using Nat.strong_induction_on with
  | _ root ih =>
      rw [step, if_neg hroot.ne']
      split
      · next hle =>
          rw [← Nat.eq_sqrt.mpr ⟨sq_le_of_le_next hroot hle, h⟩]
      · next hlt =>
          exact ih (next value root) (not_le.mp hlt) (next_pos hvalue hroot) (lt_next_sq hroot)

theorem isqrt_eq {value : ℤ} (h : 0 ≤ value) : isqrt value = .ok (Nat.sqrt value.toNat) := by
  unfold isqrt
  rw [if_neg (not_lt.mpr h)]
  split
  · next hsmall =>
      obtain rfl | rfl : value = 0 ∨ value = 1 := by omega
      · rfl
      · rfl
  · next hlarge =>
      have hpos : 0 < value.toNat := by omega
      rw [step_eq hpos hpos (by nlinarith)]
      rfl

/-- The square root of every value that is not negative, rounded down. -/
theorem isqrt_floor (value : ℤ) (h : 0 ≤ value) :
    ∃ r, isqrt value = .ok r ∧ 0 ≤ r ∧ r * r ≤ value ∧ value < (r + 1) * (r + 1) := by
  refine ⟨Nat.sqrt value.toNat, isqrt_eq h, Int.natCast_nonneg _, ?_, ?_⟩
  · have hle := Nat.sqrt_le value.toNat
    zify at hle
    rwa [Int.toNat_of_nonneg h] at hle
  · have hlt := Nat.lt_succ_sqrt value.toNat
    zify at hlt
    rwa [Int.toNat_of_nonneg h] at hlt

theorem isqrt_floor_large : (0 : ℤ) ≤ 10 ^ 40 - 1 ∧ ∃ r, isqrt (10 ^ 40 - 1) = .ok r ∧ 0 ≤ r ∧
    r * r ≤ 10 ^ 40 - 1 ∧ 10 ^ 40 - 1 < (r + 1) * (r + 1) :=
  ⟨by decide, isqrt_floor (10 ^ 40 - 1) (by decide)⟩

/-! ### The locked shares of a pool -/

/-- The amounts of a pool that its shares depend on. -/
structure PoolShares where
  initialChainAmount : ℤ
  initialWireAmount : ℤ
  lockedShares : ℤ

/-- The creator keeps a share at least. -/
def assertShares (label : Text) (pool : PoolShares) : Except Text Unit := do
  let shares ← isqrt (pool.initialChainAmount * pool.initialWireAmount)
  if pool.lockedShares < shares then .ok ()
  else .error (label ++ (text ": lockedShares " ++ (intText pool.lockedShares ++
    (text " must stay below the " ++ (intText shares ++ text " minted pool shares")))))

/-- No more shares are locked than are minted, by the product of the two amounts. -/
theorem assertShares_ok_iff {label : Text} {pool : PoolShares} (hlocked : 0 ≤ pool.lockedShares)
    (hproduct : 0 ≤ pool.initialChainAmount * pool.initialWireAmount) :
    assertShares label pool = .ok () ↔
      (pool.lockedShares + 1) * (pool.lockedShares + 1) ≤
        pool.initialChainAmount * pool.initialWireAmount := by
  obtain ⟨locked, hlocked⟩ := Int.eq_ofNat_of_zero_le hlocked
  obtain ⟨product, hproduct'⟩ := Int.eq_ofNat_of_zero_le hproduct
  have hshares : isqrt (pool.initialChainAmount * pool.initialWireAmount) =
      .ok (Nat.sqrt product) := by
    rw [isqrt_eq hproduct, hproduct', Int.toNat_natCast]
  have hassert : assertShares label pool = .ok () ↔ pool.lockedShares < Nat.sqrt product := by
    unfold assertShares
    rw [hshares]
    by_cases hbound : pool.lockedShares < Nat.sqrt product
    · exact iff_of_true (if_pos hbound) hbound
    · refine iff_of_false (fun hok => ?_) hbound
      have herror := (if_neg hbound).symm.trans hok
      cases herror
  rw [hassert, hlocked, hproduct', Int.ofNat_lt, Nat.lt_iff_add_one_le, Nat.le_sqrt]
  exact_mod_cast Iff.rfl

end WireTools.BigintUtils
