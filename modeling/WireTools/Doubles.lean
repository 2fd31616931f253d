import Mathlib.Algebra.Group.Nat.Defs
import Mathlib.Order.WithBot
import Mathlib.Data.Int.Order.Basic
import Mathlib.Data.Nat.Log
import WireTools.Comparators

/-! # Doubles

The numbers of the source language, as far as they are decoded from bytes and subtracted.

* A finite double is a whole number of units of `2 ^ -1074`, the least one that is not zero, so
  a double's numerator is an integer.  The two zeros are one: neither the sign of a difference
  nor the printed form tells them apart;
* `ofBits` decodes an interchange format, a single or a double;
* `sign_sub`: the sign of a rounded difference is the order of the two numbers. -/

namespace WireTools

inductive Double where
  | finite (units : ℤ)
  | infinite (negative : Bool)
  | nan
  deriving DecidableEq

namespace Double

/-- The number with these bits, in the format with so many bits of exponent and of fraction.  The
least number of the format that is not zero is `2 ^ shift` units. -/
def ofBits (exponentBits fractionBits shift bits : ℕ) : Double :=
  let fraction := bits % 2 ^ fractionBits
  let exponent := bits / 2 ^ fractionBits % 2 ^ exponentBits
  let negative := bits / 2 ^ (fractionBits + exponentBits) % 2 = 1
  if exponent = 2 ^ exponentBits - 1 then
    if fraction = 0 then .infinite negative else .nan
  else
    let magnitude : ℕ :=
      if exponent = 0 then fraction * 2 ^ shift
      else (2 ^ fractionBits + fraction) * 2 ^ (exponent - 1 + shift)
    .finite (if negative then -magnitude else magnitude)

/-- The number that bytes stand for, the least significant one first. -/
def littleEndian (bytes : List ℕ) : ℕ :=
  bytes.foldr (fun byte n => byte + 256 * n) 0

def getFloat32 (bytes : List ℕ) : Double :=
  ofBits 8 23 925 (littleEndian bytes)

def getFloat64 (bytes : List ℕ) : Double :=
  ofBits 11 52 0 (littleEndian bytes)

/-- The magnitude with 53 significant bits nearest to `n`, the even one of two that are. -/
def roundMagnitude (n : ℕ) : ℕ :=
  let k := Nat.log 2 n - 52
  let below := n / 2 ^ k
  let rest := n % 2 ^ k
  let nearest :=
    if 2 * rest < 2 ^ k then below
    else if 2 ^ k < 2 * rest then below + 1
    else below + below % 2
  nearest * 2 ^ k

/-- The double nearest to a number of units. -/
def round (n : ℤ) : Double :=
  if 2 ^ 2098 ≤ roundMagnitude n.natAbs then .infinite (n < 0)
  else .finite (n.sign * roundMagnitude n.natAbs)

def sub : Double → Double → Double
  | .nan, _ => .nan
  | _, .nan => .nan
  | .infinite a, .infinite b => if a = b then .nan else .infinite a
  | .infinite a, .finite _ => .infinite a
  | .finite _, .infinite b => .infinite !b
  | .finite x, .finite y => round (x - y)

/-- The sign that comparisons with zero find; a NaN is neither above nor below. -/
def sign : Double → ℤ
  | .finite units => units.sign
  | .infinite negative => if negative then -1 else 1
  | .nan => 0

/-- The place of a number among the numbers. -/
def rank : Double → WithBot (WithTop ℤ)
  | .finite units => ((units : WithTop ℤ) : WithBot (WithTop ℤ))
  | .infinite negative => if negative then ⊥ else ((⊤ : WithTop ℤ) : WithBot (WithTop ℤ))
  | .nan => ⊥

theorem roundMagnitude_pos {n : ℕ} (h : 0 < n) : 0 < roundMagnitude n := by
  have hpow : 2 ^ (Nat.log 2 n - 52) ≤ n := by
    calc 2 ^ (Nat.log 2 n - 52) ≤ 2 ^ Nat.log 2 n := Nat.pow_le_pow_right (by decide) (by omega)
      _ ≤ n := Nat.pow_log_le_self 2 (by omega)
  have hbelow : 0 < n / 2 ^ (Nat.log 2 n - 52) := Nat.div_pos hpow (Nat.two_pow_pos _)
  dsimp only [roundMagnitude]
  refine Nat.mul_pos ?_ (Nat.two_pow_pos _)
  split_ifs
  · exact hbelow
  · omega
  · omega

/-- A difference of doubles that is not zero is not rounded to zero, and keeps its sign. -/
theorem sign_round (n : ℤ) : (round n).sign = n.sign := by
  rcases lt_trichotomy n 0 with h | rfl | h
  · have hpos := roundMagnitude_pos (Int.natAbs_pos.mpr h.ne)
    unfold round
    split_ifs
    · simp [sign, h, Int.sign_eq_neg_one_of_neg h]
    · rw [sign, Int.sign_mul, Int.sign_natCast_of_ne_zero hpos.ne', Int.sign_sign, Int.mul_one]
  · decide +kernel
  · have hpos := roundMagnitude_pos (Int.natAbs_pos.mpr h.ne')
    unfold round
    split_ifs
    · simp [sign, h.le, Int.sign_eq_one_of_pos h]
    · rw [sign, Int.sign_mul, Int.sign_natCast_of_ne_zero hpos.ne', Int.sign_sign, Int.mul_one]

theorem sign_sub_eq_byKey (x y : ℤ) : (x - y).sign = byKey id x y := by
  unfold byKey
  rcases lt_trichotomy x y with h | rfl | h
  · rw [Int.sign_eq_neg_one_of_neg (by omega), if_pos (show id x < id y from h)]
  · simp
  · rw [Int.sign_eq_one_of_pos (by omega), if_neg (show ¬id x < id y from not_lt.mpr h.le),
      if_pos (show id y < id x from h)]

/-- The sign of a difference is the order of the numbers. -/
theorem sign_sub {a b : Double} (ha : a ≠ .nan) (hb : b ≠ .nan) :
    (a.sub b).sign = byKey rank a b := by
  cases a with
  | nan => exact absurd rfl ha
  | infinite a =>
      cases b with
      | nan => exact absurd rfl hb
      | infinite b =>
          cases a with
          | true =>
              cases b with
              | true => simp [sub, sign, byKey]
              | false => simp [sub, sign, byKey, rank]
          | false =>
              cases b with
              | true => simp [sub, sign, byKey, rank]
              | false => simp [sub, sign, byKey]
      | finite y =>
          cases a with
          | true => simp [sub, sign, byKey, rank]
          | false => simp [sub, sign, byKey, rank]
  | finite x =>
      cases b with
      | nan => exact absurd rfl hb
      | infinite b =>
          cases b with
          | true => simp [sub, sign, byKey, rank]
          | false => simp [sub, sign, byKey, rank]
      | finite y =>
          rw [sub, sign_round, sign_sub_eq_byKey]
          simp [byKey, rank]

end Double

end WireTools
