import Mathlib.Algebra.BigOperators.Group.Finset.Basic
import Mathlib.Algebra.BigOperators.Intervals
import Mathlib.Algebra.Order.Group.Int
import Mathlib.Order.Interval.Finset.Nat
import Mathlib.Data.Int.Interval

/-! # The proleptic Gregorian calendar

Days counted from the first of January 1970, over years before and after the year 0.

* `dayNumber`: the lengths of the years and months that lie between, one after the other;
* `dayFromYear` and `monthStart`: the closed form of the count, by divisions and by a table, and
  that it is the same (`dayFromYear_eq`, `monthStart_eq`). -/

namespace WireTools.Calendar

open Finset

/-! ### Years and months -/

def IsLeap (year : ℤ) : Prop :=
  4 ∣ year ∧ (¬100 ∣ year ∨ 400 ∣ year)

instance (year : ℤ) : Decidable (IsLeap year) :=
  inferInstanceAs (Decidable (_ ∧ _))

def yearLength (year : ℤ) : ℤ :=
  if IsLeap year then 366 else 365

/-- The months of a year are numbered from 0. -/
def monthLength (leap : Bool) (month : ℕ) : ℤ :=
  if month = 1 then if leap then 29 else 28
  else if month = 3 ∨ month = 5 ∨ month = 8 ∨ month = 10 then 30
  else 31

/-- The years from one up to another. -/
def years (first behind : ℤ) : Finset ℤ :=
  @Ico ℤ instLatticeInt.toSemilatticeInf.toPreorder Int.instLocallyFiniteOrder first behind

theorem mem_years {first behind year : ℤ} :
    year ∈ years first behind ↔ first ≤ year ∧ year < behind := mem_Ico

theorem years_eq_empty {first behind : ℤ} (h : behind ≤ first) : years first behind = ∅ := by
  ext year
  simp only [mem_years, notMem_empty, iff_false]
  omega

/-- The days from the start of 1970 to the start of a year, negative for an earlier one. -/
def daysBefore (year : ℤ) : ℤ :=
  ∑ y ∈ years 1970 year, yearLength y - ∑ y ∈ years year 1970, yearLength y

/-- The day of a date; the months and the days of a month are numbered from 0. -/
def dayNumber (year : ℤ) (month : ℕ) (day : ℤ) : ℤ :=
  daysBefore year + ∑ m ∈ range month, monthLength (IsLeap year) m + day

theorem daysBefore_epoch : daysBefore 1970 = 0 := by
  rw [daysBefore, sub_self]

theorem daysBefore_succ (year : ℤ) : daysBefore (year + 1) = daysBefore year + yearLength year := by
  unfold daysBefore
  rcases lt_or_ge year 1970 with hbefore | hafter
  · have hsplit : years year 1970 = insert year (years (year + 1) 1970) := by
      ext y
      simp only [mem_insert, mem_years]
      omega
    have hsum : ∑ y ∈ years year 1970, yearLength y =
        yearLength year + ∑ y ∈ years (year + 1) 1970, yearLength y := by
      rw [hsplit, sum_insert (by rw [mem_years]; omega)]
    rw [hsum, years_eq_empty (by omega : year + 1 ≤ 1970), years_eq_empty hbefore.le]
    omega
  · have hsplit : years 1970 (year + 1) = insert year (years 1970 year) := by
      ext y
      simp only [mem_insert, mem_years]
      omega
    rw [hsplit, sum_insert (by rw [mem_years]; omega), years_eq_empty hafter,
      years_eq_empty (by omega : 1970 ≤ year + 1)]
    omega

/-! ### The closed form -/

/-- The day on which a year starts. -/
def dayFromYear (year : ℤ) : ℤ :=
  365 * (year - 1970) + (year - 1969) / 4 - (year - 1901) / 100 + (year - 1601) / 400

/-- The day of a year on which a month starts. -/
def monthStart (leap : Bool) (month : ℕ) : ℤ :=
  ([0, 31, 59, 90, 120, 151, 181, 212, 243, 273, 304, 334] : List ℤ).getD month 0 +
    if leap ∧ 1 < month then 1 else 0

theorem dayFromYear_succ (year : ℤ) :
    dayFromYear (year + 1) = dayFromYear year + yearLength year := by
  unfold dayFromYear
  by_cases hleap : IsLeap year
  · rw [yearLength, if_pos hleap]
    unfold IsLeap at hleap
    omega
  · rw [yearLength, if_neg hleap]
    unfold IsLeap at hleap
    omega

theorem dayFromYear_eq (year : ℤ) : dayFromYear year = daysBefore year := by
  induction year using Int.inductionOn' (b := 1970) with
  | zero => rw [daysBefore_epoch]; rfl
  | succ year _ ih => rw [dayFromYear_succ, daysBefore_succ, ih]
  | pred year _ ih =>
      have hday := dayFromYear_succ (year - 1)
      have hbefore := daysBefore_succ (year - 1)
      rw [sub_add_cancel] at hday hbefore
      omega

theorem monthStart_eq (leap : Bool) {month : ℕ} (h : month < 12) :
    monthStart leap month = ∑ m ∈ range month, monthLength leap m := by
  have hall : ∀ leap, ∀ month < 12, monthStart leap month =
      ∑ m ∈ range month, monthLength leap m := by decide
  exact hall leap month h

end WireTools.Calendar
