import WireTools.Calendar
import WireTools.CellOrder

/-! # Timestamps of the engine

An engine timestamp is a text; the inspector shows it as microseconds since 1970.

* `setUTCFullYear` and `setUTCHours` of the host's dates, which reach less far than the engine's
  times: an invalid date is none;
* `TimestampPattern.exec`, and the texts that it matches (`exec_eq_some_iff`);
* `epochMicros`, which throws for an invalid date;
* `Meets`: a timestamp that is valid and fits the engine's times becomes the exact number of
  microseconds, and nothing is thrown for any other text;
* `epochMicros_meets_iff`: that is so exactly for the texts whose date the host can hold. -/

namespace WireTools.ValueInspector

open Json (digitsValue)
open Calendar

/-! ### Dates of the host -/

/-- Milliseconds since 1970, none for an invalid date. -/
abbrev HostDate := Option ℤ

def msPerDay : ℤ := 86400000

def timeClip (t : ℤ) : HostDate :=
  if t.natAbs ≤ 8640000000000000 then some t else none

/-- Months count from 0, days of a month from 1; a month beyond the year is one of another year. -/
def makeDay (year month date : ℤ) : ℤ :=
  let ym := year + month / 12
  dayFromYear ym + monthStart (IsLeap ym) (month % 12).toNat + (date - 1)

def makeTime (hour minute second ms : ℤ) : ℤ :=
  hour * 3600000 + minute * 60000 + second * 1000 + ms

def setUTCFullYear (t : HostDate) (year month date : ℤ) : HostDate :=
  timeClip (makeDay year month date * msPerDay + t.getD 0 % msPerDay)

def setUTCHours (t : HostDate) (hour minute second ms : ℤ) : HostDate :=
  t.bind fun t => timeClip (t / msPerDay * msPerDay + makeTime hour minute second ms)

/-! ### The pattern -/

/-- The groups of a match; the fraction is empty where there is none. -/
structure Parts where
  year : Text
  month : Text
  day : Text
  hour : Text
  minute : Text
  second : Text
  fraction : Text
  deriving DecidableEq

namespace TimestampPattern

/-- One unit that has to stand there, and what is behind it. -/
def expect (c : CodeUnit) (t : Text) : Option Text :=
  if t.head? = some c then some t.tail else none

/-- Two digits, and what is behind them. -/
def twoDigits (t : Text) : Option (Text × Text) :=
  if (t.take 2).length = 2 ∧ (t.take 2).all isDigit then some (t.take 2, t.drop 2) else none

/-- The sign and at least four digits, and what is behind them. -/
def yearDigits (t : Text) : Option (Text × Text) :=
  let sign := t.take (if t.head? = some 43 ∨ t.head? = some 45 then 1 else 0)
  let digits := (t.drop sign.length).takeWhile isDigit
  if 4 ≤ digits.length then some (sign ++ digits, (t.drop sign.length).dropWhile isDigit) else none

/-- The fraction behind a point, if there is one, and what is behind it. -/
def fractionDigits (t : Text) : Option (Text × Text) :=
  if t.head? = some 46 then
    let digits := t.tail.takeWhile isDigit
    if 1 ≤ digits.length ∧ digits.length ≤ 6 then some (digits, t.tail.dropWhile isDigit) else none
  else some ([], t)

def exec (t : Text) : Option Parts := do
  let (year, t) ← yearDigits t
  let t ← expect 45 t
  let (month, t) ← twoDigits t
  let t ← expect 45 t
  let (day, t) ← twoDigits t
  let t ← expect 84 t
  let (hour, t) ← twoDigits t
  let t ← expect 58 t
  let (minute, t) ← twoDigits t
  let t ← expect 58 t
  let (second, t) ← twoDigits t
  let (fraction, t) ← fractionDigits t
  if t = [] ∨ t = [90] then some ⟨year, month, day, hour, minute, second, fraction⟩ else none

end TimestampPattern

example : TimestampPattern.exec (text "-0044-03-15T12:30:00.25Z") =
    some ⟨text "-0044", text "03", text "15", text "12", text "30", text "00", text "25"⟩ := by
  decide

/-! ### Microseconds -/

def MicrosecondDigits : ℕ := 6

def MicrosPerMilli : ℤ := 1000

/-- `Number` of digits behind a sign.  What a double does not hold is no date anyway. -/
def number (t : Text) : ℤ :=
  if t.head? = some 45 then -(digitsValue t.tail : ℤ)
  else if t.head? = some 43 then digitsValue t.tail
  else digitsValue t

def epochMicros (t : Text) : Except Text (Option Text) :=
  match TimestampPattern.exec t with
  | none => .ok none
  | some p =>
      let date := setUTCFullYear (some 0) (number p.year) (number p.month - 1) (number p.day)
      let date := setUTCHours date (number p.hour) (number p.minute) (number p.second) 0
      match date with
      | none =>
          .error (text "The number NaN cannot be converted to a BigInt because it is not an integer")
      | some time =>
          .ok (some (intText (time * MicrosPerMilli +
            digitsValue (CellFormatter.padEnd p.fraction MicrosecondDigits))))

/-! ### What is asked -/

namespace Parts

variable (p : Parts)

structure Valid : Prop where
  month : 1 ≤ number p.month ∧ number p.month ≤ 12
  day : 1 ≤ number p.day ∧
    number p.day ≤ monthLength (IsLeap (number p.year)) (number p.month - 1).toNat
  hour : number p.hour ≤ 23
  minute : number p.minute ≤ 59
  second : number p.second ≤ 59

/-- The day of a date; a month that the year does not have is one of another year. -/
def epochDay : ℤ :=
  dayNumber (number p.year + (number p.month - 1) / 12) ((number p.month - 1) % 12).toNat
    (number p.day - 1)

def secondOfDay : ℤ :=
  number p.hour * 3600 + number p.minute * 60 + number p.second

/-- Microseconds from the first of January 1970. -/
def micros : ℤ :=
  (dayNumber (number p.year) (number p.month - 1).toNat (number p.day - 1) * 86400 +
    p.secondOfDay) * 1000000 + digitsValue p.fraction * 10 ^ (6 - p.fraction.length)

/-- The engine's times are signed 64-bit numbers. -/
def Fits : Prop :=
  -2 ^ 63 ≤ p.micros ∧ p.micros < 2 ^ 63

/-- The days from -271821-04-20 to +275760-09-13, of the last one only its start. -/
def InRange : Prop :=
  -100000000 ≤ p.epochDay ∧ p.epochDay * 86400 + p.secondOfDay ≤ 8640000000000

instance : Decidable p.InRange :=
  inferInstanceAs (Decidable (_ ∧ _))

end Parts

/-- Exact on the engine's timestamps, and nothing is thrown for another text. -/
def Meets (t : Text) : Prop :=
  (∃ r, epochMicros t = .ok r) ∧ ∀ p, TimestampPattern.exec t = some p → p.Valid → p.Fits →
    epochMicros t = .ok (some (intText p.micros))

/-! ### The texts that match -/

namespace TimestampPattern

def IsYear (year : Text) : Prop :=
  ∃ sign digits : Text, year = sign ++ digits ∧ (sign = [] ∨ sign = [43] ∨ sign = [45]) ∧
    4 ≤ digits.length ∧ ∀ c ∈ digits, isDigit c = true

def IsPair (ds : Text) : Prop :=
  ds.length = 2 ∧ ∀ c ∈ ds, isDigit c = true

def IsFraction (ds : Text) : Prop :=
  ds.length ≤ 6 ∧ ∀ c ∈ ds, isDigit c = true

theorem expect_eq_some {c : CodeUnit} {t r : Text} : expect c t = some r ↔ t = c :: r := by
  cases t with
  | nil => simp [expect]
  | cons d t =>
      simp only [expect, List.head?_cons, List.tail_cons, Option.some.injEq,
        Option.ite_none_right_eq_some, List.cons.injEq]

theorem twoDigits_eq_some {t ds r : Text} :
    twoDigits t = some (ds, r) ↔ t = ds ++ r ∧ IsPair ds := by
  rw [twoDigits, Option.ite_none_right_eq_some, Option.some.injEq, Prod.mk.injEq, List.all_eq_true]
  constructor
  · rintro ⟨⟨hlength, hdigits⟩, rfl, rfl⟩
    exact ⟨(List.take_append_drop 2 t).symm, hlength, hdigits⟩
  · rintro ⟨rfl, hlength, hdigits⟩
    rw [← hlength, List.take_left, List.drop_left]
    exact ⟨⟨rfl, hdigits⟩, rfl, rfl⟩

theorem yearDigits_eq_some {t y r : Text} (hr : ∀ c ∈ r.head?, isDigit c = false) :
    yearDigits t = some (y, r) ↔ t = y ++ r ∧ IsYear y := by
  have hread (sign rest : Text) : (if 4 ≤ (rest.takeWhile isDigit).length then
      some (sign ++ rest.takeWhile isDigit, rest.dropWhile isDigit) else none) = some (y, r) ↔
      ∃ digits, rest = digits ++ r ∧ y = sign ++ digits ∧ 4 ≤ digits.length ∧
        ∀ c ∈ digits, isDigit c = true := by
    rw [Option.ite_none_right_eq_some, Option.some.injEq, Prod.mk.injEq]
    constructor
    · rintro ⟨hlength, rfl, rfl⟩
      exact ⟨_, List.takeWhile_append_dropWhile.symm, rfl, hlength,
        fun c hc => List.mem_takeWhile_imp hc⟩
    · rintro ⟨digits, rfl, rfl, hlength, hdigits⟩
      obtain ⟨htake, hdrop⟩ := takeWhile_append_stop hdigits hr
      rw [htake, hdrop]
      exact ⟨hlength, rfl, rfl⟩
  rw [yearDigits]
  split
  · next hsign =>
      obtain ⟨c, rest, rfl, hc⟩ : ∃ c rest, t = c :: rest ∧ (c = 43 ∨ c = 45) := by
        cases t with
        | nil => rcases hsign with hsign | hsign <;> cases hsign
        | cons c rest =>
            exact ⟨c, rest, rfl, hsign.imp Option.some.inj Option.some.inj⟩
      refine (hread [c] rest).trans ?_
      constructor
      · rintro ⟨digits, rfl, rfl, hlength, hdigits⟩
        refine ⟨rfl, [c], digits, rfl, Or.inr ?_, hlength, hdigits⟩
        exact hc.imp (congrArg fun d => [d]) (congrArg fun d => [d])
      · rintro ⟨heq, sign, digits, rfl, hsign', hlength, hdigits⟩
        have hdigit : isDigit c = false := by rcases hc with rfl | rfl <;> decide
        rcases hsign' with rfl | rfl | rfl
        · cases digits with
          | nil => exact absurd hlength (by decide)
          | cons d digits =>
              obtain rfl := (List.cons.inj heq).1
              rw [hdigits c List.mem_cons_self] at hdigit
              cases hdigit
        all_goals
          obtain ⟨rfl, hrest⟩ := List.cons.inj heq
          exact ⟨digits, hrest, rfl, hlength, hdigits⟩
  · next hsign =>
      rw [not_or] at hsign
      refine (hread [] t).trans ?_
      constructor
      · rintro ⟨digits, htext, hy, hlength, hdigits⟩
        rw [List.nil_append] at hy
        exact ⟨by rw [htext, hy], [], digits, hy, Or.inl rfl, hlength, hdigits⟩
      · rintro ⟨rfl, sign, digits, rfl, hsign', hlength, hdigits⟩
        rcases hsign' with rfl | rfl | rfl
        · exact ⟨digits, rfl, rfl, hlength, hdigits⟩
        · exact absurd rfl hsign.1
        · exact absurd rfl hsign.2

theorem fractionDigits_eq_some {t ds r : Text} (hr : r = [] ∨ r = [90]) :
    fractionDigits t = some (ds, r) ↔
      t = (if ds = [] then [] else 46 :: ds) ++ r ∧ IsFraction ds := by
  have hhead : ∀ c ∈ r.head?, isDigit c = false := by
    rcases hr with rfl | rfl
    · exact fun c hc => by cases hc
    · exact fun c hc => by cases hc; decide
  rw [fractionDigits]
  split
  · next hpoint =>
      obtain ⟨rest, rfl⟩ : ∃ rest, t = 46 :: rest := by
        cases t with
        | nil => cases hpoint
        | cons c rest => exact ⟨rest, by rw [Option.some.inj hpoint]⟩
      dsimp only
      rw [List.tail_cons, Option.ite_none_right_eq_some, Option.some.injEq, Prod.mk.injEq]
      constructor
      · rintro ⟨hlength, rfl, rfl⟩
        rw [if_neg fun hnil => by rw [hnil] at hlength; exact absurd hlength.1 (by decide),
          List.cons_append, List.takeWhile_append_dropWhile]
        exact ⟨rfl, hlength.2, fun c hc => List.mem_takeWhile_imp hc⟩
      · rintro ⟨heq, hlength, hdigits⟩
        split at heq
        · rcases hr with rfl | rfl
          · cases heq
          · exact absurd (List.cons.inj heq).1 (by decide)
        · next hne =>
            have hrest : rest = ds ++ r := (List.cons.inj heq).2
            obtain ⟨htake, hdrop⟩ := takeWhile_append_stop hdigits hhead
            rw [hrest, htake, hdrop]
            exact ⟨⟨List.length_pos_iff.mpr hne, hlength⟩, rfl, rfl⟩
  · next hpoint =>
      rw [Option.some.injEq, Prod.mk.injEq]
      constructor
      · rintro ⟨rfl, rfl⟩
        exact ⟨rfl, by decide, fun c hc => absurd hc List.not_mem_nil⟩
      · rintro ⟨heq, _, _⟩
        split at heq
        · next hnil => exact ⟨hnil.symm, heq⟩
        · rw [heq] at hpoint
          exact absurd rfl hpoint

/-- The groups of a match stand between the fixed units. -/
structure Groups (p : Parts) : Prop where
  year : IsYear p.year
  month : IsPair p.month
  day : IsPair p.day
  hour : IsPair p.hour
  minute : IsPair p.minute
  second : IsPair p.second
  fraction : IsFraction p.fraction

/-- The pattern matches these texts, in this one way. -/
theorem exec_eq_some_iff {t : Text} {p : Parts} : exec t = some p ↔ Groups p ∧
    ∃ zulu : Text, (zulu = [] ∨ zulu = [90]) ∧ t = p.year ++ 45 :: (p.month ++ 45 :: (p.day ++ 84 ::
      (p.hour ++ 58 :: (p.minute ++ 58 :: (p.second ++
        ((if p.fraction = [] then [] else 46 :: p.fraction) ++ zulu)))))) := by
  have hdash (r : Text) : ∀ c ∈ (45 :: r : Text).head?, isDigit c = false := by
    intro c hc
    cases hc
    decide
  constructor
  · intro h
    obtain ⟨⟨year, t₁⟩, hyear, h⟩ := Option.bind_eq_some_iff.mp h
    obtain ⟨t₂, hdash₁, h⟩ := Option.bind_eq_some_iff.mp h
    obtain ⟨⟨month, t₃⟩, hmonth, h⟩ := Option.bind_eq_some_iff.mp h
    obtain ⟨t₄, hdash₂, h⟩ := Option.bind_eq_some_iff.mp h
    obtain ⟨⟨day, t₅⟩, hday, h⟩ := Option.bind_eq_some_iff.mp h
    obtain ⟨t₆, htime, h⟩ := Option.bind_eq_some_iff.mp h
    obtain ⟨⟨hour, t₇⟩, hhour, h⟩ := Option.bind_eq_some_iff.mp h
    obtain ⟨t₈, hcolon₁, h⟩ := Option.bind_eq_some_iff.mp h
    obtain ⟨⟨minute, t₉⟩, hminute, h⟩ := Option.bind_eq_some_iff.mp h
    obtain ⟨t₁₀, hcolon₂, h⟩ := Option.bind_eq_some_iff.mp h
    obtain ⟨⟨second, t₁₁⟩, hsecond, h⟩ := Option.bind_eq_some_iff.mp h
    obtain ⟨⟨fraction, zulu⟩, hfraction, h⟩ := Option.bind_eq_some_iff.mp h
    obtain ⟨hzulu, hp⟩ := Option.ite_none_right_eq_some.mp h
    cases hp
    rw [expect_eq_some] at hdash₁ hdash₂ htime hcolon₁ hcolon₂
    rw [twoDigits_eq_some] at hmonth hday hhour hminute hsecond
    obtain ⟨hmonthText, hmonth⟩ := hmonth
    obtain ⟨hdayText, hday⟩ := hday
    obtain ⟨hhourText, hhour⟩ := hhour
    obtain ⟨hminuteText, hminute⟩ := hminute
    obtain ⟨hsecondText, hsecond⟩ := hsecond
    subst hdash₁ hmonthText hdash₂ hdayText htime hhourText hcolon₁ hminuteText hcolon₂ hsecondText
    obtain ⟨rfl, hsigned⟩ := (yearDigits_eq_some (hdash _)).mp hyear
    obtain ⟨htail, hmicros⟩ := (fractionDigits_eq_some hzulu).mp hfraction
    rw [htail]
    exact ⟨⟨hsigned, hmonth, hday, hhour, hminute, hsecond, hmicros⟩, zulu, hzulu, rfl⟩
  · rintro ⟨h, zulu, hzulu, rfl⟩
    have hyear (r : Text) := (yearDigits_eq_some (hdash r)).mpr ⟨rfl, h.year⟩
    have hfraction := (fractionDigits_eq_some hzulu).mpr ⟨rfl, h.fraction⟩
    have hpair {ds r : Text} (hds : IsPair ds) := twoDigits_eq_some.mpr ⟨@rfl _ (ds ++ r), hds⟩
    have hexpect (c : CodeUnit) (r : Text) := expect_eq_some.mpr (@rfl _ (c :: r))
    refine Option.bind_eq_some_iff.mpr ⟨_, hyear _, ?_⟩
    refine Option.bind_eq_some_iff.mpr ⟨_, hexpect 45 _, ?_⟩
    refine Option.bind_eq_some_iff.mpr ⟨_, hpair h.month, ?_⟩
    refine Option.bind_eq_some_iff.mpr ⟨_, hexpect 45 _, ?_⟩
    refine Option.bind_eq_some_iff.mpr ⟨_, hpair h.day, ?_⟩
    refine Option.bind_eq_some_iff.mpr ⟨_, hexpect 84 _, ?_⟩
    refine Option.bind_eq_some_iff.mpr ⟨_, hpair h.hour, ?_⟩
    refine Option.bind_eq_some_iff.mpr ⟨_, hexpect 58 _, ?_⟩
    refine Option.bind_eq_some_iff.mpr ⟨_, hpair h.minute, ?_⟩
    refine Option.bind_eq_some_iff.mpr ⟨_, hexpect 58 _, ?_⟩
    refine Option.bind_eq_some_iff.mpr ⟨_, hpair h.second, ?_⟩
    refine Option.bind_eq_some_iff.mpr ⟨_, hfraction, ?_⟩
    exact if_pos hzulu

end TimestampPattern

/-! ### The date that is read -/

theorem number_pair {ds : Text} (h : TimestampPattern.IsPair ds) : number ds = digitsValue ds := by
  obtain ⟨hlength, hdigits⟩ := h
  have hsign (c : CodeUnit) (hc : isDigit c = false) : ds.head? ≠ some c := by
    intro hhead
    rw [hdigits c (List.mem_of_mem_head? hhead)] at hc
    cases hc
  rw [number, if_neg (hsign 45 (by decide)), if_neg (hsign 43 (by decide))]

theorem number_pair_nonneg {ds : Text} (h : TimestampPattern.IsPair ds) : 0 ≤ number ds := by
  rw [number_pair h]
  exact Int.natCast_nonneg _

namespace Parts

variable {p : Parts}

theorem makeDay_eq (p : Parts) :
    makeDay (number p.year) (number p.month - 1) (number p.day) = p.epochDay := by
  have hmonth : ((number p.month - 1) % 12).toNat < 12 := by omega
  rw [makeDay, epochDay, dayNumber, dayFromYear_eq, monthStart_eq _ hmonth]

theorem secondOfDay_nonneg (h : TimestampPattern.Groups p) : 0 ≤ p.secondOfDay := by
  have hhour := number_pair_nonneg h.hour
  have hminute := number_pair_nonneg h.minute
  have hsecond := number_pair_nonneg h.second
  rw [secondOfDay]
  omega

/-- The milliseconds of the date and the time of day, where the host has such a date. -/
theorem setUTC_eq (h : TimestampPattern.Groups p) :
    setUTCHours (setUTCFullYear (some 0) (number p.year) (number p.month - 1) (number p.day))
        (number p.hour) (number p.minute) (number p.second) 0 =
      if p.InRange then some ((p.epochDay * 86400 + p.secondOfDay) * 1000) else none := by
  have hnonneg := secondOfDay_nonneg h
  have htime : makeTime (number p.hour) (number p.minute) (number p.second) 0 =
      p.secondOfDay * 1000 := by
    rw [makeTime, secondOfDay]
    omega
  have hday : (some 0 : HostDate).getD 0 % msPerDay = 0 := by decide
  rw [setUTCFullYear, makeDay_eq, hday, add_zero, timeClip]
  unfold msPerDay
  by_cases hclip : (p.epochDay * 86400000).natAbs ≤ 8640000000000000
  · rw [if_pos hclip, setUTCHours, Option.bind_some, htime, timeClip]
    unfold msPerDay
    rw [Int.mul_ediv_cancel _ (by decide)]
    have hsum : p.epochDay * 86400000 + p.secondOfDay * 1000 =
        (p.epochDay * 86400 + p.secondOfDay) * 1000 := by omega
    rw [hsum]
    exact if_congr (by unfold InRange; omega) rfl rfl
  · rw [if_neg hclip, setUTCHours, Option.bind_none, if_neg (by unfold InRange; omega)]

/-- A month of the year is no month of another year. -/
theorem micros_eq (h : p.Valid) : p.micros =
    (p.epochDay * 86400 + p.secondOfDay) * 1000000 +
      digitsValue p.fraction * 10 ^ (6 - p.fraction.length) := by
  obtain ⟨hfirst, hlast⟩ := h.month
  have hyear : (number p.month - 1) / 12 = 0 := by omega
  have hmonth : (number p.month - 1) % 12 = number p.month - 1 := by omega
  rw [micros, epochDay, hyear, hmonth, add_zero]

end Parts

theorem epochMicros_eq_none {t : Text} (h : TimestampPattern.exec t = none) :
    epochMicros t = .ok none := by
  rw [epochMicros, h]

theorem epochMicros_eq_ok {t : Text} {p : Parts} (h : TimestampPattern.exec t = some p)
    (hrange : p.InRange) :
    epochMicros t = .ok (some (intText ((p.epochDay * 86400 + p.secondOfDay) * 1000000 +
      digitsValue p.fraction * 10 ^ (6 - p.fraction.length)))) := by
  have hgroups := (TimestampPattern.exec_eq_some_iff.mp h).1
  rw [epochMicros, h]
  dsimp only
  rw [Parts.setUTC_eq hgroups, if_pos hrange]
  dsimp only
  rw [CellFormatter.digitsValue_padEnd]
  unfold MicrosPerMilli MicrosecondDigits
  rw [mul_assoc]
  push_cast
  rfl

theorem epochMicros_throws {t : Text} {p : Parts} (h : TimestampPattern.exec t = some p)
    (hrange : ¬p.InRange) : ∀ r, epochMicros t ≠ .ok r := by
  have hgroups := (TimestampPattern.exec_eq_some_iff.mp h).1
  rw [epochMicros, h]
  dsimp only
  rw [Parts.setUTC_eq hgroups, if_neg hrange]
  intro r hr
  cases hr

/-! ### The result -/

/-- What the pattern matches is read exactly where the host has such a date, else it throws. -/
theorem epochMicros_meets_iff (t : Text) :
    Meets t ↔ ∀ p, TimestampPattern.exec t = some p → p.InRange := by
  constructor
  · rintro ⟨⟨r, hr⟩, _⟩ p hp
    by_contra hrange
    exact epochMicros_throws hp hrange r hr
  · intro hrange
    cases hp : TimestampPattern.exec t with
    | none =>
        refine ⟨⟨none, epochMicros_eq_none hp⟩, fun p hp' => ?_⟩
        rw [hp] at hp'
        cases hp'
    | some p =>
        have hok := epochMicros_eq_ok hp (hrange p hp)
        refine ⟨⟨_, hok⟩, fun q hq hvalid _ => ?_⟩
        rw [hp] at hq
        obtain rfl := Option.some.inj hq
        rw [hok, ← Parts.micros_eq hvalid]

def farYear : Parts :=
  ⟨text "+280000", text "01", text "01", text "00", text "00", text "00", []⟩

theorem farYear_fits : farYear.Fits := by
  have hday : daysBefore (number farYear.year) = 101548372 := by
    rw [← dayFromYear_eq]
    decide
  have hmicros : farYear.micros = 101548372 * 86400 * 1000000 := by
    rw [Parts.micros, dayNumber, hday]
    decide
  rw [Parts.Fits, hmicros]
  decide

/-- The first day of the year 280000 fits the engine's times and is no date of the host. -/
theorem far_year_throws : (∃ p, TimestampPattern.exec (text "+280000-01-01T00:00:00") = some p ∧
    p.Valid ∧ p.Fits) ∧ ¬Meets (text "+280000-01-01T00:00:00") := by
  refine ⟨⟨farYear, by decide, ⟨?_, ?_, ?_, ?_, ?_⟩, farYear_fits⟩, ?_⟩
  iterate 5 decide
  rintro ⟨⟨r, hr⟩, _⟩
  have hthrows : epochMicros (text "+280000-01-01T00:00:00") = .error
      (text "The number NaN cannot be converted to a BigInt because it is not an integer") := by
    decide
  rw [hthrows] at hr
  cases hr

end WireTools.ValueInspector
