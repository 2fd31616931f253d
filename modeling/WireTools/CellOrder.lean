import Mathlib.Algebra.Order.Field.Rat
import Mathlib.Data.Int.ConditionallyCompleteOrder
import Mathlib.Data.List.Lex
import Mathlib.Data.List.TakeWhile
import Mathlib.Tactic.FieldSimp
import Mathlib.Tactic.Linarith
import Mathlib.Tactic.Ring
import WireTools.CellFormatter
import WireTools.Outcome

/-! # The order of a column's cells

`compareSortKeys` against the orders it stands for.

* `decimalValue` is the number a decimal text spells; integers and decimals of any length compare
  as these numbers (`compareDecimal_eq`, `bigInt_eq`);
* texts, booleans and assets compare by a key in a linear order;
* floats compare as numbers where both are numbers and as texts elsewhere, and that is a preorder
  exactly on the sets of cells that are `Untangled`;
* `preordered_iff`: the keys of a set of cells, of a column of any type. -/

namespace WireTools

open Json (digitsValue)
open QueryResultPatterns Outcome

namespace CellFormatter

/-! ### Decimals -/

/-- The number that digits with a point among them spell. -/
def unsignedValue (t : Text) : ℚ :=
  digitsValue (integerPart t) + digitsValue (fractionPart t) / 10 ^ (fractionPart t).length

/-- The number a decimal text spells. -/
def decimalValue (t : Text) : ℚ :=
  if t.head? = some 45 then -unsignedValue (unsign t) else unsignedValue (unsign t)

theorem decimalValue_minus (t : Text) : decimalValue (45 :: t) = -unsignedValue t := rfl

theorem decimalValue_plain {t : Text} (h : t.head? ≠ some 45) :
    decimalValue t = unsignedValue t := by
  cases t with
  | nil => rfl
  | cons c t =>
      have hc : c ≠ 45 := by simpa using h
      rw [decimalValue, if_neg h, unsign, if_neg hc]

theorem unsign_plain {t : Text} (h : t.head? ≠ some 45) : unsign t = t := by
  cases t with
  | nil => rfl
  | cons c t => exact if_neg (by simpa using h)

theorem digitsValue_append (s t : Text) :
    digitsValue (s ++ t) = digitsValue s * 10 ^ t.length + digitsValue t := by
  induction t using List.reverseRecOn with
  | nil => simp [digitsValue]
  | append_singleton t c ih =>
      rw [← List.append_assoc, digitsValue, List.foldl_append, ← digitsValue, ih, digitsValue,
        digitsValue, digitsValue, List.foldl_append, List.length_append]
      simp only [List.foldl_cons, List.foldl_nil, List.length_singleton, pow_succ]
      ring

theorem digitsValue_zeros (n : ℕ) : digitsValue (List.replicate n 48) = 0 := by
  induction n with
  | zero => rfl
  | succ n ih =>
      rw [List.replicate_succ', digitsValue_append, ih]
      rfl

theorem digitsValue_padEnd (t : Text) (n : ℕ) :
    digitsValue (padEnd t n) = digitsValue t * 10 ^ (n - t.length) := by
  rw [padEnd, digitsValue_append, digitsValue_zeros, List.length_replicate, Nat.add_zero]

theorem length_padEnd {t : Text} {n : ℕ} (h : t.length ≤ n) : (padEnd t n).length = n := by
  rw [padEnd, List.length_append, List.length_replicate]
  omega

theorem integerPart_minus (t : Text) : integerPart (45 :: t) = 45 :: integerPart t := rfl

theorem fractionPart_minus (t : Text) : fractionPart (45 :: t) = fractionPart t := rfl

theorem bigInt_minus (t : Text) : bigInt (45 :: t) = -(digitsValue t : ℤ) := rfl

theorem bigInt_plain {t : Text} (h : t.head? ≠ some 45) : bigInt t = digitsValue t := by
  cases t with
  | nil => rfl
  | cons c t =>
      have hc : c ≠ 45 := by simpa using h
      simp [bigInt, hc]

/-- A decimal has digits before its point. -/
theorem integerPart_digit {t : Text} (h : unsignedDecimal (integerPart t) = true) :
    ∃ c rest, integerPart t = c :: rest ∧ isDigit c = true := by
  cases hint : integerPart t with
  | nil =>
      rw [hint] at h
      cases h
  | cons c rest =>
      refine ⟨c, rest, rfl, ?_⟩
      rw [hint, unsignedDecimal] at h
      split_ifs at h with hc
      · rw [hc]
        decide
      · exact (Bool.and_eq_true_iff.mp h).1

/-- The digits of a decimal, with its fraction filled up to `scale` digits. -/
theorem digitsValue_scaled {t : Text} {scale : ℕ} (h : (fractionPart t).length ≤ scale) :
    (digitsValue (integerPart t ++ padEnd (fractionPart t) scale) : ℚ) =
      unsignedValue t * 10 ^ scale := by
  obtain ⟨k, rfl⟩ := Nat.exists_eq_add_of_le h
  rw [digitsValue_append, length_padEnd h, digitsValue_padEnd, Nat.add_sub_cancel_left,
    unsignedValue]
  push_cast
  field_simp
  ring

/-- What `compareDecimal` subtracts is the number, scaled. -/
theorem bigInt_scaled {t : Text} (h : signedDecimal t = true) {scale : ℕ}
    (hscale : (fractionPart t).length ≤ scale) :
    (bigInt (integerPart t ++ padEnd (fractionPart t) scale) : ℚ) =
      decimalValue t * 10 ^ scale := by
  have hint : unsignedDecimal (integerPart (unsign t)) = true := (Bool.and_eq_true_iff.mp h).1
  by_cases hminus : t.head? = some 45
  · obtain ⟨u, rfl⟩ := List.head?_eq_some_iff.mp hminus
    have hscaled := digitsValue_scaled (t := u) hscale
    rw [integerPart_minus, fractionPart_minus, List.cons_append, bigInt_minus, decimalValue_minus,
      neg_mul, ← hscaled, Int.cast_neg, Int.cast_natCast]
  · obtain ⟨c, rest, hcons, hdigit⟩ := integerPart_digit hint
    rw [unsign_plain hminus] at hcons
    have hhead : (integerPart t ++ padEnd (fractionPart t) scale).head? ≠ some 45 := by
      rw [hcons, List.cons_append, List.head?_cons]
      rintro ⟨⟩
      cases hdigit
    rw [bigInt_plain hhead, decimalValue_plain hminus, ← digitsValue_scaled hscale,
      Int.cast_natCast]

theorem compareDecimal_eq {s t : Text} (hs : signedDecimal s = true) (ht : signedDecimal t = true) :
    compareDecimal s t = byKey decimalValue s t := by
  have hpow : (0 : ℚ) < 10 ^ max (fractionPart s).length (fractionPart t).length := by positivity
  have hscaled := bigInt_scaled hs (le_max_left _ (fractionPart t).length)
  have hscaled' := bigInt_scaled ht (le_max_right (fractionPart s).length _)
  rw [compareDecimal, Double.sign_sub_eq_byKey, byKey, byKey]
  simp only [id_eq, ← @Int.cast_lt ℚ, hscaled, hscaled', mul_lt_mul_iff_left₀ hpow]

theorem isDigit_of_unsignedDecimal {t : Text} (h : unsignedDecimal t = true) :
    ∀ c ∈ t, isDigit c = true := by
  intro c hc
  cases t with
  | nil => cases hc
  | cons d t =>
      rw [unsignedDecimal] at h
      split_ifs at h with hd
      · rw [List.isEmpty_iff.mp h, List.mem_singleton] at hc
        rw [hc, hd]
        decide
      · rw [Bool.and_eq_true, List.all_eq_true] at h
        rcases List.mem_cons.mp hc with rfl | hc
        · exact h.1
        · exact h.2 c hc

/-- Digits without a point. -/
theorem unsignedValue_digits {t : Text} (h : ∀ c ∈ t, isDigit c = true) :
    unsignedValue t = digitsValue t := by
  have hpoint : ∀ c ∈ t, decide (c ≠ 46) = true := by
    intro c hc
    refine decide_eq_true ?_
    rintro rfl
    exact absurd (h 46 hc) (by decide)
  have hint : integerPart t = t := List.takeWhile_eq_self_iff.mpr hpoint
  have hdrop : t.dropWhile (· ≠ 46) = [] := List.dropWhile_eq_nil_iff.mpr hpoint
  rw [unsignedValue, hint, fractionPart, hdrop]
  simp [digitsValue]

/-- An integer text is a decimal without a fraction. -/
theorem bigInt_eq {t : Text} (h : signedInteger t = true) : (bigInt t : ℚ) = decimalValue t := by
  by_cases hminus : t.head? = some 45
  · obtain ⟨u, rfl⟩ := List.head?_eq_some_iff.mp hminus
    have hdigits : ∀ c ∈ u, isDigit c = true := isDigit_of_unsignedDecimal h
    rw [bigInt_minus, decimalValue_minus, unsignedValue_digits hdigits, Int.cast_neg,
      Int.cast_natCast]
  · rw [signedInteger, unsign_plain hminus] at h
    rw [bigInt_plain hminus, decimalValue_plain hminus,
      unsignedValue_digits (isDigit_of_unsignedDecimal h), Int.cast_natCast]

/-! ### Texts and assets -/

theorem units_injective {s t : Text} (h : units s = units t) : s = t :=
  List.map_injective_iff.mpr (fun _ _ => UInt16.toNat_inj.mp) h

theorem compareText_eq (s t : Text) : compareText s t = byKey units s t := by
  unfold compareText byKey
  congr

theorem compareText_self (s : Text) : compareText s s = 0 := by
  simp [compareText]

theorem compareText_ne {s t : Text} (h : s ≠ t) : compareText s t ≠ 0 := by
  rcases lt_trichotomy (units s) (units t) with hlt | heq | hgt
  · rw [compareText, if_pos hlt]
    decide
  · exact absurd (units_injective heq) h
  · rw [compareText, if_neg hgt.not_gt, if_pos hgt]
    decide

/-- The assets of decimal amounts. -/
theorem preordered_compareAsset :
    Preordered compareAsset {a | signedDecimal a.amount = true} := by
  have hsymbol := preordered_byKey (fun a : AssetCell => units a.symbol)
    {a | signedDecimal a.amount = true}
  have hamount := preordered_byKey (fun a : AssetCell => decimalValue a.amount)
    {a | signedDecimal a.amount = true}
  refine (hsymbol.thenBy hamount).congr fun x hx y hy => ?_
  have htext : byKey (fun a : AssetCell => units a.symbol) x y = compareText x.symbol y.symbol :=
    (compareText_eq _ _).symm
  rw [compareAsset, thenBy, htext]
  by_cases heq : x.symbol = y.symbol
  · rw [if_pos heq, heq, if_neg (not_not.mpr (compareText_self _))]
    exact compareDecimal_eq hx hy
  · rw [if_neg heq, if_pos (compareText_ne heq)]

/-! ### Floats -/

/-- The number a float cell decodes to, none when it does not decode or is no number. -/
def numberOf (hex : Text) : Option (WithBot (WithTop ℤ)) :=
  (decodeIeeeHex hex).bind fun x => if x = .nan then none else some x.rank

def hexKey (hex : Text) : IeeeHexSortKey :=
  ⟨hex, decodeIeeeHex hex⟩

/-- Numbers compare as numbers, anything else as text. -/
def compareHex (s t : Text) : ℤ :=
  compareIeeeHex (hexKey s) (hexKey t)

theorem compareHex_number {s t : Text} {x y : WithBot (WithTop ℤ)} (hs : numberOf s = some x)
    (ht : numberOf t = some y) : compareHex s t = byKey id x y := by
  obtain ⟨a, ha, hx⟩ := Option.bind_eq_some_iff.mp hs
  obtain ⟨b, hb, hy⟩ := Option.bind_eq_some_iff.mp ht
  rw [Option.ite_none_left_eq_some] at hx hy
  obtain ⟨hna, hx⟩ := hx
  obtain ⟨hnb, hy⟩ := hy
  cases hx
  cases hy
  rw [compareHex, compareIeeeHex, hexKey, hexKey]
  simp only [ha, hb]
  rw [if_pos ⟨hna, hnb⟩, Double.sign_sub hna hnb]
  rfl

theorem compareHex_text {s t : Text} (h : numberOf s = none ∨ numberOf t = none) :
    compareHex s t = byKey units s t := by
  have hnone : ∀ {u}, numberOf u = none → ∀ x, decodeIeeeHex u = some x → x = .nan := by
    intro u hu x hx
    by_contra hne
    rw [numberOf, hx, Option.bind_some, if_neg hne] at hu
    cases hu
  rw [compareHex, compareIeeeHex, hexKey, hexKey]
  cases hs : decodeIeeeHex s with
  | none => exact compareText_eq s t
  | some x =>
      cases ht : decodeIeeeHex t with
      | none => exact compareText_eq s t
      | some y =>
          simp only
          rw [if_neg, compareText_eq]
          rintro ⟨hx, hy⟩
          exact h.elim (fun h => hx (hnone h x hs)) fun h => hy (hnone h y ht)

/-- No cell that is no number stands, by its text, between two numbers that are not in the order
of their texts. -/
def Untangled (S : Set Text) : Prop :=
  ∀ s ∈ S, ∀ t ∈ S, ∀ u ∈ S, ∀ x y, numberOf s = some x → numberOf t = none →
    numberOf u = some y → units s < units t → units t < units u → x < y

/-- The texts of numbers and of what is no number differ. -/
theorem units_ne {s t : Text} {x : WithBot (WithTop ℤ)} (hs : numberOf s = some x)
    (ht : numberOf t = none) : units s ≠ units t := by
  intro heq
  rw [units_injective heq, ht] at hs
  cases hs

theorem compareHex_skew (s t : Text) : compareHex t s = -compareHex s t := by
  cases hs : numberOf s with
  | none => rw [compareHex_text (Or.inl hs), compareHex_text (Or.inr hs), byKey_swap]
  | some x =>
      cases ht : numberOf t with
      | none => rw [compareHex_text (Or.inr ht), compareHex_text (Or.inl ht), byKey_swap]
      | some y => rw [compareHex_number hs ht, compareHex_number ht hs, byKey_swap]

/-- The floats of a set are in a total preorder exactly when they are untangled. -/
theorem preordered_compareHex {S : Set Text} : Preordered compareHex S ↔ Untangled S := by
  constructor
  · intro h s hs t ht u hu x y hx hn hy hst htu
    have hlt : compareHex s t < 0 := by
      rw [compareHex_text (Or.inr hn)]
      exact byKey_neg.mpr hst
    have hlt' : compareHex t u < 0 := by
      rw [compareHex_text (Or.inl hn)]
      exact byKey_neg.mpr htu
    have hnumbers := h.lt_of_lt_of_le hs ht hu hlt hlt'.le
    rw [compareHex_number hx hy] at hnumbers
    exact byKey_neg.mp hnumbers
  · intro h
    refine ⟨fun s _ t _ => compareHex_skew s t, fun s hs t ht u hu hst htu => ?_⟩
    cases hx : numberOf s with
    | none =>
        rw [compareHex_text (Or.inl hx), byKey_nonpos] at hst ⊢
        cases hy : numberOf t with
        | none =>
            rw [compareHex_text (Or.inl hy), byKey_nonpos] at htu
            exact hst.trans htu
        | some y =>
            cases hz : numberOf u with
            | none =>
                rw [compareHex_text (Or.inr hz), byKey_nonpos] at htu
                exact hst.trans htu
            | some z =>
                -- The text of `u` before that of `s` would put `u` before `t`.
                rw [compareHex_number hy hz, byKey_nonpos] at htu
                by_contra hus
                have hlt := lt_of_le_of_ne hst (units_ne hy hx).symm
                exact absurd (h u hu s hs t ht z y hz hx hy (not_le.mp hus) hlt) (not_lt.mpr htu)
    | some x =>
        cases hy : numberOf t with
        | none =>
            rw [compareHex_text (Or.inr hy), byKey_nonpos] at hst
            rw [compareHex_text (Or.inl hy), byKey_nonpos] at htu
            cases hz : numberOf u with
            | none =>
                rw [compareHex_text (Or.inr hz), byKey_nonpos]
                exact hst.trans htu
            | some z =>
                have hlt := lt_of_le_of_ne hst (units_ne hx hy)
                have hlt' := lt_of_le_of_ne htu (units_ne hz hy).symm
                rw [compareHex_number hx hz, byKey_nonpos]
                exact (h s hs t ht u hu x z hx hy hz hlt hlt').le
        | some y =>
            rw [compareHex_number hx hy, byKey_nonpos] at hst
            cases hz : numberOf u with
            | none =>
                rw [compareHex_text (Or.inr hz), byKey_nonpos] at htu ⊢
                by_contra hus
                have hlt := lt_of_le_of_ne htu (units_ne hy hz)
                exact absurd (h t ht u hu s hs y x hy hz hx hlt (not_le.mp hus)) (not_lt.mpr hst)
            | some z =>
                rw [compareHex_number hy hz, byKey_nonpos] at htu
                rw [compareHex_number hx hz, byKey_nonpos]
                exact hst.trans htu

/-! ### Keys -/

variable {b : Builtins} {column : QueryColumn} {v : CellValue} {k : CellSortKey}

theorem formatWhere_ok {pattern : Text → Bool} {t : Text} :
    formatWhere column v pattern = .ok t ↔ v = .string t ∧ pattern t = true := by
  unfold formatWhere
  cases v with
  | string s =>
      simp only [CellValue.asText]
      split_ifs with hs
      · constructor
        · rintro ⟨⟩
          exact ⟨rfl, hs⟩
        · rintro ⟨⟨⟩, _⟩
          rfl
      · constructor
        · exact nofun
        · rintro ⟨⟨⟩, ht⟩
          exact absurd ht hs
  | _ => exact ⟨nofun, nofun⟩

/-- The keys of a set of cells. -/
def keysOf (b : Builtins) (column : QueryColumn) (S : Set CellValue) : Set CellSortKey :=
  {k | ∃ v ∈ S, sortKey b column v = .ok k}

theorem sortKey_null (h : v.isNull = true) : sortKey b column v = .ok .null :=
  if_pos h

theorem sortKey_typed (h : v.isNull = false) : sortKey b column v = typedKey b column v := by
  rw [sortKey, h]
  rfl

/-- A key that is not null is the key of its type. -/
theorem typedKey_of_nonnull (h : sortKey b column v = .ok k) (hk : k.isNull = false) :
    v.isNull = false ∧ typedKey b column v = .ok k := by
  cases hv : v.isNull with
  | true =>
      rw [sortKey_null hv] at h
      cases h
      cases hk
  | false => exact ⟨rfl, (sortKey_typed hv).symm.trans h⟩

theorem amount_of_safeParse {a : AssetCell} (h : AssetCell.safeParse v = some a) :
    signedDecimal a.amount = true := by
  cases v with
  | record fields =>
      simp only [AssetCell.safeParse, Option.bind_eq_bind, Option.bind_eq_some_iff,
        Option.guard_eq_some'] at h
      obtain ⟨amount, _, _, hamount, symbol, _, precision, _, _, _, h⟩ := h
      cases hcontract : fields.lookup (text "contract") with
      | none =>
          rw [hcontract] at h
          cases h
          exact hamount
      | some contract =>
          rw [hcontract] at h
          obtain ⟨t, _, rfl⟩ := Option.map_eq_some_iff.mp h
          exact hamount
  | _ => cases h

theorem assertAsset_ok {a : AssetCell} (h : assertAsset column v = .ok a) :
    AssetCell.safeParse v = some a := by
  unfold assertAsset at h
  cases hparse : AssetCell.safeParse v with
  | none =>
      rw [hparse] at h
      cases h
  | some a' =>
      rw [hparse] at h
      cases h
      rfl

/-- A type whose keys are texts. -/
theorem preordered_texts
    (hkey : ∀ v, typedKey b column v = (canonical b column v).map .text)
    (hcmp : ∀ s t, compareTyped column (.text s) (.text t) = compareText s t) :
    Preordered (compareTyped column) {k | ∃ v, typedKey b column v = .ok k} := by
  refine (preordered_byKey units Set.univ).image .text ?_ fun s t => ?_
  · rintro k ⟨v, hv⟩
    rw [hkey] at hv
    obtain ⟨t, _, rfl⟩ := except_map_eq_ok hv
    exact ⟨t, trivial, rfl⟩
  · rw [hcmp, compareText_eq]

/-- A type whose keys are assets. -/
theorem preordered_assets
    (hkey : ∀ v, typedKey b column v = (assertAsset column v).map .asset)
    (hcmp : ∀ x y, compareTyped column (.asset x) (.asset y) = compareAsset x y) :
    Preordered (compareTyped column) {k | ∃ v, typedKey b column v = .ok k} := by
  refine preordered_compareAsset.image .asset ?_ hcmp
  rintro k ⟨v, hv⟩
  rw [hkey] at hv
  obtain ⟨a, ha, rfl⟩ := except_map_eq_ok hv
  exact ⟨a, amount_of_safeParse (assertAsset_ok ha), rfl⟩

theorem boolNumber_sub (x y : Bool) : boolNumber x - boolNumber y = byKey boolNumber x y := by
  cases x with
  | true =>
      cases y with
      | true => rfl
      | false => rfl
  | false =>
      cases y with
      | true => rfl
      | false => rfl

/-- Every type but the floats compares its cells by a total preorder. -/
theorem preordered_typed (hl : column.logicalType ≠ .ieee_hex) :
    Preordered (compareTyped column) {k | ∃ v, typedKey b column v = .ok k} := by
  cases hcase : column.logicalType with
  | ieee_hex => exact absurd hcase hl
  | integer =>
      refine (preordered_byKey id Set.univ).image .integer ?_ fun x y => ?_
      · rintro k ⟨v, hv⟩
        rw [typedKey, hcase] at hv
        obtain ⟨t, _, rfl⟩ := except_map_eq_ok hv
        exact ⟨bigInt t, trivial, rfl⟩
      · rw [compareTyped, hcase]
        exact Double.sign_sub_eq_byKey x y
  | decimal =>
      have hdecimal := (preordered_byKey decimalValue {t | signedDecimal t = true}).congr
        fun s hs t ht => compareDecimal_eq hs ht
      refine hdecimal.image .text ?_ fun s t => ?_
      · rintro k ⟨v, hv⟩
        rw [typedKey, hcase] at hv
        obtain ⟨t, ht, rfl⟩ := except_map_eq_ok hv
        exact ⟨t, (formatWhere_ok.mp ht).2, rfl⟩
      · rw [compareTyped, hcase]
  | boolean =>
      refine (preordered_byKey boolNumber Set.univ).image .boolean ?_ fun x y => ?_
      · rintro k ⟨v, hv⟩
        rw [typedKey, hcase] at hv
        obtain ⟨t, _, rfl⟩ := except_map_eq_ok hv
        exact ⟨_, trivial, rfl⟩
      · rw [compareTyped, hcase]
        exact boolNumber_sub x y
  | asset =>
      refine preordered_assets (fun v => ?_) fun x y => ?_
      · rw [typedKey, hcase]
      · rw [compareTyped, hcase]
  | extended_asset =>
      refine preordered_assets (fun v => ?_) fun x y => ?_
      · rw [typedKey, hcase]
      · rw [compareTyped, hcase]
  | text =>
      refine preordered_texts (fun v => ?_) fun s t => ?_
      · rw [typedKey, hcase]
      · rw [compareTyped, hcase]
  | time =>
      refine preordered_texts (fun v => ?_) fun s t => ?_
      · rw [typedKey, hcase]
      · rw [compareTyped, hcase]
  | json =>
      refine preordered_texts (fun v => ?_) fun s t => ?_
      · rw [typedKey, hcase]
      · rw [compareTyped, hcase]
  | enumeration =>
      refine preordered_texts (fun v => ?_) fun s t => ?_
      · rw [typedKey, hcase]
      · rw [compareTyped, hcase]

/-- The texts among cells. -/
def textsOf (S : Set CellValue) : Set Text :=
  {t | .string t ∈ S}

/-- The keys of a set of cells that match their column, of any type: a total preorder, but for
floats that are tangled. -/
theorem preordered_iff {S : Set CellValue} (hS : ∀ v ∈ S, matchesEncoding column v = true) :
    Preordered (compareSortKeys column) (keysOf b column S) ↔
      (column.logicalType = .ieee_hex → Untangled (textsOf S)) := by
  constructor
  · intro h hl
    rw [← preordered_compareHex]
    have hkeys : ∀ t ∈ textsOf S, CellSortKey.ieee (hexKey t) ∈ keysOf b column S := by
      intro t ht
      have hmatch := hS _ ht
      rw [matchesEncoding, hl] at hmatch
      refine ⟨_, ht, ?_⟩
      rw [sortKey_typed rfl, typedKey, hl]
      change (formatWhere column (.string t) ieeeHex).map _ = _
      rw [formatWhere_ok.mpr ⟨rfl, hmatch⟩]
      rfl
    refine (h.comap (fun t => .ieee (hexKey t)) hkeys).congr fun s _ t _ => ?_
    change compareHex s t = compareTyped column (.ieee (hexKey s)) (.ieee (hexKey t))
    rw [compareTyped, hl]
    rfl
  · intro h
    refine Preordered.nullsLast ?_
    by_cases hl : column.logicalType = .ieee_hex
    · refine (preordered_compareHex.mpr (h hl)).image (fun t => .ieee (hexKey t)) ?_ fun s t => ?_
      · rintro k ⟨⟨v, hv, hk⟩, hnonnull⟩
        obtain ⟨_, hk⟩ := typedKey_of_nonnull hk hnonnull
        rw [typedKey, hl] at hk
        obtain ⟨t, ht, rfl⟩ := except_map_eq_ok hk
        obtain ⟨rfl, _⟩ := formatWhere_ok.mp ht
        exact ⟨t, hv, rfl⟩
      · rw [compareTyped, hl]
        rfl
    · refine (preordered_typed (b := b) hl).subset ?_
      rintro k ⟨⟨v, _, hk⟩, hnonnull⟩
      exact ⟨v, (typedKey_of_nonnull hk hnonnull).2⟩

/-- Integers and decimals of any length compare as the numbers they spell. -/
theorem compare_number (hl : column.logicalType = .integer ∨ column.logicalType = .decimal)
    {s t : Text} (hs : matchesEncoding column (.string s) = true)
    (ht : matchesEncoding column (.string t) = true) :
    compare b column (.string s) (.string t) = .ok (byKey decimalValue s t) := by
  rw [compare, sortKey_typed rfl, sortKey_typed rfl, typedKey, typedKey]
  rcases hl with hl | hl
  · rw [matchesEncoding, hl] at hs ht
    have hreads : ∀ {u : Text}, signedInteger u = true →
        formatInteger column (.string u) = .ok u := fun hu => formatWhere_ok.mpr ⟨rfl, hu⟩
    rw [hl]
    simp only [hreads hs, hreads ht]
    change Except.ok (compareTyped column (.integer (bigInt s)) (.integer (bigInt t))) = _
    rw [compareTyped, hl]
    simp only
    rw [Double.sign_sub_eq_byKey, byKey, byKey]
    simp only [id_eq, ← @Int.cast_lt ℚ, bigInt_eq hs, bigInt_eq ht]
  · rw [matchesEncoding, hl] at hs ht
    have hreads : ∀ {u : Text}, signedDecimal u = true →
        formatDecimal column (.string u) = .ok u := fun hu => formatWhere_ok.mpr ⟨rfl, hu⟩
    rw [hl]
    simp only [hreads hs, hreads ht]
    change Except.ok (compareTyped column (.text s) (.text t)) = _
    rw [compareTyped, hl, ← compareDecimal_eq hs ht]

end CellFormatter

end WireTools
