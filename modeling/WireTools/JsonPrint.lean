import WireTools.Json
import Mathlib.Tactic.Ring

/-! # Printing JSON, and reading it back

`Json.print` writes a value the way the source's `JSON.stringify` does with an indent of two:
every item and member on its own line, a string quoted with the short escapes, control
characters and lone surrogates as `\uXXXX`.  The numbers it writes are integers
(`Json.Integral`), the only ones the tools persist.

`parse_stringify` is the round trip: what is printed parses to the value itself.  It is assembled
from one lemma per token (`readString_quote`, `readNumber_print`) and one per constructor of a
value, by recursion on the value (`readValue_print`). -/

namespace WireTools

/-! ### Integers -/

/-- The code unit of a decimal digit. -/
def digitUnit (c : Char) : CodeUnit := UInt16.ofNat c.toNat

/-- The decimal digits of a natural number. -/
def natText (n : ℕ) : Text :=
  (Nat.toDigits 10 n).map digitUnit

/-- The digits of a number that may be negative. -/
def intText : ℤ → Text
  | .ofNat n => natText n
  | .negSucc n => 45 :: natText (n + 1)

namespace Decimal

/-- The decimal of an integer. -/
def ofInt (i : Int) : Decimal :=
  ⟨decide (i < 0), i.natAbs, 0⟩

/-- The integer a decimal is, none when it is none.  Below 2^53, as every integer the tools
persist is, it is the double too. -/
def toInt? (d : Decimal) : Option Int :=
  if d.exact.den = 1 then some d.exact.num else none

theorem exact_ofInt (i : Int) : (ofInt i).exact = i := by
  unfold exact ofInt
  by_cases h : i < 0
  · have habs : (i.natAbs : Int) = -i := by omega
    rw [← Int.cast_natCast (R := Rat), habs]
    simp [h]
  · have habs : (i.natAbs : Int) = i := by omega
    rw [← Int.cast_natCast (R := Rat), habs]
    simp [h]

theorem toInt?_ofInt (i : Int) : (ofInt i).toInt? = some i := by
  unfold toInt?
  rw [exact_ofInt]
  simp

/-- An integer as it is printed. -/
def print (d : Decimal) : Text :=
  (if d.negative then [45] else []) ++ natText d.digits

end Decimal

namespace Json

/-! ### Strings -/

def isHighSurrogate (c : CodeUnit) : Bool := 0xD800 ≤ c && c ≤ 0xDBFF

def isLowSurrogate (c : CodeUnit) : Bool := 0xDC00 ≤ c && c ≤ 0xDFFF

/-- The lower-case hexadecimal digit of `n < 16`. -/
def hexDigit (n : ℕ) : CodeUnit :=
  UInt16.ofNat (if n < 10 then 48 + n else 87 + n)

/-- A code unit as a `\uXXXX` escape. -/
def unicodeEscape (c : CodeUnit) : Text :=
  [92, 117, hexDigit (c.toNat / 4096), hexDigit (c.toNat / 256 % 16),
    hexDigit (c.toNat / 16 % 16), hexDigit (c.toNat % 16)]

/-- A code unit of a string as it is printed, outside a surrogate pair. -/
def escapeUnit (c : CodeUnit) : Text :=
  if c = 34 then [92, 34]
  else if c = 92 then [92, 92]
  else if c = 8 then [92, 98]
  else if c = 12 then [92, 102]
  else if c = 10 then [92, 110]
  else if c = 13 then [92, 114]
  else if c = 9 then [92, 116]
  else if c < 32 || isHighSurrogate c || isLowSurrogate c then unicodeEscape c
  else [c]

/-- A string as it is printed between its quotes. -/
def escape : Text → Text
  | [] => []
  | [c] => escapeUnit c
  | c :: d :: s =>
    if isHighSurrogate c && isLowSurrogate d then c :: d :: escape s
    else escapeUnit c ++ escape (d :: s)

def quote (s : Text) : Text :=
  34 :: (escape s ++ [34])

/-! ### Values -/

/-- What one level of nesting adds to the indent. -/
def gap : Text := [blank, blank]

mutual

/-- A value printed at `indent`. -/
def print (indent : Text) : Json → Text
  | .null => text "null"
  | .bool true => text "true"
  | .bool false => text "false"
  | .number n => n.print
  | .string s => quote s
  | .array [] => [91, 93]
  | .array (v :: items) =>
      91 :: ((printItems (indent ++ gap) (v :: items)).tail ++ newline :: (indent ++ [93]))
  | .object [] => [123, 125]
  | .object (m :: members) =>
      123 :: ((printMembers (indent ++ gap) (m :: members)).tail ++ newline :: (indent ++ [125]))

/-- The items of an array, each on its line behind a comma; the first comma is not printed. -/
def printItems (indent : Text) : List Json → Text
  | [] => []
  | v :: items => 44 :: newline :: (indent ++ (print indent v ++ printItems indent items))

/-- The members of an object, each on its line behind a comma; the first comma is not
printed. -/
def printMembers (indent : Text) : List (Text × Json) → Text
  | [] => []
  | (name, v) :: members =>
      44 :: newline :: (indent ++ (quote name ++
        58 :: blank :: (print indent v ++ printMembers indent members)))

end

mutual

/-- Every number of the value is an integer. -/
def Integral : Json → Prop
  | .number n => ∃ i, n = Decimal.ofInt i
  | .array items => IntegralItems items
  | .object members => IntegralMembers members
  | _ => True

def IntegralItems : List Json → Prop
  | [] => True
  | v :: items => Integral v ∧ IntegralItems items

def IntegralMembers : List (Text × Json) → Prop
  | [] => True
  | (_, v) :: members => Integral v ∧ IntegralMembers members

end

/-- The value as `JSON.stringify(value, null, 2)` prints it. -/
def stringify (v : Json) : Text :=
  print [] v

/-! ### Reading a string back -/

theorem hexValue_hexDigit : ∀ n < 16, hexValue (hexDigit n) = some n := by
  decide

theorem hexUnit_unicodeEscape (c : CodeUnit) :
    hexUnit (hexDigit (c.toNat / 4096)) (hexDigit (c.toNat / 256 % 16))
      (hexDigit (c.toNat / 16 % 16)) (hexDigit (c.toNat % 16)) = some c := by
  have hc : c.toNat < 65536 := c.toNat_lt
  unfold hexUnit
  rw [hexValue_hexDigit _ (by omega), hexValue_hexDigit _ (by omega),
    hexValue_hexDigit _ (by omega), hexValue_hexDigit _ (by omega)]
  simp only [Option.bind_eq_bind, Option.bind_some, Option.some.injEq]
  rw [show c.toNat / 4096 * 4096 + c.toNat / 256 % 16 * 256 + c.toNat / 16 % 16 * 16 +
    c.toNat % 16 = c.toNat by omega]
  exact UInt16.ofNat_toNat

/-- A unit that is printed as it stands is read as it stands. -/
theorem readString_plain {c : CodeUnit} {t s rest : Text} (hquote : c ≠ 34) (hback : c ≠ 92)
    (hcontrol : ¬ c < 32) (h : readString t = some (s, rest)) :
    readString (c :: t) = some (c :: s, rest) := by
  rw [readString.eq_def]
  simp [hquote, hback, hcontrol, h]

theorem readString_simpleEscape {e u : CodeUnit} {t s rest : Text} (he : e ≠ 117)
    (hu : simpleEscape e = some u) (h : readString t = some (s, rest)) :
    readString (92 :: e :: t) = some (u :: s, rest) := by
  rw [readString.eq_def]
  simp [he, hu, h]

theorem readString_unicodeEscape {c : CodeUnit} {t s rest : Text}
    (h : readString t = some (s, rest)) :
    readString (unicodeEscape c ++ t) = some (c :: s, rest) := by
  unfold unicodeEscape
  simp only [List.cons_append, List.nil_append]
  rw [readString.eq_def]
  simp [hexUnit_unicodeEscape, h]

theorem readString_escapeUnit {c : CodeUnit} {t s rest : Text}
    (h : readString t = some (s, rest)) :
    readString (escapeUnit c ++ t) = some (c :: s, rest) := by
  unfold escapeUnit
  split_ifs with hquote hback hb hf hn hr ht hesc
  · rw [hquote]; exact readString_simpleEscape (by decide) (by decide) h
  · rw [hback]; exact readString_simpleEscape (by decide) (by decide) h
  · rw [hb]; exact readString_simpleEscape (by decide) (by decide) h
  · rw [hf]; exact readString_simpleEscape (by decide) (by decide) h
  · rw [hn]; exact readString_simpleEscape (by decide) (by decide) h
  · rw [hr]; exact readString_simpleEscape (by decide) (by decide) h
  · rw [ht]; exact readString_simpleEscape (by decide) (by decide) h
  · exact readString_unicodeEscape h
  · simp only [Bool.or_eq_true, decide_eq_true_eq, not_or] at hesc
    exact readString_plain hquote hback hesc.1.1 h

/-- Half of a surrogate pair is above every unit with a meaning in a string. -/
theorem readString_surrogate {c : CodeUnit} {t s rest : Text} (hc : 0xD800 ≤ c)
    (h : readString t = some (s, rest)) : readString (c :: t) = some (c :: s, rest) := by
  have hle := UInt16.le_iff_toNat_le.1 hc
  have hnat : 0xD800 ≤ c.toNat := by simpa using hle
  refine readString_plain ?_ ?_ ?_ h
  · rintro rfl; exact absurd hnat (by decide)
  · rintro rfl; exact absurd hnat (by decide)
  · intro hlt
    have hlt' := UInt16.lt_iff_toNat_lt.1 hlt
    have : c.toNat < 32 := by simpa using hlt'
    omega

theorem readString_closing (rest : Text) : readString (34 :: rest) = some ([], rest) := by
  rw [readString.eq_def]
  simp

/-- A printed string reads as itself. -/
theorem readString_escape (rest : Text) : ∀ s : Text,
    readString (escape s ++ 34 :: rest) = some (s, rest)
  | [] => readString_closing rest
  | [c] => by
      rw [escape]
      exact readString_escapeUnit (readString_closing rest)
  | c :: d :: s => by
      rw [escape]
      split_ifs with hpair
      · simp only [Bool.and_eq_true, isHighSurrogate, isLowSurrogate, decide_eq_true_eq] at hpair
        have hd : (0xD800 : CodeUnit) ≤ d := UInt16.le_trans (by decide) hpair.2.1
        exact readString_surrogate hpair.1.1 (readString_surrogate hd (readString_escape rest s))
      · rw [List.append_assoc]
        exact readString_escapeUnit (readString_escape rest (d :: s))

theorem readString_quote (s rest : Text) :
    quote s ++ rest = 34 :: (escape s ++ 34 :: rest) ∧
      readString (escape s ++ 34 :: rest) = some (s, rest) := by
  refine ⟨?_, readString_escape rest s⟩
  simp [quote]

/-! ### Reading an integer back -/

theorem natText_of_lt {n : ℕ} (h : n < 10) : natText n = [digitUnit n.digitChar] := by
  rw [natText, Nat.toDigits_of_lt_base h]
  rfl

theorem natText_of_ge {n : ℕ} (h : 10 ≤ n) :
    natText n = natText (n / 10) ++ [digitUnit (n % 10).digitChar] := by
  rw [natText, Nat.toDigits_of_base_le (by omega) h, List.map_append]
  rfl

theorem isDigit_digitUnit : ∀ n < 10, isDigit (digitUnit n.digitChar) = true := by
  decide

theorem toNat_digitUnit : ∀ n < 10, (digitUnit n.digitChar).toNat - 48 = n := by
  decide

theorem digitUnit_ne_zero : ∀ n < 10, 0 < n → digitUnit n.digitChar ≠ 48 := by
  decide

theorem natText_isDigit (n : ℕ) : ∀ c ∈ natText n, isDigit c = true := by
  induction n using Nat.strongRecOn with
  | ind n ih =>
      intro c hc
      by_cases h : n < 10
      · rw [natText_of_lt h, List.mem_singleton] at hc
        rw [hc]
        exact isDigit_digitUnit n h
      · rw [natText_of_ge (by omega), List.mem_append, List.mem_singleton] at hc
        rcases hc with hc | rfl
        · exact ih (n / 10) (by omega) c hc
        · exact isDigit_digitUnit _ (by omega)

theorem digitsValue_natText (n : ℕ) : digitsValue (natText n) = n := by
  induction n using Nat.strongRecOn with
  | ind n ih =>
      by_cases h : n < 10
      · rw [natText_of_lt h]
        simpa [digitsValue] using toNat_digitUnit n h
      · have hlast := toNat_digitUnit (n % 10) (by omega)
        have hinit := ih (n / 10) (by omega)
        rw [natText_of_ge (by omega)]
        simp only [digitsValue, List.foldl_append, List.foldl_cons, List.foldl_nil] at hinit ⊢
        rw [hinit, hlast]
        omega

theorem natText_ne_nil (n : ℕ) : natText n ≠ [] := by
  by_cases h : n < 10
  · rw [natText_of_lt h]
    simp
  · rw [natText_of_ge (by omega)]
    simp

/-- No number is printed with a leading zero. -/
theorem natText_head (n : ℕ) (h : 0 < n) : (natText n).head? ≠ some 48 := by
  induction n using Nat.strongRecOn with
  | ind n ih =>
      by_cases hlt : n < 10
      · rw [natText_of_lt hlt]
        simpa using digitUnit_ne_zero n hlt h
      · rw [natText_of_ge (by omega), List.head?_append_of_ne_nil _ (natText_ne_nil _)]
        exact ih (n / 10) (by omega) (by omega)

/-- Nothing that could go on with a number stands at the start of `rest`. -/
def Stops (rest : Text) : Prop :=
  rest.head? = none ∨ rest.head? = some 44 ∨ rest.head? = some 10

theorem Stops.not_digit {rest : Text} (h : Stops rest) :
    rest.takeWhile isDigit = [] ∧ rest.dropWhile isDigit = rest := by
  cases rest with
  | nil => exact ⟨rfl, rfl⟩
  | cons c rest =>
      have hc : isDigit c = false := by
        rcases h with h | h | h
        · exact absurd h (by simp)
        · obtain rfl : c = 44 := by simpa using h
          decide
        · obtain rfl : c = 10 := by simpa using h
          decide
      exact ⟨List.takeWhile_cons_of_neg (by simp [hc]), List.dropWhile_cons_of_neg (by simp [hc])⟩

theorem Stops.readFraction {rest : Text} (h : Stops rest) :
    Json.readFraction rest = some ([], rest) := by
  cases rest with
  | nil => rfl
  | cons c rest =>
      have hc : c ≠ 46 := by
        rintro rfl
        rcases h with h | h | h <;> exact absurd h (by simp)
      simp [Json.readFraction, hc]

theorem Stops.readExponent {rest : Text} (h : Stops rest) :
    Json.readExponent rest = some (0, rest) := by
  cases rest with
  | nil => rfl
  | cons c rest =>
      have hc : ¬ (c = 101 ∨ c = 69) := by
        rintro (rfl | rfl)
        · rcases h with h | h | h <;> exact absurd h (by simp)
        · rcases h with h | h | h <;> exact absurd h (by simp)
      simp [Json.readExponent, hc]

theorem readMagnitude_natText (n : ℕ) {rest : Text} (h : Stops rest) :
    readMagnitude (natText n ++ rest) = some (n, 0, rest) := by
  have htake : (natText n ++ rest).takeWhile isDigit = natText n := by
    rw [List.takeWhile_append_of_pos (natText_isDigit n), h.not_digit.1, List.append_nil]
  have hdrop : (natText n ++ rest).dropWhile isDigit = rest := by
    rw [List.dropWhile_append_of_pos (natText_isDigit n), h.not_digit.2]
  have hzero : ¬ (natText n = [] ∨ ((natText n).head? = some 48 ∧ natText n ≠ [48])) := by
    rintro (hnil | ⟨hhead, hne⟩)
    · exact natText_ne_nil n hnil
    · by_cases hn : 0 < n
      · exact natText_head n hn hhead
      · obtain rfl : n = 0 := by omega
        exact hne (by decide)
  unfold readMagnitude
  simp only [htake, hdrop, if_neg hzero, h.readFraction, h.readExponent, Option.bind_eq_bind,
    Option.bind_some, List.append_nil, digitsValue_natText, List.length_nil]
  rfl

theorem readNumber_print (i : Int) {rest : Text} (h : Stops rest) :
    readNumber ((Decimal.ofInt i).print ++ rest) = some (Decimal.ofInt i, rest) := by
  by_cases hi : i < 0
  · have hsign : (Decimal.ofInt i).print ++ rest = 45 :: (natText i.natAbs ++ rest) := by
      simp [Decimal.print, Decimal.ofInt, hi]
    rw [hsign]
    simp [readNumber, readMagnitude_natText _ h, Decimal.ofInt, hi]
  · have hplain : (Decimal.ofInt i).print ++ rest = natText i.natAbs ++ rest := by
      simp [Decimal.print, Decimal.ofInt, hi]
    have hhead : ((natText i.natAbs ++ rest).head? == some 45) = false := by
      rw [List.head?_append_of_ne_nil _ (natText_ne_nil _)]
      cases hn : natText i.natAbs with
      | nil => rfl
      | cons c t =>
          have hc := natText_isDigit i.natAbs c (by rw [hn]; simp)
          have : c ≠ 45 := by
            rintro rfl
            exact absurd hc (by decide)
          simpa using this
    rw [hplain]
    unfold readNumber
    simp only [hhead, Bool.false_eq_true, if_false, readMagnitude_natText _ h, Option.map_some,
      Decimal.ofInt, hi, decide_false]

/-! ### Reading a value back -/

mutual

/-- The fuel a value needs. -/
def cost : Json → ℕ
  | .array items => costItems items + 1
  | .object members => costMembers members + 1
  | _ => 1

def costItems : List Json → ℕ
  | [] => 0
  | v :: items => cost v + costItems items + 1

def costMembers : List (Text × Json) → ℕ
  | [] => 0
  | (_, v) :: members => cost v + costMembers members + 1

end

/-- Blanks before a value are skipped. -/
theorem skipBlanks_append {b : Text} (hb : ∀ c ∈ b, isBlank c = true) (t : Text) :
    skipBlanks (b ++ t) = skipBlanks t :=
  List.dropWhile_append_of_pos hb

theorem skipBlanks_cons {c : CodeUnit} (h : isBlank c = false) (t : Text) :
    skipBlanks (c :: t) = c :: t :=
  List.dropWhile_cons_of_neg (by simp [h])

theorem readValue_blanks {b : Text} (hb : ∀ c ∈ b, isBlank c = true) (fuel : ℕ) (t : Text) :
    readValue fuel (b ++ t) = readValue fuel t := by
  cases fuel with
  | zero => rfl
  | succ fuel => rw [readValue.eq_2, readValue.eq_2, skipBlanks_append hb]

/-- A new line and its indent are blanks. -/
theorem blank_line {indent : Text} (hi : ∀ c ∈ indent, isBlank c = true) :
    ∀ c ∈ newline :: indent, isBlank c = true := by
  intro c hc
  rcases List.mem_cons.1 hc with rfl | hc
  · decide
  · exact hi c hc

theorem skipBlanks_line {indent : Text} (hi : ∀ c ∈ indent, isBlank c = true) (t : Text) :
    skipBlanks (newline :: (indent ++ t)) = skipBlanks t :=
  skipBlanks_append (blank_line hi) t

theorem readValue_line {indent : Text} (hi : ∀ c ∈ indent, isBlank c = true) (fuel : ℕ)
    (t : Text) : readValue fuel (newline :: (indent ++ t)) = readValue fuel t :=
  readValue_blanks (blank_line hi) fuel t

theorem readValue_blank (fuel : ℕ) (t : Text) :
    readValue fuel (blank :: t) = readValue fuel t :=
  readValue_blanks (b := [blank]) (by
    intro c hc
    obtain rfl := List.mem_singleton.1 hc
    decide) fuel t

theorem blank_gap {indent : Text} (hi : ∀ c ∈ indent, isBlank c = true) :
    ∀ c ∈ indent ++ gap, isBlank c = true := by
  intro c hc
  rcases List.mem_append.1 hc with hc | hc
  · exact hi c hc
  · obtain rfl : c = blank := by simpa [gap] using hc
    decide

theorem stops_printItems (indent outer rest : Text) (items : List Json) :
    Stops (printItems indent items ++ newline :: (outer ++ rest)) := by
  cases items with
  | nil => exact Or.inr (Or.inr rfl)
  | cons v items => exact Or.inr (Or.inl rfl)

theorem stops_printMembers (indent outer rest : Text) (members : List (Text × Json)) :
    Stops (printMembers indent members ++ newline :: (outer ++ rest)) := by
  cases members with
  | nil => exact Or.inr (Or.inr rfl)
  | cons m members => exact Or.inr (Or.inl rfl)

/-- A printed integer starts with a sign or a digit. -/
theorem print_number_head (d : Decimal) : ∃ c t, d.print = c :: t ∧ (c = 45 ∨ isDigit c = true) := by
  unfold Decimal.print
  cases d.negative with
  | true => exact ⟨45, natText d.digits, rfl, Or.inl rfl⟩
  | false =>
      cases hn : natText d.digits with
      | nil => exact absurd hn (natText_ne_nil _)
      | cons c t =>
          exact ⟨c, t, rfl, Or.inr (natText_isDigit d.digits c (by rw [hn]; simp))⟩

theorem not_blank_of_number {c : CodeUnit} (h : c = 45 ∨ isDigit c = true) :
    isBlank c = false ∧ c ≠ 34 ∧ c ≠ 91 ∧ c ≠ 123 ∧ c ≠ 93 := by
  rcases h with rfl | h
  · decide
  · refine ⟨?_, ?_, ?_, ?_, ?_⟩
    · by_contra hb
      simp only [isBlank, Bool.not_eq_false, Bool.or_eq_true, beq_iff_eq] at hb
      rcases hb with ((rfl | rfl) | rfl) | rfl <;> exact absurd h (by decide)
    all_goals
      rintro rfl
      exact absurd h (by decide)

/-- A printed value starts with neither a blank nor a closing bracket. -/
theorem print_head (indent : Text) (v : Json) :
    ∃ c t, print indent v = c :: t ∧ isBlank c = false ∧ c ≠ 93 := by
  cases v with
  | null => exact ⟨110, [117, 108, 108], by rw [print]; decide, by decide, by decide⟩
  | bool b =>
      cases b with
      | true => exact ⟨116, [114, 117, 101], by rw [print]; decide, by decide, by decide⟩
      | false => exact ⟨102, [97, 108, 115, 101], by rw [print]; decide, by decide, by decide⟩
  | number d =>
      obtain ⟨c, t, hprint, hc⟩ := print_number_head d
      have hne := not_blank_of_number hc
      exact ⟨c, t, hprint, hne.1, hne.2.2.2.2⟩
  | string s => exact ⟨34, escape s ++ [34], by rw [print, quote], by decide, by decide⟩
  | array items =>
      cases items with
      | nil => exact ⟨91, [93], by rw [print], by decide, by decide⟩
      | cons w items => exact ⟨91, _, by rw [print], by decide, by decide⟩
  | object members =>
      cases members with
      | nil => exact ⟨123, [125], by rw [print], by decide, by decide⟩
      | cons m members => exact ⟨123, _, by rw [print], by decide, by decide⟩

mutual

/-- What is printed of a value reads as that value. -/
theorem readValue_print : ∀ (v : Json), Integral v → ∀ (fuel : ℕ) (indent rest : Text),
    cost v ≤ fuel → Stops rest → (∀ c ∈ indent, isBlank c = true) →
    readValue fuel (print indent v ++ rest) = some (v, rest)
  | .null, _, _ + 1, _, _, _, _, _ => rfl
  | .bool true, _, _ + 1, _, _, _, _, _ => rfl
  | .bool false, _, _ + 1, _, _, _, _, _ => rfl
  | .number d, hv, fuel + 1, indent, rest, _, hrest, _ => by
      obtain ⟨i, rfl⟩ := hv
      obtain ⟨c, t, hprint, hc⟩ := print_number_head (Decimal.ofInt i)
      obtain ⟨hblank, hquote, hbracket, hbrace, _⟩ := not_blank_of_number hc
      have hread := readNumber_print i hrest
      rw [print, readValue.eq_2, hprint, List.cons_append, skipBlanks_cons hblank]
      rw [hprint, List.cons_append] at hread
      simp only [if_neg hquote, if_neg hbracket, if_neg hbrace, if_pos hc, hread, Option.map_some]
  | .string s, _, fuel + 1, indent, rest, _, _, _ => by
      rw [print, readValue.eq_2, (readString_quote s rest).1, skipBlanks_cons (by decide)]
      simp only [if_true, (readString_quote s rest).2, Option.map_some]
  | .array [], _, fuel + 1, indent, rest, _, _, _ => by
      rw [print, readValue.eq_2, List.cons_append, skipBlanks_cons (by decide)]
      simp [skipBlanks_cons (show isBlank 93 = false by decide)]
  | .array (v :: items), hv, fuel + 1, indent, rest, hfuel, _, hi => by
      have hinner := blank_gap hi
      rw [print, readValue.eq_2, List.cons_append, skipBlanks_cons (by decide)]
      generalize indent ++ gap = inner at hinner ⊢
      obtain ⟨c, t, hhead, hblank, hclose⟩ := print_head inner v
      have hread := readItems_print (v :: items) (by simp) hv fuel inner indent rest
        (by simpa [cost] using hfuel) hinner hi
      have hskip : skipBlanks ((printItems inner (v :: items)).tail ++
          newline :: (indent ++ 93 :: rest)) =
          c :: (t ++ (printItems inner items ++ newline :: (indent ++ 93 :: rest))) := by
        simp only [printItems, List.tail_cons, List.cons_append, List.append_assoc]
        rw [skipBlanks_line hinner, hhead, List.cons_append, skipBlanks_cons hblank]
      simp only [List.append_assoc, List.cons_append, List.nil_append, hskip, hread]
      simp [hclose]
  | .object [], _, fuel + 1, indent, rest, _, _, _ => by
      rw [print, readValue.eq_2, List.cons_append, skipBlanks_cons (by decide)]
      simp [skipBlanks_cons (show isBlank 125 = false by decide)]
  | .object ((name, v) :: members), hv, fuel + 1, indent, rest, hfuel, _, hi => by
      have hinner := blank_gap hi
      rw [print, readValue.eq_2, List.cons_append, skipBlanks_cons (by decide)]
      generalize indent ++ gap = inner at hinner ⊢
      have hread := readMembers_print ((name, v) :: members) (by simp) hv fuel inner indent rest
        (by simpa [cost] using hfuel) hinner hi
      have hskip : skipBlanks ((printMembers inner ((name, v) :: members)).tail ++
          newline :: (indent ++ 125 :: rest)) =
          34 :: (escape name ++ 34 :: 58 :: blank :: (print inner v ++
            (printMembers inner members ++ newline :: (indent ++ 125 :: rest)))) := by
        simp only [printMembers, List.tail_cons, List.cons_append, List.append_assoc]
        rw [skipBlanks_line hinner, (readString_quote name _).1, skipBlanks_cons (by decide)]
      simp only [List.append_assoc, List.cons_append, List.nil_append, hskip, hread]
      simp
  | .null, _, 0, _, _, hfuel, _, _ => absurd hfuel (by simp [cost])
  | .bool _, _, 0, _, _, hfuel, _, _ => absurd hfuel (by simp [cost])
  | .number _, _, 0, _, _, hfuel, _, _ => absurd hfuel (by simp [cost])
  | .string _, _, 0, _, _, hfuel, _, _ => absurd hfuel (by simp [cost])
  | .array _, _, 0, _, _, hfuel, _, _ => absurd hfuel (by simp [cost])
  | .object _, _, 0, _, _, hfuel, _, _ => absurd hfuel (by simp [cost])

theorem readItems_print : ∀ (items : List Json), items ≠ [] → IntegralItems items →
    ∀ (fuel : ℕ) (indent outer rest : Text), costItems items ≤ fuel →
    (∀ c ∈ indent, isBlank c = true) → (∀ c ∈ outer, isBlank c = true) →
    readItems fuel ((printItems indent items).tail ++ newline :: (outer ++ 93 :: rest)) =
      some (items, rest)
  | [], hne, _, _, _, _, _, _, _, _ => absurd rfl hne
  | _ :: _, _, _, 0, _, _, _, hfuel, _, _ => absurd hfuel (by simp [costItems])
  | v :: items, _, hv, fuel + 1, indent, outer, rest, hfuel, hi, ho => by
      have hcost : cost v ≤ fuel ∧ costItems items ≤ fuel := by
        rw [costItems] at hfuel
        omega
      have hread := readValue_print v hv.1 fuel indent _ hcost.1
        (stops_printItems indent outer (93 :: rest) items) hi
      simp only [printItems, List.tail_cons, List.cons_append, List.append_assoc]
      rw [readItems, readValue_line hi, hread]
      simp only [Option.bind_eq_bind, Option.bind_some]
      cases items with
      | nil =>
          rw [printItems, List.nil_append, skipBlanks_line ho, skipBlanks_cons (by decide)]
          simp
      | cons w items =>
          have hmore := readItems_print (w :: items) (by simp) hv.2 fuel indent outer rest hcost.2
            hi ho
          have hcomma : printItems indent (w :: items) ++ newline :: (outer ++ 93 :: rest) =
              44 :: ((printItems indent (w :: items)).tail ++
                newline :: (outer ++ 93 :: rest)) := by
            simp [printItems]
          rw [hcomma, skipBlanks_cons (by decide)]
          simp only [if_true, hmore, Option.map_some]

theorem readMembers_print : ∀ (members : List (Text × Json)), members ≠ [] →
    IntegralMembers members → ∀ (fuel : ℕ) (indent outer rest : Text),
    costMembers members ≤ fuel → (∀ c ∈ indent, isBlank c = true) →
    (∀ c ∈ outer, isBlank c = true) →
    readMembers fuel ((printMembers indent members).tail ++ newline :: (outer ++ 125 :: rest)) =
      some (members, rest)
  | [], hne, _, _, _, _, _, _, _, _ => absurd rfl hne
  | (_, _) :: _, _, _, 0, _, _, _, hfuel, _, _ => absurd hfuel (by simp [costMembers])
  | (name, v) :: members, _, hv, fuel + 1, indent, outer, rest, hfuel, hi, ho => by
      have hcost : cost v ≤ fuel ∧ costMembers members ≤ fuel := by
        rw [costMembers] at hfuel
        omega
      have hread := readValue_print v hv.1 fuel indent _ hcost.1
        (stops_printMembers indent outer (125 :: rest) members) hi
      simp only [printMembers, List.tail_cons, List.cons_append, List.append_assoc]
      rw [readMembers, skipBlanks_line hi, (readString_quote name _).1,
        skipBlanks_cons (by decide)]
      simp only [if_true, (readString_quote name _).2, Option.bind_eq_bind, Option.bind_some,
        skipBlanks_cons (show isBlank 58 = false by decide), readValue_blank, hread]
      cases members with
      | nil =>
          rw [printMembers, List.nil_append, skipBlanks_line ho, skipBlanks_cons (by decide)]
          simp
      | cons m members =>
          have hmore := readMembers_print (m :: members) (by simp) hv.2 fuel indent outer rest
            hcost.2 hi ho
          have hcomma : printMembers indent (m :: members) ++ newline :: (outer ++ 125 :: rest) =
              44 :: ((printMembers indent (m :: members)).tail ++
                newline :: (outer ++ 125 :: rest)) := by
            simp [printMembers]
          rw [hcomma, skipBlanks_cons (by decide)]
          simp only [if_true, hmore, Option.map_some]

end

/-! ### The round trip -/

mutual

/-- The fuel `parse` provides is enough: every constructor printed takes a unit. -/
theorem cost_le_print : ∀ (v : Json) (indent : Text), cost v ≤ 2 * (print indent v).length
  | .null, _ => by rw [print]; decide
  | .bool true, _ => by rw [print]; decide
  | .bool false, _ => by rw [print]; decide
  | .number d, indent => by
      obtain ⟨c, t, hprint, _⟩ := print_number_head d
      rw [print, hprint]
      simp [cost]
      omega
  | .string s, indent => by
      simp [print, cost, quote]
      omega
  | .array [], _ => by simp [print, cost, costItems]
  | .array (v :: items), indent => by
      have hitems := costItems_le_print (v :: items) (indent ++ gap)
      simp only [print, cost, List.length_cons, List.length_append, List.length_tail]
      omega
  | .object [], _ => by simp [print, cost, costMembers]
  | .object (m :: members), indent => by
      have hmembers := costMembers_le_print (m :: members) (indent ++ gap)
      simp only [print, cost, List.length_cons, List.length_append, List.length_tail]
      omega

theorem costItems_le_print : ∀ (items : List Json) (indent : Text),
    costItems items ≤ 2 * (printItems indent items).length
  | [], _ => by simp [costItems]
  | v :: items, indent => by
      have hv := cost_le_print v indent
      have hitems := costItems_le_print items indent
      simp only [printItems, costItems, List.length_cons, List.length_append]
      omega

theorem costMembers_le_print : ∀ (members : List (Text × Json)) (indent : Text),
    costMembers members ≤ 2 * (printMembers indent members).length
  | [], _ => by simp [costMembers]
  | (name, v) :: members, indent => by
      have hv := cost_le_print v indent
      have hmembers := costMembers_le_print members indent
      simp only [printMembers, costMembers, List.length_cons, List.length_append]
      omega

end

/-- What is printed of a value parses to that value. -/
theorem parse_stringify {v : Json} (hv : Integral v) : parse (stringify v) = some v := by
  have hcost := cost_le_print v []
  have hread := readValue_print v hv (2 * (stringify v).length + 2) [] []
    (by unfold stringify; omega) (Or.inl rfl) (by simp)
  rw [List.append_nil, show print [] v = stringify v from rfl] at hread
  rw [parse, hread, Option.bind_eq_bind, Option.bind_some]
  exact if_pos rfl

/-! ### Objects with optional members -/

/-- The members that are present. -/
def present : List (String × Option Json) → List (Text × Json)
  | [] => []
  | (_, none) :: fields => present fields
  | (name, some v) :: fields => (text name, v) :: present fields

/-- The object of the members that are present. -/
def objectOf (fields : List (String × Option Json)) : Json :=
  .object (present fields)

theorem lookup_not_mem {name : Text} : ∀ {fields : List (String × Option Json)},
    name ∉ fields.map (fun f => text f.1) → lookup name (present fields) = none
  | [], _ => rfl
  | (n, w) :: fields, h => by
      rw [List.map_cons, List.mem_cons, not_or] at h
      cases w with
      | none => rw [present, lookup_not_mem h.2]
      | some w =>
          rw [present, lookup, lookup_not_mem h.2, if_neg (Ne.symm h.1)]
          rfl

theorem lookup_present {name : String} {v : Option Json} :
    ∀ {fields : List (String × Option Json)}, (fields.map fun f => text f.1).Nodup →
      (name, v) ∈ fields → lookup (text name) (present fields) = v
  | [], _, h => absurd h (by simp)
  | (n, w) :: fields, hnd, h => by
      rw [List.map_cons, List.nodup_cons] at hnd
      rcases List.mem_cons.1 h with heq | hmem
      · obtain ⟨rfl, rfl⟩ := Prod.mk.inj heq
        cases v with
        | none => rw [present, lookup_not_mem hnd.1]
        | some v =>
            rw [present, lookup, lookup_not_mem hnd.1, if_pos rfl]
            rfl
      · have hrest := lookup_present hnd.2 hmem
        have hne : text n ≠ text name := by
          intro heq
          rw [heq] at hnd
          exact hnd.1 (List.mem_map.2 ⟨(name, v), hmem, rfl⟩)
        cases w with
        | none => rw [present, hrest]
        | some w => rw [present, lookup, hrest, if_neg hne, Option.or_none]

/-- A member of an object whose names are distinct is the value given for its name. -/
theorem get_objectOf {name : String} {v : Option Json} {fields : List (String × Option Json)}
    (hnd : (fields.map fun f => text f.1).Nodup) (h : (name, v) ∈ fields) :
    (objectOf fields).get name = v :=
  lookup_present hnd h

theorem integral_present : ∀ {fields : List (String × Option Json)},
    (∀ f ∈ fields, ∀ v ∈ f.2, Integral v) → IntegralMembers (present fields)
  | [], _ => trivial
  | (n, w) :: fields, h => by
      have hrest : IntegralMembers (present fields) :=
        integral_present fun f hf => h f (List.mem_cons_of_mem _ hf)
      cases w with
      | none => exact hrest
      | some w => exact ⟨h (n, some w) (by simp) w rfl, hrest⟩

theorem integral_objectOf {fields : List (String × Option Json)}
    (h : ∀ f ∈ fields, ∀ v ∈ f.2, Integral v) : Integral (objectOf fields) :=
  integral_present h

theorem integral_items : ∀ {items : List Json}, (∀ v ∈ items, Integral v) →
    IntegralItems items
  | [], _ => trivial
  | v :: items, h =>
      ⟨h v (by simp), integral_items fun w hw => h w (List.mem_cons_of_mem v hw)⟩

theorem integral_array {items : List Json} (h : ∀ v ∈ items, Integral v) :
    Integral (.array items) :=
  integral_items h

end Json

end WireTools
