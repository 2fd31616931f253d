import WireTools.Text

/-! # JSON values and their parser

`Json.parse` reads a text the way the source's `JSON.parse` does: white space is the four
JSON characters, a string's escapes are decoded to code units, and of two members of an
object with one name the later one counts (`Json.get`).  A number keeps the decimal it was
written as; `Decimal.value` is the double it stands for.

The readers recurse on a fuel that bounds the depth of the nesting and the length of the
lists; `parse` gives two units for every unit of the text, which no text uses up. -/

namespace WireTools

/-- A decimal literal: `digits * 10 ^ exponent`, negated when `negative`. -/
structure Decimal where
  negative : Bool
  digits : ℕ
  exponent : Int
  deriving DecidableEq

inductive Json where
  | null
  | bool (b : Bool)
  | number (n : Decimal)
  | string (s : Text)
  | array (items : List Json)
  | object (members : List (Text × Json))

/-! ### The double nearest to a decimal -/

namespace Decimal

/-- The decimal of a natural number. -/
def ofNat (n : ℕ) : Decimal :=
  ⟨false, n, 0⟩

/-- The exact value. -/
def exact (d : Decimal) : Rat :=
  (if d.negative then -1 else 1) * d.digits * (10 : Rat) ^ d.exponent

/-- The exponent of the binade that holds `num / den`, both positive. -/
def binade (num den : ℕ) : Int :=
  let k : Int := (Nat.log2 num : Int) - (Nat.log2 den : Int)
  if (2 : Rat) ^ k * den ≤ num then k else k - 1

/-- The integer nearest to `q`, the even one when two are equally near. -/
def roundHalfEven (q : Rat) : Int :=
  let below := q.floor
  if q - below < 1 / 2 then below
  else if 1 / 2 < q - below then below + 1
  else if below % 2 = 0 then below
  else below + 1

/-- The double nearest to `q`.  Past the largest finite double the source has an infinity,
which lies outside every range it compares with, as the value here does. -/
def nearestDouble (q : Rat) : Rat :=
  if q = 0 then 0
  else
    let ulp : Rat := (2 : Rat) ^ max (binade q.num.natAbs q.den - 52) (-1074)
    roundHalfEven (q / ulp) * ulp

/-- The number the literal stands for. -/
def value (d : Decimal) : Rat :=
  nearestDouble d.exact

end Decimal

namespace Json

/-! ### Tokens -/

/-- The white space between tokens. -/
def isBlank : UnitClass := fun c => c == 32 || c == 9 || c == 10 || c == 13

def skipBlanks (t : Text) : Text :=
  t.dropWhile isBlank

/-- The value of a hexadecimal digit. -/
def hexValue (c : CodeUnit) : Option ℕ :=
  if isDigit c then some (c.toNat - 48)
  else if 97 ≤ c && c ≤ 102 then some (c.toNat - 87)
  else if 65 ≤ c && c ≤ 70 then some (c.toNat - 55)
  else none

/-- The code unit of a `\uXXXX` escape. -/
def hexUnit (a b c d : CodeUnit) : Option CodeUnit := do
  let a ← hexValue a
  let b ← hexValue b
  let c ← hexValue c
  let d ← hexValue d
  some (UInt16.ofNat (a * 4096 + b * 256 + c * 16 + d))

/-- The code unit of a one-letter escape. -/
def simpleEscape (c : CodeUnit) : Option CodeUnit :=
  if c = 34 ∨ c = 92 ∨ c = 47 then some c
  else if c = 98 then some 8
  else if c = 102 then some 12
  else if c = 110 then some 10
  else if c = 114 then some 13
  else if c = 116 then some 9
  else none

/-- The rest of a string literal, behind its opening quote: the string, and what follows the
closing quote. -/
def readString : Text → Option (Text × Text)
  | [] => none
  | c :: t =>
    if c = 34 then some ([], t)
    else if c = 92 then
      match t with
      | [] => none
      | e :: t =>
        if e = 117 then
          match t with
          | x :: y :: z :: w :: t => do
            let u ← hexUnit x y z w
            let (s, rest) ← readString t
            some (u :: s, rest)
          | _ => none
        else do
          let u ← simpleEscape e
          let (s, rest) ← readString t
          some (u :: s, rest)
    else if c < 32 then none
    else do
      let (s, rest) ← readString t
      some (c :: s, rest)

/-- The number that a run of decimal digits spells. -/
def digitsValue (ds : Text) : ℕ :=
  ds.foldl (fun n c => n * 10 + (c.toNat - 48)) 0

/-- The exponent of a number literal, none when there is no digit. -/
def readExponent : Text → Option (Int × Text)
  | c :: t =>
    if c = 101 ∨ c = 69 then
      let (negative, t) := match t with
        | s :: t => if s = 45 then (true, t) else if s = 43 then (false, t) else (false, s :: t)
        | [] => (false, [])
      let ds := t.takeWhile isDigit
      if ds = [] then none
      else some (if negative then -digitsValue ds else digitsValue ds, t.dropWhile isDigit)
    else some (0, c :: t)
  | [] => some (0, [])

/-- The fraction digits of a number literal, none when there is a point and no digit. -/
def readFraction : Text → Option (Text × Text)
  | c :: t =>
    if c = 46 then
      let ds := t.takeWhile isDigit
      if ds = [] then none else some (ds, t.dropWhile isDigit)
    else some ([], c :: t)
  | [] => some ([], [])

/-- An unsigned number literal. -/
def readMagnitude (t : Text) : Option (ℕ × Int × Text) := do
  let whole := t.takeWhile isDigit
  if whole = [] ∨ (whole.head? = some 48 ∧ whole ≠ [48]) then none
  else
    let (fraction, t) ← readFraction (t.dropWhile isDigit)
    let (exponent, t) ← readExponent t
    some (digitsValue (whole ++ fraction), exponent - fraction.length, t)

/-- A number literal. -/
def readNumber (t : Text) : Option (Decimal × Text) :=
  let negative := t.head? == some 45
  (readMagnitude (if negative then t.tail else t)).map fun (digits, exponent, rest) =>
    (⟨negative, digits, exponent⟩, rest)

/-- One of the three literal names. -/
def readName (t : Text) : Option (Json × Text) :=
  ((reads (Pattern.literal "true").classes t).map fun rest => (.bool true, rest)).or
    (((reads (Pattern.literal "false").classes t).map fun rest => (.bool false, rest)).or
      ((reads (Pattern.literal "null").classes t).map fun rest => (.null, rest)))

/-! ### Values -/

mutual

/-- One value, blanks before it skipped: the value and what follows it. -/
def readValue : ℕ → Text → Option (Json × Text)
  | 0, _ => none
  | fuel + 1, t =>
    match skipBlanks t with
    | [] => none
    | c :: t =>
      if c = 34 then (readString t).map fun (s, rest) => (.string s, rest)
      else if c = 91 then
        match skipBlanks t with
        | [] => none
        | d :: rest =>
          if d = 93 then some (.array [], rest)
          else (readItems fuel t).map fun (items, rest) => (.array items, rest)
      else if c = 123 then
        match skipBlanks t with
        | [] => none
        | d :: rest =>
          if d = 125 then some (.object [], rest)
          else (readMembers fuel t).map fun (members, rest) => (.object members, rest)
      else if c = 45 ∨ isDigit c then
        (readNumber (c :: t)).map fun (n, rest) => (.number n, rest)
      else readName (c :: t)

/-- The items of an array up to its closing bracket. -/
def readItems : ℕ → Text → Option (List Json × Text)
  | 0, _ => none
  | fuel + 1, t => do
    let (item, t) ← readValue fuel t
    match skipBlanks t with
    | [] => none
    | c :: t =>
      if c = 44 then (readItems fuel t).map fun (items, rest) => (item :: items, rest)
      else if c = 93 then some ([item], t)
      else none

/-- The members of an object up to its closing brace. -/
def readMembers : ℕ → Text → Option (List (Text × Json) × Text)
  | 0, _ => none
  | fuel + 1, t =>
    match skipBlanks t with
    | [] => none
    | c :: t =>
      if c = 34 then do
        let (name, t) ← readString t
        match skipBlanks t with
        | [] => none
        | c :: t =>
          if c = 58 then do
            let (v, t) ← readValue fuel t
            match skipBlanks t with
            | [] => none
            | c :: t =>
              if c = 44 then
                (readMembers fuel t).map fun (members, rest) => ((name, v) :: members, rest)
              else if c = 125 then some ([(name, v)], t)
              else none
          else none
      else none

end

/-- The value a text spells, none when it is not JSON. -/
def parse (t : Text) : Option Json := do
  let (v, rest) ← readValue (2 * t.length + 2) t
  if skipBlanks rest = [] then some v else none

/-! ### Members -/

/-- The last value listed under `name`. -/
def lookup (name : Text) : List (Text × Json) → Option Json
  | [] => none
  | (n, v) :: rest => (lookup name rest).or (if n = name then some v else none)

/-- The member `name` of a value: none when it is no object or has none. -/
def get (v : Json) (name : String) : Option Json :=
  match v with
  | .object members => lookup (text name) members
  | _ => none

/-- The string a value is, none when it is another kind of value. -/
def asString : Json → Option Text
  | .string s => some s
  | _ => none

/-! ### What a parsed object starts with -/

/-- JSON's blanks are white space to the pattern language too. -/
theorem isSpace_of_isBlank {c : CodeUnit} (h : isBlank c = true) : isSpace c = true := by
  simp only [isBlank, Bool.or_eq_true, beq_iff_eq] at h
  rcases h with ((rfl | rfl) | rfl) | rfl <;> decide

/-- A text that reads as an array or an object starts with a bracket or a brace. -/
theorem readValue_opening {fuel : ℕ} {t rest : Text} {v : Json}
    (h : readValue fuel t = some (v, rest))
    (hv : (∃ items, v = .array items) ∨ ∃ members, v = .object members) :
    ∃ c u, skipBlanks t = c :: u ∧ (c = 91 ∨ c = 123) := by
  cases fuel with
  | zero => exact absurd h (by simp [readValue])
  | succ fuel =>
      rw [readValue.eq_2] at h
      cases hs : skipBlanks t with
      | nil => rw [hs] at h; exact absurd h (by simp)
      | cons c u =>
          refine ⟨c, u, rfl, ?_⟩
          by_contra hc
          obtain ⟨hb, hbrace⟩ := not_or.1 hc
          rw [hs] at h
          simp only [if_neg hb, if_neg hbrace] at h
          split at h
          · simp only [Option.map_eq_some_iff, Prod.mk.injEq] at h
            obtain ⟨_, _, rfl, _⟩ := h
            rcases hv with ⟨_, hv⟩ | ⟨_, hv⟩ <;> exact absurd hv (by simp)
          · split at h
            · simp only [Option.map_eq_some_iff, Prod.mk.injEq] at h
              obtain ⟨_, _, rfl, _⟩ := h
              rcases hv with ⟨_, hv⟩ | ⟨_, hv⟩ <;> exact absurd hv (by simp)
            · simp only [readName, Option.or_eq_some_iff, Option.map_eq_some_iff,
                Prod.mk.injEq] at h
              rcases hv with ⟨_, rfl⟩ | ⟨_, rfl⟩ <;> simp at h

end Json

end WireTools
