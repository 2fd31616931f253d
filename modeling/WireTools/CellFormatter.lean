import Mathlib.Data.List.Infix
import WireTools.Doubles
import WireTools.JsonPrint

/-! # Cells and their formatter

One facade formats and compares the cells of a result page by their column's logical type.

* `matchesEncoding` says which cells a column may hold; every reader of a cell throws a
  `CellMismatch` on another one;
* `sortKey` decodes a cell once and `compareSortKeys` compares two keys of one column;
* `Builtins` are the two functions of the language whose tables are left open, the lower case of
  a text and the printed form of a number.  Nothing here depends on what they return. -/

namespace WireTools

open Json (digitsValue hexValue)

/-! ### Cells and columns -/

/-- One cell; numbers are decimal texts. -/
inductive CellValue where
  | null
  | bool (b : Bool)
  | string (t : Text)
  | array (items : List CellValue)
  | record (fields : List (Text × CellValue))

inductive LogicalType where
  | integer
  | decimal
  | boolean
  | text
  | time
  | asset
  | extended_asset
  | json
  | ieee_hex
  | enumeration
  deriving DecidableEq

inductive ValueEncoding where
  | decimal_string
  | boolean
  | text
  | asset_object
  | json
  | ieee_hex
  deriving DecidableEq

structure QueryColumn where
  name : Text
  logicalType : LogicalType
  encoding : ValueEncoding
  deriving DecidableEq

structure AssetCell where
  amount : Text
  symbol : Text
  precision : Text
  /-- The issuing contract, of an extended asset only. -/
  contract : Option Text
  deriving DecidableEq

namespace LogicalType

/-- The type's name in a message. -/
def spelling : LogicalType → Text
  | integer => WireTools.text "integer"
  | decimal => WireTools.text "decimal"
  | boolean => WireTools.text "boolean"
  | text => WireTools.text "text"
  | time => WireTools.text "time"
  | asset => WireTools.text "asset"
  | extended_asset => WireTools.text "extended_asset"
  | json => WireTools.text "json"
  | ieee_hex => WireTools.text "ieee_hex"
  | enumeration => WireTools.text "enumeration"

end LogicalType

namespace CellValue

def isNull : CellValue → Bool
  | null => true
  | _ => false

def asText : CellValue → Option Text
  | string t => some t
  | _ => none

def asBool : CellValue → Option Bool
  | bool b => some b
  | _ => none

mutual

/-- The compact JSON of a cell. -/
def stringify : CellValue → Text
  | null => text "null"
  | bool true => text "true"
  | bool false => text "false"
  | string t => Json.quote t
  | array items => 91 :: ((stringifyItems items).tail ++ [93])
  | record fields => 123 :: ((stringifyFields fields).tail ++ [125])

/-- The items of an array, each behind a comma; the first comma is not printed. -/
def stringifyItems : List CellValue → Text
  | [] => []
  | v :: items => 44 :: (stringify v ++ stringifyItems items)

/-- The fields of a record, each behind a comma; the first comma is not printed. -/
def stringifyFields : List (Text × CellValue) → Text
  | [] => []
  | (name, v) :: fields =>
      44 :: (Json.quote name ++ 58 :: (stringify v ++ stringifyFields fields))

end

end CellValue

/-- A cell that does not match its column. -/
structure CellMismatch where
  column : QueryColumn
  value : CellValue

def CellMismatch.message (e : CellMismatch) : Text :=
  text "cell of column " ++ e.column.name ++ text " does not match its " ++
    e.column.logicalType.spelling ++ text " encoding"

/-! ### Lexical patterns -/

namespace QueryResultPatterns

/-- `(0|[1-9][0-9]*)` -/
def unsignedDecimal : Text → Bool
  | [] => false
  | c :: t => if c = 48 then t.isEmpty else isDigit c && t.all isDigit

/-- The rest behind an optional minus sign. -/
def unsign : Text → Text
  | [] => []
  | c :: t => if c = 45 then t else c :: t

/-- `-?(0|[1-9][0-9]*)` -/
def signedInteger (t : Text) : Bool :=
  unsignedDecimal (unsign t)

/-- `(\.[0-9]+)?` -/
def fraction : Text → Bool
  | [] => true
  | c :: t => c == 46 && !t.isEmpty && t.all isDigit

/-- `-?(0|[1-9][0-9]*)(\.[0-9]+)?` -/
def signedDecimal (t : Text) : Bool :=
  unsignedDecimal ((unsign t).takeWhile (· ≠ 46)) && fraction ((unsign t).dropWhile (· ≠ 46))

/-- `([0-9a-f]{2})*`, in either case. -/
def hexPairs : Text → Bool
  | [] => true
  | [_] => false
  | c :: d :: t => (hexValue c).isSome && (hexValue d).isSome && hexPairs t

/-- `0x([0-9a-f]{2})+`, in either case. -/
def ieeeHex : Text → Bool
  | c :: x :: t => c == 48 && (x == 120 || x == 88) && !t.isEmpty && hexPairs t
  | _ => false

end QueryResultPatterns

open QueryResultPatterns

/-- The cell as an asset: an amount, a symbol, a precision and perhaps a contract. -/
def AssetCell.safeParse : CellValue → Option AssetCell
  | .record fields => do
      let amount ← (fields.lookup (text "amount")).bind CellValue.asText
      guard (signedDecimal amount)
      let symbol ← (fields.lookup (text "symbol")).bind CellValue.asText
      let precision ← (fields.lookup (text "precision")).bind CellValue.asText
      guard (unsignedDecimal precision)
      match fields.lookup (text "contract") with
      | none => some ⟨amount, symbol, precision, none⟩
      | some contract => contract.asText.map fun t => ⟨amount, symbol, precision, some t⟩
  | _ => none

/-- The functions of the language that are left open. -/
structure Builtins where
  toLowerCase : Text → Text
  numberText : Double → Text

inductive CellFormatMode where
  | display
  | canonical
  deriving DecidableEq

/-- The key of an `ieee_hex` cell: its text and the number it decodes to, if it does. -/
structure IeeeHexSortKey where
  hex : Text
  decoded : Option Double
  deriving DecidableEq

inductive CellSortKey where
  | null
  | integer (n : ℤ)
  | boolean (b : Bool)
  | text (t : Text)
  | asset (a : AssetCell)
  | ieee (key : IeeeHexSortKey)
  deriving DecidableEq

def CellSortKey.isNull : CellSortKey → Bool
  | null => true
  | _ => false

namespace CellFormatter

/-! ### Texts -/

def padEnd (t : Text) (length : ℕ) : Text :=
  t ++ List.replicate (length - t.length) 48

/-- What stands before the first point. -/
def integerPart (t : Text) : Text :=
  t.takeWhile (· ≠ 46)

/-- What stands between the first point and the next, nothing when there is none. -/
def fractionPart (t : Text) : Text :=
  ((t.dropWhile (· ≠ 46)).drop 1).takeWhile (· ≠ 46)

/-- The integer that a text of a sign and digits spells. -/
def bigInt : Text → ℤ
  | [] => 0
  | c :: t => if c = 45 then -(digitsValue t : ℤ) else digitsValue (c :: t)

/-- Control characters as visible pictures. -/
def escapeControlCharacters (t : Text) : Text :=
  t.map fun c => if c = 0x7f then 0x2421 else if c ≤ 0x1f then 0x2400 + c else c

/-- The fraction filled up with zeros. -/
def padAssetFraction (amount : Text) (precision : ℕ) : Text :=
  let padded := padEnd (fractionPart amount) precision
  if padded.length = 0 then integerPart amount else integerPart amount ++ 46 :: padded

/-- The length a text is padded to: the number the precision spells, at most the greatest. -/
def padLength (precision : Text) : ℕ :=
  min (digitsValue precision) (2 ^ 53 - 1)

/-- The bytes that pairs of hexadecimal digits spell. -/
def hexBytes : Text → List ℕ
  | c :: d :: t => ((hexValue c).getD 0 * 16 + (hexValue d).getD 0) :: hexBytes t
  | _ => []

/-- The number of four or of eight bytes; another width decodes to none. -/
def decodeIeeeHex (hex : Text) : Option Double :=
  let bytes := hexBytes (hex.drop 2)
  if bytes.length = 4 then some (Double.getFloat32 bytes)
  else if bytes.length = 8 then some (Double.getFloat64 bytes)
  else none

/-! ### Reading a cell -/

variable (b : Builtins) (column : QueryColumn) (value : CellValue)

def mismatch {α : Type} : Except CellMismatch α :=
  .error ⟨column, value⟩

/-- The cell's text, when it matches a pattern. -/
def formatWhere (pattern : Text → Bool) : Except CellMismatch Text :=
  match value.asText with
  | some t => if pattern t then .ok t else mismatch column value
  | none => mismatch column value

def formatInteger : Except CellMismatch Text :=
  formatWhere column value signedInteger

def formatDecimal : Except CellMismatch Text :=
  formatWhere column value signedDecimal

def formatIeeeHexText : Except CellMismatch Text :=
  formatWhere column value ieeeHex

def formatBoolean : Except CellMismatch Text :=
  match value.asBool with
  | some true => .ok (text "true")
  | some false => .ok (text "false")
  | none => mismatch column value

def formatText (mode : CellFormatMode) : Except CellMismatch Text :=
  match value.asText with
  | some t => .ok (if mode = .display then escapeControlCharacters t else t)
  | none => mismatch column value

def assertAsset : Except CellMismatch AssetCell :=
  match AssetCell.safeParse value with
  | some asset => .ok asset
  | none => mismatch column value

/-- The text of an asset; an extended asset has a contract. -/
def formatAsset : Except CellMismatch Text :=
  match assertAsset column value with
  | .error e => .error e
  | .ok asset =>
      let quantity := padAssetFraction asset.amount (padLength asset.precision) ++
        blank :: asset.symbol
      match asset.contract with
      | none =>
          if column.logicalType = .extended_asset then mismatch column value else .ok quantity
      | some contract => .ok (quantity ++ 64 :: contract)

def formatIeeeHex (mode : CellFormatMode) : Except CellMismatch Text :=
  (formatIeeeHexText column value).map fun hex =>
    if mode = .canonical then hex else ((decodeIeeeHex hex).map b.numberText).getD hex

/-- The text of a cell. -/
def format (mode : CellFormatMode) : Except CellMismatch Text :=
  if value.isNull then .ok (text "NULL")
  else match column.logicalType with
    | .integer => formatInteger column value
    | .decimal => formatDecimal column value
    | .boolean => formatBoolean column value
    | .text | .enumeration | .time => formatText column value mode
    | .asset | .extended_asset => formatAsset column value
    | .json => .ok value.stringify
    | .ieee_hex => formatIeeeHex b column value mode

def canonical : Except CellMismatch Text :=
  format b column value .canonical

/-- The display text contains the text, in either case. -/
def containsText (t : Text) : Except CellMismatch Bool :=
  (format b column value .display).map fun shown =>
    decide (b.toLowerCase t <:+: b.toLowerCase shown)

/-! ### Sort keys -/

/-- The key of a cell that is not null. -/
def typedKey : Except CellMismatch CellSortKey :=
  match column.logicalType with
  | .integer => (formatInteger column value).map fun t => .integer (bigInt t)
  | .decimal => (formatDecimal column value).map .text
  | .boolean => (formatBoolean column value).map fun t => .boolean (t = text "true")
  | .asset | .extended_asset => (assertAsset column value).map .asset
  | .ieee_hex => (formatIeeeHexText column value).map fun hex => .ieee ⟨hex, decodeIeeeHex hex⟩
  | .text | .time | .json | .enumeration => (canonical b column value).map .text

def sortKey : Except CellMismatch CellSortKey :=
  if value.isNull then .ok .null else typedKey b column value

/-- The code units of a text as numbers. -/
def units (t : Text) : List ℕ :=
  t.map UInt16.toNat

/-- The order of the code units. -/
def compareText (left right : Text) : ℤ :=
  if units left < units right then -1 else if units right < units left then 1 else 0

/-- The order of two decimals, without floats. -/
def compareDecimal (left right : Text) : ℤ :=
  let scale := max (fractionPart left).length (fractionPart right).length
  Int.sign (bigInt (integerPart left ++ padEnd (fractionPart left) scale) -
    bigInt (integerPart right ++ padEnd (fractionPart right) scale))

/-- By symbol, then by amount. -/
def compareAsset (left right : AssetCell) : ℤ :=
  if left.symbol = right.symbol then compareDecimal left.amount right.amount
  else compareText left.symbol right.symbol

/-- By the decoded numbers when both sides are numbers, else by the texts. -/
def compareIeeeHex (left right : IeeeHexSortKey) : ℤ :=
  match left.decoded, right.decoded with
  | some x, some y =>
      if x ≠ .nan ∧ y ≠ .nan then (x.sub y).sign else compareText left.hex right.hex
  | _, _ => compareText left.hex right.hex

def boolNumber (b : Bool) : ℤ :=
  if b then 1 else 0

/-- Two keys of one column, neither of them null; keys of different kinds do not meet. -/
def compareTyped : CellSortKey → CellSortKey → ℤ :=
  match column.logicalType with
  | .integer => fun
      | .integer x, .integer y => (x - y).sign
      | _, _ => 0
  | .decimal => fun
      | .text s, .text t => compareDecimal s t
      | _, _ => 0
  | .boolean => fun
      | .boolean x, .boolean y => boolNumber x - boolNumber y
      | _, _ => 0
  | .asset | .extended_asset => fun
      | .asset x, .asset y => compareAsset x y
      | _, _ => 0
  | .ieee_hex => fun
      | .ieee x, .ieee y => compareIeeeHex x y
      | _, _ => 0
  | .text | .time | .json | .enumeration => fun
      | .text s, .text t => compareText s t
      | _, _ => 0

/-- Two keys of one column; NULL comes last. -/
def compareSortKeys : Comparator CellSortKey :=
  nullsLast CellSortKey.isNull (compareTyped column)

/-- Two cells of one column. -/
def compare (left right : CellValue) : Except CellMismatch ℤ := do
  let leftKey ← sortKey b column left
  let rightKey ← sortKey b column right
  return compareSortKeys column leftKey rightKey

end CellFormatter

/-- The cells a column may hold. -/
def matchesEncoding (column : QueryColumn) (value : CellValue) : Bool :=
  value.isNull || match column.logicalType with
    | .integer => value.asText.any signedInteger
    | .decimal => value.asText.any signedDecimal
    | .boolean => value.asBool.isSome
    | .text | .time | .enumeration => value.asText.isSome
    | .asset => (AssetCell.safeParse value).isSome
    | .extended_asset => (AssetCell.safeParse value).any fun a => a.contract.isSome
    | .json => true
    | .ieee_hex => value.asText.any ieeeHex

end WireTools
