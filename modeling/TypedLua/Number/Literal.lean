import TypedLua.Number.Binary64

/-!
# TypedLua.Number.Literal

From the text of a numeral to the number it denotes.  `0x` or `0X` introduces a hexadecimal integer
below `2 ^ 64`, which may carry a plus sign; any other numeral is decimal: digits with an optional
point, at least one digit in all, and an optional exponent.

A literal that is neither denotes no number.
-/

namespace TypedLua.Number

/-! ## §1. Digits -/

/-- The value of a hexadecimal digit. -/
def hexDigit? (c : Char) : Option Nat :=
  if c.isDigit then some (c.toNat - '0'.toNat)
  else if 'a' ≤ c && c ≤ 'f' then some (c.toNat - 'a'.toNat + 10)
  else if 'A' ≤ c && c ≤ 'F' then some (c.toNat - 'A'.toNat + 10)
  else none

/-- The integer written by hexadecimal digits, at least one of them. -/
def hexValue? : List Char → Option Nat
  | [] => none
  | cs => cs.foldlM (fun n c => (hexDigit? c).map (16 * n + ·)) 0

/-- The integer written by decimal digits. -/
def digitsValue (cs : List Char) : Nat := cs.foldl (fun n c => 10 * n + (c.toNat - '0'.toNat)) 0

/-! ## §2. Hexadecimal literals -/

/-- The integer written after `0x`; it must fit in 64 bits. -/
def hexLiteral? (cs : List Char) : Option Nat := do
  let n ← hexValue? (match cs with | '+' :: ds => ds | ds => ds)
  if n < 1 <<< 64 then return n else none

/-! ## §3. Decimal literals -/

/-- The parts of a decimal literal. -/
structure Decimal where
  /-- The digits before the point. -/
  whole : List Char
  /-- The digits after it. -/
  fraction : List Char
  /-- The exponent. -/
  exponent : Int
deriving DecidableEq, Repr

namespace Decimal

/-- Read an optional exponent that takes all of the text. -/
def exponent? : List Char → Option Int
  | [] => some 0
  | mark :: cs =>
    if mark = 'e' || mark = 'E' then
      match cs with
      | '+' :: ds => digits? ds
      | '-' :: ds => (digits? ds).map (- ·)
      | ds => digits? ds
    else none
where
  /-- A number of at least one digit. -/
  digits? (ds : List Char) : Option Int :=
    if !ds.isEmpty && ds.all Char.isDigit then some (digitsValue ds : Int) else none

/-- Read a decimal literal that takes all of the text. -/
def parse? (cs : List Char) : Option Decimal := do
  let whole := cs.takeWhile Char.isDigit
  let rest := cs.dropWhile Char.isDigit
  let (fraction, rest) :=
    match rest with
    | '.' :: ds => (ds.takeWhile Char.isDigit, ds.dropWhile Char.isDigit)
    | ds => ([], ds)
  if whole.isEmpty && fraction.isEmpty then none
  return ⟨whole, fraction, ← exponent? rest⟩

/-- The number that a decimal literal denotes, rounded to double precision. -/
def value (d : Decimal) : Binary64 :=
  .ofDecimal (digitsValue (d.whole ++ d.fraction)) (d.exponent - d.fraction.length)

end Decimal

/-! ## §4. Literals -/

/-- The number that the text of a numeral denotes. -/
def ofText? (text : String) : Option Binary64 :=
  match text.toList with
  | '0' :: 'x' :: cs => (hexLiteral? cs).map .ofNat
  | '0' :: 'X' :: cs => (hexLiteral? cs).map .ofNat
  | cs => (Decimal.parse? cs).map Decimal.value

end TypedLua.Number
