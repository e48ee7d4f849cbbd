/-!
# TypedLua.Number.Binary64

Double-precision numbers as their 64 bits, and the rounding of exact values to them.  A value is
given as a quotient of natural numbers and goes to the nearest representable number, a tie to the
one with an even last digit; what is too large becomes infinite.
-/

namespace TypedLua.Number

/-! ## §1. Rounding a quotient -/

/-- The integer nearest to `num / den`, a tie going to the even neighbour. -/
def roundDiv (num den : Nat) : Nat :=
  let q := num / den
  let r := num % den
  if 2 * r < den || (2 * r == den && q % 2 == 0) then q else q + 1

/-! ## §2. Bits -/

/-- A double-precision number, given by its sign, exponent and fraction bits. -/
structure Binary64 where
  /-- The 64 bits. -/
  bits : UInt64
deriving DecidableEq, Repr, Inhabited

namespace Binary64

/-- Positive infinity. -/
def infinity : Binary64 := ⟨0x7ff0000000000000⟩

/-- The quotient `num / den` in units of `2 ^ e`, as numerator and denominator. -/
def inUnits (num den : Nat) (e : Int) : Nat × Nat :=
  if e < 0 then (num <<< e.natAbs, den) else (num, den <<< e.natAbs)

/-- The exponent `e` for which `num / den` lies between `2 ^ 52` and `2 ^ 53` in units of `2 ^ e`,
but never below that of the smallest positive number. -/
def unitExponent (num den : Nat) : Int :=
  let e : Int := (num.log2 : Int) - den.log2 - 52
  let (n, d) := inUnits num den e
  max (if n / d < 1 <<< 52 then e - 1 else e) (-1074)

/-- The number nearest to `num / den`. -/
def ofRatio (num den : Nat) : Binary64 :=
  if num = 0 then ⟨0⟩
  else
    let e := unitExponent num den
    let (n, d) := inUnits num den e
    let bits := ((e + 1074).toNat <<< 52) + roundDiv n d
    if bits < 0x7ff0000000000000 then ⟨UInt64.ofNat bits⟩ else infinity

/-- The number nearest to a natural number. -/
def ofNat (n : Nat) : Binary64 := ofRatio n 1

/-- The number nearest to `mantissa * 10 ^ exponent`.  Beyond the range of the format the power is
not computed. -/
def ofDecimal (mantissa : Nat) (exponent : Int) : Binary64 :=
  let magnitude := exponent + (Nat.toDigits 10 mantissa).length
  if mantissa = 0 || magnitude < -330 then ⟨0⟩
  else if 310 < magnitude then infinity
  else if exponent < 0 then ofRatio mantissa (Nat.pow 10 exponent.natAbs)
  else ofRatio (mantissa * Nat.pow 10 exponent.natAbs) 1

/-- The number with the opposite sign. -/
def neg (x : Binary64) : Binary64 := ⟨x.bits ^^^ 0x8000000000000000⟩

/-- Twice the number. -/
def double (x : Binary64) : Binary64 :=
  let sign := x.bits &&& 0x8000000000000000
  let rest := x.bits &&& 0x7fffffffffffffff
  if rest < 0x10000000000000 then ⟨sign ||| (rest <<< 1)⟩
  else if rest < 0x7fe0000000000000 then ⟨sign ||| (rest + 0x10000000000000)⟩
  else if rest < 0x7ff0000000000000 then ⟨sign ||| 0x7ff0000000000000⟩
  else x

end Binary64

end TypedLua.Number
