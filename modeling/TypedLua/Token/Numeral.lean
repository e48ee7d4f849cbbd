/-!
# TypedLua.Token.Numeral

The extent of a numeral.  A numeral starts with a digit, or with a point and a digit, and goes on
over letters, digits, underscores and points; a sign belongs to it only right after an `e` or `E`.
Whether the text denotes a number is decided later, when it is converted.

Main statement: `numeral?_eq_some`, the numeral and the rest together are the input.
-/

namespace TypedLua.Token

/-- Whether `c` belongs to a numeral wherever it stands. -/
def isNumeralPart (c : Char) : Bool := c.isAlphanum || c == '_' || c == '.'

/-- Whether `c` lets a sign follow it. -/
def isExponentMark (c : Char) : Bool := c == 'e' || c == 'E'

/-- The part of the text that belongs to a numeral already started, and the rest; `mark` says
whether the character before was an exponent mark. -/
def numeralTail (mark : Bool) : List Char → List Char × List Char
  | [] => ([], [])
  | c :: cs =>
    if isNumeralPart c || (mark && (c == '+' || c == '-')) then
      let (a, b) := numeralTail (isExponentMark c) cs
      (c :: a, b)
    else ([], c :: cs)

/-- The numeral that the text starts with, and the rest. -/
def numeral? : List Char → Option (List Char × List Char)
  | '.' :: d :: cs =>
    if d.isDigit then
      let (a, b) := numeralTail false cs
      some ('.' :: d :: a, b)
    else none
  | d :: cs =>
    if d.isDigit then
      let (a, b) := numeralTail false cs
      some (d :: a, b)
    else none
  | [] => none

theorem numeralTail_append (mark : Bool) (cs : List Char) :
    (numeralTail mark cs).1 ++ (numeralTail mark cs).2 = cs := by
  induction cs generalizing mark with
  | nil => rfl
  | cons c cs ih =>
    rw [numeralTail]
    split
    · simp [ih]
    · rfl

/-- The numeral and the rest together are the input. -/
theorem numeral?_eq_some {cs a b : List Char} (h : numeral? cs = some (a, b)) : a ++ b = cs := by
  unfold numeral? at h
  split at h
  · split at h
    · obtain ⟨rfl, rfl⟩ := Prod.mk.inj (Option.some.inj h)
      simp [numeralTail_append]
    · simp at h
  · split at h
    · obtain ⟨rfl, rfl⟩ := Prod.mk.inj (Option.some.inj h)
      simp [numeralTail_append]
    · simp at h
  · simp at h

end TypedLua.Token
