/-!
# TypedLua.Text.Escape

Text shown inside a message: printable ASCII stands for itself, quotes, backslashes and the common
controls get a backslash, and every other character is written as its code point.
-/

namespace TypedLua.Text

/-- The written form of one character. -/
def escapeChar (c : Char) : List Char :=
  if c = '\t' then ['\\', 't']
  else if c = '\r' then ['\\', 'r']
  else if c = '\n' then ['\\', 'n']
  else if c = '\'' || c = '"' || c = '\\' then ['\\', c]
  else if 32 ≤ c.toNat && c.toNat < 127 then [c]
  else ['\\', 'u', '\x7b'] ++ Nat.toDigits 16 c.toNat ++ ['\x7d']

/-- The written form of a text. -/
def escape (text : String) : String := String.ofList (text.toList.flatMap escapeChar)

end TypedLua.Text
