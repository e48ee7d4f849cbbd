import TypedLua.Text.Escape
import TypedLua.Text.Position
import TypedLua.Token.Kind

/-!
# TypedLua.Token.Basic

A token is a kind with its text and the place where it stands.  The text of a string token is its
value, with quotes removed and escapes resolved; the text of any other token is what is written in
the source.
-/

namespace TypedLua

open Text

/-- One token of a source text. -/
structure Token where
  /-- What the token is. -/
  kind : Token.Kind
  /-- Its text. -/
  text : String
  /-- Where it stands. -/
  span : Span
deriving DecidableEq, Repr, Inhabited

namespace Token

/-- The token that ends every text. -/
def eof (p : Position) : Token := ⟨.eof, "", .point p⟩

/-- A token of the given kind and text, as it is named in messages. -/
def Kind.describe (k : Kind) (text : String) : String :=
  match k with
  | .string => "\"" ++ escape text ++ "\""
  | .number => text
  | .identifier => s!"'{text}'"
  | k => k.display

/-- The token as it is named in messages. -/
def display (t : Token) : String := t.kind.describe t.text

end Token

end TypedLua
