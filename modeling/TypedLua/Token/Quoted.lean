/-!
# TypedLua.Token.Quoted

Short strings: the text after an opening quote up to the same quote, with backslash escapes.  A raw
line break or the end of the text leaves the string unfinished; an escape that has no meaning stops
the reading right after it.

Main statement: `readQuoted_text`, what was read and the rest together are the input.
-/

namespace TypedLua.Token

/-- The character that an escape stands for, given the character after the backslash. -/
def unescape? : Char → Option Char
  | 'n' => some '\n'
  | 't' => some '\t'
  | 'r' => some '\r'
  | 'a' => some '\x07'
  | 'b' => some '\x08'
  | 'f' => some '\x0c'
  | 'v' => some '\x0b'
  | '\\' => some '\\'
  | '"' => some '"'
  | '\'' => some '\''
  | '\n' => some '\n'
  | _ => none

/-- How the reading of a short string ends. -/
inductive Quoted where
  /-- The closing quote was found: the value, all that was read, and the text after it. -/
  | closed (value body rest : List Char)
  /-- The string is unfinished: what was read, and the text where the reading stopped. -/
  | unfinished (body rest : List Char)
  /-- An escape without meaning: what precedes its backslash, its character, the text after it. -/
  | badEscape (before : List Char) (escaped : Char) (rest : List Char)
deriving Repr

namespace Quoted

/-- Put source text that stands for `value` in front. -/
def push (text value : List Char) : Quoted → Quoted
  | closed v b r => closed (value ++ v) (text ++ b) r
  | unfinished b r => unfinished (text ++ b) r
  | badEscape b c r => badEscape (text ++ b) c r

/-- The source text that was read. -/
def body : Quoted → List Char
  | closed _ b _ => b
  | unfinished b _ => b
  | badEscape b c _ => b ++ ['\\', c]

/-- The source text that was not read. -/
def rest : Quoted → List Char
  | closed _ _ r => r
  | unfinished _ r => r
  | badEscape _ _ r => r

@[simp] theorem body_closed (v b r : List Char) : (closed v b r).body = b := rfl

@[simp] theorem body_unfinished (b r : List Char) : (unfinished b r).body = b := rfl

@[simp] theorem body_badEscape (b : List Char) (c : Char) (r : List Char) :
    (badEscape b c r).body = b ++ ['\\', c] := rfl

@[simp] theorem rest_closed (v b r : List Char) : (closed v b r).rest = r := rfl

@[simp] theorem rest_unfinished (b r : List Char) : (unfinished b r).rest = r := rfl

@[simp] theorem rest_badEscape (b : List Char) (c : Char) (r : List Char) :
    (badEscape b c r).rest = r := rfl

@[simp] theorem body_push (text value : List Char) (q : Quoted) :
    (q.push text value).body = text ++ q.body := by
  cases q <;> simp [push, body]

@[simp] theorem rest_push (text value : List Char) (q : Quoted) :
    (q.push text value).rest = q.rest := by
  cases q <;> rfl

end Quoted

/-- Read the text after an opening quote. -/
def readQuoted (quote : Char) : List Char → Quoted
  | [] => .unfinished [] []
  | ['\\'] => .unfinished ['\\'] []
  | '\\' :: c :: cs =>
    match unescape? c with
    | some v => (readQuoted quote cs).push ['\\', c] [v]
    | none => .badEscape [] c cs
  | c :: cs =>
    if c = '\n' || c = '\r' then .unfinished [] (c :: cs)
    else if c = quote then .closed [] [c] cs
    else (readQuoted quote cs).push [c] [c]

/-- What was read and the rest together are the input. -/
theorem readQuoted_text (quote : Char) (cs : List Char) :
    (readQuoted quote cs).body ++ (readQuoted quote cs).rest = cs := by
  fun_induction readQuoted quote cs <;> simp_all

end TypedLua.Token
