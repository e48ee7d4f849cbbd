import TypedLua.Config.Basic
import TypedLua.Files.Tree
import TypedLua.Number.Literal

/-!
# TypedLua.Config.Document

Reading the switches from a document.  A document is a sequence of lines, each empty or of the form
`key = true` or `key = false`, with an optional comment at its end.  Keys are bare or quoted; every
key is a switch, and none occurs twice.
-/

namespace TypedLua.Config

/-! ## §1. Lines -/

/-- Whether `c` is passed over inside a line. -/
def isPadding (c : Char) : Bool := c == ' ' || c == '\t'

/-- Text after the padding at its head. -/
def skipPadding (cs : List Char) : List Char := cs.dropWhile isPadding

/-- The lines of a document; a line may end with a carriage return. -/
def lines : List Char → List (List Char)
  | [] => [[]]
  | '\r' :: '\n' :: cs => [] :: lines cs
  | '\n' :: cs => [] :: lines cs
  | c :: cs =>
    match lines cs with
    | line :: rest => (c :: line) :: rest
    | [] => [[c]]

/-- Whether `c` may stand in a comment or a literal key. -/
def isPlain (c : Char) : Bool := c == '\t' || (32 ≤ c.toNat && c.toNat != 127)

/-- Whether nothing but padding and a comment is left of a line. -/
def isBlankEnd (cs : List Char) : Bool :=
  match skipPadding cs with
  | [] => true
  | '#' :: comment => comment.all isPlain
  | _ => false

/-! ## §2. Keys -/

/-- Whether `c` may stand in a bare key. -/
def isKeyPart (c : Char) : Bool := c.isAlphanum || c == '_' || c == '-'

/-- The character with the given code point, if there is one. -/
def charOf? (n : Nat) : Option Char := if n.isValidChar then some (Char.ofNat n) else none

/-- The character written by exactly `count` hexadecimal digits, and the text after them. -/
def codePoint? (count : Nat) (cs : List Char) : Option (Char × List Char) := do
  let digits := cs.take count
  if digits.length = count then
    return (← charOf? (← Number.hexValue? digits), cs.drop count)
  else none

/-- The character that an escape stands for, and the text after it. -/
def escape? : List Char → Option (Char × List Char)
  | 'b' :: cs => some ('\x08', cs)
  | 't' :: cs => some ('\t', cs)
  | 'n' :: cs => some ('\n', cs)
  | 'f' :: cs => some ('\x0c', cs)
  | 'r' :: cs => some ('\r', cs)
  | '"' :: cs => some ('"', cs)
  | '\\' :: cs => some ('\\', cs)
  | 'u' :: cs => codePoint? 4 cs
  | 'U' :: cs => codePoint? 8 cs
  | _ => none

/-- The key after a double quote, and the text after its closing quote.  Every character takes at
least one character of text, so `fuel` may be the length of the text. -/
def quotedKey? : Nat → List Char → Option (List Char × List Char)
  | 0, _ => none
  | _ + 1, [] => none
  | _ + 1, '"' :: cs => some ([], cs)
  | fuel + 1, '\\' :: cs => do
    let (c, cs) ← escape? cs
    let (key, rest) ← quotedKey? fuel cs
    return (c :: key, rest)
  | fuel + 1, c :: cs => do
    if isPlain c then
      let (key, rest) ← quotedKey? fuel cs
      return (c :: key, rest)
    else none

/-- The key that a line starts with, and the text after it. -/
def key? : List Char → Option (List Char × List Char)
  | '"' :: cs => quotedKey? (cs.length + 1) cs
  | '\'' :: cs =>
    let key := cs.takeWhile (· != '\'')
    match cs.dropWhile (· != '\'') with
    | _ :: rest => if key.all isPlain then some (key, rest) else none
    | [] => none
  | cs =>
    let key := cs.takeWhile isKeyPart
    if key.isEmpty then none else some (key, cs.dropWhile isKeyPart)

/-! ## §3. Documents -/

/-- The truth value that the text starts with, and the text after it. -/
def truth? : List Char → Option (Bool × List Char)
  | 't' :: 'r' :: 'u' :: 'e' :: cs => some (true, cs)
  | 'f' :: 'a' :: 'l' :: 's' :: 'e' :: cs => some (false, cs)
  | _ => none

/-- The setting that a line makes. -/
def setting? (line : List Char) : Option (Switch × Bool) := do
  let (key, rest) ← key? line
  match skipPadding rest with
  | '=' :: rest =>
    let (on, rest) ← truth? (skipPadding rest)
    if isBlankEnd rest then return (← Switch.ofKey? (String.ofList key), on) else none
  | _ => none

/-- The settings that lines make; a line that is neither empty nor a setting spoils them. -/
def settings? : List (List Char) → Option (List (Switch × Bool))
  | [] => some []
  | line :: rest => do
    let line := skipPadding line
    if isBlankEnd line then settings? rest
    else
      let setting ← setting? line
      return setting :: (← settings? rest)

/-- A text without a byte order mark at its head. -/
def withoutMark : List Char → List Char
  | '\ufeff' :: cs => cs
  | cs => cs

/-- The switches that a document sets, the others as they are by default. -/
def parse? (document : String) : Option Config := do
  let settings ← settings? (lines (withoutMark document.toList))
  if (settings.map Prod.fst).Nodup then
    return settings.foldl (fun c (s, on) => c.set s on) {}
  else none

/-! ## §4. Files -/

/-- Why a configuration cannot be loaded. -/
inductive LoadError where
  /-- The file cannot be read. -/
  | unreadable (cause : ReadError)
  /-- The file is no configuration. -/
  | malformed
deriving DecidableEq, Repr

/-- The configuration file that is looked for in the working directory. -/
def defaultFile : Path := ⟨"lorraine.toml"⟩

/-- The configuration in a file. -/
def ofFile (files : FileTree) (p : Path) : Except LoadError Config :=
  match files.read p with
  | .error e => .error (.unreadable e)
  | .ok document =>
    match parse? document with
    | some c => .ok c
    | none => .error .malformed

/-- The configuration in the given file, or in the default file if there is one. -/
def load (files : FileTree) : Option Path → Except LoadError Config
  | some p => ofFile files p
  | none => if files.isFile defaultFile then ofFile files defaultFile else .ok {}

end TypedLua.Config
