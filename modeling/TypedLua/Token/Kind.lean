/-!
# TypedLua.Token.Kind

The kinds of tokens: keywords, symbols, and the classes whose text varies.

Main statement: `Kind.keyword?_eq_some_iff`, a word is the keyword `k` exactly when it is the
spelling of `k`.
-/

namespace TypedLua.Token

/-! ## §1. Kinds -/

/-- What a token is. -/
inductive Kind where
  -- keywords
  | kwAnd | kwBreak | kwDo | kwElse | kwElseif | kwEnd | kwFalse | kwFor | kwFunction | kwIf
  | kwIn | kwLocal | kwNil | kwNot | kwOr | kwRepeat | kwReturn | kwThen | kwTrue | kwUntil
  | kwConst | kwClass | kwConstructor | kwImplicit | kwType | kwImport | kwExport | kwFrom
  | kwExtern | kwInterface | kwWhile
  -- symbols of one character
  | plus | minus | star | slash | percent | caret | greater | less | hash | dot | colon | equals
  | comma | semicolon | leftParen | rightParen | leftBracket | rightBracket | leftBrace
  | rightBrace | tilde | question | pipe
  -- symbols of two and three characters
  | equalEqual | greaterEqual | lessEqual | tildeEqual | dotDot | ellipsis | plusPlus
  | minusMinus | plusEqual | minusEqual | starEqual | slashEqual | percentEqual | caretEqual
  | dotDotEqual | arrow
  -- classes
  | string | number | identifier | eof
deriving DecidableEq, Repr, Inhabited

namespace Kind

/-- The spelling of a keyword or symbol; the classes have none. -/
def text? : Kind → Option String
  | kwAnd => some "and"
  | kwBreak => some "break"
  | kwDo => some "do"
  | kwElse => some "else"
  | kwElseif => some "elseif"
  | kwEnd => some "end"
  | kwFalse => some "false"
  | kwFor => some "for"
  | kwFunction => some "function"
  | kwIf => some "if"
  | kwIn => some "in"
  | kwLocal => some "local"
  | kwNil => some "nil"
  | kwNot => some "not"
  | kwOr => some "or"
  | kwRepeat => some "repeat"
  | kwReturn => some "return"
  | kwThen => some "then"
  | kwTrue => some "true"
  | kwUntil => some "until"
  | kwConst => some "const"
  | kwClass => some "class"
  | kwConstructor => some "constructor"
  | kwImplicit => some "implicit"
  | kwType => some "type"
  | kwImport => some "import"
  | kwExport => some "export"
  | kwFrom => some "from"
  | kwExtern => some "extern"
  | kwInterface => some "interface"
  | kwWhile => some "while"
  | plus => some "+"
  | minus => some "-"
  | star => some "*"
  | slash => some "/"
  | percent => some "%"
  | caret => some "^"
  | greater => some ">"
  | less => some "<"
  | hash => some "#"
  | dot => some "."
  | colon => some ":"
  | equals => some "="
  | comma => some ","
  | semicolon => some ";"
  | leftParen => some "("
  | rightParen => some ")"
  | leftBracket => some "["
  | rightBracket => some "]"
  | leftBrace => some "\x7b"
  | rightBrace => some "\x7d"
  | tilde => some "~"
  | question => some "?"
  | pipe => some "|"
  | equalEqual => some "=="
  | greaterEqual => some ">="
  | lessEqual => some "<="
  | tildeEqual => some "~="
  | dotDot => some ".."
  | ellipsis => some "..."
  | plusPlus => some "++"
  | minusMinus => some "--"
  | plusEqual => some "+="
  | minusEqual => some "-="
  | starEqual => some "*="
  | slashEqual => some "/="
  | percentEqual => some "%="
  | caretEqual => some "^="
  | dotDotEqual => some "..="
  | arrow => some "=>"
  | string | number | identifier | eof => none

/-- The kind as it is named in messages. -/
def display (k : Kind) : String :=
  match k, k.text? with
  | _, some text => s!"'{text}'"
  | string, none => "<string>"
  | number, none => "<number>"
  | identifier, none => "<identifier>"
  | _, none => "<eof>"

/-! ## §2. Keywords -/

/-- The keywords. -/
def keywords : List Kind :=
  [kwAnd, kwBreak, kwDo, kwElse, kwElseif, kwEnd, kwFalse, kwFor, kwFunction, kwIf, kwIn,
   kwLocal, kwNil, kwNot, kwOr, kwRepeat, kwReturn, kwThen, kwTrue, kwUntil, kwConst, kwClass,
   kwConstructor, kwImplicit, kwType, kwImport, kwExport, kwFrom, kwExtern, kwInterface, kwWhile]

/-- Whether the kind is a keyword; these come first among the kinds. -/
def isKeyword (k : Kind) : Bool := k.ctorIdx ≤ kwWhile.ctorIdx

/-- The keyword that a word is. -/
def keyword? (word : String) : Option Kind :=
  List.lookup word
    [("and", kwAnd), ("break", kwBreak), ("do", kwDo), ("else", kwElse), ("elseif", kwElseif),
     ("end", kwEnd), ("false", kwFalse), ("for", kwFor), ("function", kwFunction), ("if", kwIf),
     ("in", kwIn), ("local", kwLocal), ("nil", kwNil), ("not", kwNot), ("or", kwOr),
     ("repeat", kwRepeat), ("return", kwReturn), ("then", kwThen), ("true", kwTrue),
     ("until", kwUntil), ("const", kwConst), ("class", kwClass), ("constructor", kwConstructor),
     ("implicit", kwImplicit), ("type", kwType), ("import", kwImport), ("export", kwExport),
     ("from", kwFrom), ("extern", kwExtern), ("interface", kwInterface), ("while", kwWhile)]

/-- The keywords are the kinds up to the last keyword. -/
theorem isKeyword_iff_mem {k : Kind} : k.isKeyword = true ↔ k ∈ keywords := by
  cases k <;> decide

/-- A table that lists every keyword under its spelling, and nothing else, gives a word the keyword
that it spells. -/
theorem lookup_eq_some_iff {table : List (String × Kind)}
    (hlisted : ∀ entry ∈ table, entry.2 ∈ keywords ∧ entry.2.text? = some entry.1)
    (hall : ∀ k ∈ keywords, k.text?.any fun text => table.lookup text == some k)
    {word : String} {k : Kind} :
    table.lookup word = some k ↔ k ∈ keywords ∧ k.text? = some word := by
  constructor
  · intro h
    obtain ⟨before, after, rfl, -⟩ := List.lookup_eq_some_iff.1 h
    exact hlisted (word, k) (by simp)
  · rintro ⟨hk, htext⟩
    have hfound := hall k hk
    rw [htext] at hfound
    exact beq_iff_eq.1 hfound

/-- A word is the keyword `k` exactly when it is the spelling of `k`. -/
theorem keyword?_eq_some_iff {word : String} {k : Kind} :
    keyword? word = some k ↔ k ∈ keywords ∧ k.text? = some word :=
  lookup_eq_some_iff (by decide) (by decide)

/-! ## §3. Symbols -/

/-- The symbols that can be read, longer ones first.  Two hyphens start a comment, so their kind
is never read. -/
def symbols : List Kind :=
  [ellipsis, dotDotEqual, equalEqual, greaterEqual, lessEqual, tildeEqual, dotDot, plusPlus,
   plusEqual, minusEqual, starEqual, slashEqual, percentEqual, caretEqual, arrow, plus, minus,
   star, slash, percent, caret, greater, less, hash, dot, colon, equals, comma, semicolon,
   leftParen, rightParen, leftBracket, rightBracket, leftBrace, rightBrace, tilde, question,
   pipe]

end Kind

end TypedLua.Token
