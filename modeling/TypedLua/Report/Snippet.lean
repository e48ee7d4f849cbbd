import TypedLua.Report.Excerpt
import TypedLua.Text.Width

/-!
# TypedLua.Report.Snippet

The detailed form of a diagnostic: the source lines it is about, with their numbers in a gutter and
the span marked by carets, or by a bracket at the left if it runs over several lines.
-/

namespace TypedLua.Snippet

open Text

/-! ## §1. Source lines -/

/-- The lines of a text, each with the line feed that ends it. -/
def fullLines : List Char → List (List Char)
  | [] => [[]]
  | c :: cs =>
    if c = '\n' then [c] :: fullLines cs
    else
      match fullLines cs with
      | line :: lines => (c :: line) :: lines
      | [] => [[c]]

/-- A place by the index of its line and its byte offset in that line. -/
structure LinePlace where
  /-- The index of the line. -/
  line : Nat
  /-- The byte offset in the line. -/
  byte : Nat
deriving DecidableEq, Repr

/-- Where a byte offset lies; an offset right after a line feed lies on the next line. -/
def locate : List (List Char) → Nat → LinePlace
  | [], n => ⟨0, n⟩
  | [_], n => ⟨0, n⟩
  | line :: lines, n =>
    if n < byteLength line then ⟨0, n⟩
    else
      let p := locate lines (n - byteLength line)
      { p with line := p.line + 1 }

/-- A line without the line ends and null characters at its end. -/
def trimLine (line : List Char) : List Char :=
  (line.reverse.dropWhile fun c => c == '\n' || c == '\r' || c == '\x00').reverse

/-- How wide a tab stop is. -/
def tabWidth : Nat := 4

/-- A character of a line with its byte offset and the columns that it takes. -/
structure Cell where
  /-- The character. -/
  char : Char
  /-- Its byte offset in the line. -/
  byte : Nat
  /-- The columns that it takes. -/
  width : Nat
deriving Repr

/-- The characters of a line, which goes on at the given byte and column.  A tab goes on to the next
tab stop. -/
def cells (byte column : Nat) : List Char → List Cell
  | [] => []
  | c :: cs =>
    let width := if c = '\t' then tabWidth - column % tabWidth else columns c
    ⟨c, byte, width⟩ :: cells (byte + c.utf8Size) (column + width) cs

/-- The cells of a whole line. -/
def lineCells (line : List Char) : List Cell := cells 0 0 (trimLine line)

/-- A line as it is printed, with tabs as blanks. -/
def printed (line : List Char) : List Char :=
  (lineCells line).flatMap fun cell =>
    if cell.char = '\t' then List.replicate cell.width ' ' else [cell.char]

/-! ## §2. Marks -/

/-- The carets under the bytes from `first` up to `last` of a line; at least one byte is marked,
which may be the place after the end of the line. -/
def carets (line : List Char) (first last : Nat) : List Char :=
  let last := max last (first + 1)
  let row := lineCells line
  let trailing : Cell := ⟨'\x00', byteLength (trimLine line), 1⟩
  (row ++ [trailing]).flatMap fun cell =>
    if cell.byte < last && first < cell.byte + cell.char.utf8Size then
      List.replicate cell.width '^'
    else if cell.byte < last then List.replicate cell.width ' '
    else []

/-- A rule as wide as the characters of the line that start before byte `limit`. -/
def rule (line : List Char) (limit : Nat) : List Char :=
  (lineCells line).flatMap fun cell =>
    if cell.byte < limit then List.replicate cell.width '─' else []

/-- Whether `c` is white space. -/
def isSpace (c : Char) : Bool :=
  inRuns c.toNat [9, 5, 18, 1, 100, 1, 26, 1, 5599, 1, 2431, 11, 29, 2, 5, 1, 47, 1, 4000, 1]

/-- The size in bytes of the white space that a line starts with, less its line end. -/
def indent (line : List Char) : Nat := byteLength ((trimLine line).takeWhile isSpace)

/-! ## §3. Rows -/

/-- How many lines are shown after the first line of a span. -/
def linesAfterStart : Nat := 3

/-- How many lines are shown before the last line of a span. -/
def linesBeforeStop : Nat := 1

/-- The blanks in place of a line number, when numbers take `width` columns. -/
def emptyGutter (width : Nat) : String := Diagnostic.repeated (width + 1) ' '

/-- The number of the line with the given index, right-aligned. -/
def gutter (width index : Nat) : String :=
  let number := toString (index + 1)
  Diagnostic.repeated (width - number.length) ' ' ++ number ++ " "

/-- The rows for a span within one line. -/
def singleRows (width : Nat) (lines : List (List Char)) (start stop : LinePlace) : List String :=
  let line := lines.getD start.line []
  [emptyGutter width ++ "│",
   gutter width start.line ++ "│ " ++ String.ofList (printed line),
   emptyGutter width ++ "│ " ++ String.ofList (carets line start.byte stop.byte)]

/-- Whether a line inside a span is shown. -/
def isShown (start stop : LinePlace) (index : Nat) : Bool :=
  index - start.line ≤ linesAfterStart || stop.line - index ≤ linesBeforeStop

/-- The rows for the lines inside a span; a single hidden line is shown after all, more of them are
left out. -/
def innerRows (width : Nat) (lines : List (List Char)) (start stop : LinePlace) : List String :=
  let inner := (List.range stop.line).filter (start.line < ·)
  let hidden := inner.filter fun index => !isShown start stop index
  inner.flatMap fun index =>
    if isShown start stop index || hidden.length == 1 then
      [gutter width index ++ "│ │ " ++ String.ofList (printed (lines.getD index []))]
    else if hidden.head? == some index then [emptyGutter width ++ "· │"]
    else []

/-- The rows for a span over several lines. -/
def multiRows (width : Nat) (lines : List (List Char)) (start stop : LinePlace) : List String :=
  let first := lines.getD start.line []
  let last := lines.getD stop.line []
  let opening :=
    if start.byte ≤ indent first then
      [gutter width start.line ++ "│ ╭ " ++ String.ofList (printed first)]
    else
      [gutter width start.line ++ "│   " ++ String.ofList (printed first),
       emptyGutter width ++ "│ ╭" ++ String.ofList (rule first (start.byte + 1)) ++ "^"]
  [emptyGutter width ++ "│  "] ++ opening ++ innerRows width lines start stop ++
    [gutter width stop.line ++ "│ │ " ++ String.ofList (printed last),
     emptyGutter width ++ "│ ╰" ++ String.ofList (rule last stop.byte) ++ "^"]

/-- The column of a place, counted in characters from one. -/
def columnNumber (lines : List (List Char)) (p : LinePlace) : Nat :=
  ((cells 0 0 (lines.getD p.line [])).filter fun cell => cell.byte < p.byte).length + 1

/-- The detailed form of a diagnostic whose span lies in the source. -/
def render (d : Diagnostic) (file : SourceFile) : String :=
  let lines := fullLines file.text.toList
  let (first, last) := d.span.byteRange
  let start := locate lines first
  let stop := locate lines last
  let width := (toString (stop.line + 1)).length
  let place := s!"{file.path.text}:{start.line + 1}:{columnNumber lines start}"
  let rows :=
    if start.line = stop.line then singleRows width lines start stop
    else multiRows width lines start stop
  "\n".intercalate
    (["error: " ++ d.message, emptyGutter width ++ "┌─ " ++ place] ++ rows ++ ["", ""])

end TypedLua.Snippet

namespace TypedLua.Diagnostic

/-- What is printed for a diagnostic: the detailed form if it is wanted and the span lies in the
source, and the header otherwise. -/
def render (d : Diagnostic) (file : SourceFile) (detailed : Bool) : String :=
  if detailed && (d.span.slice? file.text).isSome then Snippet.render d file
  else d.header file ++ "\n"

end TypedLua.Diagnostic
