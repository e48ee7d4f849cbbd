import TypedLua.Fault
import TypedLua.Files.SourceFile

/-!
# TypedLua.Report.Excerpt

The short forms of a diagnostic: the header line, the source line it is about, and the mark under
that line.
-/

namespace TypedLua.Diagnostic

open Text

/-! ## §1. Lines -/

/-- The parts of a text between line feeds. -/
def splitLines : List Char → List (List Char)
  | [] => [[]]
  | c :: cs =>
    if c = '\n' then [] :: splitLines cs
    else
      match splitLines cs with
      | line :: lines => (c :: line) :: lines
      | [] => [[c]]

/-- A line without a carriage return at its end. -/
def withoutReturn (line : List Char) : List Char :=
  if line.getLast? == some '\r' then line.dropLast else line

/-- The line of the source that the diagnostic starts on, empty if there is none. -/
def sourceLine (d : Diagnostic) (source : String) : String :=
  match (splitLines source.toList)[d.span.start.line - 1]? with
  | some line => String.ofList (withoutReturn line)
  | none => ""

/-! ## §2. Forms -/

/-- A text of `n` equal characters. -/
def repeated (n : Nat) (c : Char) : String := String.ofList (List.replicate n c)

/-- The source line with its number, and the start of the line below it. -/
def snapshot (d : Diagnostic) (source : String) : String :=
  let gutter := s!"  {d.span.start.line} "
  gutter ++ "| " ++ d.sourceLine source ++ "\n" ++ repeated gutter.length ' ' ++ "| "

/-- The mark under the source line, when that line is `lineLength` long.  A span over several lines
is marked to the end of the first. -/
def underline (d : Diagnostic) (lineLength : Nat) : String :=
  let start := d.span.start.column
  let stop := if d.span.start.line = d.span.stop.line then d.span.stop.column else lineLength
  repeated start ' ' ++ "^" ++ repeated (max stop (start + 1) - start - 1) '~'

/-- The diagnostic in one line, for the module kept in `file`. -/
def header (d : Diagnostic) (file : SourceFile) : String :=
  s!"{file.path.text}:{d.span.start.display}: error: {d.message}"

end TypedLua.Diagnostic
