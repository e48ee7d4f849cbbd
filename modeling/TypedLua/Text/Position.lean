import TypedLua.Text.Bytes

/-!
# TypedLua.Text.Position

Places in a source text.  A position knows its line, the byte column in that line and the byte
offset in the whole text; a span is the stretch between two positions, its end excluded.  Lines and
columns are 32-bit numbers: past the largest of them, counting starts again from zero.

Main statement: `Position.after_offset`, moving over a text adds its size in bytes to the offset.
-/

namespace TypedLua.Text

/-! ## §1. Positions -/

/-- A place in a source text. -/
structure Position where
  /-- The line, counted from one. -/
  line : Nat := 0
  /-- The distance in bytes from the start of the line. -/
  column : Nat := 0
  /-- The distance in bytes from the start of the text. -/
  offset : Nat := 0
deriving DecidableEq, Repr, Inhabited

namespace Position

/-- The start of every text. -/
def origin : Position := ⟨1, 0, 0⟩

/-- A position as people read it, with the column counted from one. -/
def display (p : Position) : String := s!"{p.line}:{(p.column + 1) % UInt32.size}"

/-- The position just past the character `c`; a line feed ends the line. -/
def step (p : Position) (c : Char) : Position :=
  if c = '\n' then ⟨(p.line + 1) % UInt32.size, 0, p.offset + c.utf8Size⟩
  else ⟨p.line, (p.column + c.utf8Size) % UInt32.size, p.offset + c.utf8Size⟩

/-- The position just past the text `cs`. -/
def after (p : Position) (cs : List Char) : Position := cs.foldl step p

@[simp] theorem after_nil (p : Position) : p.after [] = p := rfl

@[simp] theorem after_cons (p : Position) (c : Char) (cs : List Char) :
    p.after (c :: cs) = (p.step c).after cs := rfl

theorem after_append (p : Position) (a b : List Char) :
    p.after (a ++ b) = (p.after a).after b := List.foldl_append

@[simp] theorem step_offset (p : Position) (c : Char) :
    (p.step c).offset = p.offset + c.utf8Size := by
  unfold step
  split <;> rfl

/-- Moving over a text adds its size to the offset. -/
theorem after_offset (p : Position) (cs : List Char) :
    (p.after cs).offset = p.offset + byteLength cs := by
  induction cs generalizing p with
  | nil => simp
  | cons c cs ih => simp [ih, Nat.add_assoc]

end Position

/-! ## §2. Spans -/

/-- A stretch of source text; `stop` is the position just past its last character. -/
structure Span where
  /-- Where the stretch starts. -/
  start : Position := {}
  /-- Where it ends, excluded. -/
  stop : Position := {}
deriving DecidableEq, Repr, Inhabited

namespace Span

/-- The empty span at a position. -/
def point (p : Position) : Span := ⟨p, p⟩

/-- From the start of one span to the end of another. -/
def upTo (a b : Span) : Span := ⟨a.start, b.stop⟩

/-- The byte offsets that the span covers; a span whose end precedes its start covers none. -/
def byteRange (s : Span) : Nat × Nat := (s.start.offset, max s.stop.offset s.start.offset)

/-- Whether the span covers no byte. -/
def isEmpty (s : Span) : Bool := s.stop.offset ≤ s.start.offset

/-- The text under the span, if its ends are usable offsets of `source`. -/
def slice? (s : Span) (source : String) : Option String :=
  (sliceBytes? s.byteRange.1 s.byteRange.2 source.toList).map String.ofList

/-- The text under the span, empty where there is none. -/
def slice (s : Span) (source : String) : String := (s.slice? source).getD ""

end Span

end TypedLua.Text
