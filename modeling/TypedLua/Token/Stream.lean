import TypedLua.Fault

/-!
# TypedLua.Token.Stream

The tokens of a source text in order, with their places.  A text is read once into a list of
readings, each a token or a fault, ending with the end-of-text token.  A stream stands at a current
token; moving on takes the next reading, and a fault leaves the current token as it was.

Main statement: `Stream.upcoming_next`, every move takes one reading off the list until none is
left.
-/

namespace TypedLua.Token

open Text

/-! ## §1. Readings -/

/-- A token of the text, or a fault in its place. -/
abbrev Reading := Except Fault Token

/-- Where a reading ends. -/
def Reading.stop : Reading → Position
  | .ok t => t.span.stop
  | .error f => f.span.stop

/-- Give a lexeme its place, when the text before it ends at `p`. -/
def Lexeme.place (p : Position) (l : Lexeme) : Reading :=
  let start := p.after l.lead
  let span : Span := ⟨start, start.after l.body⟩
  match l.outcome with
  | .ok (kind, text) => .ok ⟨kind, text, span⟩
  | .error cause => .error ⟨span, .lexical cause⟩

/-- The readings of a text that starts at `p`, at most `fuel` before the end-of-text token. -/
def readingsFrom : Nat → Position → List Char → List Reading
  | 0, p, cs => [.ok (.eof (p.after cs))]
  | fuel + 1, p, cs =>
    let l := Lexeme.read cs
    let r := l.place p
    match l.outcome with
    | .ok (.eof, _) => [r]
    | _ => r :: readingsFrom fuel r.stop l.rest

/-- The readings of a whole text; every one but the last takes at least one character. -/
def readings (source : String) : List Reading :=
  readingsFrom source.toList.length .origin source.toList

/-! ## §2. Streams -/

/-- A place in the sequence of readings. -/
structure Stream where
  /-- The token that the stream stands at. -/
  current : Token
  /-- Where the reading that was taken last ends. -/
  position : Position
  /-- The readings that follow. -/
  upcoming : List Reading
deriving Repr

namespace Stream

/-- Move on by one reading.  A fault leaves the current token as it was. -/
def next (s : Stream) : Except Fault Unit × Stream :=
  match s.upcoming with
  | [] => (.ok (), s)
  | .ok t :: rest => (.ok (), ⟨t, t.span.stop, rest⟩)
  | .error f :: rest => (.error f, ⟨s.current, f.span.stop, rest⟩)

/-- The stream of a text, standing at its first token. -/
def ofSource (source : String) : Except Fault Stream :=
  let start : Stream := ⟨.eof .origin, .origin, readings source⟩
  match start.next with
  | (.ok (), s) => .ok s
  | (.error f, _) => .error f

/-- The token `count` moves ahead, or the end-of-text token if that comes first. -/
def peek : Nat → Stream → Except Fault Token
  | 0, s => .ok s.current
  | count + 1, s =>
    if s.current.kind = .eof then .ok s.current
    else
      match s.next with
      | (.ok (), s) => peek count s
      | (.error f, _) => .error f

/-- The current token and all that follow. -/
def tokens (s : Stream) : Except Fault (List Token) :=
  if s.current.kind = .eof then .ok [s.current]
  else (s.upcoming.mapM id).map (s.current :: ·)

@[simp] theorem upcoming_next (s : Stream) : s.next.2.upcoming = s.upcoming.tail := by
  unfold next
  split <;> simp_all

end Stream

/-- All tokens of a text. -/
def tokenize (source : String) : Except Fault (List Token) := do
  let s ← Stream.ofSource source
  s.tokens

end TypedLua.Token
