/-!
# TypedLua.Token.LongBracket

Long brackets: `[`, some number of `=` (the level), `[`, any text, and the first `]` that is
followed by the same number of `=` and another `]`.  One line break right after the opening bracket
is not part of the text.

Main statement: `readLong?_eq_some`, opening, dropped break, text, closing and rest together are the
input.
-/

namespace TypedLua.Token

/-! ## §1. Brackets -/

/-- The opening bracket of a level. -/
def opener (level : Nat) : List Char := '[' :: (List.replicate level '=' ++ ['['])

/-- The closing bracket of a level. -/
def closer (level : Nat) : List Char := ']' :: (List.replicate level '=' ++ [']'])

/-- The level of the long bracket that the text starts with. -/
def longLevel? : List Char → Option Nat
  | '[' :: cs =>
    match cs.dropWhile (· == '=') with
    | '[' :: _ => some (cs.takeWhile (· == '=')).length
    | _ => none
  | _ => none

/-! ## §2. Reading -/

/-- The line break that the text starts with, empty if there is none. -/
def leadingBreak : List Char → List Char
  | '\r' :: '\n' :: _ => ['\r', '\n']
  | '\n' :: _ => ['\n']
  | _ => []

/-- The text before the first closing bracket of the level, and the text after that bracket. -/
def splitCloser? (level : Nat) : List Char → Option (List Char × List Char)
  | [] => none
  | c :: cs =>
    if (closer level).isPrefixOf (c :: cs) then some ([], (c :: cs).drop (closer level).length)
    else (splitCloser? level cs).map fun (a, b) => (c :: a, b)

/-- A long bracket that was read. -/
structure LongText where
  /-- All that was read, brackets included. -/
  body : List Char
  /-- The text between the brackets, less a leading line break. -/
  value : List Char
  /-- The text after the closing bracket. -/
  rest : List Char
deriving Repr

/-- Read the long bracket of the given level that the text starts with; nothing if it is never
closed. -/
def readLong? (level : Nat) (cs : List Char) : Option LongText :=
  let head := cs.take (opener level).length
  let inner := cs.drop (opener level).length
  let lineBreak := leadingBreak inner
  (splitCloser? level (inner.drop lineBreak.length)).map fun (value, rest) =>
    ⟨head ++ lineBreak ++ value ++ closer level, value, rest⟩

/-! ## §3. Nothing is lost -/

theorem leadingBreak_append_drop (cs : List Char) :
    leadingBreak cs ++ cs.drop (leadingBreak cs).length = cs := by
  unfold leadingBreak
  split <;> simp

theorem splitCloser?_eq_some {level : Nat} {cs value rest : List Char}
    (h : splitCloser? level cs = some (value, rest)) : value ++ closer level ++ rest = cs := by
  induction cs generalizing value rest with
  | nil => simp [splitCloser?] at h
  | cons c cs ih =>
    rw [splitCloser?] at h
    split at h
    · next hp =>
      obtain ⟨t, ht⟩ := List.isPrefixOf_iff_prefix.1 hp
      simp only [Option.some.injEq, Prod.mk.injEq] at h
      obtain ⟨rfl, rfl⟩ := h
      rw [← ht]
      simp
    · obtain ⟨⟨x, y⟩, hxy, he⟩ := Option.map_eq_some_iff.1 h
      simp only [Prod.mk.injEq] at he
      obtain ⟨rfl, rfl⟩ := he
      simp [← ih hxy]

/-- What is read and the rest together are the input. -/
theorem readLong?_eq_some {level : Nat} {cs : List Char} {t : LongText}
    (h : readLong? level cs = some t) : t.body ++ t.rest = cs := by
  obtain ⟨⟨value, rest⟩, hs, rfl⟩ := Option.map_eq_some_iff.1 h
  have hc := splitCloser?_eq_some hs
  calc
    _ = cs.take (opener level).length ++
        (leadingBreak (cs.drop (opener level).length) ++ (value ++ closer level ++ rest)) := by
      simp
    _ = cs := by rw [hc, leadingBreak_append_drop, List.take_append_drop]

end TypedLua.Token
