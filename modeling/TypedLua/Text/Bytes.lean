/-!
# TypedLua.Text.Bytes

Sizes and cuts of a text counted in UTF-8 bytes.  A text is a list of characters; a byte offset is
usable only where a character starts or the text ends, so a cut anywhere else gives nothing.
-/

namespace TypedLua.Text

/-! ## §1. Size -/

/-- The number of bytes that the characters take in UTF-8. -/
def byteLength : List Char → Nat
  | [] => 0
  | c :: cs => c.utf8Size + byteLength cs

@[simp] theorem byteLength_nil : byteLength [] = 0 := rfl

@[simp] theorem byteLength_cons (c : Char) (cs : List Char) :
    byteLength (c :: cs) = c.utf8Size + byteLength cs := rfl

@[simp] theorem byteLength_append (a b : List Char) :
    byteLength (a ++ b) = byteLength a + byteLength b := by
  induction a with
  | nil => simp
  | cons c cs ih => simp [ih, Nat.add_assoc]

/-! ## §2. Cuts -/

/-- The text before and after byte `n`; nothing if `n` lies inside a character or past the end. -/
def splitAtByte? : Nat → List Char → Option (List Char × List Char)
  | 0, cs => some ([], cs)
  | _ + 1, [] => none
  | n + 1, c :: cs =>
    if c.utf8Size ≤ n + 1 then
      (splitAtByte? (n + 1 - c.utf8Size) cs).map fun (a, b) => (c :: a, b)
    else none

/-- The text from byte `first` up to byte `last`, when both are usable and in order. -/
def sliceBytes? (first last : Nat) (cs : List Char) : Option (List Char) := do
  if last < first then none
  let (_, rest) ← splitAtByte? first cs
  let (part, _) ← splitAtByte? (last - first) rest
  return part

end TypedLua.Text
