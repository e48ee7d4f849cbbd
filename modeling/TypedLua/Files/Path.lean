/-!
# TypedLua.Files.Path

Paths as text with slashes.  Repeated slashes and the name `.` after the start of a path mean
nothing; the name `..` is kept, since what it means depends on the files.

Main statement: `Path.join_of_isAbsolute`, joining an absolute path forgets the left side.
-/

namespace TypedLua

/-- A path, as written. -/
structure Path where
  /-- The text. -/
  text : String
deriving DecidableEq, Repr, Inhabited

namespace Path

/-! ## §1. Names -/

/-- The parts of a text between slashes. -/
def splitSlashes : List Char → List (List Char)
  | [] => [[]]
  | c :: cs =>
    if c = '/' then [] :: splitSlashes cs
    else
      match splitSlashes cs with
      | part :: parts => (c :: part) :: parts
      | [] => [[c]]

/-- Whether the path starts at the root. -/
def isAbsolute (p : Path) : Bool := p.text.toList.head? == some '/'

/-- Whether the path starts with the name `.`. -/
def startsHere (p : Path) : Bool :=
  match p.text.toList with
  | ['.'] => true
  | '.' :: '/' :: _ => true
  | _ => false

/-- Whether a name may be left out of a path without changing its meaning. -/
def isVoid (name : String) : Bool := name == "" || name == "."

/-- The text before the names: the root, a leading `.`, or nothing. -/
def head (p : Path) : List Char := if p.isAbsolute || p.startsHere then p.text.toList.take 1 else []

/-- The parts after the head, without meaningless ones at the end. -/
def tail (p : Path) : List String :=
  let parts := (splitSlashes (p.text.toList.drop p.head.length)).map String.ofList
  (parts.reverse.dropWhile isVoid).reverse

/-- The names that the path goes through. -/
def names (p : Path) : List String := p.tail.filter fun name => !isVoid name

/-- The path with the given head and parts. -/
def ofParts (head : List Char) (parts : List String) : Path :=
  ⟨String.ofList head ++ "/".intercalate parts⟩

/-! ## §2. Directory and file name -/

/-- The path without its last name; a path without names has none, except that of `.`. -/
def parent? (p : Path) : Option Path :=
  if p.tail.isEmpty then
    if p.startsHere then some ⟨""⟩ else none
  else some (ofParts p.head (p.tail.dropLast.reverse.dropWhile isVoid).reverse)

/-- The last name of the path, unless that is `..`. -/
def fileName? (p : Path) : Option String :=
  match p.tail.getLast? with
  | some name => if name == ".." then none else some name
  | none => none

/-- A file name without its extension; a leading point starts none. -/
def stem (name : String) : String :=
  let reversed := name.toList.reverse
  match reversed.dropWhile (· != '.') with
  | _ :: before => if before.isEmpty then name else String.ofList before.reverse
  | [] => name

/-! ## §3. Joining -/

/-- The path `q` seen from `p`; an absolute path stays as it is. -/
def join (p q : Path) : Path :=
  if q.isAbsolute || p.text == "" then q
  else if p.text.toList.getLast? == some '/' then ⟨p.text ++ q.text⟩
  else ⟨p.text ++ "/" ++ q.text⟩

/-- Joining an absolute path forgets the left side. -/
theorem join_of_isAbsolute {p q : Path} (h : q.isAbsolute = true) : p.join q = q := by
  simp [join, h]

/-- The path seen from the root, when `here` is the working directory.  The empty path has none. -/
def absolute? (here : String) (p : Path) : Option Path :=
  match p.text.toList with
  | [] => none
  | cs =>
    let base :=
      if !p.isAbsolute then here
      else if cs.take 2 == ['/', '/'] && cs.take 3 != ['/', '/', '/'] then "//"
      else "/"
    let path := p.names.foldl (fun (q : Path) name => q.join ⟨name⟩) ⟨base⟩
    some (if cs.getLast? == some '/' then path.join ⟨""⟩ else path)

/-- The path seen from the root, or the path itself if it is empty. -/
def absolute (here : String) (p : Path) : Path := (p.absolute? here).getD p

end Path

end TypedLua
