import TypedLua.Types.Arena

/-!
# TypedLua.Types.Display

The text of a type.  An id that denotes nothing shows as invalid.
-/

namespace TypedLua.TypeArena

/-- A list of texts with commas between them. -/
def commaList (texts : List String) : String := ", ".intercalate texts

/-- The text of a property, given the text of types. -/
def displayProperty (type : TypeId → String) (p : Property) : String :=
  p.name ++ (if p.optional then "?: " else ": ") ++ type p.type

/-- The text of a shape, given the text of its parts. -/
def displayShape (type : TypeId → String) : Shape → String
  | .primitive p => p.name
  | .generic name => name
  | .array element => type element ++ "[]"
  | .vararg element => "..." ++ type element
  | .function arguments returns =>
    let results := if returns.isEmpty then "void" else commaList (returns.map type)
    "(" ++ commaList (arguments.map type) ++ "): " ++ results
  | .table [] => "\x7b\x7d"
  | .table properties =>
    "\x7b " ++ commaList (properties.map (displayProperty type)) ++ " \x7d"
  | .interface name [] _ => name
  | .interface name generics _ => name ++ "<" ++ commaList (generics.map type) ++ ">"

/-- The text of an id that denotes no type. -/
def displayInvalid (id : TypeId) : String := s!"InvalidType({id.index})"

/-- The text of a type that is nested at most `fuel` deep. -/
def displayWithin (a : TypeArena) : Nat → TypeId → String
  | 0, id => displayInvalid id
  | fuel + 1, id =>
    match a.get? id with
    | some s => displayShape (a.displayWithin fuel) s
    | none => displayInvalid id

/-- The text of a type.  A type is nested less deep than there are types. -/
def display (a : TypeArena) (id : TypeId) : String := a.displayWithin (a.size + 1) id

/-- The texts of types with commas between them. -/
def displayList (a : TypeArena) (ids : List TypeId) : String := commaList (ids.map a.display)

end TypedLua.TypeArena
