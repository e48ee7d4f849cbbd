import TypedLua.Types.Arena

/-!
# TypedLua.Types.Substitution

Replacing the parameters of a generic interface.  Parts are rebuilt before the type that holds them,
from left to right, and every rebuilt type is interned.

A part may have an id that denotes no type yet; it stays as it is until some rebuilt type takes that
id, and from then on it is rebuilt like any other.  A rebuilt type holds only ids that are older
than its own or were in use before, so that every id met on the way down is below
`TypeArena.idBound`.  No id comes up again inside its own replacement, and there are therefore at
most that many layers.
-/

namespace TypedLua

/-- Apply an action to the type of a property. -/
def Property.mapM {m : Type → Type} [Monad m] (f : TypeId → m TypeId) (p : Property) :
    m Property := do
  return { p with type := ← f p.type }

/-- Apply an action to the parts of a shape, from left to right. -/
def Shape.mapM {m : Type → Type} [Monad m] (f : TypeId → m TypeId) : Shape → m Shape
  | .primitive p => return .primitive p
  | .generic name => return .generic name
  | .array element => return .array (← f element)
  | .vararg element => return .vararg (← f element)
  | .function arguments returns => do
    let arguments ← arguments.mapM f
    let returns ← returns.mapM f
    return .function arguments returns
  | .table properties => return .table (← properties.mapM (·.mapM f))
  | .interface name generics properties => do
    let generics ← generics.mapM f
    let properties ← properties.mapM (·.mapM f)
    return .interface name generics properties

namespace TypeArena

/-- Which type a parameter name stands for; of two entries of one name the first counts. -/
abbrev Replacement := List (String × TypeId)

/-- Replace parameters in a type that is nested at most `fuel` deep. -/
def substituteWithin (r : Replacement) : Nat → TypeId → StateM TypeArena TypeId
  | 0, id => return id
  | fuel + 1, id => do
    match (← get).get? id with
    | none => return id
    | some (.primitive _) => return id
    | some (.generic name) => return (r.lookup name).getD id
    | some shape => intern (← shape.mapM (substituteWithin r fuel))

/-- Replace parameters in a type. -/
def substitute (r : Replacement) (id : TypeId) : StateM TypeArena TypeId := do
  substituteWithin r ((← get).idBound (id :: r.map Prod.snd) + 1) id

/-- The parameter names of an interface with the arguments given for them; a later parameter hides
an earlier one of the same name. -/
def replacement (a : TypeArena) (generics arguments : List TypeId) : Replacement :=
  ((generics.zip arguments).filterMap fun (parameter, argument) =>
    match a.get? parameter with
    | some (.generic name) => some (name, argument)
    | _ => none).reverse

/-- The instance of an interface declaration for the given arguments; nothing if the type is no
interface or the number of arguments is wrong. -/
def instantiate (declaration : TypeId) (arguments : List TypeId) :
    StateM TypeArena (Option TypeId) := do
  let a ← get
  match a.get? declaration with
  | some (.interface name generics properties) =>
    if generics.length = arguments.length then
      let r := a.replacement generics arguments
      let properties ← properties.mapM (·.mapM (substituteWithin r (a.idBound arguments + 1)))
      return some (← intern (.interface name arguments properties))
    else return none
  | _ => return none

end TypeArena

end TypedLua
