import TypedLua.Text.Position
import TypedLua.Types.Basic

/-!
# TypedLua.Scope.Variable

Variables and their arena.  A variable is known by its id, its place in the order of declaration;
the arena only ever grows.
-/

namespace TypedLua

open Text

/-- The id of a variable: its place in the order of declaration. -/
structure VariableId where
  /-- The place. -/
  index : Nat
deriving DecidableEq, Repr, Inhabited

/-- A declared name with its type. -/
structure Variable where
  /-- The name. -/
  name : String
  /-- The declared type. -/
  type : TypeId
  /-- Where the name is declared. -/
  span : Span
  /-- Whether it stands for any number of arguments. -/
  variadic : Bool := false
deriving DecidableEq, Repr, Inhabited

/-- The variables of a session, in the order of declaration. -/
structure VariableArena where
  /-- The variables, each at the place that is its id. -/
  vars : List Variable := []
deriving DecidableEq, Repr, Inhabited

namespace VariableArena

/-- How many variables there are. -/
def size (a : VariableArena) : Nat := a.vars.length

/-- The variable that an id denotes. -/
def get? (a : VariableArena) (id : VariableId) : Option Variable := a.vars[id.index]?

/-- Add a variable. -/
def alloc (v : Variable) : StateM VariableArena VariableId := fun a =>
  (⟨a.size⟩, ⟨a.vars ++ [v]⟩)

/-- The declared type of a variable; one that does not exist has type `any`. -/
def typeOf (a : VariableArena) (id : VariableId) : TypeId :=
  ((a.get? id).map Variable.type).getD .any

/-- The name of a variable; one that does not exist has none. -/
def nameOf (a : VariableArena) (id : VariableId) : String :=
  ((a.get? id).map Variable.name).getD ""

/-- The id given to a variable denotes it. -/
theorem get?_alloc (a : VariableArena) (v : Variable) :
    (alloc v a).2.get? (alloc v a).1 = some v := by
  simp [alloc, get?, size]

end VariableArena

end TypedLua
