import TypedLua.Scope.Bindings
import TypedLua.Scope.Variable

/-!
# TypedLua.Scope.Stack

Lexical scopes.  A scope binds variables and types and records what its block exports; the open
scopes form a stack, and a name means what the innermost scope that binds it says.
-/

namespace TypedLua

/-! ## §1. Scopes -/

/-- What one block binds and exports. -/
structure Scope where
  /-- The variables that the block declares. -/
  vars : Bindings VariableId := {}
  /-- The types that it defines. -/
  types : Bindings TypeId := {}
  /-- The variables that it exports. -/
  exportedVariables : Bindings VariableId := {}
  /-- The types that it exports. -/
  exportedTypes : Bindings TypeId := {}
deriving DecidableEq, Repr, Inhabited

/-- The open scopes, the innermost first. -/
structure ScopeStack where
  /-- The scopes. -/
  scopes : List Scope := []
deriving DecidableEq, Repr, Inhabited

namespace ScopeStack

/-! ## §2. Opening and closing -/

/-- Open a scope. -/
def push (s : ScopeStack) (scope : Scope) : ScopeStack := ⟨scope :: s.scopes⟩

/-- Close the innermost scope. -/
def pop (s : ScopeStack) : Option Scope × ScopeStack := (s.scopes.head?, ⟨s.scopes.tail⟩)

/-- How many scopes are open. -/
def depth (s : ScopeStack) : Nat := s.scopes.length

/-- Whether exactly one scope is open. -/
def atRoot (s : ScopeStack) : Bool := s.depth == 1

/-- The innermost scope. -/
def current? (s : ScopeStack) : Option Scope := s.scopes.head?

/-- Change the innermost scope, if one is open. -/
def modifyCurrent (s : ScopeStack) (f : Scope → Scope) : ScopeStack :=
  match s.scopes with
  | [] => s
  | scope :: rest => ⟨f scope :: rest⟩

/-! ## §3. Names -/

/-- The variable that a name means. -/
def resolveVariable (s : ScopeStack) (name : String) : Option VariableId :=
  s.scopes.findSome? (·.vars.find? name)

/-- The type that a name means. -/
def resolveType (s : ScopeStack) (name : String) : Option TypeId :=
  s.scopes.findSome? (·.types.find? name)

/-- Bind a variable in the innermost scope, hiding what the name meant there. -/
def defineVariable (s : ScopeStack) (name : String) (id : VariableId) : ScopeStack :=
  s.modifyCurrent fun scope => { scope with vars := scope.vars.insert name id }

/-- Bind a variable in the innermost scope; nothing if that scope binds the name already. -/
def declareVariable? (s : ScopeStack) (name : String) (id : VariableId) : Option ScopeStack :=
  if s.current?.any (·.vars.contains name) then none else some (s.defineVariable name id)

/-- Bind a type in the innermost scope; nothing if that scope binds the name already. -/
def defineType? (s : ScopeStack) (name : String) (id : TypeId) : Option ScopeStack :=
  if s.current?.any (·.types.contains name) then none
  else some (s.modifyCurrent fun scope => { scope with types := scope.types.insert name id })

/-- Export a variable from the innermost scope. -/
def exportVariable (s : ScopeStack) (name : String) (id : VariableId) : ScopeStack :=
  s.modifyCurrent fun scope =>
    { scope with exportedVariables := scope.exportedVariables.insert name id }

/-- Export a type from the innermost scope. -/
def exportType (s : ScopeStack) (name : String) (id : TypeId) : ScopeStack :=
  s.modifyCurrent fun scope => { scope with exportedTypes := scope.exportedTypes.insert name id }

end ScopeStack

end TypedLua
