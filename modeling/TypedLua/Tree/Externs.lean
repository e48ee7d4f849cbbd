import TypedLua.Tree.Walk

/-!
# TypedLua.Tree.Externs

The symbols that a module expects from elsewhere: one for each `extern` statement, nested blocks
included and imported modules left out.
-/

namespace TypedLua

open Text

/-- A symbol that is defined elsewhere. -/
structure ExternSymbol where
  /-- Its name. -/
  name : String
  /-- The variable that stands for it. -/
  id : VariableId
  /-- Its type. -/
  type : TypeId
  /-- The statement that declares it. -/
  span : Span
deriving DecidableEq, Repr, Inhabited

namespace ExternSymbol

/-- The symbol that a variable stands for. -/
def ofVariable? (vars : VariableArena) (id : VariableId) (span : Span) :
    Option ExternSymbol :=
  (vars.get? id).map fun v => ⟨v.name, id, v.type, span⟩

/-- Records the symbols that a walk comes to. -/
def collector (vars : VariableArena) : Visitor (StateM (List ExternSymbol)) where
  node _ := return .descend
  enter
    | .statement (.externVariable id span) => do
      modify (· ++ (ofVariable? vars id span).toList)
      return .skip
    | .statement (.externFunction head span) => do
      modify (· ++ (ofVariable? vars head.function span).toList)
      return .skip
    | .statement (.imports ..) => return .skip
    | _ => return .descend

end ExternSymbol

/-- The symbols that a module expects from elsewhere, in source order. -/
def Module.externs (m : Module) (vars : VariableArena) : List ExternSymbol :=
  (m.walk (ExternSymbol.collector vars) []).2

end TypedLua
