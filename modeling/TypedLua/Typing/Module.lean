import TypedLua.Config.Basic
import TypedLua.Tree.Module
import TypedLua.Typing.Expr

/-!
# TypedLua.Typing.Module

Typing statements and modules.  Statements are checked in source order up to the first fault.
Externs are taken at their word, and imported modules were checked when they were loaded.
-/

namespace TypedLua

open Text Typing

/-! ## §1. Local variables -/

/-- Where the values of a declaration at `span` stand. -/
def valuesSpan (values : List Expr) (span : Span) : Span :=
  match values.head?, values.getLast? with
  | some first, some last => first.span.upTo last.span
  | _, _ => span

/-- The values of a declaration of `count` variables, completed with `nil` at its end. -/
def padValues (count : Nat) (values : List Expr) (span : Span) : List Expr :=
  values ++ List.replicate (count - values.length)
    (.nil ⟨.point span.stop, Primitive.nil.typeId⟩)

/-- Check the values of a declaration of local variables. -/
def checkLocals (config : Config) (vars : VariableArena) (targets : List VariableId)
    (values : List Expr) (span : Span) : StateM TypeArena (List Expr × Except Fault Unit) := do
  if targets.length < values.length then
    return (values, .error ⟨valuesSpan values span, .tooManyValues⟩)
  else if values.length < targets.length && !config.imbalancedLocals then
    return (values, .error ⟨valuesSpan values span, .tooFewValues⟩)
  else
    let demands := targets.map fun id => demandOf (vars.typeOf id)
    let (values, found) ←
      Expr.checkEach vars (some .valueMismatch) (padValues targets.length values span) demands
    return (values, found.map fun _ => ())

/-! ## §2. Exported expressions -/

mutual

/-- Check the constructors in an expression that is exported as it is. -/
def Expr.checkConstructors (vars : VariableArena) :
    Expr → StateM TypeArena (Expr × Except Fault Unit)
  | .constructor entries tag => do
    let (e, found) ← (Expr.constructor entries tag).check vars none
    return (e, found.map fun _ => ())
  | .call callee arguments tag => do
    let (callee, found) ← callee.checkConstructors vars
    match found with
    | .error f => return (.call callee arguments tag, .error f)
    | .ok () =>
      let (arguments, found) ← Expr.checkConstructorsAll vars arguments
      return (.call callee arguments tag, found)
  | .member object name tag => do
    let (object, found) ← object.checkConstructors vars
    return (.member object name tag, found)
  | .index object key tag => do
    let (object, found) ← object.checkConstructors vars
    match found with
    | .error f => return (.index object key tag, .error f)
    | .ok () =>
      let (key, found) ← key.checkConstructors vars
      return (.index object key tag, found)
  | .group inner tag => do
    let (inner, found) ← inner.checkConstructors vars
    return (.group inner tag, found)
  | .entry id value tag => do
    let (value, found) ← value.checkConstructors vars
    return (.entry id value tag, found)
  | e => return (e, .ok ())

/-- Check the constructors in expressions, in order. -/
def Expr.checkConstructorsAll (vars : VariableArena) :
    List Expr → StateM TypeArena (List Expr × Except Fault Unit)
  | [] => return ([], .ok ())
  | e :: es => do
    let (e, found) ← e.checkConstructors vars
    match found with
    | .error f => return (e :: es, .error f)
    | .ok () =>
      let (es, found) ← Expr.checkConstructorsAll vars es
      return (e :: es, found)

end

/-! ## §3. Statements and modules -/

mutual

/-- Check a statement. -/
def Stmt.check (config : Config) (vars : VariableArena) :
    Stmt → StateM TypeArena (Stmt × Except Fault Unit)
  | .expression e span => do
    let (e, found) ← e.check vars none
    return (.expression e span, found.map fun _ => ())
  | .locals targets values span => do
    let (values, found) ← checkLocals config vars targets values span
    return (.locals targets values span, found)
  | .exportStmt item span => do
    let (item, found) ← item.check config vars
    return (.exportStmt item span, found)
  | .exportExpr item span => do
    let (item, found) ← item.checkConstructors vars
    return (.exportExpr item span, found)
  | .externVariable id span => return (.externVariable id span, .ok ())
  | .externFunction head span => return (.externFunction head span, .ok ())
  | .imports names source span => return (.imports names source span, .ok ())
  | .block b => do
    let (b, found) ← b.check config vars
    return (.block b, found)

/-- Check a block. -/
def Block.check (config : Config) (vars : VariableArena) :
    Block → StateM TypeArena (Block × Except Fault Unit)
  | ⟨body, scope, span⟩ => do
    let (body, found) ← Stmt.checkAll config vars body
    return (⟨body, scope, span⟩, found)

/-- Check statements in order. -/
def Stmt.checkAll (config : Config) (vars : VariableArena) :
    List Stmt → StateM TypeArena (List Stmt × Except Fault Unit)
  | [] => return ([], .ok ())
  | s :: ss => do
    let (s, found) ← s.check config vars
    match found with
    | .error f => return (s :: ss, .error f)
    | .ok () =>
      let (ss, found) ← Stmt.checkAll config vars ss
      return (s :: ss, found)

end

/-- Check a module. -/
def Module.check (config : Config) (vars : VariableArena) (m : Module) :
    StateM TypeArena (Module × Except Fault Unit) := do
  let (block, found) ← m.block.check config vars
  return ({ m with block }, found)

end TypedLua
