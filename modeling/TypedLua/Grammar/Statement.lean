import TypedLua.Grammar.Expression
import TypedLua.Grammar.TypeExpr

/-!
# TypedLua.Grammar.Statement

Reading statements other than blocks and imports: definitions of types, declarations of local
variables, exports, externs, and calls.
-/

namespace TypedLua.Grammar

open Text TypedLua.Parser
open Token (Kind)

/-! ## §1. Types -/

/-- A definition `type Name = T`. -/
def typeAliasOf (type : Parser TypeId) : Parser Expr := do
  let start ← currentSpan
  let _ ← expect .kwType
  let (name, nameSpan) ← identifier
  let _ ← expect .equals
  let id ← type
  defineType name id nameSpan
  return .typeAlias name ⟨← spanFrom start, id⟩

/-- The parameters of an interface, up to the closing angle bracket, and a scope that binds them and
those before them. -/
def parametersFrom : Nat → Scope → Parser (Scope × List TypeId)
  | 0, scope => return (scope, [])
  | n + 1, scope => do
    let (name, span) ← identifier
    if scope.types.contains name then fail span (.duplicateType name)
    else
      let id ← internType (.generic name)
      let scope := { scope with types := scope.types.insert name id }
      if ← eat .comma then
        let (scope, ids) ← parametersFrom n scope
        return (scope, id :: ids)
      else return (scope, [id])

/-- The parameters of an interface, if it has any, and a scope that binds them. -/
def parameters : Parser (Scope × List TypeId) := do
  if ← eat .less then
    let result ← parametersFrom (← fuel) {}
    let _ ← expect .greater
    return result
  else return ({}, [])

/-- A definition `interface Name<T> { … }`. -/
def interfaceOf (type : Parser TypeId) : Parser Expr := do
  let start ← currentSpan
  let _ ← expect .kwInterface
  let (name, nameSpan) ← identifier
  let (scope, generics) ← parameters
  let _ ← expect .leftBrace
  let (properties, _) ← withScope scope (braceTail (propertyOf type))
  let id ← internType (.interface name generics properties)
  defineType name id nameSpan
  return .typeAlias name ⟨← spanFrom start, id⟩

/-! ## §2. Variables -/

/-- The type after a colon, or `any` if there is none. -/
def declaredTypeOf (type : Parser TypeId) : Parser TypeId := do
  if ← eat .colon then type else return .any

/-- A name with an optional type. -/
def variableOf (type : Parser TypeId) : Parser Variable := do
  let (name, span) ← identifier
  return { name, type := ← declaredTypeOf type, span }

/-- Add a variable and bind its name. -/
def bindVariable (v : Variable) : Parser VariableId := do
  let id ← allocVariable v
  defineVariable v.name id
  return id

/-- A declaration of local variables; they are bound after their values are read. -/
def localsOf (type : Parser TypeId) (expr : Parser Expr) :
    Parser (List VariableId × List Expr × Span) := do
  let start ← currentSpan
  let _ ← expect .kwLocal
  let declared ← commaList (variableOf type)
  let values ← if ← eat .equals then commaList expr else pure []
  let targets ← declared.mapM bindVariable
  return (targets, values, ← spanFrom start)

/-! ## §3. Externs -/

/-- What was read of a parameter list. -/
structure ParameterList where
  /-- The parameters, less a variadic one. -/
  parameters : List VariableId := []
  /-- The types of all parameters. -/
  types : List TypeId := []
  /-- The variadic parameter. -/
  vararg : Option VariableId := none

/-- One more parameter: a variable, or the variadic parameter. -/
def parameterOf (type : Parser TypeId) (list : ParameterList) : Parser ParameterList := do
  if ← check .ellipsis then
    let span ← currentSpan
    advance
    let element ← declaredTypeOf type
    let id ← internType (.vararg element)
    let vararg ← allocVariable { name := "...", type := id, span, variadic := true }
    return { list with types := list.types ++ [id], vararg := some vararg }
  else
    let v ← variableOf type
    let id ← allocVariable v
    return { list with parameters := list.parameters ++ [id], types := list.types ++ [v.type] }

/-- The parameters up to the closing parenthesis; none may follow the variadic one. -/
def parametersOf (type : Parser TypeId) : Nat → ParameterList → Parser ParameterList
  | 0, list => return list
  | n + 1, list => do
    if ← check .rightParen then return list
    else if list.vararg.isSome then fail (← currentSpan) .misplacedVararg
    else
      let list ← parameterOf type list
      if ← eat .comma then parametersOf type n list else return list

/-- The head of a function declaration; the name of the function is bound. -/
def prototypeOf (type : Parser TypeId) : Parser Prototype := do
  let start ← currentSpan
  let (name, nameSpan) ← identifier
  let _ ← expect .leftParen
  let list ← parametersOf type (← fuel) {}
  let _ ← expect .rightParen
  checkVarargs list.types (← spanFrom start)
  let returns ← if ← eat .colon then returnListOf type else typelessReturns (← spanFrom start)
  let id ← internType (.function list.types returns)
  let function ← allocVariable { name, type := id, span := nameSpan }
  declareVariable name function nameSpan
  return ⟨name, function, list.parameters, returns, list.vararg, ⟨← spanFrom start, id⟩⟩

/-- Whether a function follows the word `extern`; the word `function` is taken. -/
def atFunction : Parser Bool := do
  if ← eat .kwFunction then return true else return (← peekKind 1) == .leftParen

/-- A variable or function that is defined elsewhere. -/
def externOf (type : Parser TypeId) : Parser Stmt := do
  let start ← currentSpan
  let _ ← expect .kwExtern
  if ← atFunction then
    let head ← prototypeOf type
    return .externFunction head (← spanFrom start)
  else
    let (name, nameSpan) ← identifier
    let _ ← expect .colon
    let id ← type
    let target ← allocVariable { name, type := id, span := nameSpan }
    declareVariable name target nameSpan
    return .externVariable target (← spanFrom start)

/-! ## §4. Exports and calls -/

/-- Export a type from the innermost scope. -/
def exportAlias (definition : Expr) : Parser Unit := do
  match definition with
  | .typeAlias name tag =>
    modify fun s => { s with scopes := s.scopes.exportType name tag.type }
  | _ => pure ()

/-- Export a variable from the innermost scope. -/
def exportVariable (id : VariableId) : Parser Unit :=
  modify fun s =>
    { s with scopes := s.scopes.exportVariable (s.session.vars.nameOf id) id }

/-- An export, which only the outermost block may have. -/
def exportOf (type : Parser TypeId) (expr : Parser Expr) : Parser Stmt := do
  let start ← currentSpan
  let _ ← expect .kwExport
  if (← gets (·.scopes)).atRoot then
    match ← currentKind with
    | .kwType =>
      let definition ← typeAliasOf type
      exportAlias definition
      return .exportExpr definition (← spanFrom start)
    | .kwInterface =>
      let definition ← interfaceOf type
      exportAlias definition
      return .exportExpr definition (← spanFrom start)
    | .kwLocal =>
      let (targets, values, span) ← localsOf type expr
      targets.forM exportVariable
      return .exportStmt (.locals targets values span) (← spanFrom start)
    | _ => unexpected "export"
  else fail start .nestedExport

/-- A call that stands on its own. -/
def callOf (primary : Parser Expr) : Parser Stmt := do
  let e ← primary
  if e.isCall then return .expression e e.span else fail e.span .notACall

/-! ## §5. With the room that is left -/

/-- A definition of a type. -/
def typeAlias : Parser Expr := do typeAliasOf (typeWithin (← room))

/-- A definition of an interface. -/
def interface : Parser Expr := do interfaceOf (typeWithin (← room))

/-- A declaration of local variables. -/
def locals : Parser Stmt := do
  let room ← room
  let (targets, values, span) ← localsOf (typeWithin room) (expressionWithin room)
  return .locals targets values span

/-- The head of a function declaration. -/
def prototype : Parser Prototype := do prototypeOf (typeWithin (← room))

/-- An export. -/
def exported : Parser Stmt := do
  let room ← room
  exportOf (typeWithin room) (expressionWithin room)

end TypedLua.Grammar
