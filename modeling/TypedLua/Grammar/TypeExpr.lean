import TypedLua.Grammar.Parser
import TypedLua.Types.Substitution

/-!
# TypedLua.Grammar.TypeExpr

Reading types: names with type arguments, tables, functions, variadic types, and arrays of all
these.  `room` is how many constructs may still be opened; reading goes one level down with each
type inside another and with each array suffix.
-/

namespace TypedLua.Grammar

open Text TypedLua.Parser
open Token (Kind)

/-! ## §1. Lists -/

/-- Whether a type may start with a token of this kind. -/
def startsType : Kind → Bool
  | .identifier | .kwNil | .leftBrace | .leftParen | .ellipsis => true
  | _ => false

/-- A type that must be there. -/
def required (type? : Parser (Option TypeId)) : Parser TypeId := do
  match ← type? with
  | some id => return id
  | none => unexpected "type"

/-- Refuse a list at `span` in which a variadic type is not the last. -/
def varargLast (a : TypeArena) (ids : List TypeId) (span : Span) : Except Fault Unit :=
  if a.hasMisplacedVararg ids then .error ⟨span, .misplacedVararg⟩ else .ok ()

/-- Refuse a list at `span` in which a variadic type of the session is not the last. -/
def checkVarargs (ids : List TypeId) (span : Span) : Parser Unit := do
  ofExcept (varargLast (← gets (·.session.types)) ids span)

/-- Types with commas between them. -/
def typeListOf (type : Parser TypeId) : Parser (List TypeId) := do
  let start ← currentSpan
  let ids ← commaList type
  checkVarargs ids (← spanFrom start)
  return ids

/-- Types in parentheses, perhaps none. -/
def groupOf (type : Parser TypeId) : Parser (List TypeId) := do
  let _ ← expect .leftParen
  let ids ← if ← check .rightParen then pure [] else typeListOf type
  let _ ← expect .rightParen
  return ids

/-- What a function returns: a lone `void` is nothing. -/
def stripVoid (ids : List TypeId) : List TypeId :=
  if ids = [Primitive.void.typeId] then [] else ids

/-- What a function without a return type returns, if there may be such functions. -/
def typelessReturns (span : Span) : Parser (List TypeId) := do
  if (← gets (·.session.config)).typelessFunctions then return [.any]
  else fail span .missingReturnType

/-! ## §2. Forms -/

/-- A property of a table or interface. -/
def propertyOf (type : Parser TypeId) : Parser Property := do
  let (name, _) ← identifier
  let optional ← eat .question
  let _ ← expect .colon
  return ⟨name, ← type, optional⟩

/-- A named type, perhaps with type arguments. -/
def namedTypeOf (type : Parser TypeId) : Parser TypeId := do
  let start ← currentSpan
  let (name, span) ← identifier
  match (← gets (·.scopes)).resolveType name with
  | none => fail span (.unknownType name)
  | some id =>
    if ← eat .less then
      let arguments ← typeListOf type
      let _ ← expect .greater
      let span ← spanFrom start
      match (← gets (·.session.types)).get? id with
      | some (.interface _ (g :: gs) _) => instanceOf name id (g :: gs).length arguments span
      | _ => fail span (.noTypeParameters name)
    else return id
where
  /-- The instance of an interface with `wanted` parameters. -/
  instanceOf (name : String) (id : TypeId) (wanted : Nat) (arguments : List TypeId) (span : Span) :
      Parser TypeId := fun env s =>
    match TypeArena.instantiate id arguments s.session.types with
    | (some id, types) => (.ok id, { s with session := { s.session with types } })
    | (none, types) =>
      fail span (.typeArgumentCount name wanted arguments.length) env
        { s with session := { s.session with types } }

/-- A table type. -/
def tableTypeOf (type : Parser TypeId) : Parser TypeId := do
  let _ ← expect .leftBrace
  internType (.table (← braceTail (propertyOf type)))

/-- The arrow and the returns of a function whose arguments were read.  A group of types after an
arrow is the argument list of a function if another arrow follows. -/
def functionFrom (type : Parser TypeId) : Nat → Span → List TypeId → Parser TypeId
  | 0, start, arguments => do
    let returns ← typelessReturns (← spanFrom start)
    internType (.function arguments returns)
  | n + 1, start, arguments => do
    let returns ←
      if ← eat .arrow then
        if ← check .leftParen then
          let groupStart ← currentSpan
          let ids ← groupOf type
          if ← check .arrow then
            let returned ← functionFrom type n groupStart ids
            pure [returned]
          else pure (stripVoid ids)
        else
          let id ← type
          pure (stripVoid [id])
      else typelessReturns (← spanFrom start)
    internType (.function arguments returns)

/-- A function type. -/
def functionTypeOf (type : Parser TypeId) : Parser TypeId := do
  let start ← currentSpan
  let arguments ← groupOf type
  functionFrom type (← fuel) start arguments

/-- A type without array suffixes. -/
def baseTypeOf (type? : Parser (Option TypeId)) : Parser TypeId := do
  match ← currentKind with
  | .identifier => namedTypeOf (required type?)
  | .kwNil =>
    advance
    return Primitive.nil.typeId
  | .leftBrace => tableTypeOf (required type?)
  | .leftParen => functionTypeOf (required type?)
  | .ellipsis =>
    advance
    let element ← type?
    internType (.vararg (element.getD .any))
  | _ => unexpected "type"

/-! ## §3. Types -/

/-- Whether an array suffix follows. -/
def atArraySuffix : Parser Bool := do
  if ← check .leftBracket then return (← peekKind 1) == .rightBracket else return false

/-- The array suffixes of a type. -/
def arraySuffixes : Nat → TypeId → Parser TypeId
  | 0, id => do
    if ← atArraySuffix then tooDeep "type" else return id
  | room + 1, id => do
    if ← atArraySuffix then
      deepen "type"
      advance
      advance
      arraySuffixes room (← internType (.array id))
    else return id

/-- A type, if one starts here. -/
def tryTypeWithin : Nat → Parser (Option TypeId)
  | 0 => do
    if startsType (← currentKind) then tooDeep "type" else return none
  | room + 1 => do
    if startsType (← currentKind) then
      nested "type" do
        let base ← baseTypeOf (tryTypeWithin room)
        let id ← chain (arraySuffixes room base)
        return some id
    else return none

/-- A type. -/
def typeWithin (room : Nat) : Parser TypeId := required (tryTypeWithin room)

/-- A type, if one starts here. -/
def tryType : Parser (Option TypeId) := do tryTypeWithin (← room)

/-- A type. -/
def type : Parser TypeId := do typeWithin (← room)

/-- Types with commas between them. -/
def typeList : Parser (List TypeId) := do typeListOf (typeWithin (← room))

/-- What a function returns. -/
def returnListOf (type : Parser TypeId) : Parser (List TypeId) := return stripVoid (← typeListOf type)

/-- What a function returns. -/
def returnList : Parser (List TypeId) := do returnListOf (typeWithin (← room))

/-- A property of a table or interface. -/
def property : Parser Property := do propertyOf (typeWithin (← room))

end TypedLua.Grammar
