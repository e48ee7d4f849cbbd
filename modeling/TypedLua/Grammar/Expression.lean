import TypedLua.Grammar.Parser
import TypedLua.Number.Literal

/-!
# TypedLua.Grammar.Expression

Reading expressions: literals, constructors, and names or groups followed by calls and indexing.
`room` is how many constructs may still be opened; reading goes one level down with each expression
inside another and with each suffix.
-/

namespace TypedLua.Grammar

open Text Number TypedLua.Parser
open Token (Kind)

/-! ## §1. Names and groups -/

/-- What a name stands for: a variable, or else a type. -/
def resolve (name : String) (span : Span) : Parser Expr := do
  let scopes ← gets (·.scopes)
  match scopes.resolveVariable name with
  | some id => return .reference id ⟨span, (← gets (·.session.vars)).typeOf id⟩
  | none =>
    match scopes.resolveType name with
    | some id => return .typeName name ⟨span, id⟩
    | none => fail span (.unknownIdentifier name)

/-- A name, or an expression in parentheses. -/
def operandOf (expr : Parser Expr) : Parser Expr := do
  match ← currentKind with
  | .leftParen =>
    let start ← currentSpan
    advance
    let inner ← expr
    let _ ← expect .rightParen
    return .group inner ⟨← spanFrom start, inner.type⟩
  | .identifier =>
    let (name, span) ← identifier
    resolve name span
  | _ => unexpected "expression"

/-! ## §2. Suffixes -/

/-- Whether a suffix may start with a token of this kind. -/
def startsSuffix : Kind → Bool
  | .leftParen | .string | .dot | .leftBracket => true
  | _ => false

/-- The arguments of a call, after its opening parenthesis. -/
def argumentsOf (expr : Parser Expr) : Parser (List Expr) := do
  let arguments ← if ← check .rightParen then pure [] else commaList expr
  let _ ← expect .rightParen
  return arguments

/-- One suffix of an expression that starts at `start`. -/
def suffixOf (expr : Parser Expr) (e : Expr) (start : Span) : Parser Expr := do
  match ← currentKind with
  | .leftParen =>
    advance
    let arguments ← argumentsOf expr
    return .call e arguments ⟨← spanFrom start, .any⟩
  | .string =>
    let token ← take
    let argument : Expr := .string token.text ⟨token.span, Primitive.string.typeId⟩
    return .call e [argument] ⟨← spanFrom start, .any⟩
  | .dot =>
    advance
    let (name, _) ← identifier
    return .member e name ⟨← spanFrom start, .any⟩
  | .leftBracket =>
    advance
    let key ← expr
    let _ ← expect .rightBracket
    return .index e key ⟨← spanFrom start, .any⟩
  | _ => return e

/-! ## §3. Constructors -/

/-- Whether a named entry follows. -/
def atNamedEntry : Parser Bool := do
  if ← check .identifier then return (← peekKind 1) == .equals else return false

/-- An entry of a constructor. -/
def entryOf (expr : Parser Expr) : Parser Expr := do
  if ← atNamedEntry then
    let start ← currentSpan
    let (name, span) ← identifier
    let _ ← expect .equals
    let value ← expr
    let id ← allocVariable { name, type := value.type, span }
    return .entry id value ⟨← spanFrom start, value.type⟩
  else expr

/-- A constructor. -/
def constructorOf (expr : Parser Expr) : Parser Expr := do
  let start ← currentSpan
  let _ ← expect .leftBrace
  let entries ← braceTail (entryOf expr)
  return .constructor entries ⟨← spanFrom start, .any⟩

/-! ## §4. Expressions -/

/-- The number that the numeral at `span` denotes. -/
def numberOf (text : String) (span : Span) : Except Fault Binary64 :=
  match ofText? text with
  | some value => .ok value
  | none => .error ⟨span, .malformedNumber text⟩

/-- A number. -/
def numberLiteral : Parser Expr := do
  let token ← current
  let value ← ofExcept (numberOf token.text token.span)
  advance
  return .number value ⟨token.span, Primitive.number.typeId⟩

/-- An expression, given the readers of the expressions inside it and of names with suffixes. -/
def formOf (expr primary : Parser Expr) : Parser Expr := do
  let span ← currentSpan
  match ← currentKind with
  | .number => numberLiteral
  | .string =>
    let token ← take
    return .string token.text ⟨span, Primitive.string.typeId⟩
  | .kwTrue =>
    advance
    return .boolean true ⟨span, Primitive.boolean.typeId⟩
  | .kwFalse =>
    advance
    return .boolean false ⟨span, Primitive.boolean.typeId⟩
  | .kwNil =>
    advance
    return .nil ⟨span, Primitive.nil.typeId⟩
  | .leftBrace => constructorOf expr
  | .identifier | .leftParen => primary
  | _ => unexpected "expression"

/-- A name or group with its suffixes, given the readers of both. -/
def primaryOf (expr : Parser Expr) (suffixes : Expr → Span → Parser Expr) : Parser Expr := do
  let start ← currentSpan
  let operand ← operandOf expr
  chain (suffixes operand start)

mutual

/-- An expression. -/
def expressionWithin : Nat → Parser Expr
  | 0 => tooDeep "expression"
  | room + 1 =>
    nested "expression"
      (formOf (expressionWithin room) (primaryOf (expressionWithin room) (suffixesWithin room)))

/-- The suffixes of an expression that starts at `start`. -/
def suffixesWithin : Nat → Expr → Span → Parser Expr
  | 0, e, _ => do
    if startsSuffix (← currentKind) then tooDeep "expression" else return e
  | room + 1, e, start => do
    if startsSuffix (← currentKind) then
      deepen "expression"
      let e ← suffixOf (expressionWithin room) e start
      suffixesWithin room e start
    else return e

end

/-- A name or group with its suffixes. -/
def primaryWithin (room : Nat) : Parser Expr :=
  primaryOf (expressionWithin room) (suffixesWithin room)

/-- An expression. -/
def expression : Parser Expr := do expressionWithin (← room)

/-- A name or group with its suffixes. -/
def primary : Parser Expr := do primaryWithin (← room)

end TypedLua.Grammar
