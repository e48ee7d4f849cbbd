import TypedLua.Grammar.Statement

/-!
# TypedLua.Grammar.Module

Reading blocks, imports and whole modules.  An import loads the module it names, unless that module
is being loaded already, and binds the names it takes in the innermost scope.
-/

namespace TypedLua.Grammar

open Text TypedLua.Parser
open Token (Kind)

/-! ## §1. Imports -/

/-- The module that an import names, which stands at `span`. -/
def loadImport (modulePath : String) (path : Path) (span : Span) : Parser Module := fun env s =>
  let absolute := (path.absolute env.files.here).text
  if s.session.loading.contains (env.files.key path) then
    fail span (.circularImport absolute) env s
  else
    match env.files.read path with
    | .error _ => fail span (.unreadableImport absolute) env s
    | .ok text =>
      match env.load path text s.session with
      | (some m, session) => (.ok m, { s with session })
      | (none, session) => fail span (.failedImport modulePath) env { s with session }

/-- Bind a name to what a module exports under it, a variable before a type. -/
def bindImport (source : Module) (name : String) (span : Span) : Parser Expr := do
  let exports := source.block.scope
  match exports.exportedVariables.find? name, exports.exportedTypes.find? name with
  | some id, _ =>
    defineVariable name id
    return .reference id ⟨span, (← gets (·.session.vars)).typeOf id⟩
  | none, some id =>
    defineType name id span
    return .typeName name ⟨span, id⟩
  | none, none => fail span (.missingExport name source.file.fileName)

/-- An import `import { a, b } from "./module"`. -/
def importNames : Parser Stmt := do
  let start ← currentSpan
  let _ ← expect .kwImport
  let _ ← expect .leftBrace
  let names ← commaList identifier
  let _ ← expect .rightBrace
  let _ ← expect .kwFrom
  let modulePath ← expect .string
  match (← asks (·.file)).importPath? modulePath.text with
  | none => fail modulePath.span .badModuleName
  | some path =>
    let source ← loadImport modulePath.text path modulePath.span
    let imported ← names.mapM fun (name, span) => bindImport source name span
    return .imports imported source (← spanFrom start)

/-! ## §2. Blocks -/

/-- Statements up to a closing token, which is not taken.  A semicolon on its own is no
statement. -/
def statementsOf (statement : Parser Stmt) (close : Kind) : Nat → Parser (List Stmt)
  | 0 => return []
  | n + 1 => do
    if ← check close then return []
    else if ← atEnd then
      let found ← current
      fail found.span (Fault.expected close found).cause
    else if ← eat .semicolon then statementsOf statement close n
    else
      let s ← statement
      let rest ← statementsOf statement close n
      return s :: rest

/-- Statements up to a closing token, in a scope of their own. -/
def blockOf (scope : Scope) (statement : Parser Stmt) (close : Kind) : Parser Block := do
  let start ← currentSpan
  let (body, scope) ← withScope scope do statementsOf statement close (← fuel)
  let span ← if body.isEmpty then pure start else spanFrom start
  return ⟨body, scope, span⟩

/-- A nested block with the words around it. -/
def doBlockOf (block : Parser Block) : Parser Stmt := do
  let start ← currentSpan
  let _ ← expect .kwDo
  let block ← block
  let _ ← expect .kwEnd
  return .block { block with span := ← spanFrom start }

/-- A statement, given the readers of what stands inside it. -/
def statementOf (room : Nat) (block : Parser Block) : Parser Stmt := do
  let type := typeWithin room
  let expr := expressionWithin room
  let start ← currentSpan
  match ← currentKind with
  | .kwType =>
    let definition ← typeAliasOf type
    return .expression definition (← spanFrom start)
  | .kwInterface =>
    let definition ← interfaceOf type
    return .expression definition (← spanFrom start)
  | .kwLocal =>
    let (targets, values, span) ← localsOf type expr
    return .locals targets values span
  | .kwImport => importNames
  | .kwExport => exportOf type expr
  | .kwExtern => externOf type
  | .kwDo => doBlockOf block
  | .identifier | .leftParen => callOf (primaryWithin room)
  | _ => unexpected "statement"

mutual

/-- A statement. -/
def statementWithin : Nat → Parser Stmt
  | 0 => tooDeep "statement"
  | room + 1 => nested "statement" (statementOf room (blockWithin room .kwEnd))

/-- A nested block, up to a closing token. -/
def blockWithin : Nat → Kind → Parser Block
  | 0, _ => tooDeep "block"
  | room + 1, close => nested "block" (blockOf {} (statementWithin room) close)

end

/-- A statement. -/
def statement : Parser Stmt := do statementWithin (← room)

/-- A nested block, up to a closing token. -/
def block (close : Kind) : Parser Block := do blockWithin (← room) close

/-! ## §3. Modules -/

/-- The scope in which a module starts: it binds the types that can be named. -/
def rootScope : Scope where
  types := [Primitive.string, .number, .boolean, .void, .any].foldl
    (fun types p => types.insert p.name p.typeId) {}

/-- A whole module. -/
def module : Parser Module := do
  let body ← blockOf rootScope (statementWithin (← room)) .eof
  let _ ← expect .eof
  return ⟨← asks (·.file), body⟩

end TypedLua.Grammar
