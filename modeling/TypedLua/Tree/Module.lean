import TypedLua.Files.SourceFile
import TypedLua.Scope.Stack
import TypedLua.Tree.Expr

/-!
# TypedLua.Tree.Module

Statements, blocks and modules.  A block keeps the scope that was open while it was read; a module
is a source file with its block, and an import holds the module that it loads.
-/

namespace TypedLua

open Text Number

/-! ## §1. The tree -/

mutual

/-- A statement. -/
inductive Stmt where
  /-- An expression on its own. -/
  | expression (value : Expr) (span : Span)
  /-- A declaration of local variables with their values. -/
  | locals (targets : List VariableId) (values : List Expr) (span : Span)
  /-- An exported statement. -/
  | exportStmt (item : Stmt) (span : Span)
  /-- An exported expression. -/
  | exportExpr (item : Expr) (span : Span)
  /-- A variable that is defined elsewhere. -/
  | externVariable (id : VariableId) (span : Span)
  /-- A function that is defined elsewhere. -/
  | externFunction (head : Prototype) (span : Span)
  /-- Names taken from another module. -/
  | imports (names : List Expr) (source : Module) (span : Span)
  /-- A nested block. -/
  | block (body : Block)

/-- Statements with their scope. -/
structure Block where
  /-- The statements. -/
  body : List Stmt
  /-- What the block binds and exports. -/
  scope : Scope
  /-- Its place. -/
  span : Span

/-- A source file that was read. -/
structure Module where
  /-- The file. -/
  file : SourceFile
  /-- Its statements. -/
  block : Block

end

instance : Inhabited Block := ⟨⟨[], {}, {}⟩⟩

instance : Inhabited Module := ⟨⟨default, default⟩⟩

instance : Inhabited Stmt := ⟨.block default⟩

/-- Where a statement stands. -/
def Stmt.span : Stmt → Span
  | expression _ s | locals _ _ s | exportStmt _ s | exportExpr _ s | externVariable _ s
  | externFunction _ s | imports _ _ s => s
  | block b => b.span

namespace Module

/-- Where the statements of a module stand. -/
def span (m : Module) : Span := m.block.span

/-- The statements of a module. -/
def statements (m : Module) : List Stmt := m.block.body

/-- The module with other statements. -/
def withStatements (m : Module) (body : List Stmt) : Module :=
  { m with block := { m.block with body } }

/-- The module with one more statement at its end. -/
def push (m : Module) (s : Stmt) : Module := m.withStatements (m.statements ++ [s])

end Module

/-! ## §2. Number literals -/

mutual

/-- Apply a function to every number literal of a statement. -/
def Stmt.mapNumbers (f : Binary64 → Binary64) : Stmt → Stmt
  | .expression e s => .expression (e.mapNumbers f) s
  | .locals targets values s => .locals targets (Expr.mapNumbersAll f values) s
  | .exportStmt item s => .exportStmt (item.mapNumbers f) s
  | .exportExpr item s => .exportExpr (item.mapNumbers f) s
  | .externVariable id s => .externVariable id s
  | .externFunction head s => .externFunction head s
  | .imports names source s => .imports (Expr.mapNumbersAll f names) (source.mapNumbers f) s
  | .block b => .block (b.mapNumbers f)

/-- Apply a function to every number literal of a block. -/
def Block.mapNumbers (f : Binary64 → Binary64) : Block → Block
  | ⟨body, scope, span⟩ => ⟨Stmt.mapNumbersAll f body, scope, span⟩

/-- Apply a function to every number literal of a module, imported modules included. -/
def Module.mapNumbers (f : Binary64 → Binary64) : Module → Module
  | ⟨file, block⟩ => ⟨file, block.mapNumbers f⟩

/-- Apply a function to every number literal of the statements. -/
def Stmt.mapNumbersAll (f : Binary64 → Binary64) : List Stmt → List Stmt
  | [] => []
  | s :: ss => s.mapNumbers f :: Stmt.mapNumbersAll f ss

end

end TypedLua
