import TypedLua.Tree.Module

/-!
# TypedLua.Tree.Walk

Walking over a tree.  A walk shows every node to a visitor before the parts of the node, in source
order; the visitor answers whether the walk goes on into the parts.  A visitor may handle every kind
of node on its own, all expressions or statements alike, or only the places of nodes.
-/

namespace TypedLua

open Text

/-! ## §1. Visitors -/

/-- A node of a tree. -/
inductive Node where
  /-- A module. -/
  | module (m : Module)
  /-- A statement; the block of a module counts as one. -/
  | statement (s : Stmt)
  /-- An expression; the head of a function declaration counts as one. -/
  | expression (e : Expr)

/-- Where a node stands. -/
def Node.span : Node → Span
  | module m => m.span
  | statement s => s.span
  | expression e => e.span

/-- Whether a walk goes on into the parts of a node. -/
inductive Traversal where
  | descend | skip
deriving DecidableEq, Repr, Inhabited

/-- What is done at the nodes of a tree.  By default a node is handled as any expression or
statement is, and these as any node is. -/
structure Visitor (m : Type → Type) where
  /-- At any node. -/
  node : Span → m Traversal
  /-- At any expression. -/
  expression : Span → TypeId → m Traversal := fun span _ => node span
  /-- At any statement. -/
  statement : Span → m Traversal := node
  /-- At a node whose kind matters. -/
  enter : Node → m Traversal := fun
    | .module m => node m.span
    | .statement s => statement s.span
    | .expression e => expression e.span e.type

/-! ## §2. Walks -/

section

variable {m : Type → Type} [Monad m]

/-- Do `parts` if the walk goes on into them. -/
def Visitor.visit (v : Visitor m) (n : Node) (parts : m Unit) : m Unit := do
  match ← v.enter n with
  | .descend => parts
  | .skip => pure ()

mutual

/-- Walk over an expression. -/
def Expr.walk (v : Visitor m) : Expr → m Unit
  | .call callee arguments t =>
    v.visit (.expression (.call callee arguments t)) do
      callee.walk v
      Expr.walkAll v arguments
  | .member object name t => v.visit (.expression (.member object name t)) (object.walk v)
  | .index object key t =>
    v.visit (.expression (.index object key t)) do
      object.walk v
      key.walk v
  | .group inner t => v.visit (.expression (.group inner t)) (inner.walk v)
  | .constructor entries t =>
    v.visit (.expression (.constructor entries t)) (Expr.walkAll v entries)
  | .entry id value t => v.visit (.expression (.entry id value t)) (value.walk v)
  | .number value t => v.visit (.expression (.number value t)) (pure ())
  | .string value t => v.visit (.expression (.string value t)) (pure ())
  | .boolean value t => v.visit (.expression (.boolean value t)) (pure ())
  | .nil t => v.visit (.expression (.nil t)) (pure ())
  | .unresolved name t => v.visit (.expression (.unresolved name t)) (pure ())
  | .reference id t => v.visit (.expression (.reference id t)) (pure ())
  | .typeName name t => v.visit (.expression (.typeName name t)) (pure ())
  | .prototype head => v.visit (.expression (.prototype head)) (pure ())
  | .typeAlias name t => v.visit (.expression (.typeAlias name t)) (pure ())

/-- Walk over expressions in order. -/
def Expr.walkAll (v : Visitor m) : List Expr → m Unit
  | [] => pure ()
  | e :: es => do
    e.walk v
    Expr.walkAll v es

end

mutual

/-- Walk over a statement. -/
def Stmt.walk (v : Visitor m) : Stmt → m Unit
  | .expression e s => v.visit (.statement (.expression e s)) (e.walk v)
  | .locals targets values s =>
    v.visit (.statement (.locals targets values s)) (Expr.walkAll v values)
  | .exportStmt item s => v.visit (.statement (.exportStmt item s)) (item.walk v)
  | .exportExpr item s => v.visit (.statement (.exportExpr item s)) (item.walk v)
  | .externVariable id s => v.visit (.statement (.externVariable id s)) (pure ())
  | .externFunction head s =>
    v.visit (.statement (.externFunction head s)) (v.visit (.expression (.prototype head)) (pure ()))
  | .imports names source s =>
    v.visit (.statement (.imports names source s)) do
      Expr.walkAll v names
      source.walk v
  | .block b => b.walk v

/-- Walk over a block. -/
def Block.walk (v : Visitor m) : Block → m Unit
  | ⟨body, scope, span⟩ => v.visit (.statement (.block ⟨body, scope, span⟩)) (Stmt.walkAll v body)

/-- Walk over a module. -/
def Module.walk (v : Visitor m) : Module → m Unit
  | ⟨file, block⟩ => v.visit (.module ⟨file, block⟩) (block.walk v)

/-- Walk over statements in order. -/
def Stmt.walkAll (v : Visitor m) : List Stmt → m Unit
  | [] => pure ()
  | s :: ss => do
    s.walk v
    Stmt.walkAll v ss

end

end

/-- How many nodes a walk over an expression comes to. -/
def Expr.nodeCount (e : Expr) : Nat :=
  let counter : Visitor (StateM Nat) := { node := fun _ => do modify (· + 1); return .descend }
  (e.walk counter 0).2

end TypedLua
