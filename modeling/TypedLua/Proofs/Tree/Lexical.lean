import Mathlib.Data.List.Basic
import TypedLua.Tree.Module

/-!
# Tree.Lexical

Lexical scoping, told from a tree alone.  Going over the statements of a module in order, each block
has a frame with what its statements have bound so far; a name means the latest binding in the
innermost frame that has one.  Variables are bound by local declarations, externs and imports, types
by definitions and imports; nothing else binds, and a block binds nothing for what follows it.

`Module.uses` lists the names that stand for a value, each with the frames in force where it stands,
and `Expr.Selected` says what such a name has to be.
-/

namespace TypedLua

open Text

/-! ## Names in expressions -/

mutual

/-- The names that stand for a value in an expression. -/
def Expr.names : Expr → List Expr
  | .reference id t => [.reference id t]
  | .typeName name t => [.typeName name t]
  | .unresolved name t => [.unresolved name t]
  | .call callee arguments _ => callee.names ++ Expr.namesOf arguments
  | .member object _ _ => object.names
  | .index object key _ => object.names ++ key.names
  | .group inner _ => inner.names
  | .constructor entries _ => Expr.namesOf entries
  | .entry _ value _ => value.names
  | .number .. | .string .. | .boolean .. | .nil .. | .prototype .. | .typeAlias .. => []

/-- The names that stand for a value in expressions. -/
def Expr.namesOf : List Expr → List Expr
  | [] => []
  | e :: es => e.names ++ Expr.namesOf es

end

theorem Expr.mem_namesOf {n : Expr} {es : List Expr} :
    n ∈ Expr.namesOf es ↔ ∃ e ∈ es, n ∈ e.names := by
  induction es with
  | nil => simp [Expr.namesOf]
  | cons e es ih => simp [Expr.namesOf, ih]

/-! ## Frames -/

/-- What the statements of a block have bound so far, the latest binding first. -/
structure Frame where
  vars : List (String × VariableId) := []
  types : List (String × TypeId) := []
deriving DecidableEq, Repr, Inhabited

namespace Frame

/-- The variable that a name means, given the frames of the open blocks, the innermost first. -/
def findVariable? (frames : List Frame) (name : String) : Option VariableId :=
  frames.findSome? (·.vars.lookup name)

/-- The type that a name means, given the frames of the open blocks, the innermost first. -/
def findType? (frames : List Frame) (name : String) : Option TypeId :=
  frames.findSome? (·.types.lookup name)

/-- The frame in which a module starts: it has the types that can be named. -/
def root : Frame where
  types := [Primitive.any, .void, .boolean, .number, .string].map fun p => (p.name, p.typeId)

/-- Bind a type. -/
def bindType (f : Frame) (name : String) (id : TypeId) : Frame :=
  { f with types := (name, id) :: f.types }

/-- Bind a variable under its name. -/
def bindVariable (vars : VariableArena) (f : Frame) (id : VariableId) : Frame :=
  { f with vars := (vars.nameOf id, id) :: f.vars }

/-- Bind what a definition defines. -/
def bindDefinition (f : Frame) : Expr → Frame
  | .typeAlias name tag => f.bindType name tag.type
  | _ => f

/-- Bind what an import takes from a module. -/
def bindImported (vars : VariableArena) (f : Frame) : Expr → Frame
  | .reference id _ => f.bindVariable vars id
  | .typeName name tag => f.bindType name tag.type
  | _ => f

/-- The frame of a block after one more of its statements. -/
def after (vars : VariableArena) (f : Frame) : Stmt → Frame
  | .expression e _ => f.bindDefinition e
  | .exportExpr e _ => f.bindDefinition e
  | .locals targets _ _ => targets.foldl (bindVariable vars) f
  | .exportStmt item _ => f.after vars item
  | .externVariable id _ => f.bindVariable vars id
  | .externFunction head _ => f.bindVariable vars head.function
  | .imports names _ _ => names.foldl (bindImported vars) f
  | .block _ => f

/-- The frame in which a block starts, given the blocks around it. -/
def initial : List (List Stmt) → Frame
  | [] => root
  | _ :: _ => {}

/-- The frames in force while a module is read, given the statements that are completed in each open
block, with the innermost block first and the latest statement first. -/
def inForce (vars : VariableArena) : List (List Stmt) → List Frame
  | [] => []
  | body :: blocks =>
    body.foldr (fun m f => f.after vars m) (initial blocks) :: inForce vars blocks

end Frame

/-! ## Uses of names -/

mutual

/-- The names that stand for a value in a statement, with the frames in force. -/
def Stmt.uses (vars : VariableArena) (frames : List Frame) : Stmt → List (List Frame × Expr)
  | .expression e _ => e.names.map (frames, ·)
  | .exportExpr e _ => e.names.map (frames, ·)
  | .locals _ values _ => (Expr.namesOf values).map (frames, ·)
  | .exportStmt item _ => item.uses vars frames
  | .block b => b.uses vars frames {}
  | .externVariable .. | .externFunction .. | .imports .. => []

/-- The names that stand for a value in a block that starts with a frame, with the frames in
force. -/
def Block.uses (vars : VariableArena) (outer : List Frame) (frame : Frame) :
    Block → List (List Frame × Expr)
  | ⟨body, _, _⟩ => Stmt.usesOf vars outer frame body

/-- The names that stand for a value in statements of one block, with the frames in force. -/
def Stmt.usesOf (vars : VariableArena) (outer : List Frame) (frame : Frame) :
    List Stmt → List (List Frame × Expr)
  | [] => []
  | s :: ss => s.uses vars (frame :: outer) ++ Stmt.usesOf vars outer (frame.after vars s) ss

end

/-- The uses in a block are those of its statements. -/
theorem Block.uses_eq (vars : VariableArena) (outer : List Frame) (frame : Frame) (b : Block) :
    b.uses vars outer frame = Stmt.usesOf vars outer frame b.body := by
  obtain ⟨body, scope, span⟩ := b
  rfl

/-- The names that stand for a value in a module, imported modules left out, with the frames in
force. -/
def Module.uses (m : Module) (vars : VariableArena) : List (List Frame × Expr) :=
  m.block.uses vars [] .root

/-- A name that stands for a value is the variable that the text at its place means, with the type
of that variable; or the type that the text means, if it means no variable. -/
def Expr.Selected (text : String) (vars : VariableArena) (frames : List Frame) (e : Expr) : Prop :=
  ∃ x, e.span.slice? text = some x ∧
    match Frame.findVariable? frames x, Frame.findType? frames x with
    | some id, _ =>
      ∃ v, vars.get? id = some v ∧ v.name = x ∧ e = .reference id ⟨e.span, v.type⟩
    | none, some id => e = .typeName x ⟨e.span, id⟩
    | none, none => False

end TypedLua
