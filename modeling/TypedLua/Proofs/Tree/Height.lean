import Mathlib.Data.Nat.Init
import TypedLua.Tree.Module

/-!
# Tree.Height

How deep trees are.  A path leads from an expression to one of its parts, to a part of that, and so
on; the height of an expression is the number of nodes on its longest path.  A module has
expressions at its statements, blocks inside one another, and modules that it imports.

Main statement: `Expr.Path.length_le`, no path is longer than the expression is high.
-/

namespace TypedLua

/-! ## Expressions -/

namespace Expr

/-- The expressions right inside an expression. -/
def parts : Expr → List Expr
  | .call callee arguments _ => callee :: arguments
  | .member object _ _ => [object]
  | .index object key _ => [object, key]
  | .group inner _ => [inner]
  | .constructor entries _ => entries
  | .entry _ value _ => [value]
  | _ => []

theorem sizeOf_lt_of_mem_parts {e d : Expr} (h : d ∈ e.parts) : sizeOf d < sizeOf e := by
  have hall : ∀ {es : List Expr}, d ∈ es → sizeOf d < sizeOf es := List.sizeOf_lt_of_mem
  cases e <;> simp only [parts, List.mem_cons, List.not_mem_nil] at h <;> grind

/-- A path down from an expression, each node a part of the one before it. -/
inductive Path : Expr → List Expr → Prop
  | stop (e : Expr) : Path e [e]
  | down {e d : Expr} {path : List Expr} : d ∈ e.parts → Path d path → Path e (e :: path)

mutual

/-- The number of nodes on the longest path down from an expression. -/
def height : Expr → Nat
  | .call callee arguments _ => max callee.height (heightAll arguments) + 1
  | .member object _ _ => object.height + 1
  | .index object key _ => max object.height key.height + 1
  | .group inner _ => inner.height + 1
  | .constructor entries _ => heightAll entries + 1
  | .entry _ value _ => value.height + 1
  | _ => 1

/-- The height of the highest of the expressions. -/
def heightAll : List Expr → Nat
  | [] => 0
  | e :: es => max e.height (heightAll es)

end

theorem heightAll_le_iff {n : Nat} : ∀ {es : List Expr},
    heightAll es ≤ n ↔ ∀ e ∈ es, e.height ≤ n
  | [] => by simp [heightAll]
  | e :: es => by rw [heightAll, Nat.max_le, List.forall_mem_cons, heightAll_le_iff]

theorem height_pos (e : Expr) : 0 < e.height := by
  cases e <;> simp only [height] <;> omega

/-- A part is less high than the whole. -/
theorem height_lt_of_mem_parts {e d : Expr} (h : d ∈ e.parts) : d.height < e.height := by
  have hall : ∀ {es : List Expr}, d ∈ es → d.height ≤ heightAll es :=
    fun hd => heightAll_le_iff.1 (Nat.le_refl _) d hd
  cases e with
  | call callee arguments tag =>
    simp only [height]
    rcases List.mem_cons.1 h with rfl | hd
    · omega
    · have := hall hd
      omega
  | member object name tag =>
    rw [List.mem_singleton.1 h]
    simp [height]
  | index object key tag =>
    simp only [height]
    rcases List.mem_cons.1 h with rfl | hd
    · omega
    · rw [List.mem_singleton.1 hd]
      omega
  | group inner tag =>
    rw [List.mem_singleton.1 h]
    simp [height]
  | constructor entries tag =>
    have := hall (show d ∈ entries from h)
    simp only [height]
    omega
  | entry id value tag =>
    rw [List.mem_singleton.1 h]
    simp [height]
  | _ => cases h

/-- Induction by parts. -/
theorem induct {P : Expr → Prop} (h : ∀ e : Expr, (∀ d ∈ e.parts, P d) → P e) (e : Expr) : P e :=
  h e fun d _ => induct h d
termination_by e.height
decreasing_by exact height_lt_of_mem_parts ‹_›

/-- No path down an expression is longer than it is high. -/
theorem Path.length_le {e : Expr} {path : List Expr} (h : Path e path) :
    path.length ≤ e.height := by
  induction h with
  | stop e => exact e.height_pos
  | @down e d path hd _ ih =>
    have hlt := height_lt_of_mem_parts hd
    simp only [List.length_cons]
    omega

end Expr

/-! ## Statements and modules -/

mutual

/-- The expressions that stand at a statement, and those in its blocks; imported modules are left
out. -/
def Stmt.expressions : Stmt → List Expr
  | .expression e _ => [e]
  | .locals _ values _ => values
  | .exportStmt item _ => item.expressions
  | .exportExpr item _ => [item]
  | .externVariable .. => []
  | .externFunction head _ => [.prototype head]
  | .imports names _ _ => names
  | .block b => b.expressions

/-- The expressions in a block. -/
def Block.expressions : Block → List Expr
  | ⟨body, _, _⟩ => Stmt.expressionsOf body

/-- The expressions in statements. -/
def Stmt.expressionsOf : List Stmt → List Expr
  | [] => []
  | m :: ms => m.expressions ++ Stmt.expressionsOf ms

end

mutual

/-- How many nested blocks stand one inside the other, at most; imported modules are left out. -/
def Stmt.nesting : Stmt → Nat
  | .exportStmt item _ => item.nesting
  | .block b => b.nesting + 1
  | _ => 0

/-- How many nested blocks stand one inside the other in a block. -/
def Block.nesting : Block → Nat
  | ⟨body, _, _⟩ => Stmt.nestingOf body

/-- How many nested blocks stand one inside the other in statements. -/
def Stmt.nestingOf : List Stmt → Nat
  | [] => 0
  | m :: ms => max m.nesting (Stmt.nestingOf ms)

end

mutual

/-- The modules that a statement imports, and those that they import. -/
def Stmt.imported : Stmt → List Module
  | .exportStmt item _ => item.imported
  | .imports _ source _ => source :: source.imported
  | .block b => b.imported
  | _ => []

/-- The modules that a block imports, and those that they import. -/
def Block.imported : Block → List Module
  | ⟨body, _, _⟩ => Stmt.importedOf body

/-- The modules that a module imports, and those that they import. -/
def Module.imported : Module → List Module
  | ⟨_, block⟩ => block.imported

/-- The modules that statements import, and those that they import. -/
def Stmt.importedOf : List Stmt → List Module
  | [] => []
  | m :: ms => m.imported ++ Stmt.importedOf ms

end

theorem Stmt.mem_expressionsOf {e : Expr} : ∀ {ms : List Stmt},
    e ∈ Stmt.expressionsOf ms ↔ ∃ m ∈ ms, e ∈ m.expressions
  | [] => by simp [Stmt.expressionsOf]
  | m :: ms => by simp [Stmt.expressionsOf, @Stmt.mem_expressionsOf e ms]

theorem Stmt.nestingOf_le_iff {k : Nat} : ∀ {ms : List Stmt},
    Stmt.nestingOf ms ≤ k ↔ ∀ m ∈ ms, m.nesting ≤ k
  | [] => by simp [Stmt.nestingOf]
  | m :: ms => by rw [Stmt.nestingOf, Nat.max_le, List.forall_mem_cons, Stmt.nestingOf_le_iff]

theorem Stmt.mem_importedOf {source : Module} : ∀ {ms : List Stmt},
    source ∈ Stmt.importedOf ms ↔ ∃ m ∈ ms, source ∈ m.imported
  | [] => by simp [Stmt.importedOf]
  | m :: ms => by simp [Stmt.importedOf, @Stmt.mem_importedOf source ms]

/-- No expression of the module is higher than `n`, and no more than `k` of its nested blocks stand
one inside the other. -/
def Module.Shallow (n k : Nat) (m : Module) : Prop :=
  (∀ e ∈ m.block.expressions, e.height ≤ n) ∧ m.block.nesting ≤ k

end TypedLua
