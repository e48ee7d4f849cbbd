import TypedLua.Proofs.Tree.Height
import TypedLua.Proofs.Tree.Related

/-!
# Tree.Leaves

The leaves of a module are its statements in source order, blocks and exports opened and imports
left out; the values of a leaf are the expressions right inside it.

Main statements: `Stmt.Agree.leaves`, leaves of related statements are related, and `Expr.Agree.part`.
-/

namespace TypedLua

mutual

/-- The leaves of a statement. -/
def Stmt.leaves : Stmt → List Stmt
  | .exportStmt item _ => item.leaves
  | .imports .. => []
  | .block b => b.leaves
  | m => [m]

/-- The leaves of a block. -/
def Block.leaves : Block → List Stmt
  | ⟨body, _, _⟩ => Stmt.leavesOf body

/-- The leaves of statements, in source order. -/
def Stmt.leavesOf : List Stmt → List Stmt
  | [] => []
  | m :: ms => m.leaves ++ Stmt.leavesOf ms

end

/-- The leaves of a module. -/
def Module.leaves (m : Module) : List Stmt := m.block.leaves

/-- The expressions right inside a leaf. -/
def Stmt.values : Stmt → List Expr
  | .expression e _ | .exportExpr e _ => [e]
  | .locals _ es _ => es
  | _ => []

variable {F : Regard} {r : TypeId → TypeId → Prop} {q : VariableId → VariableId → Prop}

/-- If an expression agrees with itself, so do its parts. -/
theorem Expr.Agree.part {e : Expr} (h : Expr.Agree F r q e e) :
    ∀ d ∈ e.parts, Expr.Agree F r q d d := by
  cases h with
  | call hcallee harguments _ =>
    exact List.forall_mem_cons.2 ⟨hcallee, List.forall₂_same.1 harguments⟩
  | index hobject hkey _ => simp [Expr.parts, hobject, hkey]
  | member _ hpart _ | group hpart _ | entry _ hpart _ => simp [Expr.parts, hpart]
  | constructor hentries _ => exact List.forall₂_same.1 hentries
  | _ => simp [Expr.parts]

/-- If a statement does, so do its expressions. -/
theorem Stmt.Agree.value {m : Stmt} (h : Stmt.Agree F r q m m) :
    ∀ e ∈ m.values, Expr.Agree F r q e e := by
  cases h with
  | expression _ he => simp [Stmt.values, he]
  | exportExpr _ he =>
    cases he with
    | mk name ht => simp [Stmt.values, Expr.Agree.typeAlias name ht]
  | locals _ _ hes => exact List.forall₂_same.1 hes
  | _ => simp [Stmt.values]

mutual

theorem Stmt.Agree.leaves {m n : Stmt} :
    Stmt.Agree F r q m n → List.Forall₂ (Stmt.Agree F r q) m.leaves n.leaves
  | .expression s he => .cons (.expression s he) .nil
  | .locals s hx he => .cons (.locals s hx he) .nil
  | .exportStmt _ hm => hm.leaves
  | .exportExpr s he => .cons (.exportExpr s he) .nil
  | .externVariable s hx => .cons (.externVariable s hx) .nil
  | .externFunction s hk => .cons (.externFunction s hk) .nil
  | .imports _ _ _ => .nil
  | .block hb => hb.leaves

/-- Blocks that agree have leaves that agree, in the same order. -/
theorem Block.Agree.leaves {b c : Block} :
    Block.Agree F r q b c → List.Forall₂ (Stmt.Agree F r q) b.leaves c.leaves
  | .mk _ hs _ => Stmt.Agree.leavesOf hs

theorem Stmt.Agree.leavesOf {xs ys : List Stmt} : List.Forall₂ (Stmt.Agree F r q) xs ys →
      List.Forall₂ (Stmt.Agree F r q) (Stmt.leavesOf xs) (Stmt.leavesOf ys)
  | .nil => .nil
  | .cons h hs => List.rel_append h.leaves (Stmt.Agree.leavesOf hs)

end

end TypedLua
