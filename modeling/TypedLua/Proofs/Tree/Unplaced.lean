import TypedLua.Proofs.Tree.Alike
import TypedLua.Session.Basic

/-!
# Tree.Unplaced

Taking off places.  Trees, variables and faults without the places where things stand, and without
the source texts; what is left is what two texts have in common that differ in their layout only.
Trees that agree in all but places are equal without them.

Main statement: `Module.Agree.unplaced_eq`.
-/

namespace TypedLua

open Text

variable {α : Type}

/-! ## Faults -/

/-- The fault without its place. -/
def Fault.unplaced (f : Fault) : Fault := { f with span := {} }

/-- The diagnostic without its place. -/
def Diagnostic.unplaced (d : Diagnostic) : Diagnostic := { d with span := {} }

/-- What was found without places, given how they are taken off a value. -/
def unplacedWith (u : α → α) : Except Fault α → Except Fault α
  | .ok a => .ok (u a)
  | .error f => .error f.unplaced

/-! ## Expressions -/

/-- The tag without its place. -/
def Tag.unplaced (t : Tag) : Tag := { t with span := {} }

/-- The head of a function declaration without its place. -/
def Prototype.unplaced (p : Prototype) : Prototype := { p with tag := p.tag.unplaced }

namespace Expr

mutual

/-- The expression without places. -/
def unplaced : Expr → Expr
  | .number v t => .number v t.unplaced
  | .string v t => .string v t.unplaced
  | .boolean v t => .boolean v t.unplaced
  | .nil t => .nil t.unplaced
  | .unresolved name t => .unresolved name t.unplaced
  | .reference id t => .reference id t.unplaced
  | .typeName name t => .typeName name t.unplaced
  | .call callee arguments t => .call callee.unplaced (unplacedAll arguments) t.unplaced
  | .member object name t => .member object.unplaced name t.unplaced
  | .index object key t => .index object.unplaced key.unplaced t.unplaced
  | .group inner t => .group inner.unplaced t.unplaced
  | .constructor entries t => .constructor (unplacedAll entries) t.unplaced
  | .entry id value t => .entry id value.unplaced t.unplaced
  | .prototype head => .prototype head.unplaced
  | .typeAlias name t => .typeAlias name t.unplaced

/-- The expressions without places. -/
def unplacedAll : List Expr → List Expr
  | [] => []
  | e :: es => e.unplaced :: unplacedAll es

end

end Expr

/-! ## Variables -/

/-- The variable without its place. -/
def Variable.unplaced (v : Variable) : Variable := { v with span := {} }

namespace VariableArena

/-- The variables without places. -/
def unplaced (a : VariableArena) : VariableArena := ⟨a.vars.map Variable.unplaced⟩

/-- Forgetting places forgets them variable by variable. -/
theorem get?_unplaced (a : VariableArena) (id : VariableId) :
    a.unplaced.get? id = (a.get? id).map Variable.unplaced := List.getElem?_map

@[simp] theorem typeOf_unplaced (a : VariableArena) (id : VariableId) :
    a.unplaced.typeOf id = a.typeOf id := by
  unfold typeOf
  rw [get?_unplaced]
  cases a.get? id <;> rfl

@[simp] theorem nameOf_unplaced (a : VariableArena) (id : VariableId) :
    a.unplaced.nameOf id = a.nameOf id := by
  unfold nameOf
  rw [get?_unplaced]
  cases a.get? id <;> rfl

/-- A variable gets the same id. -/
theorem alloc_unplaced (a : VariableArena) (v : Variable) :
    alloc v.unplaced a.unplaced = ((alloc v a).1, (alloc v a).2.unplaced) := by
  simp [alloc, size, unplaced]

end VariableArena

/-! ## Modules -/

/-- The names of a file without its text. -/
def SourceFile.unplaced (f : SourceFile) : SourceFile := { f with text := "" }

mutual

/-- The statement without places. -/
def Stmt.unplaced : Stmt → Stmt
  | .expression e _ => .expression e.unplaced {}
  | .locals targets values _ => .locals targets (Expr.unplacedAll values) {}
  | .exportStmt item _ => .exportStmt item.unplaced {}
  | .exportExpr item _ => .exportExpr item.unplaced {}
  | .externVariable id _ => .externVariable id {}
  | .externFunction head _ => .externFunction head.unplaced {}
  | .imports names source _ => .imports (Expr.unplacedAll names) source.unplaced {}
  | .block b => .block b.unplaced

/-- The block without places. -/
def Block.unplaced : Block → Block
  | ⟨body, scope, _⟩ => ⟨Stmt.unplacedAll body, scope, {}⟩

/-- The module without places and source texts. -/
def Module.unplaced : Module → Module
  | ⟨file, block⟩ => ⟨file.unplaced, block.unplaced⟩

/-- The statements without places. -/
def Stmt.unplacedAll : List Stmt → List Stmt
  | [] => []
  | m :: ms => m.unplaced :: Stmt.unplacedAll ms

end

/-! ## Trees that agree -/

section

variable {F : Regard}

theorem SourceFile.Agree.unplaced_eq {f g : SourceFile} (h : f.Agree F g) :
    f.unplaced = g.unplaced := by
  unfold SourceFile.unplaced
  rw [h.directory, h.fileName, h.moduleName]

theorem Variable.Rel.unplaced_eq {v u : Variable} (h : Variable.Rel F.place Eq v u) :
    v.unplaced = u.unplaced := by
  unfold Variable.unplaced
  rw [h.name, h.type, h.variadic]

theorem Tag.Agree.unplaced_eq {t u : Tag} (h : Tag.Agree F Eq t u) : t.unplaced = u.unplaced := by
  unfold Tag.unplaced
  rw [h.type]

theorem Prototype.Agree.unplaced_eq {h k : Prototype} (hk : Prototype.Agree F Eq Eq h k) :
    h.unplaced = k.unplaced := by
  obtain ⟨hname, hfunction, hparameters, hreturns, hvararg, htag⟩ := hk
  rw [List.forall₂_eq_eq_eq] at hparameters hreturns
  unfold Prototype.unplaced
  rw [hname, hfunction, hparameters, hreturns, Link.option_rel_eq.1 hvararg, htag.unplaced_eq]

mutual

/-- Expressions that agree are equal without places. -/
theorem Expr.Agree.unplaced_eq {e d : Expr} : Expr.Agree F Eq Eq e d → e.unplaced = d.unplaced
  | .number v ht => congrArg (Expr.number v) ht.toAgree.unplaced_eq
  | .string v ht => congrArg (Expr.string v) ht.toAgree.unplaced_eq
  | .boolean v ht => congrArg (Expr.boolean v) ht.toAgree.unplaced_eq
  | .nil ht => congrArg Expr.nil ht.toAgree.unplaced_eq
  | .unresolved n ht => congrArg (Expr.unresolved n) ht.unplaced_eq
  | .reference hx ht => congrArg₂ Expr.reference hx ht.unplaced_eq
  | .typeName n ht => congrArg (Expr.typeName n) ht.unplaced_eq
  | .call hf hxs ht => by
    rw [unplaced, unplaced, hf.unplaced_eq, Expr.Agree.unplacedAll_eq hxs, ht.unplaced_eq]
  | .member n he ht => by rw [unplaced, unplaced, he.unplaced_eq, ht.unplaced_eq]
  | .index he hk ht => by
    rw [unplaced, unplaced, he.unplaced_eq, hk.unplaced_eq, ht.unplaced_eq]
  | .group he ht => congrArg₂ Expr.group he.unplaced_eq ht.unplaced_eq
  | .constructor hxs ht => congrArg₂ Expr.constructor (Expr.Agree.unplacedAll_eq hxs) ht.unplaced_eq
  | .entry hx he ht => by rw [unplaced, unplaced, hx, he.unplaced_eq, ht.unplaced_eq]
  | .prototype hk => congrArg Expr.prototype hk.unplaced_eq
  | .typeAlias n ht => congrArg (Expr.typeAlias n) ht.unplaced_eq

theorem Expr.Agree.unplacedAll_eq {xs ys : List Expr} :
    List.Forall₂ (Expr.Agree F Eq Eq) xs ys → Expr.unplacedAll xs = Expr.unplacedAll ys
  | .nil => rfl
  | .cons h hs => congrArg₂ List.cons h.unplaced_eq (Expr.Agree.unplacedAll_eq hs)

end

mutual

theorem Stmt.Agree.unplaced_eq {m n : Stmt} : Stmt.Agree F Eq Eq m n → m.unplaced = n.unplaced
  | .expression _ he => congrArg (Stmt.expression · {}) he.unplaced_eq
  | .locals _ hx he => by
    rw [List.forall₂_eq_eq_eq] at hx
    rw [Stmt.unplaced, Stmt.unplaced, hx, Expr.Agree.unplacedAll_eq he]
  | .exportStmt _ hm => congrArg (Stmt.exportStmt · {}) hm.unplaced_eq
  | .exportExpr _ he => by
    cases he with
    | mk n ht => exact congrArg (fun t => Stmt.exportExpr (.typeAlias n t) {}) ht.unplaced_eq
  | .externVariable _ hx => congrArg (Stmt.externVariable · {}) hx
  | .externFunction _ hk => congrArg (Stmt.externFunction · {}) hk.unplaced_eq
  | .imports _ he hm => by
    rw [Stmt.unplaced, Stmt.unplaced, Expr.Agree.unplacedAll_eq he, hm.unplaced_eq]
  | .block hb => congrArg Stmt.block hb.unplaced_eq

theorem Block.Agree.unplaced_eq {b c : Block} : Block.Agree F Eq Eq b c → b.unplaced = c.unplaced
  | .mk _ hms hscope => by
    rw [Block.unplaced, Block.unplaced, Stmt.Agree.unplacedAll_eq hms,
      hscope.eq (fun _ _ h => h) fun _ _ h => h]

/-- So are modules. -/
theorem Module.Agree.unplaced_eq {m n : Module} :
    Module.Agree F Eq Eq m n → m.unplaced = n.unplaced
  | .mk hf hb => congrArg₂ Module.mk hf.unplaced_eq hb.unplaced_eq

theorem Stmt.Agree.unplacedAll_eq {ms ns : List Stmt} :
    List.Forall₂ (Stmt.Agree F Eq Eq) ms ns → Stmt.unplacedAll ms = Stmt.unplacedAll ns
  | .nil => rfl
  | .cons h hs => congrArg₂ List.cons h.unplaced_eq (Stmt.Agree.unplacedAll_eq hs)

end

end

end TypedLua
