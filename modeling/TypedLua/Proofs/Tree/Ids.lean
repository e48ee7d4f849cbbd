import TypedLua.Proofs.Tree.Related
import TypedLua.Session.Basic

/-!
# Tree.Ids

The ids that a tree holds: in tags, in heads of functions, as targets of declarations, in the four
tables of every scope, and in imported modules.

Main statement: `Module.Agree.forall_ids`, what holds of all ids that are related to some id holds of
all ids of a tree that is related to some tree.
-/

namespace TypedLua

open Text

/-! ## Ids -/

/-- The id of a type or of a variable. -/
inductive AnyId where
  | ofType (id : TypeId)
  | ofVariable (id : VariableId)
deriving DecidableEq, Repr

/-- The id denotes a type or variable of the session. -/
def AnyId.DenotesIn (s : Session) : AnyId → Prop
  | .ofType id => ∃ shape, s.types.get? id = some shape
  | .ofVariable id => ∃ v, s.vars.get? id = some v

/-- The id in a tag. -/
def Tag.ids (t : Tag) : List AnyId := [.ofType t.type]

/-- The ids in the head of a function declaration. -/
def Prototype.ids (h : Prototype) : List AnyId :=
  .ofVariable h.function :: h.parameters.map .ofVariable ++ h.returns.map .ofType ++
    h.vararg.toList.map .ofVariable ++ h.tag.ids

/-- The ids that names are bound to. -/
def Bindings.ids {α : Type} (f : α → AnyId) (b : Bindings α) : List AnyId :=
  b.entries.map fun entry => f entry.2

/-- The ids in the four tables of a scope. -/
def Scope.ids (s : Scope) : List AnyId :=
  s.vars.ids .ofVariable ++ s.types.ids .ofType ++ s.exportedVariables.ids .ofVariable ++
    s.exportedTypes.ids .ofType

mutual

/-- The ids in an expression. -/
def Expr.ids : Expr → List AnyId
  | .number _ t | .string _ t | .boolean _ t | .nil t | .unresolved _ t | .typeName _ t
  | .typeAlias _ t => t.ids
  | .reference id t => .ofVariable id :: t.ids
  | .call callee arguments t => callee.ids ++ Expr.idsOf arguments ++ t.ids
  | .member object _ t => object.ids ++ t.ids
  | .index object key t => object.ids ++ key.ids ++ t.ids
  | .group inner t => inner.ids ++ t.ids
  | .constructor entries t => Expr.idsOf entries ++ t.ids
  | .entry id value t => .ofVariable id :: value.ids ++ t.ids
  | .prototype head => head.ids

/-- The ids in expressions. -/
def Expr.idsOf : List Expr → List AnyId
  | [] => []
  | e :: es => e.ids ++ Expr.idsOf es

end

mutual

/-- The ids in a statement. -/
def Stmt.ids : Stmt → List AnyId
  | .expression value _ => value.ids
  | .locals targets values _ => targets.map .ofVariable ++ Expr.idsOf values
  | .exportStmt item _ => item.ids
  | .exportExpr item _ => item.ids
  | .externVariable id _ => [.ofVariable id]
  | .externFunction head _ => head.ids
  | .imports names source _ => Expr.idsOf names ++ source.ids
  | .block body => body.ids

/-- The ids in a block and its scope. -/
def Block.ids : Block → List AnyId
  | ⟨body, scope, _⟩ => Stmt.idsOf body ++ scope.ids

/-- The ids in a module, imported modules included. -/
def Module.ids : Module → List AnyId
  | ⟨_, block⟩ => block.ids

/-- The ids in statements. -/
def Stmt.idsOf : List Stmt → List AnyId
  | [] => []
  | m :: ms => m.ids ++ Stmt.idsOf ms

end

/-! ## Related trees -/

section

variable {r : TypeId → TypeId → Prop} {q : VariableId → VariableId → Prop} {P : AnyId → Prop}

theorem forall_map_of_forall₂ {α : Type} {f : α → AnyId} {R : α → α → Prop}
    (hR : ∀ x y, R x y → P (f x)) {xs ys : List α} (h : List.Forall₂ R xs ys) :
    ∀ x ∈ xs.map f, P x := by
  induction h with
  | nil => exact fun _ hx => nomatch hx
  | cons hxy _ ih => exact List.forall_mem_cons.2 ⟨hR _ _ hxy, ih⟩

theorem Bindings.Rel.forall_ids {α : Type} {f : α → AnyId} {R : α → α → Prop}
    (hR : ∀ x y, R x y → P (f x)) {b c : Bindings α} (h : b.Rel R c) : ∀ x ∈ b.ids f, P x :=
  forall_map_of_forall₂ (fun _ _ hxy => hR _ _ hxy.2) h

variable {F : Regard} (hr : ∀ x y, r x y → P (.ofType x)) (hq : ∀ x y, q x y → P (.ofVariable x))

include hr

theorem Tag.Agree.forall_ids {t u : Tag} (h : Tag.Agree F r t u) : ∀ x ∈ t.ids, P x :=
  List.forall_mem_singleton.2 (hr _ _ h.type)

theorem Expr.DefinitionAgree.forall_ids {e d : Expr} (h : Expr.DefinitionAgree F r e d) :
    ∀ x ∈ e.ids, P x := by
  cases h with
  | mk n ht => exact ht.forall_ids hr

include hq

theorem Prototype.Agree.forall_ids {h k : Prototype} (hk : Prototype.Agree F r q h k) :
    ∀ x ∈ h.ids, P x := by
  have hvararg : ∀ x ∈ h.vararg.toList.map AnyId.ofVariable, P x := by
    have hrel := hk.vararg
    generalize h.vararg = x, k.vararg = y at hrel
    cases hrel with
    | none => exact fun _ hx => nomatch hx
    | some hxy => exact List.forall_mem_singleton.2 (hq _ _ hxy)
  have hdeclared := List.forall_mem_cons.2
    ⟨hq _ _ hk.function, forall_map_of_forall₂ hq hk.parameters⟩
  have hreturns := List.forall_mem_append.2 ⟨hdeclared, forall_map_of_forall₂ hr hk.returns⟩
  exact List.forall_mem_append.2
    ⟨List.forall_mem_append.2 ⟨hreturns, hvararg⟩, hk.tag.forall_ids hr⟩

/-- What holds of related ids holds of all ids of related scopes. -/
theorem Scope.Rel.forall_ids {s t : Scope} (h : Scope.Rel r q s t) : ∀ x ∈ s.ids, P x := by
  have hbound := List.forall_mem_append.2 ⟨h.vars.forall_ids hq, h.types.forall_ids hr⟩
  have hexported := List.forall_mem_append.2 ⟨hbound, h.exportedVariables.forall_ids hq⟩
  exact List.forall_mem_append.2 ⟨hexported, h.exportedTypes.forall_ids hr⟩

set_option linter.unusedSectionVars false in
mutual

/-- It holds of all ids of expressions that agree. -/
theorem Expr.Agree.forall_ids {e d : Expr} : Expr.Agree F r q e d → ∀ x ∈ e.ids, P x
  | .number _ ht | .string _ ht | .boolean _ ht | .nil ht => ht.toAgree.forall_ids hr
  | .unresolved _ ht => ht.forall_ids hr
  | .reference hx ht => List.forall_mem_cons.2 ⟨hq _ _ hx, ht.forall_ids hr⟩
  | .typeName _ ht => ht.forall_ids hr
  | .call hf hxs ht => List.forall_mem_append.2
    ⟨List.forall_mem_append.2 ⟨hf.forall_ids, Expr.Agree.forall_idsOf hxs⟩, ht.forall_ids hr⟩
  | .member _ he ht => List.forall_mem_append.2 ⟨he.forall_ids, ht.forall_ids hr⟩
  | .index he hk ht => List.forall_mem_append.2
    ⟨List.forall_mem_append.2 ⟨he.forall_ids, hk.forall_ids⟩, ht.forall_ids hr⟩
  | .group he ht => List.forall_mem_append.2 ⟨he.forall_ids, ht.forall_ids hr⟩
  | .constructor hxs ht =>
    List.forall_mem_append.2 ⟨Expr.Agree.forall_idsOf hxs, ht.forall_ids hr⟩
  | .entry hx he ht => List.forall_mem_append.2
    ⟨List.forall_mem_cons.2 ⟨hq _ _ hx, he.forall_ids⟩, ht.forall_ids hr⟩
  | .prototype hk => hk.forall_ids hr hq
  | .typeAlias _ ht => ht.forall_ids hr

theorem Expr.Agree.forall_idsOf {xs ys : List Expr} :
    List.Forall₂ (Expr.Agree F r q) xs ys → ∀ x ∈ Expr.idsOf xs, P x
  | .nil => nofun
  | .cons h hs => List.forall_mem_append.2 ⟨h.forall_ids, Expr.Agree.forall_idsOf hs⟩

end

set_option linter.unusedSectionVars false in
mutual

theorem Stmt.Agree.forall_ids {m n : Stmt} : Stmt.Agree F r q m n → ∀ x ∈ m.ids, P x
  | .expression _ he => he.forall_ids hr hq
  | .locals _ hx he => List.forall_mem_append.2
    ⟨forall_map_of_forall₂ hq hx, Expr.Agree.forall_idsOf hr hq he⟩
  | .exportStmt _ hm => hm.forall_ids
  | .exportExpr _ he => he.forall_ids hr
  | .externVariable _ hx => List.forall_mem_singleton.2 (hq _ _ hx)
  | .externFunction _ hk => hk.forall_ids hr hq
  | .imports _ he hm =>
    List.forall_mem_append.2 ⟨Expr.Agree.forall_idsOf hr hq he, hm.forall_ids⟩
  | .block hb => hb.forall_ids

theorem Block.Agree.forall_ids {b c : Block} : Block.Agree F r q b c → ∀ x ∈ b.ids, P x
  | .mk _ hs hscope =>
    List.forall_mem_append.2 ⟨Stmt.Agree.forall_idsOf hs, hscope.forall_ids hr hq⟩

/-- It holds of all ids of modules that agree. -/
theorem Module.Agree.forall_ids {m n : Module} : Module.Agree F r q m n → ∀ x ∈ m.ids, P x
  | .mk _ hb => hb.forall_ids

theorem Stmt.Agree.forall_idsOf {xs ys : List Stmt} :
    List.Forall₂ (Stmt.Agree F r q) xs ys → ∀ x ∈ Stmt.idsOf xs, P x
  | .nil => nofun
  | .cons h hs => List.forall_mem_append.2 ⟨h.forall_ids, Stmt.Agree.forall_idsOf hs⟩

end

end

end TypedLua
