import TypedLua.Proofs.Session.Sound
import TypedLua.Proofs.Tree.Leaves

/-!
# Typing.Consistency

Types that justify themselves.  An expression is consistent if its type follows from the types of
the expressions right inside it: that of a variable, of what a function returns, of a property, of
an element, or one that fits the entries of a constructor.

Types are found while the arena grows, and types found earlier are judged by what they mean later;
consistency survives growth, since compatibility does.

Main statements: `Expr.Every.consistent_mono` and `Stmt.Every.consistent_mono`.
-/

namespace TypedLua

open Text Typing

/-! ## Consistent expressions -/

namespace TypeArena

/-- A value of type `x` may be given where `p` is wanted; anything may be given for `any`. -/
def Meets (a : TypeArena) (p x : TypeId) : Prop := p ≠ .any → a.compatible p x = true

/-- Arguments of the given types may be given for the parameters: each meets its own, and those that
remain meet the element of a variadic parameter at the end. -/
inductive Accepts (a : TypeArena) : List TypeId → List TypeId → Prop
  | fixed {parameters arguments : List TypeId} :
      (∀ v ∈ parameters.getLast?, ∀ element, a.get? v ≠ some (.vararg element)) →
      List.Forall₂ a.Meets parameters arguments → Accepts a parameters arguments
  | variadic {parameters arguments rest : List TypeId} {v element : TypeId} :
      a.get? v = some (.vararg element) → List.Forall₂ a.Meets parameters arguments →
      (∀ x ∈ rest, a.Meets element x) → Accepts a (parameters ++ [v]) (arguments ++ rest)

/-- The type is the table of exactly these properties, or an interface whose properties, taken as a
table, take that table. -/
def FitsTable (a : TypeArena) (properties : List Property) (type : TypeId) : Prop :=
  ∃ table, a.get? table = some (.table properties) ∧
    (type = table ∨ ∃ name parameters wanted shape,
      a.get? type = some (.interface name parameters wanted) ∧
      a.get? shape = some (.table wanted) ∧ a.compatible shape table = true)

end TypeArena

/-- The properties that named entries make, in their order. -/
def entryProperties (vars : VariableArena) (entries : List Expr) : List Property :=
  entries.filterMap fun
    | .entry id _ tag => some ⟨vars.nameOf id, tag.type, false⟩
    | _ => none

/-- The type of an expression follows from the types right inside it. -/
def Expr.Consistent (a : TypeArena) (vars : VariableArena) : Expr → Prop
  | .number _ tag => tag.type = Primitive.number.typeId
  | .string _ tag => tag.type = Primitive.string.typeId
  | .boolean _ tag => tag.type = Primitive.boolean.typeId
  | .nil tag => tag.type = Primitive.nil.typeId
  | .unresolved .. => False
  | .reference id tag => ∃ v, vars.get? id = some v ∧ tag.type = v.type
  | .call callee arguments tag =>
    (callee.type = .any ∧ tag.type = .any) ∨ ∃ parameters returns,
      a.get? callee.type = some (.function parameters returns) ∧
      a.Accepts parameters (arguments.map Expr.type) ∧
      tag.type = returns.head?.getD Primitive.void.typeId
  | .member object name tag =>
    (object.type = .any ∧ tag.type = .any) ∨ ∃ shape property,
      a.get? object.type = some shape ∧ shape.property? name = some property ∧
      tag.type = property.type
  | .index object _ tag =>
    a.get? object.type = some (.array tag.type) ∨ tag.type = .any ∧
      (object.type = .any ∨ (∃ properties, a.get? object.type = some (.table properties)) ∨
        ∃ name parameters properties,
          a.get? object.type = some (.interface name parameters properties))
  | .group inner tag => tag.type = inner.type
  | .entry _ value tag => tag.type = value.type
  | .constructor entries tag =>
    (entries.all Expr.isEntry ∧ a.FitsTable (entryProperties vars entries) tag.type) ∨
    (¬ entries.any Expr.isEntry ∧ ∃ element, a.get? tag.type = some (.array element) ∧
      ∀ e ∈ entries, a.Meets element e.type) ∨
    (entries = [] ∧ tag.type = Primitive.unknown.typeId)
  | .typeName .. | .prototype _ | .typeAlias .. => True

mutual

/-- The expression and all expressions inside it have the property. -/
def Expr.Every (P : Expr → Prop) : Expr → Prop
  | .call callee arguments tag =>
    P (.call callee arguments tag) ∧ callee.Every P ∧ Expr.EveryOf P arguments
  | .member object name tag => P (.member object name tag) ∧ object.Every P
  | .index object key tag => P (.index object key tag) ∧ object.Every P ∧ key.Every P
  | .group inner tag => P (.group inner tag) ∧ inner.Every P
  | .entry id value tag => P (.entry id value tag) ∧ value.Every P
  | .constructor entries tag => P (.constructor entries tag) ∧ Expr.EveryOf P entries
  | e => P e

/-- All of the expressions, and all expressions inside them, have the property. -/
def Expr.EveryOf (P : Expr → Prop) : List Expr → Prop
  | [] => True
  | e :: es => e.Every P ∧ Expr.EveryOf P es

end

mutual

/-- All expressions of the statement have the property; those of imported modules do not count. -/
def Stmt.Every (P : Expr → Prop) : Stmt → Prop
  | .expression e _ => e.Every P
  | .locals _ values _ => Expr.EveryOf P values
  | .exportStmt item _ => item.Every P
  | .exportExpr item _ => item.Every P
  | .externVariable .. | .externFunction .. | .imports .. => True
  | .block b => b.Every P

/-- All expressions of the block have the property. -/
def Block.Every (P : Expr → Prop) : Block → Prop
  | ⟨body, _, _⟩ => Stmt.EveryOf P body

/-- All expressions of the statements have the property. -/
def Stmt.EveryOf (P : Expr → Prop) : List Stmt → Prop
  | [] => True
  | s :: ss => s.Every P ∧ Stmt.EveryOf P ss

end

/-- All expressions of the module's own statements have the property. -/
def Module.Every (P : Expr → Prop) (m : Module) : Prop := m.block.Every P

section

variable {P Q : Expr → Prop} {e : Expr}

theorem Expr.everyOf_iff {es : List Expr} : Expr.EveryOf P es ↔ ∀ e ∈ es, e.Every P := by
  induction es with
  | nil => simp [Expr.EveryOf]
  | cons e es ih => rw [Expr.EveryOf, ih, List.forall_mem_cons]

/-- A property of every expression inside: of the whole, and of every one inside the parts. -/
theorem Expr.every_iff : e.Every P ↔ P e ∧ ∀ d ∈ e.parts, d.Every P := by
  cases e <;> simp [Expr.Every, Expr.everyOf_iff, Expr.parts]

theorem Expr.Every.of_rel {F : Regard} {r : TypeId → TypeId → Prop}
    {q : VariableId → VariableId → Prop} (hP : ∀ e, Expr.Agree F r q e e → P e) (he : Expr.Agree F r q e e) : e.Every P := by
  induction e using Expr.induct with
  | h e ih => exact Expr.every_iff.2 ⟨hP e he, fun d hd => ih d hd (he.part d hd)⟩

theorem Expr.Every.mp (hPQ : e.Every fun e => P e → Q e) (h : e.Every P) : e.Every Q := by
  induction e using Expr.induct with
  | h e ih =>
    rw [Expr.every_iff] at hPQ h ⊢
    exact ⟨hPQ.1 h.1, fun d hd => ih d hd (hPQ.2 d hd) (h.2 d hd)⟩

mutual

/-- The expressions of a statement are those of its leaves. -/
theorem Stmt.every_iff : ∀ m : Stmt, m.Every P ↔ ∀ x ∈ m.leaves, ∀ e ∈ x.values, e.Every P
  | .expression .. | .locals .. | .exportExpr .. | .externVariable .. | .externFunction ..
  | .imports .. => by simp [Stmt.Every, Stmt.leaves, Stmt.values, Expr.everyOf_iff]
  | .exportStmt item _ => item.every_iff
  | .block b => b.every_iff

theorem Block.every_iff : ∀ b : Block, b.Every P ↔ ∀ x ∈ b.leaves, ∀ e ∈ x.values, e.Every P
  | ⟨body, _, _⟩ => Stmt.everyOf_iff body

theorem Stmt.everyOf_iff : ∀ ms : List Stmt,
    Stmt.EveryOf P ms ↔ ∀ x ∈ Stmt.leavesOf ms, ∀ e ∈ x.values, e.Every P
  | [] => by simp [Stmt.EveryOf, Stmt.leavesOf]
  | m :: ms => by
    rw [Stmt.EveryOf, Stmt.leavesOf, List.forall_mem_append, m.every_iff, Stmt.everyOf_iff ms]

end

theorem Module.every_of_rel {F : Regard} {r : TypeId → TypeId → Prop}
    {q : VariableId → VariableId → Prop} {m : Module} (hP : ∀ e, Expr.Agree F r q e e → P e)
    (hm : Module.Agree F r q m m) : m.Every P := by
  cases hm with
  | mk file hblock =>
    refine (Block.every_iff _).2 fun x hx e he => .of_rel hP ?_
    exact (List.forall₂_same.1 hblock.leaves x hx).value e he

end

/-! ## Growth -/

namespace TypeArena

variable {a b : TypeArena}

theorem Meets.mono {p x : TypeId} (h : a.Meets p x) (ha : a.Grounded) (hab : a.Extends b)
    (hp : a.Holds p) (hx : a.Holds x) : b.Meets p x := by
  intro hany
  rw [ha.compatible_eq hab hp hx]
  exact h hany

theorem forall₂_meets_mono {ps xs : List TypeId} (h : List.Forall₂ a.Meets ps xs)
    (ha : a.Grounded) (hab : a.Extends b) (hps : ∀ p ∈ ps, a.Holds p) (hxs : ∀ x ∈ xs, a.Holds x) :
    List.Forall₂ b.Meets ps xs := by
  induction h with
  | nil => exact .nil
  | cons h _ ih =>
    rw [List.forall_mem_cons] at hps hxs
    exact .cons (h.mono ha hab hps.1 hxs.1) (ih hps.2 hxs.2)

theorem Accepts.mono {ps xs : List TypeId} (h : a.Accepts ps xs) (ha : a.Grounded)
    (hab : a.Extends b) (hps : ∀ p ∈ ps, a.Holds p) (hxs : ∀ x ∈ xs, a.Holds x) :
    b.Accepts ps xs := by
  cases h with
  | fixed hlast hmeets =>
    refine .fixed (fun v hv element => ?_) (forall₂_meets_mono hmeets ha hab hps hxs)
    rw [hab.get?_eq (hps v (List.mem_of_getLast? hv))]
    exact hlast v hv element
  | variadic hv hmeets hrest =>
    rw [List.forall_mem_append] at hps hxs
    refine .variadic (hab.get? hv) (forall₂_meets_mono hmeets ha hab hps.1 hxs.1) ?_
    intro x hx
    exact (hrest x hx).mono ha hab (ha.holds_part hv (List.mem_singleton_self _)) (hxs.2 x hx)

/-- What fits a table still fits it when the arena grows. -/
theorem FitsTable.mono {ps : List Property} {type : TypeId} (h : a.FitsTable ps type)
    (ha : a.Grounded) (hab : a.Extends b) : b.FitsTable ps type := by
  obtain ⟨table, htable, h⟩ := h
  refine ⟨table, hab.get? htable, h.imp_right ?_⟩
  rintro ⟨name, gs, wanted, shape, htype, hshape, hfits⟩
  refine ⟨name, gs, wanted, shape, hab.get? htype, hab.get? hshape, ?_⟩
  rw [ha.compatible_eq hab (holds_of_get? hshape) (holds_of_get? htable)]
  exact hfits

end TypeArena

variable {w v : Arenas}

theorem holds_types {es : List Expr} (h : Arenas.expr.list.rel w es es) :
    ∀ x ∈ es.map Expr.type, w.types.Holds x := by
  intro x hx
  obtain ⟨e, he, rfl⟩ := List.mem_map.1 hx
  exact (List.forall₂_same.1 h e he).type.2

/-- A consistent expression stays consistent when arenas grow. -/
theorem Expr.Consistent.mono {vars : VariableArena} {e : Expr}
    (h : e.Consistent w.types vars) (hw : w.Sound) (hwv : w ≤ v) (he : Arenas.expr.rel w e e) :
    e.Consistent v.types vars := by
  cases he with
  | call hcallee harguments _ =>
    refine h.imp_right ?_
    rintro ⟨ps, rs, hget, haccepts, hresult⟩
    refine ⟨ps, rs, hwv.1.get? hget, ?_, hresult⟩
    refine haccepts.mono hw.grounded hwv.1 (fun p hp => ?_) (holds_types harguments)
    exact hw.grounded.holds_part hget (List.mem_append_left _ hp)
  | member name _ _ =>
    refine h.imp_right ?_
    rintro ⟨shape, property, hget, hproperty, htype⟩
    exact ⟨shape, property, hwv.1.get? hget, hproperty, htype⟩
  | index _ _ _ =>
    refine h.imp (fun hget => hwv.1.get? hget) (And.imp_right ?_)
    refine Or.imp_right (Or.imp ?_ ?_)
    · rintro ⟨ps, hget⟩
      exact ⟨ps, hwv.1.get? hget⟩
    · rintro ⟨name, gs, ps, hget⟩
      exact ⟨name, gs, ps, hwv.1.get? hget⟩
  | constructor hentries _ =>
    refine h.imp (And.imp_right fun hfits => hfits.mono hw.grounded hwv.1) (Or.imp_left ?_)
    rintro ⟨hbare, element, hget, hmeets⟩
    refine ⟨hbare, element, hwv.1.get? hget, fun e he => ?_⟩
    refine (hmeets e he).mono hw.grounded hwv.1 ?_ (List.forall₂_same.1 hentries e he).type.2
    exact hw.grounded.holds_part hget (List.mem_singleton_self _)
  | _ => exact h

variable {vars : VariableArena}

theorem Expr.Every.consistent_mono {e : Expr} (h : e.Every (Expr.Consistent w.types vars))
    (hw : w.Sound) (hwv : w ≤ v) (he : Arenas.expr.rel w e e) :
    e.Every (Expr.Consistent v.types vars) :=
  .mp (.of_rel (fun _ he h => h.mono hw hwv he) he) h

theorem Stmt.Every.consistent_mono {m : Stmt} (h : m.Every (Expr.Consistent w.types vars))
    (hw : w.Sound) (hwv : w ≤ v) (hm : Arenas.stmt.rel w m m) :
    m.Every (Expr.Consistent v.types vars) := by
  rw [Stmt.every_iff] at h ⊢
  intro x hx e he
  have hx' : Stmt.Rel _ _ x x := List.forall₂_same.1 hm.leaves x hx
  exact (h x hx e he).consistent_mono hw hwv (hx'.value e he)

end TypedLua
