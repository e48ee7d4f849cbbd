import TypedLua.Proofs.Typing.Rules

/-!
# Typing.Growth

Checking works on the types of a session by interning alone.  Whatever interning keeps is therefore
kept by checking a module, whether or not the module is well formed, and whether or not it is
refused.

Main statement: `keeps_moduleCheck`.
-/

namespace TypedLua

open Text Typing

variable {P : TypeArena → Prop} {α β : Type}

/-! ## Actions that keep a property -/

/-- What holds of the arena before the action holds of it afterwards. -/
def Keeps (P : TypeArena → Prop) (f : StateM TypeArena α) : Prop := ∀ a, P a → P (f a).2

/-- Interning keeps the property. -/
def KeptByInterning (P : TypeArena → Prop) : Prop := ∀ s, Keeps P (TypeArena.intern s)

namespace Keeps

theorem of_run {f : StateM TypeArena α} (hf : Keeps P f) {a b : TypeArena} {x : α}
    (h : f a = (x, b)) (ha : P a) : P b := by
  have hkept := hf a ha
  rwa [h] at hkept

theorem pure (x : α) : Keeps P (Pure.pure x : StateM TypeArena α) := fun _ h => h

theorem bind {f : StateM TypeArena α} {g : α → StateM TypeArena β} (hf : Keeps P f)
    (hg : ∀ x, Keeps P (g x)) : Keeps P (f >>= g) :=
  fun a h => hg (f a).1 (f a).2 (hf a h)

theorem get_bind {g : TypeArena → StateM TypeArena β} (hg : ∀ a, Keeps P (g a)) :
    Keeps P (get >>= g) :=
  fun a h => hg a a h

end Keeps

/-! ## Constructors -/

theorem keeps_tableResult (hP : KeptByInterning P) (demand : Demand) (wanted : Option Shape)
    (names : List String) (types : List TypeId) :
    Keeps P (tableResult demand wanted names types) := by
  refine .bind (hP _) fun table => ?_
  split
  · refine .bind (hP _) fun shape => .get_bind fun a => ?_
    split
    · exact .pure _
    · exact .pure _
  · exact .pure _

/-- The result of a plan keeps what interning keeps. -/
theorem Planned.keeps_result (hP : KeptByInterning P) {a : TypeArena} {vars : VariableArena}
    {demand : Demand} {entries : List Expr} {plan : ConstructorPlan}
    (h : Planned a vars demand entries plan) (types : List TypeId) :
    Keeps P (plan.result types) := by
  cases h with
  | empty | unknown | wanted => exact .pure _
  | table => exact keeps_tableResult hP _ _ _ _
  | array => exact hP _

/-! ## Expressions -/

variable {vars : VariableArena}

mutual

/-- Checking an expression keeps what interning keeps. -/
theorem Expr.Checks.keeps (hP : KeptByInterning P) {e e' : Expr} {demand : Demand}
    {found : Except Fault TypeId} {a b : TypeArena} :
    e.Checks vars demand a e' found b → P a → P b
  | .plain _, ha | .unresolved, ha | .reference, ha | .unplanned _, ha => ha
  | .group h _, ha | .entry h _, ha | .callee h _, ha | .member h _ _, ha | .object h, ha =>
    h.keeps hP ha
  | .call h _ heach _ _, ha => heach.keeps hP (h.keeps hP ha)
  | .index h hkey _ _, ha => hkey.keeps hP (h.keeps hP ha)
  | .entries _ heach, ha => heach.keeps hP ha
  | .constructor hplan heach hresult, ha =>
    ((planned_of_ok hplan).keeps_result hP _).of_run hresult (heach.keeps hP ha)

theorem Expr.ChecksEach.keeps (hP : KeptByInterning P) {report : Option Mismatch}
    {es es' : List Expr} {demands : List Demand} {found : Except Fault (List TypeId)}
    {a b : TypeArena} : Expr.ChecksEach vars report es demands a es' found b → P a → P b
  | .nil, ha => ha
  | .fault h, ha | .mismatch h _, ha => h.keeps hP ha
  | .cons h _ heach _, ha => heach.keeps hP (h.keeps hP ha)

end

mutual

theorem Expr.Amends.keeps (hP : KeptByInterning P) {e e' : Expr} {found : Except Fault Unit}
    {a b : TypeArena} : e.Amends vars a e' found b → P a → P b
  | .constructor h _, ha => h.keeps hP ha
  | .parts _ hall, ha => hall.keeps hP ha

theorem Expr.AmendsAll.keeps (hP : KeptByInterning P) {es es' : List Expr}
    {found : Except Fault Unit} {a b : TypeArena} :
    Expr.AmendsAll vars es a es' found b → P a → P b
  | .nil, ha => ha
  | .fault h, ha => h.keeps hP ha
  | .cons h hall, ha => hall.keeps hP (h.keeps hP ha)

end

/-! ## Statements and modules -/

variable {config : Config}

mutual

/-- So does checking a statement. -/
theorem Stmt.Checks.keeps (hP : KeptByInterning P) {m m' : Stmt} {found : Except Fault Unit}
    {a b : TypeArena} : m.Checks config vars a m' found b → P a → P b
  | .plain _, ha => ha
  | .expression h _, ha => h.keeps hP ha
  | .imbalanced _, ha => ha
  | .locals _ h _, ha => h.keeps hP ha
  | .exportStmt h, ha => h.keeps hP ha
  | .exportExpr h, ha => (Expr.amends_of_run _ h).keeps hP ha
  | .block h, ha => h.keeps hP ha

theorem Stmt.ChecksAll.keeps (hP : KeptByInterning P) {ms ms' : List Stmt}
    {found : Except Fault Unit} {a b : TypeArena} :
    Stmt.ChecksAll config vars ms a ms' found b → P a → P b
  | .nil, ha => ha
  | .fault h, ha => h.keeps hP ha
  | .cons h hall, ha => hall.keeps hP (h.keeps hP ha)

end

/-- **Checking keeps what interning keeps.** -/
theorem keeps_moduleCheck (hP : KeptByInterning P) (config : Config) (vars : VariableArena)
    (m : Module) : Keeps P (m.check config vars) := by
  intro a ha
  obtain ⟨body, h, -⟩ := Module.check_iff.1 (rfl : m.check config vars a = _)
  exact h.keeps hP ha

end TypedLua
