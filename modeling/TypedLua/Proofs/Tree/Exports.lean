import Mathlib.Data.List.Induction
import TypedLua.Proofs.Typing.Untyped

/-!
# Tree.Exports

What a module exports, told from its tree alone.  Only the statements of the outermost block count:
a declaration of exported variables exports them under their names, and the definition of an
exported type exports it under its name; of two under one name the last one counts.

Main statements: `Bindings.find?_insertAll`, `Module.check_exports` and `Module.check_sealed`.
-/

namespace TypedLua

open Text Typing

/-! ## Tables -/

namespace Bindings

variable {α : Type}

/-- Bind several names in order. -/
def insertAll (b : Bindings α) (entries : List (String × α)) : Bindings α :=
  entries.foldl (fun b entry => b.insert entry.1 entry.2) b

theorem insertAll_append (b : Bindings α) (xs ys : List (String × α)) :
    b.insertAll (xs ++ ys) = (b.insertAll xs).insertAll ys := List.foldl_append

/-- The last entry under a name is found. -/
theorem find?_insertAll (entries : List (String × α)) (name : String) :
    (insertAll {} entries).find? name = entries.reverse.lookup name := by
  induction entries using List.reverseRecOn with
  | nil => rfl
  | append_singleton entries entry ih =>
    rw [insertAll_append, List.reverse_concat, List.lookup_cons, ← ih]
    show ((insertAll {} entries).insert entry.1 entry.2).find? name = _
    rw [find?_insert]
    by_cases hname : name = entry.1
    · simp [hname]
    · have hne : (name == entry.1) = false := beq_false_of_ne hname
      simp [hname, hne]

end Bindings

/-! ## Exports -/

/-- The variables that a statement exports, with their names. -/
def Stmt.exportedVariables (vars : VariableArena) : Stmt → List (String × VariableId)
  | .exportStmt (.locals targets _ _) _ => targets.map fun id => (vars.nameOf id, id)
  | _ => []

/-- The types that a statement exports, with their names. -/
def Stmt.exportedTypes : Stmt → List (String × TypeId)
  | .exportExpr (.typeAlias name tag) _ => [(name, tag.type)]
  | _ => []

namespace Module

/-- The variable of a name that the outermost block of a module declares and exports last. -/
def exportedVariable? (vars : VariableArena) (m : Module) (name : String) : Option VariableId :=
  (m.statements.flatMap (·.exportedVariables vars)).reverse.lookup name

/-- The type that the outermost block of a module defines and exports under a name. -/
def exportedType? (m : Module) (name : String) : Option TypeId :=
  (m.statements.flatMap Stmt.exportedTypes).reverse.lookup name

end Module

mutual

/-- No nested block in the statement exports anything, nor does one in an imported module. -/
def Stmt.Sealed : Stmt → Prop
  | .block b => b.Sealed
  | .exportStmt item _ => item.Sealed
  | .imports _ source _ => source.Sealed
  | .expression .. | .locals .. | .exportExpr .. | .externVariable .. | .externFunction .. => True

/-- The nested block exports nothing, nor does one in it. -/
def Block.Sealed : Block → Prop
  | ⟨body, scope, _⟩ =>
    scope.exportedVariables = {} ∧ scope.exportedTypes = {} ∧ Stmt.SealedAll body

/-- No nested block in the module exports anything. -/
def Module.Sealed : Module → Prop
  | ⟨_, ⟨body, _, _⟩⟩ => Stmt.SealedAll body

/-- No nested block in the statements exports anything. -/
def Stmt.SealedAll : List Stmt → Prop
  | [] => True
  | m :: ms => m.Sealed ∧ Stmt.SealedAll ms

end

theorem Stmt.sealedAll_concat {ms : List Stmt} {m : Stmt} (hms : Stmt.SealedAll ms)
    (hm : m.Sealed) : Stmt.SealedAll (ms ++ [m]) := by
  induction ms with
  | nil => exact ⟨hm, .intro⟩
  | cons m' ms ih => exact ⟨hms.1, ih hms.2⟩

/-! ## Checking -/

variable {config : Config} {vars : VariableArena} {a b : TypeArena} {found : Except Fault Unit}

/-- Checking an exported expression keeps the types that it exports. -/
theorem checkConstructors_exports {e e' : Expr} {span : Span}
    (h : e.checkConstructors vars a = ((e', found), b)) :
    (Stmt.exportExpr e' span).exportedTypes = (Stmt.exportExpr e span).exportedTypes := by
  have huntyped := (Expr.amends_of_run e h).untyped
  cases e with
  | typeAlias =>
    cases h
    rfl
  | _ =>
    -- nothing else turns into a definition
    cases e' with
    | typeAlias => cases huntyped
    | _ => rfl

/-- Checking a statement keeps the variables that it exports. -/
theorem Stmt.check_exportedVariables (arena : VariableArena) (m : Stmt) :
    (m.check config vars a).1.1.exportedVariables arena = m.exportedVariables arena := by
  cases m with
  | exportStmt item span => cases item <;> rfl
  | _ => rfl

/-- It keeps the exported types. -/
theorem Stmt.check_exportedTypes (m : Stmt) :
    (m.check config vars a).1.1.exportedTypes = m.exportedTypes := by
  cases m with
  | exportExpr e span => exact checkConstructors_exports (e := e) rfl
  | _ => rfl

theorem Stmt.checkAll_cons (config : Config) (vars : VariableArena) (m : Stmt) (ms : List Stmt)
    (a : TypeArena) :
    ∃ rest, (Stmt.checkAll config vars (m :: ms) a).1.1 = (m.check config vars a).1.1 :: rest ∧
      (rest = ms ∨ ∃ b, rest = (Stmt.checkAll config vars ms b).1.1) := by
  rw [Stmt.checkAll]
  cases hm : m.check config vars a with
  | mk checked b =>
    obtain ⟨m', found⟩ := checked
    rw [bind_of_run hm]
    cases found with
    | error f => exact ⟨ms, rfl, .inl rfl⟩
    | ok _ => exact ⟨_, rfl, .inr ⟨b, rfl⟩⟩

/-- What checking keeps of each statement it keeps of the module. -/
theorem Module.check_exports (config : Config) (vars : VariableArena) {β : Type}
    {f : Stmt → List β} (hf : ∀ (m : Stmt) (a : TypeArena), f (m.check config vars a).1.1 = f m)
    (m : Module) (a : TypeArena) :
    (m.check config vars a).1.1.statements.flatMap f = m.statements.flatMap f := by
  obtain ⟨file, body, scope, span⟩ := m
  show (Stmt.checkAll config vars body a).1.1.flatMap f = body.flatMap f
  induction body generalizing a with
  | nil => rfl
  | cons m ms ih =>
    obtain ⟨rest, heq, rfl | ⟨b, rfl⟩⟩ := Stmt.checkAll_cons config vars m ms a
    · rw [heq, List.flatMap_cons, List.flatMap_cons, hf]
    · rw [heq, List.flatMap_cons, List.flatMap_cons, hf, ih]

mutual

/-- A sealed statement is still sealed when it is checked. -/
theorem Stmt.Checks.sealed {m m' : Stmt} {a b : TypeArena} {found : Except Fault Unit} :
    m.Checks config vars a m' found b → m.Sealed → m'.Sealed
  | .plain _, h => h
  | .expression .., _ | .imbalanced .., _ | .locals .., _ | .exportExpr .., _ => .intro
  | .exportStmt hitem, h =>
    have ih := hitem.sealed h
    ih
  | .block hall, h => ⟨h.1, h.2.1, hall.sealed h.2.2⟩

theorem Stmt.ChecksAll.sealed {ms ms' : List Stmt} {a b : TypeArena}
    {found : Except Fault Unit} : Stmt.ChecksAll config vars ms a ms' found b →
      Stmt.SealedAll ms → Stmt.SealedAll ms'
  | .nil, h => h
  | .fault hm, h => ⟨hm.sealed h.1, h.2⟩
  | .cons hm hall, h => ⟨hm.sealed h.1, hall.sealed h.2⟩

end

/-- So is a module. -/
theorem Module.check_sealed {m : Module} (h : m.Sealed) : (m.check config vars a).1.1.Sealed := by
  generalize hcheck : m.check config vars a = checked
  obtain ⟨⟨m', found⟩, b⟩ := checked
  obtain ⟨body, hall, rfl⟩ := Module.check_iff.1 hcheck
  obtain ⟨file, ms, scope, span⟩ := m
  exact hall.sealed h

end TypedLua
