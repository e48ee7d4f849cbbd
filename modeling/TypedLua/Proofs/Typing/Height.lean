import Mathlib.Data.List.Forall2
import TypedLua.Proofs.Tree.Height
import TypedLua.Proofs.Typing.Untyped

/-!
# Typing.Height

Checking leaves trees as deep as they are.  Types are all that changes in an expression, so that its
height stays; the values that complete a declaration are leaves; and blocks and imported modules
stay where they are.

Main statement: `Module.Shallow.check`.
-/

namespace TypedLua

open Text Typing

/-! ## Expressions -/

namespace Expr

mutual

/-- The types of an expression do not make it higher. -/
theorem height_untyped : ∀ e : Expr, e.untyped.height = e.height
  | .call callee arguments _ => by
    simp only [untyped, height, height_untyped callee, heightAll_untyped arguments]
  | .member object _ _ => by simp only [untyped, height, height_untyped object]
  | .index object key _ => by
    simp only [untyped, height, height_untyped object, height_untyped key]
  | .group inner _ => by simp only [untyped, height, height_untyped inner]
  | .constructor entries _ => by simp only [untyped, height, heightAll_untyped entries]
  | .entry _ value _ => by simp only [untyped, height, height_untyped value]
  | .unresolved .. | .reference .. | .number .. | .string .. | .boolean .. | .nil ..
  | .typeName .. | .prototype .. | .typeAlias .. => rfl

theorem heightAll_untyped : ∀ es : List Expr, heightAll (untypedAll es) = heightAll es
  | [] => rfl
  | e :: es => by simp only [untypedAll, heightAll, height_untyped e, heightAll_untyped es]

end

theorem height_eq_of_untyped {e d : Expr} (h : e.untyped = d.untyped) : e.height = d.height := by
  rw [← e.height_untyped, h, d.height_untyped]

theorem heightAll_eq_of_untyped {es ds : List Expr} (h : es.map untyped = ds.map untyped) :
    heightAll es = heightAll ds := by
  rw [← untypedAll_eq_map, ← untypedAll_eq_map] at h
  rw [← heightAll_untyped, h, heightAll_untyped]

end Expr

/-! ## Statements and modules -/

variable {config : Config} {vars : VariableArena} {n : Nat}

/-- The second statement is no deeper than the first and imports the same modules. -/
structure Stmt.NoDeeper (n : Nat) (m m' : Stmt) : Prop where
  expressions : (∀ e ∈ m.expressions, e.height ≤ n) → ∀ e ∈ m'.expressions, e.height ≤ n
  nesting : m'.nesting = m.nesting
  imported : m'.imported = m.imported

namespace Stmt.NoDeeper

theorem refl (m : Stmt) : NoDeeper n m m := ⟨fun h => h, rfl, rfl⟩

theorem block {ms ms' : List Stmt} (h : List.Forall₂ (NoDeeper n) ms ms') (scope : Scope)
    (span : Span) : NoDeeper n (.block ⟨ms, scope, span⟩) (.block ⟨ms', scope, span⟩) := by
  induction h with
  | nil => exact refl _
  | @cons m m' ms ms' hm _ ih =>
    refine ⟨fun hlow => ?_, ?_, ?_⟩
    · have hlow : ∀ e ∈ m.expressions ++ Stmt.expressionsOf ms, e.height ≤ n := hlow
      show ∀ e ∈ m'.expressions ++ Stmt.expressionsOf ms', e.height ≤ n
      rw [List.forall_mem_append] at hlow ⊢
      exact ⟨hm.expressions hlow.1, ih.expressions hlow.2⟩
    · have ih : Stmt.nestingOf ms' + 1 = Stmt.nestingOf ms + 1 := ih.nesting
      show max m'.nesting (Stmt.nestingOf ms') + 1 = max m.nesting (Stmt.nestingOf ms) + 1
      rw [hm.nesting, Nat.succ.inj ih]
    · have ih : Stmt.importedOf ms' = Stmt.importedOf ms := ih.imported
      show m'.imported ++ Stmt.importedOf ms' = m.imported ++ Stmt.importedOf ms
      rw [hm.imported, ih]

end Stmt.NoDeeper

mutual

/-- Checking makes no statement deeper. -/
theorem Stmt.Checks.noDeeper (hn : 1 ≤ n) {m m' : Stmt} {found : Except Fault Unit}
    {a b : TypeArena} : m.Checks config vars a m' found b → m.NoDeeper n m'
  | .plain _ => .refl _
  | .expression h _ => by
    refine ⟨fun hlow => ?_, rfl, rfl⟩
    simpa [Stmt.expressions, Expr.height_eq_of_untyped h.untyped] using hlow
  | .imbalanced _ => .refl _
  | .locals _ h _ => by
    refine ⟨fun hlow => ?_, rfl, rfl⟩
    rw [Stmt.expressions, ← Expr.heightAll_le_iff, Expr.heightAll_eq_of_untyped h.untyped,
      Expr.heightAll_le_iff, padValues, List.forall_mem_append]
    refine ⟨hlow, fun e he => ?_⟩
    rw [List.eq_of_mem_replicate he]
    exact hn
  | .exportStmt h =>
    have ih := h.noDeeper hn
    ⟨ih.expressions, ih.nesting, ih.imported⟩
  | .exportExpr h => by
    refine ⟨fun hlow => ?_, rfl, rfl⟩
    have huntyped := (Expr.amends_of_run _ h).untyped
    simpa [Stmt.expressions, Expr.height_eq_of_untyped huntyped] using hlow
  | .block h => .block (h.noDeeper hn) _ _

theorem Stmt.ChecksAll.noDeeper (hn : 1 ≤ n) {ms ms' : List Stmt} {found : Except Fault Unit}
    {a b : TypeArena} : Stmt.ChecksAll config vars ms a ms' found b →
      List.Forall₂ (Stmt.NoDeeper n) ms ms'
  | .nil => .nil
  -- the statements behind a fault are left as they are
  | .fault h => .cons (h.noDeeper hn) (List.forall₂_same.2 fun m _ => .refl m)
  | .cons h hall => .cons (h.noDeeper hn) (hall.noDeeper hn)

end

/-- A shallow module stays shallow when it is checked. -/
theorem Module.Shallow.check {m : Module} {k : Nat} (hn : 1 ≤ n) (hm : m.Shallow n k)
    (a : TypeArena) : (m.check config vars a).1.1.Shallow n k ∧
      (m.check config vars a).1.1.imported = m.imported := by
  generalize hcheck : m.check config vars a = checked
  obtain ⟨⟨m', found⟩, b⟩ := checked
  obtain ⟨body, hall, rfl⟩ := Module.check_iff.1 hcheck
  obtain ⟨file, ms, scope, span⟩ := m
  have hblock := Stmt.NoDeeper.block (hall.noDeeper hn) scope span
  have hnesting : Stmt.nestingOf body + 1 = Stmt.nestingOf ms + 1 := hblock.nesting
  refine ⟨⟨hblock.expressions hm.1, ?_⟩, hblock.imported⟩
  show Stmt.nestingOf body ≤ k
  rw [Nat.succ.inj hnesting]
  exact hm.2

end TypedLua
