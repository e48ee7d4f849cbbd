import TypedLua.Proofs.Tree.Ids
import TypedLua.Proofs.Typing.Leaves
import TypedLua.Tree.Externs

/-!
# Tree.Externs

The symbols that a module expects from elsewhere, told from its leaves.  The walk that records them
changes nothing in expressions and does not enter imported modules, so what it records comes from
the leaves that declare externs, in source order.

Main statements: `Module.externs_eq`, the symbols are those of the externs that denote, and
`Module.externs_places`, if all externs denote then none is left out.
-/

namespace TypedLua

open Text

/-! ## Externs -/

/-- The variable that a statement declares to be defined elsewhere, and the place of the
statement. -/
def Stmt.extern? : Stmt → Option (VariableId × Span)
  | .externVariable id span => some (id, span)
  | .externFunction head span => some (head.function, span)
  | _ => none

/-- The externs of a module in source order, each with its place. -/
def Module.externPlaces (m : Module) : List (VariableId × Span) := m.leaves.filterMap Stmt.extern?

/-! ## The walk -/

namespace ExternSymbol

variable {vars : VariableArena}

/-- The symbols of those of the externs that denote. -/
def ofPlaces (vars : VariableArena) (xs : List (VariableId × Span)) : List ExternSymbol :=
  xs.filterMap fun x => ofVariable? vars x.1 x.2

theorem ofPlaces_append (xs ys : List (VariableId × Span)) :
    ofPlaces vars (xs ++ ys) = ofPlaces vars xs ++ ofPlaces vars ys := List.filterMap_append

theorem ofPlaces_cons (x : VariableId × Span) (xs : List (VariableId × Span)) :
    ofPlaces vars (x :: xs) = (ofVariable? vars x.1 x.2).toList ++ ofPlaces vars xs := by
  unfold ofPlaces
  rw [List.filterMap_cons]
  cases ofVariable? vars x.1 x.2 <;> rfl

theorem ofPlaces_singleton (x : VariableId × Span) :
    ofPlaces vars [x] = (ofVariable? vars x.1 x.2).toList := by
  rw [ofPlaces_cons]
  exact List.append_nil _

/-- If the variables exist, there is one symbol for each place. -/
theorem map_ofPlaces {xs : List (VariableId × Span)}
    (h : ∀ x ∈ xs, ∃ v, vars.get? x.1 = some v) :
    (ofPlaces vars xs).map (fun symbol => (symbol.id, symbol.span)) = xs := by
  induction xs with
  | nil => rfl
  | cons x xs ih =>
    obtain ⟨⟨v, hv⟩, hxs⟩ := List.forall_mem_cons.1 h
    rw [ofPlaces_cons, ofVariable?, hv, List.map_append, ih hxs]
    rfl

mutual

/-- Expressions declare no externs. -/
theorem walk_expr : ∀ e : Expr, e.walk (collector vars) = pure ()
  | .call callee arguments _ => by
    rw [Expr.walk, walk_expr callee, walk_exprs arguments]
    rfl
  | .member object _ _ => by
    rw [Expr.walk, walk_expr object]
    rfl
  | .index object key _ => by
    rw [Expr.walk, walk_expr object, walk_expr key]
    rfl
  | .group inner _ => by
    rw [Expr.walk, walk_expr inner]
    rfl
  | .constructor entries _ => by
    rw [Expr.walk, walk_exprs entries]
    rfl
  | .entry _ value _ => by
    rw [Expr.walk, walk_expr value]
    rfl
  | .number .. | .string .. | .boolean .. | .nil .. | .unresolved .. | .reference ..
  | .typeName .. | .prototype .. | .typeAlias .. => by
    rw [Expr.walk]
    rfl

theorem walk_exprs : ∀ es : List Expr, Expr.walkAll (collector vars) es = pure ()
  | [] => by rw [Expr.walkAll]
  | e :: es => by
    rw [Expr.walkAll, walk_expr e, walk_exprs es]
    rfl

end

mutual

theorem walk_stmt : ∀ (m : Stmt) (found : List ExternSymbol), m.walk (collector vars) found =
    ((), found ++ ofPlaces vars (m.leaves.filterMap Stmt.extern?))
  | .expression value _, found => by
    simp only [Stmt.walk, walk_expr value, Stmt.leaves]
    exact congrArg _ (List.append_nil found).symm
  | .locals _ values _, found => by
    simp only [Stmt.walk, walk_exprs values, Stmt.leaves]
    exact congrArg _ (List.append_nil found).symm
  | .exportStmt item _, found => by
    simp only [Stmt.walk, Stmt.leaves]
    exact walk_stmt item found
  | .exportExpr item _, found => by
    simp only [Stmt.walk, walk_expr item, Stmt.leaves]
    exact congrArg _ (List.append_nil found).symm
  | .externVariable id span, found => by
    simp only [Stmt.walk, Stmt.leaves]
    exact congrArg (fun xs => ((), found ++ xs)) (ofPlaces_singleton (id, span)).symm
  | .externFunction head span, found => by
    simp only [Stmt.walk, Stmt.leaves]
    exact congrArg (fun xs => ((), found ++ xs)) (ofPlaces_singleton (head.function, span)).symm
  | .imports .., found => by
    simp only [Stmt.walk, Stmt.leaves]
    exact congrArg _ (List.append_nil found).symm
  | .block b, found => by
    simp only [Stmt.walk, Stmt.leaves]
    exact walk_block b found

/-- The walk collects the externs of the leaves in order. -/
theorem walk_block : ∀ (b : Block) (found : List ExternSymbol), b.walk (collector vars) found =
    ((), found ++ ofPlaces vars (b.leaves.filterMap Stmt.extern?))
  | ⟨body, scope, span⟩, found => by
    rw [Block.walk, Block.leaves]
    exact walk_stmts body found

theorem walk_stmts : ∀ (ms : List Stmt) (found : List ExternSymbol),
    Stmt.walkAll (collector vars) ms found =
      ((), found ++ ofPlaces vars ((Stmt.leavesOf ms).filterMap Stmt.extern?))
  | [], found => by
    rw [Stmt.walkAll, Stmt.leavesOf]
    exact congrArg _ (List.append_nil found).symm
  | m :: ms, found => by
    rw [Stmt.walkAll, Stmt.leavesOf, List.filterMap_append, ofPlaces_append, ← List.append_assoc]
    apply (bind_of_run (walk_stmt m found)).trans
    exact walk_stmts ms _

end

end ExternSymbol

/-- The externs of a module are those of its leaves. -/
theorem Module.externs_eq (m : Module) (vars : VariableArena) :
    m.externs vars = ExternSymbol.ofPlaces vars m.externPlaces := by
  obtain ⟨file, block⟩ := m
  unfold Module.externs
  rw [Module.walk]
  exact congrArg Prod.snd (ExternSymbol.walk_block block [])

/-! ## Ids -/

mutual

theorem Stmt.mem_ids_of_leaves {id : VariableId} {span : Span} : ∀ m : Stmt,
    (id, span) ∈ m.leaves.filterMap Stmt.extern? → .ofVariable id ∈ m.ids
  | .expression .., h | .locals .., h => by
    simp only [Stmt.leaves] at h
    cases h
  | .exportStmt item _, h => by
    rw [Stmt.leaves] at h
    rw [Stmt.ids]
    exact item.mem_ids_of_leaves h
  | .exportExpr .., h => by
    simp only [Stmt.leaves] at h
    cases h
  | .externVariable declared place, h => by
    simp only [Stmt.leaves] at h
    cases List.mem_singleton.1 h
    rw [Stmt.ids]
    exact List.mem_singleton_self _
  | .externFunction head place, h => by
    simp only [Stmt.leaves] at h
    cases List.mem_singleton.1 h
    rw [Stmt.ids]
    exact List.mem_cons_self
  | .imports .., h => by
    rw [Stmt.leaves] at h
    cases h
  | .block b, h => by
    rw [Stmt.leaves] at h
    rw [Stmt.ids]
    exact b.mem_ids_of_leaves h

/-- An extern in a leaf is an id of the block. -/
theorem Block.mem_ids_of_leaves {id : VariableId} {span : Span} : ∀ b : Block,
    (id, span) ∈ b.leaves.filterMap Stmt.extern? → .ofVariable id ∈ b.ids
  | ⟨body, scope, place⟩, h => by
    rw [Block.leaves] at h
    rw [Block.ids]
    exact List.mem_append_left _ (Stmt.mem_idsOf_of_leaves body h)

theorem Stmt.mem_idsOf_of_leaves {id : VariableId} {span : Span} : ∀ ms : List Stmt,
    (id, span) ∈ (Stmt.leavesOf ms).filterMap Stmt.extern? → .ofVariable id ∈ Stmt.idsOf ms
  | [], h => by
    rw [Stmt.leavesOf] at h
    cases h
  | m :: ms, h => by
    rw [Stmt.leavesOf, List.filterMap_append] at h
    rw [Stmt.idsOf]
    rcases List.mem_append.1 h with h | h
    · exact List.mem_append_left _ (m.mem_ids_of_leaves h)
    · exact List.mem_append_right _ (Stmt.mem_idsOf_of_leaves ms h)

end

/-- If the ids of a module denote, its externs are at its extern places. -/
theorem Module.externs_places {m : Module} {vars : VariableArena}
    (h : ∀ id, .ofVariable id ∈ m.ids → ∃ v, vars.get? id = some v) :
    (m.externs vars).map (fun symbol => (symbol.id, symbol.span)) = m.externPlaces := by
  rw [Module.externs_eq]
  apply ExternSymbol.map_ofPlaces
  intro x hx
  apply h
  obtain ⟨file, block⟩ := m
  rw [Module.ids]
  exact block.mem_ids_of_leaves hx

end TypedLua
