import Mathlib.Data.List.Lex
import TypedLua.Proofs.Simulation
import TypedLua.Proofs.Tree.Height
import TypedLua.Tree.Walk

/-!
# Tree.Walk

What a walk comes to.  Every node has parts, in source order, and a node below another one is told by
a path: the numbers of the parts that lead down to it.  In the lexical order of their paths, a node
comes before its parts and a part before the next one.

Main statement: `Module.walk_preorder`.
-/

namespace TypedLua

open Text

/-! ## Parts -/

namespace Node

/-- The parts of a node, in source order. -/
def parts : Node → List Node
  | module m => [statement (.block m.block)]
  | statement (.expression e _) => [expression e]
  | statement (.locals _ values _) => values.map expression
  | statement (.exportStmt item _) => [statement item]
  | statement (.exportExpr item _) => [expression item]
  | statement (.externVariable ..) => []
  | statement (.externFunction head _) => [expression (.prototype head)]
  | statement (.imports names source _) => names.map expression ++ [module source]
  | statement (.block b) => b.body.map statement
  | expression e => e.parts.map expression

/-- A path leads down from a node to another one, and no node above that one is pruned. -/
inductive Leads (pruned : Node → Bool) : Node → List Nat → Node → Prop
  | here (n : Node) : Leads pruned n [] n
  | down {n part target : Node} {i : Nat} {path : List Nat} : pruned n = false →
      n.parts[i]? = some part → Leads pruned part path target → Leads pruned n (i :: path) target

theorem sizeOf_lt_of_mem_parts {n part : Node} (h : part ∈ n.parts) : sizeOf part < sizeOf n := by
  have hexprs : ∀ {e : Expr} {es : List Expr}, e ∈ es → sizeOf e < sizeOf es :=
    fun he => List.sizeOf_lt_of_mem he
  have hstmts : ∀ {s : Stmt} {ss : List Stmt}, s ∈ ss → sizeOf s < sizeOf ss :=
    fun hs => List.sizeOf_lt_of_mem hs
  rcases n with ⟨⟨⟨_⟩, _⟩⟩ | s | e
  · simp only [parts, List.mem_singleton] at h
    grind
  · rcases s with _ | _ | _ | _ | _ | ⟨_, ⟨_⟩⟩ | _ | ⟨⟨_⟩⟩ <;>
      simp only [parts, List.mem_singleton, List.mem_append, List.mem_map, List.not_mem_nil] at h <;>
      grind
  · cases e <;> simp only [parts, Expr.parts, List.mem_cons, List.mem_map, List.not_mem_nil] at h <;>
      grind

/-! ## The walk -/

/-- Walk over a node. -/
def walk {m : Type → Type} [Monad m] (v : Visitor m) : Node → m Unit
  | module m => m.walk v
  | statement s => s.walk v
  | expression e => e.walk v

section

variable {m : Type → Type} [Monad m] (v : Visitor m)

theorem walkAll_exprs (es : List Expr) : Expr.walkAll v es = (es.map expression).forM (walk v) := by
  induction es with
  | nil =>
    rw [Expr.walkAll]
    rfl
  | cons e es ih =>
    rw [Expr.walkAll, ih]
    rfl

theorem walkAll_stmts (ss : List Stmt) : Stmt.walkAll v ss = (ss.map statement).forM (walk v) := by
  induction ss with
  | nil =>
    rw [Stmt.walkAll]
    rfl
  | cons s ss ih =>
    rw [Stmt.walkAll, ih]
    rfl

/-- A walk visits the node, and walks its parts in order inside the visit. -/
theorem walk_eq [LawfulMonad m] (n : Node) : n.walk v = v.visit n (n.parts.forM (walk v)) := by
  cases n with
  | module m =>
    obtain ⟨file, block⟩ := m
    simp [walk, Module.walk, parts, Stmt.walk]
  | statement s =>
    cases s with
    | block b =>
      obtain ⟨body, scope, span⟩ := b
      simp [walk, Stmt.walk, Block.walk, parts, walkAll_stmts]
    | _ => simp [walk, Stmt.walk, parts, walkAll_exprs, Expr.walk]
  | expression e => cases e <;> simp [walk, Expr.walk, parts, Expr.parts, walkAll_exprs]

end

/-! ## Tours -/

/-- The visitor notes something at every node, and goes on into the parts of those that are not
pruned. -/
def Notes {β : Type} (pruned : Node → Bool) (out : Node → List β) (v : Visitor (StateM (List β))) :
    Prop :=
  ∀ n found, v.enter n found = (if pruned n then .skip else .descend, found ++ out n)

/-- What a walk over a node comes to, each node with its path. -/
structure Tours (pruned : Node → Bool) (n : Node) (visits : List (List Nat × Node)) : Prop where
  mem_iff {path : List Nat} {target : Node} : (path, target) ∈ visits ↔ n.Leads pruned path target
  ordered : visits.Pairwise fun a b => a.1 < b.1
  notes {β : Type} {out : Node → List β} {v : Visitor (StateM (List β))} : Notes pruned out v →
    ∀ found, n.walk v found = ((), found ++ visits.flatMap (out ·.2))

variable {pruned : Node → Bool}

/-- Tours of the parts, in a row, tour all that is below the node. -/
theorem tours_parts {parts : List Node} (h : ∀ part ∈ parts, ∃ visits, part.Tours pruned visits)
    (k : Nat) : ∃ visits : List (List Nat × Node),
      (∀ {path target}, (path, target) ∈ visits ↔ ∃ i part rest, path = (k + i) :: rest ∧
        parts[i]? = some part ∧ part.Leads pruned rest target) ∧
      (visits.Pairwise fun a b => a.1 < b.1) ∧
      ∀ {β : Type} {out : Node → List β} {v : Visitor (StateM (List β))}, Notes pruned out v →
        ∀ found, parts.forM (walk v) found = ((), found ++ visits.flatMap (out ·.2)) := by
  induction parts generalizing k with
  | nil => exact ⟨[], by simp, .nil, fun _ found => by simp; rfl⟩
  | cons part parts ih =>
    obtain ⟨⟨first, hfirst⟩, hparts⟩ := List.forall_mem_cons.1 h
    obtain ⟨rest, hmem, hordered, hnotes⟩ := ih hparts (k + 1)
    refine ⟨first.map (fun x => (k :: x.1, x.2)) ++ rest, ?_, ?_, fun hv found => ?_⟩
    · intro path target
      rw [List.mem_append, hmem]
      constructor
      · rintro (hleft | ⟨i, part', tail, rfl, hpart', hleads⟩)
        · obtain ⟨⟨tail, _⟩, hx, heq⟩ := List.mem_map.1 hleft
          cases heq
          exact ⟨0, part, tail, rfl, rfl, hfirst.mem_iff.1 hx⟩
        · exact ⟨i + 1, part', tail, by rw [Nat.add_assoc, Nat.add_comm 1], hpart', hleads⟩
      · rintro ⟨i, part', tail, rfl, hpart', hleads⟩
        cases i with
        | zero =>
          cases hpart'
          exact .inl (List.mem_map.2 ⟨(tail, target), hfirst.mem_iff.2 hleads, rfl⟩)
        | succ i => exact .inr ⟨i, part', tail, by rw [Nat.add_assoc, Nat.add_comm 1], hpart', hleads⟩
    · refine List.pairwise_append.2 ⟨?_, hordered, ?_⟩
      · rw [List.pairwise_map]
        exact hfirst.ordered.imp fun hlt => List.cons_lt_cons_iff.2 (.inr ⟨rfl, hlt⟩)
      · rintro _ ha ⟨_, target⟩ hb
        obtain ⟨a, -, rfl⟩ := List.mem_map.1 ha
        obtain ⟨i, part', tail, rfl, -, -⟩ := hmem.1 hb
        exact List.cons_lt_cons_iff.2 (.inl (by omega))
    · have hrun := hfirst.notes hv found
      refine (bind_of_run hrun).trans ((hnotes hv _).trans ?_)
      rw [List.flatMap_append, List.flatMap_map, List.append_assoc]

/-- Every node has a tour. -/
theorem exists_tours (pruned : Node → Bool) (n : Node) : ∃ visits, n.Tours pruned visits := by
  induction hsize : sizeOf n using Nat.strongRecOn generalizing n with
  | _ size ih =>
    subst hsize
    have hparts : ∀ part ∈ n.parts, ∃ visits, part.Tours pruned visits := fun part hpart =>
      ih _ (sizeOf_lt_of_mem_parts hpart) part rfl
    obtain ⟨visits, hmem, hordered, hnotes⟩ := tours_parts hparts 0
    cases hpruned : pruned n with
    | true =>
      refine ⟨[([], n)], fun {path target} => ?_, List.pairwise_singleton _ _, fun hv found => ?_⟩
      · constructor
        · intro h
          cases List.mem_singleton.1 h
          exact .here n
        · intro h
          cases h with
          | here => exact List.mem_singleton_self _
          | down hnot => cases hpruned.symm.trans hnot
      · rw [walk_eq]
        refine (bind_of_run (hv n found)).trans ?_
        rw [hpruned]
        simp
        rfl
    | false =>
      refine ⟨([], n) :: visits, fun {path target} => ?_, .cons ?_ hordered, fun hv found => ?_⟩
      · rw [List.mem_cons, hmem]
        constructor
        · rintro (heq | ⟨i, part, rest, rfl, hpart, hleads⟩)
          · cases heq
            exact .here n
          · rw [Nat.zero_add]
            exact .down hpruned hpart hleads
        · intro h
          cases h with
          | here => exact .inl rfl
          | @down _ part _ i rest _ hpart hleads =>
            exact .inr ⟨i, part, rest, by rw [Nat.zero_add], hpart, hleads⟩
      · rintro ⟨_, target⟩ hx
        obtain ⟨i, part, rest, rfl, -, -⟩ := hmem.1 hx
        exact List.nil_lt_cons _ _
      · rw [walk_eq]
        refine (bind_of_run (hv n found)).trans ?_
        rw [hpruned]
        refine (hnotes hv _).trans ?_
        rw [List.flatMap_cons, List.append_assoc]

end Node

/-! ## Recording -/

/-- Records the nodes of a walk that does not go on below pruned ones. -/
def Node.recorder (pruned : Node → Bool) : Visitor (StateM (List Node)) where
  node _ := return .descend
  enter n := do
    modify (· ++ [n])
    return if pruned n then .skip else .descend

/-- A call of a handler that is shared by several kinds of nodes. -/
inductive HandlerCall where
  | node (span : Span)
  | expression (span : Span) (type : TypeId)
  | statement (span : Span)

namespace HandlerCall

/-- The calls that a node comes to: that of its supertype, and from there that of any node. -/
def ofNode : Node → List HandlerCall
  | .module m => [node m.span]
  | .statement s => [statement s.span, node s.span]
  | .expression e => [expression e.span e.type, node e.span]

/-- Logs the call for any node. -/
def atNode (span : Span) : StateM (List HandlerCall) Traversal := do
  modify (· ++ [node span])
  return .descend

/-- Logs the calls of the shared handlers, and handles no kind of nodes on its own. -/
def logger : Visitor (StateM (List HandlerCall)) where
  node := atNode
  expression span type := do
    modify (· ++ [expression span type])
    atNode span
  statement span := do
    modify (· ++ [statement span])
    atNode span

end HandlerCall

open HandlerCall in
/-- **A walk visits every node once, in source order, and pruning a node leaves out just what is
below it.**  The nodes that are recorded are those to which a path leads without a pruned node above
them, each once, and a path comes before those that go on from it or branch off to a later part.
With nothing but shared handlers, each node is handled as any of its supertype is, and that comes to
one call for any node; the defaults of these handlers leave just that call. -/
theorem Module.walk_preorder (m : Module) (pruned : Node → Bool) :
    (∃ visits : List (List Nat × Node),
      visits.map Prod.snd = (m.walk (Node.recorder pruned) []).2 ∧
      (visits.Pairwise fun a b => a.1 < b.1) ∧
      ∀ path target, (path, target) ∈ visits ↔ (Node.module m).Leads pruned path target) ∧
    (m.walk logger []).2 = (m.walk (Node.recorder fun _ => false) []).2.flatMap ofNode ∧
    (m.walk { node := atNode } []).2 =
      (m.walk (Node.recorder fun _ => false) []).2.map (.node ·.span) := by
  have hrecord : ∀ {pruned visits}, (Node.module m).Tours pruned visits →
      (m.walk (Node.recorder pruned) []).2 = visits.map Prod.snd := by
    intro pruned visits h
    have hnotes : Node.Notes pruned (fun n => [n]) (Node.recorder pruned) := fun _ _ => rfl
    rw [show m.walk (Node.recorder pruned) [] = _ from h.notes hnotes [], List.map_eq_flatMap]
    rfl
  refine ⟨?_, ?_⟩
  · obtain ⟨visits, hvisits⟩ := Node.exists_tours pruned (.module m)
    exact ⟨visits, (hrecord hvisits).symm, hvisits.ordered, fun _ _ => hvisits.mem_iff⟩
  · obtain ⟨visits, hvisits⟩ := Node.exists_tours (fun _ => false) (.module m)
    rw [hrecord hvisits]
    constructor
    · have hlogger : Node.Notes (fun _ => false) ofNode logger := by
        intro n found
        cases n with
        | module => rfl
        | statement | expression => exact congrArg (Prod.mk _) (List.append_assoc ..)
      rw [show m.walk logger [] = _ from hvisits.notes hlogger [], List.flatMap_map]
      rfl
    · have hnode : Node.Notes (fun _ => false) (fun n => [node n.span]) { node := atNode } := by
        intro n found
        cases n <;> rfl
      rw [show m.walk { node := atNode } [] = _ from hvisits.notes hnode [], List.map_map,
        List.map_eq_flatMap]
      rfl

end TypedLua
