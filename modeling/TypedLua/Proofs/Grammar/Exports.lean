import TypedLua.Proofs.Grammar.Frames
import TypedLua.Proofs.Tree.Exports

/-!
# Grammar.Exports

The tables of exports.  At every boundary the scope of the outermost block records what the
statements completed so far export, and the exported types are bound in it; the scopes of nested
blocks record nothing.  This rests on two facts about statements: a type that is bound in a block is
not bound anew in it, and nothing is exported but from the outermost block.

Main statements: `Effect.keepsTypes`, `Effect.exports`, `Boundary.tabled` and `records_of_module`.
-/

namespace TypedLua

open Text TypedLua.Parser

/-! ## The innermost scope -/

namespace ScopeStack

/-- The innermost scope changes as the relation allows, and the others stay. -/
def Becomes (R : Scope → Scope → Prop) (a b : ScopeStack) : Prop :=
  ∀ scope rest, a.scopes = scope :: rest → ∃ scope', b.scopes = scope' :: rest ∧ R scope scope'

variable {R S T : Scope → Scope → Prop} {a b c : ScopeStack}

theorem Becomes.refl (h : ∀ scope, R scope scope) (a : ScopeStack) : a.Becomes R a :=
  fun scope _ ha => ⟨scope, ha, h scope⟩

theorem Becomes.trans (h : ∀ x y z, R x y → S y z → T x z) (hab : a.Becomes R b)
    (hbc : b.Becomes S c) : a.Becomes T c := by
  intro scope rest ha
  obtain ⟨scope', hb, hR⟩ := hab scope rest ha
  obtain ⟨scope'', hc, hS⟩ := hbc scope' rest hb
  exact ⟨scope'', hc, h _ _ _ hR hS⟩

theorem Becomes.modifyCurrent {f : Scope → Scope} (h : ∀ scope, R scope (f scope))
    (a : ScopeStack) : a.Becomes R (a.modifyCurrent f) := by
  intro scope rest ha
  refine ⟨f scope, ?_, h scope⟩
  obtain ⟨scopes⟩ := a
  obtain rfl : scopes = scope :: rest := ha
  rfl

theorem Becomes.modified (f : Scope → Scope) (a : ScopeStack) :
    a.Becomes (fun x y => y = f x) (a.modifyCurrent f) :=
  .modifyCurrent (R := fun x y => y = f x) (fun _ => rfl) a

end ScopeStack

/-- The types that the first scope binds are bound to the same in the second. -/
def Scope.KeepsTypes (a b : Scope) : Prop :=
  ∀ name id, a.types.find? name = some id → b.types.find? name = some id

theorem Scope.KeepsTypes.refl (a : Scope) : a.KeepsTypes a := fun _ _ h => h

theorem Scope.KeepsTypes.trans (a b c : Scope) (hab : a.KeepsTypes b) (hbc : b.KeepsTypes c) :
    a.KeepsTypes c := fun name id h => hbc name id (hab name id h)

namespace ScopeStack

variable {a b : ScopeStack}

theorem foldl_keepsTypes {f : ScopeStack → VariableId → ScopeStack}
    (h : ∀ a id, Becomes Scope.KeepsTypes a (f a id)) (ids : List VariableId) (a : ScopeStack) :
    a.Becomes Scope.KeepsTypes (ids.foldl f a) := by
  induction ids generalizing a with
  | nil => exact .refl .refl a
  | cons id ids ih => exact .trans Scope.KeepsTypes.trans (h a id) (ih _)

theorem bindType_keepsTypes {name : String} (hnew : a.IsNewType name) (id : TypeId) :
    a.Becomes Scope.KeepsTypes (a.bindType name id) := by
  intro scope rest hscopes
  obtain ⟨scope', hscope', rfl⟩ := Becomes.modified
    (fun scope => { scope with types := scope.types.insert name id }) a scope rest hscopes
  refine ⟨_, hscope', fun other id' hother => ?_⟩
  show (scope.types.insert name id).find? other = some id'
  rw [Bindings.find?_insert]
  split
  · next heq =>
    -- the name is not new
    subst heq
    unfold IsNewType current? at hnew
    rw [hscopes] at hnew
    simp [Bindings.contains, hother] at hnew
  · exact hother

/-- Names that are imported leave the types of a scope as they are. -/
theorem TakesFrom.keepsTypes {source : Module} {names : List (String × Span)} {es : List Expr}
    (h : a.TakesFrom source names es b) : a.Becomes Scope.KeepsTypes b := by
  induction h with
  | nil => exact .refl .refl _
  | takesVariable _ _ ih =>
    exact .trans Scope.KeepsTypes.trans (.modifyCurrent (fun _ _ _ h => h) _) ih
  | takesType _ _ hnew ih =>
    exact .trans Scope.KeepsTypes.trans (bindType_keepsTypes hnew _) ih

end ScopeStack

/-! ## Statements -/

/-- The statement exports nothing. -/
structure Stmt.Private (m : Stmt) : Prop where
  exportsNoVariables (vars : VariableArena) : m.exportedVariables vars = []
  exportsNoTypes : m.exportedTypes = []

variable {m : Stmt} {vars : VariableArena} {blocks : List (List Stmt)} {start : ParserState}

namespace Grammar

variable {env : ParserEnv} {s t : ParserState}

/-- Types that are bound stay bound. -/
theorem Effect.keepsTypes (h : Effect env s m t) : s.scopes.Becomes Scope.KeepsTypes t.scopes := by
  cases h with
  | definition _ hscopes hnew =>
    rw [hscopes]
    exact ScopeStack.bindType_keepsTypes hnew _
  | exportedDefinition _ hscopes hnew =>
    rw [hscopes]
    exact .trans Scope.KeepsTypes.trans (ScopeStack.bindType_keepsTypes hnew _)
      (.modifyCurrent (fun _ _ _ h => h) _)
  | locals _ _ _ hscopes =>
    rw [hscopes]
    exact ScopeStack.foldl_keepsTypes (fun a _ => .modifyCurrent (fun _ _ _ h => h) a) _ _
  | exportedLocals _ _ _ hscopes =>
    rw [hscopes]
    exact .trans Scope.KeepsTypes.trans
      (ScopeStack.foldl_keepsTypes (fun a _ => .modifyCurrent (fun _ _ _ h => h) a) _ _)
      (ScopeStack.foldl_keepsTypes (fun a _ => .modifyCurrent (fun _ _ _ h => h) a) _ _)
  | externVariable _ _ hscopes | externFunction _ _ hscopes =>
    rw [hscopes]
    exact .modifyCurrent (fun _ _ _ h => h) _
  | call hst =>
    rw [hst.scopes]
    exact .refl .refl _
  | imports _ _ _ _ _ htakes => exact htakes.keepsTypes

/-- Only statements at the root export. -/
theorem Effect.private_or_atRoot (h : Effect env s m t) : m.Private ∨ s.scopes.atRoot = true := by
  cases h with
  | exportedDefinition _ _ _ hroot => exact .inr hroot
  | exportedLocals _ _ _ _ hroot => exact .inr hroot
  | _ => exact .inl ⟨fun _ => rfl, rfl⟩

/-! ## Tables -/

/-- The scope records what the statements export, and binds the types among it. -/
structure Records (vars : VariableArena) (ms : List Stmt) (scope : Scope) : Prop where
  recordsVariables :
    scope.exportedVariables = .insertAll {} (ms.flatMap (·.exportedVariables vars))
  recordsTypes : scope.exportedTypes = .insertAll {} (ms.flatMap Stmt.exportedTypes)
  bindsTypes : ∀ d ∈ ms.flatMap Stmt.exportedTypes, scope.types.find? d.1 = some d.2

/-- From the first scope to the second, variables and types are exported, and the types bound. -/
def Exports (vs : List (String × VariableId)) (ds : List (String × TypeId)) (a b : Scope) : Prop :=
  b.exportedVariables = a.exportedVariables.insertAll vs ∧
    b.exportedTypes = a.exportedTypes.insertAll ds ∧ ∀ d ∈ ds, b.types.find? d.1 = some d.2

section

variable {vs : List (String × VariableId)} {ds : List (String × TypeId)} {a b c : ScopeStack}

theorem exports_refl (a : ScopeStack) : a.Becomes (Exports [] []) a :=
  .refl (fun _ => ⟨rfl, rfl, nofun⟩) a

theorem exports_after (hab : a.Becomes (Exports [] []) b) (hbc : b.Becomes (Exports vs ds) c) :
    a.Becomes (Exports vs ds) c := by
  refine .trans (fun x y z hxy hyz => ?_) hab hbc
  obtain ⟨hvariables, htypes, hbound⟩ := hyz
  rw [hxy.1] at hvariables
  rw [hxy.2.1] at htypes
  exact ⟨hvariables, htypes, hbound⟩

theorem defineVariable_exports (a : ScopeStack) (name : String) (id : VariableId) :
    a.Becomes (Exports [] []) (a.defineVariable name id) :=
  .modifyCurrent (fun _ => ⟨rfl, rfl, nofun⟩) a

theorem bindType_exports (a : ScopeStack) (name : String) (id : TypeId) :
    a.Becomes (Exports [] []) (a.bindType name id) :=
  .modifyCurrent (fun _ => ⟨rfl, rfl, nofun⟩) a

theorem foldl_bindNamed_exports (vars : VariableArena) (ids : List VariableId) (a : ScopeStack) :
    a.Becomes (Exports [] []) (ids.foldl (.bindNamed vars) a) := by
  induction ids generalizing a with
  | nil => exact exports_refl a
  | cons id ids ih => exact exports_after (defineVariable_exports a _ id) (ih _)

theorem foldl_exportNamed_exports (vars : VariableArena) (ids : List VariableId) (a : ScopeStack) :
    a.Becomes (Exports (ids.map fun id => (vars.nameOf id, id)) [])
      (ids.foldl (.exportNamed vars) a) := by
  induction ids generalizing a with
  | nil => exact exports_refl a
  | cons id ids ih =>
    have hfirst : a.Becomes (Exports [(vars.nameOf id, id)] []) (a.exportNamed vars id) :=
      .modifyCurrent (fun _ => ⟨rfl, rfl, nofun⟩) a
    refine .trans (fun x y z hxy hyz => ?_) hfirst (ih _)
    obtain ⟨hvariables, htypes, -⟩ := hyz
    rw [hxy.1] at hvariables
    rw [hxy.2.1] at htypes
    exact ⟨hvariables, htypes, nofun⟩

theorem exportType_exports (a : ScopeStack) (name : String) (id : TypeId) :
    a.Becomes (Exports [] [(name, id)]) ((a.bindType name id).exportType name id) := by
  have hbind := ScopeStack.Becomes.modified
    (fun scope => { scope with types := scope.types.insert name id }) a
  have hexport := ScopeStack.Becomes.modified
    (fun scope => { scope with exportedTypes := scope.exportedTypes.insert name id })
    (a.bindType name id)
  refine .trans (fun x y z hxy hyz => ?_) hbind hexport
  subst hxy hyz
  refine ⟨rfl, rfl, fun d hd => ?_⟩
  rw [List.mem_singleton.1 hd]
  show (x.types.insert name id).find? name = some id
  rw [Bindings.find?_insert, if_pos rfl]

theorem takesFrom_exports {source : Module} {names : List (String × Span)} {es : List Expr}
    (h : a.TakesFrom source names es b) : a.Becomes (Exports [] []) b := by
  induction h with
  | nil => exact exports_refl _
  | takesVariable _ _ ih => exact exports_after (defineVariable_exports _ _ _) ih
  | takesType _ _ _ ih => exact exports_after (bindType_exports _ _ _) ih

end

/-- What is exported is what the statement is an export of. -/
theorem Effect.exports (h : Effect env s m t) (hvars : t.session.vars.vars <+: vars.vars) :
    s.scopes.Becomes (Exports (m.exportedVariables vars) m.exportedTypes) t.scopes := by
  cases h with
  | definition _ hscopes =>
    rw [hscopes]
    exact bindType_exports _ _ _
  | exportedDefinition _ hscopes =>
    rw [hscopes]
    exact exportType_exports _ _ _
  | locals _ _ _ hscopes =>
    rw [hscopes]
    exact foldl_bindNamed_exports _ _ _
  | @exportedLocals targets values span span' _ _ _ hall hscopes =>
    rw [hscopes]
    have hnames : targets.map (fun id => (vars.nameOf id, id)) =
        targets.map fun id => (t.session.vars.nameOf id, id) := by
      refine List.map_congr_left fun id hid => ?_
      rw [((hall.named hid).mono hvars).nameOf_eq]
    show s.scopes.Becomes (Exports (targets.map fun id => (vars.nameOf id, id)) []) _
    rw [hnames]
    exact exports_after (foldl_bindNamed_exports _ _ _) (foldl_exportNamed_exports _ _ _)
  | externVariable _ _ hscopes | externFunction _ _ hscopes =>
    rw [hscopes]
    exact defineVariable_exports _ _ _
  | call hst =>
    rw [hst.scopes]
    exact exports_refl _
  | imports _ _ _ _ _ htakes => exact takesFrom_exports htakes

/-- Loading a module gives one whose nested blocks export nothing. -/
def LoadsSealed (load : Path → String → StateM Session (Option Module)) : Prop :=
  ∀ {path text s m t}, load path text s = (some m, t) → m.Sealed

/-- A statement has no exports inside it, but for those of modules. -/
theorem Effect.sealed (h : Effect env s m t) (hload : LoadsSealed env.load) : m.Sealed := by
  cases h with
  | imports _ _ _ hrun => exact hload hrun
  | _ => exact .intro

/-- One more statement is recorded. -/
theorem Records.step {ms : List Stmt} {a b : Scope} (h : Records vars ms a)
    (hexports : Exports (m.exportedVariables vars) m.exportedTypes a b) (hkeeps : a.KeepsTypes b) :
    Records vars (ms ++ [m]) b := by
  obtain ⟨hvariables, htypes, hbound⟩ := hexports
  constructor
  · rw [hvariables, h.recordsVariables, ← Bindings.insertAll_append, List.flatMap_append,
      List.flatMap_singleton]
  · rw [htypes, h.recordsTypes, ← Bindings.insertAll_append, List.flatMap_append,
      List.flatMap_singleton]
  · intro d hd
    rw [List.flatMap_append, List.flatMap_singleton] at hd
    rcases List.mem_append.1 hd with hd | hd
    · exact hkeeps _ _ (h.bindsTypes d hd)
    · exact hbound d hd

/-! ## Boundaries -/

/-- The scopes of the open blocks record what their statements export; only the outermost block has
exports.  The statements that are completed in each open block are given as for a boundary. -/
def Tabled (vars : VariableArena) : List (List Stmt) → List Scope → Prop
  | [], [] => True
  | body :: blocks, scope :: scopes =>
    Records vars body.reverse scope ∧ Stmt.SealedAll body.reverse ∧
      (blocks ≠ [] → ∀ m ∈ body, m.Private) ∧ Tabled vars blocks scopes
  | _, _ => False

theorem Tabled.length_eq {scopes : List Scope} (h : Tabled vars blocks scopes) :
    blocks.length = scopes.length := by
  induction blocks generalizing scopes with
  | nil =>
    cases scopes with
    | nil => rfl
    | cons => exact h.elim
  | cons body blocks ih =>
    cases scopes with
    | nil => exact h.elim
    | cons scope scopes => exact congrArg (· + 1) (ih h.2.2.2)

theorem Boundary.blocks_ne_nil {room : Nat} (h : Boundary env start room blocks s) :
    blocks ≠ [] := by
  induction h with
  | semicolon _ _ ih => exact ih
  | _ => exact List.cons_ne_nil _ _

theorem Records.sealed {ms : List Stmt} {scope : Scope} {span : Span} (h : Records vars ms scope)
    (hsealed : Stmt.SealedAll ms) (hprivate : ∀ m ∈ ms, m.Private) :
    Block.Sealed ⟨ms, scope, span⟩ := by
  have hvariables : ms.flatMap (·.exportedVariables vars) = [] :=
    List.flatMap_eq_nil_iff.2 fun m hm => (hprivate m hm).exportsNoVariables vars
  have htypes : ms.flatMap Stmt.exportedTypes = [] :=
    List.flatMap_eq_nil_iff.2 fun m hm => (hprivate m hm).exportsNoTypes
  refine ⟨?_, ?_, hsealed⟩
  · rw [h.recordsVariables, hvariables]
    rfl
  · rw [h.recordsTypes, htypes]
    rfl

/-- Every open scope records the statements of its block. -/
theorem Boundary.tabled {room : Nat} (h : Boundary env start room blocks s)
    (hnamed : LoadsNamed env.load) (hload : LoadsSealed env.load)
    (hstart : start.scopes.scopes = []) (hvars : s.session.vars.vars <+: vars.vars) :
    Tabled vars blocks s.scopes.scopes := by
  induction h with
  | start =>
    have hscopes : (begun start).scopes.scopes = [rootScope] := by
      show rootScope :: start.scopes.scopes = _
      rw [hstart]
    rw [hscopes]
    exact ⟨⟨rfl, rfl, nofun⟩, .intro, fun h => absurd rfl h, .intro⟩
  | semicolon _ _ ih => exact ih hvars
  | @statement room body blocks s t m _ hkind hrun ih =>
    obtain ⟨u, heffect, rfl⟩ := (statementWithin_effect _ hkind).ok hrun
    have hkeeps := heffect.keepsTypes
    have hroot := heffect.private_or_atRoot
    have hs := ih ((heffect.vars_prefix hnamed).trans hvars)
    have hexports := heffect.exports hvars
    cases hscopes : s.scopes.scopes with
    | nil =>
      rw [hscopes] at hs
      exact hs.elim
    | cons scope rest =>
      rw [hscopes] at hs
      obtain ⟨scope', hscope', hkeeps⟩ := hkeeps scope rest hscopes
      obtain ⟨scope'', hscope'', hexports⟩ := hexports scope rest hscopes
      obtain ⟨rfl, -⟩ := List.cons.inj (hscope'.symm.trans hscope'')
      obtain ⟨hrecords, hsealed, hprivate, hrest⟩ := hs
      rw [hscope']
      refine ⟨?_, ?_, ?_, hrest⟩
      · rw [List.reverse_cons]
        exact hrecords.step hexports hkeeps
      · rw [List.reverse_cons]
        exact Stmt.sealedAll_concat hsealed (heffect.sealed hload)
      · intro hblocks m' hm'
        rcases List.mem_cons.1 hm' with rfl | hm'
        · rcases hroot with hm | hroot
          · exact hm
          · -- there is only one block if only one scope is open
            have hlength := hrest.length_eq
            have hone : s.scopes.scopes.length = 1 := beq_iff_eq.1 hroot
            rw [hscopes, List.length_cons] at hone
            rw [show rest.length = 0 by omega] at hlength
            exact absurd (List.eq_nil_of_length_eq_zero hlength) hblocks
        · exact hprivate hblocks m' hm'
  | enter _ _ _ ih =>
    exact ⟨⟨rfl, rfl, nofun⟩, .intro, fun _ => nofun, ih hvars⟩
  | @leave room inner body blocks s span _ _ ih =>
    have hs := ih hvars
    cases hscopes : s.scopes.scopes with
    | nil =>
      rw [hscopes] at hs
      exact hs.elim
    | cons scope rest =>
      rw [hscopes] at hs
      obtain ⟨hinner, hinnerSealed, hinnerPrivate, houter⟩ := hs
      show Tabled vars _ s.scopes.scopes.tail
      have hpop : s.scopes.pop.1.getD {} = scope := by
        unfold ScopeStack.pop
        rw [hscopes]
        rfl
      rw [hpop, hscopes]
      cases rest with
      | nil => exact houter.elim
      | cons outer rest =>
        obtain ⟨hrecords, hsealed, hprivate, hrest⟩ := houter
        have hblock : Block.Sealed ⟨inner.reverse, scope, span⟩ :=
          hinner.sealed hinnerSealed fun m hm =>
            hinnerPrivate (List.cons_ne_nil _ _) m (List.mem_reverse.1 hm)
        refine ⟨?_, ?_, ?_, hrest⟩
        · rw [List.reverse_cons]
          exact hrecords.step ⟨rfl, rfl, nofun⟩ (.refl _)
        · rw [List.reverse_cons]
          exact Stmt.sealedAll_concat hsealed hblock
        · intro hblocks m hm
          rcases List.mem_cons.1 hm with rfl | hm
          · exact ⟨fun _ => rfl, rfl⟩
          · exact hprivate hblocks m hm

/-- The scope of a module records its statements. -/
theorem records_of_module {m : Module} (hnamed : LoadsNamed env.load) (hload : LoadsSealed env.load)
    (hstart : start.scopes.scopes = []) (h : module env start = (.ok m, t)) :
    Records t.session.vars m.statements m.block.scope ∧ m.Sealed := by
  obtain ⟨room, u, hu, -, -, hscope, hsession⟩ := module_ends.ok h
  have htabled := hu.tabled hnamed hload hstart (List.prefix_refl _)
  obtain ⟨file, body, scope, span⟩ := m
  cases hscopes : u.scopes.scopes with
  | nil =>
    rw [hscopes] at htabled
    exact htabled.elim
  | cons first rest =>
    rw [hscopes] at htabled
    obtain ⟨hrecords, hsealed, -⟩ := htabled
    rw [List.reverse_reverse] at hrecords hsealed
    have hfirst : scope = first := by
      rw [show scope = _ from hscope]
      unfold ScopeStack.pop
      rw [hscopes]
      rfl
    rw [hsession]
    exact ⟨hfirst ▸ hrecords, hsealed⟩

end Grammar

end TypedLua
