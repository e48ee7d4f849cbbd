import TypedLua.Proofs.Grammar.Frames
import TypedLua.Proofs.Session.Runs

/-!
# Session.Names

Names in the modules of a session.  Whatever modules a text imports, they export variables under
their names, so that the names in the text are resolved as lexical scoping selects.

Main statement: `Session.parse_resolves_names`.
-/

namespace TypedLua

open Text Session

/-! ## Loading -/

/-- The variable that a name is resolved to. -/
def Expr.target? : Expr → Option VariableId
  | .reference id _ => some id
  | _ => none

theorem Module.check_scope (config : Config) (vars : VariableArena) (m : Module) (a : TypeArena) :
    (m.check config vars a).1.1.block.scope = m.block.scope := by
  obtain ⟨file, body, scope, span⟩ := m
  rfl

theorem ScopeStack.Named.pop {vars : VariableArena} {scopes : ScopeStack} (h : scopes.Named vars) :
    (scopes.pop.1.getD {}).Named vars := by
  obtain ⟨scopes⟩ := scopes
  cases scopes with
  | nil => exact ⟨nofun, nofun⟩
  | cons scope rest => exact h scope List.mem_cons_self

namespace Session

variable {files : FileTree} {load : Loader} {s t : Session} {m : Module}

theorem start_of_ofSource {text : String} {stream : Token.Stream}
    (h : Token.Stream.ofSource text = .ok stream) :
    stream.words ⊆ Token.words text ∧ stream.upcoming ⊆ Token.readings text :=
  ⟨Token.Stream.words_ofSource h ▸ List.Subset.refl _, (Token.Stream.upcoming_ofSource h).subset⟩

theorem readModule_named {file : SourceFile} (hload : LoadsNamed load)
    (h : readModule files load file s = (.ok m, t)) :
    s.vars.vars <+: t.vars.vars ∧ m.block.scope.Named t.vars := by
  obtain ⟨stream, u, -, hmodule, rfl⟩ := readModule_eq_ok h
  obtain ⟨room, v, hv, -, -, hscope, hsession⟩ := Grammar.module_ends.ok hmodule
  rw [hsession, hscope]
  refine ⟨hv.vars_prefix hload, ?_⟩
  exact (hv.scoped hload rfl (List.prefix_refl _)).named.pop

theorem loadsNamed_compileWith (hload : LoadsNamed load) : LoadsNamed (compileWith files load) := by
  intro path text s m t h
  obtain ⟨m', u, hparse, rfl, rfl⟩ := compileWith_eq_some h
  obtain ⟨v, hread, rfl⟩ := parseWith_eq_some hparse
  obtain ⟨hvars, hnamed⟩ := readModule_named hload hread
  refine ⟨hvars, ?_⟩
  rw [Module.check_scope]
  exact hnamed

/-- Compiled modules name their variables as they were declared. -/
theorem loadsNamed_compile (files : FileTree) : LoadsNamed (compile files) :=
  @compile_induct LoadsNamed files (fun h => by cases h) fun _ h => loadsNamed_compileWith h

/-! ## Names -/

/-- **Names are resolved lexically.**  In every module that is read, a name that stands for a value
is what lexical scoping over the tree selects for the text at its place: a variable of that name,
with its type; or else a type.  Where reading fails at an unknown name, this selects nothing. -/
theorem parse_resolves_names (files : FileTree) (path : Path) (text : String) (s : Session) :
    (∀ m t, parse files path text s = (some m, t) →
      ∀ use ∈ m.uses t.vars, use.2.Selected text t.vars use.1) ∧
    ∀ f t, readModule files (compile files) (.ofPath path text) (s.marked files path) =
        (.error f, t) → ∀ x, f.cause = .unknownIdentifier x →
      ∃ stream, Token.Stream.ofSource text = .ok stream ∧
        Grammar.Unbound ⟨files, .ofPath path text, compile files⟩
          { stream, session := s.marked files path } text f x := by
  have hload : LoadsNamed (compile files) := loadsNamed_compile files
  constructor
  · intro m t h
    obtain ⟨u, hread, rfl⟩ := parseWith_eq_some h
    obtain ⟨stream, v, hstream, hmodule, rfl⟩ := readModule_eq_ok hread
    obtain ⟨room, w, hw, -, -, -, hsession⟩ := Grammar.module_ends.ok hmodule
    have hvars : w.session.vars.vars <+: v.session.vars.vars := hsession ▸ List.prefix_refl _
    have hselected := hw.selected hload rfl (start_of_ofSource hstream).1 hvars
    intro use huse
    refine hselected use ?_
    unfold Stmt.usesSoFar
    rw [List.reverse_reverse]
    refine List.mem_append_left _ ?_
    exact Block.uses_eq .. ▸ huse
  · intro f t hread x hcause
    have hlexical : ∀ cause, f.cause ≠ .lexical cause := by
      intro cause hlexical
      rw [hcause] at hlexical
      cases hlexical
    obtain ⟨stream, v, hstream, hmodule⟩ := readModule_eq_error hread hlexical
    obtain ⟨hwords, hupcoming⟩ := start_of_ofSource hstream
    refine ⟨stream, hstream, ?_⟩
    exact (Grammar.module_ends.error hmodule).unbound hload rfl hwords hupcoming hcause

set_option maxRecDepth 4000 in
/-- A variable that is imported is hidden inside a block, by one that is declared with it; a
parameter and a field of the same name hide nothing.  After the block its variable is unknown. -/
theorem parse_resolves_names_hidden :
    let files : FileTree := ⟨"/", [(["lib.lua"], .text "export local x: number = 1")]⟩
    let text := "import \x7b x \x7d from \"./lib\"
extern function f(x: any): void
do
  local x, y = x, f
  f(x)
end
f(\x7b x = x \x7d)"
    let path : Path := ⟨"main.lua"⟩
    (∃ m t, parse files path text {} = (some m, t) ∧
      (m.uses t.vars).map (·.2.target?) = [⟨0⟩, ⟨2⟩, ⟨2⟩, ⟨3⟩, ⟨2⟩, ⟨0⟩].map some ∧
      ∀ use ∈ m.uses t.vars, use.2.Selected text t.vars use.1) ∧
    ∃ f t, readModule files (compile files) (.ofPath path (text ++ " f(y)"))
        (({} : Session).marked files path) = (.error f, t) ∧ f.cause = .unknownIdentifier "y" ∧
      ∃ stream, Token.Stream.ofSource (text ++ " f(y)") = .ok stream ∧
        Grammar.Unbound ⟨files, .ofPath path (text ++ " f(y)"), compile files⟩
          { stream, session := ({} : Session).marked files path } (text ++ " f(y)") f "y" := by
  intro files text path
  constructor
  · obtain ⟨m, t, hparse, huses⟩ : ∃ m t, parse files path text {} = (some m, t) ∧
        (m.uses t.vars).map (·.2.target?) = [⟨0⟩, ⟨2⟩, ⟨2⟩, ⟨3⟩, ⟨2⟩, ⟨0⟩].map some :=
      exists_of_found (by decide +kernel)
    exact ⟨m, t, hparse, huses, (parse_resolves_names files path text {}).1 m t hparse⟩
  · obtain ⟨f, t, hread, hcause⟩ : ∃ f t, readModule files (compile files)
        (.ofPath path (text ++ " f(y)")) (({} : Session).marked files path) = (.error f, t) ∧
        f.cause = .unknownIdentifier "y" := exists_of_fault (by decide +kernel)
    refine ⟨f, t, hread, hcause, ?_⟩
    exact (parse_resolves_names files path (text ++ " f(y)") {}).2 f t hread "y" hcause

end Session

end TypedLua
