import TypedLua.Proofs.Grammar.Height
import TypedLua.Proofs.Session.Runs
import TypedLua.Proofs.Typing.Height

/-!
# Session.Height

How deep the trees of a session are.  What is read is bounded by the room for open constructs,
however long the text is; what is imported was read and then checked, which changes its types only.

Main statement: `Session.parse_bounded_trees`.
-/

namespace TypedLua

/-- The module and those that it imports are as shallow as what can be read. -/
def Module.ShallowTree (m : Module) : Prop :=
  ∀ source ∈ m :: m.imported, source.Shallow (nestingLimit * (nestingLimit + 1)) nestingLimit

namespace Session

open Text

variable {files : FileTree} {load : Loader} {path : Path} {text : String} {s t : Session}
  {m : Module}

theorem parseWith_shallow
    (hload : ∀ {path text s m t}, load path text s = (some m, t) → m.ShallowTree)
    (h : parseWith files load path text s = (some m, t)) : m.ShallowTree := by
  obtain ⟨u, hread, -⟩ := parseWith_eq_some h
  obtain ⟨stream, v, -, hmodule, -⟩ := readModule_eq_ok hread
  obtain ⟨hshallow, himported⟩ := Grammar.module_shallow hmodule
  intro source hsource
  rcases List.mem_cons.1 hsource with rfl | hsource
  · exact hshallow
  · obtain ⟨_, _, loaded, _, _, hloaded, hmem⟩ := himported source hsource
    exact hload hloaded source hmem

theorem compileWith_shallow
    (hload : ∀ {path text s m t}, load path text s = (some m, t) → m.ShallowTree)
    (h : compileWith files load path text s = (some m, t)) : m.ShallowTree := by
  obtain ⟨m', u, hparse, rfl, -⟩ := compileWith_eq_some h
  have hm' := parseWith_shallow hload hparse
  obtain ⟨hshallow, himported⟩ :=
    (hm' m' List.mem_cons_self).check (by decide) u.types
  intro source hsource
  rcases List.mem_cons.1 hsource with rfl | hsource
  · exact hshallow
  · rw [himported] at hsource
    exact hm' source (List.mem_cons_of_mem m' hsource)

/-- Compiled modules are shallow, and so are those that they import. -/
theorem compile_shallow {path text s m t} (h : compile files path text s = (some m, t)) :
    m.ShallowTree :=
  compile_induct files
    (P := fun load => ∀ {path text s m t}, load path text s = (some m, t) → m.ShallowTree)
    (fun h => by cases h) (fun _ hload _ _ _ _ _ => compileWith_shallow hload) h

/-- **Trees are bounded**: no path through the expressions of a module that is read, or of one that
it imports, has more nodes than there are constructs that may be open, times that number and one;
and no more nested blocks stand one inside the other than constructs may be open. -/
theorem parse_bounded_trees (h : parse files path text s = (some m, t)) :
    ∀ source ∈ m :: m.imported,
      (∀ e ∈ source.block.expressions, ∀ nodes, e.Path nodes →
        nodes.length ≤ nestingLimit * (nestingLimit + 1)) ∧
      source.block.nesting ≤ nestingLimit := by
  intro source hsource
  have hshallow := parseWith_shallow compile_shallow h source hsource
  refine ⟨fun e he nodes hnodes => ?_, hshallow.2⟩
  exact Nat.le_trans hnodes.length_le (hshallow.1 e he)

set_option maxRecDepth 4000 in
/-- A group keeps the suffixes inside it and gets suffixes of its own. -/
theorem parse_bounded_trees_groups :
    let text := "extern f: any
do do local x = (f.a.b).c[\x7b k = (f) \x7d].d end end"
    ∃ m s, parse ⟨"/", []⟩ ⟨"main.lua"⟩ text {} = (some m, s) ∧ m.block.nesting = 2 ∧
      m.block.expressions.map Expr.height = [7] ∧
      ∀ source ∈ m :: m.imported,
        (∀ e ∈ source.block.expressions, ∀ nodes, e.Path nodes →
          nodes.length ≤ nestingLimit * (nestingLimit + 1)) ∧
        source.block.nesting ≤ nestingLimit := by
  intro text
  obtain ⟨m, s, hparse, hnesting, hheights⟩ : ∃ m s,
      parse ⟨"/", []⟩ ⟨"main.lua"⟩ text {} = (some m, s) ∧ m.block.nesting = 2 ∧
      m.block.expressions.map Expr.height = [7] :=
    exists_of_found (by rw [parse_ofList]; decide +kernel)
  exact ⟨m, s, hparse, hnesting, hheights, parse_bounded_trees hparse⟩

end Session

end TypedLua
