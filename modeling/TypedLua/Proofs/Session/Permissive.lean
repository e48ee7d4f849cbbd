import TypedLua.Proofs.Grammar.Permissive
import TypedLua.Proofs.Session.Runs
import TypedLua.Proofs.Typing.Correspondence
import TypedLua.Proofs.Typing.Rules

/-!
# Session.Permissive

Compiling with more switches on.  A check that finds no fault finds none with more switches on, and
does the same to the module and to the types.  So a module that is compiled is compiled alike with
more switches on, along with all that it imports.

Main statement: `Session.compile_permissive`.
-/

namespace TypedLua

open Text

variable {c c' : Config} {vars : VariableArena}

/-! ## Checking -/

mutual

/-- What finds no fault finds none with more switches on, and does the same. -/
theorem Stmt.Checks.persists (h : c.Allows c') {m m' : Stmt} {a b : TypeArena} :
    m.Checks c vars a m' (.ok ()) b → m.Checks c' vars a m' (.ok ()) b
  | .plain hplain => .plain hplain
  | .expression he hfound => .expression he hfound
  | .locals hfault hvalues hfound => by
    obtain ⟨hle, hcount⟩ := localsFault?_eq_none_iff.1 hfault
    have hfault' := localsFault?_eq_none_iff.2 ⟨hle, hcount.imp id h.imbalancedLocals⟩
    exact .locals hfault' hvalues hfound
  | .exportStmt hitem => .exportStmt (hitem.persists h)
  | .exportExpr hitem => .exportExpr hitem
  | .block hbody => .block (hbody.persists h)

theorem Stmt.ChecksAll.persists (h : c.Allows c') {ms ms' : List Stmt} {a b : TypeArena} :
    Stmt.ChecksAll c vars ms a ms' (.ok ()) b → Stmt.ChecksAll c' vars ms a ms' (.ok ()) b
  | .nil => .nil
  | .cons hm hms => .cons (hm.persists h) (hms.persists h)

end

/-! ## Compiling -/

namespace Session

variable {f g : Loader}

theorem loadPersists_parseWith (files : FileTree) (h : LoadPersists c f g) :
    LoadPersists c (parseWith files f) (parseWith files g) := by
  intro path text s m t hs hparse
  obtain ⟨u, hread, rfl⟩ := parseWith_eq_some hparse
  obtain ⟨stream, v, hstream, hmodule, rfl⟩ := readModule_eq_ok hread
  have henv : ParserEnv.Persists c ⟨files, .ofPath path text, f⟩ ⟨files, .ofPath path text, g⟩ :=
    ⟨rfl, rfl, h⟩
  obtain ⟨hconfig, hmodule', hregular⟩ := module_persists hs henv rfl hmodule
  have hread' : readModule files g (.ofPath path text) ((s.under c).marked files path) =
      (.ok m, v.session.under c) := readModule_of_run hstream hmodule'
  exact ⟨hconfig, parseWith_of_read hread', hregular⟩

theorem loadPersists_compileWith (files : FileTree) (h : LoadPersists c f g) :
    LoadPersists c (compileWith files f) (compileWith files g) := by
  intro path text s m t hs hcompile
  obtain ⟨m', u, types, hparse, hcheck, rfl⟩ := compileWith_eq_some_iff.1 hcompile
  obtain ⟨hconfig, hparse', hregular⟩ := loadPersists_parseWith files h path text s m' u hs hparse
  rw [← hconfig] at hs
  obtain ⟨body, hbody, hm⟩ := Module.check_iff.1 hcheck
  have hcheck' := Module.check_iff.2 ⟨body, hbody.persists hs, hm⟩
  have hchecked := hregular.check u.config u.vars u.types
  rw [hcheck] at hchecked
  exact ⟨hconfig, compileWith_eq_some_iff.2 ⟨m', u.under c, types, hparse', hcheck', rfl⟩, hchecked⟩

/-- What compiles persists when more is switched on. -/
theorem loadPersists_compile (files : FileTree) :
    LoadPersists c (compile files) (compile files) :=
  compile_induct files (P := fun f => LoadPersists c f f) (fun _ _ _ _ _ _ hload => by cases hload)
    fun _ => loadPersists_compileWith files

/-- **Switches that allow more change nothing that was allowed.**  A module that is compiled is
compiled to the same module with more switches on, imported modules included, and the session is the
same afterwards but for the switches. -/
theorem compile_permissive (files : FileTree) (path : Path) (text : String)
    (config config' : Config) (output : Option String) (hallows : config.Allows config')
    (m : Module) (s : Session)
    (hcompile : compile files path text { config, output } = (some m, s)) :
    compile files path text { config := config', output } =
      (some m, { s with config := config' }) :=
  (loadPersists_compile files path text { config, output } m s hallows hcompile).2.1

set_option maxRecDepth 4000 in
/-- A module with an import, a declaration with a value too few, and functions with all their return
types, where functions may lack them. -/
theorem compile_permissive_import :
    let files : FileTree := ⟨"/", [(["lib.lua"], .text "export local x: number = 1")]⟩
    let text := "import \x7b x \x7d from \"./lib\"
extern f(...): () => void
local y, z: number, g = x, x"
    let config : Config := { imbalancedLocals := true }
    let config' : Config := { imbalancedLocals := true, typelessFunctions := true }
    config.Allows config' ∧ ∃ m s, compile files ⟨"main.lua"⟩ text { config } = (some m, s) ∧
      compile files ⟨"main.lua"⟩ text { config := config' } =
        (some m, { s with config := config' }) := by
  intro files text config config'
  have hallows : config.Allows config' := ⟨fun _ => rfl, fun _ => rfl⟩
  obtain ⟨m, s, hcompile, -⟩ : ∃ m s, compile files ⟨"main.lua"⟩ text { config } = (some m, s) ∧
      s.vars.size = 6 := exists_of_found (by decide +kernel)
  exact ⟨hallows, m, s, hcompile,
    compile_permissive files ⟨"main.lua"⟩ text config config' (some "") hallows m s hcompile⟩

end Session

end TypedLua
