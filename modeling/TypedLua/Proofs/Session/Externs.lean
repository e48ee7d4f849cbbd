import TypedLua.Proofs.Grammar.Externs
import TypedLua.Proofs.Session.Derivation
import TypedLua.Proofs.Session.Loading

/-!
# Session.Externs

The symbols that a compiled module expects from elsewhere are those that its own text declares.
Checking a module leaves its externs as they are, and so does what else happens to the session.

Main statement: `Session.compile_externs`.
-/

namespace TypedLua

open Text

/-! ## Checking -/

section

variable {config : Config} {vars : VariableArena} {found : Except Fault Unit} {a b : TypeArena}

theorem Stmt.Checks.extern?_eq {m m' : Stmt} (h : m.Checks config vars a m' found b) :
    m'.extern? = m.extern? := by
  cases h <;> rfl

theorem Stmt.ChecksAll.externs_eq {ms ms' : List Stmt}
    (h : Stmt.ChecksAll config vars ms a ms' found b) :
    ms'.filterMap Stmt.extern? = ms.filterMap Stmt.extern? := by
  induction ms generalizing ms' a with
  | nil =>
    cases h
    rfl
  | cons m ms ih =>
    cases h with
    | fault h => rw [List.filterMap_cons, List.filterMap_cons, h.extern?_eq]
    | cons h hall => rw [List.filterMap_cons, List.filterMap_cons, h.extern?_eq, ih hall]

/-- Checking leaves externs where they are. -/
theorem Module.externPlaces_check {m m' : Module} (h : m.check config vars a = ((m', found), b)) :
    m'.externPlaces = m.externPlaces :=
  (Stmt.checksAll_iff.1 (moduleCheck_leaves h)).externs_eq

end

namespace Session

/-! ## Compiling extends the session -/

variable {files : FileTree} {load : Loader}

theorem extends_parseWith (hload : ∀ path text (s : Session), s.Extends (load path text s).2)
    (path : Path) (text : String) (s : Session) :
    s.Extends (parseWith files load path text s).2 := by
  have hread : s.Extends
      (readModule files load (.ofPath path text) (s.marked files path)).2.unmarked := by
    rcases readModule_cases files load (.ofPath path text) (s.marked files path) with
      ⟨f, -, hrun⟩ | ⟨stream, -, hrun⟩
    · rw [hrun]
      exact ⟨.refl _, List.prefix_refl _⟩
    · rw [hrun _ _ rfl]
      have hmade : Parser.Made true true false Grammar.module := .seq
      have henv : ParserEnv.Extends ⟨files, .ofPath path text, load⟩ := hload
      have hext := hmade.extends henv (s := { stream, session := s.marked files path })
      exact ⟨hext.types, hext.vars⟩
  rw [parseWith_apply]
  cases (readModule files load (.ofPath path text) (s.marked files path)).1 with
  | ok m => exact hread
  | error f => exact ⟨hread.types, hread.vars⟩

/-- Compiling extends the session. -/
theorem extends_compile (files : FileTree) :
    ∀ path text (s : Session), s.Extends (compile files path text s).2 := by
  refine compile_induct files (P := fun f => ∀ path text (s : Session), s.Extends (f path text s).2)
    (fun _ _ s => .refl s) fun load hload path text s => ?_
  have hparse : s.Extends (parseWith files load path text s).2 := extends_parseWith hload path text s
  rw [compileWith_apply]
  cases (parseWith files load path text s).1 with
  | none => exact hparse
  | some m => exact hparse.trans (extends_validate m _)

/-! ## Symbols -/

/-- **The symbols of a module are those that its text declares.**  Each word `extern` of the text
starts a statement, in a nested block or not, that introduces one symbol; and these are the symbols
of the compiled module, in the order of the text.  Listing them leaves the module as it is, since
`Module.externs` only reads it. -/
theorem compile_externs {files : FileTree} {path : Path} {text : String} {s t : Session}
    {m : Module} (h : compile files path text s = (some m, t)) :
    ∃ stream, Token.Stream.ofSource text = .ok stream ∧ List.Forall₂
      (Grammar.Declared ⟨files, .ofPath path text, compile files⟩
        { stream, session := s.marked files path } t)
      (Token.externs (Token.words text)) (m.externs t.vars) := by
  rw [← compileWith_compile] at h
  obtain ⟨m', u, types, hparse, hcheck, rfl⟩ := compileWith_eq_some_iff.1 h
  obtain ⟨v, hread, rfl⟩ := parseWith_eq_some hparse
  obtain ⟨stream, w, hstream, hmodule, rfl⟩ := readModule_eq_ok hread
  obtain ⟨room, x, hx, heof, -, -, hsession⟩ := Grammar.module_ends.ok hmodule
  refine ⟨stream, hstream, ?_⟩
  have hfinal : x.session.Extends { w.session.unmarked with types } := by
    have hext := extends_validate m' w.session.unmarked
    rw [validate_apply, hcheck] at hext
    rw [← hsession]
    exact ⟨hext.types, hext.vars⟩
  have henv : ParserEnv.Extends ⟨files, .ofPath path text, compile files⟩ := extends_compile files
  obtain ⟨hof, done, hdone, hall⟩ :=
    hx.externs henv (Token.Stream.of_ofSource hstream) hfinal
  -- nothing is left but the end of the text
  have hend : Token.externs x.stream.words = [] := by
    obtain ⟨q, hq⟩ := hof.remaining_eq heof
    have hwords : x.stream.words = x.stream.remaining.filterMap Except.toOption := rfl
    rw [hwords, hq]
    rfl
  have hwords : stream.words = Token.words text := Token.Stream.words_ofSource hstream
  rw [hend, List.append_nil] at hdone
  rw [← hwords, hdone, Module.externs_eq, Module.externPlaces_check hcheck]
  rw [Grammar.externsSoFar, Grammar.externsSoFar, List.nil_append, List.reverse_reverse] at hall
  obtain ⟨file, body, scope, span⟩ := m'
  unfold Module.externPlaces Module.leaves
  rw [Block.leaves]
  exact hall

set_option maxRecDepth 4000 in
/-- Externs in a nested block and around it; one of the imported module is left out. -/
theorem compile_externs_nested :
    let files : FileTree := ⟨"/", [(["lib.lua"], .text "extern a: any export local x = a")]⟩
    let text := "import \x7b x \x7d from \"./lib\"
extern function f(n: number, ...: string): number
do
  do extern f: boolean end
  extern g(): void
end"
    let path : Path := ⟨"main.lua"⟩
    ∃ m t, compile files path text {} = (some m, t) ∧
      (m.externs t.vars).map (fun symbol => (symbol.name, symbol.id.index, symbol.span.start.offset)) =
        [("f", 4, 26), ("f", 5, 84), ("g", 6, 108)] ∧
      ∃ stream, Token.Stream.ofSource text = .ok stream ∧ List.Forall₂
        (Grammar.Declared ⟨files, .ofPath path text, compile files⟩
          { stream, session := ({} : Session).marked files path } t)
        (Token.externs (Token.words text)) (m.externs t.vars) := by
  intro files text path
  obtain ⟨m, t, hcompile, hexterns⟩ : ∃ m t, compile files path text {} = (some m, t) ∧
      (m.externs t.vars).map (fun symbol => (symbol.name, symbol.id.index, symbol.span.start.offset)) =
        [("f", 4, 26), ("f", 5, 84), ("g", 6, 108)] :=
    exists_of_found (by decide +kernel)
  exact ⟨m, t, hcompile, hexterns, compile_externs hcompile⟩

end Session

end TypedLua
