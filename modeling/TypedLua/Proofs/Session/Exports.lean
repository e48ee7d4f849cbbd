import TypedLua.Proofs.Grammar.Exports
import TypedLua.Proofs.Session.Imports
import TypedLua.Proofs.Session.Names

/-!
# Session.Exports

What imports take from modules.  A name that is taken from a module is the variable which the module
declares and exports last under this name, or else the type that it exports, and it is bound in the
block of the import.

Main statement: `Session.imports_deliver_exports`.
-/

namespace TypedLua

open Text Session TypedLua.Parser

/-! ## Delivery -/

/-- What names that are taken from a module one after the other come to in a block with the given
scope, and the scope that the block has then. -/
inductive Module.Delivers (vars : VariableArena) (source : Module) :
    Scope → List (String × Span) → Except Fault (List Expr) → Scope → Prop
  | nil {scope : Scope} : Delivers vars source scope [] (.ok []) scope
  /-- The variable that was exported last under the name is bound. -/
  | takesVariable {scope scope' : Scope} {name : String} {span : Span} {id : VariableId}
      {names : List (String × Span)} {found : Except Fault (List Expr)} :
    source.exportedVariable? vars name = some id → vars.Named name id →
    Delivers vars source { scope with vars := scope.vars.insert name id } names found scope' →
    Delivers vars source scope ((name, span) :: names)
      (found.map (.reference id ⟨span, vars.typeOf id⟩ :: ·)) scope'
  /-- There is no such variable; the type that was exported under the name is bound. -/
  | takesType {scope scope' : Scope} {name : String} {span : Span} {id : TypeId}
      {names : List (String × Span)} {found : Except Fault (List Expr)} :
    source.exportedVariable? vars name = none → source.exportedType? name = some id →
    scope.types.find? name = none →
    Delivers vars source { scope with types := scope.types.insert name id } names found scope' →
    Delivers vars source scope ((name, span) :: names)
      (found.map (.typeName name ⟨span, id⟩ :: ·)) scope'
  /-- A type was exported under the name, but the block has such a type. -/
  | redefines {scope : Scope} {name : String} {span : Span} {id id' : TypeId}
      {names : List (String × Span)} :
    source.exportedVariable? vars name = none → source.exportedType? name = some id →
    scope.types.find? name = some id' →
    Delivers vars source scope ((name, span) :: names) (.error ⟨span, .duplicateType name⟩) scope
  | missing {scope : Scope} {name : String} {span : Span} {names : List (String × Span)} :
    source.exportedVariable? vars name = none → source.exportedType? name = none →
    Delivers vars source scope ((name, span) :: names)
      (.error ⟨span, .missingExport name source.file.fileName⟩) scope

namespace Grammar

variable {env : ParserEnv} {s t : ParserState} {vars : VariableArena} {source : Module}
  {scope : Scope} {outer : List Scope} {names : List (String × Span)}

/-- A name is exported if an export of the module has it, and the last one counts. -/
theorem Records.lookups (h : Records vars source.statements source.block.scope) (name : String) :
    source.block.scope.exportedVariables.find? name = source.exportedVariable? vars name ∧
      source.block.scope.exportedTypes.find? name = source.exportedType? name := by
  rw [h.recordsVariables, h.recordsTypes]
  exact ⟨Bindings.find?_insertAll _ _, Bindings.find?_insertAll _ _⟩

theorem Records.bound (h : Records vars source.statements source.block.scope) {name : String}
    {id : TypeId} (hid : source.exportedType? name = some id) :
    source.block.scope.types.find? name = some id := by
  obtain ⟨before, after, heq, -⟩ := List.lookup_eq_some_iff.1 hid
  refine h.bindsTypes (name, id) (List.mem_reverse.1 ?_)
  rw [heq]
  exact List.mem_append_right _ List.mem_cons_self

theorem defineType_of_none {name : String} {id : TypeId} {span : Span}
    (h : scope.types.find? name = none) :
    defineType name id span env { t with scopes := ⟨scope :: outer⟩ } = (.ok (), { t with
      scopes := ⟨{ scope with types := scope.types.insert name id } :: outer⟩ }) := by
  have hnew : ScopeStack.defineType? ⟨scope :: outer⟩ name id =
      some ⟨{ scope with types := scope.types.insert name id } :: outer⟩ := by
    unfold ScopeStack.defineType?
    rw [if_neg (by simp [ScopeStack.current?, Bindings.contains, h])]
    rfl
  unfold defineType
  rw [bind_apply]
  dsimp only [gets]
  rw [hnew]
  rfl

theorem defineType_of_some {name : String} {id id' : TypeId} {span : Span}
    (h : scope.types.find? name = some id') :
    defineType name id span env { t with scopes := ⟨scope :: outer⟩ } =
      (.error ⟨span, .duplicateType name⟩, { t with scopes := ⟨scope :: outer⟩ }) := by
  have hold : ScopeStack.defineType? ⟨scope :: outer⟩ name id = none := by
    unfold ScopeStack.defineType?
    rw [if_pos (by simp [ScopeStack.current?, Bindings.contains, h])]
  unfold defineType
  rw [bind_apply]
  dsimp only [gets]
  rw [hold]
  rfl

/-- Names are bound to what the source exports under them. -/
theorem mapM_bindImport_delivers (env : ParserEnv) {t : ParserState}
    (hrecords : Records t.session.vars source.statements source.block.scope)
    (hnamed : source.block.scope.Named t.session.vars) (outer : List Scope)
    (names : List (String × Span)) (scope : Scope) :
    ∃ found scope', source.Delivers t.session.vars scope names found scope' ∧
      (names.mapM fun x => bindImport source x.1 x.2) env { t with scopes := ⟨scope :: outer⟩ } =
        (found, { t with scopes := ⟨scope' :: outer⟩ }) := by
  induction names generalizing scope with
  | nil => exact ⟨.ok [], scope, .nil, rfl⟩
  | cons x names ih =>
    obtain ⟨name, span⟩ := x
    obtain ⟨hvariable, htype⟩ := hrecords.lookups name
    rw [List.mapM_cons]
    -- a name that is found is followed by the others
    have hthen : ∀ {e : Expr} {scope₁ scope' : Scope} {found : Except Fault (List Expr)},
        bindImport source name span env { t with scopes := ⟨scope :: outer⟩ } =
          (.ok e, { t with scopes := ⟨scope₁ :: outer⟩ }) →
        (names.mapM fun x => bindImport source x.1 x.2) env { t with scopes := ⟨scope₁ :: outer⟩ } =
          (found, { t with scopes := ⟨scope' :: outer⟩ }) →
        (do
          let e ← bindImport source name span
          let es ← names.mapM fun x => bindImport source x.1 x.2
          pure (e :: es) : Parser (List Expr)) env { t with scopes := ⟨scope :: outer⟩ } =
          (found.map (e :: ·), { t with scopes := ⟨scope' :: outer⟩ }) := by
      intro e scope₁ scope' found hfirst hrest
      rw [bind_apply, hfirst]
      show (do
        let es ← names.mapM fun x => bindImport source x.1 x.2
        pure (e :: es) : Parser (List Expr)) env { t with scopes := ⟨scope₁ :: outer⟩ } = _
      rw [bind_apply, hrest]
      cases found <;> rfl
    cases hfound : source.exportedVariable? t.session.vars name with
    | some id =>
      rw [hfound] at hvariable
      obtain ⟨found, scope', hdelivers, hrest⟩ :=
        ih { scope with vars := scope.vars.insert name id }
      refine ⟨_, scope', .takesVariable hfound (hnamed.exported hvariable) hdelivers, ?_⟩
      refine hthen ?_ hrest
      unfold bindImport
      rw [hvariable]
      rfl
    | none =>
      rw [hfound] at hvariable
      cases hfoundType : source.exportedType? name with
      | some id =>
        rw [hfoundType] at htype
        have hbind : bindImport source name span = (do
            defineType name id span
            return .typeName name ⟨span, id⟩) := by
          unfold bindImport
          dsimp only
          rw [hvariable, htype]
        cases hold : scope.types.find? name with
        | none =>
          obtain ⟨found, scope', hdelivers, hrest⟩ :=
            ih { scope with types := scope.types.insert name id }
          refine ⟨_, scope', .takesType hfound hfoundType hold hdelivers, hthen ?_ hrest⟩
          rw [hbind, bind_apply, defineType_of_none hold]
          rfl
        | some id' =>
          refine ⟨_, scope, .redefines hfound hfoundType hold, ?_⟩
          rw [hbind, bind_apply, bind_apply, defineType_of_some hold]
      | none =>
        rw [hfoundType] at htype
        refine ⟨_, scope, .missing hfound hfoundType, ?_⟩
        rw [bind_apply]
        unfold bindImport
        rw [hvariable, htype]
        rfl

/-- An import delivers what its module exports. -/
theorem importNames_delivers {token : Token} {path : Path} {text : String} {session : Session}
    {w : ParserState} (himport : ImportsAt env s names token path w)
    (hkey : env.files.key path ∉ s.session.loading) (hread : env.files.read path = .ok text)
    (hload : env.load path text s.session = (some source, session))
    (hscopes : s.scopes.scopes = scope :: outer)
    (hrecords : Records session.vars source.statements source.block.scope)
    (hnamed : source.block.scope.Named session.vars) :
    ∃ found scope' span, source.Delivers session.vars scope names found scope' ∧
      importNames env s = (found.map (.imports · source span),
        { w with session, scopes := ⟨scope' :: outer⟩ }) := by
  obtain ⟨hhead, hpath⟩ := id himport
  have htakes := himport.takes
  -- the state once the module is loaded
  let t : ParserState := { w with session }
  have hloaded : loadImport token.text path token.span env w = (.ok source, t) := by
    refine loadImport_eq_ok.2 ⟨?_, text, session, hread, ?_, rfl⟩
    · rw [htakes.session]
      exact fun h => hkey (List.contains_iff_mem.1 h)
    · rw [htakes.session]
      exact hload
  have ht : t = { t with scopes := ⟨scope :: outer⟩ } := by
    show ({ w with session } : ParserState) = { w with session, scopes := ⟨scope :: outer⟩ }
    rw [← hscopes, ← htakes.scopes]
  obtain ⟨found, scope', hdelivers, hrun⟩ :=
    mapM_bindImport_delivers env (t := t) hrecords hnamed outer names scope
  rw [← ht] at hrun
  refine ⟨found, scope', ⟨s.stream.current.span.start, w.lastEnd⟩, hdelivers, ?_⟩
  have hfrom : importNames env s = importFrom s.stream.current.span names token env w := by
    rw [importNames_eq]
    show (importHead >>= fun x => importFrom s.stream.current.span x.1 x.2) env s = _
    rw [bind_apply, hhead]
  rw [hfrom]
  unfold importFrom
  rw [bind_apply]
  dsimp only [asks]
  rw [hpath]
  dsimp only
  rw [bind_apply, hloaded]
  dsimp only
  rw [bind_apply, hrun]
  cases found <;> rfl

end Grammar

/-! ## Modules that are compiled -/

namespace Session

variable {files : FileTree} {load : Loader} {s t : Session} {m : Module}

/-- A module that is loaded records what its statements export, and its nested blocks export
nothing. -/
def LoadsRecorded (load : Loader) : Prop :=
  ∀ {path text s m t}, load path text s = (some m, t) →
    Grammar.Records t.vars m.statements m.block.scope ∧ m.Sealed

theorem readModule_records {file : SourceFile} (hnamed : LoadsNamed load)
    (hload : LoadsRecorded load) (h : readModule files load file s = (.ok m, t)) :
    Grammar.Records t.vars m.statements m.block.scope ∧ m.Sealed := by
  obtain ⟨stream, u, -, hmodule, rfl⟩ := readModule_eq_ok h
  have hsealed : Grammar.LoadsSealed load := fun hrun => (hload hrun).2
  exact Grammar.records_of_module hnamed hsealed rfl hmodule

theorem records_check {config : Config} {vars arena : VariableArena} {a : TypeArena}
    (h : Grammar.Records arena m.statements m.block.scope) :
    Grammar.Records arena (m.check config vars a).1.1.statements
      (m.check config vars a).1.1.block.scope := by
  have hvariables := Module.check_exports config vars
    (f := (·.exportedVariables arena)) (fun m a => m.check_exportedVariables arena) m a
  have htypes := Module.check_exports config vars (f := Stmt.exportedTypes)
    (fun m a => m.check_exportedTypes) m a
  rw [Module.check_scope]
  constructor
  · rw [hvariables]
    exact h.recordsVariables
  · rw [htypes]
    exact h.recordsTypes
  · rw [htypes]
    exact h.bindsTypes

theorem loadsRecorded_compileWith (hnamed : LoadsNamed load) (hload : LoadsRecorded load) :
    LoadsRecorded (compileWith files load) := by
  intro path text s m t h
  obtain ⟨m', u, hparse, rfl, rfl⟩ := compileWith_eq_some h
  obtain ⟨v, hread, rfl⟩ := parseWith_eq_some hparse
  obtain ⟨hrecords, hsealed⟩ := readModule_records hnamed hload hread
  exact ⟨records_check hrecords, Module.check_sealed hsealed⟩

/-- Compiled modules record their exports. -/
theorem loadsRecorded_compile (files : FileTree) : LoadsRecorded (compile files) :=
  (compile_induct files (P := fun load => LoadsNamed load ∧ LoadsRecorded load)
    ⟨fun h => (by cases h), fun h => by cases h⟩
    fun _ h => ⟨loadsNamed_compileWith h.1, loadsRecorded_compileWith h.1 h.2⟩).2

/-! ## What imports deliver -/

/-- **Imports deliver what exports declare.**  The tables of a module that is read give what the
statements of its outermost block export, the types among it are bound in this block, and no nested
block exports anything.  Wherever an import is due in a module, each name that it takes from a
module which is compiled is the variable that was exported last under the name, or else the type
that was exported under it; the name is bound in the block of the import and nowhere else.  It is
refused if nothing was exported under it, or if it is that of a type which the block has. -/
theorem imports_deliver_exports (files : FileTree) (v : Visit) :
    (∀ m t, v.read files = (.ok m, t) →
      (∀ name,
        m.block.scope.exportedVariables.find? name = m.exportedVariable? t.vars name ∧
        m.block.scope.exportedTypes.find? name = m.exportedType? name) ∧
      (∀ name id, m.exportedType? name = some id →
        m.block.scope.types.find? name = some id) ∧ m.Sealed) ∧
    ∀ u names token path text w source session, v.Due files u →
      Grammar.ImportsAt (v.env files) (Grammar.opened u) names token path w →
      files.key path ∉ u.session.loading → files.read path = .ok text →
      compile files path text u.session = (some source, session) →
      ∃ scope outer found scope' span, u.scopes.scopes = scope :: outer ∧
        source.Delivers session.vars scope names found scope' ∧
        Grammar.importNames (v.env files) (Grammar.opened u) =
          (found.map (.imports · source span),
            { w with session, scopes := ⟨scope' :: outer⟩ }) := by
  have hnamed : LoadsNamed (compile files) := loadsNamed_compile files
  have hrecorded : LoadsRecorded (compile files) := loadsRecorded_compile files
  refine ⟨fun m t hread => ?_, ?_⟩
  · obtain ⟨hrecords, hsealed⟩ := readModule_records hnamed hrecorded hread
    exact ⟨hrecords.lookups, fun name id hid => hrecords.bound hid, hsealed⟩
  · intro u names token path text w source session hdue himport hkey hread hload
    obtain ⟨stream, room, blocks, -, hu⟩ := hdue
    have htabled := hu.tabled hnamed (fun hrun => (hrecorded hrun).2) rfl (List.prefix_refl _)
    cases hscopes : u.scopes.scopes with
    | nil =>
      rw [hscopes] at htabled
      exact absurd (List.eq_nil_of_length_eq_zero htabled.length_eq) hu.blocks_ne_nil
    | cons scope outer =>
      obtain ⟨found, scope', span, hdelivers, hrun⟩ := Grammar.importNames_delivers
        (s := Grammar.opened u) himport hkey hread hload hscopes (hrecorded hload).1
        (hnamed hload).2
      exact ⟨scope, outer, found, scope', span, rfl, hdelivers, hrun⟩

set_option maxRecDepth 4000 in
/-- A nested block imports a variable that was declared and exported twice, and a type. -/
theorem imports_deliver_exports_nested :
    let files : FileTree := ⟨"/", [
      (["lib.lua"], .text "export local x = 1 export local x, y = 2, 3 export type T = any")]⟩
    let text := "do import \x7b x, T \x7d from \"./lib\" end"
    let v : Visit := ⟨⟨"main.lua"⟩, text, {}⟩
    let lib : Path := ⟨"lib.lua"⟩
    (∃ m t, v.read files = (.ok m, t) ∧ m.Sealed) ∧
    ∃ (u : ParserState) (source : Module) (session : Session), v.Due files u ∧
      compile files lib "export local x = 1 export local x, y = 2, 3 export type T = any"
          u.session = (some source, session) ∧
      source.exportedVariable? session.vars "x" = some ⟨1⟩ ∧
      source.exportedType? "T" = some .any ∧
      ∃ names token w scope outer found scope' span,
        Grammar.ImportsAt (v.env files) (Grammar.opened u) names token lib w ∧
        names.map Prod.fst = ["x", "T"] ∧ u.scopes.scopes = scope :: outer ∧
        source.Delivers session.vars scope names found scope' ∧
        Grammar.importNames (v.env files) (Grammar.opened u) =
          (found.map (.imports · source span),
            { w with session, scopes := ⟨scope' :: outer⟩ }) := by
  intro files text v lib
  obtain ⟨hread, himports⟩ := imports_deliver_exports files v
  constructor
  · obtain ⟨m, hm, -⟩ : ∃ m, (v.read files).1 = .ok m ∧ True := exists_of_ok (by decide +kernel)
    exact ⟨m, _, Prod.ext hm rfl, (hread m _ (Prod.ext hm rfl)).2.2⟩
  · -- the import is due after the word `do`
    let due : Token.Stream → ParserState := fun stream =>
      Grammar.entered (Grammar.begun { stream, session := v.session.marked files v.path })
    obtain ⟨stream, hstream, hdo, hnext, hhead⟩ : ∃ stream,
        Token.Stream.ofSource text = .ok stream ∧ stream.current.kind = .kwDo ∧
        stream.next.1.toOption.any (fun _ => decide True) = true ∧
        (Grammar.importHead (v.env files) (Grammar.opened (due stream))).1.toOption.any (fun head =>
          decide (head.1.map Prod.fst = ["x", "T"] ∧
            (SourceFile.ofPath v.path v.text).importPath? head.2.text = some lib)) = true :=
      exists_of_ok (by decide +kernel)
    obtain ⟨_, hnext, -⟩ := exists_of_ok hnext
    obtain ⟨⟨names, token⟩, hrun, hnames, hpath⟩ := exists_of_ok hhead
    have hpass : Grammar.Passes .kwDo
        (Grammar.begun { stream, session := v.session.marked files v.path }) := ⟨hdo, hnext⟩
    have hstart : Grammar.Boundary (v.env files)
        { stream, session := v.session.marked files v.path } (nestingLimit - 2 + 2) [[]] _ := .start
    have hdepth : 0 + 1 < nestingLimit := by decide
    have hdue : v.Due files (due stream) := ⟨stream, _, _, hstream, .enter hstart hpass hdepth⟩
    obtain ⟨source, session, hload, hvariable, htype⟩ : ∃ source session,
        compile files lib "export local x = 1 export local x, y = 2, 3 export type T = any"
          (v.session.marked files v.path) = (some source, session) ∧
        source.exportedVariable? session.vars "x" = some ⟨1⟩ ∧
        source.exportedType? "T" = some .any := exists_of_found (by decide +kernel)
    have himport : Grammar.ImportsAt (v.env files) (Grammar.opened (due stream)) names token lib _ :=
      ⟨Prod.ext hrun rfl, hpath⟩
    have hkey : files.key lib ∉ (v.session.marked files v.path).loading := by decide +kernel
    obtain ⟨scope, outer, found, scope', span, hscopes, hdelivers, himported⟩ :=
      himports _ names token lib _ _ source session hdue himport hkey (by decide +kernel) hload
    exact ⟨due stream, source, session, hdue, hload, hvariable, htype, names, token, _, scope,
      outer, found, scope', span, himport, hnames, hscopes, hdelivers, himported⟩

end Session

end TypedLua
