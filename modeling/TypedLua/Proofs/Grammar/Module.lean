import TypedLua.Grammar.Module
import TypedLua.Proofs.Grammar.Statement

/-!
# Grammar.Module

Reading definitions of types, blocks, imports and whole modules keeps a correspondence that is full:
one that also allows interfaces to be interned, scopes to be opened and closed, and modules to be
loaded.  Blocks need less: that types, interfaces and imports are read somehow.

Main statements: `Readable.module` and `Full.module`.
-/

namespace TypedLua.Correspondence

open Text TypedLua.Parser
open Token (Kind)

/-- Opening and closing scopes keeps the correspondence. -/
structure Scoped (C : Correspondence) : Prop extends C.Lawful where
  /-- Scopes may change as long as they correspond. -/
  rescoped {w s t a b} : C.state w s t → (Link.scopes C.types C.vars).rel w a b →
    C.state w { s with scopes := a } { t with scopes := b }
  sameFile {e f} : C.env e f → e.file.Agree C.regard f.file

/-- The parts of statements that touch more than the innermost scope are read. -/
structure Readable (C : Correspondence) : Prop extends C.Scoped where
  types room w : C.Agrees w C.types (Grammar.typeWithin room) (Grammar.typeWithin room)
  interfaces room w : C.AgreesAt (some .kwInterface) w C.definition
    (Grammar.interfaceOf (Grammar.typeWithin room)) (Grammar.interfaceOf (Grammar.typeWithin room))
  imported w : C.AgreesAt (some .kwImport) w C.stmt Grammar.importNames Grammar.importNames

/-- Every step of reading a module keeps the correspondence. -/
structure Full (C : Correspondence) : Prop extends C.Scoped where
  /-- Interning an interface keeps the correspondence. -/
  interned {w s t a b} : C.state w s t → C.types.shape.rel w a b →
    (∃ name gs ps, a = .interface name gs ps) → C.Interns w s t a b
  parameterised : C.parametric
  files {e f} : C.env e f → e.files = f.files
  loading {w s t} : C.state w s t → s.session.loading = t.session.loading
  /-- Loading a module keeps the correspondence, if it is not being loaded and can be read.  It may
  fail where that is excused. -/
  load {w s t e f} {path : Path} {text : String} : C.env e f → C.state w s t →
    e.files.key path ∉ s.session.loading → e.files.read path = .ok text →
    C.lenient ∧ (e.load path text s.session).1 = none ∨
    ∃ v, w ≤ v ∧
      C.module.option.rel v (e.load path text s.session).1 (f.load path text t.session).1 ∧
      C.state v { s with session := (e.load path text s.session).2 }
        { t with session := (f.load path text t.session).2 }
  /-- Reading a named type keeps the correspondence. -/
  named : C.ReadsNamed

variable {C : Correspondence} {w : C.World} {k : Option Kind} {α β : Type} {R : Link C.World α β}

theorem Lawful.rootScope (hC : C.Lawful) {s t : ParserState} (hst : C.state w s t) :
    C.scope.rel w Grammar.rootScope Grammar.rootScope := by
  have hinsert : ∀ (ps : List Primitive) (b : Bindings TypeId),
      C.types.bindings.rel w b b →
      C.types.bindings.rel w
        (ps.foldl (fun types p => types.insert p.name p.typeId) b)
        (ps.foldl (fun types p => types.insert p.name p.typeId) b) := by
    intro ps
    induction ps with
    | nil => exact fun b hb => hb
    | cons p ps ih => exact fun b hb => ih _ (Bindings.rel_insert hb p.name (hC.primitive p hst))
  exact ⟨Bindings.rel_empty, hinsert _ _ Bindings.rel_empty, Bindings.rel_empty,
    Bindings.rel_empty⟩

/-! ## Definitions of types -/

namespace Scoped

variable (hC : C.Scoped)

include hC

theorem file_bind {p : SourceFile → Parser α} {q : SourceFile → Parser β}
    (h : ∀ f g, f.Agree C.regard g → C.AgreesAt k w R (p f) (q g)) :
    C.AgreesAt k w R (asks (·.file) >>= p) (asks (·.file) >>= q) :=
  fun env env' henv s t hst => h _ _ (hC.sameFile henv) env env' henv s t hst

theorem defineType_bind (name : String) {a b : Span} (hab : C.regard.place a b) {x y : TypeId}
    (hxy : C.types.rel w x y) {p : Unit → Parser α} {q : Unit → Parser β}
    (h : C.Agrees w R (p ()) (q ())) :
    C.Agrees w R (Parser.defineType name x a >>= p) (Parser.defineType name y b >>= q) := by
  unfold Parser.defineType
  rw [bind_assoc, bind_assoc]
  refine .gets_bind fun s t hst => ?_
  have hdefine := ScopeStack.rel_defineType? (hC.scopes hst) name hxy
  generalize s.scopes.defineType? name x = a, t.scopes.defineType? name y = b at hdefine ⊢
  cases hdefine with
  | none => exact AgreesAt.fail (R := R) hab _
  | some hscopes => exact .modify_bind (fun _ _ hst => hC.rescoped hst hscopes) h

theorem typeAliasOf {p q : Parser TypeId} (h : ∀ w, C.Agrees w C.types p q) :
    C.Agrees w C.definition (Grammar.typeAliasOf p) (Grammar.typeAliasOf q) := by
  refine hC.currentSpan_bind fun _ _ hstart => hC.expect_bind .kwType (by decide) fun _ _ _ => ?_
  refine hC.identifier_bind fun name _ _ hname => hC.expect_bind .equals (by decide) fun _ _ _ => ?_
  refine (h w).bind fun v x y _ hxy => hC.defineType_bind name hname hxy ?_
  exact hC.spanFrom_bind hstart fun _ _ hspan => .pure (.mk name ⟨hspan, hxy⟩)

theorem withScope {p : Parser α} {q : Parser β} (h : C.Agrees w R p q) {a b : Scope}
    (hab : C.scope.rel w a b) :
    C.Agrees w (R.pair C.scope) (Parser.withScope a p) (Parser.withScope b q) := by
  intro env env' henv s t hst _ hcounts
  have hpushed : C.state w { s with scopes := s.scopes.push a }
      { t with scopes := t.scopes.push b } :=
    hC.rescoped hst (ScopeStack.rel_push (hC.scopes hst) hab)
  obtain ⟨v, hwv, hr, hv⟩ := h.meet henv hpushed (Counts.of_map hcounts)
  unfold Parser.withScope
  generalize p env { s with scopes := s.scopes.push a } = x at hr hv ⊢
  generalize q env' { t with scopes := t.scopes.push b } = y at hr hv ⊢
  obtain ⟨hclosed, hrest⟩ := ScopeStack.rel_pop (hC.scopes hv)
  refine ⟨v, hwv, ?_, hC.rescoped hv hrest⟩
  obtain ⟨x, s'⟩ := x
  obtain ⟨y, t'⟩ := y
  cases hr with
  | ok hxy => exact .ok ⟨hxy, hclosed⟩
  | error cause hab => exact .error cause hab

/-! ## Exports -/

theorem exportAlias_bind {e d : Expr} (hed : C.definition.rel w e d) {p : Unit → Parser α}
    {q : Unit → Parser β} (h : C.Agrees w R (p ()) (q ())) :
    C.Agrees w R (Grammar.exportAlias e >>= p) (Grammar.exportAlias d >>= q) := by
  cases hed with
  | mk name htag =>
    refine .modify_bind (fun _ _ hst => hC.rescoped hst ?_) h
    exact ScopeStack.rel_exportType (hC.scopes hst) name htag.type

theorem exportOf {p q : Parser TypeId} {p' q' : Parser Expr} (h : ∀ w, C.Agrees w C.types p q)
    (h' : ∀ w, C.Agrees w C.expr p' q')
    (hinterface : ∀ w, C.AgreesAt (some .kwInterface) w C.definition (Grammar.interfaceOf p)
      (Grammar.interfaceOf q)) :
    C.Agrees w C.stmt (Grammar.exportOf p p') (Grammar.exportOf q q') := by
  refine hC.currentSpan_bind fun start start' hstart => ?_
  refine hC.expect_bind .kwExport (by decide) fun _ _ _ => ?_
  -- an exported definition, of either kind, is read, exported and wrapped
  have hdefinition : ∀ {k : Option Kind} {p q : Parser Expr}, C.AgreesAt k w C.definition p q →
      C.AgreesAt k w C.stmt
        (do
          let definition ← p
          Grammar.exportAlias definition
          return .exportExpr definition (← spanFrom start))
        (do
          let definition ← q
          Grammar.exportAlias definition
          return .exportExpr definition (← spanFrom start')) := by
    intro k p q hpq
    refine hpq.bind fun u e d _ hed => hC.exportAlias_bind hed ?_
    exact hC.spanFrom_bind hstart fun _ _ hspan => .pure (.exportExpr hspan hed)
  refine .gets_bind fun s t hst => ?_
  rw [ScopeStack.atRoot_eq (hC.scopes hst)]
  split
  · refine hC.currentKind_bind fun kind => ?_
    split
    · exact hdefinition (.here (hC.typeAliasOf h))
    · exact hdefinition (hinterface w)
    · refine .here ((hC.localsOf h h').bind ?_)
      rintro v ⟨xs, es, span⟩ ⟨ys, ds, span'⟩ _ ⟨hxys, heds, hspan⟩
      refine (hC.forM_exportVariable hxys).bind fun v₁ _ _ hle _ => ?_
      have hxys := C.vars.list.mono hle hxys
      have heds := C.expr.list.mono hle heds
      exact hC.spanFrom_bind hstart fun _ _ hab => .pure (.exportStmt hab (.locals hspan hxys heds))
    · exact hC.unexpected "export"
  · exact .fail hstart _

/-! ## Blocks -/

theorem statementsOf {p q : Parser Stmt} (h : ∀ w, C.Agrees w C.stmt p q) (close : Kind) (n : Nat) :
    C.Agrees w C.stmt.list (Grammar.statementsOf p close n) (Grammar.statementsOf q close n) := by
  induction n generalizing w with
  | zero => exact .pure .nil
  | succ n ih =>
    refine hC.check_bind close (.pure .nil) (hC.check_bind .eof (hC.current_bind ?_) ?_)
    · intro a b hab
      rw [C.expected_cause_eq close hab]
      exact .fail hab.2.2 _
    · refine hC.eat_bind .semicolon (by decide) ih ((h w).bind fun v m m' _ hm => ?_)
      exact ih.bind fun v₁ ms ms' hle hms => .pure (.cons (C.stmt.mono hle hm) hms)

theorem blockOf {a b : Scope} (hab : C.scope.rel w a b) {p q : Parser Stmt}
    (h : ∀ w, C.Agrees w C.stmt p q) (close : Kind) :
    C.Agrees w C.block (Grammar.blockOf a p close) (Grammar.blockOf b q close) := by
  refine hC.currentSpan_bind fun _ _ hstart => ?_
  have hbody : C.Agrees w C.stmt.list
      (fuel >>= Grammar.statementsOf p close) (fuel >>= Grammar.statementsOf q close) :=
    hC.fuel_bind fun n => hC.statementsOf h close n
  refine (hC.withScope hbody hab).bind ?_
  rintro v ⟨ms, a'⟩ ⟨ms', b'⟩ _ ⟨hms, hab'⟩
  cases hms with
  | nil => exact .pure (.mk hstart .nil hab')
  | cons hm hms =>
    exact hC.spanFrom_bind hstart fun _ _ hspan => .pure (.mk hspan (.cons hm hms) hab')

theorem doBlockOf {p q : Parser Block} (h : ∀ w, C.Agrees w C.block p q) :
    C.Agrees w C.stmt (Grammar.doBlockOf p) (Grammar.doBlockOf q) := by
  refine hC.currentSpan_bind fun _ _ hstart => hC.expect_bind .kwDo (by decide) fun _ _ _ => ?_
  refine (h w).bind fun v a b _ hab => hC.expect_bind .kwEnd (by decide) fun _ _ _ => ?_
  cases hab with
  | mk _ hms hscope =>
    exact hC.spanFrom_bind hstart fun _ _ hspan => .pure (.block (.mk hspan hms hscope))

end Scoped

/-! ## Modules -/

namespace Readable

variable (hC : C.Readable)

include hC

/-- Statements correspond if blocks do. -/
theorem statementOf (room : Nat) {p q : Parser Block} (h : ∀ w, C.Agrees w C.block p q) :
    C.Agrees w C.stmt (Grammar.statementOf room p) (Grammar.statementOf room q) := by
  have hexpr := hC.expressionWithin room
  refine hC.currentSpan_bind fun start start' hstart => ?_
  -- a definition of either kind becomes a statement of its own
  have hdefinition : ∀ {k : Option Kind} {p q : Parser Expr}, C.AgreesAt k w C.definition p q →
      C.AgreesAt k w C.stmt
        (p >>= fun definition => do return .expression definition (← spanFrom start))
        (q >>= fun definition => do return .expression definition (← spanFrom start')) := by
    intro k p q hpq
    refine hpq.bind fun u e d _ hed => ?_
    cases hed with
    | mk name htag =>
      exact hC.spanFrom_bind hstart fun _ _ hspan => .pure (.expression hspan (.typeAlias name htag))
  refine hC.currentKind_bind fun kind => ?_
  split
  · exact hdefinition (.here (hC.typeAliasOf (hC.types room)))
  · exact hdefinition (hC.interfaces room w)
  · refine .here ((hC.localsOf (hC.types room) hexpr).bind ?_)
    rintro v ⟨xs, es, span⟩ ⟨ys, ds, span'⟩ _ ⟨hxys, heds, hspan⟩
    exact .pure (.locals hspan hxys heds)
  · exact hC.imported w
  · exact .here (hC.exportOf (hC.types room) hexpr (hC.interfaces room))
  · exact .here (hC.externOf (hC.types room))
  · exact .here (hC.doBlockOf h)
  · exact .here (agrees_callOf (hC.primaryWithin room))
  · exact .here (agrees_callOf (hC.primaryWithin room))
  · exact hC.unexpected "statement"

/-- By induction on how deep statements may still be nested. -/
theorem statementWithin_and_blockWithin (room : Nat) :
    (∀ w, C.Agrees w C.stmt (Grammar.statementWithin room) (Grammar.statementWithin room)) ∧
      ∀ close w, C.Agrees w C.block (Grammar.blockWithin room close)
        (Grammar.blockWithin room close) := by
  -- statements and blocks hold each other, each with less room
  induction room with
  | zero =>
    refine ⟨fun w => ?_, fun close w => ?_⟩
    · unfold Grammar.statementWithin
      exact hC.tooDeep "statement"
    · unfold Grammar.blockWithin
      exact hC.tooDeep "block"
  | succ room ih =>
    refine ⟨fun w => ?_, fun close w => ?_⟩
    · unfold Grammar.statementWithin
      exact hC.nested "statement" (hC.statementOf room (ih.2 .kwEnd))
    · unfold Grammar.blockWithin
      exact hC.nested "block" (hC.blockOf Scope.rel_empty ih.1 close)

/-- Modules correspond, if imports and interfaces do. -/
theorem module : C.Agrees w C.module Grammar.module Grammar.module := by
  refine hC.room_bind fun room => .of_state fun s t hst => ?_
  refine (hC.blockOf (hC.rootScope hst) (hC.statementWithin_and_blockWithin room).1 .eof).bind
    fun v a b _ hab => hC.expect_bind .eof (by decide) fun _ _ _ => ?_
  exact hC.file_bind fun _ _ hfile => .pure (.mk hfile hab)

end Readable

/-! ## Interfaces and imports -/

namespace Full

variable (hC : C.Full)

include hC

theorem internInterface {a b : Shape} (hab : C.types.shape.rel w a b)
    (ha : ∃ name gs ps, a = .interface name gs ps) :
    C.Agrees w C.types (Parser.internType a) (Parser.internType b) := by
  intro env env' _ s t hst _ _
  obtain ⟨v, hwv, hid, hv⟩ := hC.interned hst hab ha
  exact ⟨v, hwv, .ok hid, hv⟩

theorem interfaceOf {p q : Parser TypeId} (h : ∀ w, C.Agrees w C.types p q) :
    C.Agrees w C.definition (Grammar.interfaceOf p) (Grammar.interfaceOf q) := by
  refine hC.currentSpan_bind fun _ _ hstart => hC.expect_step (hC.named.passes _) fun _ _ _ => ?_
  refine hC.identifier_bind fun name _ _ hname => (hC.parameters hC.parameterised).bind ?_
  rintro v ⟨a, gs⟩ ⟨b, hs⟩ _ ⟨hab, hgs⟩
  refine hC.expect_bind .leftBrace (by decide) fun _ _ _ => ?_
  have hbody : C.Agrees v C.types.property.list
      (braceTail (Grammar.propertyOf p)) (braceTail (Grammar.propertyOf q)) :=
    hC.braceTail fun u => hC.propertyOf h
  refine (hC.withScope hbody hab).bind ?_
  rintro v₁ ⟨ps, a'⟩ ⟨qs, b'⟩ hle ⟨hps, -⟩
  have hgs := C.types.list.mono hle hgs
  refine (hC.internInterface (.interface name hgs hps) ⟨_, _, _, rfl⟩).bind fun v₂ x y _ hxy => ?_
  refine hC.defineType_bind name hname hxy (hC.spanFrom_bind hstart fun _ _ hspan => ?_)
  exact .pure (.mk name ⟨hspan, hxy⟩)

theorem loadImport (modulePath : String) (path : Path) {a b : Span} (hab : C.regard.place a b) :
    C.Agrees w C.module
      (Grammar.loadImport modulePath path a) (Grammar.loadImport modulePath path b) := by
  intro env env' henv s t hst _ hcounts
  unfold Grammar.loadImport at hcounts ⊢
  rw [← hC.files henv, ← hC.loading hst]
  dsimp only at hcounts ⊢
  split
  · exact ⟨w, le_refl w, .error _ hab, hst⟩
  · next hloading =>
    rw [if_neg hloading] at hcounts
    split
    · exact ⟨w, le_refl w, .error _ hab, hst⟩
    · next text hread =>
      rw [hread] at hcounts
      dsimp only at hcounts
      have hload := hC.load henv hst (by simpa using hloading) hread
      generalize env.load path text s.session = x at hcounts hload ⊢
      generalize env'.load path text t.session = y at hload ⊢
      obtain ⟨m, a⟩ := x
      obtain ⟨n, b⟩ := y
      rcases hload with ⟨hlenient, rfl⟩ | ⟨v, hwv, hm, hstate⟩
      · obtain ⟨_, hfailed⟩ := hcounts hlenient
        cases hfailed
      · cases hm with
        | none => exact ⟨v, hwv, .error _ hab, hstate⟩
        | some hmn => exact ⟨v, hwv, .ok hmn, hstate⟩

theorem bindImport {m n : Module} (hmn : C.module.rel w m n) (name : String) {a b : Span}
    (hab : C.regard.place a b) :
    C.Agrees w C.expr (Grammar.bindImport m name a) (Grammar.bindImport n name b) := by
  have hscope := Module.Agree.scope hmn
  have hvar := Bindings.rel_find? (R := C.vars) (w := w) hscope.exportedVariables name
  have htype := Bindings.rel_find? (R := C.types) (w := w) hscope.exportedTypes name
  unfold Grammar.bindImport
  dsimp only
  generalize m.block.scope.exportedVariables.find? name = x at hvar ⊢
  generalize n.block.scope.exportedVariables.find? name = y at hvar ⊢
  generalize m.block.scope.exportedTypes.find? name = x' at htype ⊢
  generalize n.block.scope.exportedTypes.find? name = y' at htype ⊢
  cases hvar with
  | some hxy =>
    refine .modify_bind (fun _ _ hst => hC.definedVariable name hxy hst) ?_
    refine .gets_bind fun s t hst => .pure ?_
    exact .reference hxy ⟨hab, hC.typeOf hst hxy⟩
  | none =>
    cases htype with
    | some hxy =>
      exact hC.defineType_bind name hab hxy (.pure (.typeName name ⟨hab, hxy⟩))
    | none =>
      rw [(Module.Agree.file hmn).fileName]
      exact .fail hab _

theorem importNames : C.Agrees w C.stmt Grammar.importNames Grammar.importNames := by
  refine hC.currentSpan_bind fun _ _ hstart => hC.expect_bind .kwImport (by decide) fun _ _ _ => ?_
  refine hC.expect_bind .leftBrace (by decide) fun _ _ _ => ?_
  have hname : ∀ u, C.Agrees u (Link.same.pair C.spans) identifier identifier := by
    intro u
    rw [← bind_pure identifier]
    exact hC.identifier_bind fun _ _ _ hab => .pure ⟨rfl, hab⟩
  refine (hC.commaList hname).bind fun v names names' _ hnames => ?_
  refine hC.expect_bind .rightBrace (by decide) fun _ _ _ => ?_
  refine hC.expect_bind .kwFrom (by decide) fun _ _ _ => ?_
  refine hC.expect_bind .string (by decide) fun path path' hpath => ?_
  refine hC.file_bind fun file file' hfile => ?_
  rw [hpath.2.1, hfile.importPath?_eq]
  split
  · exact .fail hpath.2.2 _
  · refine (hC.loadImport _ _ hpath.2.2).bind fun v₁ m n hle hmn => ?_
    -- the module is bound to by each name, in the world that the earlier names lead to
    let bound : Link C.World (String × Span) (String × Span) :=
      ⟨fun u x y => (Link.same.pair C.spans).rel u x y ∧ C.module.rel u m n,
        fun hle _ _ hxy => ⟨Link.mono _ hle hxy.1, Link.mono _ hle hxy.2⟩⟩
    have hbound : bound.list.rel v₁ names names' :=
      List.Forall₂.imp (fun _ _ hxy => ⟨hxy, hmn⟩) (Link.mono _ hle hnames)
    have himported : C.Agrees v₁ C.expr.list
        (names.mapM fun entry => Grammar.bindImport m entry.1 entry.2)
        (names'.mapM fun entry => Grammar.bindImport n entry.1 entry.2) := by
      refine AgreesAt.mapM (C := C) hbound ?_
      rintro u ⟨name, a⟩ ⟨_, b⟩ ⟨⟨rfl, hab⟩, hmn⟩
      exact hC.bindImport hmn name hab
    refine himported.bind fun v₂ es ds hle₂ heds => ?_
    exact hC.spanFrom_bind hstart fun _ _ hspan =>
      .pure (.imports hspan heds (C.module.mono hle₂ hmn))

theorem readable : C.Readable where
  toScoped := hC.toScoped
  types := hC.typeWithin hC.named
  interfaces room _ := .here (hC.interfaceOf (hC.typeWithin hC.named room))
  imported _ := .here hC.importNames

/-- Modules correspond for readings that load alike. -/
theorem module : C.Agrees w C.module Grammar.module Grammar.module := hC.readable.module

end Full

end TypedLua.Correspondence
