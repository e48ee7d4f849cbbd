import TypedLua.Proofs.Grammar.Steady
import TypedLua.Proofs.Grammar.Success

/-!
# Grammar.Effects

What reading a statement does, nested blocks left out.  A statement that is read binds what it
declares once everything in it is read, so that its names are resolved in the scopes before it.
An import loads the module that it names, unless that is being loaded; it is the only statement
that has to do with other modules.

Main statement: `statementOf_ends`, every statement has its effect or is refused for one of few
reasons.
-/

namespace TypedLua

open Text TypedLua.Parser
open Token (Kind)
open Course (Yields Spanned)

variable {α : Type} {B : Course} {T : Trait Expr} {env : ParserEnv} {s t : ParserState}
variable {v : Variable} {names : List (String × Span)} {Q : α → ParserState → Prop} {name : String}
  {p : Parser TypeId} {m : Stmt}

/-! ## Bindings -/

theorem VariableArena.get?_of_prefix {a b : VariableArena} (h : a.vars <+: b.vars) {id : VariableId}
    (hid : a.get? id = some v) : b.get? id = some v := by
  obtain ⟨rest, hrest⟩ := h
  obtain ⟨hlt, -⟩ := List.getElem?_eq_some_iff.1 hid
  unfold get?
  rw [← hrest, List.getElem?_append_left hlt]
  exact hid

theorem VariableArena.nameOf_of_get? {a : VariableArena} {id : VariableId}
    (h : a.get? id = some v) : a.nameOf id = v.name := by
  unfold nameOf
  rw [h]
  rfl

namespace ScopeStack

/-- Bind a variable under its name. -/
def bindNamed (vars : VariableArena) (scopes : ScopeStack) (id : VariableId) : ScopeStack :=
  scopes.defineVariable (vars.nameOf id) id

/-- Export a variable under its name. -/
def exportNamed (vars : VariableArena) (scopes : ScopeStack) (id : VariableId) : ScopeStack :=
  scopes.exportVariable (vars.nameOf id) id

/-- Bind a type, whether or not its name is new. -/
def bindType (scopes : ScopeStack) (name : String) (id : TypeId) : ScopeStack :=
  scopes.modifyCurrent fun scope => { scope with types := scope.types.insert name id }

/-- The innermost scope does not bind a type under the name. -/
def IsNewType (scopes : ScopeStack) (name : String) : Prop :=
  scopes.current?.any (·.types.contains name) = false

/-- The scopes after names were taken from a module, with what was found for them. -/
inductive TakesFrom (source : Module) :
    ScopeStack → List (String × Span) → List Expr → ScopeStack → Prop
  /-- No names are taken. -/
  | nil {scopes : ScopeStack} : TakesFrom source scopes [] [] scopes
  /-- An exported variable is bound. -/
  | takesVariable {scopes scopes' : ScopeStack} {name : String} {span : Span} {id : VariableId}
      {type : TypeId} {names : List (String × Span)} {es : List Expr} :
    source.block.scope.exportedVariables.find? name = some id →
    TakesFrom source (scopes.defineVariable name id) names es scopes' →
    TakesFrom source scopes ((name, span) :: names) (.reference id ⟨span, type⟩ :: es) scopes'
  /-- An exported type is bound. -/
  | takesType {scopes scopes' : ScopeStack} {name : String} {span : Span} {id : TypeId}
      {names : List (String × Span)} {es : List Expr} :
    source.block.scope.exportedTypes.find? name = some id →
    TakesFrom source (scopes.bindType name id) names es scopes' → scopes.IsNewType name →
    TakesFrom source scopes ((name, span) :: names) (.typeName name ⟨span, id⟩ :: es) scopes'

theorem TakesFrom.cons {source : Module} {a b c : ScopeStack} {x : String × Span} {e : Expr}
    {es : List Expr} (h : TakesFrom source a [x] [e] b) (hrest : TakesFrom source b names es c) :
    TakesFrom source a (x :: names) (e :: es) c := by
  cases h with
  | takesVariable hid h =>
    cases h
    exact .takesVariable hid hrest
  | takesType hid h hnew =>
    cases h
    exact .takesType hid hrest hnew

end ScopeStack

/-- The variables are in the arena. -/
def VariableArena.HasAll (a : VariableArena) (ids : List VariableId) : Prop :=
  ∀ id ∈ ids, ∃ v, a.get? id = some v

/-! ## Effects -/

namespace Grammar

/-- The words of an import: the names that it takes, and the module that it names. -/
def importHead : Parser (List (String × Span) × Token) := do
  let _ ← expect .kwImport
  let _ ← expect .leftBrace
  let names ← commaList identifier
  let _ ← expect .rightBrace
  let _ ← expect .kwFrom
  let modulePath ← expect .string
  return (names, modulePath)

/-- The words of an import stand here, and name the file at a path. -/
def ImportsAt (env : ParserEnv) (s : ParserState) (names : List (String × Span)) (token : Token)
    (path : Path) (t : ParserState) : Prop :=
  importHead env s = (.ok (names, token), t) ∧ env.file.importPath? token.text = some path

/-- What reading a statement has done when it succeeds, if the expressions in it have the
property. -/
inductive EffectOf (T : Trait Expr) (env : ParserEnv) (s : ParserState) :
    Stmt → ParserState → Prop
  /-- A type was defined. -/
  | definition {name : String} {tag : Tag} {span : Span} {t : ParserState} : s.Keeps t →
    t.scopes = s.scopes.bindType name tag.type → s.scopes.IsNewType name →
    EffectOf T env s (.expression (.typeAlias name tag) span) t
  /-- A type was defined and exported. -/
  | exportedDefinition {name : String} {tag : Tag} {span : Span} {t : ParserState} : s.Keeps t →
    t.scopes = (s.scopes.bindType name tag.type).exportType name tag.type →
    s.scopes.IsNewType name → s.scopes.atRoot = true →
    EffectOf T env s (.exportExpr (.typeAlias name tag) span) t
  /-- Variables were declared, after their values were read. -/
  | locals {targets : List VariableId} {values : List Expr} {span : Span} {t : ParserState} :
    s.Keeps t → T.list.Has s values t → t.session.vars.HasAll targets →
    t.scopes = targets.foldl (.bindNamed t.session.vars) s.scopes →
    EffectOf T env s (.locals targets values span) t
  /-- Variables were declared and exported. -/
  | exportedLocals {targets : List VariableId} {values : List Expr} {span span' : Span}
      {t : ParserState} :
    s.Keeps t → T.list.Has s values t → t.session.vars.HasAll targets →
    t.scopes = targets.foldl (.exportNamed t.session.vars)
      (targets.foldl (.bindNamed t.session.vars) s.scopes) → s.scopes.atRoot = true →
    EffectOf T env s (.exportStmt (.locals targets values span) span') t
  /-- A variable that is defined elsewhere was declared. -/
  | externVariable {id : VariableId} {span : Span} {t : ParserState} : s.Keeps t →
    t.session.vars.HasAll [id] → t.scopes = s.scopes.bindNamed t.session.vars id →
    s.stream.current.kind = .kwExtern → EffectOf T env s (.externVariable id span) t
  /-- A function that is defined elsewhere was declared. -/
  | externFunction {head : Prototype} {span : Span} {t : ParserState} : s.Keeps t →
    t.session.vars.HasAll [head.function] →
    t.scopes = s.scopes.bindNamed t.session.vars head.function →
    s.stream.current.kind = .kwExtern → EffectOf T env s (.externFunction head span) t
  /-- A call was read. -/
  | call {e : Expr} {span : Span} {t : ParserState} : s.Steady t → e.isCall = true →
    T.Has s e t → EffectOf T env s (.expression e span) t
  /-- A module was loaded, and names were taken from it. -/
  | imports {names : List (String × Span)} {token : Token} {path : Path} {text : String}
      {source : Module} {es : List Expr} {span : Span} {t u : ParserState} :
    ImportsAt env s names token path u → env.files.key path ∉ s.session.loading →
    env.files.read path = .ok text →
    env.load path text s.session = (some source, t.session) → t.stream = u.stream →
    s.scopes.TakesFrom source names es t.scopes → EffectOf T env s (.imports es source span) t

/-- What reading a statement has done when it succeeds: the names in it are resolved in the scopes
before it. -/
abbrev Effect : ParserEnv → ParserState → Stmt → ParserState → Prop := EffectOf .names

/-- A statement was read, on a course besides. -/
def Achieves (B : Course) (T : Trait Expr) (env : ParserEnv) (s : ParserState) (m : Stmt)
    (t : ParserState) : Prop := B.Leads s t ∧ EffectOf T env s m t

/-- Why a statement is refused, and the session that is left then. -/
inductive Refused (B : Course) (env : ParserEnv) (s : ParserState) : Fault → Session → Prop
  /-- What is wrong has nothing to do with other modules. -/
  | admitted {f : Fault} {x : Session} : B.steady.Fails s f x → Refused B env s f x
  /-- The module that an import names is being loaded. -/
  | circular {names : List (String × Span)} {token : Token} {path : Path} {t : ParserState}
      {f : Fault} {x : Session} :
    ImportsAt env s names token path t → env.files.key path ∈ s.session.loading →
    f = ⟨token.span, .circularImport (path.absolute env.files.here).text⟩ → B.Fails s f x →
    Refused B env s f x
  /-- The module that an import names is refused. -/
  | failed {names : List (String × Span)} {token : Token} {path : Path} {text : String}
      {t : ParserState} {x : Session} :
    ImportsAt env s names token path t → B.Spans token.span →
    env.files.key path ∉ s.session.loading → env.files.read path = .ok text →
    env.load path text s.session = (none, x) →
    Refused B env s ⟨token.span, .failedImport token.text⟩ x

end Grammar

/-! ## Definitions of types -/

theorem ScopeStack.resolve_push {scopes : ScopeStack} {scope : Scope}
    (hvariable : (scopes.push scope).resolveVariable name = none)
    (htype : (scopes.push scope).resolveType name = none) :
    scopes.resolveVariable name = none ∧ scopes.resolveType name = none := by
  unfold resolveVariable push at hvariable
  unfold resolveType push at htype
  rw [List.findSome?_cons] at hvariable htype
  constructor
  · split at hvariable
    · cases hvariable
    · exact hvariable
  · split at htype
    · cases htype
    · exact htype

theorem ParserState.Admits.of_push {scope : Scope} {f : Fault}
    (h : ParserState.Admits { s with scopes := s.scopes.push scope } f) : s.Admits f := by
  cases h with
  | lexical hf => exact .lexical hf
  | here hf => exact .here hf
  | unknown htoken hkind hvariable htype =>
    obtain ⟨hvariable, htype⟩ := ScopeStack.resolve_push hvariable htype
    exact .unknown htoken hkind hvariable htype

theorem Course.Allows.withScope (hB : B.Wide) {p : Parser α} (h : B.steady.Allows p)
    (scope : Scope) : B.steady.Allows (withScope scope p) := by
  intro env s hs
  have hpush : B.Leads s { s with scopes := s.scopes.push scope } := hB.rescoped _ hs.2
  refine Runs.withScope ((h env _ (steady_refl (B.right hpush))).imp ?_ ?_)
  · rintro a t ⟨⟨hst, hlead⟩, -⟩
    have hpop := hB.rescoped_after (B.trans hpush hlead) t.scopes.pop.2
    refine ⟨⟨⟨⟨hst.session, hst.vars, hst.stream⟩, ?_⟩, hpop⟩, .intro⟩
    show t.scopes.pop.2 = s.scopes
    rw [hst.scopes]
    rfl
  · exact fun f _ hf => ⟨hf.1.of_push, B.fails hpush hf.2⟩

namespace Grammar

variable {E : Fault → ParserState → Prop} {span : Span}

theorem defineType_ends (name : String) (id : TypeId)
    (hE : ∀ cause : Cause, cause.Local → E ⟨span, cause⟩ t) :
    Runs env t (defineType name id span)
      (fun _ u => u = { t with scopes := t.scopes.bindType name id } ∧ t.scopes.IsNewType name)
      E := by
  refine Runs.gets_bind ?_
  unfold ScopeStack.defineType?
  cases hnew : t.scopes.current?.any (·.types.contains name) with
  | true => exact Runs.fail _ _ (hE _ .intro)
  | false => exact Runs.modify ⟨rfl, hnew⟩

/-- What defining a type has done. -/
def Defines (B : Course) (s : ParserState) (e : Expr) (t : ParserState) : Prop :=
  ∃ name tag, e = .typeAlias name tag ∧ B.Leads s t ∧ s.Keeps t ∧
    t.scopes = s.scopes.bindType name tag.type ∧ s.scopes.IsNewType name

theorem Defines.of_steady (hB : B.Wide) {tag : Tag} (hst : B.steady.Leads s t)
    (hnew : t.scopes.IsNewType name) :
    Defines B s (.typeAlias name tag) { t with scopes := t.scopes.bindType name tag.type } := by
  obtain ⟨hst, hlead⟩ := hst
  rw [hst.scopes] at hnew
  refine ⟨name, tag, rfl, hB.rescoped_after hlead _, hst.toKeeps.rescoped _, ?_, hnew⟩
  show t.scopes.bindType name tag.type = _
  rw [hst.scopes]

section

variable (hB : B.Wide) (h : B.steady.Spanned p)

include hB h

/-- An alias defines its name, or is refused. -/
theorem typeAliasOf_ends (hst : B.steady.Leads s t) :
    Runs env t (typeAliasOf p) (Defines B s) (B.steady.Refuses s) := by
  refine Runs.currentSpan_bind ?_
  refine ((Yields.expect _ rfl).after hst).bind fun _ t ht => ?_
  refine (Yields.name.after ht.1).bind fun x u hu => ?_
  refine ((Yields.expect _ rfl).after hu.1).bind fun _ v hv => ?_
  refine ((h env v).after hv.1).bind fun id w hw => ?_
  refine (defineType_ends x.1 id fun _ => B.steady.wrong_after hw.1 hu.2).bind ?_
  rintro _ _ ⟨rfl, hnew⟩
  exact Runs.spanFrom_bind fun span => Runs.pure (.of_steady hB hw.1 hnew)

/-- An interface defines its name, or is refused. -/
theorem interfaceOf_ends (hst : B.steady.Leads s t) :
    Runs env t (interfaceOf p) (Defines B s) (B.steady.Refuses s) := by
  have htypes := Course.steady_types hB.types
  refine Runs.currentSpan_bind ?_
  refine ((Yields.expect _ rfl).after hst).bind fun _ t ht => ?_
  refine (Yields.name.after ht.1).bind fun x u hu => ?_
  refine ((Spanned.parameters htypes env u).after hu.1).bind fun generics v hv => ?_
  refine ((Yields.expect _ rfl).after hv.1).bind fun _ w hw => ?_
  have hproperties : B.steady.Allows (braceTail (propertyOf p)) := fun env s =>
    (Yields.braceTail (Spanned.propertyOf h env)).imp fun _ _ _ _ => .intro
  refine ((hproperties.withScope hB generics.1 env w).after hw.1).bind fun properties y hy => ?_
  refine ((Yields.internType htypes _).after hy.1).bind fun id z hz => ?_
  refine (defineType_ends x.1 id fun _ => B.steady.wrong_after hz.1 hu.2).bind ?_
  rintro _ _ ⟨rfl, hnew⟩
  exact Runs.spanFrom_bind fun span => Runs.pure (.of_steady hB hz.1 hnew)

end

/-! ## Declarations of variables -/

theorem mapM_bindVariable_ends (hB : B.Wide) (hs : B.Leads s s) (vs : List Variable) :
    Runs env s (vs.mapM bindVariable) (fun ids t => B.Leads s t ∧ s.Keeps t ∧
      t.session.vars.HasAll ids ∧ t.scopes = ids.foldl (.bindNamed t.session.vars) s.scopes)
      E := by
  induction vs generalizing s with
  | nil => exact Runs.pure ⟨hs, .refl s, nofun, rfl⟩
  | cons v vs ih =>
    rw [List.mapM_cons]
    -- the state once the first variable is bound
    let id : VariableId := (VariableArena.alloc v s.session.vars).1
    let vars : VariableArena := (VariableArena.alloc v s.session.vars).2
    let t : ParserState := { s with
      scopes := s.scopes.defineVariable v.name id
      session := { s.session with vars } }
    have hst : s.Keeps t := (ParserState.Steady.declared s v).toKeeps.rescoped _
    have hdeclared := B.declared v hs
    have hlead : B.Leads s t := hB.rescoped_after hdeclared _
    have hid : vars.get? id = some v := VariableArena.get?_alloc _ v
    refine Runs.bind (Q := fun a u => a = id ∧ u = t) (.of_ok rfl ⟨rfl, rfl⟩) ?_
    rintro _ _ ⟨rfl, rfl⟩
    refine (ih (B.right hlead)).bind fun ids u hu => ?_
    obtain ⟨hlead', htu, hall, hscopes⟩ := hu
    have hget := VariableArena.get?_of_prefix htu.vars hid
    refine .pure ⟨B.trans hlead hlead', hst.trans htu, fun id' hid' => ?_, ?_⟩
    · rcases List.mem_cons.1 hid' with rfl | hid'
      · exact ⟨v, hget⟩
      · exact hall id' hid'
    · rw [hscopes, List.foldl_cons]
      unfold ScopeStack.bindNamed
      rw [VariableArena.nameOf_of_get? hget]

/-- What declaring local variables has done. -/
def Declares (B : Course) (T : Trait Expr) (s : ParserState) (x : List VariableId × List Expr × Span)
    (t : ParserState) : Prop :=
  B.Leads s t ∧ s.Keeps t ∧ T.list.Has s x.2.1 t ∧ t.session.vars.HasAll x.1 ∧
    t.scopes = x.1.foldl (.bindNamed t.session.vars) s.scopes

/-- A declaration of locals declares variables, or is refused. -/
theorem localsOf_ends (hB : B.Wide) {q : Parser Expr} (hp : B.steady.Spanned p) (hq : Gives B T q)
    (hst : B.steady.Leads s t) :
    Runs env t (localsOf p q) (Declares B T s) (B.steady.Refuses s) := by
  refine Runs.currentSpan_bind ?_
  generalize t.stream.current.span = start
  refine ((Yields.expect _ rfl).after hst).bind fun _ t ht => ?_
  refine ((Spanned.commaList (Spanned.variableOf hp) env t).after ht.1).bind fun declared u hu => ?_
  have hbind : ∀ (values : List Expr) (v : ParserState), B.steady.Leads s v →
      T.list.Has s values v → Runs env v (do
        let targets ← declared.mapM bindVariable
        return (targets, values, ← spanFrom start)) (Declares B T s) (B.steady.Refuses s) := by
    intro values v hsv hvalues
    refine (mapM_bindVariable_ends hB (B.right hsv.2) declared).bind ?_
    rintro targets w ⟨hlead, hvw, hall, hscopes⟩
    rw [hsv.1.scopes] at hscopes
    have hkept := T.list.spread (.refl s) hvw hvalues
    refine Runs.spanFrom_bind fun span => Runs.pure ?_
    exact ⟨B.trans hsv.2 hlead, hsv.1.toKeeps.trans hvw, hkept, hall, hscopes⟩
  refine ((Yields.eat _ rfl).after hu.1).bind fun found v hv => ?_
  cases found with
  | false => exact hbind [] v hv.1 nofun
  | true =>
    refine ((Gives.commaList hq env v).after hv.1).bind fun values w hw => ?_
    exact hbind values w hw.1 (T.list.widen hv.1.1 (.refl w) hw.2)

/-! ## Externs -/

theorem declareVariable_ends (name : String) (id : VariableId)
    (hE : ∀ cause : Cause, cause.Local → E ⟨span, cause⟩ t) :
    Runs env t (declareVariable name id span)
      (fun _ u => u = { t with scopes := t.scopes.defineVariable name id }) E := by
  refine Runs.gets_bind ?_
  unfold ScopeStack.declareVariable?
  cases t.scopes.current?.any (·.vars.contains name) with
  | true => exact Runs.fail _ _ (hE _ .intro)
  | false => exact Runs.modify rfl

/-- What declaring one variable has done. -/
def DeclaresOne (B : Course) (s : ParserState) (id : VariableId) (t : ParserState) : Prop :=
  B.Leads s t ∧ s.Keeps t ∧ t.session.vars.HasAll [id] ∧
    t.scopes = s.scopes.bindNamed t.session.vars id

theorem declare_ends (hB : B.Wide) {p : VariableId → Parser α} (hst : B.steady.Leads s t)
    (hspan : B.Spans span)
    (hnext : ∀ id u, DeclaresOne B s id u → Runs env u (p id) Q (B.steady.Refuses s)) :
    Runs env t (do
      let id ← allocVariable v
      declareVariable v.name id span
      p id) Q (B.steady.Refuses s) := by
  refine ((Yields.allocVariable v).after hst).bind ?_
  rintro _ u ⟨hsu, rfl, hu⟩
  have hget : u.session.vars.get? (VariableArena.alloc v t.session.vars).1 = some v := by
    rw [hu]
    exact VariableArena.get?_alloc _ v
  refine (declareVariable_ends v.name _ fun _ => B.steady.wrong_after hsu hspan).bind ?_
  rintro _ _ rfl
  refine hnext _ _ ⟨hB.rescoped_after hsu.2 _, hsu.1.toKeeps.rescoped _, ?_, ?_⟩
  · intro id' hid'
    rw [List.mem_singleton.1 hid']
    exact ⟨v, hget⟩
  · show u.scopes.defineVariable v.name _ = s.scopes.bindNamed u.session.vars _
    unfold ScopeStack.bindNamed
    rw [hsu.1.scopes, VariableArena.nameOf_of_get? hget]

section

variable (hB : B.Wide) (h : B.steady.Spanned p)

include hB h

/-- The head of a function declares one variable, or is refused. -/
theorem prototypeOf_ends (hst : B.steady.Leads s t) :
    Runs env t (prototypeOf p) (fun head => DeclaresOne B s head.function)
      (B.steady.Refuses s) := by
  have htypes := Course.steady_types hB.types
  refine Runs.currentSpan_bind ?_
  refine (Yields.identifier.after hst).bind ?_
  rintro _ _ ⟨hsu, rfl, -, rfl, hname⟩
  generalize t.stream.current.text = name at hname ⊢
  refine (((Yields.expect .leftParen rfl).keep hname).after hsu).bind fun _ v hv => ?_
  refine Runs.gets_bind ?_
  refine (((Spanned.parametersOf htypes h _ {} env v).keep hv.2.2).after hv.1).bind
    fun list w hw => ?_
  refine (((Yields.expect .rightParen rfl).keep hw.2.2).after hw.1).bind fun _ y hy => ?_
  refine Runs.gets_bind ?_
  refine (((Spanned.checkVarargs hy.2.2).keep hy.2.2).after hy.1).bind fun _ z hz => ?_
  -- the function is declared alike whether or not its returns are written
  have hdeclare : ∀ (returns : List TypeId) (a : ParserState), B.steady.Leads s a → Runs env a (do
      let id ← internType (.function list.types returns)
      let function ← allocVariable { name, type := id, span := t.stream.current.span }
      declareVariable name function t.stream.current.span
      return Prototype.mk name function list.parameters returns list.vararg
        ⟨← spanFrom t.stream.current.span, id⟩) (fun head => DeclaresOne B s head.function)
      (B.steady.Refuses s) := by
    intro returns a ha
    refine ((Yields.internType htypes _).after ha).bind fun id b hb => ?_
    refine declare_ends hB hb.1 hname fun function c hc => ?_
    exact Runs.spanFrom_bind fun span => Runs.pure hc
  refine (((Yields.eat .colon rfl).keep hz.2.2).after hz.1).bind fun found a ha => ?_
  cases found with
  | true =>
    refine ((Spanned.returnListOf h env a).after ha.1).bind fun returns b hb => ?_
    exact hdeclare returns b hb.1
  | false =>
    refine Runs.gets_bind ?_
    refine ((Spanned.typelessReturns ha.2.2).after ha.1).bind fun returns b hb => ?_
    exact hdeclare returns b hb.1

/-- An extern has an effect, or is refused. -/
theorem externOf_ends (hs : B.Leads s s) :
    Runs env s (externOf p) (Achieves B T env s) (B.steady.Refuses s) := by
  refine Runs.currentSpan_bind ?_
  refine ((Yields.expect _ rfl).after (Course.steady_refl hs)).bind fun _ t ht => ?_
  refine ((Spanned.atFunction env t).after ht.1).bind fun found u hu => ?_
  cases found with
  | true =>
    refine (prototypeOf_ends hB h hu.1).bind fun head v hv => ?_
    refine Runs.spanFrom_bind fun span => Runs.pure ?_
    exact ⟨hv.1, .externFunction hv.2.1 hv.2.2.1 hv.2.2.2 ht.2.2.1⟩
  | false =>
    refine (Yields.name.after hu.1).bind fun x v hv => ?_
    refine ((Yields.expect _ rfl).after hv.1).bind fun _ w hw => ?_
    refine ((h env w).after hw.1).bind fun id y hy => ?_
    refine declare_ends hB hy.1 hv.2 fun target z hz => ?_
    refine Runs.spanFrom_bind fun span => Runs.pure ?_
    exact ⟨hz.1, .externVariable hz.2.1 hz.2.2.1 hz.2.2.2 ht.2.2.1⟩

end

/-! ## Exports and calls -/

theorem exportAlias_ends {tag : Tag} :
    Runs env t (exportAlias (.typeAlias name tag))
      (fun _ u => u = { t with scopes := t.scopes.exportType name tag.type }) E :=
  Runs.modify rfl

theorem forM_exportVariable_ends (ids : List VariableId) :
    Runs env t (ids.forM exportVariable)
      (fun _ u => u = { t with
        scopes := ids.foldl (.exportNamed t.session.vars) t.scopes }) E := by
  induction ids generalizing t with
  | nil => exact Runs.pure rfl
  | cons id ids ih =>
    have hfirst : Runs env t (exportVariable id) (fun _ u => u = { t with
        scopes := t.scopes.exportNamed t.session.vars id }) E := Runs.modify rfl
    refine hfirst.bind ?_
    rintro _ _ rfl
    exact ih

theorem exportDefinition_ends (hB : B.Wide) {p : Parser Expr} (h : Runs env t p (Defines B s) E)
    (hroot : s.scopes.atRoot = true) (start : Span) : Runs env t (do
      let definition ← p
      exportAlias definition
      return .exportExpr definition (← spanFrom start)) (Achieves B T env s) E := by
  refine h.bind ?_
  rintro _ u ⟨name, tag, rfl, hlead, hkeeps, hscopes, hnew⟩
  refine exportAlias_ends.bind ?_
  rintro _ _ rfl
  refine Runs.spanFrom_bind fun span => Runs.pure ⟨hB.rescoped_after hlead _, ?_⟩
  refine .exportedDefinition (hkeeps.rescoped _) ?_ hnew hroot
  show u.scopes.exportType name tag.type = _
  rw [hscopes]

/-- An export has the effect of what it exports, or is refused. -/
theorem exportOf_ends (hB : B.Wide) {q : Parser Expr} (hp : B.steady.Spanned p) (hq : Gives B T q)
    (hs : B.Leads s s) :
    Runs env s (exportOf p q) (Achieves B T env s) (B.steady.Refuses s) := by
  refine Runs.currentSpan_bind ?_
  refine ((Yields.expect _ rfl).after (Course.steady_refl hs)).bind fun _ t ht => ?_
  refine Runs.gets_bind ?_
  rw [ht.1.1.scopes]
  split
  · next hroot =>
    refine Runs.currentKind_bind ?_
    split
    · exact exportDefinition_ends hB (typeAliasOf_ends hB hp ht.1) hroot _
    · exact exportDefinition_ends hB (interfaceOf_ends hB hp ht.1) hroot _
    · refine (localsOf_ends hB hp hq ht.1).bind ?_
      rintro ⟨targets, values, span⟩ u ⟨hlead, hkeeps, hvalues, hall, hscopes⟩
      refine (forM_exportVariable_ends targets).bind ?_
      rintro _ _ rfl
      refine Runs.spanFrom_bind fun span' => Runs.pure ⟨hB.rescoped_after hlead _, ?_⟩
      refine .exportedLocals (hkeeps.rescoped _) ?_ hall ?_ hroot
      · exact T.list.spread (.refl s) ((ParserState.Keeps.refl u).rescoped _) hvalues
      show targets.foldl (.exportNamed u.session.vars) u.scopes = _
      rw [hscopes]
    · refine Runs.of_error rfl (B.steady.wrong_after ht.1 ?_ .intro)
      exact B.current (B.right ht.1.2)
  · exact Runs.of_error rfl (B.steady.wrong_after ht.1 (B.current hs) .intro)

theorem callOf_ends {p : Parser Expr} (hs : B.Leads s s)
    (h : B.steady.Yields env s p fun e t => T.Has s e t ∧ B.Spans e.span) :
    Runs env s (callOf p) (Achieves B T env s) (B.steady.Refuses s) := by
  refine Runs.bind (h (Course.steady_refl hs)) fun e t ht => ?_
  cases hcall : e.isCall with
  | true =>
    rw [if_pos rfl]
    exact Runs.pure ⟨ht.1.2, .call ht.1.1 hcall ht.2.1⟩
  | false =>
    refine Runs.of_error rfl ?_
    exact B.steady.wrong_after ht.1 ht.2.2 .intro

/-! ## Imports -/

theorem session_of_commaTail {n : Nat} (h : commaTail identifier n env s = (.ok names, t)) :
    t.session = s.session := by
  induction n generalizing s names with
  | zero =>
    cases h
    rfl
  | succ n ih =>
    obtain ⟨found, s₁, heat, h⟩ := bind_eq_ok.1 h
    obtain rfl := eat_eq_ok heat
    cases found with
    | false =>
      cases h
      rfl
    | true =>
      obtain ⟨⟨name, span⟩, s₂, hname, h⟩ := bind_eq_ok.1 h
      obtain ⟨-, -, rfl⟩ := identifier_eq_ok hname
      obtain ⟨rest, s₃, hrest, h⟩ := bind_eq_ok.1 h
      cases h
      exact (ih hrest).trans rfl

theorem session_of_commaList (h : commaList identifier env s = (.ok names, t)) :
    t.session = s.session := by
  obtain ⟨⟨name, span⟩, s₁, hname, h⟩ := bind_eq_ok.1 h
  obtain ⟨-, -, rfl⟩ := identifier_eq_ok hname
  obtain ⟨n, s₂, hfuel, h⟩ := bind_eq_ok.1 h
  cases hfuel
  obtain ⟨rest, s₃, hrest, h⟩ := bind_eq_ok.1 h
  cases h
  exact (session_of_commaTail hrest).trans rfl

/-- What taking the words of an import has done. -/
structure TakesImport (s : ParserState) (token : Token) (t : ParserState) : Prop where
  session : t.session = s.session
  scopes : t.scopes = s.scopes
  /-- The module that is named is the next one after the word `from`. -/
  sources : Token.sources s.stream.words = token.text :: Token.sources t.stream.words
  stream : s.stream.Moves t.stream

/-- The head of an import names one source, the next in the text. -/
theorem importHead_ends (hB : B.Wide) (hs : B.Leads s s) :
    Runs env s importHead (fun x t => TakesImport s x.2 t ∧ B.Leads s t ∧ B.Spans x.2.span ∧
      ∀ y ∈ x.1, B.Spans y.2) (B.steady.Refuses s) := by
  refine ((Yields.expect _ rfl).after (Course.steady_refl hs)).bind ?_
  rintro _ _ ⟨h₁, -, -, rfl, -⟩
  refine ((Yields.expect _ rfl).after h₁).bind ?_
  rintro _ _ ⟨h₂, -, -, rfl, -⟩
  have hlist : B.steady.Yields env s.next.next (commaList identifier) _ :=
    Yields.commaList_forall (fun _ => Yields.name) fun _ _ _ _ h => h
  refine (hlist.after h₂).and_run.bind ?_
  rintro names t ⟨⟨h₃, hspans⟩, hnames⟩
  have hsession : t.session = s.session := (session_of_commaList hnames).trans rfl
  refine ((Yields.expect _ rfl).after h₃).bind ?_
  rintro _ _ ⟨h₄, -, -, rfl, -⟩
  -- the word `from` and the string after it are the first that name a module
  refine ((Runs.expect .kwFrom).imp (fun _ _ h => h) ?_).bind ?_
  · rintro f u ⟨hf, hu⟩
    show B.steady.Fails s f u.session
    rw [hu]
    exact B.steady.fails_of_breaks h₄ hf
  rintro _ _ ⟨-, ⟨hfrom, hnext⟩, rfl⟩
  have hlead : B.Leads s t.next.next := B.trans h₄.2 (hB.taken (B.right h₄.2) hnext)
  have hmoves : s.stream.Moves t.next.next.stream := h₄.1.stream.moves.tail rfl
  refine ((Runs.expect .string).imp (fun _ _ h => h) ?_).bind ?_
  · rintro f u ⟨hf, hu⟩
    show B.steady.Fails s f u.session
    rw [hu]
    refine ⟨hf.elim (fun hf => ?_) fun hf => .here hf.2, B.fails_of_breaks hlead hf⟩
    exact .lexical (hmoves.upcoming_suffix.subset hf)
  rintro _ _ ⟨rfl, ⟨hstring, hnext'⟩, rfl⟩
  have hlast : t.next.next.stream.TakesMany t.next.next.next.stream :=
    .single ⟨by rw [hstring]; decide, rfl⟩
  have hcurrent := B.current (B.right hlead)
  refine Runs.pure ⟨⟨hsession, h₄.1.scopes, ?_, hmoves.trans hlast.moves⟩,
    B.trans hlead (hB.taken (B.right hlead) hnext'), hcurrent, hspans⟩
  rw [hlast.sources_eq, ← h₄.1.stream.sources_eq]
  exact Token.Stream.sources_words hfrom hstring

theorem ImportsAt.takes {token : Token} {path : Path} (h : ImportsAt env s names token path t) :
    TakesImport s token t :=
  ((importHead_ends Course.free_wide .intro).ok h.1).1

/-- The rest of an import that starts at `start`, once its words are taken. -/
def importFrom (start : Span) (names : List (String × Span)) (modulePath : Token) :
    Parser Stmt := do
  match (← asks (·.file)).importPath? modulePath.text with
  | none => fail modulePath.span .badModuleName
  | some path =>
    let source ← loadImport modulePath.text path modulePath.span
    let imported ← names.mapM fun (name, span) => bindImport source name span
    return .imports imported source (← spanFrom start)

theorem importNames_eq : importNames =
    currentSpan >>= fun start => importHead >>= fun x => importFrom start x.1 x.2 := by
  unfold importNames importHead
  simp only [bind_assoc, pure_bind]
  rfl

theorem loadImport_ends (hB : B.Wide) (hload : B.Loads env) {modulePath : Token} {path : Path}
    (himport : ImportsAt env s names modulePath path t) (hst : B.Leads s t)
    (hspan : B.Spans modulePath.span) :
    Runs env t (loadImport modulePath.text path modulePath.span) (fun source u =>
      ∃ text, env.files.key path ∉ s.session.loading ∧ env.files.read path = .ok text ∧
        env.load path text s.session = (some source, u.session) ∧
        u.stream = t.stream ∧ u.scopes = t.scopes ∧ B.Leads s u)
      fun f u => Refused B env s f u.session := by
  have hsession := himport.takes.session
  refine ⟨fun hok => ?_, fun herror => ?_⟩
  · obtain ⟨hloading, text, session, hread, hrun, rfl⟩ := loadImport_eq_ok.1 hok
    have hlead := B.trans hst (hload (B.right hst) hrun)
    rw [hsession] at hloading hrun
    exact ⟨text, by simpa using hloading, hread, hrun, rfl, rfl, hlead⟩
  · unfold loadImport at herror
    rw [hsession] at herror
    dsimp only at herror
    split at herror
    · next hloading =>
      cases herror
      refine .circular himport (List.contains_iff_mem.1 hloading) rfl ?_
      exact B.fails hst (hB.blames (B.right hst) hspan nofun)
    · next hloading =>
      split at herror
      · cases herror
        exact .admitted ⟨.here .intro, B.wrong_after hst hspan .intro⟩
      · next text hread =>
        split at herror
        · cases herror
        · next session hrun =>
          cases herror
          exact .failed himport hspan (by simpa using hloading) hread hrun

section

variable (hE : ∀ (cause : Cause) (span : Span) (t : ParserState), cause.Local → B.Leads s t →
  B.Spans span → E ⟨span, cause⟩ t)

include hE

/-- One name is taken from a module that exports it. -/
theorem bindImport_ends (hB : B.Wide) (hst : B.Leads s t) (source : Module) (name : String)
    (hspan : B.Spans span) :
    Runs env t (bindImport source name span) (fun e u => u.session = t.session ∧
      u.stream = t.stream ∧ t.scopes.TakesFrom source [(name, span)] [e] u.scopes ∧ B.Leads s u)
      E := by
  have hlead := hB.rescoped_after hst
  unfold bindImport
  dsimp only
  cases hvariable : source.block.scope.exportedVariables.find? name with
  | some id => exact Runs.of_ok rfl ⟨rfl, rfl, .takesVariable hvariable .nil, hlead _⟩
  | none =>
    cases htype : source.block.scope.exportedTypes.find? name with
    | some id =>
      refine (defineType_ends name id fun cause hc => hE cause span t hc hst hspan).bind ?_
      rintro _ _ ⟨rfl, hnew⟩
      exact Runs.pure ⟨rfl, rfl, .takesType htype .nil hnew, hlead _⟩
    | none => exact Runs.fail _ _ (hE _ span t .intro hst hspan)

theorem mapM_bindImport_ends (hB : B.Wide) (hst : B.Leads s t) (source : Module)
    (hspans : ∀ y ∈ names, B.Spans y.2) :
    Runs env t (names.mapM fun x => bindImport source x.1 x.2) (fun es u =>
      u.session = t.session ∧ u.stream = t.stream ∧
        t.scopes.TakesFrom source names es u.scopes ∧ B.Leads s u) E := by
  induction names generalizing t with
  | nil => exact Runs.pure ⟨rfl, rfl, .nil, hst⟩
  | cons x names ih =>
    obtain ⟨hx, hspans⟩ := List.forall_mem_cons.1 hspans
    rw [List.mapM_cons]
    refine (bindImport_ends hE hB hst source x.1 hx).bind ?_
    rintro e u ⟨hsession, hstream, htakes, hsu⟩
    refine (ih hsu hspans).bind ?_
    rintro es v ⟨hsession', hstream', htakes', hsv⟩
    exact Runs.pure ⟨hsession'.trans hsession, hstream'.trans hstream, htakes.cons htakes', hsv⟩

end

/-- An import has an effect, or it is refused, perhaps for its module. -/
theorem importNames_ends (hB : B.Wide) (hload : B.Loads env) (hs : B.Leads s s) :
    Runs env s importNames (Achieves B T env s) fun f u => Refused B env s f u.session := by
  rw [importNames_eq]
  refine Runs.currentSpan_bind ?_
  refine ((importHead_ends hB hs).and_run.imp (fun _ _ h => h) fun _ _ => .admitted).bind ?_
  rintro ⟨names, token⟩ t ⟨⟨htaken, hst, hspan, hspans⟩, hhead⟩
  unfold importFrom
  refine Runs.bind (Q := fun file u => file = env.file ∧ u = t) (.of_ok rfl ⟨rfl, rfl⟩) ?_
  rintro _ _ ⟨rfl, rfl⟩
  have hE : ∀ (cause : Cause) (span : Span) (t : ParserState), cause.Local → B.Leads s t →
      B.Spans span → Refused B env s ⟨span, cause⟩ t.session := fun _ _ _ hcause hst hspan =>
    .admitted ⟨.here hcause, B.wrong_after hst hspan hcause⟩
  cases hpath : env.file.importPath? token.text with
  | none => exact Runs.fail _ _ (hE _ _ _ .intro hst hspan)
  | some path =>
    have himport : ImportsAt env s names token path _ := ⟨hhead, hpath⟩
    refine (loadImport_ends hB hload himport hst hspan).bind ?_
    rintro source u ⟨text, hloading, hread, hrun, hstream, hscopes, hsu⟩
    refine (mapM_bindImport_ends hE hB hsu source hspans).bind ?_
    rintro es v ⟨hsession, hstream', htakes, hsv⟩
    refine Runs.spanFrom_bind fun span => Runs.pure ⟨hsv, ?_⟩
    rw [← hsession] at hrun
    rw [hscopes, htaken.scopes] at htakes
    exact .imports himport hloading hread hrun (hstream'.trans hstream) htakes

/-! ## Statements -/

/-- **Every statement that is no block has an effect, or it is refused.** -/
theorem statementOf_ends (hB : B.Wide) (hload : B.Loads env) {room : Nat} (hT : GivesExpr B T room)
    (hs : B.Leads s s) (block : Parser Block) (hkind : s.stream.current.kind ≠ .kwDo) :
    Runs env s (statementOf room block) (Achieves B T env s)
      fun f u => Refused B env s f u.session := by
  have hst := Course.steady_refl hs
  have htype := Spanned.typeWithin (Course.steady_types hB.types) room
  have hown : ∀ {p : Parser Stmt}, Runs env s p (Achieves B T env s) (B.steady.Refuses s) →
      Runs env s p (Achieves B T env s) fun f u => Refused B env s f u.session := fun h =>
    h.imp (fun _ _ h => h) fun _ _ => .admitted
  have hdefinition : ∀ {p : Parser Expr} {start : Span},
      Runs env s p (Defines B s) (B.steady.Refuses s) → Runs env s (do
        let definition ← p
        return .expression definition (← spanFrom start)) (Achieves B T env s)
        (B.steady.Refuses s) := by
    intro p start hp
    refine hp.bind ?_
    rintro _ t ⟨name, tag, rfl, hlead, hkeeps, hscopes, hnew⟩
    exact Runs.spanFrom_bind fun span => Runs.pure ⟨hlead, .definition hkeeps hscopes hnew⟩
  refine Runs.currentSpan_bind (Runs.currentKind_bind ?_)
  split
  · exact hown (hdefinition (typeAliasOf_ends hB htype hst))
  · exact hown (hdefinition (interfaceOf_ends hB htype hst))
  · refine hown ((localsOf_ends hB htype hT.expression hst).bind ?_)
    rintro ⟨targets, values, span⟩ t ⟨hlead, hkeeps, hvalues, hall, hscopes⟩
    exact Runs.pure ⟨hlead, .locals hkeeps hvalues hall hscopes⟩
  · exact importNames_ends hB hload hs
  · exact hown (exportOf_ends hB htype hT.expression hs)
  · exact hown (externOf_ends hB htype hs)
  · next hdo => exact absurd hdo hkind
  · exact hown (callOf_ends hs (hT.primary env s))
  · exact hown (callOf_ends hs (hT.primary env s))
  · exact hown (Runs.of_error rfl (B.steady.wrong_after hst (B.current hs) .intro))

theorem Effect.moves (h : Effect env s m t) : s.stream.Moves t.stream := by
  cases h with
  | definition hkeeps | exportedDefinition hkeeps | locals hkeeps | exportedLocals hkeeps
  | externVariable hkeeps | externFunction hkeeps => exact hkeeps.stream.moves
  | call hst => exact hst.stream.moves
  | imports himport _ _ _ hstream =>
    rw [hstream]
    exact himport.takes.stream

/-- A statement names a source only if it is an import, which loads it. -/
theorem Effect.sources (h : Effect env s m t) :
    Token.sources t.stream.words = Token.sources s.stream.words ∨
      ∃ names token path text source u, ImportsAt env s names token path u ∧
        env.files.key path ∉ s.session.loading ∧ env.files.read path = .ok text ∧
        env.load path text s.session = (some source, t.session) ∧
        Token.sources s.stream.words = token.text :: Token.sources t.stream.words := by
  cases h with
  | definition hkeeps | exportedDefinition hkeeps | locals hkeeps | exportedLocals hkeeps
  | externVariable hkeeps | externFunction hkeeps => exact .inl hkeeps.stream.sources_eq
  | call hst => exact .inl hst.stream.sources_eq
  | @imports names token path text source es span _ u himport hkey hread hrun hstream =>
    refine .inr ⟨names, token, path, text, source, u, himport, hkey, hread, hrun, ?_⟩
    rw [hstream]
    exact himport.takes.sources

theorem Effect.loading_eq (h : Effect env s m t)
    (hload : ∀ path text s, (env.load path text s).2.loading = s.loading) :
    t.session.loading = s.session.loading := by
  cases h with
  | definition hkeeps | exportedDefinition hkeeps | locals hkeeps | exportedLocals hkeeps
  | externVariable hkeeps | externFunction hkeeps => exact hkeeps.loading_eq
  | call hst => exact hst.loading_eq
  | @imports _ _ path text _ _ _ _ _ _ _ _ hrun =>
    have hkept := hload path text s.session
    rw [hrun] at hkept
    exact hkept

end Grammar

end TypedLua
