import TypedLua.Grammar.Statement
import TypedLua.Proofs.Grammar.Expression
import TypedLua.Proofs.Grammar.TypeExpr

/-!
# Grammar.Statement

Reading the parameters of an interface keeps a lawful correspondence, and so does reading the
statements that define no types: declarations of local variables, externs, and calls.

Main statements: `Lawful.localsOf`, `Lawful.externOf` and `agrees_callOf`.
-/

namespace TypedLua.Correspondence

open Text TypedLua.Parser
open Token (Kind)

/-- Parameter lists correspond if they agree but for their ids, which correspond. -/
structure ParameterListRel (r : TypeId → TypeId → Prop) (q : VariableId → VariableId → Prop)
    (a b : Grammar.ParameterList) : Prop where
  parameters : List.Forall₂ q a.parameters b.parameters
  types : List.Forall₂ r a.types b.types
  vararg : Option.Rel q a.vararg b.vararg

/-- Parameter lists correspond if their ids do. -/
def parameterList (C : Correspondence) :
    Link C.World Grammar.ParameterList Grammar.ParameterList where
  rel w := ParameterListRel (C.types.rel w) (C.vars.rel w)
  mono hwv _ _ h :=
    ⟨C.vars.list.mono hwv h.parameters, C.types.list.mono hwv h.types,
      C.vars.option.mono hwv h.vararg⟩

variable {p q : Parser TypeId}

namespace Lawful

variable {C : Correspondence} {w : C.World} {k : Option Kind} {α β : Type} {R : Link C.World α β}
  (hC : C.Lawful)

include hC

/-! ## Parameters of interfaces -/

theorem parametersFrom (hparametric : C.parametric) (n : Nat) {a b : Scope} (hab : C.scope.rel w a b) :
    C.Agrees w (C.scope.pair C.types.list)
      (Grammar.parametersFrom n a) (Grammar.parametersFrom n b) := by
  induction n generalizing w a b with
  | zero => exact .pure ⟨hab, .nil⟩
  | succ n ih =>
    refine hC.identifier_bind fun name _ _ hname => ?_
    show C.Agrees w _ (if a.types.contains name then _ else _)
      (if b.types.contains name then _ else _)
    rw [Bindings.contains_eq (R := C.types) hab.types name]
    split
    · exact .fail hname _
    · refine (hC.internType (.generic name) hparametric).bind fun v x y hle hxy => ?_
      have hab := Scope.rel_insertType (C.scope.mono hle hab) name hxy
      refine hC.eat_bind .comma (by decide) ((ih hab).bind ?_) (.pure ⟨hab, .cons hxy .nil⟩)
      rintro v₁ ⟨a', xs⟩ ⟨b', ys⟩ hle₁ ⟨hab', hxys⟩
      exact .pure ⟨hab', .cons (C.types.mono hle₁ hxy) hxys⟩

theorem parameters (hparametric : C.parametric) :
    C.Agrees w (C.scope.pair C.types.list) Grammar.parameters Grammar.parameters := by
  refine hC.eat_bind .less (by decide) (hC.fuel_bind fun n => ?_) (.pure ⟨Scope.rel_empty, .nil⟩)
  refine (hC.parametersFrom hparametric n Scope.rel_empty).bind fun v a b _ hab => ?_
  exact hC.expect_bind .greater (by decide) fun _ _ _ => .pure hab

/-! ## Local variables -/

theorem declaredTypeOf (h : ∀ w, C.Agrees w C.types p q) :
    C.Agrees w C.types (Grammar.declaredTypeOf p) (Grammar.declaredTypeOf q) :=
  hC.eat_bind .colon (by decide) (h w) (.of_state fun _ _ hst => .pure (hC.any hst))

theorem variableOf (h : ∀ w, C.Agrees w C.types p q) :
    C.Agrees w C.declared (Grammar.variableOf p) (Grammar.variableOf q) :=
  hC.identifier_bind fun _ _ _ hname => (hC.declaredTypeOf h).bind fun _ _ _ _ hxy =>
    .pure ⟨rfl, hxy, hname, rfl⟩

theorem definedVariable (name : String) {x y : VariableId} (hxy : C.vars.rel w x y)
    {s t : ParserState} (hst : C.state w s t) :
    C.state w { s with scopes := s.scopes.defineVariable name x }
      { t with scopes := t.scopes.defineVariable name y } := by
  refine hC.modified hst (fun _ => rfl) (fun _ => rfl) fun a b hab => ?_
  exact { hab with vars := Bindings.rel_insert (R := C.vars) hab.vars name hxy }

/-- Variables that correspond are bound alike. -/
theorem bindVariable {a b : Variable} (hab : C.declared.rel w a b) :
    C.Agrees w C.vars (Grammar.bindVariable a) (Grammar.bindVariable b) := by
  refine (hC.allocVariable hab).bind fun v x y _ hxy => ?_
  rw [hab.name]
  exact .modify_bind (fun _ _ hst => hC.definedVariable b.name hxy hst) (.pure hxy)

/-- Declarations of locals correspond if types and values do. -/
theorem localsOf {p' q' : Parser Expr} (h : ∀ w, C.Agrees w C.types p q)
    (h' : ∀ w, C.Agrees w C.expr p' q') :
    C.Agrees w (C.vars.list.pair (C.expr.list.pair C.spans)) (Grammar.localsOf p p')
      (Grammar.localsOf q q') := by
  refine hC.currentSpan_bind fun start start' hab => ?_
  refine hC.expect_bind .kwLocal (by decide) fun _ _ _ => ?_
  refine (hC.commaList fun u => hC.variableOf (w := u) h).bind fun v as bs _ habs => ?_
  have hbind : ∀ u es ds, v ≤ u → C.expr.list.rel u es ds →
      C.Agrees u (C.vars.list.pair (C.expr.list.pair C.spans))
        (do
          let targets ← as.mapM Grammar.bindVariable
          return (targets, es, ← Parser.spanFrom start))
        (do
          let targets ← bs.mapM Grammar.bindVariable
          return (targets, ds, ← Parser.spanFrom start')) := by
    intro u es ds hle heds
    refine (AgreesAt.mapM (C.declared.list.mono hle habs) fun _ _ _ h => hC.bindVariable h).bind
      fun v₁ xs ys hle₁ hxys => ?_
    exact hC.spanFrom_bind hab fun _ _ hab => .pure ⟨hxys, C.expr.list.mono hle₁ heds, hab⟩
  exact hC.eat_bind .equals (by decide) ((hC.commaList h').bind hbind) (hbind v [] [] (le_refl v) .nil)

theorem forM_exportVariable {xs ys : List VariableId} (hxys : C.vars.list.rel w xs ys) :
    C.Agrees w .same (xs.forM Grammar.exportVariable) (ys.forM Grammar.exportVariable) := by
  change List.Forall₂ _ xs ys at hxys
  induction hxys with
  | nil => exact .pure rfl
  | @cons x y _ _ hxy _ ih =>
    refine .modify_bind (fun s t hst => ?_) ih
    rw [hC.nameOf hst hxy]
    refine hC.modified hst (fun _ => rfl) (fun _ => rfl) fun a b hab => ?_
    exact { hab with
      exportedVariables := Bindings.rel_insert (R := C.vars) hab.exportedVariables _ hxy }

/-! ## Externs -/

theorem parameterOf (h : ∀ w, C.Agrees w C.types p q) {a b : Grammar.ParameterList}
    (hab : C.parameterList.rel w a b) :
    C.Agrees w C.parameterList (Grammar.parameterOf p a) (Grammar.parameterOf q b) := by
  refine hC.check_bind .ellipsis ?_ ?_
  · refine hC.currentSpan_bind fun _ _ hspan => hC.advance_bind (hC.passes (by decide)) ?_
    refine (hC.declaredTypeOf h).bind fun v x y hle hxy => ?_
    refine (hC.internType (.vararg hxy) .intro).bind fun v₁ x' y' hle₁ hxy' => ?_
    refine (hC.allocVariable (Variable.rel_mk "..." true hspan hxy')).bind fun v₂ i j hle₂ hij => ?_
    have hab := C.parameterList.mono (le_trans hle (le_trans hle₁ hle₂)) hab
    exact .pure ⟨hab.parameters, List.rel_append hab.types (.cons (C.types.mono hle₂ hxy') .nil),
      .some hij⟩
  · refine (hC.variableOf h).bind fun v x y hle hxy => ?_
    refine (hC.allocVariable hxy).bind fun v₁ i j hle₁ hij => ?_
    have hab := C.parameterList.mono (le_trans hle hle₁) hab
    have htype := C.types.mono hle₁ hxy.type
    exact .pure ⟨List.rel_append hab.parameters (.cons hij .nil),
      List.rel_append hab.types (.cons htype .nil), hab.vararg⟩

theorem parametersOf (h : ∀ w, C.Agrees w C.types p q) (n : Nat) {a b : Grammar.ParameterList}
    (hab : C.parameterList.rel w a b) :
    C.Agrees w C.parameterList (Grammar.parametersOf p n a) (Grammar.parametersOf q n b) := by
  induction n generalizing w a b with
  | zero => exact .pure hab
  | succ n ih =>
    refine hC.check_bind .rightParen (.pure hab) ?_
    have hvararg : a.vararg.isSome = b.vararg.isSome := by
      have hrel := hab.vararg
      generalize a.vararg = x, b.vararg = y at hrel ⊢
      cases hrel <;> rfl
    show C.Agrees w _ (if a.vararg.isSome then _ else _) (if b.vararg.isSome then _ else _)
    rw [hvararg]
    split
    · exact hC.currentSpan_bind fun _ _ hspan => .fail hspan _
    · refine (hC.parameterOf h hab).bind fun v a' b' _ hab' => ?_
      exact hC.eat_bind .comma (by decide) (ih hab') (.pure hab')

theorem declareVariable_bind (name : String) {x y : VariableId} (hxy : C.vars.rel w x y)
    {a b : Span} (hab : C.regard.place a b) {p : Unit → Parser α} {q : Unit → Parser β}
    (h : C.Agrees w R (p ()) (q ())) :
    C.Agrees w R (Parser.declareVariable name x a >>= p) (Parser.declareVariable name y b >>= q) := by
  intro env env' henv s t hst _
  have hcontains : s.scopes.current?.any (·.vars.contains name) =
      t.scopes.current?.any (·.vars.contains name) :=
    ScopeStack.current?_any_eq (hC.scopes hst)
      fun _ _ h => Bindings.contains_eq (R := C.vars) h.vars name
  simp only [Parser.declareVariable, Parser.bind_apply, gets, ScopeStack.declareVariable?, hcontains]
  cases t.scopes.current?.any (·.vars.contains name) with
  | true => exact fun _ => ⟨w, le_refl w, .error _ hab, hst⟩
  | false => exact h.meet henv (hC.definedVariable name hxy hst)

theorem declared_bind (name : String) {x y : TypeId} (hxy : C.types.rel w x y) {a b : Span}
    (hab : C.regard.place a b) {p : VariableId → Parser α} {q : VariableId → Parser β}
    (h : ∀ v i j, w ≤ v → C.vars.rel v i j → C.Agrees v R (p i) (q j)) :
    C.Agrees w R
      (do
        let id ← Parser.allocVariable { name, type := x, span := a }
        Parser.declareVariable name id a
        p id)
      (do
        let id ← Parser.allocVariable { name, type := y, span := b }
        Parser.declareVariable name id b
        q id) :=
  (hC.allocVariable (Variable.rel_mk name false hab hxy)).bind fun v i j hle hij =>
    hC.declareVariable_bind name hij hab (h v i j hle hij)

/-- Heads of functions correspond if types do. -/
theorem prototypeOf (h : ∀ w, C.Agrees w C.types p q) :
    C.Agrees w C.prototype (Grammar.prototypeOf p) (Grammar.prototypeOf q) := by
  refine hC.currentSpan_bind fun start start' hstart => ?_
  refine hC.identifier_bind fun name nameSpan nameSpan' hname => ?_
  refine hC.expect_bind .leftParen (by decide) fun _ _ _ => hC.fuel_bind fun n => ?_
  refine (hC.parametersOf h n (a := {}) (b := {}) ⟨.nil, .nil, .none⟩).bind fun v a b _ hab => ?_
  refine hC.expect_bind .rightParen (by decide) fun _ _ _ => ?_
  refine hC.spanFrom_bind hstart fun _ _ hspan => ?_
  refine hC.checkVarargs_bind hab.types hspan fun hordered => ?_
  -- the end is the same whether or not a return type is written
  have hend : ∀ u us vs, v ≤ u → C.returns.rel u us vs →
      C.Agrees u C.prototype
        (do
          let id ← Parser.internType (.function a.types us)
          let function ← Parser.allocVariable { name, type := id, span := nameSpan }
          Parser.declareVariable name function nameSpan
          return ⟨name, function, a.parameters, us, a.vararg, ⟨← Parser.spanFrom start, id⟩⟩)
        (do
          let id ← Parser.internType (.function b.types vs)
          let function ← Parser.allocVariable { name, type := id, span := nameSpan' }
          Parser.declareVariable name function nameSpan'
          return ⟨name, function, b.parameters, vs, b.vararg, ⟨← Parser.spanFrom start', id⟩⟩) := by
    intro u us vs hle hus
    have hab := C.parameterList.mono hle hab
    refine (hC.internFunction ⟨hab.types, C.ordered_mono hle hordered⟩ hus).bind
      fun u₁ x y hle₁ hxy => ?_
    refine hC.declared_bind name hxy.1 hname fun u₂ i j hle₂ hij => ?_
    refine hC.spanFrom_bind hstart fun _ _ hspan => .pure ?_
    have hlater := le_trans hle₁ hle₂
    have hab := C.parameterList.mono hlater hab
    exact ⟨rfl, hij, hab.parameters, C.types.list.mono hlater hus.1.1, hab.vararg, hspan,
      C.types.mono hle₂ hxy.1⟩
  refine hC.eat_bind .colon (by decide) ((hC.returnListOf h).bind hend) ?_
  exact hC.spanFrom_bind hstart fun _ _ hspan => (hC.typelessReturns hspan).bind hend

/-- So do externs. -/
theorem externOf (h : ∀ w, C.Agrees w C.types p q) :
    C.Agrees w C.stmt (Grammar.externOf p) (Grammar.externOf q) := by
  refine hC.currentSpan_bind fun start start' hstart => ?_
  refine hC.expect_bind .kwExtern (by decide) fun _ _ _ => ?_
  have hfunction : C.Agrees w C.stmt
      (Grammar.prototypeOf p >>= fun head => do return .externFunction head (← spanFrom start))
      (Grammar.prototypeOf q >>= fun head => do return .externFunction head (← spanFrom start')) :=
    (hC.prototypeOf h).bind fun _ _ _ _ hab => hC.spanFrom_bind hstart fun _ _ hspan =>
      .pure (.externFunction hspan hab)
  unfold Grammar.atFunction
  rw [bind_assoc, bind_assoc]
  refine hC.eat_bind .kwFunction (by decide) hfunction ?_
  simp only [Bool.false_eq_true, if_false, bind_assoc, pure_bind]
  refine hC.peekKind_bind 1 fun kind => ?_
  split
  · exact hfunction
  · refine hC.identifier_bind fun name _ _ hname => hC.expect_bind .colon (by decide) fun _ _ _ => ?_
    refine (h w).bind fun v x y _ hxy => hC.declared_bind name hxy hname fun v₁ i j _ hij => ?_
    exact hC.spanFrom_bind hstart fun _ _ hspan => .pure (.externVariable hspan hij)

end Lawful

/-! ## Calls -/

/-- Calls correspond if expressions do. -/
theorem agrees_callOf {C : Correspondence} {w : C.World} {p q : Parser Expr}
    (h : ∀ w, C.Agrees w C.expr p q) :
    C.Agrees w C.stmt (Grammar.callOf p) (Grammar.callOf q) := by
  refine (h w).bind fun v e d _ hed => ?_
  rw [Expr.Agree.isCall_eq hed]
  split
  · exact .pure (.expression hed.span hed)
  · exact .fail hed.span _

end TypedLua.Correspondence
