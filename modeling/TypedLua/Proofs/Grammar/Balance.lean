import TypedLua.Proofs.Grammar.Steps

/-!
# Grammar.Balance

Readers put right what they change.  However reading ends, as many constructs and scopes are open as
before, and no scope but the innermost has changed; on the way constructs are neither closed that
were open before nor opened beyond the limit.

Main statement: `reading_balanced`.
-/

namespace TypedLua

open Text
open Token (Kind)

namespace Parser

namespace Made

set_option synthInstance.maxSize 2048

variable {b d : Bool} {room n : Nat}

/-! ## Types -/

section

variable {p : Parser TypeId} [h : Made true b d p]

instance typeListOf : Made true b d (Grammar.typeListOf p) := seq

instance groupOf : Made true b d (Grammar.groupOf p) := seq

instance propertyOf : Made true b d (Grammar.propertyOf p) := andThen fun _ => seq

instance namedTypeOf : Made true b d (Grammar.namedTypeOf p) := by
  refine andThen fun start => andThen fun x => andThen fun scopes => ?_
  split
  · infer_instance
  · refine andThen fun found => ?_
    split
    · refine andThen fun _ => andThen fun _ => andThen fun _ => andThen fun types => ?_
      rcases types.get? _ with _ | ⟨_ | _ | _ | _ | _ | _ | ⟨_, _ | _, _⟩⟩ <;> infer_instance
    · infer_instance

instance tableTypeOf : Made true b d (Grammar.tableTypeOf p) := seq

instance functionFrom (start : Span) (ids : List TypeId) :
    Made true b d (Grammar.functionFrom p n start ids) := by
  induction n generalizing start ids with
  | zero => exact seq
  | succ n ih =>
    refine andThen fun found => ?_
    dsimp only
    infer_instance

instance functionTypeOf : Made true b d (Grammar.functionTypeOf p) := seq

end

instance required {p : Parser (Option TypeId)} [h : Made true b d p] :
    Made true b d (Grammar.required p) := by
  refine .bind h fun found => ?_
  split <;> infer_instance

instance baseTypeOf {p : Parser (Option TypeId)} [h : Made true b d p] :
    Made true b d (Grammar.baseTypeOf p) := by
  refine andThen fun k => ?_
  split <;> infer_instance

instance arraySuffixes (id : TypeId) : Made true b true (Grammar.arraySuffixes room id) := by
  induction room generalizing id with
  | zero => exact seq
  | succ room ih => exact seq

instance tryTypeWithin : Made true b d (Grammar.tryTypeWithin room) := by
  induction room generalizing d with
  | zero => exact seq
  | succ room ih => exact seq

instance typeWithin : Made true b d (Grammar.typeWithin room) := by
  unfold Grammar.typeWithin
  infer_instance

/-! ## Expressions -/

instance resolve {name : String} {span : Span} : Made true b d (Grammar.resolve name span) := by
  refine andThen fun scopes => ?_
  split
  · infer_instance
  · split <;> infer_instance

section

variable {p : Parser Expr} [h : Made true b d p]

instance operandOf : Made true b d (Grammar.operandOf p) := by
  refine andThen fun k => ?_
  split
  · infer_instance
  · exact andThen fun x => (inferInstance : Made _ _ _ (Grammar.resolve x.1 x.2))
  · infer_instance

instance argumentsOf : Made true b d (Grammar.argumentsOf p) := seq

instance suffixOf {e : Expr} {start : Span} : Made true b d (Grammar.suffixOf p e start) := by
  refine andThen fun k => ?_
  split <;> infer_instance

instance entryOf : Made true b d (Grammar.entryOf p) := by
  refine andThen fun found => ?_
  split
  · exact andThen fun _ => andThen fun _ => seq
  · exact h

instance constructorOf : Made true b d (Grammar.constructorOf p) := seq

instance numberLiteral : Made true b d Grammar.numberLiteral := seq

instance formOf {q : Parser Expr} [hq : Made true b d q] : Made true b d (Grammar.formOf p q) := by
  refine andThen fun span => andThen fun k => ?_
  split <;> infer_instance

end

theorem expressionWithin_and_suffixesWithin (room : Nat) :
    (∀ d, Made true b d (Grammar.expressionWithin room)) ∧
    ∀ e start, Made true b true (Grammar.suffixesWithin room e start) := by
  induction room with
  | zero =>
    refine ⟨fun d => ?_, fun e start => ?_⟩
    · unfold Grammar.expressionWithin
      infer_instance
    · unfold Grammar.suffixesWithin
      infer_instance
  | succ room ih =>
    obtain ⟨hexpr, hsuffixes⟩ := ih
    refine ⟨fun d => ?_, fun e start => ?_⟩
    · unfold Grammar.expressionWithin Grammar.primaryOf
      infer_instance
    · unfold Grammar.suffixesWithin
      infer_instance

instance expressionWithin : Made true b d (Grammar.expressionWithin room) :=
  (expressionWithin_and_suffixesWithin room).1 d

instance primaryWithin : Made true b d (Grammar.primaryWithin room) := by
  have hsuffixes := (expressionWithin_and_suffixesWithin (b := b) room).2
  exact seq

/-! ## Statements -/

section

variable {p : Parser TypeId} [h : ∀ b, Made true b d p]

instance typeAliasOf : Made true true d (Grammar.typeAliasOf p) :=
  andThen fun _ => andThen fun _ => andThen fun _ => seq

instance parametersFrom (scope : Scope) : Made true b d (Grammar.parametersFrom n scope) := by
  induction n generalizing scope with
  | zero => exact .step (.pure _)
  | succ n ih =>
    refine andThen fun x => ?_
    dsimp only
    split
    · infer_instance
    · refine andThen fun id => andThen fun found => ?_
      split
      · exact .bind (ih _) fun _ => .step (.pure _)
      · infer_instance

instance parameters : Made true b d Grammar.parameters := seq

instance interfaceOf : Made true true d (Grammar.interfaceOf p) := by
  refine andThen fun start => andThen fun _ => andThen fun _ => andThen fun _ => ?_
  exact andThen fun _ => andThen fun _ => seq

instance declaredTypeOf : Made true b d (Grammar.declaredTypeOf p) := seq

instance variableOf : Made true b d (Grammar.variableOf p) := andThen fun _ => seq

instance localsOf {q : Parser Expr} [hq : Made true true d q] :
    Made true true d (Grammar.localsOf p q) := by
  unfold Grammar.localsOf
  dsimp only
  infer_instance

instance parameterOf {list : Grammar.ParameterList} :
    Made true b d (Grammar.parameterOf p list) := seq

instance parametersOf (list : Grammar.ParameterList) :
    Made true b d (Grammar.parametersOf p n list) := by
  induction n generalizing list with
  | zero => exact .step (.pure list)
  | succ n ih => exact seq

instance returnListOf : Made true b d (Grammar.returnListOf p) := seq

instance prototypeOf : Made true true d (Grammar.prototypeOf p) := by
  refine andThen fun start => andThen fun x => ?_
  dsimp only
  infer_instance

instance atFunction : Made true b d Grammar.atFunction := seq

instance externOf : Made true true d (Grammar.externOf p) := by
  refine andThen fun _ => andThen fun _ => andThen fun found => ?_
  split
  · infer_instance
  · exact andThen fun _ => seq

instance exportOf {q : Parser Expr} [hq : Made true true d q] :
    Made true true d (Grammar.exportOf p q) := by
  refine andThen fun _ => andThen fun _ => andThen fun scopes => ?_
  split
  · refine andThen fun k => ?_
    split
    · infer_instance
    · infer_instance
    · exact andThen fun _ => seq
    · infer_instance
  · infer_instance

end

instance importNames : Made true true d Grammar.importNames := by
  refine andThen fun start => andThen fun _ => andThen fun _ => ?_
  refine andThen fun names => andThen fun _ => andThen fun _ => ?_
  refine andThen fun path => andThen fun file => ?_
  split
  · infer_instance
  · exact andThen fun source => .bind (bindImports source names) fun _ => seq

instance statementsOf {p : Parser Stmt} [h : Made true true d p] {close : Kind} :
    Made true true d (Grammar.statementsOf p close n) := by
  induction n with
  | zero => exact .step (.pure [])
  | succ n ih => exact seq

instance blockOf {p : Parser Stmt} [h : Made true true d p] {scope : Scope} {close : Kind} :
    Made true b d (Grammar.blockOf scope p close) := by
  refine andThen fun start => andThen fun x => ?_
  dsimp only
  infer_instance

instance doBlockOf {p : Parser Block} [h : Made true true d p] :
    Made true true d (Grammar.doBlockOf p) := seq

instance callOf {p : Parser Expr} [h : Made true true d p] :
    Made true true d (Grammar.callOf p) := seq

instance statementOf {p : Parser Block} [h : Made true true d p] :
    Made true true d (Grammar.statementOf room p) := by
  refine andThen fun _ => andThen fun k => ?_
  split <;> infer_instance

theorem statementWithin_and_blockWithin (room : Nat) :
    (∀ d, Made true true d (Grammar.statementWithin room)) ∧
      ∀ b d close, Made true b d (Grammar.blockWithin room close) := by
  induction room with
  | zero =>
    refine ⟨fun d => ?_, fun b d close => ?_⟩
    · unfold Grammar.statementWithin
      infer_instance
    · unfold Grammar.blockWithin
      infer_instance
  | succ room ih =>
    obtain ⟨hstatement, hblock⟩ := ih
    refine ⟨fun d => ?_, fun b d close => ?_⟩
    · unfold Grammar.statementWithin
      infer_instance
    · unfold Grammar.blockWithin
      infer_instance

instance statementWithin : Made true true d (Grammar.statementWithin room) :=
  (statementWithin_and_blockWithin room).1 d

instance blockWithin {close : Kind} : Made true b d (Grammar.blockWithin room close) :=
  (statementWithin_and_blockWithin room).2 b d close

end Made

/-! ## On the way -/

/-- The run is made of steps, and the property holds of the states before and after each of them, as
well as before and after something is put right. -/
inductive Always (P : ParserState → Prop) (env : ParserEnv) :
    {α : Type} → ParserState → Parser α → Prop
  | step {t b d : Bool} {α : Type} {s : ParserState} {p : Parser α} : Step t b d p → P s →
    P (p env s).2 → Always P env s p
  | bind {α β : Type} {s : ParserState} {p : Parser α} {q : α → Parser β} : Always P env s p →
    (∀ a u, p env s = (.ok a, u) → Always P env u (q a)) → Always P env s (p >>= q)
  | restoring {α : Type} {s : ParserState} {p : Parser α}
    {restore : ParserState → ParserState → ParserState} : Always P env s p →
    P (restoring p restore env s).2 → Always P env s (restoring p restore)
  | withScope {α : Type} {s : ParserState} {p : Parser α} {scope : Scope} : P s →
    Always P env { s with scopes := s.scopes.push scope } p → P (withScope scope p env s).2 →
    Always P env s (withScope scope p)

variable {t b d : Bool} {α : Type} {p : Parser α} {env : ParserEnv} {s : ParserState}

theorem Made.always (h : Made t b d p) {n : Nat} (hn : n ≤ s.depth) (hs : s.depth ≤ nestingLimit) :
    Always (fun u => n ≤ u.depth ∧ u.depth ≤ nestingLimit) env s p := by
  have hend : ∀ {α : Type} {p : Parser α} {b d : Bool} {s : ParserState}, Made t b d p →
      n ≤ s.depth → s.depth ≤ nestingLimit →
      n ≤ (p env s).2.depth ∧ (p env s).2.depth ≤ nestingLimit := fun h hn hs =>
    ⟨Nat.le_trans hn (h.leaves env _).least, (h.leaves env _).most hs⟩
  induction h generalizing s with
  | step h => exact .step h ⟨hn, hs⟩ (hend (.step h) hn hs)
  | bind h _ ih ih' =>
    refine .bind (ih hn hs) fun a u hrun => ?_
    have hu := hend h hn hs
    rw [hrun] at hu
    exact ih' a hu.1 hu.2
  | @nested b d α p construct h ih =>
    have hstep : Step t b true (Parser.deepen construct) := .deepen construct rfl
    refine .bind (.step hstep ⟨hn, hs⟩ (hend (.step hstep) hn hs)) fun a u hrun => ?_
    have hu := hend (.step hstep) hn hs
    rw [hrun] at hu
    refine .restoring (ih hu.1 hu.2) ?_
    have hnested := hend (.nested construct h : Made t b d _) hn hs
    unfold Parser.nested at hnested
    rw [bind_apply, hrun] at hnested
    exact hnested
  | chain h ih => exact .restoring (ih hn hs) (hend (.chain h : Made t _ false _) hn hs)
  | withScope scope h ih =>
    exact .withScope ⟨hn, hs⟩ (ih hn hs) (hend (.withScope scope h : Made t false _ _) hn hs)

/-- However the run ends, it puts right what it changes: as many constructs and scopes are open as
before, and the scopes around the innermost one are the same, as is that one unless names may be
bound.  On the way, no construct is closed that was open before, and not too many are opened. -/
structure Balanced (binds : Bool) (env : ParserEnv) (s : ParserState) (p : Parser α) : Prop where
  depth : (p env s).2.depth = s.depth
  opened : (p env s).2.scopes.depth = s.scopes.depth
  outer : (p env s).2.scopes.scopes.tail = s.scopes.scopes.tail
  scopes : binds = false → (p env s).2.scopes = s.scopes
  between : Always (fun u => s.depth ≤ u.depth ∧ u.depth ≤ nestingLimit) env s p

theorem Made.balanced (h : Made true b false p) (hs : s.depth ≤ nestingLimit) :
    Balanced b env s p :=
  have hleaves := h.leaves env s
  ⟨hleaves.depth rfl, hleaves.opened, hleaves.outer, hleaves.scopes, h.always (Nat.le_refl _) hs⟩

end Parser

open TypedLua.Parser (Balanced Made)

/-- **Reading puts right what it changes**, whether it ends with a value or with a fault. -/
theorem reading_balanced (env : ParserEnv) (s : ParserState) (close : Kind)
    (h : s.depth ≤ nestingLimit) :
    Balanced false env s Grammar.expression ∧ Balanced false env s Grammar.type ∧
      Balanced false env s (Grammar.block close) ∧ Balanced true env s Grammar.statement ∧
      Balanced true env s Grammar.typeAlias ∧ Balanced true env s Grammar.interface ∧
      Balanced true env s Grammar.locals ∧ Balanced true env s Grammar.prototype ∧
      Balanced true env s Grammar.importNames ∧ Balanced true env s Grammar.exported := by
  have hlocals : Made true true false Grammar.locals :=
    .andThen fun _ => .andThen fun _ => .step (.pure _)
  exact ⟨Made.balanced .seq h, Made.balanced .seq h, Made.balanced .seq h, Made.balanced .seq h,
    Made.balanced .seq h, Made.balanced .seq h, hlocals.balanced h, Made.balanced .seq h,
    Made.balanced inferInstance h, Made.balanced .seq h⟩

/-- A block in which a type is defined, and a local variable whose value is nested too deep. -/
theorem reading_balanced_deep :
    let env : ParserEnv := ⟨⟨"/", []⟩, .ofPath ⟨"main.lua"⟩ "", fun _ _ => Pure.pure none⟩
    let ahead : List Kind := [.kwType, .identifier, .equals, .kwNil, .kwLocal, .identifier, .equals,
      .kwNil, .kwEnd]
    let s : ParserState :=
      { stream := ⟨⟨.kwDo, "do", default⟩, {}, ahead.map fun k => .ok ⟨k, "x", default⟩⟩,
        scopes := ⟨[{}, Grammar.rootScope]⟩, session := {}, depth := 61 }
    s.depth ≤ nestingLimit ∧ (Grammar.statement env s).1.isOk = false ∧
      (Grammar.statement env { s with depth := 60 }).1.isOk = true ∧
      Balanced true env s Grammar.statement ∧ Balanced false env s (Grammar.block .kwEnd) := by
  intro env ahead s
  obtain ⟨-, -, hblock, hstatement, -⟩ := reading_balanced env s .kwEnd (by decide)
  exact ⟨by decide, by decide +kernel, by decide +kernel, hstatement, hblock⟩

end TypedLua
