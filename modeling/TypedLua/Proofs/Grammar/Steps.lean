import TypedLua.Grammar.Module

/-!
# Grammar.Steps

What readers are made of.  A reader is made of steps that take a token, bind a name, open a
construct or do none of this; some of it is done inside constructs and scopes that are closed again.
How a reader is made tells what a run leaves of a state, whether or not it fails.

Main statement: `Made.leaves`.
-/

namespace TypedLua

open Text
open Token (Kind)

/-! ## What is left of a state -/

/-- What a run that comes from one state to another leaves of the first, unless it may take words,
bind names or leave constructs open. -/
structure ParserState.Leaves (takes binds opens : Bool) (s t : ParserState) : Prop where
  words : takes = false → t.stream = s.stream ∧ t.lastEnd = s.lastEnd
  opened : t.scopes.depth = s.scopes.depth
  /-- The scopes around the innermost one are the same. -/
  outer : t.scopes.scopes.tail = s.scopes.scopes.tail
  scopes : binds = false → t.scopes = s.scopes
  least : s.depth ≤ t.depth
  most : s.depth ≤ nestingLimit → t.depth ≤ nestingLimit
  depth : opens = false → t.depth = s.depth

namespace ParserState.Leaves

variable {t b d : Bool} {s u v : ParserState}

theorem trans (h : s.Leaves t b d u) (h' : u.Leaves t b d v) : s.Leaves t b d v where
  words ht := ⟨(h'.words ht).1.trans (h.words ht).1, (h'.words ht).2.trans (h.words ht).2⟩
  opened := h'.opened.trans h.opened
  outer := h'.outer.trans h.outer
  scopes hb := (h'.scopes hb).trans (h.scopes hb)
  least := Nat.le_trans h.least h'.least
  most hs := h'.most (h.most hs)
  depth hd := (h'.depth hd).trans (h.depth hd)

theorem still (session : Session) : s.Leaves t b d { s with session } :=
  ⟨fun _ => ⟨rfl, rfl⟩, rfl, rfl, fun _ => rfl, Nat.le_refl _, id, fun _ => rfl⟩

theorem bound (hb : b = true) (f : Scope → Scope) :
    s.Leaves t b d { s with scopes := s.scopes.modifyCurrent f } := by
  have hscopes : ∀ a : ScopeStack, (a.modifyCurrent f).depth = a.depth ∧
      (a.modifyCurrent f).scopes.tail = a.scopes.tail := by
    rintro ⟨_ | ⟨scope, rest⟩⟩ <;> exact ⟨rfl, rfl⟩
  refine ⟨fun _ => ⟨rfl, rfl⟩, (hscopes _).1, (hscopes _).2, fun hfalse => ?_, Nat.le_refl _, id,
    fun _ => rfl⟩
  cases hb.symm.trans hfalse

end ParserState.Leaves

namespace Parser

/-! ## Steps -/

/-- The steps that readers are made of, if they may take words, bind names and open constructs. -/
inductive Step (takes binds opens : Bool) : {α : Type} → Parser α → Prop
  | pure {α : Type} (a : α) : Step takes binds opens (Pure.pure a)
  | fail {α : Type} (span : Span) (cause : Cause) :
    Step takes binds opens (@Parser.fail α span cause)
  | ofExcept {α : Type} (r : Except Fault α) : Step takes binds opens (ofExcept r)
  | gets {α : Type} (f : ParserState → α) : Step takes binds opens (gets f)
  | asks {α : Type} (f : ParserEnv → α) : Step takes binds opens (asks f)
  | internType (shape : Shape) : Step takes binds opens (internType shape)
  | allocVariable (v : Variable) : Step takes binds opens (allocVariable v)
  | instanceOf (name : String) (id : TypeId) (wanted : Nat) (arguments : List TypeId)
    (span : Span) :
    Step takes binds opens (Grammar.namedTypeOf.instanceOf name id wanted arguments span)
  | loadImport (modulePath : String) (path : Path) (span : Span) :
    Step takes binds opens (Grammar.loadImport modulePath path span)
  | advance : takes = true → Step takes binds opens advance
  | modify (f : ParserState → Scope → Scope) : binds = true →
    Step takes binds opens (modify fun s => { s with scopes := s.scopes.modifyCurrent (f s) })
  | defineType (name : String) (id : TypeId) (span : Span) : binds = true →
    Step takes binds opens (defineType name id span)
  | declareVariable (name : String) (id : VariableId) (span : Span) : binds = true →
    Step takes binds opens (declareVariable name id span)
  | deepen (construct : String) : opens = true → Step takes binds opens (deepen construct)

variable {t b d : Bool} {α β : Type} {p : Parser α}

/-- A primitive reader changes only what it may. -/
theorem Step.leaves (h : Step t b d p) (env : ParserEnv) (s : ParserState) :
    s.Leaves t b d (p env s).2 := by
  cases h with
  | ofExcept r => cases r <;> exact .still s.session
  | instanceOf name id wanted arguments span =>
    unfold Grammar.namedTypeOf.instanceOf
    split <;> exact .still _
  | loadImport modulePath path span =>
    unfold Grammar.loadImport
    dsimp only
    split
    · exact .still s.session
    · split
      · exact .still s.session
      · split <;> exact .still _
  | advance ht =>
    refine ⟨fun hfalse => ?_, rfl, rfl, fun _ => rfl, Nat.le_refl _, id, fun _ => rfl⟩
    cases ht.symm.trans hfalse
  | modify f hb => exact .bound hb (f s)
  | defineType name id span hb =>
    by_cases hold : s.scopes.current?.any (·.types.contains name) = true
    · simp only [Parser.defineType, bind_apply, Parser.gets, ScopeStack.defineType?, if_pos hold]
      exact .still s.session
    · simp only [Parser.defineType, bind_apply, Parser.gets, ScopeStack.defineType?, if_neg hold]
      exact .bound hb _
  | declareVariable name id span hb =>
    by_cases hold : s.scopes.current?.any (·.vars.contains name) = true
    · simp only [Parser.declareVariable, bind_apply, Parser.gets, ScopeStack.declareVariable?,
        if_pos hold]
      exact .still s.session
    · simp only [Parser.declareVariable, bind_apply, Parser.gets, ScopeStack.declareVariable?,
        if_neg hold]
      exact .bound hb _
  | deepen construct hd =>
    show s.Leaves t b d ((if s.depth < nestingLimit then
      Parser.modify fun s => { s with depth := s.depth + 1 } else tooDeep construct : Parser Unit)
        env s).2
    split
    · next hroom =>
      refine ⟨fun _ => ⟨rfl, rfl⟩, rfl, rfl, fun _ => rfl, Nat.le_succ _, fun _ => hroom,
        fun hfalse => ?_⟩
      cases hd.symm.trans hfalse
    · exact .still s.session
  | _ => exact .still _

/-! ## Readers -/

/-- The reader is made of steps.  It closes the constructs that it opens, unless it may leave them
open, and binds names in scopes that it opens, unless it may bind them outside. -/
class inductive Made (takes : Bool) : (binds opens : Bool) → {α : Type} → Parser α → Prop
  | step {b d : Bool} {α : Type} {p : Parser α} : Step takes b d p → Made takes b d p
  | bind {b d : Bool} {α β : Type} {p : Parser α} {q : α → Parser β} : Made takes b d p →
    (∀ a, Made takes b d (q a)) → Made takes b d (p >>= q)
  | nested {b d : Bool} {α : Type} {p : Parser α} (construct : String) : Made takes b false p →
    Made takes b d (nested construct p)
  | chain {b d : Bool} {α : Type} {p : Parser α} : Made takes b true p → Made takes b d (chain p)
  | withScope {b d : Bool} {α : Type} {p : Parser α} (scope : Scope) : Made takes true d p →
    Made takes b d (withScope scope p)

/-- Nesting fails at the limit, and puts the depth right otherwise. -/
theorem nested_apply (construct : String) (p : Parser α) (env : ParserEnv) (s : ParserState) :
    nested construct p env s = if s.depth < nestingLimit then
      restoring p (fun _ t => { t with depth := t.depth - 1 }) env { s with depth := s.depth + 1 }
    else tooDeep construct env s := by
  show ((if s.depth < nestingLimit then modify fun s => { s with depth := s.depth + 1 }
    else tooDeep construct : Parser Unit) >>= fun _ =>
      restoring p fun _ t => { t with depth := t.depth - 1 }) env s = _
  split <;> rfl

namespace Made

/-- So does every reader that is made of such. -/
theorem leaves (h : Made t b d p) (env : ParserEnv) (s : ParserState) :
    s.Leaves t b d (p env s).2 := by
  induction h generalizing s with
  | step h => exact h.leaves env s
  | @bind b d α β p q _ _ ih ih' =>
    have hfirst := ih s
    rw [bind_apply]
    cases hrun : p env s with
    | mk r u =>
      rw [hrun] at hfirst
      cases r with
      | ok a => exact hfirst.trans (ih' a u)
      | error f => exact hfirst
  | @nested b d α p construct _ ih =>
    rw [nested_apply]
    split
    · have h := ih { s with depth := s.depth + 1 }
      have hdepth : (p env { s with depth := s.depth + 1 }).2.depth - 1 = s.depth :=
        congrArg (· - 1) (h.depth rfl)
      exact ⟨h.words, h.opened, h.outer, h.scopes, Nat.le_of_eq hdepth.symm,
        Nat.le_trans (Nat.le_of_eq hdepth), fun _ => hdepth⟩
    · exact .still s.session
  | chain _ ih =>
    have h := ih s
    exact ⟨h.words, h.opened, h.outer, h.scopes, Nat.le_refl _, id, fun _ => rfl⟩
  | @withScope b d α p scope _ ih =>
    have h := ih { s with scopes := s.scopes.push scope }
    have hscopes : (p env { s with scopes := s.scopes.push scope }).2.scopes.pop.2 = s.scopes :=
      congrArg ScopeStack.mk h.outer
    exact ⟨h.words, congrArg ScopeStack.depth hscopes, congrArg (·.scopes.tail) hscopes,
      fun _ => hscopes, h.least, h.most, h.depth⟩

/-! ## How readers are made -/

variable {q : α → Parser β} {k : Kind} {span : Span} {construct name : String}

theorem andThen [hp : Made t b d p] (hq : ∀ a, Made t b d (q a)) : Made t b d (p >>= q) :=
  .bind hp hq

instance seq [Made t b d p] [hq : ∀ a, Made t b d (q a)] : Made t b d (p >>= q) := andThen hq

instance ite {c : Prop} [Decidable c] {q : Parser α} [hp : Made t b d p] [hq : Made t b d q] :
    Made t b d (if c then p else q) := by
  split
  · exact hp
  · exact hq

instance inside [hp : Made t b false p] : Made t b d (Parser.nested construct p) :=
  .nested construct hp

instance chained [hp : Made t b true p] : Made t b d (Parser.chain p) := .chain hp

instance within {scope : Scope} [hp : Made t true d p] : Made t b d (Parser.withScope scope p) :=
  .withScope scope hp

instance pure {a : α} : Made t b d (Pure.pure a) := .step (.pure a)

instance fail {cause : Cause} : Made t b d (@fail α span cause) := .step (.fail span cause)

instance ofExcept {r : Except Fault α} : Made t b d (ofExcept r) := .step (.ofExcept r)

instance gets {f : ParserState → α} : Made t b d (gets f) := .step (.gets f)

instance asks {f : ParserEnv → α} : Made t b d (asks f) := .step (.asks f)

instance advance : Made true b d advance := .step (.advance rfl)

instance deepen : Made t b true (deepen construct) := .step (.deepen construct rfl)

instance internType {shape : Shape} : Made t b d (internType shape) := .step (.internType shape)

instance allocVariable {v : Variable} : Made t b d (allocVariable v) := .step (.allocVariable v)

instance defineType {id : TypeId} : Made t true d (defineType name id span) :=
  .step (.defineType name id span rfl)

instance declareVariable {id : VariableId} : Made t true d (declareVariable name id span) :=
  .step (.declareVariable name id span rfl)

instance defineVariable {id : VariableId} : Made t true d (defineVariable name id) :=
  .step (.modify _ rfl)

instance current : Made t b d current := .step (.gets _)

instance currentSpan : Made t b d currentSpan := seq

instance currentKind : Made t b d currentKind := seq

instance check : Made t b d (check k) := seq

instance atEnd : Made t b d atEnd := seq

instance peekKind {count : Nat} : Made t b d (peekKind count) := seq

instance spanFrom : Made t b d (spanFrom span) := seq

instance fuel : Made t b d fuel := seq

instance room : Made t b d room := seq

instance tooDeep : Made t b d (@tooDeep α construct) := seq

instance unexpected : Made t b d (@unexpected α construct) := seq

instance take : Made true b d take := seq

instance eat : Made true b d (eat k) := seq

instance expect : Made true b d (expect k) := seq

instance identifier : Made true b d identifier := seq

instance separator : Made true b d separator := seq

instance mapM [h : ∀ a, Made t b d (q a)] (xs : List α) : Made t b d (xs.mapM q) := by
  induction xs with
  | nil => exact .step (.pure [])
  | cons x xs ih =>
    rw [List.mapM_cons]
    exact seq

instance forM {q : α → Parser Unit} [h : ∀ a, Made t b d (q a)] (xs : List α) :
    Made t b d (xs.forM q) := by
  induction xs with
  | nil => exact .step (.pure ())
  | cons x xs ih => exact (h x).bind fun _ => ih

instance commaTail [h : Made true b d p] (n : Nat) : Made true b d (commaTail p n) := by
  induction n with
  | zero => exact .step (.pure [])
  | succ n ih => exact seq

instance commaList [h : Made true b d p] : Made true b d (commaList p) := seq

instance entries [h : Made true b d p] (n : Nat) : Made true b d (entries p k n) := by
  induction n with
  | zero => exact .step (.pure [])
  | succ n ih => exact seq

instance braceTail [h : Made true b d p] : Made true b d (braceTail p) := seq

instance checkVarargs {ids : List TypeId} : Made t b d (Grammar.checkVarargs ids span) := seq

instance typelessReturns : Made t b d (Grammar.typelessReturns span) := seq

instance instanceOf {id : TypeId} {wanted : Nat} {arguments : List TypeId} :
    Made t b d (Grammar.namedTypeOf.instanceOf name id wanted arguments span) :=
  .step (.instanceOf name id wanted arguments span)

instance atArraySuffix : Made t b d Grammar.atArraySuffix := seq

instance atNamedEntry : Made t b d Grammar.atNamedEntry := seq

instance bindVariable {v : Variable} : Made t true d (Grammar.bindVariable v) := seq

instance exportAlias {definition : Expr} : Made t true d (Grammar.exportAlias definition) := by
  unfold Grammar.exportAlias
  split
  · exact .step (.modify _ rfl)
  · infer_instance

instance exportVariable {id : VariableId} : Made t true d (Grammar.exportVariable id) :=
  .step (.modify _ rfl)

instance loadImport {path : Path} : Made t b d (Grammar.loadImport name path span) :=
  .step (.loadImport name path span)

instance bindImport {source : Module} :
    Made t true d (Grammar.bindImport source name span) := by
  unfold Grammar.bindImport
  dsimp only
  split <;> infer_instance

theorem bindImports (source : Module) (names : List (String × Span)) :
    Made t true d (names.mapM fun x => Grammar.bindImport source x.1 x.2) := inferInstance

end Made

end Parser

end TypedLua
