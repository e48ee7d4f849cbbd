import TypedLua.Grammar.Statement
import TypedLua.Proofs.Grammar.Course

/-!
# Grammar.Spanning

Types, what variables and functions are declared with, and expressions, on a course.  A type takes
tokens that make a good span.  What holds of expressions that are made of others holds of those that
are read, if it holds of literals and names.

Main statements: `Course.Spanned.typeWithin` and `Course.Forms.expressionWithin`.
-/

namespace TypedLua.Course

open Text Number TypedLua.Parser
open Token (Kind)

variable {α : Type} {C : Course} {env : ParserEnv} {s t : ParserState} {span : Span}

/-- From every state the reader stays on the course. -/
def Allows (C : Course) (p : Parser α) : Prop := ∀ env s, C.Yields env s p fun _ _ => True

/-- The reader stays on the course, and what it takes is a good span. -/
def Spanned (C : Course) (p : Parser α) : Prop :=
  ∀ env s, C.Yields env s p fun _ t => C.Spans (s.upTo t)

/-- The reader stays on the course, and what it takes is a good span if it gives something. -/
def MaySpan (C : Course) (p : Parser (Option α)) : Prop :=
  ∀ env s, C.Yields env s p fun x t => x.isSome → C.Spans (s.upTo t)

theorem Spanned.commaList {item : Parser α} (h : C.Spanned item) :
    C.Spanned (Parser.commaList item) := by
  intro env s
  refine (Yields.commaList (h env)).imp ?_
  rintro _ t - ⟨x, u, rest, -, -, hx, hrest⟩
  exact C.extend hrest.leads hx

/-! ## Types -/

namespace Spanned

theorem required {p : Parser (Option TypeId)} (h : C.MaySpan p) :
    C.Spanned (Grammar.required p) := by
  intro env s
  refine (h env s).bind fun id t _ hid => ?_
  cases id with
  | some id => exact .pure (hid rfl)
  | none => exact .unexpected "type"

theorem checkVarargs {ids : List TypeId} (hspan : C.Spans span) :
    C.Yields env s (Grammar.checkVarargs ids span) fun _ t => t = s := by
  refine Yields.gets_bind ?_
  unfold Grammar.varargLast
  split
  · exact .fault rfl fun hs => C.wrong hs hspan .intro
  · exact .pure rfl

theorem typelessReturns (hspan : C.Spans span) :
    C.Yields env s (Grammar.typelessReturns span) fun _ t => t = s := by
  refine Yields.gets_bind ?_
  split
  · exact .pure rfl
  · exact .fail hspan .intro

section

variable {p : Parser TypeId} (h : C.Spanned p)

include h

theorem typeListOf : C.Spanned (Grammar.typeListOf p) := by
  intro env s
  refine Yields.currentSpan_bind ?_
  refine (commaList h env s).bind fun ids t _ hids => ?_
  refine Yields.spanFrom_bind ((checkVarargs hids).bind ?_)
  rintro _ _ - rfl
  exact .pure hids

theorem groupOf : C.Spanned (Grammar.groupOf p) := by
  intro env s
  refine (Yields.expect .leftParen rfl).bind fun _ t _ ht => .closing ht.2.2.2 ?_
  have hclose : ∀ (ids : List TypeId) (u : ParserState),
      C.Yields env u (Parser.expect .rightParen >>= fun _ => pure ids) fun _ _ => True :=
    fun ids u => (Yields.expect .rightParen rfl).bind fun _ _ _ _ => .pure .intro
  refine Yields.check_bind ?_
  cases t.stream.current.kind == .rightParen with
  | true => exact hclose [] t
  | false => exact (typeListOf h env t).bind fun ids u _ _ => hclose ids u

theorem propertyOf : C.Spanned (Grammar.propertyOf p) := by
  intro env s
  refine Yields.identifier.bind fun x t _ hx => .closing hx.2.2.2 ?_
  refine (Yields.eat .question rfl).bind fun optional u _ _ => ?_
  refine (Yields.expect .colon rfl).bind fun _ v _ _ => ?_
  exact (h env v).bind fun id w _ _ => .pure .intro

end

variable (hC : C.Types)

include hC

theorem instanceOf {name : String} {id : TypeId} {wanted : Nat} {arguments : List TypeId}
    (hspan : C.Spans span) : C.Yields env s
      (Grammar.namedTypeOf.instanceOf name id wanted arguments span) fun _ _ => True := by
  cases hfound : TypeArena.instantiate id arguments s.session.types with
  | mk found types =>
    cases found with
    | some id' =>
      have hrun : Grammar.namedTypeOf.instanceOf name id wanted arguments span env s =
          (.ok id', s.withTypes types) := by
        unfold Grammar.namedTypeOf.instanceOf
        rw [hfound]
      exact .step hrun (hC s types) .intro
    | none =>
      have hrun : Grammar.namedTypeOf.instanceOf name id wanted arguments span env s =
          (.error ⟨span, .typeArgumentCount name wanted arguments.length⟩,
            s.withTypes types) := by
        unfold Grammar.namedTypeOf.instanceOf
        rw [hfound]
        rfl
      refine .fault hrun fun hs => ?_
      have hst := hC s types hs
      exact C.fails hst (C.wrong (C.right hst) hspan .intro)

theorem internType (shape : Shape) : C.Allows (internType shape) := fun _ _ =>
  (Yields.internType hC shape).imp fun _ _ _ _ => .intro

section

variable {p : Parser TypeId} (h : C.Spanned p)

include h

theorem namedTypeOf : C.Spanned (Grammar.namedTypeOf p) := by
  intro env s
  refine Yields.currentSpan_bind ?_
  refine Yields.identifier.bind fun x t hst hx => .closing hx.2.2.2 ?_
  obtain ⟨rfl, -, rfl, hname⟩ := hx
  refine Yields.gets_bind ?_
  cases s.next.scopes.resolveType s.stream.current.text with
  | none => exact .fail hname .intro
  | some id =>
    refine (Yields.eat .less rfl).bind fun found u htu _ => ?_
    cases found with
    | false => exact .pure .intro
    | true =>
      refine (typeListOf h env u).bind fun arguments v huv _ => ?_
      refine (Yields.expect .greater rfl).bind fun _ w hvw _ => ?_
      -- the whole of it, from the name to the closing bracket
      have hspan := C.extend hvw (C.extend huv (C.extend htu hname))
      refine Yields.spanFrom_bind (Yields.gets_bind ?_)
      cases w.session.types.get? id with
      | none => exact .fail hspan .intro
      | some shape =>
        cases shape with
        | interface _ gs _ =>
          cases gs with
          | nil => exact .fail hspan .intro
          | cons g gs => exact instanceOf hC hspan
        | _ => exact .fail hspan .intro

theorem tableTypeOf : C.Spanned (Grammar.tableTypeOf p) := by
  intro env s
  refine (Yields.expect .leftBrace rfl).bind fun _ t _ ht => .closing ht.2.2.2 ?_
  refine (Yields.braceTail (propertyOf h env)).bind fun ps u _ _ => ?_
  exact internType hC _ env u

theorem functionFrom (n : Nat) {start : Span} (arguments : List TypeId)
    (hstart : C.Spans ⟨start.start, s.lastEnd⟩) :
    C.Yields env s (Grammar.functionFrom p n start arguments) fun _ _ => True := by
  induction n generalizing s start arguments with
  | zero =>
    refine Yields.spanFrom_bind ((typelessReturns hstart).bind fun returns t _ _ => ?_)
    exact internType hC _ env t
  | succ n ih =>
    refine (Yields.eat .arrow rfl).bind fun found t hst _ => ?_
    cases found with
    | false =>
      have hspan := C.extend hst hstart
      refine Yields.spanFrom_bind ((typelessReturns hspan).bind fun returns u _ _ => ?_)
      exact internType hC _ env u
    | true =>
      refine Yields.check_bind ?_
      cases t.stream.current.kind == .leftParen with
      | false => exact (h env t).bind fun id u _ _ => internType hC _ env u
      | true =>
        refine Yields.currentSpan_bind ?_
        refine (groupOf h env t).bind fun ids u _ hids => ?_
        refine Yields.check_bind ?_
        cases u.stream.current.kind == .arrow with
        | false => exact internType hC _ env u
        | true =>
          -- the group was the argument list of the function that is returned
          exact (ih ids hids).bind fun returned v _ _ => internType hC _ env v

theorem functionTypeOf : C.Spanned (Grammar.functionTypeOf p) := by
  intro env s
  refine Yields.currentSpan_bind ?_
  refine (groupOf h env s).bind fun arguments t _ ht => .closing ht ?_
  exact Yields.fuel_bind fun n => functionFrom hC h n arguments ht

end

theorem baseTypeOf {p : Parser (Option TypeId)} (h : C.MaySpan p) :
    C.Spanned (Grammar.baseTypeOf p) := by
  intro env s
  refine Yields.currentKind_bind ?_
  split
  · exact namedTypeOf hC (required h) env s
  · next hkind => exact (Yields.advance hkind rfl).bind fun _ t _ ht => .pure ht.2
  · exact tableTypeOf hC (required h) env s
  · exact functionTypeOf hC (required h) env s
  · next hkind =>
    refine (Yields.advance hkind rfl).bind fun _ t _ ht => .closing ht.2 ?_
    exact (h env t).bind fun element u _ _ => internType hC _ env u
  · exact .unexpected "type"

omit hC in
theorem atArraySuffix : C.Yields env s Grammar.atArraySuffix fun found t =>
    t = s ∧ (found = true → s.stream.current.kind = .leftBracket ∧
      s.next.stream.current.kind = .rightBracket) := by
  refine Yields.check_bind ?_
  cases hfound : s.stream.current.kind == .leftBracket with
  | false => exact .pure ⟨rfl, nofun⟩
  | true =>
    have hkind := beq_iff_eq.1 hfound
    refine (Yields.peekKind 1).bind ?_
    rintro k _ - ⟨rfl, token, hpeek, rfl⟩
    have hnext := Token.Stream.next_of_peek_one hpeek (by rw [hkind]; decide)
    refine .pure ⟨rfl, fun h => ⟨hkind, ?_⟩⟩
    show (Token.Stream.next _).2.current.kind = _
    rw [hnext]
    exact beq_iff_eq.1 h

theorem arraySuffixes (room : Nat) (id : TypeId) : C.Allows (Grammar.arraySuffixes room id) := by
  induction room generalizing id with
  | zero =>
    intro env s
    refine atArraySuffix.bind fun found t _ _ => ?_
    cases found with
    | true => exact .tooDeep "type"
    | false => exact .pure .intro
  | succ room ih =>
    intro env s
    refine atArraySuffix.bind ?_
    rintro found _ - ⟨rfl, hfound⟩
    cases found with
    | false => exact .pure .intro
    | true =>
      obtain ⟨hopen, hclose⟩ := hfound rfl
      refine (Yields.deepen "type").bind ?_
      rintro _ _ - rfl
      refine Yields.bind (Yields.advance (by exact hopen) rfl) ?_
      rintro _ _ - ⟨rfl, -⟩
      refine Yields.bind (Yields.advance (by exact hclose) rfl) fun _ t _ _ => ?_
      exact (internType hC _ env t).bind fun id' u _ _ => ih id' env u

/-- By induction on how deep types may still be nested. -/
theorem tryTypeWithin (room : Nat) : C.MaySpan (Grammar.tryTypeWithin room) := by
  induction room with
  | zero =>
    intro env s
    refine Yields.currentKind_bind ?_
    split
    · exact .tooDeep "type"
    · exact .pure nofun
  | succ room ih =>
    intro env s
    refine Yields.currentKind_bind ?_
    split
    · refine .nested "type" (fun _ _ _ h => h) ?_
      refine (baseTypeOf hC ih env _).bind fun base t hst hbase => ?_
      refine (Yields.chain (fun _ _ _ h => h) (arraySuffixes hC room base env t)).bind ?_
      exact fun id u htu _ => .pure fun _ => C.extend htu hbase
    · exact .pure nofun

/-- Reading a type keeps to the course and spans tokens. -/
theorem typeWithin (room : Nat) : C.Spanned (Grammar.typeWithin room) :=
  required (tryTypeWithin hC room)

/-! ## Parameters and variables -/

theorem parametersFrom (n : Nat) (scope : Scope) : C.Allows (Grammar.parametersFrom n scope) := by
  induction n generalizing scope with
  | zero => exact fun _ _ => .pure .intro
  | succ n ih =>
    intro env s
    refine Yields.identifier.bind ?_
    rintro _ t - ⟨rfl, -, rfl, hspan⟩
    dsimp only
    split
    · exact .fail hspan .intro
    · refine (internType hC _ env _).bind fun id u _ _ => ?_
      refine (Yields.eat .comma rfl).bind fun found v _ _ => ?_
      cases found with
      | false => exact .pure .intro
      | true => exact (ih _ env v).bind fun rest w _ _ => .pure .intro

theorem parameters : C.Allows Grammar.parameters := by
  intro env s
  refine (Yields.eat .less rfl).bind fun found t _ _ => ?_
  cases found with
  | false => exact .pure .intro
  | true =>
    refine Yields.fuel_bind fun n => ?_
    refine (parametersFrom hC n {} env t).bind fun result u _ _ => ?_
    exact (Yields.expect .greater rfl).bind fun _ v _ _ => .pure .intro

section

variable {p : Parser TypeId} (h : C.Spanned p)

include h

omit hC in
theorem declaredTypeOf : C.Allows (Grammar.declaredTypeOf p) := by
  intro env s
  refine (Yields.eat .colon rfl).bind fun found t _ _ => ?_
  cases found with
  | true => exact (h env t).imp fun _ _ _ _ => .intro
  | false => exact .pure .intro

omit hC in
theorem variableOf : C.Spanned (Grammar.variableOf p) := by
  intro env s
  refine Yields.identifier.bind fun x t _ hx => .closing hx.2.2.2 ?_
  exact (declaredTypeOf h env t).bind fun id u _ _ => .pure .intro

theorem parameterOf (list : Grammar.ParameterList) : C.Allows (Grammar.parameterOf p list) := by
  intro env s
  refine Yields.check_bind ?_
  cases hfound : s.stream.current.kind == .ellipsis with
  | true =>
    refine Yields.currentSpan_bind ?_
    refine (Yields.advance (beq_iff_eq.1 hfound) rfl).bind fun _ t _ _ => ?_
    refine (declaredTypeOf h env t).bind fun element u _ _ => ?_
    refine (internType hC _ env u).bind fun id v _ _ => ?_
    exact (Yields.allocVariable _).bind fun vararg w _ _ => .pure .intro
  | false =>
    refine (variableOf h env s).bind fun v t _ _ => ?_
    exact (Yields.allocVariable v).bind fun id u _ _ => .pure .intro

theorem parametersOf (n : Nat) (list : Grammar.ParameterList) :
    C.Allows (Grammar.parametersOf p n list) := by
  induction n generalizing list with
  | zero => exact fun _ _ => .pure .intro
  | succ n ih =>
    intro env s
    refine .within fun hs => Yields.check_bind ?_
    split
    · exact .pure .intro
    · split
      · exact Yields.currentSpan_bind (.fail (C.current hs) .intro)
      · refine (parameterOf hC h list env s).bind fun list' t _ _ => ?_
        refine (Yields.eat .comma rfl).bind fun found u _ _ => ?_
        cases found with
        | true => exact ih list' env u
        | false => exact .pure .intro

omit hC in
theorem returnListOf : C.Spanned (Grammar.returnListOf p) := fun env s =>
  (typeListOf h env s).bind fun _ _ _ hids => .pure hids

end

omit hC in
theorem atFunction : C.Allows Grammar.atFunction := by
  intro env s
  refine (Yields.eat .kwFunction rfl).bind fun found t _ _ => ?_
  cases found with
  | true => exact .pure .intro
  | false => exact (Yields.peekKind 1).bind fun _ _ _ _ => .pure .intro

end Spanned

/-! ## Expressions -/

/-- An expression has been read between two states: something can be said of it, and it stands at a
good place. -/
structure Has (C : Course) (P : Nat → ParserState → Expr → ParserState → Prop) (n : Nat)
    (s : ParserState) (e : Expr) (t : ParserState) : Prop where
  prop : P n s e t
  span : e.span = s.upTo t
  good : C.Spans (s.upTo t)

/-- What is said of expressions and of the states between which they are read holds of literals and
names, and of what is made of expressions of which it holds.  It may get weaker with each layer, as
the number tells. -/
structure Forms (C : Course) (P : Nat → ParserState → Expr → ParserState → Prop) : Prop where
  mono {s t : ParserState} {e : Expr} {m n : Nat} : m ≤ n → P m s e t → P n s e t
  /-- It does not matter how many constructs are open. -/
  depth {s t : ParserState} {e : Expr} {n : Nat} (m m' : Nat) :
    P n { s with depth := m } e t → P n s e { t with depth := m' }
  name (env : ParserEnv) (s : ParserState) :
    C.Yields env s (identifier >>= fun x => Grammar.resolve x.1 x.2) (P 1 s)
  literal {s : ParserState} {tag : Tag} : C.Leads s s.next → P 1 s (.nil tag) s.next ∧
    (∀ b, P 1 s (.boolean b tag) s.next) ∧ (∀ x, P 1 s (.number x tag) s.next) ∧
      ∀ text, P 1 s (.string text tag) s.next
  group {s a b t : ParserState} {e : Expr} {tag : Tag} {n : Nat} : C.Leads s a → P n a e b →
    C.Leads b t → P (n + 1) s (.group e tag) t
  entry {s a b t : ParserState} {id : VariableId} {e : Expr} {tag : Tag} {n : Nat} :
    C.Leads s a → P n a e b → C.Leads b t → P (n + 1) s (.entry id e tag) t
  member {s a t : ParserState} {e : Expr} {name : String} {tag : Tag} {n : Nat} : P n s e a →
    C.Leads a t → P (n + 1) s (.member e name tag) t
  index {s a b c t : ParserState} {e key : Expr} {tag : Tag} {n : Nat} : C.Leads s a →
    P n s e a → C.Leads a b → C.Leads b c → P n b key c → C.Leads c t →
    P (n + 1) s (.index e key tag) t
  call {s a b c t : ParserState} {e : Expr} {es : List Expr} {tag : Tag} {n : Nat} :
    C.Leads s a → P n s e a → C.Leads a b → C.Row (C.Has P n) b es c → C.Leads c t →
    P (n + 1) s (.call e es tag) t
  constructor {s a b t : ParserState} {es : List Expr} {tag : Tag} {n : Nat} : C.Leads s a →
    C.Row (C.Has P n) a es b → C.Leads b t → P (n + 1) s (.constructor es tag) t

theorem atNamedEntry : C.Yields env s Grammar.atNamedEntry fun _ t => t = s := by
  refine Yields.check_bind ?_
  cases s.stream.current.kind == .identifier with
  | false => exact .pure rfl
  | true => exact (Yields.peekKind 1).bind fun _ _ _ h => .pure h.1

theorem resolve_ends (name : String) (span : Span) :
    Ends env s (Grammar.resolve name span) (fun e t => t = s ∧
      ((∃ id type, e = .reference id ⟨span, type⟩) ∨ ∃ type, e = .typeName name ⟨span, type⟩))
      fun _ => True := by
  refine Runs.gets_bind ?_
  cases s.scopes.resolveVariable name with
  | some id => exact Runs.gets_bind (Runs.pure ⟨rfl, .inl ⟨id, _, rfl⟩⟩)
  | none =>
    cases s.scopes.resolveType name with
    | some type => exact Runs.pure ⟨rfl, .inr ⟨type, rfl⟩⟩
    | none => exact Runs.fail _ _ .intro

/-- A bound for what is read with so much room, if each layer adds one. -/
def bound (room : Nat) : Nat := room * (room + 1)

theorem bound_succ (room : Nat) : bound (room + 1) = bound room + 2 * room + 2 := by
  simp only [bound, Nat.mul_add, Nat.add_mul]
  omega

namespace Forms

variable {P : Nat → ParserState → Expr → ParserState → Prop} {n : Nat} (hP : C.Forms P)

include hP

theorem raise {e : Expr} {k : Nat} (hn : n ≤ k) (h : C.Has P n s e t) : C.Has P k s e t :=
  ⟨hP.mono hn h.prop, h.span, h.good⟩

theorem counted {e : Expr} (k k' : Nat) (h : C.Has P n { s with depth := k } e t) :
    C.Has P n s e { t with depth := k' } :=
  ⟨hP.depth k k' h.prop, h.span, h.good⟩

theorem named (env : ParserEnv) (s : ParserState) :
    C.Yields env s (identifier >>= fun x => Grammar.resolve x.1 x.2) (C.Has P 1 s) := by
  intro hs
  refine (hP.name env s hs).and_run.imp ?_ fun _ _ hf => hf
  rintro e t ⟨⟨hst, he⟩, hrun⟩
  obtain ⟨x, u, hname, hresolve⟩ := bind_eq_ok.1 hrun
  obtain ⟨-, rfl, -, rfl, hgood⟩ := (Yields.identifier hs).ok hname
  obtain ⟨rfl, ⟨id, type, rfl⟩ | ⟨type, rfl⟩⟩ := (resolve_ends _ _).ok hresolve
  · exact ⟨hst, he, rfl, hgood⟩
  · exact ⟨hst, he, rfl, hgood⟩

section

variable {p : Parser Expr} (h : ∀ env s, C.Yields env s p (C.Has P n s))

include h

theorem operandOf (env : ParserEnv) (s : ParserState) :
    C.Yields env s (Grammar.operandOf p) (C.Has P (n + 1) s) := by
  refine Yields.currentKind_bind ?_
  split
  · next hkind =>
    refine Yields.currentSpan_bind ((Yields.advance hkind rfl).bind fun _ t hst ht => ?_)
    refine (h env t).bind fun inner u htu hinner => ?_
    refine (Yields.expect .rightParen rfl).bind fun _ v huv _ => ?_
    refine Yields.spanFrom_bind (.pure ⟨?_, rfl, C.extend huv (C.extend htu ht.2)⟩)
    exact hP.group hst hinner.prop huv
  · exact (hP.named env s).imp fun _ _ _ => hP.raise (Nat.le_add_left 1 n)
  · exact .unexpected "expression"

omit hP in
theorem argumentsOf (env : ParserEnv) (s : ParserState) : C.Yields env s (Grammar.argumentsOf p)
    fun es t => ∃ u, C.Row (C.Has P n) s es u ∧ C.Leads u t := by
  have hclose : ∀ (es : List Expr) (t : ParserState), C.Row (C.Has P n) s es t →
      C.Yields env t (Parser.expect .rightParen >>= fun _ => pure es)
        fun es u => ∃ t, C.Row (C.Has P n) s es t ∧ C.Leads t u := fun es t hes =>
    (Yields.expect .rightParen rfl).bind fun _ u htu _ => .pure ⟨t, hes, htu⟩
  refine .within fun hs => Yields.check_bind ?_
  cases s.stream.current.kind == .rightParen with
  | true => exact hclose [] s (.nil hs)
  | false =>
    refine (Yields.commaList (h env)).bind ?_
    rintro _ t - ⟨e, u, es, rfl, hsu, he, hes⟩
    exact hclose _ t (.cons hs hsu he hes)

theorem suffixOf {e : Expr} {k : Nat} (hn : n ≤ k) (hk : 1 ≤ k) (hst : C.Leads s t)
    (he : C.Has P k s e t) :
    C.Yields env t (Grammar.suffixOf p e s.stream.current.span) (C.Has P (k + 1) s) := by
  have hgood := he.good
  have h : ∀ env s, C.Yields env s p (C.Has P k s) := fun env s =>
    (h env s).imp fun _ _ _ => hP.raise hn
  refine Yields.currentKind_bind ?_
  split
  · next hkind =>
    refine (Yields.advance hkind rfl).bind fun _ u htu _ => ?_
    refine (argumentsOf h env u).bind ?_
    rintro es v huv ⟨b, hes, hbv⟩
    refine Yields.spanFrom_bind (.pure ⟨?_, rfl, C.extend huv (C.extend htu hgood)⟩)
    exact hP.call hst he.prop htu hes hbv
  · next hkind =>
    refine (Yields.take hkind rfl).bind ?_
    rintro _ _ htu ⟨rfl, rfl, htaken⟩
    refine Yields.spanFrom_bind (.pure ⟨?_, rfl, C.extend htu hgood⟩)
    refine hP.call hst he.prop (C.right hst) ?_ (C.right htu)
    refine .cons (C.right hst) htu ⟨hP.mono hk ?_, rfl, htaken⟩ (.nil (C.right htu))
    exact (hP.literal htu).2.2.2 _
  · next hkind =>
    refine (Yields.advance hkind rfl).bind fun _ u htu _ => ?_
    refine Yields.identifier.bind fun x v huv _ => ?_
    refine Yields.spanFrom_bind (.pure ⟨?_, rfl, C.extend huv (C.extend htu hgood)⟩)
    exact hP.member he.prop (C.trans htu huv)
  · next hkind =>
    refine (Yields.advance hkind rfl).bind fun _ u htu _ => ?_
    refine (h env u).bind fun key v huv hkey => ?_
    refine (Yields.expect .rightBracket rfl).bind fun _ w hvw _ => ?_
    have hgood := C.extend hvw (C.extend huv (C.extend htu hgood))
    refine Yields.spanFrom_bind (.pure ⟨?_, rfl, hgood⟩)
    exact hP.index hst he.prop htu huv hkey.prop hvw
  · exact .pure (hP.raise (Nat.le_succ k) he)

theorem entryOf (env : ParserEnv) (s : ParserState) :
    C.Yields env s (Grammar.entryOf p) (C.Has P (n + 1) s) := by
  refine atNamedEntry.bind ?_
  rintro found _ - rfl
  cases found with
  | false => exact (h env _).imp fun _ _ _ => hP.raise (Nat.le_succ n)
  | true =>
    refine Yields.currentSpan_bind (Yields.identifier.bind fun x t hst hx => ?_)
    refine (Yields.expect .equals rfl).bind fun _ u htu _ => ?_
    refine (h env u).bind fun value v huv hvalue => ?_
    refine (Yields.allocVariable _).bind fun id w hvw _ => ?_
    have hgood := C.extend hvw (C.extend huv (C.extend htu hx.2.2.2))
    refine Yields.spanFrom_bind (.pure ⟨?_, rfl, hgood⟩)
    exact hP.entry (C.trans hst htu) hvalue.prop hvw

theorem constructorOf (env : ParserEnv) (s : ParserState) :
    C.Yields env s (Grammar.constructorOf p) (C.Has P (n + 2) s) := by
  refine Yields.currentSpan_bind ((Yields.expect .leftBrace rfl).bind fun _ t hst ht => ?_)
  refine (Yields.braceTail (entryOf hP h env)).bind ?_
  rintro es u htu ⟨b, hes, hbu⟩
  refine Yields.spanFrom_bind (.pure ⟨?_, rfl, C.extend htu ht.2.2.2⟩)
  exact hP.constructor hst hes hbu

omit h in
theorem numberLiteral (hkind : s.stream.current.kind = .number) :
    C.Yields env s Grammar.numberLiteral (C.Has P 1 s) := by
  refine Yields.gets_bind ?_
  unfold Grammar.numberOf
  cases ofText? s.stream.current.text with
  | none => exact .fault rfl fun hs => C.wrong hs (C.current hs) .intro
  | some value =>
    refine (Yields.advance hkind rfl).bind ?_
    rintro _ _ hst ⟨rfl, hgood⟩
    exact .pure ⟨(hP.literal hst).2.2.1 value, rfl, hgood⟩

theorem formOf {q : Parser Expr} {k : Nat} (hk : n + 2 ≤ k)
    (hq : ∀ env s, C.Yields env s q (C.Has P k s)) (env : ParserEnv) (s : ParserState) :
    C.Yields env s (Grammar.formOf p q) (C.Has P k s) := by
  have hone : 1 ≤ k := by omega
  refine Yields.currentSpan_bind (Yields.currentKind_bind ?_)
  split
  · next hkind => exact (hP.numberLiteral hkind).imp fun _ _ _ => hP.raise hone
  · next hkind =>
    refine (Yields.take hkind rfl).bind ?_
    rintro _ _ hst ⟨rfl, rfl, hgood⟩
    exact .pure ⟨hP.mono hone ((hP.literal hst).2.2.2 _), rfl, hgood⟩
  · next hkind =>
    refine (Yields.advance hkind rfl).bind ?_
    rintro _ _ hst ⟨rfl, hgood⟩
    exact .pure ⟨hP.mono hone ((hP.literal hst).2.1 true), rfl, hgood⟩
  · next hkind =>
    refine (Yields.advance hkind rfl).bind ?_
    rintro _ _ hst ⟨rfl, hgood⟩
    exact .pure ⟨hP.mono hone ((hP.literal hst).2.1 false), rfl, hgood⟩
  · next hkind =>
    refine (Yields.advance hkind rfl).bind ?_
    rintro _ _ hst ⟨rfl, hgood⟩
    exact .pure ⟨hP.mono hone (hP.literal hst).1, rfl, hgood⟩
  · exact (constructorOf hP h env s).imp fun _ _ _ => hP.raise hk
  · exact hq env s
  · exact hq env s
  · exact .unexpected "expression"

theorem primaryOf {suffixes : Expr → Span → Parser Expr} {k : Nat}
    (hsuffixes : ∀ env s t e, C.Leads s t → C.Has P (n + 1) s e t →
      C.Yields env t (suffixes e s.stream.current.span) (C.Has P k s)) (env : ParserEnv)
    (s : ParserState) : C.Yields env s (Grammar.primaryOf p suffixes) (C.Has P k s) := by
  refine Yields.currentSpan_bind ?_
  refine (operandOf hP h env s).bind fun operand t hst hoperand => ?_
  exact .chain (fun _ _ m => hP.counted s.depth m) (hsuffixes env s t operand hst hoperand)

end

/-- By induction on how deep expressions may still be nested. -/
theorem within (room : Nat) :
    (∀ env s, C.Yields env s (Grammar.expressionWithin room) (C.Has P (bound room) s)) ∧
      ∀ env s t e k, bound room ≤ k → 1 ≤ k → C.Leads s t → C.Has P k s e t →
        C.Yields env t (Grammar.suffixesWithin room e s.stream.current.span)
          (C.Has P (k + room) s) := by
  induction room with
  | zero =>
    refine ⟨fun env s => ?_, fun env s t e k _ _ hst he => ?_⟩
    · unfold Grammar.expressionWithin
      exact .tooDeep "expression"
    · unfold Grammar.suffixesWithin
      refine Yields.currentKind_bind ?_
      split
      · exact .tooDeep "expression"
      · exact .pure he
  | succ room ih =>
    obtain ⟨hexpr, hsuffixes⟩ := ih
    have hbound := bound_succ room
    have hform : bound room + 2 ≤ bound (room + 1) := by omega
    refine ⟨fun env s => ?_, fun env s t e k hk hone hst he => ?_⟩
    · unfold Grammar.expressionWithin
      refine .nested "expression" (fun _ _ m => hP.counted s.depth m) ?_
      refine (formOf hP hexpr hform (primaryOf hP hexpr ?_) env _).imp fun _ u _ he => ?_
      · -- what stands in front of the suffixes leaves room for all of them
        intro env s t e hst he
        refine (hsuffixes env s t e _ (by omega) (by omega) hst he).imp fun _ _ _ => hP.raise ?_
        omega
      · exact hP.counted _ u.depth he
    · unfold Grammar.suffixesWithin
      refine Yields.currentKind_bind ?_
      split
      · refine (Yields.deepen "expression").bind ?_
        rintro _ _ htu rfl
        have hsu := C.trans hst htu
        have hlow : bound room ≤ k := by omega
        refine (suffixOf hP hexpr hlow hone hsu (hP.counted s.depth _ he)).bind ?_
        intro e' v huv he'
        have hrest := hsuffixes env s v e' (k + 1) (by omega) (by omega) (C.trans hsu huv) he'
        rwa [Nat.add_right_comm] at hrest
      · exact .pure (hP.raise (Nat.le_add_right _ _) he)

/-- An expression has what all ways to form one give it. -/
theorem expressionWithin (room : Nat) (env : ParserEnv) (s : ParserState) :
    C.Yields env s (Grammar.expressionWithin room) (C.Has P (bound room) s) :=
  (within hP room).1 env s

theorem primaryWithin (room : Nat) (env : ParserEnv) (s : ParserState) :
    C.Yields env s (Grammar.primaryWithin room) (C.Has P (bound (room + 1)) s) := by
  obtain ⟨hexpr, hsuffixes⟩ := within hP room
  have hbound := bound_succ room
  refine primaryOf hP hexpr (fun env s t e hst he => ?_) env s
  refine (hsuffixes env s t e _ (by omega) (by omega) hst he).imp fun _ _ _ => hP.raise ?_
  omega

end Forms

end TypedLua.Course
