import TypedLua.Proofs.Grammar.Balance
import TypedLua.Proofs.Grammar.Boundaries
import TypedLua.Proofs.Grammar.Derivation
import TypedLua.Proofs.Session.Ids

/-!
# Grammar.Externs

Externs are declared where the word `extern` stands.  No other statement has that word, unless it is
a nested block; so when a module is read from boundary to boundary, the externs among the completed
statements go one by one with the places of the word that have been passed.

Main statements: `Made.extends`, readers extend the session, `externOf_spec`, what reading an extern
declares, and `Boundary.externs`.
-/

namespace TypedLua

open Text TypedLua.Parser
open Token (Kind Stream)
open Rules (Form Derives accepted)

/-! ## The word `extern` -/

/-- The places of the word `extern` among tokens, each with the tokens from there on. -/
def Token.externs : List Token → List (List Token)
  | [] => []
  | w :: ws => if w.kind = .kwExtern then (w :: ws) :: externs ws else externs ws

theorem Token.externs_append {ts : List Token} (h : .kwExtern ∉ ts.map Token.kind)
    (ws : List Token) : externs (ts ++ ws) = externs ws := by
  induction ts with
  | nil => rfl
  | cons t ts ih =>
    rw [List.map_cons, List.mem_cons, not_or] at h
    rw [List.cons_append, externs, if_neg fun hkind => h.1 hkind.symm, ih h.2]

/-- The form has the word only in the blocks and statements inside it. -/
def Rules.Form.avoids (k : Kind) : Form → Bool
  | .empty => true
  | .word l => k != l
  | .rule c => c != .block && c != .statement
  | .seq f g | .alt f g => f.avoids k && g.avoids k
  | .opt f | .many f => f.avoids k

/-- A form that avoids the word `extern` derives no text with it. -/
theorem Rules.Derives.extern_notMem {f : Form} {ks : List Kind} (h : Derives accepted f ks)
    (hf : f.avoids .kwExtern = true) : .kwExtern ∉ ks := by
  have hrules : ∀ c, Form.avoids .kwExtern (.rule c) = true →
      (accepted c).avoids .kwExtern = true := by
    intro c
    cases c <;> decide
  induction h with
  | empty | absent | nil => exact List.not_mem_nil
  | word k =>
    rw [List.mem_singleton]
    exact ne_of_beq_false (Bool.not_eq_true' _ ▸ hf)
  | rule _ ih => exact ih (hrules _ hf)
  | seq _ _ ih ih' =>
    obtain ⟨hf, hg⟩ := Bool.and_eq_true_iff.1 hf
    exact fun hk => (List.mem_append.1 hk).elim (ih hf) (ih' hg)
  | left _ ih => exact ih (Bool.and_eq_true_iff.1 hf).1
  | right _ ih => exact ih (Bool.and_eq_true_iff.1 hf).2
  | present _ ih => exact ih hf
  | cons _ _ ih ih' => exact fun hk => (List.mem_append.1 hk).elim (ih hf) (ih' hf)

theorem Rules.Derives.any_cases {rules : Rules.Category → Form} {f : Form} {fs : List Form}
    {ks : List Kind} (h : Derives rules (.any f fs) ks) : ∃ g ∈ f :: fs, Derives rules g ks := by
  induction fs generalizing f with
  | nil => exact ⟨f, List.mem_cons_self, h⟩
  | cons f' fs ih =>
    cases h with
    | left h => exact ⟨f, List.mem_cons_self, h⟩
    | right h =>
      obtain ⟨g, hg, h⟩ := ih h
      exact ⟨g, List.mem_cons_of_mem _ hg, h⟩

/-- Neither does a statement that is no block and no extern. -/
theorem Rules.Derives.extern_notMem_statement {k : Kind} {ks : List Kind}
    (h : Derives accepted (.rule .statement) (k :: ks)) (hdo : k ≠ .kwDo) (hk : k ≠ .kwExtern) :
    .kwExtern ∉ k :: ks := by
  have hstarts : ∀ {l g}, l ≠ k → ¬ Derives accepted (.seq (.word l) g) (k :: ks) := by
    intro l g hl h
    obtain ⟨_, _, heq, hword, -⟩ := Derives.seq_iff.1 h
    cases hword
    exact hl (List.cons.inj heq).1.symm
  cases h with
  | rule h =>
    obtain ⟨g, hg, h⟩ := any_cases h
    simp only [List.mem_cons, List.not_mem_nil, or_false] at hg
    rcases hg with rfl | rfl | rfl | rfl | rfl | rfl | rfl | rfl
    case inr.inr.inr.inr.inr.inl => exact absurd h (hstarts hk.symm)
    case inr.inr.inr.inr.inr.inr.inl => exact absurd h (hstarts hdo.symm)
    all_goals exact h.extern_notMem rfl

/-! ## Readers extend the session -/

theorem Session.Extends.refl (s : Session) : s.Extends s := ⟨.refl _, List.prefix_refl _⟩

theorem Session.Extends.trans {s t u : Session} (h : s.Extends t) (h' : t.Extends u) :
    s.Extends u := ⟨h.types.trans h'.types, h.vars.trans h'.vars⟩

section

variable {P : TypeArena → Prop} {α β : Type}

theorem Keeps.mapM {f : α → StateM TypeArena β} (hf : ∀ x, Keeps P (f x)) (xs : List α) :
    Keeps P (xs.mapM f) := by
  induction xs with
  | nil => exact .pure []
  | cons x xs ih =>
    rw [List.mapM_cons]
    exact .bind (hf x) fun y => .bind ih fun ys => .pure (y :: ys)

theorem keeps_shapeMapM {f : TypeId → StateM TypeArena TypeId} (hf : ∀ x, Keeps P (f x))
    (shape : Shape) : Keeps P (shape.mapM f) := by
  have hproperty : ∀ p : Property, Keeps P (p.mapM f) :=
    fun p => .bind (hf p.type) fun _ => .pure _
  cases shape with
  | primitive | generic => exact .pure _
  | array x | vararg x => exact .bind (hf x) fun _ => .pure _
  | function xs ys => exact .bind (.mapM hf xs) fun _ => .bind (.mapM hf ys) fun _ => .pure _
  | table ps => exact .bind (.mapM hproperty ps) fun _ => .pure _
  | interface name xs ps =>
    exact .bind (.mapM hf xs) fun _ => .bind (.mapM hproperty ps) fun _ => .pure _

theorem keeps_substituteWithin (hP : KeptByInterning P) (r : TypeArena.Replacement) (n : Nat)
    (id : TypeId) : Keeps P (TypeArena.substituteWithin r n id) := by
  induction n generalizing id with
  | zero => exact .pure id
  | succ n ih =>
    refine .get_bind fun a => ?_
    split
    · exact .pure _
    · exact .pure _
    · exact .pure _
    · exact .bind (keeps_shapeMapM ih _) hP

/-- What interning keeps, instantiating keeps. -/
theorem keeps_instantiate (hP : KeptByInterning P) (id : TypeId) (arguments : List TypeId) :
    Keeps P (TypeArena.instantiate id arguments) := by
  refine .get_bind fun a => ?_
  split
  · split
    · refine .bind (.mapM (fun p => ?_) _) fun _ => .bind (hP _) fun _ => .pure _
      exact .bind (keeps_substituteWithin hP _ _ _) fun _ => .pure _
    · exact .pure none
  · exact .pure none

end

/-- Loading a module extends the session, whether or not it succeeds. -/
def ParserEnv.Extends (env : ParserEnv) : Prop :=
  ∀ path text (s : Session), s.Extends (env.load path text s).2

namespace Parser

variable {α : Type} {p : Parser α} {t b d : Bool} {env : ParserEnv} {s : ParserState}

/-- Primitive readers extend the session. -/
theorem Step.extends (h : Step t b d p) (henv : env.Extends) :
    s.session.Extends (p env s).2.session := by
  cases h with
  | ofExcept r => cases r <;> exact .refl _
  | internType shape => exact ⟨TypeArena.extends_intern _ shape, List.prefix_refl _⟩
  | allocVariable v => exact ⟨.refl _, List.prefix_append _ _⟩
  | instanceOf name id wanted arguments span =>
    have hkept : KeptByInterning s.session.types.Extends :=
      fun shape b h => h.trans (TypeArena.extends_intern b shape)
    have htypes := keeps_instantiate hkept id arguments s.session.types (.refl _)
    unfold Grammar.namedTypeOf.instanceOf
    split <;> next hrun =>
      rw [hrun] at htypes
      exact ⟨htypes, List.prefix_refl _⟩
  | loadImport modulePath path span =>
    unfold Grammar.loadImport
    dsimp only
    split
    · exact .refl _
    · split
      · exact .refl _
      · next text _ =>
        have hload := henv path text s.session
        split <;> next hrun =>
          rw [hrun] at hload
          exact hload
  | defineType name id span =>
    simp only [Parser.defineType, bind_apply, Parser.gets]
    cases s.scopes.defineType? name id <;> exact .refl _
  | declareVariable name id span =>
    simp only [Parser.declareVariable, bind_apply, Parser.gets]
    cases s.scopes.declareVariable? name id <;> exact .refl _
  | deepen construct =>
    show s.session.Extends ((if s.depth < nestingLimit then
      Parser.modify fun s => { s with depth := s.depth + 1 } else tooDeep construct : Parser Unit)
        env s).2.session
    split <;> exact .refl _
  | _ => exact .refl _

/-- So do all readers that are made of them. -/
theorem Made.extends (h : Made t b d p) (henv : env.Extends) :
    s.session.Extends (p env s).2.session := by
  induction h generalizing s with
  | step h => exact h.extends henv
  | @bind b d α β p q _ _ ih ih' =>
    have hfirst := ih (s := s)
    rw [bind_apply]
    cases hrun : p env s with
    | mk r u =>
      rw [hrun] at hfirst
      cases r with
      | ok a => exact hfirst.trans (ih' a)
      | error f => exact hfirst
  | nested construct _ ih =>
    rw [nested_apply]
    split
    · exact ih (s := { s with depth := s.depth + 1 })
    · exact .refl _
  | chain _ ih => exact ih
  | withScope scope _ ih => exact ih (s := { s with scopes := s.scopes.push scope })

end Parser

/-! ## What an extern declares -/

namespace Grammar

variable {source : String} {env : ParserEnv} {s t u : ParserState} {α : Type} {room : Nat} {m : Stmt}
  {final : Session} {ids : List VariableId} {types : List TypeId} {id : VariableId}

/-- The session was extended, and the scopes were left alone. -/
structure Grown (s t : ParserState) : Prop where
  session : s.session.Extends t.session
  scopes : t.scopes = s.scopes

theorem Grown.trans (h : Grown s t) (h' : Grown t u) : Grown s u :=
  ⟨h.session.trans h'.session, h'.scopes.trans h.scopes⟩

theorem grown {p : Parser α} [h : Made true false false p]
    (henv : env.Extends) {r : Except Fault α} (hrun : p env s = (r, t)) : Grown s t := by
  have hsession := h.extends henv (s := s)
  have hscopes := (h.leaves env s).scopes rfl
  rw [hrun] at hsession hscopes
  exact ⟨hsession, hscopes⟩

/-- The variables have the types. -/
def Typed (vars : VariableArena) : List VariableId → List TypeId → Prop :=
  List.Forall₂ fun id type => ∃ v, vars.get? id = some v ∧ v.type = type

theorem Typed.mono {a b : VariableArena} (h : Typed a ids types) (hab : a.vars <+: b.vars) :
    Typed b ids types :=
  List.Forall₂.imp (fun _ _ ⟨v, hv, htype⟩ => ⟨v, VariableArena.get?_of_prefix hab hv, htype⟩) h

theorem Typed.eq_map {vars : VariableArena} (h : Typed vars ids types) :
    types = ids.map vars.typeOf := by
  induction h with
  | nil => rfl
  | cons hv _ ih =>
    obtain ⟨v, hv, rfl⟩ := hv
    rw [List.map_cons, ← ih, VariableArena.typeOf_of_get? hv]

theorem Typed.alloc {v : Variable} (h : Typed s.session.vars ids types) (hst : Grown s t)
    (hrun : allocVariable v env t = (.ok id, u)) :
    Typed u.session.vars (ids ++ [id]) (types ++ [v.type]) := by
  cases hrun
  refine List.rel_append (h.mono (hst.session.vars.trans (List.prefix_append _ _))) ?_
  exact .cons ⟨v, VariableArena.get?_alloc t.session.vars v, rfl⟩ .nil

theorem parameterOf_spec (henv : env.Extends) {list list' : ParameterList}
    (hnone : list.vararg = none) (h : Typed s.session.vars list.parameters list.types)
    (hrun : parameterOf (typeWithin room) list env s = (.ok list', t)) :
    Typed t.session.vars (list'.parameters ++ list'.vararg.toList) list'.types := by
  obtain ⟨dots, s₁, h₁, hrun⟩ := bind_eq_ok.1 hrun
  cases h₁
  split at hrun
  · obtain ⟨span, s₁, h₁, hrun⟩ := bind_eq_ok.1 hrun
    obtain ⟨_, s₂, h₂, hrun⟩ := bind_eq_ok.1 hrun
    obtain ⟨element, s₃, h₃, hrun⟩ := bind_eq_ok.1 hrun
    obtain ⟨type, s₄, h₄, hrun⟩ := bind_eq_ok.1 hrun
    obtain ⟨vararg, s₅, h₅, hrun⟩ := bind_eq_ok.1 hrun
    cases hrun
    have hst := (grown henv h₁).trans (grown henv h₂)
    exact h.alloc (hst.trans ((grown henv h₃).trans (grown henv h₄))) h₅
  · obtain ⟨v, s₁, h₁, hrun⟩ := bind_eq_ok.1 hrun
    obtain ⟨id, s₂, h₂, hrun⟩ := bind_eq_ok.1 hrun
    cases hrun
    rw [hnone, Option.toList_none, List.append_nil]
    exact h.alloc (grown henv h₁) h₂

/-- Parameters are typed as they are declared. -/
theorem parametersOf_spec (henv : env.Extends) (n : Nat) {list list' : ParameterList}
    (hrun : parametersOf (typeWithin room) n list env s = (.ok list', t))
    (h : Typed s.session.vars (list.parameters ++ list.vararg.toList) list.types) :
    Typed t.session.vars (list'.parameters ++ list'.vararg.toList) list'.types := by
  induction n generalizing s list with
  | zero =>
    cases hrun
    exact h
  | succ n ih =>
    obtain ⟨closing, s₁, h₁, hrun⟩ := bind_eq_ok.1 hrun
    cases h₁
    split at hrun
    · cases hrun
      exact h
    · split at hrun
      · cases hrun
      · next hnone =>
        obtain ⟨list₁, s₁, h₁, hrun⟩ := bind_eq_ok.1 hrun
        obtain ⟨found, s₂, h₂, hrun⟩ := bind_eq_ok.1 hrun
        rw [Bool.not_eq_true, Option.isSome_eq_false_iff, Option.isNone_iff_eq_none] at hnone
        rw [hnone, Option.toList_none, List.append_nil] at h
        have hlist := (parameterOf_spec henv hnone h h₁).mono (grown henv h₂).session.vars
        cases found with
        | true => exact ih hrun hlist
        | false =>
          cases hrun
          exact hlist

/-- The variable is in the session, with the name and type, and its name was new in the innermost
scope and is bound there. -/
structure Binds (s t : ParserState) (name : String) (id : VariableId) (type : TypeId) : Prop where
  stored : ∃ v, t.session.vars.get? id = some v ∧ v.name = name ∧ v.type = type
  bound : s.scopes.declareVariable? name id = some t.scopes

theorem binds_of_declare {v : Variable} {span : Span} {x : Unit} {w : ParserState}
    (hst : Grown s t) (halloc : allocVariable v env t = (.ok id, u))
    (hrun : declareVariable v.name id span env u = (.ok x, w)) :
    Binds s w v.name id v.type ∧ t.session.Extends w.session := by
  cases halloc
  obtain ⟨scopes, s₁, h₁, hrun⟩ := bind_eq_ok.1 hrun
  cases h₁
  cases hdeclare : t.scopes.declareVariable? v.name ⟨t.session.vars.size⟩ with
  | none =>
    rw [hdeclare] at hrun
    cases hrun
  | some scopes =>
    rw [hdeclare] at hrun
    cases hrun
    refine ⟨⟨⟨v, VariableArena.get?_alloc t.session.vars v, rfl, rfl⟩, hst.scopes ▸ hdeclare⟩, ?_⟩
    exact ⟨.refl _, List.prefix_append _ _⟩

/-- The type is the one that an extern declares, which is read from the state `s` on with some room:
that of a variable is written after a name and a colon, and that of a function is made of the types
of its parameters and of what it returns. -/
def HasDeclaredType (env : ParserEnv) (room : Nat) (s : ParserState) (final : Session)
    (type : TypeId) : Stmt → Prop
  | .externVariable .. => ∃ t, typeWithin room env s.next.next.next = (.ok type, t)
  | .externFunction head _ => final.types.get? type = some
      (.function ((head.parameters ++ head.vararg.toList).map final.vars.typeOf) head.returns)
  | _ => False

/-- The head of a function is bound to the type that it declares. -/
theorem prototypeOf_spec (henv : env.Extends) {head : Prototype}
    (hrun : prototypeOf (typeWithin room) env s = (.ok head, t))
    (hfinal : t.session.Extends final) {span : Span} :
    s.stream.current.kind = .identifier ∧ ∃ type,
      Binds s t s.stream.current.text head.function type ∧
        HasDeclaredType env room u final type (.externFunction head span) := by
  obtain ⟨start, s₁, h₁, hrun⟩ := bind_eq_ok.1 hrun
  obtain ⟨⟨name, nameSpan⟩, s₂, h₂, hrun⟩ := bind_eq_ok.1 hrun
  obtain ⟨_, s₃, h₃, hrun⟩ := bind_eq_ok.1 hrun
  obtain ⟨n, s₄, h₄, hrun⟩ := bind_eq_ok.1 hrun
  obtain ⟨list, s₅, h₅, hrun⟩ := bind_eq_ok.1 hrun
  obtain ⟨_, s₆, h₆, hrun⟩ := bind_eq_ok.1 hrun
  obtain ⟨_, s₇, h₇, hrun⟩ := bind_eq_ok.1 hrun
  obtain ⟨_, s₈, h₈, hrun⟩ := bind_eq_ok.1 hrun
  obtain ⟨found, s₉, h₉, hrun⟩ := bind_eq_ok.1 hrun
  cases h₁
  obtain ⟨hkind, rfl, -⟩ := identifier_eq_ok h₂
  have hbefore :=
    (grown henv h₂).trans ((grown henv h₃).trans ((grown henv h₄).trans (grown henv h₅)))
  have hafter :=
    (grown henv h₆).trans ((grown henv h₇).trans ((grown henv h₈).trans (grown henv h₉)))
  have htyped := parametersOf_spec henv n h₅ .nil
  refine ⟨hkind, ?_⟩
  -- the function is declared alike whether or not its returns are written
  have hdeclare : ∀ {returns : List TypeId} {a : ParserState}, Grown s₉ a → (do
      let id ← internType (.function list.types returns)
      let function ← allocVariable { name := s.stream.current.text, type := id, span := nameSpan }
      declareVariable s.stream.current.text function nameSpan
      return Prototype.mk s.stream.current.text function list.parameters returns list.vararg
        ⟨← spanFrom s.stream.current.span, id⟩ : Parser Prototype) env a = (.ok head, t) →
      ∃ type, Binds s t s.stream.current.text head.function type ∧
        HasDeclaredType env room u final type (.externFunction head span) := by
    intro returns a ha hrun
    obtain ⟨type, b, hintern, hrun⟩ := bind_eq_ok.1 hrun
    obtain ⟨function, c, halloc, hrun⟩ := bind_eq_ok.1 hrun
    obtain ⟨_, e, hdeclare, hrun⟩ := bind_eq_ok.1 hrun
    cases hrun
    have hafter := hafter.trans (ha.trans (grown henv hintern))
    obtain ⟨hbinds, hext⟩ := binds_of_declare (hbefore.trans hafter) halloc hdeclare
    refine ⟨type, hbinds, ?_⟩
    have hlist := (htyped.mono (hafter.session.vars.trans (hext.trans hfinal).vars)).eq_map
    cases hintern
    show final.types.get? _ = some (.function (_ : List TypeId) returns)
    rw [← hlist]
    exact (hext.trans hfinal).types.get? (TypeArena.get?_intern _ _)
  split at hrun
  · obtain ⟨returns, a, ha, hrun⟩ := bind_eq_ok.1 hrun
    exact hdeclare (grown henv ha) hrun
  · obtain ⟨span', a, ha, hrun⟩ := bind_eq_ok.1 hrun
    obtain ⟨returns, b, hb, hrun⟩ := bind_eq_ok.1 hrun
    exact hdeclare ((grown henv ha).trans (grown henv hb)) hrun

/-- The name that comes first among words. -/
def firstName (ws : List Token) : Option String :=
  (ws.find? (·.kind == .identifier)).map (·.text)

theorem firstName_next (h : s.stream.current.kind ≠ .identifier) :
    firstName s.next.stream.words = firstName s.stream.words := by
  unfold firstName
  rcases s.stream.words_next_cases with hwords | ⟨hwords, -⟩
  · rw [hwords, List.find?_cons_of_neg (by simpa using h)]
    rfl
  · rw [← hwords]
    rfl

theorem firstName_words (h : s.stream.current.kind = .identifier) :
    firstName s.stream.words = some s.stream.current.text := by
  unfold firstName Stream.words
  rw [List.find?_cons_of_pos (by simp [h])]
  rfl

/-- The symbol stands for an extern that was read from one state to another as the statement `m`.
The extern is `extern` and what the rules say; its first word and its last one tell its place. -/
structure Introduces (env : ParserEnv) (room : Nat) (s : ParserState) (m : Stmt) (t : ParserState)
    (final : Session) (symbol : ExternSymbol) : Prop where
  place : m.extern? = some (symbol.id, symbol.span)
  words : ∃ taken first last, s.stream.Passes taken t.stream ∧
    Derives accepted (.seq (.word .kwExtern) (.rule .external)) (taken.map Token.kind) ∧
    taken.head? = some first ∧ taken.getLast? = some last ∧
    symbol.span = ⟨first.span.start, last.span.stop⟩
  name : firstName s.stream.words = some symbol.name
  /-- The name is new in the innermost scope and is bound there. -/
  bound : s.scopes.declareVariable? symbol.name symbol.id = some t.scopes
  type : HasDeclaredType env room s final symbol.type m

theorem derives_of_extern {ts : List Token} {x : VariableId × Span}
    (h : m.IsWritten source ts) (hm : m.extern? = some x) :
    Derives accepted (.seq (.word .kwExtern) (.rule .external)) (ts.map Token.kind) := by
  cases h with
  | externVariable h => exact h
  | externFunction ht hfunction hhead _ => exact hhead.externFunction ht hfunction
  | _ => cases hm

/-- An extern takes the tokens from its word on, as the grammar has it. -/
theorem externOf_words {x : VariableId × Span} (hs : s.stream.Of source)
    (hrun : externOf (typeWithin room) env s = (.ok m, t)) (hm : m.extern? = some x) :
    ∃ taken first last, s.stream.Passes taken t.stream ∧
      Derives accepted (.seq (.word .kwExtern) (.rule .external)) (taken.map Token.kind) ∧
      taken.head? = some first ∧ taken.getLast? = some last ∧
      x.2 = ⟨first.span.start, last.span.stop⟩ := by
  obtain ⟨taken, hpasses, hplace, hwritten⟩ :=
    Consumes.externOf (fun _ => Consumes.typeWithin room) hs m t hrun
  obtain ⟨first, _, hfirst, hstart, -⟩ := hplace.first
  obtain ⟨last, _, hlast, hstop, -⟩ := hplace.last
  refine ⟨taken, first, last, hpasses.1, derives_of_extern hwritten hm, hfirst, hlast, ?_⟩
  rw [hstart, hstop]
  cases m with
  | externVariable | externFunction =>
    cases hm
    rfl
  | _ => cases hm

theorem atFunction_spec {found : Bool} (hrun : atFunction env s = (.ok found, t)) :
    t = s ∨ found = true ∧ s.stream.current.kind = .kwFunction ∧ t = s.next := by
  obtain ⟨function, s₁, h₁, hrun⟩ := bind_eq_ok.1 hrun
  have hfound := (ends_eat (F := fun _ _ => True) (fun _ _ => .intro) .kwFunction).ok h₁
  cases function with
  | true =>
    cases hrun
    exact .inr ⟨rfl, hfound.1.1, hfound.2⟩
  | false =>
    obtain ⟨kind, s₂, h₂, hrun⟩ := bind_eq_ok.1 hrun
    cases hrun
    have hpeek := (Course.Yields.peekKind (C := .free) 1 .intro).ok h₂
    exact .inl (hpeek.2.1.trans hfound)

/-- **An extern introduces one symbol**: the name that stands first behind the word is bound to the
type that is declared. -/
theorem externOf_spec (henv : env.Extends) (hs : s.stream.Of source)
    (hrun : externOf (typeWithin room) env s = (.ok m, t)) (hfinal : t.session.Extends final) :
    ∃ symbol, ExternSymbol.ofVariable? final.vars symbol.id symbol.span = some symbol ∧
      Introduces env room s m t final symbol := by
  have hwords := fun {x} => externOf_words (x := x) hs hrun
  -- what both kinds of externs have in common
  have hsymbol : ∀ {name id type}, m.extern? = some (id, s.upTo t) → Binds s t name id type →
      firstName s.stream.words = some name → HasDeclaredType env room s final type m →
      ∃ symbol, ExternSymbol.ofVariable? final.vars symbol.id symbol.span = some symbol ∧
        Introduces env room s m t final symbol := by
    rintro name id type hextern ⟨⟨v, hv, rfl, rfl⟩, hbound⟩ hname htype
    refine ⟨⟨v.name, id, v.type, s.upTo t⟩, ?_, hextern, hwords hextern, hname, hbound, htype⟩
    unfold ExternSymbol.ofVariable?
    rw [VariableArena.get?_of_prefix hfinal.vars hv]
    rfl
  obtain ⟨start, s₁, h₁, hrun⟩ := bind_eq_ok.1 hrun
  cases h₁
  obtain ⟨_, s₁, h₁, hrun⟩ := bind_eq_ok.1 hrun
  obtain ⟨hkind, rfl⟩ := expect_eq_ok h₁
  obtain ⟨found, s₂, h₂, hrun⟩ := bind_eq_ok.1 hrun
  have hst := (grown henv h₁).trans (grown henv h₂)
  have hname : firstName s₂.stream.words = firstName s.stream.words := by
    have hnext := firstName_next (s := s) (by rw [hkind]; decide)
    rcases atFunction_spec h₂ with rfl | ⟨-, hfunction, rfl⟩
    · exact hnext
    · exact (firstName_next (by rw [hfunction]; decide)).trans hnext
  cases found with
  | true =>
    obtain ⟨head, s₃, h₃, hrun⟩ := bind_eq_ok.1 hrun
    cases hrun
    obtain ⟨hkind, type, ⟨hstored, hbound⟩, htype⟩ := prototypeOf_spec henv h₃ hfinal
    rw [hst.scopes] at hbound
    exact hsymbol rfl ⟨hstored, hbound⟩ (hname ▸ firstName_words hkind) htype
  | false =>
    obtain ⟨⟨name, nameSpan⟩, s₃, h₃, hrun⟩ := bind_eq_ok.1 hrun
    obtain ⟨_, s₄, h₄, hrun⟩ := bind_eq_ok.1 hrun
    obtain ⟨type, s₅, h₅, hrun⟩ := bind_eq_ok.1 hrun
    obtain ⟨id, s₆, halloc, hrun⟩ := bind_eq_ok.1 hrun
    obtain ⟨_, s₇, hdeclare, hrun⟩ := bind_eq_ok.1 hrun
    cases hrun
    have hgrown := hst.trans ((grown henv h₃).trans ((grown henv h₄).trans (grown henv h₅)))
    obtain ⟨hkind, rfl, rfl⟩ := identifier_eq_ok h₃
    obtain ⟨-, rfl⟩ := expect_eq_ok h₄
    obtain rfl := (atFunction_spec h₂).resolve_right fun h => Bool.false_ne_true h.1
    let v : Variable := { name := s.next.stream.current.text, type, span := nameSpan }
    have hbinds := (binds_of_declare (v := v) hgrown halloc hdeclare).1
    exact hsymbol rfl hbinds (hname ▸ firstName_words hkind) ⟨s₅, h₅⟩

/-! ## From boundary to boundary -/

/-- The externs among the statements completed in each open block, given as for `Boundary`, in
source order. -/
def externsSoFar : List (List Stmt) → List (VariableId × Span)
  | [] => []
  | body :: blocks =>
    externsSoFar blocks ++ (Stmt.leavesOf body.reverse).filterMap Stmt.extern?

theorem leavesOf_concat (ms : List Stmt) (m : Stmt) :
    Stmt.leavesOf (ms ++ [m]) = Stmt.leavesOf ms ++ m.leaves := by
  induction ms with
  | nil => simp [Stmt.leavesOf]
  | cons m' ms ih => rw [List.cons_append, Stmt.leavesOf, Stmt.leavesOf, ih, List.append_assoc]

/-- One more statement adds its externs at the end. -/
theorem externsSoFar_cons (m : Stmt) (body : List Stmt) (blocks : List (List Stmt)) :
    externsSoFar ((m :: body) :: blocks) =
      externsSoFar (body :: blocks) ++ m.leaves.filterMap Stmt.extern? := by
  rw [externsSoFar, externsSoFar, List.reverse_cons, leavesOf_concat, List.filterMap_append,
    List.append_assoc]

/-- The words start with an extern, which was read at a boundary of the module and introduced the
symbol. -/
def Declared (env : ParserEnv) (start : ParserState) (final : Session) (words : List Token)
    (symbol : ExternSymbol) : Prop :=
  ∃ room blocks s m t, Boundary env start (room + 1) blocks s ∧
    statementWithin (room + 1) env s = (.ok m, t) ∧ s.stream.words = words ∧
    Introduces env room (opened s) m t final symbol

theorem words_of_passes {a b : Stream} {ts : List Token} (h : a.Passes ts b) :
    a.words = ts ++ b.words := by
  have hwords : ∀ c : Stream, c.words = c.remaining.filterMap Except.toOption := fun _ => rfl
  rw [hwords, hwords, h, List.filterMap_append, List.filterMap_map]
  exact congrArg (· ++ _) List.filterMap_some

theorem Passes.externs_eq {k : Kind} (h : Passes k s) (hs : s.stream.Of source)
    (hk : k ≠ .eof ∧ k ≠ .kwExtern) : s.next.stream.Of source ∧
      Token.externs s.stream.words = Token.externs s.next.stream.words := by
  obtain ⟨rfl, hnext⟩ := h
  have hpasses := hs.passes_next hk.1 hnext
  refine ⟨hs.of_passes hpasses, ?_⟩
  rw [words_of_passes hpasses]
  exact Token.externs_append (fun hmem => hk.2 (List.mem_singleton.1 hmem).symm) _

/-- The words of an extern are those of one symbol. -/
theorem externs_of_extern {taken : List Token} (ws : List Token)
    (h : Derives accepted (.seq (.word .kwExtern) (.rule .external)) (taken.map Token.kind)) :
    Token.externs (taken ++ ws) = (taken ++ ws) :: Token.externs ws := by
  obtain ⟨_, ks, hkinds, hword, hrest⟩ := Derives.seq_iff.1 h
  cases hword
  obtain ⟨w, rest, rfl, hw, rfl⟩ := List.map_eq_cons_iff.1 hkinds
  rw [List.cons_append, Token.externs, if_pos hw, Token.externs_append (hrest.extern_notMem rfl)]

theorem Effect.extern?_eq (h : Effect env s m t) (hkind : s.stream.current.kind ≠ .kwExtern) :
    m.leaves.filterMap Stmt.extern? = [] := by
  cases h with
  | externVariable _ _ _ hextern | externFunction _ _ _ hextern => exact absurd hextern hkind
  | _ => simp [Stmt.leaves, Stmt.extern?]

theorem leaves_of_extern? {x : VariableId × Span} (h : m.extern? = some x) :
    m.leaves.filterMap Stmt.extern? = [x] := by
  cases m with
  | externVariable | externFunction =>
    cases h
    simp only [Stmt.leaves]
    rfl
  | _ => cases h

/-- A statement takes one word `extern` for each of its symbols. -/
theorem statementWithin_externs (henv : env.Extends) (hs : s.stream.Of source)
    (hkind : s.stream.current.kind ≠ .kwDo) (hrun : statementWithin room env s = (.ok m, t))
    (hfinal : t.session.Extends final) : t.stream.Of source ∧
      ((Token.externs s.stream.words = Token.externs t.stream.words ∧
          m.leaves.filterMap Stmt.extern? = []) ∨
        ∃ room' symbol, room = room' + 1 ∧
          Token.externs s.stream.words = s.stream.words :: Token.externs t.stream.words ∧
          m.leaves.filterMap Stmt.extern? = [(symbol.id, symbol.span)] ∧
          ExternSymbol.ofVariable? final.vars symbol.id symbol.span = some symbol ∧
          Introduces env room' (opened s) m t final symbol) := by
  obtain ⟨ts, ⟨hpasses, -⟩, hm⟩ := (Consumes.statementWithin_blockWithin room).1 s hs m t hrun
  refine ⟨hs.of_passes hpasses, ?_⟩
  by_cases hextern : s.stream.current.kind = .kwExtern
  · right
    cases room with
    | zero => cases hrun
    | succ room =>
      unfold statementWithin at hrun
      obtain ⟨u, hstatement, rfl⟩ := nested_eq_ok hrun
      obtain ⟨start, s₁, h₁, hstatement⟩ := bind_eq_ok.1 hstatement
      obtain ⟨kind, s₂, h₂, hstatement⟩ := bind_eq_ok.1 hstatement
      cases h₁
      obtain ⟨hkind, rfl⟩ := currentKind_eq_ok h₂
      obtain rfl : .kwExtern = kind := hextern.symm.trans hkind
      obtain ⟨symbol, hsymbol, hintro⟩ := externOf_spec (s := opened s) henv hs hstatement hfinal
      obtain ⟨taken, _, _, htaken, hrules, -⟩ := hintro.words
      refine ⟨room, symbol, rfl, ?_, leaves_of_extern? hintro.place, hsymbol, ?_⟩
      · have hwords : s.stream.words = taken ++ u.stream.words := words_of_passes htaken
        rw [hwords]
        exact externs_of_extern _ hrules
      · exact ⟨hintro.place, hintro.words, hintro.name, hintro.bound, hintro.type⟩
  · left
    obtain ⟨u, heffect, rfl⟩ := (statementWithin_effect _ hkind).ok hrun
    refine ⟨?_, heffect.extern?_eq hextern⟩
    rw [words_of_passes hpasses]
    refine Token.externs_append ?_ _
    cases ts with
    | nil => exact List.not_mem_nil
    | cons w ts =>
      obtain rfl : s.stream.current = w := Except.ok.inj (List.cons.inj hpasses).1
      exact hm.written.derives.extern_notMem_statement hkind hextern

/-- **The symbols so far are those of the words so far**, in the order of the text. -/
theorem Boundary.externs {blocks : List (List Stmt)} {start : ParserState} (henv : env.Extends)
    (h : Boundary env start room blocks s) (hstart : start.stream.Of source)
    (hfinal : s.session.Extends final) : s.stream.Of source ∧
      ∃ done, Token.externs start.stream.words = done ++ Token.externs s.stream.words ∧
        List.Forall₂ (Declared env start final) done
          (ExternSymbol.ofPlaces final.vars (externsSoFar blocks)) := by
  induction h with
  | start => exact ⟨hstart, [], rfl, .nil⟩
  | semicolon _ hpass ih =>
    obtain ⟨hs, done, hdone, hall⟩ := ih hfinal
    obtain ⟨hs', hwords⟩ := hpass.externs_eq hs (by decide)
    exact ⟨hs', done, hwords ▸ hdone, hall⟩
  | @statement room body blocks s t m hb hkind hrun ih =>
    have hext := (inferInstance : Made true true false (statementWithin room)).extends henv (s := s)
    rw [hrun] at hext
    obtain ⟨hs, done, hdone, hall⟩ := ih (hext.trans hfinal)
    obtain ⟨ht, ⟨hwords, hnone⟩ | ⟨room, symbol, rfl, hwords, hone, hsymbol, hintro⟩⟩ :=
      statementWithin_externs henv hs hkind hrun hfinal
    · rw [externsSoFar_cons, hnone, List.append_nil]
      exact ⟨ht, done, hwords ▸ hdone, hall⟩
    · rw [externsSoFar_cons, hone, ExternSymbol.ofPlaces_append, ExternSymbol.ofPlaces_singleton,
        hsymbol]
      refine ⟨ht, done ++ [s.stream.words], ?_, List.rel_append hall (.cons ?_ .nil)⟩
      · rw [hdone, hwords, List.append_assoc]
        rfl
      · exact ⟨room, _, s, m, t, hb, hrun, rfl, hintro⟩
  | @enter room body blocks s _ hdo _ ih =>
    obtain ⟨hs, done, hdone, hall⟩ := ih hfinal
    obtain ⟨hs', hwords⟩ := hdo.externs_eq hs (by decide)
    refine ⟨hs', done, hwords ▸ hdone, ?_⟩
    rw [externsSoFar, List.reverse_nil, Stmt.leavesOf, List.filterMap_nil, List.append_nil]
    exact hall
  | @leave room inner body blocks s span _ hend ih =>
    obtain ⟨hs, done, hdone, hall⟩ := ih hfinal
    obtain ⟨hs', hwords⟩ := hend.externs_eq hs (by decide)
    refine ⟨hs', done, hwords ▸ hdone, ?_⟩
    rw [externsSoFar_cons, Stmt.leaves, Block.leaves]
    exact hall

end Grammar

end TypedLua
