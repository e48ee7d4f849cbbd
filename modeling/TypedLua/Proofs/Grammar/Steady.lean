import TypedLua.Proofs.Grammar.Spanning

/-!
# Grammar.Steady

Reading types and expressions leaves the scopes alone.  The names in an expression are resolved in
the scopes that are open while it is read.

Main statements: `names_forms`, and `Course.Forms.gives` for what else is said of expressions.
-/

namespace TypedLua

open Text Number TypedLua.Parser
open Token (Kind)
open Course (Yields)

/-! ## Readers that leave the scopes alone -/

/-- Reading types and expressions, on a course besides. -/
def Course.steady (B : Course) : Course where
  Leads s t := s.Steady t ∧ B.Leads s t
  Fails s f x := s.Admits f ∧ B.Fails s f x
  Spans := B.Spans
  trans h h' := ⟨h.1.trans h'.1, B.trans h.2 h'.2⟩
  right h := ⟨.refl _, B.right h.2⟩
  next h hnext hkind := ⟨.next hkind, B.next h.2 hnext hkind⟩
  deepened n h := ⟨.deepened _ n, B.deepened n h.2⟩
  declared v h := ⟨.declared _ v, B.declared v h.2⟩
  fails h hf := ⟨h.1.admits hf.1, B.fails h.2 hf.2⟩
  current h := B.current h.2
  extend h := B.extend h.2
  lexical h hf := ⟨.lexical hf, B.lexical h.2 hf⟩
  wrong h hspan hcause := ⟨.here hcause, B.wrong h.2 hspan hcause⟩

variable {α β : Type} {B : Course} {env : ParserEnv} {s t : ParserState}

theorem Course.steady_types (hB : B.Types) : B.steady.Types := fun s types h =>
  ⟨.typed s types, hB s types h.2⟩

theorem Course.steady_refl (hs : B.Leads s s) : B.steady.Leads s s := ⟨.refl s, hs⟩

/-- What can be said of a value that a reader gives, from the states before and after.  It holds on
when reading started earlier or went on. -/
structure Trait (α : Type) where
  Has : ParserState → α → ParserState → Prop
  /-- It does not depend on where reading started and ended. -/
  spread {s s' t t' : ParserState} {a : α} : s.Steady s' → t'.Keeps t → Has s' a t' → Has s a t

namespace Trait

theorem widen (P : Trait α) {s s' t t' : ParserState} {a : α} (hs : s.Steady s')
    (ht : t'.Steady t) (h : P.Has s' a t') : P.Has s a t :=
  P.spread hs ht.toKeeps h

/-- Each member has the property. -/
def list (P : Trait α) : Trait (List α) where
  Has s xs t := ∀ x ∈ xs, P.Has s x t
  spread hs ht h x hx := P.spread hs ht (h x hx)

end Trait

/-- From every state, the reader leaves the scopes alone and gives a value with the property. -/
def Gives (B : Course) (P : Trait α) (p : Parser α) : Prop :=
  ∀ env s, B.steady.Yields env s p (P.Has s)

namespace Gives

variable {P : Trait α} {p : Parser α}

theorem commaList (h : Gives B P p) : Gives B P.list (commaList p) := by
  intro env s
  refine (Yields.commaList (h env)).imp ?_
  rintro _ t - ⟨x, u, rest, rfl, hsu, hx, hrest⟩
  refine List.forall_mem_cons.2 ⟨P.widen (.refl s) hrest.leads.1 hx, ?_⟩
  exact hrest.forall fun y a b ha hy hb => P.widen (hsu.1.trans ha.1) hb.1 hy

end Gives

/-! ## Names -/

/-- A name that stands for a value was resolved between two states: it is a word of the text, and it
is the variable that the scopes give for it, with the type that this variable had when the word was
read, or else the type that the scopes give for it. -/
def Expr.Resolved (s t : ParserState) (e : Expr) : Prop :=
  ∃ token ∈ s.stream.words, token.kind = .identifier ∧
    match s.scopes.resolveVariable token.text, s.scopes.resolveType token.text with
    | some id, _ => ∃ vars : VariableArena, s.session.vars.vars <+: vars.vars ∧
        vars.vars <+: t.session.vars.vars ∧ e = .reference id ⟨token.span, vars.typeOf id⟩
    | none, some id => e = .typeName token.text ⟨token.span, id⟩
    | none, none => False

theorem Expr.Resolved.widen {s s' t t' : ParserState} {e : Expr} (hs : s.Steady s')
    (ht : t'.session.vars.vars <+: t.session.vars.vars) (h : e.Resolved s' t') :
    e.Resolved s t := by
  obtain ⟨token, htoken, hkind, hmeans⟩ := h
  refine ⟨token, hs.stream.moves.words_suffix.subset htoken, hkind, ?_⟩
  rw [hs.scopes] at hmeans
  cases hvariable : s.scopes.resolveVariable token.text with
  | some id =>
    rw [hvariable] at hmeans
    obtain ⟨vars, hbefore, hafter, heq⟩ := hmeans
    exact ⟨vars, hs.vars.trans hbefore, hafter.trans ht, heq⟩
  | none =>
    rw [hvariable] at hmeans
    cases htype : s.scopes.resolveType token.text with
    | some id | none =>
      rw [htype] at hmeans
      exact hmeans

/-- The names in an expression were resolved. -/
def Trait.names : Trait Expr where
  Has s e t := ∀ n ∈ e.names, n.Resolved s t
  spread hs ht h n hn := (h n hn).widen hs ht.vars

theorem Trait.names_of_list {s t : ParserState} {es : List Expr} (h : Trait.names.list.Has s es t) :
    ∀ n ∈ Expr.namesOf es, n.Resolved s t := by
  intro n hn
  obtain ⟨e, he, hn⟩ := Expr.mem_namesOf.1 hn
  exact h e he n hn

/-- A name that is read is resolved in the scopes of the start. -/
theorem resolve_yields (hB : B.Open) (env : ParserEnv) (s : ParserState) :
    B.steady.Yields env s (Parser.identifier >>= fun x => Grammar.resolve x.1 x.2)
      (Trait.names.Has s) := by
  refine fun hs => (Yields.identifier hs).bind ?_
  rintro _ _ ⟨hst, rfl, hkind, rfl, hgood⟩
  have htoken : s.stream.current ∈ s.stream.words := List.mem_cons_self
  unfold Grammar.resolve
  refine Runs.gets_bind ?_
  rw [hst.1.scopes]
  cases hvariable : s.scopes.resolveVariable s.stream.current.text with
  | some id =>
    refine Runs.gets_bind (Runs.pure ⟨hst, fun n hn => ⟨_, htoken, hkind, ?_⟩⟩)
    rw [hvariable]
    exact ⟨s.session.vars, List.prefix_refl _, List.prefix_refl _, List.mem_singleton.1 hn⟩
  | none =>
    cases htype : s.scopes.resolveType s.stream.current.text with
    | some id =>
      refine Runs.pure ⟨hst, fun n hn => ⟨_, htoken, hkind, ?_⟩⟩
      rw [hvariable, htype]
      exact List.mem_singleton.1 hn
    | none =>
      refine Runs.fail _ _ ⟨.unknown htoken hkind hvariable htype, ?_⟩
      exact B.fails hst.2 (hB (B.right hst.2) hgood nofun)

/-! ## Expressions -/

/-- The names of an expression are those of its parts. -/
theorem names_forms (hB : B.Open) : B.steady.Forms fun _ => Trait.names.Has where
  mono _ h := h
  depth m n h := Trait.names.widen (.deepened _ m) (.deepened _ n) h
  name := resolve_yields hB
  literal _ := ⟨nofun, fun _ => nofun, fun _ => nofun, fun _ => nofun⟩
  group hst he hut := Trait.names.widen hst.1 hut.1 he
  entry hst he hut := Trait.names.widen hst.1 hut.1 he
  member he hat := Trait.names.widen (.refl _) hat.1 he
  index hsa he hab hbc hkey hct n hn := by
    rcases List.mem_append.1 hn with hn | hn
    · exact Trait.names.widen (.refl _) (hab.1.trans (hbc.1.trans hct.1)) he n hn
    · exact Trait.names.widen (hsa.1.trans hab.1) hct.1 hkey n hn
  call hsa he hab hes hct n hn := by
    rcases List.mem_append.1 hn with hn | hn
    · exact Trait.names.widen (.refl _) (hab.1.trans (hes.leads.1.trans hct.1)) he n hn
    · refine Trait.names_of_list (hes.forall fun e _ _ ha he hb => ?_) n hn
      exact Trait.names.widen (hsa.1.trans (hab.1.trans ha.1)) (hb.1.trans hct.1) he.prop
  constructor hsa hes hbt :=
    Trait.names_of_list (hes.forall fun e _ _ ha he hb =>
      Trait.names.widen (hsa.1.trans ha.1) (hb.1.trans hbt.1) he.prop)

/-- An expression and a primary that are read with so much room have the property. -/
structure GivesExpr (B : Course) (T : Trait Expr) (room : Nat) : Prop where
  expression : Gives B T (Grammar.expressionWithin room)
  primary (env : ParserEnv) (s : ParserState) :
    B.steady.Yields env s (Grammar.primaryWithin room) fun e t => T.Has s e t ∧ B.Spans e.span

/-- What all ways to form an expression give, expressions have. -/
theorem Course.Forms.gives {P : Nat → ParserState → Expr → ParserState → Prop} {T : Trait Expr}
    {room : Nat} (hP : B.steady.Forms P) (hT : ∀ s e t, P (bound (room + 1)) s e t → T.Has s e t) :
    GivesExpr B T room where
  expression env s := (hP.expressionWithin room env s).imp fun e t _ he => by
    have hbound := bound_succ room
    exact hT s e t (hP.mono (by omega) he.prop)
  primary env s := (hP.primaryWithin room env s).imp fun e t _ he =>
    ⟨hT s e t he.prop, he.span ▸ he.good⟩

end TypedLua
