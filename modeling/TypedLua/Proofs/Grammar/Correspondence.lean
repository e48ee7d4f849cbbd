import TypedLua.Grammar.Parser
import TypedLua.Proofs.Tree.Related
import TypedLua.Proofs.Types.Related

/-!
# Grammar.Correspondence

Reading the same tokens in two states that correspond.  A correspondence says which ids, which trees
and which states go together; it is lawful if the few steps that touch tokens, types, variables and
scopes keep it.  Every reader that is made of such steps then agrees with itself: it fails on both
sides with one cause, or succeeds on both sides with linked results, and the states correspond again.
Where a correspondence is lenient, nothing is said about runs of which the first one fails.

This module has the laws and the readers of tokens, of nested and of repeated constructs.
-/

namespace TypedLua

open Text TypedLua.Parser
open Token (Kind)

/-! ## Taking tokens -/

/-- The state after the current token is taken. -/
def ParserState.next (s : ParserState) : ParserState :=
  { s with stream := s.stream.next.2, lastEnd := s.stream.current.span.stop }

namespace Parser

theorem take_apply (env : ParserEnv) (s : ParserState) :
    take env s = (s.stream.next.1.map fun _ => s.stream.current, s.next) := by
  show (advance >>= fun _ => pure s.stream.current : Parser Token) env s = _
  rw [bind_apply]
  unfold advance ParserState.next
  dsimp only
  cases s.stream.next.1 <;> rfl

theorem eat_apply (k : Kind) (env : ParserEnv) (s : ParserState) :
    eat k env s =
      if s.stream.current.kind = k then (s.stream.next.1.map fun _ => true, s.next)
      else (.ok false, s) := by
  show (if s.stream.current.kind == k then advance >>= fun _ => pure true
    else pure false : Parser Bool) env s = _
  by_cases h : s.stream.current.kind = k
  · rw [if_pos h, if_pos (beq_iff_eq.2 h), bind_apply]
    unfold advance ParserState.next
    dsimp only
    cases s.stream.next.1 <;> rfl
  · rw [if_neg h, if_neg fun hk => h (beq_iff_eq.1 hk)]
    rfl

theorem expect_apply (k : Kind) (env : ParserEnv) (s : ParserState) :
    expect k env s =
      if s.stream.current.kind = k then (s.stream.next.1.map fun _ => s.stream.current, s.next)
      else (.error (Fault.expected k s.stream.current), s) := by
  show (if s.stream.current.kind == k then take else _ : Parser Token) env s = _
  by_cases h : s.stream.current.kind = k
  · rw [if_pos h, if_pos (beq_iff_eq.2 h), take_apply]
  · rw [if_neg h, if_neg fun hk => h (beq_iff_eq.1 hk)]
    rfl

theorem identifier_apply (env : ParserEnv) (s : ParserState) :
    identifier env s =
      if s.stream.current.kind = .identifier then
        (s.stream.next.1.map fun _ => (s.stream.current.text, s.stream.current.span), s.next)
      else (.error (Fault.expected .identifier s.stream.current), s) := by
  unfold identifier
  rw [bind_apply, expect_apply]
  by_cases h : s.stream.current.kind = .identifier
  · rw [if_pos h, if_pos h]
    cases s.stream.next.1 <;> rfl
  · rw [if_neg h, if_neg h]

end Parser

/-! ## Correspondences -/

/-- The same state, with other types in its session. -/
abbrev ParserState.withTypes (s : ParserState) (types : TypeArena) : ParserState :=
  { s with session := { s.session with types } }

/-- Which ids, trees and states go together while two parsers read the same tokens. -/
structure Correspondence where
  /-- What is known about the ids of the two sides. -/
  World : Type
  [order : Preorder World]
  types : Link World TypeId TypeId
  vars : Link World VariableId VariableId
  regard : Regard := .all
  /-- The lists in which variadic types come last. -/
  ordered : World → List TypeId → Prop
  ordered_mono {w v : World} (hwv : w ≤ v) {xs : List TypeId} : ordered w xs → ordered v xs
  state : World → ParserState → ParserState → Prop
  env : ParserEnv → ParserEnv → Prop
  /-- The first parser may fail where the second one does not. -/
  lenient : Prop := False
  rooted : Prop := True
  /-- A parameter goes together with the one of its name. -/
  parametric : Prop := True

namespace Correspondence

attribute [instance] Correspondence.order

variable {α β γ δ : Type} (C : Correspondence)

/-- It matters what was found: a fault does not where it is excused. -/
def Counts (r : Except Fault α) : Prop := C.lenient → ∃ a, r = .ok a

/-- Both found values that are related, or faults of one cause at places that go together. -/
abbrev FoundRel (r : α → β → Prop) : Except Fault α → Except Fault β → Prop :=
  Link.ResultRel C.regard.place r

/-- The two runs come to results and states that correspond in a later world. -/
def Meet (w : C.World) (R : Link C.World α β) (x : Except Fault α × ParserState)
    (y : Except Fault β × ParserState) : Prop :=
  C.Counts x.1 → ∃ v, w ≤ v ∧ C.FoundRel (R.rel v) x.1 y.1 ∧ C.state v x.2 y.2

/-- From states that correspond in the world `w` the parsers come to states and results that
correspond in a later world, if the first one stands at a token of the given kind. -/
def AgreesAt (k : Option Kind) (w : C.World) (R : Link C.World α β) (p : Parser α) (q : Parser β) :
    Prop :=
  ∀ env env', C.env env env' → ∀ s t, C.state w s t → (∀ kind ∈ k, s.stream.current.kind = kind) →
    C.Meet w R (p env s) (q env' t)

/-- The parsers agree wherever they stand. -/
abbrev Agrees (w : C.World) (R : Link C.World α β) (p : Parser α) (q : Parser β) : Prop :=
  C.AgreesAt none w R p q

/-- Places that go together. -/
def spans : Link C.World Span Span where
  rel _ := C.regard.place
  mono _ _ _ h := h

/-- Tokens of one kind. -/
def kinds : Link C.World Token Token where
  rel _ a b := a.kind = b.kind
  mono _ _ _ h := h

/-- Tokens that say the same, at places that go together. -/
def tokens : Link C.World Token Token where
  rel _ a b := a.kind = b.kind ∧ a.text = b.text ∧ C.regard.place a.span b.span
  mono _ _ _ h := h

theorem expected_cause_eq (kind : Kind) {w : C.World} {a b : Token} (h : C.tokens.rel w a b) :
    (Fault.expected kind a).cause = (Fault.expected kind b).cause := by
  unfold Fault.expected
  rw [h.1, h.2.1]

/-- Variables that are declared alike. -/
abbrev declared : Link C.World Variable Variable := C.types.declared C.regard.place

/-- Scopes correspond if their bindings do. -/
abbrev scope : Link C.World Scope Scope := .scope C.types C.vars

/-- Expressions that go together. -/
abbrev expr : Link C.World Expr Expr := .expr C.regard C.types C.vars

/-- Statements that go together. -/
abbrev stmt : Link C.World Stmt Stmt := .stmt C.regard C.types C.vars

/-- Blocks that go together. -/
abbrev block : Link C.World Block Block := .block C.regard C.types C.vars

/-- Modules that go together. -/
abbrev module : Link C.World Module Module := .module C.regard C.types C.vars

/-- Heads of functions that go together. -/
abbrev prototype : Link C.World Prototype Prototype := .prototype C.regard C.types C.vars

/-- Definitions of types that go together. -/
abbrev definition : Link C.World Expr Expr := .definition C.regard C.types

/-- The shapes that reading a type forms: no interfaces, and functions whose variadic types come last
and that do not return a lone `void`. -/
def Formed (w : C.World) : Shape → Prop
  | .function xs us => C.ordered w xs ∧ C.ordered w us ∧ (C.rooted → us ≠ [Primitive.void.typeId])
  | .interface .. => False
  | .generic _ => C.parametric
  | _ => True

/-- Taking a token of the kind keeps the correspondence. -/
def Passes (kind : Kind) : Prop :=
  ∀ ⦃w s t⦄, C.state w s t → s.stream.current.kind = kind → C.Counts s.stream.next.1 →
    C.state w s.next t.next

/-- Interning the shapes, one on each side, keeps the correspondence. -/
abbrev Interns (w : C.World) (s t : ParserState) (a b : Shape) : Prop :=
  ∃ v, w ≤ v ∧
    C.types.rel v (TypeArena.intern a s.session.types).1 (TypeArena.intern b t.session.types).1 ∧
    C.state v (s.withTypes (TypeArena.intern a s.session.types).2)
      (t.withTypes (TypeArena.intern b t.session.types).2)

/-- The steps that touch tokens, types and variables keep a correspondence.  The word `interface` may
lead to where it does not hold. -/
structure Legible : Prop where
  current {w s t} : C.state w s t → C.tokens.rel w s.stream.current t.stream.current
  peek {w s t} (count : Nat) : C.state w s t → C.Counts (s.stream.peek count) →
    C.FoundRel (C.kinds.rel w) (s.stream.peek count) (t.stream.peek count)
  length {w s t} : C.state w s t → s.stream.upcoming.length = t.stream.upcoming.length
  /-- The last tokens ended at places that go together. -/
  spanned {w s t a b} : C.state w s t → C.regard.place a b →
    C.regard.place ⟨a.start, s.lastEnd⟩ ⟨b.start, t.lastEnd⟩
  next {w s t} : C.state w s t → C.Counts s.stream.next.1 →
    C.FoundRel Eq s.stream.next.1 t.stream.next.1
  passes {kind : Kind} : kind ≠ .kwInterface → C.Passes kind
  depth {w s t} : C.state w s t → s.depth = t.depth
  /-- The switch is the same, or it is off where that is excused. -/
  typeless {w s t} : C.state w s t →
    C.lenient ∧ s.session.config.typelessFunctions = false ∨
      s.session.config.typelessFunctions = t.session.config.typelessFunctions
  scopes {w s t} : C.state w s t → (Link.scopes C.types C.vars).rel w s.scopes t.scopes
  /-- Counting constructs keeps the correspondence. -/
  deepened {w s t} (n : Nat) : C.state w s t → C.state w { s with depth := n } { t with depth := n }
  primitive {w s t} (p : Primitive) : C.state w s t → C.types.rel w p.typeId p.typeId
  void {w s t x y} : C.state w s t → C.types.rel w x y →
    (x = Primitive.void.typeId ↔ y = Primitive.void.typeId)
  /-- Both of two types that go together are variadic, or none is. -/
  vararg {w s t x y} : C.state w s t → C.types.rel w x y →
    s.session.types.isVararg x = t.session.types.isVararg y
  checked {w s t xs ys} : C.state w s t → C.types.list.rel w xs ys →
    s.session.types.hasMisplacedVararg xs = false → C.ordered w xs
  denotes {w s t} : C.rooted → C.state w s t →
    s.session.types.get? Primitive.void.typeId = some (.primitive .void)
  /-- Variables that go together have types that do. -/
  typeOf {w s t x y} : C.state w s t → C.vars.rel w x y →
    C.types.rel w (s.session.vars.typeOf x) (t.session.vars.typeOf y)
  nameOf {w s t x y} : C.state w s t → C.vars.rel w x y →
    s.session.vars.nameOf x = t.session.vars.nameOf y
  /-- Interning what is formed keeps the correspondence. -/
  intern {w s t a b} : C.state w s t → C.types.shape.rel w a b → C.Formed w a → C.Interns w s t a b
  /-- Adding a variable keeps the correspondence. -/
  alloc {w s t a b} : C.state w s t → C.declared.rel w a b →
    ∃ v, w ≤ v ∧
      C.vars.rel v (VariableArena.alloc a s.session.vars).1
        (VariableArena.alloc b t.session.vars).1 ∧
      C.state v
        { s with session := { s.session with vars := (VariableArena.alloc a s.session.vars).2 } }
        { t with session := { t.session with vars := (VariableArena.alloc b t.session.vars).2 } }

/-- Moreover the innermost scope may change. -/
structure Lawful : Prop extends C.Legible where
  /-- Changing the innermost scope keeps the correspondence, if no type is defined. -/
  modified {w s t} {f g : Scope → Scope} : C.state w s t → (∀ x, (f x).types = x.types) →
    (∀ x, (f x).exportedTypes = x.exportedTypes) →
    (∀ x y, C.scope.rel w x y → C.scope.rel w (f x) (g y)) →
    C.state w { s with scopes := s.scopes.modifyCurrent f }
      { t with scopes := t.scopes.modifyCurrent g }

variable {C} {w : C.World} {R : Link C.World α β} {Q : Link C.World γ δ} {k : Option Kind}

theorem Counts.first {p : Parser α} {f : α → Parser γ} {env : ParserEnv} {s : ParserState}
    (h : C.Counts ((p >>= f) env s).1) : C.Counts (p env s).1 := by
  intro hlenient
  obtain ⟨b, hb⟩ := h hlenient
  obtain ⟨a, _, ha, -⟩ := Parser.bind_eq_ok.1 (Prod.ext hb rfl)
  exact ⟨a, congrArg Prod.fst ha⟩

theorem Counts.of_map {r : Except Fault α} {f : α → γ} (h : C.Counts (r.map f)) : C.Counts r := by
  intro hlenient
  obtain ⟨b, hb⟩ := h hlenient
  cases r with
  | ok a => exact ⟨a, rfl⟩
  | error f => cases hb

namespace AgreesAt

variable {p : Parser α} {q : Parser β}

theorem meet (h : C.Agrees w R p q) {env env' : ParserEnv} (henv : C.env env env') {s t : ParserState}
    (hst : C.state w s t) : C.Meet w R (p env s) (q env' t) :=
  h env env' henv s t hst fun kind hkind => absurd hkind (Option.not_mem_none kind)

theorem here (h : C.Agrees w R p q) : C.AgreesAt k w R p q :=
  fun _ _ henv _ _ hst _ => h.meet henv hst

theorem pure {x : α} {y : β} (h : R.rel w x y) : C.AgreesAt k w R (Pure.pure x) (Pure.pure y) :=
  fun _ _ _ _ _ hst _ _ => ⟨w, le_refl w, .ok h, hst⟩

theorem fail {a b : Span} (hab : C.regard.place a b) (cause : Cause) :
    C.AgreesAt k w R (Parser.fail a cause) (Parser.fail b cause) :=
  fun _ _ _ _ _ hst _ _ => ⟨w, le_refl w, .error cause hab, hst⟩

theorem modify_bind {f g : ParserState → ParserState}
    (h : ∀ s t, C.state w s t → C.state w (f s) (g t)) {p' : Unit → Parser α} {q' : Unit → Parser β}
    (hnext : C.Agrees w R (p' ()) (q' ())) :
    C.AgreesAt k w R (Parser.modify f >>= p') (Parser.modify g >>= q') :=
  fun _ _ henv s t hst _ => hnext.meet henv (h s t hst)

/-- Readers one after the other correspond. -/
theorem bind (h : C.AgreesAt k w R p q) {p' : α → Parser γ} {q' : β → Parser δ}
    (hnext : ∀ v x y, w ≤ v → R.rel v x y → C.Agrees v Q (p' x) (q' y)) :
    C.AgreesAt k w Q (p >>= p') (q >>= q') := by
  intro env env' henv s t hst hk hcounts
  obtain ⟨v, hwv, hfound, hv⟩ := h env env' henv s t hst hk hcounts.first
  rw [Parser.bind_apply] at hcounts
  rw [Parser.bind_apply, Parser.bind_apply]
  generalize p env s = x at hfound hv hcounts ⊢
  generalize q env' t = y at hfound hv ⊢
  obtain ⟨x, s'⟩ := x
  obtain ⟨y, t'⟩ := y
  cases hfound with
  | error cause hab => exact ⟨v, hwv, .error cause hab, hv⟩
  | ok hxy =>
    -- the second step goes on in the world that the first one came to
    obtain ⟨u, hvu, h⟩ := (hnext v _ _ hwv hxy).meet henv hv hcounts
    exact ⟨u, le_trans hwv hvu, h⟩

theorem of_state (h : ∀ s t, C.state w s t → C.AgreesAt k w R p q) : C.AgreesAt k w R p q :=
  fun env env' henv s t hst => h s t hst env env' henv s t hst

theorem gets_bind {f : ParserState → γ} {g : ParserState → δ} {p' : γ → Parser α}
    {q' : δ → Parser β} (h : ∀ s t, C.state w s t → C.AgreesAt k w R (p' (f s)) (q' (g t))) :
    C.AgreesAt k w R (gets f >>= p') (gets g >>= q') :=
  fun env env' henv s t hst => h s t hst env env' henv s t hst

theorem ofExcept_bind {x : Except Fault γ} {y : Except Fault δ}
    (h : C.Counts x → C.FoundRel (Q.rel w) x y) {p' : γ → Parser α} {q' : δ → Parser β}
    (hnext : ∀ a b, Q.rel w a b → C.AgreesAt k w R (p' a) (q' b)) :
    C.AgreesAt k w R (Parser.ofExcept x >>= p') (Parser.ofExcept y >>= q') := by
  intro env env' henv s t hst hk hcounts
  have hfound := h fun hlenient => by
    obtain ⟨a, ha⟩ := hcounts.first hlenient
    cases x with
    | ok x => exact ⟨x, rfl⟩
    | error f => cases ha
  cases hfound with
  | ok hab => exact hnext _ _ hab env env' henv s t hst hk hcounts
  | error cause hab => exact ⟨w, le_refl w, .error cause hab, hst⟩

theorem imp {Q : Link C.World α β} (h : C.AgreesAt k w R p q)
    (hRQ : ∀ v x y, R.rel v x y → Q.rel v x y) : C.AgreesAt k w Q p q := by
  intro env env' henv s t hst hk hcounts
  obtain ⟨v, hwv, hfound, hv⟩ := h env env' henv s t hst hk hcounts
  exact ⟨v, hwv, hfound.imp (hRQ v), hv⟩

/-- What corresponds succeeds or fails on both sides. -/
theorem run (h : C.Agrees w R p q) (hstrict : ¬C.lenient) {env env' : ParserEnv}
    (henv : C.env env env') {s t : ParserState} (hst : C.state w s t) :
    ∃ v, w ≤ v ∧ C.FoundRel (R.rel v) (p env s).1 (q env' t).1 ∧
      C.state v (p env s).2 (q env' t).2 :=
  h.meet henv hst fun hlenient => absurd hlenient hstrict

/-- A fault may be excused. -/
theorem excused (h : C.lenient) {span : Span} {cause : Cause} :
    C.AgreesAt k w R (Parser.fail span cause) q := by
  intro env env' henv s t hst hk hcounts
  obtain ⟨a, ha⟩ := hcounts h
  cases ha

theorem restoring (h : C.AgreesAt k w R p q)
    {restore : ParserState → ParserState → ParserState}
    (hrestore : ∀ v s t s' t', C.state w s t → C.state v s' t' →
      C.state v (restore s s') (restore t t')) :
    C.AgreesAt k w R (Parser.restoring p restore) (Parser.restoring q restore) := by
  intro env env' henv s t hst hk hcounts
  obtain ⟨v, hwv, hfound, hv⟩ := h env env' henv s t hst hk hcounts
  exact ⟨v, hwv, hfound, hrestore v s t _ _ hst hv⟩

theorem mapM {p : α → Parser γ} {q : β → Parser δ} {xs : List α} {ys : List β}
    (hxy : R.list.rel w xs ys)
    (hpq : ∀ v x y, R.rel v x y → C.Agrees v Q (p x) (q y)) :
    C.Agrees w Q.list (xs.mapM p) (ys.mapM q) := by
  induction xs generalizing w ys with
  | nil =>
    cases hxy with
    | nil => exact pure .nil
  | cons x xs ih =>
    cases hxy with
    | cons hx hxs =>
      rw [List.mapM_cons, List.mapM_cons]
      refine (hpq w _ _ hx).bind fun v x' y' hwv hx' => ?_
      refine (ih (R.list.mono hwv hxs)).bind fun u xs' ys' hvu hxs' => ?_
      exact pure (.cons (Q.mono hvu hx') hxs')

end AgreesAt

/-! ## Tokens -/

namespace Legible

variable (hC : C.Legible)

include hC

theorem current_bind {p : Token → Parser α} {q : Token → Parser β}
    (h : ∀ a b, C.tokens.rel w a b → C.AgreesAt k w R (p a) (q b)) :
    C.AgreesAt k w R (Parser.current >>= p) (Parser.current >>= q) :=
  .gets_bind fun _ _ hst => h _ _ (hC.current hst)

theorem currentSpan_bind {p : Span → Parser α} {q : Span → Parser β}
    (h : ∀ a b, C.regard.place a b → C.AgreesAt k w R (p a) (q b)) :
    C.AgreesAt k w R (currentSpan >>= p) (currentSpan >>= q) :=
  hC.current_bind fun _ _ hab => h _ _ hab.2.2

theorem currentKind_bind {p : Kind → Parser α} {q : Kind → Parser β}
    (h : ∀ kind, C.AgreesAt (some kind) w R (p kind) (q kind)) :
    C.Agrees w R (currentKind >>= p) (currentKind >>= q) := by
  intro env env' henv s t hst _ hcounts
  have hrun : (currentKind >>= q) env' t = q s.stream.current.kind env' t := by
    rw [(hC.current hst).1]
    rfl
  rw [hrun]
  refine h _ env env' henv s t hst ?_ hcounts
  rintro _ ⟨⟩
  rfl

theorem check_bind (kind : Kind) {p : Bool → Parser α} {q : Bool → Parser β}
    (hit : C.AgreesAt (some kind) w R (p true) (q true))
    (miss : C.Agrees w R (p false) (q false)) :
    C.Agrees w R (check kind >>= p) (check kind >>= q) := by
  refine hC.currentKind_bind (p := fun k => p (k == kind)) (q := fun k => q (k == kind)) ?_
  intro k
  by_cases hk : k = kind
  · subst hk
    rw [beq_self_eq_true]
    exact hit
  · rw [beq_false_of_ne hk]
    exact miss.here

theorem peekKind_bind (count : Nat) {p : Kind → Parser α} {q : Kind → Parser β}
    (h : ∀ kind, C.AgreesAt k w R (p kind) (q kind)) :
    C.AgreesAt k w R (peekKind count >>= p) (peekKind count >>= q) := by
  simp only [peekKind, bind_assoc, pure_bind]
  refine .gets_bind fun s t hst => ?_
  refine AgreesAt.ofExcept_bind (Q := C.kinds) (hC.peek count hst) fun a b hab => ?_
  rw [show a.kind = b.kind from hab]
  exact h b.kind

/-- One token is taken on both sides. -/
theorem step_bind {kind : Kind} (hkind : C.Passes kind) {f : Parser γ} {g : Parser δ}
    {x : Token → γ} {y : Token → δ}
    (hf : ∀ env s, s.stream.current.kind = kind →
      f env s = (s.stream.next.1.map fun _ => x s.stream.current, s.next))
    (hg : ∀ env s, s.stream.current.kind = kind →
      g env s = (s.stream.next.1.map fun _ => y s.stream.current, s.next))
    {p : γ → Parser α} {q : δ → Parser β}
    (h : ∀ a b, C.tokens.rel w a b → C.Agrees w R (p (x a)) (q (y b))) :
    C.AgreesAt (some kind) w R (f >>= p) (g >>= q) := by
  intro env env' henv s t hst hk hcounts
  have hs : s.stream.current.kind = kind := hk kind rfl
  have ht : t.stream.current.kind = kind := (hC.current hst).1 ▸ hs
  -- the token counts wherever the whole reader does
  have hfirst : C.Counts s.stream.next.1 := by
    have hstep := hcounts.first
    rw [hf env s hs] at hstep
    exact hstep.of_map
  have hfound := hC.next hst hfirst
  have hnext := hkind hst hs hfirst
  rw [Parser.bind_apply, hf env s hs] at hcounts ⊢
  rw [Parser.bind_apply, hg env' t ht]
  generalize s.stream.next.1 = r at hfound hcounts ⊢
  generalize t.stream.next.1 = r' at hfound ⊢
  cases hfound with
  | error cause hab => exact ⟨w, le_refl w, .error cause hab, hnext⟩
  | ok _ => exact (h _ _ (hC.current hst)).meet henv hnext hcounts

theorem advance_bind {kind : Kind} (hkind : C.Passes kind) {p : Unit → Parser α}
    {q : Unit → Parser β} (h : C.Agrees w R (p ()) (q ())) :
    C.AgreesAt (some kind) w R (advance >>= p) (advance >>= q) := by
  have hadvance : ∀ env s, s.stream.current.kind = kind →
      advance env s = (s.stream.next.1.map fun _ => (), s.next) := by
    intro env s _
    show (s.stream.next.1, s.next) = _
    cases s.stream.next.1 <;> rfl
  exact hC.step_bind hkind hadvance hadvance fun _ _ _ => h

theorem take_bind {kind : Kind} (hkind : C.Passes kind) {p : Token → Parser α}
    {q : Token → Parser β} (h : ∀ a b, C.tokens.rel w a b → C.Agrees w R (p a) (q b)) :
    C.AgreesAt (some kind) w R (take >>= p) (take >>= q) :=
  hC.step_bind hkind (fun env s _ => take_apply env s) (fun env s _ => take_apply env s) h

theorem eat_bind (kind : Kind) (hkind : kind ≠ .kwInterface) {p : Bool → Parser α}
    {q : Bool → Parser β} (hit : C.Agrees w R (p true) (q true))
    (miss : C.Agrees w R (p false) (q false)) :
    C.AgreesAt k w R (eat kind >>= p) (eat kind >>= q) := by
  refine .here ?_
  unfold eat
  rw [bind_assoc, bind_assoc]
  refine hC.check_bind kind ?_ miss
  simp only [if_true, bind_assoc, pure_bind]
  exact hC.advance_bind (hC.passes hkind) hit

theorem expect_step {kind : Kind} (hkind : C.Passes kind) {p : Token → Parser α}
    {q : Token → Parser β} (h : ∀ a b, C.tokens.rel w a b → C.Agrees w R (p a) (q b)) :
    C.AgreesAt k w R (expect kind >>= p) (expect kind >>= q) := by
  refine .here ?_
  unfold expect
  rw [bind_assoc, bind_assoc]
  refine hC.check_bind kind (hC.take_bind hkind h) ?_
  simp only [Bool.false_eq_true, if_false, bind_assoc]
  refine hC.current_bind fun a b hab => ?_
  rw [C.expected_cause_eq kind hab]
  exact AgreesAt.fail (R := R) hab.2.2 _

theorem expect_bind (kind : Kind) (hkind : kind ≠ .kwInterface) {p : Token → Parser α}
    {q : Token → Parser β} (h : ∀ a b, C.tokens.rel w a b → C.Agrees w R (p a) (q b)) :
    C.AgreesAt k w R (expect kind >>= p) (expect kind >>= q) :=
  hC.expect_step (hC.passes hkind) h

theorem identifier_bind {p : String × Span → Parser α} {q : String × Span → Parser β}
    (h : ∀ name a b, C.regard.place a b → C.Agrees w R (p (name, a)) (q (name, b))) :
    C.AgreesAt k w R (identifier >>= p) (identifier >>= q) := by
  simp only [identifier, bind_assoc, pure_bind]
  refine hC.expect_bind .identifier (by decide) fun a b hab => ?_
  rw [hab.2.1]
  exact h b.text a.span b.span hab.2.2

theorem unexpected (construct : String) :
    C.AgreesAt k w R (unexpected construct) (unexpected construct) := by
  refine hC.current_bind fun a b hab => ?_
  have hcause : (Fault.unexpected a construct).cause = (Fault.unexpected b construct).cause := by
    unfold Fault.unexpected
    rw [hab.1, hab.2.1]
  rw [hcause]
  exact .fail hab.2.2 _

theorem spanFrom_bind {a b : Span} (hab : C.regard.place a b) {p : Span → Parser α}
    {q : Span → Parser β} (h : ∀ a b, C.regard.place a b → C.AgreesAt k w R (p a) (q b)) :
    C.AgreesAt k w R (spanFrom a >>= p) (spanFrom b >>= q) :=
  .gets_bind fun _ _ hst => h _ _ (hC.spanned hst hab)

/-! ## Nesting -/

theorem tooDeep (construct : String) : C.AgreesAt k w R (tooDeep construct) (tooDeep construct) :=
  hC.currentSpan_bind fun _ _ hab => .fail hab _

theorem deepen_bind (construct : String) {p : Unit → Parser α} {q : Unit → Parser β}
    (h : C.Agrees w R (p ()) (q ())) :
    C.Agrees w R (deepen construct >>= p) (deepen construct >>= q) := by
  simp only [deepen, bind_assoc]
  refine .gets_bind fun s t hst => ?_
  rw [hC.depth hst]
  split
  · intro env env' henv s t hst _
    have hopened : C.state w { s with depth := s.depth + 1 } { t with depth := t.depth + 1 } := by
      rw [hC.depth hst]
      exact hC.deepened _ hst
    exact h.meet henv hopened
  · unfold Parser.tooDeep
    rw [bind_assoc, bind_assoc]
    exact hC.currentSpan_bind fun _ _ hab => AgreesAt.fail (R := R) hab _

theorem nested (construct : String) {p : Parser α} {q : Parser β}
    (h : C.Agrees w R p q) : C.AgreesAt k w R (nested construct p) (nested construct q) := by
  refine .here (hC.deepen_bind construct (h.restoring fun u s t s' t' _ hst => ?_))
  rw [hC.depth hst]
  exact hC.deepened _ hst

theorem chain {p : Parser α} {q : Parser β} (h : C.Agrees w R p q) :
    C.AgreesAt k w R (chain p) (chain q) := by
  refine .here (h.restoring fun v s t s' t' hst hst' => ?_)
  rw [hC.depth hst]
  exact hC.deepened _ hst'

theorem room_bind {p : Nat → Parser α} {q : Nat → Parser β}
    (h : ∀ n, C.AgreesAt k w R (p n) (q n)) : C.AgreesAt k w R (room >>= p) (room >>= q) := by
  refine .gets_bind fun s t hst => ?_
  show C.AgreesAt k w R (p (nestingLimit - s.depth)) (q (nestingLimit - t.depth))
  rw [hC.depth hst]
  exact h _

/-! ## Repetition -/

theorem fuel_bind {p : Nat → Parser α} {q : Nat → Parser β}
    (h : ∀ n, C.AgreesAt k w R (p n) (q n)) : C.AgreesAt k w R (fuel >>= p) (fuel >>= q) := by
  refine .gets_bind fun s t hst => ?_
  show C.AgreesAt k w R (p (s.stream.upcoming.length + 1)) (q (t.stream.upcoming.length + 1))
  rw [hC.length hst]
  exact h _

variable {item item' : Parser α} {R : Link C.World α α}

theorem commaTail (h : ∀ w, C.Agrees w R item item') (n : Nat) :
    C.Agrees w R.list (commaTail item n) (commaTail item' n) := by
  induction n generalizing w with
  | zero => exact .pure .nil
  | succ n ih =>
    refine hC.eat_bind .comma (by decide) ?_ (.pure .nil)
    refine (h w).bind fun v x y _ hxy => ih.bind fun u xs ys hvu hxys => ?_
    exact .pure (.cons (R.mono hvu hxy) hxys)

/-- Lists correspond if their items do. -/
theorem commaList (h : ∀ w, C.Agrees w R item item') :
    C.AgreesAt k w R.list (commaList item) (commaList item') := by
  refine .here ((h w).bind fun v x y _ hxy => hC.fuel_bind fun n => ?_)
  refine (hC.commaTail h n).bind fun u xs ys hvu hxys => ?_
  exact .pure (.cons (R.mono hvu hxy) hxys)

theorem entries (h : ∀ w, C.Agrees w R item item') (close : Kind) (n : Nat) :
    C.Agrees w R.list (entries item close n) (entries item' close n) := by
  induction n generalizing w with
  | zero => exact .pure .nil
  | succ n ih =>
    refine hC.check_bind close (.pure .nil) ?_
    refine (h w).bind fun v x y _ hxy => ?_
    -- either separator leads to the rest
    have hmore : C.Agrees v R.list (Parser.entries item close n >>= fun xs => pure (x :: xs))
        (Parser.entries item' close n >>= fun ys => pure (y :: ys)) :=
      ih.bind fun u xs ys hvu hxys => .pure (.cons (R.mono hvu hxy) hxys)
    unfold separator
    rw [bind_assoc, bind_assoc]
    refine hC.eat_bind .comma (by decide) hmore ?_
    exact hC.eat_bind .semicolon (by decide) hmore (.pure (.cons hxy .nil))

/-- So do entries between braces. -/
theorem braceTail (h : ∀ w, C.Agrees w R item item') :
    C.Agrees w R.list (braceTail item) (braceTail item') := by
  refine hC.fuel_bind fun n => (hC.entries h .rightBrace n).bind fun v xs ys _ hxys => ?_
  exact hC.expect_bind .rightBrace (by decide) fun _ _ _ => .pure hxys

/-! ## Scopes and session -/

/-- Shapes that correspond are interned alike. -/
theorem internType {a b : Shape} (hab : C.types.shape.rel w a b) (ha : C.Formed w a) :
    C.AgreesAt k w C.types (internType a) (internType b) := by
  intro env env' _ s t hst _ _
  obtain ⟨v, hwv, hid, hv⟩ := hC.intern hst hab ha
  exact ⟨v, hwv, .ok hid, hv⟩

theorem allocVariable {a b : Variable} (hab : C.declared.rel w a b) :
    C.AgreesAt k w C.vars (allocVariable a) (allocVariable b) := by
  intro env env' _ s t hst _ _
  obtain ⟨v, hwv, hid, hv⟩ := hC.alloc hst hab
  exact ⟨v, hwv, .ok hid, hv⟩

end Legible

end Correspondence

end TypedLua
