import TypedLua.Proofs.Grammar.Reads
import TypedLua.Proofs.Grammar.Success
import TypedLua.Proofs.Token.References
import TypedLua.Proofs.Types.Hygiene

/-!
# Grammar.Renamed

Reading a text and the same text with parameters of one interface renamed.  The two states have the
same kinds of tokens left, the scopes bind types that correspond, and the variables have types that
do.  A reader follows another if it succeeds whenever the other does, with a result and a state that
go together with those of the other.

This module has the rules for such readers, and those of tokens, of nested and of repeated
constructs.

Main statements: `Respelling.State.next` and `Follows.bind`.
-/

namespace TypedLua

open Text TypedLua.Parser
open Token (Kind Place Matches naming placeAfter)

/-! ## States that go together -/

/-- Any two values. -/
def Link.any {W : Type} [Preorder W] {α β : Type} : Link W α β where
  rel _ _ _ := True
  mono _ _ _ h := h

/-- How names of a text are renamed, and how that is undone. -/
structure Respelling where
  occurs : String → Prop
  rename : String → String
  back : String → String
  back_rename {name : String} : occurs name → back (rename name) = name
  back_self {name : String} : occurs name → back name = name

namespace Respelling

variable (N : Respelling)

/-- Types correspond up to the renaming. -/
abbrev types : Link Sides TypeId TypeId := Sides.types N.back

/-- Variables go together if they have one name and types that correspond. -/
abbrev declared : Link Sides Variable Variable := N.types.declared Regard.names.place

/-- Scopes that bind the same names. -/
abbrev plain : Link Sides ScopeStack ScopeStack := .scopes N.types .same

/-- Two states in which the same declarations were read, and the same kinds of tokens are left. -/
structure State (place : Option Place) (L : Link Sides ScopeStack ScopeStack) (w : Sides)
    (s t : ParserState) : Prop where
  /-- The texts that are left differ in the names of parameters. -/
  tokens : Matches N.rename place s.stream.contents t.stream.contents
  last : ∃ text, s.stream.contents.getLast? = some (some (.eof, text))
  occurs : ∀ name, some (.identifier, name) ∈ s.stream.contents → N.occurs name
  imports : ∀ text, some (.kwImport, text) ∉ s.stream.contents
  depth : s.depth = t.depth
  config : s.session.config = t.session.config
  left : s.session.types = w.left
  right : t.session.types = w.right
  vars : N.declared.list.rel w s.session.vars.vars t.session.vars.vars
  scopes : L.rel w s.scopes t.scopes

namespace State

variable {N} {place : Option Place} {L : Link Sides ScopeStack ScopeStack} {w v : Sides}
  {s t : ParserState}

theorem kind_eq (h : N.State place L w s t) : t.stream.current.kind = s.stream.current.kind :=
  Token.Stream.kind_eq h.tokens.kinds_eq

/-- Names are renamed where they count as parameters; all other words are the same. -/
theorem text_eq (h : N.State place L w s t) : t.stream.current.text =
    if s.stream.current.kind = .identifier then naming N.rename place s.stream.current.text
    else s.stream.current.text :=
  h.tokens.head

theorem occurs_current (h : N.State place L w s t) (hkind : s.stream.current.kind = .identifier) :
    N.occurs s.stream.current.text := by
  apply h.occurs
  rw [← hkind]
  exact List.mem_cons_self

theorem contents_eq (h : N.State place L w s t) (hok : s.stream.next.1 = .ok ())
    (hkind : s.stream.current.kind ≠ .eof) : t.stream.next.1 = .ok () ∧
      s.stream.contents = some s.stream.current.content :: s.next.stream.contents ∧
      t.stream.contents = some t.stream.current.content :: t.next.stream.contents := by
  obtain ⟨hok', hmoved⟩ := Token.Stream.next_cases h.tokens.kinds_eq hok
  refine ⟨hok', hmoved.resolve_left ?_⟩
  rintro ⟨hnil, -, -⟩
  obtain ⟨text, hlast⟩ := h.last
  rw [Token.Stream.contents, hnil] at hlast
  exact hkind (congrArg Prod.fst (Option.some.inj (Option.some.inj hlast)))

theorem advanced (h : N.State place L w s t) {place' : Option Place}
    (hs : s.stream.contents = some s.stream.current.content :: s.next.stream.contents)
    (htokens : Matches N.rename place' s.next.stream.contents t.next.stream.contents) :
    N.State place' L w s.next t.next := by
  refine { h with tokens := htokens, last := ?_, occurs := ?_, imports := ?_ }
  · obtain ⟨text, hlast⟩ := h.last
    refine ⟨text, ?_⟩
    rw [hs] at hlast
    exact hlast
  · intro name hname
    apply h.occurs
    rw [hs]
    exact List.mem_cons_of_mem _ hname
  · intro text htext
    apply h.imports text
    rw [hs]
    exact List.mem_cons_of_mem _ htext

/-- One step takes a token on both sides. -/
theorem next (h : N.State place L w s t) (hok : s.stream.next.1 = .ok ())
    (hkind : s.stream.current.kind ≠ .eof)
    (hplace : place = none → s.stream.current.kind ≠ .kwInterface) :
    N.State (placeAfter place s.stream.current.kind) L w s.next t.next := by
  obtain ⟨-, hs, ht⟩ := h.contents_eq hok hkind
  have htokens := h.tokens
  rw [hs, ht] at htokens
  exact h.advanced hs (htokens.tail hplace)

theorem deepened (h : N.State place L w s t) (n : Nat) :
    N.State place L w { s with depth := n } { t with depth := n } :=
  { h with depth := rfl }

theorem retyped (h : N.State place L w s t) (hwv : w ≤ v) :
    N.State place L v (s.withTypes v.left) (t.withTypes v.right) :=
  { h with left := rfl, right := rfl, vars := N.declared.list.mono hwv h.vars,
           scopes := L.mono hwv h.scopes }

theorem rescoped (h : N.State place L w s t) {L' : Link Sides ScopeStack ScopeStack}
    {a b : ScopeStack} (hab : L'.rel w a b) :
    N.State place L' w { s with scopes := a } { t with scopes := b } :=
  { h with scopes := hab }

end State

end Respelling

/-! ## Readers that follow -/

/-- If the one reader succeeds, the other does, and what holds of both results and states is as
given. -/
def Follows {α β : Type} (w : Sides) (s t : ParserState) (p : Parser α) (q : Parser β)
    (Q : Sides → α → ParserState → β → ParserState → Prop) : Prop :=
  ∀ env env' x s', p env s = (.ok x, s') →
    ∃ v y t', w ≤ v ∧ q env' t = (.ok y, t') ∧ Q v x s' y t'

variable {α β γ δ : Type} {w : Sides} {s t : ParserState}

/-- Results and states that go together. -/
def Respelling.Both (N : Respelling) (place : Option Place) (L : Link Sides ScopeStack ScopeStack)
    (R : Link Sides α β) (v : Sides) (x : α) (s : ParserState) (y : β) (t : ParserState) : Prop :=
  R.rel v x y ∧ N.State place L v s t

namespace Follows

variable {p : Parser α} {q : Parser β} {Q Q' : Sides → α → ParserState → β → ParserState → Prop}
  {P : Sides → γ → ParserState → δ → ParserState → Prop}

theorem pure {x : α} {y : β} (h : Q w x s y t) : Follows w s t (Pure.pure x) (Pure.pure y) Q := by
  intro env env' x' s' hx
  cases hx
  exact ⟨w, y, t, le_refl w, rfl, h⟩

/-- Readers one after the other follow each other. -/
theorem bind (h : Follows w s t p q Q) {p' : α → Parser γ} {q' : β → Parser δ}
    (hnext : ∀ v x s' y t', w ≤ v → Q v x s' y t' → Follows v s' t' (p' x) (q' y) P) :
    Follows w s t (p >>= p') (q >>= q') P := by
  intro env env' z s₂ hrun
  obtain ⟨x, s₁, hp, hp'⟩ := Parser.bind_eq_ok.1 hrun
  obtain ⟨v, y, t₁, hwv, hq, hQ⟩ := h env env' x s₁ hp
  obtain ⟨u, z', t₂, hvu, hq', hP⟩ := hnext v x s₁ y t₁ hwv hQ env env' z s₂ hp'
  exact ⟨u, z', t₂, le_trans hwv hvu, Parser.bind_eq_ok.2 ⟨y, t₁, hq, hq'⟩, hP⟩

theorem imp (h : Follows w s t p q Q) (hQ : ∀ v x s' y t', w ≤ v → Q v x s' y t' → Q' v x s' y t') :
    Follows w s t p q Q' := by
  intro env env' x s' hp
  obtain ⟨v, y, t', hwv, hq, h⟩ := h env env' x s' hp
  exact ⟨v, y, t', hwv, hq, hQ v x s' y t' hwv h⟩

theorem fail (span : Span) (cause : Cause) : Follows w s t (Parser.fail span cause) q Q := by
  intro env env' x s' hx
  cases hx

theorem unexpected (construct : String) : Follows w s t (Parser.unexpected construct) q Q := by
  intro env env' x s' hx
  cases hx

theorem tooDeep (construct : String) : Follows w s t (Parser.tooDeep construct) q Q := by
  intro env env' x s' hx
  cases hx

theorem gets_bind {f : ParserState → α} {g : ParserState → β} {p : α → Parser γ} {q : β → Parser δ}
    (h : Follows w s t (p (f s)) (q (g t)) P) : Follows w s t (gets f >>= p) (gets g >>= q) P :=
  h

theorem currentSpan_bind {p : Span → Parser γ} {q : Span → Parser δ}
    (h : ∀ a b, Follows w s t (p a) (q b) P) :
    Follows w s t (currentSpan >>= p) (currentSpan >>= q) P :=
  h _ _

theorem spanFrom_bind {a b : Span} {p : Span → Parser γ} {q : Span → Parser δ}
    (h : ∀ a b, Follows w s t (p a) (q b) P) :
    Follows w s t (spanFrom a >>= p) (spanFrom b >>= q) P :=
  h _ _

theorem restoring (h : Follows w s t p q Q) {restore : ParserState → ParserState → ParserState}
    (hQ : ∀ v x s' y t', Q v x s' y t' → Q' v x (restore s s') y (restore t t')) :
    Follows w s t (Parser.restoring p restore) (Parser.restoring q restore) Q' := by
  intro env env' x s' hp
  have hx : (p env s).1 = .ok x := congrArg Prod.fst hp
  obtain ⟨v, y, t', hwv, hq, h⟩ := h env env' x (p env s).2 (by rw [← hx])
  refine ⟨v, y, restore t t', hwv, ?_, ?_⟩
  · show ((q env' t).1, restore t (q env' t).2) = _
    rw [hq]
  · rw [← show restore s (p env s).2 = s' from congrArg Prod.snd hp]
    exact hQ v x _ y t' h

/-! ## Tokens -/

section

variable {N : Respelling} {place : Option Place} {L : Link Sides ScopeStack ScopeStack} {k : Kind}

theorem currentKind_bind (h : N.State place L w s t) {p : Kind → Parser γ} {q : Kind → Parser δ}
    (hp : Follows w s t (p s.stream.current.kind) (q s.stream.current.kind) P) :
    Follows w s t (currentKind >>= p) (currentKind >>= q) P := by
  show Follows w s t (p s.stream.current.kind) (q t.stream.current.kind) P
  rw [h.kind_eq]
  exact hp

theorem check_bind (h : N.State place L w s t) {p : Bool → Parser γ} {q : Bool → Parser δ}
    (hit : s.stream.current.kind = k → Follows w s t (p true) (q true) P)
    (miss : s.stream.current.kind ≠ k → Follows w s t (p false) (q false) P) :
    Follows w s t (check k >>= p) (check k >>= q) P := by
  show Follows w s t (p (s.stream.current.kind == k)) (q (t.stream.current.kind == k)) P
  rw [h.kind_eq]
  by_cases hk : s.stream.current.kind = k
  · rw [beq_iff_eq.2 hk]
    exact hit hk
  · rw [beq_false_of_ne hk]
    exact miss hk

theorem peekKind_bind (h : N.State place L w s t) {count : Nat} {p : Kind → Parser γ}
    {q : Kind → Parser δ}
    (hp : ∀ token, s.stream.peek count = .ok token →
      Follows w s t (p token.kind) (q token.kind) P) :
    Follows w s t (peekKind count >>= p) (peekKind count >>= q) P := by
  intro env env' z s₂ hrun
  obtain ⟨k, s₁, hpeek, hrun⟩ := Parser.bind_eq_ok.1 hrun
  obtain ⟨stream, s₀, hstream, hpeek⟩ := Parser.bind_eq_ok.1 hpeek
  cases hstream
  cases htoken : s.stream.peek count with
  | error f =>
    rw [htoken] at hpeek
    cases hpeek
  | ok token =>
    rw [htoken] at hpeek
    cases hpeek
    obtain ⟨token', htoken', hkind⟩ := Token.Stream.peek_kind_eq count h.tokens.kinds_eq htoken
    obtain ⟨v, z', t₂, hwv, hq, hP⟩ := hp token htoken env env' z s₂ hrun
    refine ⟨v, z', t₂, hwv, ?_, hP⟩
    rw [Parser.bind_eq_ok]
    refine ⟨token.kind, t, ?_, hq⟩
    rw [← hkind]
    show (ofExcept (t.stream.peek count) >>= fun token =>
      Pure.pure token.kind : Parser Kind) env' t = _
    rw [htoken']
    rfl

theorem ahead_bind (k k' : Kind) (hk : k ≠ .eof) (h : N.State place L w s t) {p : Bool → Parser γ}
    {q : Bool → Parser δ}
    (hit : s.stream.current.kind = k → s.next.stream.current.kind = k' →
      Follows w s t (p true) (q true) P)
    (miss : Follows w s t (p false) (q false) P) :
    Follows w s t
      ((do if ← check k then return (← peekKind 1) == k' else return false : Parser Bool) >>= p)
      ((do if ← check k then return (← peekKind 1) == k' else return false : Parser Bool) >>= q)
      P := by
  rw [bind_assoc, bind_assoc]
  refine check_bind h (fun hkind => ?_) fun _ => miss
  show Follows w s t ((peekKind 1 >>= fun kind => Pure.pure (kind == k')) >>= p)
    ((peekKind 1 >>= fun kind => Pure.pure (kind == k')) >>= q) P
  rw [bind_assoc, bind_assoc]
  refine peekKind_bind h fun token hpeek => ?_
  show Follows w s t (p (token.kind == k')) (q (token.kind == k')) P
  by_cases hahead : token.kind = k'
  · rw [beq_iff_eq.2 hahead]
    apply hit hkind
    show s.stream.next.2.current.kind = _
    rw [Token.Stream.next_of_peek_one hpeek (by rwa [hkind]), hahead]
  · rw [beq_false_of_ne hahead]
    exact miss

theorem fuel_bind (h : N.State place L w s t) {p : Nat → Parser γ} {q : Nat → Parser δ}
    (hp : ∀ n, Follows w s t (p n) (q n) P) : Follows w s t (fuel >>= p) (fuel >>= q) P := by
  show Follows w s t (p (s.stream.upcoming.length + 1)) (q (t.stream.upcoming.length + 1)) P
  rw [Token.Stream.length_upcoming_eq h.tokens.kinds_eq]
  exact hp _

theorem step_bind {f : Parser α} {g : Parser β} {x : α} {y : β}
    (hf : ∀ env, f env s = (s.stream.next.1.map fun _ => x, s.next))
    (hg : ∀ env, g env t = (t.stream.next.1.map fun _ => y, t.next)) {p : α → Parser γ}
    {q : β → Parser δ} (hp : s.stream.next.1 = .ok () →
      t.stream.next.1 = .ok () ∧ Follows w s.next t.next (p x) (q y) P) :
    Follows w s t (f >>= p) (g >>= q) P := by
  intro env env' z s₂ hrun
  obtain ⟨x', s₁, hfirst, hrun⟩ := Parser.bind_eq_ok.1 hrun
  rw [hf] at hfirst
  cases hnext : s.stream.next.1 with
  | error fault =>
    rw [hnext] at hfirst
    cases hfirst
  | ok u =>
    rw [hnext] at hfirst
    cases hfirst
    obtain ⟨hok, hfollows⟩ := hp hnext
    obtain ⟨v, z', t₂, hwv, hq, hP⟩ := hfollows env env' z s₂ hrun
    refine ⟨v, z', t₂, hwv, Parser.bind_eq_ok.2 ⟨y, t.next, ?_, hq⟩, hP⟩
    rw [hg, hok]
    rfl

theorem next_bind (h : N.State place L w s t) (hkind : s.stream.current.kind = k)
    (hk : k ≠ .eof ∧ k ≠ .kwInterface) {f : Parser α} {g : Parser β} {x : α} {y : β}
    (hf : ∀ env, f env s = (s.stream.next.1.map fun _ => x, s.next))
    (hg : ∀ env, g env t = (t.stream.next.1.map fun _ => y, t.next)) {p : α → Parser γ}
    {q : β → Parser δ}
    (hp : s.stream.contents = some (k, s.stream.current.text) :: s.next.stream.contents →
      N.State (placeAfter place k) L w s.next t.next → Follows w s.next t.next (p x) (q y) P) :
    Follows w s t (f >>= p) (g >>= q) P := by
  subst hkind
  refine step_bind hf hg fun hok => ?_
  obtain ⟨hok', hcontents, -⟩ := h.contents_eq hok hk.1
  exact ⟨hok', hp hcontents (h.next hok hk.1 fun _ => hk.2)⟩

theorem advance_bind (h : N.State place L w s t) (hkind : s.stream.current.kind = k)
    (hk : k ≠ .eof ∧ k ≠ .kwInterface) {p : Unit → Parser γ} {q : Unit → Parser δ}
    (hp : N.State (placeAfter place k) L w s.next t.next →
      Follows w s.next t.next (p ()) (q ()) P) :
    Follows w s t (advance >>= p) (advance >>= q) P := by
  have hadvance : ∀ (u : ParserState) (env : ParserEnv),
      advance env u = (u.stream.next.1.map fun _ => (), u.next) := by
    intro u env
    show (u.stream.next.1, u.next) = _
    cases u.stream.next.1 <;> rfl
  exact next_bind h hkind hk (hadvance s) (hadvance t) fun _ => hp

theorem eat_bind (h : N.State place L w s t) (hk : k ≠ .eof ∧ k ≠ .kwInterface)
    {p : Bool → Parser γ} {q : Bool → Parser δ}
    (hit : s.stream.contents = some (k, s.stream.current.text) :: s.next.stream.contents →
      N.State (placeAfter place k) L w s.next t.next →
      Follows w s.next t.next (p true) (q true) P)
    (miss : s.stream.current.kind ≠ k → Follows w s t (p false) (q false) P) :
    Follows w s t (eat k >>= p) (eat k >>= q) P := by
  by_cases hkind : s.stream.current.kind = k
  · refine next_bind h hkind hk (fun env => ?_) (fun env => ?_) hit
    · rw [eat_apply, if_pos hkind]
    · rw [eat_apply, if_pos (h.kind_eq.trans hkind)]
  · intro env env' z s₂ hrun
    rw [Parser.bind_apply, eat_apply, if_neg hkind] at hrun
    rw [Parser.bind_apply, eat_apply, if_neg fun hk => hkind (h.kind_eq.symm.trans hk)]
    exact miss hkind env env' z s₂ hrun

theorem expect_step (h : N.State place L w s t) {p : Token → Parser γ} {q : Token → Parser δ}
    (hp : s.stream.current.kind = k → s.stream.next.1 = .ok () → t.stream.next.1 = .ok () ∧
      Follows w s.next t.next (p s.stream.current) (q t.stream.current) P) :
    Follows w s t (expect k >>= p) (expect k >>= q) P := by
  by_cases hkind : s.stream.current.kind = k
  · refine step_bind (fun env => ?_) (fun env => ?_) (hp hkind)
    · rw [expect_apply, if_pos hkind]
    · rw [expect_apply, if_pos (h.kind_eq.trans hkind)]
  · intro env env' z s₂ hrun
    rw [Parser.bind_apply, expect_apply, if_neg hkind] at hrun
    cases hrun

theorem expect_bind (h : N.State place L w s t) (hk : k ≠ .eof ∧ k ≠ .kwInterface)
    {p : Token → Parser γ} {q : Token → Parser δ}
    (hp : s.stream.current.kind = k → N.State (placeAfter place k) L w s.next t.next →
      Follows w s.next t.next (p s.stream.current) (q t.stream.current) P) :
    Follows w s t (expect k >>= p) (expect k >>= q) P := by
  refine expect_step h fun hkind hok => ?_
  subst hkind
  exact ⟨(h.contents_eq hok hk.1).1, hp rfl (h.next hok hk.1 fun _ => hk.2)⟩

theorem identifier_bind (h : N.State place L w s t) {p : String × Span → Parser γ}
    {q : String × Span → Parser δ}
    (hp : ∀ name a b, N.occurs name →
      s.stream.contents = some (.identifier, name) :: s.next.stream.contents →
      N.State (placeAfter place .identifier) L w s.next t.next →
      Follows w s.next t.next (p (name, a)) (q (naming N.rename place name, b)) P) :
    Follows w s t (identifier >>= p) (identifier >>= q) P := by
  by_cases hkind : s.stream.current.kind = .identifier
  · have htext := h.text_eq
    rw [if_pos hkind] at htext
    refine next_bind h hkind (by decide) (x := (s.stream.current.text, s.stream.current.span))
      (y := (t.stream.current.text, t.stream.current.span)) (fun env => ?_) (fun env => ?_) ?_
    · rw [identifier_apply, if_pos hkind]
    · rw [identifier_apply, if_pos (h.kind_eq.trans hkind)]
    · rw [htext]
      exact hp _ _ _ (h.occurs_current hkind)
  · intro env env' z s₂ hrun
    rw [Parser.bind_apply, identifier_apply, if_neg hkind] at hrun
    cases hrun

/-! ## Nesting -/

theorem deepen_bind {construct : String} (h : N.State place L w s t) {p : Unit → Parser γ}
    {q : Unit → Parser δ}
    (hp : N.State place L w { s with depth := s.depth + 1 } { t with depth := t.depth + 1 } →
      Follows w { s with depth := s.depth + 1 } { t with depth := t.depth + 1 } (p ()) (q ()) P) :
    Follows w s t (deepen construct >>= p) (deepen construct >>= q) P := by
  have hdeepen : ∀ (u : ParserState) (env : ParserEnv), u.depth < nestingLimit →
      deepen construct env u = (.ok (), { u with depth := u.depth + 1 }) := by
    intro u env hu
    show (if u.depth < nestingLimit then Parser.modify fun s => { s with depth := s.depth + 1 }
      else Parser.tooDeep construct : Parser Unit) env u = _
    rw [if_pos hu]
    rfl
  intro env env' z s₂ hrun
  by_cases hroom : s.depth < nestingLimit
  · rw [Parser.bind_apply, hdeepen s env hroom] at hrun
    rw [Parser.bind_apply, hdeepen t env' (by rwa [← h.depth])]
    refine hp ?_ env env' z s₂ hrun
    rw [← h.depth]
    exact h.deepened _
  · obtain ⟨_, s₁, hfirst, -⟩ := Parser.bind_eq_ok.1 hrun
    change (if s.depth < nestingLimit then Parser.modify fun s => { s with depth := s.depth + 1 }
      else Parser.tooDeep construct : Parser Unit) env s = _ at hfirst
    rw [if_neg hroom] at hfirst
    cases hfirst

variable {place' : Option Place} {R : Link Sides α β}

theorem nested {construct : String} (h : N.State place L w s t)
    (hp : ∀ s t, N.State place L w s t → Follows w s t p q (N.Both place' L R)) :
    Follows w s t (nested construct p) (nested construct q) (N.Both place' L R) := by
  refine deepen_bind h fun h => (hp _ _ h).restoring ?_
  rintro v x s' y t' ⟨hxy, hst⟩
  refine ⟨hxy, ?_⟩
  rw [← hst.depth]
  exact hst.deepened _

theorem chain (h : N.State place L w s t) (hp : Follows w s t p q (N.Both place' L R)) :
    Follows w s t (chain p) (chain q) (N.Both place' L R) := by
  refine hp.restoring ?_
  rintro v x s' y t' ⟨hxy, hst⟩
  refine ⟨hxy, ?_⟩
  rw [← h.depth]
  exact hst.deepened _

/-! ## Repetition -/

theorem consed {x : α} {y : β} {p : Parser (List α)} {q : Parser (List β)} (hxy : R.rel w x y)
    (h : Follows w s t p q (N.Both place L R.list)) :
    Follows w s t (p >>= fun xs => Pure.pure (x :: xs)) (q >>= fun ys => Pure.pure (y :: ys))
      (N.Both place L R.list) := by
  refine h.bind ?_
  rintro v xs s' ys t' hwv ⟨hxys, h⟩
  exact .pure ⟨.cons (R.mono hwv hxy) hxys, h⟩

theorem commaTail (hplace : placeAfter place .comma = place')
    (hitem : ∀ w s t, N.State place' L w s t → Follows w s t p q (N.Both place L R)) (n : Nat)
    (h : N.State place L w s t) :
    Follows w s t (commaTail p n) (commaTail q n) (N.Both place L R.list) := by
  induction n generalizing w s t with
  | zero => exact .pure ⟨.nil, h⟩
  | succ n ih =>
    refine eat_bind h (by decide) (fun _ h => ?_) fun _ => .pure ⟨.nil, h⟩
    rw [hplace] at h
    refine (hitem _ _ _ h).bind ?_
    rintro v x s' y t' - ⟨hxy, h⟩
    exact consed hxy (ih h)

/-- Lists follow each other if their items do. -/
theorem commaList (hplace : placeAfter place .comma = place')
    (hitem : ∀ w s t, N.State place' L w s t → Follows w s t p q (N.Both place L R))
    (h : N.State place' L w s t) :
    Follows w s t (commaList p) (commaList q) (N.Both place L R.list) := by
  refine (hitem _ _ _ h).bind ?_
  rintro v x s' y t' - ⟨hxy, h⟩
  exact fuel_bind h fun n => consed hxy (commaTail hplace hitem n h)

theorem entries (hcomma : placeAfter place .comma = place)
    (hsemicolon : placeAfter place .semicolon = place) {close : Kind}
    (hitem : ∀ w s t, N.State place L w s t → Follows w s t p q (N.Both place L R)) (n : Nat)
    (h : N.State place L w s t) :
    Follows w s t (entries p close n) (entries q close n) (N.Both place L R.list) := by
  induction n generalizing w s t with
  | zero => exact .pure ⟨.nil, h⟩
  | succ n ih =>
    refine check_bind h (fun _ => .pure ⟨.nil, h⟩) fun _ => ?_
    refine (hitem _ _ _ h).bind ?_
    rintro v x s' y t' - ⟨hxy, h⟩
    show Follows v s' t' (Parser.separator >>= _) (Parser.separator >>= _) _
    unfold Parser.separator
    rw [bind_assoc, bind_assoc]
    refine eat_bind h (by decide) (fun _ h => ?_) fun _ => ?_
    · rw [hcomma] at h
      exact consed hxy (ih h)
    · refine eat_bind h (by decide) (fun _ h => ?_) fun _ => .pure ⟨.cons hxy .nil, h⟩
      rw [hsemicolon] at h
      exact consed hxy (ih h)

/-- So do entries between braces. -/
theorem braceTail (hcomma : placeAfter place .comma = place)
    (hsemicolon : placeAfter place .semicolon = place)
    (hitem : ∀ w s t, N.State place L w s t → Follows w s t p q (N.Both place L R))
    (h : N.State place L w s t) : Follows w s t (braceTail p) (braceTail q)
      (N.Both (placeAfter place .rightBrace) L R.list) := by
  refine fuel_bind h fun n => (entries hcomma hsemicolon hitem n h).bind ?_
  rintro v xs s' ys t' - ⟨hxys, h⟩
  exact expect_bind h (by decide) fun _ h => .pure ⟨hxys, h⟩

/-! ## Scopes and session -/

theorem internType_stream (h : N.State place L w s t) {a b : Shape} (hab : w.Layers N.back a b) :
    Follows w s t (internType a) (internType b)
      fun v x s' y t' => s'.stream = s.stream ∧ N.Both place L N.types v x s' y t' := by
  intro env env' id s' hrun
  cases hrun
  obtain ⟨v, hwv, hleft, hright, hid⟩ := Sides.intern hab
  rw [← h.left] at hleft hid
  rw [← h.right] at hright hid
  have hstate := h.retyped hwv
  rw [hleft, hright] at hstate
  exact ⟨v, _, _, hwv, rfl, rfl, hid, hstate⟩

theorem internType (h : N.State place L w s t) {a b : Shape} (hab : w.Layers N.back a b) :
    Follows w s t (Parser.internType a) (Parser.internType b) (N.Both place L N.types) :=
  (internType_stream h hab).imp fun _ _ _ _ _ _ hboth => hboth.2

theorem withScope {L' : Link Sides ScopeStack ScopeStack} (h : N.State place L w s t) {a b : Scope}
    (hab : L'.rel w (s.scopes.push a) (t.scopes.push b))
    (hpop : ∀ v a b, L'.rel v a b → L.rel v a.pop.2 b.pop.2)
    (hp : ∀ s t, N.State place L' w s t → Follows w s t p q (N.Both place' L' R)) :
    Follows w s t (withScope a p) (withScope b q) (N.Both place' L (R.pair .any)) := by
  intro env env' x s' hrun
  obtain ⟨u, hinner, rfl⟩ := withScope_eq_ok hrun
  obtain ⟨v, y, t', hwv, hq, hxy, h'⟩ := hp _ _ (h.rescoped hab) env env' x.1 u hinner
  refine ⟨v, (y, t'.scopes.pop.1.getD {}), { t' with scopes := t'.scopes.pop.2 }, hwv, ?_,
    ⟨hxy, .intro⟩, h'.rescoped (hpop _ _ _ h'.scopes)⟩
  unfold Parser.withScope
  rw [hq]
  rfl

end

end Follows

end TypedLua
