import TypedLua.Proofs.Grammar.Correspondence
import TypedLua.Proofs.Token.Words
import TypedLua.Proofs.Tree.Lexical

/-!
# Grammar.Reads

What one run of a reader does to the state.  Reading a type or an expression takes tokens and may
add types and variables to the session; the open scopes, the files being loaded and what was
reported stay.  A fault on the way comes from the tokens, is about a name that the scopes do not
bind, or has nothing to do with names and imports.

This module has the rules for runs from one state; those for readers that keep to something are in
`TypedLua.Proofs.Grammar.Course`.

Main statement: `Runs.bind`.
-/

namespace TypedLua

open Text TypedLua.Parser
open Token (Kind Stream)

/-! ## What stays -/

/-- Moving on from a token other than `from`. -/
def Token.Stream.Takes (a b : Stream) : Prop := a.current.kind ≠ .kwFrom ∧ b = a.next.2

/-- Moving on several times, never from the word `from`. -/
abbrev Token.Stream.TakesMany : Stream → Stream → Prop := Relation.ReflTransGen Stream.Takes

namespace Token.Stream.TakesMany

variable {a b : Stream}

theorem sources_eq (h : TakesMany a b) : sources b.words = sources a.words := by
  induction h with
  | refl => rfl
  | @tail b c _ hstep ih =>
    obtain ⟨hkind, rfl⟩ := hstep
    rcases b.words_next_cases with hwords | ⟨hwords, -⟩
    · rw [← ih, hwords, sources_cons hkind]
    · rw [hwords, ih]

theorem moves (h : TakesMany a b) : Moves a b := by
  induction h with
  | refl => exact .refl
  | tail _ hstep ih => exact ih.tail hstep.2

end Token.Stream.TakesMany

namespace ParserState

/-- Tokens were taken, and the session has gained types and variables at most. -/
structure Keeps (s t : ParserState) : Prop where
  /-- The session is the same but for its types and variables. -/
  session : t.session = { s.session with types := t.session.types, vars := t.session.vars }
  vars : s.session.vars.vars <+: t.session.vars.vars
  /-- Tokens were taken, none of them the word `from`. -/
  stream : s.stream.TakesMany t.stream

/-- Moreover the open scopes are the same. -/
structure Steady (s t : ParserState) : Prop extends Keeps s t where
  scopes : t.scopes = s.scopes

variable {s t u : ParserState}

theorem Keeps.refl (s : ParserState) : s.Keeps s := ⟨rfl, List.prefix_refl _, .refl⟩

theorem Keeps.trans (h : s.Keeps t) (h' : t.Keeps u) : s.Keeps u := by
  refine ⟨?_, h.vars.trans h'.vars, h.stream.trans h'.stream⟩
  rw [h'.session, h.session]

theorem Keeps.rescoped (h : s.Keeps t) (scopes : ScopeStack) : s.Keeps { t with scopes } :=
  ⟨h.session, h.vars, h.stream⟩

theorem Keeps.loading_eq (h : s.Keeps t) : t.session.loading = s.session.loading := by
  rw [h.session]

theorem Steady.refl (s : ParserState) : s.Steady s := ⟨.refl s, rfl⟩

theorem Steady.trans (h : s.Steady t) (h' : t.Steady u) : s.Steady u :=
  ⟨h.toKeeps.trans h'.toKeeps, h'.scopes.trans h.scopes⟩

theorem Steady.next (h : s.stream.current.kind ≠ .kwFrom) : s.Steady s.next :=
  ⟨⟨rfl, List.prefix_refl _, .single ⟨h, rfl⟩⟩, rfl⟩

theorem Steady.deepened (s : ParserState) (n : Nat) : s.Steady { s with depth := n } :=
  ⟨⟨rfl, List.prefix_refl _, .refl⟩, rfl⟩

theorem Steady.typed (s : ParserState) (types : TypeArena) :
    s.Steady (s.withTypes types) :=
  ⟨⟨rfl, List.prefix_refl _, .refl⟩, rfl⟩

theorem Steady.declared (s : ParserState) (v : Variable) :
    s.Steady { s with session := { s.session with
      vars := (VariableArena.alloc v s.session.vars).2 } } :=
  ⟨⟨rfl, List.prefix_append _ _, .refl⟩, rfl⟩

end ParserState

/-! ## Faults -/

/-- The cause is about the place itself: no word, name or other module is at fault. -/
def Cause.Local : Cause → Prop
  | .lexical _ | .unknownIdentifier _ | .circularImport _ | .failedImport _ => False
  | _ => True

theorem Cause.Local.ne_failedImport {c : Cause} (h : c.Local) (x : String) :
    c ≠ .failedImport x := by
  rintro rfl
  exact h

/-- The faults that a reader may come to from a state on. -/
inductive ParserState.Admits (s : ParserState) : Fault → Prop
  | lexical {f : Fault} : .error f ∈ s.stream.upcoming → s.Admits f
  /-- Something else than names and other modules is wrong. -/
  | here {f : Fault} : f.cause.Local → s.Admits f
  | unknown {token : Token} : token ∈ s.stream.words → token.kind = .identifier →
    s.scopes.resolveVariable token.text = none → s.scopes.resolveType token.text = none →
    s.Admits ⟨token.span, .unknownIdentifier token.text⟩

variable {f : Fault}

theorem ParserState.Admits.mono {s t : ParserState} (hf : t.Admits f)
    (hscopes : t.scopes = s.scopes) (hwords : t.stream.words ⊆ s.stream.words)
    (hupcoming : t.stream.upcoming ⊆ s.stream.upcoming) : s.Admits f := by
  cases hf with
  | lexical hf => exact .lexical (hupcoming hf)
  | here hf => exact .here hf
  | unknown htoken hkind hvariable htype =>
    rw [hscopes] at hvariable htype
    exact .unknown (hwords htoken) hkind hvariable htype

theorem ParserState.Steady.admits {s t : ParserState} (h : s.Steady t) (hf : t.Admits f) :
    s.Admits f :=
  hf.mono h.scopes h.stream.moves.words_suffix.subset h.stream.moves.upcoming_suffix.subset

/-! ## Runs -/

variable {α β : Type} {env : ParserEnv} {s t : ParserState}

/-- The run ends with a value and a state that go together, or with such a fault and a state. -/
structure Runs (env : ParserEnv) (s : ParserState) (p : Parser α) (Q : α → ParserState → Prop)
    (E : Fault → ParserState → Prop) : Prop where
  ok {a : α} {t : ParserState} : p env s = (.ok a, t) → Q a t
  error {f : Fault} {t : ParserState} : p env s = (.error f, t) → E f t

/-- The run ends with a value and a state that go together, or with a fault that may arise. -/
abbrev Ends (env : ParserEnv) (s : ParserState) (p : Parser α) (Q : α → ParserState → Prop)
    (F : Fault → Prop) : Prop := Runs env s p Q fun f _ => F f

variable {k : Kind}

namespace Runs

variable {p : Parser α} {Q : α → ParserState → Prop} {E : Fault → ParserState → Prop}
  {R : β → ParserState → Prop}

theorem of_ok {a : α} (hrun : p env s = (.ok a, t)) (h : Q a t) : Runs env s p Q E where
  ok hok := by
    cases hrun.symm.trans hok
    exact h
  error herror := by cases hrun.symm.trans herror

theorem of_error (hrun : p env s = (.error f, t)) (h : E f t) : Runs env s p Q E where
  ok hok := by cases hrun.symm.trans hok
  error herror := by
    cases hrun.symm.trans herror
    exact h

theorem pure {a : α} (h : Q a s) : Runs env s (Pure.pure a) Q E := .of_ok rfl h

theorem fail (span : Span) (cause : Cause) (h : E ⟨span, cause⟩ s) :
    Runs env s (Parser.fail span cause) Q E := .of_error rfl h

theorem modify {g : ParserState → ParserState} {Q : Unit → ParserState → Prop} (h : Q () (g s)) :
    Runs env s (Parser.modify g) Q E := .of_ok rfl h

/-- Runs of readers one after the other. -/
theorem bind (h : Runs env s p Q E) {q : α → Parser β}
    (hnext : ∀ a t, Q a t → Runs env t (q a) R E) : Runs env s (p >>= q) R E := by
  have happly := bind_apply p q env s
  cases hrun : p env s with
  | mk r t =>
    rw [hrun] at happly
    cases r with
    | ok a => exact ⟨fun hok => (hnext a t (h.ok hrun)).ok (happly.symm.trans hok),
        fun herror => (hnext a t (h.ok hrun)).error (happly.symm.trans herror)⟩
    | error f => exact .of_error happly (h.error hrun)

theorem imp {R : α → ParserState → Prop} {G : Fault → ParserState → Prop} (h : Runs env s p Q E)
    (hok : ∀ a t, Q a t → R a t) (herror : ∀ f t, E f t → G f t) : Runs env s p R G :=
  ⟨fun hrun => hok _ _ (h.ok hrun), fun hrun => herror _ _ (h.error hrun)⟩

/-- How a value was read may be remembered. -/
theorem and_run (h : Runs env s p Q E) :
    Runs env s p (fun a t => Q a t ∧ p env s = (.ok a, t)) E :=
  ⟨fun hrun => ⟨h.ok hrun, hrun⟩, h.error⟩

theorem gets_bind {f : ParserState → α} {p : α → Parser β} (h : Runs env s (p (f s)) R E) :
    Runs env s (gets f >>= p) R E := ⟨h.ok, h.error⟩

theorem currentSpan_bind {p : Span → Parser β} (h : Runs env s (p s.stream.current.span) R E) :
    Runs env s (currentSpan >>= p) R E := ⟨h.ok, h.error⟩

theorem currentKind_bind {p : Kind → Parser β} (h : Runs env s (p s.stream.current.kind) R E) :
    Runs env s (currentKind >>= p) R E := ⟨h.ok, h.error⟩

theorem check_bind {p : Bool → Parser β} (h : Runs env s (p (s.stream.current.kind == k)) R E) :
    Runs env s (check k >>= p) R E := ⟨h.ok, h.error⟩

theorem spanFrom_bind {start : Span} {p : Span → Parser β} (h : ∀ span, Runs env s (p span) R E) :
    Runs env s (spanFrom start >>= p) R E := ⟨(h _).ok, (h _).error⟩

theorem restoring {restore : ParserState → ParserState → ParserState}
    (h : Runs env s p (fun a t => Q a (restore s t)) fun f t => E f (restore s t)) :
    Runs env s (restoring p restore) Q E := by
  have hrun : Parser.restoring p restore env s = ((p env s).1, restore s (p env s).2) := rfl
  cases hp : p env s with
  | mk r t =>
    rw [hp] at hrun
    cases r with
    | ok a => exact .of_ok hrun (h.ok hp)
    | error f => exact .of_error hrun (h.error hp)

theorem withScope {scope : Scope} {R : α × Scope → ParserState → Prop}
    (h : Runs env { s with scopes := s.scopes.push scope } p
      (fun a t => R (a, t.scopes.pop.1.getD {}) { t with scopes := t.scopes.pop.2 })
      fun f t => E f { t with scopes := t.scopes.pop.2 }) :
    Runs env s (withScope scope p) R E := by
  let inner : ParserState := { s with scopes := s.scopes.push scope }
  have hrun : Parser.withScope scope p env s =
      ((p env inner).1.map fun a => (a, (p env inner).2.scopes.pop.1.getD {}),
        { (p env inner).2 with scopes := (p env inner).2.scopes.pop.2 }) := rfl
  cases hp : p env inner with
  | mk r t =>
    rw [hp] at hrun
    cases r with
    | ok a => exact .of_ok hrun (h.ok hp)
    | error f => exact .of_error hrun (h.error hp)

end Runs

/-! ## Tokens -/

/-- The faults of tokens: the next one cannot be read, or the current one is not what is wanted. -/
def Token.Stream.Breaks (a : Stream) (f : Fault) : Prop :=
  .error f ∈ a.upcoming ∨ f.span = a.current.span ∧ f.cause.Local

theorem Runs.expect (k : Kind) : Runs env s (expect k) (fun token t => token = s.stream.current ∧
    (s.stream.current.kind = k ∧ s.stream.next.1 = .ok ()) ∧ t = s.next)
    fun f t => s.stream.Breaks f ∧ t.session = s.session := by
  have hrun := expect_apply k env s
  by_cases hkind : s.stream.current.kind = k
  · rw [if_pos hkind] at hrun
    cases hnext : s.stream.next.1 with
    | ok u =>
      rw [hnext] at hrun
      exact of_ok hrun ⟨rfl, ⟨hkind, rfl⟩, rfl⟩
    | error f =>
      rw [hnext] at hrun
      exact of_error hrun ⟨.inl (Stream.mem_of_next hnext), rfl⟩
  · rw [if_neg hkind] at hrun
    exact of_error hrun ⟨.inr ⟨rfl, .intro⟩, rfl⟩

end TypedLua
