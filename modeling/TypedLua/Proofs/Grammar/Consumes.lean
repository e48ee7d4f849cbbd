import TypedLua.Proofs.Grammar.Steps
import TypedLua.Proofs.Grammar.Success
import TypedLua.Proofs.Tree.Occupied

/-!
# Grammar.Consumes

The tokens that a reader takes.  What a reader consumes goes with the value that it gives; a reader
obeys a form if the tokens that it takes, whenever it gives a value, can be derived from that form.
A reader made of two steps takes the tokens of both in a row, and steps that take nothing do not
matter.

Main statements: `Consumes.bind`, `Consumes.seq` for forms, and `Consumes.commaList` for lists.
-/

namespace TypedLua

open Text TypedLua.Parser
open Token (Kind Reading Stream)
open Rules (Form Derives accepted)
open Rules.Form (Writes)

variable {source : String}

/-! ## Tokens that are passed -/

variable {α β : Type} {env : ParserEnv} {s t u : ParserState} {ts us : List Token}

/-- The reader takes no tokens. -/
abbrev Parser.Quiet (p : Parser α) : Prop := Made false true true p

/-- From the first state to the second one the tokens are taken, the last of them last. -/
def ParserState.Passes (s : ParserState) (ts : List Token) (t : ParserState) : Prop :=
  s.stream.Passes ts t.stream ∧ t.lastEnd = (ts.getLast?.map (·.span.stop)).getD s.lastEnd

theorem ParserState.Passes.trans (h : s.Passes ts t) (h' : t.Passes us u) :
    s.Passes (ts ++ us) u := by
  refine ⟨h.1.trans h'.1, ?_⟩
  rw [h'.2, h.2, List.getLast?_append]
  cases us.getLast? <;> rfl

theorem ParserState.Passes.still (h : s.Passes ts t) (h' : t.Passes [] u) : s.Passes ts u := by
  have hall := h.trans h'
  rwa [List.append_nil] at hall

/-- The tokens that were taken stand from where the first state is to the last of them. -/
theorem ParserState.Passes.covers (h : s.Passes ts t) (hs : s.stream.Of source) (hts : ts ≠ []) :
    (Span.mk s.stream.current.span.start t.lastEnd).Covers source ts := by
  obtain ⟨first, rest, rfl⟩ := List.exists_cons_of_ne_nil hts
  have hfirst : s.stream.current = first := Except.ok.inj (List.cons.inj h.1).1
  have hlast := List.getLast?_eq_some_getLast hts
  have hend := h.2
  rw [hlast] at hend
  rw [hfirst, hend]
  exact Span.covers (hs.consecutive h.1) rfl hlast

/-- A token and those after it are covered from the token on. -/
theorem ParserState.Passes.spans {x : Token} (h : s.Passes ([x] ++ ts) t) (hs : s.stream.Of source) :
    (Span.mk s.stream.current.span.start t.lastEnd).Covers source ([x] ++ ts) :=
  h.covers hs (List.cons_ne_nil x ts)

theorem Parser.Quiet.stream_eq {p : Parser α} (h : p.Quiet) {a : α} (hrun : p env s = (.ok a, t)) :
    t.stream = s.stream := by
  have hwords := (Made.leaves h env s).words rfl
  rw [hrun] at hwords
  exact hwords.1

theorem Parser.Quiet.passes {p : Parser α} (h : p.Quiet) {a : α} (hrun : p env s = (.ok a, t)) :
    s.Passes [] t := by
  have hwords := (Made.leaves h env s).words rfl
  rw [hrun] at hwords
  refine ⟨?_, hwords.2⟩
  rw [hwords.1]
  rfl

/-! ## Readers and forms -/

/-- Where a run on the text gives a value, the tokens that it takes go with the value. -/
def Consumes (source : String) (env : ParserEnv) (s : ParserState) (p : Parser α)
    (L : α → List Token → Prop) : Prop :=
  s.stream.Of source → ∀ a t, p env s = (.ok a, t) → ∃ ts, s.Passes ts t ∧ L a ts

/-- The tokens that the run takes can be derived from the form. -/
abbrev Obeys (source : String) (env : ParserEnv) (s : ParserState) (p : Parser α) (f : Form) :
    Prop := Consumes source env s p fun _ => f.Writes

namespace Consumes

variable {p : Parser α} {q : α → Parser β} {K : α → List Token → Prop} {L : β → List Token → Prop}
  {f g : Form} {k : Kind}

theorem within (h : s.stream.Of source → Consumes source env s p K) : Consumes source env s p K :=
  fun hs => h hs hs

theorem imp {L : α → List Token → Prop} (h : Consumes source env s p K)
    (hKL : ∀ a ts, K a ts → L a ts) : Consumes source env s p L := by
  intro hs a t hrun
  obtain ⟨ts, hpasses, ha⟩ := h hs a t hrun
  exact ⟨ts, hpasses, hKL a _ ha⟩

/-- Readers one after the other take tokens one after the other. -/
theorem bind (h : Consumes source env s p K) (hnext : ∀ a t ts, p env s = (.ok a, t) →
    s.Passes ts t → K a ts → Consumes source env t (q a) fun b us => L b (ts ++ us)) :
    Consumes source env s (p >>= q) L := by
  intro hs b u hrun
  obtain ⟨a, t, hfirst, hrest⟩ := bind_eq_ok.1 hrun
  obtain ⟨ts, hts, ha⟩ := h hs a t hfirst
  obtain ⟨us, hus, hb⟩ := hnext a t ts hfirst hts ha (hs.of_passes hts.1) b u hrest
  exact ⟨ts ++ us, hts.trans hus, hb⟩

theorem pure {a : α} (h : K a []) : Consumes source env s (Pure.pure a) K := by
  intro _ a' t hrun
  cases hrun
  exact ⟨[], ⟨rfl, rfl⟩, h⟩

theorem fail (span : Span) (cause : Cause) : Consumes source env s (Parser.fail span cause) K := by
  intro _ a t hrun
  cases hrun

theorem unexpected (construct : String) :
    Consumes source env s (Parser.unexpected construct) K := by
  intro _ a t hrun
  cases hrun

theorem tooDeep (construct : String) : Consumes source env s (Parser.tooDeep construct) K := by
  intro _ a t hrun
  cases hrun

theorem quietly (h : p.Quiet) : Consumes source env s p fun _ ts => ts = [] := by
  intro _ a t hrun
  exact ⟨[], h.passes hrun, rfl⟩

theorem skip [hp : p.Quiet]
    (hnext : ∀ a t, t.stream = s.stream → Consumes source env t (q a) L) :
    Consumes source env s (p >>= q) L := by
  refine bind (quietly hp) fun a t ts hrun _ hts => ?_
  subst hts
  exact hnext a t (hp.stream_eq hrun)

theorem quiet_bind [hp : p.Quiet]
    (hnext : ∀ a t, s.Passes [] t → Consumes source env t (q a) L) :
    Consumes source env s (p >>= q) L := by
  refine bind (quietly hp) fun a t ts _ hst hts => ?_
  subst hts
  exact hnext a t hst

theorem andThen [hq : ∀ a, (q a).Quiet] (h : Obeys source env s p f) :
    Obeys source env s (p >>= q) f := by
  refine bind h fun a t ts _ _ hts => (quietly (hq a)).imp fun _ us hus => ?_
  subst hus
  rwa [List.append_nil]

theorem thenQuiet (h : Obeys source env s p f) (hq : ∀ a, (q a).Quiet) :
    Obeys source env s (p >>= q) f := andThen h

theorem gets_bind {f : ParserState → α} (h : Consumes source env s (q (f s)) L) :
    Consumes source env s (Parser.gets f >>= q) L := h

theorem currentKind_bind {q : Kind → Parser β}
    (h : Consumes source env s (q s.stream.current.kind) L) :
    Consumes source env s (Parser.currentKind >>= q) L := h

theorem currentSpan_bind {q : Span → Parser β}
    (h : Consumes source env s (q s.stream.current.span) L) :
    Consumes source env s (Parser.currentSpan >>= q) L := h

theorem spanFrom_bind {start : Span} {q : Span → Parser β}
    (h : Consumes source env s (q ⟨start.start, s.lastEnd⟩) L) :
    Consumes source env s (Parser.spanFrom start >>= q) L := h

theorem check_bind {q : Bool → Parser β}
    (h : Consumes source env s (q (s.stream.current.kind == k)) L) :
    Consumes source env s (Parser.check k >>= q) L := h

theorem fuel_bind {q : Nat → Parser β}
    (h : Consumes source env s (q (s.stream.upcoming.length + 1)) L) :
    Consumes source env s (Parser.fuel >>= q) L := h

theorem quiet_opt (h : p.Quiet) : Obeys source env s p (.opt f) :=
  (quietly h).imp fun _ _ hts => hts ▸ .absent

theorem seq (h : Obeys source env s p f)
    (hnext : ∀ a t, p env s = (.ok a, t) → Obeys source env t (q a) g) :
    Obeys source env s (p >>= q) (.seq f g) :=
  bind h fun a t _ hrun _ hts => (hnext a t hrun).imp fun _ _ hus => hts.seq hus

theorem rule {c : Rules.Category} (h : Obeys source env s p (accepted c)) :
    Obeys source env s p (.rule c) :=
  h.imp fun _ _ hts => .rule hts

theorem oneOf {fs : List Form} (n : Nat) (hn : (f :: fs)[n]? = some g)
    (h : Obeys source env s p g) : Obeys source env s p (.any f fs) :=
  h.imp fun _ _ hts => Derives.any n hn hts

theorem restoring {restore : ParserState → ParserState → ParserState}
    (h : Consumes source env s p K)
    (hrestore : ∀ t, (restore s t).stream = t.stream ∧ (restore s t).lastEnd = t.lastEnd) :
    Consumes source env s (Parser.restoring p restore) K := by
  intro hs a t hrun
  unfold Parser.restoring at hrun
  cases hp : p env s with
  | mk r u =>
    rw [hp] at hrun
    cases hrun
    obtain ⟨ts, hts, ha⟩ := h hs a u hp
    refine ⟨ts, ?_, ha⟩
    unfold ParserState.Passes
    rw [(hrestore u).1, (hrestore u).2]
    exact hts

theorem nested (construct : String) (h : ∀ s, Consumes source env s p K) :
    Consumes source env s (Parser.nested construct p) K :=
  skip fun _ t _ => (h t).restoring fun _ => ⟨rfl, rfl⟩

theorem chain (h : Consumes source env s p K) : Consumes source env s (Parser.chain p) K :=
  h.restoring fun _ => ⟨rfl, rfl⟩

theorem withScope {scope : Scope} (h : ∀ s, Consumes source env s p K) :
    Consumes source env s (Parser.withScope scope p) fun x => K x.1 := by
  intro hs x t hrun
  obtain ⟨u, hp, rfl⟩ := withScope_eq_ok hrun
  exact h { s with scopes := s.scopes.push scope } hs x.1 u hp

/-! ## Tokens -/

theorem advance (hkind : s.stream.current.kind = k) (hk : (k == .eof) = false) :
    Consumes source env s Parser.advance fun _ ts => ts = [s.stream.current] := by
  intro hs a t hrun
  have hnext : s.stream.next.1 = .ok () := congrArg Prod.fst hrun
  obtain rfl : s.next = t := congrArg Prod.snd hrun
  subst hkind
  exact ⟨[s.stream.current], ⟨hs.passes_next (ne_of_beq_false hk) hnext, rfl⟩, rfl⟩

theorem take (hkind : s.stream.current.kind = k) (hk : (k == .eof) = false) :
    Consumes source env s Parser.take fun token ts =>
      token = s.stream.current ∧ ts = [s.stream.current] :=
  bind (quietly inferInstance) fun token t ts hrun _ hts => by
    cases hrun
    subst hts
    exact bind (advance hkind hk) fun _ _ _ _ _ hts => pure ⟨rfl, by rw [hts]; rfl⟩

theorem expect (hk : (k == .eof) = false) : Consumes source env s (Parser.expect k) fun token ts =>
    token = s.stream.current ∧ ts = [s.stream.current] ∧ s.stream.current.kind = k := by
  show Consumes source env s (if s.stream.current.kind == k then Parser.take else _) _
  split
  · next hkind =>
    exact (take (beq_iff_eq.1 hkind) hk).imp fun _ _ hts => ⟨hts.1, hts.2, beq_iff_eq.1 hkind⟩
  · exact fail _ _

theorem identifier : Consumes source env s Parser.identifier fun x ts =>
    x = (s.stream.current.text, s.stream.current.span) ∧ ts = [s.stream.current] ∧
      s.stream.current.kind = .identifier := by
  refine bind (expect rfl) ?_
  rintro _ t _ - - ⟨rfl, rfl, hkind⟩
  exact pure ⟨rfl, rfl, hkind⟩

theorem eat_bind {q : Bool → Parser β} (hk : (k == .eof) = false)
    (hfound : ∀ token t, s.Passes [token] t → token.kind = k → Parser.eat k env s = (.ok true, t) →
      Consumes source env t (q true) fun b us => L b (token :: us))
    (hnone : Consumes source env s (q false) L) :
    Consumes source env s (Parser.eat k >>= q) L := by
  cases hkind : s.stream.current.kind == k with
  | false =>
    have heat : Parser.eat k env s = (.ok false, s) := by
      show (if s.stream.current.kind == k then _ else _ : Parser Bool) env s = _
      rw [hkind]
      rfl
    intro hs b u hrun
    obtain ⟨found, t, hfirst, hrest⟩ := bind_eq_ok.1 hrun
    cases heat.symm.trans hfirst
    exact hnone hs b u hrest
  | true =>
    have hfirst : Consumes source env s (Parser.eat k) fun found ts =>
        found = true ∧ ts = [s.stream.current] := by
      show Consumes source env s (if s.stream.current.kind == k then _ else _ : Parser Bool) _
      rw [hkind]
      exact bind (advance (beq_iff_eq.1 hkind) hk) fun _ _ _ _ _ hts => pure ⟨rfl, by rw [hts]; rfl⟩
    refine bind hfirst ?_
    rintro _ t _ hrun hts ⟨rfl, rfl⟩
    exact hfound _ t hts (beq_iff_eq.1 hkind) hrun

theorem eat (hk : (k == .eof) = false) : Obeys source env s (Parser.eat k) (.opt (.word k)) := by
  rw [← bind_pure (Parser.eat k)]
  exact eat_bind hk (fun _ _ _ hkind _ => pure (.present (Writes.word hkind))) (pure .absent)

theorem eat_opt {q : Bool → Parser β} (hk : (k == .eof) = false)
    (hfound : ∀ t, Parser.eat k env s = (.ok true, t) → Obeys source env t (q true) f)
    (hnone : (q false).Quiet) :
    Obeys source env s (Parser.eat k >>= q) (.opt (.seq (.word k) f)) :=
  eat_bind hk (fun _ t _ hkind hrun => (hfound t hrun).imp fun _ _ hus =>
    .present ((Writes.word hkind).seq hus)) (quiet_opt hnone)

/-- A word of the kind is taken. -/
theorem word (hk : (k == .eof) = false) : Obeys source env s (Parser.expect k) (.word k) :=
  (expect hk).imp fun _ _ hts => hts.2.1 ▸ .word hts.2.2

/-- A name is taken. -/
theorem name : Obeys source env s Parser.identifier (.word .identifier) :=
  identifier.imp fun _ _ hts => hts.2.1 ▸ .word hts.2.2

/-- The current token is taken. -/
theorem current (hkind : s.stream.current.kind = k) (hk : (k == .eof) = false) :
    Obeys source env s Parser.advance (.word k) :=
  (advance hkind hk).imp fun _ _ hts => hts ▸ .word hkind

/-! ## Lists -/

section

variable (h : ∀ s, Consumes source env s p K)

include h

theorem commaTail (n : Nat) : Consumes source env s (Parser.commaTail p n) fun xs us =>
    ∀ {x ts}, K x ts → Listed [.comma] false K (x :: xs) (ts ++ us) := by
  induction n generalizing s with
  | zero =>
    refine pure fun hx => ?_
    rw [List.append_nil]
    exact .one hx
  | succ n ih =>
    refine eat_bind rfl (fun token t _ hcomma _ => ?_) (pure fun hx => ?_)
    · refine bind (h t) fun y u vs _ _ hy => bind ih fun ys v ws _ _ hys => pure fun hx => ?_
      rw [List.append_nil]
      exact .cons hx (List.mem_singleton.2 hcomma) (hys hy)
    · rw [List.append_nil]
      exact .one hx

theorem commaList : Consumes source env s (Parser.commaList p) (Listed [.comma] false K) :=
  bind (h s) fun x t ts _ _ hx => skip fun n u _ => bind (commaTail h n) fun xs v us _ _ hxs => by
    refine pure ?_
    rw [List.append_nil]
    exact hxs hx

theorem entries (close : Kind) (n : Nat) : Consumes source env s (Parser.entries p close n)
    (Listed [.comma, .semicolon] true K) := by
  induction n generalizing s with
  | zero => exact pure (.nil rfl)
  | succ n ih =>
    refine skip fun closing t _ => ?_
    cases closing with
    | true => exact pure (.nil rfl)
    | false =>
      refine bind (h t) fun x u ts _ _ hx => ?_
      -- either separator leads on to the other items
      have hrest : ∀ v (token : Token), token.kind ∈ [Kind.comma, .semicolon] →
          Consumes source env v (Parser.entries p close n >>= fun xs => Pure.pure (x :: xs))
            fun xs us => Listed [.comma, .semicolon] true K xs (ts ++ token :: us) := by
        intro v token htoken
        refine bind ih fun xs w us _ _ hxs => pure ?_
        rw [List.append_nil]
        exact .cons hx htoken hxs
      unfold Parser.separator
      rw [bind_assoc]
      refine eat_bind rfl (fun token v _ hcomma _ => hrest v token (hcomma ▸ .head _)) ?_
      refine eat_bind rfl (fun token v _ hsemicolon _ => hrest v token ?_) (pure ?_)
      · exact hsemicolon ▸ .tail _ (.head _)
      · rw [List.append_nil]
        exact .one hx

theorem braceTail : Consumes source env s (Parser.braceTail p) fun xs ts => ∃ us token,
    ts = us ++ [token] ∧ Listed [.comma, .semicolon] true K xs us ∧ token.kind = .rightBrace := by
  refine skip fun n t _ => bind (entries h _ n) fun xs u us _ _ hxs => ?_
  refine bind (expect rfl) ?_
  rintro _ v _ - - ⟨rfl, rfl, hkind⟩
  exact pure ⟨us, _, rfl, hxs, hkind⟩

end

theorem listOf (h : ∀ s, Obeys source env s p f) :
    Obeys source env s (Parser.commaList p) (.listOf f) :=
  (commaList h).imp fun _ _ => Listed.listOf

theorem braces (h : ∀ s, Obeys source env s p f) : Obeys source env s (Parser.braceTail p)
    (.seq (.entries .separator f) (.word .rightBrace)) :=
  (braceTail h).imp fun _ _ ⟨_, _, hts, hlist, hkind⟩ => hts ▸ hlist.entries.seq (.word hkind)

end Consumes

end TypedLua
