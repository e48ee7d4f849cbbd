import TypedLua.Proofs.Grammar.Boundaries
import TypedLua.Proofs.Session.Log
import TypedLua.Proofs.Token.Layout

/-!
# Grammar.Placing

Where readers are in their text.  The tokens that are still to be taken stand in the text in order,
after the place where the last one ended; so what is read from one token on up to the last one that
was taken is a span of the text.  A module that is refused is so for a fault of its own, at a span
of its text, and nothing was reported meanwhile; or it is refused at an import, because the module
that this names is.

Main statements: `Course.placed_wide` and `module_runs`.
-/

namespace TypedLua

open Text TypedLua.Parser
/-! ## States -/

namespace ParserState

variable {source : String} {s t u : ParserState} {p : Position} {f : Fault}

/-- What is to be read stands in the text, after the last token that was taken. -/
def Placed (source : String) (s : ParserState) : Prop :=
  Token.Laid source s.lastEnd.offset (.ok s.stream.current :: s.stream.upcoming)

/-- The second state is reached from the first by reading on: tokens may have been taken, and
nothing was reported. -/
structure Follows (source : String) (s t : ParserState) : Prop where
  placed : t.Placed source
  quiet : s.session.Quiet t.session
  /-- No token was taken, or the last one ended in the text. -/
  last : t.lastEnd = s.lastEnd ∨ t.lastEnd.IsIn source ∧ s.lastEnd.offset ≤ t.lastEnd.offset

theorem Placed.current (h : s.Placed source) : s.stream.current.span.IsIn source :=
  h.lies List.mem_cons_self

theorem Placed.own_of_mem (h : s.Placed source) (hf : .error f ∈ s.stream.upcoming) :
    f.Own source := h.lies (r := .error f) (List.mem_cons_of_mem _ hf)

theorem placed_of_ofSource {stream : Token.Stream} (h : Token.Stream.ofSource source = .ok stream)
    (session : Session) : ({ stream, session } : ParserState).Placed source := by
  show Token.Laid source 0 stream.remaining
  rw [Token.Stream.remaining_ofSource h]
  exact Token.readings_laid source

theorem Follows.refl (hs : s.Placed source) : s.Follows source s :=
  ⟨hs, .refl _, .inl rfl⟩

theorem Follows.trans (hst : s.Follows source t) (htu : t.Follows source u) :
    s.Follows source u := by
  refine ⟨htu.placed, hst.quiet.trans htu.quiet, ?_⟩
  rcases htu.last with heq | ⟨hend, hle⟩
  · rw [heq]
    exact hst.last
  · refine .inr ⟨hend, Nat.le_trans ?_ hle⟩
    rcases hst.last with heq | hst
    · rw [heq]
    · exact hst.2

theorem Follows.extend (hst : s.Follows source t) (h : (Span.mk p s.lastEnd).IsIn source) :
    (Span.mk p t.lastEnd).IsIn source := by
  rcases hst.last with heq | ⟨hend, hle⟩
  · rw [heq]
    exact h
  · exact ⟨h.start, hend, h.le.trans hle⟩

/-- The next token follows the current one in the text. -/
theorem Placed.next (hs : s.Placed source) (hnext : s.stream.next.1 = .ok ()) :
    s.Follows source s.next := by
  have hcurrent := hs.current
  have hlaid : Token.Laid source _ (.ok _ :: s.stream.upcoming) := hs
  refine ⟨?_, .refl _, .inr ⟨hcurrent.stop, hlaid.head_le.trans hcurrent.le⟩⟩
  unfold Token.Stream.next at hnext
  unfold Placed
  cases hupcoming : s.stream.upcoming with
  | nil =>
    have hstream : s.next.stream = s.stream := by
      unfold ParserState.next Token.Stream.next
      rw [hupcoming]
    rw [hupcoming] at hlaid
    rw [hstream, hupcoming]
    -- the end of the text spans nothing, so it may be taken again
    have hpoint : s.stream.current.span.stop = s.stream.current.span.start := hlaid.point
    refine .last hcurrent ?_ hpoint
    show s.stream.current.span.stop.offset ≤ s.stream.current.span.start.offset
    rw [hpoint]
  | cons r rest =>
    rw [hupcoming] at hlaid hnext
    cases r with
    | error f => cases hnext
    | ok token =>
      have hstream : s.next.stream = ⟨token, token.span.stop, rest⟩ := by
        unfold ParserState.next Token.Stream.next
        rw [hupcoming]
      rw [hstream]
      exact hlaid.tail

theorem Follows.of_eq (hs : s.Placed source) (hstream : t.stream = s.stream)
    (hlast : t.lastEnd = s.lastEnd) (hquiet : s.session.Quiet t.session) :
    s.Follows source t := by
  refine ⟨?_, hquiet, .inl hlast⟩
  unfold Placed
  rw [hstream, hlast]
  exact hs

end ParserState

/-! ## Readers in their text -/

/-- Reading a text: faults are at places of the text, and nothing is reported meanwhile. -/
def Course.placed (source : String) : Course where
  Leads := ParserState.Follows source
  Fails s f x := f.Own source ∧ s.session.Quiet x
  Spans := Span.IsIn source
  trans := .trans
  right h := .refl h.placed
  next h hnext _ := h.placed.next hnext
  deepened _ h := .of_eq h.placed rfl rfl (.refl _)
  declared _ h := .of_eq h.placed rfl rfl (.of_eq rfl rfl rfl)
  fails h hf := ⟨hf.1, h.quiet.trans hf.2⟩
  current h := h.placed.current
  extend := ParserState.Follows.extend
  lexical h hf := ⟨h.placed.own_of_mem hf, .refl _⟩
  wrong _ hspan hcause := ⟨⟨hspan, hcause.ne_failedImport⟩, .refl _⟩

/-- Loading a module reports nothing, if the module is given back. -/
def ParserEnv.LoadsQuietly (env : ParserEnv) : Prop :=
  ∀ {path text s m t}, env.load path text s = (some m, t) → s.Quiet t

variable {source : String} {env : ParserEnv} {s start : ParserState}

/-- Following the text is a course that readers keep to. -/
theorem Course.placed_wide : (Course.placed source).Wide where
  types _ _ h := .of_eq h.placed rfl rfl (.of_eq rfl rfl rfl)
  blames _ hspan hcause := ⟨⟨hspan, hcause⟩, .refl _⟩
  rescoped _ h := .of_eq h.placed rfl rfl (.refl _)
  taken h := h.placed.next

theorem ParserEnv.LoadsQuietly.loads (h : env.LoadsQuietly) : (Course.placed source).Loads env :=
  fun hs hload => .of_eq hs.placed rfl rfl (h hload)

/-! ## Modules in their text -/

namespace Grammar

/-- What reading a module may fail with, and the session that is left then: a fault of its own,
nothing being reported meanwhile, or that of an import at one of its boundaries. -/
inductive Stops (source : String) (env : ParserEnv) (start : ParserState) :
    Fault → Session → Prop
  | own {f : Fault} {x : Session} : f.Own source → start.session.Quiet x →
    Stops source env start f x
  /-- The module that an import names was not being loaded, and was refused. -/
  | load {room : Nat} {blocks : List (List Stmt)} {s t : ParserState}
      {names : List (String × Span)} {token : Token} {path : Path} {text : String} {x : Session} :
    Boundary env start room blocks s → start.session.Quiet s.session →
    ImportsAt env (opened s) names token path t → token.span.IsIn source →
    env.files.key path ∉ s.session.loading → env.files.read path = .ok text →
    env.load path text s.session = (none, x) →
    Stops source env start ⟨token.span, .failedImport token.text⟩ x

section

variable (henv : env.LoadsQuietly) (hstart : start.Placed source)

include henv

theorem statementWithin_placed (room : Nat) (hs : s.Placed source)
    (hkind : s.stream.current.kind ≠ .kwDo) :
    Runs env s (statementWithin room) (fun _ t => s.Follows source t)
      fun f t => Refused (.placed source) env (opened s) f t.session := by
  have hnames : ∀ r < room, GivesExpr (.placed source) .names r := fun r _ =>
    (names_forms Course.placed_wide.blames).gives fun _ _ _ h => h
  exact (statementWithin_achieves Course.placed_wide henv.loads hnames (.refl hs) hkind).imp
    (fun _ _ h => h.1) fun _ _ hf => hf

include hstart

/-- A boundary follows the start of the text. -/
theorem Boundary.follows {room : Nat} {blocks : List (List Stmt)}
    (h : Boundary env start room blocks s) : start.Follows source s := by
  induction h with
  | start => exact .of_eq hstart rfl rfl (.refl _)
  | semicolon _ hpass ih => exact ih.trans (ih.placed.next hpass.2)
  | statement _ hkind hrun ih =>
    exact ih.trans ((statementWithin_placed henv _ ih.placed hkind).ok hrun)
  | enter _ hpass _ ih | leave _ hpass ih =>
    have hnext := ih.trans (ih.placed.next hpass.2)
    exact ⟨hnext.placed, hnext.quiet, hnext.last⟩

theorem Traced.stops {f : Fault} {x : Session} (h : Traced env start f x) :
    Stops source env start f x := by
  cases h with
  | @token room blocks s t hs ht hbreaks =>
    have hfollows := hs.follows henv hstart
    rcases ht with rfl | ⟨hpass, rfl⟩
    · obtain ⟨hown, hquiet⟩ := (Course.placed source).fails_of_breaks hfollows hbreaks
      exact .own hown hquiet
    · have hnext := hfollows.trans (hfollows.placed.next hpass.2)
      obtain ⟨hown, hquiet⟩ := (Course.placed source).fails_of_breaks hnext hbreaks
      exact .own hown hquiet
  | @statement room blocks s t hs hkind hrun =>
    have hfollows := hs.follows henv hstart
    cases (statementWithin_placed henv room hfollows.placed hkind).error hrun with
    | admitted hf => exact .own hf.2.1 (hfollows.quiet.trans hf.2.2)
    | circular _ _ _ hf => exact .own hf.1 (hfollows.quiet.trans hf.2)
    | failed himport htoken hkey hread hload =>
      exact .load hs hfollows.quiet himport htoken hkey hread hload

/-- A module that is read reports nothing; a fault is one of its text or of an import. -/
theorem module_runs : Runs env start module (fun _ t => start.session.Quiet t.session)
    fun f t => Stops source env start f t.session := by
  refine module_ends.imp ?_ fun _ _ hf => hf.stops henv hstart
  rintro m t ⟨room, u, hu, -, -, -, hsession⟩
  rw [hsession]
  exact (hu.follows henv hstart).quiet

end

end Grammar

end TypedLua
