import TypedLua.Proofs.Grammar.Effects

/-!
# Grammar.Boundaries

Reading a module statement by statement.  A boundary is a state in which a statement is due; it
comes with the statements that were completed in each of the open blocks.  From one boundary to the
next a semicolon is taken, a statement is read, a nested block is entered or one is left.

Main statement: `module_ends`, reading a module goes from boundary to boundary, up to the end of the
text or to a boundary at which it is refused.  What every such step keeps holds throughout.
-/

namespace TypedLua.Grammar

open Text TypedLua.Parser
open Token (Kind)

/-! ## Boundaries -/

/-- The state in which a statement is read: one more construct is open. -/
def opened (s : ParserState) : ParserState := { s with depth := s.depth + 1 }

/-- The state in which the first statement of a nested block is due. -/
def entered (s : ParserState) : ParserState :=
  { s.next with depth := s.depth + 1 + 1, scopes := s.scopes.push {} }

/-- The state after a nested block. -/
def left (s : ParserState) : ParserState :=
  { s.next with depth := s.depth - 1 - 1, scopes := s.scopes.pop.2 }

/-- The state in which the first statement of a module is due. -/
def begun (s : ParserState) : ParserState := { s with scopes := s.scopes.push rootScope }

/-- The current token is of the given kind, and can be taken. -/
def Passes (k : Kind) (s : ParserState) : Prop :=
  s.stream.current.kind = k ∧ s.stream.next.1 = .ok ()

/-- While a module is read, a statement is due in the state, and `room` constructs may be opened for
it.  The statements that are completed in each open block are given with the innermost block first
and the latest statement first. -/
inductive Boundary (env : ParserEnv) (start : ParserState) :
    Nat → List (List Stmt) → ParserState → Prop
  | start : Boundary env start (nestingLimit - start.depth) [[]] (begun start)
  | semicolon {room : Nat} {blocks : List (List Stmt)} {s : ParserState} :
    Boundary env start room blocks s → Passes .semicolon s → Boundary env start room blocks s.next
  /-- A statement other than a nested block was read. -/
  | statement {room : Nat} {body : List Stmt} {blocks : List (List Stmt)} {s t : ParserState}
      {m : Stmt} :
    Boundary env start room (body :: blocks) s → s.stream.current.kind ≠ .kwDo →
    statementWithin room env s = (.ok m, t) → Boundary env start room ((m :: body) :: blocks) t
  | enter {room : Nat} {body : List Stmt} {blocks : List (List Stmt)} {s : ParserState} :
    Boundary env start (room + 2) (body :: blocks) s → Passes .kwDo s →
    s.depth + 1 < nestingLimit → Boundary env start room ([] :: body :: blocks) (entered s)
  | leave {room : Nat} {inner body : List Stmt} {blocks : List (List Stmt)} {s : ParserState}
      {span : Span} :
    Boundary env start room (inner :: body :: blocks) s → Passes .kwEnd s →
    Boundary env start (room + 2)
      ((.block ⟨inner.reverse, s.scopes.pop.1.getD {}, span⟩ :: body) :: blocks) (left s)

variable {env : ParserEnv} {start s t : ParserState} {room : Nat} {α : Type}
variable {blocks : List (List Stmt)} {body : List Stmt}

/-! ## Runs of parts -/

section

variable {F : Fault → Session → Prop} (hF : ∀ f, s.stream.Breaks f → F f s.session)

include hF

theorem tooDeep_ends {construct : String} {Q : α → ParserState → Prop} :
    Runs env s (tooDeep construct) Q fun f t => F f t.session :=
  Runs.currentSpan_bind (Runs.fail _ _ (hF _ (.inr ⟨rfl, .intro⟩)))

theorem ends_nested {construct : String} {p : Parser α} {Q : α → ParserState → Prop}
    (h : s.depth < nestingLimit → Runs env (opened s) p
      (fun a t => Q a { t with depth := t.depth - 1 }) fun f t => F f t.session) :
    Runs env s (nested construct p) Q fun f t => F f t.session := by
  have hdeepen : Runs env s (deepen construct) (fun _ t => t = opened s ∧ s.depth < nestingLimit)
      fun f t => F f t.session := by
    refine Runs.gets_bind ?_
    split
    · next hroom => exact Runs.modify ⟨rfl, hroom⟩
    · exact tooDeep_ends hF
  refine hdeepen.bind ?_
  rintro _ _ ⟨rfl, hroom⟩
  exact Runs.restoring (h hroom)

theorem ends_expect (k : Kind) : Runs env s (expect k) (fun _ t => Passes k s ∧ t = s.next)
    fun f t => F f t.session := by
  refine (Runs.expect k).imp (fun _ _ h => h.2) ?_
  rintro f t ⟨hf, ht⟩
  rw [ht]
  exact hF f hf

theorem ends_eat (k : Kind) :
    Runs env s (eat k) (fun found t => if found then Passes k s ∧ t = s.next else t = s)
      fun f t => F f t.session := by
  refine Runs.check_bind ?_
  cases hfound : s.stream.current.kind == k with
  | false => exact Runs.pure rfl
  | true =>
    rw [beq_iff_eq] at hfound
    refine Runs.bind (Q := fun _ t => Passes k s ∧ t = s.next) ?_ fun _ t ht => Runs.pure ht
    have hrun : advance env s = (s.stream.next.1, s.next) := rfl
    cases hnext : s.stream.next.1 with
    | ok _ =>
      rw [hnext] at hrun
      exact Runs.of_ok hrun ⟨⟨hfound, hnext⟩, rfl⟩
    | error f =>
      rw [hnext] at hrun
      exact Runs.of_error hrun (hF f (.inl (Token.Stream.mem_of_next hnext)))

end

/-! ## From boundary to boundary -/

/-- A statement that is no block has an effect, or it is refused. -/
theorem statementWithin_achieves {B : Course} {T : Trait Expr} (hB : B.Wide) (hload : B.Loads env)
    (hT : ∀ r < room, GivesExpr B T r) (hs : B.Leads s s)
    (hkind : s.stream.current.kind ≠ .kwDo) :
    Runs env s (statementWithin room) (fun m t => B.Leads s t ∧
      ∃ u, EffectOf T env (opened s) m u ∧ t = { u with depth := u.depth - 1 })
      fun f t => Refused B env (opened s) f t.session := by
  have hopen : B.Leads s (opened s) := B.deepened _ hs
  have hF : ∀ f, s.stream.Breaks f → Refused B env (opened s) f s.session := fun f hf =>
    .admitted (B.steady.fails_of_breaks (t := opened s) (Course.steady_refl (B.right hopen)) hf)
  cases room with
  | zero =>
    unfold statementWithin
    exact tooDeep_ends hF
  | succ room =>
    unfold statementWithin
    refine ends_nested hF fun _ => ?_
    have hroom := hT room (Nat.lt_succ_self room)
    refine (statementOf_ends hB hload hroom (B.right hopen) _ hkind).imp ?_ fun _ _ hf => hf
    rintro m u ⟨hlead, heffect⟩
    have hlead := B.trans hopen hlead
    exact ⟨B.trans hlead (B.deepened _ (B.right hlead)), u, heffect, rfl⟩

theorem statementWithin_effect (room : Nat) (hkind : s.stream.current.kind ≠ .kwDo) :
    Runs env s (statementWithin room)
      (fun m t => ∃ u, Effect env (opened s) m u ∧ t = { u with depth := u.depth - 1 })
      fun f t => Refused .free env (opened s) f t.session := by
  have hnames : ∀ r < room, GivesExpr .free .names r := fun r _ =>
    (names_forms Course.free_wide.blames).gives fun _ _ _ h => h
  exact (statementWithin_achieves Course.free_wide (Course.free_loads env) hnames .intro
    hkind).imp (fun _ _ h => h.2) fun _ _ hf => hf

theorem Boundary.moves (h : Boundary env start room blocks s) : start.stream.Moves s.stream := by
  induction h with
  | start => exact .refl
  | semicolon _ _ ih => exact ih.tail rfl
  | statement _ hkind hrun ih =>
    obtain ⟨u, heffect, rfl⟩ := (statementWithin_effect _ hkind).ok hrun
    exact ih.trans heffect.moves
  | enter _ _ _ ih => exact ih.tail rfl
  | leave _ _ ih => exact ih.tail rfl

theorem Boundary.loading_eq (h : Boundary env start room blocks s)
    (hload : ∀ path text s, (env.load path text s).2.loading = s.loading) :
    s.session.loading = start.session.loading := by
  induction h with
  | start => rfl
  | semicolon _ _ ih => exact ih
  | statement _ hkind hrun ih =>
    obtain ⟨u, heffect, rfl⟩ := (statementWithin_effect _ hkind).ok hrun
    exact (heffect.loading_eq hload).trans ih
  | enter _ _ _ ih => exact ih
  | leave _ _ ih => exact ih

/-- An import in the text was met and its module was loaded, where the text names that module. -/
inductive Imported (env : ParserEnv) (start : ParserState) : String → Prop
  /-- The words of the import stand at a boundary. -/
  | mk {room : Nat} {blocks : List (List Stmt)} {s t : ParserState} {names : List (String × Span)}
      {token : Token} {path : Path} {text : String} {source : Module} {session : Session} :
    Boundary env start room blocks s → ImportsAt env (opened s) names token path t →
    env.files.key path ∉ s.session.loading → env.files.read path = .ok text →
    env.load path text s.session = (some source, session) → Imported env start token.text

/-- The modules named so far have been imported. -/
theorem Boundary.sources (h : Boundary env start room blocks s) {x : String}
    (hx : x ∈ Token.sources start.stream.words) :
    x ∈ Token.sources s.stream.words ∨ Imported env start x := by
  have hpass : ∀ {k : Kind} {s : ParserState}, Passes k s → k ≠ .kwFrom →
      Token.sources s.next.stream.words = Token.sources s.stream.words := by
    intro k s hpass hk
    exact Token.Stream.TakesMany.sources_eq (.single ⟨by rw [hpass.1]; exact hk, rfl⟩)
  induction h with
  | start => exact .inl hx
  | semicolon _ hsemicolon ih =>
    rw [hpass hsemicolon (by decide)]
    exact ih
  | @statement room body blocks s t m hs hkind hrun ih =>
    obtain ⟨u, heffect, rfl⟩ := (statementWithin_effect _ hkind).ok hrun
    rcases ih with hleft | himported
    · rcases heffect.sources with
        hsame | ⟨names, token, path, text, source, v, himport, hkey, hread, hload, hsources⟩
      · rw [show Token.sources u.stream.words = _ from hsame]
        exact .inl hleft
      · rw [show Token.sources s.stream.words = _ from hsources] at hleft
        rcases List.mem_cons.1 hleft with rfl | hleft
        · exact .inr (.mk hs himport hkey hread hload)
        · exact .inl hleft
    · exact .inr himported
  | @enter room body blocks s _ hdo _ ih =>
    rw [show Token.sources (entered s).stream.words = _ from hpass hdo (by decide)]
    exact ih
  | @leave room inner body blocks s span _ hend ih =>
    rw [show Token.sources (left s).stream.words = _ from hpass hend (by decide)]
    exact ih

/-- Reading a module ends with the fault at one of its boundaries: a token is in the way, or the
statement that is due is refused.  The session is that which is left then. -/
inductive Traced (env : ParserEnv) (start : ParserState) (f : Fault) : Session → Prop
  /-- The token that is due, or that after a word `do`, is in the way. -/
  | token {room : Nat} {blocks : List (List Stmt)} {s t : ParserState} :
    Boundary env start room blocks s → t = s ∨ Passes .kwDo s ∧ t = s.next → t.stream.Breaks f →
    Traced env start f s.session
  /-- The statement that is due, which is no nested block, is refused. -/
  | statement {room : Nat} {blocks : List (List Stmt)} {s t : ParserState} :
    Boundary env start room blocks s → s.stream.current.kind ≠ .kwDo →
    statementWithin room env s = (.error f, t) → Traced env start f t.session

/-- A text that breaks behind a statement is traced to that place. -/
theorem Boundary.traced (h : Boundary env start room blocks s) (f : Fault)
    (hf : s.stream.Breaks f) : Traced env start f s.session := .token h (.inl rfl) hf

theorem Boundary.traced_do (h : Boundary env start room blocks s) (hpass : Passes .kwDo s)
    (f : Fault) (hf : s.next.stream.Breaks f) : Traced env start f s.session :=
  .token h (.inr ⟨hpass, rfl⟩) hf

/-- Statements lead from one boundary to the next. -/
theorem statementsOf_ends (hstatement : ∀ {body s}, Boundary env start room (body :: blocks) s →
      Runs env s (statementWithin room)
        (fun m t => Boundary env start room ((m :: body) :: blocks) t)
        fun f t => Traced env start f t.session)
    (close : Kind) (n : Nat) (h : Boundary env start room (body :: blocks) s) :
    Runs env s (statementsOf (statementWithin room) close n)
      (fun ms t => Boundary env start room ((ms.reverse ++ body) :: blocks) t)
      fun f t => Traced env start f t.session := by
  induction n generalizing s body with
  | zero => exact Runs.pure h
  | succ n ih =>
    refine Runs.check_bind ?_
    cases s.stream.current.kind == close with
    | true => exact Runs.pure h
    | false =>
      refine Runs.check_bind ?_
      cases s.stream.current.kind == .eof with
      | true =>
        refine Runs.of_error rfl ?_
        exact h.traced _ (.inr ⟨rfl, .intro⟩)
      | false =>
        refine (ends_eat h.traced .semicolon).bind fun found t hfound => ?_
        cases found with
        | true =>
          obtain ⟨hpass, rfl⟩ := hfound
          exact ih (.semicolon h hpass)
        | false =>
          obtain rfl := show t = s from hfound
          refine (hstatement h).bind fun m u hu => ?_
          refine (ih hu).bind fun ms v hv => Runs.pure ?_
          rwa [List.reverse_cons, List.append_assoc]

theorem blockWithin_ends
    (hstatement : ∀ {inner s}, Boundary env start room (inner :: body :: blocks) s →
      Runs env s (statementWithin room)
        (fun m t => Boundary env start room ((m :: inner) :: body :: blocks) t)
        fun f t => Traced env start f t.session)
    (h : Boundary env start (room + 2) (body :: blocks) s) (hpass : Passes .kwDo s) :
    Runs env (opened s).next (blockWithin (room + 1) .kwEnd) (fun b u => ∃ inner t,
      Boundary env start room (inner :: body :: blocks) t ∧ b.body = inner.reverse ∧
        b.scope = t.scopes.pop.1.getD {} ∧
        u = { t with scopes := t.scopes.pop.2, depth := t.depth - 1 })
      fun f t => Traced env start f t.session := by
  unfold blockWithin
  refine ends_nested ?_ fun hdepth => ?_
  · exact h.traced_do hpass
  refine Runs.currentSpan_bind ?_
  refine Runs.bind (Q := fun x u => ∃ inner t, Boundary env start room (inner :: body :: blocks) t ∧
    x.1 = inner.reverse ∧ x.2 = t.scopes.pop.1.getD {} ∧
    u = { t with scopes := t.scopes.pop.2 }) (Runs.withScope ?_) ?_
  · -- the first statement of the block is due
    show Runs env (entered s) (fuel >>= statementsOf (statementWithin room) .kwEnd) _ _
    refine Runs.gets_bind ?_
    refine (statementsOf_ends hstatement .kwEnd _ (.enter h hpass hdepth)).imp ?_ fun _ _ hf => hf
    intro ms t ht
    rw [List.append_nil] at ht
    exact ⟨ms.reverse, t, ht, (List.reverse_reverse ms).symm, rfl, rfl⟩
  · rintro ⟨ms, scope⟩ _ ⟨inner, t, ht, hms, hscope, rfl⟩
    dsimp only
    split
    · exact Runs.pure ⟨inner, t, ht, hms, hscope, rfl⟩
    · exact Runs.spanFrom_bind fun span => Runs.pure ⟨inner, t, ht, hms, hscope, rfl⟩

/-- A statement is put at the end of the innermost block. -/
theorem statementWithin_ends (room : Nat) (h : Boundary env start room (body :: blocks) s) :
    Runs env s (statementWithin room)
      (fun m t => Boundary env start room ((m :: body) :: blocks) t)
      fun f t => Traced env start f t.session := by
  induction room using Nat.strongRecOn generalizing s body blocks with
  | _ room ih =>
    by_cases hkind : s.stream.current.kind = .kwDo
    · cases room with
      | zero =>
        unfold statementWithin
        exact tooDeep_ends h.traced
      | succ room =>
        unfold statementWithin
        refine ends_nested h.traced fun _ => ?_
        refine Runs.currentSpan_bind (Runs.currentKind_bind ?_)
        rw [show (opened s).stream.current.kind = .kwDo from hkind]
        refine Runs.currentSpan_bind ?_
        refine (ends_expect (s := opened s) h.traced .kwDo).bind ?_
        rintro _ _ ⟨hpass, rfl⟩
        cases room with
        | zero =>
          unfold blockWithin
          refine Runs.bind (Q := fun _ _ => False) ?_ fun _ _ h => h.elim
          refine tooDeep_ends ?_
          exact h.traced_do hpass
        | succ room =>
          have hlt : room < room + 1 + 1 := by omega
          refine (blockWithin_ends (fun hb => ih room hlt hb) h hpass).bind ?_
          rintro b _ ⟨inner, t, ht, hbody, hscope, rfl⟩
          refine Runs.bind (ends_expect ?_ .kwEnd) ?_
          · exact ht.traced
          rintro _ _ ⟨hend, rfl⟩
          refine Runs.spanFrom_bind fun span => Runs.pure ?_
          rw [hbody, hscope]
          exact .leave ht hend
    · exact ⟨fun hrun => .statement h hkind hrun, fun hrun => .statement h hkind hrun⟩

/-- A module that is read ends at a boundary with one block; a fault is traced. -/
theorem module_ends : Runs env start module (fun m t => ∃ room u,
    Boundary env start room [m.block.body.reverse] u ∧ u.stream.current.kind = .eof ∧
      m.file = env.file ∧ m.block.scope = u.scopes.pop.1.getD {} ∧ t.session = u.session)
    fun f t => Traced env start f t.session := by
  refine Runs.gets_bind ?_
  refine Runs.bind (Q := fun b t => ∃ room u, Boundary env start room [b.body.reverse] u ∧
    b.scope = u.scopes.pop.1.getD {} ∧ t = { u with scopes := u.scopes.pop.2 }) ?_ ?_
  · refine Runs.currentSpan_bind ?_
    refine Runs.bind (Q := fun x t => ∃ room u, Boundary env start room [x.1.reverse] u ∧
      x.2 = u.scopes.pop.1.getD {} ∧ t = { u with scopes := u.scopes.pop.2 })
      (Runs.withScope ?_) ?_
    · show Runs env (begun start) (fuel >>= statementsOf (statementWithin _) .eof) _ _
      refine Runs.gets_bind ?_
      refine (statementsOf_ends (statementWithin_ends _) .eof _ .start).imp ?_ fun _ _ hf => hf
      intro ms t ht
      rw [List.append_nil] at ht
      exact ⟨_, t, ht, rfl, rfl⟩
    · rintro ⟨ms, scope⟩ _ ⟨room, u, hu, hscope, rfl⟩
      dsimp only
      split
      · exact Runs.pure ⟨room, u, hu, hscope, rfl⟩
      · exact Runs.spanFrom_bind fun span => Runs.pure ⟨room, u, hu, hscope, rfl⟩
  · rintro b _ ⟨room, u, hu, hscope, rfl⟩
    refine Runs.bind (ends_expect ?_ .eof) ?_
    · exact hu.traced
    rintro _ _ ⟨heof, rfl⟩
    refine Runs.bind (Q := fun file t => file = env.file ∧ t = _) (.of_ok rfl ⟨rfl, rfl⟩) ?_
    rintro _ _ ⟨rfl, rfl⟩
    exact Runs.pure ⟨room, u, hu, heof.1, rfl, hscope, rfl⟩

/-- All that the text of a module names as a source is imported. -/
theorem imported_of_module {m : Module} {text x : String}
    (hrun : module env start = (.ok m, t)) (hwords : start.stream.words = Token.words text)
    (hx : x ∈ Token.sources (Token.words text)) : Imported env start x := by
  obtain ⟨room, u, hu, heof, -⟩ := module_ends.ok hrun
  rw [← hwords] at hx
  rcases hu.sources hx with hleft | himported
  · -- the end of the text is all that is left
    have hsuffix : u.stream.words <:+ Token.words text := hwords ▸ hu.moves.words_suffix
    have hend : u.stream.words = [u.stream.current] :=
      congrArg (u.stream.current :: ·) (Token.eq_nil_of_eof hsuffix heof)
    rw [hend] at hleft
    cases hleft
  · exact himported

theorem Traced.statement_of_cause {f : Fault} {x : Session} {text : String}
    (h : Traced env start f x) (hupcoming : start.stream.upcoming ⊆ Token.readings text)
    (hlocal : ¬ f.cause.Local) (hlexical : ∀ cause, f.cause ≠ .lexical cause) :
    ∃ room blocks s t, Boundary env start room blocks s ∧
      statementWithin room env s = (.error f, t) ∧
      Refused .free env (opened s) f x ∧ .error f ∉ s.stream.upcoming := by
  have hnone : ∀ {s : ParserState}, start.stream.Moves s.stream →
      .error f ∉ s.stream.upcoming := by
    intro s hmoves hf
    obtain ⟨cause, hcause⟩ :=
      Token.cause_of_mem_readings (hupcoming (hmoves.upcoming_suffix.subset hf))
    exact hlexical cause hcause
  cases h with
  | token hs ht hbreaks =>
    rcases hbreaks with hf | hf
    · rcases ht with rfl | ⟨-, rfl⟩
      · exact absurd hf (hnone hs.moves)
      · exact absurd hf (hnone (hs.moves.tail rfl))
    · exact absurd hf.2 hlocal
  | @statement room blocks s t hs hkind hrun =>
    exact ⟨room, blocks, s, t, hs, hrun, (statementWithin_effect room hkind).error hrun,
      hnone hs.moves⟩

end TypedLua.Grammar
