import TypedLua.Proofs.Grammar.Renamed.Types

/-!
# Grammar.Renamed.Declarations

Reading the declaration of an interface whose parameters are renamed, and of any other.  The scope
of its properties binds the parameters, on the one side under the old names and on the other under
the new ones; every other name means what it means outside, since no new name occurs in the text.

Main statement: `Follows.interfaceOf`.
-/

namespace TypedLua

open Text TypedLua.Parser
open Token (Kind Place Level naming placeAfter namesListed namesBracketed)

variable {N : Respelling} {w : Sides} {s t : ParserState} {level : Level}
variable {name : String} {a b : Scope}

/-! ## The scope of a declaration -/

namespace Respelling

/-- Renaming can be undone. -/
theorem back_naming (h : N.occurs name) (place : Option Place) :
    N.back (naming N.rename place name) = name := by
  unfold naming
  split
  · exact N.back_rename h
  · exact N.back_self h

/-- Names that occur stay apart. -/
theorem naming_inj {other : String} (h : N.occurs name) (h' : N.occurs other)
    (place : Option Place) :
    naming N.rename place name = naming N.rename place other ↔ name = other := by
  refine ⟨fun heq => ?_, fun heq => by rw [heq]⟩
  rw [← N.back_naming h place, heq, N.back_naming h' place]

/-- Scopes of which the one binds a parameter and the other what it is called instead. -/
def renamedScope (N : Respelling) (level : Level) : Link Sides Scope Scope where
  rel w a b := ∀ name, N.occurs name → N.types.option.rel w (a.types.find? name)
    (b.types.find? (naming N.rename level.due name))
  mono hwv _ _ h name hname := N.types.option.mono hwv (h name hname)

/-- Scopes within a declaration. -/
def body (N : Respelling) (level : Level) : Link Sides ScopeStack ScopeStack where
  rel w a b := N.plain.rel w a.pop.2 b.pop.2 ∧ ∀ name, N.occurs name →
    N.types.option.rel w (a.resolveType name)
      (b.resolveType (naming N.rename level.due name))
  mono hwv _ _ h :=
    ⟨N.plain.mono hwv h.1, fun name hname => N.types.option.mono hwv (h.2 name hname)⟩

theorem typed_body (N : Respelling) (level : Level) :
    N.Typed (level.inside .leftBrace) (N.body level) := by
  refine ⟨?_, fun hab name hname => ?_⟩
  · cases level <;> simp [Level.inside]
  · rw [Level.naming_due_inside]
    exact hab.2 name hname

theorem typed_plain (N : Respelling) : N.Typed none N.plain :=
  ⟨nofun, fun hab name _ => ScopeStack.rel_resolveType hab name⟩

theorem renamedScope_contains (h : (N.renamedScope level).rel w a b) (hname : N.occurs name) :
    a.types.contains name = b.types.contains (naming N.rename level.due name) :=
  Link.isSome_eq (h name hname)

theorem renamedScope_insert (h : (N.renamedScope level).rel w a b) (hname : N.occurs name)
    {x y : TypeId} (hxy : N.types.rel w x y) :
    (N.renamedScope level).rel w { a with types := a.types.insert name x }
      { b with types := b.types.insert (naming N.rename level.due name) y } := by
  intro other hother
  show N.types.option.rel w ((a.types.insert name x).find? other)
    ((b.types.insert (naming N.rename level.due name) y).find? (naming N.rename level.due other))
  rw [Bindings.find?_insert, Bindings.find?_insert]
  by_cases heq : other = name
  · rw [if_pos heq, if_pos (by rw [heq])]
    exact .some hxy
  · rw [if_neg heq, if_neg fun hnew => heq ((N.naming_inj hother hname _).1 hnew)]
    exact h other hother

/-- Behind the parameters names mean types that are renamed. -/
theorem body_push {a b : ScopeStack} (hab : N.plain.rel w a b) {x y : Scope}
    (hxy : (N.renamedScope level).rel w x y)
    (hbound : ∀ name, naming N.rename level.due name ≠ name → x.types.contains name = true) :
    (N.body level).rel w (a.push x) (b.push y) := by
  refine ⟨hab, fun name hname => ?_⟩
  have hfound := hxy name hname
  show N.types.option.rel w ((x :: a.scopes).findSome? (·.types.find? name))
    ((y :: b.scopes).findSome? (·.types.find? (naming N.rename level.due name)))
  rw [List.findSome?_cons, List.findSome?_cons]
  cases hx : x.types.find? name with
  | some id =>
    rw [hx] at hfound
    generalize y.types.find? (naming N.rename level.due name) = found at hfound ⊢
    cases hfound with
    | some h => exact .some h
  | none =>
    have hsame : naming N.rename level.due name = name := by
      by_contra hne
      have hcontains := hbound name hne
      rw [Bindings.contains, hx] at hcontains
      cases hcontains
    rw [hx] at hfound
    generalize hy : y.types.find? (naming N.rename level.due name) = found at hfound ⊢
    cases hfound with
    | none =>
      rw [hsame]
      exact ScopeStack.rel_resolveType hab name

end Respelling

/-! ## Parameters -/

/-- What is known after some parameters were read: those that are renamed were among them, or are
still to come. -/
structure Respelling.Listed (N : Respelling) (level : Level) (w : Sides) (x : Scope × List TypeId)
    (s : ParserState) (y : Scope × List TypeId) (t : ParserState) : Prop where
  scopes : (N.renamedScope level).rel w x.1 y.1
  types : N.types.list.rel w x.2 y.2
  /-- Parameters that are renamed are bound or to come. -/
  names : ∀ name, naming N.rename level.due name ≠ name →
    x.1.types.contains name = true ∨ name ∈ namesListed s.stream.contents
  state : ∃ due, N.State ((level.inside .less).place due) N.plain w s t

theorem Follows.parametersFrom (n : Nat) (hab : (N.renamedScope level).rel w a b)
    (hnames : ∀ name, naming N.rename level.due name ≠ name →
      a.types.contains name = true ∨ name ∈ namesListed s.stream.contents)
    (h : N.State (level.inside .less).due N.plain w s t) :
    Follows w s t (Grammar.parametersFrom n a) (Grammar.parametersFrom n b)
      (N.Listed level) := by
  induction n generalizing w s t a b with
  | zero => exact .pure ⟨hab, .nil, hnames, true, h⟩
  | succ n ih =>
    refine .identifier_bind h fun name _ _ hname hcontents h => ?_
    rw [Level.naming_due_inside]
    rw [Level.after_plain .identifier (by decide)] at h
    rw [hcontents] at hnames
    dsimp only
    rw [← N.renamedScope_contains hab hname]
    split
    · exact .fail _ _
    · refine (Follows.internType_stream h (.generic w _ (N.back_naming hname _))).bind ?_
      rintro v x s' y t' hwv ⟨hstream, hxy, h⟩
      have hinsert := N.renamedScope_insert ((N.renamedScope level).mono hwv hab) hname hxy
      -- the name that was read is bound now
      have hbound : ∀ other, naming N.rename level.due other ≠ other →
          (a.types.insert name x).contains other = true ∨
            other ∈ namesListed s'.stream.contents := by
        intro other hother
        rw [Bindings.contains, Bindings.find?_insert]
        by_cases heq : other = name
        · rw [if_pos heq]
          exact .inl rfl
        · rw [if_neg heq, hstream]
          exact (hnames other hother).imp_right fun hmem => (List.mem_cons.1 hmem).resolve_left heq
      refine .eat_bind h (by decide) (fun hcontents h => ?_) fun _ => ?_
      · rw [hcontents] at hbound
        rw [Level.after_comma .less (by decide)] at h
        refine (ih hinsert hbound h).bind ?_
        rintro u ⟨a', gs⟩ s₂ ⟨b', hs⟩ t₂ hvu hlisted
        exact .pure { hlisted with types := .cons (N.types.mono hvu hxy) hlisted.types }
      · exact .pure ⟨hinsert, .cons hxy .nil, hbound, false, h⟩

/-- Parameters are bound to placeholders under their new names. -/
theorem Follows.parameters (h : N.State level.settled N.plain w s t)
    (hnames : ∀ name, naming N.rename level.due name ≠ name →
      name ∈ namesBracketed s.stream.contents) :
    Follows w s t Grammar.parameters Grammar.parameters fun v x s' y t' =>
      (∀ name, naming N.rename level.due name ≠ name → x.1.types.contains name = true) ∧
      N.Both level.settled N.plain ((N.renamedScope level).pair N.types.list) v x s' y t' := by
  have hempty : (N.renamedScope level).rel w {} {} := fun _ _ => .none
  refine .eat_bind h (by decide) (fun hcontents h => ?_) fun hkind => ?_
  · rw [hcontents] at hnames
    rw [Level.after_opening .less (by decide)] at h
    refine .fuel_bind h fun n => ?_
    refine (Follows.parametersFrom n hempty (fun name hname => .inr (hnames name hname)) h).bind ?_
    rintro v x s' y t' - ⟨hscopes, htypes, hbound, due, h⟩
    refine .expect_bind h (by decide) fun hkind h => ?_
    rw [Level.after_closing .greater .less (by decide)] at h
    refine .pure ⟨fun name hname => (hbound name hname).resolve_right ?_, ⟨hscopes, htypes⟩, h⟩
    -- no name is listed after the closing bracket
    rw [Token.Stream.contents, Token.content, hkind]
    exact List.not_mem_nil
  · refine .pure ⟨fun name hname => ?_, ⟨hempty, .nil⟩, h⟩
    have hmem := hnames name hname
    rw [Token.Stream.contents, Token.content, Token.namesBracketed_of_ne hkind] at hmem
    cases hmem

/-! ## Interfaces -/

theorem Follows.interface_bind {α β : Type} {L : Link Sides ScopeStack ScopeStack}
    {P : Sides → α → ParserState → β → ParserState → Prop} (h : N.State none L w s t)
    {p : Token → Parser α} {q : Token → Parser β}
    (hp : ∀ level : Level, level = none ∨ level = some [] →
      (∀ name, naming N.rename level.due name ≠ name →
        name ∈ Token.parameters s.next.stream.contents) →
      N.State level.settled L w s.next t.next →
      Follows w s.next t.next (p s.stream.current) (q t.stream.current) P) :
    Follows w s t (expect .kwInterface >>= p) (expect .kwInterface >>= q) P := by
  refine .expect_step h fun hkind hok => ?_
  obtain ⟨hok', hs, ht⟩ := h.contents_eq hok (by rw [hkind]; decide)
  have htokens := h.tokens
  rw [hs, ht, Token.content, hkind] at htokens
  refine ⟨hok', ?_⟩
  rcases htokens.tail_interface with htail | ⟨htail, hnames⟩
  · exact hp none (.inl rfl) (fun name hname => absurd rfl hname) (h.advanced hs htail)
  · exact hp (some []) (.inr rfl) hnames (h.advanced hs htail)

theorem Follows.defineType {place : Option Place} (h : N.State place N.plain w s t) {x y : TypeId}
    (hxy : N.types.rel w x y) (name : String) {a b : Span} :
    Follows w s t (defineType name x a) (defineType name y b) (N.Both place N.plain .any) := by
  refine .gets_bind ?_
  have hdefined := ScopeStack.rel_defineType? h.scopes name hxy
  generalize s.scopes.defineType? name x = r, t.scopes.defineType? name y = r' at hdefined ⊢
  cases hdefined with
  | none => exact .fail _ _
  | some hscopes =>
    intro env env' u s' hrun
    cases hrun
    exact ⟨w, (), _, le_refl w, rfl, .intro, h.rescoped hscopes⟩

/-- **An interface follows its renamed copy.** -/
theorem Follows.interfaceOf {p : Parser TypeId} (hp : ∀ L, N.ReadsType L p N.types)
    (h : N.State none N.plain w s t) :
    Follows w s t (Grammar.interfaceOf p) (Grammar.interfaceOf p)
      (N.Both none N.plain (.definition .names N.types)) := by
  refine .currentSpan_bind fun _ _ => .interface_bind h fun level hlevel hnames h => ?_
  refine .identifier_bind h fun name _ _ _ hcontents h => ?_
  rw [Level.naming_settled]
  rw [Level.after_plain .identifier (by decide)] at h
  rw [hcontents] at hnames
  refine (Follows.parameters h hnames).bind ?_
  rintro v ⟨a, gs⟩ s₁ ⟨b, hs⟩ t₁ - ⟨hbound, ⟨hab, hgs⟩, h⟩
  refine .expect_bind h (by decide) fun _ h => ?_
  rw [Level.after_leftBrace] at h
  refine (Follows.withScope h (N.body_push h.scopes hab hbound) (fun _ _ _ h => h.1)
    fun s t h => (hp _).properties (N.typed_body level) h).bind ?_
  rintro u ⟨ps, _⟩ s₂ ⟨qs, _⟩ t₂ hvu ⟨⟨hps, -⟩, h⟩
  have hplace : placeAfter (level.inside .leftBrace).settled .rightBrace = none := by
    rcases hlevel with rfl | rfl <;> rfl
  rw [hplace] at h
  refine (Follows.internType h
    (.of_rel (.interface name (N.types.list.mono hvu hgs) hps) nofun)).bind ?_
  rintro w' x s₃ y t₃ - ⟨hxy, h⟩
  refine (Follows.defineType h hxy name).bind ?_
  rintro w'' _ s₄ _ t₄ hle ⟨-, h⟩
  exact .spanFrom_bind fun _ _ => .pure ⟨.mk name ⟨.intro, N.types.mono hle hxy⟩, h⟩

end TypedLua
