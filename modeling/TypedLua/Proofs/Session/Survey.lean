import TypedLua.Proofs.Grammar.Success
import TypedLua.Proofs.Session.Sound
import TypedLua.Proofs.Token.Words

/-!
# Session.Survey

Reading a module with an eye on the interface types of one name.  Before the name is declared there
are none; from then on they are instances of one declaration.  Every step of reading keeps this, the
declaration itself apart, and that stands in the text only once.

A survey knows beforehand what the module defines and which types there are in the end.  This module
has the steps inside a statement.

Main statements: `Survey.watch` and `Survey.At.run`.
-/

namespace TypedLua

open Text TypedLua.Parser
open Token (Kind)

/-! ## What a module defines -/

/-- The name and the type that a definition binds. -/
def Expr.definition? : Expr → Option (String × TypeId)
  | .typeAlias name tag => some (name, tag.type)
  | _ => none

mutual

/-- The definitions of types in a statement. -/
def Stmt.definitions : Stmt → List (String × TypeId)
  | .expression e _ => e.definition?.toList
  | .exportExpr e _ => e.definition?.toList
  | .exportStmt item _ => item.definitions
  | .block b => b.definitions
  | _ => []

/-- The definitions of types in a block. -/
def Block.definitions : Block → List (String × TypeId)
  | ⟨body, _, _⟩ => Stmt.definitionsOf body

/-- The definitions of types in statements. -/
def Stmt.definitionsOf : List Stmt → List (String × TypeId)
  | [] => []
  | s :: ss => s.definitions ++ Stmt.definitionsOf ss

end

theorem Block.definitions_eq (b : Block) : b.definitions = Stmt.definitionsOf b.body := by
  cases b
  rfl

theorem Stmt.definitions_subset {m : Stmt} {ms : List Stmt} (h : m ∈ ms) :
    m.definitions ⊆ Stmt.definitionsOf ms := by
  induction ms with
  | nil => cases h
  | cons m' ms ih =>
    rcases List.mem_cons.1 h with rfl | h
    · exact List.subset_append_left _ _
    · exact List.Subset.trans (ih h) (List.subset_append_right _ _)

/-- The definitions of types in a module, those of imported modules left out. -/
def Module.definitions (m : Module) : List (String × TypeId) := m.block.definitions

/-! ## Surveys -/

theorem ScopeStack.mem_modifyCurrent {s : ScopeStack} {f : Scope → Scope} {x : Scope}
    (h : x ∈ (s.modifyCurrent f).scopes) : x ∈ s.scopes ∨ ∃ y ∈ s.scopes, x = f y := by
  obtain ⟨scopes⟩ := s
  cases scopes with
  | nil => cases h
  | cons scope rest =>
    rcases List.mem_cons.1 h with rfl | hrest
    · exact .inr ⟨scope, List.mem_cons_self, rfl⟩
    · exact .inl (List.mem_cons_of_mem _ hrest)

/-- What is known beforehand about the reading of a module. -/
structure Survey where
  name : String
  words : List Token
  definitions : List (String × TypeId)
  final : TypeArena
  importless : ∀ token ∈ words, token.kind ≠ .kwImport
  once : Token.declarations name words ≤ 1
  /-- Defined names of its types that are applied stand for types over distinct parameters. -/
  applied : ∀ entry ∈ definitions, entry.1 ∈ Token.applied words →
    ∀ shape ∈ final.get? entry.2, shape.Uninstantiated final name
  /-- Its properties mention no parameters but those of the arguments. -/
  closed : ∀ shape ∈ final.shapes, shape.Closed final name

variable {id : TypeId} {name : String}

namespace Survey

/-- How far reading has come. -/
inductive Stage where
  | before
  | after

variable (S : Survey)

/-- What is kept of the types. -/
def Keeps : Stage → TypeArena → Prop
  | .before, a => a.Undeclared S.name
  | .after, a => a.Extends S.final → ∃ d, (S.name, d) ∈ S.definitions ∧ a.Uniform S.name d

/-- A name means a type that is defined for it, or one that is no interface. -/
def Means (a : TypeArena) (name : String) (id : TypeId) : Prop :=
  (name, id) ∈ S.definitions ∨
    ∃ shape, a.get? id = some shape ∧ ∀ n gs ps, shape ≠ .interface n gs ps

/-- The names of a scope have meanings. -/
def Binds (a : TypeArena) (scope : Scope) : Prop :=
  ∀ name id, scope.types.find? name = some id → S.Means a name id

/-- What is kept while the given words are read. -/
structure Holds (stage : Stage) (ws : List Token) (s : ParserState) : Prop where
  words : s.stream.words <:+ ws
  /-- The names of all open scopes have meanings. -/
  binds : ∀ scope ∈ s.scopes.scopes, S.Binds s.session.types scope
  keeps : S.Keeps stage s.session.types

variable {S} {stage : Stage} {a b : TypeArena}

theorem Means.mono (h : S.Means a name id) (hab : a.Extends b) : S.Means b name id := by
  rcases h with hdefined | ⟨shape, hid, hshape⟩
  · exact .inl hdefined
  · exact .inr ⟨shape, hab.get? hid, hshape⟩

theorem Binds.mono {scope : Scope} (h : S.Binds a scope) (hab : a.Extends b) : S.Binds b scope :=
  fun name id hid => (h name id hid).mono hab

/-- Shapes of other types leave the survey where it is. -/
theorem Keeps.intern (h : S.Keeps stage a) (ha : a.Grounded) {s : Shape}
    (hparts : ∀ part ∈ s.parts, a.Holds part) (hs : ∀ gs ps, s ≠ .interface S.name gs ps) :
    S.Keeps stage (TypeArena.intern s a).2 := by
  cases stage with
  | before => exact TypeArena.Undeclared.intern h hs
  | after =>
    intro hfinal
    obtain ⟨d, hd, huniform⟩ := h ((TypeArena.extends_intern a s).trans hfinal)
    exact ⟨d, hd, huniform.intern ha hparts hs⟩

/-- So do instances. -/
theorem Keeps.instantiate (h : S.Keeps stage a) (ha : a.Grounded) {other : String}
    {gs xs : List TypeId} {ps : List Property} (happlied : name ∈ Token.applied S.words)
    (hmeans : S.Means a name id) (hid : a.get? id = some (.interface other gs ps))
    (hlen : gs.length = xs.length) (hxs : ∀ x ∈ xs, a.Holds x) :
    S.Keeps stage (TypeArena.instantiate id xs a).2 := by
  cases stage with
  | before => exact TypeArena.Undeclared.instantiate h ha hid hlen hxs
  | after =>
    intro hfinal
    have hext := (TypeArena.extends_instantiate ha hid hlen hxs).trans hfinal
    obtain ⟨d, hd, huniform⟩ := h hext
    refine ⟨d, hd, huniform.instantiate ha hid hlen hxs ?_⟩
    rintro rfl
    rcases hmeans with hdefined | ⟨shape, hshape, hnone⟩
    · -- the final arena says that the arguments are parameters, and it agrees with this one
      -- on all types that there are by now
      obtain ⟨parameters, hdistinct, hgs⟩ := S.applied _ hdefined happlied _ (hext.get? hid) rfl
      refine ⟨parameters, hdistinct, hgs.of_extends hext fun g hg => ?_⟩
      exact ha.holds_part hid (List.mem_append_left _ hg)
    · rw [hid] at hshape
      cases hshape
      exact absurd rfl (hnone _ gs ps)

theorem Holds.withTypes {ws : List Token} {s : ParserState} (h : S.Holds stage ws s)
    (hext : s.session.types.Extends a) (ha : S.Keeps stage a) :
    S.Holds stage ws (s.withTypes a) :=
  ⟨h.words, fun scope hscope => (h.binds scope hscope).mono hext, ha⟩

/-- **The steps of reading a type keep what a survey keeps.** -/
def watch (S : Survey) (stage : Stage) (ws : List Token) (hws : ws <:+ S.words) : Invariant where
  Holds := S.Holds stage ws
  Applied name := name ∈ Token.applied S.words
  Means := S.Means
  advanced {s} h := ⟨s.stream.words_next_suffix.trans h.words, h.binds, h.keeps⟩
  deepened _ h := ⟨h.words, h.binds, h.keeps⟩
  declared _ h := ⟨h.words, h.binds, h.keeps⟩
  modified {s f} h hf := by
    refine ⟨h.words, fun scope hscope => ?_, h.keeps⟩
    rcases ScopeStack.mem_modifyCurrent hscope with hold | ⟨scope, hold, rfl⟩
    · exact h.binds scope hold
    · have hbinds := h.binds scope hold
      unfold Binds at hbinds ⊢
      rw [hf scope]
      exact hbinds
  interned {s shape} h ha hparts hshape :=
    h.withTypes (TypeArena.extends_intern _ shape) (h.keeps.intern ha hparts (hshape S.name))
  applied h hkind hless :=
    Token.mem_applied_of_suffix (h.words.trans hws) (Token.Stream.mem_applied_words hkind hless)
  means {s name id} h hid := by
    obtain ⟨scope, hscope, hfind⟩ := List.exists_of_findSome?_eq_some hid
    exact h.binds scope hscope name id hfind
  means_mono hab h := h.mono hab
  instantiated h ha happlied hmeans hid hlen hxs :=
    h.withTypes (TypeArena.extends_instantiate ha hid hlen hxs)
      (h.keeps.instantiate ha happlied hmeans hid hlen hxs)

end Survey

/-! ## States of a survey -/

/-- Loading modules keeps sessions sound. -/
def ParserEnv.Sound (env : ParserEnv) : Prop := sound.Loads env.load env.load

/-- The types and variables of a state. -/
def ParserState.arenas (s : ParserState) : Arenas := ⟨s.session.types, s.session.vars⟩

namespace Survey

/-- Reading has come to the stage, and only the given words are left. -/
structure At (S : Survey) (stage : Stage) (ws : List Token) (s : ParserState) : Prop where
  suffix : ws <:+ S.words
  /-- The state is sound, and what the survey keeps holds of it. -/
  sound : ParserState.Sound (S.watch stage ws suffix) s.arenas s s

variable {S : Survey} {stage : Stage} {ws : List Token} {env : ParserEnv} {s t : ParserState}

namespace At

theorem words (h : S.At stage ws s) : s.stream.words <:+ ws := h.sound.invariant.words

theorem binds (h : S.At stage ws s) : ∀ scope ∈ s.scopes.scopes, S.Binds s.session.types scope :=
  h.sound.invariant.binds

theorem keeps (h : S.At stage ws s) : S.Keeps stage s.session.types := h.sound.invariant.keeps

theorem grounded (h : S.At stage ws s) : s.session.types.Grounded := h.sound.session.grounded

/-- What reads without definitions keeps the survey. -/
theorem run {α : Type} {R : Link Arenas α α} {p : Parser α} {x : α} (h : S.At stage ws s)
    (henv : env.Sound) (hp : ∀ I, (own I).Agrees s.arenas R p p)
    (hrun : p env s = (.ok x, t)) :
    s.arenas ≤ t.arenas ∧ R.rel t.arenas x x ∧ S.At stage ws t := by
  obtain ⟨hws, hs⟩ := h
  obtain ⟨v, hle, hr, hv⟩ := (hp (S.watch stage ws hws)).run id
    (⟨rfl, ⟨rfl, rfl, rfl, rfl⟩, henv⟩ : (own _).env env env) hs
  rw [hrun] at hr hv
  obtain rfl : v = t.arenas := by
    obtain ⟨types, vars⟩ := v
    obtain rfl := hv.session.types
    obtain rfl := hv.session.vars
    rfl
  exact ⟨hle, hr.of_ok, hws, hv⟩

theorem next (h : S.At stage ws s) : S.At stage ws s.next :=
  ⟨h.suffix, own_passes _ h.sound rfl nofun⟩

theorem deepened (h : S.At stage ws s) (n : Nat) : S.At stage ws { s with depth := n } :=
  ⟨h.suffix, (own_lawful _).deepened n h.sound⟩

theorem narrow (h : S.At stage ws s) : S.At stage s.stream.words s := by
  refine ⟨h.words.trans h.suffix, rfl, h.sound.session, h.sound.scopes, ?_⟩
  exact ⟨List.suffix_refl _, h.binds, h.keeps⟩

theorem rescoped (h : S.At stage ws s) {scopes : ScopeStack}
    (hscopes : (Link.scopes Arenas.typeIds Arenas.variableIds).rel s.arenas scopes scopes)
    (hbinds : ∀ scope ∈ scopes.scopes, S.Binds s.session.types scope) :
    S.At stage ws { s with scopes } :=
  ⟨h.suffix, rfl, h.sound.session, hscopes, h.words, hbinds, h.keeps⟩

theorem push (h : S.At stage ws s) {scope : Scope}
    (hscope : (Link.scope Arenas.typeIds Arenas.variableIds).rel s.arenas scope scope)
    (hbinds : S.Binds s.session.types scope) :
    S.At stage ws { s with scopes := s.scopes.push scope } := by
  refine h.rescoped (ScopeStack.rel_push h.sound.scopes hscope) ?_
  intro scope' hmem
  rcases List.mem_cons.1 hmem with rfl | hold
  · exact hbinds
  · exact h.binds scope' hold

theorem pop (h : S.At stage ws s) : S.At stage ws { s with scopes := s.scopes.pop.2 } :=
  h.rescoped (ScopeStack.rel_pop h.sound.scopes).2 fun scope hmem =>
    h.binds scope (List.mem_of_mem_tail hmem)

/-- Names may be bound to what the module defines. -/
theorem define (h : S.At stage ws s) (hid : s.session.types.Holds id)
    (hdefined : (name, id) ∈ S.definitions) :
    S.At stage ws { s with scopes := s.scopes.modifyCurrent fun scope =>
      { scope with types := scope.types.insert name id } } := by
  refine h.rescoped ?_ fun scope hscope => ?_
  · exact ScopeStack.rel_modifyCurrent h.sound.scopes fun _ _ hxy =>
      Scope.rel_insertType hxy name ⟨rfl, hid⟩
  · rcases ScopeStack.mem_modifyCurrent hscope with hold | ⟨scope, hold, rfl⟩
    · exact h.binds scope hold
    · intro other id' hfound
      rw [Bindings.find?_insert] at hfound
      split at hfound
      · next heq =>
        cases hfound
        rw [heq]
        exact .inl hdefined
      · exact h.binds scope hold other id' hfound

theorem exportType (h : S.At stage ws s) (name : String) (hid : s.session.types.Holds id) :
    S.At stage ws { s with scopes := s.scopes.exportType name id } := by
  refine h.rescoped (ScopeStack.rel_exportType h.sound.scopes name ⟨rfl, hid⟩) ?_
  intro scope hscope
  rcases ScopeStack.mem_modifyCurrent hscope with hold | ⟨scope, hold, rfl⟩
  · exact h.binds scope hold
  · exact h.binds scope hold

end At

end Survey

end TypedLua
