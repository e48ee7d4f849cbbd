import TypedLua.Proofs.Grammar.Boundaries
import TypedLua.Proofs.Session.Runs
import TypedLua.Proofs.Session.Survey

/-!
# Session.Instances

The instances of an interface agree with its declaration.  A module is read statement by statement,
and each leads a survey of the interface on: definitions of types bind what they define, the
declaration of the interface takes the survey from one stage to the next, and all other statements
leave it where it is.

Main statement: `Session.parse_instances_conform`.
-/

namespace TypedLua

open Text TypedLua.Parser
open Token (Kind)

variable {room : Nat} {e : Expr} {gs : List TypeId} {ps : List Property}

namespace Survey

variable {S : Survey} {stage : Stage} {ws : List Token} {env : ParserEnv} {s t : ParserState}

/-! ## Definitions of types -/

/-- A definition of a type of the arena. -/
def Defines (a : TypeArena) (e : Expr) : Prop :=
  ∃ name tag, e = .typeAlias name tag ∧ a.Holds tag.type

theorem At.typeAliasOf (h : S.At stage ws s) (henv : env.Sound)
    (hrun : Grammar.typeAliasOf (Grammar.typeWithin room) env s = (.ok e, t))
    (hdefined : e.definition?.toList ⊆ S.definitions) :
    S.At stage ws t ∧ Defines t.session.types e := by
  obtain ⟨start, s₁, h₁, hrun⟩ := bind_eq_ok.1 hrun
  cases h₁
  obtain ⟨_, s₂, h₂, hrun⟩ := bind_eq_ok.1 hrun
  obtain ⟨-, rfl⟩ := expect_eq_ok h₂
  obtain ⟨⟨name, span⟩, s₃, h₃, hrun⟩ := bind_eq_ok.1 hrun
  obtain ⟨-, -, rfl⟩ := identifier_eq_ok h₃
  obtain ⟨_, s₄, h₄, hrun⟩ := bind_eq_ok.1 hrun
  obtain ⟨-, rfl⟩ := expect_eq_ok h₄
  obtain ⟨id, s₅, htype, hrun⟩ := bind_eq_ok.1 hrun
  obtain ⟨-, hid, h⟩ := h.next.next.next.run henv (R := Arenas.typeIds)
    (fun I => (own_lawful I).typeWithin (own_readsNamed I) room _) htype
  obtain ⟨_, s₆, hdefine, hrun⟩ := bind_eq_ok.1 hrun
  obtain rfl := defineType_eq_ok hdefine
  cases hrun
  exact ⟨h.define hid.2 (hdefined List.mem_cons_self), _, _, rfl, hid.2⟩

theorem At.properties (h : S.At stage ws s) (henv : env.Sound) {scope : Scope}
    {found : List Property × Scope}
    (hscope : (Link.scope Arenas.typeIds Arenas.variableIds).rel s.arenas scope scope)
    (hbinds : Grammar.BindsParameters s.session.types scope)
    (hrun : withScope scope (braceTail (Grammar.propertyOf (Grammar.typeWithin room))) env s =
      (.ok found, t)) :
    s.session.types.Extends t.session.types ∧ (∀ p ∈ found.1, t.session.types.Holds p.type) ∧
      S.At stage ws t := by
  obtain ⟨u, hbody, rfl⟩ := withScope_eq_ok hrun
  -- the new scope binds parameters, and these are no interfaces
  have hpushed := h.push hscope fun name id hid => .inr ⟨_, hbinds name id hid, nofun⟩
  obtain ⟨hle, hps, h⟩ := hpushed.run henv (R := Arenas.typeIds.property.list)
    (fun I => (own_lawful I).braceTail fun v => (own_lawful I).propertyOf fun w =>
      (own_lawful I).typeWithin (own_readsNamed I) room w) hbody
  exact ⟨hle.1, fun p hp => (List.forall₂_same.1 hps p hp).type.2, h.pop⟩

theorem At.intern (h : S.At stage ws s) {name : String} {stage' : Stage}
    (hparts : ∀ part ∈ (Shape.interface name gs ps).parts, s.session.types.Holds part)
    (hkeeps : S.Keeps stage' (TypeArena.intern (.interface name gs ps) s.session.types).2) :
    S.At stage' ws (s.withTypes (TypeArena.intern (.interface name gs ps) s.session.types).2) := by
  have hext := TypeArena.extends_intern s.session.types (.interface name gs ps)
  have hstep : s.session.types.Step
      (TypeArena.intern (.interface name gs ps) s.session.types).2 := .form hparts .intro
  obtain ⟨hle, hsession⟩ := h.sound.session.withTypes hstep.grows
  refine ⟨h.suffix, rfl, hsession, Link.mono _ hle h.sound.scopes, h.words, ?_, hkeeps⟩
  exact fun scope hscope => (h.binds scope hscope).mono hext

theorem closedUnder {a : TypeArena} (ha : a.Grounded) {id : TypeId} {names : List String}
    (hparts : ∀ part ∈ (Shape.interface S.name gs ps).parts, a.Holds part)
    (hgs : a.Placeholders gs names) (hfinal : a.Extends S.final)
    (hid : S.final.get? id = some (.interface S.name gs ps)) :
    ClosedUnder names (a.unfoldProperties ps) := by
  intro tree htree q hq
  obtain ⟨p, hp, rfl⟩ := List.mem_map.1 htree
  have hheld := hparts p.type (List.mem_append_right gs (List.mem_map_of_mem hp))
  rw [← ha.unfold_extends hfinal hheld] at hq
  obtain ⟨g, hg, hq⟩ := S.closed _ (List.mem_of_getElem? hid) rfl p hp q hq
  rw [ha.unfold_extends hfinal (hparts g (List.mem_append_left _ hg))] at hq
  -- an argument of the declaration is one of its parameters
  have hparameter : a.unfold g ∈ names.map TypeTree.parameter := by
    rw [← hgs.unfold_eq ha]
    exact List.mem_map_of_mem hg
  obtain ⟨name, hname, heq⟩ := List.mem_map.1 hparameter
  rw [← heq] at hq
  rwa [List.mem_singleton.1 hq]

/-- The declaration of the interface takes the survey on. -/
theorem At.declare (h : S.At .before ws s) {names : List String}
    (hparts : ∀ part ∈ (Shape.interface S.name gs ps).parts, s.session.types.Holds part)
    (hgs : s.session.types.Placeholders gs names) (hdistinct : names.Nodup)
    (hdefined : (S.name, (TypeArena.intern (.interface S.name gs ps) s.session.types).1) ∈
      S.definitions) :
    S.Keeps .after (TypeArena.intern (.interface S.name gs ps) s.session.types).2 := by
  intro hfinal
  have hext := (TypeArena.extends_intern s.session.types _).trans hfinal
  have hid := hfinal.get? (TypeArena.get?_intern s.session.types (.interface S.name gs ps))
  refine ⟨_, hdefined, TypeArena.Undeclared.declare h.keeps h.grounded hparts hgs hdistinct ?_⟩
  exact closedUnder h.grounded hparts hgs hext hid

/-- Reading has come to some stage; once the interface is declared, no other declaration of it is
left. -/
def Reaches (S : Survey) (s : ParserState) : Prop :=
  ∃ stage ws, S.At stage ws s ∧ (stage = .after → Token.declarations S.name ws = 0)

/-- An interface that is read leads the survey on. -/
theorem Reaches.interfaceOf (h : S.Reaches s) (henv : env.Sound)
    (hrun : Grammar.interfaceOf (Grammar.typeWithin room) env s = (.ok e, t))
    (hdefined : e.definition?.toList ⊆ S.definitions) :
    S.Reaches t ∧ Defines t.session.types e := by
  obtain ⟨stage, ws, h, hleft⟩ := h
  obtain ⟨start, s₁, h₁, hrun⟩ := bind_eq_ok.1 hrun
  cases h₁
  obtain ⟨_, s₂, h₂, hrun⟩ := bind_eq_ok.1 hrun
  obtain ⟨hkind, rfl⟩ := expect_eq_ok h₂
  obtain ⟨⟨name, span⟩, s₃, h₃, hrun⟩ := bind_eq_ok.1 hrun
  obtain ⟨hident, hname, rfl⟩ := identifier_eq_ok h₃
  obtain ⟨⟨scope, gs⟩, s₄, hparameters, hrun⟩ := bind_eq_ok.1 hrun
  obtain ⟨_, s₅, h₅, hrun⟩ := bind_eq_ok.1 hrun
  obtain ⟨-, rfl⟩ := expect_eq_ok h₅
  obtain ⟨⟨ps, closed⟩, s₆, hproperties, hrun⟩ := bind_eq_ok.1 hrun
  obtain ⟨id, s₇, hintern, hrun⟩ := bind_eq_ok.1 hrun
  cases hintern
  obtain ⟨_, s₈, hdefine, hrun⟩ := bind_eq_ok.1 hrun
  obtain rfl := defineType_eq_ok hdefine
  cases hrun
  have hdefined := hdefined List.mem_cons_self
  -- the words after the name are all that is left
  have hnarrow := h.next.narrow.next
  obtain ⟨hbinds, names, hdistinct, hgs⟩ := Grammar.parameters_spec hparameters
  obtain ⟨-, ⟨hscope, hheld⟩, hhead⟩ := hnarrow.run henv
    (R := (Link.scope Arenas.typeIds Arenas.variableIds).pair Arenas.typeIds.list)
    (fun I => (own_lawful I).parameters .intro) hparameters
  obtain ⟨hext, hps, hbody⟩ := hhead.next.properties henv hscope hbinds hproperties
  have hparts : ∀ part ∈ (Shape.interface name gs ps).parts, s₆.session.types.Holds part := by
    intro part hp
    rcases List.mem_append.1 hp with hg | hp
    · exact hext.holds (List.forall₂_same.1 hheld part hg).2
    · obtain ⟨p, hmem, rfl⟩ := List.mem_map.1 hp
      exact hps p hmem
  have hid := TypeArena.holds_intern s₆.session.types (.interface name gs ps)
  refine ⟨?_, _, _, rfl, hid⟩
  -- is this the declaration that the survey waits for?
  by_cases hmatch : name = S.name
  · subst hmatch
    have hcount := Token.Stream.declarations_words hkind hident
    rw [show s.stream.next.2.current.text = S.name from hname] at hcount
    cases stage with
    | after =>
      -- a second declaration, but none was left
      have hnone := hleft rfl
      have hle := Token.declarations_le_of_suffix S.name h.words
      omega
    | before =>
      -- this one is the first, and the words after its name have no other
      have hle := Token.declarations_le_of_suffix S.name (h.words.trans h.suffix)
      have honce := S.once
      refine ⟨.after, s.next.stream.words, ?_, fun _ => ?_⟩
      · have hkeeps := hbody.declare hparts (hgs.mono hext) hdistinct hdefined
        exact (hbody.intern hparts hkeeps).define hid hdefined
      · show Token.declarations S.name s.stream.next.2.words = 0
        omega
  · refine ⟨stage, s.next.stream.words, ?_, fun hstage => ?_⟩
    · have hkeeps := hbody.keeps.intern hbody.grounded hparts fun gs' ps' hshape => by
        cases hshape
        exact hmatch rfl
      exact (hbody.intern hparts hkeeps).define hid hdefined
    · have hnone := hleft hstage
      have hle := Token.declarations_le_of_suffix S.name h.next.words
      omega

/-! ## Statements -/

namespace Reaches

theorem next (h : S.Reaches s) : S.Reaches s.next := by
  obtain ⟨stage, ws, h, hleft⟩ := h
  exact ⟨stage, ws, h.next, hleft⟩

theorem deepened (h : S.Reaches s) (n : Nat) : S.Reaches { s with depth := n } := by
  obtain ⟨stage, ws, h, hleft⟩ := h
  exact ⟨stage, ws, h.deepened n, hleft⟩

theorem run {α : Type} {R : Link Arenas α α} {p : Parser α} {x : α} (h : S.Reaches s)
    (henv : env.Sound) (hp : ∀ I, (own I).Agrees s.arenas R p p)
    (hrun : p env s = (.ok x, t)) : R.rel t.arenas x x ∧ S.Reaches t := by
  obtain ⟨stage, ws, h, hleft⟩ := h
  obtain ⟨-, hx, h⟩ := h.run henv hp hrun
  exact ⟨hx, stage, ws, h, hleft⟩

theorem typeAliasOf (h : S.Reaches s) (henv : env.Sound)
    (hrun : Grammar.typeAliasOf (Grammar.typeWithin room) env s = (.ok e, t))
    (hdefined : e.definition?.toList ⊆ S.definitions) :
    S.Reaches t ∧ Defines t.session.types e := by
  obtain ⟨stage, ws, h, hleft⟩ := h
  obtain ⟨h, hdefines⟩ := h.typeAliasOf henv hrun hdefined
  exact ⟨⟨stage, ws, h, hleft⟩, hdefines⟩

theorem exportAlias (h : S.Reaches s) (hdefines : Defines s.session.types e) {u : Unit}
    (hrun : Grammar.exportAlias e env s = (.ok u, t)) : S.Reaches t := by
  obtain ⟨stage, ws, h, hleft⟩ := h
  obtain ⟨name, tag, rfl, hheld⟩ := hdefines
  cases hrun
  exact ⟨stage, ws, h.exportType name hheld, hleft⟩

theorem exportOf (h : S.Reaches s) (henv : env.Sound) {m : Stmt}
    (hrun : Grammar.exportOf (Grammar.typeWithin room) (Grammar.expressionWithin room) env s =
      (.ok m, t)) (hdefined : m.definitions ⊆ S.definitions) : S.Reaches t := by
  obtain ⟨start, s₁, h₁, hrun⟩ := bind_eq_ok.1 hrun
  cases h₁
  obtain ⟨_, s₂, h₂, hrun⟩ := bind_eq_ok.1 hrun
  obtain ⟨-, rfl⟩ := expect_eq_ok h₂
  obtain ⟨scopes, s₃, h₃, hrun⟩ := bind_eq_ok.1 hrun
  cases h₃
  split at hrun
  · obtain ⟨kind, s₄, h₄, hrun⟩ := bind_eq_ok.1 hrun
    obtain ⟨-, rfl⟩ := currentKind_eq_ok h₄
    split at hrun
    · -- a definition is read as anywhere else, and then exported
      obtain ⟨e, s₅, halias, hrun⟩ := bind_eq_ok.1 hrun
      obtain ⟨_, s₆, hexport, hrun⟩ := bind_eq_ok.1 hrun
      cases hrun
      obtain ⟨h, hdefines⟩ := h.next.typeAliasOf henv halias hdefined
      exact h.exportAlias hdefines hexport
    · obtain ⟨e, s₅, hinterface, hrun⟩ := bind_eq_ok.1 hrun
      obtain ⟨_, s₆, hexport, hrun⟩ := bind_eq_ok.1 hrun
      cases hrun
      obtain ⟨h, hdefines⟩ := h.next.interfaceOf henv hinterface hdefined
      exact h.exportAlias hdefines hexport
    · obtain ⟨⟨targets, values, span⟩, s₅, hlocals, hrun⟩ := bind_eq_ok.1 hrun
      obtain ⟨_, s₆, hexport, hrun⟩ := bind_eq_ok.1 hrun
      cases hrun
      -- variables are no concern of the survey
      obtain ⟨hread, h⟩ := h.next.run henv
        (R := Arenas.variableIds.list.pair (Arenas.expr.list.pair .same))
        (fun I => (own_lawful I).localsOf
          (fun w => (own_lawful I).typeWithin (own_readsNamed I) room w)
          ((own_lawful I).expressionWithin room)) hlocals
      exact (h.run henv (R := .same)
        (fun I => (own_lawful I).forM_exportVariable hread.1) hexport).2
    · cases hrun
  · cases hrun

/-- So does every statement that is no block. -/
theorem statementWithin (h : S.Reaches s) (henv : env.Sound) {m : Stmt}
    (hdo : s.stream.current.kind ≠ .kwDo) (hrun : Grammar.statementWithin room env s = (.ok m, t))
    (hdefined : m.definitions ⊆ S.definitions) : S.Reaches t := by
  cases room with
  | zero =>
    unfold Grammar.statementWithin at hrun
    cases hrun
  | succ room =>
    unfold Grammar.statementWithin at hrun
    obtain ⟨u, hstatement, rfl⟩ := nested_eq_ok hrun
    refine deepened ?_ _
    replace h := h.deepened (s.depth + 1)
    have htype : ∀ I w, (own I).Agrees w Arenas.typeIds (Grammar.typeWithin room)
        (Grammar.typeWithin room) :=
      fun I w => (own_lawful I).typeWithin (own_readsNamed I) room w
    obtain ⟨start, s₁, h₁, hrun⟩ := bind_eq_ok.1 hstatement
    cases h₁
    obtain ⟨kind, s₂, h₂, hrun⟩ := bind_eq_ok.1 hrun
    obtain ⟨hkind, rfl⟩ := currentKind_eq_ok h₂
    split at hrun
    · obtain ⟨e, s₃, halias, hrun⟩ := bind_eq_ok.1 hrun
      cases hrun
      exact (h.typeAliasOf henv halias hdefined).1
    · obtain ⟨e, s₃, hinterface, hrun⟩ := bind_eq_ok.1 hrun
      cases hrun
      exact (h.interfaceOf henv hinterface hdefined).1
    · obtain ⟨⟨targets, values, span⟩, s₃, hlocals, hrun⟩ := bind_eq_ok.1 hrun
      cases hrun
      exact (h.run henv (R := Arenas.variableIds.list.pair (Arenas.expr.list.pair .same))
        (fun I => (own_lawful I).localsOf (htype I) ((own_lawful I).expressionWithin room))
        hlocals).2
    · -- an import would start with a word that the module does not have
      obtain ⟨stage, ws, h, -⟩ := h
      exact absurd hkind (S.importless _ ((h.words.trans h.suffix).subset List.mem_cons_self))
    · exact h.exportOf henv hrun hdefined
    · exact (h.run henv (R := Arenas.stmt) (fun I => (own_lawful I).externOf (htype I)) hrun).2
    · exact absurd hkind hdo
    · exact (h.run henv (R := Arenas.stmt)
        (fun I => Correspondence.agrees_callOf ((own_lawful I).primaryWithin room)) hrun).2
    · exact (h.run henv (R := Arenas.stmt)
        (fun I => Correspondence.agrees_callOf ((own_lawful I).primaryWithin room)) hrun).2
    · cases hrun

/-! ## Blocks and modules -/

theorem push (h : S.Reaches s) (scope : Scope)
    (hscope : ∀ {stage ws}, S.At stage ws s →
      (Link.scope Arenas.typeIds Arenas.variableIds).rel s.arenas scope scope ∧
        S.Binds s.session.types scope) :
    S.Reaches { s with scopes := s.scopes.push scope } := by
  obtain ⟨stage, ws, h, hleft⟩ := h
  obtain ⟨hrel, hbinds⟩ := hscope h
  exact ⟨stage, ws, h.push hrel hbinds, hleft⟩

theorem pop (h : S.Reaches s) : S.Reaches { s with scopes := s.scopes.pop.2 } := by
  obtain ⟨stage, ws, h, hleft⟩ := h
  exact ⟨stage, ws, h.pop, hleft⟩

/-- The survey holds at every boundary. -/
theorem boundary {start : ParserState} {blocks : List (List Stmt)}
    (h : Grammar.Boundary env start room blocks s) (hstart : S.Reaches start) (henv : env.Sound)
    (hdefined : ∀ body ∈ blocks, ∀ m ∈ body, m.definitions ⊆ S.definitions) : S.Reaches s := by
  induction h with
  | start =>
    refine hstart.push _ fun h => ⟨(own_lawful _).rootScope h.sound, fun name id hid => ?_⟩
    -- the types that can be named from the start are no interfaces
    obtain ⟨p, rfl⟩ := Grammar.primitive_of_rootScope hid
    exact .inr ⟨_, h.grounded.primitive p, fun _ _ _ hshape => by cases hshape⟩
  | semicolon _ _ ih => exact (ih hdefined).next
  | statement _ hkind hrun ih =>
    obtain ⟨hbody, houter⟩ := List.forall_mem_cons.1 hdefined
    obtain ⟨hm, hbody⟩ := List.forall_mem_cons.1 hbody
    exact (ih (List.forall_mem_cons.2 ⟨hbody, houter⟩)).statementWithin henv hkind hrun hm
  | @enter room body blocks s _ _ _ ih =>
    have hs := ih (List.forall_mem_cons.1 hdefined).2
    have hnext := hs.next.deepened (s.depth + 1 + 1)
    exact hnext.push {} fun _ => ⟨Scope.rel_empty, fun _ _ hid => by cases hid⟩
  | @leave room inner body blocks s span _ _ ih =>
    obtain ⟨hbody, houter⟩ := List.forall_mem_cons.1 hdefined
    obtain ⟨hblock, hbody⟩ := List.forall_mem_cons.1 hbody
    have hinner : ∀ m ∈ inner, m.definitions ⊆ S.definitions := fun m hm =>
      List.Subset.trans (Stmt.definitions_subset (List.mem_reverse.2 hm)) hblock
    have hs := ih (List.forall_mem_cons.2 ⟨hinner, List.forall_mem_cons.2 ⟨hbody, houter⟩⟩)
    exact (hs.next.deepened (s.depth - 1 - 1)).pop

end Reaches

/-- It holds at the end of a module. -/
theorem keeps_module {m : Module} (henv : env.Sound) (h : S.Reaches s)
    (hrun : Grammar.module env s = (.ok m, t)) (hdefined : m.definitions ⊆ S.definitions) :
    ∃ stage, S.Keeps stage t.session.types := by
  obtain ⟨room, u, hu, -, -, -, hsession⟩ := Grammar.module_ends.ok hrun
  have hbody : ∀ m' ∈ m.block.body.reverse, m'.definitions ⊆ S.definitions := by
    intro m' hm'
    refine List.Subset.trans (Stmt.definitions_subset (List.mem_reverse.1 hm')) ?_
    rw [← m.block.definitions_eq]
    exact hdefined
  obtain ⟨stage, ws, hreached, -⟩ :=
    Reaches.boundary hu h henv (List.forall_mem_singleton.2 hbody)
  rw [hsession]
  exact ⟨stage, hreached.keeps⟩

end Survey

/-! ## Calls -/

namespace Session

theorem parse_eq_some {files : FileTree} {path : Path} {text : String} {s t : Session} {m : Module}
    (h : parse files path text s = (some m, t)) :
    ∃ stream u, Token.Stream.ofSource text = .ok stream ∧
      Grammar.module ⟨files, .ofPath path text, compile files⟩
        { stream, session := { s with loading := files.key path :: s.loading } } = (.ok m, u) ∧
      t.types = u.session.types := by
  obtain ⟨_, s₁, h₁, h⟩ := run_bind h
  cases h₁
  obtain ⟨found, s₂, hread, h⟩ := run_bind h
  obtain ⟨_, s₃, h₃, h⟩ := run_bind h
  cases h₃
  cases found with
  | error f => cases h
  | ok m' =>
    cases h
    unfold readModule startParser at hread
    rw [show (SourceFile.ofPath path text).text = text from rfl] at hread
    cases hsource : Token.Stream.ofSource text with
    | error f =>
      rw [hsource] at hread
      cases hread
    | ok stream =>
      rw [hsource] at hread
      obtain ⟨hm, hsession⟩ := Prod.mk.inj hread
      refine ⟨stream, _, rfl, Prod.ext hm rfl, ?_⟩
      show s₂.types = _
      rw [← hsession]
      rfl

theorem reaches_start {S : Survey} {text : String} {stream : Token.Stream}
    (hsource : Token.Stream.ofSource text = .ok stream) (hwords : S.words = Token.words text)
    {s : Session} (htypes : s.types = .primitives) (hvars : s.vars = {}) :
    S.Reaches { stream, session := s } := by
  obtain ⟨config, types, vars, loading, reported, output⟩ := s
  cases htypes
  cases hvars
  have hsuffix : stream.words <:+ S.words :=
    ⟨[], (Token.Stream.words_ofSource hsource).trans hwords.symm⟩
  have hnone : TypeArena.primitives.Undeclared S.name := by
    intro id gs ps hid
    have hmem := List.mem_of_getElem? hid
    obtain ⟨p, -, hp⟩ := List.mem_map.1 hmem
    cases hp
  refine ⟨.before, S.words, ⟨List.suffix_refl _, rfl, ?_, .nil, ?_⟩, nofun⟩
  · exact ⟨⟨TypeArena.primitives_grounded, fun hv => by cases hv⟩, rfl, rfl, rfl⟩
  · exact ⟨hsuffix, fun scope hscope => (by cases hscope), hnone⟩

/-- All interface types of the name are instances of one of the module's definitions: each has the
declared properties, with the parameters replaced by its arguments, all at once. -/
def InstancesConform (m : Module) (s : Session) (name : String) : Prop :=
  ∃ d parameters declared, (name, d) ∈ m.definitions ∧
    s.types.Declares d name parameters declared ∧ s.types.Conforms name parameters declared

/-- **The instances of an interface agree with its declaration**, in a module without imports that
introduces the interface at most once.  Two things are asked of the module: names of instances are
given no type arguments, and properties of the interface mention no parameters but its own. -/
theorem parse_instances_conform {files : FileTree} {path : Path} {text : String} {config : Config}
    {m : Module} {s : Session} (hparse : parse files path text { config } = (some m, s))
    (himportless : ∀ token ∈ Token.words text, token.kind ≠ .kwImport) {name : String}
    (honce : Token.declarations name (Token.words text) ≤ 1)
    (happlied : ∀ entry ∈ m.definitions, entry.1 ∈ Token.applied (Token.words text) →
      ∀ shape ∈ s.types.get? entry.2, shape.Uninstantiated s.types name)
    (hclosed : ∀ shape ∈ s.types.shapes, shape.Closed s.types name)
    (hname : ¬ s.types.Undeclared name) : InstancesConform m s name := by
  obtain ⟨stream, u, hsource, hmodule, htypes⟩ := parse_eq_some hparse
  -- the survey is told beforehand what the run will turn out to define and to intern
  let S : Survey := ⟨name, Token.words text, m.definitions, s.types, himportless, honce, happlied,
    hclosed⟩
  have henv : ParserEnv.Sound ⟨files, .ofPath path text, compile files⟩ :=
    sound_lawful.compile files
  obtain ⟨stage, h⟩ := Survey.keeps_module (S := S) henv
    (reaches_start hsource rfl rfl rfl) hmodule (List.Subset.refl _)
  have hkeeps : S.Keeps stage s.types := htypes ▸ h
  cases stage with
  | before => exact absurd hkeeps hname
  | after =>
    -- at the end the types are the final ones
    obtain ⟨d, hd, parameters, declared, hdeclares, -, hconforms⟩ := hkeeps (.refl _)
    exact ⟨d, parameters, declared, hd, hdeclares, hconforms⟩

set_option maxRecDepth 4000 in
/-- An interface that is referred to directly and through another name, inside another interface
that has parameters of the same names in another order. -/
theorem parse_instances_conform_pairs :
    let text := "interface P<A, B> \x7b a: A, b?: B \x7d
type Q = P
interface S<B, A> \x7b p: P<B, A>, q: Q<A, B>[] \x7d
local x: S<number, string>"
    ∃ m s, parse ⟨"/", []⟩ ⟨"pairs.lua"⟩ text {} = (some m, s) ∧
      (∀ token ∈ Token.words text, token.kind ≠ .kwImport) ∧
      Token.declarations "P" (Token.words text) ≤ 1 ∧
      (∀ entry ∈ m.definitions, entry.1 ∈ Token.applied (Token.words text) →
        ∀ shape ∈ s.types.get? entry.2, shape.Uninstantiated s.types "P") ∧
      (∀ shape ∈ s.types.shapes, shape.Closed s.types "P") ∧ ¬ s.types.Undeclared "P" ∧
      InstancesConform m s "P" := by
  intro text
  have hwords : (∀ token ∈ Token.words text, token.kind ≠ .kwImport) ∧
      Token.declarations "P" (Token.words text) ≤ 1 := by
    rw [Token.words, Token.readings_ofList]
    decide +kernel
  obtain ⟨m, s, hparse, hdefinitions, htypes⟩ :
      ∃ m s, parse ⟨"/", []⟩ ⟨"pairs.lua"⟩ text {} = (some m, s) ∧
      m.definitions = [("P", ⟨9⟩), ("Q", ⟨9⟩), ("S", ⟨12⟩)] ∧
      s.types = ⟨TypeArena.primitives.shapes ++ [.generic "A", .generic "B",
        .interface "P" [⟨7⟩, ⟨8⟩] [⟨"a", ⟨7⟩, false⟩, ⟨"b", ⟨8⟩, true⟩],
        .interface "P" [⟨8⟩, ⟨7⟩] [⟨"a", ⟨8⟩, false⟩, ⟨"b", ⟨7⟩, true⟩], .array ⟨9⟩,
        .interface "S" [⟨8⟩, ⟨7⟩] [⟨"p", ⟨10⟩, false⟩, ⟨"q", ⟨11⟩, false⟩],
        .interface "P" [⟨1⟩, ⟨0⟩] [⟨"a", ⟨1⟩, false⟩, ⟨"b", ⟨0⟩, true⟩],
        .interface "P" [⟨0⟩, ⟨1⟩] [⟨"a", ⟨0⟩, false⟩, ⟨"b", ⟨1⟩, true⟩], .array ⟨14⟩,
        .interface "S" [⟨1⟩, ⟨0⟩] [⟨"p", ⟨13⟩, false⟩, ⟨"q", ⟨15⟩, false⟩]]⟩ :=
    exists_of_found (by rw [parse_ofList]; decide +kernel)
  -- none of the three names stands for an instance
  have happlied : ∀ entry ∈ m.definitions, entry.1 ∈ Token.applied (Token.words text) →
      ∀ shape ∈ s.types.get? entry.2, shape.Uninstantiated s.types "P" := by
    rw [hdefinitions, htypes]
    intro entry hentry _
    revert entry
    decide +kernel
  have hclosed : ∀ shape ∈ s.types.shapes, shape.Closed s.types "P" := by
    rw [htypes]
    decide +kernel
  have hname : ¬ s.types.Undeclared "P" := by
    rw [htypes]
    exact fun h => h ⟨9⟩ _ _ rfl
  exact ⟨m, s, hparse, hwords.1, hwords.2, happlied, hclosed, hname,
    parse_instances_conform hparse hwords.1 hwords.2 happlied hclosed hname⟩

set_option maxRecDepth 4000 in
/-- Both conditions are needed.  Type arguments of a name that stands for an instance replace its
arguments and leave its properties alone.  A parameter that comes with an interface named without
arguments is taken for one of the same name in a third interface. -/
theorem instances_differ :
    (let text := "interface Box<T> \x7b value: T \x7d
type B = Box<number>
local x: B<string>"
      ∃ m s, parse ⟨"/", []⟩ ⟨"boxes.lua"⟩ text {} = (some m, s) ∧
        (∀ token ∈ Token.words text, token.kind ≠ .kwImport) ∧
        Token.declarations "Box" (Token.words text) ≤ 1 ∧
        (∀ shape ∈ s.types.shapes, shape.Closed s.types "Box") ∧
        ¬ InstancesConform m s "Box") ∧
    (let text := "interface Box<T> \x7b v: T \x7d
interface Foo<U> \x7b x: Box \x7d
interface Bar<T> \x7b f: Foo<T> \x7d
local y: Bar<number>"
      ∃ m s, parse ⟨"/", []⟩ ⟨"boxes.lua"⟩ text {} = (some m, s) ∧
        (∀ token ∈ Token.words text, token.kind ≠ .kwImport) ∧
        Token.declarations "Foo" (Token.words text) ≤ 1 ∧
        (∀ entry ∈ m.definitions, ∀ shape ∈ s.types.get? entry.2,
          shape.Uninstantiated s.types "Foo") ∧
        ¬ InstancesConform m s "Foo") := by
  refine ⟨?_, ?_⟩
  · intro text
    have hwords : (∀ token ∈ Token.words text, token.kind ≠ .kwImport) ∧
        Token.declarations "Box" (Token.words text) ≤ 1 := by
      rw [Token.words, Token.readings_ofList]
      decide +kernel
    obtain ⟨m, s, hparse, hdefinitions, htypes⟩ :
        ∃ m s, parse ⟨"/", []⟩ ⟨"boxes.lua"⟩ text {} = (some m, s) ∧
        m.definitions = [("Box", ⟨8⟩), ("B", ⟨9⟩)] ∧
        s.types = ⟨TypeArena.primitives.shapes ++ [.generic "T",
          .interface "Box" [⟨7⟩] [⟨"value", ⟨7⟩, false⟩],
          .interface "Box" [⟨1⟩] [⟨"value", ⟨1⟩, false⟩],
          .interface "Box" [⟨0⟩] [⟨"value", ⟨1⟩, false⟩]]⟩ :=
      exists_of_found (by rw [parse_ofList]; decide +kernel)
    refine ⟨m, s, hparse, hwords.1, hwords.2, ?_, ?_⟩
    · rw [htypes]
      decide +kernel
    · unfold InstancesConform
      rw [hdefinitions, htypes]
      rintro ⟨d, parameters, declared, hd, ⟨gs, ps, hget, hgs, -, rfl⟩, hconforms⟩
      obtain rfl : d = ⟨8⟩ := by simpa using hd
      cases hget
      obtain rfl := hgs.parameterNames_eq
      -- the instance over `string` has a property of type `number`
      cases (hconforms ⟨10⟩ _ _ rfl).2
  · intro text
    have hwords : (∀ token ∈ Token.words text, token.kind ≠ .kwImport) ∧
        Token.declarations "Foo" (Token.words text) ≤ 1 := by
      rw [Token.words, Token.readings_ofList]
      decide +kernel
    obtain ⟨m, s, hparse, hdefinitions, htypes⟩ :
        ∃ m s, parse ⟨"/", []⟩ ⟨"boxes.lua"⟩ text {} = (some m, s) ∧
        m.definitions = [("Box", ⟨8⟩), ("Foo", ⟨10⟩), ("Bar", ⟨12⟩)] ∧
        s.types = ⟨TypeArena.primitives.shapes ++ [.generic "T",
          .interface "Box" [⟨7⟩] [⟨"v", ⟨7⟩, false⟩], .generic "U",
          .interface "Foo" [⟨9⟩] [⟨"x", ⟨8⟩, false⟩],
          .interface "Foo" [⟨7⟩] [⟨"x", ⟨8⟩, false⟩],
          .interface "Bar" [⟨7⟩] [⟨"f", ⟨11⟩, false⟩],
          .interface "Box" [⟨1⟩] [⟨"v", ⟨1⟩, false⟩],
          .interface "Foo" [⟨1⟩] [⟨"x", ⟨13⟩, false⟩],
          .interface "Bar" [⟨1⟩] [⟨"f", ⟨14⟩, false⟩]]⟩ :=
      exists_of_found (by rw [parse_ofList]; decide +kernel)
    refine ⟨m, s, hparse, hwords.1, hwords.2, ?_, ?_⟩
    · rw [hdefinitions, htypes]
      decide +kernel
    · unfold InstancesConform
      rw [hdefinitions, htypes]
      rintro ⟨d, parameters, declared, hd, ⟨gs, ps, hget, hgs, -, rfl⟩, hconforms⟩
      obtain rfl : d = ⟨10⟩ := by simpa using hd
      cases hget
      obtain rfl := hgs.parameterNames_eq
      -- the instance over `number` has a box of numbers
      cases (hconforms ⟨14⟩ _ _ rfl).2

end Session

end TypedLua
