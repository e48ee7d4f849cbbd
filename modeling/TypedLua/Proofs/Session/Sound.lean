import TypedLua.Proofs.Grammar.Module
import TypedLua.Proofs.Session.Calls
import TypedLua.Proofs.Types.Formation
import TypedLua.Proofs.Typing.Correspondence

/-!
# Session.Sound

Sessions in which every id denotes.  The types are grounded, variables have types of the session,
and the trees and scopes that parsers build hold only ids of types and variables that exist; both
kinds of arenas only grow.  To say this of a run is to compare it with itself: an id corresponds to itself
if it denotes.

A run may keep an invariant of its own besides, as long as the steps of reading a type keep it.

Main statements: `own_lawful`, `own_readsNamed` and `own_full`.
-/

namespace TypedLua

open Text

/-! ## Arenas -/

/-- The types and variables of a session at some moment. -/
structure Arenas where
  types : TypeArena
  vars : VariableArena

namespace Arenas

/-- Arenas only grow, types by forming new ones and by giving arguments to interfaces. -/
instance : Preorder Arenas where
  le a b := a.types.Extends b.types ∧ a.vars.vars <+: b.vars.vars ∧ a.types.Grows b.types
  le_refl a := ⟨.refl _, List.prefix_refl _, .refl _⟩
  le_trans _ _ _ h h' := ⟨h.1.trans h'.1, h.2.1.trans h'.2.1, h.2.2.trans h'.2.2⟩

/-- A type corresponds to itself if the arena holds it. -/
def typeIds : Link Arenas TypeId TypeId where
  rel w x y := x = y ∧ w.types.Holds x
  mono hwv _ _ h := ⟨h.1, hwv.1.holds h.2⟩

/-- A variable corresponds to itself if it is declared. -/
def variableIds : Link Arenas VariableId VariableId where
  rel w x y := x = y ∧ x.index < w.vars.size
  mono hwv _ _ h := ⟨h.1, Nat.lt_of_lt_of_le h.2 hwv.2.1.length_le⟩

/-- An expression corresponds to itself if its ids denote. -/
abbrev expr : Link Arenas Expr Expr := .expr .all typeIds variableIds

/-- A statement corresponds to itself if its ids denote. -/
abbrev stmt : Link Arenas Stmt Stmt := .stmt .all typeIds variableIds

/-- A block corresponds to itself if its ids denote. -/
abbrev block : Link Arenas Block Block := .block .all typeIds variableIds

/-- A module corresponds to itself if its ids denote. -/
abbrev module : Link Arenas Module Module := .module .all typeIds variableIds

/-- Types are grounded, and variables have types that exist. -/
structure Sound (w : Arenas) : Prop where
  grounded : w.types.Grounded
  declared {v : Variable} : v ∈ w.vars.vars → w.types.Holds v.type

theorem Sound.holds_typeOf {w : Arenas} (h : w.Sound) (x : VariableId) :
    w.types.Holds (w.vars.typeOf x) := by
  unfold VariableArena.typeOf
  cases hget : w.vars.get? x with
  | none => exact h.grounded.holds_primitive .any
  | some v => exact h.declared (List.mem_of_getElem? hget)

theorem Sound.variablesMatch {w : Arenas} (h : w.Sound) :
    VariablesMatch typeIds variableIds w w.vars w.vars where
  typeOf hle hxy := by
    obtain ⟨rfl, -⟩ := hxy
    exact ⟨rfl, hle.1.holds (h.holds_typeOf _)⟩
  nameOf_eq _ hxy := by rw [hxy.1]

end Arenas

/-- The session has the given arenas, and these are sound. -/
structure Session.Sound (w : Arenas) (s t : Session) : Prop extends w.Sound where
  eq : s = t
  types : s.types = w.types
  vars : s.vars = w.vars

namespace Session.Sound

variable {w : Arenas} {s t : Session}

/-- More types keep a session sound. -/
theorem withTypes (h : Session.Sound w s t) {a : TypeArena} (hgrows : w.types.Grows a) :
    w ≤ ⟨a, w.vars⟩ ∧ Session.Sound ⟨a, w.vars⟩ { s with types := a } { t with types := a } := by
  have hext := hgrows.extends h.grounded
  refine ⟨⟨hext, List.prefix_refl _, hgrows⟩, ⟨hgrows.grounded h.grounded, ?_⟩, ?_, rfl, h.vars⟩
  · exact fun hv => hext.holds (h.declared hv)
  · rw [h.eq]

/-- So do more variables. -/
theorem alloc (h : Session.Sound w s t) {v : Variable} (hv : w.types.Holds v.type) :
    w ≤ ⟨w.types, (VariableArena.alloc v s.vars).2⟩ ∧
      Session.Sound ⟨w.types, (VariableArena.alloc v s.vars).2⟩
        { s with vars := (VariableArena.alloc v s.vars).2 }
        { t with vars := (VariableArena.alloc v s.vars).2 } := by
  refine ⟨⟨.refl _, ?_, .refl _⟩, ⟨h.grounded, ?_⟩, ?_, h.types, rfl⟩
  · rw [← h.vars]
    exact List.prefix_append _ _
  · intro u hu
    rcases List.mem_append.1 hu with hold | hnew
    · rw [h.vars] at hold
      exact h.declared hold
    · rw [List.mem_singleton.1 hnew]
      exact hv
  · rw [h.eq]

end Session.Sound

/-! ## Invariants of a run -/

/-- A property of parser states that the steps of reading a type keep.  Which names are applied to
type arguments and what names mean is left open. -/
structure Invariant where
  Holds : ParserState → Prop
  /-- The names that are applied to type arguments. -/
  Applied : String → Prop
  Means : TypeArena → String → TypeId → Prop
  advanced {s} : Holds s → Holds s.next
  deepened {s} (n : Nat) : Holds s → Holds { s with depth := n }
  declared {s} (v : Variable) : Holds s →
    Holds { s with session := { s.session with vars := (VariableArena.alloc v s.session.vars).2 } }
  /-- Binding variables and exporting keeps the property. -/
  modified {s} {f : Scope → Scope} : Holds s → (∀ x, (f x).types = x.types) →
    Holds { s with scopes := s.scopes.modifyCurrent f }
  /-- Interning keeps the property, for shapes that are no interfaces. -/
  interned {s a} : Holds s → s.session.types.Grounded →
    (∀ part ∈ a.parts, s.session.types.Holds part) →
    (∀ name gs ps, a ≠ .interface name gs ps) →
    Holds (s.withTypes (TypeArena.intern a s.session.types).2)
  /-- A name before an opening angle bracket is applied. -/
  applied {s} : Holds s → s.stream.current.kind = .identifier →
    s.next.stream.current.kind = .less → Applied s.stream.current.text
  means {s name id} : Holds s → s.scopes.resolveType name = some id →
    Means s.session.types name id
  means_mono {a b : TypeArena} {name id} : a.Extends b → Means a name id → Means b name id
  /-- Instantiating what an applied name means keeps the property. -/
  instantiated {s name id interfaceName} {gs xs : List TypeId} {ps : List Property} : Holds s →
    s.session.types.Grounded → Applied name → Means s.session.types name id →
    s.session.types.get? id = some (.interface interfaceName gs ps) → gs.length = xs.length →
    (∀ x ∈ xs, s.session.types.Holds x) →
    Holds (s.withTypes (TypeArena.instantiate id xs s.session.types).2)

/-- No invariant besides. -/
def Invariant.trivial : Invariant where
  Holds _ := True
  Applied _ := True
  Means _ _ _ := True
  advanced _ := .intro
  deepened _ _ := .intro
  declared _ _ := .intro
  modified _ _ := .intro
  interned _ _ _ _ := .intro
  applied _ _ _ := .intro
  means _ _ := .intro
  means_mono _ _ := .intro
  instantiated _ _ _ _ _ _ _ := .intro

/-! ## A run compared with itself -/

/-- There is one parser state; its session is sound, its scopes hold ids that denote, and it has the
invariant. -/
structure ParserState.Sound (I : Invariant) (w : Arenas) (s t : ParserState) : Prop where
  eq : s = t
  session : Session.Sound w s.session t.session
  scopes : (Link.scopes Arenas.typeIds Arenas.variableIds).rel w s.scopes t.scopes
  invariant : I.Holds s

/-- Sound sessions, whatever files are being loaded. -/
def sound : SessionLink where
  World := Arenas
  types := Arenas.typeIds
  vars := Arenas.variableIds
  rel _ := Session.Sound

/-- The correspondence of a sound run with itself. -/
def own (I : Invariant) : Correspondence where
  World := Arenas
  types := Arenas.typeIds
  vars := Arenas.variableIds
  ordered w xs := (∀ x ∈ xs, w.types.Holds x) ∧ w.types.hasMisplacedVararg xs = false
  ordered_mono hwv _ h :=
    ⟨fun x hx => hwv.1.holds (h.1 x hx), (hwv.1.hasMisplacedVararg_eq h.1).trans h.2⟩
  state := ParserState.Sound I
  env e f := e.files = f.files ∧ e.file.Agree .all f.file ∧ sound.Loads e.load f.load

variable {I : Invariant} {w : Arenas}

theorem scopes_eq {a b : ScopeStack}
    (h : (Link.scopes Arenas.typeIds Arenas.variableIds).rel w a b) : a = b := by
  obtain ⟨xs⟩ := a
  obtain ⟨ys⟩ := b
  have hscopes : List.Forall₂ Eq xs ys :=
    List.Forall₂.imp (fun _ _ h => h.eq (fun _ _ h => h.1) fun _ _ h => h.1) h
  rw [List.forall₂_eq_eq_eq] at hscopes
  rw [hscopes]

theorem formed_of_own {a : Shape} (h : (own I).Formed w a) :
    a.Formed w.types ∧ ∀ name gs ps, a ≠ .interface name gs ps := by
  cases a with
  | function xs us => exact ⟨⟨h.1.2, h.2.1.2, h.2.2 .intro⟩, nofun⟩
  | interface name gs ps => exact h.elim
  | _ => exact ⟨.intro, nofun⟩

theorem holds_parts {a b : Shape} (h : Arenas.typeIds.shape.rel w a b) :
    ∀ part ∈ a.parts, w.types.Holds part := by
  intro part hp
  obtain ⟨i, hi, rfl⟩ := List.getElem_of_mem hp
  have hparts := Shape.Rel.parts h
  exact (hparts.get hi (by rw [← hparts.length_eq]; exact hi)).2

theorem ParserState.Sound.interned {s t : ParserState} (h : ParserState.Sound I w s t)
    {a b : Shape} (hab : Arenas.typeIds.shape.rel w a b) (ha : a.Formed w.types)
    (hI : I.Holds (s.withTypes (TypeArena.intern a s.session.types).2)) :
    (own I).Interns w s t a b := by
  obtain rfl := h.eq
  obtain rfl := Shape.Rel.eq hab fun _ _ h => h.1
  unfold Correspondence.Interns
  rw [h.session.types] at hI ⊢
  have hstep : w.types.Step (TypeArena.intern a w.types).2 := .form (holds_parts hab) ha
  obtain ⟨hwv, hsession⟩ := h.session.withTypes hstep.grows
  exact ⟨_, hwv, ⟨rfl, TypeArena.holds_intern _ a⟩, rfl, hsession, Link.mono _ hwv h.scopes, hI⟩

theorem own_passes (kind : Token.Kind) : (own I).Passes kind := by
  intro w s t h _ _
  obtain rfl := h.eq
  exact ⟨rfl, h.session, h.scopes, I.advanced h.invariant⟩

/-- Readings in a sound session correspond to themselves. -/
theorem own_lawful (I : Invariant) : (own I).Lawful where
  current h := by
    rw [h.eq]
    exact ⟨rfl, rfl, rfl⟩
  peek count h _ := by
    rw [h.eq]
    exact .refl (fun a => (rfl : a.kind = a.kind)) fun _ => rfl
  length h := by rw [h.eq]
  spanned h hab := by
    cases hab
    rw [h.eq]
    rfl
  next h _ := by
    rw [h.eq]
    exact .refl (fun _ => rfl) fun _ => rfl
  passes _ := own_passes _
  depth h := by rw [h.eq]
  typeless h := .inr (by rw [h.eq])
  scopes h := h.scopes
  deepened n h := by
    obtain rfl := h.eq
    exact ⟨rfl, h.session, h.scopes, I.deepened n h.invariant⟩
  primitive p h := ⟨rfl, h.session.grounded.holds_primitive p⟩
  void _ hxy := by rw [hxy.1]
  vararg h hxy := by rw [h.eq, hxy.1]
  checked {w s t xs ys} h hxys hxs := by
    refine ⟨fun x hx => ?_, h.session.types ▸ hxs⟩
    obtain ⟨i, hi, rfl⟩ := List.getElem_of_mem hx
    exact (List.Forall₂.get hxys hi (by rw [← List.Forall₂.length_eq hxys]; exact hi)).2
  denotes _ h := h.session.types ▸ h.session.grounded.primitive .void
  typeOf {w s t x y} h hxy := by
    obtain rfl := h.eq
    rw [← hxy.1, h.session.vars]
    exact ⟨rfl, h.session.holds_typeOf x⟩
  nameOf h hxy := by rw [h.eq, hxy.1]
  intern {w s t a b} h hab ha := by
    obtain ⟨hformed, hinterface⟩ := formed_of_own ha
    refine h.interned hab hformed (I.interned h.invariant ?_ ?_ hinterface)
    · rw [h.session.types]
      exact h.session.grounded
    · rw [h.session.types]
      exact holds_parts hab
  alloc {w s t a b} h hab := by
    obtain rfl := h.eq
    -- variables over equal types are equal
    obtain rfl : a = b := by
      obtain ⟨name, type, span, variadic⟩ := a
      obtain rfl := hab.name
      obtain rfl := hab.type.1
      obtain rfl := hab.span
      obtain rfl := hab.variadic
      rfl
    obtain ⟨hwv, hsession⟩ := h.session.alloc hab.type.2
    refine ⟨_, hwv, ⟨rfl, ?_⟩, rfl, hsession, Link.mono _ hwv h.scopes, I.declared a h.invariant⟩
    show s.session.vars.vars.length < (s.session.vars.vars ++ [a]).length
    rw [List.length_append]
    exact Nat.lt_succ_self _
  modified {w s t f g} h htypes _ hfg := by
    obtain rfl := h.eq
    have hscopes := ScopeStack.rel_modifyCurrent h.scopes hfg
    refine ⟨?_, h.session, hscopes, I.modified h.invariant htypes⟩
    rw [scopes_eq hscopes]

theorem own_identifier_bind {α : Type} {R : Link Arenas α α} {p q : String × Span → Parser α}
    (h : ∀ env env', (own I).env env env' → ∀ s t, ParserState.Sound I w s t →
      ∀ name span, (s.stream.current.kind = .less → I.Applied name) →
        (own I).Meet w R (p (name, span) env s) (q (name, span) env' t)) :
    (own I).Agrees w R (Parser.identifier >>= p) (Parser.identifier >>= q) := by
  intro env env' henv s t hst _
  obtain rfl := hst.eq
  rw [Parser.bind_apply, Parser.bind_apply, Parser.identifier_apply, Parser.identifier_apply]
  have hnext : ParserState.Sound I w s.next s.next := own_passes _ hst rfl nofun
  by_cases hk : s.stream.current.kind = .identifier
  · rw [if_pos hk]
    cases hresult : s.stream.next.1 with
    | error f => exact fun _ => ⟨w, le_refl w, .error f.cause rfl, hnext⟩
    | ok _ =>
      exact h env env' henv s.next s.next hnext _ _ fun hless => I.applied hst.invariant hk hless
  · rw [if_neg hk]
    exact fun _ => ⟨w, le_refl w, .error _ rfl, hst⟩

theorem own_instanceOf {name interfaceName : String} {id : TypeId} (happlied : I.Applied name)
    (hmeans : I.Means w.types name id) {gs xs ys : List TypeId} {ps : List Property}
    (hid : w.types.get? id = some (.interface interfaceName gs ps))
    (hargs : Arenas.typeIds.list.rel w xs ys) (wanted : Nat) (span : Span) :
    (own I).Agrees w Arenas.typeIds (Grammar.namedTypeOf.instanceOf name id wanted xs span)
      (Grammar.namedTypeOf.instanceOf name id wanted ys span) := by
  intro env env' _ s t hst _ _
  obtain rfl := hst.eq
  obtain rfl : xs = ys := by
    have heq : List.Forall₂ Eq xs ys := List.Forall₂.imp (fun _ _ h => h.1) hargs
    rwa [List.forall₂_eq_eq_eq] at heq
  have hxs : ∀ x ∈ xs, w.types.Holds x := fun x hx => (List.forall₂_same.1 hargs x hx).2
  have htypes := hst.session.types
  unfold Grammar.namedTypeOf.instanceOf
  -- the count of arguments is the only thing that can be wrong here
  by_cases hlen : gs.length = xs.length
  · have hI := I.instantiated hst.invariant (htypes ▸ hst.session.grounded) happlied
      (htypes ▸ hmeans) (htypes ▸ hid) hlen (htypes ▸ hxs)
    have hstep : w.types.Step (TypeArena.instantiate id xs w.types).2 := .apply hid hlen hxs
    obtain ⟨hwv, hsession⟩ := hst.session.withTypes hstep.grows
    obtain ⟨b, qs, -, -, -, -, heq⟩ := TypeArena.instantiate_spec
      (J := fun _ => True) (fun _ _ _ _ _ _ _ _ => .intro) hst.session.grounded .intro hid hlen hxs
    rw [heq] at hwv hsession
    rw [htypes, heq] at hI
    rw [htypes, heq]
    exact ⟨_, hwv, .ok ⟨rfl, TypeArena.holds_intern b _⟩, rfl, hsession,
      Link.mono _ hwv hst.scopes, hI⟩
  · have heq : TypeArena.instantiate id xs w.types = (none, w.types) := by
      unfold TypeArena.instantiate
      rw [show ∀ g : TypeArena → StateM TypeArena (Option TypeId), (get >>= g) w.types =
        g w.types w.types from fun _ => rfl, hid]
      dsimp only
      rw [if_neg hlen]
      rfl
    rw [htypes, heq]
    refine ⟨w, le_refl w, .error _ rfl, ?_⟩
    show ParserState.Sound I w (s.withTypes w.types) (s.withTypes w.types)
    rw [← htypes]
    exact hst

/-- So do named types, with an invariant about what they are applied to. -/
theorem own_readsNamed (I : Invariant) : (own I).ReadsNamed := by
  have hC := own_lawful I
  refine ⟨own_passes, fun p q hpq w => hC.currentSpan_bind fun start _ hstart => ?_⟩
  cases hstart
  refine own_identifier_bind ?_
  intro env env' henv s t hst name span happlied
  obtain rfl := hst.eq
  by_cases hless : s.stream.current.kind = .less
  · -- The name is applied: what it means may be instantiated.
    refine Correspondence.AgreesAt.gets_bind (C := own I) (k := none) (fun s t hst => ?_) env env'
      henv s s hst nofun
    have hresolve := ScopeStack.rel_resolveType hst.scopes name
    have hmeans : ∀ id, s.scopes.resolveType name = some id → I.Means w.types name id :=
      fun id hid => hst.session.types ▸ I.means hst.invariant hid
    generalize s.scopes.resolveType name = x, t.scopes.resolveType name = y at hresolve hmeans ⊢
    cases hresolve with
    | none => exact .fail rfl _
    | some hxy =>
      refine hC.eat_bind .less (by decide) ?_ (.pure hxy)
      refine (hC.typeListOf hpq).bind fun v xs ys hle hargs => ?_
      refine hC.expect_bind .greater (by decide) fun _ _ _ => ?_
      refine hC.spanFrom_bind rfl fun span _ hspan => .gets_bind fun s' t' hst' => ?_
      cases hspan
      obtain rfl := hst'.eq
      obtain rfl := hxy.1
      cases hshape : s'.session.types.get? _ with
      | none => exact .fail rfl _
      | some shape =>
        cases shape with
        | interface interfaceName gs ps =>
          cases gs with
          | nil => exact .fail rfl _
          | cons g gs =>
            rw [hst'.session.types] at hshape
            have hmeans := I.means_mono hle.1 (hmeans _ rfl)
            exact own_instanceOf (happlied hless) hmeans hshape hargs.1 _ _
        | _ => exact .fail rfl _
  · -- The name stands alone.
    have hresolve := ScopeStack.rel_resolveType hst.scopes name
    simp only [Parser.bind_apply, Parser.gets]
    cases hid : s.scopes.resolveType name with
    | none => exact fun _ => ⟨w, le_refl w, .error _ rfl, hst⟩
    | some id =>
      rw [hid] at hresolve
      cases hresolve with
      | some hheld =>
        simp only [Parser.bind_apply, Parser.eat_apply, if_neg hless]
        exact fun _ => ⟨w, le_refl w, .ok hheld, hst⟩

/-- So do imports. -/
theorem own_full : (own .trivial).Full where
  toLawful := own_lawful .trivial
  interned h hab ha := by
    obtain ⟨name, gs, ps, rfl⟩ := ha
    exact h.interned hab .intro .intro
  rescoped {w s t a b} h hab := by
    obtain rfl := h.eq
    obtain rfl := scopes_eq hab
    exact ⟨rfl, h.session, hab, .intro⟩
  parameterised := .intro
  files h := h.1
  sameFile h := h.2.1
  loading h := by rw [h.eq]
  load {w s t e f path text} henv h _ _ := by
    obtain rfl := h.eq
    obtain ⟨v, hwv, hm, hv⟩ := henv.2.2 [] w path text text rfl _ _ h.session
    refine .inr ⟨v, hwv, hm, ?_, hv, Link.mono _ hwv h.scopes, .intro⟩
    rw [hv.eq]
  named := own_readsNamed .trivial

/-! ## Sound calls -/

/-- The types are those of the world, and grounded; the variables stay as they are. -/
structure Arenas.Grounded (w : Arenas) (vars : VariableArena) (a b : TypeArena) : Prop where
  eq : a = b
  types : a = w.types
  vars : w.vars = vars
  grounded : a.Grounded

theorem Arenas.Sound.grow {w v : Arenas} (h : w.Sound) (hwv : w ≤ v) {a b : TypeArena}
    (hv : v.Grounded w.vars a b) : v.Sound := by
  refine ⟨hv.types ▸ hv.grounded, ?_⟩
  rw [hv.vars]
  exact fun hu => hwv.1.holds (h.declared hu)

theorem grounded_inStep (vars : VariableArena) :
    ArenasInStep .all Arenas.typeIds (fun w => w.Grounded vars) where
  upTo := Regard.all_upTo
  point := Regard.all_point
  alike {w a b} h := by
    obtain ⟨rfl, rfl, -, ha⟩ := h
    exact (ha.alike (.refl _)).seen
  intern {w s t} hst hs a b h := by
    obtain ⟨rfl, rfl, hvars, ha⟩ := h
    obtain rfl := Shape.Rel.eq hst fun _ _ h => h.1
    have hformed : s.Formed w.types := by
      cases s with
      | function xs us => exact absurd rfl (hs xs us)
      | _ => exact .intro
    have hstep : w.types.Step (TypeArena.intern s w.types).2 := .form (holds_parts hst) hformed
    exact ⟨⟨(TypeArena.intern s w.types).2, w.vars⟩,
      ⟨TypeArena.extends_intern _ s, List.prefix_refl _, hstep.grows⟩,
      ⟨rfl, TypeArena.holds_intern _ s⟩, ⟨rfl, rfl, hvars, ha.intern (holds_parts hst)⟩⟩

/-- Calls keep a session sound. -/
theorem sound_lawful : sound.Lawful where
  report {loading w s t a b file file'} cause hfile hab h := by
    obtain rfl := h.eq
    obtain rfl := hfile.eq
    obtain rfl : a = b := hab
    exact ⟨h.toSound, rfl, h.types, h.vars⟩
  mark {loading w s t} key h := by
    obtain rfl := h.eq
    exact ⟨h.toSound, rfl, h.types, h.vars⟩
  unmark {key loading w s t} h := by
    obtain rfl := h.eq
    exact ⟨h.toSound, rfl, h.types, h.vars⟩
  read {loading w f g file file'} files hload hfile := by
    intro s t hst
    obtain rfl := hst.eq
    obtain rfl := hfile.eq
    unfold Session.readModule Session.startParser
    cases Token.Stream.ofSource file.text with
    | error f => exact ⟨w, le_refl w, .error f.cause rfl, hst⟩
    | ok stream =>
      have henv : (own .trivial).env ⟨files, file, f⟩ ⟨files, file, g⟩ := ⟨rfl, hfile, hload⟩
      have hstart :
          ParserState.Sound .trivial w { stream, session := s } { stream, session := s } :=
        ⟨rfl, hst, .nil, .intro⟩
      obtain ⟨v, hwv, hm, hv⟩ := own_full.module.run id henv hstart
      exact ⟨v, hwv, hm, hv.session⟩
  check {loading w s t m n} hmn hst := by
    obtain rfl := hst.eq
    have hvars : VariablesMatch Arenas.typeIds Arenas.variableIds w s.vars s.vars := by
      rw [hst.vars]
      exact hst.toSound.variablesMatch
    -- checking adds types and leaves the variables alone
    obtain ⟨v, hwv, hr, hv⟩ := inStep_moduleCheck (grounded_inStep w.vars) s.config hvars hmn
      s.types s.types ⟨rfl, hst.types, rfl, hst.types ▸ hst.grounded⟩
    refine ⟨v, hwv, hr, hst.toSound.grow hwv hv, ?_, hv.types, ?_⟩
    · rw [hv.eq]
    · rw [hv.vars]
      exact hst.vars

end TypedLua
