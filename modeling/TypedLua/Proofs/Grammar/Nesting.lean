import TypedLua.Proofs.Grammar.Height
import TypedLua.Proofs.Types.Nesting

/-!
# Grammar.Nesting

How deep the types are nested that can be read with a given room, where names mean primitives.  A
type inside another leaves room for one construct less, and array suffixes take room for themselves.

Main statements: `yields_typeWithin` for types and `Boundary.adds` for the types of a module.
-/

namespace TypedLua

open Text
open TypedLua.Parser (declareVariable spanFrom nested_eq_ok)
open Token (Kind)

/-! ## States in which names mean primitives -/

/-- Only primitives are named in the scope. -/
def Scope.NamesPrimitives (scope : Scope) : Prop :=
  ∀ name id, scope.types.find? name = some id → ∃ p : Primitive, id = p.typeId

/-- The arena is grounded, and only primitives are named. -/
structure ParserState.Basic (s : ParserState) : Prop where
  grounded : s.session.types.Grounded
  scopes : ∀ scope ∈ s.scopes.scopes, scope.NamesPrimitives

theorem ParserState.Basic.primitive_of_resolveType {s : ParserState} (h : s.Basic) {name : String}
    {id : TypeId} (hname : s.scopes.resolveType name = some id) :
    ∃ p : Primitive, id = p.typeId := by
  obtain ⟨scope, hscope, hid⟩ := List.exists_of_findSome?_eq_some hname
  exact h.scopes scope hscope name id hid

theorem ParserState.Basic.modified {s : ParserState} (h : s.Basic) {f : Scope → Scope}
    (hf : ∀ x, (f x).types = x.types) :
    ({ s with scopes := s.scopes.modifyCurrent f } : ParserState).Basic := by
  refine ⟨h.grounded, fun scope hscope name id hid => ?_⟩
  have hold := h.scopes
  unfold ScopeStack.modifyCurrent at hscope
  split at hscope
  · next hnil =>
    exact hold scope hscope name id hid
  · next first rest hscopes =>
    rw [hscopes] at hold
    rcases List.mem_cons.1 hscope with rfl | hscope
    · rw [hf first] at hid
      exact hold first List.mem_cons_self name id hid
    · exact hold scope (List.mem_cons_of_mem first hscope) name id hid

variable (B : TypeTree → Prop)

/-- From a state in which names mean primitives to another such state, types are added that are as
given. -/
structure ParserState.Adds (s t : ParserState) : Prop where
  before : s.Basic
  after : t.Basic
  types : s.session.types.Extends t.session.types
  added : ∀ id, t.session.types.Holds id →
    s.session.types.Holds id ∨ B (t.session.types.unfold id)

namespace ParserState.Adds

variable {B} {s t u : ParserState}

theorem refl (h : s.Basic) : s.Adds B s := ⟨h, h, .refl _, fun _ hid => .inl hid⟩

theorem trans (h : s.Adds B t) (h' : t.Adds B u) : s.Adds B u := by
  refine ⟨h.before, h'.after, h.types.trans h'.types, fun id hid => ?_⟩
  rcases h'.added id hid with hold | hnew
  · rw [h.after.grounded.unfold_extends h'.types hold]
    exact h.added id hold
  · exact .inr hnew

theorem of_types (h : t.Basic) (hs : s.Basic) (htypes : t.session.types = s.session.types) :
    s.Adds B t := by
  refine ⟨hs, h, htypes ▸ .refl _, fun id hid => .inl ?_⟩
  rwa [htypes] at hid

end ParserState.Adds

/-- Reading where names mean primitives, and types that are added are as given. -/
def Course.primitive : Course where
  Leads := ParserState.Adds B
  trans := .trans
  right h := .refl h.after
  next h _ _ := .of_types ⟨h.after.grounded, h.after.scopes⟩ h.after rfl
  deepened _ h := .of_types ⟨h.after.grounded, h.after.scopes⟩ h.after rfl
  declared _ h := .of_types ⟨h.after.grounded, h.after.scopes⟩ h.after rfl

theorem Course.primitive_binds (s : ParserState) (f : Scope → Scope)
    (hf : ∀ x, (f x).types = x.types) (h : (Course.primitive B).Leads s s) :
    (Course.primitive B).Leads s { s with scopes := s.scopes.modifyCurrent f } :=
  .of_types (h.after.modified hf) h.after rfl

theorem Course.primitive_resolve :
    (Course.primitive B).Allows (Parser.identifier >>= fun x => Grammar.resolve x.1 x.2) := by
  intro env s
  refine Course.Yields.identifier.bind fun x t _ _ => ?_
  intro ht
  refine (Course.resolve_ends x.1 x.2).imp ?_ fun _ _ _ => .intro
  rintro e _ ⟨rfl, -⟩
  exact ⟨ht, .intro⟩

namespace Grammar

open Course.Yields

variable {B} {env : ParserEnv} {s : ParserState} {n : Nat}

/-! ## Types -/

/-- A type of the session that is nested as deep as the room allows. -/
def HasRoom (n : Nat) (id : TypeId) (s : ParserState) : Prop :=
  s.session.types.Holds id ∧ (s.session.types.unfold id).Counted n

theorem HasRoom.leads {id : TypeId} {t u : ParserState} (h : HasRoom n id t)
    (htu : (Course.primitive B).Leads t u) : HasRoom n id u := by
  have htu : t.Adds B u := htu
  refine ⟨htu.types.holds h.1, ?_⟩
  rw [htu.before.grounded.unfold_extends htu.types h.1]
  exact h.2

/-- Primitive types are not nested at all. -/
theorem hasRoom_primitive {p : Primitive} (hs : s.Basic) : HasRoom n p.typeId s := by
  refine ⟨hs.grounded.holds_primitive p, ?_⟩
  rw [hs.grounded.unfold_eq (hs.grounded.primitive p)]
  exact .primitive p

theorem yields_internType {shape : Shape}
    (hparts : ∀ x ∈ shape.parts, s.session.types.Holds x)
    (hB : B (.ofShape s.session.types.unfold shape)) :
    (Course.primitive B).Yields env s (Parser.internType shape) fun id t =>
      s.Adds B t ∧ t.session.types.Holds id ∧
        t.session.types.unfold id = .ofShape s.session.types.unfold shape := by
  intro hs
  have hs := hs.after
  refine Runs.internType hs.grounded hparts fun id types hintern hgrounded hext => ?_
  have hget := TypeArena.get?_of_intern hintern
  have hunfold := hs.grounded.unfold_intern hparts hintern
  have hadds : s.Adds B (s.withTypes types) := by
    refine ⟨hs, ⟨hgrounded, hs.scopes⟩, hext, fun x hx => ?_⟩
    obtain ⟨other, hother⟩ := TypeArena.Holds.get? hx
    have hcases : s.session.types.get? x = some other ∨ other = shape :=
      TypeArena.get?_intern_cases (a := s.session.types) (by rw [hintern]; exact hother)
    rcases hcases with hold | rfl
    · exact .inl (TypeArena.holds_of_get? hold)
    · right
      show B (types.unfold x)
      rw [hgrounded.eq_of_get? hother hget, hunfold]
      exact hB
  exact ⟨hadds, hadds, TypeArena.holds_of_get? hget, hunfold⟩

/-- One more layer takes up one level. -/
theorem yields_layer (shape : Shape)
    (hparts : ∀ x ∈ shape.parts, s.session.types.Holds x)
    (hcounted : (TypeTree.ofShape s.session.types.unfold shape).Counted n)
    (hB : ∀ t, TypeTree.Counted n t → B t) :
    (Course.primitive B).Yields env s (Parser.internType shape) fun id t => HasRoom n id t ∧
      t.session.types.unfold id = .ofShape s.session.types.unfold shape := by
  refine (yields_internType hparts (hB _ hcounted)).imp fun id t _ h => ?_
  obtain ⟨-, hholds, hunfold⟩ := h
  refine ⟨⟨hholds, ?_⟩, hunfold⟩
  rw [hunfold]
  exact hcounted

theorem yields_vararg {element : TypeId} (helement : HasRoom n element s)
    (hB : ∀ t, TypeTree.Counted (n + 1) t → B t) :
    (Course.primitive B).Yields env s (Parser.internType (.vararg element)) fun id t =>
      HasRoom (n + 1) id t ∧
        t.session.types.unfold id = .ofShape s.session.types.unfold (.vararg element) := by
  refine yields_layer (.vararg element) ?_ (.layer ?_) hB
  · intro x hx
    rw [List.mem_singleton.1 hx]
    exact helement.1
  · intro tree htree
    rw [List.mem_singleton.1 htree]
    exact helement.2

theorem mem_of_mem_stripVoid {ids : List TypeId} {x : TypeId} (hx : x ∈ stripVoid ids) :
    x ∈ ids := by
  unfold stripVoid at hx
  split at hx
  · cases hx
  · exact hx

section

variable {type : Parser TypeId}
  (htype : ∀ s : ParserState, (Course.primitive B).Yields env s type (HasRoom n))

include htype

theorem yields_typeListOf :
    (Course.primitive B).Yields env s (typeListOf type) fun ids t => ∀ x ∈ ids, HasRoom n x t := by
  unfold typeListOf
  refine currentSpan_bind ?_
  refine (commaList_forall htype fun _ _ _ htu h => h.leads htu).bind fun ids t _ hids => ?_
  refine spanFrom_bind ((Course.Spanned.checkVarargs trivial).bind ?_)
  rintro _ _ - rfl
  exact .pure hids

theorem yields_returnListOf : (Course.primitive B).Yields env s (returnListOf type)
    fun ids t => ∀ x ∈ ids, HasRoom n x t := by
  unfold returnListOf
  refine (yields_typeListOf htype).bind fun ids t _ hids => .pure ?_
  exact fun x hx => hids x (mem_of_mem_stripVoid hx)

theorem yields_groupOf :
    (Course.primitive B).Yields env s (groupOf type) fun ids t => ∀ x ∈ ids, HasRoom n x t := by
  have hclose : ∀ (ids : List TypeId) (t : ParserState), (∀ x ∈ ids, HasRoom n x t) →
      (Course.primitive B).Yields env t (Parser.expect .rightParen >>= fun _ => Pure.pure ids)
        fun ids u => ∀ x ∈ ids, HasRoom n x u := fun ids t hids =>
    (expect _ rfl).bind fun _ u htu _ => .pure fun x hx => (hids x hx).leads htu
  unfold groupOf
  refine (expect _ rfl).bind fun _ t _ _ => ?_
  refine check_bind ?_
  dsimp only
  split
  · exact hclose [] t nofun
  · exact (yields_typeListOf htype).bind fun ids u _ hids => hclose ids u hids

theorem yields_propertyOf (s : ParserState) :
    (Course.primitive B).Yields env s (propertyOf type) fun p t => HasRoom n p.type t := by
  unfold propertyOf
  refine Course.Yields.bind identifier fun x t _ _ => ?_
  refine (eat _ rfl).bind fun optional u _ _ => ?_
  refine (expect _ rfl).bind fun _ v _ _ => ?_
  exact (htype v).bind fun id w _ hid => .pure hid

section

variable (hB : ∀ t, TypeTree.Counted (n + 1) t → B t)

include hB

theorem yields_tableTypeOf :
    (Course.primitive B).Yields env s (tableTypeOf type) fun id t =>
      HasRoom (n + 1) id t ∧ (t.session.types.unfold id).isArray = false := by
  unfold tableTypeOf
  refine (expect _ rfl).bind fun _ t _ _ => ?_
  refine (braceTail_forall (yields_propertyOf htype) fun _ _ _ htu h => h.leads htu).bind ?_
  intro ps u _ hps
  have hparts : ∀ x ∈ (Shape.table ps).parts, HasRoom n x u := by
    intro x hx
    obtain ⟨p, hp, rfl⟩ := List.mem_map.1 hx
    exact hps p hp
  refine (yields_layer _ (fun x hx => (hparts x hx).1) (.layer ?_) hB).imp ?_
  · intro tree htree
    obtain ⟨x, hx, rfl⟩ := List.mem_map.1 htree
    exact (hparts x hx).2
  · intro id v _ h
    refine ⟨h.1, ?_⟩
    rw [h.2]
    rfl

omit htype in
theorem yields_function {arguments returns : List TypeId}
    (harguments : ∀ x ∈ arguments, HasRoom n x s) (hreturns : ∀ x ∈ returns, HasRoom n x s) :
    (Course.primitive B).Yields env s (Parser.internType (.function arguments returns)) fun id t =>
      HasRoom (n + 1) id t ∧ (t.session.types.unfold id).isFunction = true := by
  have hparts : ∀ x ∈ arguments ++ returns, HasRoom n x s := by
    intro x hx
    exact (List.mem_append.1 hx).elim (harguments x) (hreturns x)
  refine (yields_layer (.function arguments returns) (fun x hx => (hparts x hx).1)
    (.layer ?_) hB).imp ?_
  · intro tree htree
    obtain ⟨x, hx, rfl⟩ := List.mem_map.1 htree
    exact (hparts x hx).2
  · intro id v _ h
    refine ⟨h.1, ?_⟩
    rw [h.2]
    rfl

omit htype in
theorem yields_curried {arguments : List TypeId} {returned : TypeId}
    (harguments : ∀ x ∈ arguments, HasRoom n x s) (hreturned : HasRoom (n + 1) returned s)
    (hfunction : (s.session.types.unfold returned).isFunction = true) :
    (Course.primitive B).Yields env s (Parser.internType (.function arguments [returned])) fun id t =>
      HasRoom (n + 1) id t ∧ (t.session.types.unfold id).isFunction = true := by
  have hholds : ∀ x ∈ arguments ++ [returned], s.session.types.Holds x := by
    intro x hx
    rcases List.mem_append.1 hx with hx | hx
    · exact (harguments x hx).1
    · rw [List.mem_singleton.1 hx]
      exact hreturned.1
  have hcounted : (TypeTree.ofShape s.session.types.unfold
      (.function arguments [returned])).Counted (n + 1) := by
    show (TypeTree.node (.function _ [_]) ((arguments ++ [returned]).map _)).Counted (n + 1)
    rw [List.map_append]
    refine .curried ?_ hreturned.2 hfunction
    intro tree htree
    obtain ⟨x, hx, rfl⟩ := List.mem_map.1 htree
    exact (harguments x hx).2
  refine (yields_layer (.function arguments [returned]) hholds hcounted hB).imp ?_
  intro id v _ h
  refine ⟨h.1, ?_⟩
  rw [h.2]
  rfl

omit htype hB in
theorem yields_typelessReturns (span : Span) :
    (Course.primitive B).Yields env s (typelessReturns span) fun ids t =>
      ∀ x ∈ ids, HasRoom n x t := by
  refine within fun hs => gets_bind ?_
  split
  · refine .pure fun x hx => ?_
    rw [List.mem_singleton.1 hx]
    exact hasRoom_primitive hs.after
  · exact fail .intro .intro

/-- A function counts as one level, however many arrows follow each other. -/
theorem yields_functionFrom (k : Nat) (start : Span) (arguments : List TypeId)
    (harguments : ∀ x ∈ arguments, HasRoom n x s) :
    (Course.primitive B).Yields env s (functionFrom type k start arguments) fun id t =>
      HasRoom (n + 1) id t ∧ (t.session.types.unfold id).isFunction = true := by
  have hkept : ∀ {t : ParserState}, s.Adds B t → ∀ x ∈ arguments, HasRoom n x t :=
    fun hst x hx => (harguments x hx).leads hst
  induction k generalizing s start arguments with
  | zero =>
    refine spanFrom_bind ?_
    refine (yields_typelessReturns (n := n) _).bind fun returns t hst hreturns => ?_
    exact yields_function hB (hkept hst) hreturns
  | succ k ih =>
    unfold functionFrom
    refine (eat _ rfl).bind fun found t hst _ => ?_
    cases found with
    | false =>
      refine spanFrom_bind ?_
      refine (yields_typelessReturns (n := n) _).bind fun returns u htu hreturns => ?_
      exact yields_function hB (hkept (hst.trans htu)) hreturns
    | true =>
      refine check_bind ?_
      dsimp only
      split
      · refine currentSpan_bind ((yields_groupOf htype).bind fun ids u htu hids => ?_)
        refine check_bind ?_
        split
        · refine (ih _ ids hids fun huv x hx => (hids x hx).leads huv).bind ?_
          intro returned v huv hreturned
          exact yields_curried hB (hkept ((hst.trans htu).trans huv)) hreturned.1 hreturned.2
        · exact yields_function hB (hkept (hst.trans htu))
            fun x hx => hids x (mem_of_mem_stripVoid hx)
      · refine (htype t).bind fun id u htu hid => ?_
        refine yields_function hB (hkept (hst.trans htu)) fun x hx => ?_
        rw [List.mem_singleton.1 (mem_of_mem_stripVoid hx)]
        exact hid

end

theorem yields_namedTypeOf :
    (Course.primitive B).Yields env s (namedTypeOf type) fun id t =>
      HasRoom (n + 1) id t ∧ (t.session.types.unfold id).isArray = false := by
  unfold namedTypeOf
  refine currentSpan_bind (Course.Yields.bind identifier fun x t hst _ => ?_)
  refine gets_bind ?_
  cases hname : t.scopes.resolveType x.1 with
  | none => exact fail .intro .intro
  | some id =>
    obtain ⟨p, rfl⟩ := hst.after.primitive_of_resolveType hname
    refine (eat _ rfl).bind fun found u htu _ => ?_
    have hget := htu.after.grounded.primitive p
    cases found with
    | false =>
      refine .pure ⟨hasRoom_primitive htu.after, ?_⟩
      rw [htu.after.grounded.unfold_eq hget]
      rfl
    | true =>
      refine (yields_typeListOf htype).bind fun arguments v _ _ => ?_
      refine (expect _ rfl).bind fun _ w hvw _ => ?_
      refine spanFrom_bind (gets_bind ?_)
      rw [hvw.after.grounded.primitive p]
      exact fail .intro .intro

end

/-! ## Types with a given room -/

section

variable {type? : Parser (Option TypeId)}
  (htype : ∀ s : ParserState,
    (Course.primitive B).Yields env s type? fun found t => ∀ id ∈ found, HasRoom n id t)

include htype

theorem yields_required (s : ParserState) :
    (Course.primitive B).Yields env s (required type?) (HasRoom n) := by
  refine (htype s).bind fun found t _ hfound => ?_
  cases found with
  | none => exact unexpected _
  | some id => exact .pure (hfound id rfl)

theorem yields_baseTypeOf (hB : ∀ t, TypeTree.Counted (n + 1) t → B t) :
    (Course.primitive B).Yields env s (baseTypeOf type?) fun id t =>
      HasRoom (n + 1) id t ∧ (t.session.types.unfold id).isArray = false := by
  have hrequired := yields_required htype
  unfold baseTypeOf
  refine currentKind_bind ?_
  split
  · exact yields_namedTypeOf hrequired
  · next hkind =>
    refine (advance hkind rfl).bind fun _ t hst _ => .pure ⟨hasRoom_primitive hst.after, ?_⟩
    rw [hst.after.grounded.unfold_eq (hst.after.grounded.primitive .nil)]
    rfl
  · exact yields_tableTypeOf hrequired hB
  · unfold functionTypeOf
    refine currentSpan_bind ((yields_groupOf hrequired).bind fun arguments t _ harguments => ?_)
    refine fuel_bind fun k => (yields_functionFrom hrequired hB k _ arguments harguments).imp ?_
    intro id u _ h
    refine ⟨h.1, ?_⟩
    have hfunction := h.2
    cases hunfold : u.session.types.unfold id with
    | node layer parts =>
      rw [hunfold] at hfunction
      cases layer <;> first | rfl | cases hfunction
    | _ => rfl
  · next hkind =>
    refine (advance hkind rfl).bind fun _ t _ _ => ?_
    refine (htype t).bind fun found u htu hfound => ?_
    have helement : HasRoom n (found.getD .any) u := by
      cases found with
      | none => exact hasRoom_primitive (p := .any) htu.after
      | some id => exact hfound id rfl
    refine (yields_vararg helement hB).imp fun id v _ h => ⟨h.1, ?_⟩
    rw [h.2]
    rfl
  · exact unexpected _

end

/-- So do the suffixes of an array. -/
theorem yields_arraySuffixes (hB : ∀ t, TypeTree.Counted (n + 1) t → B t) {base : TypeTree}
    (hbase : base.isArray = false) (hcounted : base.Counted (n + 1)) (room k : Nat)
    (hk : k + room ≤ n) {id : TypeId} (hid : s.session.types.Holds id)
    (hunfold : s.session.types.unfold id = base.arrays k) :
    (Course.primitive B).Yields env s (arraySuffixes room id) (HasRoom (n + 1)) := by
  have hdone : ∀ {t : ParserState} {id : TypeId} {k : Nat}, k ≤ n →
      t.session.types.Holds id → t.session.types.unfold id = base.arrays k →
      (Course.primitive B).Yields env t (Pure.pure id) (HasRoom (n + 1)) := by
    intro t id k hk hid hunfold
    refine .pure ⟨hid, ?_⟩
    rw [hunfold]
    exact .arrays hbase hk hcounted
  induction room generalizing s k id with
  | zero =>
    unfold arraySuffixes
    refine Course.Spanned.atArraySuffix.bind ?_
    rintro found _ - ⟨rfl, -⟩
    cases found with
    | true => exact tooDeep _
    | false => exact hdone (by omega) hid hunfold
  | succ room ih =>
    unfold arraySuffixes
    refine within fun hs => Course.Spanned.atArraySuffix.bind ?_
    rintro found _ - ⟨rfl, hfound⟩
    cases found with
    | false => exact hdone (by omega) hid hunfold
    | true =>
      obtain ⟨hopen, hclose⟩ := hfound rfl
      refine (deepen _).bind ?_
      rintro _ _ hst rfl
      refine Course.Yields.bind (advance (by exact hopen) rfl) ?_
      rintro _ _ htu ⟨rfl, -⟩
      refine Course.Yields.bind (advance (by exact hclose) rfl) fun _ v huv _ => ?_
      have hsv := (hst.trans htu).trans huv
      have hv : v.session.types.unfold id = base.arrays k := by
        rw [hs.after.grounded.unfold_extends hsv.types hid]
        exact hunfold
      have hnode : TypeTree.ofShape v.session.types.unfold (.array id) = base.arrays (k + 1) := by
        show TypeTree.node (.array default) [v.session.types.unfold id] = _
        rw [hv]
        rfl
      refine (yields_layer (n := n + 1) (.array id) ?_ ?_ hB).bind ?_
      · intro x hx
        rw [List.mem_singleton.1 hx]
        exact hsv.types.holds hid
      · rw [hnode]
        exact .arrays hbase (by omega) hcounted
      · intro id' w _ h
        exact ih (k + 1) (by omega) h.1.1 (h.2.trans hnode)

/-- By induction on how deep types may still be nested. -/
theorem yields_tryTypeWithin (room : Nat) (hB : ∀ t, TypeTree.Counted room t → B t)
    (s : ParserState) : (Course.primitive B).Yields env s (tryTypeWithin room) fun found t =>
      ∀ id ∈ found, HasRoom room id t := by
  induction room generalizing s with
  | zero =>
    unfold tryTypeWithin
    refine currentKind_bind ?_
    split
    · exact tooDeep _
    · exact .pure nofun
  | succ room ih =>
    unfold tryTypeWithin
    refine currentKind_bind ?_
    split
    · refine nested _ (fun _ _ _ h => h) ?_
      refine (yields_baseTypeOf (ih fun t ht => hB t ht.succ) hB).bind fun base t _ hbase => ?_
      obtain ⟨⟨hholds, hcounted⟩, harray⟩ := hbase
      have hsuffixes : (Course.primitive B).Yields env t (arraySuffixes room base)
          (HasRoom (room + 1)) :=
        yields_arraySuffixes hB harray hcounted room 0 (by omega) hholds rfl
      refine (chain (fun _ _ _ h => h) hsuffixes).bind fun id u _ hid => .pure fun x hx => ?_
      cases hx
      exact hid
    · exact .pure nofun

/-- A type that is read is nested no deeper than it may be. -/
theorem yields_typeWithin (room : Nat) (hB : ∀ t, TypeTree.Counted room t → B t)
    (s : ParserState) : (Course.primitive B).Yields env s (typeWithin room) (HasRoom room) :=
  yields_required (yields_tryTypeWithin room hB) s

/-! ## Statements -/

/-- The type is nested no deeper than constructs may be open; a function with a variadic argument
may be nested one layer deeper. -/
def Allowed (t : TypeTree) : Prop :=
  t.Counted nestingLimit ∨ t.isVariadic = true ∧ t.Counted (nestingLimit + 1)

theorem allowed_of_counted {t : TypeTree} (hn : n ≤ nestingLimit) (h : t.Counted n) : Allowed t :=
  .inl (h.mono hn)

/-- Types that are allowed are nested up to the limit, but for what does not count. -/
theorem Allowed.depth_le {t : TypeTree} (h : Allowed t) :
    t.depth ≤ nestingLimit + t.uncounted + if t.isVariadic then 1 else 0 := by
  rcases h with h | ⟨hvariadic, h⟩
  · have hdepth := h.depth_le
    omega
  · have hdepth := h.depth_le
    rw [if_pos hvariadic]
    omega

/-- The types of parameters: a variadic one is made of a type that was read. -/
def Parameter (n : Nat) (id : TypeId) (s : ParserState) : Prop :=
  HasRoom n id s ∨ HasRoom (n + 1) id s ∧ (s.session.types.unfold id).isVararg = true

theorem Parameter.leads {id : TypeId} {t u : ParserState} (h : Parameter n id t)
    (htu : (Course.primitive B).Leads t u) : Parameter n id u := by
  have hadds : t.Adds B u := htu
  rcases h with h | ⟨h, hvararg⟩
  · exact .inl (h.leads htu)
  · refine .inr ⟨h.leads htu, ?_⟩
    rw [hadds.before.grounded.unfold_extends hadds.types h.1]
    exact hvararg

section

variable {room : Nat} (hroom : room + 1 ≤ nestingLimit)

include hroom

theorem yields_type (s : ParserState) :
    (Course.primitive Allowed).Yields env s (typeWithin room) (HasRoom room) :=
  yields_typeWithin room (fun _ ht => allowed_of_counted (by omega) ht) s

theorem yields_declaredTypeOf :
    (Course.primitive Allowed).Yields env s (declaredTypeOf (typeWithin room)) (HasRoom room) := by
  unfold declaredTypeOf
  refine (eat _ rfl).bind fun found t hst _ => ?_
  cases found with
  | true => exact yields_type hroom t
  | false => exact .pure (hasRoom_primitive (p := .any) hst.after)

theorem yields_variableOf (s : ParserState) : (Course.primitive Allowed).Yields env s
    (variableOf (typeWithin room)) fun v t => HasRoom room v.type t := by
  unfold variableOf
  refine Course.Yields.bind identifier fun x t _ _ => ?_
  exact (yields_declaredTypeOf hroom).bind fun id u _ hid => .pure hid

theorem yields_parameterOf {list : ParameterList} (hlist : ∀ x ∈ list.types, Parameter room x s) :
    (Course.primitive Allowed).Yields env s (parameterOf (typeWithin room) list) fun list t =>
      ∀ x ∈ list.types, Parameter room x t := by
  have hadd : ∀ {t : ParserState} {id : TypeId}, s.Adds Allowed t → Parameter room id t →
      ∀ x ∈ list.types ++ [id], Parameter room x t := by
    intro t id hst hid x hx
    rcases List.mem_append.1 hx with hx | hx
    · exact (hlist x hx).leads hst
    · rw [List.mem_singleton.1 hx]
      exact hid
  unfold parameterOf
  refine check_bind ?_
  split
  · next hfound =>
    refine currentSpan_bind ((advance (beq_iff_eq.1 hfound) rfl).bind fun _ t hst _ => ?_)
    refine (yields_declaredTypeOf hroom).bind fun element u htu helement => ?_
    have hallowed : ∀ tree, TypeTree.Counted (room + 1) tree → Allowed tree :=
      fun tree htree => allowed_of_counted hroom htree
    refine (yields_vararg helement hallowed).bind fun id v huv hid => ?_
    refine (allocVariable _).bind fun vararg w hvw _ => .pure ?_
    refine hadd (((hst.trans htu).trans huv).trans hvw) (Parameter.leads (.inr ⟨hid.1, ?_⟩) hvw)
    rw [hid.2]
    rfl
  · refine (yields_variableOf hroom s).bind fun v t hst hv => ?_
    refine (allocVariable v).bind fun id u htu _ => .pure ?_
    exact hadd (hst.trans htu) (Parameter.leads (.inl hv) htu)

theorem yields_parametersOf (k : Nat) {list : ParameterList}
    (hlist : ∀ x ∈ list.types, Parameter room x s) :
    (Course.primitive Allowed).Yields env s (parametersOf (typeWithin room) k list) fun list t =>
      ∀ x ∈ list.types, Parameter room x t := by
  induction k generalizing s list with
  | zero => exact .pure hlist
  | succ k ih =>
    unfold parametersOf
    refine check_bind ?_
    split
    · exact .pure hlist
    · split
      · exact currentSpan_bind (fail .intro .intro)
      · refine (yields_parameterOf hroom hlist).bind fun list t _ hlist => ?_
        refine (eat _ rfl).bind fun found u htu _ => ?_
        have hkept : ∀ x ∈ list.types, Parameter room x u := fun x hx => (hlist x hx).leads htu
        cases found with
        | true => exact ih hkept
        | false => exact .pure hkept

omit hroom in
theorem yields_declareVariable (name : String) (id : VariableId) (span : Span) :
    (Course.primitive B).Yields env s (declareVariable name id span) fun _ _ => True := by
  unfold declareVariable
  refine gets_bind ?_
  cases hscopes : s.scopes.declareVariable? name id with
  | none => exact fail .intro .intro
  | some scopes =>
    unfold ScopeStack.declareVariable? at hscopes
    split at hscopes
    · cases hscopes
    · cases hscopes
      exact .step rfl (Course.primitive_binds B s _ fun _ => rfl) .intro

theorem yields_functionType {types returns : List TypeId}
    (htypes : ∀ x ∈ types, Parameter room x s) (hreturns : ∀ x ∈ returns, HasRoom room x s) :
    (Course.primitive Allowed).Yields env s (Parser.internType (.function types returns))
      fun _ _ => True := by
  have hparts : ∀ x ∈ types ++ returns, Parameter room x s := by
    intro x hx
    exact (List.mem_append.1 hx).elim (htypes x) fun hx => .inl (hreturns x hx)
  have hholds : ∀ x ∈ (Shape.function types returns).parts, s.session.types.Holds x := by
    intro x hx
    rcases hparts x hx with h | h
    · exact h.1
    · exact h.1.1
  refine (yields_internType hholds ?_).imp fun _ _ _ _ => .intro
  by_cases hvariadic : ∃ x ∈ types, (s.session.types.unfold x).isVararg = true
  · -- the variadic argument takes one layer more than was counted
    obtain ⟨x, hx, hvararg⟩ := hvariadic
    refine .inr ⟨?_, ?_⟩
    · show ((((types ++ returns).map s.session.types.unfold).take
        (types.map fun _ => default).length).any TypeTree.isVararg) = true
      rw [List.length_map, List.map_append]
      rw [List.take_left' (List.length_map ..)]
      exact List.any_eq_true.2 ⟨_, List.mem_map_of_mem hx, hvararg⟩
    · refine TypeTree.Counted.mono (n := room + 1 + 1) (.layer ?_) (by omega)
      intro tree htree
      obtain ⟨y, hy, rfl⟩ := List.mem_map.1 htree
      rcases hparts y hy with h | h
      · exact h.2.succ
      · exact h.1.2
  · refine allowed_of_counted hroom (.layer ?_)
    intro tree htree
    obtain ⟨y, hy, rfl⟩ := List.mem_map.1 htree
    rcases List.mem_append.1 hy with hy | hy
    · rcases htypes y hy with h | h
      · exact h.2
      · exact absurd ⟨y, hy, h.2⟩ hvariadic
    · exact (hreturns y hy).2

theorem yields_prototypeOf :
    (Course.primitive Allowed).Yields env s (prototypeOf (typeWithin room)) fun _ _ => True := by
  unfold prototypeOf
  refine currentSpan_bind ?_
  generalize s.stream.current.span = start
  refine Course.Yields.bind identifier fun x t _ _ => ?_
  refine (expect _ rfl).bind fun _ t _ _ => fuel_bind fun k => ?_
  have hnone : ∀ x ∈ ({} : ParameterList).types, Parameter room x t := nofun
  refine (yields_parametersOf hroom k hnone).bind fun list u _ hlist => ?_
  refine (expect _ rfl).bind fun _ v huv _ => ?_
  refine spanFrom_bind ((Course.Spanned.checkVarargs trivial).bind ?_)
  rintro _ v - rfl
  have hrest : ∀ (returns : List TypeId) (t : ParserState), v.Adds Allowed t →
      (∀ y ∈ returns, HasRoom room y t) →
      (Course.primitive Allowed).Yields env t (do
        let id ← Parser.internType (.function list.types returns)
        let function ← Parser.allocVariable { name := x.1, type := id, span := x.2 }
        declareVariable x.1 function x.2
        return ⟨x.1, function, list.parameters, returns, list.vararg, ⟨← spanFrom start, id⟩⟩)
        fun (_ : Prototype) _ => True := by
    intro returns t hvt hreturns
    have htypes : ∀ y ∈ list.types, Parameter room y t := fun y hy =>
      ((hlist y hy).leads huv).leads hvt
    refine (yields_functionType hroom htypes hreturns).bind fun id t _ _ => ?_
    refine (allocVariable _).bind fun function t _ _ => ?_
    refine (yields_declareVariable _ _ _).bind fun _ t _ _ => ?_
    exact spanFrom_bind (.pure .intro)
  refine (eat _ rfl).bind fun found t hvt _ => ?_
  cases found with
  | true =>
    refine (yields_returnListOf (yields_type hroom)).bind fun returns u htu hreturns => ?_
    exact hrest returns u (hvt.trans htu) hreturns
  | false =>
    refine spanFrom_bind ?_
    refine (yields_typelessReturns (n := room) _).bind fun returns u htu hreturns => ?_
    exact hrest returns u (hvt.trans htu) hreturns

theorem yields_externOf :
    (Course.primitive Allowed).Yields env s (externOf (typeWithin room)) fun _ _ => True := by
  unfold externOf
  refine currentSpan_bind ((expect _ rfl).bind fun _ t _ _ => ?_)
  refine (Course.Spanned.atFunction env t).bind fun found u _ _ => ?_
  cases found with
  | true => exact (yields_prototypeOf hroom).bind fun head v _ _ => spanFrom_bind (.pure .intro)
  | false =>
    refine Course.Yields.bind identifier fun x v _ _ => ?_
    refine (expect _ rfl).bind fun _ w _ _ => ?_
    refine (yields_type hroom w).bind fun id t _ _ => ?_
    refine (allocVariable _).bind fun target t _ _ => ?_
    refine (yields_declareVariable _ _ _).bind fun _ t _ _ => ?_
    exact spanFrom_bind (.pure .intro)

omit hroom in
theorem yields_mapM_bindVariable (vs : List Variable) :
    (Course.primitive B).Yields env s (vs.mapM bindVariable) fun _ _ => True := by
  induction vs generalizing s with
  | nil => exact .pure .intro
  | cons v vs ih =>
    rw [List.mapM_cons]
    refine Course.Yields.bind (Q := fun _ _ => True) ?_ fun id t _ _ => ?_
    · refine (allocVariable v).bind fun id t _ _ => ?_
      refine Course.Yields.bind (Q := fun _ _ => True) ?_ fun _ u _ _ => .pure .intro
      exact .step rfl (Course.primitive_binds B t _ fun _ => rfl) .intro
    · exact ih.bind fun ids u _ _ => .pure .intro

theorem yields_declaration : (Course.primitive Allowed).Yields env s
    (localsOf (typeWithin room) (expressionWithin room)) fun _ _ => True := by
  refine currentSpan_bind ((expect _ rfl).bind fun _ t _ _ => ?_)
  refine (commaList_forall (yields_variableOf hroom) fun _ _ _ htu h => h.leads htu).bind
    fun declared u _ _ => ?_
  have hbind : ∀ (values : List Expr) (v : ParserState), (Course.primitive Allowed).Yields env v (do
      let targets ← declared.mapM bindVariable
      return (targets, values, ← spanFrom s.stream.current.span)) fun _ _ => True :=
    fun values v => (yields_mapM_bindVariable declared).bind fun targets w _ _ =>
      spanFrom_bind (.pure .intro)
  refine (eat .equals rfl).bind fun found v _ _ => ?_
  cases found with
  | false => exact hbind [] v
  | true =>
    refine (commaList ((low_forms (Course.primitive_resolve _)).expressionWithin room env)).bind ?_
    exact fun values w _ _ => hbind values w

omit hroom in
theorem yields_forM_exportVariable (ids : List VariableId) :
    (Course.primitive B).Yields env s (ids.forM exportVariable) fun _ _ => True := by
  induction ids generalizing s with
  | nil => exact .pure .intro
  | cons id ids ih =>
    show (Course.primitive B).Yields env s
      (exportVariable id >>= fun _ => ids.forM exportVariable) _
    refine Course.Yields.bind (Q := fun _ _ => True) ?_ fun _ t _ _ => ih
    exact .step rfl (Course.primitive_binds B s _ fun _ => rfl) .intro

theorem yields_exported
    (hwords : ∀ token ∈ s.stream.words, token.kind ≠ .kwType ∧ token.kind ≠ .kwInterface) :
    (Course.primitive Allowed).Yields env s (exportOf (typeWithin room) (expressionWithin room))
      fun _ _ => True := by
  unfold exportOf
  refine currentSpan_bind ((expect _ rfl).bind ?_)
  rintro _ _ - ⟨-, -, rfl, -⟩
  have hkind := hwords _ (s.stream.words_next_suffix.subset List.mem_cons_self)
  refine gets_bind ?_
  split
  · refine currentKind_bind ?_
    split
    · next hdefinition => exact absurd hdefinition hkind.1
    · next hdefinition => exact absurd hdefinition hkind.2
    · refine (yields_declaration hroom).bind fun x u _ _ => ?_
      refine (yields_forM_exportVariable x.1).bind fun _ v _ _ => ?_
      exact spanFrom_bind (.pure .intro)
    · exact unexpected _
  · exact fail .intro .intro

/-- A statement forms types that are allowed. -/
theorem yields_statement (block : Parser Block) (hkind : s.stream.current.kind ≠ .kwDo)
    (hwords : ∀ token ∈ s.stream.words, token.kind ≠ .kwType ∧ token.kind ≠ .kwInterface)
    (himport : s.stream.current.kind ≠ .kwImport) :
    (Course.primitive Allowed).Yields env s (statementOf room block) fun _ _ => True := by
  have hcurrent := hwords s.stream.current List.mem_cons_self
  have hcall : (Course.primitive Allowed).Yields env s (callOf (primaryWithin room))
      fun _ _ => True := by
    unfold callOf
    have hlow := low_forms (Course.primitive_resolve Allowed)
    refine (hlow.primaryWithin room env s).bind fun e t _ _ => ?_
    split
    · exact .pure .intro
    · exact fail .intro .intro
  unfold statementOf
  refine currentSpan_bind (currentKind_bind ?_)
  split
  · next hdefinition => exact absurd hdefinition hcurrent.1
  · next hdefinition => exact absurd hdefinition hcurrent.2
  · exact (yields_declaration hroom).bind fun x t _ _ => .pure .intro
  · next himports => exact absurd himports himport
  · exact yields_exported hroom hwords
  · exact yields_externOf hroom
  · next hdo => exact absurd hdo hkind
  · exact hcall
  · exact hcall
  · exact unexpected _

end

/-! ## Modules -/

/-- No type is defined and nothing is imported by the tokens. -/
def Plain (tokens : List Token) : Prop :=
  ∀ token ∈ tokens, token.kind ≠ .kwType ∧ token.kind ≠ .kwInterface ∧ token.kind ≠ .kwImport

theorem rootScope_namesPrimitives : rootScope.NamesPrimitives := fun _ _ => primitive_of_rootScope

/-- The types so far are allowed. -/
theorem Boundary.adds {start : ParserState} {room : Nat} {blocks : List (List Stmt)}
    (h : Boundary env start room blocks s) (hstart : start.Basic)
    (hplain : Plain start.stream.words) : start.Adds Allowed s := by
  induction h with
  | start =>
    refine .of_types ⟨hstart.grounded, ?_⟩ hstart rfl
    exact List.forall_mem_cons.2 ⟨rootScope_namesPrimitives, hstart.scopes⟩
  | semicolon _ _ ih =>
    exact ih.trans (.of_types ⟨ih.after.grounded, ih.after.scopes⟩ ih.after rfl)
  | @statement room body blocks s t m hs hkind hrun ih =>
    cases room with
    | zero =>
      unfold statementWithin at hrun
      cases hrun
    | succ room =>
      unfold statementWithin at hrun
      obtain ⟨u, hinner, rfl⟩ := nested_eq_ok hrun
      have hroom : room + 1 ≤ nestingLimit := by
        have heq := hs.room_eq
        simp only [List.length_cons] at heq
        omega
      have hwords : Plain s.stream.words := fun token htoken =>
        hplain token (hs.moves.words_suffix.subset htoken)
      have hopened : (opened s).Basic := ⟨ih.after.grounded, ih.after.scopes⟩
      have hadds := ((yields_statement (s := opened s) hroom _ hkind
        (fun token htoken => ⟨(hwords token htoken).1, (hwords token htoken).2.1⟩)
        (hwords _ List.mem_cons_self).2.2 (.refl hopened)).ok hinner).1
      have hclosed := (Course.primitive Allowed).deepened (u.depth - 1) (.refl hadds.after)
      exact (ih.trans ((Course.primitive Allowed).deepened _ (.refl ih.after))).trans
        (hadds.trans hclosed)
  | @enter room body blocks s _ _ _ ih =>
    refine ih.trans (.of_types ⟨ih.after.grounded, ?_⟩ ih.after rfl)
    refine List.forall_mem_cons.2 ⟨fun _ _ hnone => ?_, ih.after.scopes⟩
    cases hnone
  | @leave room inner body blocks s span _ _ ih =>
    refine ih.trans (.of_types ⟨ih.after.grounded, ?_⟩ ih.after rfl)
    exact fun scope hscope => ih.after.scopes scope (List.mem_of_mem_tail hscope)

end Grammar

end TypedLua
