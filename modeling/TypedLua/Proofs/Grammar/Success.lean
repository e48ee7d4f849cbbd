import TypedLua.Grammar.Module
import TypedLua.Proofs.Grammar.Correspondence
import TypedLua.Proofs.Types.Instances

/-!
# Grammar.Success

What a reader that succeeded has done: which token it stood at, in what state the readers inside it
ran, and which state it left.

Main statement: `parameters_spec`, the parameters of an interface are distinct, and the scope in
which its properties are read binds nothing else.
-/

namespace TypedLua

open Text TypedLua.Parser
open Token (Kind)

variable {id : TypeId} {k : Kind} {name : String} {span : Span}

namespace Parser

variable {α : Type} {env : ParserEnv} {s t : ParserState}

/-! ## Steps -/

theorem currentKind_eq_ok (h : currentKind env s = (.ok k, t)) :
    s.stream.current.kind = k ∧ t = s := by
  cases h
  exact ⟨rfl, rfl⟩

theorem expect_eq_ok {token : Token} (h : expect k env s = (.ok token, t)) :
    s.stream.current.kind = k ∧ t = s.next := by
  rw [expect_apply] at h
  by_cases hk : s.stream.current.kind = k
  · rw [if_pos hk] at h
    exact ⟨hk, (congrArg Prod.snd h).symm⟩
  · rw [if_neg hk] at h
    cases h

theorem identifier_eq_ok (h : identifier env s = (.ok (name, span), t)) :
    s.stream.current.kind = .identifier ∧ s.stream.current.text = name ∧ t = s.next := by
  rw [identifier_apply] at h
  by_cases hk : s.stream.current.kind = .identifier
  · rw [if_pos hk] at h
    cases hnext : s.stream.next.1 with
    | error f =>
      rw [hnext] at h
      cases h
    | ok _ =>
      rw [hnext] at h
      cases h
      exact ⟨hk, rfl, rfl⟩
  · rw [if_neg hk] at h
    cases h

theorem eat_eq_ok {found : Bool} (h : eat k env s = (.ok found, t)) :
    t = if found then s.next else s := by
  rw [eat_apply] at h
  by_cases hk : s.stream.current.kind = k
  · rw [if_pos hk] at h
    cases hnext : s.stream.next.1 with
    | error f =>
      rw [hnext] at h
      cases h
    | ok _ =>
      rw [hnext] at h
      cases h
      rfl
  · rw [if_neg hk] at h
    cases h
    rfl

theorem defineType_eq_ok {u : Unit} (h : defineType name id span env s = (.ok u, t)) :
    t = { s with scopes := s.scopes.modifyCurrent fun scope =>
      { scope with types := scope.types.insert name id } } := by
  obtain ⟨scopes, s₁, h₁, h⟩ := bind_eq_ok.1 h
  cases h₁
  cases hdefine : s.scopes.defineType? name id with
  | none =>
    rw [hdefine] at h
    cases h
  | some scopes =>
    rw [hdefine] at h
    cases h
    unfold ScopeStack.defineType? at hdefine
    split at hdefine
    · cases hdefine
    · cases hdefine
      rfl

theorem withScope_eq_ok {scope : Scope} {p : Parser α} {x : α × Scope}
    (h : withScope scope p env s = (.ok x, t)) :
    ∃ u, p env { s with scopes := s.scopes.push scope } = (.ok x.1, u) ∧
      t = { u with scopes := u.scopes.pop.2 } := by
  unfold withScope at h
  cases hp : p env { s with scopes := s.scopes.push scope } with
  | mk r u =>
    rw [hp] at h
    cases r with
    | error f => cases h
    | ok a =>
      cases h
      exact ⟨u, rfl, rfl⟩

theorem nested_eq_ok {construct : String} {p : Parser α} {x : α}
    (h : nested construct p env s = (.ok x, t)) :
    ∃ u, p env { s with depth := s.depth + 1 } = (.ok x, u) ∧
      t = { u with depth := u.depth - 1 } := by
  obtain ⟨_, s₁, hdeepen, h⟩ := bind_eq_ok.1 h
  obtain ⟨depth, s₂, h₂, hdeepen⟩ := bind_eq_ok.1 hdeepen
  cases h₂
  split at hdeepen
  · cases hdeepen
    -- opening succeeded, so there was room
    unfold restoring at h
    cases hp : p env { s with depth := s.depth + 1 } with
    | mk r u =>
      rw [hp] at h
      cases h
      exact ⟨u, rfl, rfl⟩
  · cases hdeepen

end Parser

/-! ## Parameters -/

namespace Grammar

variable {env : ParserEnv} {s t : ParserState} {scope scope' : Scope} {gs : List TypeId}

/-- The scope binds parameters of the arena, each under its own name. -/
def BindsParameters (a : TypeArena) (scope : Scope) : Prop :=
  ∀ name id, scope.types.find? name = some id → a.get? id = some (.generic name)

theorem BindsParameters.insert {a b : TypeArena} (h : BindsParameters a scope) (hab : a.Extends b)
    (hid : b.get? id = some (.generic name)) :
    BindsParameters b { scope with types := scope.types.insert name id } := by
  intro other id' hfound
  rw [Bindings.find?_insert] at hfound
  split at hfound
  · next heq =>
    cases hfound
    rw [heq, hid]
  · exact hab.get? (h other id' hfound)

/-- By induction on how many parameters may follow. -/
theorem parametersFrom_spec (n : Nat) (hscope : BindsParameters s.session.types scope)
    (h : parametersFrom n scope env s = (.ok (scope', gs), t)) :
    s.session.types.Extends t.session.types ∧ BindsParameters t.session.types scope' ∧
      ∃ names, names.Nodup ∧ (∀ name ∈ names, scope.types.find? name = none) ∧
        t.session.types.Placeholders gs names := by
  induction n generalizing s scope gs with
  | zero =>
    cases h
    refine ⟨.refl _, hscope, [], List.nodup_nil, ?_, List.Forall₂.nil⟩
    intro name hname
    cases hname
  | succ n ih =>
    obtain ⟨⟨name, span⟩, s₁, hname, h⟩ := bind_eq_ok.1 h
    obtain ⟨-, -, rfl⟩ := identifier_eq_ok hname
    dsimp only at h
    split at h
    · cases h
    · next hnew =>
      have hnone : scope.types.find? name = none := by
        simpa [Bindings.contains] using hnew
      obtain ⟨id, s₂, hintern, h⟩ := bind_eq_ok.1 h
      cases hintern
      have hext := TypeArena.extends_intern s.session.types (.generic name)
      have hid := TypeArena.get?_intern s.session.types (.generic name)
      have hscope₂ := hscope.insert hext hid
      obtain ⟨found, s₃, heat, h⟩ := bind_eq_ok.1 h
      obtain rfl := eat_eq_ok heat
      cases found with
      | false =>
        cases h
        refine ⟨hext, hscope₂, [name], List.pairwise_singleton _ name, ?_, .cons hid .nil⟩
        intro other hother
        rw [List.mem_singleton.1 hother]
        exact hnone
      | true =>
        obtain ⟨⟨scope₄, gs'⟩, s₄, hrest, h⟩ := bind_eq_ok.1 h
        cases h
        obtain ⟨hext', hbinds, names, hdistinct, hfresh, hgs⟩ := ih hscope₂ hrest
        refine ⟨hext.trans hext', hbinds, name :: names, ?_, ?_, .cons (hext'.get? hid) hgs⟩
        · refine List.nodup_cons.2 ⟨fun hmem => ?_, hdistinct⟩
          -- the scope that the rest is read with binds the name already
          have hbound := hfresh name hmem
          rw [Bindings.find?_insert, if_pos rfl] at hbound
          cases hbound
        · intro other hother
          rcases List.mem_cons.1 hother with rfl | hmem
          · exact hnone
          · have hbound := hfresh other hmem
            rw [Bindings.find?_insert] at hbound
            split at hbound
            · cases hbound
            · exact hbound

/-- Parameters are new placeholders with different names. -/
theorem parameters_spec (h : parameters env s = (.ok (scope, gs), t)) :
    BindsParameters t.session.types scope ∧
      ∃ names, names.Nodup ∧ t.session.types.Placeholders gs names := by
  have hempty : ∀ a, BindsParameters a {} := fun a name id hid => by cases hid
  obtain ⟨found, s₁, heat, h⟩ := bind_eq_ok.1 h
  cases found with
  | false =>
    cases h
    exact ⟨hempty _, [], .nil, .nil⟩
  | true =>
    obtain ⟨n, s₂, hfuel, h⟩ := bind_eq_ok.1 h
    obtain ⟨⟨scope', gs'⟩, s₃, hfrom, h⟩ := bind_eq_ok.1 h
    obtain ⟨_, s₄, hgreater, h⟩ := bind_eq_ok.1 h
    cases h
    obtain ⟨-, rfl⟩ := expect_eq_ok hgreater
    obtain ⟨-, hbinds, names, hdistinct, -, hgs⟩ := parametersFrom_spec n (hempty _) hfrom
    exact ⟨hbinds, names, hdistinct, hgs⟩

/-! ## Imports and modules -/

/-- An import succeeds if its file is not being loaded and its module compiles. -/
theorem loadImport_eq_ok {modulePath : String} {path : Path} {m : Module} :
    loadImport modulePath path span env s = (.ok m, t) ↔
      ¬ s.session.loading.contains (env.files.key path) = true ∧
      ∃ text session, env.files.read path = .ok text ∧
        env.load path text s.session = (some m, session) ∧ t = { s with session } := by
  unfold loadImport
  dsimp only
  by_cases hloading : s.session.loading.contains (env.files.key path) = true
  · rw [if_pos hloading]
    exact ⟨nofun, fun h => absurd hloading h.1⟩
  · rw [if_neg hloading]
    cases hread : env.files.read path with
    | error cause => exact ⟨nofun, fun ⟨_, _, _, htext, _⟩ => nomatch htext⟩
    | ok text =>
      dsimp only
      cases hload : env.load path text s.session with
      | mk found session =>
        cases found with
        | none =>
          refine ⟨nofun, fun ⟨_, text', session', htext, hload', _⟩ => ?_⟩
          cases htext
          rw [hload] at hload'
          cases hload'
        | some m' =>
          constructor
          · intro h
            cases h
            exact ⟨hloading, text, session, rfl, hload, rfl⟩
          · rintro ⟨-, text', session', htext, hload', rfl⟩
            cases htext
            rw [hload] at hload'
            cases hload'
            rfl

theorem primitive_of_rootScope (h : rootScope.types.find? name = some id) :
    ∃ p : Primitive, id = p.typeId := by
  have hinsert : ∀ (ps : List Primitive) (b : Bindings TypeId),
      (∀ name id, b.find? name = some id → ∃ p : Primitive, id = p.typeId) →
      ∀ name id, (ps.foldl (fun types p => types.insert p.name p.typeId) b).find? name = some id →
        ∃ p : Primitive, id = p.typeId := by
    intro ps
    induction ps with
    | nil => exact fun b hb => hb
    | cons p ps ih =>
      refine fun b hb => ih _ fun name id hid => ?_
      rw [Bindings.find?_insert] at hid
      split at hid
      · cases hid
        exact ⟨p, rfl⟩
      · exact hb name id hid
  exact hinsert _ _ (fun _ _ hnone => by cases hnone) name id h

end Grammar

end TypedLua
