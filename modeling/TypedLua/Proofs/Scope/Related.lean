import TypedLua.Proofs.Simulation
import TypedLua.Scope.Stack

/-!
# Scope.Related

Variables, bindings and scopes that agree but for their ids.  A relation of type ids and one
of variable ids are lifted to all of them, and every operation on scopes keeps them related.
-/

namespace TypedLua

open Text

/-! ## Related scopes -/

/-- Two maps bind the same names, in one order, to related values. -/
def Bindings.Rel {α β : Type} (r : α → β → Prop) (b : Bindings α) (c : Bindings β) : Prop :=
  List.Forall₂ (fun p q => p.1 = q.1 ∧ r p.2 q.2) b.entries c.entries

/-- Two variables agree but for their types, which are related, and their places, which go
together. -/
structure Variable.Rel (place : Span → Span → Prop) (r : TypeId → TypeId → Prop) (v u : Variable) :
    Prop where
  name : v.name = u.name
  type : r v.type u.type
  span : place v.span u.span
  variadic : v.variadic = u.variadic

/-- Two scopes bind and export the same names with related meanings. -/
structure Scope.Rel (r : TypeId → TypeId → Prop) (q : VariableId → VariableId → Prop)
    (s t : Scope) : Prop where
  vars : s.vars.Rel q t.vars
  types : s.types.Rel r t.types
  exportedVariables : s.exportedVariables.Rel q t.exportedVariables
  exportedTypes : s.exportedTypes.Rel r t.exportedTypes

theorem Variable.rel_mk {place : Span → Span → Prop} {r : TypeId → TypeId → Prop} {a b : Span}
    {x y : TypeId} (name : String) (variadic : Bool) (hab : place a b) (hxy : r x y) :
    Variable.Rel place r ⟨name, x, a, variadic⟩ ⟨name, y, b, variadic⟩ :=
  ⟨rfl, hxy, hab, rfl⟩

theorem Variable.Rel.eq {v u : Variable} (h : Variable.Rel Eq Eq v u) : v = u := by
  obtain ⟨name, type, span, variadic⟩ := v
  obtain ⟨rfl, rfl, rfl, rfl⟩ := h
  rfl

theorem Bindings.Rel.mono {α β : Type} {r r' : α → β → Prop} {b : Bindings α} {c : Bindings β}
    (hr : ∀ x y, r x y → r' x y) (h : b.Rel r c) : b.Rel r' c :=
  List.Forall₂.imp (fun _ _ h => ⟨h.1, hr _ _ h.2⟩) h

theorem Scope.Rel.mono {r r' : TypeId → TypeId → Prop} {q q' : VariableId → VariableId → Prop}
    {s t : Scope} (h : Scope.Rel r q s t) (hr : ∀ x y, r x y → r' x y)
    (hq : ∀ x y, q x y → q' x y) : Scope.Rel r' q' s t :=
  ⟨h.vars.mono hq, h.types.mono hr, h.exportedVariables.mono hq, h.exportedTypes.mono hr⟩

theorem Bindings.Rel.eq {α : Type} {r : α → α → Prop} {b c : Bindings α} (h : b.Rel r c)
    (hr : ∀ x y, r x y → x = y) : b = c := by
  obtain ⟨xs⟩ := b
  obtain ⟨ys⟩ := c
  have hentries : List.Forall₂ Eq xs ys :=
    List.Forall₂.imp (fun _ _ h => Prod.ext h.1 (hr _ _ h.2)) h
  rw [List.forall₂_eq_eq_eq] at hentries
  rw [hentries]

/-- Scopes that are related by equality are equal. -/
theorem Scope.Rel.eq {r : TypeId → TypeId → Prop} {q : VariableId → VariableId → Prop}
    {s t : Scope} (h : Scope.Rel r q s t) (hr : ∀ x y, r x y → x = y)
    (hq : ∀ x y, q x y → x = y) : s = t := by
  obtain ⟨vars, types, exportedVars, exportedTypes⟩ := s
  obtain rfl := h.vars.eq hq
  obtain rfl := h.types.eq hr
  obtain rfl := h.exportedVariables.eq hq
  obtain rfl := h.exportedTypes.eq hr
  rfl

/-! ## Links -/

namespace Link

variable {W : Type} [Preorder W] {α β : Type}

/-- Bindings correspond if they bind the same names to values that correspond. -/
def bindings (R : Link W α β) : Link W (Bindings α) (Bindings β) where
  rel w := Bindings.Rel (R.rel w)
  mono hwv _ _ h := h.mono fun _ _ => R.mono hwv

/-- Variables correspond if their types do and their places go together. -/
def declared (T : Link W TypeId TypeId) (place : Span → Span → Prop) :
    Link W Variable Variable where
  rel w := Variable.Rel place (T.rel w)
  mono hwv _ _ h := ⟨h.name, T.mono hwv h.type, h.span, h.variadic⟩

variable (T : Link W TypeId TypeId) (V : Link W VariableId VariableId)

/-- Scopes correspond if their bindings do. -/
def scope : Link W Scope Scope where
  rel w := Scope.Rel (T.rel w) (V.rel w)
  mono hwv _ _ h := h.mono (fun _ _ => T.mono hwv) fun _ _ => V.mono hwv

/-- Stacks of scopes correspond scope by scope. -/
def scopes : Link W ScopeStack ScopeStack where
  rel w s t := (scope T V).list.rel w s.scopes t.scopes
  mono hwv _ _ h := (scope T V).list.mono hwv h

end Link

/-! ## Operations -/

section

variable {W : Type} [Preorder W] {α β : Type} {R : Link W α β} {w : W}

namespace Bindings

theorem rel_empty : R.bindings.rel w {} {} := List.Forall₂.nil

/-- Names are found alike in related bindings. -/
theorem rel_find? {b : Bindings α} {c : Bindings β} (h : R.bindings.rel w b c) (name : String) :
    R.option.rel w (b.find? name) (c.find? name) :=
  R.lookup h name

theorem contains_eq {b : Bindings α} {c : Bindings β} (h : R.bindings.rel w b c)
    (name : String) : b.contains name = c.contains name := by
  have hfind := rel_find? h name
  unfold contains
  generalize b.find? name = x, c.find? name = y at hfind ⊢
  cases hfind <;> rfl

/-- Binding a name on both sides keeps bindings related. -/
theorem rel_insert {b : Bindings α} {c : Bindings β} (h : R.bindings.rel w b c) (name : String)
    {x : α} {y : β} (hxy : R.rel w x y) :
    R.bindings.rel w (b.insert name x) (c.insert name y) := by
  refine List.Forall₂.cons ⟨rfl, hxy⟩ (List.rel_filter ?_ h)
  rintro p q ⟨hname, -⟩
  show (p.1 != name) = true ↔ (q.1 != name) = true
  rw [show p.1 = q.1 from hname]

end Bindings

variable {T : Link W TypeId TypeId} {V : Link W VariableId VariableId}

theorem Scope.rel_empty : (Link.scope T V).rel w {} {} :=
  ⟨Bindings.rel_empty, Bindings.rel_empty, Bindings.rel_empty, Bindings.rel_empty⟩

theorem Scope.rel_insertType {s t : Scope} (h : (Link.scope T V).rel w s t) (name : String)
    {x y : TypeId} (hxy : T.rel w x y) :
    (Link.scope T V).rel w { s with types := s.types.insert name x }
      { t with types := t.types.insert name y } :=
  ⟨h.vars, Bindings.rel_insert (R := T) h.types name hxy, h.exportedVariables, h.exportedTypes⟩

theorem rel_findSome? {γ δ : Type} {Q : Link W γ δ} {f : γ → Option α} {g : δ → Option β}
    {xs : List γ} {ys : List δ} (h : Q.list.rel w xs ys)
    (hfg : ∀ x y, Q.rel w x y → R.option.rel w (f x) (g y)) :
    R.option.rel w (xs.findSome? f) (ys.findSome? g) := by
  change List.Forall₂ _ xs ys at h
  induction h with
  | nil => exact .none
  | cons hxy _ ih =>
    rw [List.findSome?_cons, List.findSome?_cons]
    have hhead := hfg _ _ hxy
    revert hhead
    generalize f _ = x, g _ = y
    rintro (hhead | _)
    · exact .some hhead
    · exact ih

namespace ScopeStack

variable {s t : ScopeStack}

/-- A name denotes related variables in related scopes. -/
theorem rel_resolveVariable (h : (Link.scopes T V).rel w s t) (name : String) :
    V.option.rel w (s.resolveVariable name) (t.resolveVariable name) :=
  rel_findSome? h fun _ _ hxy => Bindings.rel_find? (R := V) hxy.vars name

/-- It denotes related types too. -/
theorem rel_resolveType (h : (Link.scopes T V).rel w s t) (name : String) :
    T.option.rel w (s.resolveType name) (t.resolveType name) :=
  rel_findSome? h fun _ _ hxy => Bindings.rel_find? (R := T) hxy.types name

theorem atRoot_eq (h : (Link.scopes T V).rel w s t) : s.atRoot = t.atRoot := by
  unfold atRoot depth
  rw [List.Forall₂.length_eq h]

theorem rel_push (h : (Link.scopes T V).rel w s t) {x y : Scope}
    (hxy : (Link.scope T V).rel w x y) : (Link.scopes T V).rel w (s.push x) (t.push y) :=
  .cons hxy h

/-- Leaving related scopes leaves related ones. -/
theorem rel_pop (h : (Link.scopes T V).rel w s t) :
    (Link.scope T V).rel w (s.pop.1.getD {}) (t.pop.1.getD {}) ∧
      (Link.scopes T V).rel w s.pop.2 t.pop.2 := by
  obtain ⟨xs⟩ := s
  obtain ⟨ys⟩ := t
  change List.Forall₂ _ xs ys at h
  cases h with
  | nil => exact ⟨Scope.rel_empty, .nil⟩
  | cons hxy hrest => exact ⟨hxy, hrest⟩

theorem rel_modifyCurrent (h : (Link.scopes T V).rel w s t) {f g : Scope → Scope}
    (hfg : ∀ x y, (Link.scope T V).rel w x y → (Link.scope T V).rel w (f x) (g y)) :
    (Link.scopes T V).rel w (s.modifyCurrent f) (t.modifyCurrent g) := by
  obtain ⟨xs⟩ := s
  obtain ⟨ys⟩ := t
  change List.Forall₂ _ xs ys at h
  cases h with
  | nil => exact .nil
  | cons hxy hrest => exact .cons (hfg _ _ hxy) hrest

theorem rel_exportType (h : (Link.scopes T V).rel w s t) (name : String) {x y : TypeId}
    (hxy : T.rel w x y) : (Link.scopes T V).rel w (s.exportType name x) (t.exportType name y) :=
  rel_modifyCurrent h fun _ _ hst =>
    { hst with exportedTypes := Bindings.rel_insert (R := T) hst.exportedTypes name hxy }

theorem current?_any_eq (h : (Link.scopes T V).rel w s t) {f g : Scope → Bool}
    (hfg : ∀ x y, (Link.scope T V).rel w x y → f x = g y) :
    s.current?.any f = t.current?.any g := by
  obtain ⟨xs⟩ := s
  obtain ⟨ys⟩ := t
  change List.Forall₂ _ xs ys at h
  cases h with
  | nil => rfl
  | cons hxy _ => exact hfg _ _ hxy

/-- Related scopes take a definition, or refuse it, together. -/
theorem rel_defineType? (h : (Link.scopes T V).rel w s t) (name : String) {x y : TypeId}
    (hxy : T.rel w x y) :
    (Link.scopes T V).option.rel w (s.defineType? name x) (t.defineType? name y) := by
  unfold defineType?
  rw [current?_any_eq h fun _ _ hst => Bindings.contains_eq (R := T) hst.types name]
  split
  · exact .none
  · exact .some (rel_modifyCurrent h fun _ _ hst => Scope.rel_insertType hst name hxy)

end ScopeStack

end

end TypedLua
