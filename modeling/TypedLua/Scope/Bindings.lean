/-!
# TypedLua.Scope.Bindings

Finite maps from names.  Binding a name again replaces what it was bound to.

Main statement: `Bindings.find?_insert`, what a name means after a binding.
-/

namespace TypedLua

/-- A finite map from names; no name occurs twice. -/
structure Bindings (α : Type) where
  /-- The bound names, the latest first. -/
  entries : List (String × α) := []
deriving DecidableEq, Repr, Inhabited

namespace Bindings

variable {α : Type}

/-- What a name is bound to. -/
def find? (b : Bindings α) (name : String) : Option α := b.entries.lookup name

/-- Whether a name is bound. -/
def contains (b : Bindings α) (name : String) : Bool := (b.find? name).isSome

/-- Bind a name. -/
def insert (b : Bindings α) (name : String) (value : α) : Bindings α :=
  ⟨(name, value) :: b.entries.filter fun entry => entry.1 != name⟩

theorem lookup_filter_ne {entries : List (String × α)} {name other : String} (h : other ≠ name) :
    (entries.filter fun entry => entry.1 != name).lookup other = entries.lookup other := by
  induction entries with
  | nil => rfl
  | cons entry entries ih =>
    obtain ⟨key, value⟩ := entry
    by_cases hk : key = name
    · subst hk
      have hne : (other == key) = false := beq_false_of_ne h
      simp [List.lookup_cons, ih, hne]
    · simp [hk, List.lookup_cons, ih]

/-- A bound name means what it was bound to last; other names keep their meaning. -/
theorem find?_insert (b : Bindings α) (name other : String) (value : α) :
    (b.insert name value).find? other = if other = name then some value else b.find? other := by
  unfold find? insert
  by_cases h : other = name
  · simp [h]
  · have hne : (other == name) = false := beq_false_of_ne h
    simp [h, List.lookup_cons, lookup_filter_ne h, hne]

end Bindings

end TypedLua
