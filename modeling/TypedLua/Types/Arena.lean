import TypedLua.Types.Basic

/-!
# TypedLua.Types.Arena

The types of a session, in the order of their creation.  A shape that the arena already holds keeps
its id; any other is added at the end.  Nothing is ever changed or removed.

Main statements: `TypeArena.get?_intern`, the id given to a shape denotes it, and
`TypeArena.get?_intern_of_get?`, every earlier id goes on denoting what it did.
-/

namespace TypedLua

/-- The types of a session, in the order of their creation. -/
structure TypeArena where
  /-- The shapes, each at the place that is its id. -/
  shapes : List Shape
deriving DecidableEq, Repr

namespace TypeArena

/-! ## §1. Look-up and interning -/

/-- The arena that holds the primitives alone. -/
def primitives : TypeArena := ⟨Primitive.all.map .primitive⟩

instance : Inhabited TypeArena := ⟨primitives⟩

/-- How many types there are. -/
def size (a : TypeArena) : Nat := a.shapes.length

/-- The shape that an id denotes. -/
def get? (a : TypeArena) (id : TypeId) : Option Shape := a.shapes[id.index]?

/-- The id of a shape that the arena holds. -/
def idOf? (a : TypeArena) (s : Shape) : Option TypeId := (a.shapes.idxOf? s).map TypeId.mk

/-- The id of a shape, which is added if the arena does not hold it. -/
def intern (s : Shape) : StateM TypeArena TypeId := fun a =>
  match a.idOf? s with
  | some id => (id, a)
  | none => (⟨a.size⟩, ⟨a.shapes ++ [s]⟩)

/-- A number above every id that is in use: those of the arena's types, those of their parts, some
of which may not denote a type yet, and the given ones. -/
def idBound (a : TypeArena) (ids : List TypeId) : Nat :=
  (a.shapes.flatMap Shape.parts ++ ids).foldl (fun n id => max n (id.index + 1)) a.size

/-- Whether an id denotes a variadic type. -/
def isVararg (a : TypeArena) (id : TypeId) : Bool := (a.get? id).any Shape.isVararg

/-- Whether a variadic type stands before the end of a list. -/
def hasMisplacedVararg (a : TypeArena) (ids : List TypeId) : Bool := ids.dropLast.any a.isVararg

/-! ## §2. Laws -/

theorem idOf?_eq_some {a : TypeArena} {s : Shape} {id : TypeId} (h : a.idOf? s = some id) :
    a.get? id = some s := by
  obtain ⟨i, hi, rfl⟩ := Option.map_eq_some_iff.1 h
  obtain ⟨hlt, heq, -⟩ := List.findIdx?_eq_some_iff_getElem.1 hi
  simp only [get?]
  rw [List.getElem?_eq_getElem hlt]
  simpa using heq

/-- The id given to a shape denotes it. -/
theorem get?_intern (a : TypeArena) (s : Shape) : (intern s a).2.get? (intern s a).1 = some s := by
  unfold intern
  split
  · next h => exact idOf?_eq_some h
  · simp [get?, size]

/-- Every earlier id goes on denoting what it did. -/
theorem get?_intern_of_get? {a : TypeArena} {id : TypeId} {t : Shape} (s : Shape)
    (h : a.get? id = some t) : (intern s a).2.get? id = some t := by
  unfold intern
  split
  · exact h
  · obtain ⟨hlt, -⟩ := List.getElem?_eq_some_iff.1 h
    simp only [get?] at h ⊢
    rwa [List.getElem?_append_left hlt]

end TypeArena

end TypedLua
