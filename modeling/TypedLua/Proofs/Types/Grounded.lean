import TypedLua.Types.Arena

/-!
# Types.Grounded

What every arena of a session keeps.  An arena is canonical if it starts with the primitives and
holds no shape twice, so that a shape has one id.  It is grounded if moreover every type is made of
older ones, so that going from a type to its parts comes to an end.

Main statements: `intern_cases`, what interning can do; `Canonical.intern` and `Grounded.intern`,
both properties are kept.
-/

namespace TypedLua.TypeArena

/-! ## Growth -/

/-- The arena `b` holds every type of `a`, at the same id. -/
def Extends (a b : TypeArena) : Prop := a.shapes <+: b.shapes

/-- The arena holds a type of this id. -/
def Holds (a : TypeArena) (id : TypeId) : Prop := id.index < a.size

theorem Extends.refl (a : TypeArena) : a.Extends a := List.prefix_refl _

variable {a b : TypeArena} {id : TypeId} {s : Shape}

theorem Extends.trans {c : TypeArena} (hab : a.Extends b) (hbc : b.Extends c) : a.Extends c :=
  List.IsPrefix.trans hab hbc

theorem Extends.size_le (h : a.Extends b) : a.size ≤ b.size :=
  List.IsPrefix.length_le h

theorem Extends.holds (h : a.Extends b) (hid : a.Holds id) : b.Holds id :=
  Nat.lt_of_lt_of_le hid h.size_le

/-- What an id denotes it still denotes when the arena is extended. -/
theorem Extends.get? (h : a.Extends b) (hs : a.get? id = some s) : b.get? id = some s := by
  obtain ⟨hlt, -⟩ := List.getElem?_eq_some_iff.1 hs
  obtain ⟨rest, hrest⟩ := h
  show b.shapes[id.index]? = some s
  rw [← hrest, List.getElem?_append_left hlt]
  exact hs

theorem size_le_idBound (a : TypeArena) (ids : List TypeId) : a.size ≤ a.idBound ids := by
  unfold idBound
  generalize a.shapes.flatMap Shape.parts ++ ids = xs
  generalize a.size = n
  induction xs generalizing n with
  | nil => exact Nat.le_refl n
  | cons x xs ih => exact Nat.le_trans (Nat.le_max_left n _) (ih _)

theorem holds_of_get? (h : a.get? id = some s) : a.Holds id :=
  (List.getElem?_eq_some_iff.1 h).1

theorem Holds.get? (h : a.Holds id) : ∃ s, a.get? id = some s :=
  ⟨a.shapes.get ⟨id.index, h⟩, List.getElem?_eq_getElem h⟩

theorem Extends.get?_eq (h : a.Extends b) (hid : a.Holds id) : b.get? id = a.get? id := by
  obtain ⟨s, hs⟩ := hid.get?
  rw [hs]
  exact h.get? hs

/-! ## Interning -/

/-- Interning finds a shape, or adds it at the end. -/
theorem intern_cases (a : TypeArena) (s : Shape) :
    (∃ id, a.get? id = some s ∧ intern s a = (id, a)) ∨
      (s ∉ a.shapes ∧ intern s a = (⟨a.size⟩, ⟨a.shapes ++ [s]⟩)) := by
  unfold intern
  cases h : a.idOf? s with
  | some id => exact .inl ⟨id, idOf?_eq_some h, rfl⟩
  | none =>
    refine .inr ⟨?_, rfl⟩
    have hnone : a.shapes.idxOf? s = none := by simpa [idOf?] using h
    exact List.idxOf?_eq_none_iff.1 hnone

/-- Interning extends the arena. -/
theorem extends_intern (a : TypeArena) (s : Shape) : a.Extends (intern s a).2 := by
  rcases intern_cases a s with ⟨id, -, h⟩ | ⟨-, h⟩ <;> rw [h]
  · exact Extends.refl a
  · exact List.prefix_append _ _

/-- The id that it gives denotes the shape. -/
theorem get?_of_intern (h : intern s a = (id, b)) : b.get? id = some s := by
  have hget := get?_intern a s
  rwa [h] at hget

theorem extends_of_intern (h : intern s a = (id, b)) : a.Extends b := by
  have hext := extends_intern a s
  rwa [h] at hext

theorem holds_intern (a : TypeArena) (s : Shape) : (intern s a).2.Holds (intern s a).1 :=
  holds_of_get? (get?_intern a s)

/-! ## Canonical arenas -/

/-- The arena starts with the primitives and holds no shape twice. -/
structure Canonical (a : TypeArena) : Prop where
  primitive (p : Primitive) : a.get? p.typeId = some (.primitive p)
  distinct : a.shapes.Nodup

/-- In a canonical arena a shape has one id. -/
theorem Canonical.eq_of_get? (h : a.Canonical) {x y : TypeId} (hx : a.get? x = some s)
    (hy : a.get? y = some s) : x = y := by
  obtain ⟨hlt, -⟩ := List.getElem?_eq_some_iff.1 hx
  have hxy : a.shapes[x.index]? = a.shapes[y.index]? := Eq.trans hx (Eq.symm hy)
  have hindex : x.index = y.index := (List.getElem?_inj hlt h.distinct).1 hxy
  cases x
  cases y
  exact congrArg TypeId.mk hindex

/-- A shape that is there is found again. -/
theorem Canonical.intern_eq (h : a.Canonical) (hs : a.get? id = some s) :
    TypeArena.intern s a = (id, a) := by
  rcases intern_cases a s with ⟨other, hother, heq⟩ | ⟨hnot, -⟩
  · rw [heq, h.eq_of_get? hother hs]
  · exact absurd (List.mem_of_getElem? hs) hnot

/-- Interning keeps an arena canonical. -/
theorem Canonical.intern (h : a.Canonical) (s : Shape) : (TypeArena.intern s a).2.Canonical := by
  constructor
  · intro p
    exact get?_intern_of_get? s (h.primitive p)
  · rcases intern_cases a s with ⟨id, -, heq⟩ | ⟨hnot, heq⟩ <;> rw [heq]
    · exact h.distinct
    · show (a.shapes ++ [s]).Nodup
      rw [List.nodup_append]
      refine ⟨h.distinct, by simp, ?_⟩
      intro x hx y hy hxy
      rw [List.mem_singleton.1 hy] at hxy
      exact hnot (hxy ▸ hx)

theorem Canonical.holds_primitive (h : a.Canonical) (p : Primitive) : a.Holds p.typeId :=
  holds_of_get? (h.primitive p)

theorem primitives_canonical : primitives.Canonical where
  primitive p := by cases p <;> rfl
  distinct := by decide

/-! ## Grounded arenas -/

/-- A canonical arena in which every type is made of older ones. -/
structure Grounded (a : TypeArena) : Prop extends Canonical a where
  older {id : TypeId} {s : Shape} : a.get? id = some s → ∀ part ∈ s.parts, part.index < id.index

/-- The parts of a type are there. -/
theorem Grounded.holds_part (h : a.Grounded) (hs : a.get? id = some s) {part : TypeId}
    (hp : part ∈ s.parts) : a.Holds part :=
  Nat.lt_trans (h.older hs part hp) (holds_of_get? hs)

theorem get?_append_cases {t : Shape} (h : TypeArena.get? ⟨a.shapes ++ [s]⟩ id = some t) :
    a.get? id = some t ∨ (id = ⟨a.size⟩ ∧ t = s) := by
  obtain ⟨hlt, -⟩ := List.getElem?_eq_some_iff.1 h
  by_cases hold : id.index < a.size
  · left
    rwa [show TypeArena.get? ⟨a.shapes ++ [s]⟩ id = a.get? id from
      List.getElem?_append_left hold] at h
  · right
    have hend : id.index = a.size := by
      simp only [List.length_append, List.length_singleton] at hlt
      have : a.size = a.shapes.length := rfl
      omega
    have hid : id = ⟨a.size⟩ := by
      cases id
      exact congrArg TypeId.mk hend
    refine ⟨hid, ?_⟩
    rw [hid] at h
    have hlast : TypeArena.get? ⟨a.shapes ++ [s]⟩ ⟨a.size⟩ = some s := by simp [get?, size]
    rw [hlast] at h
    exact (Option.some.inj h).symm

theorem get?_intern_cases {t : Shape} (h : (intern s a).2.get? id = some t) :
    a.get? id = some t ∨ t = s := by
  rcases intern_cases a s with ⟨_, -, heq⟩ | ⟨-, heq⟩ <;> rw [heq] at h
  · exact .inl h
  · exact (get?_append_cases h).imp_right And.right

/-- Interning keeps an arena grounded if the parts are there. -/
theorem Grounded.intern (h : a.Grounded) (hs : ∀ part ∈ s.parts, a.Holds part) :
    (TypeArena.intern s a).2.Grounded := by
  refine ⟨h.toCanonical.intern s, ?_⟩
  intro id t ht part hp
  rcases intern_cases a s with ⟨_, -, heq⟩ | ⟨-, heq⟩ <;> rw [heq] at ht
  · exact h.older ht part hp
  · rcases get?_append_cases ht with hold | ⟨rfl, rfl⟩
    · exact h.older hold part hp
    · exact hs part hp

/-- A new arena is grounded. -/
theorem primitives_grounded : primitives.Grounded := by
  refine ⟨primitives_canonical, ?_⟩
  intro id s hs part hp
  have hmem : s ∈ primitives.shapes := List.mem_of_getElem? hs
  obtain ⟨p, -, rfl⟩ := List.mem_map.1 hmem
  cases hp

end TypedLua.TypeArena
