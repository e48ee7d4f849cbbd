import TypedLua.Proofs.Types.Grounded
import TypedLua.Proofs.Types.Related

/-!
# Types.Embedding

Types of two arenas that look alike.  A relation of ids embeds one arena into another if related ids
denote shapes that agree but for their parts, and the parts are related again.  Whatever is computed
from a type layer by layer is then the same on both sides: how it is displayed, and whether it takes
another type.

In a grounded arena the number of layers is bounded by the id, so that these results do not depend
on how many layers are allowed for.
-/

namespace TypedLua

variable {x y : TypeId}

namespace TypeArena

/-! ## Embeddings -/

/-- Related ids denote related shapes. -/
def Embeds (r : TypeId → TypeId → Prop) (a b : TypeArena) : Prop :=
  ∀ x y, r x y → ∃ s t, a.get? x = some s ∧ b.get? y = some t ∧ Shape.Rel r s t

variable {r : TypeId → TypeId → Prop} {a b : TypeArena}

theorem Embeds.holds (h : Embeds r a b) (hxy : r x y) : a.Holds x ∧ b.Holds y := by
  obtain ⟨s, t, hs, ht, -⟩ := h x y hxy
  exact ⟨holds_of_get? hs, holds_of_get? ht⟩

/-- Related ids have related layers, whose parts are older. -/
theorem Embeds.layer (h : Embeds r a b) (ha : a.Grounded) (hxy : r x y) :
    ∃ s t, a.get? x = some s ∧ b.get? y = some t ∧
      Shape.Rel (fun u v => r u v ∧ u.index < x.index) s t := by
  obtain ⟨s, t, hs, ht, hst⟩ := h x y hxy
  exact ⟨s, t, hs, ht, hst.and_left (ha.older hs)⟩

/-- Related ids are displayed the same. -/
theorem Embeds.displayWithin_eq (h : Embeds r a b) (ha : a.Grounded) :
    ∀ (n m : Nat) (x y : TypeId), r x y → x.index < n → x.index < m →
      a.displayWithin n x = b.displayWithin m y := by
  intro n
  induction n with
  | zero => intro m x y _ hn; omega
  | succ n ih =>
    intro m x y hxy hn hm
    obtain ⟨m, rfl⟩ : ∃ k, m = k + 1 := ⟨m - 1, by omega⟩
    obtain ⟨s, t, hs, ht, hst⟩ := h.layer ha hxy
    rw [displayWithin, displayWithin, hs, ht]
    refine hst.displayShape_eq ?_
    rintro u v ⟨huv, hlt⟩
    exact ih m u v huv (by omega) (by omega)

/-- They compare the same. -/
theorem Embeds.compatibleWithin_eq (h : Embeds r a b) (ha : a.Grounded)
    (hr : Relator.BiUnique r) :
    ∀ (n m : Nat) (x x' y y' : TypeId), r x x' → r y y' → x.index < n → x.index < m →
      a.compatibleWithin n x y = b.compatibleWithin m x' y' := by
  intro n
  induction n with
  | zero => intro m x x' y y' _ _ hn; omega
  | succ n ih =>
    intro m x x' y y' hx hy hn hm
    obtain ⟨m, rfl⟩ : ∃ k, m = k + 1 := ⟨m - 1, by omega⟩
    obtain ⟨s, s', hs, hs', hss⟩ := h.layer ha hx
    obtain ⟨t, t', ht, ht', htt⟩ := h y y' hy
    have heq : (x == y) = (x' == y') := by
      rw [Bool.eq_iff_iff, beq_iff_eq, beq_iff_eq]
      constructor
      · rintro rfl
        exact hr.2 hx hy
      · rintro rfl
        exact hr.1 hx hy
    have htakes : s.takes (a.compatibleWithin n) t = s'.takes (b.compatibleWithin m) t' := by
      refine hss.takes_eq htt ?_
      rintro u u' v v' ⟨huu, hlt⟩ hvv
      exact ih m u u' v v' huu hvv (by omega) (by omega)
    rw [compatibleWithin, compatibleWithin, hs, hs', ht, ht', heq]
    show (x' == y' || s.takes _ t) = (x' == y' || s'.takes _ t')
    rw [htakes]

/-! ## Arenas that look alike -/

/-- The first arena, which is grounded, is embedded into the second one, which is no smaller; no two
types become one, and primitives stay what they are. -/
structure Alike (r : TypeId → TypeId → Prop) (a b : TypeArena) : Prop where
  grounded : a.Grounded
  size_le : a.size ≤ b.size
  biUnique : Relator.BiUnique r
  primitive (p : Primitive) : r p.typeId p.typeId
  embeds : Embeds r a b

namespace Alike

theorem display_eq (h : Alike r a b) (hxy : r x y) : a.display x = b.display y := by
  have hx : x.index < a.size := (h.embeds.holds hxy).1
  have hsize := h.size_le
  exact h.embeds.displayWithin_eq h.grounded _ _ x y hxy (by omega) (by omega)

theorem compatible_eq (h : Alike r a b) {x' y' : TypeId} (hx : r x x') (hy : r y y') :
    a.compatible x y = b.compatible x' y' := by
  have hlt : x.index < a.size := (h.embeds.holds hx).1
  have hsize := h.size_le
  have hleft : a.size ≤ a.size * a.size := Nat.le_mul_self _
  have hright : b.size ≤ b.size * b.size := Nat.le_mul_self _
  exact h.embeds.compatibleWithin_eq h.grounded h.biUnique _ _ x x' y y' hx hy (by omega) (by omega)

end Alike

/-- Types that are related look the same, however they are looked at. -/
structure Seen (r : TypeId → TypeId → Prop) (a b : TypeArena) : Prop where
  biUnique : Relator.BiUnique r
  primitive (p : Primitive) : r p.typeId p.typeId
  shapes {x y : TypeId} : r x y → Option.Rel (Shape.Rel r) (a.get? x) (b.get? y)
  display_eq {x y : TypeId} : r x y → a.display x = b.display y
  compatible_eq {x x' y y' : TypeId} : r x x' → r y y' → a.compatible x y = b.compatible x' y'

namespace Seen

theorem eq_primitive_iff (h : Seen r a b) (hxy : r x y) (p : Primitive) :
    x = p.typeId ↔ y = p.typeId := by
  constructor
  · rintro rfl
    exact h.biUnique.2 hxy (h.primitive p)
  · rintro rfl
    exact h.biUnique.1 hxy (h.primitive p)

theorem isAny_eq (h : Seen r a b) (hxy : r x y) : x.isAny = y.isAny := by
  rw [Bool.eq_iff_iff]
  show (x == Primitive.any.typeId) = true ↔ (y == Primitive.any.typeId) = true
  rw [beq_iff_eq, beq_iff_eq]
  exact h.eq_primitive_iff hxy .any

theorem refl (a : TypeArena) : Seen Eq a a where
  biUnique := ⟨fun _ _ _ hx hy => hx.trans hy.symm, fun _ _ _ hx hy => hx.symm.trans hy⟩
  primitive _ := rfl
  shapes {x y} hxy := by
    subst hxy
    cases a.get? x with
    | none => exact .none
    | some s => exact .some (Shape.Rel.refl fun _ _ => rfl)
  display_eq hxy := by rw [hxy]
  compatible_eq hx hy := by rw [hx, hy]

end Seen

theorem Alike.seen (h : Alike r a b) : Seen r a b where
  biUnique := h.biUnique
  primitive := h.primitive
  shapes hxy := by
    obtain ⟨s, t, hs, ht, hst⟩ := h.embeds _ _ hxy
    rw [hs, ht]
    exact .some hst
  display_eq hxy := h.display_eq hxy
  compatible_eq hx hy := h.compatible_eq hx hy

/-! ## Growth -/

/-- Being one and the same type of an arena. -/
def Same (a : TypeArena) (x y : TypeId) : Prop := x = y ∧ a.Holds x

/-- An arena is like every arena that extends it. -/
theorem Grounded.alike (ha : a.Grounded) (h : a.Extends b) : Alike a.Same a b where
  grounded := ha
  size_le := h.size_le
  biUnique := ⟨fun _ _ _ hx hy => hx.1.trans hy.1.symm, fun _ _ _ hx hy => hx.1.symm.trans hy.1⟩
  primitive p := ⟨rfl, ha.holds_primitive p⟩
  embeds := by
    rintro x _ ⟨rfl, hx⟩
    obtain ⟨s, hs⟩ := hx.get?
    refine ⟨s, s, hs, h.get? hs, Shape.Rel.refl ?_⟩
    intro part hp
    exact ⟨rfl, ha.holds_part hs hp⟩

/-- Growing an arena does not change how its types compare. -/
theorem Grounded.compatible_eq (ha : a.Grounded) (h : a.Extends b) (hx : a.Holds x)
    (hy : a.Holds y) : b.compatible x y = a.compatible x y :=
  ((ha.alike h).compatible_eq ⟨rfl, hx⟩ ⟨rfl, hy⟩).symm

end TypeArena

end TypedLua
