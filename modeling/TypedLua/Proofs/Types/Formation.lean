import Mathlib.Logic.Relation
import TypedLua.Proofs.Types.Substitution

/-!
# Types.Formation

How the types of a session come about.  A type is formed from types that exist, or an instance of an
interface is made.  A function that is formed has its variadic types last, and it does not return a
lone `void`.  An arena grows by such steps only; what every step keeps is kept throughout.

Main statements: `Grows.extends` and `Grows.grounded`.
-/

namespace TypedLua

/-- The function types that can be formed: a variadic type comes last, and returning a lone `void`
is returning nothing. -/
def Shape.Formed (a : TypeArena) : Shape → Prop
  | .function xs us =>
    a.hasMisplacedVararg xs = false ∧ a.hasMisplacedVararg us = false ∧
      us ≠ [Primitive.void.typeId]
  | _ => True

namespace TypeArena

variable {a b c : TypeArena}

theorem Extends.hasMisplacedVararg_eq (h : a.Extends b) {xs : List TypeId}
    (hxs : ∀ x ∈ xs, a.Holds x) : b.hasMisplacedVararg xs = a.hasMisplacedVararg xs := by
  have hheld : ∀ x ∈ xs.dropLast, a.Holds x := fun x hx => hxs x (List.dropLast_subset xs hx)
  unfold hasMisplacedVararg
  generalize xs.dropLast = ys at hheld ⊢
  induction ys with
  | nil => rfl
  | cons y ys ih =>
    have hy : b.isVararg y = a.isVararg y := by
      unfold isVararg
      rw [h.get?_eq (hheld y List.mem_cons_self)]
    rw [List.any_cons, List.any_cons, hy, ih fun x hx => hheld x (List.mem_cons_of_mem y hx)]

/-! ## Steps -/

/-- A step by which an arena grows. -/
inductive Step (a : TypeArena) : TypeArena → Prop
  /-- A type is formed from types that exist. -/
  | form {s : Shape} : (∀ part ∈ s.parts, a.Holds part) → s.Formed a → Step a (intern s a).2
  /-- An interface gets type arguments. -/
  | apply {d : TypeId} {name : String} {gs xs : List TypeId} {ps : List Property} :
      a.get? d = some (.interface name gs ps) → gs.length = xs.length →
      (∀ x ∈ xs, a.Holds x) → Step a (instantiate d xs a).2

/-- A step extends the arena. -/
theorem Step.extends (h : Step a b) (ha : a.Grounded) : a.Extends b := by
  cases h with
  | form => exact extends_intern a _
  | apply hd hlen hxs => exact extends_instantiate ha hd hlen hxs

/-- Instantiation keeps an arena grounded. -/
theorem grounded_instantiate {d : TypeId} {name : String} {gs xs : List TypeId}
    {ps : List Property} (ha : a.Grounded) (hd : a.get? d = some (.interface name gs ps))
    (hlen : gs.length = xs.length) (hxs : ∀ x ∈ xs, a.Holds x) :
    (instantiate d xs a).2.Grounded := by
  obtain ⟨b, qs, hb, -, hab, hqs, heq⟩ := instantiate_spec (J := fun _ => True)
    (fun _ _ _ _ _ _ _ _ => .intro) ha .intro hd hlen hxs
  rw [heq]
  exact hb.intern (holds_instance_parts (fun x hx => hab.holds (hxs x hx)) hqs)

/-- So does every step. -/
theorem Step.grounded (h : Step a b) (ha : a.Grounded) : b.Grounded := by
  cases h with
  | form hparts => exact ha.intern hparts
  | apply hd hlen hxs => exact grounded_instantiate ha hd hlen hxs

/-! ## Growth -/

/-- The arena `b` comes from `a` by steps. -/
def Grows : TypeArena → TypeArena → Prop := Relation.ReflTransGen Step

theorem Grows.refl (a : TypeArena) : Grows a a := Relation.ReflTransGen.refl

theorem Grows.trans (hab : Grows a b) (hbc : Grows b c) : Grows a c :=
  Relation.ReflTransGen.trans hab hbc

theorem Step.grows (h : Step a b) : Grows a b := Relation.ReflTransGen.single h

/-- What each step keeps growing keeps. -/
theorem Grows.keeps {J : TypeArena → Prop} (hJ : ∀ b c, b.Grounded → J b → Step b c → J c)
    (h : Grows a b) (ha : a.Grounded) (hJa : J a) : b.Grounded ∧ J b := by
  induction h with
  | refl => exact ⟨ha, hJa⟩
  | tail _ hstep ih => exact ⟨hstep.grounded ih.1, hJ _ _ ih.1 ih.2 hstep⟩

theorem Grows.grounded (h : Grows a b) (ha : a.Grounded) : b.Grounded :=
  (h.keeps (J := fun _ => True) (fun _ _ _ _ _ => .intro) ha .intro).1

theorem Grows.extends (h : Grows a b) (ha : a.Grounded) : a.Extends b :=
  (h.keeps (fun _ _ hb hab hstep => hab.trans (hstep.extends hb)) ha (.refl a)).2

end TypeArena

end TypedLua
