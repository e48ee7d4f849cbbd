import Mathlib.Data.List.MinMax
import Mathlib.Order.Nat
import TypedLua.Proofs.Types.Unfolding

/-!
# Types.Nesting

How deep types are nested, and how much of it is counted while they are read.  A type inside another
leaves room for one construct less.  Two things are not counted on the way down: a function that is
the only value another function returns may be read along with that one, and array suffixes are
counted apart from what is nested inside the type before them.

Main statement: `TypeTree.Counted.depth_le`, a type is nested as deep as is counted and as many
layers more as are not counted.
-/

namespace TypedLua

variable {t : TypeTree} {n : Nat}

namespace TypeTree

/-! ## Layers -/

/-- The largest of the numbers. -/
def highest (ns : List Nat) : Nat := ns.foldr max 0

theorem highest_le {ns : List Nat} (h : ∀ x ∈ ns, x ≤ n) : highest ns ≤ n :=
  List.max_le_of_forall_le ns n h

theorem le_highest {ns : List Nat} {x : Nat} (hx : x ∈ ns) : x ≤ highest ns :=
  List.le_max_of_le hx (Nat.le_refl x)

/-- Whether the outermost layer is variadic. -/
def isVararg : TypeTree → Bool
  | node layer _ => layer.isVararg
  | _ => false

/-- Whether the outermost layer is a function. -/
def isFunction : TypeTree → Bool
  | node (.function _ _) _ => true
  | _ => false

/-- Whether the outermost layer is an array. -/
def isArray : TypeTree → Bool
  | node (.array _) _ => true
  | _ => false

/-- Whether a function returns nothing but one function. -/
def isCurried : TypeTree → Bool
  | node (.function _ [_]) parts => parts.getLast?.any isFunction
  | _ => false

/-- Whether a function has a variadic argument. -/
def isVariadic : TypeTree → Bool
  | node (.function arguments _) parts => (parts.take arguments.length).any isVararg
  | _ => false

mutual

/-- The number of layers on the longest path down to a primitive. -/
def depth : TypeTree → Nat
  | node (.primitive _) _ => 0
  | node _ parts => highest (depths parts) + 1
  | _ => 0

/-- The depths of trees. -/
def depths : List TypeTree → List Nat
  | [] => []
  | t :: ts => t.depth :: depths ts

end

@[simp] theorem depths_eq_map (ts : List TypeTree) : depths ts = ts.map depth := by
  induction ts with
  | nil => rfl
  | cons t ts ih => exact congrArg (t.depth :: ·) ih

mutual

/-- Whether there is nothing but arrays above what is nested no further. -/
def isFlat : TypeTree → Bool
  | node (.array _) parts => areFlat parts
  | node (.primitive _) _ => true
  | node _ _ => false
  | _ => true

/-- Whether trees are flat. -/
def areFlat : List TypeTree → Bool
  | [] => true
  | t :: ts => t.isFlat && areFlat ts

end

mutual

/-- The largest number of layers on a path down that are not counted: functions that return a lone
function, on the way to that function, and arrays of what is nested further. -/
def uncounted : TypeTree → Nat
  | node (.array element) parts =>
    highest (uncounteds parts) + if (node (.array element) parts).isFlat then 0 else 1
  | node (.function arguments returns) parts =>
    if (node (.function arguments returns) parts).isCurried then
      max (highest (uncounteds parts)) ((uncounteds parts).getLastD 0 + 1)
    else highest (uncounteds parts)
  | node _ parts => highest (uncounteds parts)
  | _ => 0

/-- The numbers for trees. -/
def uncounteds : List TypeTree → List Nat
  | [] => []
  | t :: ts => t.uncounted :: uncounteds ts

end

@[simp] theorem uncounteds_eq_map (ts : List TypeTree) : uncounteds ts = ts.map uncounted := by
  induction ts with
  | nil => rfl
  | cons t ts ih => exact congrArg (t.uncounted :: ·) ih

theorem highest_uncounted_le (layer : Shape) (parts : List TypeTree) :
    highest (parts.map uncounted) ≤ (node layer parts).uncounted := by
  cases layer with
  | array element =>
    rw [uncounted, uncounteds_eq_map]
    exact Nat.le_add_right _ _
  | function arguments returns =>
    rw [uncounted, uncounteds_eq_map]
    split
    · exact Nat.le_max_left _ _
    · exact Nat.le_refl _
  | _ => exact Nat.le_of_eq (congrArg highest (uncounteds_eq_map parts).symm)

/-! ## What is counted -/

/-- A tree below a number of arrays. -/
def arrays : Nat → TypeTree → TypeTree
  | 0, base => base
  | k + 1, base => node (.array default) [base.arrays k]

/-- With room for `n` constructs the tree is not nested too deep. -/
inductive Counted : Nat → TypeTree → Prop
  | primitive {n : Nat} (p : Primitive) : Counted n (node (.primitive p) [])
  | layer {n : Nat} {layer : Shape} {parts : List TypeTree} :
    (∀ t ∈ parts, Counted n t) → Counted (n + 1) (node layer parts)
  /-- A function that returns a function, which needs no further room. -/
  | curried {n : Nat} {arguments : List TypeId} {id : TypeId} {parts : List TypeTree}
      {returned : TypeTree} : (∀ t ∈ parts, Counted n t) → Counted (n + 1) returned →
    returned.isFunction = true →
    Counted (n + 1) (node (.function arguments [id]) (parts ++ [returned]))
  /-- Arrays, which need no room beside what they are arrays of. -/
  | arrays {n k : Nat} {base : TypeTree} : base.isArray = false → k ≤ n → Counted (n + 1) base →
    Counted (n + 1) (base.arrays k)

namespace Counted

theorem succ (h : Counted n t) : Counted (n + 1) t := by
  induction h with
  | primitive p => exact .primitive p
  | layer _ ih => exact .layer ih
  | curried _ _ hfunction ih ihreturned => exact .curried ih ihreturned hfunction
  | arrays hbase hk _ ih => exact .arrays hbase (Nat.le_succ_of_le hk) ih

theorem mono {m : Nat} (h : Counted n t) (hnm : n ≤ m) : Counted m t := by
  induction hnm with
  | refl => exact h
  | step _ ih => exact ih.succ

end Counted

theorem depth_arrays (k : Nat) (base : TypeTree) : (base.arrays k).depth = base.depth + k := by
  induction k with
  | zero => rfl
  | succ k ih =>
    show max (base.arrays k).depth 0 + 1 = _
    rw [ih]
    omega

theorem isFlat_arrays (k : Nat) (base : TypeTree) : (base.arrays k).isFlat = base.isFlat := by
  induction k with
  | zero => rfl
  | succ k ih =>
    show ((base.arrays k).isFlat && true) = _
    rw [ih, Bool.and_true]

theorem uncounted_arrays (k : Nat) {base : TypeTree} (h : base.isFlat = false) :
    (base.arrays k).uncounted = base.uncounted + k := by
  induction k with
  | zero => rfl
  | succ k ih =>
    have hflat : (base.arrays (k + 1)).isFlat = false := by rw [isFlat_arrays, h]
    show max (base.arrays k).uncounted 0 + (if (base.arrays (k + 1)).isFlat then 0 else 1) = _
    rw [hflat, ih]
    simp only [Bool.false_eq_true, if_false]
    omega

theorem depth_eq_zero (hflat : t.isFlat = true) (harray : t.isArray = false) : t.depth = 0 := by
  cases t with
  | node layer parts =>
    cases layer with
    | primitive p => rfl
    | array element => cases harray
    | _ => cases hflat
  | _ => rfl

/-- A type is no deeper than what is counted and what is not. -/
theorem Counted.depth_le (h : Counted n t) : t.depth ≤ n + t.uncounted := by
  have hparts : ∀ {n : Nat} {parts : List TypeTree}, (∀ t ∈ parts, t.depth ≤ n + t.uncounted) →
      highest (parts.map depth) ≤ n + highest (parts.map uncounted) := by
    intro n parts ih
    refine highest_le fun x hx => ?_
    obtain ⟨t, ht, rfl⟩ := List.mem_map.1 hx
    have hdepth := ih t ht
    have hle := le_highest (List.mem_map_of_mem (f := uncounted) ht)
    omega
  induction h with
  | primitive p => exact Nat.zero_le _
  | @layer n layer parts _ ih =>
    have hsum := hparts ih
    have hle := highest_uncounted_le layer parts
    have hdepth : (node layer parts).depth ≤ highest (parts.map depth) + 1 := by
      cases layer with
      | primitive p => exact Nat.zero_le _
      | _ => exact Nat.le_of_eq (congrArg (highest · + 1) (depths_eq_map parts))
    omega
  | @curried n arguments id parts returned _ _ hfunction ih ihreturned =>
    have hcurried : (node (.function arguments [id]) (parts ++ [returned])).isCurried = true := by
      show (parts ++ [returned]).getLast?.any isFunction = true
      rw [List.getLast?_concat]
      exact hfunction
    have hlast : (((parts ++ [returned]).map uncounted).getLastD 0) = returned.uncounted := by
      rw [List.map_append, List.getLastD_eq_getLast?]
      exact congrArg (Option.getD · 0) List.getLast?_concat
    rw [uncounted, if_pos hcurried, uncounteds_eq_map, hlast]
    show highest (depths (parts ++ [returned])) + 1 ≤ _
    have hdepth : highest ((parts ++ [returned]).map depth) ≤
        n + max (highest ((parts ++ [returned]).map uncounted)) (returned.uncounted + 1) := by
      refine highest_le fun x hx => ?_
      obtain ⟨t, ht, rfl⟩ := List.mem_map.1 hx
      have hle := le_highest (List.mem_map_of_mem (f := uncounted) ht)
      rcases List.mem_append.1 ht with ht | ht
      · have hpart := ih t ht
        omega
      · rw [List.mem_singleton.1 ht]
        omega
    rw [depths_eq_map]
    omega
  | @arrays n k base harray hk _ ih =>
    rw [depth_arrays]
    by_cases hflat : base.isFlat = true
    · have hzero := depth_eq_zero hflat harray
      omega
    · rw [uncounted_arrays k (Bool.eq_false_iff.2 hflat)]
      omega

end TypeTree

/-! ## Types of an arena -/

namespace TypeArena

variable {a b : TypeArena}

theorem Grounded.isVararg_unfold (ha : a.Grounded) {x : TypeId} (hx : a.Holds x) :
    (a.unfold x).isVararg = a.isVararg x := by
  obtain ⟨s, hs⟩ := hx.get?
  unfold isVararg
  rw [ha.unfold_eq hs, hs]
  cases s <;> rfl

/-- A new id stands for the layer over the trees of its parts. -/
theorem Grounded.unfold_intern (ha : a.Grounded) {shape : Shape} {id : TypeId}
    (hparts : ∀ x ∈ shape.parts, a.Holds x) (h : TypeArena.intern shape a = (id, b)) :
    b.unfold id = .ofShape a.unfold shape := by
  have hb : b.Grounded := by
    have hall := ha.intern hparts
    rwa [h] at hall
  rw [hb.unfold_eq (get?_of_intern h)]
  refine Shape.Rel.ofShape_eq (Shape.Rel.refl (r := fun u v => u = v ∧ u ∈ shape.parts)
    fun part hp => ⟨rfl, hp⟩) ?_
  rintro u v ⟨rfl, hu⟩
  exact ha.unfold_extends (extends_of_intern h) (hparts u hu)

end TypeArena

end TypedLua
