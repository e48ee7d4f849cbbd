import TypedLua.Proofs.Types.Instances
import TypedLua.Proofs.Types.Interning

/-!
# Types.Hygiene

Types that differ in the names of parameters.  Two arenas grow side by side, and a type of the one
corresponds to a type of the other if both have one outline and, with parameters renamed, one
structure.  Types that are formed from corresponding parts correspond.  So do instances of
corresponding interfaces for corresponding arguments, unless the renaming takes a parameter of the
interface and another parameter in its properties to one name: giving an argument then replaces both
on the one side, and only the first on the other.

Main statements: `Sides.intern` and `Sides.instantiate`.
-/

namespace TypedLua

/-! ## Renaming parameters of trees -/

variable {name : String} {s t : Shape} {ps qs : List Property}

namespace TypeTree

variable {β : String → String} {σ τ : String → Option TypeTree}

/-- Rename parameters. -/
def relabel (β : String → String) (t : TypeTree) : TypeTree :=
  t.replace fun name => some (.parameter (β name))

theorem relabel_node (layer : Shape) (parts : List TypeTree) :
    (node layer parts).relabel β = node layer (parts.map (relabel β)) :=
  replace_node _ layer parts

theorem eq_parameter_of_relabel {t : TypeTree} (h : t.relabel β = parameter name) :
    ∃ other, t = parameter other := by
  cases t with
  | parameter other => exact ⟨other, rfl⟩
  | node layer parts =>
    rw [relabel_node] at h
    cases h
  | absent => cases h

theorem relabel_ofShape (f : TypeId → TypeTree) (hs : ∀ name, s ≠ .generic name) :
    (ofShape f s).relabel β = ofShape (fun x => (f x).relabel β) s := by
  have hnode : (node s.blank (s.parts.map f)).relabel β =
      node s.blank (s.parts.map fun x => (f x).relabel β) := by
    rw [relabel_node, List.map_map]
    rfl
  cases s with
  | generic name => exact absurd rfl (hs name)
  | _ => exact hnode

/-- Replacing after relabelling is relabelling after replacing. -/
theorem relabel_replace (t : TypeTree)
    (h : ∀ name ∈ t.parameters, σ (β name) = (τ name).map (relabel β)) :
    (t.relabel β).replace σ = (t.replace τ).relabel β := by
  unfold relabel
  rw [replace_replace, replace_replace]
  apply replace_congr
  intro name hname
  have hone := h name hname
  cases hτ : τ name with
  | none =>
    rw [hτ] at hone
    simp [replace, hone]
  | some u =>
    rw [hτ] at hone
    simp [replace, hone, relabel]

theorem replace_fixed (t : TypeTree) (h : ∀ name u, σ name = some u → u = parameter name) :
    t.replace σ = t := by
  have hself : ∀ u : TypeTree, u.replace (fun name => some (parameter name)) = u :=
    fun u => u.replace_self fun _ _ => rfl
  rw [← hself (t.replace σ), replace_replace]
  apply replace_self
  intro name _
  cases hσ : σ name with
  | none => rfl
  | some u =>
    rw [h name u hσ]
    rfl

end TypeTree

/-! ## Parameters that renaming keeps apart -/

/-- What a type is, without its parts and without the names of parameters. -/
def Shape.outline : Shape → Shape
  | .generic _ => .generic ""
  | s => s.blank

/-- Renaming takes no parameter of the interface and other parameter in its properties to one
name. -/
def Shape.Separated (a : TypeArena) (β : String → String) : Shape → Prop
  | .interface _ gs ps => ∀ n ∈ a.parameterNames gs, ∀ p ∈ ps,
    ∀ m ∈ (a.unfold p.type).parameters, β m = β n → m = n
  | _ => True

instance (a : TypeArena) (β : String → String) : DecidablePred (Shape.Separated a β)
  | .interface _ gs ps => inferInstanceAs (Decidable (∀ n ∈ a.parameterNames gs, ∀ p ∈ ps,
      ∀ m ∈ (a.unfold p.type).parameters, β m = β n → m = n))
  | .primitive _ | .generic _ | .array _ | .vararg _ | .function .. | .table _ => .isTrue trivial

/-- Both are interfaces of one name, with different arguments. -/
def Shape.otherInstance : Shape → Shape → Bool
  | .interface name gs _, .interface name' gs' _ => name == name' && gs != gs'
  | _, _ => false

namespace TypeArena

variable {a b : TypeArena} {β : String → String}

/-- Renaming keeps the parameters of every interface that has instances apart from others in its
properties. -/
def Separates (a : TypeArena) (β : String → String) : Prop :=
  ∀ s ∈ a.shapes, (∃ t ∈ a.shapes, s.otherInstance t) → s.Separated a β

instance (a : TypeArena) (β : String → String) : Decidable (a.Separates β) :=
  inferInstanceAs (Decidable (∀ s ∈ a.shapes, (∃ t ∈ a.shapes, s.otherInstance t) →
    s.Separated a β))

theorem Grounded.get?_eq_generic_iff (ha : a.Grounded) {x : TypeId} (hx : a.Holds x) :
    a.get? x = some (.generic name) ↔ a.unfold x = .parameter name := by
  obtain ⟨s, hs⟩ := hx.get?
  rw [ha.unfold_eq hs, hs]
  cases s <;> simp [TypeTree.ofShape]

theorem Grounded.separated (ha : a.Grounded) (hab : a.Extends b) {x : TypeId}
    (hx : a.get? x = some s) (h : s.Separated b β) : s.Separated a β := by
  cases s with
  | interface name gs ps =>
    intro n hn p hp m hm
    have hnames : b.parameterNames gs = a.parameterNames gs := by
      apply List.filterMap_congr
      intro g hg
      rw [hab.get?_eq (ha.holds_part hx (List.mem_append_left _ hg))]
    have hheld : a.Holds p.type :=
      ha.holds_part hx (List.mem_append_right gs (List.mem_map_of_mem hp))
    refine h n (by rwa [hnames]) p hp m ?_
    rwa [ha.unfold_extends hab hheld]
  | _ => trivial

/-- An arena separates names if one does that extends it. -/
theorem Separates.of_extends (h : b.Separates β) (ha : a.Grounded) (hab : a.Extends b) :
    a.Separates β := by
  intro s hs hother
  obtain ⟨t, ht, hst⟩ := hother
  obtain ⟨i, hi, hget⟩ := List.getElem_of_mem hs
  have hid : a.get? ⟨i⟩ = some s := by
    rw [get?, List.getElem?_eq_getElem hi, hget]
  exact ha.separated hab hid (h s (hab.subset hs) ⟨t, hab.subset ht, hst⟩)

theorem Grounded.ofShape_extends (ha : a.Grounded) (hab : a.Extends b)
    (hs : ∀ part ∈ s.parts, a.Holds part) :
    TypeTree.ofShape b.unfold s = TypeTree.ofShape a.unfold s := by
  have hrefl : Shape.Rel (fun x y => x = y ∧ a.Holds x) s s :=
    Shape.Rel.refl fun part hp => ⟨rfl, hs part hp⟩
  apply hrefl.ofShape_eq
  rintro x y ⟨rfl, hx⟩
  exact ha.unfold_extends hab hx

end TypeArena

/-! ## Two arenas -/

/-- Two arenas that grow side by side. -/
structure Sides where
  left : TypeArena
  right : TypeArena
  leftGrounded : left.Grounded
  rightGrounded : right.Grounded

instance : Preorder Sides where
  le w v := w.left.Extends v.left ∧ w.right.Extends v.right
  le_refl w := ⟨.refl _, .refl _⟩
  le_trans _ _ _ h h' := ⟨h.1.trans h'.1, h.2.trans h'.2⟩

namespace Sides

variable {β : String → String} {w v : Sides} {x y : TypeId}

/-- Two types have one outline and, unless renaming mixes up parameters, one structure up to the
renaming. -/
structure Corresponds (β : String → String) (w : Sides) (x y : TypeId) : Prop where
  /-- Both are there, and look alike from outside. -/
  outline : ∃ s t, w.left.get? x = some s ∧ w.right.get? y = some t ∧ s.outline = t.outline
  /-- The structure is the same but for the names of parameters. -/
  tree : w.right.Separates β → w.left.unfold x = (w.right.unfold y).relabel β

namespace Corresponds

theorem holds_left (h : w.Corresponds β x y) : w.left.Holds x := by
  obtain ⟨s, t, hs, -, -⟩ := h.outline
  exact TypeArena.holds_of_get? hs

theorem holds_right (h : w.Corresponds β x y) : w.right.Holds y := by
  obtain ⟨s, t, -, ht, -⟩ := h.outline
  exact TypeArena.holds_of_get? ht

theorem mono (h : w.Corresponds β x y) (hwv : w ≤ v) : v.Corresponds β x y := by
  obtain ⟨s, t, hs, ht, hst⟩ := h.outline
  refine ⟨⟨s, t, hwv.1.get? hs, hwv.2.get? ht, hst⟩, ?_⟩
  intro hsep
  rw [w.leftGrounded.unfold_extends hwv.1 h.holds_left,
    w.rightGrounded.unfold_extends hwv.2 h.holds_right]
  exact h.tree (hsep.of_extends w.rightGrounded hwv.2)

end Corresponds

/-- The types that correspond. -/
def types (β : String → String) : Link Sides TypeId TypeId where
  rel w := w.Corresponds β
  mono hwv _ _ h := h.mono hwv

theorem Corresponds.primitive (w : Sides) (p : Primitive) :
    w.Corresponds β p.typeId p.typeId := by
  have hleft := w.leftGrounded.primitive p
  have hright := w.rightGrounded.primitive p
  refine ⟨⟨_, _, hleft, hright, rfl⟩, fun _ => ?_⟩
  rw [w.leftGrounded.unfold_eq hleft, w.rightGrounded.unfold_eq hright]
  rfl

theorem Corresponds.eq_primitive_iff (h : w.Corresponds β x y) (p : Primitive) :
    x = p.typeId ↔ y = p.typeId := by
  obtain ⟨s, t, hs, ht, hst⟩ := h.outline
  have hprimitive : s = .primitive p ↔ t = .primitive p := by
    cases s <;> cases t <;> simp_all [Shape.outline, Shape.blank]
  constructor
  · rintro rfl
    rw [w.leftGrounded.primitive p, Option.some.injEq] at hs
    rw [hprimitive.1 hs.symm] at ht
    exact w.rightGrounded.eq_of_get? ht (w.rightGrounded.primitive p)
  · rintro rfl
    rw [w.rightGrounded.primitive p, Option.some.injEq] at ht
    rw [hprimitive.2 ht.symm] at hs
    exact w.leftGrounded.eq_of_get? hs (w.leftGrounded.primitive p)

theorem Corresponds.isVararg_eq (h : w.Corresponds β x y) :
    w.left.isVararg x = w.right.isVararg y := by
  obtain ⟨s, t, hs, ht, hst⟩ := h.outline
  unfold TypeArena.isVararg
  rw [hs, ht]
  cases s <;> cases t <;> simp_all [Shape.outline, Shape.blank, Shape.isVararg]

theorem hasMisplacedVararg_eq {xs ys : List TypeId} (h : List.Forall₂ (w.Corresponds β) xs ys) :
    w.left.hasMisplacedVararg xs = w.right.hasMisplacedVararg ys := by
  unfold TypeArena.hasMisplacedVararg
  induction h with
  | nil => rfl
  | cons hxy hrest ih =>
    cases hrest with
    | nil => rfl
    | cons _ _ =>
      rw [List.dropLast_cons_cons, List.dropLast_cons_cons, List.any_cons, List.any_cons, ih,
        hxy.isVararg_eq]

/-! ## Types that are formed -/

/-- The layers of corresponding types: their parts exist, and they look alike. -/
structure Layers (β : String → String) (w : Sides) (s t : Shape) : Prop where
  left : ∀ part ∈ s.parts, w.left.Holds part
  right : ∀ part ∈ t.parts, w.right.Holds part
  outline : s.outline = t.outline
  /-- They give one tree, up to the renaming, unless the other type makes it mix up parameters. -/
  tree : (TypeArena.intern t w.right).2.Separates β →
    TypeTree.ofShape w.left.unfold s = (TypeTree.ofShape w.right.unfold t).relabel β

/-- Corresponding layers are interned as corresponding ids. -/
theorem intern (h : w.Layers β s t) :
    ∃ v, w ≤ v ∧ v.left = (TypeArena.intern s w.left).2 ∧
      v.right = (TypeArena.intern t w.right).2 ∧
      v.Corresponds β (TypeArena.intern s w.left).1 (TypeArena.intern t w.right).1 := by
  have hleft := TypeArena.extends_intern w.left s
  have hright := TypeArena.extends_intern w.right t
  have ha := w.leftGrounded.intern h.left
  have hb := w.rightGrounded.intern h.right
  refine ⟨⟨_, _, ha, hb⟩, ⟨hleft, hright⟩, rfl, rfl, ?_, ?_⟩
  · exact ⟨s, t, TypeArena.get?_intern _ s, TypeArena.get?_intern _ t, h.outline⟩
  · intro hsep
    show (TypeArena.intern s w.left).2.unfold _ = _
    rw [ha.unfold_eq (TypeArena.get?_intern _ s), hb.unfold_eq (TypeArena.get?_intern _ t),
      w.leftGrounded.ofShape_extends hleft h.left, w.rightGrounded.ofShape_extends hright h.right]
    exact h.tree hsep

theorem Layers.of_rel (h : Shape.Rel (w.Corresponds β) s t) (hs : ∀ name, s ≠ .generic name) :
    w.Layers β s t := by
  have hparts : List.Forall₂ (w.Corresponds β) s.parts t.parts := h.parts
  have ht : ∀ name, t ≠ .generic name := by
    rintro name rfl
    cases h
    exact hs name rfl
  refine ⟨forall_left hparts fun x y hxy => hxy.holds_left,
    forall_right hparts fun x y hxy => hxy.holds_right, ?_, fun hsep => ?_⟩
  · have hblank := h.blank_eq
    cases h with
    | generic name => rfl
    | _ => exact hblank
  · rw [TypeTree.relabel_ofShape _ ht]
    have hsep' := hsep.of_extends w.rightGrounded (TypeArena.extends_intern w.right t)
    exact h.ofShape_eq fun x y hxy => hxy.tree hsep'

theorem Layers.generic (w : Sides) (other : String) (h : β other = name) :
    w.Layers β (.generic name) (.generic other) := by
  refine ⟨nofun, nofun, rfl, fun _ => ?_⟩
  rw [← h]
  rfl

/-! ## Instances -/

section

variable {a b : TypeArena} {gs hs xs ys : List TypeId}

theorem lookup_relabelled {A B : List (String × TypeId)} {m : String}
    (h : List.Forall₂ (fun e e' => e.1 = β e'.1 ∧ a.unfold e.2 = (b.unfold e'.2).relabel β ∧
      (β m = β e'.1 → m = e'.1)) A B) :
    (A.lookup (β m)).map a.unfold = ((B.lookup m).map b.unfold).map (TypeTree.relabel β) := by
  induction h with
  | nil => rfl
  | @cons e e' A B he _ ih =>
    obtain ⟨hname, htree, hapart⟩ := he
    rw [List.lookup_cons, List.lookup_cons]
    by_cases hm : m = e'.1
    · have hkey : (β m == e.1) = true := by simp [hname, hm]
      have hother : (m == e'.1) = true := by simp [hm]
      simp [hkey, hother, htree]
    · have hkey : (β m == e.1) = false := by
        rw [beq_eq_false_iff_ne, hname]
        exact fun heq => hm (hapart heq)
      have hother : (m == e'.1) = false := beq_false_of_ne hm
      simp [hkey, hother, ih]

/-- Corresponding arguments are given to corresponding parameters. -/
theorem argumentTrees_relabelled (ha : a.Grounded) (hb : b.Grounded) (hg : ∀ g ∈ gs, a.Holds g)
    (hh : ∀ h ∈ hs, b.Holds h)
    (hgs : List.Forall₂ (fun g h => a.unfold g = (b.unfold h).relabel β) gs hs)
    (hxs : List.Forall₂ (fun x y => a.unfold x = (b.unfold y).relabel β) xs ys) {m : String}
    (hm : ∀ n ∈ b.parameterNames hs, β m = β n → m = n) :
    a.argumentTrees gs xs (β m) = (b.argumentTrees hs ys m).map (TypeTree.relabel β) := by
  apply lookup_relabelled
  rw [TypeArena.replacement, TypeArena.replacement, List.forall₂_reverse_iff]
  induction hgs generalizing xs ys with
  | nil => exact .nil
  | @cons g h gs hs htree _ ih =>
    cases hxs with
    | nil => exact .nil
    | @cons x y xs ys hxy hxs =>
      have hg' := hg g List.mem_cons_self
      have hh' := hh h List.mem_cons_self
      have hrest := ih (fun g' hmem => hg g' (List.mem_cons_of_mem g hmem))
        (fun h' hmem => hh h' (List.mem_cons_of_mem h hmem)) hxs fun n hn => hm n (by
          unfold TypeArena.parameterNames at hn ⊢
          rw [List.filterMap_cons]
          split <;> simp_all)
      rw [List.zip_cons_cons, List.zip_cons_cons]
      by_cases hgeneric : ∃ n, b.get? h = some (.generic n)
      · -- both are parameters, and the one is called as the other, renamed
        obtain ⟨n, hn⟩ := hgeneric
        have hname : a.get? g = some (.generic (β n)) := by
          rw [ha.get?_eq_generic_iff hg', htree, (hb.get?_eq_generic_iff hh').1 hn]
          rfl
        rw [List.filterMap_cons_some (by simp only [hname]; rfl),
          List.filterMap_cons_some (by simp only [hn]; rfl)]
        refine .cons ⟨rfl, hxy, hm n ?_⟩ hrest
        simp [TypeArena.parameterNames, hn]
      · -- neither is a parameter
        have hright : ∀ n, b.get? h ≠ some (.generic n) := fun n hn => hgeneric ⟨n, hn⟩
        have hleft : ∀ n, a.get? g ≠ some (.generic n) := by
          intro n hn
          rw [ha.get?_eq_generic_iff hg', htree] at hn
          obtain ⟨k, hk⟩ := TypeTree.eq_parameter_of_relabel hn
          exact hright k ((hb.get?_eq_generic_iff hh').2 hk)
        rw [List.filterMap_cons_none, List.filterMap_cons_none]
        · exact hrest
        · dsimp only
          split
          · next name hname => exact absurd hname (hright name)
          · rfl
        · dsimp only
          split
          · next name hname => exact absurd hname (hleft name)
          · rfl

theorem argumentTrees_fixed (ha : a.Grounded) (hg : ∀ g ∈ gs, a.Holds g)
    (hxs : xs.map a.unfold = gs.map a.unfold) {t : TypeTree}
    (h : a.argumentTrees gs xs name = some t) : t = .parameter name := by
  obtain ⟨x, hx, rfl⟩ := Option.map_eq_some_iff.1 h
  obtain ⟨g, hzip, hname⟩ := TypeArena.mem_zip_of_replacement_lookup hx
  have htree : a.unfold x = a.unfold g := by
    rw [← List.forall₂_eq_eq_eq, List.forall₂_map_left_iff, List.forall₂_map_right_iff] at hxs
    exact (List.forall₂_iff_zip.1 hxs.flip).2 hzip
  rw [htree, ← ha.get?_eq_generic_iff (hg g (List.of_mem_zip hzip).1), hname]

end

theorem map_blank_eq {r : TypeId → TypeId → Prop} (h : List.Forall₂ (Property.Rel r) ps qs) :
    ps.map (fun p => ({ p with type := default } : Property)) =
      qs.map fun p => { p with type := default } := by
  apply map_eq_map_of_forall₂ h
  intro p q hpq
  rw [hpq.name, hpq.optional]

theorem outline_interface {gs : List TypeId}
    (h : (Shape.interface name gs ps).outline = t.outline) :
    ∃ hs qs, t = .interface name hs qs ∧ gs.length = hs.length ∧
      ps.map (fun p => ({ p with type := default } : Property)) =
        qs.map fun p => { p with type := default } := by
  cases t with
  | interface other hs qs =>
    simp only [Shape.outline, Shape.blank, Shape.interface.injEq] at h
    obtain ⟨rfl, hgenerics, hproperties⟩ := h
    have hlen := congrArg List.length hgenerics
    simp only [List.length_map] at hlen
    exact ⟨hs, qs, rfl, hlen, hproperties⟩
  | _ => cases h

theorem forall₂_properties {f g : TypeId → TypeTree} :
    ∀ {ps qs : List Property}, ps.map (fun p => ({ p with type := default } : Property)) =
        qs.map (fun p => { p with type := default }) →
      ps.map (fun p => f p.type) = qs.map (fun q => g q.type) →
      List.Forall₂ (Property.Rel fun x y => f x = g y) ps qs
  | [], [], _, _ => .nil
  | p :: ps, q :: qs, hblank, htypes => by
    simp only [List.map_cons, List.cons.injEq, Property.mk.injEq] at hblank htypes
    exact .cons ⟨hblank.1.1, htypes.1, hblank.1.2.2⟩ (forall₂_properties hblank.2 htypes.2)

theorem interface_trees {f g : TypeId → TypeTree} {gs hs : List TypeId}
    (hlen : gs.length = hs.length)
    (hblank : ps.map (fun p => ({ p with type := default } : Property)) =
      qs.map fun p => { p with type := default })
    (h : TypeTree.ofShape f (.interface name gs ps) =
      (TypeTree.ofShape g (.interface name hs qs)).relabel β) :
    List.Forall₂ (fun x y => f x = (g y).relabel β) gs hs ∧
      List.Forall₂ (Property.Rel fun x y => f x = (g y).relabel β) ps qs := by
  rw [TypeTree.relabel_ofShape _ (by intro n hn; cases hn)] at h
  simp only [TypeTree.ofShape, TypeTree.node.injEq, Shape.parts, List.map_append, List.map_map] at h
  obtain ⟨hgenerics, hproperties⟩ := List.append_inj h.2 (by simp [hlen])
  refine ⟨?_, forall₂_properties hblank hproperties⟩
  rwa [← List.forall₂_eq_eq_eq, List.forall₂_map_left_iff, List.forall₂_map_right_iff] at hgenerics

theorem forall₂_square {α₁ α₂ α₃ α₄ : Type} {R : α₁ → α₂ → Prop} {S : α₁ → α₃ → Prop}
    {T : α₃ → α₄ → Prop} {Q : α₂ → α₄ → Prop} {xs : List α₁} {ys : List α₂} {zs : List α₃}
    {us : List α₄} (hR : List.Forall₂ R xs ys) (hS : List.Forall₂ S xs zs)
    (hT : List.Forall₂ T zs us)
    (h : ∀ x y z u, x ∈ xs → z ∈ zs → R x y → S x z → T z u → Q y u) : List.Forall₂ Q ys us := by
  induction hR generalizing zs us with
  | nil =>
    cases hS
    cases hT
    exact .nil
  | cons hxy _ ih =>
    cases hS with
    | cons hxz hS =>
      cases hT with
      | cons hzu hT =>
        refine .cons (h _ _ _ _ List.mem_cons_self List.mem_cons_self hxy hxz hzu) (ih hS hT ?_)
        intro x y z u hx hz
        exact h x y z u (List.mem_cons_of_mem _ hx) (List.mem_cons_of_mem _ hz)

/-- Instances of corresponding interfaces have corresponding trees. -/
theorem instance_trees {u : Sides} (hwu : w ≤ u) {gs hs xs ys : List TypeId}
    {ps' qs' : List Property} {d e : TypeId} (hd : w.left.get? d = some (.interface name gs ps))
    (he : w.right.get? e = some (.interface name hs qs))
    (hsep : hs ≠ ys → (Shape.interface name hs qs).Separated w.right β)
    (hgs : List.Forall₂ (fun g h => w.left.unfold g = (w.right.unfold h).relabel β) gs hs)
    (hpq : List.Forall₂ (Property.Rel fun x y => w.left.unfold x = (w.right.unfold y).relabel β)
      ps qs) (hxs : List.Forall₂ (fun x y => w.left.unfold x = (w.right.unfold y).relabel β) xs ys)
    (hps : List.Forall₂ (Property.Rel (u.left.Replaced (w.left.argumentTrees gs xs))) ps ps')
    (hqs : List.Forall₂ (Property.Rel (u.right.Replaced (w.right.argumentTrees hs ys))) qs qs') :
    List.Forall₂ (Property.Rel fun x y => u.left.unfold x = (u.right.unfold y).relabel β)
      ps' qs' := by
  have hleft : ∀ part ∈ gs ++ ps.map Property.type, w.left.Holds part :=
    fun part hp => w.leftGrounded.holds_part hd hp
  have hright : ∀ part ∈ hs ++ qs.map Property.type, w.right.Holds part :=
    fun part hp => w.rightGrounded.holds_part he hp
  refine forall₂_square hps hpq hqs ?_
  intro p p' q q' hp hq hpp hpq hqq
  have hpart := hleft p.type (List.mem_append_right gs (List.mem_map_of_mem hp))
  have hpart' := hright q.type (List.mem_append_right hs (List.mem_map_of_mem hq))
  have hname : p'.name = q'.name := by rw [← hpp.name, hpq.name, hqq.name]
  have hoptional : p'.optional = q'.optional := by rw [← hpp.optional, hpq.optional, hqq.optional]
  refine ⟨hname, ?_, hoptional⟩
  rw [hpp.type.2.2, hqq.type.2.2, w.leftGrounded.unfold_extends hwu.1 hpart,
    w.rightGrounded.unfold_extends hwu.2 hpart', hpq.type]
  by_cases hown : hs = ys
  · -- the interface is given its own parameters, on both sides
    subst hown
    have hsame : xs.map w.left.unfold = gs.map w.left.unfold :=
      (map_eq_map_of_forall₂ hxs fun _ _ htree => htree).trans
        (map_eq_map_of_forall₂ hgs fun _ _ htree => htree).symm
    rw [TypeTree.replace_fixed _ fun n u => argumentTrees_fixed w.leftGrounded
        (fun g hg => hleft g (List.mem_append_left _ hg)) hsame,
      TypeTree.replace_fixed _ fun n u => argumentTrees_fixed w.rightGrounded
        (fun h hh => hright h (List.mem_append_left _ hh)) rfl]
  -- the argument trees agree on the parameters that the property mentions
  apply TypeTree.relabel_replace
  intro m hm
  apply argumentTrees_relabelled w.leftGrounded w.rightGrounded
    (fun g hg => hleft g (List.mem_append_left _ hg))
    (fun h hh => hright h (List.mem_append_left _ hh)) hgs hxs
  intro n hn
  exact hsep hown n hn q hq m hm

/-- **Instantiation keeps the two sides in correspondence.** -/
theorem instantiate {d e : TypeId} (hd : w.Corresponds β d e) {xs ys : List TypeId}
    (hxs : List.Forall₂ (w.Corresponds β) xs ys) {id : TypeId} {types : TypeArena}
    (h : TypeArena.instantiate d xs w.left = (some id, types)) :
    ∃ v other, w ≤ v ∧ v.left = types ∧
      TypeArena.instantiate e ys w.right = (some other, v.right) ∧ v.Corresponds β id other := by
  obtain ⟨s, t, hs, ht, hst⟩ := hd.outline
  rcases TypeArena.instantiate_cases w.left d xs with hnone | ⟨name, gs, ps, hdeclared, hlen⟩
  · rw [hnone] at h
    cases h
  obtain rfl := Option.some.inj (hs.symm.trans hdeclared)
  obtain ⟨gs', ps', rfl, hgenerics, hblank⟩ := outline_interface hst
  have hheld : ∀ x ∈ xs, w.left.Holds x := forall_left hxs fun x y hxy => hxy.holds_left
  have hheld' : ∀ y ∈ ys, w.right.Holds y := forall_right hxs fun x y hxy => hxy.holds_right
  obtain ⟨a, qs, ha, -, hwa, hqs, heq⟩ := TypeArena.instantiate_spec (J := fun _ => True)
    (fun _ _ _ _ _ _ _ _ => .intro) w.leftGrounded .intro hs hlen hheld
  obtain ⟨b, qs', hb, -, hwb, hqs', heq'⟩ := TypeArena.instantiate_spec (J := fun _ => True)
    (fun _ _ _ _ _ _ _ _ => .intro) w.rightGrounded .intro ht
    (by rw [← hgenerics, hlen, hxs.length_eq]) hheld'
  let u : Sides := ⟨a, b, ha, hb⟩
  have hwu : w ≤ u := ⟨hwa, hwb⟩
  have hlayers : u.Layers β (.interface name xs qs) (.interface name ys qs') := by
    refine ⟨?_, ?_, ?_, ?_⟩
    · exact TypeArena.holds_instance_parts (fun x hx => hwa.holds (hheld x hx)) hqs
    · exact TypeArena.holds_instance_parts (fun y hy => hwb.holds (hheld' y hy)) hqs'
    · have hqs'' := (map_blank_eq hqs).symm.trans (hblank.trans (map_blank_eq hqs'))
      simp only [Shape.outline, Shape.blank]
      rw [hqs'', List.map_const', List.map_const', hxs.length_eq]
    · intro hsep
      have hbv := TypeArena.extends_intern b (.interface name ys qs')
      have hsepb := hsep.of_extends hb hbv
      have hsepw := hsepb.of_extends w.rightGrounded hwb
      have hdeclared := hd.tree hsepw
      rw [w.leftGrounded.unfold_eq hs, w.rightGrounded.unfold_eq ht] at hdeclared
      obtain ⟨hgs, hpq⟩ := interface_trees hgenerics hblank hdeclared
      -- the declaration and the instance are two interfaces of one name
      have hapart : gs' ≠ ys → (Shape.interface name gs' ps').Separated w.right β := by
        intro hne
        apply w.rightGrounded.separated (hwb.trans hbv) ht
        refine hsep _ ?_ ⟨.interface name ys qs', ?_, ?_⟩
        · exact (hwb.trans hbv).subset (List.mem_of_getElem? ht)
        · exact List.mem_of_getElem? (TypeArena.get?_intern b _)
        · simp [Shape.otherInstance, hne]
      have hqq := instance_trees hwu hs ht hapart hgs hpq (hxs.imp fun x y hxy => hxy.tree hsepw)
        hqs hqs'
      rw [TypeTree.relabel_ofShape _ (by intro n hn; cases hn)]
      refine (Shape.Rel.interface name ?_ hqq).ofShape_eq fun x y hxy => hxy
      exact hxs.imp fun x y hxy => (hxy.mono hwu).tree hsepb
  obtain ⟨v, huv, hleft, hright, hrel⟩ := intern hlayers
  rw [heq] at h
  cases h
  exact ⟨v, _, le_trans hwu huv, hleft, by rw [heq', hright], hrel⟩

end Sides

end TypedLua
