import TypedLua.Proofs.Simulation
import TypedLua.Types.Compatibility
import TypedLua.Types.Display

/-!
# Types.Related

Shapes that agree but for their parts.  A relation of ids is lifted to properties and shapes, place
by place; related shapes have one text and take the same shapes, if this is so for their parts.
-/

namespace TypedLua

/-! ## Related shapes -/

/-- Two properties agree but for their types, which are related. -/
structure Property.Rel (r : TypeId → TypeId → Prop) (p q : Property) : Prop where
  name : p.name = q.name
  type : r p.type q.type
  optional : p.optional = q.optional

variable {α β : Type} {ps : List Property} {R : α → β → Prop} {xs : List α} {ys : List β}

namespace Shape

/-- Two shapes agree but for their parts, which are related in order. -/
inductive Rel (r : TypeId → TypeId → Prop) : Shape → Shape → Prop
  | primitive (p : Primitive) : Rel r (.primitive p) (.primitive p)
  | generic (name : String) : Rel r (.generic name) (.generic name)
  | array {x y : TypeId} : r x y → Rel r (.array x) (.array y)
  | vararg {x y : TypeId} : r x y → Rel r (.vararg x) (.vararg y)
  | function {xs ys us vs : List TypeId} : List.Forall₂ r xs ys → List.Forall₂ r us vs →
      Rel r (.function xs us) (.function ys vs)
  | table {ps qs : List Property} : List.Forall₂ (Property.Rel r) ps qs →
      Rel r (.table ps) (.table qs)
  | interface (name : String) {gs hs : List TypeId} {ps qs : List Property} :
      List.Forall₂ r gs hs → List.Forall₂ (Property.Rel r) ps qs →
      Rel r (.interface name gs ps) (.interface name hs qs)

variable {r r' : TypeId → TypeId → Prop} {s t : Shape}

theorem Rel.mono (h : Rel r s t) (hr : ∀ x y, r x y → r' x y) : Rel r' s t := by
  have hp : ∀ p q, Property.Rel r p q → Property.Rel r' p q :=
    fun p q h => ⟨h.name, hr _ _ h.type, h.optional⟩
  cases h with
  | primitive p => exact .primitive p
  | generic name => exact .generic name
  | array h => exact .array (hr _ _ h)
  | vararg h => exact .vararg (hr _ _ h)
  | function hx hu => exact .function (hx.imp hr) (hu.imp hr)
  | table hps => exact .table (hps.imp hp)
  | interface name hg hps => exact .interface name (hg.imp hr) (hps.imp hp)

theorem forall₂_property_parts {qs : List Property} (h : List.Forall₂ (Property.Rel r) ps qs) :
    List.Forall₂ r (ps.map Property.type) (qs.map Property.type) := by
  rw [List.forall₂_map_left_iff, List.forall₂_map_right_iff]
  exact h.imp fun _ _ hpq => hpq.type

/-- Related layers have related parts. -/
theorem Rel.parts (h : Rel r s t) : List.Forall₂ r s.parts t.parts := by
  cases h with
  | primitive p => exact .nil
  | generic name => exact .nil
  | array h => exact .cons h .nil
  | vararg h => exact .cons h .nil
  | function hx hu => exact List.rel_append hx hu
  | table hps => exact forall₂_property_parts hps
  | interface name hg hps => exact List.rel_append hg (forall₂_property_parts hps)

theorem forall₂_property_refl (h : ∀ x ∈ ps.map Property.type, r x x) :
    List.Forall₂ (Property.Rel r) ps ps := by
  rw [List.forall₂_same]
  intro p hp
  exact ⟨rfl, h p.type (List.mem_map_of_mem hp), rfl⟩

theorem Rel.refl (h : ∀ x ∈ s.parts, r x x) : Rel r s s := by
  cases s with
  | primitive p => exact .primitive p
  | generic name => exact .generic name
  | array e => exact .array (h e List.mem_cons_self)
  | vararg e => exact .vararg (h e List.mem_cons_self)
  | function xs us =>
    refine .function (List.forall₂_same.2 ?_) (List.forall₂_same.2 ?_)
    · intro x hx
      exact h x (List.mem_append_left _ hx)
    · intro u hu
      exact h u (List.mem_append_right _ hu)
  | table ps => exact .table (forall₂_property_refl h)
  | interface name gs ps =>
    refine .interface name (List.forall₂_same.2 ?_) (forall₂_property_refl ?_)
    · intro g hg
      exact h g (List.mem_append_left _ hg)
    · intro x hx
      exact h x (List.mem_append_right _ hx)

theorem Rel.left_unique (hr : Relator.LeftUnique r) {u : Shape} (hs : Rel r s u)
    (ht : Rel r t u) : s = t := by
  have hp : Relator.LeftUnique (Property.Rel r) := by
    intro p q o hpo hqo
    have hname : p.name = q.name := hpo.name.trans hqo.name.symm
    have htype : p.type = q.type := hr hpo.type hqo.type
    have hopt : p.optional = q.optional := hpo.optional.trans hqo.optional.symm
    cases p
    cases q
    simp_all
  cases hs with
  | primitive p => cases ht; rfl
  | generic name => cases ht; rfl
  | array h => cases ht with | array h' => rw [hr h h']
  | vararg h => cases ht with | vararg h' => rw [hr h h']
  | function hx hu =>
    cases ht with
    | function hx' hu' => rw [hr.forall₂ hx hx', hr.forall₂ hu hu']
  | table hps => cases ht with | table hps' => rw [hp.forall₂ hps hps']
  | interface name hg hps =>
    cases ht with
    | interface _ hg' hps' => rw [hr.forall₂ hg hg', hp.forall₂ hps hps']

theorem Rel.flip (h : Rel r s t) : Rel (fun x y => r y x) t s := by
  have hlist : ∀ {xs ys : List TypeId}, List.Forall₂ r xs ys →
      List.Forall₂ (fun x y => r y x) ys xs := fun h => List.Forall₂.flip h
  have hprop : ∀ {ps qs : List Property}, List.Forall₂ (Property.Rel r) ps qs →
      List.Forall₂ (Property.Rel fun x y => r y x) qs ps := by
    intro ps qs h
    refine List.Forall₂.flip (h.imp ?_)
    intro p q hpq
    exact ⟨hpq.name.symm, hpq.type, hpq.optional.symm⟩
  cases h with
  | primitive p => exact .primitive p
  | generic name => exact .generic name
  | array h => exact .array h
  | vararg h => exact .vararg h
  | function hx hu => exact .function (hlist hx) (hlist hu)
  | table hps => exact .table (hprop hps)
  | interface name hg hps => exact .interface name (hlist hg) (hprop hps)

/-- At most one layer is related to a layer, if it is so for ids. -/
theorem Rel.right_unique (hr : Relator.RightUnique r) {u : Shape} (hs : Rel r u s)
    (ht : Rel r u t) : s = t :=
  Rel.left_unique (r := fun x y => r y x) (fun _ _ _ hx hy => hr hx hy) hs.flip ht.flip

theorem Rel.eq (h : Rel r s t) (hr : ∀ x y, r x y → x = y) : s = t := by
  have hleft : Relator.LeftUnique (Eq : TypeId → TypeId → Prop) :=
    fun _ _ _ hx hy => hx.trans hy.symm
  exact Rel.left_unique hleft (h.mono hr) (Rel.refl fun _ _ => rfl)

theorem Rel.and_left {P : TypeId → Prop} (h : Rel r s t) (hP : ∀ x ∈ s.parts, P x) :
    Rel (fun x y => r x y ∧ P x) s t := by
  have hlist : ∀ {xs ys : List TypeId}, List.Forall₂ r xs ys → (∀ x ∈ xs, P x) →
      List.Forall₂ (fun x y => r x y ∧ P x) xs ys := by
    intro xs ys hxy hx
    exact ((List.forall₂_and_left xs ys).2 ⟨hx, hxy⟩).imp fun _ _ h => ⟨h.2, h.1⟩
  have hprop : ∀ {ps qs : List Property}, List.Forall₂ (Property.Rel r) ps qs →
      (∀ x ∈ ps.map Property.type, P x) →
      List.Forall₂ (Property.Rel fun x y => r x y ∧ P x) ps qs := by
    intro ps qs hpq hp
    have hp' : ∀ p ∈ ps, P p.type := fun p hmem => hp p.type (List.mem_map_of_mem hmem)
    exact ((List.forall₂_and_left ps qs).2 ⟨hp', hpq⟩).imp
      fun _ _ h => ⟨h.2.name, ⟨h.2.type, h.1⟩, h.2.optional⟩
  cases h with
  | primitive p => exact .primitive p
  | generic name => exact .generic name
  | array hx => exact .array ⟨hx, hP _ List.mem_cons_self⟩
  | vararg hx => exact .vararg ⟨hx, hP _ List.mem_cons_self⟩
  | function hx hu =>
    exact .function (hlist hx fun x h => hP x (List.mem_append_left _ h))
      (hlist hu fun x h => hP x (List.mem_append_right _ h))
  | table hps => exact .table (hprop hps hP)
  | interface name hg hps =>
    exact .interface name (hlist hg fun x h => hP x (List.mem_append_left _ h))
      (hprop hps fun x h => hP x (List.mem_append_right _ h))

end Shape

theorem findProperty_rel {r : TypeId → TypeId → Prop} {qs : List Property}
    (h : List.Forall₂ (Property.Rel r) ps qs) (name : String) :
    Option.Rel (Property.Rel r) (findProperty ps name) (findProperty qs name) := by
  unfold findProperty
  induction h with
  | nil => exact .none
  | @cons p q ps qs hpq _ ih =>
    rw [List.find?_cons, List.find?_cons, hpq.name]
    cases q.name == name with
    | true => exact .some hpq
    | false => exact ih

theorem Shape.Rel.property? {r : TypeId → TypeId → Prop} {s t : Shape} (h : Shape.Rel r s t)
    (name : String) : Option.Rel (Property.Rel r) (s.property? name) (t.property? name) := by
  refine findProperty_rel ?_ name
  cases h with
  | table hps => exact hps
  | interface _ _ hps => exact hps
  | _ => exact .nil

/-! ## One layer -/

section

variable {r q : TypeId → TypeId → Prop} {s s' t t' : Shape}

theorem allPairs_congr {f g : TypeId → TypeId → Bool} {xs xs' ys ys' : List TypeId}
    (hx : List.Forall₂ r xs xs') (hy : List.Forall₂ q ys ys')
    (h : ∀ x x' y y', r x x' → q y y' → f x y = g x' y') :
    allPairs f xs ys = allPairs g xs' ys' := by
  unfold allPairs
  rw [hx.length_eq, hy.length_eq]
  -- only the pairs are left, in the order of the first list
  congr 1
  induction hx generalizing ys ys' with
  | nil => rfl
  | cons hxx _ ih =>
    cases hy with
    | nil => rfl
    | cons hyy hy => simp only [List.zip_cons_cons, List.all_cons, h _ _ _ _ hxx hyy, ih hy]

/-- Related layers compare the same if their parts do. -/
theorem Shape.Rel.takes_eq {f g : TypeId → TypeId → Bool} (hs : Shape.Rel r s s')
    (ht : Shape.Rel q t t') (h : ∀ x x' y y', r x x' → q y y' → f x y = g x' y') :
    s.takes f t = s'.takes g t' := by
  cases hs with
  | table hps =>
    cases ht with
    | @table qs qs' hqs =>
      simp only [Shape.takes]
      induction hps with
      | nil => rfl
      | @cons p p' ps ps' hpp _ ih =>
        simp only [List.all_cons, ih]
        congr 1
        have hfound := findProperty_rel hqs p.name
        rw [← hpp.name]
        revert hfound
        cases findProperty qs p.name <;> cases findProperty qs' p.name <;> intro hfound <;>
          cases hfound
        · exact hpp.optional
        · next hqq => exact h _ _ _ _ hpp.type hqq.type
    | _ => rfl
  | function hx hu =>
    cases ht with
    | function hy hv =>
      simp only [Shape.takes, allPairs_congr hx hy h, allPairs_congr hu hv h]
    | _ => rfl
  | interface name hg hps =>
    cases ht with
    | interface _ hg' hps' => simp only [Shape.takes, hg.length_eq, hg'.length_eq]
    | _ => rfl
  | array hx =>
    cases ht with
    | array hy => exact h _ _ _ _ hx hy
    | _ => rfl
  | vararg hx =>
    cases ht with
    | vararg hy => exact h _ _ _ _ hx hy
    | _ => rfl
  | primitive p => cases ht <;> rfl
  | generic name => cases ht <;> rfl

theorem map_eq_map_of_forall₂ {γ : Type} {f : α → γ} {g : β → γ} (hx : List.Forall₂ R xs ys)
    (h : ∀ x y, R x y → f x = g y) : xs.map f = ys.map g := by
  induction hx with
  | nil => rfl
  | cons hxy _ ih => rw [List.map_cons, List.map_cons, h _ _ hxy, ih]

theorem forall_left {P : α → Prop} (h : List.Forall₂ R xs ys) (hP : ∀ x y, R x y → P x) :
    ∀ x ∈ xs, P x := by
  induction h with
  | nil => exact fun _ hx => absurd hx List.not_mem_nil
  | cons hxy _ ih => exact List.forall_mem_cons.2 ⟨hP _ _ hxy, ih⟩

theorem forall_right {P : β → Prop} (h : List.Forall₂ R xs ys) (hP : ∀ x y, R x y → P y) :
    ∀ y ∈ ys, P y :=
  forall_left h.flip fun y x => hP x y

/-- They are displayed the same if their parts are. -/
theorem Shape.Rel.displayShape_eq {f g : TypeId → String} (hs : Shape.Rel r s s')
    (h : ∀ x y, r x y → f x = g y) : TypeArena.displayShape f s = TypeArena.displayShape g s' := by
  have hprop : ∀ p q, Property.Rel r p q →
      TypeArena.displayProperty f p = TypeArena.displayProperty g q := by
    intro p q hpq
    unfold TypeArena.displayProperty
    rw [hpq.name, hpq.optional, h _ _ hpq.type]
  cases hs with
  | primitive p => rfl
  | generic name => rfl
  | array hx | vararg hx => simp only [TypeArena.displayShape, h _ _ hx]
  | function hx hu =>
    simp only [TypeArena.displayShape, map_eq_map_of_forall₂ hx h, map_eq_map_of_forall₂ hu h]
    cases hu <;> rfl
  | table hps =>
    have hmap := map_eq_map_of_forall₂ hps hprop
    cases hps with
    | nil => rfl
    | cons _ _ => simp only [TypeArena.displayShape, hmap]
  | interface name hg hps =>
    have hmap := map_eq_map_of_forall₂ hg h
    cases hg with
    | nil => rfl
    | cons _ _ => simp only [TypeArena.displayShape, hmap]

end

/-! ## Links -/

namespace Link

variable {W : Type} [Preorder W]

/-- Properties correspond if they agree but for their types, which correspond. -/
def property (T : Link W TypeId TypeId) : Link W Property Property where
  rel w := Property.Rel (T.rel w)
  mono hwv _ _ h := ⟨h.name, T.mono hwv h.type, h.optional⟩

/-- Shapes correspond if they agree but for their parts, which correspond. -/
def shape (T : Link W TypeId TypeId) : Link W Shape Shape where
  rel w := Shape.Rel (T.rel w)
  mono hwv _ _ h := h.mono fun _ _ => T.mono hwv

end Link

end TypedLua
