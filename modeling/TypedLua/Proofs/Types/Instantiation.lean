import TypedLua.Proofs.Types.Instances
import TypedLua.Proofs.Types.Interning

/-!
# Types.Instantiation

Giving arguments to an interface over distinct parameters.  The instance has the declared properties
with all parameters replaced at once, whatever the arguments mention.  If the declaration mentions no
other parameters, replacing parameters in the instance is replacing them in its arguments: the type
that comes out is the one that the new arguments give.

Main statements: `instantiate_simultaneous` and `substitute_instantiate`.
-/

namespace TypedLua.TypeArena

variable {a b : TypeArena} {d x y z : TypeId} {name : String} {names : List String}
  {declared : List PropertyTree} {xs ys : List TypeId} {r : Replacement}
  {σ : String → Option TypeTree}

/-! ## Instances -/

/-- The type is the interface with these arguments and the declared properties. -/
def IsInstance (a : TypeArena) (name : String) (names : List String) (declared : List PropertyTree)
    (xs : List TypeId) (x : TypeId) : Prop :=
  ∃ ps, a.get? x = some (.interface name xs ps) ∧ a.ConformsTo names declared xs ps

/-- An instance stays one when the arena grows. -/
theorem IsInstance.mono (h : a.IsInstance name names declared xs x) (ha : a.Grounded)
    (hab : a.Extends b) : b.IsInstance name names declared xs x := by
  obtain ⟨ps, hx, hconforms⟩ := h
  exact ⟨ps, hab.get? hx, hconforms.mono ha hab fun part hp => ha.holds_part hx hp⟩

theorem IsInstance.holds (h : a.IsInstance name names declared xs x) : a.Holds x :=
  holds_of_get? h.choose_spec.1

/-- Instantiation gives the instance. -/
theorem Declares.instantiate (hd : a.Declares d name names declared) (ha : a.Grounded)
    (hlen : xs.length = names.length) (hxs : ∀ x ∈ xs, a.Holds x) :
    ∃ x b, TypeArena.instantiate d xs a = (some x, b) ∧ b.Grounded ∧ a.Extends b ∧
      b.IsInstance name names declared xs x := by
  obtain ⟨gs, ps, hget, hgs, hdistinct, rfl⟩ := hd
  have hcount : gs.length = xs.length := (List.Forall₂.length_eq hgs).trans hlen.symm
  obtain ⟨b, qs, hb, -, hab, hqs, heq⟩ := instantiate_spec (J := fun _ => True)
    (fun _ _ _ _ _ _ _ _ => .intro) ha .intro hget hcount hxs
  have hheld : ∀ x ∈ xs, b.Holds x := fun x hx => hab.holds (hxs x hx)
  have hparts : ∀ part ∈ (Shape.interface name xs qs).parts, b.Holds part :=
    holds_instance_parts hheld hqs
  have hext := extends_intern b (.interface name xs qs)
  have hconforms : b.ConformsTo names (a.unfoldProperties ps) xs qs := by
    refine ⟨hlen, ?_⟩
    -- neither the declaration nor the arguments unfold to anything else in the later arena
    have hps : b.unfoldProperties ps = a.unfoldProperties ps :=
      ha.unfoldProperties_extends hab fun p hp =>
        ha.holds_part hget (List.mem_append_right gs (List.mem_map_of_mem hp))
    have htrees : xs.map b.unfold = xs.map a.unfold :=
      List.map_congr_left fun x hx => ha.unfold_extends hab (hxs x hx)
    rw [unfoldProperties_replaced hqs, hps, hgs.argumentTrees_eq hdistinct hcount, htrees]
  exact ⟨_, _, heq, hb.intern hparts, hab.trans hext, qs, get?_intern b _,
    hconforms.mono hb hext hparts⟩

/-- **Instantiation is simultaneous replacement.**  The instance has the name, the given arguments
and the declared properties in order, where every parameter has become the argument given for it, at
any depth and all at once; what an argument mentions is left as it is. -/
theorem instantiate_simultaneous (h : Reached a) (hd : a.Declares d name names declared)
    (hlen : xs.length = names.length) (hxs : ∀ x ∈ xs, a.Holds x) :
    ∃ id b qs, instantiate d xs a = (some id, b) ∧ a.Extends b ∧
      b.get? id = some (.interface name xs qs) ∧
      b.unfoldProperties qs =
        declared.map (PropertyTree.replace (TypeTree.binding names (xs.map a.unfold))) := by
  obtain ⟨id, b, heq, hb, hab, qs, hget, -, htrees⟩ := hd.instantiate h.grounded hlen hxs
  refine ⟨id, b, qs, heq, hab, hget, htrees.trans ?_⟩
  rw [List.map_congr_left fun x hx => h.grounded.unfold_extends hab (hxs x hx)]

/-- An interface whose parameters are swapped. -/
theorem instantiate_simultaneous_swapped :
    let a := (Call.form (.interface "Pair" [⟨7⟩, ⟨8⟩] [⟨"k", ⟨7⟩, false⟩, ⟨"v", ⟨9⟩, true⟩])).run
      ((Call.form (.array ⟨8⟩)).run
        ((Call.form (.generic "V")).run ((Call.form (.generic "K")).run primitives)))
    ∃ id b qs, instantiate ⟨10⟩ [⟨8⟩, ⟨7⟩] a = (some id, b) ∧ a.Extends b ∧
      b.get? id = some (.interface "Pair" [⟨8⟩, ⟨7⟩] qs) ∧
      b.unfoldProperties qs = [⟨"k", .parameter "V", false⟩,
        ⟨"v", .node (.array default) [.parameter "K"], true⟩] := by
  intro a
  have h : Reached a :=
    .call _ (.call _ (.call _ (.call _ .new (by decide)) (by decide)) (by decide)) (by decide)
  have hd : a.Declares ⟨10⟩ "Pair" ["K", "V"] [⟨"k", .parameter "K", false⟩,
      ⟨"v", .node (.array default) [.parameter "V"], true⟩] :=
    ⟨[⟨7⟩, ⟨8⟩], _, rfl, .cons rfl (.cons rfl .nil), by decide, rfl⟩
  exact instantiate_simultaneous h hd rfl (by decide)

/-! ## Replacing parameters in an instance -/

/-- What a replacement stands for. -/
def Replacement.trees (a : TypeArena) (r : Replacement) (name : String) : Option TypeTree :=
  (r.lookup name).map a.unfold

/-- Substitution gives the tree with arguments in place. -/
theorem substitute_spec (ha : a.Grounded) (hr : ∀ n id, r.lookup n = some id → a.Holds id)
    (hab : a.Extends b) (hb : b.Grounded) (hx : b.Holds x) :
    (substitute r x b).2.Grounded ∧ b.Extends (substitute r x b).2 ∧
      (substitute r x b).2.Replaced (r.trees a) x (substitute r x b).1 := by
  have hreplaces : a.Replaces r (r.trees a) :=
    ⟨fun hname => hr _ _ hname, fun _ => rfl⟩
  have hsize : x.index < b.size := hx
  have hbound := b.size_le_idBound (x :: r.map Prod.snd)
  obtain ⟨⟨hgrounded, -⟩, hext, hreplaced⟩ := substituteWithin_spec (J := fun _ => True)
    (fun _ _ _ _ _ _ _ _ => .intro) (b.idBound (x :: r.map Prod.snd) + 1) x b hb
    (hreplaces.mono ha hab) .intro hx (by omega)
  exact ⟨hgrounded, hext, hreplaced⟩

theorem mapM_substitute_spec (ha : a.Grounded) (hr : ∀ n id, r.lookup n = some id → a.Holds id)
    (hab : a.Extends b) (hb : b.Grounded) (hxs : ∀ x ∈ xs, a.Holds x) :
    (xs.mapM (substitute r) b).2.Grounded ∧ b.Extends (xs.mapM (substitute r) b).2 ∧
      List.Forall₂ ((xs.mapM (substitute r) b).2.Replaced (r.trees a)) xs
        (xs.mapM (substitute r) b).1 := by
  obtain ⟨⟨hgrounded, -⟩, hext, hall⟩ := mapM_spec (I := fun c => c.Grounded ∧ a.Extends c)
    (R := fun c => c.Replaced (r.trees a)) (fun c e x y hc hce hxy => hxy.mono hc.1 hce) xs
    (by
      rintro x hx c ⟨hc, hac⟩
      obtain ⟨hgrounded, hext, hreplaced⟩ := substitute_spec ha hr hac hc (hac.holds (hxs x hx))
      exact ⟨⟨hgrounded, hac.trans hext⟩, hext, hreplaced⟩) b ⟨hb, hab⟩
  exact ⟨hgrounded, hext, hall⟩

theorem forall₂_of_unfoldProperties {ps qs : List Property}
    (h : a.unfoldProperties qs = (a.unfoldProperties ps).map (PropertyTree.replace σ)) :
    List.Forall₂ (Property.Rel fun u v => a.unfold v = (a.unfold u).replace σ) ps qs := by
  rw [unfoldProperties, unfoldProperties, List.map_map, eq_comm, ← List.forall₂_eq_eq_eq,
    List.forall₂_map_left_iff, List.forall₂_map_right_iff] at h
  refine h.imp fun p q hpq => ?_
  simp only [Function.comp_apply, PropertyTree.replace, PropertyTree.mk.injEq] at hpq
  exact ⟨hpq.1, hpq.2.1.symm, hpq.2.2⟩

/-- An instance whose arguments are replaced is the instance of these. -/
theorem IsInstance.eq_of_replaced (hx : a.IsInstance name names declared xs x)
    (hz : a.IsInstance name names declared ys z) (hclosed : ClosedUnder names declared)
    (ha : a.Grounded) (hy : a.Replaced σ x y) (hys : List.Forall₂ (a.Replaced σ) xs ys) : z = y := by
  obtain ⟨ps, hxget, hlen, hps⟩ := hx
  obtain ⟨qs, hzget, -, hqs⟩ := hz
  -- in an arena a type is known by its structure
  refine (ha.unfold_eq_iff (holds_of_get? hzget) hy.2.1).1 ?_
  rw [hy.2.2, ha.unfold_eq hxget, ha.unfold_eq hzget]
  refine ofShape_replace (.interface name (hys.imp fun u v huv => huv.2.2) ?_) nofun
  have htrees : ys.map a.unfold = (xs.map a.unfold).map (TypeTree.replace σ) := by
    rw [List.map_map]
    exact (map_eq_map_of_forall₂ hys fun u v huv => huv.2.2.symm).symm
  apply forall₂_of_unfoldProperties
  rw [hqs, hps, htrees, hclosed.replace_replace (by rw [List.length_map, hlen])]

/-- The type `y` of the arena `b` is what the interface `d` gives directly for the arguments with
parameters replaced in them, be it before or after: in every arena that holds what is needed. -/
def GivenDirectly (a b : TypeArena) (d : TypeId) (xs : List TypeId) (r : Replacement)
    (y : TypeId) : Prop :=
  ∀ c, a.Extends c → c.Grounded → ∃ z e,
    instantiate d (xs.mapM (substitute r) c).1 (xs.mapM (substitute r) c).2 = (some z, e) ∧
      (b.Extends e ∨ e.Extends b → z = y)

/-- Replacing in an instance gives what the replaced arguments give directly. -/
theorem IsInstance.givenDirectly (hx : b.IsInstance name names declared xs x) (ha : a.Grounded)
    (hb : b.Grounded) (hd : a.Declares d name names declared) (hclosed : ClosedUnder names declared)
    (hxs : ∀ x ∈ xs, a.Holds x) (hr : ∀ n id, r.lookup n = some id → a.Holds id)
    (hy : b.Replaced (r.trees a) x y) : a.GivenDirectly b d xs r y := by
  intro c hac hc
  obtain ⟨hgrounded, hext, hys⟩ := mapM_substitute_spec ha hr hac hc hxs
  have hlen : (xs.mapM (substitute r) c).1.length = names.length := by
    obtain ⟨ps, -, hlen, -⟩ := hx
    rw [← hys.length_eq, hlen]
  obtain ⟨z, e, heq, he, hce, hz⟩ := (hd.mono ha (hac.trans hext)).instantiate hgrounded hlen
    (forall_right hys fun u v huv => huv.2.1)
  refine ⟨z, e, heq, ?_⟩
  -- all is compared in the later one of the two arenas
  rintro (hbe | heb)
  · exact (hx.mono hb hbe).eq_of_replaced hz hclosed he (hy.mono hb hbe)
      (hys.imp fun u v huv => huv.mono hgrounded hce)
  · exact hx.eq_of_replaced (hz.mono he heb) hclosed hb hy
      (hys.imp fun u v huv => huv.mono hgrounded (hce.trans heb))

/-- **Instantiation composes.**  For a declaration that mentions no parameters but its own, replacing
parameters in an instance gives the type that the arguments with parameters replaced give directly.
So does a property that has the instance as its type, in every instance of its own interface. -/
theorem substitute_instantiate (h : Reached a) (hd : a.Declares d name names declared)
    (hclosed : ClosedUnder names declared) (hlen : xs.length = names.length)
    (hxs : ∀ x ∈ xs, a.Holds x) (hab : a.Extends b) (hb : b.Grounded) :
    ∃ x c, instantiate d xs b = (some x, c) ∧
      (∀ r : Replacement, (∀ n id, r.lookup n = some id → a.Holds id) →
        a.GivenDirectly (substitute r x c).2 d xs r (substitute r x c).1) ∧
      ∀ e o outer gs ws ps, c.Extends e → e.Grounded → e.get? o = some (.interface outer gs ps) →
        gs.length = ws.length → (∀ w ∈ ws, e.Holds w) →
        ∃ id f qs, instantiate o ws e = (some id, f) ∧ f.get? id = some (.interface outer ws qs) ∧
          List.Forall₂ (fun p q => p.type = x →
            e.GivenDirectly f d xs (e.replacement gs ws) q.type) ps qs := by
  have ha := h.grounded
  obtain ⟨x, c, heq, hc, hbc, hx⟩ := (hd.mono ha hab).instantiate hb hlen
    fun x hx => hab.holds (hxs x hx)
  refine ⟨x, c, heq, ?_, ?_⟩
  · intro r hr
    obtain ⟨hgrounded, hext, hreplaced⟩ := substitute_spec ha hr (hab.trans hbc) hc hx.holds
    exact (hx.mono hc hext).givenDirectly ha hgrounded hd hclosed hxs hr hreplaced
  · -- the instance is the type of a property, and instantiating replaces parameters in it
    intro e o outer gs ws ps hce he ho hcount hws
    have hae : a.Extends e := (hab.trans hbc).trans hce
    obtain ⟨f, qs, hf, -, hef, hqs, heq⟩ := instantiate_spec (J := fun _ => True)
      (fun _ _ _ _ _ _ _ _ => .intro) he .intro ho hcount hws
    have hparts : ∀ part ∈ (Shape.interface outer ws qs).parts, f.Holds part :=
      holds_instance_parts (fun w hw => hef.holds (hws w hw)) hqs
    have hext := extends_intern f (.interface outer ws qs)
    refine ⟨_, _, qs, heq, get?_intern f _, hqs.imp fun p q hpq hp => ?_⟩
    have hreplaced := hpq.type
    rw [hp] at hreplaced
    exact ((hx.mono hc hce).mono he (hef.trans hext)).givenDirectly he (hf.intern hparts)
      (hd.mono ha hae) hclosed (fun x hx => hae.holds (hxs x hx))
      (fun n id hn => hws id (mem_of_replacement_lookup hn)) (hreplaced.mono hf hext)

/-- A number becomes the argument of an instance that has a parameter for it. -/
theorem substitute_instantiate_box :
    let a := (Call.form (.generic "U")).run
      ((Call.form (.interface "Box" [⟨7⟩] [⟨"v", ⟨7⟩, false⟩])).run
        ((Call.form (.generic "T")).run primitives))
    ∃ x c, instantiate ⟨8⟩ [⟨9⟩] a = (some x, c) ∧
      a.GivenDirectly (substitute [("U", ⟨1⟩)] x c).2 ⟨8⟩ [⟨9⟩] [("U", ⟨1⟩)]
        (substitute [("U", ⟨1⟩)] x c).1 := by
  intro a
  have h : Reached a := .call _ (.call _ (.call _ .new (by decide)) (by decide)) (by decide)
  have hd : a.Declares ⟨8⟩ "Box" ["T"] [⟨"v", .parameter "T", false⟩] :=
    ⟨[⟨7⟩], _, rfl, .cons rfl .nil, by decide, rfl⟩
  have hclosed : ClosedUnder ["T"] [⟨"v", .parameter "T", false⟩] := by
    simp [ClosedUnder, TypeTree.parameters]
  have hxs : ∀ x ∈ [(⟨9⟩ : TypeId)], a.Holds x := by decide
  obtain ⟨x, c, heq, hdirect, -⟩ :=
    substitute_instantiate h hd hclosed rfl hxs (.refl a) h.grounded
  refine ⟨x, c, heq, hdirect _ fun n id hn => ?_⟩
  rw [List.lookup_cons] at hn
  split at hn
  · cases hn
    decide
  · cases hn

end TypedLua.TypeArena
